import HomeEnergyManager.Subscription.Effects

/-! # No node is asked for twice

The pending flag is the only guard against a second request for a node, so a node may be asked for
again as soon as its flag is clear. While the flag is cleared only for nodes that wait nowhere and
are about to leave their slot, each node has one request or one slot at most. This is a property of
node ids, and 0, which marks what is unused, is none.
-/

namespace HomeEnergyManager.SubscriptionManager

/-- The action is on the way to free a slot of `n`. -/
def Act.Releases (s : Shared) (n : ℕ) : Act → Prop
  | .finished m => m = n
  | .freeSlot i => 0 < slotWeight n (s.slots i)
  | _ => False

instance (s : Shared) (n : ℕ) : DecidablePred (Act.Releases s n)
  | .finished m => inferInstanceAs (Decidable (m = n))
  | .freeSlot _ => inferInstanceAs (Decidable (0 < _))
  | .markHas _ _ | .markNo _ _ | .terminated _ _ | .deviceMark _ _ | .refreshIcdFlag _
  | .retryUnlessIcd _ | .checkinIfWanted _ | .enqueue _ | .queueSend _ | .sweep | .sweepNode _
  | .sweepDone | .dropUnlessWanted _ | .skipIfSubscribed _ | .lockSlots _ | .reclaim _ _ _
  | .takeSlot _ | .schedule _ _ | .getSource _ _ | .sendCommand _ _ _ => isFalse id

/-- Some task is on the way to free a slot of `n`. -/
def State.Releasing (s : State) (n : ℕ) : Prop := ∃ t, ∃ a ∈ s.acts t, a.Releases s.toShared n

/-- The condition on an action of a task, which goes on with `rest`. A set pending flag is cleared
only while the node waits nowhere and, if it has a slot, on the way to free that slot. A node whose
flag is clear is not asked for while a task is on the way to free its slot. -/
def ClearsInOrder (s : State) (rest : List Act) : Act → Prop
  | .markHas n sid =>
    s.pending n = true → (Act.markHas n sid).Clears s.toShared n →
      s.waiting n = 0 ∧ (0 < s.slotCount n → ∃ b ∈ rest, b.Releases s.toShared n)
  | .markNo n sid =>
    s.pending n = true → (Act.markNo n sid).Clears s.toShared n →
      s.waiting n = 0 ∧ (0 < s.slotCount n → ∃ b ∈ rest, b.Releases s.toShared n)
  | .terminated n sid =>
    s.pending n = true → (Act.terminated n sid).Clears s.toShared n → s.waiting n = 0
  | .enqueue n => s.pending n = false → 0 < s.slotCount n → ¬ s.Releasing n
  | _ => True

def StepInOrder (s : State) : Label → Prop
  | .act t _ =>
    match s.acts t with
    | a :: rest => ClearsInOrder s rest a
    | [] => True
  | _ => True

instance (s : State) (n : ℕ) : Decidable (s.Releasing n) :=
  inferInstanceAs (Decidable (∃ t, ∃ a ∈ s.acts t, a.Releases s.toShared n))

instance (s : State) (rest : List Act) : DecidablePred (ClearsInOrder s rest)
  | .markHas _ _ | .markNo _ _ => inferInstanceAs (Decidable (_ → _ → _ ∧ (_ → ∃ b ∈ rest, _)))
  | .terminated _ _ => inferInstanceAs (Decidable (_ → _ → _))
  | .enqueue _ => inferInstanceAs (Decidable (_ → _ → ¬ _))
  | .deviceMark _ _ | .finished _ | .refreshIcdFlag _ | .retryUnlessIcd _ | .checkinIfWanted _
  | .queueSend _ | .sweep | .sweepNode _ | .sweepDone | .dropUnlessWanted _ | .skipIfSubscribed _
  | .lockSlots _ | .reclaim _ _ _ | .freeSlot _ | .takeSlot _ | .schedule _ _
  | .getSource _ _ | .sendCommand _ _ _ => isTrue trivial

instance (s : State) : DecidablePred (StepInOrder s)
  | .act t _ =>
    match h : s.acts t with
    | a :: rest => decidable_of_iff (ClearsInOrder s rest a) (by simp [StepInOrder, h])
    | [] => isTrue (by simp [StepInOrder, h])
  | .advance _ | .world _ _ _ | .deviceAdded _ | .deviceRemoved _ | .established _ _
  | .terminated _ _ | .failed _ | .checkin _ | .interrogated _ | .runWork | .topologyChanged _
  | .sweepDue | .receive => isTrue trivial

/-- A node occurs once at most in the queue, in the worker's hand and in the slots together. -/
def OncePerNode (s : State) : Prop :=
  ∀ n, s.queue.count n + ((s.acts .worker).filterMap Act.item).count n + s.slotCount n ≤ 1

/-- The invariant: once at most, and a node that is anywhere has its pending flag set, but for the
moment between the clearing of the flag and the release of the slot. -/
structure OnceInv (s : State) : Prop where
  once : ∀ n, s.waiting n + s.slotCount n ≤ 1
  marked : ∀ n, 0 < s.waiting n + s.slotCount n →
    s.pending n = true ∨ (0 < s.slotCount n ∧ s.Releasing n)

/-- What an action that clears a flag finds, in a step that is in order. -/
theorem ClearsInOrder.clears {s : State} {rest new : List Act} {a : Act} {ok : Bool} {s' : Shared}
    {n : ℕ} (h : ClearsInOrder s rest a) (hexec : exec s.toShared ok a = some (s', new))
    (hclears : a.Clears s.toShared n) (hpending : s.pending n = true) :
    s'.slots = s.slots ∧ s.waiting n = 0 ∧
      (0 < s.slotCount n → ∃ b ∈ new ++ rest, b.Releases s.toShared n) := by
  cases a <;> simp only [exec] at hexec
  case markHas m sid =>
    obtain rfl : m = n := hclears
    obtain ⟨rfl, rfl⟩ := Prod.mk.inj (Option.some.inj hexec)
    obtain ⟨hwait, hslot⟩ := h hpending rfl
    refine ⟨rfl, hwait, fun hpos => ?_⟩
    obtain ⟨b, hb, hrel⟩ := hslot hpos
    exact ⟨b, List.mem_append_right _ hb, hrel⟩
  case markNo m sid =>
    obtain ⟨rfl, hr⟩ := hclears
    obtain ⟨rfl, rfl⟩ := Prod.mk.inj (Option.some.inj hexec)
    obtain ⟨hwait, hslot⟩ := h hpending ⟨rfl, hr⟩
    refine ⟨rfl, hwait, fun hpos => ?_⟩
    obtain ⟨b, hb, hrel⟩ := hslot hpos
    exact ⟨b, List.mem_append_right _ hb, hrel⟩
  case terminated m sid =>
    obtain ⟨rfl, hr⟩ := hclears
    obtain ⟨rfl, rfl⟩ := Prod.mk.inj (Option.some.inj hexec)
    refine ⟨rfl, h hpending ⟨rfl, hr⟩, fun _ => ⟨.finished m, ?_, rfl⟩⟩
    rw [if_pos hr]
    simp
  all_goals exact hclears.elim

/-- Claiming a slot turns the request in the worker's hand into the slot; nothing else adds to what
a node has, but for the request that `enqueue_subscription` makes. -/
theorem perform_total {s s' : State} {t : Task} {ok : Bool} {a : Act} {rest new : List Act}
    (hacts : s.acts t = a :: rest) (hexec : exec s.toShared ok a = some (s'.toShared, new))
    (hacts' : s'.acts = Function.update s.acts t (new ++ rest)) (n : ℕ) :
    s'.waiting n + s'.slotCount n ≤ s.waiting n + s.slotCount n
      + (if a = .enqueue n ∧ new = [.queueSend n] then 1 else 0) := by
  have hwait := perform_waiting hacts hexec hacts' n
  rcases exec_slots hexec with hslots | ⟨i, heq, -, -⟩ |
    ⟨m, i, rfl, hnone, hqueue, -, rfl, hslots⟩
  · rw [show s'.slotCount n = s.slotCount n from congrArg (Tally.tally _) hslots]
    omega
  · have hfree := slotCount_free s.toShared i n
    rw [heq]
    omega
  · have heq := perform_waiting_eq hacts hacts' n
    have hnew : (requests [.schedule m s.attempts.length]).count n = 0 := rfl
    have hold : (requests [.takeSlot m]).count n = if m = n then 1 else 0 := by
      show [m].count n = _
      rw [List.count_singleton]
      simp
    have htally := Tally.tally_update_add (slotWeight n) s.slots i
      (some { nodeId := m, started := s.tickCount, attempt := s.attempts.length })
    rw [← hslots, hnone, slotWeight_none] at htally
    have hweight : slotWeight n
        (some { nodeId := m, started := s.tickCount, attempt := s.attempts.length })
          = if m = n then 1 else 0 := by
      simp [slotWeight]
    rw [hqueue, hnew, hold] at heq
    rw [hweight] at htally
    unfold Shared.slotCount
    omega

/-- A request is made only for a node that has none and no slot. -/
theorem OnceInv.fresh {s : State} (h : OnceInv s) {rest : List Act} {ok : Bool} {s' : Shared}
    {n : ℕ} (hok : ClearsInOrder s rest (.enqueue n))
    (hexec : exec s.toShared ok (.enqueue n) = some (s', [.queueSend n])) :
    s.waiting n + s.slotCount n = 0 := by
  have hclear := pending_of_exec_enqueue hexec
  by_contra hne
  rcases h.marked n (Nat.pos_of_ne_zero hne) with hpending | ⟨hslot, hrel⟩
  · exact absurd (hclear.symm.trans hpending) Bool.false_ne_true
  · exact hok hclear hslot hrel

/-- An action on the way to free the slot of `n` stays so while the slot is there. -/
theorem Act.Releases.persists {s s' : Shared} {ok : Bool} {a b : Act} {new : List Act} {n : ℕ}
    (h : b.Releases s n) (hexec : exec s ok a = some (s', new)) (hone : s.slotCount n ≤ 1)
    (hstays : 0 < s'.slotCount n) : b.Releases s' n := by
  cases b with
  | finished m => exact h
  | freeSlot i =>
    show 0 < slotWeight n (s'.slots i)
    have hi : 0 < slotWeight n (s.slots i) := h
    rcases exec_slots hexec with hslots | ⟨j, rfl, -, -⟩ | ⟨m, j, rfl, hnone, -, -, -, hslots⟩
    · rwa [hslots]
    · have hfree := slotCount_free s j n
      have hij : i ≠ j := by
        rintro rfl
        omega
      rwa [slots_free_of_ne hij]
    · have hij : i ≠ j := by
        rintro rfl
        rw [hnone] at hi
        exact absurd hi (lt_irrefl 0)
      rwa [hslots, Function.update_of_ne hij]
  | _ => exact h.elim

/-- The action that frees the slot of `n` leaves none, if there was one. -/
theorem Act.Releases.frees {s s' : Shared} {ok : Bool} {a : Act} {new : List Act} {n : ℕ}
    (h : a.Releases s n) (hexec : exec s ok a = some (s', new)) (hone : s.slotCount n ≤ 1)
    (hslot : 0 < s.slotCount n) : s'.slotCount n = 0 := by
  cases a with
  | finished m =>
    obtain rfl : m = n := h
    simp only [exec] at hexec
    split at hexec
    · contradiction
    · split at hexec
      · rename_i i hi
        obtain ⟨rfl, -⟩ := Prod.mk.inj (Option.some.inj hexec)
        have hfree := slotCount_free s i m
        have hweight := slotOf_eq_some hi
        omega
      · rename_i hnone
        exact absurd (slotOf_eq_none hnone) hslot.ne'
  | freeSlot i =>
    obtain ⟨rfl, -⟩ := Prod.mk.inj (Option.some.inj hexec)
    have hfree := slotCount_free s i n
    have hi : 0 < slotWeight n (s.slots i) := h
    omega
  | _ => exact h.elim

theorem onceInv_perform {s s' : State} {t : Task} {ok : Bool} {a : Act} {rest new : List Act}
    (h : OnceInv s) (hok : ClearsInOrder s rest a) (hacts : s.acts t = a :: rest)
    (hexec : exec s.toShared ok a = some (s'.toShared, new))
    (hacts' : s'.acts = Function.update s.acts t (new ++ rest)) : OnceInv s' := by
  have htotal := perform_total hacts hexec hacts'
  refine ⟨fun n => ?_, fun n hpos => ?_⟩
  · have hle := htotal n
    have hone := h.once n
    split at hle
    · rename_i hmade
      obtain ⟨rfl, rfl⟩ := hmade
      have := h.fresh hok hexec
      omega
    · omega
  · by_cases hmade : a = .enqueue n ∧ new = [.queueSend n]
    · exact Or.inl ((exec_pending hexec n).mpr (Or.inr hmade))
    · have hle := htotal n
      have hwait := perform_waiting hacts hexec hacts' n
      rw [if_neg hmade, add_zero] at hle hwait
      have hone := h.once n
      rcases h.marked n (by omega) with hpending | ⟨hslot, t', b, hb, hrel⟩
      · by_cases hclears : a.Clears s.toShared n
        -- the flag goes, and the slot is about to follow
        · obtain ⟨hslots, hzero, hrelease⟩ := hok.clears hexec hclears hpending
          have hcount : s'.slotCount n = s.slotCount n := congrArg (Tally.tally _) hslots
          have hpos' : 0 < s'.slotCount n := by omega
          obtain ⟨b, hb, hrel⟩ := hrelease (hcount ▸ hpos')
          refine Or.inr ⟨hpos', t, b, ?_, hrel.persists hexec (by omega) hpos'⟩
          rwa [hacts', Function.update_self]
        · exact Or.inl ((exec_pending hexec n).mpr (Or.inl ⟨hpending, hclears⟩))
      -- the slot is still there, so the action that frees it is still to come
      · have hpos' : 0 < s'.slotCount n := by omega
        have hba : ¬ (t' = t ∧ b = a) := by
          rintro ⟨-, rfl⟩
          exact hpos'.ne' (hrel.frees hexec (by omega) hslot)
        exact Or.inr ⟨hpos', t', b, mem_acts_of_ne hacts hacts' hb hba,
          hrel.persists hexec (by omega) hpos'⟩

theorem onceInv_step (s : State) (l : Label) (s' : State) (h : OnceInv s) (hok : StepInOrder s l)
    (hstep : step s l = some s') : OnceInv s' := by
  rcases step_cases hstep with ⟨t, ok, rfl, hperform⟩ | ⟨hnodes, hslots, -, hrest⟩
  · obtain ⟨a, rest, new, hacts, hexec, hacts'⟩ := perform_cases hperform
    simp only [StepInOrder, hacts] at hok
    exact onceInv_perform h hok hacts hexec hacts'
  · have hcount : ∀ n, s'.slotCount n = s.slotCount n :=
      fun n => congrArg (Tally.tally _) hslots
    have hpending : ∀ n, s'.pending n = s.pending n := fun n => congrArg (flag _ · n) hnodes
    have hrel : ∀ n (b : Act), b.Releases s.toShared n → b.Releases s'.toShared n := by
      intro n b hb
      cases b with
      | finished m => exact hb
      | freeSlot i =>
        show 0 < slotWeight n (s'.slots i)
        rwa [hslots]
      | _ => exact hb.elim
    have hwait : ∀ n, s'.waiting n = s.waiting n := by
      rcases hrest with ⟨t, acts, hidle, hacts', hstarts⟩ | ⟨hacts', hqueue⟩
      · exact start_waiting hidle hacts' hstarts
      · intro n
        rw [State.waiting, State.waiting, hacts', hqueue]
    have hmem : ∀ t b, b ∈ s.acts t → b ∈ s'.acts t := by
      intro t' b hb
      rcases hrest with ⟨t, acts, hidle, hacts', -⟩ | ⟨hacts', -⟩
      · exact mem_acts_of_start hidle hacts' hb
      · rwa [hacts']
    refine ⟨fun n => ?_, fun n hpos => ?_⟩
    · rw [hwait, hcount]
      exact h.once n
    · rw [hwait, hcount] at hpos
      rw [hpending, hcount]
      rcases h.marked n hpos with hp | ⟨hslot, t, b, hb, hbrel⟩
      · exact Or.inl hp
      · exact Or.inr ⟨hslot, t, b, hmem t b hb, hrel n b hbrel⟩

/-- Right after the start nothing is asked for. -/
theorem onceInv_boot (sensorEndpoints : List ℕ) (tariffSource : Option (ℕ × ℕ))
    (registeredIcds : List ℕ) (devices : ℕ → Option Bool) (tick : ℕ) :
    OnceInv (.boot sensorEndpoints tariffSource registeredIcds devices tick) := by
  have hslot : ∀ n,
      (State.boot sensorEndpoints tariffSource registeredIcds devices tick).slotCount n = 0 :=
    fun n => (Tally.tally_eq_zero_iff _ _).mpr fun _ => rfl
  have hwait : ∀ n, (State.boot sensorEndpoints tariffSource registeredIcds devices tick).waiting n
      = 0 := by
    intro n
    rw [State.waiting, (Tally.tally_eq_zero_iff _ _).mpr fun t => by cases t <;> rfl]
    rfl
  refine ⟨fun n => ?_, fun n hpos => ?_⟩
  · rw [hslot, hwait]
    exact Nat.zero_le _
  · rw [hslot, hwait] at hpos
    exact absurd hpos (lt_irrefl 0)

/-- What the worker holds is among the requests that wait. -/
theorem OnceInv.oncePerNode {s : State} (h : OnceInv s) : OncePerNode s := by
  intro n
  have hone := h.once n
  have hle := Tally.le_tally (fun acts => (requests acts).count n) s.acts .worker
  have hitem : ∀ acts : List Act, (acts.filterMap Act.item).count n ≤ (requests acts).count n := by
    intro acts
    induction acts with
    | nil => exact le_rfl
    | cons a acts ih =>
      have hcons : requests (a :: acts) = requests [a] ++ requests acts :=
        requests_append [a] acts
      have hcons' : (a :: acts).filterMap Act.item = [a].filterMap Act.item
          ++ acts.filterMap Act.item := List.filterMap_append (l := [a])
      have hhead : ([a].filterMap Act.item).count n ≤ (requests [a]).count n := by
        cases a <;> first | exact le_rfl | exact Nat.zero_le _
      rw [hcons, hcons', List.count_append, List.count_append]
      omega
  have := hitem (s.acts .worker)
  unfold State.waiting at hone
  omega

/-- In every run whose steps clear the pending flags in order, each node id occurs once at most in
the queue, in the worker's hand and in the slots together. -/
theorem node_asked_once (sensorEndpoints : List ℕ) (tariffSource : Option (ℕ × ℕ))
    (registeredIcds : List ℕ) (devices : ℕ → Option Bool) (tick : ℕ) (ls : List Label) (s : State)
    (hrun : StepSystem.run step
      (.boot sensorEndpoints tariffSource registeredIcds devices tick) ls = some s)
    (hok : StepSystem.Meets step StepInOrder
      (.boot sensorEndpoints tariffSource registeredIcds devices tick) ls) : OncePerNode s :=
  (StepSystem.inv_of_run onceInv_step
    (onceInv_boot sensorEndpoints tariffSource registeredIcds devices tick) hok hrun).oncePerNode

/-- The next `k` actions of a task, with nothing failing. -/
def acts (t : Task) (k : ℕ) : List Label := List.replicate k (.act t true)

/-- One metered node is found by the first sweep and subscribed to. -/
def subscribeRun : List Label :=
  acts .main 4 ++ [.receive] ++ acts .worker 10 ++ [.runWork] ++ acts .chip 3
    ++ [.established 0 7] ++ acts .chip 3

theorem node_asked_once_subscribed :
    ∃ s, StepSystem.run step (.boot [10000] none [] (fun _ => none) 0) subscribeRun = some s ∧
      OncePerNode s := by
  obtain ⟨s, hs⟩ := Option.isSome_iff_exists.mp (show (StepSystem.run step
    (.boot [10000] none [] (fun _ => none) 0) subscribeRun).isSome = true by decide +kernel)
  exact ⟨s, hs, node_asked_once _ _ _ _ _ _ s hs (by decide +kernel)⟩

/-- The node checks in while its request is still in the queue. -/
def checkinRun : List Label := acts .main 4 ++ [.checkin 10000] ++ acts .chip 6

/-- The check-in clears the pending flag, and the node is queued a second time. -/
theorem checkin_asks_twice :
    ¬ ∀ (sensorEndpoints : List ℕ) (tariffSource : Option (ℕ × ℕ)) (registeredIcds : List ℕ)
      (devices : ℕ → Option Bool) (tick : ℕ) (ls : List Label) (s : State),
      StepSystem.run step (.boot sensorEndpoints tariffSource registeredIcds devices tick) ls
        = some s → OncePerNode s := by
  intro h
  have hqueue : (StepSystem.run step (.boot [10000] none [10000] (fun _ => none) 0) checkinRun).map
      (·.queue) = some [10000, 10000] := by decide +kernel
  obtain ⟨s, hs, hq⟩ := Option.map_eq_some_iff.mp hqueue
  have hone := h _ _ _ _ _ checkinRun s hs 10000
  rw [hq, show [10000, 10000].count 10000 = 2 from rfl] at hone
  omega

end HomeEnergyManager.SubscriptionManager
