import HomeEnergyManager.Subscription.NoDuplicate
import HomeEnergyManager.Subscription.Worker

/-! # No node is left pending for ever

The sweep skips a node whose pending flag is set, so something else has to lead it on: its request,
its slot, or an action that is about to clear the flag. Slots are released by node id, so a callback
of an earlier attempt can take the slot of a later one away; apart from that a pending node without
a subscription always has one of the three.
-/

namespace HomeEnergyManager.SubscriptionManager

/-- The node is pending and has no subscription. -/
def Shared.Owed (s : Shared) (n : ℕ) : Prop := s.pending n = true ∧ s.subscribed n = false

/-- The slot holds an attempt for the node, and no task is about to free it as expired. -/
def State.Keeps (s : State) (n : ℕ) (i : Fin MAX_ATTEMPTS_IN_FLIGHT) : Prop :=
  0 < slotWeight n (s.slots i) ∧ ∀ t, .freeSlot i ∉ s.acts t

/-- The action is a request for the node, or is about to clear its pending flag. -/
def Act.Serves (n : ℕ) (a : Act) : Prop := a.request = some n ∨ a = .markNo n 0

/-- Something leads the node on. -/
def State.Accounted (s : State) (n : ℕ) : Prop :=
  n ∈ s.queue ∨ (∃ t, ∃ a ∈ s.acts t, a.Serves n) ∨ ∃ i, s.Keeps n i

/-- The condition on an action. `subscription_attempt_finished` takes the slot of a pending node
without a subscription only if something else leads the node on. -/
def ReleasesInOrder (s : State) : Act → Prop
  | .finished n =>
    ∀ i ∈ s.slotOf n, s.Owed n →
      n ∈ s.queue ∨ (∃ t, ∃ a ∈ s.acts t, a.Serves n) ∨ ∃ j, j ≠ i ∧ s.Keeps n j
  | _ => True

def StepReleasesInOrder (s : State) : Label → Prop
  | .act t _ =>
    match s.acts t with
    | a :: _ => ReleasesInOrder s a
    | [] => True
  | _ => True

instance (s : Shared) (n : ℕ) : Decidable (s.Owed n) := inferInstanceAs (Decidable (_ ∧ _))

instance (s : State) (n : ℕ) (i : Fin MAX_ATTEMPTS_IN_FLIGHT) : Decidable (s.Keeps n i) :=
  inferInstanceAs (Decidable (_ ∧ ∀ _, _))

instance (n : ℕ) : DecidablePred (Act.Serves n) := fun _ => inferInstanceAs (Decidable (_ ∨ _))

instance (s : State) : DecidablePred (ReleasesInOrder s)
  | .finished n => inferInstanceAs (Decidable (∀ i ∈ s.slotOf n, s.Owed n →
      n ∈ s.queue ∨ (∃ t, ∃ a ∈ s.acts t, a.Serves n) ∨ ∃ j, j ≠ i ∧ s.Keeps n j))
  | .markHas _ _ | .markNo _ _ | .terminated _ _ | .deviceMark _ _ | .refreshIcdFlag _
  | .retryUnlessIcd _ | .checkinIfWanted _ | .enqueue _ | .queueSend _ | .sweep | .sweepNode _
  | .sweepDone | .dropUnlessWanted _ | .skipIfSubscribed _ | .lockSlots _ | .reclaim _ _ _
  | .freeSlot _ | .takeSlot _ | .schedule _ _ | .getSource _ _ | .sendCommand _ _ _ =>
    isTrue trivial

instance (s : State) : DecidablePred (StepReleasesInOrder s)
  | .act t _ =>
    match h : s.acts t with
    | a :: _ => decidable_of_iff (ReleasesInOrder s a) (by simp [StepReleasesInOrder, h])
    | [] => isTrue (by simp [StepReleasesInOrder, h])
  | .advance _ | .world _ _ _ | .deviceAdded _ | .deviceRemoved _ | .established _ _
  | .terminated _ _ | .failed _ | .checkin _ | .interrogated _ | .runWork | .topologyChanged _
  | .sweepDue | .receive => isTrue trivial

/-- No function of the manager is part-way through, but the worker may wait for a free slot. -/
def Quiet (s : State) : Prop :=
  s.acts .chip = [] ∧ s.acts .http = [] ∧ s.acts .main = [] ∧
    (s.acts .worker = [] ∨ ∃ n, s.acts .worker = [.lockSlots n])

/-- Every pending node without a subscription is queued, in the worker's hand or in a slot. -/
def NoneStuck (s : State) : Prop :=
  ∀ n, s.pending n = true → s.subscribed n = false →
    n ∈ s.queue ∨ (∃ a ∈ s.acts .worker, a.item = some n) ∨
      ∃ i, ∃ slot ∈ s.slots i, slot.nodeId = n

/-! ## What an action does to a request -/

/-- An expired slot is about to be freed only after its node's pending flag is cleared. -/
theorem exec_freeSlot {s s' : Shared} {ok : Bool} {a : Act} {new : List Act}
    (h : exec s ok a = some (s', new)) {i : Fin MAX_ATTEMPTS_IN_FLIGHT} (hi : .freeSlot i ∈ new) :
    s' = s ∧ ∀ n, 0 < slotWeight n (s.slots i) → .markNo n 0 ∈ new := by
  cases does_of_exec h with
  | @reclaimExpired _ _ j slot hslot _ =>
    obtain rfl : i = j := by simpa using hi
    refine ⟨rfl, fun n hn => ?_⟩
    rw [slotWeight_pos_iff, hslot] at hn
    have hn' : slot.nodeId = n := by simpa using hn
    simp [hn']
  | _ => exact absurd hi (by simp)

/-- The worker skips only a node with a subscription. -/
theorem nodeIsSubscribed_eq_false {s : Shared} {n : ℕ} (h : s.subscribed n = false) :
    ¬ nodeIsSubscribed n s.nodes = true := by
  unfold nodeIsSubscribed findNode
  unfold Shared.subscribed flag at h
  cases hl : s.nodes.lookup n with
  | none => simp
  | some node => simpa [hl] using h

/-- A request ends in the queue, in a slot, in another request or in the clearing of the pending
flag; it is dropped only for a node with a subscription. -/
theorem exec_serves {s s' : Shared} {ok : Bool} {a : Act} {new : List Act} {n : ℕ}
    (h : exec s ok a = some (s', new)) (ha : a.request = some n) (hsub : s.subscribed n = false) :
    n ∈ s'.queue ∨ (∃ b ∈ new, b.Serves n) ∨
      (a = .takeSlot n ∧ new = [.schedule n s.attempts.length] ∧
        ∃ i, 0 < slotWeight n (s'.slots i)) := by
  cases does_of_exec h with
  | queueSend =>
    obtain rfl := Option.some.inj ha
    exact Or.inl (by simp)
  | queueFull | dropUnwanted =>
    obtain rfl := Option.some.inj ha
    exact Or.inr (Or.inl ⟨_, List.mem_singleton_self _, Or.inr rfl⟩)
  | keepWanted | keepUnsubscribed | lockSlots | reclaimKeep | reclaimEnd | takeSlotLater =>
    obtain rfl := Option.some.inj ha
    exact Or.inr (Or.inl ⟨_, List.mem_singleton_self _, Or.inl rfl⟩)
  | skipSubscribed hsub' =>
    obtain rfl := Option.some.inj ha
    exact absurd hsub' (nodeIsSubscribed_eq_false hsub)
  | reclaimExpired =>
    obtain rfl := Option.some.inj ha
    exact Or.inr (Or.inl ⟨_, List.mem_cons_of_mem _ (List.mem_cons_of_mem _
      (List.mem_singleton_self _)), Or.inl rfl⟩)
  | @takeSlot m i _ =>
    obtain rfl := Option.some.inj ha
    refine Or.inr (Or.inr ⟨rfl, rfl, i, ?_⟩)
    dsimp only
    rw [Function.update_self, slotWeight_pos_iff]
    simp
  | _ => exact nomatch ha

/-- Actions never take a request out of the queue. -/
theorem exec_queue {s s' : Shared} {ok : Bool} {a : Act} {new : List Act}
    (h : exec s ok a = some (s', new)) {n : ℕ} (hn : n ∈ s.queue) : n ∈ s'.queue := by
  cases does_of_exec h with
  | queueSend => exact List.mem_append_left _ hn
  | _ => exact hn

/-! ## The invariant -/

/-- Everything that is owed is accounted for. -/
structure StuckInv (s : State) : Prop where
  worker : WorkerInv s
  accounted : ∀ n, s.Owed n → s.Accounted n

/-- A node is owed something after an action only if it was before, or has just been asked for. -/
theorem owed_of_exec {s s' : Shared} {ok : Bool} {a : Act} {new : List Act} {n : ℕ}
    (h : exec s ok a = some (s', new)) (howed : s'.Owed n) :
    (s.Owed n ∧ ¬ a.Clears s n) ∨ (a = .enqueue n ∧ new = [.queueSend n]) := by
  rcases (exec_pending h n).mp howed.1 with ⟨hp, hclears⟩ | hmade
  · exact Or.inl ⟨⟨hp, (exec_subscribed h hclears).symm.trans howed.2⟩, hclears⟩
  · exact Or.inr hmade

/-- A slot that is kept stays kept, unless this action frees it or starts to reclaim it. -/
theorem State.Keeps.persists {s s' : State} {t : Task} {ok : Bool} {a : Act} {rest new : List Act}
    (hacts : s.acts t = a :: rest) (hexec : exec s.toShared ok a = some (s'.toShared, new))
    (hacts' : s'.acts = Function.update s.acts t (new ++ rest)) {n : ℕ}
    {i : Fin MAX_ATTEMPTS_IN_FLIGHT} (h : s.Keeps n i) (hnew : .freeSlot i ∉ new)
    (hfinished : ∀ m, a = .finished m → s.slotOf m ≠ some i) : s'.Keeps n i := by
  obtain ⟨hweight, hfree⟩ := h
  have hfree' : ∀ t', .freeSlot i ∉ s'.acts t' := by
    intro t' hmem
    rcases mem_new_or_mem_acts hacts hacts' hmem with ⟨-, hn⟩ | hr
    · exact hnew hn
    · exact hfree t' hr
  refine ⟨?_, hfree'⟩
  rcases exec_slots hexec with hslots | ⟨j, heq, -, ha⟩ | ⟨m, j, rfl, hnone, -, -, -, hslots⟩
  · rwa [hslots]
  · have hij : i ≠ j := by
      rintro rfl
      rcases ha with rfl | ⟨m, rfl, hslot⟩
      · exact hfree t (hacts ▸ List.mem_cons_self)
      · exact hfinished m rfl hslot
    rwa [heq, slots_free_of_ne hij]
  · have hij : i ≠ j := by
      rintro rfl
      rw [hnone] at hweight
      exact absurd hweight (lt_irrefl 0)
    rwa [hslots, Function.update_of_ne hij]

theorem stuckInv_perform {s s' : State} {t : Task} {ok : Bool} {a : Act} {rest new : List Act}
    (h : StuckInv s) (hok : ReleasesInOrder s a) (hacts : s.acts t = a :: rest)
    (hexec : exec s.toShared ok a = some (s'.toShared, new))
    (hacts' : s'.acts = Function.update s.acts t (new ++ rest)) : StuckInv s' := by
  refine ⟨h.worker.perform hacts hexec hacts', fun n howed' => ?_⟩
  · rcases owed_of_exec hexec howed' with ⟨howed, hclears⟩ | ⟨rfl, rfl⟩
    swap
    · exact Or.inr (Or.inl
        ⟨t, .queueSend n, mem_acts_of_new hacts' (List.mem_singleton_self _), Or.inl rfl⟩)
    -- what is in a hand moves on: to the queue, to another action or into a slot
    have hserves : (∃ t, ∃ b ∈ s.acts t, b.Serves n) → s'.Accounted n := by
      rintro ⟨t', b, hb, hbn⟩
      by_cases hba : t' = t ∧ b = a
      · obtain ⟨-, rfl⟩ := hba
        rcases hbn with hreq | rfl
        · rcases exec_serves hexec hreq howed.2 with hq | ⟨c, hc, hcn⟩ | ⟨rfl, rfl, i, hi⟩
          · exact Or.inl hq
          · exact Or.inr (Or.inl ⟨t, c, mem_acts_of_new hacts' hc, hcn⟩)
          -- the request has become a slot, and the worker has nothing else to do
          · obtain ⟨rfl, rfl⟩ := h.worker.head hacts rfl
            refine Or.inr (Or.inr ⟨i, hi, fun t' hmem => ?_⟩)
            rw [hacts'] at hmem
            by_cases ht' : t' = .worker
            · rw [ht', Function.update_self] at hmem
              exact absurd hmem (by simp)
            · rw [Function.update_of_ne ht'] at hmem
              have := h.worker.worker t' ht' _ hmem
              exact nomatch this
        · have hzero := pending_markNodeHasNoSubscription_zero n s.nodes
          obtain ⟨hs', -⟩ := Prod.mk.inj (Option.some.inj hexec)
          have hp := howed'.1
          rw [Shared.pending, ← hs'] at hp
          exact absurd (hzero.symm.trans hp) Bool.false_ne_true
      · exact Or.inr (Or.inl ⟨t', b, mem_acts_of_ne hacts hacts' hb hba, hbn⟩)
    rcases h.accounted n howed with hq | hacts₁ | ⟨i, hkeeps⟩
    · exact Or.inl (exec_queue hexec hq)
    · exact hserves hacts₁
    · by_cases hnew : .freeSlot i ∈ new
      · obtain ⟨-, hmark⟩ := exec_freeSlot hexec hnew
        exact Or.inr (Or.inl ⟨t, _, mem_acts_of_new hacts' (hmark n hkeeps.1), Or.inr rfl⟩)
      · by_cases hfin : ∃ m, a = .finished m ∧ s.slotOf m = some i
        · obtain ⟨m, rfl, hslot⟩ := hfin
          -- the freed slot is that of the node, and something else leads it on
          have hm : m = n := by
            have h₁ := slotOf_eq_some hslot
            have h₂ := (slotWeight_pos_iff n _).mp hkeeps.1
            have h₃ := (slotWeight_pos_iff m _).mp (h₁ ▸ Nat.one_pos)
            cases hs : s.slots i with
            | none => rw [hs] at h₂; exact absurd h₂ Bool.false_ne_true
            | some slot =>
              rw [hs] at h₂ h₃
              simp only [Option.any_some, beq_iff_eq] at h₂ h₃
              exact h₃.symm.trans h₂
          subst hm
          rcases hok i hslot howed with hq | hacts₁ | ⟨j, hji, hj⟩
          · exact Or.inl (exec_queue hexec hq)
          · exact hserves hacts₁
          · refine Or.inr (Or.inr ⟨j, hj.persists hacts hexec hacts' ?_ ?_⟩)
            · intro hmem
              have := exec_workerOnly hexec rfl _ hmem
              exact nomatch this
            · intro m' hm' hslot'
              obtain rfl := Act.finished.inj hm'
              exact hji (Option.some.inj (hslot'.symm.trans hslot))
        · exact Or.inr (Or.inr ⟨i, hkeeps.persists hacts hexec hacts' hnew
            fun m hm hslot => hfin ⟨m, hm, hslot⟩⟩)

/-- A start on an idle task keeps what leads a node on; a received request goes from the queue into
the worker's hand. -/
theorem stuckInv_start {s s' : State} {t : Task} {acts : List Act} (h : StuckInv s)
    (hnodes : s'.nodes = s.nodes) (hslots : s'.slots = s.slots) (hidle : s.acts t = [])
    (hacts' : s'.acts = Function.update s.acts t acts) (hstarts : Starts s t acts s'.queue) :
    StuckInv s' := by
  have hfree : ∀ i, .freeSlot i ∉ acts := by
    intro i
    generalize s'.queue = queue at hstarts
    cases hstarts with
    | callback _ hfree _ => exact hfree i
    | receive _ => simp
  have hkeeps : ∀ n i, s.Keeps n i → s'.Keeps n i := by
    rintro n i ⟨hweight, hnot⟩
    refine ⟨by rwa [hslots], fun t' hmem => ?_⟩
    rcases mem_start_or_mem_acts hacts' hmem with ⟨-, hn⟩ | hr
    · exact hfree i hn
    · exact hnot t' hr
  refine ⟨h.worker.start hacts' hstarts, fun n howed => ?_⟩
  · have howed' : s.Owed n := by
      unfold Shared.Owed Shared.pending Shared.subscribed at howed ⊢
      rwa [hnodes] at howed
    rcases h.accounted n howed' with hq | ⟨t', b, hb, hbn⟩ | ⟨i, hi⟩
    · generalize hqueue : s'.queue = queue at hstarts
      cases hstarts with
      | callback _ _ _ => exact Or.inl (hqueue ▸ hq)
      | @receive m _ hm =>
        rw [hm] at hq
        rcases List.mem_cons.mp hq with rfl | hq'
        · refine Or.inr (Or.inl ⟨.worker, .dropUnlessWanted n, ?_, Or.inl rfl⟩)
          rw [hacts', Function.update_self]
          exact List.mem_singleton_self _
        · exact Or.inl (hqueue ▸ hq')
    · exact Or.inr (Or.inl ⟨t', b, mem_acts_of_start hidle hacts' hb, hbn⟩)
    · exact Or.inr (Or.inr ⟨i, hkeeps n i hi⟩)

theorem stuckInv_step (s : State) (l : Label) (s' : State) (h : StuckInv s)
    (hok : StepReleasesInOrder s l) (hstep : step s l = some s') : StuckInv s' := by
  rcases step_cases hstep with ⟨t, ok, rfl, hperform⟩ | ⟨hnodes, hslots, -, hrest⟩
  · obtain ⟨a, rest, new, hacts, hexec, hacts'⟩ := perform_cases hperform
    simp only [StepReleasesInOrder, hacts] at hok
    exact stuckInv_perform h hok hacts hexec hacts'
  · rcases hrest with ⟨t, acts, hidle, hacts', hstarts⟩ | ⟨hacts', hqueue⟩
    · exact stuckInv_start h hnodes hslots hidle hacts' hstarts
    · refine ⟨h.worker.of_acts_eq hacts', fun n howed => ?_⟩
      unfold State.Accounted State.Keeps
      rw [hqueue, hacts', hslots]
      apply h.accounted n
      unfold Shared.Owed Shared.pending Shared.subscribed at howed ⊢
      rwa [hnodes] at howed

theorem stuckInv_boot (sensorEndpoints : List ℕ) (tariffSource : Option (ℕ × ℕ))
    (registeredIcds : List ℕ) (devices : ℕ → Option Bool) (tick : ℕ) :
    StuckInv (.boot sensorEndpoints tariffSource registeredIcds devices tick) where
  worker := workerInv_boot sensorEndpoints tariffSource registeredIcds devices tick
  accounted _ howed := absurd howed.1 Bool.false_ne_true

theorem StuckInv.noneStuck {s : State} (h : StuckInv s) (hquiet : Quiet s) : NoneStuck s := by
  intro n hp hsub
  obtain ⟨hchip, hhttp, hmain, hworker⟩ := hquiet
  rcases h.accounted n ⟨hp, hsub⟩ with hq | ⟨t, a, ha, han⟩ | ⟨i, hi, -⟩
  · exact Or.inl hq
  · cases t with
    | chip => rw [hchip] at ha; exact absurd ha List.not_mem_nil
    | http => rw [hhttp] at ha; exact absurd ha List.not_mem_nil
    | main => rw [hmain] at ha; exact absurd ha List.not_mem_nil
    | worker =>
      rcases hworker with hidle | ⟨m, hwait⟩
      · rw [hidle] at ha
        exact absurd ha List.not_mem_nil
      -- the worker waits for a slot, with one node in its hand
      · have heq : a = .lockSlots m := by
          rw [hwait] at ha
          exact List.mem_singleton.mp ha
        rcases han with hreq | hmark
        · exact Or.inr (Or.inl ⟨a, ha, by rw [heq] at hreq ⊢; exact hreq⟩)
        · rw [heq] at hmark
          exact nomatch hmark
  · rw [slotWeight_pos_iff] at hi
    cases hslot : s.slots i with
    | none => rw [hslot] at hi; exact absurd hi Bool.false_ne_true
    | some slot =>
      rw [hslot] at hi
      exact Or.inr (Or.inr ⟨i, slot, hslot, by simpa using hi⟩)

/-- In every run in which no callback takes the slot of a pending node away while nothing else leads
the node on, every pending node without a subscription is queued, in the worker's hand or in a slot
whenever no function of the manager is part-way through. -/
theorem no_node_stuck (sensorEndpoints : List ℕ) (tariffSource : Option (ℕ × ℕ))
    (registeredIcds : List ℕ) (devices : ℕ → Option Bool) (tick : ℕ) (ls : List Label) (s : State)
    (hrun : StepSystem.run step
      (.boot sensorEndpoints tariffSource registeredIcds devices tick) ls = some s)
    (hok : StepSystem.Meets step StepReleasesInOrder
      (.boot sensorEndpoints tariffSource registeredIcds devices tick) ls)
    (hquiet : Quiet s) : NoneStuck s :=
  (StepSystem.inv_of_run stuckInv_step
    (stuckInv_boot sensorEndpoints tariffSource registeredIcds devices tick) hok hrun).noneStuck
      hquiet

theorem quiet_of_idle {s : State} (h : ∀ t, s.acts t = []) : Quiet s :=
  ⟨h .chip, h .http, h .main, Or.inl (h .worker)⟩

/-- The first attempt of a node is sent. -/
def sentRun : List Label :=
  acts .main 4 ++ [.receive] ++ acts .worker 10 ++ [.runWork] ++ acts .chip 3

/-- The attempt fails, and the node is queued again. -/
theorem no_node_stuck_failed :
    ∃ s, StepSystem.run step (.boot [10000] none [] (fun _ => none) 0)
        (sentRun ++ [.failed 0] ++ acts .chip 7) = some s ∧ s.queue = [10000] ∧ NoneStuck s := by
  have hfinal : (StepSystem.run step (.boot [10000] none [] (fun _ => none) 0)
      (sentRun ++ [.failed 0] ++ acts .chip 7)).map
        (fun s => (s.queue, decide (∀ t, s.acts t = []))) = some ([10000], true) := by
    decide +kernel
  obtain ⟨s, hs, hf⟩ := Option.map_eq_some_iff.mp hfinal
  simp only [Prod.mk.injEq, decide_eq_true_eq] at hf
  obtain ⟨hqueue, hidle⟩ := hf
  exact ⟨s, hs, hqueue, no_node_stuck _ _ _ _ _ _ s hs (by decide +kernel) (quiet_of_idle hidle)⟩

/-- The node is subscribed to, checks in and is sent a second attempt; then the termination of the
first subscription arrives. -/
def lateTerminationRun : List Label :=
  sentRun ++ [.established 0 7] ++ acts .chip 3 ++ [.checkin 10000] ++ acts .chip 6
    ++ [.receive] ++ acts .worker 10 ++ [.runWork] ++ acts .chip 3
    ++ [.terminated 0 7] ++ acts .chip 2

/-- The late termination frees the slot of the second attempt and leaves the node pending. -/
theorem late_termination_leaves_pending :
    ¬ ∀ (sensorEndpoints : List ℕ) (tariffSource : Option (ℕ × ℕ)) (registeredIcds : List ℕ)
      (devices : ℕ → Option Bool) (tick : ℕ) (ls : List Label) (s : State),
      StepSystem.run step (.boot sensorEndpoints tariffSource registeredIcds devices tick) ls
        = some s → Quiet s → NoneStuck s := by
  intro h
  have hfinal : (StepSystem.run step (.boot [10000] none [10000] (fun _ => none) 0)
      lateTerminationRun).map
        (fun s => (decide (∀ t, s.acts t = []), s.queue, s.pending 10000, s.subscribed 10000,
          decide (∀ i, s.slots i = none)))
      = some (true, [], true, false, true) := by decide +kernel
  obtain ⟨s, hs, hf⟩ := Option.map_eq_some_iff.mp hfinal
  simp only [Prod.mk.injEq, decide_eq_true_eq] at hf
  obtain ⟨hidle, hqueue, hpending, hsub, hslots⟩ := hf
  rcases h _ _ _ _ _ lateTerminationRun s hs (quiet_of_idle hidle) 10000 hpending
    hsub with hq | ⟨a, ha, -⟩ | ⟨i, slot, hslot, -⟩
  · rw [hqueue] at hq
    exact absurd hq List.not_mem_nil
  · rw [hidle] at ha
    exact absurd ha List.not_mem_nil
  · rw [hslots i] at hslot
    exact nomatch hslot

end HomeEnergyManager.SubscriptionManager
