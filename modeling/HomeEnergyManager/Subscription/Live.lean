import HomeEnergyManager.Subscription.Known
import HomeEnergyManager.Subscription.NeverStuck

/-! # The live subscriptions

`mark_node_has_no_subscription` compares the subscription id, but id 0 stands for any. A failed
attempt, an expired slot and an attempt that never got as far as establishing all clear with id 0,
so they forget the subscription that another attempt of the node has established meanwhile.
-/

namespace HomeEnergyManager.SubscriptionManager

/-- The table has the node as subscribed, with this subscription id. -/
def Shared.holds (s : Shared) (n sid : ℕ) : Bool :=
  flag (fun node => node.hasSubscription && node.subscriptionId == sid) s.nodes n

/-- A state of a run, with what the run says of each subscription. No code reads this. -/
structure Tracked where
  state : State
  /-- The attempt whose callback the CHIP task runs. -/
  current : ℕ := 0
  /-- The subscription of a node that was established last and has not terminated since: its attempt
  and its id. -/
  live : ℕ → Option (ℕ × ℕ) := fun _ => none

/-- The live subscriptions after an action. -/
def Act.track (current : ℕ) (live : ℕ → Option (ℕ × ℕ)) : Act → ℕ → Option (ℕ × ℕ)
  | .markHas n sid => Function.update live n (some (current, sid))
  | .terminated n sid => Function.update live n ((live n).filter (·.2 != sid))
  | _ => live

/-- The live subscriptions after a step. -/
def Tracked.liveAfter (t : Tracked) : Label → ℕ → Option (ℕ × ℕ)
  | .act task _ =>
    match t.state.acts task with
    | a :: _ => a.track t.current t.live
    | [] => t.live
  | _ => t.live

def Tracked.currentAfter (t : Tracked) : Label → ℕ
  | .established k _ | .terminated k _ | .failed k => k
  | _ => t.current

def trackedStep (t : Tracked) (l : Label) : Option Tracked :=
  (step t.state l).map fun s => { state := s, current := t.currentAfter l, live := t.liveAfter l }

/-- A live subscription of the node is in the table, with its id. -/
def NothingForgotten (t : Tracked) (n : ℕ) : Prop :=
  ∀ k sid, t.live n = some (k, sid) →
    ∃ node ∈ t.state.nodes.lookup n, node.hasSubscription = true ∧ node.subscriptionId = sid

/-- The condition on an action, for a node. What clears any subscription of the node (id 0) finds
none, unless the live subscription has the id 0 itself. What happens to other nodes, a check-in of
theirs say, does not matter. -/
def ClearsOnlyDead (n : ℕ) (s : State) : Act → Prop
  | .markNo m _ => m = n → s.subscribed n = false
  | .terminated m sid => m = n → sid = 0 → s.subscribed n = true → s.holds n 0 = true
  | _ => True

def StepClearsOnlyDead (n : ℕ) (t : Tracked) : Label → Prop
  | .act task _ =>
    match t.state.acts task with
    | a :: _ => ClearsOnlyDead n t.state a
    | [] => True
  | _ => True

instance (n : ℕ) (s : State) : DecidablePred (ClearsOnlyDead n s)
  | .markNo _ _ => inferInstanceAs (Decidable (_ → _ = _))
  | .terminated _ _ => inferInstanceAs (Decidable (_ → _ → _ → _))
  | .markHas _ _ | .deviceMark _ _ | .finished _ | .refreshIcdFlag _ | .retryUnlessIcd _
  | .checkinIfWanted _ | .enqueue _ | .queueSend _ | .sweep | .sweepNode _ | .sweepDone
  | .dropUnlessWanted _ | .skipIfSubscribed _ | .lockSlots _ | .reclaim _ _ _ | .freeSlot _
  | .takeSlot _ | .schedule _ _ | .getSource _ _ | .sendCommand _ _ _ => isTrue trivial

instance (n : ℕ) (t : Tracked) : DecidablePred (StepClearsOnlyDead n t)
  | .act task _ =>
    match h : t.state.acts task with
    | a :: _ => decidable_of_iff (ClearsOnlyDead n t.state a) (by simp [StepClearsOnlyDead, h])
    | [] => isTrue (by simp [StepClearsOnlyDead, h])
  | .advance _ | .world _ _ _ | .deviceAdded _ | .deviceRemoved _ | .established _ _
  | .terminated _ _ | .failed _ | .checkin _ | .interrogated _ | .runWork | .topologyChanged _
  | .sweepDue | .receive => isTrue trivial

/-! ## What the table says of a subscription -/

section Table

variable {s s' : Shared} {ok : Bool} {a : Act} {new : List Act} {n sid sid' : ℕ}

theorem holds_iff :
    s.holds n sid = true ↔
      ∃ node ∈ s.nodes.lookup n, node.hasSubscription = true ∧ node.subscriptionId = sid := by
  unfold Shared.holds flag
  cases s.nodes.lookup n <;> simp

theorem subscribed_of_holds (h : s.holds n sid = true) : s.subscribed n = true := by
  obtain ⟨node, hnode, hsub, -⟩ := holds_iff.mp h
  unfold Shared.subscribed flag
  rw [Option.mem_def.mp hnode, Option.any_some, hsub]

/-- The table holds one id of a node. -/
theorem holds_unique (h : s.holds n sid = true) (h' : s.holds n sid' = true) : sid = sid' := by
  obtain ⟨node, hnode, -, rfl⟩ := holds_iff.mp h
  obtain ⟨node', hnode', -, rfl⟩ := holds_iff.mp h'
  rw [Option.some.inj (hnode.symm.trans hnode')]

/-- `mark_node_has_no_subscription` clears a held subscription by its id or by 0. -/
theorem markNodeHasNoSubscription_of_holds (h : s.holds n sid = true) :
    (markNodeHasNoSubscription n sid' s.nodes).2 = true ↔ sid = sid' ∨ sid' = 0 := by
  obtain ⟨node, hnode, -, rfl⟩ := holds_iff.mp h
  rw [markNodeHasNoSubscription, findNode, Option.mem_def.mp hnode]
  dsimp only
  split
  · rename_i hid
    exact iff_of_true rfl hid
  · rename_i hid
    exact iff_of_false Bool.false_ne_true hid

/-- The mark of a node with an entry is made. -/
theorem holds_markNodeHasSubscription (h : Known s.nodes n)
    (hnodes : s'.nodes = markNodeHasSubscription n sid s.nodes) : s'.holds n sid = true := by
  obtain ⟨node, hfind⟩ := h.findNode_eq true
  rw [Shared.holds, hnodes, markNodeHasSubscription, hfind]
  dsimp only
  rw [flag_insert, if_pos rfl]
  simp

theorem exec_holds (h : exec s ok a = some (s', new)) (hclears : ¬ a.Clears s n) :
    s'.holds n sid = s.holds n sid :=
  exec_flag rfl (fun _ _ => rfl) (fun _ _ => rfl) (fun _ => rfl) h hclears

/-- What clears the flags of a node, and does not set them, leaves it without subscription. -/
theorem exec_unsubscribed (h : exec s ok a = some (s', new)) (hclears : a.Clears s n)
    (hhas : ∀ sid, a ≠ .markHas n sid) : s'.subscribed n = false := by
  unfold Shared.subscribed
  cases a with
  | markHas m sid =>
    obtain rfl : m = n := hclears
    exact absurd rfl (hhas sid)
  | markNo m sid | terminated m sid =>
    obtain ⟨rfl, hr⟩ := hclears
    obtain ⟨rfl, -⟩ := Prod.mk.inj (Option.some.inj h)
    rw [flag_markNodeHasNoSubscription rfl fun _ => rfl, if_pos ⟨rfl, hr⟩]
  | _ => exact hclears.elim

end Table

@[simp] theorem track_markHas_self (current n sid : ℕ) (live : ℕ → Option (ℕ × ℕ)) :
    (Act.markHas n sid).track current live n = some (current, sid) :=
  Function.update_self ..

@[simp] theorem track_terminated_self (current n sid : ℕ) (live : ℕ → Option (ℕ × ℕ)) :
    (Act.terminated n sid).track current live n = (live n).filter (·.2 != sid) :=
  Function.update_self ..

/-- An action that leaves the flags of a node alone leaves its live subscription, unless it is the
termination of that subscription. -/
theorem track_of_not_clears {s : Shared} {a : Act} {n : ℕ} (current : ℕ)
    (live : ℕ → Option (ℕ × ℕ)) (hclears : ¬ a.Clears s n) :
    a.track current live n = live n ∨
      ∃ k sid, a = .terminated n sid ∧ live n = some (k, sid) ∧ a.track current live n = none := by
  cases a with
  | markHas m sid => exact Or.inl (Function.update_of_ne (Ne.symm hclears) _ _)
  | terminated m sid =>
    by_cases hm : n = m
    · subst hm
      rw [track_terminated_self]
      cases hlive : live n with
      | none => exact Or.inl rfl
      | some x =>
        by_cases hsid : x.2 = sid
        · refine Or.inr ⟨x.1, x.2, by rw [hsid], rfl, ?_⟩
          rw [Option.filter_some, if_neg (by simpa using hsid)]
        · apply Or.inl
          rw [Option.filter_some, if_pos (by simpa using hsid)]
    · exact Or.inl (Function.update_of_ne hm _ _)
  | _ => exact Or.inl rfl

/-! ## Every run -/

/-- A subscription that the table holds is live, whatever happens. -/
def OnlyLive (t : Tracked) : Prop :=
  ∀ n, t.state.subscribed n = true →
    ∃ k sid, t.live n = some (k, sid) ∧ t.state.holds n sid = true

/-- The invariant: the table holds the live subscription of the node, and of no node another. -/
structure LiveInv (n : ℕ) (t : Tracked) : Prop where
  known : KnownInv t.state
  only : OnlyLive t
  holds : ∀ k sid, t.live n = some (k, sid) → t.state.holds n sid = true

section Perform

variable {t t' : Tracked} {task : Task} {ok : Bool} {a : Act} {rest new : List Act}

theorem OnlyLive.perform (h : OnlyLive t) (hknown : KnownInv t.state)
    (hacts : t.state.acts task = a :: rest)
    (hexec : exec t.state.toShared ok a = some (t'.state.toShared, new))
    (hlive : t'.live = a.track t.current t.live) : OnlyLive t' := by
  intro n hsub
  by_cases hclears : a.Clears t.state.toShared n
  -- the flag is set afterwards, so it has just been set
  · by_cases hhas : ∃ sid, a = .markHas n sid
    · obtain ⟨sid, rfl⟩ := hhas
      have hn : Known t.state.nodes n := hknown.acts task _ (hacts ▸ List.mem_cons_self) n rfl
      obtain ⟨hs, -⟩ := Prod.mk.inj (Option.some.inj hexec)
      refine ⟨t.current, sid, ?_, holds_markNodeHasSubscription hn (by rw [← hs])⟩
      rw [hlive, track_markHas_self]
    · rw [exec_unsubscribed hexec hclears fun sid hsid => hhas ⟨sid, hsid⟩] at hsub
      exact nomatch hsub
  · rw [exec_subscribed hexec hclears] at hsub
    obtain ⟨k, sid, hk, hholds⟩ := h n hsub
    rcases track_of_not_clears t.current t.live hclears with
      htrack | ⟨k', sid', rfl, hk', -⟩
    · refine ⟨k, sid, ?_, ?_⟩
      · rw [hlive, htrack, hk]
      · rw [exec_holds hexec hclears, hholds]
    -- the held subscription terminates, so its flag is cleared
    · obtain ⟨-, rfl⟩ := Prod.mk.inj (Option.some.inj (hk.symm.trans hk'))
      exact absurd ⟨rfl, (markNodeHasNoSubscription_of_holds hholds).mpr (Or.inl rfl)⟩ hclears

theorem LiveInv.perform {n k sid : ℕ} (h : LiveInv n t) (hok : ClearsOnlyDead n t.state a)
    (hacts : t.state.acts task = a :: rest)
    (hexec : exec t.state.toShared ok a = some (t'.state.toShared, new))
    (hlive : t'.live = a.track t.current t.live)
    (hk : t'.live n = some (k, sid)) : t'.state.holds n sid = true := by
  rw [hlive] at hk
  by_cases hclears : a.Clears t.state.toShared n
  · cases a with
    | markHas m sid' =>
      obtain rfl : m = n := hclears
      rw [track_markHas_self] at hk
      obtain ⟨-, rfl⟩ := Prod.mk.inj (Option.some.inj hk)
      obtain ⟨hs, -⟩ := Prod.mk.inj (Option.some.inj hexec)
      have hm : Known t.state.nodes m := h.known.acts task _ (hacts ▸ List.mem_cons_self) m rfl
      exact holds_markNodeHasSubscription hm (by rw [← hs])
    | markNo m sid' =>
      obtain ⟨rfl, -⟩ := hclears
      have hsub := subscribed_of_holds (h.holds k sid hk)
      exact absurd ((hok rfl).symm.trans hsub) Bool.false_ne_true
    | terminated m sid' =>
      obtain ⟨rfl, hr⟩ := hclears
      -- the subscription that is live still has another id, so only id 0 could have cleared it
      rw [track_terminated_self] at hk
      obtain ⟨hold, hne⟩ := Option.filter_eq_some_iff.mp hk
      have hholds := h.holds k sid hold
      rcases (markNodeHasNoSubscription_of_holds hholds).mp hr with rfl | rfl
      · simp at hne
      · have hzero := holds_unique hholds (hok rfl rfl (subscribed_of_holds hholds))
        simp [hzero] at hne
    | _ => exact hclears.elim
  · rw [exec_holds hexec hclears]
    rcases track_of_not_clears t.current t.live hclears with
      htrack | ⟨-, -, -, -, hnone⟩
    · exact h.holds k sid (htrack ▸ hk)
    · rw [hnone] at hk
      exact nomatch hk

end Perform

theorem trackedStep_cases {t t' : Tracked} {l : Label} (h : trackedStep t l = some t') :
    step t.state l = some t'.state ∧ t'.current = t.currentAfter l ∧ t'.live = t.liveAfter l := by
  obtain ⟨s, hs, rfl⟩ := Option.map_eq_some_iff.mp h
  exact ⟨hs, rfl, rfl⟩

/-- Only an action of a task touches the node table and the live subscriptions. -/
theorem trackedStep_act {t t' : Tracked} {l : Label} (h : trackedStep t l = some t') :
    (∃ task ok a rest new, l = .act task ok ∧ t.state.acts task = a :: rest ∧
      exec t.state.toShared ok a = some (t'.state.toShared, new) ∧
      t'.live = a.track t.current t.live) ∨
    (t'.state.nodes = t.state.nodes ∧ t'.live = t.live) := by
  obtain ⟨hstep, -, hlive⟩ := trackedStep_cases h
  cases l with
  | act task ok =>
    obtain ⟨a, rest, new, hacts, hexec, -⟩ := perform_cases hstep
    simp only [Tracked.liveAfter, hacts] at hlive
    exact Or.inl ⟨task, ok, a, rest, new, rfl, hacts, hexec, hlive⟩
  | _ =>
    rcases step_cases hstep with ⟨task, ok, hl, -⟩ | ⟨hnodes, -⟩
    · exact nomatch hl
    · exact Or.inr ⟨hnodes, hlive⟩

theorem onlyLive_step {t t' : Tracked} {l : Label} (h : OnlyLive t) (hknown : KnownInv t.state)
    (hstep : trackedStep t l = some t') : OnlyLive t' := by
  rcases trackedStep_act hstep with ⟨task, ok, a, rest, new, rfl, hacts, hexec, hlive⟩ |
    ⟨hnodes, hlive⟩
  · exact h.perform hknown hacts hexec hlive
  · intro n hsub
    rw [Shared.subscribed, hnodes] at hsub
    obtain ⟨k, sid, hk, hholds⟩ := h n hsub
    refine ⟨k, sid, ?_, ?_⟩
    · rw [hlive, hk]
    · rw [Shared.holds, hnodes]
      exact hholds

theorem liveInv_step {n : ℕ} (t : Tracked) (l : Label) (t' : Tracked) (h : LiveInv n t)
    (hok : StepClearsOnlyDead n t l) (hstep : trackedStep t l = some t') : LiveInv n t' := by
  refine ⟨knownInv_step _ l _ h.known (trackedStep_cases hstep).1,
    onlyLive_step h.only h.known hstep, fun k sid hk => ?_⟩
  rcases trackedStep_act hstep with ⟨task, ok, a, rest, new, rfl, hacts, hexec, hlive⟩ |
    ⟨hnodes, hlive⟩
  · simp only [StepClearsOnlyDead, hacts] at hok
    exact h.perform hok hacts hexec hlive hk
  · rw [Shared.holds, hnodes]
    exact h.holds k sid (hlive ▸ hk)

/-- Right after the start no subscription is live. -/
def Tracked.boot (sensorEndpoints : List ℕ) (tariffSource : Option (ℕ × ℕ))
    (registeredIcds : List ℕ) (devices : ℕ → Option Bool) (tick : ℕ) : Tracked :=
  { state := .boot sensorEndpoints tariffSource registeredIcds devices tick }

theorem onlyLive_boot (sensorEndpoints : List ℕ) (tariffSource : Option (ℕ × ℕ))
    (registeredIcds : List ℕ) (devices : ℕ → Option Bool) (tick : ℕ) :
    OnlyLive (.boot sensorEndpoints tariffSource registeredIcds devices tick) := by
  intro n hsub
  exact nomatch hsub

theorem liveInv_boot (sensorEndpoints : List ℕ) (tariffSource : Option (ℕ × ℕ))
    (registeredIcds : List ℕ) (devices : ℕ → Option Bool) (tick n : ℕ) :
    LiveInv n (.boot sensorEndpoints tariffSource registeredIcds devices tick) where
  known := knownInv_boot sensorEndpoints tariffSource registeredIcds devices tick
  only := onlyLive_boot sensorEndpoints tariffSource registeredIcds devices tick
  holds _ _ hk := nomatch hk

/-- In every run in which what clears any subscription of a node finds none, every live
subscription of the node stays in the table, with its id. -/
theorem nothing_forgotten (sensorEndpoints : List ℕ) (tariffSource : Option (ℕ × ℕ))
    (registeredIcds : List ℕ) (devices : ℕ → Option Bool) (tick : ℕ) (ls : List Label)
    (t : Tracked) (n : ℕ)
    (hrun : StepSystem.run trackedStep
      (.boot sensorEndpoints tariffSource registeredIcds devices tick) ls = some t)
    (hok : StepSystem.Meets trackedStep (StepClearsOnlyDead n)
      (.boot sensorEndpoints tariffSource registeredIcds devices tick) ls) :
    NothingForgotten t n := by
  have hinv : LiveInv n t := StepSystem.inv_of_run liveInv_step
    (liveInv_boot sensorEndpoints tariffSource registeredIcds devices tick n) hok hrun
  intro k sid hk
  exact holds_iff.mp (hinv.holds k sid hk)

/-- The first attempt is established, its subscription terminates, and the second attempt is
established. -/
def resubscribeRun : List Label :=
  subscribeRun ++ [.terminated 0 7] ++ acts .chip 5 ++ [.receive] ++ acts .worker 10
    ++ [.runWork] ++ acts .chip 3 ++ [.established 1 8] ++ acts .chip 3

theorem nothing_forgotten_resubscribed :
    ∃ t, StepSystem.run trackedStep (.boot [10000] none [] (fun _ => none) 0) resubscribeRun
      = some t ∧ t.live 10000 = some (1, 8) ∧ NothingForgotten t 10000 := by
  have hlive : (StepSystem.run trackedStep (.boot [10000] none [] (fun _ => none) 0)
      resubscribeRun).map (·.live 10000) = some (some (1, 8)) := by decide +kernel
  obtain ⟨t, ht, hk⟩ := Option.map_eq_some_iff.mp hlive
  exact ⟨t, ht, hk, nothing_forgotten _ _ _ _ _ _ t 10000 ht (by decide +kernel)⟩

/-- A second node is asked for once the first attempt has expired, and takes its slot away. The
sweep then asks for the first node again; before that attempt fails, the first one is established
after all. -/
def lateEstablishedRun : List Label :=
  sentRun ++ [.advance 9001, .world [10000, 10001] none [], .interrogated 10001] ++ acts .chip 2
    ++ [.receive] ++ acts .worker 13 ++ [.runWork] ++ acts .chip 3
    ++ [.sweepDue] ++ acts .worker 6 ++ [.receive] ++ acts .worker 10 ++ [.runWork] ++ acts .chip 3
    ++ [.established 0 7] ++ acts .chip 3 ++ [.failed 2] ++ acts .chip 1

/-- The failure of another attempt clears the live subscription. -/
theorem failure_forgets_live :
    ¬ ∀ (sensorEndpoints : List ℕ) (tariffSource : Option (ℕ × ℕ)) (registeredIcds : List ℕ)
      (devices : ℕ → Option Bool) (tick : ℕ) (ls : List Label) (t : Tracked),
      StepSystem.run trackedStep (.boot sensorEndpoints tariffSource registeredIcds devices tick) ls
        = some t → ∀ n, .checkin n ∉ ls → ∀ k sid, t.live n = some (k, sid) →
          ∃ node ∈ t.state.nodes.lookup n,
            node.hasSubscription = true ∧ node.subscriptionId = sid := by
  intro h
  have hfinal : (StepSystem.run trackedStep (.boot [10000] none [] (fun _ => none) 0)
      lateEstablishedRun).map (fun t => (t.live 10000, t.state.holds 10000 7))
        = some (some (0, 7), false) := by decide +kernel
  obtain ⟨t, ht, hf⟩ := Option.map_eq_some_iff.mp hfinal
  obtain ⟨hlive, hholds⟩ := Prod.mk.inj hf
  have hkept := h _ _ _ _ _ lateEstablishedRun t ht 10000 (by decide) 0 7 hlive
  exact absurd ((holds_iff.mpr hkept).symm.trans hholds) Bool.false_ne_true.symm

end HomeEnergyManager.SubscriptionManager
