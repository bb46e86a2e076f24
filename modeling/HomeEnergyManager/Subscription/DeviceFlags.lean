import HomeEnergyManager.Subscription.Live

/-! # The flags of the device list

The subscription manager marks a node in its table and then mirrors the mark onto the device list,
each under a mutex of its own. Between the two another task may mark the node the other way and
mirror that first. Then the older mark lands on the device list last and stays there.

Reference: `firmware/main/managers/subscription_manager.cpp`,
`firmware/main/managers/device_manager.cpp`.
-/

namespace HomeEnergyManager.SubscriptionManager

/-- A task has marked the node in the table and has still to mark its device. -/
def State.Marking (s : State) (n : ℕ) : Prop := ∃ t, ∃ b, .deviceMark n b ∈ s.acts t

instance (s : State) (n : ℕ) : Decidable (s.Marking n) :=
  inferInstanceAs (Decidable (∃ t, ∃ b, Act.deviceMark n b ∈ s.acts t))

/-- Whenever no task is part-way through something, the device list has the flag of the table for
each known device. -/
def TellsTruth (s : State) : Prop :=
  (∀ t, s.acts t = []) → ∀ n b, s.devices n = some b → b = s.subscribed n

/-- The flag of a known device is that of the table, or its device is still to be marked. -/
def Mirrored (s : State) : Prop :=
  ∀ n b, s.devices n = some b → b = s.subscribed n ∨ s.Marking n

/-- The condition on an action of a task, which goes on with `rest`. The mark that it makes on a
known device is the one that the table has, or a later one is still to be made. -/
def MarksInOrder (s : State) (t : Task) (rest : List Act) : Act → Prop
  | .deviceMark n b => (s.devices n).isSome = true →
      b = s.subscribed n ∨ { s with acts := Function.update s.acts t rest }.Marking n
  | _ => True

/-- The condition on a step. A device comes with its flag clear, so the table must have it clear
too, or its device must still be to be marked. -/
def StepMarksInOrder (s : State) : Label → Prop
  | .act t _ =>
    match s.acts t with
    | a :: rest => MarksInOrder s t rest a
    | [] => True
  | .deviceAdded n => s.devices n = none → s.subscribed n = false ∨ s.Marking n
  | _ => True

instance (s : State) (t : Task) (rest : List Act) : DecidablePred (MarksInOrder s t rest)
  | .deviceMark _ _ => inferInstanceAs (Decidable (_ → _ ∨ _))
  | .markHas _ _ | .markNo _ _ | .terminated _ _ | .finished _ | .refreshIcdFlag _
  | .retryUnlessIcd _ | .checkinIfWanted _ | .enqueue _ | .queueSend _ | .sweep | .sweepNode _
  | .sweepDone | .dropUnlessWanted _ | .skipIfSubscribed _ | .lockSlots _ | .reclaim _ _ _
  | .freeSlot _ | .takeSlot _ | .schedule _ _ | .getSource _ _ | .sendCommand _ _ _ =>
    isTrue trivial

instance (s : State) : DecidablePred (StepMarksInOrder s)
  | .act t _ =>
    match h : s.acts t with
    | a :: rest => decidable_of_iff (MarksInOrder s t rest a) (by simp only [StepMarksInOrder, h])
    | [] => isTrue (by simp only [StepMarksInOrder, h])
  | .deviceAdded n =>
    decidable_of_iff (s.devices n = none → s.subscribed n = false ∨ s.Marking n) Iff.rfl
  | .advance _ | .world _ _ _ | .deviceRemoved _ | .established _ _ | .terminated _ _ | .failed _
  | .checkin _ | .interrogated _ | .runWork | .topologyChanged _ | .sweepDue | .receive =>
    isTrue trivial

/-- The devices that were loaded; no flag is saved. -/
def loadedDevices (known : List ℕ) (n : ℕ) : Option Bool := if n ∈ known then some false else none

/-! ## One action -/

section Perform

variable {s s' : State} {t : Task} {ok : Bool} {a : Act} {rest new : List Act}

/-- Only the mirroring of a mark touches the device list. -/
theorem exec_devices {s s' : Shared} (h : exec s ok a = some (s', new)) :
    (s'.devices = s.devices ∧ ∀ n b, a ≠ .deviceMark n b) ∨
      ∃ n b, a = .deviceMark n b ∧ new = [] ∧
        s'.devices = Function.update s.devices n ((s.devices n).map fun _ => b) := by
  cases does_of_exec h with
  | deviceMark => exact Or.inr ⟨_, _, rfl, rfl, rfl⟩
  | _ => exact Or.inl ⟨rfl, fun _ _ => nofun⟩

/-- Who touches the flag of a node in the table marks its device next. -/
theorem exec_marksDevice {s s' : Shared} {n : ℕ} (h : exec s ok a = some (s', new))
    (hclears : a.Clears s n) : ∃ b, .deviceMark n b ∈ new := by
  cases does_of_exec h with
  | markHas =>
    obtain rfl : _ = n := hclears
    exact ⟨true, List.mem_cons_self⟩
  | markNo | terminated =>
    obtain ⟨rfl, -⟩ := hclears
    exact ⟨false, List.mem_cons_self⟩
  | markNoOther hr | terminatedOther hr =>
    rw [hclears.2] at hr
    exact absurd hr (Bool.false_ne_true ∘ Eq.symm)
  | _ => exact hclears.elim

theorem State.Marking.perform {n : ℕ} (h : s.Marking n) (hacts : s.acts t = a :: rest)
    (hacts' : s'.acts = Function.update s.acts t (new ++ rest)) (hne : ∀ b, a ≠ .deviceMark n b) :
    s'.Marking n := by
  obtain ⟨t', b, hb⟩ := h
  exact ⟨t', b, mem_acts_of_ne hacts hacts' hb fun heq => hne b heq.2.symm⟩

theorem Mirrored.perform (h : Mirrored s) (hok : MarksInOrder s t rest a)
    (hacts : s.acts t = a :: rest) (hexec : exec s.toShared ok a = some (s'.toShared, new))
    (hacts' : s'.acts = Function.update s.acts t (new ++ rest)) : Mirrored s' := by
  intro n b hb
  by_cases hclears : a.Clears s.toShared n
  · obtain ⟨b', hb'⟩ := exec_marksDevice hexec hclears
    exact Or.inr ⟨t, b', mem_acts_of_new hacts' hb'⟩
  · rw [exec_subscribed hexec hclears]
    rcases exec_devices hexec with ⟨hdevices, hne⟩ | ⟨m, c, rfl, rfl, hdevices⟩
    · rw [hdevices] at hb
      exact (h n b hb).imp_right fun hmark => hmark.perform hacts hacts' (hne n)
    · rw [hdevices] at hb
      by_cases hm : n = m
      · subst hm
        rw [Function.update_self] at hb
        obtain ⟨b', hknown, rfl⟩ := Option.map_eq_some_iff.mp hb
        refine (hok (by rw [hknown]; rfl)).imp_right fun hmark => ?_
        obtain ⟨t', b'', hb''⟩ := hmark
        exact ⟨t', b'', by rw [hacts']; exact hb''⟩
      · rw [Function.update_of_ne hm] at hb
        refine (h n b hb).imp_right fun hmark => hmark.perform hacts hacts' ?_
        rintro b' heq
        exact hm (Act.deviceMark.inj heq).1.symm

/-- A mark that comes too late leaves the device list wrong, with nothing to put it right. -/
theorem not_mirrored_of_late (hlate : ¬ MarksInOrder s t rest a)
    (hexec : exec s.toShared ok a = some (s'.toShared, new))
    (hacts' : s'.acts = Function.update s.acts t (new ++ rest)) : ¬ Mirrored s' := by
  cases a with
  | deviceMark n b =>
    unfold MarksInOrder at hlate
    push Not at hlate
    obtain ⟨hknown, hne, hmark⟩ := hlate
    obtain ⟨hs, rfl⟩ := Prod.mk.inj (Option.some.inj hexec)
    obtain ⟨b', hb'⟩ := Option.isSome_iff_exists.mp hknown
    intro h
    rcases h n b (by rw [← hs]; simp [hb']) with heq | ⟨t', b'', hb''⟩
    · exact hne (heq.trans (exec_subscribed hexec (fun hclears => hclears)))
    · exact hmark ⟨t', b'', by rw [hacts'] at hb''; exact hb''⟩
  | _ => exact absurd trivial hlate

end Perform

/-! ## Every run -/

/-- What leaves the table and the devices alone, and takes nothing away that was to do, leaves the
devices mirrored. -/
theorem Mirrored.of_same {s s' : State} (h : Mirrored s) (hnodes : s'.nodes = s.nodes)
    (hdevices : s'.devices = s.devices) (hacts : ∀ t, ∀ a ∈ s.acts t, a ∈ s'.acts t) :
    Mirrored s' := by
  intro n b hb
  rw [hdevices] at hb
  rw [Shared.subscribed, hnodes]
  refine (h n b hb).imp_right ?_
  rintro ⟨t, b', hb'⟩
  exact ⟨t, b', hacts t _ hb'⟩

theorem mirrored_step (s : State) (l : Label) (s' : State) (h : Mirrored s)
    (hok : StepMarksInOrder s l) (hstep : step s l = some s') : Mirrored s' := by
  cases l with
  | act t ok =>
    obtain ⟨a, rest, new, hacts, hexec, hacts'⟩ := perform_cases hstep
    simp only [StepMarksInOrder, hacts] at hok
    exact h.perform hok hacts hexec hacts'
  | deviceAdded n =>
    obtain rfl := Option.some.inj hstep
    intro m b hb
    by_cases hm : m = n
    · subst hm
      dsimp only at hb
      rw [Function.update_self] at hb
      cases hknown : s.devices m with
      | none =>
        rw [hknown] at hb
        obtain rfl := Option.some.inj hb
        exact (hok hknown).imp_left Eq.symm
      | some b' =>
        rw [hknown] at hb
        exact h m b (hknown.trans hb)
    · dsimp only at hb
      rw [Function.update_of_ne hm] at hb
      exact h m b hb
  | deviceRemoved n =>
    obtain rfl := Option.some.inj hstep
    intro m b hb
    by_cases hm : m = n
    · subst hm
      dsimp only at hb
      rw [Function.update_self] at hb
      exact absurd hb (by simp)
    · dsimp only at hb
      rw [Function.update_of_ne hm] at hb
      exact h m b hb
  | advance | world =>
    obtain rfl := Option.some.inj hstep
    exact h.of_same rfl rfl fun _ _ => id
  | established k sid | terminated k sid | failed k =>
    simp only [step] at hstep
    split at hstep
    · rename_i n s₁ hanswer
      obtain ⟨-, -, -, -, rfl⟩ := answer_cases hanswer
      obtain ⟨hidle, rfl⟩ := start_cases hstep
      exact h.of_same rfl rfl fun _ _ => mem_acts_of_start hidle rfl
    · exact absurd hstep (by simp)
  | checkin n | interrogated n | topologyChanged n =>
    obtain ⟨hidle, rfl⟩ := start_cases hstep
    exact h.of_same rfl rfl fun _ _ => mem_acts_of_start hidle rfl
  | sweepDue =>
    simp only [step] at hstep
    split at hstep
    · obtain ⟨hidle, rfl⟩ := start_cases hstep
      exact h.of_same rfl rfl fun _ _ => mem_acts_of_start hidle rfl
    · exact absurd hstep (by simp)
  | runWork | receive =>
    simp only [step] at hstep
    split at hstep
    · obtain ⟨hidle, rfl⟩ := start_cases hstep
      exact h.of_same rfl rfl fun _ _ => mem_acts_of_start hidle rfl
    · exact absurd hstep (by simp)

theorem not_mirrored_step (s : State) (l : Label) (s' : State) (hlate : ¬ StepMarksInOrder s l)
    (hstep : step s l = some s') : ¬ Mirrored s' := by
  cases l with
  | act t ok =>
    obtain ⟨a, rest, new, hacts, hexec, hacts'⟩ := perform_cases hstep
    simp only [StepMarksInOrder, hacts] at hlate
    exact not_mirrored_of_late hlate hexec hacts'
  | deviceAdded n =>
    obtain rfl := Option.some.inj hstep
    unfold StepMarksInOrder at hlate
    push Not at hlate
    obtain ⟨hknown, hsub, hmark⟩ := hlate
    intro h
    rcases h n false (by simp [hknown]) with heq | hmarking
    · exact hsub heq.symm
    · exact hmark hmarking
  | _ => exact absurd trivial hlate

section Run

variable (sensorEndpoints : List ℕ) (tariffSource : Option (ℕ × ℕ)) (registeredIcds known : List ℕ)
  (tick : ℕ)

theorem mirrored_boot :
    Mirrored (.boot sensorEndpoints tariffSource registeredIcds (loadedDevices known) tick) := by
  intro n b hb
  change loadedDevices known n = some b at hb
  unfold loadedDevices at hb
  split at hb
  · obtain rfl := Option.some.inj hb
    exact Or.inl rfl
  · exact absurd hb (by simp)

/-- The devices are mirrored all along a run exactly if no mark comes too late in it. -/
theorem mirrored_always_iff {ls : List Label} {s : State}
    (hrun : StepSystem.run step
      (.boot sensorEndpoints tariffSource registeredIcds (loadedDevices known) tick) ls = some s) :
    StepSystem.Always step Mirrored
        (.boot sensorEndpoints tariffSource registeredIcds (loadedDevices known) tick) ls ↔
      StepSystem.Meets step StepMarksInOrder
        (.boot sensorEndpoints tariffSource registeredIcds (loadedDevices known) tick) ls :=
  StepSystem.always_iff_meets (fun _ => id) mirrored_step
    (fun s l s' _ hlate hstep => not_mirrored_step s l s' hlate hstep)
    (mirrored_boot sensorEndpoints tariffSource registeredIcds known tick) hrun

/-- In every run in which no mark comes too late, the device list tells the truth. -/
theorem device_list_true (ls : List Label) (s : State)
    (hrun : StepSystem.run step
      (.boot sensorEndpoints tariffSource registeredIcds (loadedDevices known) tick) ls = some s)
    (hok : StepSystem.Meets step StepMarksInOrder
      (.boot sensorEndpoints tariffSource registeredIcds (loadedDevices known) tick) ls) :
    TellsTruth s := by
  have hmirrored : Mirrored s :=
    ((mirrored_always_iff sensorEndpoints tariffSource registeredIcds known tick hrun).mpr
      hok).last hrun
  intro hidle n b hb
  rcases hmirrored n b hb with heq | ⟨t, b', hb'⟩
  · exact heq
  · rw [hidle t] at hb'
    exact absurd hb' List.not_mem_nil

end Run

theorem device_list_true_subscribed :
    ∃ s, StepSystem.run step (.boot [10000] none [] (loadedDevices [10000]) 0) subscribeRun
      = some s ∧ (∀ t, s.acts t = []) ∧ s.devices 10000 = some true ∧ TellsTruth s := by
  have hfinal : (StepSystem.run step (.boot [10000] none [] (loadedDevices [10000]) 0)
      subscribeRun).map (fun s => (decide (∀ t, s.acts t = []), s.devices 10000))
        = some (true, some true) := by decide +kernel
  obtain ⟨s, hs, hf⟩ := Option.map_eq_some_iff.mp hfinal
  obtain ⟨hidle, hflag⟩ := Prod.mk.inj hf
  exact ⟨s, hs, of_decide_eq_true hidle, hflag,
    device_list_true _ _ _ _ _ _ s hs (by decide +kernel)⟩

/-- An attempt has expired, and the worker takes its slot for another node while the subscription is
established after all: the callback has marked the table, the worker clears it and the device, and
then the callback marks the device. -/
def reclaimedLateRun : List Label :=
  sentRun ++ [.advance 9001, .world [10000, 10001] none [], .interrogated 10001] ++ acts .chip 2
    ++ [.receive] ++ acts .worker 4 ++ [.established 0 7] ++ acts .chip 1 ++ acts .worker 2
    ++ acts .chip 1 ++ acts .worker 7 ++ acts .chip 1

/-- The device list shows a subscription that the table does not have. -/
theorem late_mark_stays :
    ¬ ∀ (sensorEndpoints : List ℕ) (tariffSource : Option (ℕ × ℕ)) (registeredIcds known : List ℕ)
      (tick : ℕ) (ls : List Label) (s : State),
      StepSystem.run step
        (.boot sensorEndpoints tariffSource registeredIcds (loadedDevices known) tick) ls = some s →
      TellsTruth s := by
  intro h
  have hfinal : (StepSystem.run step (.boot [10000] none [] (loadedDevices [10000, 10001]) 0)
      reclaimedLateRun).map (fun s =>
        (decide (∀ t, s.acts t = []), s.devices 10000, s.subscribed 10000))
        = some (true, some true, false) := by decide +kernel
  obtain ⟨s, hs, hf⟩ := Option.map_eq_some_iff.mp hfinal
  obtain ⟨hidle, hf⟩ := Prod.mk.inj hf
  obtain ⟨hflag, hsub⟩ := Prod.mk.inj hf
  have htrue := h _ _ _ _ _ reclaimedLateRun s hs (of_decide_eq_true hidle) 10000 true hflag
  exact absurd (htrue.trans hsub) Bool.false_ne_true.symm

end HomeEnergyManager.SubscriptionManager
