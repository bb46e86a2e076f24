import HomeEnergyManager.Subscription.Attempts
import HomeEnergyManager.Subscription.NeverStuck

/-! # The cap on the attempts in flight

The worker counts slots, not attempts. An attempt that is not answered keeps its slot until it
expires, unless a callback of another attempt of the node takes the slot away. While that does not
happen, the attempts in flight are no more than the slots. An attempt is for a node, and no node has
the id 0, which marks a free slot.
-/

namespace HomeEnergyManager.SubscriptionManager

/-- Younger than `ATTEMPT_TIMEOUT_MS`, by the clock that the slots are stamped with. -/
def Attempt.Young (a : Attempt) (tick : ℕ) : Prop :=
  tick < a.started + pdMS_TO_TICKS ATTEMPT_TIMEOUT_MS

instance (a : Attempt) (tick : ℕ) : Decidable (a.Young tick) :=
  inferInstanceAs (Decidable (_ < _))

/-- The attempt may still be in flight, or come to be. -/
def Attempt.Live (a : Attempt) (tick : ℕ) : Prop :=
  (a.phase = .claimed ∨ a.phase = .sent) ∧ a.Young tick

instance (a : Attempt) (tick : ℕ) : Decidable (a.Live tick) := inferInstanceAs (Decidable (_ ∧ _))

/-- How many attempts were sent, are not answered and are young. -/
def Shared.inFlight (s : Shared) : ℕ :=
  s.attempts.countP fun a => a.phase = .sent ∧ a.Young s.tick

/-- The condition on an action. `subscription_attempt_finished` frees no slot whose own attempt is
still live. -/
def FreesOwn (s : State) : Act → Prop
  | .finished n =>
    ∀ i ∈ s.slotOf n, ∀ slot ∈ s.slots i, ∀ a ∈ s.attempts[slot.attempt]?, ¬ a.Live s.tick
  | _ => True

def StepFreesOwn (s : State) : Label → Prop
  | .act t _ =>
    match s.acts t with
    | a :: _ => FreesOwn s a
    | [] => True
  | _ => True

instance (s : State) : DecidablePred (FreesOwn s)
  | .finished n => inferInstanceAs (Decidable (∀ i ∈ s.slotOf n, ∀ slot ∈ s.slots i,
      ∀ a ∈ s.attempts[slot.attempt]?, ¬ a.Live s.tick))
  | .markHas _ _ | .markNo _ _ | .terminated _ _ | .deviceMark _ _ | .refreshIcdFlag _
  | .retryUnlessIcd _ | .checkinIfWanted _ | .enqueue _ | .queueSend _ | .sweep | .sweepNode _
  | .sweepDone | .dropUnlessWanted _ | .skipIfSubscribed _ | .lockSlots _ | .reclaim _ _ _
  | .freeSlot _ | .takeSlot _ | .schedule _ _ | .getSource _ _ | .sendCommand _ _ _ =>
    isTrue trivial

instance (s : State) : DecidablePred (StepFreesOwn s)
  | .act t _ =>
    match h : s.acts t with
    | a :: _ => decidable_of_iff (FreesOwn s a) (by simp [StepFreesOwn, h])
    | [] => isTrue (by simp [StepFreesOwn, h])
  | .advance _ | .world _ _ _ | .deviceAdded _ | .deviceRemoved _ | .established _ _
  | .terminated _ _ | .failed _ | .checkin _ | .interrogated _ | .runWork | .topologyChanged _
  | .sweepDue | .receive => isTrue trivial

/-- The invariant: an attempt is sent once at most, each live attempt has a slot of its own, and the
slots that the worker is about to free are expired. -/
structure CapInv (s : State) : Prop where
  worker : WorkerInv s
  once : ∀ k, s.carriedCount k ≤ 1
  claimed : ∀ k, 0 < s.carriedCount k → ∃ a ∈ s.attempts[k]?, a.phase = .claimed
  past : ∀ a ∈ s.attempts, a.started ≤ s.tick
  stamped : ∀ i, ∀ slot ∈ s.slots i,
    ∃ a ∈ s.attempts[slot.attempt]?, slot.started = a.started % 2 ^ 32
  owned : ∀ k, ∀ a ∈ s.attempts[k]?, a.Live s.tick → ∃ i, ∃ slot ∈ s.slots i, slot.attempt = k
  reading : ∀ t n now i, .reclaim n now i ∈ s.acts t →
    ∃ τ ≤ s.tick, now = τ % 2 ^ 32 ∧ ∀ a ∈ s.attempts, a.started ≤ τ
  expiring : ∀ t i, .freeSlot i ∈ s.acts t → ∀ slot ∈ s.slots i,
    ∀ a ∈ s.attempts[slot.attempt]?, ¬ a.Young s.tick

theorem CapInv.carriedInv {s : State} (h : CapInv s) : CarriedInv s := ⟨h.once, h.claimed⟩

theorem Attempt.Young.of_le {a : Attempt} {tick tick' : ℕ} (h : a.Young tick')
    (hle : tick ≤ tick') : a.Young tick := lt_of_le_of_lt hle h

/-- A slot found expired at a time that the clock has shown holds no young attempt. -/
theorem not_young_of_expired {a : Attempt} {slot : AttemptSlot} {τ tick : ℕ} (hτ : τ ≤ tick)
    (hpast : a.started ≤ τ) (hstarted : slot.started = a.started % 2 ^ 32)
    (h : slot.expired (τ % 2 ^ 32) = true) : ¬ a.Young tick := by
  have hlt : pdMS_TO_TICKS ATTEMPT_TIMEOUT_MS < elapsed (τ % 2 ^ 32) (a.started % 2 ^ 32) := by
    rw [← hstarted]
    exact of_decide_eq_true h
  have hle := elapsed_le hpast
  unfold Attempt.Young
  omega

/-- The slots bound the attempts in flight. -/
theorem CapInv.inFlight_le {s : State} (h : CapInv s) :
    s.inFlight ≤ MAX_ATTEMPTS_IN_FLIGHT := by
  -- a slot holds one attempt, and each attempt in flight has a slot
  have hunique : ∀ i k k', (∃ slot ∈ s.slots i, slot.attempt = k) →
      (∃ slot ∈ s.slots i, slot.attempt = k') → k = k' := by
    rintro i k k' ⟨slot, hslot, rfl⟩ ⟨slot', hslot', rfl⟩
    rw [Option.some.inj (hslot.symm.trans hslot')]
  have hplace : ∀ k a, s.attempts[k]? = some a → decide (a.phase = .sent ∧ a.Young s.tick) = true →
      ∃ i, ∃ slot ∈ s.slots i, slot.attempt = k := by
    intro k a hk ha
    have hsent := of_decide_eq_true ha
    exact h.owned k a hk ⟨Or.inr hsent.1, hsent.2⟩
  have hle := Tally.countP_le_card _ hunique hplace
  rwa [Fintype.card_fin] at hle

/-- Time only makes attempts older. -/
theorem CapInv.advance {s : State} (h : CapInv s) (ticks : ℕ) :
    CapInv { s with tick := s.tick + ticks } where
  worker := h.worker.of_acts_eq rfl
  once := h.once
  claimed := h.claimed
  past a ha := (h.past a ha).trans (Nat.le_add_right _ _)
  stamped := h.stamped
  owned k a ha hlive := h.owned k a ha ⟨hlive.1, hlive.2.of_le (Nat.le_add_right _ _)⟩
  reading t n now i hmem := by
    obtain ⟨τ, hτ, hnow, hpast⟩ := h.reading t n now i hmem
    exact ⟨τ, hτ.trans (Nat.le_add_right _ _), hnow, hpast⟩
  expiring t i hmem slot hslot a ha hyoung :=
    h.expiring t i hmem slot hslot a ha (hyoung.of_le (Nat.le_add_right _ _))

/-! ## Steps that claim no slot -/

/-- The attempts go on: none is new, none starts anew, and none comes to life. -/
structure GoesOn (s s' : Shared) : Prop where
  back : ∀ k : ℕ, ∀ a' ∈ s'.attempts[k]?, ∃ a ∈ s.attempts[k]?, a.started = a'.started ∧
    (a'.Live s.tick → a.Live s.tick)
  forth : ∀ k : ℕ, ∀ a ∈ s.attempts[k]?, ∃ a' ∈ s'.attempts[k]?, a'.started = a.started

theorem GoesOn.of_eq {s s' : Shared} (h : s'.attempts = s.attempts) : GoesOn s s' where
  back _ a' ha' := ⟨a', h ▸ ha', rfl, id⟩
  forth _ a ha := ⟨a, h.symm ▸ ha, rfl⟩

theorem GoesOn.modify {s s' : Shared} {k : ℕ} {f : Attempt → Attempt}
    (h : s'.attempts = s.attempts.modify k f) (hstarted : ∀ x, (f x).started = x.started)
    (hlive : ∀ a ∈ s.attempts[k]?, (f a).Live s.tick → a.Live s.tick) : GoesOn s s' where
  back k' a' ha' := by
    rw [h, List.getElem?_modify] at ha'
    obtain ⟨a, ha, rfl⟩ := Option.map_eq_some_iff.mp ha'
    refine ⟨a, ha, ?_⟩
    split
    · rename_i hk
      exact ⟨(hstarted a).symm, hlive a (hk ▸ ha)⟩
    · exact ⟨rfl, id⟩
  forth k' a ha := by
    refine ⟨if k = k' then f a else a, ?_, ?_⟩
    · rw [h, List.getElem?_modify, ha]
      rfl
    · split
      · exact hstarted a
      · rfl

/-- A step that claims no slot keeps the invariant: it may free a slot whose attempt is not live,
read the clock for the loop over the slots, and go on with that loop. -/
theorem CapInv.of_goesOn {s s' : State} (h : CapInv s) (hworker : WorkerInv s')
    (htick : s'.tick = s.tick) (hgoes : GoesOn s.toShared s'.toShared)
    (hcarried : CarriedInv s')
    (hslots : ∀ i, s'.slots i = s.slots i ∨ (s'.slots i = none ∧
      ∀ slot ∈ s.slots i, ∀ a ∈ s.attempts[slot.attempt]?, ¬ a.Live s.tick))
    (hreclaim : ∀ t n now i, .reclaim n now i ∈ s'.acts t →
      now = s.tickCount ∨ ∃ t' n' j, .reclaim n' now j ∈ s.acts t')
    (hfree : ∀ t i, .freeSlot i ∈ s'.acts t → (∃ t', .freeSlot i ∈ s.acts t') ∨
      ∃ t' n now j, .reclaim n now j ∈ s.acts t' ∧ ∀ slot ∈ s.slots i, slot.expired now = true) :
    CapInv s' := by
  have hold : ∀ i, ∀ slot ∈ s'.slots i, slot ∈ s.slots i := by
    intro i slot hslot
    rcases hslots i with heq | ⟨hnone, -⟩
    · rwa [heq] at hslot
    · rw [hnone] at hslot
      exact nomatch hslot
  have hpast : ∀ τ, (∀ a ∈ s.attempts, a.started ≤ τ) → ∀ a ∈ s'.attempts, a.started ≤ τ := by
    intro τ hτ a' ha'
    obtain ⟨k, hk⟩ := List.mem_iff_getElem?.mp ha'
    obtain ⟨a, ha, hstarted, -⟩ := hgoes.back k a' hk
    rw [← hstarted]
    exact hτ a (List.mem_of_getElem? ha)
  refine ⟨hworker, hcarried.once, hcarried.claimed, ?_, ?_, ?_, ?_, ?_⟩
  · rw [htick]
    exact hpast _ h.past
  · intro i slot hslot
    obtain ⟨a, ha, hstarted⟩ := h.stamped i slot (hold i slot hslot)
    obtain ⟨a', ha', hsame⟩ := hgoes.forth _ a ha
    exact ⟨a', ha', by rw [hsame, hstarted]⟩
  · intro k a' ha' hlive
    rw [htick] at hlive
    obtain ⟨a, ha, -, hback⟩ := hgoes.back k a' ha'
    obtain ⟨i, slot, hslot, rfl⟩ := h.owned k a ha (hback hlive)
    -- the slot of a live attempt is not the one that is freed
    rcases hslots i with heq | ⟨-, hdead⟩
    · exact ⟨i, slot, by rwa [heq], rfl⟩
    · exact absurd (hback hlive) (hdead slot hslot a ha)
  · intro t n now i hmem
    rw [htick]
    rcases hreclaim t n now i hmem with rfl | ⟨t', n', j, hmem'⟩
    · exact ⟨s.tick, le_rfl, rfl, hpast _ h.past⟩
    · obtain ⟨τ, hτ, hnow, hall⟩ := h.reading t' n' now j hmem'
      exact ⟨τ, hτ, hnow, hpast τ hall⟩
  · intro t i hmem slot hslot a' ha' hyoung
    obtain ⟨a, ha, hstarted, -⟩ := hgoes.back _ a' ha'
    have hyoung' : a.Young s.tick := by
      unfold Attempt.Young at hyoung ⊢
      rwa [hstarted, ← htick]
    rcases hfree t i hmem with ⟨t', hmem'⟩ | ⟨t', n, now, j, hmem', hexpired⟩
    · exact h.expiring t' i hmem' slot (hold i slot hslot) a ha hyoung'
    -- the clock was read before, so what was expired then is expired now
    · obtain ⟨τ, hτ, rfl, hall⟩ := h.reading t' n now j hmem'
      obtain ⟨b, hb, hb'⟩ := h.stamped i slot (hold i slot hslot)
      obtain rfl := Option.some.inj (hb.symm.trans ha)
      exact not_young_of_expired hτ (hall b (List.mem_of_getElem? hb)) hb'
        (hexpired slot (hold i slot hslot)) hyoung'

/-- A claim comes with a new attempt. -/
theorem attempts_of_takeSlot {s s' : Shared} {ok : Bool} {n k : ℕ}
    (h : exec s ok (.takeSlot n) = some (s', [.schedule n k])) :
    s'.attempts.length = s.attempts.length + 1 := by
  cases does_of_exec h
  exact List.length_append

/-- What an action other than a claim does to the slots, when the step frees its own. -/
theorem CapInv.perform_slots {s s' : State} {t : Task} {ok : Bool} {a : Act} {rest new : List Act}
    (h : CapInv s) (hok : FreesOwn s a) (hacts : s.acts t = a :: rest)
    (hexec : exec s.toShared ok a = some (s'.toShared, new))
    (hlength : s'.attempts.length = s.attempts.length) (i : Fin MAX_ATTEMPTS_IN_FLIGHT) :
    s'.slots i = s.slots i ∨ (s'.slots i = none ∧
      ∀ slot ∈ s.slots i, ∀ x ∈ s.attempts[slot.attempt]?, ¬ x.Live s.tick) := by
  rcases exec_slots hexec with hslots | ⟨j, heq, -, ha⟩ | ⟨n, j, rfl, -, -, -, rfl, -⟩
  · exact Or.inl (congrFun hslots i)
  · by_cases hij : i = j
    · subst hij
      refine Or.inr ⟨?_, fun slot hslot x hx => ?_⟩
      · rw [heq]
        exact Function.update_self i none s.slots
      · rcases ha with rfl | ⟨n, rfl, hn⟩
        · exact fun hlive => h.expiring t i (hacts ▸ List.mem_cons_self) slot hslot x hx hlive.2
        · exact hok i hn slot hslot x hx
    · rw [heq, slots_free_of_ne hij]
      exact Or.inl rfl
  · have hnew := attempts_of_takeSlot hexec
    omega

/-- Everything that is still to do after a claim, any task may do. -/
theorem workerOnly_of_takeSlot {s s' : State} {t : Task} {n k : ℕ} {rest : List Act}
    (hw : WorkerInv s) (hw' : WorkerInv s') (hacts : s.acts t = .takeSlot n :: rest)
    (hacts' : s'.acts = Function.update s.acts t ([.schedule n k] ++ rest)) (t' : Task) :
    ∀ b ∈ s'.acts t', b.workerOnly = false := by
  intro b hb
  obtain ⟨rfl, rfl⟩ := hw.head hacts rfl
  by_cases ht : t' = .worker
  · rw [ht, hacts', Function.update_self] at hb
    rw [List.mem_singleton.mp hb]
    rfl
  · exact hw'.worker t' ht b hb

/-- A claim gives the new attempt a slot that nothing else had. -/
theorem capInv_claim {s s' : State} {t : Task} {ok : Bool} {n : ℕ} {rest : List Act}
    {i : Fin MAX_ATTEMPTS_IN_FLIGHT} (h : CapInv s) (hacts : s.acts t = .takeSlot n :: rest)
    (hexec : exec s.toShared ok (.takeSlot n)
      = some (s'.toShared, [.schedule n s.attempts.length]))
    (hacts' : s'.acts = Function.update s.acts t ([.schedule n s.attempts.length] ++ rest))
    (hfree : s.slots i = none)
    (hattempts : s'.attempts =
      s.attempts ++ [{ nodeId := n, started := s.tick, phase := .claimed }])
    (hslots : s'.slots = Function.update s.slots i
      (some { nodeId := n, started := s.tickCount, attempt := s.attempts.length })) :
    CapInv s' := by
  have htick : s'.tick = s.tick := exec_tick hexec
  have hworker := h.worker.perform hacts hexec hacts'
  have hcarried := h.carriedInv.perform hacts hexec hacts'
  have hnone := workerOnly_of_takeSlot h.worker hworker hacts hacts'
  have hlast : s'.attempts[s.attempts.length]?
      = some { nodeId := n, started := s.tick, phase := .claimed } := by
    rw [hattempts]
    exact List.getElem?_concat_length
  have hbefore : ∀ k, k < s.attempts.length → s'.attempts[k]? = s.attempts[k]? := by
    intro k hk
    rw [hattempts, List.getElem?_append_left hk]
  refine ⟨hworker, hcarried.once, hcarried.claimed, ?_, ?_, ?_, ?_, ?_⟩
  · intro a ha
    rw [hattempts] at ha
    rw [htick]
    rcases List.mem_append.mp ha with hold | hnew
    · exact h.past a hold
    · rw [List.mem_singleton.mp hnew]
  · intro j slot hslot
    rw [hslots] at hslot
    by_cases hj : j = i
    · rw [hj, Function.update_self] at hslot
      obtain rfl := Option.some.inj hslot
      exact ⟨_, hlast, rfl⟩
    · rw [Function.update_of_ne hj] at hslot
      obtain ⟨a, ha, hstarted⟩ := h.stamped j slot hslot
      refine ⟨a, ?_, hstarted⟩
      rw [hbefore _ (List.getElem?_eq_some_iff.mp ha).1]
      exact ha
  · intro k a ha hlive
    by_cases hk : k = s.attempts.length
    · refine ⟨i, { nodeId := n, started := s.tickCount, attempt := s.attempts.length }, ?_, hk.symm⟩
      rw [hslots, Function.update_self]
      rfl
    -- an older attempt keeps its slot, which was not free
    · have hlt : k < s.attempts.length := by
        have hlen := (List.getElem?_eq_some_iff.mp ha).1
        rw [hattempts, List.length_append, List.length_singleton] at hlen
        omega
      rw [hbefore k hlt] at ha
      rw [htick] at hlive
      obtain ⟨j, slot, hslot, hj⟩ := h.owned k a ha hlive
      have hne : j ≠ i := by
        rintro rfl
        rw [hfree] at hslot
        exact nomatch hslot
      exact ⟨j, slot, by rwa [hslots, Function.update_of_ne hne], hj⟩
  · intro t' m now j hmem
    exact nomatch hnone t' _ hmem
  · intro t' j hmem
    exact nomatch hnone t' _ hmem

theorem capInv_perform {s s' : State} {t : Task} {ok : Bool} {a : Act} {rest new : List Act}
    (h : CapInv s) (hok : FreesOwn s a) (hacts : s.acts t = a :: rest)
    (hexec : exec s.toShared ok a = some (s'.toShared, new))
    (hacts' : s'.acts = Function.update s.acts t (new ++ rest)) : CapInv s' := by
  have htick : s'.tick = s.tick := exec_tick hexec
  have hworker := h.worker.perform hacts hexec hacts'
  have hcarried := h.carriedInv.perform hacts hexec hacts'
  have hreclaim : ∀ t' n now i, .reclaim n now i ∈ s'.acts t' →
      now = s.tickCount ∨ ∃ t'' n' j, .reclaim n' now j ∈ s.acts t'' := by
    intro t' n now i hmem
    rcases mem_new_or_mem_acts hacts hacts' hmem with ⟨-, hn⟩ | hr
    · rcases (exec_reclaim hexec).1 n now i hn with hnow | ⟨j, rfl⟩
      · exact Or.inl hnow
      · exact Or.inr ⟨t, n, j, hacts ▸ List.mem_cons_self⟩
    · exact Or.inr ⟨t', n, i, hr⟩
  have hfree : ∀ t' i, .freeSlot i ∈ s'.acts t' → (∃ t'', .freeSlot i ∈ s.acts t'') ∨
      ∃ t'' n now j, .reclaim n now j ∈ s.acts t'' ∧
        ∀ slot ∈ s.slots i, slot.expired now = true := by
    intro t' i hmem
    rcases mem_new_or_mem_acts hacts hacts' hmem with ⟨-, hn⟩ | hr
    · obtain ⟨n, now, j, rfl, hexpired⟩ := (exec_reclaim hexec).2 i hn
      exact Or.inr ⟨t, n, now, j, hacts ▸ List.mem_cons_self, hexpired⟩
    · exact Or.inl ⟨t', hr⟩
  rcases exec_attempts hexec with ⟨hattempts, -⟩ |
    ⟨n, i, rfl, hnone, -, rfl, hattempts, hslots⟩ | ⟨k, f, hk, -, -, -, hattempts, hf⟩
  · exact h.of_goesOn hworker htick (.of_eq hattempts) hcarried
      (h.perform_slots hok hacts hexec (congrArg List.length hattempts)) hreclaim hfree
  · exact capInv_claim h hacts hexec hacts' hnone hattempts hslots
  · refine h.of_goesOn hworker htick (.modify hattempts (fun x => (hf x).1) fun x hx hlive => ?_)
      hcarried (h.perform_slots hok hacts hexec ?_) hreclaim hfree
    -- the attempt was claimed, so it was live already
    · obtain ⟨y, hy, hclaimed⟩ := h.claimed k (carriedCount_pos hacts hk)
      obtain rfl := Option.some.inj (hy.symm.trans hx)
      refine ⟨Or.inl hclaimed, ?_⟩
      have hyoung := hlive.2
      unfold Attempt.Young at hyoung ⊢
      rwa [(hf y).1] at hyoung
    · rw [hattempts, List.length_modify]

/-! ## Steps of the system -/

/-- What starts on an idle task neither reads the clock for the slots nor frees one. -/
theorem Starts.not_reclaiming {s : State} {t : Task} {acts : List Act} {queue : List ℕ}
    (h : Starts s t acts queue) :
    (∀ n now i, .reclaim n now i ∉ acts) ∧ ∀ i, .freeSlot i ∉ acts := by
  cases h with
  | callback hrequests hfree _ =>
    refine ⟨fun n now i hmem => ?_, hfree⟩
    exact nomatch workerOnly_of_requests hrequests hfree _ hmem
  | receive _ => simp

/-- A start on an idle task keeps the invariant; it may answer an attempt, or take one over from the
work of the CHIP task. -/
theorem capInv_start {s s' : State} {t : Task} {acts : List Act} (h : CapInv s)
    (hidle : s.acts t = []) (hacts' : s'.acts = Function.update s.acts t acts)
    (hstarts : Starts s t acts s'.queue) (htick : s'.tick = s.tick) (hslots : s'.slots = s.slots)
    (hgoes : GoesOn s.toShared s'.toShared)
    (hclaimed : ∀ k : ℕ, ∀ a ∈ s.attempts[k]?, a.phase = .claimed →
      ∃ a' ∈ s'.attempts[k]?, a'.phase = .claimed)
    (hwork : ∀ k, (s'.work.map Prod.snd).count k + (carried acts).count k
      = (s.work.map Prod.snd).count k) : CapInv s' := by
  obtain ⟨hreclaim, hfree⟩ := hstarts.not_reclaiming
  have hcarried := h.carriedInv.start hidle hacts' hclaimed hwork
  refine h.of_goesOn (h.worker.start hacts' hstarts) htick hgoes hcarried
    (fun i => Or.inl (congrFun hslots i)) (fun t' n now i hmem => ?_) fun t' i hmem => ?_
  · rcases mem_start_or_mem_acts hacts' hmem with ⟨-, hn⟩ | hr
    · exact absurd hn (hreclaim n now i)
    · exact Or.inr ⟨t', n, i, hr⟩
  · rcases mem_start_or_mem_acts hacts' hmem with ⟨-, hn⟩ | hr
    · exact absurd hn (hfree i)
    · exact Or.inl ⟨t', hr⟩

/-- A callback answers an attempt that was sent. -/
theorem capInv_callback {s s₁ s' : State} {k n : ℕ} {acts : List Act} (h : CapInv s)
    (hanswer : s.answer k = some (n, s₁)) (hstart : s₁.start .chip acts = some s')
    (hrequests : requests acts = []) (hcarried : carried acts = [])
    (hfree : ∀ i, .freeSlot i ∉ acts) : CapInv s' := by
  have hclaimed := claimed_of_answer hanswer
  obtain ⟨-, -, -, -, rfl⟩ := answer_cases hanswer
  obtain ⟨hidle, rfl⟩ := start_cases hstart
  refine capInv_start h hidle rfl (.callback hrequests hfree _) rfl rfl
    (.modify rfl (fun _ => rfl) fun x _ hlive => ?_) hclaimed fun k' => ?_
  · rcases hlive.1 with hphase' | hphase' <;> exact nomatch hphase'
  · rw [hcarried]
    rfl

theorem capInv_step (s : State) (l : Label) (s' : State) (h : CapInv s) (hok : StepFreesOwn s l)
    (hstep : step s l = some s') : CapInv s' := by
  cases l with
  | act t ok =>
    obtain ⟨a, rest, new, hacts, hexec, hacts'⟩ := perform_cases hstep
    simp only [StepFreesOwn, hacts] at hok
    exact capInv_perform h hok hacts hexec hacts'
  | advance ticks =>
    obtain rfl := Option.some.inj hstep
    exact h.advance ticks
  | world | deviceAdded | deviceRemoved =>
    obtain rfl := Option.some.inj hstep
    exact ⟨h.worker.of_acts_eq rfl, h.once, h.claimed, h.past, h.stamped, h.owned, h.reading,
      h.expiring⟩
  | established k sid | terminated k sid | failed k =>
    simp only [step] at hstep
    split at hstep
    · rename_i n s₁ hanswer
      exact capInv_callback h hanswer hstep rfl rfl (by simp)
    · contradiction
  | checkin n | interrogated n | topologyChanged n =>
    obtain ⟨hidle, rfl⟩ := start_cases hstep
    exact capInv_start h hidle rfl (.callback rfl (by simp) _) rfl rfl (.of_eq rfl)
      (fun _ a ha hphase => ⟨a, ha, hphase⟩) fun _ => rfl
  | sweepDue =>
    simp only [step] at hstep
    split at hstep
    · obtain ⟨hidle, rfl⟩ := start_cases hstep
      exact capInv_start h hidle rfl (.callback rfl (by simp) _) rfl rfl (.of_eq rfl)
        (fun _ a ha hphase => ⟨a, ha, hphase⟩) fun _ => rfl
    · contradiction
  | receive =>
    simp only [step] at hstep
    split at hstep
    · rename_i n queue hqueue
      obtain ⟨hidle, rfl⟩ := start_cases hstep
      exact capInv_start h hidle rfl (.receive hqueue) rfl rfl (.of_eq rfl)
        (fun _ a ha hphase => ⟨a, ha, hphase⟩) fun _ => rfl
    · contradiction
  | runWork =>
    simp only [step] at hstep
    split at hstep
    · rename_i n k work hwork
      obtain ⟨hidle, rfl⟩ := start_cases hstep
      exact capInv_start h hidle rfl (.callback rfl (by simp) _) rfl rfl (.of_eq rfl)
        (fun _ a ha hphase => ⟨a, ha, hphase⟩) fun j => count_of_runWork hwork j
    · contradiction

theorem capInv_boot (sensorEndpoints : List ℕ) (tariffSource : Option (ℕ × ℕ))
    (registeredIcds : List ℕ) (devices : ℕ → Option Bool) (tick : ℕ) :
    CapInv (.boot sensorEndpoints tariffSource registeredIcds devices tick) := by
  have hworker := workerInv_boot sensorEndpoints tariffSource registeredIcds devices tick
  have hacts : ∀ t, ∀ a ∈ (State.boot sensorEndpoints tariffSource registeredIcds devices tick).acts
      t, a = .sweep := by
    intro t a ha
    cases t with
    | main => exact List.mem_singleton.mp ha
    | chip | worker | http => exact absurd ha List.not_mem_nil
  have hcarried := carriedInv_boot sensorEndpoints tariffSource registeredIcds devices tick
  refine ⟨hworker, hcarried.once, hcarried.claimed, fun a ha => absurd ha List.not_mem_nil,
    fun _ _ hslot => ?_, fun _ _ ha => ?_, fun t n now i hmem => ?_, fun t i hmem => ?_⟩
  · exact nomatch hslot
  · exact nomatch ha
  · exact nomatch hacts t _ hmem
  · exact nomatch hacts t _ hmem

/-- In every run in which no callback frees the slot of another attempt that is still live, the
attempts that were sent, are not answered and are younger than the timeout are never more than
`MAX_ATTEMPTS_IN_FLIGHT`. -/
theorem in_flight_capped (sensorEndpoints : List ℕ) (tariffSource : Option (ℕ × ℕ))
    (registeredIcds : List ℕ) (devices : ℕ → Option Bool) (tick : ℕ) (ls : List Label) (s : State)
    (hrun : StepSystem.run step
      (.boot sensorEndpoints tariffSource registeredIcds devices tick) ls = some s)
    (hok : StepSystem.Meets step StepFreesOwn
      (.boot sensorEndpoints tariffSource registeredIcds devices tick) ls) :
    s.inFlight ≤ MAX_ATTEMPTS_IN_FLIGHT :=
  (StepSystem.inv_of_run capInv_step
    (capInv_boot sensorEndpoints tariffSource registeredIcds devices tick) hok hrun).inFlight_le

/-- A first attempt fails after half a minute, and a second one is sent. -/
def secondAttemptRun : List Label :=
  sentRun ++ [.advance 3000, .failed 0] ++ acts .chip 7 ++ [.receive] ++ acts .worker 10
    ++ [.runWork] ++ acts .chip 3

theorem in_flight_capped_second :
    ∃ s, StepSystem.run step (.boot [10000] none [] (fun _ => none) 0) secondAttemptRun = some s ∧
      s.inFlight = 1 ∧ s.inFlight ≤ MAX_ATTEMPTS_IN_FLIGHT := by
  have hfinal : (StepSystem.run step (.boot [10000] none [] (fun _ => none) 0)
      secondAttemptRun).map (·.inFlight) = some 1 := by decide +kernel
  obtain ⟨s, hs, hone⟩ := Option.map_eq_some_iff.mp hfinal
  exact ⟨s, hs, hone, in_flight_capped _ _ _ _ _ _ s hs (by decide +kernel)⟩

/-- A node that was interrogated is sent an attempt. -/
def interrogatedRun (n : ℕ) : List Label :=
  [.interrogated n] ++ acts .chip 2 ++ [.receive] ++ acts .worker 10 ++ [.runWork] ++ acts .chip 3

/-- After the late termination, four more nodes are found. -/
def fifthAttemptRun : List Label :=
  lateTerminationRun ++ [.world [10000, 10001, 10002, 10003, 10004] none [10000]]
    ++ interrogatedRun 10001 ++ interrogatedRun 10002 ++ interrogatedRun 10003
    ++ interrogatedRun 10004

/-- The late termination frees the slot of a live attempt, and a fifth attempt is sent. -/
theorem late_termination_exceeds_cap :
    ¬ ∀ (sensorEndpoints : List ℕ) (tariffSource : Option (ℕ × ℕ)) (registeredIcds : List ℕ)
      (devices : ℕ → Option Bool) (tick : ℕ) (ls : List Label) (s : State),
      StepSystem.run step (.boot sensorEndpoints tariffSource registeredIcds devices tick) ls
        = some s → s.inFlight ≤ MAX_ATTEMPTS_IN_FLIGHT := by
  intro h
  have hfinal : (StepSystem.run step (.boot [10000] none [10000] (fun _ => none) 0)
      fifthAttemptRun).map (·.inFlight) = some 5 := by decide +kernel
  obtain ⟨s, hs, hfive⟩ := Option.map_eq_some_iff.mp hfinal
  have hle := h _ _ _ _ _ fifthAttemptRun s hs
  rw [hfive] at hle
  exact absurd hle (by decide)

end HomeEnergyManager.SubscriptionManager
