import HomeEnergyManager.Subscription.Worker

/-! # The attempts and the work of the CHIP task

Each attempt is carried by one task from the claim of its slot until it is sent or dropped, and no
action after that sends it again.
-/

namespace HomeEnergyManager.SubscriptionManager

/-- The attempt that an action is to send, or to schedule the sending of. -/
def Act.carries : Act → Option ℕ
  | .schedule _ k | .getSource _ k | .sendCommand _ k _ => some k
  | _ => none

def carried (acts : List Act) : List ℕ := acts.filterMap Act.carries

@[simp] theorem carried_append (l l' : List Act) : carried (l ++ l') = carried l ++ carried l' :=
  List.filterMap_append

/-- How often an attempt is still to be sent. -/
def State.carriedCount (s : State) (k : ℕ) : ℕ :=
  (s.work.map Prod.snd).count k + Tally.tally (fun acts => (carried acts).count k) s.acts

/-- The nodes that the sweep looks at carry no attempt. -/
theorem carried_map_sweepNode (l : List ℕ) : carried (l.map .sweepNode) = [] := by
  induction l with
  | nil => rfl
  | cons n l ih => exact ih

/-- An action either leaves the attempts alone and moves the one it carries into the work, or claims
a slot for a new attempt, or sends or drops the attempt that it carries. -/
theorem exec_attempts {s s' : Shared} {ok : Bool} {a : Act} {new : List Act}
    (h : exec s ok a = some (s', new)) :
    (s'.attempts = s.attempts ∧
      s'.work.map Prod.snd ++ carried new = s.work.map Prod.snd ++ carried [a]) ∨
    (∃ n i, a = .takeSlot n ∧ s.slots i = none ∧ s'.work = s.work ∧
      new = [.schedule n s.attempts.length] ∧
      s'.attempts = s.attempts ++ [{ nodeId := n, started := s.tick, phase := .claimed }] ∧
      s'.slots = Function.update s.slots i
        (some { nodeId := n, started := s.tickCount, attempt := s.attempts.length })) ∨
    (∃ k f, a.carries = some k ∧ s'.work = s.work ∧ s'.slots = s.slots ∧ carried new = [] ∧
      s'.attempts = s.attempts.modify k f ∧
      ∀ x : Attempt, (f x).started = x.started ∧ (f x).phase ≠ .claimed) := by
  cases does_of_exec h with
  | sweep => exact Or.inl ⟨rfl, congrArg _ (carried_map_sweepNode _)⟩
  | takeSlot hfree => exact Or.inr (Or.inl ⟨_, _, rfl, hfree, rfl, rfl, rfl, rfl⟩)
  | schedule =>
    refine Or.inl ⟨rfl, ?_⟩
    rw [List.map_append]
    exact List.append_nil _
  | scheduleFailed | sendCommand | sendCommandFailed =>
    exact Or.inr (Or.inr ⟨_, _, rfl, rfl, rfl, rfl, rfl, fun _ => ⟨rfl, nofun⟩⟩)
  | _ => exact Or.inl ⟨rfl, rfl⟩

/-- No action takes time. -/
theorem exec_tick {s s' : Shared} {ok : Bool} {a : Act} {new : List Act}
    (h : exec s ok a = some (s', new)) : s'.tick = s.tick := by
  cases does_of_exec h <;> rfl

/-- The loop of `reclaim_expired_slots_locked` starts with the clock, goes on with the same time,
and frees a slot that is expired at that time. -/
theorem exec_reclaim {s s' : Shared} {ok : Bool} {a : Act} {new : List Act}
    (h : exec s ok a = some (s', new)) :
    (∀ n now i, .reclaim n now i ∈ new → now = s.tickCount ∨ ∃ j, a = .reclaim n now j) ∧
      ∀ i, .freeSlot i ∈ new → ∃ n now j, a = .reclaim n now j ∧
        ∀ slot ∈ s.slots i, slot.expired now = true := by
  cases does_of_exec h with
  | lockSlots =>
    refine ⟨fun n' now' i' hmem => ?_, fun _ hmem => absurd hmem (by simp)⟩
    obtain ⟨-, rfl, -⟩ := Act.reclaim.inj (List.mem_singleton.mp hmem)
    exact Or.inl rfl
  | @reclaimExpired n now j _ hslot hexpired =>
    refine ⟨fun n' now' i' hmem => ?_, fun i hmem => ⟨n, now, j, rfl, fun slot' hslot' => ?_⟩⟩
    · simp only [List.mem_cons, reduceCtorEq, Act.reclaim.injEq, false_or, List.not_mem_nil,
        or_false] at hmem
      obtain ⟨rfl, rfl, -⟩ := hmem
      exact Or.inr ⟨j, rfl⟩
    · obtain rfl : i = j := by simpa using hmem
      rw [hslot] at hslot'
      obtain rfl := Option.some.inj hslot'
      exact hexpired
  | reclaimKeep =>
    refine ⟨fun n' now' i' hmem => ?_, fun _ hmem => absurd hmem (by simp)⟩
    obtain ⟨rfl, rfl, -⟩ := Act.reclaim.inj (List.mem_singleton.mp hmem)
    exact Or.inr ⟨_, rfl⟩
  | _ => exact ⟨fun _ _ _ hmem => absurd hmem (by simp), fun _ hmem => absurd hmem (by simp)⟩

/-- An action trades the attempt that it carries for those of the actions that it leads to. -/
theorem perform_carriedCount {s s' : State} {t : Task} {a : Act} {rest new : List Act}
    (hacts : s.acts t = a :: rest) (hacts' : s'.acts = Function.update s.acts t (new ++ rest))
    (k : ℕ) :
    s'.carriedCount k + ((s.work.map Prod.snd).count k + (carried [a]).count k)
      = s.carriedCount k + ((s'.work.map Prod.snd).count k + (carried new).count k) := by
  have htally := Tally.tally_update_add (fun acts => (carried acts).count k) s.acts t (new ++ rest)
  have hcons : carried (a :: rest) = carried [a] ++ carried rest := carried_append [a] rest
  rw [hacts, hcons, carried_append, List.count_append, List.count_append] at htally
  unfold State.carriedCount
  rw [hacts']
  omega

/-- An attempt that an action carries counts. -/
theorem carriedCount_pos {s : State} {t : Task} {a : Act} {rest : List Act} {k : ℕ}
    (hacts : s.acts t = a :: rest) (ha : a.carries = some k) : 0 < s.carriedCount k := by
  have hle := Tally.le_tally (fun acts => (carried acts).count k) s.acts t
  have hpos : 0 < (carried (s.acts t)).count k := by
    rw [List.count_pos_iff, hacts]
    exact List.mem_filterMap.mpr ⟨a, List.mem_cons_self, ha⟩
  unfold State.carriedCount
  exact Nat.add_pos_right _ (hpos.trans_le hle)

/-! ## Each attempt is sent once -/

/-- An attempt is carried once at most, and it is claimed as long as it is carried. -/
structure CarriedInv (s : State) : Prop where
  once : ∀ k, s.carriedCount k ≤ 1
  claimed : ∀ k, 0 < s.carriedCount k → ∃ a ∈ s.attempts[k]?, a.phase = .claimed

theorem CarriedInv.of_forall {s : State}
    (h : ∀ k, s.carriedCount k ≤ 1 ∧
      (0 < s.carriedCount k → ∃ a ∈ s.attempts[k]?, a.phase = .claimed)) : CarriedInv s :=
  ⟨fun k => (h k).1, fun k => (h k).2⟩

/-- What an attempt that stays where it is has to keep. -/
theorem CarriedInv.same {s s' : State} {k : ℕ} (h : CarriedInv s)
    (hcount : s'.carriedCount k = s.carriedCount k)
    (hkeeps : ∀ a ∈ s.attempts[k]?, a.phase = .claimed →
      ∃ a' ∈ s'.attempts[k]?, a'.phase = .claimed) :
    s'.carriedCount k ≤ 1 ∧
      (0 < s'.carriedCount k → ∃ a ∈ s'.attempts[k]?, a.phase = .claimed) := by
  rw [hcount]
  refine ⟨h.once k, fun hpos => ?_⟩
  obtain ⟨a, ha, hphase⟩ := h.claimed k hpos
  exact hkeeps a ha hphase

/-- An action sends an attempt that it carries, and a claimed slot brings a new one. -/
theorem CarriedInv.perform {s s' : State} {t : Task} {ok : Bool} {a : Act} {rest new : List Act}
    (h : CarriedInv s) (hacts : s.acts t = a :: rest)
    (hexec : exec s.toShared ok a = some (s'.toShared, new))
    (hacts' : s'.acts = Function.update s.acts t (new ++ rest)) : CarriedInv s' := by
  refine CarriedInv.of_forall fun k => ?_
  have hcount := perform_carriedCount hacts hacts' k
  have hone := h.once k
  rcases exec_attempts hexec with ⟨hattempts, hlist⟩ |
    ⟨n, i, rfl, -, hwork, rfl, hattempts, -⟩ | ⟨m, f, hm, hwork, -, hnew, hattempts, -⟩
  · have hsame := congrArg (List.count k) hlist
    rw [List.count_append, List.count_append] at hsame
    refine h.same (by omega) fun x hx hclaimed => ⟨x, ?_, hclaimed⟩
    rw [hattempts]
    exact hx
  · rw [hwork, show (carried [.takeSlot n]).count k = 0 from rfl] at hcount
    by_cases hk : k = s.attempts.length
    -- the new attempt, which nothing carried before
    · have hzero : s.carriedCount k = 0 := by
        by_contra hne
        obtain ⟨x, hx, -⟩ := h.claimed k (Nat.pos_of_ne_zero hne)
        rw [hk, List.getElem?_eq_none le_rfl] at hx
        exact nomatch hx
      have hle : (carried [.schedule n s.attempts.length]).count k ≤ 1 :=
        List.count_le_length
      refine ⟨by omega, fun _ => ⟨{ nodeId := n, started := s.tick, phase := .claimed }, ?_, rfl⟩⟩
      rw [hattempts, hk]
      exact List.getElem?_concat_length
    · have hother : (carried [.schedule n s.attempts.length]).count k = 0 :=
        List.count_eq_zero.mpr fun hmem => hk (List.mem_singleton.mp hmem)
      refine h.same (by omega) fun x hx hclaimed => ⟨x, ?_, hclaimed⟩
      rw [hattempts, List.getElem?_append_left (List.getElem?_eq_some_iff.mp hx).1]
      exact hx
  · have hcarried : carried [a] = [m] := by
      unfold carried
      rw [List.filterMap_cons, hm]
      rfl
    rw [hwork, hnew, hcarried, List.count_nil] at hcount
    -- the attempt leaves the hands of the task; the others stay where they are
    by_cases hk : k = m
    · rw [hk, List.count_singleton_self] at hcount
      rw [hk] at hone ⊢
      exact ⟨by omega, fun hpos => by omega⟩
    · have hother : [m].count k = 0 :=
        List.count_eq_zero.mpr fun hmem => hk (List.mem_singleton.mp hmem)
      refine h.same (by omega) fun x hx hclaimed => ⟨x, ?_, hclaimed⟩
      rw [hattempts, List.getElem?_modify_ne f s.attempts (Ne.symm hk)]
      exact hx

/-- A start on an idle task takes over at most what the CHIP task had still to run. -/
theorem CarriedInv.start {s s' : State} {t : Task} {acts : List Act} (h : CarriedInv s)
    (hidle : s.acts t = []) (hacts' : s'.acts = Function.update s.acts t acts)
    (hclaimed : ∀ k : ℕ, ∀ a ∈ s.attempts[k]?, a.phase = .claimed →
      ∃ a' ∈ s'.attempts[k]?, a'.phase = .claimed)
    (hwork : ∀ k, (s'.work.map Prod.snd).count k + (carried acts).count k
      = (s.work.map Prod.snd).count k) : CarriedInv s' := by
  have hcount : ∀ k, s'.carriedCount k = s.carriedCount k := by
    intro k
    have htally := Tally.tally_update_add (fun acts => (carried acts).count k) s.acts t acts
    rw [hidle, show (carried []).count k = 0 from rfl, ← hacts'] at htally
    have := hwork k
    unfold State.carriedCount
    omega
  exact CarriedInv.of_forall fun k => h.same (hcount k) (hclaimed k)

/-- A callback leaves the attempts that are still claimed. -/
theorem claimed_of_answer {s s' : State} {k n : ℕ} (hanswer : s.answer k = some (n, s')) (k' : ℕ) :
    ∀ a ∈ s.attempts[k']?, a.phase = .claimed → ∃ a' ∈ s'.attempts[k']?, a'.phase = .claimed := by
  obtain ⟨a, ha, -, hphase, rfl⟩ := answer_cases hanswer
  intro x hx hclaimed
  refine ⟨x, ?_, hclaimed⟩
  have hk : k ≠ k' := by
    rintro rfl
    obtain rfl := Option.some.inj (ha.symm.trans hx)
    rw [hclaimed] at hphase
    rcases hphase with hphase | hphase <;> exact nomatch hphase
  exact (List.getElem?_modify_ne _ s.attempts hk).trans hx

/-- The attempt of the next work moves into the hands of the CHIP task. -/
theorem count_of_runWork {s : State} {n k : ℕ} {work : List (ℕ × ℕ)}
    (hwork : s.work = (n, k) :: work) (j : ℕ) :
    (work.map Prod.snd).count j + (carried [.refreshIcdFlag n, .getSource n k]).count j
      = (s.work.map Prod.snd).count j := by
  have hcarried : carried [.refreshIcdFlag n, .getSource n k] = [k] := rfl
  rw [hwork, hcarried, List.map_cons, List.count_cons, List.count_cons, List.count_nil]
  dsimp only
  omega

theorem carriedInv_step (s : State) (l : Label) (s' : State) (h : CarriedInv s)
    (hstep : step s l = some s') : CarriedInv s' := by
  cases l with
  | act t ok =>
    obtain ⟨a, rest, new, hacts, hexec, hacts'⟩ := perform_cases hstep
    exact h.perform hacts hexec hacts'
  | advance | world | deviceAdded | deviceRemoved =>
    obtain rfl := Option.some.inj hstep
    exact ⟨h.once, h.claimed⟩
  | established k sid | terminated k sid | failed k =>
    simp only [step] at hstep
    split at hstep
    · rename_i n s₁ hanswer
      have hclaimed := claimed_of_answer hanswer
      obtain ⟨-, -, -, -, rfl⟩ := answer_cases hanswer
      obtain ⟨hidle, rfl⟩ := start_cases hstep
      exact h.start hidle rfl hclaimed fun _ => rfl
    · contradiction
  | checkin n | interrogated n | topologyChanged n =>
    obtain ⟨hidle, rfl⟩ := start_cases hstep
    exact h.start hidle rfl (fun _ a ha hphase => ⟨a, ha, hphase⟩) fun _ => rfl
  | sweepDue =>
    simp only [step] at hstep
    split at hstep
    · obtain ⟨hidle, rfl⟩ := start_cases hstep
      exact h.start hidle rfl (fun _ a ha hphase => ⟨a, ha, hphase⟩) fun _ => rfl
    · contradiction
  | receive =>
    simp only [step] at hstep
    split at hstep
    · obtain ⟨hidle, rfl⟩ := start_cases hstep
      exact h.start hidle rfl (fun _ a ha hphase => ⟨a, ha, hphase⟩) fun _ => rfl
    · contradiction
  | runWork =>
    simp only [step] at hstep
    split at hstep
    · rename_i n k work hwork
      obtain ⟨hidle, rfl⟩ := start_cases hstep
      exact h.start hidle rfl (fun _ a ha hphase => ⟨a, ha, hphase⟩) (count_of_runWork hwork)
    · contradiction

theorem carriedInv_boot (sensorEndpoints : List ℕ) (tariffSource : Option (ℕ × ℕ))
    (registeredIcds : List ℕ) (devices : ℕ → Option Bool) (tick : ℕ) :
    CarriedInv (.boot sensorEndpoints tariffSource registeredIcds devices tick) := by
  have hzero : ∀ k, (State.boot sensorEndpoints tariffSource registeredIcds devices
      tick).carriedCount k = 0 := by
    intro k
    rw [State.carriedCount, (Tally.tally_eq_zero_iff _ _).mpr fun t => by cases t <;> rfl]
    rfl
  refine CarriedInv.of_forall fun k => ?_
  rw [hzero]
  exact ⟨Nat.zero_le 1, fun hpos => absurd hpos (lt_irrefl 0)⟩

/-- A time that passed as ticks modulo `2 ^ 32` has passed. -/
theorem elapsed_le {started now : ℕ} (h : started ≤ now) :
    elapsed (now % 2 ^ 32) (started % 2 ^ 32) ≤ now - started := by
  unfold elapsed
  omega

end HomeEnergyManager.SubscriptionManager
