import Mathlib.Algebra.BigOperators.Intervals
import Mathlib.Algebra.Order.BigOperators.Group.Finset
import Mathlib.Data.List.GetD
import Mathlib.Tactic.Linarith
import Mathlib.Tactic.Ring
import HomeEnergyManager.Scheduler.Model

/-! # The placements

Each run with a profile has one turn, at which it finds what the runs before it have left of the
surplus. No hour is used beyond its surplus, and each run takes the best of the windows that it
finds. This is in exact arithmetic.

Reference: `firmware/main/scheduler.c`.
-/

namespace HomeEnergyManager.Scheduler

/-! ## Turns -/

/-- A run at its turn, with what is left of the surplus. -/
structure Turn where
  run : ScheduledRun
  remaining : ℕ → ℚ

/-- The window that the run gets. -/
def Turn.best (t : Turn) : ℤ × ℚ := bestStart id t.run t.remaining

/-- The run after its turn. -/
def Turn.outcome (t : Turn) : ScheduledRun :=
  if 0 ≤ t.best.1 then { t.run with startHour := t.best.1, selfConsumptionWh := t.best.2 }
  else t.run

/-- What the run uses in an hour: its power, or what is left if that is less. -/
def Turn.used (t : Turn) (h : ℕ) : ℚ :=
  if 0 ≤ t.best.1 ∧ t.best.1 ≤ h ∧ (h : ℤ) < t.best.1 + t.run.durationHours then
    min t.run.avgPowerW (t.remaining h)
  else 0

/-- The turns of runs in a row. -/
def turns (remaining : ℕ → ℚ) : List ScheduledRun → List Turn
  | [] => []
  | r :: rs =>
    let t : Turn := { run := r, remaining := remaining }
    t :: turns (fun h => remaining h - t.used h) rs

/-- The first of the best windows. -/
structure Turn.IsBest (t : Turn) (s : ℕ) : Prop where
  within : s + t.run.durationHours ≤ SCHED_HOURS
  positive : 0 < scoreAt id t.run t.remaining s
  greatest : ∀ s', s' + t.run.durationHours ≤ SCHED_HOURS →
    scoreAt id t.run t.remaining s' ≤ scoreAt id t.run t.remaining s
  earliest : ∀ s' < s, scoreAt id t.run t.remaining s' < scoreAt id t.run t.remaining s

/-- A run gets the first of its best windows and what it uses there, or no window if none has a
positive score. -/
def Turn.Optimal (t : Turn) : Prop :=
  (t.outcome.startHour < 0 ↔
      ∀ s, s + t.run.durationHours ≤ SCHED_HOURS → scoreAt id t.run t.remaining s ≤ 0) ∧
    ∀ s : ℕ, t.outcome.startHour = s →
      t.IsBest s ∧ t.outcome.selfConsumptionWh = ∑ h ∈ Finset.range SCHED_HOURS, t.used h ∧
        0 < t.outcome.selfConsumptionWh

/-! ## The choice of a window -/

section Choice

variable {r : ScheduledRun} {remaining : ℕ → ℚ} {t : Turn}

theorem bestStart_eq (r : ScheduledRun) (remaining : ℕ → ℚ) :
    bestStart id r remaining =
      ((List.range (SCHED_HOURS + 1 - r.durationHours)).map fun s : ℕ => (s : ℤ)).foldl
        (FirstMax.pick fun s : ℤ => scoreAt id r remaining s.toNat) (-1, 0) := by
  rw [List.foldl_map]
  rfl

theorem bestStart_of_le (h : ∀ s, s < SCHED_HOURS + 1 - r.durationHours →
    scoreAt id r remaining s ≤ 0) : bestStart id r remaining = (-1, 0) := by
  rw [bestStart_eq]
  refine FirstMax.foldl_pick_of_le fun b hb => ?_
  obtain ⟨s, hs, rfl⟩ := List.mem_map.mp hb
  exact h s (List.mem_range.mp hs)

/-- Where some score is positive, the loop finds the first of the greatest. -/
theorem bestStart_of_pos (h : ∃ s, s < SCHED_HOURS + 1 - r.durationHours ∧
    0 < scoreAt id r remaining s) :
    ∃ s : ℕ, bestStart id r remaining = ((s : ℤ), scoreAt id r remaining s) ∧
      s < SCHED_HOURS + 1 - r.durationHours ∧ 0 < scoreAt id r remaining s ∧
      (∀ s' < SCHED_HOURS + 1 - r.durationHours,
        scoreAt id r remaining s' ≤ scoreAt id r remaining s) ∧
      ∀ s' < s, scoreAt id r remaining s' < scoreAt id r remaining s := by
  obtain ⟨p, hp, hpos⟩ := h
  obtain ⟨s, l₁, l₂, hsplit, -, hbefore, hafter⟩ : ∃ s, FirstMax.IsFirstMax (scoreAt id r remaining)
      (fun _ => True) (List.range (SCHED_HOURS + 1 - r.durationHours)) s :=
    FirstMax.exists_isFirstMax ⟨p, List.mem_range.mpr hp, trivial⟩
  have hgreatest : ∀ s' < SCHED_HOURS + 1 - r.durationHours,
      scoreAt id r remaining s' ≤ scoreAt id r remaining s := by
    intro s' hs'
    have hmem := List.mem_range.mpr hs'
    rw [hsplit, List.mem_append, List.mem_cons] at hmem
    rcases hmem with hmem | rfl | hmem
    · exact (hbefore s' hmem trivial).le
    · exact le_refl _
    · exact hafter s' hmem trivial
  have hpositive := hpos.trans_le (hgreatest p hp)
  have hs : s < SCHED_HOURS + 1 - r.durationHours :=
    List.mem_range.mp (hsplit ▸ List.mem_append_right _ List.mem_cons_self)
  -- what is smaller comes before `s` in the range
  have hsmaller : ∀ s' < s, s' ∈ l₁ := by
    intro s' hs'
    have hmem : s' ∈ List.range (SCHED_HOURS + 1 - r.durationHours) :=
      List.mem_range.mpr (hs'.trans hs)
    have hsorted := List.pairwise_lt_range (n := SCHED_HOURS + 1 - r.durationHours)
    rw [hsplit] at hmem hsorted
    rcases List.mem_append.mp hmem with hmem | hmem
    · exact hmem
    · rcases List.mem_cons.mp hmem with rfl | hmem
      · exact absurd hs' (lt_irrefl _)
      · have hlt := List.rel_of_pairwise_cons (List.pairwise_append.mp hsorted).2.1 hmem
        omega
  refine ⟨s, ?_, hs, hpositive, hgreatest, fun s' hs' => hbefore s' (hsmaller s' hs') trivial⟩
  rw [bestStart_eq, hsplit, List.map_append, List.map_cons]
  refine FirstMax.foldl_pick hpositive ?_ ?_
  · intro b hb
    obtain ⟨s', hs', rfl⟩ := List.mem_map.mp hb
    exact hbefore s' hs' trivial
  · intro b hb
    obtain ⟨s', hs', rfl⟩ := List.mem_map.mp hb
    exact hafter s' hs' trivial

/-- The two outcomes of a turn. -/
theorem Turn.best_cases (hdur : t.run.durationHours ≤ SCHED_HOURS) :
    (t.best = (-1, 0) ∧
      ∀ s, s + t.run.durationHours ≤ SCHED_HOURS → scoreAt id t.run t.remaining s ≤ 0) ∨
    ∃ s : ℕ, t.best = ((s : ℤ), scoreAt id t.run t.remaining s) ∧ t.IsBest s := by
  by_cases hpos : ∃ s, s < SCHED_HOURS + 1 - t.run.durationHours ∧
      0 < scoreAt id t.run t.remaining s
  · obtain ⟨s, hbest, hs, hpositive, hgreatest, hearliest⟩ := bestStart_of_pos hpos
    refine Or.inr ⟨s, hbest, by omega, hpositive, fun s' hs' => hgreatest s' (by omega), hearliest⟩
  · push Not at hpos
    exact Or.inl ⟨bestStart_of_le hpos, fun s hs => hpos s (by omega)⟩

theorem useOf_eq_min (power available : ℚ) : useOf power available = min power available := by
  unfold useOf
  split
  · rename_i h
    exact (min_eq_left h.le).symm
  · rename_i h
    exact (min_eq_right (not_lt.mp h)).symm

/-- The score is what the run can use over its hours. -/
theorem scoreAt_eq_sum (r : ScheduledRun) (remaining : ℕ → ℚ) (s : ℕ) :
    scoreAt id r remaining s =
      ∑ i ∈ Finset.range r.durationHours, min r.avgPowerW (remaining (s + i)) := by
  rw [scoreAt]
  induction r.durationHours with
  | zero => rfl
  | succ n ih =>
    rw [List.range_succ, List.foldl_append, ih, List.foldl_cons, List.foldl_nil, id, useOf_eq_min,
      Finset.sum_range_succ]

/-- What a placed run uses adds up to its score. -/
theorem Turn.sum_used {s : ℕ} (hbest : t.best.1 = s)
    (hwithin : s + t.run.durationHours ≤ SCHED_HOURS) :
    ∑ h ∈ Finset.range SCHED_HOURS, t.used h = scoreAt id t.run t.remaining s := by
  have hfilter : (Finset.range SCHED_HOURS).filter (fun h : ℕ => 0 ≤ t.best.1 ∧ t.best.1 ≤ h ∧
      (h : ℤ) < t.best.1 + t.run.durationHours) = Finset.Ico s (s + t.run.durationHours) := by
    ext h
    rw [Finset.mem_filter, Finset.mem_range, Finset.mem_Ico, hbest]
    omega
  unfold Turn.used
  rw [← Finset.sum_filter, hfilter, Finset.sum_Ico_eq_sum_range, Nat.add_sub_cancel_left,
    scoreAt_eq_sum]

theorem Turn.optimal (hdur : t.run.durationHours ≤ SCHED_HOURS) (hstart : t.run.startHour = -1) :
    t.Optimal := by
  rcases t.best_cases hdur with ⟨hbest, hnone⟩ | ⟨s, hbest, hs⟩
  · have houtcome : t.outcome = t.run := by
      rw [Turn.outcome, hbest]
      rfl
    rw [Turn.Optimal, houtcome, hstart]
    refine ⟨iff_of_true (by decide) hnone, fun s hs => ?_⟩
    omega
  · have houtcome : t.outcome =
        { t.run with startHour := s, selfConsumptionWh := scoreAt id t.run t.remaining s } := by
      rw [Turn.outcome, hbest]
      exact if_pos (Int.natCast_nonneg s)
    rw [Turn.Optimal, houtcome]
    refine ⟨iff_of_false (by simp) ?_, ?_⟩
    · exact fun hall => absurd (hall s hs.within) (not_le_of_gt hs.positive)
    · intro s' hs'
      obtain rfl : s = s' := Int.ofNat_inj.mp hs'
      exact ⟨hs, (t.sum_used (by rw [hbest]) hs.within).symm, hs.positive⟩

end Choice

/-! ## The surplus that is left -/

section Left

variable {remaining : ℕ → ℚ} {rs : List ScheduledRun}

theorem Turn.used_le {t : Turn} (h : ∀ k, 0 ≤ t.remaining k) (k : ℕ) :
    t.used k ≤ t.remaining k := by
  unfold Turn.used
  split
  · exact min_le_right _ _
  · exact h k

/-- All turns together use no more than there is. -/
theorem sum_used_le (h : ∀ k, 0 ≤ remaining k) (k : ℕ) :
    ((turns remaining rs).map (·.used k)).sum ≤ remaining k := by
  induction rs generalizing remaining with
  | nil => exact h k
  | cons r rs ih =>
    rw [turns, List.map_cons, List.sum_cons]
    have hused := fun k => Turn.used_le (t := { run := r, remaining := remaining }) h k
    have hrest := @ih (fun k => remaining k - Turn.used { run := r, remaining := remaining } k)
      fun k => sub_nonneg.mpr (hused k)
    linarith

/-- A run finds what the turns before it have left. -/
theorem remaining_of_split {pre post : List Turn} {t : Turn}
    (hsplit : turns remaining rs = pre ++ t :: post) (k : ℕ) :
    t.remaining k = remaining k - (pre.map (·.used k)).sum := by
  induction rs generalizing remaining pre with
  | nil => exact absurd hsplit (by simp [turns])
  | cons r rs ih =>
    rw [turns] at hsplit
    cases pre with
    | nil =>
      obtain ⟨hhead, -⟩ := List.cons.inj hsplit
      rw [← hhead]
      simp
    | cons t' pre =>
      obtain ⟨hhead, htail⟩ := List.cons.inj hsplit
      have hleft := ih htail
      rw [hleft, ← hhead, List.map_cons, List.sum_cons]
      ring

theorem map_run_turns : (turns remaining rs).map (·.run) = rs := by
  induction rs generalizing remaining with
  | nil => rfl
  | cons r rs ih => rw [turns, List.map_cons, ih]

end Left

/-! ## The loop over the runs -/

section Loop

variable {out : List ScheduledRun} {remaining : ℕ → ℚ}

/-- One pass is the turn of a run. -/
theorem place_eq (i : ℕ) : place id (out, remaining) i =
    (out.set i (Turn.outcome ⟨out.getD i default, remaining⟩),
      fun h => remaining h - Turn.used ⟨out.getD i default, remaining⟩ h) := by
  let t : Turn := ⟨out.getD i default, remaining⟩
  show (if 0 ≤ t.best.1 then (out.set i { t.run with
    startHour := t.best.1, selfConsumptionWh := t.best.2 }, takeFrom id t.run t.best.1 remaining)
    else (out, remaining)) = (out.set i t.outcome, fun h => remaining h - t.used h)
  by_cases hbest : 0 ≤ t.best.1
  · rw [if_pos hbest, Turn.outcome, if_pos hbest]
    refine congrArg (Prod.mk _) (funext fun h => ?_)
    rw [takeFrom, Turn.used]
    by_cases hin : t.best.1 ≤ h ∧ (h : ℤ) < t.best.1 + t.run.durationHours
    · rw [if_pos hin, if_pos ⟨hbest, hin⟩, id, useOf_eq_min]
    · rw [if_neg hin, if_neg fun hall => hin hall.2, sub_zero]
  · rw [if_neg hbest, Turn.outcome, if_neg hbest]
    refine Prod.ext ?_ (funext fun h => ?_)
    · show out = out.set i (out.getD i default)
      apply List.ext_getElem?
      intro j
      rw [List.getElem?_set]
      split
      · rename_i hij
        subst hij
        split
        · rename_i hlt
          rw [List.getD_eq_getElem _ _ hlt, List.getElem?_eq_getElem hlt]
        · rename_i hlt
          exact List.getElem?_eq_none (not_lt.mp hlt)
      · rfl
    · have hnone : t.used h = 0 := if_neg fun hall => hbest hall.1
      show remaining h = remaining h - t.used h
      rw [hnone, sub_zero]

/-- What the loop leaves: the runs of its positions have had their turns, the others are as they
were. -/
theorem foldl_place {idx : List ℕ} (hnodup : idx.Nodup) (hlt : ∀ i ∈ idx, i < out.length) :
    (idx.foldl (place id) (out, remaining)).1.length = out.length ∧
      (∀ j ∉ idx, (idx.foldl (place id) (out, remaining)).1.getD j default = out.getD j default) ∧
      idx.map ((idx.foldl (place id) (out, remaining)).1.getD · default) =
        (turns remaining (idx.map (out.getD · default))).map Turn.outcome := by
  induction idx generalizing out remaining with
  | nil => exact ⟨rfl, fun _ _ => rfl, rfl⟩
  | cons i idx ih =>
    obtain ⟨hi, hnodup⟩ := List.nodup_cons.mp hnodup
    let t : Turn := ⟨out.getD i default, remaining⟩
    have hset : ∀ j, (out.set i t.outcome).getD j default =
        if i = j then t.outcome else out.getD j default := by
      intro j
      have hi : i < out.length := hlt i List.mem_cons_self
      rw [List.getD_eq_getElem?_getD, List.getD_eq_getElem?_getD, List.getElem?_set, if_pos hi]
      split <;> rfl
    obtain ⟨hlength, hkept, hturns⟩ := @ih (out.set i t.outcome) (fun h => remaining h - t.used h)
      hnodup fun j hj => by
        rw [List.length_set]
        exact hlt j (List.mem_cons_of_mem _ hj)
    have hpass : (i :: idx).foldl (place id) (out, remaining) =
        idx.foldl (place id) (out.set i t.outcome, fun h => remaining h - t.used h) := by
      rw [List.foldl_cons, place_eq]
    have hsame : idx.map ((out.set i t.outcome).getD · default) =
        idx.map (out.getD · default) := by
      refine List.map_congr_left fun j hj => ?_
      rw [hset, if_neg fun hij : i = j => hi (hij ▸ hj)]
    rw [hpass]
    refine ⟨hlength.trans List.length_set, fun j hj => ?_, ?_⟩
    · rw [hkept j fun hmem => hj (List.mem_cons_of_mem _ hmem), hset,
        if_neg fun hij : i = j => hj (hij ▸ List.mem_cons_self)]
    · rw [List.map_cons, List.map_cons, turns, List.map_cons, hturns, hsame, hkept i hi, hset,
        if_pos rfl]

theorem map_getD_range (l : List ScheduledRun) :
    (List.range l.length).map (l.getD · default) = l := by
  apply List.ext_getElem
  · rw [List.length_map, List.length_range]
  · intro i hi _
    have hlt : i < l.length := by simpa using hi
    rw [List.getElem_map, List.getElem_range, List.getD_eq_getElem _ _ hlt]

/-- The positions of the runs with a profile, and those of the others, are all positions. -/
theorem placementOrder_perm (out : List ScheduledRun) :
    List.Perm (placementOrder out)
      ((List.range out.length).filter fun i => 0 < (out.getD i default).durationHours) :=
  ExchangeSort.sort_perm _

/-- The runs with a profile in the order of their turns. -/
def inOrder (out : List ScheduledRun) : List ScheduledRun :=
  (placementOrder out).map (out.getD · default)

theorem inOrder_perm (out : List ScheduledRun) :
    List.Perm (inOrder out) (out.filter fun r => 0 < r.durationHours) := by
  have hmap : ((List.range out.length).filter fun i =>
      0 < (out.getD i default).durationHours).map (out.getD · default) =
        out.filter fun r => 0 < r.durationHours := by
    conv_rhs => rw [← map_getD_range out, List.filter_map]
    rfl
  rw [← hmap]
  exact (placementOrder_perm out).map _

/-- After the loop there are the outcomes of the turns and the runs without a profile. -/
theorem placed_perm (out : List ScheduledRun) (remaining : ℕ → ℚ) :
    List.Perm ((placementOrder out).foldl (place id) (out, remaining)).1
      ((turns remaining (inOrder out)).map Turn.outcome ++
        out.filter fun r => ¬ 0 < r.durationHours) := by
  have hperm := placementOrder_perm out
  have hmem : ∀ i, i ∈ placementOrder out ↔
      i < out.length ∧ 0 < (out.getD i default).durationHours := by
    intro i
    rw [hperm.mem_iff, List.mem_filter, List.mem_range, decide_eq_true_eq]
  have hnodup : (placementOrder out).Nodup :=
    hperm.nodup_iff.mpr (List.nodup_range.filter _)
  obtain ⟨hlength, hkept, hturns⟩ := @foldl_place out remaining _ hnodup
    fun i hi => ((hmem i).mp hi).1
  generalize ((placementOrder out).foldl (place id) (out, remaining)).1 = res
    at hlength hkept hturns ⊢
  have hothers : ((List.range out.length).filter fun i =>
      ¬ 0 < (out.getD i default).durationHours).map (res.getD · default) =
        out.filter fun r => ¬ 0 < r.durationHours := by
    have hmap : ((List.range out.length).filter fun i =>
        ¬ 0 < (out.getD i default).durationHours).map (out.getD · default) =
          out.filter fun r => ¬ 0 < r.durationHours := by
      conv_rhs => rw [← map_getD_range out, List.filter_map]
      rfl
    rw [← hmap]
    refine List.map_congr_left fun i hi => hkept i fun hin => ?_
    exact (of_decide_eq_true (List.mem_filter.mp hi).2) ((hmem i).mp hin).2
  have hall : List.Perm (List.range out.length) (placementOrder out ++
      (List.range out.length).filter fun i => ¬ 0 < (out.getD i default).durationHours) := by
    refine List.Perm.trans ?_ (hperm.symm.append_right _)
    simp only [decide_not]
    exact (List.filter_append_perm _ _).symm
  have hres := hall.map (res.getD · default)
  rw [← hlength, map_getD_range, List.map_append, hturns, hlength, hothers] at hres
  exact hres

end Loop

/-! ## The schedule -/

section Schedule

variable {appliances : List Appliance}

/-- The runs of the appliances that are not excluded. -/
def candidates (appliances : List Appliance) : List ScheduledRun :=
  (appliances.filter (!·.excluded)).map (runOf id)

theorem runsOf_eq (h : appliances.length ≤ SCHEDULER_MAX_RUNS) :
    runsOf id appliances SCHEDULER_MAX_RUNS = candidates appliances := by
  rw [runsOf, candidates, List.take_of_length_le ((List.length_filter_le _ _).trans h)]

theorem durationOf_le (lenMin : ℕ) : durationOf lenMin ≤ SCHED_HOURS := by
  unfold durationOf
  dsimp only
  generalize (if (lenMin + 59) % 2 ^ 32 / 60 < 1 then 1 else (lenMin + 59) % 2 ^ 32 / 60) = dur
  split
  · exact le_refl _
  · rename_i h
    exact not_lt.mp h

/-- What a run is before its placement. -/
theorem runOf_spec (a : Appliance) :
    ((runOf id a).graphId, (runOf id a).name) = (a.id, a.name) ∧ (runOf id a).startHour = -1 ∧
      (runOf id a).durationHours ≤ SCHED_HOURS := by
  unfold runOf
  split
  · exact ⟨rfl, rfl, Nat.zero_le _⟩
  · split
    · exact ⟨rfl, rfl, durationOf_le _⟩
    · exact ⟨rfl, rfl, Nat.zero_le _⟩

theorem Turn.outcome_spec (t : Turn) :
    (t.outcome.graphId, t.outcome.name) = (t.run.graphId, t.run.name) ∧
      t.outcome.durationHours = t.run.durationHours := by
  unfold Turn.outcome
  split <;> exact ⟨rfl, rfl⟩

theorem available_eq_max (surplus : ℕ → ℚ) (h : ℕ) : available surplus h = max (surplus h) 0 := by
  unfold available
  split
  · rename_i hpos
    exact (max_eq_left hpos.le).symm
  · rename_i hpos
    exact (max_eq_right (not_lt.mp hpos)).symm

/-- What the profile of an appliance says of its run. -/
structure FollowsProfile (a : Appliance) (r : ScheduledRun) : Prop where
  unlearnt : (∀ prof, a.profile = some prof → prof.programCount = 0 ∨ prof.avgProgramPowerMw ≤ 0) →
    r.durationHours = 0 ∧ r.startHour = -1
  learnt : ∀ prof, a.profile = some prof → 0 < prof.programCount → 0 < prof.avgProgramPowerMw →
    r.durationHours = durationOf prof.avgProgramLenMin ∧ r.avgPowerW = prof.avgProgramPowerMw / 1000
  energy : r.energyWh = r.avgPowerW * r.durationHours

theorem durationOf_pos (lenMin : ℕ) : 0 < durationOf lenMin := by
  unfold durationOf SCHED_HOURS
  dsimp only
  split <;> split <;> omega

theorem followsProfile_runOf (a : Appliance) : FollowsProfile a (runOf id a) where
  unlearnt h := by
    unfold runOf
    cases hprof : a.profile with
    | none => exact ⟨rfl, rfl⟩
    | some prof =>
      have hnot : ¬ (0 < prof.programCount ∧ 0 < prof.avgProgramPowerMw) := by
        have := h prof hprof
        omega
      dsimp only
      rw [if_neg hnot]
      exact ⟨rfl, rfl⟩
  learnt prof hprof hcount hpower := by
    rw [runOf, hprof]
    dsimp only
    rw [if_pos ⟨hcount, hpower⟩]
    exact ⟨rfl, rfl⟩
  energy := by
    unfold runOf
    split
    · exact (mul_zero _).symm
    · split
      · rfl
      · exact (mul_zero _).symm

/-- A run has a length if and only if its appliance has a profile that was learnt. -/
theorem FollowsProfile.durationHours_pos_iff {a : Appliance} {r : ScheduledRun}
    (h : FollowsProfile a r) : 0 < r.durationHours ↔
      ∃ prof ∈ a.profile, 0 < prof.programCount ∧ 0 < prof.avgProgramPowerMw := by
  constructor
  · intro hpos
    by_contra hnone
    refine hpos.ne' (h.unlearnt fun prof hprof => ?_).1
    by_contra hlearnt
    rw [not_or, not_le] at hlearnt
    exact hnone ⟨prof, hprof, Nat.pos_of_ne_zero hlearnt.1, hlearnt.2⟩
  · rintro ⟨prof, hprof, hcount, hpower⟩
    rw [(h.learnt prof hprof hcount hpower).1]
    exact durationOf_pos _

/-- A turn gives a run its window and nothing else. -/
theorem FollowsProfile.outcome {a : Appliance} {t : Turn} (h : FollowsProfile a t.run)
    (hdur : 0 < t.run.durationHours) : FollowsProfile a t.outcome where
  unlearnt hprof := absurd (h.unlearnt hprof).1 hdur.ne'
  learnt prof hprof hcount hpower := by
    have hrun := h.learnt prof hprof hcount hpower
    unfold Turn.outcome
    split <;> exact hrun
  energy := by
    have henergy := h.energy
    unfold Turn.outcome
    split <;> exact henergy

/-- The runs of a schedule and the turns that made it. -/
structure Schedule (surplus : ℕ → ℚ) (appliances : List Appliance) (runs : List ScheduledRun)
    (ts : List Turn) : Prop where
  /-- Each appliance that is not excluded is there once. -/
  once : List.Perm (runs.map fun r => (r.graphId, r.name))
    ((appliances.filter (!·.excluded)).map fun a => (a.id, a.name))
  /-- Each run with a profile has one turn. -/
  turn : List.Perm (ts.map (·.run)) ((candidates appliances).filter fun r => 0 < r.durationHours)
  /-- The runs are the outcomes of the turns, and the runs without a profile. -/
  outcome : List.Perm runs
    (ts.map Turn.outcome ++ (candidates appliances).filter fun r => ¬ 0 < r.durationHours)
  /-- The power, the length and the energy of a run are those of its appliance's profile. -/
  profile : ∀ r ∈ runs, ∃ a ∈ appliances, a.excluded = false ∧
    (r.graphId, r.name) = (a.id, a.name) ∧ FollowsProfile a r
  /-- A placed run lies within the day. -/
  within : ∀ r ∈ runs, 0 ≤ r.startHour → r.startHour + r.durationHours ≤ SCHED_HOURS
  /-- No hour is used beyond its surplus. -/
  bounded : ∀ h, (ts.map (·.used h)).sum ≤ max (surplus h) 0
  /-- A run finds what the turns before it have left. -/
  left : ∀ pre t post, ts = pre ++ t :: post →
    ∀ h, t.remaining h = max (surplus h) 0 - (pre.map (·.used h)).sum
  /-- It gets the first of its best windows. -/
  optimal : ∀ t ∈ ts, t.Optimal

theorem lastSort_perm (placed : List ScheduledRun) : List.Perm (lastSort placed) placed :=
  ExchangeSort.sort_perm placed

section Perm

variable {surplus : ℕ → ℚ} {t : Turn}

/-- A turn is that of an appliance with a profile. -/
theorem exists_runOf_of_mem_turns
    (ht : t ∈ turns (available surplus) (inOrder (candidates appliances))) :
    ∃ a ∈ appliances, a.excluded = false ∧ t.run = runOf id a ∧ 0 < t.run.durationHours := by
  have hmem := List.mem_map_of_mem (f := Turn.run) ht
  rw [map_run_turns, (inOrder_perm (candidates appliances)).mem_iff, List.mem_filter] at hmem
  obtain ⟨hrun, hdur⟩ := hmem
  obtain ⟨a, ha, heq⟩ := List.mem_map.mp hrun
  obtain ⟨ha, hkept⟩ := List.mem_filter.mp ha
  exact ⟨a, ha, by simpa using hkept, heq.symm, of_decide_eq_true hdur⟩

theorem optimal_of_mem_turns
    (ht : t ∈ turns (available surplus) (inOrder (candidates appliances))) : t.Optimal := by
  obtain ⟨a, -, -, ha, -⟩ := exists_runOf_of_mem_turns ht
  have hspec := runOf_spec a
  rw [← ha] at hspec
  exact t.optimal hspec.2.2 hspec.2.1

variable {runs : List ScheduledRun}

/-- The runs are those of the appliances that are not excluded. -/
theorem ids_of_perm (hruns : List.Perm runs (placedRuns id surplus (candidates appliances))) :
    List.Perm (runs.map fun r => (r.graphId, r.name))
      ((appliances.filter (!·.excluded)).map fun a => (a.id, a.name)) := by
  have hplaced := hruns.trans (placed_perm (candidates appliances) (available surplus))
  let ids : ScheduledRun → String × String := fun r => (r.graphId, r.name)
  have hids : (candidates appliances).map ids =
      (appliances.filter (!·.excluded)).map fun a => (a.id, a.name) := by
    rw [candidates, List.map_map]
    exact List.map_congr_left fun a _ => (runOf_spec a).1
  have hturns : ((turns (available surplus) (inOrder (candidates appliances))).map
      Turn.outcome).map ids = (inOrder (candidates appliances)).map ids := by
    conv_rhs => rw [← @map_run_turns (available surplus) (inOrder (candidates appliances))]
    rw [List.map_map, List.map_map]
    exact List.map_congr_left fun t _ => t.outcome_spec.1
  have hsplit := List.filter_append_perm (fun r : ScheduledRun => decide (0 < r.durationHours))
    (candidates appliances)
  rw [← hids]
  refine (hplaced.map ids).trans ?_
  rw [List.map_append, hturns, ← List.map_append]
  refine (((inOrder_perm (candidates appliances)).append_right _).trans ?_).map ids
  simp only [decide_not]
  exact hsplit

/-- A run is the outcome of a turn, or that of an appliance without a profile. -/
theorem mem_of_perm (hruns : List.Perm runs (placedRuns id surplus (candidates appliances)))
    {r : ScheduledRun} (hr : r ∈ runs) :
    (∃ t ∈ turns (available surplus) (inOrder (candidates appliances)), t.outcome = r) ∨
      ∃ a ∈ appliances, a.excluded = false ∧ runOf id a = r := by
  have hplaced := hruns.trans (placed_perm (candidates appliances) (available surplus))
  rcases List.mem_append.mp (hplaced.mem_iff.mp hr) with hr | hr
  · exact Or.inl (List.mem_map.mp hr)
  · obtain ⟨a, ha, heq⟩ := List.mem_map.mp (List.mem_of_mem_filter hr)
    obtain ⟨ha, hkept⟩ := List.mem_filter.mp ha
    exact Or.inr ⟨a, ha, by simpa using hkept, heq⟩

theorem profile_of_perm (hruns : List.Perm runs (placedRuns id surplus (candidates appliances)))
    {r : ScheduledRun} (hr : r ∈ runs) : ∃ a ∈ appliances, a.excluded = false ∧
      (r.graphId, r.name) = (a.id, a.name) ∧ FollowsProfile a r := by
  rcases mem_of_perm hruns hr with ⟨t, ht, rfl⟩ | ⟨a, ha, hkept, rfl⟩
  · obtain ⟨a, ha, hkept, hrun, hdur⟩ := exists_runOf_of_mem_turns ht
    refine ⟨a, ha, hkept, ?_, FollowsProfile.outcome (hrun ▸ followsProfile_runOf a) hdur⟩
    rw [t.outcome_spec.1, hrun]
    exact (runOf_spec a).1
  · exact ⟨a, ha, hkept, (runOf_spec a).1, followsProfile_runOf a⟩

theorem within_of_perm (hruns : List.Perm runs (placedRuns id surplus (candidates appliances)))
    {r : ScheduledRun} (hr : r ∈ runs) (hstart : 0 ≤ r.startHour) :
    r.startHour + r.durationHours ≤ SCHED_HOURS := by
  rcases mem_of_perm hruns hr with ⟨t, ht, rfl⟩ | ⟨a, -, -, rfl⟩
  · obtain ⟨s, hs⟩ := Int.eq_ofNat_of_zero_le hstart
    have hwithin := ((optimal_of_mem_turns ht).2 s hs).1.within
    rw [hs, t.outcome_spec.2]
    exact_mod_cast hwithin
  · rw [(runOf_spec a).2.1] at hstart
    exact absurd hstart (by decide)

theorem schedule_of_perm
    (hruns : List.Perm runs (placedRuns id surplus (candidates appliances))) :
    Schedule surplus appliances runs
      (turns (available surplus) (inOrder (candidates appliances))) where
  once := ids_of_perm hruns
  turn := by
    rw [map_run_turns]
    exact inOrder_perm _
  outcome := hruns.trans (placed_perm _ _)
  profile _ hr := profile_of_perm hruns hr
  within _ hr hstart := within_of_perm hruns hr hstart
  bounded h := by
    rw [← available_eq_max]
    refine sum_used_le (fun k => ?_) h
    rw [available_eq_max]
    exact le_max_right _ _
  left pre t post hsplit h := by
    rw [← available_eq_max]
    exact remaining_of_split hsplit h
  optimal _ ht := optimal_of_mem_turns ht

end Perm

/-- A sunny noon. -/
def noonFile : List NodePowerLogger.PowerRecord := [⟨0, 0⟩, ⟨0, 500000⟩, ⟨0, 2000000⟩]

def noonSurplus (h : ℕ) : ℚ :=
  (((noonFile.take SCHED_HOURS).map fun rec => wattsOf id rec.powerMw)[h]?).getD 0

/-- Two appliances that compete for it. -/
def noonAppliances : List Appliance :=
  [{ id := "a", name := "Washer", profile := some ⟨3, 1000000, 60⟩ },
    { id := "b", name := "Dryer", profile := some ⟨3, 1500000, 60⟩ }]

end Schedule

end HomeEnergyManager.Scheduler
