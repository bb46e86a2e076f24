import HomeEnergyManager.Scheduler.Placement

/-! # Ties in the orders of the schedule

Both sorts of `scheduler_compute` exchange elements that do not stand side by side. The results are
sorted permutations, but runs of one energy, and runs without a window, need not keep the order in
which the appliances were enumerated. This is so however the floats are rounded, and whatever start
hours the runs have been given when the last sort comes.

Reference: `firmware/main/scheduler.c`.
-/

namespace HomeEnergyManager.Scheduler

/-- The energy of the run at a position. -/
def energyAt (out : List ScheduledRun) (i : ℕ) : ℚ := (out.getD i default).energyWh

/-- The positions of the runs with a profile, as the appliances were enumerated. -/
def profiled (out : List ScheduledRun) : List ℕ :=
  (List.range out.length).filter fun i => 0 < (out.getD i default).durationHours

/-- The runs with the start hours that they have been given, within the day or none. -/
structure Placed (out placed : List ScheduledRun) : Prop where
  ids : placed.map (·.graphId) = out.map (·.graphId)
  within : ∀ r ∈ placed, r.startHour < SCHED_HOURS

/-- The runs are placed by falling energy, and those of one energy as they were enumerated. -/
structure PlacesInOrder (out : List ScheduledRun) : Prop where
  perm : List.Perm (placementOrder out) (profiled out)
  sorted : (placementOrder out).Pairwise fun i j => energyAt out j ≤ energyAt out i
  ties : ∀ energy, (placementOrder out).filter (energyAt out · = energy) =
    (profiled out).filter (energyAt out · = energy)

/-- The runs are returned by rising start hour, and those without a window after them as they were
enumerated. -/
structure ReturnsInOrder (placed runs : List ScheduledRun) : Prop where
  perm : List.Perm runs placed
  sorted : runs.Pairwise fun r r' => r.key ≤ r'.key
  ties : runs.filter (·.startHour < 0) = placed.filter (·.startHour < 0)

/-- For each energy and each `s`, the number of runs with a greater energy that are enumerated after
exactly `s` runs with this one is a multiple of `s`. -/
def EnergiesAligned (out : List ScheduledRun) : Prop :=
  ∀ energy s, 0 < s → s ∣ ExchangeSort.behind (energyAt out) energy s 0 (profiled out)

/-- For each `s`, the number of runs with a window that are enumerated after exactly `s` runs
without one is a multiple of `s`. -/
def WindowsAligned (placed : List ScheduledRun) : Prop :=
  ∀ s, 0 < s → s ∣ ExchangeSort.behind (fun r : ScheduledRun => -r.key) (-SCHED_HOURS) s 0 placed

/-! ## The order of the placements -/

theorem placesInOrder_iff (out : List ScheduledRun) :
    PlacesInOrder out ↔ EnergiesAligned out := by
  have hnodup : (profiled out).Nodup := List.nodup_range.filter _
  have hties : ∀ energy, (placementOrder out).filter (energyAt out · = energy) =
      (profiled out).filter (energyAt out · = energy) ↔
        ∀ s, 0 < s → s ∣ ExchangeSort.behind (energyAt out) energy s 0 (profiled out) :=
    fun energy => ExchangeSort.filter_sort_eq_iff (hnodup.filter _)
  constructor
  · exact fun h energy => (hties energy).mp (h.ties energy)
  · exact fun h => ⟨placementOrder_perm out, ExchangeSort.pairwise_sort _,
      fun energy => (hties energy).mpr (h energy)⟩

/-! ## The order of the answer -/

/-- The last sort is one by a key as well. -/
theorem lastSort_eq (placed : List ScheduledRun) :
    lastSort placed =
      ExchangeSort.sort (ExchangeSort.greater fun r : ScheduledRun => -r.key) placed := by
  have hbefore : (fun a b : ScheduledRun => decide (a.key < b.key)) =
      ExchangeSort.greater fun r : ScheduledRun => -r.key := by
    funext a b
    exact decide_eq_decide.mpr neg_lt_neg_iff.symm
  rw [lastSort, hbefore]

/-- A run without a window has the greatest key. -/
theorem key_eq_iff {r : ScheduledRun} (h : r.startHour < SCHED_HOURS) :
    -r.key = -SCHED_HOURS ↔ r.startHour < 0 := by
  rw [neg_inj, ScheduledRun.key]
  split
  · omega
  · rename_i hstart
    exact iff_of_true rfl (not_le.mp hstart)

theorem returnsInOrder_iff {placed : List ScheduledRun} (hnodup : placed.Nodup)
    (hwithin : ∀ r ∈ placed, r.startHour < SCHED_HOURS) :
    ReturnsInOrder placed (lastSort placed) ↔ WindowsAligned placed := by
  rw [lastSort_eq]
  have hperm : List.Perm (ExchangeSort.sort (ExchangeSort.greater fun r : ScheduledRun => -r.key)
      placed) placed := ExchangeSort.sort_perm placed
  have hties : ∀ l : List ScheduledRun, (∀ r ∈ l, r ∈ placed) →
      l.filter (·.startHour < 0) = l.filter fun r => -r.key = -(SCHED_HOURS : ℤ) := by
    intro l hl
    refine List.filter_congr fun r hr => ?_
    exact decide_eq_decide.mpr (key_eq_iff (hwithin r (hl r hr))).symm
  have hiff : (ExchangeSort.sort (ExchangeSort.greater fun r : ScheduledRun => -r.key)
        placed).filter (fun r => -r.key = -(SCHED_HOURS : ℤ)) =
      placed.filter (fun r => -r.key = -(SCHED_HOURS : ℤ)) ↔ WindowsAligned placed :=
    ExchangeSort.filter_sort_eq_iff (hnodup.filter _)
  constructor
  · intro h
    have hkept := h.ties
    rw [hties _ fun r hr => hperm.mem_iff.mp hr, hties _ fun r hr => hr] at hkept
    exact hiff.mp hkept
  · intro h
    refine ⟨hperm, ?_, ?_⟩
    · exact (ExchangeSort.pairwise_sort _).imp fun hle => neg_le_neg_iff.mp hle
    · rw [hties _ fun r hr => hperm.mem_iff.mp hr, hties _ fun r hr => hr]
      exact hiff.mpr h

/-! ## The start hours -/

section StartHours

variable (fl : ℚ → ℚ)

/-- A run with a profile starts within the day. -/
theorem bestStart_lt {r : ScheduledRun} (hdur : 0 < r.durationHours) (remaining : ℕ → ℚ) :
    (bestStart fl r remaining).1 < SCHED_HOURS := by
  have hrun : ∀ (l : List ℕ) (best : ℤ × ℚ), (∀ s ∈ l, s < SCHED_HOURS) →
      best.1 < SCHED_HOURS → (l.foldl (fun best s => if best.2 < scoreAt fl r remaining s then
        ((s : ℤ), scoreAt fl r remaining s) else best) best).1 < SCHED_HOURS := by
    intro l
    induction l with
    | nil => exact fun _ _ hbest => hbest
    | cons s l ih =>
      intro best hl hbest
      rw [List.forall_mem_cons] at hl
      rw [List.foldl_cons]
      refine ih _ hl.2 ?_
      split
      · exact Int.ofNat_lt.mpr hl.1
      · exact hbest
  refine hrun _ _ (fun s hs => ?_) (by decide)
  rw [List.mem_range] at hs
  omega

/-- A pass changes the window of one run and nothing else. -/
theorem place_graphId_duration (st : List ScheduledRun × (ℕ → ℚ)) (i : ℕ) :
    (place fl st i).1.map (fun r => (r.graphId, r.durationHours)) =
      st.1.map fun r => (r.graphId, r.durationHours) := by
  unfold place
  dsimp only
  split
  · rw [List.map_set]
    rcases lt_or_ge i st.1.length with hi | hi
    · rw [List.getD_eq_getElem _ _ hi]
      apply List.ext_getElem?
      intro j
      rw [List.getElem?_set]
      split
      · rename_i hij
        subst hij
        simp [hi]
      · rfl
    · rw [List.set_eq_of_length_le (by rwa [List.length_map])]
  · rfl

theorem place_within {st : List ScheduledRun × (ℕ → ℚ)} {i : ℕ}
    (hdur : 0 < (st.1.getD i default).durationHours)
    (hst : ∀ r ∈ st.1, r.startHour < SCHED_HOURS) :
    ∀ r ∈ (place fl st i).1, r.startHour < SCHED_HOURS := by
  unfold place
  dsimp only
  split
  · intro r hr
    rcases List.mem_or_eq_of_mem_set hr with hr | rfl
    · exact hst r hr
    · exact bestStart_lt fl hdur st.2
  · exact hst

/-- The loop between the sorts gives the runs their start hours. -/
theorem placed_placedRuns (surplus : ℕ → ℚ) {out : List ScheduledRun}
    (hout : ∀ r ∈ out, r.startHour < SCHED_HOURS) :
    Placed out (placedRuns fl surplus out) := by
  have hrun : ∀ (idx : List ℕ) (st : List ScheduledRun × (ℕ → ℚ)),
      (∀ i ∈ idx, 0 < (st.1.getD i default).durationHours) →
      (∀ r ∈ st.1, r.startHour < SCHED_HOURS) →
      Placed st.1 (idx.foldl (place fl) st).1 := by
    intro idx
    induction idx with
    | nil => exact fun st _ hst => ⟨rfl, hst⟩
    | cons i idx ih =>
      intro st hidx hst
      rw [List.forall_mem_cons] at hidx
      have hsame := place_graphId_duration fl st i
      have hids : (place fl st i).1.map (·.graphId) = st.1.map (·.graphId) := by
        have hfst := congrArg (List.map Prod.fst) hsame
        rwa [List.map_map, List.map_map] at hfst
      have hdurations : (place fl st i).1.map (·.durationHours) = st.1.map (·.durationHours) := by
        have hsnd := congrArg (List.map Prod.snd) hsame
        rwa [List.map_map, List.map_map] at hsnd
      have hnext : ∀ j ∈ idx, 0 < ((place fl st i).1.getD j default).durationHours := by
        intro j hj
        have hdur : ((place fl st i).1.getD j default).durationHours =
            (st.1.getD j default).durationHours := by
          have hget :=
            congrArg (fun l => l.getD j (default : ScheduledRun).durationHours) hdurations
          rwa [List.getD_map, List.getD_map] at hget
        rw [hdur]
        exact hidx.2 j hj
      have hplaced := ih (place fl st i) hnext (place_within fl hidx.1 hst)
      rw [List.foldl_cons]
      exact ⟨hplaced.ids.trans hids, hplaced.within⟩
  refine hrun _ (out, available surplus) (fun i hi => ?_) hout
  exact of_decide_eq_true (List.mem_filter.mp ((placementOrder_perm out).mem_iff.mp hi)).2

/-- Both orders are kept if and only if the energies and the windows are aligned, whatever the
energies are and whatever start hours the runs have been given before the last sort; and
`scheduler_compute` is these two sorts, with a loop between them that gives start hours. -/
theorem orders_kept_iff (date : DateStr) (file : Option (List NodePowerLogger.PowerRecord))
    (appliances : List Appliance) {surplus : ℕ → ℚ} (hdate : sanitizeDate date = true)
    (hsurplus : loadSurplus fl file = some surplus) (max : ℕ)
    (hids : ((appliances.filter (!·.excluded)).map (·.id)).Nodup) :
    schedulerCompute fl date file appliances max =
        some (lastSort (placedRuns fl surplus (runsOf fl appliances max))) ∧
      Placed (runsOf fl appliances max) (placedRuns fl surplus (runsOf fl appliances max)) ∧
      ∀ placed, Placed (runsOf fl appliances max) placed →
        (PlacesInOrder (runsOf fl appliances max) ∧ ReturnsInOrder placed (lastSort placed) ↔
          EnergiesAligned (runsOf fl appliances max) ∧ WindowsAligned placed) := by
  have hrun : ∀ a, (runOf fl a).graphId = a.id ∧ (runOf fl a).startHour = -1 := by
    intro a
    unfold runOf
    split
    · exact ⟨rfl, rfl⟩
    · split <;> exact ⟨rfl, rfl⟩
  refine ⟨?_, placed_placedRuns fl surplus fun r hr => ?_, fun placed hplaced => ?_⟩
  · rw [schedulerCompute, if_pos hdate, hsurplus, Option.map_some]
  · obtain ⟨a, -, rfl⟩ := List.mem_map.mp hr
    rw [(hrun a).2]
    decide
  · have hnodup : placed.Nodup := by
      refine List.Nodup.of_map (·.graphId) ?_
      have hgraphIds : (runsOf fl appliances max).map (·.graphId) =
          ((appliances.filter (!·.excluded)).take max).map (·.id) := by
        rw [runsOf, List.map_map]
        exact List.map_congr_left fun a _ => (hrun a).1
      rw [hplaced.ids, hgraphIds]
      exact hids.sublist ((List.take_sublist _ _).map _)
    exact and_congr (placesInOrder_iff _) (returnsInOrder_iff hnodup hplaced.within)

end StartHours

/-- A washer. -/
def washer : Appliance where
  id := "washer"
  name := "Washer"
  profile := some ⟨3, 1000000, 60⟩

/-- A dryer of the same energy, and a fan of a smaller one. -/
def laundry : List Appliance :=
  [washer, { washer with id := "dryer" },
    { washer with id := "fan", profile := some ⟨3, 500000, 60⟩ }]

/-- A file with a surplus in its first hour alone. -/
def oneHour : List NodePowerLogger.PowerRecord := [⟨0, 2000000⟩]

def oneHourSurplus (h : ℕ) : ℚ :=
  (((oneHour.take SCHED_HOURS).map fun rec => wattsOf id rec.powerMw)[h]?).getD 0

/-- The washer and the dryer leave the fan no surplus. -/
theorem orders_kept_laundry :
    PlacesInOrder (runsOf id laundry SCHEDULER_MAX_RUNS) ∧
      ∃ runs, schedulerCompute id "2025-06-01".toList (some oneHour) laundry SCHEDULER_MAX_RUNS =
          some runs ∧
        ReturnsInOrder
          (placedRuns id oneHourSurplus (runsOf id laundry SCHEDULER_MAX_RUNS)) runs := by
  obtain ⟨hcompute, hplaced, hiff⟩ := orders_kept_iff id "2025-06-01".toList (some oneHour) laundry
    (by decide) rfl SCHEDULER_MAX_RUNS (by decide)
  have hkept := (hiff _ hplaced).mpr ⟨?_, ?_⟩
  · exact ⟨hkept.1, _, hcompute, hkept.2⟩
  · intro energy s hs
    rw [ExchangeSort.behind_eq_zero hs (by decide +kernel)]
    exact Nat.dvd_zero s
  · intro s hs
    rw [ExchangeSort.behind_eq_zero hs (by decide +kernel)]
    exact Nat.dvd_zero s

/-- Two runs of one energy before a greater one are exchanged. -/
theorem equal_energies_exchanged : ¬ ∀ (date : DateStr)
    (file : Option (List NodePowerLogger.PowerRecord)) (appliances : List Appliance)
    (surplus : ℕ → ℚ), sanitizeDate date = true → loadSurplus id file = some surplus →
    appliances.length ≤ SCHEDULER_MAX_RUNS →
    ((appliances.filter (!·.excluded)).map (·.id)).Nodup →
    PlacesInOrder (runsOf id appliances SCHEDULER_MAX_RUNS) ∧
      ∃ runs, schedulerCompute id date file appliances SCHEDULER_MAX_RUNS = some runs ∧
        ReturnsInOrder (placedRuns id surplus (runsOf id appliances SCHEDULER_MAX_RUNS)) runs := by
  intro h
  have horder := (h "2025-06-01".toList (some oneHour)
    [washer, { washer with id := "dryer" },
      { washer with id := "oven", profile := some ⟨3, 2000000, 60⟩ }]
    oneHourSurplus (by decide) rfl (by decide) (by decide)).1.ties 1000
  exact absurd horder (by decide +kernel)

end HomeEnergyManager.Scheduler
