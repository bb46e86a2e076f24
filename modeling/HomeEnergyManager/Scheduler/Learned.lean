import HomeEnergyManager.ApplianceProfile.Training
import HomeEnergyManager.Scheduler.Placement
import HomeEnergyManager.Topology.Document
import HomeEnergyManager.Topology.LoadSets

/-! # What a schedule has learnt

The nightly job trains a profile for every appliance that is wired in the graph, and the scheduler
reads the profiles of the appliances that it finds in the same graph. What it plans for an appliance
is therefore what the minute files of that appliance show. It looks at the first 16 appliances only,
and those that the user has excluded are among them.

The time goes on while the appliances are trained. Names are not cut to the size of their buffers
here.

Reference: `firmware/main/appliance_profile.c`, `firmware/main/scheduler.c`.
-/

namespace HomeEnergyManager.Scheduler

open ApplianceProfile (Cycles Describes IsInt32 applianceProfileTrain counted dayFiles learn lengths
  lround powers)
open LeastSquares HomeEnergyManager.Topology

/-- The profiles of the card, by graph id. -/
abbrev Profiles := String → Option ApplianceProfile.Profile

section Functions

variable (minutes : String → DateStr → Option (List Int32)) (now : String → ℤ) (windowDays : ℕ)

/-- `train_one`. -/
def trainOne (profiles : Profiles) (graphId : String) : Option Profiles :=
  (applianceProfileTrain (minutes graphId) (now graphId) windowDays graphId.toList).map fun r =>
    match r.2 with
    | some prof => Function.update profiles graphId (some prof)
    | none => profiles

/-- `appliance_profile_train_all`; `now` is the time when the turn of an appliance comes. -/
def applianceProfileTrainAll (g : Graph) (profiles : Profiles) : Option Profiles :=
  ((enumerateAppliances g).map Prod.fst).foldlM (trainOne minutes now windowDays) profiles

end Functions

/-- `appliance_profile_load`. -/
def applianceProfileLoad (profiles : Profiles) (graphId : String) :
    Option ApplianceProfile.Profile :=
  if NodePowerLogger.sanitizeToken graphId.toList then
    (profiles graphId).filter fun p =>
      p.magic = ApplianceProfile.APPLIANCE_PROFILE_MAGIC &&
        p.version = ApplianceProfile.APPLIANCE_PROFILE_VERSION
  else none

/-- `appliance_enumerate`: an appliance without a name has its id for one. -/
def applianceEnumerate (g : Graph) (max : ℕ) : List (String × String) :=
  ((enumerateAppliances g).take max).map fun v => (v.1, (v.2.filter (· ≠ "")).getD v.1)

/-- What `scheduler_compute` finds out about the appliances. -/
def appliancesOf (g : NodeManager.Graph) (profiles : Profiles) : List Appliance :=
  (applianceEnumerate (served g) SCHEDULER_MAX_RUNS).map fun a =>
    { id := a.1
      name := a.2
      excluded := applianceIsExcluded (NodeManager.buildJson g) a.1
      profile := (applianceProfileLoad profiles a.1).map fun p =>
        { programCount := p.programCount
          avgProgramPowerMw := p.avgProgramPowerMw
          avgProgramLenMin := p.avgProgramLenMin } }

/-! ## The profiles after the training -/

/-- What is stored for each key of a list, one after the other. -/
theorem foldlM_update {α β : Type*} [DecidableEq α]
    {step : (α → Option β) → α → Option (α → Option β)} {P : α → β → Prop} {l : List α}
    (h : ∀ a ∈ l, ∃ b, P a b ∧ ∀ m, step m a = some (Function.update m a (some b)))
    (m : α → Option β) :
    ∃ m', l.foldlM step m = some m' ∧ (∀ a ∈ l, ∃ b, P a b ∧ m' a = some b) ∧
      ∀ a ∉ l, m' a = m a := by
  induction l generalizing m with
  | nil => exact ⟨m, rfl, nofun, fun _ _ => rfl⟩
  | cons a l ih =>
    obtain ⟨⟨b, hb, hstep⟩, hl⟩ := List.forall_mem_cons.mp h
    obtain ⟨m', hfold, hmem, hother⟩ := ih hl (Function.update m a (some b))
    refine ⟨m', ?_, ?_, fun c hc => ?_⟩
    · rw [List.foldlM_cons, hstep]
      exact hfold
    · rw [List.forall_mem_cons]
      refine ⟨?_, hmem⟩
      by_cases hal : a ∈ l
      · exact hmem a hal
      · exact ⟨b, hb, by rw [hother a hal, Function.update_self]⟩
    · rw [List.mem_cons, not_or] at hc
      rw [hother c hc.2, Function.update_of_ne hc.1]

/-- The ids that are visited are safe. -/
theorem sanitize_of_mem_visitEdges {nodes : List Node} {edges : List Edge}
    {seen : List (String × Option String)}
    (hseen : ∀ v ∈ seen, NodePowerLogger.sanitizeToken v.1.toList = true) :
    ∀ v ∈ visitEdges nodes seen edges, NodePowerLogger.sanitizeToken v.1.toList = true := by
  induction edges generalizing seen with
  | nil => exact hseen
  | cons e edges ih =>
    rw [visitEdges]
    cases happliance : applianceOf nodes e with
    | none => exact ih hseen
    | some visit =>
      have hvisit : NodePowerLogger.sanitizeToken visit.1.toList = true :=
        (applianceOf_eq_some.mp (congrArg (Option.map Prod.fst) happliance)).2.1
      dsimp only
      split
      · exact ih hseen
      · split
        · exact hseen
        · refine ih fun v hv => ?_
          rcases List.mem_append.mp hv with hv | hv
          · exact hseen v hv
          · rwa [List.mem_singleton.mp hv]

theorem sanitize_of_mem {g : Graph} {id : String} (h : id ∈ (enumerateAppliances g).map Prod.fst) :
    NodePowerLogger.sanitizeToken id.toList = true := by
  obtain ⟨v, hv, rfl⟩ := List.mem_map.mp h
  exact sanitize_of_mem_visitEdges (by simp) v hv

/-- A profile that was written by the training of these days. -/
structure Learnt (days : List (List ℤ)) (prof : ApplianceProfile.Profile) : Prop where
  magic : prof.magic = ApplianceProfile.APPLIANCE_PROFILE_MAGIC
  version : prof.version = ApplianceProfile.APPLIANCE_PROFILE_VERSION
  described : ∃ t cycles, learn days = some t ∧ List.Forall₂ (Cycles t) days cycles ∧
    Describes (counted cycles.flatten) prof ∧
    prof.programCount = (counted cycles.flatten).length % 2 ^ 16

/-- What the training of one appliance writes. -/
theorem exists_learnt {file : DateStr → Option (List Int32)} {now : ℤ} {windowDays : ℕ}
    {graphId : List Char} (hid : NodePowerLogger.sanitizeToken graphId = true)
    (hfew : (dayFiles file now windowDays).flatten.length < 2 ^ 32) :
    ∃ count prof, applianceProfileTrain file now windowDays graphId = some (count, some prof) ∧
      Learnt (dayFiles file now windowDays) prof := by
  obtain ⟨t, cycles, count, htrained, htrain⟩ := ApplianceProfile.exists_trained hid
    fun t cycles hcycles => ApplianceProfile.countersHold_of_samples hcycles hfew
  refine ⟨count, _, htrain, ?_, ?_, t, cycles, htrained.learned, htrained.segmented,
    htrained.described, ?_⟩
  all_goals
    unfold ApplianceProfile.profileOf
    dsimp only
    split <;> rfl

/-- After the training of all, the profile of each appliance in the graph is what its files show. -/
theorem applianceProfileTrainAll_learnt (minutes : String → DateStr → Option (List Int32))
    (now : String → ℤ) (windowDays : ℕ) (g : Graph) (profiles : Profiles)
    (hfew : ∀ id, (dayFiles (minutes id) (now id) windowDays).flatten.length < 2 ^ 32) :
    ∃ profiles', applianceProfileTrainAll minutes now windowDays g profiles = some profiles' ∧
      ∀ id ∈ (enumerateAppliances g).map Prod.fst, ∃ prof,
        applianceProfileLoad profiles' id = some prof ∧
          Learnt (dayFiles (minutes id) (now id) windowDays) prof := by
  have hone : ∀ id ∈ (enumerateAppliances g).map Prod.fst, ∃ prof,
      Learnt (dayFiles (minutes id) (now id) windowDays) prof ∧ ∀ profiles,
        trainOne minutes now windowDays profiles id =
          some (Function.update profiles id (some prof)) := by
    intro id hid
    obtain ⟨count, prof, heq, hlearnt⟩ := exists_learnt (sanitize_of_mem hid) (hfew id)
    exact ⟨prof, hlearnt, fun profiles => by rw [trainOne, heq, Option.map_some]⟩
  obtain ⟨profiles', hall, hmem, -⟩ := foldlM_update hone profiles
  refine ⟨profiles', hall, fun id hid => ?_⟩
  obtain ⟨prof, hlearnt, hprof⟩ := hmem id hid
  refine ⟨prof, ?_, hlearnt⟩
  rw [applianceProfileLoad, if_pos (sanitize_of_mem hid), hprof]
  exact Option.filter_some_pos (by simp [hlearnt.magic, hlearnt.version])

/-! ## What a profile comes to -/

theorem lround_mem_Icc {x : ℚ} {a b : ℤ} (h : a ≤ x ∧ x ≤ b) : a ≤ lround x ∧ lround x ≤ b := by
  unfold ApplianceProfile.lround
  split
  · refine ⟨Int.le_floor.mpr (by linarith), ?_⟩
    exact Int.lt_add_one_iff.mp (Int.floor_lt.mpr (by push_cast; linarith))
  · refine ⟨?_, ?_⟩
    · have hlt : ⌊-x + 1 / 2⌋ < -a + 1 := Int.floor_lt.mpr (by push_cast; linarith)
      omega
    · have hle : -b ≤ ⌊-x + 1 / 2⌋ := Int.le_floor.mpr (by push_cast; linarith)
      omega

section Cycles

variable {t : ApplianceProfile.Thresholds} {days : List (List ℤ)} {cycles : List (List (List ℤ))}

/-- A cycle that counts is no longer than the files. -/
theorem length_of_mem_counted (h : List.Forall₂ (Cycles t) days cycles) {c : List ℤ}
    (hc : c ∈ counted cycles.flatten) : 5 ≤ c.length ∧ c.length ≤ days.flatten.length := by
  obtain ⟨hmem, hlong⟩ := List.mem_filter.mp hc
  exact ⟨of_decide_eq_true hlong,
    ((List.sublist_flatten_of_mem hmem).trans (ApplianceProfile.flatten_sublist h)).length_le⟩

/-- The mean length of the cycles that count. -/
theorem mean_lengths_mem (h : List.Forall₂ (Cycles t) days cycles)
    (hne : counted cycles.flatten ≠ []) :
    5 ≤ lround (mean (lengths (counted cycles.flatten))) ∧
      lround (mean (lengths (counted cycles.flatten))) ≤ days.flatten.length := by
  refine lround_mem_Icc (mean_mem_Icc (by simpa [ApplianceProfile.lengths] using hne) ?_)
  intro x hx
  obtain ⟨c, hc, rfl⟩ := List.mem_map.mp hx
  obtain ⟨hlow, hhigh⟩ := length_of_mem_counted h hc
  exact ⟨by exact_mod_cast hlow, by exact_mod_cast hhigh⟩

/-- The mean power of the cycles that count fits a record. -/
theorem mean_powers_mem (h : List.Forall₂ (Cycles t) days cycles)
    (hsamples : ∀ day ∈ days, ∀ p ∈ day, IsInt32 p) (hne : counted cycles.flatten ≠ []) :
    -2 ^ 31 ≤ lround (mean (powers (counted cycles.flatten))) ∧
      lround (mean (powers (counted cycles.flatten))) ≤ 2 ^ 31 - 1 := by
  refine lround_mem_Icc (mean_mem_Icc (by simpa [ApplianceProfile.powers] using hne) ?_)
  intro x hx
  obtain ⟨c, hc, rfl⟩ := List.mem_map.mp hx
  have hlong := (length_of_mem_counted h hc).1
  have hcast : (c.sum : ℚ) / c.length = mean (c.map (Int.cast : ℤ → ℚ)) := by
    rw [mean, List.length_map]
    exact congrArg (· / (c.length : ℚ)) (map_list_sum (Int.castAddHom ℚ) c)
  rw [hcast]
  refine mean_mem_Icc (fun hnil => ?_) fun x hx => ?_
  · rw [List.map_eq_nil_iff] at hnil
    rw [hnil] at hlong
    exact absurd hlong (by decide)
  · obtain ⟨p, hp, rfl⟩ := List.mem_map.mp hx
    obtain ⟨day, hday, hpd⟩ :=
      ApplianceProfile.mem_days_of_mem_cycle h (List.mem_of_mem_filter hc) hp
    obtain ⟨hlow, hhigh⟩ := hsamples day hday p hpd
    exact ⟨by exact_mod_cast hlow, by exact_mod_cast Int.le_sub_one_of_lt hhigh⟩

end Cycles

/-- Rounded up to hours, and kept within a day. -/
theorem durationOf_eq {n : ℕ} (hn : n < 2 ^ 16) :
    (durationOf n : ℤ) = min 24 (max 1 ⌈(n : ℚ) / 60⌉) := by
  have hceil : ⌈(n : ℚ) / 60⌉ = ((n + 59) / 60 : ℕ) := by
    have hlow : 60 * ((n + 59) / 60) < n + 60 := by omega
    have hhigh : n ≤ 60 * ((n + 59) / 60) := by omega
    generalize (n + 59) / 60 = q at hlow hhigh ⊢
    have hlow' : (60 : ℚ) * q < n + 60 := by exact_mod_cast hlow
    have hhigh' : (n : ℚ) ≤ 60 * q := by exact_mod_cast hhigh
    rw [Int.ceil_eq_iff, lt_div_iff₀ (by norm_num), div_le_iff₀ (by norm_num)]
    push_cast
    exact ⟨by linarith, by linarith⟩
  have hmod : (n + 59) % 2 ^ 32 = n + 59 := Nat.mod_eq_of_lt (by omega)
  rw [hceil, durationOf, hmod]
  unfold SCHED_HOURS
  split
  · split <;> omega
  · split <;> omega

theorem lround_mean_powers_nil : lround (mean (powers [])) = 0 := by
  norm_num [ApplianceProfile.powers, ApplianceProfile.lround]

/-- What is planned for an appliance that ran in these cycles. -/
structure PlannedFrom (cycles : List (List ℤ)) (r : ScheduledRun) : Prop where
  /-- Without a mean power nothing is planned. -/
  idle : lround (mean (powers cycles)) ≤ 0 → r.durationHours = 0 ∧ r.startHour = -1
  duration : 0 < lround (mean (powers cycles)) →
    (r.durationHours : ℤ) = min 24 (max 1 ⌈(lround (mean (lengths cycles)) : ℚ) / 60⌉)
  power : 0 < lround (mean (powers cycles)) → r.avgPowerW = lround (mean (powers cycles)) / 1000
  energy : r.energyWh = r.avgPowerW * r.durationHours

/-- The run of an appliance whose profile has been trained. -/
theorem plannedFrom_of_followsProfile {a : Appliance} {r : ScheduledRun}
    {prof : ApplianceProfile.Profile} {days : List (List ℤ)} (hr : FollowsProfile a r)
    (hsamples : ∀ day ∈ days, ∀ p ∈ day, IsInt32 p) (hfew : days.flatten.length < 2 ^ 16)
    (hlearnt : Learnt days prof)
    (hprof : a.profile = some
      { programCount := prof.programCount, avgProgramPowerMw := prof.avgProgramPowerMw,
        avgProgramLenMin := prof.avgProgramLenMin }) :
    ∃ t cycles, learn days = some t ∧ List.Forall₂ (Cycles t) days cycles ∧
      PlannedFrom (counted cycles.flatten) r := by
  obtain ⟨t, cycles, hlearn, hcycles, hdescribed, hcount⟩ := hlearnt.described
  refine ⟨t, cycles, hlearn, hcycles, ?_⟩
  have hlength := ApplianceProfile.five_mul_length_counted_le hcycles
  rw [Nat.mod_eq_of_lt (by omega)] at hcount
  have hpower : prof.avgProgramPowerMw = lround (mean (powers (counted cycles.flatten))) := by
    rw [hdescribed.avgPower]
    rcases eq_or_ne (counted cycles.flatten) [] with hnil | hne
    · rw [hnil, lround_mean_powers_nil]
      rfl
    · obtain ⟨hlow, hhigh⟩ := mean_powers_mem hcycles hsamples hne
      unfold toInt32
      rw [Int.bmod_eq_iff (by decide)]
      norm_num
      omega
  by_cases hpos : 0 < lround (mean (powers (counted cycles.flatten)))
  · have hne : counted cycles.flatten ≠ [] := by
      intro hnil
      rw [hnil, lround_mean_powers_nil] at hpos
      exact lt_irrefl _ hpos
    obtain ⟨hlow, hhigh⟩ := mean_lengths_mem hcycles hne
    have hlen : prof.avgProgramLenMin =
        (lround (mean (lengths (counted cycles.flatten)))).toNat := by
      rw [hdescribed.avgLen]
      unfold toUint32
      omega
    have hduration := durationOf_eq (n := prof.avgProgramLenMin) (by omega)
    have hcast : (((lround (mean (lengths (counted cycles.flatten)))).toNat : ℕ) : ℚ) =
        (lround (mean (lengths (counted cycles.flatten))) : ℤ) := by
      exact_mod_cast Int.toNat_of_nonneg (by omega)
    rw [hlen, hcast] at hduration
    have hcounted : 0 < prof.programCount := by
      rw [hcount]
      exact List.length_pos_iff.mpr hne
    obtain ⟨hdur, hwatts⟩ := hr.learnt _ hprof hcounted (hpower ▸ hpos)
    refine ⟨fun hnot => absurd hpos (not_lt.mpr hnot), fun _ => ?_, fun _ => ?_, hr.energy⟩
    · rw [hdur, hlen]
      exact hduration
    · rw [hwatts, hpower]
  · have hidle := hr.unlearnt fun p hp => by
      rw [hprof] at hp
      rw [← Option.some.inj hp]
      exact Or.inr (hpower ▸ not_lt.mp hpos)
    refine ⟨fun _ => hidle, fun h => absurd h hpos, fun h => absurd h hpos, hr.energy⟩

/-! ## The schedule -/

/-- A kettle on a circuit of the consumer unit. -/
def kettleHome : NodeManager.Graph where
  nodes := [NodeManager.consumerUnit, { id := "kettle" }]
  edges :=
    [{ id := "consumer_unit-circuit_1-kettle-power-in", source := "consumer_unit",
       target := "kettle", sourceHandle := "circuit_1", targetHandle := "power-in" }]

end HomeEnergyManager.Scheduler
