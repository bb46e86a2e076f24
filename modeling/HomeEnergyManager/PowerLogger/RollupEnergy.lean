import Mathlib.Algebra.BigOperators.Field
import Mathlib.Algebra.Order.BigOperators.Group.Finset
import Mathlib.Algebra.Order.Ring.Abs
import Mathlib.Tactic.FieldSimp
import Mathlib.Tactic.Linarith
import Mathlib.Tactic.Ring
import HomeEnergyManager.Lib.Accumulate
import HomeEnergyManager.PowerLogger.Rollup
import HomeEnergyManager.PowerLogger.Sampling

/-! # The energy of a day and of its rollup

`file_kwh` counts a record of the minute file as a minute and a record of the hourly file as an
hour. The two differ by what the rollup credits to the minutes that an hour has no record of, or
takes from those that it has too many of, and by what the division of the means cuts off.

Reference: `firmware/main/node_power_logger.cpp`, `firmware/main/power_logger.c`.
-/

namespace HomeEnergyManager.NodePowerLogger

/-- `rollup_one`. -/
def rollupOne (graphId : String) (date : DateStr) (c : Card) : Card :=
  match c.node graphId date with
  | none => c
  | some recs =>
    { c with nodeHourly := fun id d => if id = graphId ∧ d = date then some (rollup recs)
        else c.nodeHourly id d }

/-- The rollup of a stream. -/
def rollupStream (s : Stream) (date : DateStr) (c : Card) : Card :=
  if s.role = .grid then powerLoggerRollupHourly date c else rollupOne s.graphId date c

/-- The minute file of a stream. -/
def minuteFile (c : Card) (s : Stream) (date : DateStr) : Option (List PowerRecord) :=
  if s.role = .grid then c.grid date else c.node s.graphId date

/-- Its hourly file. -/
def hourlyFile (c : Card) (s : Stream) (date : DateStr) : Option (List PowerRecord) :=
  if s.role = .grid then c.gridHourly date else c.nodeHourly s.graphId date

/-! ## What a minute file holds -/

/-- The records of a clock hour. -/
def hourRecords (recs : List PowerRecord) (h : ℕ) : List PowerRecord :=
  recs.filter fun rec => (localtime rec.unixMinute).hour = h

/-- The clock hours that have records. -/
def hoursPresent (recs : List PowerRecord) : Finset ℕ :=
  (Finset.range 24).filter fun h => hourRecords recs h ≠ []

/-- The sum of the powers of a clock hour, in mW. -/
def hourPower (recs : List PowerRecord) (h : ℕ) : ℤ := ((hourRecords recs h).map (·.powerMw)).sum

/-- What the mean of an hour gives to the minutes without a record, in mWh; negative for an hour
with more than 60 records. -/
def credited (recs : List PowerRecord) : ℚ :=
  ∑ h ∈ hoursPresent recs, hourPower recs h / (hourRecords recs h).length *
    (60 - (hourRecords recs h).length) / 60

/-- What the division of the means cuts off, in mWh. -/
def cutOff (recs : List PowerRecord) : ℚ :=
  ∑ h ∈ hoursPresent recs,
    ((hourPower recs h).tmod (hourRecords recs h).length : ℚ) / (hourRecords recs h).length

/-- What the two energies may differ by: a mWh for each hour. -/
def Balanced (recs : List PowerRecord) : Prop :=
  |credited recs - cutOff recs| ≤ (hoursPresent recs).card

/-- The figure that is shown for a day stays when its rollup is written, but for one mWh an hour. -/
def FigureKept (c : Card) (s : Stream) (date : DateStr) (recs : List PowerRecord) : Prop :=
  ∃ before after, fileKwh c s date = some before ∧
    fileKwh (rollupStream s date c) s date = some after ∧
    |after - before| ≤ (hoursPresent recs).card / 10 ^ 6

/-! ## The sums of the rollup -/

/-- What a record does to the sums of its hour. -/
def HourSums.add (s : HourSums) (rec : PowerRecord) : HourSums where
  sum := s.sum + rec.powerMw
  count := s.count + 1
  ts :=
    if s.ts = 0 then toUint32 (mktime { localtime rec.unixMinute with min := 0, sec := 0 }).1
    else s.ts

section Sums

variable (recs : List PowerRecord)

/-- The sums of a clock hour are those of its own records. -/
theorem foldl_addRecord_apply (hours : ℤ → HourSums) (h : ℕ) :
    recs.foldl addRecord hours h = (hourRecords recs h).foldl HourSums.add (hours h) := by
  have hplace := Accumulate.place_foldl_filterMap addRecord (fun hours => hours (h : ℤ))
    (Option.guard fun rec => decide ((localtime rec.unixMinute).hour = h)) HourSums.add
  rw [List.filterMap_eq_filter] at hplace
  refine hplace (fun hours rec => ?_) hours recs
  by_cases hhour : (localtime rec.unixMinute).hour = h
  · simp [addRecord, HourSums.add, Option.guard, hhour]
  · simp [addRecord, Option.guard, hhour, Function.update_of_ne (Ne.symm hhour)]

theorem foldl_add (s : HourSums) :
    (recs.foldl HourSums.add s).sum = s.sum + (recs.map (·.powerMw)).sum ∧
      (recs.foldl HourSums.add s).count = s.count + recs.length := by
  induction recs generalizing s with
  | nil => simp
  | cons rec recs ih =>
    obtain ⟨hsum, hcount⟩ := ih (s.add rec)
    rw [List.foldl_cons, hsum, hcount, List.map_cons, List.sum_cons, List.length_cons]
    simp only [HourSums.add]
    omega

theorem foldl_addRecord (hours : ℤ → HourSums) (h : ℕ) :
    (recs.foldl addRecord hours h).sum = (hours h).sum + hourPower recs h ∧
      (recs.foldl addRecord hours h).count = (hours h).count + (hourRecords recs h).length := by
  rw [foldl_addRecord_apply]
  exact foldl_add _ _

/-- Every record is of one of the 24 clock hours. -/
theorem sum_hourPower : ∑ h ∈ Finset.range 24, hourPower recs h = (recs.map (·.powerMw)).sum := by
  induction recs with
  | nil => rfl
  | cons rec recs ih =>
    obtain ⟨hlo, hhi⟩ := localtime_hour rec.unixMinute
    have hcons : ∀ h : ℕ, hourPower (rec :: recs) h =
        (if h = (localtime rec.unixMinute).hour.toNat then rec.powerMw else 0) +
          hourPower recs h := by
      intro h
      have hiff : (localtime rec.unixMinute).hour = h ↔
          h = (localtime rec.unixMinute).hour.toNat := by omega
      rw [hourPower, hourPower, hourRecords, hourRecords, List.filter_cons]
      simp only [hiff]
      split <;> simp_all
    rw [Finset.sum_congr rfl fun h _ => hcons h, Finset.sum_add_distrib, ih,
      Finset.sum_ite_eq' (Finset.range 24), if_pos (Finset.mem_range.mpr (by omega)),
      List.map_cons, List.sum_cons]

/-- The hours without records weigh nothing. -/
theorem sum_hoursPresent :
    ∑ h ∈ hoursPresent recs, hourPower recs h = (recs.map (·.powerMw)).sum := by
  rw [← sum_hourPower, hoursPresent, Finset.sum_filter]
  refine Finset.sum_congr rfl fun h _ => ?_
  split
  · rfl
  · rename_i hnil
    rw [hourPower, not_not.mp hnil]
    rfl

theorem sum_filterMap_range {α : Type*} (f : ℕ → Option α) (g : α → ℤ) (n : ℕ) :
    (((List.range n).filterMap f).map g).sum =
      ∑ h ∈ Finset.range n, ((f h).map g).getD 0 := by
  induction n with
  | zero => rfl
  | succ n ih =>
    rw [List.range_succ, List.filterMap_append, List.map_append, List.sum_append, ih,
      Finset.sum_range_succ]
    congr 1
    cases hf : f n <;> simp [hf]

/-- The conversion of the mean of an hour loses nothing. -/
theorem toInt32_hourMean (hint : ∀ rec ∈ recs, -2 ^ 31 ≤ rec.powerMw ∧ rec.powerMw < 2 ^ 31)
    (h : ℕ) : toInt32 ((hourPower recs h).tdiv (hourRecords recs h).length) =
      (hourPower recs h).tdiv (hourRecords recs h).length := by
  have hmem : ∀ v ∈ (hourRecords recs h).map (·.powerMw), -2 ^ 31 ≤ v ∧ v < 2 ^ 31 := by
    intro v hv
    obtain ⟨rec, hrec, rfl⟩ := List.mem_map.mp hv
    exact hint rec (List.mem_of_mem_filter hrec)
  have hmean := toInt32_mean hmem
  rwa [List.length_map] at hmean

/-- The records of the hourly file add up to the means, cut off. -/
theorem sum_rollup (hint : ∀ rec ∈ recs, -2 ^ 31 ≤ rec.powerMw ∧ rec.powerMw < 2 ^ 31) :
    ((rollup recs).map (·.powerMw)).sum =
      ∑ h ∈ hoursPresent recs, (hourPower recs h).tdiv (hourRecords recs h).length := by
  rw [rollup, sum_filterMap_range, hoursPresent, Finset.sum_filter]
  refine Finset.sum_congr rfl fun h _ => ?_
  obtain ⟨hsum, hcount⟩ := foldl_addRecord recs (fun _ => {}) h
  simp only [zero_add] at hsum hcount
  rw [hsum, hcount]
  by_cases hnil : hourRecords recs h = []
  · simp [hnil]
  · have hlen : (hourRecords recs h).length ≠ 0 := mt List.length_eq_zero_iff.mp hnil
    rw [if_neg hlen, if_pos hnil, Option.map_some, Option.getD_some]
    exact toInt32_hourMean recs hint h

/-- The hourly energy is the one of the minutes and what the means credit, less what is cut off. -/
theorem kwhOf_rollup (hint : ∀ rec ∈ recs, -2 ^ 31 ≤ rec.powerMw ∧ rec.powerMw < 2 ^ 31) :
    kwhOf 1 (rollup recs) - kwhOf 60 recs = (credited recs - cutOff recs) / 10 ^ 6 := by
  rw [kwhOf, kwhOf, sum_rollup recs hint, ← sum_hoursPresent recs, credited, cutOff,
    ← Finset.sum_sub_distrib]
  push_cast
  have hhour : ∀ h ∈ hoursPresent recs,
      (hourPower recs h / (hourRecords recs h).length *
          (60 - (hourRecords recs h).length) / 60 -
        ((hourPower recs h).tmod (hourRecords recs h).length : ℚ) / (hourRecords recs h).length : ℚ)
        = ((hourPower recs h).tdiv (hourRecords recs h).length : ℤ) - hourPower recs h / 60 := by
    intro h hh
    have hlen : ((hourRecords recs h).length : ℚ) ≠ 0 := by
      have hne := (Finset.mem_filter.mp hh).2
      exact_mod_cast mt List.length_eq_zero_iff.mp hne
    have hdiv : ((hourPower recs h).tmod (hourRecords recs h).length : ℚ) +
        (hourRecords recs h).length * ((hourPower recs h).tdiv (hourRecords recs h).length : ℤ) =
          hourPower recs h := by
      exact_mod_cast Int.tmod_add_mul_tdiv (hourPower recs h) (hourRecords recs h).length
    field_simp
    linarith
  rw [Finset.sum_congr rfl hhour, Finset.sum_sub_distrib, ← Finset.sum_div]
  ring

end Sums

/-! ## The figure of a day -/

section Figure

variable {c : Card} {s : Stream} {date : DateStr} {recs : List PowerRecord}

theorem fileKwh_of_minute (hminute : minuteFile c s date = some recs)
    (hhourly : hourlyFile c s date = none) : fileKwh c s date = some (kwhOf 60 recs) := by
  unfold minuteFile at hminute
  unfold hourlyFile at hhourly
  rw [fileKwh, hminute, hhourly]
  rfl

theorem fileKwh_rollupStream (hminute : minuteFile c s date = some recs) :
    fileKwh (rollupStream s date c) s date = some (kwhOf 1 (rollup recs)) := by
  unfold minuteFile at hminute
  unfold fileKwh rollupStream
  by_cases hgrid : s.role = .grid
  · rw [if_pos hgrid] at hminute
    simp [hgrid, powerLoggerRollupHourly, hminute]
  · rw [if_neg hgrid] at hminute
    simp [hgrid, rollupOne, hminute]

/-- `node_power_logger_rollup_hourly` does the same for the stream of a listed file. -/
theorem nodeHourly_rollup (hdate : sanitizeToken date = true)
    (hid : 0 < s.graphId.utf8ByteSize ∧ s.graphId.utf8ByteSize < 40)
    (hminute : c.node s.graphId date = some recs) :
    (nodePowerLoggerRollupHourly date c).nodeHourly s.graphId date =
      (rollupOne s.graphId date c).nodeHourly s.graphId date := by
  simp [nodePowerLoggerRollupHourly, hdate, hid, rollupOne, hminute]

/-- In particular the figure stays if each hour with records has all its 60 minutes. -/
theorem balanced_of_complete (h : ∀ h ∈ hoursPresent recs, (hourRecords recs h).length = 60) :
    Balanced recs := by
  have hcredited : credited recs = 0 := by
    refine Finset.sum_eq_zero fun k hk => ?_
    rw [h k hk]
    norm_num
  have hcut : ∀ k ∈ hoursPresent recs,
      |((hourPower recs k).tmod (hourRecords recs k).length : ℚ) / (hourRecords recs k).length| ≤
        1 := by
    intro k hk
    rw [h k hk]
    have hlt : |(hourPower recs k).tmod 60| < 60 := by
      rw [Int.abs_eq_natAbs, Int.natAbs_tmod]
      exact_mod_cast Nat.mod_lt _ (by decide : 0 < 60)
    have hminutes : |((60 : ℕ) : ℚ)| = 60 := abs_of_pos (by norm_num)
    rw [abs_div, hminutes, div_le_one (by norm_num)]
    exact_mod_cast hlt.le
  rw [Balanced, hcredited, zero_sub, abs_neg, cutOff]
  refine (Finset.abs_sum_le_sum_abs _ _).trans ?_
  rw [Finset.card_eq_sum_ones, Nat.cast_sum, Nat.cast_one]
  exact Finset.sum_le_sum hcut

/-- The two energies agree but for the truncation if and only if what the means credit to missing
minutes, less what is cut off, is within a mWh for each hour. -/
theorem figureKept_iff (hminute : minuteFile c s date = some recs)
    (hhourly : hourlyFile c s date = none)
    (hint : ∀ rec ∈ recs, -2 ^ 31 ≤ rec.powerMw ∧ rec.powerMw < 2 ^ 31) :
    FigureKept c s date recs ↔ Balanced recs := by
  have hscale : |(credited recs - cutOff recs) / 10 ^ 6| =
      |credited recs - cutOff recs| / 10 ^ 6 := by
    rw [abs_div, abs_of_pos (by norm_num : (0 : ℚ) < 10 ^ 6)]
  have hiff : |kwhOf 1 (rollup recs) - kwhOf 60 recs| ≤ (hoursPresent recs).card / 10 ^ 6 ↔
      Balanced recs := by
    rw [kwhOf_rollup recs hint, hscale, div_le_div_iff_of_pos_right (by norm_num)]
    rfl
  rw [FigureKept, fileKwh_of_minute hminute hhourly, fileKwh_rollupStream hminute, ← hiff]
  constructor
  · rintro ⟨before, after, hbefore, hafter, hle⟩
    obtain rfl := Option.some.inj hbefore
    obtain rfl := Option.some.inj hafter
    exact hle
  · exact fun hle => ⟨_, _, rfl, rfl, hle⟩

end Figure

/-- A card with one minute file of the grid. -/
def gridCard (recs : List PowerRecord) : Card where
  grid := fun _ => some recs
  node := fun _ _ => none
  soc := fun _ _ => none
  tariff := fun _ => none
  price := fun _ => none

/-- The minutes of an hour of 15 January 2025. -/
def januaryHour (powerMw : ℤ) (minutes : ℕ) : List PowerRecord :=
  (List.range minutes).map fun i => { unixMinute := 1736942400 + 60 * i, powerMw := powerMw }

theorem figureKept_januaryHour : FigureKept (gridCard (januaryHour 3000001 60))
    { graphId := "grid", role := .grid } (dateStr 20103) (januaryHour 3000001 60) := by
  refine (figureKept_iff rfl rfl ?_).mpr (balanced_of_complete ?_)
  · decide +kernel
  · decide +kernel

/-- A minute alone in its hour becomes an hour: 0.05 kWh turn into 3 kWh. -/
theorem figure_changes :
    ¬ ∀ (c : Card) (s : Stream) (date : DateStr) (recs : List PowerRecord),
      minuteFile c s date = some recs → hourlyFile c s date = none →
      (∀ rec ∈ recs, -2 ^ 31 ≤ rec.powerMw ∧ rec.powerMw < 2 ^ 31) →
      FigureKept c s date recs := by
  intro h
  obtain ⟨before, after, hbefore, hafter, hle⟩ := h (gridCard (januaryHour 3000000 1))
    { graphId := "grid", role := .grid } (dateStr 20103) (januaryHour 3000000 1) rfl rfl (by decide)
  have hb : before = 1 / 20 := by
    refine (Option.some.inj hbefore).symm.trans ?_
    norm_num [kwhOf, januaryHour]
  have ha : after = 3 := by
    have hrollup : rollup (januaryHour 3000000 1) =
        [{ unixMinute := 1736942400, powerMw := 3000000 }] := by decide +kernel
    have hhourly : fileKwh (rollupStream { graphId := "grid", role := .grid } (dateStr 20103)
        (gridCard (januaryHour 3000000 1))) { graphId := "grid", role := .grid } (dateStr 20103) =
          some (kwhOf 1 (rollup (januaryHour 3000000 1))) := fileKwh_rollupStream rfl
    rw [hhourly, hrollup] at hafter
    refine (Option.some.inj hafter).symm.trans ?_
    norm_num [kwhOf]
  have hcard : (hoursPresent (januaryHour 3000000 1)).card = 1 := by decide +kernel
  rw [hb, ha, hcard] at hle
  norm_num [abs_le] at hle

end HomeEnergyManager.NodePowerLogger
