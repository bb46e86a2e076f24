import HomeEnergyManager.PowerLogger.RollupEnergy
import HomeEnergyManager.Time.ClockChange

/-! # What the hourly rollup writes

One record for each clock hour with records, in the order of the hours, however the records of the
minute file lie: the buckets of the loop are the clock hours, and the timestamp of one is set by the
first record that is read for it.

Reference: `firmware/main/node_power_logger.cpp`, `firmware/main/power_logger.c`.
-/

namespace HomeEnergyManager.NodePowerLogger

/-- A minute file of the card: records of 32 bits each, in a file of a size that FAT has. -/
structure MinuteFile where
  recs : List PowerRecord
  unixMinute : ∀ rec ∈ recs, rec.unixMinute < 2 ^ 32
  powerMw : ∀ rec ∈ recs, -2 ^ 31 ≤ rec.powerMw ∧ rec.powerMw < 2 ^ 31
  size : 8 * recs.length < 2 ^ 32

/-- What the record of a clock hour is to be. -/
structure IsHourRecord (recs : List PowerRecord) (h : ℕ) (r : PowerRecord) : Prop where
  /-- The start of the hour that the first record is in. -/
  start : ∃ first, (hourRecords recs h).head? = some first ∧
    BeginsHour (localDay first.unixMinute) h r.unixMinute ∧
    r.unixMinute ≤ first.unixMinute ∧ first.unixMinute < r.unixMinute + 3600
  /-- The mean of the clock hour. -/
  mean : r.powerMw = (hourPower recs h).tdiv (hourRecords recs h).length
  /-- It is between the least and the greatest power. -/
  between : ∃ least ∈ hourRecords recs h, ∃ greatest ∈ hourRecords recs h,
    (∀ rec ∈ hourRecords recs h,
      least.powerMw ≤ rec.powerMw ∧ rec.powerMw ≤ greatest.powerMw) ∧
    least.powerMw ≤ r.powerMw ∧ r.powerMw ≤ greatest.powerMw

/-- What an hourly file is to be. -/
structure IsHourly (recs out : List PowerRecord) : Prop where
  /-- One record for each clock hour with records, and no other. -/
  hours : List.Forall₂ (IsHourRecord recs)
    ((List.range 24).filter fun h => hourRecords recs h ≠ []) out
  ascending : out.Pairwise fun r r' => r.unixMinute < r'.unixMinute

/-! ## The accumulators -/

/-- The sums and counts stay within their 64 and 32 bits while a file is read. -/
theorem foldl_addRecord_fits (f : MinuteFile) {read : List PowerRecord} (hread : read <+: f.recs)
    (h : ℕ) :
    (read.foldl addRecord (fun _ => {}) h).count < 2 ^ 32 ∧
      -2 ^ 63 ≤ (read.foldl addRecord (fun _ => {}) h).sum ∧
      (read.foldl addRecord (fun _ => {}) h).sum < 2 ^ 63 := by
  obtain ⟨hsum, hcount⟩ := foldl_addRecord read (fun _ => {}) h
  have hlen : (hourRecords read h).length ≤ f.recs.length :=
    (List.length_filter_le _ read).trans hread.length_le
  have hpower : ∀ v ∈ (hourRecords read h).map (·.powerMw), -2 ^ 31 ≤ v ∧ v ≤ 2 ^ 31 := by
    intro v hv
    obtain ⟨rec, hrec, rfl⟩ := List.mem_map.mp hv
    have hint := f.powerMw rec (hread.subset (List.mem_of_mem_filter hrec))
    exact ⟨hint.1, hint.2.le⟩
  have hlo := List.card_nsmul_le_sum _ _ fun v hv => (hpower v hv).1
  have hhi := List.sum_le_card_nsmul _ _ fun v hv => (hpower v hv).2
  have hsize := f.size
  rw [List.length_map, nsmul_eq_mul] at hlo hhi
  rw [hsum, hcount]
  simp only [zero_add]
  change _ ≤ hourPower read h at hlo
  change hourPower read h ≤ _ at hhi
  omega

/-- The start of the hour. -/
def hourStart (t : ℕ) : ℕ := t - t % 3600

theorem cast_hourStart (t : ℕ) : (hourStart t : ℤ) = (t : ℤ) - (t : ℤ) % 3600 := by
  unfold hourStart
  omega

/-- What the loop keeps as the timestamp of an hour. -/
theorem toUint32_mktime_hour {t : ℕ} (h : t < 2 ^ 32) :
    toUint32 (mktime { localtime t with min := 0, sec := 0 }).1 = hourStart t := by
  rw [mktime_hour (by omega), ← cast_hourStart]
  unfold toUint32 hourStart
  omega

theorem beginsHour_hourStart (t : ℕ) :
    BeginsHour (localDay t) (localtime t).hour (hourStart t) := by
  rw [cast_hourStart]
  exact beginsHour_hour t

/-- A start of zero is the one of the very first hour, for every instant of that hour. -/
theorem hourStart_eq_zero {t t' : ℕ} (hday : localDay t' = localDay t)
    (hhour : (localtime t').hour = (localtime t).hour) (h : hourStart t = 0) :
    hourStart t' = 0 := by
  have hclock := (beginsHour_hourStart t).clock
  have hclock' := (beginsHour_hourStart t').clock
  have hoff : utcOffset ((0 : ℕ) : ℤ) = 0 := by decide
  have hoff' := utcOffset_eq (hourStart t')
  rw [h, hoff] at hclock
  rw [hday, hhour] at hclock'
  omega

section Timestamp

variable {recs : List PowerRecord} {z : ℤ}

/-- The timestamp is set by the first record. A start of zero is taken for none, and set again by
the next record: to the same, if none of the records starts elsewhere. -/
theorem foldl_add_ts (hstamp : ∀ rec ∈ recs, rec.unixMinute < 2 ^ 32)
    (hzero : ∀ rec ∈ recs, ∀ rec' ∈ recs, hourStart rec.unixMinute = 0 →
      hourStart rec'.unixMinute = 0) (s : HourSums) :
    (recs.foldl HourSums.add s).ts = if s.ts = 0 then
        (recs.head?.map fun first => hourStart first.unixMinute).getD 0 else s.ts := by
  induction recs generalizing s with
  | nil => simp
  | cons rec recs ih =>
    rw [List.forall_mem_cons] at hstamp
    have hadd : (s.add rec).ts = if s.ts = 0 then hourStart rec.unixMinute else s.ts := by
      rw [HourSums.add, toUint32_mktime_hour hstamp.1]
    rw [List.foldl_cons, ih hstamp.2 (fun r hr r' hr' => hzero r (List.mem_cons_of_mem _ hr) r'
      (List.mem_cons_of_mem _ hr')), hadd, List.head?_cons, Option.map_some, Option.getD_some]
    by_cases hset : s.ts = 0
    · rw [if_pos hset]
      split_ifs with hstart
      · cases recs with
        | nil => exact hstart.symm
        | cons next recs =>
          have hnext := hzero rec List.mem_cons_self next (by simp) hstart
          rw [hstart]
          exact hnext
      · rfl
    · rw [if_neg hset, if_neg hset]

/-- The timestamp of an hour is set by the first record that is read for it. -/
theorem foldl_addRecord_ts (hstamp : ∀ rec ∈ recs, rec.unixMinute < 2 ^ 32)
    (hday : ∀ rec ∈ recs, localDay rec.unixMinute = z) (h : ℕ) :
    (recs.foldl addRecord (fun _ => {}) h).ts =
      ((hourRecords recs h).head?.map fun first => hourStart first.unixMinute).getD 0 := by
  have hmem : ∀ rec ∈ hourRecords recs h, rec ∈ recs ∧ (localtime rec.unixMinute).hour = h :=
    fun rec hrec => (List.mem_filter.mp hrec).imp_right of_decide_eq_true
  rw [foldl_addRecord_apply, foldl_add_ts (fun rec hrec => hstamp rec (hmem rec hrec).1)]
  · rfl
  intro rec hrec rec' hrec'
  obtain ⟨hrec, hhour⟩ := hmem rec hrec
  obtain ⟨hrec', hhour'⟩ := hmem rec' hrec'
  exact hourStart_eq_zero ((hday rec' hrec').trans (hday rec hrec).symm) (hhour'.trans hhour.symm)

end Timestamp

/-! ## The record of an hour -/

/-- The record of a clock hour. -/
def hourRecord (recs : List PowerRecord) (h : ℕ) : Option PowerRecord :=
  (hourRecords recs h).head?.map fun first =>
    { unixMinute := hourStart first.unixMinute
      powerMw := (hourPower recs h).tdiv (hourRecords recs h).length }

theorem rollup_eq {f : MinuteFile} {z : ℤ} (hday : ∀ rec ∈ f.recs, localDay rec.unixMinute = z) :
    rollup f.recs = (List.range 24).filterMap (hourRecord f.recs) := by
  unfold rollup
  refine List.filterMap_congr fun h _ => ?_
  obtain ⟨hsum, hcount⟩ := foldl_addRecord f.recs (fun _ => {}) h
  have hts := foldl_addRecord_ts f.unixMinute hday h
  have hmean := toInt32_hourMean f.recs f.powerMw h
  simp only [zero_add] at hsum hcount
  rw [hsum, hcount, hts, hmean, hourRecord]
  cases hourRecords f.recs h with
  | nil => rfl
  | cons first rest => rfl

theorem isHourRecord {f : MinuteFile} {h : ℕ} {r : PowerRecord}
    (hr : hourRecord f.recs h = some r) : IsHourRecord f.recs h r := by
  obtain ⟨first, hfirst, rfl⟩ := Option.map_eq_some_iff.mp hr
  have hmem := List.mem_of_head? hfirst
  have hhour : (localtime first.unixMinute).hour = h :=
    of_decide_eq_true (List.mem_filter.mp hmem).2
  have hne : (hourRecords f.recs h).map (·.powerMw) ≠ [] := by
    rw [Ne, List.map_eq_nil_iff]
    exact List.ne_nil_of_mem hmem
  refine ⟨⟨first, hfirst, hhour ▸ beginsHour_hourStart _, ?_, ?_⟩, rfl, ?_⟩
  · exact Nat.sub_le _ _
  · unfold hourStart
    dsimp only
    omega
  obtain ⟨least, hleast, hlo⟩ := Finset.exists_min_image (hourRecords f.recs h).toFinset
    (·.powerMw) ⟨first, List.mem_toFinset.mpr hmem⟩
  obtain ⟨greatest, hgreatest, hhi⟩ := Finset.exists_max_image (hourRecords f.recs h).toFinset
    (·.powerMw) ⟨first, List.mem_toFinset.mpr hmem⟩
  simp only [List.mem_toFinset] at hleast hlo hgreatest hhi
  have hmean := tdiv_mean_mem hne fun v hv => by
    obtain ⟨rec, hrec, rfl⟩ := List.mem_map.mp hv
    exact ⟨hlo rec hrec, hhi rec hrec⟩
  rw [List.length_map] at hmean
  exact ⟨least, hleast, greatest, hgreatest, fun rec hrec => ⟨hlo rec hrec, hhi rec hrec⟩, hmean⟩

/-! ## The hourly file -/

/-- A selection and what is made of it, one for one. -/
theorem forall₂_filterMap {α β : Type*} {R : α → β → Prop} {p : α → Bool} {g : α → Option β}
    {l : List α}
    (h : ∀ a ∈ l, (p a = false ∧ g a = none) ∨ ∃ b, p a = true ∧ g a = some b ∧ R a b) :
    List.Forall₂ R (l.filter p) (l.filterMap g) := by
  induction l with
  | nil => exact .nil
  | cons a l ih =>
    rw [List.forall_mem_cons] at h
    have ih := ih h.2
    rcases h.1 with ⟨hp, hg⟩ | ⟨b, hp, hg, hR⟩
    · rwa [List.filter_cons_of_neg (by simp [hp]), List.filterMap_cons_none hg]
    · rw [List.filter_cons_of_pos hp, List.filterMap_cons_some hg]
      exact .cons hR ih

theorem isHourly_rollup {f : MinuteFile} {z : ℤ}
    (hday : ∀ rec ∈ f.recs, localDay rec.unixMinute = z) : IsHourly f.recs (rollup f.recs) := by
  have hbegins : ∀ {h r}, hourRecord f.recs h = some r → BeginsHour z h r.unixMinute := by
    intro h r hr
    obtain ⟨first, hfirst, hbegins, -⟩ := (isHourRecord hr).start
    rwa [hday first (List.mem_of_mem_filter (List.mem_of_head? hfirst))] at hbegins
  rw [rollup_eq hday]
  constructor
  · refine forall₂_filterMap fun h _ => ?_
    cases hr : hourRecord f.recs h with
    | none =>
      have hnil := List.head?_eq_none_iff.mp (Option.map_eq_none_iff.mp hr)
      exact .inl ⟨by simp [hnil], rfl⟩
    | some r =>
      obtain ⟨first, hfirst, -⟩ := (isHourRecord hr).start
      have hne := List.ne_nil_of_mem (List.mem_of_head? hfirst)
      exact .inr ⟨r, by simp [hne], rfl, isHourRecord hr⟩
  · rw [List.pairwise_filterMap]
    refine List.pairwise_lt_range.imp fun {h h'} hlt r hr r' hr' => ?_
    have hstart := (hbegins hr).lt (hbegins hr') (by exact_mod_cast hlt)
    exact_mod_cast hstart

/-- The rollup of a minute file of one local day is exact, for a node as for the grid. -/
theorem rollup_exact {f : MinuteFile} {z : ℤ}
    (hday : ∀ rec ∈ f.recs, localDay rec.unixMinute = z) {c : Card} {graphId : String}
    {date : DateStr} (hfile : c.node graphId date = some f.recs) :
    ∃ out, (rollupOne graphId date c).nodeHourly graphId date = some out ∧ IsHourly f.recs out ∧
      ∀ (c' : Card) (date' : DateStr), c'.grid date' = some f.recs →
        (powerLoggerRollupHourly date' c').gridHourly date' = some out := by
  refine ⟨rollup f.recs, ?_, isHourly_rollup hday, fun c' date' hgrid => ?_⟩
  · simp [rollupOne, hfile]
  · simp [powerLoggerRollupHourly, hgrid]

/-- Records of the day on which the clocks go back, 2026-10-25, not in their order: 03:00, then
01:30 in winter time, 01:10 in summer time and 00:20. -/
def octoberFile : MinuteFile where
  recs := [{ unixMinute := 1792897200, powerMw := -5 }, { unixMinute := 1792891800, powerMw := 7 },
    { unixMinute := 1792887000, powerMw := -10 }, { unixMinute := 1792884000, powerMw := 4 }]
  unixMinute := by decide
  powerMw := by decide
  size := by decide

theorem rollup_exact_october :
    ∃ out, (rollupOne "solar" [] { gridCard [] with node := fun _ _ => some octoberFile.recs
      }).nodeHourly "solar" [] = some out ∧ IsHourly octoberFile.recs out ∧
      ∀ (c' : Card) (date' : DateStr), c'.grid date' = some octoberFile.recs →
        (powerLoggerRollupHourly date' c').gridHourly date' = some out :=
  rollup_exact (z := 20751) (by decide +kernel) rfl

/-- The hour from 01:00 is the second one, in which the first record for it lies. -/
example : rollup octoberFile.recs = [{ unixMinute := 1792882800, powerMw := 4 },
    { unixMinute := 1792890000, powerMw := -1 }, { unixMinute := 1792897200, powerMw := -5 }] := by
  decide +kernel

end HomeEnergyManager.NodePowerLogger
