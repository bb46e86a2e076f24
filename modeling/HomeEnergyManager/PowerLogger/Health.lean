import HomeEnergyManager.Lib.LongestRun
import HomeEnergyManager.PowerLogger.RollupEnergy
import HomeEnergyManager.PowerLogger.Sampling
import HomeEnergyManager.PowerLogger.Series

/-! # The health of the streams

`node_power_logger_stream_health_json` says of every stream when its meter last reported, how many
minutes of today were recorded and how long the longest gap between them is.

Reference: `firmware/main/node_power_logger.cpp`.
-/

namespace HomeEnergyManager.NodePowerLogger

/-- `ValueCacheEntry` with the time of its report. -/
structure ReportedEntry extends ValueCacheEntry where
  lastUpdateUnix : ℕ
deriving DecidableEq, Repr

/-- What is said of one stream. -/
structure StreamHealth where
  id : String
  role : Role
  /-- `none` for null. -/
  lastReportAgeS : Option ℤ
  lastPowerW : Option ℚ
  minutesRecordedToday : ℕ
  largestGapMinutes : ℤ
deriving DecidableEq, Repr

structure HealthDoc where
  date : DateStr
  minutesElapsedToday : ℤ
  streams : List StreamHealth
deriving DecidableEq, Repr

/-- `elapsed`: the complete minutes so far today. -/
def elapsedMinutes (dayStart now : ℤ) : ℤ :=
  let elapsed := (now - dayStart).tdiv 60
  if (kMaxDayMinutes : ℤ) < elapsed then kMaxDayMinutes else elapsed

/-- `records` and `largest`. A file that is not there is one gap. -/
def minutesOf (file : Option (List PowerRecord)) (dayStart elapsed : ℤ) : ℕ × ℤ :=
  match loadMinutes file dayStart INT32_MIN with
  | some mw =>
    let scan := LongestRun.scan (fun i => mw i ≠ INT32_MIN) elapsed.toNat
    (scan.count, scan.longest)
  | none => (0, elapsed)

/-- One item of the loop over the streams. -/
def streamHealth (snap : List ReportedEntry) (today : DateStr) (dayStart now : ℤ) (c : Card)
    (s : SampledStream) : StreamHealth :=
  let report := snap.find? fun v =>
    v.valid && v.nodeId == s.nodeId && v.endpointId == s.endpointId &&
      v.clusterId == EPM_CLUSTER_ID && v.attributeId == EPM_ACTIVE_POWER_ATTR
  let minutes := minutesOf (minuteFile c s.toStream today) dayStart
    (elapsedMinutes dayStart now)
  { id := s.graphId
    role := s.role
    lastReportAgeS := report.map fun v => now - v.lastUpdateUnix
    lastPowerW := report.map fun v => (v.value : ℚ) / 1000
    minutesRecordedToday := minutes.1
    largestGapMinutes := minutes.2 }

/-- `node_power_logger_stream_health_json`. The clock is read twice: for the date, and then for the
minutes. -/
def nodePowerLoggerStreamHealthJson (streams : List SampledStream) (snap : List ReportedEntry)
    (atDate now : ℤ) (c : Card) : HealthDoc :=
  let today := dateStr (localDay atDate)
  let dayStart := (localDayStart today).getD 0
  { date := today
    minutesElapsedToday := elapsedMinutes dayStart now
    streams := streams.map (streamHealth snap today dayStart now c) }

/-! ## Which minutes are recorded -/

/-- The file has a record for the minute. -/
def Recorded (file : Option (List PowerRecord)) (dayStart : ℤ) (i : ℕ) : Prop :=
  ∃ rec ∈ file.getD [], rec.index dayStart = i

instance (file : Option (List PowerRecord)) (dayStart : ℤ) :
    DecidablePred (Recorded file dayStart) := fun i =>
  inferInstanceAs (Decidable (∃ rec ∈ file.getD [], rec.index dayStart = i))

section Minutes

variable {file : Option (List PowerRecord)} {dayStart : ℤ} {mw : ℕ → ℤ}

/-- A minute is marked as missing exactly when the file has no record for it. -/
theorem ne_INT32_MIN_iff (hload : loadMinutes file dayStart INT32_MIN = some mw)
    (hmin : ∀ rec ∈ file.getD [], rec.powerMw ≠ INT32_MIN) (i : ℕ) :
    mw i ≠ INT32_MIN ↔ Recorded file dayStart i := by
  obtain ⟨recs, rfl, rfl⟩ := Option.map_eq_some_iff.mp hload
  constructor
  · intro hne
    by_contra hrec
    refine hne (LastWrite.cell_of_forall_not ?_ INT32_MIN)
    intro rec hmem hidx
    exact hrec ⟨rec, hmem, hidx⟩
  · intro hrec
    obtain ⟨rec, hmem, -, hcell⟩ :=
      LastWrite.exists_of_covers (fun rec : PowerRecord => rec.powerMw) hrec INT32_MIN
    exact hcell.trans_ne (hmin rec hmem)

theorem minutesOf_spec (hmin : ∀ rec ∈ file.getD [], rec.powerMw ≠ INT32_MIN)
    (dayStart elapsed : ℤ) :
    (minutesOf file dayStart elapsed).1 = Nat.count (Recorded file dayStart) elapsed.toNat ∧
      ∀ g : ℕ, 0 < g → ((g : ℤ) ≤ (minutesOf file dayStart elapsed).2 ↔
        ∃ k, k + g ≤ elapsed.toNat ∧ LongestRun.IsGap (Recorded file dayStart) k g) := by
  cases hload : loadMinutes file dayStart INT32_MIN with
  | some mw =>
    have hheld : (fun i => mw i ≠ INT32_MIN) = Recorded file dayStart := by
      funext i
      exact propext (ne_INT32_MIN_iff hload hmin i)
    simp only [minutesOf, hload]
    constructor
    · rw [LongestRun.scan_count]
      simp only [hheld]
    · intro g _
      rw [Int.ofNat_le, LongestRun.le_longest_iff, hheld]
  | none =>
    obtain rfl := Option.map_eq_none_iff.mp hload
    have hfree : ∀ i, ¬ Recorded none dayStart i := by
      rintro i ⟨rec, hmem, -⟩
      exact absurd hmem List.not_mem_nil
    simp only [minutesOf, hload]
    constructor
    · exact (Nat.count_of_forall_not fun i _ => hfree i).symm
    · intro g hg
      constructor
      · intro hle
        exact ⟨0, by omega, fun i _ _ => hfree i⟩
      · rintro ⟨k, hk, -⟩
        omega

end Minutes

/-- What is shown of a stream counts the recorded minutes among those elapsed, and its gap is the
longest run of elapsed minutes of which none is recorded. -/
structure ShowsMinutes (recorded : ℕ → Prop) [DecidablePred recorded] (elapsed : ℕ)
    (h : StreamHealth) : Prop where
  count : h.minutesRecordedToday = Nat.count recorded elapsed
  gap : ∀ g : ℕ, 0 < g → ((g : ℤ) ≤ h.largestGapMinutes ↔
    ∃ k, k + g ≤ elapsed ∧ LongestRun.IsGap recorded k g)

theorem showsMinutes_streamHealth {s : SampledStream} {c : Card} {today : DateStr}
    (hmin : ∀ rec ∈ (minuteFile c s.toStream today).getD [], rec.powerMw ≠ INT32_MIN)
    (snap : List ReportedEntry) (dayStart now : ℤ) :
    ShowsMinutes (Recorded (minuteFile c s.toStream today) dayStart)
      (elapsedMinutes dayStart now).toNat (streamHealth snap today dayStart now c s) := by
  obtain ⟨hcount, hgap⟩ := minutesOf_spec hmin dayStart (elapsedMinutes dayStart now)
  exact ⟨hcount, hgap⟩

/-- Whatever the files hold, the document is right about every stream: how many of the complete
minutes of today were recorded, and how long the longest gap is. -/
theorem streamHealth_gaps (streams : List SampledStream) (snap : List ReportedEntry)
    (atDate now : ℤ) (c : Card) {doc : HealthDoc} {dayStart : ℤ}
    (hdoc : nodePowerLoggerStreamHealthJson streams snap atDate now c = doc)
    (hday : localDayStart doc.date = some dayStart)
    (hmin : ∀ s ∈ streams, ∀ rec ∈ (minuteFile c s.toStream doc.date).getD [],
      rec.powerMw ≠ INT32_MIN) :
    List.Forall₂
      (fun s h => h.id = s.graphId ∧
        ShowsMinutes (Recorded (minuteFile c s.toStream doc.date) dayStart)
          doc.minutesElapsedToday.toNat h)
      streams doc.streams := by
  subst hdoc
  rw [nodePowerLoggerStreamHealthJson] at hday hmin ⊢
  dsimp only at hday hmin ⊢
  rw [hday, Option.getD_some, List.forall₂_map_right_iff, List.forall₂_same]
  intro s hs
  exact ⟨rfl, showsMinutes_streamHealth (hmin s hs) snap dayStart now⟩

/-- A cooker. -/
def cooker : SampledStream := { graphId := "cooker", role := .load, nodeId := 2, endpointId := 1 }

/-- The cooker was recorded in minutes 0, 1 and 4 of its day. -/
def cookerFile : Card :=
  { grid := fun _ => none
    node := fun _ _ => some [⟨1704153600, 2000⟩, ⟨1704153660, 1500⟩, ⟨1704153840, 900⟩]
    soc := fun _ _ => none
    tariff := fun _ => none
    price := fun _ => none }

/-- Six minutes into the day, two minutes in a row are missing. -/
theorem streamHealth_gaps_cooker :
    ∃ h ∈ (nodePowerLoggerStreamHealthJson [cooker] [] 1704153960 1704153960 cookerFile).streams,
      2 ≤ h.largestGapMinutes := by
  have hday : localDayStart (dateStr (localDay 1704153960)) = some 1704153600 := by decide
  have hall := streamHealth_gaps [cooker] [] 1704153960 1704153960 cookerFile rfl hday (by decide)
  cases hall with
  | cons hcooker _ =>
    exact ⟨_, List.mem_cons_self, (hcooker.2.gap 2 Nat.two_pos).mpr ⟨2, by decide, by decide⟩⟩

/-! ## The page and the series -/

theorem digit_mem (n : ℤ) : '0' ≤ digit n ∧ digit n ≤ '9' := by
  have hlt : (n % 10).toNat < 10 := by omega
  rw [digit]
  generalize (n % 10).toNat = m at hlt
  revert m
  decide

theorem sanitizeToken_dateStr (z : ℤ) : sanitizeToken (dateStr z) = true := by
  simp [sanitizeToken, dateStr, fourDigits, twoDigits, digit_mem]

theorem length_readings_range (mw : ℕ → ℤ) (n : ℕ) :
    (readings mw (List.range n)).length = Nat.count (fun i => mw i ≠ INT32_MIN) n := by
  induction n with
  | zero => rfl
  | succ n ih =>
    rw [readings] at ih ⊢
    rw [List.range_succ, List.map_append, List.filter_append, List.length_append, ih,
      Nat.count_succ]
    by_cases h : mw n = INT32_MIN
    · simp [h]
    · simp [h]

theorem elapsedMinutes_le (dayStart now : ℤ) : elapsedMinutes dayStart now ≤ kMaxDayMinutes := by
  unfold elapsedMinutes
  dsimp only
  split
  · exact le_rfl
  · rename_i h
    exact not_lt.mp h

/-- No minute after the last one is recorded. -/
theorem count_min_lastMinute (mw : ℕ → ℤ) {n : ℕ} (hn : n ≤ kMaxDayMinutes) :
    Nat.count (fun i => mw i ≠ INT32_MIN) (min n (lastMinute mw + 1).toNat)
      = Nat.count (fun i => mw i ≠ INT32_MIN) n := by
  obtain ⟨d, hd⟩ := Nat.exists_eq_add_of_le (Nat.min_le_left n (lastMinute mw + 1).toNat)
  have hrest : Nat.count (fun k => mw (min n (lastMinute mw + 1).toNat + k) ≠ INT32_MIN) d = 0 := by
    apply Nat.count_of_forall_not
    intro k hk hne
    have hle : ((min n (lastMinute mw + 1).toNat + k : ℕ) : ℤ) ≤ lastMinute mw :=
      le_lastAfter (by omega) hne
    omega
  conv_rhs => rw [hd, Nat.count_add, hrest, Nat.add_zero]

/-- The figures of the minutes that have one. -/
theorem length_reduceOption_powerW (mw : ℕ → ℤ) {n : ℕ} (hn : n ≤ kMaxDayMinutes) :
    ((powerW mw (lastMinute mw) 1).take n).reduceOption.length
      = Nat.count (fun i => mw i ≠ INT32_MIN) n := by
  rw [powerW_one, ← List.map_take, List.take_range, reduceOption_minuteEntry, List.length_map,
    length_readings_range, count_min_lastMinute mw hn]

/-- A stream whose id no other stream has is found by it. -/
theorem roleOf_of_nodup {streams : List SampledStream} (hnodup : (streams.map (·.graphId)).Nodup)
    {s : SampledStream} (hs : s ∈ streams) :
    roleOf (streams.map (·.toStream)) s.graphId.toList = some s.role := by
  induction streams with
  | nil => exact absurd hs List.not_mem_nil
  | cons t streams ih =>
    rw [List.map_cons, List.nodup_cons] at hnodup
    rw [roleOf, List.map_cons, List.find?_cons]
    rcases List.mem_cons.mp hs with rfl | hmem
    · simp
    · have hne : t.graphId ≠ s.graphId := by
        intro heq
        exact hnodup.1 (heq ▸ List.mem_map_of_mem hmem)
      have hne' : decide (t.graphId.toList = s.graphId.toList) = false :=
        decide_eq_false fun heq => hne (String.toList_injective heq)
      rw [hne']
      exact ih hnodup.2 hmem

theorem seriesFile_eq {streams : List SampledStream} (hnodup : (streams.map (·.graphId)).Nodup)
    {s : SampledStream} (hs : s ∈ streams) (c : Card) (date : DateStr) :
    seriesFile c.toInputs (streams.map (·.toStream)) s.graphId.toList date
      = minuteFile c s.toStream date := by
  rw [seriesFile, roleOf_of_nodup hnodup hs, minuteFile, String.ofList_toList]
  simp only [Option.some_inj]

/-- The document and the minute series of the same day agree: the document counts the minutes up to
now for which the series has a figure. -/
theorem streamHealth_series (streams : List SampledStream) (snap : List ReportedEntry)
    (atDate now : ℤ) (c : Card) {doc : HealthDoc}
    (hdoc : nodePowerLoggerStreamHealthJson streams snap atDate now c = doc)
    (hdate : Dated (localDay atDate)) (hnodup : (streams.map (·.graphId)).Nodup)
    (hids : ∀ s ∈ streams, sanitizeToken s.graphId.toList = true) :
    List.Forall₂
      (fun s h => ∃ minutes,
        nodePowerLoggerSeriesJson (streams.map (·.toStream)) s.graphId.toList doc.date false
          c.toInputs = some minutes ∧
        h.minutesRecordedToday
          = (minutes.powerW.take doc.minutesElapsedToday.toNat).reduceOption.length)
      streams doc.streams := by
  subst hdoc
  obtain ⟨dayStart, hday, -⟩ := Option.map_eq_some_iff.mp (dayOf_dateStr hdate)
  rw [nodePowerLoggerStreamHealthJson, List.forall₂_map_right_iff, List.forall₂_same]
  intro s hs
  unfold nodePowerLoggerSeriesJson
  rw [if_pos (by rw [hids s hs, sanitizeToken_dateStr]; rfl), hday, seriesFile_eq hnodup hs]
  refine ⟨_, rfl, ?_⟩
  simp only [streamHealth, minutesOf, Option.getD_some, Bool.false_eq_true, ↓reduceIte]
  have hle : (elapsedMinutes dayStart now).toNat ≤ kMaxDayMinutes :=
    Int.toNat_le.mpr (elapsedMinutes_le dayStart now)
  cases loadMinutes (minuteFile c s.toStream (dateStr (localDay atDate))) dayStart INT32_MIN with
  | some mw =>
    dsimp only
    rw [length_reduceOption_powerW mw hle, LongestRun.scan_count]
  | none => simp

theorem streamHealth_series_cooker :
    ∃ minutes, nodePowerLoggerSeriesJson [cooker.toStream] "cooker".toList "2024-01-02".toList false
      cookerFile.toInputs = some minutes ∧ (minutes.powerW.take 6).reduceOption.length = 3 := by
  have hall := streamHealth_series [cooker] [] 1704153960 1704153960 cookerFile rfl (by decide)
    (by decide) (by decide)
  cases hall with
  | cons hcooker _ =>
    obtain ⟨minutes, hminutes, hcount⟩ := hcooker
    exact ⟨minutes, hminutes, hcount.symm⟩

end HomeEnergyManager.NodePowerLogger
