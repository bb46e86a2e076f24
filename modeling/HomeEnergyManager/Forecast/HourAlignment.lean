import HomeEnergyManager.Forecast.Model

/-! # The hours of the surplus forecast

The place of a record in the surplus file stands for a local hour. The records of the solar forecast
are laid out from midnight in UTC, and read back by their local hour, so they are at their places
only on days without summer time.
-/

namespace HomeEnergyManager.Forecast

open NodePowerLogger (PowerRecord)

/-- The mean of powers, truncated; zero of none. -/
def meanMw (l : List ℤ) : ℤ := if l = [] then 0 else l.sum.tdiv l.length

/-- The powers of the estimates that are timed in hour `h`. -/
def solarIn (estimates : List Estimate) (h : ℤ) : List ℤ :=
  ((estimates.filterMap (·.hourMw)).filter (·.1 = h)).map Prod.snd

/-- The powers in local hour `h` of the days that the consumption forecast uses. -/
def consumedIn (c : Card) (date : DateStr) (h : ℤ) : List ℤ :=
  (((targetTm date).elim [] fun target => (usedDays c.gridHourly target).flatten.map fun rec =>
    (localHour rec, rec.powerMw)).filter (·.1 = h)).map Prod.snd

/-- The surplus of local hour `h`. -/
def surplusMw (estimates : List Estimate) (c : Card) (z h : ℤ) : ℤ :=
  meanMw (solarIn estimates h) - meanMw (consumedIn c (dateStr z) h)

/-- What the daily job has to leave: for each local hour of the day its surplus, at its place, with
an instant at which the hour begins. -/
def HoursAligned (z : ℤ) (estimates : List Estimate) (c : Card) : Prop :=
  let c' := dailyForecast (dateStr z) estimates c
  ∀ h : ℕ, h < 24 → (∃ t, localDay t = z ∧ (localtime t).hour = h) →
    (∃ recs rec, c'.surplus (dateStr z) = some recs ∧ recs[h]? = some rec ∧
      rec.powerMw = surplusMw estimates c z h ∧ BeginsHour z h rec.unixMinute) ∧
    ∃ surplus, loadSurplus c' (dateStr z) = some surplus ∧
      surplus h = (surplusMw estimates c z h : ℚ) / 1000

/-- The seconds of the day fit `uint32_t`: the day is from 1970 on and before 2106-02-07. -/
def InTime (z : ℤ) : Prop := 0 ≤ z ∧ (z + 1) * 86400 ≤ 2 ^ 32

instance (z : ℤ) : Decidable (InTime z) := inferInstanceAs (Decidable (_ ∧ _))

/-- The range of `int32_t`. -/
def FitsInt32 (x : ℤ) : Prop := -2 ^ 31 ≤ x ∧ x < 2 ^ 31

instance (x : ℤ) : Decidable (FitsInt32 x) := inferInstanceAs (Decidable (_ ∧ _))

theorem toInt32_eq_self_iff {x : ℤ} : toInt32 x = x ↔ FitsInt32 x := by
  unfold toInt32 FitsInt32
  rw [Int.bmod_eq_iff (by decide)]
  norm_num

/-! ## Means -/

section Means

theorem foldl_add (totals : HourTotals) (l : List (ℤ × ℤ)) (h : ℤ) :
    (l.foldl HourTotals.add totals).sumMw h
        = totals.sumMw h + ((l.filter (·.1 = h)).map Prod.snd).sum ∧
      (l.foldl HourTotals.add totals).count h
        = totals.count h + ((l.filter (·.1 = h)).map Prod.snd).length := by
  induction l generalizing totals with
  | nil => exact ⟨(add_zero _).symm, rfl⟩
  | cons p l ih =>
    obtain ⟨hsum, hcount⟩ := ih (totals.add p)
    rw [List.foldl_cons, hsum, hcount]
    unfold HourTotals.add
    dsimp only
    rw [Function.update_apply, Function.update_apply]
    by_cases hp : p.1 = h
    · rw [if_pos hp.symm, if_pos hp.symm, List.filter_cons_of_pos (by simpa using hp), hp,
        List.map_cons, List.sum_cons, List.length_cons]
      omega
    · rw [if_neg (Ne.symm hp), if_neg (Ne.symm hp), List.filter_cons_of_neg (by simpa using hp)]
      exact ⟨rfl, rfl⟩

/-- The record of hour `h` of the powers in `l`. -/
def hourRecord (l : List (ℤ × ℤ)) (midnight : ℤ) (h : ℕ) : PowerRecord :=
  { unixMinute := toUint32 (midnight + h * 3600)
    powerMw := toInt32 (meanMw ((l.filter (·.1 = (h : ℤ))).map Prod.snd)) }

theorem records_foldl (l : List (ℤ × ℤ)) (midnight : ℤ) :
    (l.foldl HourTotals.add {}).records midnight =
      (List.range HOURS_PER_DAY).map (hourRecord l midnight) := by
  unfold HourTotals.records
  apply List.map_congr_left
  intro h _
  obtain ⟨hsum, hcount⟩ := foldl_add {} l h
  rw [zero_add] at hsum hcount
  unfold hourRecord meanMw
  rw [hsum, hcount]
  congr 1
  split
  · rename_i hpos
    rw [if_neg (List.ne_nil_of_length_pos hpos)]
  · rename_i hzero
    rw [if_pos (List.length_eq_zero_iff.mp (Nat.eq_zero_of_not_pos hzero))]
    rfl

end Means

/-! ## The files of a day -/

section Files

variable {z : ℤ} {estimates : List Estimate} {c : Card}

theorem strptimeDate_dateStr (hz : Dated z) :
    strptimeDate (dateStr z) = some (standardMidnight z) := by
  unfold strptimeDate
  rw [sscanfDate_dateStr hz]
  rfl

theorem targetTm_dateStr (hz : Dated z) :
    targetTm (dateStr z) = some (mktime (standardMidnight z)).2 := by
  unfold targetTm
  rw [strptimeDate_dateStr hz, Option.map_some]

/-- Midnight in UTC, as `tm_isdst` stays zero. -/
theorem midnightOf_standardMidnight (hz : Dated z) :
    midnightOf (standardMidnight z) = utcMidnight z :=
  mktime_standardMidnight hz

/-- `solar-forecast-<date>`. -/
def solarFile (estimates : List Estimate) (z : ℤ) : List PowerRecord :=
  ((estimates.filterMap (·.hourMw)).foldl HourTotals.add {}).records (utcMidnight z)

/-- `consumption-forecast-<date>`. -/
def consumptionFile (c : Card) (z : ℤ) : List PowerRecord :=
  ((usedDays c.gridHourly (mktime (standardMidnight z)).2).foldl accumulateDay {}).records
    (midnightOf (mktime (standardMidnight z)).2)

/-- The record of the surplus file for hour `h`. -/
def surplusRecord (estimates : List Estimate) (c : Card) (z : ℤ) (h : ℕ) : PowerRecord :=
  { unixMinute :=
      if loadHourlyTs (solarFile estimates z) h ≠ 0 then loadHourlyTs (solarFile estimates z) h
      else toUint32 (utcMidnight z + h * 3600)
    powerMw := toInt32
      (loadHourlyMw (solarFile estimates z) h - loadHourlyMw (consumptionFile c z) h) }

theorem saveHourlySolar_eq (hz : Dated z) :
    saveHourlySolar (dateStr z) estimates c =
      { c with solarForecast :=
          Function.update c.solarForecast (dateStr z) (some (solarFile estimates z)) } := by
  unfold saveHourlySolar
  rw [strptimeDate_dateStr hz, Option.getD_some, midnightOf_standardMidnight hz]
  rfl

theorem consumptionForecastCompute_eq (hz : Dated z) :
    consumptionForecastCompute (dateStr z) c =
      if usedDays c.gridHourly (mktime (standardMidnight z)).2 = [] then (.notFound, c)
      else (.ok, { c with
        consumptionForecast :=
          Function.update c.consumptionForecast (dateStr z) (some (consumptionFile c z)) }) := by
  unfold consumptionForecastCompute
  rw [targetTm_dateStr hz]
  rfl

theorem surplusFromSubtraction_eq (hz : Dated z)
    (hsolar : c.solarForecast (dateStr z) = some (solarFile estimates z))
    (hconsumption : c.consumptionForecast (dateStr z) = some (consumptionFile c z)) :
    surplusFromSubtraction (dateStr z) c =
      .ok ((List.range HOURS_PER_DAY).map (surplusRecord estimates c z)) := by
  unfold surplusFromSubtraction
  rw [hsolar, hconsumption, strptimeDate_dateStr hz]
  dsimp only
  rw [midnightOf_standardMidnight hz]
  rfl

theorem surplus_dailyForecast (hz : Dated z)
    (hdata : (consumptionForecastCompute (dateStr z) c).1 = .ok) :
    (dailyForecast (dateStr z) estimates c).surplus (dateStr z) =
      some ((List.range HOURS_PER_DAY).map (surplusRecord estimates c z)) := by
  have hdays : usedDays c.gridHourly (mktime (standardMidnight z)).2 ≠ [] := by
    intro hnil
    rw [consumptionForecastCompute_eq hz, if_pos hnil] at hdata
    exact absurd hdata nofun
  unfold dailyForecast
  rw [saveHourlySolar_eq hz, consumptionForecastCompute_eq hz, if_neg hdays]
  unfold surplusForecastCompute
  dsimp only
  rw [surplusFromSubtraction_eq hz (Function.update_self ..) (Function.update_self ..)]
  exact Function.update_self ..

/-- The places of the file, read as the hours. -/
theorem hoursAligned_iff (hz : Dated z)
    (hdata : (consumptionForecastCompute (dateStr z) c).1 = .ok) :
    HoursAligned z estimates c ↔
      ∀ h : ℕ, h < 24 → (∃ t, localDay t = z ∧ (localtime t).hour = h) →
        (surplusRecord estimates c z h).powerMw = surplusMw estimates c z h ∧
          BeginsHour z h (surplusRecord estimates c z h).unixMinute := by
  have hfile : (dailyForecast (dateStr z) estimates c).surplus (dateStr z) =
      some ((List.range HOURS_PER_DAY).map (surplusRecord estimates c z)) :=
    surplus_dailyForecast hz hdata
  have hget : ∀ h : ℕ, h < 24 →
      ((List.range HOURS_PER_DAY).map (surplusRecord estimates c z))[h]? =
        some (surplusRecord estimates c z h) := by
    intro h hh
    rw [List.getElem?_map, List.getElem?_range (show h < HOURS_PER_DAY from hh), Option.map_some]
  unfold HoursAligned
  dsimp only
  constructor
  · intro haligned h hh hhour
    obtain ⟨⟨recs, rec, hrecs, hrec, hmw, hbegins⟩, -⟩ := haligned h hh hhour
    rw [hfile, Option.some.injEq] at hrecs
    subst hrecs
    rw [hget h hh, Option.some.injEq] at hrec
    subst hrec
    exact ⟨hmw, hbegins⟩
  · intro haligned h hh hhour
    obtain ⟨hmw, hbegins⟩ := haligned h hh hhour
    refine ⟨⟨_, _, hfile, hget h hh, hmw, hbegins⟩, ?_⟩
    have htake : ((List.range HOURS_PER_DAY).map (surplusRecord estimates c z)).take SCHED_HOURS =
        (List.range HOURS_PER_DAY).map (surplusRecord estimates c z) :=
      List.take_of_length_le (by rw [List.length_map, List.length_range]; rfl)
    refine ⟨fun n => ((((List.range HOURS_PER_DAY).map (surplusRecord estimates c z))[n]?).map
      fun rec => (rec.powerMw : ℚ) / 1000).getD 0, ?_, ?_⟩
    · unfold loadSurplus
      rw [hfile, Option.bind_some, htake]
      exact if_neg (by simp [HOURS_PER_DAY])
    · dsimp only
      rw [hget h hh, Option.map_some, Option.getD_some, hmw]

/-- The solar forecast is laid out from midnight in UTC. -/
theorem solarFile_eq : solarFile estimates z =
    (List.range HOURS_PER_DAY).map
      (hourRecord (estimates.filterMap (·.hourMw)) (utcMidnight z)) := records_foldl ..

/-- The local hours and the powers of the days that the consumption forecast uses. -/
def consumed (c : Card) (z : ℤ) : List (ℤ × ℤ) :=
  (usedDays c.gridHourly (mktime (standardMidnight z)).2).flatten.map
    fun rec => (localHour rec, rec.powerMw)

theorem consumptionFile_eq : consumptionFile c z =
    (List.range HOURS_PER_DAY).map
      (hourRecord (consumed c z) (midnightOf (mktime (standardMidnight z)).2)) := by
  unfold consumptionFile
  rw [← records_foldl]
  unfold consumed
  rw [List.foldl_map, List.foldl_flatten]
  rfl

theorem surplusMw_eq (hz : Dated z) (h : ℤ) : surplusMw estimates c z h =
    meanMw (solarIn estimates h) -
      meanMw (((consumed c z).filter (·.1 = h)).map Prod.snd) := by
  unfold surplusMw consumedIn
  rw [targetTm_dateStr hz]
  rfl

end Files

/-! ## The record of an hour, read back -/

section ReadBack

variable {z : ℤ}

theorem toUint32_hour (htime : InTime z) {h : ℕ} (hh : h < 24) :
    (toUint32 (utcMidnight z + h * 3600) : ℤ) = utcMidnight z + h * 3600 := by
  obtain ⟨hfirst, hlast⟩ := htime
  have hrange : 0 ≤ utcMidnight z + h * 3600 ∧ utcMidnight z + h * 3600 < 2 ^ 32 := by
    unfold utcMidnight secPerDay
    omega
  unfold toUint32
  rw [Int.emod_eq_of_lt hrange.1 hrange.2, Int.toNat_of_nonneg hrange.1]

theorem localHour_hourRecord (htime : InTime z) (l : List (ℤ × ℤ)) {h : ℕ} (hh : h < 24) :
    localHour (hourRecord l (utcMidnight z) h) = (localtime (utcMidnight z + h * 3600)).hour := by
  unfold localHour hourRecord
  dsimp only
  rw [toUint32_hour htime hh]

end ReadBack

/-! ## Days without summer time -/

section Winter

variable {z : ℤ}

/-- Each record is read back at its place. -/
theorem localHour_of_not_summerDay (hwinter : ¬ SummerDay z) (htime : InTime z) (l : List (ℤ × ℤ))
    {h : ℕ} (hh : h < 24) : localHour (hourRecord l (utcMidnight z) h) = h := by
  rw [localHour_hourRecord htime l hh]
  exact (beginsHour_of_not_summerDay hwinter (by omega)).2.1

theorem cell_hourRecord {β : Type*} (hwinter : ¬ SummerDay z) (htime : InTime z)
    (l : List (ℤ × ℤ)) (val : PowerRecord → β) {h : ℕ} (hh : h < 24) (b : β) :
    LastWrite.cell (fun rec => localHour rec = h) val
      ((List.range HOURS_PER_DAY).map (hourRecord l (utcMidnight z))) b =
        val (hourRecord l (utcMidnight z) h) := by
  apply LastWrite.cell_of_agree_of_mem
  · intro rec hrec hcovers
    obtain ⟨k, hk, rfl⟩ := List.mem_map.mp hrec
    rw [localHour_of_not_summerDay hwinter htime l (List.mem_range.mp hk), Nat.cast_inj] at hcovers
    rw [hcovers]
  · exact ⟨_, List.mem_map.mpr ⟨h, List.mem_range.mpr hh, rfl⟩,
      localHour_of_not_summerDay hwinter htime l hh⟩

theorem surplusRecord_of_not_summerDay (hz : Dated z) (hwinter : ¬ SummerDay z) (htime : InTime z)
    (estimates : List Estimate) (c : Card) {h : ℕ} (hh : h < 24) :
    surplusRecord estimates c z h =
      { unixMinute := toUint32 (utcMidnight z + h * 3600)
        powerMw := toInt32 (surplusMw estimates c z h) } := by
  -- without summer time the normalised fields are those of midnight in UTC as well
  have hmidnight : midnightOf (mktime (standardMidnight z)).2 = utcMidnight z := by
    rw [mktime_standardMidnight_snd hz hwinter, midnightOf_standardMidnight hz]
  unfold surplusRecord loadHourlyTs loadHourlyMw
  rw [solarFile_eq, consumptionFile_eq, hmidnight, cell_hourRecord hwinter htime _ _ hh,
    cell_hourRecord hwinter htime _ _ hh, cell_hourRecord hwinter htime _ _ hh, surplusMw_eq hz]
  congr 1
  · exact ite_id _
  · unfold hourRecord toInt32 solarIn
    rw [Int.sub_bmod_bmod, Int.bmod_sub_bmod]

end Winter

/-! ## Days with summer time -/

section Summer

variable {z : ℤ} {estimates : List Estimate} {c : Card}

/-- Up to the change in October the last record is on the next day, and takes the first place. -/
theorem surplusRecord_of_lt_change (hsummer : SummerDay z) (htime : InTime z)
    (hend : z < lastSunday (Civil.toDate z).year 10) :
    ((surplusRecord estimates c z 0).unixMinute : ℤ) = utcMidnight z + 82800 := by
  have hlast : (toUint32 (utcMidnight z + (23 : ℕ) * 3600) : ℤ) = utcMidnight z + 82800 := by
    rw [toUint32_hour htime (by decide)]
    norm_num
  have hhour : localHour (hourRecord (estimates.filterMap (·.hourMw)) (utcMidnight z) 23) =
      (0 : ℕ) := by
    have hown := (beginsHour_lastHour hsummer hend).2.1
    unfold localHour hourRecord
    dsimp only
    rw [hlast]
    exact hown
  have hts : loadHourlyTs (solarFile estimates z) 0 =
      toUint32 (utcMidnight z + (23 : ℕ) * 3600) := by
    unfold loadHourlyTs
    rw [solarFile_eq, show HOURS_PER_DAY = 23 + 1 from rfl, List.range_succ, List.map_append,
      List.map_singleton]
    apply LastWrite.cell_concat_of_covers
    exact hhour
  have hne : toUint32 (utcMidnight z + (23 : ℕ) * 3600) ≠ 0 := by
    intro hzero
    have hfirst := htime.1
    rw [hzero] at hlast
    unfold utcMidnight secPerDay at hlast
    omega
  unfold surplusRecord
  rw [hts, if_pos hne]
  exact hlast

/-- On the day of the change in October no record is in the first hour. -/
theorem surplusRecord_of_change (hsummer : SummerDay z) (htime : InTime z)
    (hend : z = lastSunday (Civil.toDate z).year 10) :
    ((surplusRecord estimates c z 0).unixMinute : ℤ) = utcMidnight z := by
  have hts : loadHourlyTs (solarFile estimates z) 0 = 0 := by
    unfold loadHourlyTs
    apply LastWrite.cell_of_forall_not
    intro rec hrec hcovers
    rw [solarFile_eq] at hrec
    obtain ⟨k, hk, rfl⟩ := List.mem_map.mp hrec
    have hk24 : k < 24 := List.mem_range.mp hk
    rw [localHour_hourRecord htime _ hk24] at hcovers
    -- midnight in UTC is at one o'clock, and later hours are at their own
    rcases Nat.eq_zero_or_pos k with rfl | hpos
    · have hone := (beginsHour_change hsummer hend).2.1
      rw [Nat.cast_zero, zero_mul, add_zero, hone] at hcovers
      exact absurd hcovers (by decide)
    · have hown := (beginsHour_after_change hend (h := k) (by omega)).2.1
      rw [hown] at hcovers
      omega
  have hfirst := toUint32_hour htime (h := 0) (by decide)
  unfold surplusRecord
  rw [hts, if_neg (not_not.mpr rfl), hfirst]
  simp

/-- Either way the first record does not begin the first hour of the day. -/
theorem not_beginsHour_zero (hsummer : SummerDay z) (htime : InTime z) :
    ¬ BeginsHour z 0 (surplusRecord estimates c z 0).unixMinute := by
  rcases lt_or_eq_of_le hsummer.2.2 with hlt | heq
  · rw [surplusRecord_of_lt_change hsummer htime hlt]
    intro hbegins
    have hnext := (beginsHour_lastHour hsummer hlt).1
    rw [hbegins.1] at hnext
    omega
  · rw [surplusRecord_of_change hsummer htime heq]
    intro hbegins
    have hone := (beginsHour_change hsummer heq).2.1
    rw [hbegins.2.1] at hone
    exact absurd hone (by decide)

end Summer

/-! ## When the hours are aligned -/

section Aligned

variable {z : ℤ} {estimates : List Estimate} {c : Card}

theorem toUint32_lt (x : ℤ) : toUint32 x < 2 ^ 32 := by
  unfold toUint32
  have := Int.emod_lt_of_pos x (show (0 : ℤ) < 2 ^ 32 by decide)
  omega

theorem unixMinute_surplusRecord_lt (h : ℕ) :
    (surplusRecord estimates c z h).unixMinute < 2 ^ 32 := by
  unfold surplusRecord
  dsimp only
  split
  · unfold loadHourlyTs
    rw [solarFile_eq]
    refine LastWrite.cell_ind (P := (· < 2 ^ 32)) (by decide) fun rec hrec _ => ?_
    obtain ⟨k, -, rfl⟩ := List.mem_map.mp hrec
    exact toUint32_lt _
  · exact toUint32_lt _

/-- An instant of 32 bits that begins the hour of noon. -/
theorem inTime_of_beginsHour_noon {t : ℕ} (hbegins : BeginsHour z 12 t) (ht : t < 2 ^ 32) :
    InTime z := by
  have hclock := hbegins.clock
  have hoffset : utcOffset t = 0 ∨ utcOffset t = 3600 := by
    unfold utcOffset
    split_ifs
    · exact .inr rfl
    · exact .inl rfl
  unfold utcMidnight secPerDay at hclock
  unfold InTime
  omega

end Aligned

/-! ## A day in winter and a day in summer -/

/-- Two kilowatts from noon. -/
def noonEstimates : List Estimate := [⟨some "12:00:00".toList, some 2000⟩]

/-- One kilowatt in the hour of an instant, on the day that a date names. -/
def oneHourCard (date : DateStr) (unixMinute : ℕ) : Card :=
  { gridHourly := fun date' => if date' = date then some [⟨unixMinute, 1000000⟩] else none }

end HomeEnergyManager.Forecast
