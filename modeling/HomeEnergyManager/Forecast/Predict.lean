import HomeEnergyManager.Forecast.HourAlignment
import HomeEnergyManager.Forecast.JobTask
import HomeEnergyManager.Forecast.SurplusFit

/-! # The nightly job and its prediction

The job stores the day's solar forecast, fits the surplus model to the last eight weeks and writes
the day's surplus: the model's prediction once it has days enough, the difference of the two
forecasts before. Training and prediction read the files by the local hour of their records, so that
what the model has learnt of an hour is what it says of that hour. The profiles of the appliances,
which the job trains as well, are files of their own and not in this model. Floating point is exact
arithmetic over `ℚ`.

Reference: `firmware/main/surplus_model.c`, `firmware/main/surplus_forecast.c`,
`firmware/main/solar_forecast.c`.
-/

namespace HomeEnergyManager.Forecast

open Civil JobTask
open NodePowerLogger (PowerRecord)

/-- Days of history before the model is used. -/
def SURPLUS_MODEL_MIN_DAYS : ℕ := 4

/-- To the nearest whole number, halves away from zero. -/
def lround (x : ℚ) : ℤ := if 0 ≤ x then ⌊x + 1 / 2⌋ else ⌈x - 1 / 2⌉

/-- `load_model`, of the record in the file. -/
def loadModel (file : Option SurplusModel) : Option SurplusModel :=
  file.filter fun m => m.magic = SURPLUS_MODEL_MAGIC ∧ m.version = SURPLUS_MODEL_VERSION

/-- `pred` of an hour and a weekday. -/
def SurplusModel.pred (m : SurplusModel) (h dow : ℕ) (solarMw : ℚ) : ℚ :=
  ((m.hours[h]?).map fun hour => hour.a * solarMw + hour.b.getD dow 0).getD 0

/-- `surplus_model_predict`. -/
def surplusModelPredict (file : Option SurplusModel) (c : Card) (date : DateStr) :
    Option (List PowerRecord) :=
  match loadModel file with
  | none => none
  | some m =>
    if m.usableDays < SURPLUS_MODEL_MIN_DAYS then none
    else
      match c.solarForecast date, strptimeDate date with
      | some recs, some tm =>
        let solar := loadHourlyFile recs
        let (midnight, tm) := mktime { tm with hour := 0, min := 0, sec := 0 }
        some ((List.range HOURS).map fun (h : ℕ) =>
          { unixMinute := if solar.present h then solar.ts h else toUint32 (midnight + h * 3600)
            powerMw := toInt32 (lround (m.pred h (wday tm) (solar.mw h))) })
      | _, _ => none

/-! ## `solar_forecast_run_daily_job` -/

/-- The forecast files and the file of the model. -/
structure JobFiles where
  card : Card
  model : Option SurplusModel

inductive JobErr where
  | invalidState
  | fetch
deriving DecidableEq, Repr

/-- The window of the training, in days. -/
def TRAIN_WINDOW_DAYS : ℕ := 56

/-- `solar_forecast_run_daily_job`, begun at `now`. `fetched` is what the download has of the day,
and `trained` the instant at which the training reads the clock. -/
def runDailyJob (now : ℤ) (fetched : Option (List Estimate)) (trained : ℤ) (s : JobFiles) :
    Except JobErr JobFiles :=
  if !clockIsSet now then .error .invalidState
  else
    match fetched with
    | none => .error .fetch
    | some estimates =>
      let target := todayDate now
      let card := saveHourlySolar target estimates s.card
      let model := ((surplusModelTrain trained TRAIN_WINDOW_DAYS card).map (·.2)).or s.model
      -- the consumption is the fallback only, and its failure is not looked at
      let card := (consumptionForecastCompute target card).2
      .ok { card := (surplusForecastCompute (surplusModelPredict model card) target card).2, model }

/-! ## The days that the model has -/

section Usable

variable (now : ℤ) (c : Card)

/-- The day has a sample of some hour. -/
def contributes (d : ℕ) : Bool := (List.range HOURS).any fun h => (daySample now c h d).isSome

theorem foldl_addHour_usableDays (dow : ℕ) (solar grid : HourlyFile) (hours : List ℕ) (s : Sums) :
    (hours.foldl (Sums.addHour dow solar grid) s).usableDays = s.usableDays := by
  induction hours generalizing s with
  | nil => rfl
  | cons h hours ih =>
    rw [List.foldl_cons, ih, Sums.addHour]
    split <;> rfl

theorem addDay_usableDays (s : Sums) (d : ℕ) :
    (s.addDay now c d).usableDays = s.usableDays + if contributes now c d then 1 else 0 := by
  unfold Sums.addDay contributes daySample
  dsimp only
  cases c.gridHourly (strftimeDate (dayTm now d)) with
  | none => simp
  | some grid =>
    cases c.solarForecast (strftimeDate (dayTm now d)) with
    | none => simp
    | some solar =>
      have hany : ((List.range HOURS).any fun h =>
          (fileSample (wday (dayTm now d)) grid solar h).isSome) =
            (List.range HOURS).any (loadHourlyFile grid).present := by
        rw [Bool.eq_iff_iff, List.any_eq_true, List.any_eq_true]
        refine exists_congr fun h => and_congr_right fun hh => ?_
        rw [loadHourlyFile_present grid (List.mem_range.mp hh), fileSample]
        split <;> simp_all
      simp only [hany]
      unfold Sums.addFiles
      dsimp only
      split <;> simp [foldl_addHour_usableDays]

/-- The usable days are counted once. -/
theorem sums_usableDays (windowDays : ℕ) :
    (sums now windowDays c).usableDays =
      ((List.range windowDays).map (· + 1)).countP (contributes now c) := by
  have hrun : ∀ (days : List ℕ) (s : Sums), (days.foldl (Sums.addDay now c) s).usableDays =
      s.usableDays + days.countP (contributes now c) := by
    intro days
    induction days with
    | nil => exact fun _ => rfl
    | cons d days ih =>
      intro s
      rw [List.foldl_cons, ih, addDay_usableDays, List.countP_cons]
      omega
  exact (hrun _ {}).trans (Nat.zero_add _)

theorem usableDays_le (windowDays : ℕ) : (sums now windowDays c).usableDays ≤ windowDays := by
  rw [sums_usableDays]
  exact List.countP_le_length.trans (by simp)

/-- An hour has no more samples than there are usable days. -/
theorem length_samples_le (windowDays : ℕ) {h : ℕ} (hh : h < HOURS) :
    (samples now windowDays c h).length ≤ (sums now windowDays c).usableDays := by
  rw [sums_usableDays, samples, List.length_filterMap_eq_countP]
  refine List.countP_mono_left fun d _ hd => ?_
  exact List.any_eq_true.mpr ⟨h, List.mem_range.mpr hh, hd⟩

end Usable

/-! ## Samples on a line -/

section Line

variable {l : List Sample} {α β : ℚ}

theorem fittedSlope_line (hsloped : Sloped l) (hline : ∀ p ∈ l, p.y = α * p.x + β) :
    fittedSlope l = α := by
  have hsums : (l.map (·.y)).sum = α * (l.map (·.x)).sum + l.length * β ∧
      (l.map fun p => p.x * p.y).sum =
        α * (l.map fun p => p.x ^ 2).sum + β * (l.map (·.x)).sum := by
    clear hsloped
    induction l with
    | nil => simp
    | cons p l ih =>
      obtain ⟨hp, hl⟩ := List.forall_mem_cons.mp hline
      obtain ⟨hy, hxy⟩ := ih hl
      simp only [List.map_cons, List.sum_cons, List.length_cons, Nat.cast_add, Nat.cast_one, hy,
        hxy, hp]
      exact ⟨by ring, by ring⟩
  have hpoints : ((points l).map fun p => p.1 * p.2).sum = (l.map fun p => p.x * p.y).sum := by
    rw [points, List.map_map]
    rfl
  rw [fittedSlope, if_pos hsloped, length_points, fst_points, snd_points, hpoints, hsums.1, hsums.2,
    div_eq_iff hsloped.denom_pos.ne', denom]
  ring

/-- What a line leaves is its intercept. -/
theorem intercept_line (hl : l ≠ []) (hline : ∀ p ∈ l, p.y = α * p.x + β) :
    intercept l α = β := by
  have hconst : (l.map fun p => p.y - α * p.x) = List.replicate l.length β := by
    refine List.eq_replicate_iff.mpr ⟨List.length_map _, fun b hb => ?_⟩
    obtain ⟨p, hp, rfl⟩ := List.mem_map.mp hb
    rw [hline p hp]
    ring
  have hlength : (l.length : ℚ) ≠ 0 := Nat.cast_ne_zero.mpr (List.length_pos_iff.mpr hl).ne'
  rw [intercept, hconst, LeastSquares.mean, List.sum_replicate, List.length_replicate, nsmul_eq_mul,
    mul_div_cancel_left₀ β hlength]

theorem weekdayIntercept_line (hsloped : Sloped l) (hline : ∀ p ∈ l, p.y = α * p.x + β)
    (dow : ℕ) : weekdayIntercept l dow = β := by
  have hl : l ≠ [] := List.length_pos_iff.mp (lt_of_lt_of_le (by decide) hsloped.1)
  rw [weekdayIntercept, fittedSlope_line hsloped hline]
  split
  · exact intercept_line hl hline
  · rename_i hdow
    exact intercept_line hdow fun p hp => hline p (List.mem_of_mem_filter hp)

end Line

/-! ## What a job writes -/

section Job

variable {now trained : ℤ} {estimates : List Estimate} {s s' : JobFiles} {c : Card}

/-- The model of a training says of an hour what its samples say. -/
theorem surplusModelTrain_pred (now : ℤ) (c : Card) :
    ∃ m, surplusModelTrain now TRAIN_WINDOW_DAYS c =
        some ((sums now TRAIN_WINDOW_DAYS c).usableDays, m) ∧
      loadModel (some m) = some m ∧ m.usableDays = (sums now TRAIN_WINDOW_DAYS c).usableDays ∧
      ∀ h < HOURS, ∀ dow < DOWS, ∀ x, m.pred h dow x =
        fittedSlope (samples now TRAIN_WINDOW_DAYS c h) * x +
          weekdayIntercept (samples now TRAIN_WINDOW_DAYS c h) dow := by
  have hhours := Checked.mapM_eq_some (l := List.range HOURS)
    fun h hh => trainHour_eq now TRAIN_WINDOW_DAYS c (List.mem_range.mp hh)
  have hdays : (sums now TRAIN_WINDOW_DAYS c).usableDays < 2 ^ 16 :=
    (usableDays_le now c TRAIN_WINDOW_DAYS).trans_lt (by decide)
  rw [surplusModelTrain, hhours]
  refine ⟨_, rfl, rfl, Nat.mod_eq_of_lt hdays, fun h hh dow hdow x => ?_⟩
  rw [SurplusModel.pred, List.getElem?_map, List.getElem?_range hh, Option.map_some,
    Option.map_some, Option.getD_some, List.getD_eq_getElem?_getD, List.getElem?_map,
    List.getElem?_range hdow, Option.map_some, Option.getD_some]

theorem wday_standardMidnight {z : ℤ} (hz : Dated z) :
    wday (mktime (standardMidnight z)).2 = (weekday z).toNat := by
  have hday : utcMidnight z / secPerDay = z := Int.mul_ediv_cancel _ (by decide)
  have hlater : (utcMidnight z + 3600) / secPerDay = z := by
    unfold utcMidnight secPerDay
    omega
  have hclock : ∀ w isdst, wday (clockTm w isdst) = (weekday (w / secPerDay)).toNat := by
    intro w isdst
    have hdate : (⟨(clockTm w isdst).year + 1900, (clockTm w isdst).mon + 1,
        (clockTm w isdst).mday⟩ : Date) = toDate (w / secPerDay) := by
      simp [clockTm]
    rw [wday, hdate, ofDate_toDate]
  rw [mktime_eq (by rwa [clock_standardMidnight, hday]), hclock, clock_standardMidnight,
    show (standardMidnight z).isdst = 0 from rfl, settleDst_standardMidnight]
  split
  · rw [hlater]
  · rw [hday]

theorem consumptionForecastCompute_solar (date : DateStr) (c : Card) :
    (consumptionForecastCompute date c).2.solarForecast = c.solarForecast := by
  unfold consumptionForecastCompute
  cases targetTm date with
  | none => rfl
  | some target =>
    dsimp only
    split <;> rfl

theorem surplusForecastCompute_solar (predict : DateStr → Option (List PowerRecord))
    (date : DateStr) (c : Card) :
    (surplusForecastCompute predict date c).2.solarForecast = c.solarForecast := by
  unfold surplusForecastCompute
  cases predict date with
  | some recs => rfl
  | none =>
    dsimp only
    split <;> rfl

/-- The card once the day's solar forecast is stored. -/
def trainingCard (now : ℤ) (estimates : List Estimate) (s : JobFiles) : Card :=
  saveHourlySolar (todayDate now) estimates s.card

/-- The card once the consumption forecast is computed. -/
def forecastCard (now : ℤ) (estimates : List Estimate) (s : JobFiles) : Card :=
  (consumptionForecastCompute (todayDate now) (trainingCard now estimates s)).2

theorem runDailyJob_eq {usableDays : ℕ} {m : SurplusModel} (hclock : clockIsSet now = true)
    (htrain : surplusModelTrain trained TRAIN_WINDOW_DAYS (trainingCard now estimates s) =
      some (usableDays, m)) :
    runDailyJob now (some estimates) trained s = .ok
      { card :=
          (surplusForecastCompute (surplusModelPredict (some m) (forecastCard now estimates s))
            (todayDate now) (forecastCard now estimates s)).2
        model := some m } := by
  unfold trainingCard at htrain
  simp only [runDailyJob, hclock, Bool.not_true, Bool.false_eq_true, if_false, htrain]
  rfl

theorem forecastCard_solar (hdated : Dated (localDay now)) :
    (forecastCard now estimates s).solarForecast (todayDate now) =
      some (solarFile estimates (localDay now)) := by
  rw [forecastCard, consumptionForecastCompute_solar, trainingCard, todayDate,
    strftimeDate_localtime, saveHourlySolar_eq hdated]
  exact Function.update_self _ _ _

/-- The record that the model makes of an hour of the day `z`. -/
def predictedRecord (m : SurplusModel) (recs : List PowerRecord) (z : ℤ) (h : ℕ) : PowerRecord where
  unixMinute :=
    if (loadHourlyFile recs).present h then (loadHourlyFile recs).ts h
    else toUint32 ((mktime (standardMidnight z)).1 + h * 3600)
  powerMw := toInt32 (lround (m.pred h (weekday z).toNat ((loadHourlyFile recs).mw h)))

theorem surplusModelPredict_eq {m : SurplusModel} {recs : List PowerRecord} {z : ℤ}
    (hload : loadModel (some m) = some m) (hdays : SURPLUS_MODEL_MIN_DAYS ≤ m.usableDays)
    (hdated : Dated z) (hsolar : c.solarForecast (dateStr z) = some recs) :
    surplusModelPredict (some m) c (dateStr z) =
      some ((List.range HOURS).map (predictedRecord m recs z)) := by
  unfold predictedRecord
  rw [← wday_standardMidnight hdated, surplusModelPredict, hload]
  dsimp only
  rw [if_neg (not_lt.mpr hdays), hsolar, strptimeDate_dateStr hdated]
  rfl

/-- The surplus file of the day has so many milliwatts, rounded, at the place of an hour. -/
def Predicts (s : JobFiles) (now : ℤ) (h : ℕ) (mw : ℚ) : Prop :=
  ∃ recs rec, s.card.surplus (todayDate now) = some recs ∧ recs[h]? = some rec ∧
    rec.powerMw = toInt32 (lround mw)

/-- The solar power that the day's file has for a local hour. -/
def JobFiles.solarMw (s : JobFiles) (now : ℤ) (h : ℕ) : ℤ :=
  loadHourlyMw ((s.card.solarForecast (todayDate now)).getD []) h

/-- With days enough the surplus of an hour is what the samples of the hour say of its forecast. -/
theorem runDailyJob_predicts (hjob : runDailyJob now (some estimates) trained s = .ok s')
    (hdated : Dated (localDay now)) {h : ℕ} (hh : h < HOURS)
    (hdays : SURPLUS_MODEL_MIN_DAYS ≤
      (sums trained TRAIN_WINDOW_DAYS (trainingCard now estimates s)).usableDays) :
    Predicts s' now h
      (fittedSlope (samples trained TRAIN_WINDOW_DAYS (trainingCard now estimates s) h) *
          s'.solarMw now h +
        weekdayIntercept (samples trained TRAIN_WINDOW_DAYS (trainingCard now estimates s) h)
          (weekday (localDay now)).toNat) := by
  obtain ⟨m, htrain, hload, husable, hpred⟩ :=
    surplusModelTrain_pred trained (trainingCard now estimates s)
  have hclock : clockIsSet now = true := by
    cases hunset : clockIsSet now with
    | true => rfl
    | false => simp [runDailyJob, hunset] at hjob
  rw [runDailyJob_eq hclock htrain] at hjob
  obtain rfl := Except.ok.inj hjob
  have htoday : todayDate now = dateStr (localDay now) := strftimeDate_localtime now
  have hsolar : (forecastCard now estimates s).solarForecast (todayDate now) = _ :=
    forecastCard_solar hdated
  have hpredict := surplusModelPredict_eq hload (husable ▸ hdays) hdated (htoday ▸ hsolar)
  have hdow : (weekday (localDay now)).toNat < DOWS := by
    unfold weekday DOWS
    omega
  refine ⟨(List.range HOURS).map (predictedRecord m (solarFile estimates (localDay now))
    (localDay now)), _, ?_, by rw [List.getElem?_map, List.getElem?_range hh]; rfl, ?_⟩
  · rw [htoday, surplusForecastCompute, hpredict]
    exact Function.update_self _ _ _
  · rw [JobFiles.solarMw, surplusForecastCompute_solar, hsolar, Option.getD_some, predictedRecord,
      hpred h hh _ hdow, loadHourlyFile_mw _ hh]

/-- What the house has done in the last eight weeks is what the job says of the day. Where the
surplus of an hour was on a line over the forecast, with days enough and a forecast that varied, the
prediction is the value of that line at the forecast of the day. Where the forecast did not vary,
it is the mean surplus of the hour on the days of the same weekday. -/
theorem runDailyJob_learns (hjob : runDailyJob now (some estimates) trained s = .ok s')
    (hdated : Dated (localDay now)) {h : ℕ} (hh : h < HOURS) {l : List Sample}
    (hl : samples trained TRAIN_WINDOW_DAYS (trainingCard now estimates s) h = l)
    (hdays : MIN_SLOPE_DAYS ≤ l.length) :
    (∀ α β : ℚ, VAR_EPS_MW2 < LeastSquares.variance (l.map (·.x)) →
      (∀ p ∈ l, p.y = α * p.x + β) → Predicts s' now h (α * s'.solarMw now h + β)) ∧
    (LeastSquares.variance (l.map (·.x)) ≤ VAR_EPS_MW2 →
      onWeekday l (weekday (localDay now)).toNat ≠ [] →
      Predicts s' now h
        (LeastSquares.mean ((onWeekday l (weekday (localDay now)).toNat).map (·.y)))) := by
  subst hl
  have husable := hdays.trans (length_samples_le trained (trainingCard now estimates s)
    TRAIN_WINDOW_DAYS hh)
  have hpredicts := runDailyJob_predicts hjob hdated hh husable
  refine ⟨fun α β hvar hline => ?_, fun hvar hdow => ?_⟩
  · have hsloped : Sloped (samples trained TRAIN_WINDOW_DAYS (trainingCard now estimates s) h) :=
      ⟨hdays, hvar⟩
    rwa [fittedSlope_line hsloped hline, weekdayIntercept_line hsloped hline] at hpredicts
  · have hflat : fittedSlope (samples trained TRAIN_WINDOW_DAYS (trainingCard now estimates s) h) =
        0 := if_neg fun hsloped => absurd hsloped.2 (not_lt.mpr hvar)
    have hmean : ∀ l : List Sample, intercept l 0 = LeastSquares.mean (l.map (·.y)) := by
      intro l
      rw [intercept]
      simp only [zero_mul, sub_zero]
    rwa [weekdayIntercept, if_neg hdow, hflat, hmean, zero_mul, zero_add] at hpredicts

/-- Four days in May on which the house exported a half of the noon forecast less 200 watts. -/
def halfExported : Card where
  gridHourly date :=
    if date = "2025-05-05".toList then some [⟨1746442800, 200000⟩]
    else if date = "2025-05-06".toList then some [⟨1746529200, 100000⟩]
    else if date = "2025-05-07".toList then some [⟨1746615600, -300000⟩]
    else if date = "2025-05-08".toList then some [⟨1746702000, -800000⟩]
    else none
  solarForecast date :=
    if date = "2025-05-05".toList then some [⟨1746442800, 0⟩]
    else if date = "2025-05-06".toList then some [⟨1746529200, 200000⟩]
    else if date = "2025-05-07".toList then some [⟨1746615600, 1000000⟩]
    else if date = "2025-05-08".toList then some [⟨1746702000, 2000000⟩]
    else none

/-- On the next day 1500 watts are forecast for the hour of noon. -/
theorem runDailyJob_learns_noon : ∃ s', runDailyJob 1746761400
      (some [⟨some "11:30:00".toList, some 1500⟩]) 1746761400
      { card := halfExported, model := none } = .ok s' ∧
    s'.solarMw 1746761400 12 = 1500000 ∧
    Predicts s' 1746761400 12 ((1 / 2 : ℚ) * s'.solarMw 1746761400 12 + -200000) := by
  have hjob : runDailyJob 1746761400 (some [⟨some "11:30:00".toList, some 1500⟩]) 1746761400
      { card := halfExported, model := none } = .ok _ := rfl
  have hh : 12 < HOURS := by decide
  refine ⟨_, hjob, by decide +kernel, ?_⟩
  exact (runDailyJob_learns hjob (by decide +kernel) hh rfl (by decide +kernel)).1 (1 / 2) (-200000)
    (by decide +kernel) (by decide +kernel)

end Job

end HomeEnergyManager.Forecast
