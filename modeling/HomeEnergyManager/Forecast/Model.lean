import HomeEnergyManager.Lib.LastWrite
import HomeEnergyManager.PowerLogger.Files
import HomeEnergyManager.Time.LocalHours

/-! # The surplus forecast

Four steps of the daily job, each with a file of hourly records: the solar estimates of a day, its
consumption as the mean of days before it, the difference of the two, and the surplus that the
scheduler reads. Floating point is exact arithmetic over `ℚ`.

Reference: `firmware/main/solar_forecast.c`, `firmware/main/consumption_forecast.c`,
`firmware/main/surplus_forecast.c`, `firmware/main/scheduler.c`.
-/

namespace HomeEnergyManager.Forecast

open NodePowerLogger (PowerRecord)

def HOURS_PER_DAY : ℕ := 24

/-- The hourly files, by the date in their name. -/
structure Card where
  /-- `grid-hourly-<date>` -/
  gridHourly : DateStr → Option (List PowerRecord) := fun _ => none
  /-- `solar-forecast-<date>` -/
  solarForecast : DateStr → Option (List PowerRecord) := fun _ => none
  /-- `consumption-forecast-<date>` -/
  consumptionForecast : DateStr → Option (List PowerRecord) := fun _ => none
  /-- `surplus-<date>` -/
  surplus : DateStr → Option (List PowerRecord) := fun _ => none

/-- `esp_err_t`. -/
inductive EspErr where
  | ok
  | notFound
  | invalidArg
deriving DecidableEq, Repr

/-- `strptime` with `"%Y-%m-%d"` into a zeroed `struct tm`, for a text that names a day. -/
def strptimeDate (date : DateStr) : Option Tm :=
  (sscanfDate date).map fun c =>
    { sec := 0, min := 0, hour := 0, mday := c.day, mon := c.month - 1, year := c.year - 1900,
      isdst := 0 }

/-- The `time_t` of local midnight in the loops over the hours. -/
def midnightOf (tm : Tm) : ℤ := (mktime { tm with hour := 0, min := 0, sec := 0 }).1

/-! ## Sums by the hour -/

/-- `sum_mw` and `count`; the sum, of type `int64_t`, is an integer without bound here. -/
structure HourTotals where
  sumMw : ℤ → ℤ := fun _ => 0
  count : ℤ → ℕ := fun _ => 0

def HourTotals.add (totals : HourTotals) (p : ℤ × ℤ) : HourTotals :=
  { sumMw := Function.update totals.sumMw p.1 (totals.sumMw p.1 + p.2)
    count := Function.update totals.count p.1 (totals.count p.1 + 1) }

/-- The records of a day, one for each hour, with the means; the division of C truncates. -/
def HourTotals.records (totals : HourTotals) (midnight : ℤ) : List PowerRecord :=
  (List.range HOURS_PER_DAY).map fun (h : ℕ) =>
    { unixMinute := toUint32 (midnight + h * 3600)
      powerMw :=
        if 0 < totals.count h then toInt32 ((totals.sumMw h).tdiv (totals.count h)) else 0 }

/-! ## `save_hourly_solar` -/

/-- An entry of the estimates: `time` if it is a string, `watts` if it is a number. -/
structure Estimate where
  time : Option DateStr
  watts : Option ℚ
deriving DecidableEq, Repr

/-- The conversion of C to an integer. -/
def truncate (x : ℚ) : ℤ := x.num.tdiv x.den

/-- The hour and the power of an estimate. Where `sscanf` converts nothing the hour stays zero. -/
def Estimate.hourMw (est : Estimate) : Option (ℤ × ℤ) :=
  match est.time, est.watts with
  | some t, some w =>
    let h := ((scanInt t).map Prod.fst).getD 0
    if h < 0 ∨ 23 < h then none else some (h, truncate (w * 1000))
  | _, _ => none

/-- `struct tm` with all its fields zero. -/
def zeroTm : Tm := { sec := 0, min := 0, hour := 0, mday := 0, mon := 0, year := 0, isdst := 0 }

/-- `save_hourly_solar`; whether `strptime` could read the date is not checked. -/
def saveHourlySolar (date : DateStr) (estimates : List Estimate) (c : Card) : Card :=
  let midnight := midnightOf ((strptimeDate date).getD zeroTm)
  let totals := (estimates.filterMap (·.hourMw)).foldl HourTotals.add {}
  { c with
    solarForecast := Function.update c.solarForecast date (some (totals.records midnight)) }

/-! ## `consumption_forecast_compute` -/

def LOOKBACK_WEEKS : ℕ := 4

/-- How far back the cold start looks. -/
def RECENT_SCAN_DAYS : ℕ := 14

/-- It stops after this many days with data. -/
def RECENT_MAX_DAYS : ℕ := 7

/-- The local hour of a record. -/
def localHour (rec : PowerRecord) : ℤ := (localtime rec.unixMinute).hour

/-- `accumulate_day`, for a day that has a file. -/
def accumulateDay (totals : HourTotals) (recs : List PowerRecord) : HourTotals :=
  recs.foldl (fun totals rec => totals.add (localHour rec, rec.powerMw)) totals

/-- `prior_date`, so many days before the target. -/
def priorDate (target : Tm) (days : ℕ) : DateStr :=
  strftimeDate (mktime { target with mday := target.mday - days }).2

/-- The files of the days that are used: the same weekday of the last weeks, or else the most recent
days that have data. -/
def usedDays (gridHourly : DateStr → Option (List PowerRecord)) (target : Tm) :
    List (List PowerRecord) :=
  let weeks := (List.range LOOKBACK_WEEKS).filterMap fun i =>
    gridHourly (priorDate target ((i + 1) * 7))
  if weeks = [] then
    ((List.range RECENT_SCAN_DAYS).filterMap fun i =>
      gridHourly (priorDate target (i + 1))).take RECENT_MAX_DAYS
  else weeks

/-- `target_tm`, once `mktime` has normalised it. -/
def targetTm (date : DateStr) : Option Tm := (strptimeDate date).map fun tm => (mktime tm).2

/-- `consumption_forecast_compute`. -/
def consumptionForecastCompute (date : DateStr) (c : Card) : EspErr × Card :=
  match targetTm date with
  | none => (.invalidArg, c)
  | some target =>
    let days := usedDays c.gridHourly target
    -- a true cold start
    if days = [] then (.notFound, c)
    else
      let totals := days.foldl accumulateDay {}
      (.ok, { c with
        consumptionForecast :=
          Function.update c.consumptionForecast date (some (totals.records (midnightOf target))) })

/-! ## `surplus_forecast_compute` -/

/-- `mw` of `load_hourly`: by the local hour of the records, the last one winning. -/
def loadHourlyMw (recs : List PowerRecord) (h : ℕ) : ℤ :=
  LastWrite.cell (fun rec => localHour rec = h) (·.powerMw) recs 0

/-- `ts` of `load_hourly`. -/
def loadHourlyTs (recs : List PowerRecord) (h : ℕ) : ℕ :=
  LastWrite.cell (fun rec => localHour rec = h) (·.unixMinute) recs 0

/-- `surplus_from_subtraction`; the records that are written of `out_mw` and `out_ts`. -/
def surplusFromSubtraction (date : DateStr) (c : Card) : Except EspErr (List PowerRecord) :=
  match c.solarForecast date, c.consumptionForecast date with
  | some solar, some con =>
    match strptimeDate date with
    | none => .error .invalidArg
    | some tm => .ok ((List.range HOURS_PER_DAY).map fun (h : ℕ) =>
        { unixMinute :=
            if loadHourlyTs solar h ≠ 0 then loadHourlyTs solar h
            -- no solar record was read back into the hour
            else toUint32 (midnightOf tm + h * 3600)
          powerMw := toInt32 (loadHourlyMw solar h - loadHourlyMw con h) })
  | _, _ => .error .notFound

/-- `surplus_forecast_compute`. `predict` is `surplus_model_predict`, `none` while it has no model.
-/
def surplusForecastCompute (predict : DateStr → Option (List PowerRecord)) (date : DateStr)
    (c : Card) : EspErr × Card :=
  match predict date with
  | some recs => (.ok, { c with surplus := Function.update c.surplus date (some recs) })
  | none =>
    match surplusFromSubtraction date c with
    | .error err => (err, c)
    | .ok recs => (.ok, { c with surplus := Function.update c.surplus date (some recs) })

/-! ## `load_surplus` -/

def SCHED_HOURS : ℕ := 24

/-- `load_surplus`: the watts by the place in the file. -/
def loadSurplus (c : Card) (date : DateStr) : Option (ℕ → ℚ) :=
  (c.surplus date).bind fun recs =>
    if recs.take SCHED_HOURS = [] then none
    else some fun n =>
      (((recs.take SCHED_HOURS)[n]?).map fun rec => (rec.powerMw : ℚ) / 1000).getD 0

/-- The steps of the daily job in their order, without a model. -/
def dailyForecast (date : DateStr) (estimates : List Estimate) (c : Card) : Card :=
  (surplusForecastCompute (fun _ => none) date
    (consumptionForecastCompute date (saveHourlySolar date estimates c)).2).2

end HomeEnergyManager.Forecast
