import HomeEnergyManager.Forecast.Model
import HomeEnergyManager.Lib.Checked

/-! # The surplus model

A slope for each hour of the day and an intercept for each hour and weekday, from the days of the
window that have both a solar forecast and the grid's hourly file. A division fails on a zero
divisor. Floating point is exact arithmetic over `ℚ`.

Reference: `firmware/main/surplus_model.c`.
-/

namespace HomeEnergyManager.Forecast

open Civil
open NodePowerLogger (PowerRecord)

def SURPLUS_MODEL_MAGIC : ℕ := 0x53524d31
def SURPLUS_MODEL_VERSION : ℕ := 1

def HOURS : ℕ := 24
def DOWS : ℕ := 7

/-- Days at an hour needed to fit a slope. -/
def MIN_SLOPE_DAYS : ℕ := 4

/-- Below this the solar power is taken for constant. -/
def VAR_EPS_MW2 : ℚ := 10 ^ 8

/-! ## `load_hourly_file` -/

structure HourlyFile where
  mw : ℕ → ℤ := fun _ => 0
  ts : ℕ → ℕ := fun _ => 0
  present : ℕ → Bool := fun _ => false

/-- A record of the local hour `h`. -/
def HourlyFile.put (file : HourlyFile) (h : ℤ) (rec : PowerRecord) : HourlyFile :=
  if h < 0 ∨ HOURS ≤ h then file
  else
    { mw := Function.update file.mw h.toNat rec.powerMw
      ts := Function.update file.ts h.toNat rec.unixMinute
      present := Function.update file.present h.toNat true }

def loadHourlyFile (recs : List PowerRecord) : HourlyFile :=
  recs.foldl (fun file rec => file.put (localHour rec) rec) {}

/-! ## The sums of `surplus_model_train` -/

/-- `n`, `sx`, `sy`, `sxx` and `sxy` of an hour. -/
structure HourSums where
  n : ℕ := 0
  sx : ℚ := 0
  sy : ℚ := 0
  sxx : ℚ := 0
  sxy : ℚ := 0

def HourSums.add (s : HourSums) (x y : ℚ) : HourSums where
  n := s.n + 1
  sx := s.sx + x
  sy := s.sy + y
  sxx := s.sxx + x * x
  sxy := s.sxy + x * y

/-- `bcnt`, `bsx` and `bsy` of an hour and a weekday. -/
structure BucketSums where
  bcnt : ℕ := 0
  bsx : ℚ := 0
  bsy : ℚ := 0

def BucketSums.add (s : BucketSums) (x y : ℚ) : BucketSums where
  bcnt := s.bcnt + 1
  bsx := s.bsx + x
  bsy := s.bsy + y

structure Sums where
  hour : ℕ → HourSums := fun _ => {}
  bucket : ℕ → ℕ → BucketSums := fun _ _ => {}
  usableDays : ℕ := 0

/-- `day_tm`, so many days ago. -/
def dayTm (now : ℤ) (d : ℕ) : Tm :=
  let tm := localtime now
  (mktime { tm with mday := tm.mday - d, hour := 12, min := 0, sec := 0 }).2

/-- `tm_wday`. -/
def wday (tm : Tm) : ℕ :=
  (weekday (ofDate { year := tm.year + 1900, month := tm.mon + 1, day := tm.mday })).toNat

/-- The loop over the hours of a day. -/
def Sums.addHour (dow : ℕ) (solar grid : HourlyFile) (s : Sums) (h : ℕ) : Sums :=
  if !grid.present h then s
  else
    -- 0 if there is no forecast record
    let x : ℚ := solar.mw h
    let y : ℚ := -grid.mw h
    { s with
      hour := Function.update s.hour h ((s.hour h).add x y)
      bucket := Function.update s.bucket h
        (Function.update (s.bucket h) dow ((s.bucket h dow).add x y)) }

/-- A day that has both files. -/
def Sums.addFiles (dow : ℕ) (gridRecs solarRecs : List PowerRecord) (s : Sums) : Sums :=
  let grid := loadHourlyFile gridRecs
  let s := (List.range HOURS).foldl (addHour dow (loadHourlyFile solarRecs) grid) s
  if (List.range HOURS).any grid.present then { s with usableDays := s.usableDays + 1 } else s

/-- The loop over the days. A day without both files is skipped. -/
def Sums.addDay (now : ℤ) (c : Card) (s : Sums) (d : ℕ) : Sums :=
  let date := strftimeDate (dayTm now d)
  match c.gridHourly date, c.solarForecast date with
  | some gridRecs, some solarRecs => s.addFiles (wday (dayTm now d)) gridRecs solarRecs
  | _, _ => s

def sums (now : ℤ) (windowDays : ℕ) (c : Card) : Sums :=
  ((List.range windowDays).map (· + 1)).foldl (Sums.addDay now c) {}

/-! ## `surplus_model_train` -/

/-- The slope of an hour. -/
def HourSums.slope (s : HourSums) : Option ℚ :=
  if MIN_SLOPE_DAYS ≤ s.n then do
    let meanX ← Checked.div s.sx s.n
    let meanXx ← Checked.div s.sxx s.n
    let varX := meanXx - meanX * meanX
    if VAR_EPS_MW2 < varX then
      let denom := s.n * s.sxx - s.sx * s.sx
      Checked.div (s.n * s.sxy - s.sx * s.sy) denom
    else some 0
  else some 0

/-- `c`, for the weekdays without a sample. -/
def HourSums.intercept (s : HourSums) (slope : ℚ) : Option ℚ :=
  if 0 < s.n then Checked.div (s.sy - slope * s.sx) s.n else some 0

def BucketSums.intercept (s : BucketSums) (slope c : ℚ) : Option ℚ :=
  if 0 < s.bcnt then Checked.div (s.bsy - slope * s.bsx) s.bcnt else some c

/-- What the model has for an hour. -/
structure HourModel where
  a : ℚ
  b : List ℚ
  n : List ℕ

/-- `surplus_model_t`. -/
structure SurplusModel where
  magic : ℕ
  version : ℕ
  usableDays : ℕ
  trainedUnix : ℕ
  hours : List HourModel

def trainHour (s : Sums) (h : ℕ) : Option HourModel := do
  let slope ← (s.hour h).slope
  let c ← (s.hour h).intercept slope
  let b ← (List.range DOWS).mapM fun dow => (s.bucket h dow).intercept slope c
  return {
    a := slope
    b := b
    n := (List.range DOWS).map fun dow => (s.bucket h dow).bcnt % 2 ^ 16 }

/-- The usable days, and the model that is written to the card. -/
def surplusModelTrain (now : ℤ) (windowDays : ℕ) (c : Card) : Option (ℕ × SurplusModel) := do
  let s := sums now windowDays c
  let hours ← (List.range HOURS).mapM (trainHour s)
  return (s.usableDays, {
    magic := SURPLUS_MODEL_MAGIC
    version := SURPLUS_MODEL_VERSION
    usableDays := s.usableDays % 2 ^ 16
    trainedUnix := toUint32 now
    hours := hours })

end HomeEnergyManager.Forecast
