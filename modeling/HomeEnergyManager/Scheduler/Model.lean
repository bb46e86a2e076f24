import Mathlib.Algebra.Field.Rat
import HomeEnergyManager.Lib.ExchangeSort
import HomeEnergyManager.Lib.FirstMax
import HomeEnergyManager.PowerLogger.Files

/-! # The schedule of the appliances

`scheduler_compute` slides the learned run of each appliance over the surplus of a day, the largest
energy first, and takes what a run uses off the surplus that the next ones find.

A `float` is the rational number that it stands for, and `fl` is what rounds the result of an
operation to one. Arithmetic is exact where `fl` is `id`.

Reference: `firmware/main/scheduler.c`, `firmware/main/scheduler.h`.
-/

namespace HomeEnergyManager.Scheduler

open NodePowerLogger (PowerRecord)

def SCHED_HOURS : ℕ := 24

def SCHEDULER_MAX_RUNS : ℕ := 16

/-- `appliance_profile_t`, as far as it is read. -/
structure Profile where
  programCount : ℕ
  avgProgramPowerMw : ℤ
  avgProgramLenMin : ℕ
deriving DecidableEq, Repr

/-- An appliance as `appliance_enumerate` lists it, with what is stored about it. -/
structure Appliance where
  id : String
  name : String
  excluded : Bool := false
  profile : Option Profile := none
deriving DecidableEq, Repr

/-- `scheduled_run_t`. -/
structure ScheduledRun where
  graphId : String
  name : String
  startHour : ℤ := -1
  durationHours : ℕ := 0
  avgPowerW : ℚ := 0
  energyWh : ℚ := 0
  selfConsumptionWh : ℚ := 0
deriving DecidableEq, Repr, Inhabited

/-- `sanitize_date`. -/
def sanitizeDate (tok : DateStr) : Bool :=
  decide (0 < tok.length) && decide (tok.length ≤ 15) && tok.all fun c => c.isDigit || c == '-'

/-- `mw / 1000.0f`. -/
def wattsOf (fl : ℚ → ℚ) (mw : ℤ) : ℚ := fl (fl mw / 1000)

/-- `load_surplus`: the surplus of each hour in watts, 0 past the end of the file; `none` if the
file is missing or empty. -/
def loadSurplus (fl : ℚ → ℚ) (file : Option (List PowerRecord)) : Option (ℕ → ℚ) :=
  match file with
  | none | some [] => none
  | some recs => some fun h =>
    (((recs.take SCHED_HOURS).map fun rec => wattsOf fl rec.powerMw)[h]?).getD 0

/-- `dur`: the learned length in hours, rounded up in 32 bits and kept within a day. -/
def durationOf (lenMin : ℕ) : ℕ :=
  let dur := (lenMin + 59) % 2 ^ 32 / 60
  let dur := if dur < 1 then 1 else dur
  if SCHED_HOURS < dur then SCHED_HOURS else dur

/-- The run of an appliance before any placement. -/
def runOf (fl : ℚ → ℚ) (a : Appliance) : ScheduledRun :=
  match a.profile with
  | none => { graphId := a.id, name := a.name }
  | some prof =>
    if 0 < prof.programCount ∧ 0 < prof.avgProgramPowerMw then
      { graphId := a.id
        name := a.name
        durationHours := durationOf prof.avgProgramLenMin
        avgPowerW := wattsOf fl prof.avgProgramPowerMw
        energyWh := fl (wattsOf fl prof.avgProgramPowerMw * durationOf prof.avgProgramLenMin) }
    else { graphId := a.id, name := a.name }

/-- The first loop: the runs of the appliances that are not excluded. -/
def runsOf (fl : ℚ → ℚ) (appliances : List Appliance) (max : ℕ) : List ScheduledRun :=
  ((appliances.filter (!·.excluded)).take max).map (runOf fl)

/-- `idx`, sorted: the positions of the runs with a profile, the largest energy first. -/
def placementOrder (out : List ScheduledRun) : List ℕ :=
  ExchangeSort.sort
    (fun i j => decide ((out.getD j default).energyWh < (out.getD i default).energyWh))
    ((List.range out.length).filter fun i => 0 < (out.getD i default).durationHours)

/-- `use`: what a run uses in an hour. -/
def useOf (power available : ℚ) : ℚ := if power < available then power else available

/-- `score` for a start. -/
def scoreAt (fl : ℚ → ℚ) (r : ScheduledRun) (remaining : ℕ → ℚ) (s : ℕ) : ℚ :=
  (List.range r.durationHours).foldl
    (fun score i => fl (score + useOf r.avgPowerW (remaining (s + i)))) 0

/-- `best_s` and `best_score`. -/
def bestStart (fl : ℚ → ℚ) (r : ScheduledRun) (remaining : ℕ → ℚ) : ℤ × ℚ :=
  (List.range (SCHED_HOURS + 1 - r.durationHours)).foldl
    (fun best s =>
      if best.2 < scoreAt fl r remaining s then ((s : ℤ), scoreAt fl r remaining s) else best)
    (-1, 0)

/-- What a run from `s` leaves of the surplus. -/
def takeFrom (fl : ℚ → ℚ) (r : ScheduledRun) (s : ℤ) (remaining : ℕ → ℚ) (h : ℕ) : ℚ :=
  if s ≤ h ∧ (h : ℤ) < s + r.durationHours then
    fl (remaining h - useOf r.avgPowerW (remaining h))
  else remaining h

/-- One pass of the placement loop. -/
def place (fl : ℚ → ℚ) (st : List ScheduledRun × (ℕ → ℚ)) (i : ℕ) :
    List ScheduledRun × (ℕ → ℚ) :=
  let r := st.1.getD i default
  let best := bestStart fl r st.2
  if 0 ≤ best.1 then
    (st.1.set i { r with startHour := best.1, selfConsumptionWh := best.2 },
      takeFrom fl r best.1 st.2)
  else st

/-- `remaining` at the start: only a positive surplus is there to be used. -/
def available (surplus : ℕ → ℚ) (h : ℕ) : ℚ := if 0 < surplus h then surplus h else 0

/-- The runs after the placement loop. -/
def placedRuns (fl : ℚ → ℚ) (surplus : ℕ → ℚ) (out : List ScheduledRun) : List ScheduledRun :=
  ((placementOrder out).foldl (place fl) (out, available surplus)).1

/-- The key of the last sort: runs without a window go to the end. -/
def ScheduledRun.key (r : ScheduledRun) : ℤ := if 0 ≤ r.startHour then r.startHour else SCHED_HOURS

def lastSort (placed : List ScheduledRun) : List ScheduledRun :=
  ExchangeSort.sort (fun a b => decide (a.key < b.key)) placed

/-- `scheduler_compute`; `none` stands for -1. -/
def schedulerCompute (fl : ℚ → ℚ) (date : DateStr) (file : Option (List PowerRecord))
    (appliances : List Appliance) (max : ℕ) : Option (List ScheduledRun) :=
  if sanitizeDate date then
    (loadSurplus fl file).map fun surplus =>
      lastSort (placedRuns fl surplus (runsOf fl appliances max))
  else none

end HomeEnergyManager.Scheduler
