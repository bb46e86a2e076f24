import Mathlib.Logic.Relation
import HomeEnergyManager.PowerLogger.Sampling

/-! # The making of day files, step by step

`day_cost` and `day_split` look for a file, compute it and store it, and hold no lock on the way.
The midnight job and the queries are jobs of such steps, between which other tasks get their turn. A
job that is left alone does to the card what its functions do.

Reference: `firmware/main/node_power_logger.cpp`.
-/

namespace HomeEnergyManager.DayFiles

open NodePowerLogger

/-! ## What is made -/

/-- What is computed in one go and stored in one go: the hourly files of the nodes, that of the
grid, a cost, or a split from its start ledger. -/
inductive Target where
  | nodeHourly (date : DateStr)
  | gridHourly (date : DateStr)
  | cost (date : DateStr)
  | split (date : DateStr) (start : BatteryLedger)

namespace Target

def date : Target → DateStr
  | nodeHourly date | gridHourly date | cost date | split date _ => date

/-- What is held between the computation and the store. -/
abbrev Value : Target → Type
  | nodeHourly _ => String → Option (List PowerRecord)
  | gridHourly _ => List PowerRecord
  | cost _ => DayCost
  | split _ _ => DaySplit

/-- The computation, with what the files have when it begins. -/
def compute (streams : List Stream) (c : Card) : (t : Target) → Option t.Value
  | nodeHourly date =>
    if sanitizeToken date then
      some fun id =>
        if 0 < id.utf8ByteSize ∧ id.utf8ByteSize < 40 then (c.node id date).map rollup else none
    else none
  | gridHourly date => (c.grid date).map rollup
  | cost date => computeDayCost c.toInputs date streams
  | split date start => computeDaySplit c.toInputs date streams start

def store : (t : Target) → t.Value → Card → Card
  | nodeHourly date, files, c =>
    { c with
      nodeHourly := fun id d =>
        if d = date then (files id).or (c.nodeHourly id d) else c.nodeHourly id d }
  | gridHourly date, recs, c =>
    { c with gridHourly := Function.update c.gridHourly date (some recs) }
  | cost date, dc, c => writeCostCache date dc c
  | split date _, ds, c => writeSplitCache date ds c

/-- A run of `compute_day_split` is noted in `starts`. -/
def note : Target → Card → Card
  | split date start, c => { c with starts := c.starts ++ [(date, start)] }
  | nodeHourly _, c | gridHourly _, c | cost _, c => c

end Target

/-! ## Jobs -/

/-- What a task has still to do to the card. -/
inductive Job where
  | done
  /-- Read a file; what comes next depends on it. -/
  | read (next : Card → Job)
  /-- Compute a file and store it, if it is to be `kept`. -/
  | make (t : Target) (kept : Bool) (next : Option t.Value → Job)

/-- Where a task stands: at a step of its job, or with a computed file that is to be stored. -/
inductive Progress where
  | running (job : Job)
  | storing (t : Target) (v : t.Value) (rest : Job)

/-- The next step of a task. -/
def Progress.step (streams : List Stream) : Progress → Card → Option (Progress × Card)
  | .running .done, _ => none
  | .running (.read next), c => some (.running (next c), c)
  | .running (.make t kept next), c =>
    match t.compute streams c with
    | some v =>
      some (if kept then .storing t v (next (some v)) else .running (next (some v)), t.note c)
    | none => some (.running (next none), t.note c)
  | .storing t v rest, c => some (.running rest, t.store v c)

section Functions

variable (len : TextLength)

/-- `day_cost`. -/
def dayCostJob (date : DateStr) (isToday allowCacheWrite : Bool) (next : Option DayCost → Job) :
    Job :=
  .read fun c =>
    match if isToday then none else readCostCache len c date with
    | some dc => next (some dc)
    | none => .make (.cost date) (!isToday && allowCacheWrite) next

/-- `day_split`. -/
def daySplitJob (date : DateStr) (isToday : Bool) (start : BatteryLedger)
    (next : Option DaySplit → Job) : Job :=
  .read fun c =>
    match if isToday then none else readSplitCache len c date with
    | some ds => next (some ds)
    | none => .make (.split date start) (!isToday) next

/-- `ledger_before`. -/
def ledgerBeforeJob : ℕ → DateStr → (BatteryLedger → Job) → Job
  | depth, date, next =>
    match localDayStart date with
    | none => next .unknown
    | some t =>
      .read fun c =>
        match readSplitCache len c (stepDate t (-1)) with
        | some ds => next ds.endLedger
        | none =>
          match depth with
          | 0 => next .unknown
          | depth + 1 =>
            .read fun c =>
              if (c.grid (stepDate t (-1))).isNone then next .unknown
              else
                ledgerBeforeJob depth (stepDate t (-1)) fun before =>
                  daySplitJob len (stepDate t (-1)) false before fun r =>
                    next (r.elim .unknown (·.endLedger))

/-- The ledger that a day of `node_power_logger_daily_energy_json` starts from. -/
def seededJob (date : DateStr) : Option BatteryLedger → (BatteryLedger → Job) → Job
  | some L, next => next L
  | none, next => ledgerBeforeJob len kLedgerDepth date next

/-- The loop of `node_power_logger_daily_energy_json`. -/
def dailyDaysJob (now : ℤ) : List ℤ → Option BatteryLedger → Job
  | [], _ => .done
  | back :: backs, ledger =>
    dayCostJob len (stepDate now (-back)) (back == 0) true fun _ =>
      seededJob len (stepDate now (-back)) ledger fun start =>
        daySplitJob len (stepDate now (-back)) (back == 0) start fun r =>
          dailyDaysJob now backs (some (r.elim .unknown (·.endLedger)))

/-- A query, without its answer. -/
def queryJob : Query → Job
  | .batterySource now =>
    ledgerBeforeJob len kLedgerDepth (dateStr (localDay now)) fun start =>
      .make (.split (dateStr (localDay now)) start) false fun _ => .done
  | .dailyEnergy now days => dailyDaysJob len now (backs days) none
  | .splitDayCached date =>
    ledgerBeforeJob len kLedgerDepth date fun start =>
      daySplitJob len date false start fun _ => .done
  | .mixTrace now date =>
    if (traceStart now date).isSome then
      ledgerBeforeJob len kLedgerDepth date fun start =>
        .make (.split date start) false fun _ => .done
    else .done

/-- `on_midnight_timer` from the rollups to the split. -/
def midnightJob (yesterday : DateStr) : Job :=
  .make (.nodeHourly yesterday) true fun _ =>
    .make (.gridHourly yesterday) true fun _ =>
      dayCostJob len yesterday false true fun _ => queryJob len (.splitDayCached yesterday)

end Functions

/-! ## A job that is left alone -/

/-- The card after the whole job, if no other task gets a turn. -/
def Job.run (streams : List Stream) : Job → Card → Card
  | done, c => c
  | read next, c => (next c).run streams c
  | make t kept next, c =>
    (next (t.compute streams c)).run streams
      ((t.compute streams c).elim (t.note c) fun v =>
        if kept then t.store v (t.note c) else t.note c)

section Alone

variable {streams : List Stream} {len : TextLength} {c : Card}

/-- Step by step a task comes to the end of its job, and to the card of `Job.run`. -/
theorem Job.reaches_run (streams : List Stream) (job : Job) (c : Card) :
    Relation.ReflTransGen (fun a b => a.1.step streams a.2 = some b) (.running job, c)
      (Progress.running .done, job.run streams c) := by
  induction job generalizing c with
  | done => exact .refl
  | read next ih => exact .head rfl (ih c c)
  | make t kept next ih =>
    rw [run]
    cases hv : t.compute streams c with
    | none =>
      have hmade : Progress.step streams (.running (.make t kept next)) c =
          some (.running (next none), t.note c) := by
        rw [Progress.step, hv]
      exact .head hmade (ih none _)
    | some v =>
      have hmade : Progress.step streams (.running (.make t kept next)) c =
          some (if kept then .storing t v (next (some v)) else .running (next (some v)),
            t.note c) := by
        rw [Progress.step, hv]
      refine .head hmade ?_
      cases kept with
      | false => exact ih (some v) _
      | true => exact .head rfl (ih (some v) _)

theorem run_dayCostJob (date : DateStr) (isToday allowCacheWrite : Bool)
    (next : Option DayCost → Job) :
    (dayCostJob len date isToday allowCacheWrite next).run streams c =
      (next (dayCost len date isToday streams allowCacheWrite c).1).run streams
        (dayCost len date isToday streams allowCacheWrite c).2 := by
  rw [dayCostJob, Job.run, dayCost]
  cases (if isToday then none else readCostCache len c date) with
  | some dc => rfl
  | none =>
    dsimp only
    rw [Job.run, Target.compute]
    cases computeDayCost c.toInputs date streams <;> rfl

theorem run_daySplitJob (date : DateStr) (isToday : Bool) (start : BatteryLedger)
    (next : Option DaySplit → Job) :
    (daySplitJob len date isToday start next).run streams c =
      (next (daySplit len date isToday streams start c).1).run streams
        (daySplit len date isToday streams start c).2 := by
  rw [daySplitJob, Job.run, daySplit]
  cases (if isToday then none else readSplitCache len c date) with
  | some ds => rfl
  | none =>
    dsimp only
    rw [Job.run, Target.compute, splitFrom]
    cases computeDaySplit c.toInputs date streams start <;> cases isToday <;> rfl

theorem run_ledgerBeforeJob (depth : ℕ) (date : DateStr) (next : BatteryLedger → Job) (c : Card) :
    (ledgerBeforeJob len depth date next).run streams c =
      (next (ledgerBefore len streams depth date c).1).run streams
        (ledgerBefore len streams depth date c).2 := by
  induction depth generalizing date next c with
  | zero =>
    unfold ledgerBeforeJob ledgerBefore
    cases localDayStart date with
    | none => rfl
    | some t =>
      dsimp only
      rw [Job.run]
      cases readSplitCache len c (stepDate t (-1)) <;> rfl
  | succ depth ih =>
    unfold ledgerBeforeJob ledgerBefore
    cases localDayStart date with
    | none => rfl
    | some t =>
      dsimp only
      rw [Job.run]
      cases readSplitCache len c (stepDate t (-1)) with
      | some ds => rfl
      | none =>
        dsimp only
        rw [Job.run]
        by_cases hgap : (c.grid (stepDate t (-1))).isNone = true
        · rw [if_pos hgap, if_pos hgap]
        · rw [if_neg hgap, if_neg hgap, ih, run_daySplitJob]

theorem run_seededJob (date : DateStr) (ledger : Option BatteryLedger) (next : BatteryLedger → Job)
    (c : Card) :
    (seededJob len date ledger next).run streams c =
      (next (seeded len streams date ledger c).1).run streams
        (seeded len streams date ledger c).2 := by
  cases ledger with
  | some L => rfl
  | none => exact run_ledgerBeforeJob _ _ _ _

theorem run_dailyDaysJob (now : ℤ) (l : List ℤ) (st : DailyState) :
    (dailyDaysJob len now l st.ledger).run streams st.card =
      (l.foldl (dailyDay len streams now) st).card := by
  induction l generalizing st with
  | nil => rfl
  | cons back l ih =>
    rw [dailyDaysJob, run_dayCostJob, run_seededJob, run_daySplitJob, List.foldl_cons]
    exact ih (dailyDay len streams now st back)

/-- A split that is not stored. -/
theorem run_liveSplit (date : DateStr) (start : BatteryLedger) (c : Card) :
    (Job.make (.split date start) false fun _ => .done).run streams c =
      (splitFrom date streams start c).2 := by
  rw [Job.run, Target.compute]
  cases computeDaySplit c.toInputs date streams start <;> rfl

/-- A query that is left alone. -/
theorem run_queryJob (q : Query) (c : Card) :
    (queryJob len q).run streams c = (q.run len streams c).2 := by
  cases q with
  | batterySource now => rw [queryJob, run_ledgerBeforeJob, run_liveSplit, Query.run]
  | dailyEnergy now days => exact run_dailyDaysJob now (backs days) { card := c }
  | splitDayCached date =>
    rw [queryJob, run_ledgerBeforeJob, run_daySplitJob]
    rfl
  | mixTrace now date =>
    rw [queryJob, Query.run]
    cases traceStart now date with
    | none => rfl
    | some dayStart => rw [Option.isSome_some, if_pos rfl, run_ledgerBeforeJob, run_liveSplit]

theorem run_nodeRollup (date : DateStr) (next : Job) (c : Card) :
    (Job.make (.nodeHourly date) true fun _ => next).run streams c =
      next.run streams (nodePowerLoggerRollupHourly date c) := by
  rw [Job.run, nodePowerLoggerRollupHourly, Target.compute]
  by_cases htoken : sanitizeToken date = true
  · rw [if_pos htoken, if_pos htoken]
    refine congrArg (next.run streams) (congrArg (fun f => { c with nodeHourly := f }) ?_)
    funext id d
    dsimp only
    by_cases hd : d = date
    · by_cases hid : 0 < id.utf8ByteSize ∧ id.utf8ByteSize < 40
      · rw [if_pos hd, if_pos hid, if_pos ⟨hd, hid⟩]
        rfl
      · rw [if_pos hd, if_neg hid, if_neg fun h => hid h.2]
        rfl
    · rw [if_neg hd, if_neg fun h => hd h.1]
      rfl
  · rw [if_neg htoken, if_neg htoken]
    rfl

theorem run_gridRollup (date : DateStr) (next : Job) (c : Card) :
    (Job.make (.gridHourly date) true fun _ => next).run streams c =
      next.run streams (powerLoggerRollupHourly date c) := by
  rw [Job.run, powerLoggerRollupHourly, Target.compute]
  cases c.grid date <;> rfl

/-- A midnight job that is left alone. -/
theorem run_midnightJob (date : DateStr) (c : Card) :
    (midnightJob len date).run streams c =
      splitDayCached len streams date (costDayCached len streams date true
        (powerLoggerRollupHourly date (nodePowerLoggerRollupHourly date c))) := by
  rw [midnightJob, run_nodeRollup, run_gridRollup, run_dayCostJob, run_queryJob]
  rfl

end Alone

end HomeEnergyManager.DayFiles
