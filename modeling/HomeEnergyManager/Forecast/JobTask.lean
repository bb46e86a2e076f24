import HomeEnergyManager.Lib.StepSystem
import HomeEnergyManager.Forecast.DailySchedule

/-! # The forecast worker

The daily job runs on a task of its own, which waits for two notification bits: the timer sets one,
the start of the firmware and the first time synchronisation the other. The worker clears both at
once and looks at the second only where the first is not set. The timer is armed again by the
worker, when the job is done. The events are those of the main task, the SNTP callback, the timer,
the worker and the web server, whose handlers run the job on their own task.

Reference: `firmware/main/solar_forecast.c`, `firmware/main/main.cpp`.
-/

namespace HomeEnergyManager.Forecast.JobTask

open StepSystem HomeEnergyManager.DayFiles

/-- `clock_is_set`. -/
def clockIsSet (now : ℤ) : Bool := 1700000000 < now

/-- How far `solar_forecast_start_daily_job` has come. -/
inductive Start where
  | notCalled
  /-- The timer and the task exist. -/
  | created
  | notified
  | done
deriving DecidableEq, Repr

/-- How far the first time synchronisation has come. -/
inductive Sntp where
  | none
  /-- The clock is set. -/
  | set
  /-- `time_sync_cb` has returned. -/
  | called
deriving DecidableEq, Repr

/-- Where `job_task` is. `daily` tells the branch that is taken. -/
inductive Worker where
  /-- In `xTaskNotifyWait`. -/
  | waiting
  /-- At the start of `run_catch_up`. -/
  | catchUp
  /-- At the start of `solar_forecast_run_daily_job`. -/
  | start (daily : Bool)
  /-- In it, with its target and the instant at which it took it. -/
  | job (daily : Bool) (target : DateStr) (began : ℤ)
  /-- Before `schedule_next_daily_job`; the instant at which the job took its target, if it did. -/
  | rearm (began : Option ℤ)
deriving DecidableEq, Repr

/-- In the branch that arms the timer again. -/
def Worker.daily : Worker → Bool
  | .start daily => daily
  | .job daily _ _ => daily
  | .rearm _ => true
  | _ => false

/-- Before the worker looks at the clock. -/
def Worker.fresh : Worker → Bool
  | .catchUp => true
  | .start _ => true
  | _ => false

structure State where
  /-- `time(NULL)`. -/
  clock : ℤ
  start : Start := .notCalled
  sntp : Sntp := .none
  /-- When `s_daily_timer` is due by the clock, while it is armed. -/
  timer : Option ℤ := none
  /-- `JOB_BIT_DAILY` -/
  daily : Bool := false
  /-- `JOB_BIT_CATCHUP` -/
  catchUp : Bool := false
  worker : Worker := .waiting
  /-- The dates of the surplus files on the card. -/
  surplus : List DateStr
  /-- The worker has looked after a day's forecast with the clock set. -/
  served : Bool := false
  /-- The instant at which the timer was armed first since the clock was last set, and the firings
  since then. -/
  chain : Option (ℤ × List Firing) := none

inductive Event where
  | pass (seconds : ℕ)
  /-- SNTP sets the clock, the first time and later on. -/
  | setClock (t : ℤ)
  | timeSynced
  /-- A statement of `solar_forecast_start_daily_job`. -/
  | main
  | timer
  | worker
  /-- The job returns; whether the surplus file has been written. -/
  | finish (written : Bool)
  /-- A handler of the web server has written a surplus file. -/
  | handler (date : DateStr)

/-- `schedule_next_daily_job`, after a job of the daily branch that began at `began`. -/
def State.arm (s : State) (began : Option ℤ) : State :=
  { s with
    timer := some (jobDueAfter s.clock)
    chain :=
      match s.chain, began with
      | some (armed, firings), some fired => some (armed, firings ++ [{ fired, armed := s.clock }])
      | _, _ => some (s.clock, []) }

/-- The end of the job in a branch. -/
def State.finish (s : State) (daily : Bool) (began : Option ℤ) : State :=
  { s with worker := if daily then .rearm began else .waiting }

/-- A statement of `job_task`, `run_catch_up` and the beginning of the job. -/
def stepWorker (s : State) : Option State :=
  match s.worker with
  | .waiting =>
    if s.daily then some { s with daily := false, catchUp := false, worker := .start true }
    else if s.catchUp then some { s with catchUp := false, worker := .catchUp }
    else none
  | .catchUp =>
    if !clockIsSet s.clock then some { s with worker := .waiting }
    else if todayDate s.clock ∈ s.surplus then some { s with worker := .waiting, served := true }
    else some { s with worker := .start false }
  | .start daily =>
    if !clockIsSet s.clock then some (s.finish daily none)
    else some { s with worker := .job daily (todayDate s.clock) s.clock, served := true }
  | .job .. => none
  | .rearm began => some { s.arm began with worker := .waiting }

def step (s : State) : Event → Option State
  | .pass seconds => some { s with clock := s.clock + seconds }
  | .setClock t =>
    -- SNTP has a real time; the timer runs on the time since boot
    if clockIsSet t then
      some { s with
        clock := t
        timer := s.timer.map (· + (t - s.clock))
        sntp := if s.sntp = .none then .set else s.sntp
        chain := none }
    else none
  | .timeSynced =>
    match s.sntp with
    | .none => none
    | .set => some { s with
        sntp := .called
        catchUp := s.catchUp || s.start ≠ .notCalled }
    -- not the first synchronisation
    | .called => some s
  | .main =>
    match s.start with
    | .notCalled => some { s with start := .created }
    | .created => some { s with start := .notified, catchUp := true }
    | .notified => some { s.arm none with start := .done }
    | .done => none
  | .timer =>
    match s.timer with
    | some due => if due ≤ s.clock then some { s with timer := none, daily := true } else none
    | none => none
  | .worker => stepWorker s
  | .finish written =>
    match s.worker with
    | .job daily target began =>
      some { s.finish daily (some began) with
        surplus := if written then target :: s.surplus else s.surplus }
    | _ => none
  | .handler date => some { s with surplus := date :: s.surplus }

/-- Before `solar_forecast_start_daily_job`, with a card and a clock as they come. -/
def State.boot (clock : ℤ) (surplus : List DateStr) : State := { clock, surplus }

/-! ## What a step can do -/

/-- One case for each branch. -/
inductive Branch (s : State) : State → Prop
  | pass (seconds : ℕ) : Branch s { s with clock := s.clock + seconds }
  | setClock (t : ℤ) (ht : clockIsSet t = true) (sntp : Sntp)
      (hsntp : sntp = .called → s.sntp = .called) : Branch s { s with
      clock := t
      timer := s.timer.map (· + (t - s.clock))
      sntp := sntp
      chain := none }
  | synced (h : s.sntp = .set) : Branch s { s with
      sntp := .called
      catchUp := s.catchUp || s.start ≠ .notCalled }
  | same (h : s.sntp = .called) : Branch s s
  | create (h : s.start = .notCalled) : Branch s { s with start := .created }
  | notify (h : s.start = .created) : Branch s { s with start := .notified, catchUp := true }
  | arm (h : s.start = .notified) : Branch s { s.arm none with start := .done }
  | timer (due : ℤ) (h : s.timer = some due) (hdue : due ≤ s.clock) :
      Branch s { s with timer := none, daily := true }
  | takeDaily (h : s.worker = .waiting) (hbit : s.daily = true) :
      Branch s { s with daily := false, catchUp := false, worker := .start true }
  | takeCatchUp (h : s.worker = .waiting) (hnot : s.daily = false) (hbit : s.catchUp = true) :
      Branch s { s with catchUp := false, worker := .catchUp }
  | unset (h : s.worker = .catchUp) (hclock : clockIsSet s.clock = false) :
      Branch s { s with worker := .waiting }
  | present (h : s.worker = .catchUp) (hclock : clockIsSet s.clock = true) :
      Branch s { s with worker := .waiting, served := true }
  | missing (h : s.worker = .catchUp) : Branch s { s with worker := .start false }
  | skip (daily : Bool) (h : s.worker = .start daily) (hclock : clockIsSet s.clock = false) :
      Branch s (s.finish daily none)
  | begin (daily : Bool) (h : s.worker = .start daily) :
      Branch s { s with worker := .job daily (todayDate s.clock) s.clock, served := true }
  | rearm (began : Option ℤ) (h : s.worker = .rearm began) :
      Branch s { s.arm began with worker := .waiting }
  | finish (daily : Bool) (target : DateStr) (began : ℤ) (h : s.worker = .job daily target began)
      (surplus : List DateStr) : Branch s { s.finish daily (some began) with surplus := surplus }
  | handler (date : DateStr) : Branch s { s with surplus := date :: s.surplus }

theorem stepWorker_branch {s s' : State} (h : stepWorker s = some s') : Branch s s' := by
  unfold stepWorker at h
  cases hworker : s.worker with
  | waiting =>
    simp only [hworker] at h
    split_ifs at h with hdaily hcatchUp
    · exact Option.some.inj h ▸ .takeDaily hworker hdaily
    · exact Option.some.inj h ▸ .takeCatchUp hworker (Bool.eq_false_of_not_eq_true hdaily) hcatchUp
  | catchUp =>
    simp only [hworker] at h
    split_ifs at h with hclock hpresent
    · exact Option.some.inj h ▸ .unset hworker (by simpa using hclock)
    · exact Option.some.inj h ▸ .present hworker (by simpa using hclock)
    · exact Option.some.inj h ▸ .missing hworker
  | start daily =>
    simp only [hworker] at h
    split_ifs at h with hclock
    · exact Option.some.inj h ▸ .skip daily hworker (by simpa using hclock)
    · exact Option.some.inj h ▸ .begin daily hworker
  | job daily target began => simp [hworker] at h
  | rearm began =>
    simp only [hworker] at h
    exact Option.some.inj h ▸ .rearm began hworker

theorem step_branch {s s' : State} {e : Event} (h : step s e = some s') : Branch s s' := by
  cases e with
  | pass seconds => exact Option.some.inj h ▸ .pass seconds
  | setClock t =>
    simp only [step] at h
    split_ifs at h with ht hnone
    · exact Option.some.inj h ▸ .setClock t ht .set nofun
    · exact Option.some.inj h ▸ .setClock t ht s.sntp id
  | timeSynced =>
    cases hsntp : s.sntp with
    | none => simp [step, hsntp] at h
    | set =>
      simp only [step, hsntp] at h
      exact Option.some.inj h ▸ .synced hsntp
    | called =>
      simp only [step, hsntp] at h
      exact Option.some.inj h ▸ .same hsntp
  | main =>
    cases hstart : s.start with
    | notCalled =>
      simp only [step, hstart] at h
      exact Option.some.inj h ▸ .create hstart
    | created =>
      simp only [step, hstart] at h
      exact Option.some.inj h ▸ .notify hstart
    | notified =>
      simp only [step, hstart] at h
      exact Option.some.inj h ▸ .arm hstart
    | done => simp [step, hstart] at h
  | timer =>
    cases htimer : s.timer with
    | none => simp [step, htimer] at h
    | some due =>
      simp only [step, htimer] at h
      split_ifs at h with hdue
      exact Option.some.inj h ▸ .timer due htimer hdue
  | worker => exact stepWorker_branch h
  | finish written =>
    cases hworker : s.worker with
    | job daily target began =>
      simp only [step, hworker] at h
      exact Option.some.inj h ▸ .finish daily target began hworker _
    | _ => simp [step, hworker] at h
  | handler date => exact Option.some.inj h ▸ .handler date

/-! ## Runs of the daily branch -/

/-- The machine's part of being on time: no job begins before the timer is due. -/
def Ordered (s : JobTimer) : List Firing → Prop
  | [] => True
  | f :: firings => (s.due ≤ f.fired ∧ f.fired ≤ f.armed) ∧ Ordered (s.fire f) firings

/-- The rest of it: each job begins and ends on the day on which the timer was due. -/
def Prompt (s : JobTimer) : List Firing → Prop
  | [] => True
  | f :: firings =>
    (localDay f.fired = localDay s.due ∧ localDay f.armed = localDay f.fired ∧ Shown f.fired) ∧
      Prompt (s.fire f) firings

theorem jobsOnTime_iff {s : JobTimer} {firings : List Firing} :
    JobsOnTime s firings ↔ Ordered s firings ∧ Prompt s firings := by
  induction firings generalizing s with
  | nil => simp [JobsOnTime, Ordered, Prompt]
  | cons f firings ih =>
    rw [JobsOnTime, Ordered, Prompt, ih]
    tauto

theorem ordered_append {s : JobTimer} {firings : List Firing} {f : Firing}
    (h : Ordered s firings) (hdue : (s.run firings).due ≤ f.fired) (hle : f.fired ≤ f.armed) :
    Ordered s (firings ++ [f]) := by
  induction firings generalizing s with
  | nil => exact ⟨⟨hdue, hle⟩, trivial⟩
  | cons g firings ih => exact ⟨h.1, ih h.2 hdue⟩

theorem run_append (s : JobTimer) (firings : List Firing) (f : Firing) :
    s.run (firings ++ [f]) = (s.run firings).fire f := List.foldl_concat ..

/-! ## What holds in every state -/

/-- Once the timer has been started, it is armed, or its bit is set, or the worker is in the branch
that arms it again: never two of the three, and never none. -/
def State.Once (s : State) : Prop :=
  s.timer.isSome.toNat + s.daily.toNat + s.worker.daily.toNat = if s.start = .done then 1 else 0

/-- Once the clock has been set and both have been called, the worker has looked after a day's
forecast, or is about to. -/
structure State.CaughtUp (s : State) : Prop where
  clock : s.sntp ≠ .none → clockIsSet s.clock = true
  served : s.sntp = .called → s.start = .notified ∨ s.start = .done →
    s.served = true ∨ s.catchUp = true ∨ s.worker.fresh = true
  created : s.start = .notCalled → s.catchUp = false

/-- The firings are those of the timer, which is due for the last of them. -/
structure State.OfTimer (s : State) (armed : ℤ) (firings : List Firing) : Prop where
  ordered : Ordered (.init armed) firings
  due : ∀ due, s.timer = some due → due = ((JobTimer.init armed).run firings).due
  taken : s.daily = true ∨ s.worker = .start true →
    ((JobTimer.init armed).run firings).due ≤ s.clock
  began : ∀ t target, s.worker = .job true target t ∨ s.worker = .rearm (some t) →
    ((JobTimer.init armed).run firings).due ≤ t ∧ t ≤ s.clock

def State.Chained (s : State) : Prop :=
  ∀ armed firings, s.chain = some (armed, firings) → s.OfTimer armed firings

section Step

variable {s s' : State}

theorem once_step (h : s.Once) (hb : Branch s s') : s'.Once := by
  unfold State.Once at *
  cases hb with
  | pass | synced | same | handler => exact h
  | setClock t ht sntp hsntp =>
    rw [Option.isSome_map]
    exact h
  | create hstart => simpa [hstart] using h
  | notify hstart => simpa [hstart] using h
  | arm hstart =>
    rw [hstart, if_neg (by decide)] at h
    change 1 + s.daily.toNat + s.worker.daily.toNat = 1
    omega
  | timer due htimer hdue =>
    rw [htimer] at h
    change 1 + s.daily.toNat + s.worker.daily.toNat = _ at h
    change 0 + 1 + s.worker.daily.toNat = _
    split_ifs at h ⊢ <;> omega
  | takeDaily hworker hbit => simpa [hworker, hbit, Worker.daily] using h
  | takeCatchUp hworker hnot hbit => simpa [hworker, hnot, Worker.daily] using h
  | unset hworker | present hworker | missing hworker => simpa [hworker, Worker.daily] using h
  | skip daily hworker => cases daily <;> simpa [hworker, Worker.daily, State.finish] using h
  | begin daily hworker => simpa [hworker, Worker.daily] using h
  | rearm began hworker =>
    rw [hworker] at h
    change s.timer.isSome.toNat + s.daily.toNat + 1 = _ at h
    change 1 + s.daily.toNat + 0 = if s.start = .done then 1 else 0
    split_ifs at h ⊢
    omega
  | finish daily target began hworker =>
    cases daily <;> simpa [hworker, Worker.daily, State.finish] using h

theorem caughtUp_step (h : s.CaughtUp) (hb : Branch s s') : s'.CaughtUp := by
  cases hb with
  | pass seconds =>
    refine ⟨fun hset => ?_, h.served, h.created⟩
    have hclock := h.clock hset
    simp only [clockIsSet, decide_eq_true_eq] at hclock ⊢
    omega
  | setClock t ht sntp hsntp =>
    exact ⟨fun _ => ht, fun hcalled => h.served (hsntp hcalled), h.created⟩
  | synced hset =>
    refine ⟨fun _ => h.clock (by simp [hset]), fun _ hstart => ?_, fun hstart => ?_⟩
    · refine .inr (.inl ?_)
      have hne : s.start ≠ .notCalled := by
        intro hnot
        simp [hnot] at hstart
      simp [hne]
    · have hnot := h.created hstart
      change s.start = .notCalled at hstart
      simp [hnot, hstart]
  | same => exact h
  | handler date => exact ⟨h.clock, h.served, h.created⟩
  | create hstart => exact ⟨h.clock, fun _ hnot => by simp at hnot, nofun⟩
  | notify hstart => exact ⟨h.clock, fun _ _ => .inr (.inl rfl), nofun⟩
  | arm hstart => exact ⟨h.clock, fun hcalled _ => h.served hcalled (.inl hstart), nofun⟩
  | timer due htimer hdue => exact ⟨h.clock, h.served, h.created⟩
  | takeDaily hworker hbit => exact ⟨h.clock, fun _ _ => .inr (.inr rfl), fun _ => rfl⟩
  | takeCatchUp hworker hnot hbit => exact ⟨h.clock, fun _ _ => .inr (.inr rfl), fun _ => rfl⟩
  | unset hworker hclock =>
    refine ⟨h.clock, fun hcalled => ?_, h.created⟩
    have hset := h.clock (by rw [hcalled]; decide)
    rw [hclock] at hset
    cases hset
  | present | begin => exact ⟨h.clock, fun _ _ => .inl rfl, h.created⟩
  | missing hworker => exact ⟨h.clock, fun _ _ => .inr (.inr rfl), h.created⟩
  | skip daily hworker hclock =>
    refine ⟨h.clock, fun hcalled => ?_, h.created⟩
    have hset := h.clock (by rw [show s.sntp = .called from hcalled]; decide)
    rw [hclock] at hset
    cases hset
  | rearm began hworker =>
    refine ⟨h.clock, fun hcalled hstart => ?_, h.created⟩
    have hserved := h.served hcalled hstart
    rw [hworker] at hserved
    exact hserved.imp id (Or.imp_right fun hfresh => nomatch hfresh)
  | finish daily target began hworker =>
    refine ⟨h.clock, fun hcalled hstart => ?_, h.created⟩
    have hserved := h.served hcalled hstart
    rw [hworker] at hserved
    rcases hserved with hserved | hserved | hserved
    · exact .inl hserved
    · exact .inr (.inl hserved)
    · cases hserved

/-- A timer that has just been armed begins a chain of its own. -/
theorem State.OfTimer.single (htimer : s.timer = some (jobDueAfter s.clock))
    (hdaily : s.daily = false) (hworker : s.worker.daily = false) : s.OfTimer s.clock [] := by
  refine ⟨trivial, fun due hdue => ?_, fun htaken => ?_, fun t target hbegan => ?_⟩
  · rw [htimer] at hdue
    exact (Option.some.inj hdue).symm
  · rcases htaken with htaken | htaken
    · rw [hdaily] at htaken
      cases htaken
    · rw [htaken] at hworker
      cases hworker
  · rcases hbegan with hbegan | hbegan <;>
    · rw [hbegan] at hworker
      cases hworker

/-- What another worker, timer or bit has to come from. -/
theorem State.OfTimer.of_eq {armed : ℤ} {firings : List Firing} (h : s.OfTimer armed firings)
    (hclock : s'.clock = s.clock) (htimer : s'.timer = s.timer ∨ s'.timer = none)
    (htaken : s'.daily = true ∨ s'.worker = .start true →
      ((JobTimer.init armed).run firings).due ≤ s.clock)
    (hbegan : ∀ t target, s'.worker = .job true target t ∨ s'.worker = .rearm (some t) →
      ((JobTimer.init armed).run firings).due ≤ t ∧ t ≤ s.clock) : s'.OfTimer armed firings := by
  refine ⟨h.ordered, fun due hdue => ?_, hclock ▸ htaken, hclock ▸ hbegan⟩
  rcases htimer with htimer | htimer
  · exact h.due due (htimer ▸ hdue)
  · rw [htimer] at hdue
    cases hdue

/-- The start of the timer begins a chain. -/
theorem chained_start (honce : s.Once) (hstart : s.start = .notified) :
    ({ s.arm none with start := .done } : State).Chained := by
  intro armed firings hchain
  rw [State.Once, hstart, if_neg (by decide)] at honce
  have hdaily : s.daily = false := by simpa using (by omega : s.daily.toNat = 0)
  have hworker : s.worker.daily = false := by
    simpa using (by omega : s.worker.daily.toNat = 0)
  obtain ⟨rfl, rfl⟩ : s.clock = armed ∧ [] = firings := by
    cases hc : s.chain <;> simpa [State.arm, hc] using hchain
  exact State.OfTimer.single rfl hdaily hworker

/-- The worker begins the job of the slot that its bit was set for. -/
theorem chained_begin (h : s.Chained) {daily : Bool} (hworker : s.worker = .start daily) :
    ({ s with
      worker := .job daily (todayDate s.clock) s.clock
      served := true } : State).Chained := by
  intro armed firings hchain
  have hof := h armed firings hchain
  refine hof.of_eq rfl (.inl rfl) (fun htaken => hof.taken (.inl (by simpa using htaken))) ?_
  rintro t target (hbegan | hbegan)
  · obtain ⟨rfl, -, rfl⟩ := Worker.job.inj hbegan
    exact ⟨hof.taken (.inr hworker), le_rfl⟩
  · cases hbegan

/-- After a daily job the timer goes on with its chain, or begins one. -/
theorem chained_rearm (honce : s.Once) (h : s.Chained) {began : Option ℤ}
    (hworker : s.worker = .rearm began) :
    ({ s.arm began with worker := .waiting } : State).Chained := by
  intro armed firings hchain
  have hzero : s.timer.isSome.toNat + s.daily.toNat = 0 := by
    rw [State.Once, hworker] at honce
    change _ + _ + 1 = _ at honce
    split_ifs at honce
    omega
  have hdaily : s.daily = false := by simpa using (by omega : s.daily.toNat = 0)
  cases hc : s.chain with
  | none =>
    obtain ⟨rfl, rfl⟩ : s.clock = armed ∧ [] = firings := by simpa [State.arm, hc] using hchain
    exact State.OfTimer.single rfl hdaily rfl
  | some c =>
    cases began with
    | none =>
      obtain ⟨rfl, rfl⟩ : s.clock = armed ∧ [] = firings := by simpa [State.arm, hc] using hchain
      exact State.OfTimer.single rfl hdaily rfl
    | some fired =>
      obtain ⟨hfst, rfl⟩ : c.1 = armed ∧ c.2 ++ [{ fired, armed := s.clock }] = firings := by
        simpa [State.arm, hc] using hchain
      have hof := h armed c.2 (by rw [hc, ← hfst])
      obtain ⟨hle, hle'⟩ := hof.began fired [] (.inr hworker)
      refine ⟨ordered_append hof.ordered hle hle', fun due hdue => ?_, fun htaken => ?_,
        fun t target hbegan => by simp at hbegan⟩
      · rw [run_append]
        exact (Option.some.inj hdue).symm
      · simp [State.arm, hdaily] at htaken

/-- The end of a job keeps when it began. -/
theorem chained_finish (h : s.Chained) {daily : Bool} {target : DateStr} {began : ℤ}
    (hworker : s.worker = .job daily target began) (surplus : List DateStr) :
    ({ s.finish daily (some began) with surplus := surplus } : State).Chained := by
  intro armed firings hchain
  have hof := h armed firings hchain
  refine hof.of_eq rfl (.inl rfl) (fun htaken => hof.taken (.inl ?_)) ?_
  · cases daily <;> simpa [State.finish] using htaken
  rintro t target' hbegan
  cases daily with
  | false => simp [State.finish] at hbegan
  | true =>
    obtain rfl : began = t := by simpa [State.finish] using hbegan
    exact hof.began began target (.inl hworker)

theorem chained_step (honce : s.Once) (h : s.Chained) (hb : Branch s s') : s'.Chained := by
  cases hb with
  | pass seconds =>
    intro armed firings hchain
    have hof := h armed firings hchain
    refine ⟨hof.ordered, hof.due, fun htaken => ?_, fun t target hbegan => ?_⟩
    · exact (hof.taken htaken).trans (by simp)
    · exact ⟨(hof.began t target hbegan).1, (hof.began t target hbegan).2.trans (by simp)⟩
  | setClock t ht sntp hsntp => exact fun armed firings hchain => nomatch hchain
  | synced | same | create | notify | handler =>
    intro armed firings hchain
    have hof := h armed firings hchain
    exact hof.of_eq rfl (.inl rfl) hof.taken hof.began
  | arm hstart => exact chained_start honce hstart
  | timer due htimer hdue =>
    intro armed firings hchain
    have hof := h armed firings hchain
    exact hof.of_eq rfl (.inr rfl) (fun _ => hof.due due htimer ▸ hdue) hof.began
  | takeDaily hworker hbit =>
    intro armed firings hchain
    have hof := h armed firings hchain
    exact hof.of_eq rfl (.inl rfl) (fun _ => hof.taken (.inl hbit)) fun t target hbegan => by
      simp at hbegan
  | takeCatchUp hworker hnot hbit =>
    intro armed firings hchain
    have hof := h armed firings hchain
    refine hof.of_eq rfl (.inl rfl) (fun htaken => ?_) fun t target hbegan => by simp at hbegan
    simp [hnot] at htaken
  | unset hworker | present hworker | missing hworker =>
    intro armed firings hchain
    have hof := h armed firings hchain
    refine hof.of_eq rfl (.inl rfl) (fun htaken => hof.taken (.inl ?_)) fun t target hbegan => by
      simp at hbegan
    simpa using htaken
  | skip daily hworker =>
    intro armed firings hchain
    have hof := h armed firings hchain
    refine hof.of_eq rfl (.inl rfl) (fun htaken => hof.taken (.inl ?_)) fun t target hbegan => by
      cases daily <;> simp [State.finish] at hbegan
    cases daily <;> simpa [State.finish] using htaken
  | begin daily hworker => exact chained_begin h hworker
  | rearm began hworker => exact chained_rearm honce h hworker
  | finish daily target began hworker surplus => exact chained_finish h hworker surplus

/-- What holds in every state. -/
structure State.Sound (s : State) : Prop where
  once : s.Once
  caughtUp : s.CaughtUp
  chained : s.Chained

theorem sound_boot (clock : ℤ) (surplus : List DateStr) : (State.boot clock surplus).Sound where
  once := rfl
  caughtUp := ⟨fun h => absurd rfl h, nofun, fun _ => rfl⟩
  chained := fun _ _ hchain => nomatch hchain

theorem sound_step {e : Event} (h : s.Sound) (hstep : step s e = some s') : s'.Sound :=
  have hb := step_branch hstep
  ⟨once_step h.once hb, caughtUp_step h.caughtUp hb, chained_step h.once h.chained hb⟩

theorem sound_run {clock : ℤ} {surplus : List DateStr} {es : List Event}
    (hrun : run step (State.boot clock surplus) es = some s) : s.Sound :=
  inv_of_every_run (fun _ _ _ h hstep => sound_step h hstep) (sound_boot clock surplus) hrun

end Step

/-- In every order of the tasks, the nightly chain is carried by exactly one of the timer, its bit
and the worker once it has begun, and no catch-up is lost: when the first synchronisation and the
start have both notified the worker and it waits with nothing to take, it has looked after a day's
forecast with the clock set, although it drops the second bit where both are set. -/
theorem jobTask_neverLost (clock : ℤ) (surplus : List DateStr) (es : List Event) {s : State}
    (hrun : run step (State.boot clock surplus) es = some s) :
    s.timer.isSome.toNat + s.daily.toNat + s.worker.daily.toNat
        = (if s.start = .done then 1 else 0) ∧
      (s.sntp = .called → s.start = .notified ∨ s.start = .done → s.worker = .waiting →
        s.catchUp = false → s.served = true) := by
  have hsound := sound_run hrun
  refine ⟨hsound.once, fun hcalled hstart hworker hbit => ?_⟩
  rcases hsound.caughtUp.served hcalled hstart with hserved | hcatchUp | hfresh
  · exact hserved
  · rw [hbit] at hcatchUp
    cases hcatchUp
  · rw [hworker] at hfresh
    cases hfresh

/-- The clock is set after the boot catch-up has skipped. -/
theorem jobTask_neverLost_lateSync : ∃ s, run step (State.boot 5 [])
      [.main, .main, .worker, .worker, .setClock 1761390000, .timeSynced, .main, .worker, .worker,
        .worker, .finish true] = some s ∧ s.served = true :=
  ⟨_, rfl, (jobTask_neverLost 5 []
    [.main, .main, .worker, .worker, .setClock 1761390000, .timeSynced, .main, .worker, .worker,
      .worker, .finish true] rfl).2 rfl (.inr rfl) rfl rfl⟩

/-- In every order of the tasks, as long as the clock is not set again and each job begins and ends
on the day on which the timer was due, no day from that of the first slot on is left without its
job. -/
theorem jobTask_everyDay (clock : ℤ) (surplus : List DateStr) (es : List Event) {s : State}
    {armed : ℤ} {firings : List Firing} (hrun : run step (State.boot clock surplus) es = some s)
    (hchain : s.chain = some (armed, firings)) (hshown : Shown armed)
    (hprompt : Prompt (.init armed) firings) :
    (∀ due, s.timer = some due → due = ((JobTimer.init armed).run firings).due) ∧
      EveryDay (slotDay armed) ((JobTimer.init armed).run firings) := by
  have hof := (sound_run hrun).chained armed firings hchain
  have hontime := jobsOnTime_iff.mpr ⟨hof.ordered, hprompt⟩
  exact ⟨hof.due, dailyJob_everyDay armed firings hshown hontime⟩

set_option maxRecDepth 8000 in
/-- Both bits are set when the worker wakes for the first job, on the day of the October change. -/
theorem jobTask_everyDay_october : ∃ s, run step (State.boot 1761390000 [])
      [.main, .main, .main, .pass 50400, .timer, .worker, .worker, .finish false, .pass 20,
        .worker] = some s ∧
      EveryDay (slotDay 1761390000)
        ((JobTimer.init 1761390000).run [{ fired := 1761440400, armed := 1761440420 }]) :=
  ⟨_, rfl, (jobTask_everyDay 1761390000 []
    [.main, .main, .main, .pass 50400, .timer, .worker, .worker, .finish false, .pass 20, .worker]
    rfl rfl (by decide) ⟨by decide, trivial⟩).2⟩

end HomeEnergyManager.Forecast.JobTask
