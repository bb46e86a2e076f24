import HomeEnergyManager.DayFiles.Jobs
import HomeEnergyManager.Lib.StepSystem
import HomeEnergyManager.Tariff.Recorder

/-! # The firmware around the day files

The timers, the CHIP task and the HTTP task at work on one card. The callbacks of the timers run one
after the other on the timer task, and the queries one after the other on the HTTP task. Each
section under a mutex, each look for a file, each file write and each computation of a file is one
step of its task, and between two steps the other tasks get their turn. The topology stays as it is.

Reference: `firmware/main/node_power_logger.cpp`, `firmware/main/tariff.cpp`,
`firmware/main/commodity_price.cpp`.
-/

namespace HomeEnergyManager.DayFiles

open NodePowerLogger

/-- Where the timer task stands; a flush of prices keeps its own account. -/
inductive TimerTask where
  | idle
  /-- `on_flush_timer` of `node_power_logger` has drained the accumulators. -/
  | powerFlush (todo : List Append)
  /-- `on_midnight_timer`. -/
  | midnight (task : Progress)
  /-- `on_flush_timer` of `tariff` has resolved its days. -/
  | tariffFlush (todo : List (DateStr × TariffDay))

/-- The midnight job is over when nothing is left of it. -/
def TimerTask.ofMidnight : Progress → TimerTask
  | .running .done => .idle
  | task => .midnight task

/-- So is the flush of a tariff. -/
def TimerTask.ofTariff : List (DateStr × TariffDay) → TimerTask
  | [] => .idle
  | todo => .tariffFlush todo

/-- Where the CHIP task stands in `tariff_on_attribute`. -/
inductive TariffHandler where
  | idle
  | accepted (r : Tariff.Report)
deriving DecidableEq, Repr

structure System where
  now : ℤ
  streams : List SampledStream
  timer : TimerTask
  /-- Where the HTTP task stands with its query. -/
  http : Progress
  tariff : Tariff.State
  tariffHandler : TariffHandler
  /-- Its files are those of the card. -/
  price : CommodityPrice.System
  card : Card

/-- `snapshot_streams`. -/
def snapshotStreams (streams : List SampledStream) : List Stream := streams.map (·.toStream)

/-- `yesterday` of `on_midnight_timer`. -/
def yesterday (now : ℤ) : DateStr :=
  let tm := localtime now
  strftimeDate (mktime { tm with mday := tm.mday - 1 }).2

/-- What the price recorder sees of its surroundings. -/
def System.priceView (s : System) : CommodityPrice.System :=
  { s.price with now := s.now, source := s.tariff.source, files := s.card.price }

/-- A step of the price recorder. -/
def System.setPrice (s : System) (p : CommodityPrice.System) : System :=
  { s with price := p, card := { s.card with price := p.files } }

inductive Event where
  /-- The time goes on or is set. -/
  | clock (now : ℤ)
  | sample (snap : List ValueCacheEntry)
  /-- The locked section of `on_flush_timer` of `node_power_logger`. -/
  | powerFlush
  /-- One append of it. -/
  | powerWrite
  /-- `refresh_streams` at its end. -/
  | refresh
  /-- `on_midnight_timer` reads the clock. -/
  | midnight
  /-- Its next step. -/
  | midnightNext
  /-- `tariff_on_attribute` asks whether the report is from the source. -/
  | tariffReport (nodeId endpointId : ℕ) (r : Tariff.Report)
  /-- It stores the report. -/
  | tariffStore
  /-- The locked section of `on_flush_timer` of `tariff`. -/
  | tariffFlush
  /-- One day file of it. -/
  | tariffWrite
  /-- A report for `commodity_price` arrives and `tariff_get_source` is asked. -/
  | priceReport (nodeId endpointId : ℕ) (r : CommodityPrice.Report)
  | priceFromSource
  | priceHandle
  | priceTick
  | priceFlushSwap
  | priceFlushWrite (date : DateStr)
  /-- A query arrives. -/
  | batterySource
  | dailyEnergy (days : ℤ)
  | mixTrace (date : DateStr)
  /-- The next step of the query. -/
  | httpNext
deriving DecidableEq, Repr

/-- The query that an event asks at `now`. -/
def Event.query (now : ℤ) : Event → Option Query
  | .batterySource => some (.batterySource now)
  | .dailyEnergy days => some (.dailyEnergy now days)
  | .mixTrace date => some (.mixTrace now date)
  | _ => none

/-- The step of the price recorder that an event stands for. -/
def Event.price : Event → Option CommodityPrice.Event
  | .priceReport nodeId endpointId r => some (.report nodeId endpointId r)
  | .priceFromSource => some .fromSource
  | .priceHandle => some .handle
  | .priceTick => some .tick
  | .priceFlushSwap => some .flushSwap
  | .priceFlushWrite date => some (.flushWrite date)
  | _ => none

/-- The timer task is in none of the callbacks that keep their place in `timer`. -/
def System.timerIdle (s : System) : Bool :=
  match s.timer with
  | .idle => true
  | _ => false

/-- The timer task is free for another callback. -/
def System.timerFree (s : System) : Bool := s.timerIdle && s.price.flushing.isNone

def step (len : TextLength) (s : System) (e : Event) : Option System :=
  match e with
  | .clock now => some { s with now := now }
  | .sample snap =>
    if s.timerFree then some { s with streams := onSampleTimer s.now snap s.streams } else none
  | .powerFlush =>
    if s.timerFree then
      some { s with
        streams := s.streams.map (·.drain)
        timer := .powerFlush (s.streams.flatMap (·.appends)) }
    else none
  | .powerWrite =>
    match s.timer with
    | .powerFlush (a :: todo) => some { s with timer := .powerFlush todo, card := a.run s.card }
    | _ => none
  | .refresh =>
    match s.timer with
    | .powerFlush [] => some { s with streams := s.streams.map (·.refresh), timer := .idle }
    | _ => none
  | .midnight =>
    if s.timerFree then
      some { s with timer := .midnight (.running (midnightJob len (yesterday s.now))) }
    else none
  | .midnightNext =>
    match s.timer with
    | .midnight task =>
      (task.step (snapshotStreams s.streams) s.card).map fun r =>
        { s with timer := .ofMidnight r.1, card := r.2 }
    | _ => none
  | .tariffReport nodeId endpointId r =>
    match s.tariffHandler with
    | .idle =>
      if Tariff.accepts s.tariff nodeId endpointId then some { s with tariffHandler := .accepted r }
      else some s
    | .accepted _ => none
  | .tariffStore =>
    match s.tariffHandler with
    | .idle => none
    | .accepted r =>
      some { s with tariff := Tariff.storeReport r s.tariff, tariffHandler := .idle }
  | .tariffFlush =>
    if s.timerFree && s.tariff.flushArmed then
      some { s with
        tariff := { s.tariff with flushArmed := false }
        timer := .ofTariff s.tariff.pending }
    else none
  | .tariffWrite =>
    match s.timer with
    | .tariffFlush ((date, day) :: todo) =>
      some { s with
        timer := .ofTariff todo
        card := { s.card with tariff := Function.update s.card.tariff date (some day) } }
    | _ => none
  | .priceTick | .priceFlushSwap =>
    if s.timerIdle then
      (e.price.bind (CommodityPrice.step s.priceView)).map s.setPrice
    else none
  | .priceReport _ _ _ | .priceFromSource | .priceHandle | .priceFlushWrite _ =>
    (e.price.bind (CommodityPrice.step s.priceView)).map s.setPrice
  | .batterySource | .dailyEnergy _ | .mixTrace _ =>
    match s.http with
    | .running .done => (e.query s.now).map fun q => { s with http := .running (queryJob len q) }
    | _ => none
  | .httpNext =>
    (s.http.step (snapshotStreams s.streams) s.card).map fun r =>
      { s with http := r.1, card := r.2 }

/-- The firmware after its start, on a card with files. -/
def System.boot (now : ℤ) (streams : List SampledStream) (source : Option (ℕ × ℕ)) (c : Card) :
    System :=
  { now := now
    streams := streams.map (·.refresh)
    timer := .idle
    http := .running .done
    tariff := { source := source }
    tariffHandler := .idle
    price := CommodityPrice.System.boot now source c.price
    card := c }

/-! ## A task that is left alone -/

section Alone

variable {len : TextLength} {s s' : System} {a b : Progress × Card}

theorem run_httpNext (len : TextLength)
    (h : Relation.ReflTransGen
      (fun a b => a.1.step (snapshotStreams s.streams) a.2 = some b) a b) :
    ∃ n, StepSystem.run (step len) { s with http := a.1, card := a.2 }
      (List.replicate n .httpNext) = some { s with http := b.1, card := b.2 } := by
  induction h using Relation.ReflTransGen.head_induction_on with
  | refl => exact ⟨0, rfl⟩
  | head hstep _ ih =>
    obtain ⟨n, hn⟩ := ih
    refine ⟨n + 1, StepSystem.run_cons_eq_some.mpr ⟨_, ?_, hn⟩⟩
    rw [step, hstep, Option.map_some]

theorem run_midnightNext (len : TextLength)
    (h : Relation.ReflTransGen
      (fun a b => a.1.step (snapshotStreams s.streams) a.2 = some b) a b) :
    ∃ n, StepSystem.run (step len) { s with timer := .ofMidnight a.1, card := a.2 }
      (List.replicate n .midnightNext) = some { s with timer := .ofMidnight b.1, card := b.2 } := by
  induction h using Relation.ReflTransGen.head_induction_on with
  | refl => exact ⟨0, rfl⟩
  | @head a c hstep _ ih =>
    obtain ⟨n, hn⟩ := ih
    have htimer : TimerTask.ofMidnight a.1 = .midnight a.1 := by
      unfold TimerTask.ofMidnight
      split
      · rename_i hdone
        rw [hdone] at hstep
        exact nomatch hstep
      · rfl
    refine ⟨n + 1, StepSystem.run_cons_eq_some.mpr ⟨_, ?_, hn⟩⟩
    rw [step, htimer]
    dsimp only
    rw [hstep, Option.map_some]

/-- A query that no other task interrupts does to the card what its function does. -/
theorem query_alone {e : Event} {q : Query} (hquery : e.query s.now = some q)
    (hstep : step len s e = some s') :
    ∃ n, StepSystem.run (step len) s' (List.replicate n .httpNext) =
      some { s with card := (q.run len (snapshotStreams s.streams) s.card).2 } := by
  have hbegun : s.http = .running .done ∧ s' = { s with http := .running (queryJob len q) } := by
    cases e with
    | batterySource | dailyEnergy days | mixTrace date =>
      rw [step, hquery] at hstep
      split at hstep
      · exact ⟨‹_›, (Option.some.inj hstep).symm⟩
      · exact nomatch hstep
    | _ => exact nomatch hquery
  obtain ⟨hhttp, rfl⟩ := hbegun
  obtain ⟨n, hn⟩ := run_httpNext len
    (Job.reaches_run (snapshotStreams s.streams) (queryJob len q) s.card)
  refine ⟨n, hn.trans ?_⟩
  rw [run_queryJob, ← hhttp]

/-- So does the midnight job, up to its end. -/
theorem midnight_alone (hstep : step len s .midnight = some s') :
    ∃ n, StepSystem.run (step len) s' (List.replicate n .midnightNext) =
      some { s with
        timer := .idle
        card := splitDayCached len (snapshotStreams s.streams) (yesterday s.now)
          (costDayCached len (snapshotStreams s.streams) (yesterday s.now) true
            (powerLoggerRollupHourly (yesterday s.now)
              (nodePowerLoggerRollupHourly (yesterday s.now) s.card))) } := by
  rw [step] at hstep
  split at hstep
  · obtain rfl := Option.some.inj hstep
    obtain ⟨n, hn⟩ := run_midnightNext len
      (Job.reaches_run (snapshotStreams s.streams) (midnightJob len (yesterday s.now)) s.card)
    refine ⟨n, hn.trans ?_⟩
    rw [run_midnightJob]
    rfl
  · exact nomatch hstep

end Alone

end HomeEnergyManager.DayFiles
