import Mathlib.Data.Rat.Floor
import HomeEnergyManager.Lib.StepSystem
import HomeEnergyManager.PowerLogger.Caches

/-! # The queries

The JSON documents that the HTTP and MCP handlers ask `node_power_logger` for, as far as they are
about costs and splits. Answering one may compute days that were never split and cache them.

Reference: `firmware/main/node_power_logger.cpp`.
-/

namespace HomeEnergyManager.NodePowerLogger

/-- `role` as it is printed. -/
def Role.name : Role → String
  | .grid => "grid"
  | .solar => "solar"
  | .battery => "battery"
  | .load => "load"

/-! ## The mix of the battery -/

/-- `node_power_logger_battery_source_json`: the solar and the grid percentage, if known. -/
def batterySource (split : Option DaySplit) : Option (ℚ × ℚ) :=
  split.bind fun ds =>
    if ds.endLedger.known = true ∧ 0 < ds.endLedger.eWh then
      let f := if ds.endLedger.f < 0 then 0 else if 1 < ds.endLedger.f then 1 else ds.endLedger.f
      some (f * 100, (1 - f) * 100)
    else none

/-- `round`: half-way cases go away from zero. -/
def round (x : ℚ) : ℤ := if 0 ≤ x then ⌊x + 1 / 2⌋ else -⌊-x + 1 / 2⌋

/-- What `add_ledger` prints of a known ledger. -/
structure LedgerJson where
  solarPct : ℚ
  gridPct : ℚ
  held : ℚ
deriving DecidableEq, Repr

/-- `add_ledger`. -/
def addLedger (L : BatteryLedger) : Option LedgerJson :=
  if L.known = true ∧ 0 < L.eWh then
    let f := if L.f < 0 then 0 else if 1 < L.f then 1 else L.f
    some
      { solarPct := round (f * 1000) / 10
        gridPct := round ((1 - f) * 1000) / 10
        held := round (if L.soc then L.eWh * 5 else L.eWh * 10) / 10 }
  else none

/-- The document of the trace of a day with data. -/
structure MixTrace where
  anchoredToSoc : Bool
  startSoc : Bool
  start : Option LedgerJson
  hours : List (Option LedgerJson)
deriving DecidableEq, Repr

/-- How many hours of a trace are shown: those of today that are still to come are not. -/
def shownHours (now dayStart : ℤ) (date today : DateStr) (hours : ℕ) : ℕ :=
  let elapsed := (now - dayStart).tdiv 3600 + 1
  if date = today ∧ 0 ≤ elapsed ∧ elapsed < hours then elapsed.toNat else hours

/-- The document, from the start ledger and the split. -/
def mixTrace (now dayStart : ℤ) (date : DateStr) (start : BatteryLedger) (split : Option DaySplit) :
    Option MixTrace :=
  split.map fun ds =>
    { anchoredToSoc := ds.endLedger.soc
      startSoc := start.soc
      start := addLedger start
      hours := (ds.hourly.take
        (shownHours now dayStart date (dateStr (localDay now)) ds.hourly.length)).map addLedger }

/-- `sanitize_token`, for a text that is not null. -/
def sanitizeToken (s : DateStr) : Bool :=
  s ≠ [] && s.length ≤ 32 && s.all fun c =>
    ('A' ≤ c && c ≤ 'Z') || ('a' ≤ c && c ≤ 'z') || ('0' ≤ c && c ≤ '9') || c == '_' || c == '-'

/-- The tests of `node_power_logger_battery_mix_trace_json`: local midnight of a date not after
today. -/
def traceStart (now : ℤ) (date : DateStr) : Option ℤ :=
  if sanitizeToken date && date.length == 10 then
    (localDayStart date).filter fun _ => !decide (dateStr (localDay now) < date)
  else none

/-! ## The daily energies -/

/-- The energy of a file of records, which stand for one part in `perHour` of an hour each. -/
def kwhOf (perHour : ℕ) (recs : List PowerRecord) : ℚ :=
  ((recs.map (·.powerMw)).sum : ℤ) / (perHour * 10 ^ 6)

/-- `file_kwh` for a stream and a day: the hourly file is preferred. -/
def fileKwh (c : Card) (s : Stream) (date : DateStr) : Option ℚ :=
  let hourly := if s.role = .grid then c.gridHourly date else c.nodeHourly s.graphId date
  let minute := if s.role = .grid then c.grid date else c.node s.graphId date
  (hourly.map (kwhOf 1)).or (minute.map (kwhOf 60))

/-- One day of the answer. -/
structure DayRow where
  date : DateStr
  kwh : List (String × ℚ)
  /-- In major currency units. -/
  cost : Option (List (String × ℚ))
  /-- `solar_kwh` and `grid_kwh` per load. -/
  split : Option (List (String × ℚ × ℚ))
deriving DecidableEq, Repr

/-- The locals of the loop of `node_power_logger_daily_energy_json`; `ledger` is `none` until it is
seeded. -/
structure DailyState where
  card : Card
  ledger : Option BatteryLedger := none
  rows : List DayRow := []
  currency : Option ℕ := none

/-- `solar_kwh` and `grid_kwh` of a split. -/
def DaySplit.kwh (ds : DaySplit) : List (String × ℚ × ℚ) :=
  ds.wh.map fun w => (w.1, w.2.1 / 1000, w.2.2 / 1000)

/-- The ledger that a day of the loop starts from; the first day seeds it. -/
def seeded (len : TextLength) (streams : List Stream) (date : DateStr) :
    Option BatteryLedger → Card → BatteryLedger × Card
  | some L, c => (L, c)
  | none, c => ledgerBefore len streams kLedgerDepth date c

/-- One pass of the loop, for the day `back` days ago. -/
def dailyDay (len : TextLength) (streams : List Stream) (now : ℤ) (st : DailyState) (back : ℤ) :
    DailyState :=
  let date := stepDate now (-back)
  let isToday := back == 0
  let kwh := streams.filterMap fun s => (fileKwh st.card s date).map fun v => (s.graphId, v)
  let cost := dayCost len date isToday streams true st.card
  let start := seeded len streams date st.ledger cost.2
  let split := daySplit len date isToday streams start.1 start.2
  { card := split.2
    -- without grid data the battery's history is lost
    ledger := some (split.1.elim .unknown (·.endLedger))
    rows := st.rows ++
      [{ date := date
         kwh := kwh
         cost := cost.1.map fun dc => dc.cost.map fun w => (w.1, w.2 / 10 ^ dc.decimals)
         split := split.1.map (·.kwh) }]
    currency := (cost.1.map (·.currency)).or st.currency }

/-- The values that `back` takes, oldest day first. -/
def backs (days : ℤ) : List ℤ := (List.range days.toNat).map fun (i : ℕ) => days - 1 - i

/-- The document of `node_power_logger_daily_energy_json`. -/
structure DailyEnergy where
  nodes : List (String × String)
  days : List DayRow
  currency : Option ℕ
deriving DecidableEq, Repr

/-! ## The queries on the card -/

inductive Query where
  | batterySource (now : ℤ)
  | dailyEnergy (now days : ℤ)
  | splitDayCached (date : DateStr)
  | mixTrace (now : ℤ) (date : DateStr)
deriving DecidableEq, Repr

inductive Answer where
  | batterySource (mix : Option (ℚ × ℚ))
  | dailyEnergy (doc : DailyEnergy)
  | splitDayCached
  /-- `none` for a null pointer; the inner `none` for a day without data. -/
  | mixTrace (trace : Option (Option MixTrace))
deriving DecidableEq, Repr

/-- Answer a query. -/
def Query.run (len : TextLength) (streams : List Stream) : Query → Card → Answer × Card
  | .batterySource now, c =>
    let before := ledgerBefore len streams kLedgerDepth (dateStr (localDay now)) c
    let split := splitFrom (dateStr (localDay now)) streams before.1 before.2
    (.batterySource (NodePowerLogger.batterySource split.1), split.2)
  | .dailyEnergy now days, c =>
    let st := (backs days).foldl (dailyDay len streams now) { card := c }
    (.dailyEnergy
      { nodes := streams.map fun s => (s.graphId, s.role.name)
        days := st.rows
        currency := st.currency }, st.card)
  | .splitDayCached date, c => (.splitDayCached, NodePowerLogger.splitDayCached len streams date c)
  | .mixTrace now date, c =>
    match traceStart now date with
    | none => (.mixTrace none, c)
    | some dayStart =>
      let before := ledgerBefore len streams kLedgerDepth date c
      let split := splitFrom date streams before.1 before.2
      (.mixTrace (some (NodePowerLogger.mixTrace now dayStart date before.1 split.1)), split.2)

/-- The card after a query. -/
def queryStep (len : TextLength) (streams : List Stream) (c : Card) (q : Query) : Option Card :=
  some (q.run len streams c).2

/-- The answers to queries that come one after the other. -/
def answers (len : TextLength) (streams : List Stream) : Card → List Query → List Answer
  | _, [] => []
  | c, q :: qs => (q.run len streams c).1 :: answers len streams (q.run len streams c).2 qs

end HomeEnergyManager.NodePowerLogger
