import HomeEnergyManager.PowerLogger.Cost

/-! # The cached costs and splits

A finished day's cost and split are computed once and kept on the card as JSON documents. A document
whose text is longer than the buffer of its reader is written but never read back; how long cJSON
prints a document is a parameter.

Reference: `firmware/main/node_power_logger.cpp`.
-/

namespace HomeEnergyManager.NodePowerLogger

/-- The document of a `split-` file; the energies are in kWh. -/
structure SplitDoc where
  solarKwh : List (String × ℚ)
  gridKwh : List (String × ℚ)
  ledger : BatteryLedger
deriving DecidableEq, Repr

/-- The number of characters that `cJSON_PrintUnformatted` makes of a document. -/
structure TextLength where
  cost : DayCost → ℕ
  split : SplitDoc → ℕ

/-- The longest text that the caches are read back from. -/
def kMaxCacheText : ℕ := 8192

/-- Documents that all fit their readers. -/
def shortTexts : TextLength := { cost := fun _ => 100, split := fun _ => 100 }

/-- The card: the files that are recorded, and those derived from them. `starts` has the date and
the start ledger of every run of `compute_day_split`; no code reads it. -/
structure Card extends Inputs where
  /-- `grid-hourly-<date>` -/
  gridHourly : DateStr → Option (List PowerRecord) := fun _ => none
  /-- `nodeh-<graph id>-<date>` -/
  nodeHourly : String → DateStr → Option (List PowerRecord) := fun _ _ => none
  /-- `cost-<date>` -/
  cost : DateStr → Option DayCost := fun _ => none
  /-- `split-<date>` -/
  split : DateStr → Option SplitDoc := fun _ => none
  starts : List (DateStr × BatteryLedger) := []

/-! ## Writing and reading -/

/-- A text that is neither empty nor too long for its reader. -/
def readable (len : ℕ) : Bool := 0 < len && len ≤ kMaxCacheText

/-- The document that `write_split_cache` prints. -/
def DaySplit.doc (ds : DaySplit) : SplitDoc :=
  { solarKwh := ds.wh.map fun w => (w.1, w.2.1 / 1000)
    gridKwh := ds.wh.map fun w => (w.1, w.2.2 / 1000)
    ledger := ds.endLedger }

/-- What `read_split_cache` makes of a document. The grid energy of a load is the first of its name,
and the ledger counts only if it is known. -/
def SplitDoc.read (doc : SplitDoc) : DaySplit :=
  { wh := doc.solarKwh.map fun w =>
      (w.1, w.2 * 1000, ((doc.gridKwh.find? (·.1 == w.1)).elim 0 (·.2)) * 1000)
    endLedger :=
      if doc.ledger.known then doc.ledger else { BatteryLedger.unknown with soc := doc.ledger.soc }
    hourly := [] }

/-- `read_split_cache`. -/
def readSplitCache (len : TextLength) (c : Card) (date : DateStr) : Option DaySplit :=
  (c.split date).bind fun doc => if readable (len.split doc) then some doc.read else none

/-- `write_split_cache`. -/
def writeSplitCache (date : DateStr) (ds : DaySplit) (c : Card) : Card :=
  { c with split := Function.update c.split date (some ds.doc) }

/-- `read_cost_cache`. -/
def readCostCache (len : TextLength) (c : Card) (date : DateStr) : Option DayCost :=
  (c.cost date).bind fun doc => if readable (len.cost doc) then some doc else none

/-- `write_cost_cache`. -/
def writeCostCache (date : DateStr) (dc : DayCost) (c : Card) : Card :=
  { c with cost := Function.update c.cost date (some dc) }

/-! ## Costs and splits through the caches -/

/-- `day_cost`. -/
def dayCost (len : TextLength) (date : DateStr) (isToday : Bool) (streams : List Stream)
    (allowCacheWrite : Bool) (c : Card) : Option DayCost × Card :=
  match if isToday then none else readCostCache len c date with
  | some dc => (some dc, c)
  | none =>
    match computeDayCost c.toInputs date streams with
    | some dc => (some dc, if !isToday && allowCacheWrite then writeCostCache date dc c else c)
    | none => (none, c)

/-- A run of `compute_day_split` on the card, noted in `starts`. -/
def splitFrom (date : DateStr) (streams : List Stream) (start : BatteryLedger) (c : Card) :
    Option DaySplit × Card :=
  (computeDaySplit c.toInputs date streams start, { c with starts := c.starts ++ [(date, start)] })

/-- `day_split`. -/
def daySplit (len : TextLength) (date : DateStr) (isToday : Bool) (streams : List Stream)
    (start : BatteryLedger) (c : Card) : Option DaySplit × Card :=
  match if isToday then none else readSplitCache len c date with
  | some ds => (some ds, c)
  | none =>
    match splitFrom date streams start c with
    | (some ds, c) => (some ds, if isToday then c else writeSplitCache date ds c)
    | (none, c) => (none, c)

/-- `ledger_before`: the ledger at the end of the day before, chaining back up to `depth` days. -/
def ledgerBefore (len : TextLength) (streams : List Stream) :
    ℕ → DateStr → Card → BatteryLedger × Card
  | depth, date, c =>
    match localDayStart date with
    | none => (.unknown, c)
    | some t =>
      match readSplitCache len c (stepDate t (-1)) with
      | some ds => (ds.endLedger, c)
      | none =>
        match depth with
        | 0 => (.unknown, c)
        | depth + 1 =>
          -- a gap in the grid data ends the chain
          if (c.grid (stepDate t (-1))).isNone then (.unknown, c)
          else
            let before := ledgerBefore len streams depth (stepDate t (-1)) c
            let r := daySplit len (stepDate t (-1)) false streams before.1 before.2
            (r.1.elim .unknown (·.endLedger), r.2)

/-- The default of `depth`. -/
def kLedgerDepth : ℕ := 7

/-- `split_day_cached`. -/
def splitDayCached (len : TextLength) (streams : List Stream) (date : DateStr) (c : Card) : Card :=
  let before := ledgerBefore len streams kLedgerDepth date c
  (daySplit len date false streams before.1 before.2).2

/-- `cost_day_cached`. -/
def costDayCached (len : TextLength) (streams : List Stream) (date : DateStr)
    (allowCacheWrite : Bool) (c : Card) : Card :=
  (dayCost len date false streams allowCacheWrite c).2

end HomeEnergyManager.NodePowerLogger
