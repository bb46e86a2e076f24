import HomeEnergyManager.Lib.StepSystem
import HomeEnergyManager.Price.Stamp

/-! # The price recorder as a step system

Reports arrive on the CHIP task, the tick and the flush on the timer task, and the tariff source
changes from the HTTP task. Each section under a mutex is one step, as is each file write of a
flush, so a flush may be overtaken by reports between its sections.

Reference: `firmware/main/commodity_price.cpp`.
-/

namespace HomeEnergyManager.CommodityPrice

/-- What a report carries once it is decoded; `other` stands for any attribute that is not handled
and for data that cannot be decoded. -/
inductive Report where
  | currency (v : Option (ℕ × ℕ))
  | tariffUnit (v : ℕ)
  | currentPrice (v : Option CommodityPriceStruct)
  | priceChange (v : Option CommodityPriceStruct)
  | other
deriving DecidableEq, Repr

/-- Where the CHIP task stands in `commodity_price_on_attribute` or `commodity_price_on_event`. -/
inductive Handler where
  | idle
  /-- `tariff_get_source` has answered `source`. -/
  | asked (nodeId endpointId : ℕ) (source : Option (ℕ × ℕ)) (r : Report)
  /-- `from_source` has returned true. -/
  | accepted (r : Report)
deriving DecidableEq, Repr

/-- The recorder with its surroundings: the clock, what `tariff_get_source` answers, the guarded
state, the CHIP task, what a flush has swapped out and not written yet, and the day files. -/
structure System where
  now : ℤ
  source : Option (ℕ × ℕ)
  price : State
  handler : Handler
  flushing : Option (FileHeader × Pending)
  files : DateStr → Option TariffDay

/-- `commodity_price_load_day`. -/
def loadDay (files : DateStr → Option TariffDay) (date : DateStr) : Option TariffDay :=
  if validDate date then files date else none

/-- The locked section of `from_source`: another source drops what was gathered. -/
def fromSource (source : Option (ℕ × ℕ)) (s : State) : State :=
  let has := source.isSome
  let node := (source.getD (0, 0)).1
  let ep := (source.getD (0, 0)).2
  if has ≠ s.hasSource ∨ node ≠ s.nodeId ∨ ep ≠ s.endpointId then
    { s with
      hasSource := has
      nodeId := node
      endpointId := ep
      currency := 0
      decimals := 0
      unit := 0
      current := {} }
  else s

/-- What `from_source` returns. -/
def isFromSource (nodeId endpointId : ℕ) (source : Option (ℕ × ℕ)) : Bool :=
  source.isSome && nodeId == (source.getD (0, 0)).1 && endpointId == (source.getD (0, 0)).2

/-- The section that stores an accepted report. -/
def handleReport (now : ℤ) (r : Report) (s : State) : State :=
  match r with
  | .currency v => { s with currency := (v.getD (0, 0)).1, decimals := (v.getD (0, 0)).2 }
  | .tariffUnit v => { s with unit := v }
  | .currentPrice v => applyPrice now v s
  | .priceChange v => applyPrice now v s
  | .other => s

/-- `stamped` in `on_tick_timer`: the price in force applies now. -/
def tickStamps (now : ℤ) (s : State) : Bool :=
  s.current.valid && s.current.start ≤ now && (!s.current.hasEnd || now < s.current.endTime)

/-- `on_tick_timer`. -/
def onTick (now : ℤ) (s : State) : State :=
  if tickStamps now s then
    { s with pending := stampSlot now s.current.price s.pending, flushArmed := true }
  else s

/-- The header that a flush takes along. -/
def State.header (s : State) : FileHeader :=
  { currency := s.currency, decimals := s.decimals, unit := s.unit }

/-- A flush is over when nothing is left to write. -/
def flushRest (hdr : FileHeader) (pending : Pending) : Option (FileHeader × Pending) :=
  if pending.entries.isEmpty then none else some (hdr, pending)

/-- The merge of the stamped slots into a day file. -/
def mergeDay (hdr : FileHeader) (slots : Slots) (day : Option TariffDay) : TariffDay :=
  { hdr := hdr
    price := fun i =>
      if slots i ≠ TARIFF_NO_PRICE then slots i else (day.elim Slots.blank (·.price)) i }

inductive Event where
  /-- The time is set or goes on. -/
  | clock (now : ℤ)
  /-- `tariff_refresh_source`. -/
  | setSource (source : Option (ℕ × ℕ))
  /-- A report arrives and `tariff_get_source` is asked. -/
  | report (nodeId endpointId : ℕ) (r : Report)
  /-- The locked section of `from_source`. -/
  | fromSource
  /-- The section that stores the report. -/
  | handle
  | tick
  /-- The locked section of `on_flush_timer`. -/
  | flushSwap
  /-- One day file of `on_flush_timer`. -/
  | flushWrite (date : DateStr)
deriving DecidableEq, Repr

def step (s : System) : Event → Option System
  | .clock now => some { s with now := now }
  | .setSource source => some { s with source := source }
  | .report nodeId endpointId r =>
    match s.handler with
    | .idle => some { s with handler := .asked nodeId endpointId s.source r }
    | _ => none
  | .fromSource =>
    match s.handler with
    | .asked nodeId endpointId source r =>
      some { s with
        price := fromSource source s.price
        handler := if isFromSource nodeId endpointId source then .accepted r else .idle }
    | _ => none
  | .handle =>
    match s.handler with
    | .accepted r => some { s with price := handleReport s.now r s.price, handler := .idle }
    | _ => none
  | .tick =>
    match s.flushing with
    | none => some { s with price := onTick s.now s.price }
    | some _ => none
  | .flushSwap =>
    match s.flushing, s.price.flushArmed with
    | none, true =>
      some { s with
        price := { s.price with pending := ∅, flushArmed := false }
        flushing := flushRest s.price.header s.price.pending }
    | _, _ => none
  | .flushWrite date =>
    match s.flushing with
    | some (hdr, pending) =>
      match pending.lookup date with
      | some slots =>
        some { s with
          flushing := flushRest hdr (pending.erase date)
          files := Function.update s.files date
            (some (mergeDay hdr slots (loadDay s.files date))) }
      | none => none
    | none => none

/-- `commodity_price_init` on a card with files. -/
def System.boot (now : ℤ) (source : Option (ℕ × ℕ)) (files : DateStr → Option TariffDay) : System :=
  { now := now
    source := source
    price := {}
    handler := .idle
    flushing := none
    files := files }

end HomeEnergyManager.CommodityPrice
