import HomeEnergyManager.PowerLogger.Files

/-! # The cost of a day

`tariff_load_day` lays the recorded prices over the schedule, and `compute_day_cost` shares the cost
of each minute's import out to the loads and the unmonitored remainder. Floating point is exact
arithmetic over `ℚ`.

Reference: `firmware/main/node_power_logger.cpp`, `firmware/main/tariff.cpp`.
-/

namespace HomeEnergyManager.NodePowerLogger

/-! ## The prices of a day -/

/-- `load_tariff_file`, for a date that `valid_date` has accepted. -/
def loadTariffFile (c : Inputs) (date : DateStr) : Option TariffDay := c.tariff date

/-- `commodity_price_load_day`. -/
def commodityPriceLoadDay (c : Inputs) (date : DateStr) : Option TariffDay :=
  CommodityPrice.loadDay c.price date

/-- A recorded price in the schedule's precision; the division of C truncates. -/
def rescale (recorded schedule : ℕ) (v : ℤ) : ℤ :=
  (fun v => v.tdiv 10)^[recorded - schedule] (v * 10 ^ (schedule - recorded))

/-- The recorded prices over the scheduled ones. -/
def overlay (recorded out : TariffDay) : TariffDay :=
  { out with
    price := fun i =>
      if recorded.price i = TARIFF_NO_PRICE then out.price i
      else rescale recorded.hdr.decimals out.hdr.decimals (recorded.price i) }

/-- `tariff_load_day`. -/
def tariffLoadDay (c : Inputs) (date : DateStr) : Option TariffDay :=
  if validDate date then
    match loadTariffFile c date, commodityPriceLoadDay c date with
    | haveTariff, none => haveTariff
    | none, some recorded => some recorded
    | some out, some recorded => some (overlay recorded out)
  else none

/-! ## The cost -/

/-- `day_cost_t`; also the document of a `cost-` file. -/
structure DayCost where
  currency : ℕ
  decimals : ℕ
  cost : List (String × ℚ)
deriving DecidableEq, Repr

/-- The totals of the minute loop. -/
structure CostState where
  loadCost : List ℚ
  unmonitoredCost : ℚ

/-- The slot of a minute of the day. -/
def slotOf (t : ℤ) : ℤ :=
  let lt := localtime t
  (lt.hour * 60 + lt.min) / TARIFF_SLOT_MINUTES

/-- The price of a slot, if it has one. -/
def slotPrice (tariff : TariffDay) (slot : ℤ) : Option ℤ :=
  if h : 0 ≤ slot ∧ slot < TARIFF_SLOTS then
    let price := tariff.price ⟨slot.toNat, by omega⟩
    if price = TARIFF_NO_PRICE then none else some price
  else none

/-- The cost of one minute's import, shared out in proportion to consumption. -/
def shareCost (price grid solar : ℤ) (loads : List ℤ) (st : CostState) : CostState :=
  let minuteCost : ℚ := grid / 60 / 10 ^ 6 * price
  let loadsSum : ℚ := (loads.map fun v => if 0 < v then (v : ℚ) else 0).sum
  let total : ℚ := if (grid + solar : ℚ) < loadsSum then loadsSum else grid + solar
  -- nothing is drawn, so the whole minute goes to the remainder
  if total ≤ 0 then { st with unmonitoredCost := st.unmonitoredCost + minuteCost }
  else
    { loadCost := List.zipWith
        (fun acc (v : ℤ) => if 0 < v then acc + minuteCost * (v / total) else acc) st.loadCost loads
      unmonitoredCost := st.unmonitoredCost + minuteCost * ((total - loadsSum) / total) }

/-- One pass of the minute loop: only import that has a price costs anything. -/
def costMinute (tariff : TariffDay) (t grid solar : ℤ) (loads : List ℤ) (st : CostState) :
    CostState :=
  if grid ≤ 0 then st
  else
    match slotPrice tariff (slotOf t) with
    | some price => shareCost price grid solar loads st
    | none => st

/-- `compute_day_cost`; `none` when it returns false. -/
def computeDayCost (c : Inputs) (date : DateStr) (streams : List Stream) : Option DayCost :=
  (tariffLoadDay c date).bind fun tariff =>
    (localDayStart date).bind fun dayStart =>
      (loadMinutes (c.grid date) dayStart 0).map fun grid =>
        let loads := loadStreams streams
        let st := (List.range kMaxDayMinutes).foldl
          (fun st (i : ℕ) => costMinute tariff (dayStart + i * 60) (grid i)
            (suppliedBy c date dayStart streams .solar i)
            (loads.map fun s => nodeMinutes c date dayStart s i) st)
          { loadCost := loads.map fun _ => 0, unmonitoredCost := 0 }
        { currency := tariff.hdr.currency
          decimals := tariff.hdr.decimals
          cost := ((loads.map (·.graphId)).zip st.loadCost)
            ++ [(UNMONITORED_KEY, st.unmonitoredCost)] }

end HomeEnergyManager.NodePowerLogger
