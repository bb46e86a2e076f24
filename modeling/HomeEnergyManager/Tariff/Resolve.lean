import HomeEnergyManager.Tariff.Day
import HomeEnergyManager.Time.MkTime

/-! # Resolving a tariff day

The decoded subset of the Commodity Tariff cluster, and `resolve_day`, which makes 96 prices of a
day's entries.

Reference: `firmware/main/tariff.cpp`.
-/

namespace HomeEnergyManager.Tariff

/-- `day_entry_t`; the start is in minutes, and a duration of -1 lasts until the next entry. -/
structure DayEntry where
  id : ℕ
  start : ℤ
  duration : ℤ
deriving DecidableEq, Repr

/-- `period_t`. -/
structure Period where
  entryIds : List ℕ
  componentIds : List ℕ
deriving DecidableEq, Repr

/-- `component_t`. -/
structure Component where
  id : ℕ
  price : Option ℤ
  threshold : Option ℤ
deriving DecidableEq, Repr

/-- `day_t`. -/
structure Day where
  valid : Bool := false
  unixDate : ℕ := 0
  entryIds : List ℕ := []
deriving DecidableEq, Repr

/-- The date token of a `DayStruct`, read at midday. -/
def dateOfDay (unixDate : ℕ) : DateStr := strftimeDate (localtime (unixDate + 12 * 3600))

/-! ## The price of an entry -/

/-- The locals of `entry_price`; `block` has the threshold and the price of the lowest block. -/
structure PriceSum where
  found : Bool := false
  total : ℤ := 0
  block : Option (ℤ × ℤ) := none
deriving DecidableEq, Repr

/-- The innermost pass: a component counts if it has the id `cid` and a price. -/
def addComponent (cid : ℕ) (st : PriceSum) (c : Component) : PriceSum :=
  if c.id ≠ cid then st
  else
    match c.price, c.threshold with
    | none, _ => st
    | some price, none => { st with total := st.total + price, found := true }
    | some price, some threshold =>
      if st.block.all fun b => threshold < b.1 then { st with block := some (threshold, price) }
      else st

/-- `entry_price`: the sum of the components without a threshold, else the lowest block. -/
def entryPrice (periods : List Period) (components : List Component) (entryId : ℕ) : ℤ :=
  let st := periods.foldl
    (fun st p =>
      if entryId ∈ p.entryIds then
        p.componentIds.foldl (fun st cid => components.foldl (addComponent cid) st) st
      else st) {}
  if st.found then st.total else st.block.elim TARIFF_NO_PRICE (·.2)

/-! ## The prices of a day -/

/-- The innermost pass of `resolve_day`: the latest start wins, the first of equal ones. -/
def laterEntry (id : ℕ) (minute : ℤ) (best : Option DayEntry) (e : DayEntry) : Option DayEntry :=
  if e.id ≠ id ∨ minute < e.start then best
  else if best.all fun b => b.start < e.start then some e
  else best

/-- The entry in force at a minute, if its duration has not elapsed. -/
def entryAt (entries : List DayEntry) (entryIds : List ℕ) (minute : ℤ) : Option DayEntry :=
  (entryIds.foldl (fun best id => entries.foldl (laterEntry id minute) best) none).filter
    fun best =>
    !(0 ≤ best.duration && best.start + best.duration ≤ minute)

/-- `resolve_day`. -/
def resolveDay (entries : List DayEntry) (periods : List Period) (components : List Component)
    (day : Day) : Slots := fun slot =>
  (entryAt entries day.entryIds (slot * TARIFF_SLOT_MINUTES)).elim TARIFF_NO_PRICE fun best =>
    entryPrice periods components best.id

end HomeEnergyManager.Tariff
