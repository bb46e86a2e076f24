import HomeEnergyManager.DayFiles.Jobs

/-! # Derived files

The hourly files, the costs and the splits of a day are derived from its other files. Each has the
files that it is made from, and agrees with them if it is what would be made of them now.
-/

namespace HomeEnergyManager.DayFiles

open NodePowerLogger

/-- A file that is derived from those of its day. -/
inductive Derived where
  | gridHourly
  | nodeHourly (graphId : String)
  | cost
  | split
deriving DecidableEq, Repr

namespace Derived

/-- The file is on the card. -/
def stored (c : Card) (date : DateStr) : Derived → Bool
  | gridHourly => (c.gridHourly date).isSome
  | nodeHourly id => (c.nodeHourly id date).isSome
  | cost => (c.cost date).isSome
  | split => (c.split date).isSome

/-- The file, if it is there, is what would be made now of those that it is made from. -/
def Agrees (streams : List Stream) (c : Card) (date : DateStr) : Derived → Prop
  | gridHourly => ∀ recs ∈ c.gridHourly date, (c.grid date).map rollup = some recs
  | nodeHourly id => ∀ recs ∈ c.nodeHourly id date, (c.node id date).map rollup = some recs
  | cost => ∀ dc ∈ c.cost date, computeDayCost c.toInputs date streams = some dc
  | split => ∀ doc ∈ c.split date, ∃ start, (date, start) ∈ c.starts ∧
      (computeDaySplit c.toInputs date streams start).map (·.doc) = some doc

/-- The file is the same on both cards. -/
def SameFile (c c' : Card) (date : DateStr) : Derived → Prop
  | gridHourly => c'.gridHourly date = c.gridHourly date
  | nodeHourly id => c'.nodeHourly id date = c.nodeHourly id date
  | cost => c'.cost date = c.cost date
  | split => c'.split date = c.split date

/-- So are the files that it is made from. -/
def SameInputs (c c' : Card) (date : DateStr) : Derived → Prop
  | gridHourly => c'.grid date = c.grid date
  | nodeHourly id => c'.node id date = c.node id date
  | cost => c'.grid date = c.grid date ∧ (∀ id, c'.node id date = c.node id date) ∧
      c'.tariff date = c.tariff date ∧ c'.price date = c.price date
  | split => c'.grid date = c.grid date ∧ (∀ id, c'.node id date = c.node id date) ∧
      ∀ id, c'.soc id date = c.soc id date

end Derived

/-! ## What a derived file depends on -/

section Congr

variable {c c' : Inputs} {date : DateStr}

theorem nodeMinutes_congr (hnode : ∀ id, c'.node id date = c.node id date) (dayStart : ℤ) :
    nodeMinutes c' date dayStart = nodeMinutes c date dayStart := by
  funext s i
  unfold nodeMinutes
  rw [hnode]

theorem suppliedBy_congr (hnode : ∀ id, c'.node id date = c.node id date) (dayStart : ℤ)
    (streams : List Stream) (role : Role) :
    suppliedBy c' date dayStart streams role = suppliedBy c date dayStart streams role := by
  funext i
  unfold suppliedBy
  rw [nodeMinutes_congr hnode]

theorem tariffLoadDay_congr (htariff : c'.tariff date = c.tariff date)
    (hprice : c'.price date = c.price date) : tariffLoadDay c' date = tariffLoadDay c date := by
  unfold tariffLoadDay loadTariffFile commodityPriceLoadDay CommodityPrice.loadDay
  rw [htariff, hprice]

/-- A cost depends on the grid, node, tariff and price files of its day alone. -/
theorem computeDayCost_congr (hgrid : c'.grid date = c.grid date)
    (hnode : ∀ id, c'.node id date = c.node id date) (htariff : c'.tariff date = c.tariff date)
    (hprice : c'.price date = c.price date) (streams : List Stream) :
    computeDayCost c' date streams = computeDayCost c date streams := by
  unfold computeDayCost
  rw [tariffLoadDay_congr htariff hprice, hgrid]
  simp only [nodeMinutes_congr hnode, suppliedBy_congr hnode]

/-- A split depends on the grid, node and charge files of its day, and on its start ledger. -/
theorem computeDaySplit_congr (hgrid : c'.grid date = c.grid date)
    (hnode : ∀ id, c'.node id date = c.node id date) (hsoc : ∀ id, c'.soc id date = c.soc id date)
    (streams : List Stream) (start : BatteryLedger) :
    computeDaySplit c' date streams start = computeDaySplit c date streams start := by
  unfold computeDaySplit dayArrays socMinutes
  rw [hgrid]
  simp only [nodeMinutes_congr hnode, suppliedBy_congr hnode, hsoc]

end Congr

/-- A derived file goes on agreeing while neither it nor what it is made from changes. -/
theorem Derived.Agrees.congr {streams : List Stream} {c c' : Card} {date : DateStr} {k : Derived}
    (h : k.Agrees streams c date) (hfile : k.SameFile c c' date)
    (hinputs : k.SameInputs c c' date) (hstarts : ∀ p ∈ c.starts, p ∈ c'.starts) :
    k.Agrees streams c' date := by
  cases k with
  | gridHourly =>
    intro recs hrecs
    rw [show c'.gridHourly date = c.gridHourly date from hfile] at hrecs
    rw [show c'.grid date = c.grid date from hinputs]
    exact h recs hrecs
  | nodeHourly id =>
    intro recs hrecs
    rw [show c'.nodeHourly id date = c.nodeHourly id date from hfile] at hrecs
    rw [show c'.node id date = c.node id date from hinputs]
    exact h recs hrecs
  | cost =>
    obtain ⟨hgrid, hnode, htariff, hprice⟩ := hinputs
    intro dc hdc
    rw [show c'.cost date = c.cost date from hfile] at hdc
    rw [computeDayCost_congr hgrid hnode htariff hprice]
    exact h dc hdc
  | split =>
    obtain ⟨hgrid, hnode, hsoc⟩ := hinputs
    intro doc hdoc
    rw [show c'.split date = c.split date from hfile] at hdoc
    obtain ⟨start, hstart, hcompute⟩ := h doc hdoc
    refine ⟨start, hstarts _ hstart, ?_⟩
    rwa [computeDaySplit_congr hgrid hnode hsoc]

theorem Derived.SameFile.stored {c c' : Card} {date : DateStr} {k : Derived}
    (h : k.SameFile c c' date) : k.stored c' date = k.stored c date := by
  cases k <;> exact congrArg Option.isSome h

theorem Derived.sameInputs_of_eq {c c' : Card} (h : c'.toInputs = c.toInputs) (date : DateStr)
    (k : Derived) : k.SameInputs c c' date := by
  have hgrid : c'.grid = c.grid := congrArg Inputs.grid h
  have hnode : c'.node = c.node := congrArg Inputs.node h
  have hsoc : c'.soc = c.soc := congrArg Inputs.soc h
  have htariff : c'.tariff = c.tariff := congrArg Inputs.tariff h
  have hprice : c'.price = c.price := congrArg Inputs.price h
  cases k with
  | gridHourly => exact congrFun hgrid date
  | nodeHourly id => exact congrFun (congrFun hnode id) date
  | cost =>
    exact ⟨congrFun hgrid date, fun id => congrFun (congrFun hnode id) date,
      congrFun htariff date, congrFun hprice date⟩
  | split =>
    exact ⟨congrFun hgrid date, fun id => congrFun (congrFun hnode id) date,
      fun id => congrFun (congrFun hsoc id) date⟩

end HomeEnergyManager.DayFiles
