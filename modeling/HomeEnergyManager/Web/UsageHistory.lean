import Mathlib.Algebra.BigOperators.Group.List.Basic
import Mathlib.Data.List.Sort
import HomeEnergyManager.Lib.OrderedMap
import HomeEnergyManager.PowerLogger.Queries

/-! # The usage history of the page

`buildHistory` turns the answer to `/api/data/daily-energy` into stacked bars, one for each day, and
into a table with one row for each appliance and one for what no appliance meters.

Reference: `firmware/html_app/src/Power.tsx`.
-/

namespace HomeEnergyManager.UsageHistory

open NodePowerLogger (DailyEnergy DayRow)
open OrderedMap (get update)

def UNMONITORED_ID : String := "__unmonitored"

def UNMONITORED_COLOR : String := "#94a3b8"

def PALETTE : List String :=
  ["#3b82f6", "#f59e0b", "#10b981", "#ef4444", "#8b5cf6", "#ec4899", "#14b8a6", "#f97316"]

/-- An object of the document; the last value of a key counts. -/
def object {β : Type*} (members : List (String × β)) : List (String × β) :=
  members.foldl (fun m p => update p.1 (fun _ => p.2) m) []

/-- `?? 0` -/
def orZero (v : Option ℚ) : ℚ := v.getD 0

/-- An entry of `days`. -/
structure Day where
  date : List Char
  total : Option ℚ
  parts : List (String × ℚ)
deriving DecidableEq, Repr

/-- `Series` -/
structure Series where
  id : String
  label : String
  color : String
  total : ℚ
  cost : ℚ
  solar : ℚ
  grid : ℚ
deriving DecidableEq, Repr

structure History where
  days : List Day
  series : List Series
  hasGrid : Bool
  costedDays : ℕ
deriving DecidableEq, Repr

/-- The ids of the nodes with a role. -/
def idsOf (data : DailyEnergy) (role : String) : List String :=
  (data.nodes.filter (·.2 = role)).map (·.1)

/-- `loadIds`: sorted, so that a device keeps its colour. -/
def loadIds (data : DailyEnergy) : List String :=
  (idsOf data "load").insertionSort (· ≤ ·)

/-- `parts` of the appliances. -/
def loadParts (ids : List String) (kwh : List (String × ℚ)) : List (String × ℚ) :=
  ids.foldl (fun parts id => update id (fun _ => max 0 (orZero (get kwh id))) parts) []

/-- One day of the history. -/
def historyDay (data : DailyEnergy) (d : DayRow) : Day :=
  let kwh := object d.kwh
  if (idsOf data "grid").any fun id => (get kwh id).isSome then
    let sum (ids : List String) : ℚ := (ids.map fun id => orZero (get kwh id)).sum
    let parts := loadParts (loadIds data) kwh
    let loads := (parts.map (·.2)).sum
    let total := max loads (sum (idsOf data "grid") - sum (idsOf data "solar"))
    { date := d.date
      total := some total
      parts := update UNMONITORED_ID (fun _ => total - loads) parts }
  else { date := d.date, total := none, parts := [] }

def totalOf (days : List Day) (id : String) : ℚ := (days.map fun d => orZero (get d.parts id)).sum

/-- `d.cost?.[id]` -/
def dayCostOf (id : String) (d : DayRow) : ℚ :=
  orZero (d.cost.bind fun cost => get (object cost) id)

def costOf (data : DailyEnergy) (id : String) : ℚ := (data.days.map (dayCostOf id)).sum

/-- `d.solar_kwh?.[id]` and `d.grid_kwh?.[id]` -/
def daySplitOf (id : String) (d : DayRow) : ℚ × ℚ :=
  let split := d.split.bind fun split => get (object split) id
  (orZero (split.map (·.1)), orZero (split.map (·.2)))

def seriesFor (data : DailyEnergy) (days : List Day) (id label color : String) : Series :=
  { id := id
    label := label
    color := color
    total := totalOf days id
    cost := costOf data id
    solar := (data.days.map fun d => (daySplitOf id d).1).sum
    grid := (data.days.map fun d => (daySplitOf id d).2).sum }

/-- `buildHistory`; `labels` gives the names of the nodes. -/
def buildHistory (data : DailyEnergy) (labels : String → Option String) : History :=
  let days := data.days.map (historyDay data)
  let rows := (loadIds data).zipIdx.map fun p =>
    seriesFor data days p.1 ((labels p.1).getD p.1) (PALETTE.getD (p.2 % PALETTE.length) "")
  let series := rows.insertionSort fun a b => b.total ≤ a.total
  { days := days
    series := series ++ [seriesFor data days UNMONITORED_ID "Unmonitored" UNMONITORED_COLOR]
    hasGrid := !(idsOf data "grid").isEmpty
    costedDays := (data.days.filter (·.cost.isSome)).length }

/-- `grandTotal`: the last row of the table. -/
def grandTotal (h : History) : ℚ := (h.days.map fun d => orZero d.total).sum

/-- `totalCost` -/
def totalCost (h : History) : ℚ := (h.series.map (·.cost)).sum

/-! ## The rows of the table -/

section Rows

variable (data : DailyEnergy) (labels : String → Option String)

/-- The ids that have a row: the appliances, and what no appliance meters. -/
def shownIds : List String := loadIds data ++ [UNMONITORED_ID]

theorem sum_series {f : Series → ℚ} {g : String → ℚ}
    (hf : ∀ id label color, f (seriesFor data (data.days.map (historyDay data)) id label color)
      = g id) :
    ((buildHistory data labels).series.map f).sum = ((shownIds data).map g).sum := by
  have hids : (loadIds data).zipIdx.map (fun p => g p.1) = (loadIds data).map g := by
    conv_rhs => rw [← List.zipIdx_map_fst 0 (loadIds data), List.map_map]
    rfl
  rw [buildHistory]
  dsimp only
  rw [List.map_append, List.sum_append, List.map_singleton, List.sum_singleton, hf,
    ((List.perm_insertionSort _ _).map f).sum_eq, List.map_map, shownIds, List.map_append,
    List.sum_append, List.map_singleton, List.sum_singleton, ← hids]
  simp only [Function.comp_def, hf]

end Rows

theorem sum_map_sum_comm {α β : Type*} (l : List α) (l' : List β) (f : α → β → ℚ) :
    (l.map fun a => (l'.map (f a)).sum).sum = (l'.map fun b => (l.map fun a => f a b).sum).sum := by
  induction l with
  | nil => exact List.sum_map_zero.symm
  | cons a l ih =>
    rw [List.map_cons, List.sum_cons, ih, ← List.sum_map_add]
    rfl

/-- The nodes of the document, each once; none of them has the key of the remainder. -/
structure WellNamed (data : DailyEnergy) : Prop where
  nodup : (data.nodes.map (·.1)).Nodup
  unmonitored : UNMONITORED_ID ∉ data.nodes.map (·.1)

section Named

variable {data : DailyEnergy} (h : WellNamed data)
include h

theorem WellNamed.nodup_loadIds : (loadIds data).Nodup := by
  rw [loadIds, (List.perm_insertionSort _ _).nodup_iff, idsOf]
  exact h.nodup.sublist (List.filter_sublist.map _)

theorem WellNamed.notMem_loadIds : UNMONITORED_ID ∉ loadIds data := by
  rw [loadIds, List.mem_insertionSort, idsOf]
  intro hmem
  exact h.unmonitored ((List.filter_sublist.map _).mem hmem)

theorem WellNamed.nodup_shownIds : (shownIds data).Nodup := by
  rw [shownIds, List.nodup_append]
  refine ⟨h.nodup_loadIds, List.nodup_singleton _, ?_⟩
  intro id hid id' hid'
  rintro rfl
  exact h.notMem_loadIds (List.mem_singleton.mp hid' ▸ hid)

/-- Each appliance has one part. -/
theorem WellNamed.loadParts_eq (kwh : List (String × ℚ)) :
    loadParts (loadIds data) kwh
      = (loadIds data).map fun id => (id, max 0 (orZero (get kwh id))) := by
  rw [loadParts, OrderedMap.foldl_update_of_nodup (fun id => id)
    (fun id _ => max 0 (orZero (get kwh id))) (by simpa using h.nodup_loadIds)]
  rfl

/-- The parts of a day make up its total. -/
theorem WellNamed.sum_parts (d : DayRow) :
    ((shownIds data).map fun id => orZero (get (historyDay data d).parts id)).sum
      = orZero (historyDay data d).total := by
  rw [shownIds, List.map_append, List.sum_append, List.map_singleton, List.sum_singleton,
    historyDay]
  dsimp only
  split
  · rw [h.loadParts_eq]
    have hparts : ∀ id ∈ loadIds data, ∀ v : Option ℚ → ℚ,
        orZero (get (update UNMONITORED_ID v ((loadIds data).map fun id =>
          (id, max 0 (orZero (get (object d.kwh) id))))) id)
          = max 0 (orZero (get (object d.kwh) id)) := by
      intro id hid v
      have hne : UNMONITORED_ID ≠ id := fun heq => h.notMem_loadIds (heq ▸ hid)
      rw [OrderedMap.get_update, if_neg hne, OrderedMap.get_map_of_mem _ hid]
      rfl
    rw [List.map_congr_left fun id hid => hparts id hid _, OrderedMap.get_update, if_pos rfl,
      List.map_map]
    exact add_sub_cancel _ _
  · have hnone : ((loadIds data).map fun id => orZero (get [] id)).sum = 0 := List.sum_map_zero
    exact (congrArg (· + 0) hnone).trans (zero_add 0)

end Named

/-- No bar is below the axis. -/
theorem part_nonneg (data : DailyEnergy) (h : WellNamed data) (d : DayRow) (id : String) :
    0 ≤ orZero (get (historyDay data d).parts id) := by
  rw [historyDay]
  dsimp only
  split
  · rw [OrderedMap.get_update]
    split
    · exact sub_nonneg.mpr (le_max_left _ _)
    · rw [h.loadParts_eq]
      by_cases hid : id ∈ loadIds data
      · rw [OrderedMap.get_map_of_mem _ hid]
        exact le_max_left _ _
      · rw [OrderedMap.get_map_of_notMem _ hid]
        exact le_rfl
  · exact le_rfl

/-- The grid and a heater; the cooker of the day before is gone. -/
def heaterDays : DailyEnergy :=
  { nodes := [("grid_meter", "grid"), ("heater", "load")]
    days :=
      [{ date := "2024-01-01".toList
         kwh := [("grid_meter", 10), ("heater", 4)]
         cost := some [("heater", 2), ("cooker", 1), (UNMONITORED_ID, 3)]
         split := none }]
    currency := none }

theorem wellNamed_heaterDays : WellNamed heaterDays := ⟨by decide, by decide⟩

/-- What the document says a day cost, for the keys that `keep` picks. -/
def dayCostFor (keep : String → Bool) (d : DayRow) : ℚ :=
  orZero (d.cost.map fun cost => (((object cost).filter fun p => keep p.1).map (·.2)).sum)

/-- What the document says all days cost, for the keys that `keep` picks. -/
def documentCost (data : DailyEnergy) (keep : String → Bool) : ℚ :=
  (data.days.map (dayCostFor keep)).sum

theorem nodup_object {β : Type*} (members : List (String × β)) :
    ((object members).map Prod.fst).Nodup :=
  OrderedMap.nodup_keys_foldl_update _ _ _ List.nodup_nil

/-- What the rows show of a day's cost, and what no row shows. -/
theorem WellNamed.sum_dayCostOf {data : DailyEnergy} (h : WellNamed data) (d : DayRow) :
    ((shownIds data).map fun id => dayCostOf id d).sum + dayCostFor (· ∉ shownIds data) d
      = dayCostFor (fun _ => true) d := by
  unfold dayCostOf dayCostFor
  cases d.cost with
  | none =>
    have hnone : ((shownIds data).map fun _ => orZero none).sum = 0 := List.sum_map_zero
    exact (congrArg (· + 0) hnone).trans (zero_add 0)
  | some cost =>
    have hrows : ((shownIds data).map fun id => (get (object cost) id).getD 0).sum
        = (((object cost).filter fun p => p.1 ∈ shownIds data).map Prod.snd).sum :=
      OrderedMap.sum_get_eq (nodup_object cost) h.nodup_shownIds
    have hall := List.sum_map_filter_add_sum_map_filter_not
      (fun p : String × ℚ => p.1 ∈ shownIds data) Prod.snd (object cost)
    simp only [Option.bind_some, Option.map_some, orZero, Option.getD_some, List.filter_true]
    rw [hrows]
    exact hall

end HomeEnergyManager.UsageHistory
