import Mathlib.Data.Finset.Basic
import HomeEnergyManager.Lib.Double
import HomeEnergyManager.Lib.Slots
import HomeEnergyManager.Topology.Graph

/-! # The appliance slots of the home screen

A load with an id `appliance_N` has slot N for its own. The others are sorted by the number that
their ids end in and go into the empty slots, and past the last one.

Reference: `applianceSlots` in `firmware/html_app/src/Home.tsx`.
-/

namespace HomeEnergyManager.Home

open HomeEnergyManager.Topology (startsWith)

structure Settings where
  label : Option String := none
  name : Option String := none
  type : Option String := none
  nodeId : Option ℕ := none
  endpointId : Option ℕ := none
  excludeFromScheduling : Option Bool := none
deriving DecidableEq

structure SavedNode where
  id : String
  x : Option ℚ := none
  y : Option ℚ := none
  settings : Option Settings := none
deriving DecidableEq

structure SavedEdge where
  id : String
  source : String
  target : String
  sourceHandle : Option String := none
  targetHandle : Option String := none
deriving DecidableEq

structure SimpleDevice where
  nodeId : ℕ
  endpointId : ℕ
  label : String
  name : Option String
  hasElectricalSensor : Bool
  hasSolarPower : Bool
  excludeFromScheduling : Option Bool
deriving DecidableEq

structure ApplianceSlot where
  graphId : String
  type : String
  x : Option ℚ
  y : Option ℚ
  device : SimpleDevice
deriving DecidableEq

def APPLIANCE_SLOTS : List String :=
  (List.range 10).map fun i => "Appliance " ++ toString (i + 1)

@[simp] theorem length_APPLIANCE_SLOTS : APPLIANCE_SLOTS.length = 10 := by
  rw [APPLIANCE_SLOTS, List.length_map, List.length_range]

def CU_ID : String := "consumer_unit"

def LOAD_TYPES : List String := ["device", "appliance"]

def isSupplyHandle (handle : Option String) : Bool :=
  handle.any fun h => startsWith h "grid" || startsWith h "solar" || startsWith h "battery"

/-! ## The numbers in an id -/

/-- `/^appliance_(\d+)$/`. -/
def ownDigits (id : String) : Option (List Char) :=
  (List.isPrefixOf? "appliance_".toList id.toList).filter fun digits =>
    digits ≠ [] && digits.all Char.isDigit

/-- `/(\d+)$/`, or `'0'`. -/
def suffixDigits (id : String) : List Char :=
  let digits := (id.toList.reverse.takeWhile Char.isDigit).reverse
  if digits = [] then ['0'] else digits

/-- The number that digits stand for. -/
def digitsValue (digits : List Char) : ℕ := Nat.ofDigitChars 10 digits 0

/-- `parseInt` gives the nearest double. -/
def parseInt (digits : List Char) : WithTop ℕ := Double.nearest (digitsValue digits)

/-- `index`. An infinite one, which is no more in range than -1, is -1 here. -/
def ownIndex (id : String) : ℤ :=
  match ownDigits id with
  | some digits => (parseInt digits).untopD 0 - 1
  | none => -1

def order (id : String) : WithTop ℕ := parseInt (suffixDigits id)

/-! ## `applianceSlots` -/

/-- The supplies that an edge adds. -/
def addSupplies (supplyIds : Finset String) (e : SavedEdge) : Finset String :=
  let supplyIds :=
    if e.target = CU_ID && isSupplyHandle e.targetHandle then insert e.source supplyIds
    else supplyIds
  if e.source = CU_ID && isSupplyHandle e.sourceHandle then insert e.target supplyIds
  else supplyIds

def supplyIds (edges : List SavedEdge) : Finset String := edges.foldl addSupplies {"grid_meter"}

/-- The slot of a node that is not passed over. An empty label counts as none. -/
def loadSlot (supplyIds : Finset String) (n : SavedNode) : Option ApplianceSlot := do
  let s ← n.settings
  let type := s.type.getD ""
  if !LOAD_TYPES.contains type || n.id ∈ supplyIds then none
  let nodeId ← s.nodeId
  let endpointId ← s.endpointId
  let label ← s.label.filter (· ≠ "")
  return {
    graphId := n.id
    type := type
    x := n.x
    y := n.y
    device := {
      nodeId := nodeId
      endpointId := endpointId
      label := label
      name := s.name
      hasElectricalSensor := true
      hasSolarPower := false
      excludeFromScheduling := some (s.excludeFromScheduling = some true) } }

/-- The slots and the loads without one of their own. -/
structure Layout where
  slots : List (Option ApplianceSlot)
  others : List ApplianceSlot

def place (st : Layout) (slot : ApplianceSlot) : Layout :=
  let index := ownIndex slot.graphId
  if 0 ≤ index ∧ index < st.slots.length then
    { st with slots := st.slots.set index.toNat (some slot) }
  else { st with others := st.others ++ [slot] }

def placeNode (supplyIds : Finset String) (st : Layout) (n : SavedNode) : Layout :=
  match loadSlot supplyIds n with
  | some slot => place st slot
  | none => st

def placeOther (slots : List (Option ApplianceSlot)) (o : ApplianceSlot) :
    List (Option ApplianceSlot) :=
  match slots.findIdx? Option.isNone with
  | some free =>
    if free < APPLIANCE_SLOTS.length then slots.set free (some o) else slots ++ [some o]
  | none => slots ++ [some o]

/-- Where the difference of two orders is not a number (both are infinite), the sort takes them for
equal. -/
def applianceSlots (nodes : List SavedNode) (edges : List SavedEdge) :
    List (Option ApplianceSlot) :=
  let st := nodes.foldl (placeNode (supplyIds edges)) ⟨APPLIANCE_SLOTS.map fun _ => none, []⟩
  let others := st.others.insertionSort fun a b => order a.graphId ≤ order b.graphId
  others.foldl placeOther st.slots

end HomeEnergyManager.Home
