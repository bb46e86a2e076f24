import Mathlib.Data.Rat.Defs

/-! # The canvas

The nodes and edges that the topology page draws, with what its handlers read of them. A handle
that is null or missing is `none`, and so is a field of an edge's data that was never set.

Reference: `firmware/html_app/src/Topology.tsx`.
-/

namespace HomeEnergyManager.Canvas

/-- The data of a power edge. -/
structure FlowData where
  kw : Option ℚ := none
  meteredKw : Option ℚ := none
  rawKw : Option ℚ := none
  idle : Option Bool := none
deriving DecidableEq

structure Edge where
  id : String
  source : String
  target : String
  sourceHandle : Option String := none
  targetHandle : Option String := none
  data : Option FlowData := none
deriving DecidableEq

structure Node where
  id : String
  type : Option String := none
  deletable : Option Bool := none
  selected : Bool := false
  nodeId : Option ℕ := none
  endpointId : Option ℕ := none
deriving DecidableEq

/-- The main consumer unit. -/
def consumerUnitId : String := "consumer_unit"

/-- `UNALLOCATED_ID`. -/
def unallocatedId : String := "unallocated"

/-- `UNALLOCATED_EDGE_ID`. -/
def unallocatedEdgeId : String := "consumer_unit-unallocated-unallocated-power-in"

/-- `unallocatedEdge` of `onInit`. -/
def unallocatedEdge : Edge where
  id := unallocatedEdgeId
  source := consumerUnitId
  sourceHandle := some "unallocated"
  target := unallocatedId
  targetHandle := some "power-in"
  data := some { kw := some 0 }

end HomeEnergyManager.Canvas
