import HomeEnergyManager.Lib.FirstSeen
import HomeEnergyManager.PowerLogger.Sampling

/-! # The topology graph and its two readers

The graph of the installation is one JSON document. `enumerate_appliances` visits the loads that are
profiled and scheduled, and `refresh_streams` rebuilds the streams that are recorded. Each walks the
edges with filters of its own. A member that is no string, or missing, is `none`.

Reference: `firmware/main/appliance_profile.c`, `firmware/main/node_power_logger.cpp`.
-/

namespace HomeEnergyManager.Topology

open NodePowerLogger

def CONSUMER_UNIT_ID : String := "consumer_unit"

def GRID_NODE_ID : String := "grid_meter"

/-- The cap on the appliances of a graph. -/
def MAX_APPLIANCES : ℕ := 32

/-- `settings` of a node; `nodeId` and `endpointId` are numbers. -/
structure Settings where
  type : Option String := none
  name : Option String := none
  label : Option String := none
  nodeId : Option ℚ := none
  endpointId : Option ℚ := none
deriving DecidableEq, Repr

structure Node where
  id : Option String
  settings : Option Settings := none
deriving DecidableEq, Repr

structure Edge where
  source : Option String
  target : Option String
  sourceHandle : Option String := none
  targetHandle : Option String := none
deriving DecidableEq, Repr

structure Graph where
  nodes : List Node
  edges : List Edge
deriving DecidableEq, Repr

/-- The first node of an id. -/
def findNode (nodes : List Node) (id : String) : Option Node := nodes.find? (·.id = some id)

/-- `strncmp` with the length of the prefix. -/
def startsWith (s pre : String) : Bool := pre.toList.isPrefixOf s.toList

/-- `is_distribution_node`, which both files have. -/
def isDistributionNode (nodes : List Node) (id : String) : Bool :=
  id = CONSUMER_UNIT_ID ||
    ((findNode nodes id).bind (·.settings)).bind (·.type) = some "subConsumerUnit"

/-- The other end of an edge that touches one distribution node, and the handle it is wired to. -/
def boardEnd (nodes : List Node) (e : Edge) : Option (String × Option String) :=
  match e.source, e.target with
  | some src, some tgt =>
    if isDistributionNode nodes src && !isDistributionNode nodes tgt then some (tgt, e.sourceHandle)
    else if isDistributionNode nodes tgt && !isDistributionNode nodes src then
      some (src, e.targetHandle)
    else none
  | _, _ => none

/-! ## `enumerate_appliances` -/

/-- `handle_is_appliance`. -/
def handleIsAppliance : Option String → Bool
  | none => true
  | some handle =>
    !startsWith handle "grid" && !startsWith handle "solar" && !startsWith handle "battery"

/-- `node_display_name`: the name, else the label, if it is not empty. -/
def nodeDisplayName (nodes : List Node) (id : String) : Option String :=
  ((findNode nodes id).bind (·.settings)).bind fun settings =>
    (settings.name.filter (· ≠ "")).or (settings.label.filter (· ≠ ""))

/-- What an edge gives to visit: the id and the name of its appliance. -/
def applianceOf (nodes : List Node) (e : Edge) : Option (String × Option String) :=
  match boardEnd nodes e with
  | none => none
  | some (other, handle) =>
    if other = GRID_NODE_ID then none
    else if !handleIsAppliance handle then none
    else if !sanitizeToken other.toList then none
    else some (other, nodeDisplayName nodes other)

/-- The loop over the edges; `seen` are the visits so far. -/
def visitEdges (nodes : List Node) :
    List (String × Option String) → List Edge → List (String × Option String)
  | seen, [] => seen
  | seen, e :: edges =>
    match applianceOf nodes e with
    | none => visitEdges nodes seen edges
    | some visit =>
      if visit.1 ∈ seen.map Prod.fst then visitEdges nodes seen edges
      else if MAX_APPLIANCES ≤ seen.length then seen
      else visitEdges nodes (seen ++ [visit]) edges

/-- `enumerate_appliances`: the visits. -/
def enumerateAppliances (g : Graph) : List (String × Option String) := visitEdges g.nodes [] g.edges

/-! ## `refresh_streams` -/

/-- The role of a node by the handle of the board. -/
def roleOf (other : String) (cuHandle : Option String) : Role :=
  if other = GRID_NODE_ID || cuHandle = some "grid" then .grid
  else if cuHandle.any (startsWith · "solar") then .solar
  else .load

/-- What an edge gives to connect: the home battery, or the metered node at a board. -/
def connectionOf (nodes : List Node) (e : Edge) : Option (String × Role) :=
  match e.source, e.target with
  | some _, some tgt =>
    if e.sourceHandle = some "battery" then some (tgt, .battery)
    else
      match boardEnd nodes e with
      | none => none
      | some (other, cuHandle) =>
        -- the tariff source meters nothing
        if cuHandle = some "tariff" then none else some (other, roleOf other cuHandle)
  | _, _ => none

/-- One pass of the loop over the edges. -/
def connectEdge (nodes : List Node) (connected : List (String × Role)) (e : Edge) :
    List (String × Role) :=
  match connectionOf nodes e with
  | none => connected
  | some c => if c.1 ∈ connected.map Prod.fst then connected else connected ++ [c]

/-- The conversion of a JSON number to an unsigned integer of `w` bits. -/
def toUnsigned (w : ℕ) (x : ℚ) : ℕ := ⌊x⌋.toNat % 2 ^ w

/-- The stream of a connected node that has a Matter node and endpoint. -/
def streamOf (nodes : List Node) (c : String × Role) : Option SampledStream :=
  if sanitizeToken c.1.toList then
    ((findNode nodes c.1).bind (·.settings)).bind fun settings =>
      match settings.nodeId, settings.endpointId with
      | some nid, some eid =>
        some { graphId := c.1, role := c.2, nodeId := toUnsigned 64 nid,
               endpointId := toUnsigned 16 eid }
      | _, _ => none
  else none

/-- `refresh_streams`: the streams that are tracked. -/
def refreshStreams (g : Graph) : List SampledStream :=
  (g.edges.foldl (connectEdge g.nodes) []).filterMap (streamOf g.nodes)

end HomeEnergyManager.Topology
