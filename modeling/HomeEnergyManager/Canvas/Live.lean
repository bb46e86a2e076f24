import HomeEnergyManager.Canvas.Balance
import HomeEnergyManager.Lib.StepSystem

/-! # The live canvas

`onInit` stamps the cached readings on the saved edges and derives the other flows. From then on a
frame of attribute reports stamps only the edges that its endpoints meter, on top of what was
derived before, and an edge that is drawn starts without a reading.

What the nodes themselves show (power, battery, status) is left out: no edge reads it.

Reference: `onInit`, `handleWsMessage` and `onConnect` in `firmware/html_app/src/Topology.tsx`.
-/

namespace HomeEnergyManager.Canvas

open OrderedMap

/-! ## Readings -/

structure PowerMeasurement where
  voltage : Option ℚ := none
  current : Option ℚ := none
  power : Option ℚ := none
deriving DecidableEq

inductive LoadStatus where
  | running
  | standby
  | off
deriving DecidableEq

def STANDBY_BAND_HALF_W : ℚ := 5 / 2

def OFF_FLOOR_W : ℚ := 1

/-- `loadStatus`, of a reading in mW; without a reading there is no status. -/
def loadStatus (powerMw : Option ℚ) (standbyW : ℚ) : Option LoadStatus :=
  powerMw.map fun powerMw =>
    let w := powerMw / 1000
    if standbyW ≤ 0 then if w ≤ STANDBY_BAND_HALF_W * 2 then .off else .running
    else if w < OFF_FLOOR_W then .off
    else if w ≤ standbyW + STANDBY_BAND_HALF_W then .standby
    else .running

def EPM_CLUSTER : ℕ := 144
def EPM_VOLTAGE : ℕ := 0x04
def EPM_CURRENT : ℕ := 0x05
def EPM_POWER : ℕ := 0x08

structure ValueEntry where
  clusterId : ℕ
  attributeId : ℕ
  value : ℚ
deriving DecidableEq

def powerFromAttribute (clusterId attributeId : ℕ) (value : ℚ) : PowerMeasurement :=
  if clusterId = EPM_CLUSTER then
    if attributeId = EPM_VOLTAGE then { voltage := some value }
    else if attributeId = EPM_CURRENT then { current := some value }
    else if attributeId = EPM_POWER then { power := some value }
    else {}
  else {}

/-- `{ ...acc, ...pm }`. -/
def PowerMeasurement.merge (acc pm : PowerMeasurement) : PowerMeasurement where
  voltage := pm.voltage.or acc.voltage
  current := pm.current.or acc.current
  power := pm.power.or acc.power

/-! ## Loading -/

structure SavedNode where
  id : String
  type : Option String := none
  deletable : Option Bool := none
  nodeId : Option ℕ := none
  endpointId : Option ℕ := none
  values : List ValueEntry := []
deriving DecidableEq

structure SavedEdge where
  id : String
  source : String
  target : String
  sourceHandle : Option String := none
  targetHandle : Option String := none
deriving DecidableEq

structure ApplianceProfile where
  graphId : String
  trained : Bool
  standbyW : Option ℚ := none
deriving DecidableEq

/-- What the firmware serves. -/
structure SavedTopology where
  nodes : List SavedNode
  edges : List SavedEdge
  profiles : List ApplianceProfile
  /-- The firmware keeps one node for each id. -/
  nodup : (nodes.map (·.id)).Nodup

/-- `standbyMap`: the learned standby of the appliances; 0 is one that cannot be told from off. -/
def standbyMapOf (profiles : List ApplianceProfile) : List (String × ℚ) :=
  profiles.foldl (fun m p =>
    let w := if p.trained then p.standbyW.getD 0 else 0
    update p.graphId (fun _ => if w ≤ STANDBY_BAND_HALF_W then 0 else w) m) []

/-- The measurement that cached values add up to. -/
def measurementOf (values : List ValueEntry) : PowerMeasurement :=
  values.foldl (fun acc v => acc.merge (powerFromAttribute v.clusterId v.attributeId v.value)) {}

/-- `powerByNode`. -/
def powerByNode (nodes : List SavedNode) : List (String × PowerMeasurement) :=
  nodes.foldl (fun m n =>
    let power := measurementOf n.values
    if power = {} then m else update n.id (fun _ => power) m) []

/-- `restoredNodes`, with the Unallocated node. -/
def restoredNodes (nodes : List SavedNode) : List Node :=
  let restored : List Node := nodes.map fun n =>
    { id := n.id
      type := n.type
      deletable := some (n.deletable != some false)
      nodeId := n.nodeId
      endpointId := n.endpointId }
  if restored.any (·.id = unallocatedId) then restored
  else restored ++ [{ id := unallocatedId, type := some "unallocated", deletable := some false }]

/-- A saved edge on the canvas, with its reading. -/
def restoreEdge (powerByNode : List (String × PowerMeasurement)) (standbyMap : List (String × ℚ))
    (e : SavedEdge) : Edge :=
  let edge : Edge :=
    { id := e.id, source := e.source, target := e.target
      sourceHandle := e.sourceHandle, targetHandle := e.targetHandle }
  if isTariffEdge edge then edge
  else
    let meteredId := edgePowerNodeId edge
    let power := (get powerByNode meteredId).bind (·.power)
    let status := (get standbyMap meteredId).bind (loadStatus power)
    let kw := power.elim 0 (edgeKw edge meteredId)
    let data : FlowData :=
      { kw := some kw
        meteredKw := some kw
        idle := some (status.isSome && status != some .running) }
    { edge with data := some data }

/-- `onInit`: the edges on the canvas. -/
def onInit (t : SavedTopology) : Option (List Edge) :=
  let savedEdges := t.edges.filter (·.id ≠ unallocatedEdgeId)
  withDerivedFlows
    (savedEdges.map (restoreEdge (powerByNode t.nodes) (standbyMapOf t.profiles)) ++
      [unallocatedEdge])
    (subCuIdsOf (restoredNodes t.nodes))

/-! ## Attribute reports -/

structure AttrEntry where
  nodeId : ℕ
  endpointId : ℕ
  clusterId : ℕ
  attributeId : ℕ
  value : ℚ
deriving DecidableEq

inductive WsMessage where
  | deviceCommissioned
  | attributeBatch (entries : List AttrEntry)
  | attributeUpdate (entry : AttrEntry)

/-- `powerByKey`: what a frame says of each endpoint. -/
def powerByKey (entries : List AttrEntry) : List ((ℕ × ℕ) × PowerMeasurement) :=
  entries.foldl (fun m d =>
    let pm := powerFromAttribute d.clusterId d.attributeId d.value
    if pm = {} then m else update (d.nodeId, d.endpointId) (fun o => (o.getD {}).merge pm) m) []

/-- The endpoint that a node stands for. -/
def endpointOf (nodeId endpointId : Option ℕ) : Option (ℕ × ℕ) :=
  nodeId.bind fun n => endpointId.map fun e => (n, e)

/-- `powerByRfId`: what it says of each node, if it has the power. -/
def powerByRfId (nodes : List Node) (powerByKey : List ((ℕ × ℕ) × PowerMeasurement)) :
    List (String × PowerMeasurement) :=
  nodes.foldl (fun m n =>
    match (endpointOf n.nodeId n.endpointId).bind (get powerByKey) with
    | some power => if power.power.isSome then update n.id (fun _ => power) m else m
    | none => m) []

/-- The stamp of a frame on an edge. -/
def Edge.stamp (standbyMap : List (String × ℚ)) (subCuIds : List String)
    (powerByRfId : List (String × PowerMeasurement)) (e : Edge) : Edge :=
  if e.target ∈ subCuIds then e
  else
    let meteredId := edgePowerNodeId e
    match (get powerByRfId meteredId).bind (·.power) with
    | none => e
    | some power =>
      let idle := (get standbyMap meteredId).any fun standbyW =>
        loadStatus (some power) standbyW != some .running
      let kw := edgeKw e meteredId power
      { e with data := some { e.data.getD {} with
          kw := some kw, meteredKw := some kw, idle := some idle } }

/-- `handleWsMessage`, as far as the edges go. -/
def handleWsMessage (nodes : List Node) (standbyMap : List (String × ℚ)) (msg : WsMessage)
    (edges : List Edge) : Option (List Edge) :=
  match msg with
  | .deviceCommissioned => some edges
  | .attributeBatch entries => handle entries
  | .attributeUpdate entry => handle [entry]
where
  handle (entries : List AttrEntry) : Option (List Edge) :=
    let powerByRfId := powerByRfId nodes (powerByKey entries)
    let subCuIds := subCuIdsOf nodes
    if powerByRfId = [] then some edges
    else withDerivedFlows (edges.map (·.stamp standbyMap subCuIds powerByRfId)) subCuIds

/-! ## Drawing an edge -/

/-- `addEdge` of the canvas library: it adds an edge at the end, or refuses it. -/
structure AddEdge where
  addEdge : Edge → List Edge → List Edge
  adds_or_not : ∀ e edges, addEdge e edges = edges ∨ addEdge e edges = edges ++ [e]

/-- The two ends of a drawn edge. -/
structure Connection where
  source : String
  target : String
  sourceHandle : Option String := none
  targetHandle : Option String := none
deriving DecidableEq

/-- `edgeId`. -/
def Connection.edgeId (c : Connection) : String :=
  "-".intercalate (([some c.source, c.sourceHandle, some c.target, c.targetHandle].filterMap
    id).filter (· ≠ ""))

/-- `newEdge`. -/
def Connection.newEdge (c : Connection) : Edge :=
  let edge : Edge :=
    { id := c.edgeId, source := c.source, target := c.target
      sourceHandle := c.sourceHandle, targetHandle := c.targetHandle }
  if isTariffEdge edge then edge else { edge with data := some { kw := some 0 } }

/-- `onConnect`. -/
def onConnect (lib : AddEdge) (edges : List Edge) (c : Connection) : List Edge :=
  lib.addEdge c.newEdge edges

end HomeEnergyManager.Canvas
