import Mathlib.Algebra.Order.Ring.Rat
import HomeEnergyManager.Canvas.Graph
import HomeEnergyManager.Lib.Acyclic
import HomeEnergyManager.Lib.OrderedMap

/-! # The flows on the canvas

A meter's reading is stamped on the edge that it meters. The other flows are derived: the feed of a
sub consumer unit is the total of its circuits, an edge that shares its handle with such feeds
carries what they leave of its reading, and the Unallocated edge carries what the main consumer unit
takes in and hands to nobody. A `Map` of the source is a list of entries in the order of their keys.

Reference: `firmware/html_app/src/Topology.tsx`.
-/

namespace HomeEnergyManager.Canvas

open OrderedMap

/-! ## Readings -/

def isTariffEdge (e : Edge) : Bool :=
  e.targetHandle == some "tariff" || e.sourceHandle == some "tariff"

/-- The node whose measurement drives an edge. -/
def edgePowerNodeId (e : Edge) : String :=
  if e.sourceHandle = some "power-out" then e.source else e.target

/-- The flow along an edge, of a reading in mW. A grid edge counts as metered at the end that has
the consumer unit's grid handle. -/
def edgeKw (e : Edge) (meteredId : String) (powerMw : ℚ) : ℚ :=
  let kw := powerMw / 1000000
  let atTarget : Bool :=
    if e.targetHandle = some "grid" then true
    else if e.sourceHandle = some "grid" then false
    else meteredId = e.target
  if atTarget then -kw else kw

def SUB_CU_TYPES : List String := ["subConsumerUnit", "henley"]

def subCuIdsOf (nodes : List Node) : List String :=
  (nodes.filter fun n => n.type.getD "" ∈ SUB_CU_TYPES).map (·.id)

/-! ## The feeds of the sub consumer units -/

structure Flow where
  kw : ℚ
  idle : Bool
deriving DecidableEq

/-- `e.data?.kw ?? 0`. -/
def Edge.kw (e : Edge) : ℚ := (e.data.bind (·.kw)).getD 0

/-- `e.data?.meteredKw`. -/
def Edge.meteredKw (e : Edge) : Option ℚ := e.data.bind (·.meteredKw)

/-- `e.data?.idle === true`. -/
def Edge.idle (e : Edge) : Bool := e.data.bind (·.idle) == some true

def Edge.flow (e : Edge) : Flow := { kw := e.kw, idle := e.idle }

/-- The total of no circuits, which is also what a wiring loop counts for. -/
def Flow.zero : Flow := { kw := 0, idle := true }

/-- A circuit joins the total: it is idle while no circuit that flows is in use. -/
def Flow.add (total flow : Flow) : Flow where
  kw := total.kw + flow.kw
  idle := total.idle && (flow.idle || flow.kw == 0)

/-- `totals`. -/
abbrev Totals := List (String × Flow)

/-- One pass of the loop over the edges in `totalFor`. -/
def addCircuit (totalFor : Totals → String → Option (Flow × Totals)) (subCuIds : List String)
    (subCuId : String) (acc : Flow × Totals) (e : Edge) : Option (Flow × Totals) :=
  if e.source ≠ subCuId then some acc
  else if e.target ∈ subCuIds then
    (totalFor acc.2 e.target).map fun r => (acc.1.add r.1, r.2)
  else some (acc.1.add e.flow, acc.2)

/-- `totalFor`, with the `totals` before and after; `none` if the fuel runs out. -/
def totalFor (edges : List Edge) (subCuIds : List String) :
    ℕ → List String → Totals → String → Option (Flow × Totals)
  | 0, _, _, _ => none
  | fuel + 1, visiting, totals, subCuId =>
    match get totals subCuId with
    | some known => some (known, totals)
    | none =>
      if subCuId ∈ visiting then some (Flow.zero, totals)
      else
        (edges.foldlM (addCircuit (totalFor edges subCuIds fuel (subCuId :: visiting)) subCuIds
          subCuId) (Flow.zero, totals)).map fun r => (r.1, update subCuId (fun _ => r.1) r.2)

/-- No more boards are nested in one another than there are. -/
def fuelFor (subCuIds : List String) : ℕ := subCuIds.length + 1

def handleKey (nodeId : String) (handle : Option String) : String := nodeId ++ "|" ++ handle.getD ""

/-- The handle that a feed leaves from. -/
def Edge.sourceKey (e : Edge) : String := handleKey e.source e.sourceHandle

/-- One pass of the loop that adds up `toSubCus`. -/
def addFeed (edges : List Edge) (subCuIds : List String) (acc : List (String × ℚ) × Totals)
    (e : Edge) : Option (List (String × ℚ) × Totals) :=
  if e.target ∈ subCuIds then
    (totalFor edges subCuIds (fuelFor subCuIds) [] acc.2 e.target).map fun r =>
      (update e.sourceKey (fun o => o.getD 0 - r.1.kw) acc.1, r.2)
  else some acc

/-- An edge at one of its ends. -/
structure EdgeEnd where
  edge : Edge
  atSource : Bool
deriving DecidableEq

def EdgeEnd.key (x : EdgeEnd) : String :=
  if x.atSource then handleKey x.edge.source x.edge.sourceHandle
  else handleKey x.edge.target x.edge.targetHandle

/-- The ends of the edges that feed no sub consumer unit. -/
def otherEnds (edges : List Edge) (subCuIds : List String) : List EdgeEnd :=
  (edges.filter (·.target ∉ subCuIds)).flatMap fun e => [⟨e, true⟩, ⟨e, false⟩]

/-- `siblings`. -/
def siblingsOf (edges : List Edge) (subCuIds : List String) (toSubCus : List (String × ℚ)) :
    List (String × List EdgeEnd) :=
  ((otherEnds edges subCuIds).filter fun x => (get toSubCus x.key).isSome).foldl
    (fun m x => update x.key (fun o => o.getD [] ++ [x]) m) []

/-- The flow away from the handle at an end, and back: the edge's flow is negative towards its
target. -/
def EdgeEnd.away (x : EdgeEnd) (kw : ℚ) : ℚ := if x.atSource then -kw else kw

/-- What the feeds on a handle leave of the reading of its only other edge. -/
def remainderOf (toSubCus : List (String × ℚ)) (p : String × List EdgeEnd) : Option (String × ℚ) :=
  match p.2 with
  | [x] => x.edge.meteredKw.map fun metered =>
    (x.edge.id, x.away (x.away metered - (get toSubCus p.1).getD 0))
  | _ => none

/-- `remainderKw`. -/
def remainderKwOf (edges : List Edge) (subCuIds : List String) (toSubCus : List (String × ℚ)) :
    List (String × ℚ) :=
  ((siblingsOf edges subCuIds toSubCus).filterMap (remainderOf toSubCus)).foldl
    (fun m p => update p.1 (fun _ => p.2) m) []

/-- A feed carries its total. -/
def Edge.setFlow (e : Edge) (total : Flow) : Edge :=
  if e.data.bind (·.kw) = some total.kw ∧ e.data.bind (·.idle) = some total.idle then e
  else { e with data := some { e.data.getD {} with kw := some total.kw, idle := some total.idle } }

/-- An edge carries its remainder, if it has one. -/
def Edge.setRemainder (e : Edge) (kw : Option ℚ) : Edge :=
  match kw with
  | none => e
  | some kw =>
    if e.data.bind (·.kw) = some kw then e
    else { e with data := some { e.data.getD {} with kw := some kw } }

/-- `withSubCuFeeds`. -/
def withSubCuFeeds (edges : List Edge) (subCuIds : List String) : Option (List Edge) :=
  if subCuIds = [] then some edges
  else
    (edges.foldlM (addFeed edges subCuIds) ([], [])).bind fun r =>
      edges.mapM fun e =>
        if e.target ∈ subCuIds then
          -- every total is known by now
          (totalFor edges subCuIds (fuelFor subCuIds) [] r.2 e.target).map fun t => e.setFlow t.1
        else some (e.setRemainder (get (remainderKwOf edges subCuIds r.1) e.id))

/-! ## The Unallocated edge -/

/-- What an edge brings into the main consumer unit. -/
def Edge.intoUnit (e : Edge) : ℚ :=
  if e.id = unallocatedEdgeId ∨ isTariffEdge e then 0
  else if e.target = consumerUnitId then -e.kw
  else if e.source = consumerUnitId then e.kw
  else 0

/-- `rawKw`: what remains in the main consumer unit. -/
def rawKwOf (edges : List Edge) : ℚ := edges.foldl (fun rawKw e => rawKw + e.intoUnit) 0

def Edge.setUnallocated (e : Edge) (rawKw : ℚ) : Edge :=
  let kw := -max 0 rawKw
  if e.id ≠ unallocatedEdgeId then e
  else if e.data.bind (·.kw) = some kw ∧ e.data.bind (·.rawKw) = some rawKw then e
  else { e with data := some { e.data.getD {} with kw := some kw, rawKw := some rawKw } }

/-- `withUnallocated`. -/
def withUnallocated (edges : List Edge) : List Edge :=
  edges.map (·.setUnallocated (rawKwOf edges))

/-- `withDerivedFlows`. -/
def withDerivedFlows (edges : List Edge) (subCuIds : List String) : Option (List Edge) :=
  (withSubCuFeeds edges subCuIds).map withUnallocated

end HomeEnergyManager.Canvas
