import HomeEnergyManager.NodeManager.Persist
import HomeEnergyManager.Topology.Graph

/-! # The graph as the other components read it

The power logger, the appliance profiles and the tariff recorder never see the node manager's lists.
They parse the document that it serves and look their way through it, so that what they find is what
has been written out: handles that are empty are missing ones.

The document has the cached values of the nodes too, which none of them reads.

Reference: `node_manager_get_all_json` in `firmware/main/managers/node_manager.cpp`, and its
readers. -/

namespace HomeEnergyManager.Topology

open Json
open NodeManager (NodeConfig EdgeConfig buildJson nodeJson edgeJson handleJson)

/-- `json_str`. -/
def jsonStr (obj : Value) (key : String) : Option String := (obj.member key).bind Value.asStr

/-- The settings of a node. -/
def readSettings (settings : Value) : Settings where
  type := jsonStr settings "type"
  name := jsonStr settings "name"
  label := jsonStr settings "label"
  nodeId := (settings.member "nodeId").bind Value.asNum
  endpointId := (settings.member "endpointId").bind Value.asNum

/-- What is read of the document. -/
def readTopology (root : Value) : Graph where
  nodes := (root.itemsAt "nodes").map fun n =>
    { id := jsonStr n "id", settings := (n.member "settings").map readSettings }
  edges := (root.itemsAt "edges").map fun e =>
    { source := jsonStr e "source"
      target := jsonStr e "target"
      sourceHandle := jsonStr e "sourceHandle"
      targetHandle := jsonStr e "targetHandle" }

/-- The graph that the readers of `node_manager_get_all_json` see. -/
def served (g : NodeManager.Graph) : Graph := readTopology (buildJson g)

/-- `appliance_is_excluded`, on the document. -/
def applianceIsExcluded (root : Value) (graphId : String) : Bool :=
  (((root.itemsAt "nodes").find? fun n => jsonStr n "id" = some graphId).bind fun n =>
    (n.member "settings").bind (·.member "excludeFromScheduling")).any Value.isTrue

section Served

variable {g : NodeManager.Graph}

theorem served_nodes : (served g).nodes =
    g.nodes.map fun n => { id := some n.id, settings := some (readSettings n.settings) } := by
  simp [served, readTopology, buildJson, nodeJson, jsonStr, Value.itemsAt, Function.comp_def]

theorem jsonStr_edgeJson (e : EdgeConfig) :
    jsonStr (edgeJson e) "source" = some e.source ∧ jsonStr (edgeJson e) "target" = some e.target ∧
      jsonStr (edgeJson e) "sourceHandle" =
        (if e.sourceHandle = "" then none else some e.sourceHandle) ∧
      jsonStr (edgeJson e) "targetHandle" =
        if e.targetHandle = "" then none else some e.targetHandle := by
  by_cases hs : e.sourceHandle = ""
  all_goals
    by_cases ht : e.targetHandle = ""
    all_goals simp [jsonStr, edgeJson, handleJson, hs, ht]

theorem served_edges : (served g).edges =
    g.edges.map fun e =>
      { source := some e.source, target := some e.target,
        sourceHandle := if e.sourceHandle = "" then none else some e.sourceHandle,
        targetHandle := if e.targetHandle = "" then none else some e.targetHandle } := by
  simp [served, readTopology, buildJson, jsonStr_edgeJson, Value.itemsAt, Function.comp_def]

/-- The settings of the first node of an id. -/
def settingsOf (g : NodeManager.Graph) (id : String) : Option Value :=
  (NodeManager.findNode g.nodes id).map (·.settings)

/-- A node is found in the document where the node manager has it. -/
theorem findNode_served (id : String) : findNode (served g).nodes id =
    (NodeManager.findNode g.nodes id).map fun n =>
      { id := some n.id, settings := some (readSettings n.settings) } := by
  rw [findNode, served_nodes, List.find?_map, NodeManager.findNode]
  refine congrArg (Option.map _) (congrArg (g.nodes.find? ·) (funext fun n => ?_))
  exact decide_eq_decide.mpr Option.some_inj

theorem applianceIsExcluded_eq (id : String) : applianceIsExcluded (buildJson g) id =
    ((settingsOf g id).bind (·.member "excludeFromScheduling")).any Value.isTrue := by
  have hitems : (buildJson g).itemsAt "nodes" = g.nodes.map nodeJson := by
    simp [buildJson, Value.itemsAt]
  have hfind : (g.nodes.map nodeJson).find? (fun n => jsonStr n "id" = some id) =
      (NodeManager.findNode g.nodes id).map nodeJson := by
    rw [List.find?_map]
    simp [NodeManager.findNode, nodeJson, jsonStr, Function.comp_def]
  rw [applianceIsExcluded, hitems, hfind, settingsOf]
  cases NodeManager.findNode g.nodes id with
  | none => rfl
  | some n => simp [nodeJson]

end Served

end HomeEnergyManager.Topology
