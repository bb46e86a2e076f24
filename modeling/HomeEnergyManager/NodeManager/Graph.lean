import Mathlib.Data.List.Nodup
import HomeEnergyManager.Lib.Json

/-! # The topology graph of the node manager

The nodes and edges that `node_manager` holds, and what each operation makes of them. Settings are
JSON values: their texts are only ever printed from a parsed value. An operation that returns early
leaves the graph alone and does not persist it.

Reference: `firmware/main/managers/node_manager.cpp`.
-/

namespace HomeEnergyManager.NodeManager

open Json

inductive EspErr where
  | ok
  | fail
  | noMem
  | invalidArg
  | notSupported
deriving DecidableEq, Repr

/-- `node_config_t`; a finite position is a rational number. -/
structure NodeConfig where
  id : String
  x : ℚ := 0
  y : ℚ := 0
  settings : Value := .obj []

/-- `edge_config_t`. -/
structure EdgeConfig where
  id : String
  source : String
  target : String
  sourceHandle : String := ""
  targetHandle : String := ""
deriving DecidableEq, Repr

/-- `s_nodes` and `s_edges`. -/
structure Graph where
  nodes : List NodeConfig := []
  edges : List EdgeConfig := []

/-- `find_node`: the first node of an id. -/
def findNode (nodes : List NodeConfig) (id : String) : Option NodeConfig := nodes.find? (·.id = id)

/-- `locked` in `node_manager_delete`, for a node that is there. -/
def NodeConfig.locked (n : NodeConfig) : Bool := (n.settings.member "deletable").any Value.isFalse

/-- `node_manager_upsert`; `settings` is `none` if there are none or they cannot be parsed. -/
def upsert (id : String) (x y : ℚ) (settings : Option Value) (g : Graph) : Graph :=
  match findNode g.nodes id with
  | some _ =>
    { g with
      nodes := g.nodes.modify (g.nodes.findIdx (·.id = id)) fun n =>
        { n with x := x, y := y, settings := settings.getD n.settings } }
  | none => { g with nodes := g.nodes ++ [{ id, x, y, settings := settings.getD (.obj []) }] }

/-- `node_manager_update_settings`, once the settings have been parsed. -/
def updateSettings (id : String) (settings : Value) (g : Graph) : Graph :=
  match findNode g.nodes id with
  | some _ =>
    { g with
      nodes := g.nodes.modify (g.nodes.findIdx (·.id = id)) fun n =>
        { n with settings := settings } }
  | none => { g with nodes := g.nodes ++ [{ id, settings }] }

/-- What an edge adds to `removed`: the child that it ties to the node. -/
def childrenOf (id : String) (e : EdgeConfig) : List String :=
  (if e.target = id ∧ e.targetHandle = "dc_in" then [e.source] else []) ++
    if e.source = id ∧ e.sourceHandle = "battery" then [e.target] else []

/-- `removed`: the node and its children. -/
def removedIds (id : String) (edges : List EdgeConfig) : List String :=
  id :: edges.flatMap (childrenOf id)

/-- An end of the edge is among the ids. -/
def EdgeConfig.touches (e : EdgeConfig) (ids : List String) : Bool :=
  decide (e.source ∈ ids) || decide (e.target ∈ ids)

/-- The two loops that erase. -/
def Graph.erase (g : Graph) (ids : List String) : Graph :=
  { nodes := g.nodes.filter (·.id ∉ ids), edges := g.edges.filter (!·.touches ids) }

/-- The node is there and cannot be deleted. -/
def Graph.locked (g : Graph) (id : String) : Bool := (findNode g.nodes id).any (·.locked)

/-- `node_manager_delete`. -/
def delete (id : String) (g : Graph) : Except EspErr Graph :=
  if g.locked id then .error .notSupported else .ok (g.erase (removedIds id g.edges))

/-- `node_manager_upsert_edge`; a handle that is null is empty. -/
def upsertEdge (e : EdgeConfig) (g : Graph) : Graph :=
  match g.edges.find? (·.id = e.id) with
  | some _ => { g with edges := g.edges.modify (g.edges.findIdx (·.id = e.id)) fun _ => e }
  | none => { g with edges := g.edges ++ [e] }

/-- `node_manager_delete_edge`: the first edge of an id goes. -/
def deleteEdge (id : String) (g : Graph) : Graph := { g with edges := g.edges.eraseP (·.id = id) }

/-- A call of the node manager, with what its arguments are once they have been parsed. -/
inductive Op where
  | upsert (id : String) (x y : ℚ) (settings : Option Value)
  | updateSettings (id : String) (settings : Option Value)
  | delete (id : String)
  | upsertEdge (e : EdgeConfig)
  | deleteEdge (id : String)
  | clear

/-- What a call makes of the graph; an error is returned before anything is persisted. -/
def Op.apply (g : Graph) : Op → Except EspErr Graph
  | .upsert id x y settings => .ok (NodeManager.upsert id x y settings g)
  | .updateSettings id settings =>
    match settings with
    | some settings => .ok (NodeManager.updateSettings id settings g)
    | none => .error .invalidArg
  | .delete id => NodeManager.delete id g
  | .upsertEdge e => .ok (NodeManager.upsertEdge e g)
  | .deleteEdge id => .ok (NodeManager.deleteEdge id g)
  | .clear => .ok {}

/-! ## Ids stay unique -/

/-- No two nodes and no two edges share an id. -/
structure Graph.UniqueIds (g : Graph) : Prop where
  nodes : (g.nodes.map (·.id)).Nodup
  edges : (g.edges.map (·.id)).Nodup

/-- Changing one entry and not its id keeps the ids. -/
theorem map_modify_of_eq {α β : Type*} {l : List α} {i : ℕ} {f : α → α} {g : α → β}
    (h : ∀ a ∈ l[i]?, g (f a) = g a) : (l.modify i f).map g = l.map g := by
  apply List.ext_getElem?
  intro j
  rw [List.getElem?_map, List.getElem?_map, List.getElem?_modify]
  by_cases hij : i = j
  · subst hij
    cases hi : l[i]? with
    | none => rfl
    | some a => simp [h a (by simp [hi])]
  · simp [hij]

/-- The entry that a search by id finds has that id. -/
theorem id_of_getElem?_findIdx {l : List EdgeConfig} {id : String} {e : EdgeConfig}
    (h : l[l.findIdx (·.id = id)]? = some e) : e.id = id := by
  obtain ⟨hlt, rfl⟩ := List.getElem?_eq_some_iff.mp h
  simpa using List.findIdx_getElem (w := hlt)

/-- A new id at the end keeps the ids apart. -/
theorem nodup_map_append_singleton {α : Type*} {l : List α} {g : α → String} {a : α}
    (h : (l.map g).Nodup) (hnew : l.find? (g · = g a) = none) : ((l ++ [a]).map g).Nodup := by
  rw [List.map_append, List.map_singleton, List.nodup_append]
  refine ⟨h, List.nodup_singleton _, fun x hx y hy => ?_⟩
  obtain ⟨b, hb, rfl⟩ := List.mem_map.mp hx
  rw [List.mem_singleton.mp hy]
  simpa using List.find?_eq_none.mp hnew b hb

namespace Graph.UniqueIds

variable {g g' : Graph} {id : String}

/-- Nodes whose ids stay, in a change of one of them. -/
theorem modifyNode (h : g.UniqueIds) (i : ℕ) {f : NodeConfig → NodeConfig}
    (hf : ∀ n, (f n).id = n.id) : Graph.UniqueIds { g with nodes := g.nodes.modify i f } := by
  refine ⟨?_, h.edges⟩
  dsimp only
  rw [map_modify_of_eq fun n _ => hf n]
  exact h.nodes

theorem upsert (h : g.UniqueIds) (x y : ℚ) (settings : Option Value) :
    (NodeManager.upsert id x y settings g).UniqueIds := by
  unfold NodeManager.upsert
  split
  · exact h.modifyNode _ fun _ => rfl
  · rename_i hnew
    exact ⟨nodup_map_append_singleton h.nodes hnew, h.edges⟩

theorem updateSettings (h : g.UniqueIds) (settings : Value) :
    (NodeManager.updateSettings id settings g).UniqueIds := by
  unfold NodeManager.updateSettings
  split
  · exact h.modifyNode _ fun _ => rfl
  · rename_i hnew
    exact ⟨nodup_map_append_singleton h.nodes hnew, h.edges⟩

theorem erase (h : g.UniqueIds) (ids : List String) : (g.erase ids).UniqueIds :=
  ⟨(List.filter_sublist.map _).nodup h.nodes, (List.filter_sublist.map _).nodup h.edges⟩

theorem upsertEdge (h : g.UniqueIds) (e : EdgeConfig) : (NodeManager.upsertEdge e g).UniqueIds := by
  unfold NodeManager.upsertEdge
  split
  · refine ⟨h.nodes, ?_⟩
    rw [map_modify_of_eq fun _ hold => (id_of_getElem?_findIdx (Option.mem_def.mp hold)).symm]
    exact h.edges
  · rename_i hnew
    exact ⟨h.nodes, nodup_map_append_singleton h.edges hnew⟩

theorem deleteEdge (h : g.UniqueIds) (id : String) : (NodeManager.deleteEdge id g).UniqueIds :=
  ⟨h.nodes, (List.eraseP_sublist.map _).nodup h.edges⟩

/-- No call makes two nodes or two edges of one id. -/
theorem apply (h : g.UniqueIds) {op : Op} (hop : op.apply g = .ok g') : g'.UniqueIds := by
  cases op with
  | upsert id x y settings =>
    obtain rfl := Except.ok.inj hop
    exact h.upsert x y settings
  | updateSettings id settings =>
    cases settings with
    | none => cases hop
    | some settings =>
      obtain rfl := Except.ok.inj hop
      exact h.updateSettings settings
  | delete id =>
    simp only [Op.apply, delete] at hop
    split at hop
    · cases hop
    · obtain rfl := Except.ok.inj hop
      exact h.erase _
  | upsertEdge e =>
    obtain rfl := Except.ok.inj hop
    exact h.upsertEdge e
  | deleteEdge id =>
    obtain rfl := Except.ok.inj hop
    exact h.deleteEdge id
  | clear =>
    obtain rfl := Except.ok.inj hop
    exact ⟨List.nodup_nil, List.nodup_nil⟩

end Graph.UniqueIds

end HomeEnergyManager.NodeManager
