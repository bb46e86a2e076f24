import Mathlib.Data.List.Perm.Basic
import Mathlib.Data.List.Dedup
import Mathlib.Data.List.Induction
import Mathlib.Data.List.TakeWhile
import HomeEnergyManager.NodeManager.Delete
import HomeEnergyManager.Canvas.Graph

/-! # Deleting a selection

The key handler of the topology page takes the selected nodes and their children off the canvas and
sends one DELETE request for each edge and each node that is gone. The firmware judges each request
on the graph that the requests before it have left, and takes the children of a node along that are
still wired to it. The two end with the same graph, whatever the order of the requests, if and only
if no deleted node is locked in the firmware and none has a child that the canvas keeps.

Reference: `handleKeyDown` in `firmware/html_app/src/Topology.tsx`, `node_delete_handler` and
`edge_delete_handler` in `firmware/main/web_server.c`.
-/

namespace HomeEnergyManager.Canvas

open NodeManager

/-! ## The canvas -/

/-- What the page draws. -/
structure Drawing where
  nodes : List Node
  edges : List Edge

/-- The ids that the handler starts from. -/
def Drawing.selectedIds (c : Drawing) : List String :=
  (c.nodes.filter fun n => n.selected && n.deletable != some false).map (·.id)

/-- `children`: the far ends of the `dc_in` and `battery` edges of the ids. -/
def Drawing.children (c : Drawing) (ids : List String) : List String :=
  (c.edges.filter fun e => (e.target ∈ ids ∧ e.targetHandle = some "dc_in") ∨
    e.source ∈ ids ∧ e.sourceHandle = some "battery").map
    fun e => if e.target ∈ ids then e.source else e.target

/-- `deletedIds`, each id once. -/
def Drawing.deletedIds (c : Drawing) : List String :=
  (c.selectedIds ++ c.children c.selectedIds).dedup

def Edge.touches (e : Edge) (ids : List String) : Bool :=
  decide (e.source ∈ ids) || decide (e.target ∈ ids)

/-- What `handleKeyDown` leaves on the canvas. -/
def Drawing.afterKey (c : Drawing) : Drawing where
  nodes := c.nodes.filter (·.id ∉ c.deletedIds)
  edges := c.edges.filter (!·.touches c.deletedIds)

inductive Request where
  | node (id : String)
  | edge (id : String)
deriving DecidableEq

/-- The DELETE requests that `handleKeyDown` sends. -/
def Drawing.requests (c : Drawing) : List Request :=
  (c.edges.filter (·.touches c.deletedIds)).map (.edge ·.id) ++ c.deletedIds.map .node

/-! ## The firmware -/

/-- `strrchr(uri, '/') + 1`. -/
def lastSegment (uri : String) : String :=
  String.ofList (uri.toList.reverse.takeWhile (· ≠ '/')).reverse

/-- The handlers of the two requests; `wire` is what the server finds in the place of an id that the
browser has put into a path. -/
def handle (wire : String → String) (g : Graph) : Request → Graph
  | .node id =>
    if lastSegment (wire id) = "" then g else g.after (.delete (lastSegment (wire id)))
  | .edge id => if wire id = "" then g else g.after (.deleteEdge (wire id))

/-- The id of a request reaches the node manager as it is. -/
def Request.Arrives (wire : String → String) : Request → Prop
  | .node id => wire id = id ∧ id ≠ "" ∧ '/' ∉ id.toList
  | .edge id => wire id = id ∧ id ≠ ""

instance (wire : String → String) : ∀ r : Request, Decidable (r.Arrives wire)
  | .node id => inferInstanceAs (Decidable (wire id = id ∧ id ≠ "" ∧ '/' ∉ id.toList))
  | .edge id => inferInstanceAs (Decidable (wire id = id ∧ id ≠ ""))

/-- The saved form of an edge. -/
def Edge.config (e : Edge) : EdgeConfig where
  id := e.id
  source := e.source
  target := e.target
  sourceHandle := e.sourceHandle.getD ""
  targetHandle := e.targetHandle.getD ""

/-- Both hold the same nodes, with the same lock, and the same edges, apart from the Unallocated
edge. No run of the firmware gives an id twice (`NodeManager.uniqueIds_runFrom`). -/
structure HeldAlike (c : Drawing) (g : Graph) : Prop where
  nodes : (c.nodes.map fun n => (n.id, n.deletable == some false)).Perm
    (g.nodes.map fun n => (n.id, n.locked))
  edges : ((c.edges.filter (·.id ≠ unallocatedEdgeId)).map Edge.config).Perm g.edges
  unallocated : ∀ e ∈ c.edges, e.id = unallocatedEdgeId → e.config = unallocatedEdge.config
  unique : g.UniqueIds

/-- The node is selected and may be deleted, or it is a child of one that is. -/
def Taken (c : Drawing) (g : Graph) (x : String) : Prop :=
  ∃ n ∈ c.nodes, n.selected = true ∧ n.deletable ≠ some false ∧ Removed g n.id x

/-- No node that the canvas takes is locked, and none has a child that the canvas keeps. -/
def TakesChildren (c : Drawing) (g : Graph) : Prop :=
  ∀ d, Taken c g d → g.locked d = false ∧ ∀ x, Removed g d x → ¬ Taken c g x →
    (∀ n ∈ g.nodes, n.id ≠ x) ∧
      ∀ e ∈ g.edges, e.source = x ∨ e.target = x → Taken c g e.source ∨ Taken c g e.target

section

variable {c : Drawing} {g : Graph} {ids : List String} {d i x : String}

/-! ## What both hold -/

namespace HeldAlike

theorem exists_node_iff (h : HeldAlike c g) :
    (∃ n ∈ c.nodes, n.id = x) ↔ ∃ n ∈ g.nodes, n.id = x := by
  have hids : (c.nodes.map (·.id)).Perm (g.nodes.map (·.id)) := by
    simpa [Function.comp_def] using h.nodes.map Prod.fst
  simpa using hids.mem_iff (a := x)

theorem mem_edges_iff (h : HeldAlike c g) {e : EdgeConfig} :
    e ∈ g.edges ↔ ∃ e' ∈ c.edges, e'.id ≠ unallocatedEdgeId ∧ e'.config = e := by
  rw [← h.edges.mem_iff]
  simp [and_assoc]

end HeldAlike

theorem eq_some_of_getD {o : Option String} {s : String} (hs : s ≠ "") (h : o.getD "" = s) :
    o = some s := by
  cases o with
  | none => exact absurd h.symm hs
  | some t => exact congrArg some h

/-- Of the canvas's edges the Unallocated one ties no child to a node. -/
theorem not_child_of_unallocated {e : Edge} (he : e.config = unallocatedEdge.config) :
    e.targetHandle ≠ some "dc_in" ∧ e.sourceHandle ≠ some "battery" := by
  have htarget : e.targetHandle.getD "" = "power-in" := congrArg EdgeConfig.targetHandle he
  have hsource : e.sourceHandle.getD "" = "unallocated" := congrArg EdgeConfig.sourceHandle he
  constructor
  · intro h
    rw [h] at htarget
    exact absurd htarget (by decide)
  · intro h
    rw [h] at hsource
    exact absurd hsource (by decide)

theorem mem_selectedIds : x ∈ c.selectedIds ↔
    ∃ n ∈ c.nodes, n.selected = true ∧ n.deletable ≠ some false ∧ n.id = x := by
  simp [Drawing.selectedIds, and_assoc]

theorem mem_children : x ∈ c.children ids ↔ ∃ e ∈ c.edges,
    ((e.target ∈ ids ∧ e.targetHandle = some "dc_in") ∨
      e.source ∈ ids ∧ e.sourceHandle = some "battery") ∧
    (if e.target ∈ ids then e.source else e.target) = x := by
  simp [Drawing.children, and_assoc]

/-- The handler takes exactly the selection and its children. -/
theorem HeldAlike.mem_deletedIds (h : HeldAlike c g) : x ∈ c.deletedIds ↔ Taken c g x := by
  rw [Drawing.deletedIds, List.mem_dedup, List.mem_append, mem_children]
  constructor
  · rintro (hx | ⟨e, he, hcond, rfl⟩)
    · obtain ⟨n, hn, hsel, hdel, rfl⟩ := mem_selectedIds.mp hx
      exact ⟨n, hn, hsel, hdel, Or.inl rfl⟩
    have hfirm : e.config ∈ g.edges := by
      refine h.mem_edges_iff.mpr ⟨e, he, fun hid => ?_, rfl⟩
      obtain ⟨hdc, hbattery⟩ := not_child_of_unallocated (h.unallocated e he hid)
      rcases hcond with hcond | hcond
      · exact hdc hcond.2
      · exact hbattery hcond.2
    by_cases htarget : e.target ∈ c.selectedIds
    · rw [if_pos htarget]
      rcases hcond with ⟨-, hdc⟩ | ⟨hsource, -⟩
      · obtain ⟨n, hn, hsel, hdel, hid⟩ := mem_selectedIds.mp htarget
        refine ⟨n, hn, hsel, hdel, Or.inr (Or.inl ⟨_, hfirm, hid.symm, ?_, rfl⟩)⟩
        simp [Edge.config, hdc]
      · obtain ⟨n, hn, hsel, hdel, hid⟩ := mem_selectedIds.mp hsource
        exact ⟨n, hn, hsel, hdel, Or.inl hid.symm⟩
    · rw [if_neg htarget]
      rcases hcond with ⟨hin, -⟩ | ⟨hsource, hbattery⟩
      · exact absurd hin htarget
      · obtain ⟨n, hn, hsel, hdel, hid⟩ := mem_selectedIds.mp hsource
        refine ⟨n, hn, hsel, hdel, Or.inr (Or.inr ⟨_, hfirm, hid.symm, ?_, rfl⟩)⟩
        simp [Edge.config, hbattery]
  · rintro ⟨n, hn, hsel, hdel, rfl | ⟨e, he, htarget, hdc, rfl⟩ | ⟨e, he, hsource, hbattery, rfl⟩⟩
    · exact Or.inl (mem_selectedIds.mpr ⟨n, hn, hsel, hdel, rfl⟩)
    · obtain ⟨e, hc, -, rfl⟩ := h.mem_edges_iff.mp he
      have hin : e.target ∈ c.selectedIds := mem_selectedIds.mpr ⟨n, hn, hsel, hdel, htarget.symm⟩
      refine Or.inr ⟨e, hc, Or.inl ⟨hin, ?_⟩, if_pos hin⟩
      exact eq_some_of_getD (by decide) hdc
    · obtain ⟨e, hc, -, rfl⟩ := h.mem_edges_iff.mp he
      have hin : e.source ∈ c.selectedIds := mem_selectedIds.mpr ⟨n, hn, hsel, hdel, hsource.symm⟩
      by_cases htarget : e.target ∈ c.selectedIds
      · exact Or.inl htarget
      · refine Or.inr ⟨e, hc, Or.inr ⟨hin, ?_⟩, if_neg htarget⟩
        exact eq_some_of_getD (by decide) hbattery

/-- It is enough that the ids that leave the canvas have no lock and no child outside of them. -/
theorem HeldAlike.takesChildren (h : HeldAlike c g)
    (hids : ∀ d ∈ c.deletedIds, g.locked d = false ∧
      ∀ x ∈ removedIds d g.edges, x ∈ c.deletedIds) : TakesChildren c g := by
  intro d hd
  obtain ⟨hlocked, hchildren⟩ := hids d (h.mem_deletedIds.mpr hd)
  refine ⟨hlocked, fun x hremoved hkept => absurd ?_ hkept⟩
  exact h.mem_deletedIds.mp (hchildren x (mem_removedIds.mpr hremoved))

/-- What is left of both after the same ids have gone is alike. -/
theorem HeldAlike.erase (h : HeldAlike c g) : HeldAlike c.afterKey (g.erase c.deletedIds) where
  nodes := by
    have hnodes := h.nodes.filter (·.1 ∉ c.deletedIds)
    rw [List.filter_map, List.filter_map] at hnodes
    exact hnodes
  edges := by
    have hedges := h.edges.filter (!·.touches c.deletedIds)
    rw [List.filter_map, List.filter_filter] at hedges
    have hcomm : c.afterKey.edges.filter (·.id ≠ unallocatedEdgeId) =
        c.edges.filter fun e => (!e.touches c.deletedIds) && decide (e.id ≠ unallocatedEdgeId) := by
      rw [Drawing.afterKey, List.filter_filter]
      exact List.filter_congr fun e _ => Bool.and_comm _ _
    rw [hcomm]
    exact hedges
  unallocated := fun e he hid => h.unallocated e (List.mem_of_mem_filter he) hid
  unique := h.unique.erase _

/-! ## What the firmware is left with -/

/-- The graph without the nodes of some ids, their edges, and the edges of some ids. -/
def view (g : Graph) (nodes edges : List String) : Graph where
  nodes := g.nodes.filter (·.id ∉ nodes)
  edges := g.edges.filter fun e => !e.touches nodes && decide (e.id ∉ edges)

theorem view_nil : view g [] [] = g := by
  simp [view, EdgeConfig.touches]

theorem mem_view_edges {nodes edges : List String} {e : EdgeConfig} :
    e ∈ (view g nodes edges).edges ↔
      e ∈ g.edges ∧ e.touches nodes = false ∧ e.id ∉ edges := by
  simp [view]

theorem touches_append {e : EdgeConfig} {ids' : List String} :
    e.touches (ids ++ ids') = (e.touches ids || e.touches ids') := by
  simp [EdgeConfig.touches, Bool.or_assoc, Bool.or_left_comm]

/-- Among distinct ids, taking the first edge of an id out takes out all of them. -/
theorem eraseP_eq_filter {es : List EdgeConfig} (h : (es.map (·.id)).Nodup) :
    es.eraseP (·.id = i) = es.filter (·.id ≠ i) := by
  induction es with
  | nil => rfl
  | cons e es ih =>
    obtain ⟨hnot, hrest⟩ := List.nodup_cons.mp h
    by_cases hid : e.id = i
    · rw [List.eraseP_cons_of_pos (by simpa using hid),
        List.filter_cons_of_neg (by simpa using hid)]
      symm
      rw [List.filter_eq_self]
      intro e' he'
      have hne : e'.id ≠ i := fun heq => hnot (List.mem_map.mpr ⟨e', he', heq.trans hid.symm⟩)
      simpa using hne
    · rw [List.eraseP_cons_of_neg (by simpa using hid),
        List.filter_cons_of_pos (by simpa using hid), ih hrest]

/-- A node that is left is locked as before. -/
theorem view_locked {nodes edges : List String} :
    (view g nodes edges).locked d = (!decide (d ∈ nodes) && g.locked d) := by
  have hfind : findNode (view g nodes edges).nodes d =
      if d ∈ nodes then none else findNode g.nodes d := by
    rw [findNode, view, List.find?_filter]
    split
    · rename_i hd
      rw [List.find?_eq_none]
      intro n _
      by_cases hid : n.id = d <;> simp [hid, hd]
    · rename_i hd
      congr 1
      funext n
      by_cases hid : n.id = d <;> simp [hid, hd]
  rw [Graph.locked, hfind]
  split <;> simp [*, Graph.locked]

theorem view_delete {nodes edges : List String} (h : (view g nodes edges).locked d = false) :
    (view g nodes edges).after (.delete d) =
      view g (removedIds d (view g nodes edges).edges ++ nodes) edges := by
  rw [after_delete h]
  generalize removedIds d (view g nodes edges).edges = removed
  simp only [Graph.erase, view, List.filter_filter, touches_append]
  congr 1
  · apply List.filter_congr
    intro n _
    simp
  · apply List.filter_congr
    intro e _
    rw [Bool.not_or, Bool.and_assoc]

theorem view_deleteEdge {nodes edges : List String} (h : g.UniqueIds) :
    (view g nodes edges).after (.deleteEdge i) = view g nodes (i :: edges) := by
  have hnodup : ((view g nodes edges).edges.map (·.id)).Nodup :=
    (List.filter_sublist.map _).nodup h.edges
  have herase : (view g nodes edges).edges.eraseP (·.id = i) =
      (view g nodes edges).edges.filter (·.id ≠ i) := eraseP_eq_filter hnodup
  rw [Graph.after, Op.apply, deleteEdge]
  simp only [herase]
  simp only [view, List.filter_filter, List.mem_cons]
  congr 1
  apply List.filter_congr
  intro e _
  by_cases hid : e.id = i <;> simp [hid, Bool.and_comm]

theorem lastSegment_eq_self (h : '/' ∉ d.toList) : lastSegment d = d := by
  have hall : d.toList.reverse.takeWhile (· ≠ '/') = d.toList.reverse := by
    rw [List.takeWhile_eq_self_iff]
    intro a ha
    have hne : a ≠ '/' := fun heq => h (heq ▸ List.mem_reverse.mp ha)
    simpa using hne
  rw [lastSegment, hall, List.reverse_reverse, String.ofList_toList]

section Handle

variable {wire : String → String}

theorem handle_node (h : (Request.node d).Arrives wire) :
    handle wire g (.node d) = g.after (.delete d) := by
  obtain ⟨hwire, hne, hslash⟩ := h
  rw [handle, hwire, lastSegment_eq_self hslash, if_neg hne]

theorem handle_edge (h : (Request.edge i).Arrives wire) :
    handle wire g (.edge i) = g.after (.deleteEdge i) := by
  rw [handle, h.1, if_neg h.2]

/-- No request brings anything back. -/
theorem handle_subset (wire : String → String) (g : Graph) (r : Request) :
    (handle wire g r).nodes ⊆ g.nodes ∧ (handle wire g r).edges ⊆ g.edges := by
  have hdelete (d : String) :
      (g.after (.delete d)).nodes ⊆ g.nodes ∧ (g.after (.delete d)).edges ⊆ g.edges := by
    cases hlocked : g.locked d with
    | true =>
      rw [after_delete_of_locked hlocked]
      exact ⟨List.Subset.refl _, List.Subset.refl _⟩
    | false =>
      rw [after_delete hlocked]
      exact ⟨List.filter_subset_self _, List.filter_subset_self _⟩
  cases r with
  | node d =>
    rw [handle]
    split
    · exact ⟨List.Subset.refl _, List.Subset.refl _⟩
    · exact hdelete _
  | edge i =>
    rw [handle]
    split
    · exact ⟨List.Subset.refl _, List.Subset.refl _⟩
    · exact ⟨List.Subset.refl _, List.eraseP_subset⟩

theorem foldl_handle_subset (wire : String → String) (g : Graph) (rs : List Request) :
    (rs.foldl (handle wire) g).nodes ⊆ g.nodes ∧ (rs.foldl (handle wire) g).edges ⊆ g.edges := by
  induction rs generalizing g with
  | nil => exact ⟨List.Subset.refl _, List.Subset.refl _⟩
  | cons r rs ih =>
    obtain ⟨hnodes, hedges⟩ := handle_subset wire g r
    obtain ⟨hnodes', hedges'⟩ := ih (handle wire g r)
    exact ⟨List.Subset.trans hnodes' hnodes, List.Subset.trans hedges' hedges⟩

/-! ## The run of the requests -/

theorem mem_requests_node : .node d ∈ c.requests ↔ d ∈ c.deletedIds := by
  simp [Drawing.requests]

theorem mem_requests_edge : .edge i ∈ c.requests ↔
    ∃ e ∈ c.edges, e.touches c.deletedIds = true ∧ e.id = i := by
  simp [Drawing.requests, and_assoc]

/-- An edge that is asked for by its id is one of those that left the canvas. -/
theorem HeldAlike.touches_of_request (h : HeldAlike c g) (hi : .edge i ∈ c.requests)
    {e : EdgeConfig} (he : e ∈ g.edges) (hid : e.id = i) : e.touches c.deletedIds = true := by
  obtain ⟨e', he', htouches, rfl⟩ := mem_requests_edge.mp hi
  obtain ⟨e'', he'', hne, rfl⟩ := h.mem_edges_iff.mp he
  have hmem : e'.config ∈ g.edges :=
    h.mem_edges_iff.mpr ⟨e', he', fun heq => hne (hid.trans heq), rfl⟩
  have hsame : e''.config = e'.config := List.inj_on_of_nodup_map h.unique.edges he hmem hid
  rw [hsame]
  exact htouches

theorem removed_mono {g' : Graph} (hsub : ∀ e ∈ g'.edges, e ∈ g.edges) (h : Removed g' d x) :
    Removed g d x := by
  rcases h with rfl | ⟨e, he, h⟩ | ⟨e, he, h⟩
  · exact Or.inl rfl
  · exact Or.inr (Or.inl ⟨e, hsub e he, h⟩)
  · exact Or.inr (Or.inr ⟨e, hsub e he, h⟩)

/-- What has gone from the firmware's graph once some requests have been handled. -/
structure Progress (c : Drawing) (g : Graph) (rs : List Request) (nodes edges : List String) :
    Prop where
  removed : ∀ x ∈ nodes, ∃ d, Taken c g d ∧ Removed g d x
  touches : ∀ i ∈ edges, ∀ e ∈ g.edges, e.id = i → e.touches c.deletedIds = true
  handled : ∀ d, .node d ∈ rs → d ∈ nodes

/-- Whatever requests have been handled, the children of deleted nodes are all that has gone. -/
theorem exists_progress (h : HeldAlike c g) (harrive : ∀ r ∈ c.requests, r.Arrives wire)
    (hcond : TakesChildren c g) (rs : List Request) (hrs : ∀ r ∈ rs, r ∈ c.requests) :
    ∃ nodes edges, rs.foldl (handle wire) g = view g nodes edges ∧
      Progress c g rs nodes edges := by
  induction rs using List.reverseRecOn with
  | nil =>
    refine ⟨[], [], view_nil.symm, fun x hx => ?_, fun i hi => ?_, fun d hd => ?_⟩
    · exact absurd hx List.not_mem_nil
    · exact absurd hi List.not_mem_nil
    · exact absurd hd List.not_mem_nil
  | append_singleton rs r ih =>
    have hr : r ∈ c.requests := hrs r (List.mem_append_right _ List.mem_cons_self)
    obtain ⟨nodes, edges, hview, hprogress⟩ :=
      ih fun r hr => hrs r (List.mem_append_left _ hr)
    rw [List.foldl_concat, hview]
    cases r with
    | node d =>
      have htaken : Taken c g d := h.mem_deletedIds.mp (mem_requests_node.mp hr)
      have hunlocked : (view g nodes edges).locked d = false := by
        rw [view_locked, (hcond d htaken).1, Bool.and_false]
      rw [handle_node (harrive _ hr), view_delete hunlocked]
      refine ⟨_, _, rfl, fun x hx => ?_, hprogress.touches, fun d' hd' => ?_⟩
      · rcases List.mem_append.mp hx with hx | hx
        · have hremoved := mem_removedIds.mp hx
          exact ⟨d, htaken, removed_mono (fun e he => (mem_view_edges.mp he).1) hremoved⟩
        · exact hprogress.removed x hx
      · rcases List.mem_append.mp hd' with hd' | hd'
        · exact List.mem_append_right _ (hprogress.handled d' hd')
        · obtain rfl := Request.node.inj (List.mem_singleton.mp hd')
          exact List.mem_append_left _ List.mem_cons_self
    | edge i =>
      rw [handle_edge (harrive _ hr), view_deleteEdge h.unique]
      refine ⟨_, _, rfl, hprogress.removed, fun j hj => ?_, fun d hd => ?_⟩
      · rcases List.mem_cons.mp hj with rfl | hj
        · exact fun e he hid => h.touches_of_request hr he hid
        · exact hprogress.touches j hj
      · rcases List.mem_append.mp hd with hd | hd
        · exact hprogress.handled d hd
        · exact absurd (List.mem_singleton.mp hd) (by simp)

/-- Then the firmware is left with exactly what the canvas took nothing of. -/
theorem foldl_handle_eq_erase (h : HeldAlike c g) (harrive : ∀ r ∈ c.requests, r.Arrives wire)
    (hcond : TakesChildren c g) {rs : List Request} (hrs : rs.Perm c.requests) :
    rs.foldl (handle wire) g = g.erase c.deletedIds := by
  obtain ⟨nodes, edges, hview, hprogress⟩ :=
    exists_progress h harrive hcond rs fun r hr => hrs.mem_iff.mp hr
  have hall : ∀ d ∈ c.deletedIds, d ∈ nodes := fun d hd =>
    hprogress.handled d (hrs.mem_iff.mpr (mem_requests_node.mpr hd))
  rw [hview, view, Graph.erase]
  congr 1
  · apply List.filter_congr
    intro n hn
    rw [decide_eq_decide]
    constructor
    · exact fun hnot hd => hnot (hall _ hd)
    · intro hnot hmem
      obtain ⟨d, htaken, hremoved⟩ := hprogress.removed _ hmem
      have hkept : ¬ Taken c g n.id := fun ht => hnot (h.mem_deletedIds.mpr ht)
      exact ((hcond d htaken).2 _ hremoved hkept).1 n hn rfl
  · apply List.filter_congr
    intro e he
    have hiff : (e.touches nodes = false ∧ e.id ∉ edges) ↔ e.touches c.deletedIds = false := by
      constructor
      · rintro ⟨htouches, -⟩
        obtain ⟨hsource, htarget⟩ := touches_eq_false.mp htouches
        exact touches_eq_false.mpr ⟨fun hd => hsource (hall _ hd), fun hd => htarget (hall _ hd)⟩
      · intro hkept
        obtain ⟨hsource, htarget⟩ := touches_eq_false.mp hkept
        have hend : ∀ x ∈ nodes, ¬ (e.source = x ∨ e.target = x) := by
          intro x hx hend
          obtain ⟨d, htaken, hremoved⟩ := hprogress.removed x hx
          have hnot : ¬ Taken c g x := by
            intro ht
            have hx := h.mem_deletedIds.mpr ht
            rcases hend with rfl | rfl
            · exact hsource hx
            · exact htarget hx
          rcases ((hcond d htaken).2 x hremoved hnot).2 e he hend with ht | ht
          · exact hsource (h.mem_deletedIds.mpr ht)
          · exact htarget (h.mem_deletedIds.mpr ht)
        refine ⟨touches_eq_false.mpr ⟨?_, ?_⟩, fun hi => ?_⟩
        · exact fun hx => hend _ hx (Or.inl rfl)
        · exact fun hx => hend _ hx (Or.inr rfl)
        · exact absurd hkept (by simp [hprogress.touches _ hi e he rfl])
    cases hd : e.touches c.deletedIds <;> cases hn : e.touches nodes <;> simp_all

/-! ## Orders that tell -/

theorem foldl_handle_edges (h : g.UniqueIds) {is : List String}
    (harrive : ∀ i ∈ is, (Request.edge i).Arrives wire) (edges : List String) :
    (is.map .edge).foldl (handle wire) (view g [] edges) = view g [] (is.reverse ++ edges) := by
  induction is generalizing edges with
  | nil => rfl
  | cons i is ih =>
    rw [List.map_cons, List.foldl_cons, handle_edge (harrive i List.mem_cons_self),
      view_deleteEdge h, ih fun j hj => harrive j (List.mem_cons_of_mem _ hj)]
    simp

/-- Once no edge ties anything to the nodes asked for, a locked node stays. -/
theorem locked_stays {d' : String} {edges : List String} (hlocked : g.locked d' = true)
    {ds : List String} (harrive : ∀ d ∈ ds, (Request.node d).Arrives wire)
    (hfree : ∀ d ∈ ds, ∀ e ∈ (view g [] edges).edges, e.source ≠ d ∧ e.target ≠ d)
    {nodes : List String} (hkept : d' ∉ nodes) :
    ∃ nodes', d' ∉ nodes' ∧
      (ds.map .node).foldl (handle wire) (view g nodes edges) = view g nodes' edges := by
  induction ds generalizing nodes with
  | nil => exact ⟨nodes, hkept, rfl⟩
  | cons d ds ih =>
    have harrive' : ∀ d ∈ ds, (Request.node d).Arrives wire := fun d hd =>
      harrive d (List.mem_cons_of_mem _ hd)
    have hfree' : ∀ d ∈ ds, ∀ e ∈ (view g [] edges).edges, e.source ≠ d ∧ e.target ≠ d :=
      fun d hd => hfree d (List.mem_cons_of_mem _ hd)
    rw [List.map_cons, List.foldl_cons, handle_node (harrive d List.mem_cons_self)]
    cases hd : (view g nodes edges).locked d with
    | true =>
      rw [after_delete_of_locked hd]
      exact ih harrive' hfree' hkept
    | false =>
      rw [view_delete hd]
      apply ih harrive' hfree'
      rw [List.mem_append, mem_removedIds]
      rintro ((rfl | ⟨e, he, htarget, -, -⟩ | ⟨e, he, hsource, -, -⟩) | hmem)
      · rw [view_locked, hlocked] at hd
        exact absurd hd (by simp [hkept])
      · obtain ⟨he, -, hid⟩ := mem_view_edges.mp he
        have he : e ∈ (view g [] edges).edges := mem_view_edges.mpr ⟨he, rfl, hid⟩
        exact (hfree d List.mem_cons_self e he).2 htarget
      · obtain ⟨he, -, hid⟩ := mem_view_edges.mp he
        have he : e ∈ (view g [] edges).edges := mem_view_edges.mpr ⟨he, rfl, hid⟩
        exact (hfree d List.mem_cons_self e he).1 hsource
      · exact hkept hmem

/-- With the edges handled first, the firmware keeps a locked node. -/
theorem not_locked_of_agree (h : HeldAlike c g) (harrive : ∀ r ∈ c.requests, r.Arrives wire)
    (hagree : HeldAlike c.afterKey (c.requests.foldl (handle wire) g)) (hd : Taken c g d) :
    g.locked d = false := by
  by_contra hlocked
  have hlocked : g.locked d = true := by simpa using hlocked
  set is := (c.edges.filter (·.touches c.deletedIds)).map (·.id)
  have hrequests : c.requests = is.map .edge ++ c.deletedIds.map .node := by
    rw [Drawing.requests, List.map_map]
    rfl
  have harriveEdges : ∀ i ∈ is, (Request.edge i).Arrives wire := by
    intro i hi
    apply harrive
    rw [hrequests]
    exact List.mem_append_left _ (List.mem_map_of_mem hi)
  have harriveNodes : ∀ d ∈ c.deletedIds, (Request.node d).Arrives wire := fun d hd =>
    harrive _ (mem_requests_node.mpr hd)
  have hedges := foldl_handle_edges h.unique harriveEdges []
  have hfree : ∀ d ∈ c.deletedIds, ∀ e ∈ (view g [] is.reverse).edges,
      e.source ≠ d ∧ e.target ≠ d := by
    intro d hd e he
    obtain ⟨he, -, hid⟩ := mem_view_edges.mp he
    obtain ⟨e, hc, -, rfl⟩ := h.mem_edges_iff.mp he
    have hkept : e.touches c.deletedIds = false := by
      by_contra htouches
      refine hid (List.mem_reverse.mpr (List.mem_map.mpr ⟨e, List.mem_filter.mpr ⟨hc, ?_⟩, rfl⟩))
      simpa using htouches
    change e.config.touches c.deletedIds = false at hkept
    obtain ⟨hsource, htarget⟩ := touches_eq_false.mp hkept
    exact ⟨fun heq => hsource (heq ▸ hd), fun heq => htarget (heq ▸ hd)⟩
  obtain ⟨nodes, hkept, hrun⟩ := locked_stays hlocked harriveNodes hfree List.not_mem_nil
  have hfinal : c.requests.foldl (handle wire) g = view g nodes is.reverse := by
    rw [hrequests, List.foldl_append]
    rw [view_nil, List.append_nil] at hedges
    rw [hedges, hrun]
  obtain ⟨n, hn, hid⟩ : ∃ n ∈ g.nodes, n.id = d := by
    rw [Graph.locked, findNode] at hlocked
    cases hfind : g.nodes.find? (·.id = d) with
    | none => simp [hfind] at hlocked
    | some n => exact ⟨n, List.mem_of_find?_eq_some hfind, by simpa using List.find?_some hfind⟩
  rw [hfinal] at hagree
  obtain ⟨m, hm, hmd⟩ := hagree.exists_node_iff.mpr
    ⟨n, List.mem_filter.mpr ⟨hn, by simpa [hid] using hkept⟩, hid⟩
  have hnot := (List.mem_filter.mp hm).2
  rw [hmd] at hnot
  exact absurd (h.mem_deletedIds.mpr hd) (by simpa using hnot)

end Handle

end

/-- Canvas and firmware agree after every order of the requests if and only if the canvas takes no
node that is locked in the firmware and keeps no child of a node that it takes. -/
theorem delete_agrees_iff {wire : String → String} {c : Drawing} {g : Graph} (h : HeldAlike c g)
    (harrive : ∀ r ∈ c.requests, r.Arrives wire) :
    (∀ rs : List Request, rs.Perm c.requests → HeldAlike c.afterKey (rs.foldl (handle wire) g)) ↔
      TakesChildren c g := by
  constructor
  · intro hagree d hd
    have hunlocked := not_locked_of_agree h harrive (hagree _ (List.Perm.refl _)) hd
    refine ⟨hunlocked, fun x hremoved hkept => ?_⟩
    have hmem : .node d ∈ c.requests := mem_requests_node.mpr (h.mem_deletedIds.mpr hd)
    have halike := hagree _ (List.perm_cons_erase hmem).symm
    rw [List.foldl_cons, handle_node (harrive _ hmem), after_delete hunlocked] at halike
    obtain ⟨hnodes, hedges⟩ := foldl_handle_subset wire (g.erase (removedIds d g.edges))
      (c.requests.erase (.node d))
    have hx : x ∈ removedIds d g.edges := mem_removedIds.mpr hremoved
    refine ⟨fun n hn hid => ?_, fun e he hend => ?_⟩
    · obtain ⟨m, hm, hmx⟩ := h.exists_node_iff.mpr ⟨n, hn, hid⟩
      have hdrawn : m ∈ c.afterKey.nodes := by
        refine List.mem_filter.mpr ⟨hm, ?_⟩
        rw [hmx, decide_eq_true_eq]
        exact fun hin => hkept (h.mem_deletedIds.mp hin)
      obtain ⟨n', hn', hid'⟩ := halike.exists_node_iff.mp ⟨m, hdrawn, hmx⟩
      have hnot := (List.mem_filter.mp (hnodes hn')).2
      rw [hid', decide_eq_true_eq] at hnot
      exact hnot hx
    · by_contra hnot
      obtain ⟨e, hc, hne, rfl⟩ := h.mem_edges_iff.mp he
      have hdrawn : e ∈ c.afterKey.edges := by
        refine List.mem_filter.mpr ⟨hc, ?_⟩
        have hkept : e.touches c.deletedIds = false := by
          change e.config.touches c.deletedIds = false
          refine touches_eq_false.mpr ⟨fun hin => hnot ?_, fun hin => hnot ?_⟩
          · exact Or.inl (h.mem_deletedIds.mp hin)
          · exact Or.inr (h.mem_deletedIds.mp hin)
        rw [hkept, Bool.not_false]
      have hfirm := hedges (halike.mem_edges_iff.mpr ⟨e, hdrawn, hne, rfl⟩)
      have htouches := (List.mem_filter.mp hfirm).2
      rw [Bool.not_eq_true', touches_eq_false] at htouches
      rcases hend with rfl | rfl
      · exact htouches.1 hx
      · exact htouches.2 hx
  · intro hcond rs hrs
    rw [foldl_handle_eq_erase h harrive hcond hrs]
    exact h.erase

/-- A PV string on the inverter of a house. -/
def roof : Graph where
  nodes := [{ id := "consumer_unit", settings := .obj [("deletable", .bool false)] },
    { id := "solar_inverter" }, { id := "node_11" }]
  edges := [⟨"node_11-power-out-solar_inverter-dc_in", "node_11", "solar_inverter", "power-out",
    "dc_in"⟩]

/-- The same on the canvas, with the inverter selected. -/
def drawnRoof : Drawing where
  nodes := [{ id := "consumer_unit", deletable := some false },
    { id := "solar_inverter", deletable := some true, selected := true },
    { id := "node_11", deletable := some true }]
  edges := [⟨"node_11-power-out-solar_inverter-dc_in", "node_11", "solar_inverter",
    some "power-out", some "dc_in", some { kw := some 0 }⟩, unallocatedEdge]

/-- Whatever comes first, the PV string goes with the inverter. -/
theorem delete_roof_agrees : TakesChildren drawnRoof roof ∧
    ∀ rs : List Request, rs.Perm drawnRoof.requests →
      HeldAlike drawnRoof.afterKey (rs.foldl (handle id) roof) := by
  have halike : HeldAlike drawnRoof roof :=
    ⟨by decide, by decide, by decide, ⟨by decide, by decide⟩⟩
  have htakes : TakesChildren drawnRoof roof := halike.takesChildren (by decide)
  exact ⟨htakes, (delete_agrees_iff halike (by decide)).mpr htakes⟩

/-- An inverter whose battery handle is wired to the consumer unit. -/
def drawnBatteryToBoard : Drawing where
  nodes := [{ id := "consumer_unit", deletable := some false },
    { id := "solar_inverter", deletable := some true, selected := true }]
  edges := [⟨"solar_inverter-battery-consumer_unit-solar_input", "solar_inverter", "consumer_unit",
    some "battery", some "solar_input", some { kw := some 0 }⟩, unallocatedEdge]

/-- With the edge handled first, the locked consumer unit stays in the firmware. -/
theorem delete_leaves_board : ¬ ∀ (wire : String → String) (c : Drawing) (g : Graph),
    HeldAlike c g → (∀ r ∈ c.requests, r.Arrives wire) → ∀ rs : List Request,
    rs.Perm c.requests → HeldAlike c.afterKey (rs.foldl (handle wire) g) := by
  intro h
  have hagree := h id drawnBatteryToBoard batteryToBoard
    ⟨by decide, by decide, by decide, ⟨by decide, by decide⟩⟩ (by decide) _ (List.Perm.refl _)
  exact absurd hagree.nodes.length_eq (by decide)

end HomeEnergyManager.Canvas
