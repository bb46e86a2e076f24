import Mathlib.Algebra.Group.Action.Defs
import Mathlib.Algebra.Order.BigOperators.Group.List
import Mathlib.Algebra.Order.Ring.Nat
import HomeEnergyManager.Lib.SavedFile
import HomeEnergyManager.NodeManager.Delete

/-! # The graph across a restart

`node_manager` writes the whole graph to its file after every change and reads it back when it
starts. The writer has no limit and does not look at what `fflush` and `fclose` return; the reader
takes nothing larger than 16384 bytes, goes on without a graph when it finds none, and the start
then writes a fresh graph over the file.

`narrow` is the cast of a finite number to `float`, `numSize` the number of bytes of a number's
text.

Reference: `firmware/main/managers/node_manager.cpp`.
-/

namespace HomeEnergyManager.NodeManager

open Json SavedFile

/-! ## Writer and reader -/

def nodeJson (n : NodeConfig) : Value :=
  .obj [("id", .str n.id), ("x", .num n.x), ("y", .num n.y), ("settings", n.settings)]

/-- A handle that is empty is left out. -/
def handleJson (name handle : String) : List (String × Value) :=
  if handle = "" then [] else [(name, .str handle)]

def edgeJson (e : EdgeConfig) : Value :=
  .obj ([("id", .str e.id), ("source", .str e.source), ("target", .str e.target)] ++
    handleJson "sourceHandle" e.sourceHandle ++ handleJson "targetHandle" e.targetHandle)

/-- `build_json`, without values. -/
def buildJson (g : Graph) : Value :=
  .obj [("nodes", .arr (g.nodes.map nodeJson)), ("edges", .arr (g.edges.map edgeJson))]

variable (narrow : ℚ → ℚ) (numSize : ℚ → ℕ)

/-- A position member, 0 if there is none. -/
def positionOf (item : Value) (key : String) : ℚ :=
  (((item.member key).bind Value.asNum).map narrow).getD 0

def readNode (item : Value) : Option NodeConfig :=
  ((item.member "id").bind Value.asStr).map fun id =>
    { id
      x := positionOf narrow item "x"
      y := positionOf narrow item "y"
      settings := (item.member "settings").getD (.obj []) }

def readEdge (item : Value) : Option EdgeConfig :=
  ((item.member "id").bind Value.asStr).map fun id =>
    { id
      source := item.textAt "source"
      target := item.textAt "target"
      sourceHandle := item.textAt "sourceHandle"
      targetHandle := item.textAt "targetHandle" }

/-- What `load_from_disk` makes of a document. -/
def readGraph (root : Value) : Graph where
  nodes := (root.itemsAt "nodes").filterMap (readNode narrow)
  edges := (root.itemsAt "edges").filterMap readEdge

/-- `load_from_disk`. -/
def loadFromDisk (readable : Bool) (disk : Option (File Value)) : Graph :=
  ((load (Value.size numSize) 16384 readable disk).map (readGraph narrow)).getD {}

/-! ## Calls and starts -/

structure State where
  graph : Graph
  disk : Option (File Value)
  /-- What the last `node_manager_persist` returned. -/
  last : EspErr

/-- What `node_manager_persist` returns. -/
def persistResult (w : Write) : EspErr :=
  if w.reported then .ok else if w.printed then .fail else .noMem

/-- `node_manager_persist`. -/
def persist (w : Write) (s : State) : State :=
  { s with disk := w.replace (buildJson s.graph) s.disk, last := persistResult w }

/-- The node that a start adds. -/
def consumerUnit : NodeConfig where
  id := "consumer_unit"
  settings := .obj [("label", .str "🏠 Consumer Unit"), ("type", .str "consumerUnit"),
    ("deletable", .bool false)]

def Graph.hasConsumerUnit (g : Graph) : Bool := (findNode g.nodes "consumer_unit").isSome

/-- The graph, with a consumer unit if it has none. -/
def Graph.withConsumerUnit (g : Graph) : Graph :=
  if g.hasConsumerUnit then g else { g with nodes := g.nodes ++ [consumerUnit] }

/-- What a start meets: whether the file can be read, and how its own write goes. -/
structure Start where
  readable : Bool := true
  write : Write := {}

/-- `node_manager_init`. -/
def init (i : Start) (disk : Option (File Value)) (last : EspErr) : State :=
  let g := loadFromDisk narrow numSize i.readable disk
  let s : State := { graph := g.withConsumerUnit, disk, last }
  if g.hasConsumerUnit then s else persist i.write s

/-- A call with its write, or a restart. -/
inductive Event where
  | call (op : Op) (w : Write)
  | restart (i : Start)

/-- The positions of a call are of type `float`. -/
def Op.cast : Op → Op
  | .upsert id x y settings => .upsert id (narrow x) (narrow y) settings
  | op => op

def step (s : State) : Event → State
  | .call op w =>
    match (op.cast narrow).apply s.graph with
    | .ok g => persist w { s with graph := g }
    | .error _ => s
  | .restart i => init narrow numSize i s.disk s.last

/-- A start on any file and what follows it. -/
def runFrom (i : Start) (disk : Option (File Value)) (es : List Event) : State :=
  es.foldl (step narrow numSize) (init narrow numSize i disk .fail)

/-! ## What a restart should do -/

/-- The same graph comes back, and the file holds what it held or that graph. -/
structure Survives (s s' : State) : Prop where
  graph : s'.graph = s.graph.withConsumerUnit
  disk : s'.disk = s.disk ∨ s'.disk = some (.text (buildJson s.graph.withConsumerUnit))

/-- The file was wholly written, and the start can read it and finds it small enough. -/
def ReadsBack (s : State) (i : Start) : Prop :=
  s.disk ≠ some .cut ∧ i.readable = true ∧ (buildJson s.graph).size numSize ≤ 16384

/-- The file is read back, or the graph is what a start without a file makes; and the start's own
write does not cut a file that was whole. -/
def KeepsGraph (s : State) (i : Start) : Prop :=
  (ReadsBack numSize s i ∨ s.graph.withConsumerUnit = Graph.withConsumerUnit {}) ∧
    (i.write.cuts = true → s.disk = some .cut ∨
      (ReadsBack numSize s i ∧ s.graph.hasConsumerUnit = true))

/-! ## The reader takes back what the writer wrote -/

section Read

variable {narrow : ℚ → ℚ} {numSize : ℚ → ℕ} {g : Graph} {s : State} {w : Write} {i : Start}

/-- Every position is a `float`. -/
def Graph.Narrow (narrow : ℚ → ℚ) (g : Graph) : Prop :=
  ∀ n ∈ g.nodes, narrow n.x = n.x ∧ narrow n.y = n.y

theorem readNode_nodeJson {n : NodeConfig} (hx : narrow n.x = n.x) (hy : narrow n.y = n.y) :
    readNode narrow (nodeJson n) = some n := by
  simp [readNode, nodeJson, positionOf, hx, hy]

theorem readEdge_edgeJson (e : EdgeConfig) : readEdge (edgeJson e) = some e := by
  obtain ⟨id, source, target, sourceHandle, targetHandle⟩ := e
  by_cases hs : sourceHandle = "" <;> by_cases ht : targetHandle = "" <;>
    simp [readEdge, edgeJson, handleJson, Value.textAt, hs, ht]

theorem readGraph_buildJson (h : g.Narrow narrow) : readGraph narrow (buildJson g) = g := by
  have hnodes : (g.nodes.map nodeJson).filterMap (readNode narrow) = g.nodes := by
    rw [List.filterMap_map]
    calc g.nodes.filterMap (readNode narrow ∘ nodeJson)
        = g.nodes.filterMap some :=
          List.filterMap_congr fun n hn => readNode_nodeJson (h n hn).1 (h n hn).2
      _ = g.nodes := List.filterMap_some
  have hedges : (g.edges.map edgeJson).filterMap readEdge = g.edges := by
    rw [List.filterMap_map]
    calc g.edges.filterMap (readEdge ∘ edgeJson)
        = g.edges.filterMap some := List.filterMap_congr fun e _ => readEdge_edgeJson e
      _ = g.edges := List.filterMap_some
  simp [readGraph, buildJson, Value.itemsAt, hnodes, hedges]

theorem size_buildJson_pos : 0 < (buildJson g).size numSize := by
  rw [buildJson, Value.size]
  omega

theorem loadFromDisk_cut {readable : Bool} :
    loadFromDisk narrow numSize readable (some .cut) = {} := by
  rw [loadFromDisk, load_cut]
  rfl

theorem loadFromDisk_text (h : g.Narrow narrow) (readable : Bool) :
    loadFromDisk narrow numSize readable (some (.text (buildJson g))) =
      if readable = true ∧ (buildJson g).size numSize ≤ 16384 then g else {} := by
  rw [loadFromDisk, load_text size_buildJson_pos]
  split
  · rw [Option.map_some, Option.getD_some, readGraph_buildJson h]
  · rfl

end Read

/-! ## Positions stay floats -/

section Narrow

variable {narrow : ℚ → ℚ} {numSize : ℚ → ℕ} {g g' : Graph} {s : State} {w : Write} {i : Start}
  (hzero : narrow 0 = 0) (hnarrow : ∀ x, narrow (narrow x) = narrow x)

theorem Graph.Narrow.addNode (h : g.Narrow narrow) {n : NodeConfig}
    (hn : narrow n.x = n.x ∧ narrow n.y = n.y) :
    Graph.Narrow narrow { g with nodes := g.nodes ++ [n] } := by
  intro m hm
  rcases List.mem_append.mp hm with hm | hm
  · exact h m hm
  · rw [List.mem_singleton.mp hm]
    exact hn

include hzero in
theorem narrow_empty_withConsumerUnit (h : g.Narrow narrow) : g.withConsumerUnit.Narrow narrow := by
  unfold Graph.withConsumerUnit
  split
  · exact h
  · exact h.addNode ⟨hzero, hzero⟩

include hzero hnarrow in
theorem narrow_readGraph (root : Value) : (readGraph narrow root).Narrow narrow := by
  have hposition : ∀ item key,
      narrow (positionOf narrow item key) = positionOf narrow item key := by
    intro item key
    rw [positionOf]
    cases (item.member key).bind Value.asNum with
    | none => exact hzero
    | some x => exact hnarrow x
  intro n hn
  obtain ⟨item, -, hitem⟩ := List.mem_filterMap.mp hn
  obtain ⟨id, -, rfl⟩ := Option.map_eq_some_iff.mp hitem
  exact ⟨hposition item "x", hposition item "y"⟩

/-- A node that is changed in place is the only one that is new. -/
theorem mem_modify {α : Type*} {l : List α} {k : ℕ} {f : α → α} {a : α} (h : a ∈ l.modify k f) :
    a ∈ l ∨ ∃ b ∈ l, a = f b := by
  obtain ⟨j, hj⟩ := List.mem_iff_getElem?.mp h
  rw [List.getElem?_modify] at hj
  obtain ⟨b, hb, rfl⟩ := Option.map_eq_some_iff.mp hj
  split
  · exact Or.inr ⟨b, List.mem_of_getElem? hb, rfl⟩
  · exact Or.inl (List.mem_of_getElem? hb)

include hzero hnarrow in
theorem Graph.Narrow.apply (h : g.Narrow narrow) {op : Op}
    (hop : (op.cast narrow).apply g = .ok g') : g'.Narrow narrow := by
  cases op with
  | upsert id x y settings =>
    obtain rfl := Except.ok.inj hop
    unfold NodeManager.upsert
    split
    · intro n hn
      rcases mem_modify hn with hn | ⟨m, -, rfl⟩
      · exact h n hn
      · exact ⟨hnarrow x, hnarrow y⟩
    · exact h.addNode ⟨hnarrow x, hnarrow y⟩
  | updateSettings id settings =>
    cases settings with
    | none => cases hop
    | some settings =>
      obtain rfl := Except.ok.inj hop
      unfold NodeManager.updateSettings
      split
      · intro n hn
        rcases mem_modify hn with hn | ⟨m, hm, rfl⟩
        · exact h n hn
        · exact h m hm
      · exact h.addNode ⟨hzero, hzero⟩
  | delete id =>
    simp only [Op.cast, Op.apply, delete] at hop
    split at hop
    · cases hop
    · obtain rfl := Except.ok.inj hop
      exact fun n hn => h n (List.mem_of_mem_filter hn)
  | upsertEdge e =>
    obtain rfl := Except.ok.inj hop
    unfold NodeManager.upsertEdge
    split
    · exact h
    · exact h
  | deleteEdge id =>
    obtain rfl := Except.ok.inj hop
    exact h
  | clear =>
    obtain rfl := Except.ok.inj hop
    exact fun n hn => absurd hn List.not_mem_nil

end Narrow

/-! ## Starts -/

section Runs

variable {narrow : ℚ → ℚ} {numSize : ℚ → ℕ} {g g' : Graph} {s : State} {w : Write} {i : Start}
  {disk : Option (File Value)} {last : EspErr}

/-- After a write that was reported as a success, the file holds the graph or a part of it. -/
structure Inv (narrow : ℚ → ℚ) (s : State) : Prop where
  narrow : s.graph.Narrow narrow
  saved : s.last = .ok → s.disk = some (.text (buildJson s.graph)) ∨ s.disk = some .cut

theorem persistResult_eq_ok : persistResult w = .ok ↔ w.reported = true := by
  rw [persistResult]
  cases w.reported <;> cases w.printed <;> simp

theorem Inv.persist (h : s.graph.Narrow narrow) : Inv narrow (persist w s) where
  narrow := h
  saved := fun hok => Write.replace_of_reported (persistResult_eq_ok.mp hok)

/-- A start that finds its graph with a consumer unit in it writes nothing. -/
theorem init_of_has (h : (loadFromDisk narrow numSize i.readable disk).hasConsumerUnit = true) :
    init narrow numSize i disk last =
      { graph := loadFromDisk narrow numSize i.readable disk, disk, last } := by
  rw [init]
  simp only [Graph.withConsumerUnit, h, if_pos]

theorem init_of_not_has
    (h : (loadFromDisk narrow numSize i.readable disk).hasConsumerUnit = false) :
    init narrow numSize i disk last = NodeManager.persist i.write
      { graph := (loadFromDisk narrow numSize i.readable disk).withConsumerUnit, disk, last } := by
  rw [init, if_neg (by simp [h])]

theorem narrow_loadFromDisk (hzero : narrow 0 = 0) (hnarrow : ∀ x, narrow (narrow x) = narrow x)
    (numSize : ℚ → ℕ) (readable : Bool) (disk : Option (File Value)) :
    (loadFromDisk narrow numSize readable disk).Narrow narrow := by
  rw [loadFromDisk]
  cases load (Value.size numSize) 16384 readable disk with
  | none => exact fun n hn => absurd hn List.not_mem_nil
  | some root => exact narrow_readGraph hzero hnarrow root

theorem Inv.init (hzero : narrow 0 = 0) (hnarrow : ∀ x, narrow (narrow x) = narrow x)
    (h : last = .ok → ∃ g : Graph, g.Narrow narrow ∧
      (disk = some (.text (buildJson g)) ∨ disk = some .cut)) :
    Inv narrow (init narrow numSize i disk last) := by
  have hload := narrow_loadFromDisk hzero hnarrow numSize i.readable disk
  cases hhas : (loadFromDisk narrow numSize i.readable disk).hasConsumerUnit with
  | false =>
    rw [init_of_not_has hhas]
    exact Inv.persist (narrow_empty_withConsumerUnit hzero hload)
  | true =>
    rw [init_of_has hhas]
    refine ⟨hload, fun hok => ?_⟩
    obtain ⟨g, hg, rfl | rfl⟩ := h hok
    · rw [loadFromDisk_text hg] at hhas ⊢
      split at hhas
      · rename_i hfits
        rw [if_pos hfits]
        exact Or.inl rfl
      · exact absurd hhas (by decide)
    · exact Or.inr rfl

theorem Inv.step (hzero : narrow 0 = 0) (hnarrow : ∀ x, narrow (narrow x) = narrow x)
    (h : Inv narrow s) (e : Event) : Inv narrow (step narrow numSize s e) := by
  cases e with
  | call op w =>
    simp only [NodeManager.step]
    split
    · rename_i g hop
      exact Inv.persist (h.narrow.apply hzero hnarrow hop)
    · exact h
  | restart i => exact Inv.init hzero hnarrow fun hok => ⟨s.graph, h.narrow, h.saved hok⟩

theorem inv_runFrom (hzero : narrow 0 = 0) (hnarrow : ∀ x, narrow (narrow x) = narrow x)
    (numSize : ℚ → ℕ) (i : Start) (disk : Option (File Value)) (es : List Event) :
    Inv narrow (runFrom narrow numSize i disk es) := by
  have hinit : Inv narrow (NodeManager.init narrow numSize i disk .fail) :=
    Inv.init hzero hnarrow fun hok => absurd hok (by decide)
  rw [runFrom]
  generalize NodeManager.init narrow numSize i disk .fail = s at hinit
  induction es generalizing s with
  | nil => exact hinit
  | cons e es ih => exact ih _ (hinit.step hzero hnarrow e)

/-! ## Ids in every run -/

/-- The graph has unique ids, and so has the one that a restart would find. -/
structure IdsApart (narrow : ℚ → ℚ) (numSize : ℚ → ℕ) (s : State) : Prop where
  graph : s.graph.UniqueIds
  disk : ∀ readable, (loadFromDisk narrow numSize readable s.disk).UniqueIds

theorem uniqueIds_empty : Graph.UniqueIds {} := ⟨List.nodup_nil, List.nodup_nil⟩

theorem Graph.UniqueIds.withConsumerUnit (h : g.UniqueIds) : g.withConsumerUnit.UniqueIds := by
  unfold Graph.withConsumerUnit
  split
  · exact h
  · rename_i hnone
    refine ⟨nodup_map_append_singleton h.nodes ?_, h.edges⟩
    exact Option.not_isSome_iff_eq_none.mp hnone

theorem IdsApart.persist (h : IdsApart narrow numSize { s with graph := g })
    (hnarrow : g.Narrow narrow) (w : Write) :
    IdsApart narrow numSize (persist w { s with graph := g }) where
  graph := h.graph
  disk readable := by
    rw [NodeManager.persist, Write.replace]
    dsimp only
    split
    · split
      · rw [loadFromDisk_text hnarrow]
        split
        · exact h.graph
        · exact uniqueIds_empty
      · rw [loadFromDisk_cut]
        exact uniqueIds_empty
    · exact h.disk readable

theorem IdsApart.init (hzero : narrow 0 = 0) (hnarrow : ∀ x, narrow (narrow x) = narrow x)
    (h : ∀ readable, (loadFromDisk narrow numSize readable disk).UniqueIds) :
    IdsApart narrow numSize (init narrow numSize i disk last) := by
  cases hhas : (loadFromDisk narrow numSize i.readable disk).hasConsumerUnit with
  | true =>
    rw [init_of_has hhas]
    exact ⟨h i.readable, h⟩
  | false =>
    rw [init_of_not_has hhas]
    have hload := narrow_loadFromDisk hzero hnarrow numSize i.readable disk
    refine IdsApart.persist (s := { graph := {}, disk, last }) ⟨?_, h⟩ ?_ i.write
    · exact (h i.readable).withConsumerUnit
    · exact narrow_empty_withConsumerUnit hzero hload

theorem IdsApart.step (hzero : narrow 0 = 0) (hnarrow : ∀ x, narrow (narrow x) = narrow x)
    (hinv : Inv narrow s) (h : IdsApart narrow numSize s) (e : Event) :
    IdsApart narrow numSize (step narrow numSize s e) := by
  cases e with
  | call op w =>
    simp only [NodeManager.step]
    split
    · rename_i g hop
      refine IdsApart.persist ⟨h.graph.apply hop, h.disk⟩ ?_ w
      exact hinv.narrow.apply hzero hnarrow hop
    · exact h
  | restart i => exact IdsApart.init hzero hnarrow h.disk

/-- From a file that gives no id twice, or from none, no calls and restarts lead to a graph with two
nodes or two edges of one id. -/
theorem uniqueIds_runFrom (hzero : narrow 0 = 0) (hnarrow : ∀ x, narrow (narrow x) = narrow x)
    (hdisk : ∀ readable, (loadFromDisk narrow numSize readable disk).UniqueIds) (i : Start)
    (es : List Event) : (runFrom narrow numSize i disk es).graph.UniqueIds := by
  have hinit : Inv narrow (NodeManager.init narrow numSize i disk .fail) :=
    Inv.init hzero hnarrow fun hok => absurd hok (by decide)
  have hapart : IdsApart narrow numSize (NodeManager.init narrow numSize i disk .fail) :=
    IdsApart.init hzero hnarrow hdisk
  rw [runFrom]
  generalize NodeManager.init narrow numSize i disk .fail = s at hinit hapart
  induction es generalizing s with
  | nil => exact hapart.graph
  | cons e es ih =>
    exact ih _ (hinit.step hzero hnarrow e) (hapart.step hzero hnarrow hinit e)

/-! ## A restart -/

/-- A start leaves the file or writes its graph, unless its write cuts a file that was whole. -/
theorem replace_kept_iff (w : Write) (v : Value) (disk : Option (File Value)) :
    (w.replace v disk = disk ∨ w.replace v disk = some (.text v)) ↔
      (w.cuts = true → disk = some .cut) := by
  cases hcuts : w.cuts with
  | false => exact iff_of_true (Write.replace_of_not_cuts hcuts) (fun h => absurd h (by simp))
  | true =>
    rw [Write.replace_of_cuts hcuts]
    constructor
    · rintro (h | h) _
      · exact h.symm
      · simp at h
    · exact fun h => Or.inl (h rfl).symm

/-- A start that finds nothing to load writes a fresh graph. -/
theorem survives_of_fresh (h : loadFromDisk narrow numSize i.readable s.disk = {}) :
    Survives s (init narrow numSize i s.disk last) ↔
      s.graph.withConsumerUnit = Graph.withConsumerUnit {} ∧
        (i.write.cuts = true → s.disk = some .cut) := by
  have hhas : (loadFromDisk narrow numSize i.readable s.disk).hasConsumerUnit = false := by
    rw [h]
    rfl
  have hkept := replace_kept_iff i.write (buildJson (Graph.withConsumerUnit {})) s.disk
  rw [init_of_not_has hhas, h, ← hkept]
  constructor
  · rintro ⟨hgraph, hdisk⟩
    refine ⟨hgraph.symm, ?_⟩
    rw [← show Graph.withConsumerUnit {} = s.graph.withConsumerUnit from hgraph] at hdisk
    exact hdisk
  · rintro ⟨hgraph, hdisk⟩
    refine ⟨hgraph.symm, ?_⟩
    rw [hgraph]
    exact hdisk

/-- A start that finds the graph keeps it, and adds a consumer unit if need be. -/
theorem survives_of_loaded (h : loadFromDisk narrow numSize i.readable s.disk = s.graph)
    (hwhole : s.disk ≠ some .cut) :
    Survives s (init narrow numSize i s.disk last) ↔
      (i.write.cuts = true → s.graph.hasConsumerUnit = true) := by
  cases hhas : s.graph.hasConsumerUnit with
  | true =>
    rw [init_of_has (h.symm ▸ hhas), h]
    refine iff_of_true ⟨?_, Or.inl rfl⟩ fun _ => rfl
    simp only [Graph.withConsumerUnit, hhas, if_pos]
  | false =>
    rw [init_of_not_has (h.symm ▸ hhas), h]
    have hkept := replace_kept_iff i.write (buildJson s.graph.withConsumerUnit) s.disk
    constructor
    · rintro ⟨-, hdisk⟩ hcuts
      exact absurd (hkept.mp hdisk hcuts) hwhole
    · intro hcuts
      exact ⟨rfl, hkept.mpr fun hw => absurd (hcuts hw) (by simp)⟩

end Runs

/-- A graph whose last write was reported as a success survives a restart if and only if its file
was wholly written, is no larger than the reader allows and can be read, or there is nothing in the
graph but what a start adds; and the start's own write does not cut the file. -/
theorem restart_survives_iff {narrow : ℚ → ℚ} (hzero : narrow 0 = 0)
    (hnarrow : ∀ x, narrow (narrow x) = narrow x) (numSize : ℚ → ℕ) (first : Start)
    (disk : Option (File Value)) (es : List Event)
    (hok : (runFrom narrow numSize first disk es).last = .ok) (i : Start) :
    Survives (runFrom narrow numSize first disk es)
        (step narrow numSize (runFrom narrow numSize first disk es) (.restart i)) ↔
      KeepsGraph numSize (runFrom narrow numSize first disk es) i := by
  obtain ⟨hg, hsaved⟩ := inv_runFrom hzero hnarrow numSize first disk es
  generalize runFrom narrow numSize first disk es = s at hok hg hsaved ⊢
  by_cases hreads : ReadsBack numSize s i
  · obtain ⟨hwhole, hreadable, hsize⟩ := hreads
    have hload : loadFromDisk narrow numSize i.readable s.disk = s.graph := by
      rw [(hsaved hok).resolve_right hwhole, loadFromDisk_text hg, if_pos ⟨hreadable, hsize⟩]
    rw [step, survives_of_loaded hload hwhole]
    constructor
    · intro hhas
      exact ⟨Or.inl ⟨hwhole, hreadable, hsize⟩, fun hw => Or.inr ⟨⟨hwhole, hreadable, hsize⟩,
        hhas hw⟩⟩
    · rintro ⟨-, hcuts⟩ hw
      exact ((hcuts hw).resolve_left hwhole).2
  · have hload : loadFromDisk narrow numSize i.readable s.disk = {} := by
      rcases hsaved hok with hdisk | hdisk
      · rw [hdisk, loadFromDisk_text hg, if_neg]
        rintro ⟨hreadable, hsize⟩
        exact hreads ⟨by simp [hdisk], hreadable, hsize⟩
      · rw [hdisk, loadFromDisk_cut]
    rw [step, survives_of_fresh hload]
    constructor
    · rintro ⟨hgraph, hcuts⟩
      exact ⟨Or.inr hgraph, fun hw => Or.inl (hcuts hw)⟩
    · rintro ⟨hgraph, hcuts⟩
      exact ⟨hgraph.resolve_left hreads, fun hw =>
        (hcuts hw).resolve_right fun h => hreads h.1⟩

/-- Adding an inverter to a fresh graph outlasts a restart. -/
theorem restart_keeps_inverter :
    let s := runFrom id (fun _ => 1) {} none [.call (.upsert "solar_inverter" 0 0 none) {}]
    Survives s (step id (fun _ => 1) s (.restart {})) := by
  refine (restart_survives_iff rfl (fun _ => rfl) _ _ _ _ rfl {}).mpr ⟨Or.inl ⟨?_, rfl, ?_⟩, ?_⟩
  · intro hcut
    cases hcut
  · decide
  · exact fun h => absurd h (by decide)

/-! ## A graph that is too large to be read -/

section TooLarge

variable {narrow : ℚ → ℚ} {numSize : ℚ → ℕ}

/-- A node at the origin with a label. -/
def labelled (label : String) (id : String) : NodeConfig where
  id := id
  settings := .obj [("label", .str label)]

/-- The calls that add such nodes; each write goes well. -/
def addLabelled (label : String) (ids : List String) : List Event :=
  ids.map fun id => .call (.upsert id 0 0 (some (labelled label id).settings)) {}

/-- New nodes are added at the end. -/
theorem nodes_addLabelled (hzero : narrow 0 = 0) (label : String) {ids : List String}
    (hnodup : ids.Nodup) (s : State) (hnew : ∀ id ∈ ids, findNode s.graph.nodes id = none) :
    ((addLabelled label ids).foldl (step narrow numSize) s).graph.nodes =
      s.graph.nodes ++ ids.map (labelled label) := by
  induction ids generalizing s with
  | nil => simp [addLabelled]
  | cons id ids ih =>
    obtain ⟨hid, hnodup⟩ := List.nodup_cons.mp hnodup
    set s' := step narrow numSize s (.call (.upsert id 0 0 (some (labelled label id).settings)) {})
    have hs' : s'.graph.nodes = s.graph.nodes ++ [labelled label id] := by
      have hupsert : (upsert id (narrow 0) (narrow 0) (some (labelled label id).settings)
          s.graph).nodes = s.graph.nodes ++ [labelled label id] := by
        rw [upsert, hnew id List.mem_cons_self, hzero]
        rfl
      exact hupsert
    have hnew' : ∀ id' ∈ ids, findNode s'.graph.nodes id' = none := by
      intro id' hid'
      have hne : id ≠ id' := fun h => hid (h ▸ hid')
      have hold := hnew id' (List.mem_cons_of_mem _ hid')
      rw [findNode] at hold ⊢
      rw [hs', List.find?_append, hold, Option.none_or]
      simp [labelled, hne]
    have hrun := ih hnodup s' hnew'
    rw [hs', List.append_assoc] at hrun
    exact hrun

/-- The text of a graph holds the settings of all of its nodes. -/
theorem le_size_buildJson {g : Graph} {front back : List NodeConfig} (hg : g.nodes = front ++ back)
    {m : ℕ} (hback : ∀ n ∈ back, m ≤ n.settings.size numSize) :
    back.length * m ≤ (buildJson g).size numSize := by
  have hnode : ∀ n ∈ back, m ≤ (nodeJson n).size numSize := by
    intro n hn
    have hmember : ("settings", n.settings) ∈
        [("id", Value.str n.id), ("x", .num n.x), ("y", .num n.y), ("settings", n.settings)] := by
      simp
    exact (hback n hn).trans (Value.size_le_of_mem hmember)
  have hsum := List.card_nsmul_le_sum ((back.map nodeJson).map (·.size numSize)) m (by
    intro k hk
    obtain ⟨v, hv, rfl⟩ := List.mem_map.mp hk
    obtain ⟨n, hn, rfl⟩ := List.mem_map.mp hv
    exact hnode n hn)
  have harr : (Value.arr (g.nodes.map nodeJson)).size numSize ≤ (buildJson g).size numSize := by
    rw [buildJson]
    exact Value.size_le_of_mem List.mem_cons_self
  rw [Value.size, itemsSize_eq, hg, List.map_append, List.map_append, List.sum_append] at harr
  rw [List.length_map, List.length_map, smul_eq_mul] at hsum
  omega

/-- A label takes at least a byte for each letter. -/
theorem le_size_labelled (numSize : ℚ → ℕ) (n : ℕ) (id : String) :
    n ≤ (labelled (String.ofList (List.replicate n 'x')) id).settings.size numSize := by
  have hone : charSize 'x' = 1 := by decide
  have hsum : ((List.replicate n 'x').map charSize).sum = n := by
    rw [List.map_replicate, hone, List.sum_replicate, smul_eq_mul, Nat.mul_one]
  simp only [labelled, Value.size, membersSize, strSize, String.toList_ofList, hsum]
  omega

end TooLarge

/-- Twenty nodes, each with a label of 900 letters. -/
def twentyLabels : List Event :=
  addLabelled (String.ofList (List.replicate 900 'x'))
    ["node_11", "node_12", "node_13", "node_14", "node_15", "node_16", "node_17", "node_18",
      "node_19", "node_20", "node_21", "node_22", "node_23", "node_24", "node_25", "node_26",
      "node_27", "node_28", "node_29", "node_30"]

/-- Twenty labels of that length are saved and then lost: the start finds the file too large. -/
theorem restart_loses_graph : ¬ ∀ (narrow : ℚ → ℚ) (numSize : ℚ → ℕ), narrow 0 = 0 →
    (∀ x, narrow (narrow x) = narrow x) →
    ∀ (first : Start) (disk : Option (File Value)) (es : List Event),
    (runFrom narrow numSize first disk es).last = .ok →
    Survives (runFrom narrow numSize first disk es)
      (step narrow numSize (runFrom narrow numSize first disk es) (.restart {})) := by
  intro h
  have hsurvives := h id (fun _ => 1) rfl (fun _ => rfl) {} none twentyLabels (by decide)
  have hinv : Inv id (runFrom id (fun _ => 1) {} none twentyLabels) :=
    inv_runFrom rfl (fun _ => rfl) _ _ _ _
  have hok : (runFrom id (fun _ => 1) {} none twentyLabels).last = .ok := by decide
  have hnodes : (runFrom id (fun _ => 1) {} none twentyLabels).graph.nodes = _ :=
    nodes_addLabelled rfl _ (by decide) (init id (fun _ => 1) {} none .fail) (by decide)
  rw [step] at hsurvives
  generalize runFrom id (fun _ => 1) {} none twentyLabels = s at hsurvives hinv hok hnodes
  have hsize := le_size_buildJson hnodes fun n hn => by
    obtain ⟨id, -, rfl⟩ := List.mem_map.mp hn
    exact le_size_labelled (fun _ => 1) 900 id
  rw [List.length_map] at hsize
  simp only [List.length_cons, List.length_nil] at hsize
  have hload : loadFromDisk id (fun _ => 1) true s.disk = {} := by
    rcases hinv.saved hok with hdisk | hdisk
    · rw [hdisk, loadFromDisk_text hinv.narrow]
      have hlarge : ¬ (true = true ∧ (buildJson s.graph).size (fun _ => 1) ≤ 16384) := by
        rintro ⟨-, h⟩
        omega
      exact if_neg hlarge
    · rw [hdisk, loadFromDisk_cut]
  obtain ⟨hgraph, -⟩ := (survives_of_fresh hload).mp hsurvives
  have hlength : s.graph.nodes.length ≤ s.graph.withConsumerUnit.nodes.length := by
    unfold Graph.withConsumerUnit
    split <;> simp
  rw [hgraph, hnodes] at hlength
  exact absurd hlength (by decide)

end HomeEnergyManager.NodeManager
