import HomeEnergyManager.Lib.StepSystem
import HomeEnergyManager.Tariff.Sources
import HomeEnergyManager.Topology.Document
import HomeEnergyManager.WebServer.TopologySetup

/-! # The topology requests and the tariff source

One task takes the requests that change the topology, one after the other. Those that touch an edge
derive the tariff source anew from the graph when they are done, and ask for a subscription to a
source that is new. The others leave the source as it is, also where they change what it is derived
from.

Reference: `firmware/main/web_server.c`, and `tariff_refresh_source` in `firmware/main/tariff.cpp`.
-/

namespace HomeEnergyManager.WebServer

open DeviceManager Json NodeManager StepSystem
open HomeEnergyManager.Topology (served served_nodes served_edges readSettings settingsOf)

/-! ## The requests -/

/-- What a request meets. -/
structure Outcome where
  /-- Whether the node manager stores the graph, at each of its calls. -/
  stored : ℕ → Bool := fun _ => true
  /-- There is memory for the document that `tariff_refresh_source` reads. -/
  parsed : Bool := true

/-- A request that changes the topology, once its path and body have been read. -/
inductive Request where
  | nodePut (id : String) (x y : ℚ) (settings : Option Value)
  /-- The settings are `none` if the body is no JSON. -/
  | nodeSettingsPut (id : String) (settings : Option Value)
  | nodeDelete (id : String)
  | edgePost (e : EdgeConfig)
  | edgeDelete (id : String)
  | topologyGridPut (a : Assignment)
  | topologySolarPut (devices : List Device) (a : Assignment)
  | topologyTariffPut (a : Assignment)
  | factoryReset

/-- The grid meter and its edge. -/
def gridWiring (a : Assignment) (g : Graph) : Wiring where
  node :=
    { id := "grid_meter", x := (cuPosition g).1 - 220, y := (cuPosition g).2,
      settings := assignedSettings a "device" }
  edge :=
    { id := "grid_meter-power-out-consumer_unit-grid", source := "grid_meter",
      target := "consumer_unit", sourceHandle := "power-out", targetHandle := "grid" }

/-- The tariff and its edge. -/
def tariffWiring (a : Assignment) (g : Graph) : Wiring where
  node :=
    { id := "tariff", x := (cuPosition g).1 - 220, y := (cuPosition g).2 + 120,
      settings := assignedSettings a "tariff" }
  edge :=
    { id := "tariff-tariff-out-consumer_unit-tariff", source := "tariff",
      target := "consumer_unit", sourceHandle := "tariff-out", targetHandle := "tariff" }

/-- A node, and its edge if the node has been stored; and whether both have. -/
def putWiring (stored : ℕ → Bool) (w : Wiring) (g : Graph) : Graph × Bool :=
  let g := upsert w.node.id w.node.x w.node.y (some w.node.settings) g
  if stored 0 then (upsertEdge w.edge g, stored 1) else (g, false)

/-- The children of an inverter from the `i`-th call on; one that is not stored gets no edge. -/
def putChildren (stored : ℕ → Bool) : List Wiring → ℕ → Graph → Graph
  | [], _, g => g
  | w :: ws, i, g =>
    let g := upsert w.node.id w.node.x w.node.y (some w.node.settings) g
    if stored i then putChildren stored ws (i + 2) (upsertEdge w.edge g)
    else putChildren stored ws (i + 1) g

section Requests

variable (toUint64 : ℚ → UInt64) (toUint16 : ℚ → UInt16)

/-- `topology_solar_put_handler`, calls that fail included. -/
def putSolar (stored : ℕ → Bool) (devices : List Device) (a : Assignment) (g : Graph) : Graph :=
  let (x, y) := cuPosition g
  let (g, ok) := putWiring stored (inverterWiring a x (y + 220)) g
  if ok then
    let (endpoints, parts) :=
      solarParts toUint64 devices (toUint64 a.nodeId) (toUint16 a.endpointId)
    putChildren stored (childWirings (toUint64 a.nodeId) endpoints x (y + 220) parts 0) 2 g
  else g

/-- What a request makes of the graph, and whether it goes on to `on_topology_changed`. -/
def Request.edit (o : Outcome) (g : Graph) : Request → Graph × Bool
  | nodePut id x y settings => (upsert id x y settings g, false)
  | nodeSettingsPut id settings =>
    match settings with
    | some settings => (updateSettings id settings g, false)
    | none => (g, false)
  | nodeDelete id =>
    match delete id g with
    | .ok g' => (g', o.stored 0)
    | .error _ => (g, false)
  | edgePost e => (upsertEdge e g, o.stored 0)
  | edgeDelete id => (deleteEdge id g, o.stored 0)
  | topologyGridPut a => ((putWiring o.stored (gridWiring a g) g).1, false)
  | topologySolarPut devices a => (putSolar toUint64 toUint16 o.stored devices a g, false)
  | topologyTariffPut a => putWiring o.stored (tariffWiring a g) g
  | factoryReset => ({}, false)

/-- The graph, the tariff recorder, and the nodes for which a subscription has been asked. -/
structure TopologyState where
  graph : Graph
  tariff : Tariff.State
  asked : List ℕ := []

/-- What `tariff_refresh_source` derives. -/
def derivedSource (parsed : Bool) (g : Graph) : Option Tariff.Source :=
  if parsed then Tariff.sourceOf (served g) else none

/-- `on_topology_changed`. -/
def onTopologyChanged (parsed : Bool) (s : TopologyState) : TopologyState :=
  let source := derivedSource parsed s.graph
  { s with
    tariff := Tariff.assignSource source s.tariff
    asked := s.asked ++ (source.filter (some · ≠ s.tariff.source)).toList.map Prod.fst }

def stepRequest (s : TopologyState) (e : Request × Outcome) : Option TopologyState :=
  let (graph, changed) := e.1.edit toUint64 toUint16 e.2 s.graph
  let s := { s with graph }
  some (if changed then onTopologyChanged e.2.parsed s else s)

/-- The start, with the graph that the node manager has loaded. -/
def TopologyState.boot (g : Graph) : TopologyState where
  graph := g
  tariff := { source := Tariff.sourceOf (served g) }

/-! ## Calls that are all stored -/

theorem putWiring_stored (w : Wiring) (g : Graph) :
    putWiring (fun _ => true) w g = (w.store g, true) := rfl

theorem putChildren_stored (ws : List Wiring) (i : ℕ) (g : Graph) :
    putChildren (fun _ => true) ws i g = storeAll ws g := by
  induction ws generalizing i g with
  | nil => rfl
  | cons w ws ih => exact ih (i + 2) (w.store g)

theorem putSolar_stored (devices : List Device) (a : Assignment) (g : Graph) :
    putSolar toUint64 toUint16 (fun _ => true) devices a g =
      topologySolarPut toUint64 toUint16 devices a g := by
  rw [topologySolarPut_eq]
  exact putChildren_stored ..

end Requests

/-! ## The source in the node manager's graph -/

/-- The Matter endpoint that settings name. -/
def identity (settings : Value) : Option Tariff.Source :=
  ((settings.member "nodeId").bind Value.asNum).bind fun nid =>
    ((settings.member "endpointId").bind Value.asNum).map fun eid =>
      (Topology.toUnsigned 64 nid, Topology.toUnsigned 16 eid)

/-- The node that an edge ties to the consumer unit's `tariff` handle. -/
def tariffNode (e : EdgeConfig) : Option String :=
  if e.target = "consumer_unit" ∧ e.targetHandle = "tariff" then some e.source
  else if e.source = "consumer_unit" ∧ e.sourceHandle = "tariff" then some e.target
  else none

/-- The node that is tied to the handle first. -/
def wired (g : Graph) : Option String := g.edges.findSome? tariffNode

/-- The endpoint of the node that is tied to the handle. -/
def sourceIn (g : Graph) : Option Tariff.Source :=
  (wired g).bind fun id => (settingsOf g id).bind identity

section Source

variable {g : Graph}

/-- A handle is read as it is, but for the empty one. -/
theorem read_handle {handle name : String} (hname : name ≠ "") :
    (if handle = "" then none else some handle) = some name ↔ handle = name := by
  by_cases h : handle = ""
  · subst h
    simp [hname.symm]
  · simp [h]

theorem tariffEnd_served (e : EdgeConfig) :
    Tariff.tariffEnd
        { source := some e.source, target := some e.target,
          sourceHandle := if e.sourceHandle = "" then none else some e.sourceHandle,
          targetHandle := if e.targetHandle = "" then none else some e.targetHandle } =
      tariffNode e := by
  have hname : "tariff" ≠ "" := by decide
  simp [Tariff.tariffEnd, tariffNode, read_handle hname, Topology.CONSUMER_UNIT_ID]

/-- The tariff source is the endpoint of the node that is tied to the handle. -/
theorem sourceOf_served : Tariff.sourceOf (served g) = sourceIn g := by
  have hwired : (served g).edges.findSome? Tariff.tariffEnd = wired g := by
    rw [served_edges, List.findSome?_map]
    exact congrArg (g.edges.findSome? ·) (funext tariffEnd_served)
  unfold Tariff.sourceOf sourceIn
  rw [hwired]
  cases wired g with
  | none => rfl
  | some id =>
    rw [Option.bind_some, Option.bind_some, Topology.findNode_served, settingsOf]
    cases findNode g.nodes id with
    | none => rfl
    | some n =>
      simp only [Option.map_some, Option.bind_some, readSettings, identity]
      cases (n.settings.member "nodeId").bind Value.asNum with
      | none => rfl
      | some nid => cases (n.settings.member "endpointId").bind Value.asNum <;> rfl

end Source

/-! ## What the requests do to it -/

section Edit

variable {g g' : Graph} {id : String} {settings : Value}

/-- A change of one node changes the source only through the node that is tied to the handle. -/
theorem sourceIn_eq_iff (hedges : g'.edges = g.edges)
    (hother : ∀ id', id' ≠ id → settingsOf g' id' = settingsOf g id') :
    sourceIn g' = sourceIn g ↔
      (wired g = some id → (settingsOf g' id).bind identity = sourceIn g) := by
  have hwired : wired g' = wired g := congrArg (List.findSome? tariffNode) hedges
  unfold sourceIn
  rw [hwired]
  cases hw : wired g with
  | none => simp
  | some id' =>
    rw [Option.bind_some, Option.bind_some, Option.some.injEq]
    by_cases hid : id' = id
    · subst hid
      simp
    · rw [hother id' hid]
      simp [hid]

theorem findNode_modify {nodes : List NodeConfig} {n : NodeConfig} {f : NodeConfig → NodeConfig}
    (hf : ∀ n, (f n).id = n.id) (hn : findNode nodes id = some n) :
    findNode (nodes.modify (nodes.findIdx (·.id = id)) f) id = some (f n) := by
  unfold findNode at hn ⊢
  rw [find?_modify_findIdx (fun n hid => by simpa [hf] using hid), hn, Option.map_some]

theorem settingsOf_upsert_self {x y : ℚ} {settings : Option Value} :
    settingsOf (upsert id x y settings g) id =
      some (settings.getD ((settingsOf g id).getD (.obj []))) := by
  unfold settingsOf upsert
  cases hn : findNode g.nodes id with
  | some n =>
    exact congrArg (Option.map (·.settings)) (findNode_modify
      (f := fun n => { n with x := x, y := y, settings := settings.getD n.settings })
      (fun _ => rfl) hn)
  | none =>
    unfold findNode at hn ⊢
    simp [List.find?_append, hn]

theorem settingsOf_updateSettings_self :
    settingsOf (updateSettings id settings g) id = some settings := by
  unfold settingsOf updateSettings
  cases hn : findNode g.nodes id with
  | some n =>
    exact congrArg (Option.map (·.settings)) (findNode_modify
      (f := fun n => { n with settings := settings }) (fun _ => rfl) hn)
  | none =>
    unfold findNode at hn ⊢
    simp [List.find?_append, hn]

theorem findNode_updateSettings_ne {id' : String} (h : id' ≠ id) :
    findNode (updateSettings id settings g).nodes id' = findNode g.nodes id' := by
  have hfilter : (updateSettings id settings g).nodes.filter (·.id = id') =
      g.nodes.filter (·.id = id') := by
    unfold updateSettings
    split
    · refine filter_modify_findIdx (fun n hn => ?_) g.nodes
      have hid : n.id = id := of_decide_eq_true hn
      simp [hid, h.symm]
    · simp [List.filter_append, h.symm]
  unfold findNode
  rw [← List.head?_filter, ← List.head?_filter, hfilter]

@[simp] theorem updateSettings_edges :
    (updateSettings id settings g).edges = g.edges := by
  unfold updateSettings
  split <;> rfl

/-- Storing a node changes the source exactly if the node is the one tied to the handle and comes
with settings that name another endpoint. -/
theorem sourceIn_upsert_iff {x y : ℚ} {settings : Option Value} :
    sourceIn (upsert id x y settings g) = sourceIn g ↔
      (wired g = some id → ∀ v ∈ settings, identity v = sourceIn g) := by
  rw [sourceIn_eq_iff upsert_edges fun id' h => congrArg _ (findNode_upsert_ne h)]
  refine imp_congr_right fun hw => ?_
  have hsource : sourceIn g = (settingsOf g id).bind identity := by
    rw [sourceIn, hw, Option.bind_some]
  rw [settingsOf_upsert_self, Option.bind_some]
  cases settings with
  | some v => simp
  | none =>
    rw [hsource]
    cases settingsOf g id with
    | none => simp [identity]
    | some old => simp

theorem sourceIn_updateSettings_iff :
    sourceIn (updateSettings id settings g) = sourceIn g ↔
      (wired g = some id → identity settings = sourceIn g) := by
  rw [sourceIn_eq_iff updateSettings_edges fun id' h => congrArg _ (findNode_updateSettings_ne h),
    settingsOf_updateSettings_self, Option.bind_some]

/-- Replacing the first entry of a kind. -/
theorem modify_findIdx_const {α : Type*} {q : α → Bool} {a : α} {l : List α}
    (h : (l.find? q).isSome = true) :
    l.modify (l.findIdx q) (fun _ => a) =
      l.takeWhile (fun b => !q b) ++ a :: (l.dropWhile fun b => !q b).drop 1 := by
  induction l with
  | nil => cases h
  | cons b l ih =>
    rw [List.findIdx_cons]
    cases hb : q b with
    | true => simp [hb]
    | false =>
      rw [List.find?_cons_of_neg (by simp [hb])] at h
      simp [hb, ih h]

/-- The node tied to the handle once an edge has been stored: that of the first edge before it, else
that of the edge itself, else that of the first edge behind it. -/
theorem wired_upsertEdge (e : EdgeConfig) :
    wired (upsertEdge e g) =
      (((g.edges.takeWhile (·.id ≠ e.id)).findSome? tariffNode).or (tariffNode e)).or
        (((g.edges.dropWhile (·.id ≠ e.id)).drop 1).findSome? tariffNode) := by
  have hedges : (upsertEdge e g).edges =
      g.edges.takeWhile (·.id ≠ e.id) ++ e :: (g.edges.dropWhile (·.id ≠ e.id)).drop 1 := by
    unfold upsertEdge
    cases hfind : g.edges.find? (·.id = e.id) with
    | some old =>
      simpa using modify_findIdx_const (a := e) (by rw [hfind, Option.isSome_some])
    | none =>
      have hne : ∀ old ∈ g.edges, old.id ≠ e.id := by simpa using hfind
      rw [List.takeWhile_eq_self_iff.mpr (by simpa using hne),
        List.dropWhile_eq_nil_iff.mpr (by simpa using hne), List.drop_nil]
  rw [wired, hedges, List.findSome?_append, List.findSome?_cons]
  cases tariffNode e <;> simp

end Edit

/-! ## The source in use -/

/-- The source in use is the one that would be derived from the graph. -/
def TopologyState.Current (s : TopologyState) : Prop :=
  s.tariff.source = Tariff.sourceOf (served s.graph)

section Runs

variable (toUint64 : ℚ → UInt64) (toUint16 : ℚ → UInt16)

/-- The source in use stays the right one: settings for the node that is tied to the handle name the
endpoint that it has already; a request that derives the source has the memory for it, where there
is one; and any other leaves what would be derived as it is. -/
def Request.Noticed (o : Outcome) (g : Graph) (r : Request) : Prop :=
  match r with
  | nodePut id _ _ settings | nodeSettingsPut id settings =>
    wired g = some id → ∀ v ∈ settings, identity v = sourceIn g
  | r =>
    match r.edit toUint64 toUint16 o g with
    | (g', true) => o.parsed = true ∨ sourceIn g' = none
    | (g', false) => sourceIn g' = sourceIn g

variable {toUint64 : ℚ → UInt64} {toUint16 : ℚ → UInt16} {s s' : TopologyState}
variable {e : Request × Outcome}

theorem assignSource_source (source : Option Tariff.Source) (t : Tariff.State) :
    (Tariff.assignSource source t).source = source := by
  unfold Tariff.assignSource
  split
  · exact Eq.symm ‹_›
  · rfl

theorem stepRequest_changed {g' : Graph}
    (hedit : e.1.edit toUint64 toUint16 e.2 s.graph = (g', true)) :
    stepRequest toUint64 toUint16 s e =
      some (onTopologyChanged e.2.parsed { s with graph := g' }) := by
  rw [stepRequest, hedit]
  rfl

theorem stepRequest_unchanged {g' : Graph}
    (hedit : e.1.edit toUint64 toUint16 e.2 s.graph = (g', false)) :
    stepRequest toUint64 toUint16 s e = some { s with graph := g' } := by
  rw [stepRequest, hedit]
  rfl

/-- What a request must leave to be noticed, read off the graph that it makes. -/
theorem noticed_iff : e.1.Noticed toUint64 toUint16 e.2 s.graph ↔
    match e.1.edit toUint64 toUint16 e.2 s.graph with
    | (g', true) => e.2.parsed = true ∨ sourceIn g' = none
    | (g', false) => sourceIn g' = sourceIn s.graph := by
  obtain ⟨r, o⟩ := e
  cases r with
  | nodePut id x y settings => exact sourceIn_upsert_iff.symm
  | nodeSettingsPut id settings =>
    cases settings with
    | none => exact iff_of_true (fun _ _ hv => nomatch hv) rfl
    | some v =>
      refine Iff.trans ?_ sourceIn_updateSettings_iff.symm
      exact imp_congr_right fun _ => by simp
  | _ => exact Iff.rfl

/-- One request: the source in use is right afterwards exactly if the request was noticed. -/
theorem current_step (hs : s.Current) (hstep : stepRequest toUint64 toUint16 s e = some s') :
    s'.Current ↔ e.1.Noticed toUint64 toUint16 e.2 s.graph := by
  rw [noticed_iff]
  unfold TopologyState.Current at hs ⊢
  rw [sourceOf_served] at hs ⊢
  rcases hedit : e.1.edit toUint64 toUint16 e.2 s.graph with ⟨g', changed⟩
  cases changed with
  | true =>
    rw [stepRequest_changed hedit] at hstep
    obtain rfl := Option.some.inj hstep
    dsimp only [onTopologyChanged]
    rw [assignSource_source, derivedSource, sourceOf_served]
    cases e.2.parsed with
    | true => simp
    | false => simp [eq_comm]
  | false =>
    rw [stepRequest_unchanged hedit] at hstep
    obtain rfl := Option.some.inj hstep
    dsimp only
    rw [hs, eq_comm]

/-- The source in use is the one of the start, or its node has been asked for. -/
def TopologyState.Asked (g : Graph) (s : TopologyState) : Prop :=
  ∀ source ∈ s.tariff.source,
    Tariff.sourceOf (served g) = some source ∨ source.1 ∈ s.asked

theorem asked_step {g : Graph} (hs : s.Asked g)
    (hstep : stepRequest toUint64 toUint16 s e = some s') : s'.Asked g := by
  rcases hedit : e.1.edit toUint64 toUint16 e.2 s.graph with ⟨g', changed⟩
  cases changed with
  | true =>
    rw [stepRequest_changed hedit] at hstep
    obtain rfl := Option.some.inj hstep
    intro source hsource
    dsimp only [onTopologyChanged] at hsource ⊢
    rw [assignSource_source] at hsource
    by_cases hsame : some source = s.tariff.source
    · refine (hs source hsame.symm).imp_right fun hasked => ?_
      exact List.mem_append_left _ hasked
    · refine .inr (List.mem_append_right _ ?_)
      rw [Option.mem_def.mp hsource, Option.filter_some_pos (by simpa using hsame)]
      exact List.mem_singleton_self _
  | false =>
    rw [stepRequest_unchanged hedit] at hstep
    obtain rfl := Option.some.inj hstep
    exact hs

theorem current_boot (g : Graph) : (TopologyState.boot g).Current := rfl

theorem asked_boot (g : Graph) : (TopologyState.boot g).Asked g := fun _ h => .inl h

/-- In every run of requests, whatever fails: the source in use is always the one that the graph
names exactly if every request is noticed; and a source other than the one at the start has been
asked for. -/
theorem tariffSource_current_iff (g : Graph) (es : List (Request × Outcome))
    (hrun : run (stepRequest toUint64 toUint16) (.boot g) es = some s) :
    (Always (stepRequest toUint64 toUint16) TopologyState.Current (.boot g) es ↔
      Meets (stepRequest toUint64 toUint16)
        (fun s e => e.1.Noticed toUint64 toUint16 e.2 s.graph) (.boot g) es) ∧
    ∀ source ∈ s.tariff.source,
      Tariff.sourceOf (served g) = some source ∨ source.1 ∈ s.asked := by
  constructor
  · exact always_iff_meets (fun _ hs => hs)
      (fun _ _ _ hs he hstep => (current_step hs hstep).mpr he)
      (fun _ _ _ hs he hstep hs' => he ((current_step hs hstep).mp hs')) (current_boot g) hrun
  · exact inv_of_every_run (fun _ _ _ hs hstep => asked_step hs hstep) (asked_boot g) hrun

/-- A tariff that is tied to its handle. -/
def tariffDrawn : Graph where
  nodes :=
    [consumerUnit, { id := "tariff", settings := assignedSettings ⟨5, 1, "Tariff"⟩ "tariff" }]
  edges := [(tariffWiring ⟨5, 1, "Tariff"⟩ {}).edge]

/-- Settings that give the tariff's node another device go unnoticed. -/
theorem tariffSource_current_iff_settings : ∃ s : TopologyState,
    run (stepRequest (fun _ => 0) fun _ => 0) (.boot tariffDrawn)
      [(.nodeSettingsPut "tariff" (some (assignedSettings ⟨6, 1, "Tariff"⟩ "tariff")), {})] =
        some s ∧
    ¬ Always (stepRequest (fun _ => 0) fun _ => 0) TopologyState.Current (.boot tariffDrawn)
      [(.nodeSettingsPut "tariff" (some (assignedSettings ⟨6, 1, "Tariff"⟩ "tariff")), {})] := by
  refine ⟨_, rfl, fun halways => ?_⟩
  have hnoticed := ((tariffSource_current_iff tariffDrawn _ rfl).1.mp halways).1 rfl _ rfl
  have hother : identity (assignedSettings ⟨6, 1, "Tariff"⟩ "tariff") ≠ sourceIn tariffDrawn := by
    decide +kernel
  exact hother hnoticed

/-! ## The request for a tariff -/

/-- The endpoint that a request assigns. -/
def Assignment.source (a : Assignment) : Tariff.Source :=
  (Topology.toUnsigned 64 a.nodeId, Topology.toUnsigned 16 a.endpointId)

/-- The node that an edge before the one of the request ties to the handle. -/
def wiredBefore (g : Graph) : Option String :=
  (g.edges.takeWhile (·.id ≠ "tariff-tariff-out-consumer_unit-tariff")).findSome? tariffNode

theorem identity_assignedSettings (a : Assignment) (type : String) :
    identity (assignedSettings a type) = some a.source := by
  simp [identity, assignedSettings, Assignment.source]

/-- The source that a request for a tariff leaves: an edge that was there before wins. -/
theorem sourceIn_topologyTariffPut (a : Assignment) (g : Graph) :
    sourceIn (topologyTariffPut a g) =
      if (wiredBefore g).getD "tariff" = "tariff" then some a.source
      else (settingsOf g ((wiredBefore g).getD "tariff")).bind identity := by
  have hput : topologyTariffPut a g = (tariffWiring a g).store g := rfl
  have hwired : wired (topologyTariffPut a g) = some ((wiredBefore g).getD "tariff") := by
    rw [hput, Wiring.store, wired_upsertEdge, upsert_edges]
    have hedge : tariffNode (tariffWiring a g).edge = some "tariff" := rfl
    rw [hedge]
    change ((wiredBefore g).or (some "tariff")).or _ = _
    cases wiredBefore g <;> rfl
  have hnodes (id : String) : settingsOf (topologyTariffPut a g) id =
      settingsOf (upsert "tariff" (tariffWiring a g).node.x (tariffWiring a g).node.y
        (some (assignedSettings a "tariff")) g) id := by
    rw [hput, Wiring.store, settingsOf, upsertEdge_nodes]
    rfl
  rw [sourceIn, hwired, Option.bind_some, hnodes]
  by_cases hself : (wiredBefore g).getD "tariff" = "tariff"
  · rw [if_pos hself, hself, settingsOf_upsert_self]
    exact identity_assignedSettings a "tariff"
  · rw [if_neg hself, settingsOf, findNode_upsert_ne hself, settingsOf]

/-- A request for a tariff takes effect unless an edge that was there before ties another device to
the handle. A source that is new is asked for, and nothing is left of what the old one reported. -/
theorem topologyTariffPut_assigns (s : TopologyState) (a : Assignment) :
    ∃ s', stepRequest toUint64 toUint16 s (.topologyTariffPut a, {}) = some s' ∧
      s'.graph = topologyTariffPut a s.graph ∧
      (s'.tariff.source = some a.source ↔ ∀ id ∈ wiredBefore s.graph, id ≠ "tariff" →
        (settingsOf s.graph id).bind identity = some a.source) ∧
      ∀ source ∈ s'.tariff.source, s.tariff.source ≠ some source →
        s'.asked = s.asked ++ [source.1] ∧
          s'.tariff = { source := some source, flushArmed := s.tariff.flushArmed } := by
  have hedit : (Request.topologyTariffPut a).edit toUint64 toUint16 {} s.graph =
      (topologyTariffPut a s.graph, true) := putWiring_stored (tariffWiring a s.graph) s.graph
  refine ⟨_, stepRequest_changed hedit, rfl, ?_, ?_⟩
  · dsimp only [onTopologyChanged]
    rw [assignSource_source, derivedSource, if_pos rfl, sourceOf_served, sourceIn_topologyTariffPut]
    cases wiredBefore s.graph with
    | none => simp
    | some id =>
      rw [Option.getD_some]
      by_cases hid : id = "tariff"
      · simp [hid]
      · simp [hid]
  · intro source hsource hnew
    dsimp only [onTopologyChanged] at hsource ⊢
    rw [assignSource_source] at hsource
    rw [Option.mem_def.mp hsource, Option.filter_some_pos (by simpa using hnew.symm)]
    exact ⟨rfl, if_neg hnew.symm⟩

/-! ## The requests as the tariff recorder meets them -/

/-- What a request is to the recorder: another graph, and a new look at it. -/
def recorderEvents (toUint64 : ℚ → UInt64) (toUint16 : ℚ → UInt16) (e : Request × Outcome)
    (g : Graph) : List Tariff.Event :=
  match e.1.edit toUint64 toUint16 e.2 g with
  | (g', true) => [.edit (served g'), .refreshRead e.2.parsed, .refreshAssign]
  | (g', false) => [.edit (served g')]

/-- A request is a run of the system of the recorders, which goes on with what the request leaves.
-/
theorem run_recorderEvents {t : Tariff.System} (htariff : t.tariff = s.tariff)
    (hidle : t.refresh = none) (hstep : stepRequest toUint64 toUint16 s e = some s') :
    run Tariff.step t (recorderEvents toUint64 toUint16 e s.graph) =
      some { t with graph := served s'.graph, tariff := s'.tariff } := by
  unfold recorderEvents
  rcases hedit : e.1.edit toUint64 toUint16 e.2 s.graph with ⟨g', changed⟩
  cases changed with
  | true =>
    rw [stepRequest_changed hedit] at hstep
    obtain rfl := Option.some.inj hstep
    simp [run, Tariff.step, hidle, htariff, onTopologyChanged, derivedSource]
  | false =>
    rw [stepRequest_unchanged hedit] at hstep
    obtain rfl := Option.some.inj hstep
    simp [run, Tariff.step, ← htariff]

end Runs

end HomeEnergyManager.WebServer
