import HomeEnergyManager.NodeManager.Delete
import HomeEnergyManager.WebServer.OfferedEndpoints

/-! # The nodes that a setup request makes

The grid meter, the tariff and the solar inverter are assigned by requests of their own, each a node
beside the consumer unit and an edge to it. An inverter brings its metered child endpoints along: a
battery at its `battery` handle and the PV strings at `dc_in`. The handles are the ones along which
`node_manager_delete` takes children, so that deleting the inverter takes back what the request
made.

The positions are exact numbers here, and a node that is handed to the node manager is stored.

Reference: `firmware/main/web_server.c`.
-/

namespace HomeEnergyManager.WebServer

open DeviceManager Json NodeManager

/-! ## The requests -/

/-- What a setup request assigns. -/
structure Assignment where
  nodeId : ℚ
  endpointId : ℚ
  label : String

inductive RequestError where
  | badJson
  | missing
deriving DecidableEq, Repr

/-- The text of the answer. -/
def RequestError.text : RequestError → String
  | .badJson => "Bad JSON"
  | .missing => "Missing nodeId/endpointId/label"

/-- What the three requests read of their body; `none` if it cannot be parsed. -/
def readAssignment : Option Value → Except RequestError Assignment
  | none => .error .badJson
  | some body =>
    match numAt body "nodeId", numAt body "endpointId", (body.member "label").bind Value.asStr with
    | some nodeId, some endpointId, some label => .ok { nodeId, endpointId, label }
    | _, _, _ => .error .missing

/-- `cu_x` and `cu_y`. -/
def cuPosition (g : Graph) : ℚ × ℚ :=
  ((findNode g.nodes "consumer_unit").map fun n => (n.x, n.y)).getD (0, 0)

/-- The settings of the node that is assigned. -/
def assignedSettings (a : Assignment) (type : String) : Value :=
  .obj [("label", .str a.label), ("type", .str type), ("nodeId", .num a.nodeId),
    ("endpointId", .num a.endpointId)]

/-- `topology_grid_put_handler` on what it has read. -/
def topologyGridPut (a : Assignment) (g : Graph) : Graph :=
  let (cuX, cuY) := cuPosition g
  let g := upsert "grid_meter" (cuX - 220) cuY (some (assignedSettings a "device")) g
  upsertEdge
    { id := "grid_meter-power-out-consumer_unit-grid", source := "grid_meter",
      target := "consumer_unit", sourceHandle := "power-out", targetHandle := "grid" } g

/-- `topology_tariff_put_handler` on what it has read, before it looks for a new tariff source. -/
def topologyTariffPut (a : Assignment) (g : Graph) : Graph :=
  let (cuX, cuY) := cuPosition g
  let g := upsert "tariff" (cuX - 220) (cuY + 120) (some (assignedSettings a "tariff")) g
  upsertEdge
    { id := "tariff-tariff-out-consumer_unit-tariff", source := "tariff",
      target := "consumer_unit", sourceHandle := "tariff-out", targetHandle := "tariff" } g

/-! ## The children of an inverter -/

def DEVICE_TYPE_POWER_SOURCE : UInt32 := 0x0011

def DEVICE_TYPE_ELECTRICAL_SENSOR : UInt32 := 0x0510

inductive ChildKind where
  | battery
  | pvString
deriving DecidableEq, Repr

/-- What a child endpoint is, by the device types of the first endpoint of its id; `none` if it is
not metered. -/
def childKind (endpoints : List Endpoint) (childEp : UInt16) : Option ChildKind :=
  (endpoints.find? (·.endpointId = childEp)).bind fun ep =>
    if DEVICE_TYPE_POWER_SOURCE ∈ ep.deviceTypes then some .battery
    else if DEVICE_TYPE_ELECTRICAL_SENSOR ∈ ep.deviceTypes then some .pvString
    else none

/-- The id of the node of a child. -/
def childId (kind : ChildKind) (childEp : UInt16) : String :=
  match kind with
  | .battery => "battery_" ++ toString childEp.toNat
  | .pvString => "pv_string_" ++ toString childEp.toNat

/-- The edge that ties a child to the inverter. -/
def childEdge (kind : ChildKind) (nodeId : String) : EdgeConfig :=
  match kind with
  | .battery =>
    { id := "solar_inverter-battery-" ++ nodeId ++ "-power-in", source := "solar_inverter",
      target := nodeId, sourceHandle := "battery", targetHandle := "power-in" }
  | .pvString =>
    { id := nodeId ++ "-power-out-solar_inverter-dc_in", source := nodeId,
      target := "solar_inverter", sourceHandle := "power-out", targetHandle := "dc_in" }

/-- `cs`. -/
def childSettings (matterNodeId : UInt64) (childEp : UInt16) (label type : String) : Value :=
  .obj [("nodeId", .num (Double.ofNat matterNodeId.toNat)), ("endpointId", .num childEp.toNat),
    ("label", .str label), ("type", .str type)]

/-- A node and the edge that comes with it. -/
structure Wiring where
  node : NodeConfig
  edge : EdgeConfig

/-- What the request makes of one child; `pvIndex` counts the PV strings before it. -/
def childWiring (matterNodeId : UInt64) (invX invY : ℚ) (kind : ChildKind) (childEp : UInt16)
    (pvIndex : ℕ) : Wiring :=
  let id := childId kind childEp
  match kind with
  | .battery =>
    { node :=
        { id, x := invX, y := invY + 160,
          settings := childSettings matterNodeId childEp "Battery" "battery" }
      edge := childEdge kind id }
  | .pvString =>
    { node :=
        { id, x := invX + 220, y := invY - 60 + pvIndex * 90,
          settings :=
            childSettings matterNodeId childEp ("PV String " ++ toString (pvIndex + 1)) "pvString" }
      edge := childEdge kind id }

/-- The node is stored, then the edge. -/
def Wiring.store (w : Wiring) (g : Graph) : Graph :=
  upsertEdge w.edge (upsert w.node.id w.node.x w.node.y (some w.node.settings) g)

/-- The loop of `topology_solar_build_children` over the parts. -/
def buildChildren (matterNodeId : UInt64) (endpoints : List Endpoint) (invX invY : ℚ) :
    List UInt16 → ℕ → Graph → Graph
  | [], _, g => g
  | childEp :: parts, pvIndex, g =>
    match childKind endpoints childEp with
    | none => buildChildren matterNodeId endpoints invX invY parts pvIndex g
    | some kind =>
      let g := (childWiring matterNodeId invX invY kind childEp pvIndex).store g
      let pvIndex := if kind = .pvString then pvIndex + 1 else pvIndex
      buildChildren matterNodeId endpoints invX invY parts pvIndex g

section Solar

variable (toUint64 : ℚ → UInt64) (toUint16 : ℚ → UInt16)

/-- `endpoints` and `parts`: those of the first device of the node id, and the parts of its first
endpoint of the endpoint id. -/
def solarParts (devices : List Device) (matterNodeId : UInt64) (solarEpId : UInt16) :
    List Endpoint × List UInt16 :=
  match devices.find? fun d => toUint64 (nodeNumber d) = matterNodeId with
  | none => ([], [])
  | some d =>
    (d.endpoints,
      ((d.endpoints.find? (·.endpointId = solarEpId)).map fun ep => ep.parts).getD [])

/-- `topology_solar_build_children`. -/
def topologySolarBuildChildren (devices : List Device) (matterNodeId : UInt64) (solarEpId : UInt16)
    (invX invY : ℚ) (g : Graph) : Graph :=
  let (endpoints, parts) := solarParts toUint64 devices matterNodeId solarEpId
  buildChildren matterNodeId endpoints invX invY parts 0 g

/-- `topology_solar_put_handler` on what it has read. -/
def topologySolarPut (devices : List Device) (a : Assignment) (g : Graph) : Graph :=
  let (cuX, cuY) := cuPosition g
  let g := upsert "solar_inverter" cuX (cuY + 220) (some (assignedSettings a "solarInverter")) g
  let g := upsertEdge
    { id := "solar_inverter-power-out-consumer_unit-solar_input", source := "solar_inverter",
      target := "consumer_unit", sourceHandle := "power-out", targetHandle := "solar_input" } g
  topologySolarBuildChildren toUint64 devices (toUint64 a.nodeId) (toUint16 a.endpointId) cuX
    (cuY + 220) g

end Solar

/-! ## What a request makes -/

/-- The wiring of the inverter itself. -/
def inverterWiring (a : Assignment) (x y : ℚ) : Wiring where
  node := { id := "solar_inverter", x, y, settings := assignedSettings a "solarInverter" }
  edge :=
    { id := "solar_inverter-power-out-consumer_unit-solar_input", source := "solar_inverter",
      target := "consumer_unit", sourceHandle := "power-out", targetHandle := "solar_input" }

/-- The wirings of the metered children. -/
def childWirings (matterNodeId : UInt64) (endpoints : List Endpoint) (invX invY : ℚ) :
    List UInt16 → ℕ → List Wiring
  | [], _ => []
  | childEp :: parts, pvIndex =>
    match childKind endpoints childEp with
    | none => childWirings matterNodeId endpoints invX invY parts pvIndex
    | some kind =>
      childWiring matterNodeId invX invY kind childEp pvIndex ::
        childWirings matterNodeId endpoints invX invY parts
          (if kind = .pvString then pvIndex + 1 else pvIndex)

/-- The wirings are stored one after the other. -/
def storeAll (ws : List Wiring) (g : Graph) : Graph := ws.foldl (fun g w => w.store g) g

/-- All that a request for an inverter makes. -/
def solarWirings (toUint64 : ℚ → UInt64) (toUint16 : ℚ → UInt16) (devices : List Device)
    (a : Assignment) (g : Graph) : List Wiring :=
  let (x, y) := cuPosition g
  let (endpoints, parts) := solarParts toUint64 devices (toUint64 a.nodeId) (toUint16 a.endpointId)
  inverterWiring a x (y + 220) ::
    childWirings (toUint64 a.nodeId) endpoints x (y + 220) parts 0

theorem buildChildren_eq (matterNodeId : UInt64) (endpoints : List Endpoint) (invX invY : ℚ)
    (parts : List UInt16) (pvIndex : ℕ) (g : Graph) :
    buildChildren matterNodeId endpoints invX invY parts pvIndex g =
      storeAll (childWirings matterNodeId endpoints invX invY parts pvIndex) g := by
  induction parts generalizing pvIndex g with
  | nil => rfl
  | cons childEp parts ih =>
    unfold buildChildren childWirings
    cases childKind endpoints childEp with
    | none => exact ih pvIndex g
    | some kind => exact ih _ _

theorem topologySolarPut_eq (toUint64 : ℚ → UInt64) (toUint16 : ℚ → UInt16)
    (devices : List Device) (a : Assignment) (g : Graph) :
    topologySolarPut toUint64 toUint16 devices a g =
      storeAll (solarWirings toUint64 toUint16 devices a g) g :=
  buildChildren_eq ..

/-! ## Changing the first entry of a kind -/

section Modify

variable {α : Type*} {p q : α → Bool} {f : α → α}

theorem filter_modify_findIdx (hq : ∀ a, q a = true → p a = false ∧ p (f a) = false) (l : List α) :
    (l.modify (l.findIdx q) f).filter p = l.filter p := by
  induction l with
  | nil => simp
  | cons a l ih =>
    rw [List.findIdx_cons]
    cases ha : q a with
    | true => simp [hq a ha]
    | false => simp [List.filter_cons, ih]

theorem find?_modify_findIdx (hq : ∀ a, q a = true → q (f a) = true) (l : List α) :
    (l.modify (l.findIdx q) f).find? q = (l.find? q).map f := by
  induction l with
  | nil => simp
  | cons a l ih =>
    rw [List.findIdx_cons]
    cases ha : q a with
    | true => simp [ha, hq a ha]
    | false => simp [ha, ih]

end Modify

/-! ## Storing wirings -/

section Store

variable {g : Graph} {w : Wiring} {ws : List Wiring} {e : EdgeConfig} {id : String}

/-- Wirings of one edge id have one edge. -/
def Consistent (ws : List Wiring) : Prop :=
  ∀ w ∈ ws, ∀ w' ∈ ws, w.edge.id = w'.edge.id → w.edge = w'.edge

theorem upsert_filter {x y : ℚ} {settings : Option Value} {p : NodeConfig → Bool}
    (hp : ∀ n : NodeConfig, n.id = id → p n = false) :
    (upsert id x y settings g).nodes.filter p = g.nodes.filter p := by
  unfold upsert
  split
  · refine filter_modify_findIdx (fun n hn => ?_) g.nodes
    have hid : n.id = id := of_decide_eq_true hn
    exact ⟨hp n hid, hp _ hid⟩
  · simp [List.filter_append, hp]

theorem findNode_upsert_self {x y : ℚ} {settings : Value} :
    findNode (upsert id x y (some settings) g).nodes id = some { id, x, y, settings } := by
  unfold upsert
  split
  · rename_i n hn
    have hid : n.id = id := by simpa using List.find?_some hn
    unfold findNode at hn ⊢
    refine (find?_modify_findIdx (fun n hn => ?_) g.nodes).trans ?_
    · exact hn
    · rw [hn, Option.map_some, hid]
      rfl
  · rename_i hn
    unfold findNode at hn ⊢
    simp [List.find?_append, hn]

theorem findNode_upsert_ne {id' : String} {x y : ℚ} {settings : Option Value} (h : id' ≠ id) :
    findNode (upsert id x y settings g).nodes id' = findNode g.nodes id' := by
  unfold findNode
  rw [← List.head?_filter, ← List.head?_filter, upsert_filter]
  rintro n rfl
  exact decide_eq_false (Ne.symm h)

theorem upsertEdge_filter {p : EdgeConfig → Bool}
    (hp : ∀ e' : EdgeConfig, e'.id = e.id → p e' = false) :
    (upsertEdge e g).edges.filter p = g.edges.filter p := by
  unfold upsertEdge
  split
  · exact filter_modify_findIdx
      (fun e' he' => ⟨hp e' (of_decide_eq_true he'), hp e rfl⟩) g.edges
  · simp [List.filter_append, hp e rfl]

theorem mem_upsertEdge_self : e ∈ (upsertEdge e g).edges := by
  have hfind : (upsertEdge e g).edges.find? (·.id = e.id) = some e := by
    unfold upsertEdge
    split
    · rename_i old hold
      refine (find?_modify_findIdx (fun _ _ => ?_) g.edges).trans ?_
      · exact decide_eq_true rfl
      · rw [hold, Option.map_some]
    · rename_i hnew
      simp [List.find?_append, hnew]
  exact List.mem_of_find?_eq_some hfind

theorem mem_upsertEdge_of_ne {e' : EdgeConfig} (he' : e' ∈ g.edges) (hne : e'.id ≠ e.id) :
    e' ∈ (upsertEdge e g).edges := by
  have hfilter := upsertEdge_filter (g := g) (e := e) (p := fun e' => e'.id ≠ e.id)
    fun e' he' => by simp [he']
  have hmem : e' ∈ g.edges.filter fun e' => e'.id ≠ e.id := by simp [he', hne]
  rw [← hfilter] at hmem
  exact List.mem_of_mem_filter hmem

theorem mem_upsertEdge {e' : EdgeConfig} (he' : e' ∈ (upsertEdge e g).edges) :
    e' ∈ g.edges ∨ e' = e := by
  unfold upsertEdge at he'
  split at he'
  · obtain ⟨i, hi⟩ := List.mem_iff_getElem?.mp he'
    rw [List.getElem?_modify] at hi
    split at hi
    · right
      cases hold : g.edges[i]? with
      | none => simp [hold] at hi
      | some old => simpa [hold, eq_comm] using hi
    · left
      exact List.mem_of_getElem? (by simpa using hi)
  · simpa using he'

@[simp] theorem upsertEdge_nodes : (upsertEdge e g).nodes = g.nodes := by
  unfold upsertEdge
  split <;> rfl

@[simp] theorem upsert_edges {x y : ℚ} {settings : Option Value} :
    (upsert id x y settings g).edges = g.edges := by
  unfold upsert
  split <;> rfl

/-- Nodes of other ids are as they were. -/
theorem storeAll_nodes (ws : List Wiring) (g : Graph) :
    (storeAll ws g).nodes.filter (fun n => n.id ∉ ws.map (·.node.id)) =
      g.nodes.filter fun n => n.id ∉ ws.map (·.node.id) := by
  have hkeep : ∀ ids : List String, (∀ w ∈ ws, w.node.id ∈ ids) →
      (storeAll ws g).nodes.filter (fun n => n.id ∉ ids) = g.nodes.filter fun n => n.id ∉ ids := by
    intro ids hids
    induction ws generalizing g with
    | nil => rfl
    | cons w ws ih =>
      obtain ⟨hw, hws⟩ := List.forall_mem_cons.mp hids
      refine (ih (w.store g) hws).trans ?_
      rw [Wiring.store, upsertEdge_nodes, upsert_filter]
      rintro n hn
      simp [hn, hw]
  exact hkeep _ fun w hw => List.mem_map_of_mem hw

/-- Edges of other ids are as they were. -/
theorem storeAll_edges (ws : List Wiring) (g : Graph) :
    (storeAll ws g).edges.filter (fun e => e.id ∉ ws.map (·.edge.id)) =
      g.edges.filter fun e => e.id ∉ ws.map (·.edge.id) := by
  have hkeep : ∀ ids : List String, (∀ w ∈ ws, w.edge.id ∈ ids) →
      (storeAll ws g).edges.filter (fun e => e.id ∉ ids) = g.edges.filter fun e => e.id ∉ ids := by
    intro ids hids
    induction ws generalizing g with
    | nil => rfl
    | cons w ws ih =>
      obtain ⟨hw, hws⟩ := List.forall_mem_cons.mp hids
      refine (ih (w.store g) hws).trans ?_
      rw [Wiring.store, upsertEdge_filter, upsert_edges]
      rintro e he
      simp [he, hw]
  exact hkeep _ fun w hw => List.mem_map_of_mem hw

/-- An edge is one that was there or one that was stored. -/
theorem mem_storeAll_edges (h : e ∈ (storeAll ws g).edges) :
    e ∈ g.edges ∨ ∃ w ∈ ws, w.edge = e := by
  induction ws generalizing g with
  | nil => exact .inl h
  | cons w ws ih =>
    rcases ih (g := w.store g) h with hold | ⟨w', hw', rfl⟩
    · rcases mem_upsertEdge hold with hold | rfl
      · exact .inl (by simpa using hold)
      · exact .inr ⟨w, List.mem_cons_self, rfl⟩
    · exact .inr ⟨w', List.mem_cons_of_mem w hw', rfl⟩

/-- A stored edge stays if the later ones of its id are the same. -/
theorem storeAll_keeps_edge (he : e ∈ g.edges) (h : ∀ w ∈ ws, w.edge.id = e.id → w.edge = e) :
    e ∈ (storeAll ws g).edges := by
  induction ws generalizing g with
  | nil => exact he
  | cons w ws ih =>
    obtain ⟨hw, hws⟩ := List.forall_mem_cons.mp h
    refine ih (g := w.store g) ?_ hws
    by_cases hid : w.edge.id = e.id
    · rw [← hw hid]
      exact mem_upsertEdge_self
    · exact mem_upsertEdge_of_ne (by simpa using he) (Ne.symm hid)

/-- Every edge that is stored is there in the end. -/
theorem storeAll_wires (h : Consistent ws) (hw : w ∈ ws) : w.edge ∈ (storeAll ws g).edges := by
  induction ws generalizing g with
  | nil => cases hw
  | cons w' ws ih =>
    rcases List.mem_cons.mp hw with rfl | hw
    · exact storeAll_keeps_edge (g := w.store g) mem_upsertEdge_self fun w' hw' hid =>
        h w' (List.mem_cons_of_mem w hw') w List.mem_cons_self hid
    · exact ih (g := w'.store g) (fun v hv v' hv' => h v (List.mem_cons_of_mem w' hv) v'
        (List.mem_cons_of_mem w' hv')) hw

/-- The node of an id that is stored is that of the last wiring of the id. -/
theorem findNode_storeAll (hw : w ∈ ws) :
    ∃ w' ∈ ws, w'.node.id = w.node.id ∧
      findNode (storeAll ws g).nodes w.node.id = some w'.node := by
  induction ws using List.reverseRecOn with
  | nil => cases hw
  | append_singleton ws v ih =>
    have hlast : storeAll (ws ++ [v]) g = v.store (storeAll ws g) := by
      rw [storeAll, List.foldl_append]
      rfl
    rw [hlast, Wiring.store, upsertEdge_nodes]
    by_cases hid : w.node.id = v.node.id
    · exact ⟨v, by simp, hid.symm, by rw [hid, findNode_upsert_self]⟩
    · rw [findNode_upsert_ne hid]
      have hmem : w ∈ ws := by
        rcases List.mem_append.mp hw with hw | hw
        · exact hw
        · rw [List.mem_singleton.mp hw] at hid
          exact absurd rfl hid
      obtain ⟨w', hw', hw'id, hfind⟩ := ih hmem
      exact ⟨w', List.mem_append_left [v] hw', hw'id, hfind⟩

/-- The node of another id is as it was. -/
theorem findNode_storeAll_of_ne (h : ∀ w ∈ ws, id ≠ w.node.id) :
    findNode (storeAll ws g).nodes id = findNode g.nodes id := by
  induction ws generalizing g with
  | nil => rfl
  | cons w ws ih =>
    obtain ⟨hw, hws⟩ := List.forall_mem_cons.mp h
    refine (ih (g := w.store g) hws).trans ?_
    rw [Wiring.store, upsertEdge_nodes, findNode_upsert_ne hw]

end Store

/-! ## The wirings of an inverter -/

section Texts

variable {s t a b : String} {kind kind' : ChildKind} {childEp childEp' : UInt16}

/-- Texts that begin differently are different. -/
theorem append_ne_append {i : ℕ} (hs : i < s.toList.length) (ht : i < t.toList.length)
    (hne : s.toList[i]? ≠ t.toList[i]?) : s ++ a ≠ t ++ b := by
  intro h
  have hlist := congrArg (fun u : String => u.toList[i]?) h
  simp only [String.toList_append, List.getElem?_append_left, hs, ht] at hlist
  exact hne hlist

theorem toString_toNat_injective (h : toString childEp.toNat = toString childEp'.toNat) :
    childEp = childEp' := by
  have hdigits := congrArg (fun u : String => Nat.ofDigitChars 10 u.toList 0) h
  simp only [Nat.toString_eq_ofList_toDigits, String.toList_ofList,
    Nat.ofDigitChars_ten_toDigits] at hdigits
  exact UInt16.toNat_inj.mp hdigits

theorem battery_ne_pv : "battery_" ++ a ≠ "pv_string_" ++ b :=
  append_ne_append (i := 0) (by decide) (by decide) (by decide)

theorem pv_ne_solar : "pv_string_" ++ a ≠ "solar_inverter" ++ b :=
  append_ne_append (i := 0) (by decide) (by decide) (by decide)

theorem batteryEdge_ne_inverterEdge :
    "solar_inverter-battery-" ++ a ++ s ≠
      "solar_inverter-power-out-consumer_unit-solar_input" ++ b := by
  have hassoc : "solar_inverter-battery-" ++ a ++ s = "solar_inverter-battery-" ++ (a ++ s) :=
    String.append_assoc
  rw [hassoc]
  exact append_ne_append (i := 15) (by decide +kernel) (by decide +kernel) (by decide +kernel)

theorem pvEdge_ne_batteryEdge :
    "pv_string_" ++ a ++ s ≠ "solar_inverter-battery-" ++ b ++ t := by
  have hpv : "pv_string_" ++ a ++ s = "pv_string_" ++ (a ++ s) := String.append_assoc
  have hbattery : "solar_inverter-battery-" ++ b ++ t = "solar_inverter-battery-" ++ (b ++ t) :=
    String.append_assoc
  rw [hpv, hbattery]
  exact append_ne_append (i := 0) (by decide) (by decide +kernel) (by decide +kernel)

theorem pvEdge_ne_inverterEdge :
    "pv_string_" ++ a ++ s ≠ "solar_inverter-power-out-consumer_unit-solar_input" ++ b := by
  have hassoc : "pv_string_" ++ a ++ s = "pv_string_" ++ (a ++ s) := String.append_assoc
  rw [hassoc]
  exact append_ne_append (i := 0) (by decide) (by decide +kernel) (by decide +kernel)

/-- Two children have nodes of different ids. -/
theorem childId_injective (h : childId kind childEp = childId kind' childEp') :
    kind = kind' ∧ childEp = childEp' := by
  cases kind <;> cases kind'
  · exact ⟨rfl, toString_toNat_injective ((String.append_right_inj _).mp h)⟩
  · exact absurd h battery_ne_pv
  · exact absurd h.symm battery_ne_pv
  · exact ⟨rfl, toString_toNat_injective ((String.append_right_inj _).mp h)⟩

theorem childId_ne : childId kind childEp ≠ "solar_inverter" := by
  rw [← String.append_empty (s := "solar_inverter")]
  cases kind
  · exact append_ne_append (i := 0) (by decide) (by decide) (by decide)
  · exact pv_ne_solar

theorem childEdge_id_ne :
    (childEdge kind (childId kind childEp)).id ≠
      "solar_inverter-power-out-consumer_unit-solar_input" := by
  rw [← String.append_empty (s := "solar_inverter-power-out-consumer_unit-solar_input")]
  cases kind
  · exact batteryEdge_ne_inverterEdge (a := childId .battery childEp) (s := "-power-in")
  · exact pvEdge_ne_inverterEdge (a := toString childEp.toNat)
      (s := "-power-out-solar_inverter-dc_in")

theorem pvEdge_ne :
    (childEdge .pvString (childId .pvString childEp)).id ≠
      (childEdge .battery (childId .battery childEp')).id :=
  pvEdge_ne_batteryEdge (a := toString childEp.toNat) (s := "-power-out-solar_inverter-dc_in")
    (b := childId .battery childEp') (t := "-power-in")

/-- Children whose edges have one id are one child. -/
theorem childEdge_id_injective
    (h : (childEdge kind (childId kind childEp)).id =
      (childEdge kind' (childId kind' childEp')).id) : kind = kind' ∧ childEp = childEp' := by
  cases kind <;> cases kind'
  · exact childId_injective ((String.append_right_inj _).mp ((String.append_left_inj _).mp h))
  · exact absurd h.symm pvEdge_ne
  · exact absurd h pvEdge_ne
  · exact childId_injective ((String.append_left_inj _).mp h)

end Texts

section Wirings

variable {matterNodeId : UInt64} {endpoints : List Endpoint} {invX invY : ℚ} {parts : List UInt16}
  {pvIndex : ℕ} {kind : ChildKind} {childEp : UInt16} {w : Wiring}

@[simp] theorem childWiring_id :
    (childWiring matterNodeId invX invY kind childEp pvIndex).node.id = childId kind childEp := by
  cases kind <;> rfl

@[simp] theorem childWiring_edge :
    (childWiring matterNodeId invX invY kind childEp pvIndex).edge =
      childEdge kind (childId kind childEp) := by
  cases kind <;> rfl

theorem childWiring_claims :
    let settings := (childWiring matterNodeId invX invY kind childEp pvIndex).node.settings
    numAt settings "nodeId" = some (Double.ofNat matterNodeId.toNat) ∧
      numAt settings "endpointId" = some (childEp.toNat : ℚ) := by
  cases kind <;> simp [childWiring, childSettings, numAt]

theorem mem_childWirings (h : w ∈ childWirings matterNodeId endpoints invX invY parts pvIndex) :
    ∃ childEp ∈ parts, ∃ kind, childKind endpoints childEp = some kind ∧
      ∃ pvIndex, w = childWiring matterNodeId invX invY kind childEp pvIndex := by
  induction parts generalizing pvIndex with
  | nil => cases h
  | cons childEp parts ih =>
    unfold childWirings at h
    cases hkind : childKind endpoints childEp with
    | none =>
      rw [hkind] at h
      obtain ⟨ep, hep, hrest⟩ := ih h
      exact ⟨ep, List.mem_cons_of_mem childEp hep, hrest⟩
    | some kind =>
      rw [hkind] at h
      rcases List.mem_cons.mp h with rfl | h
      · exact ⟨childEp, List.mem_cons_self, kind, hkind, pvIndex, rfl⟩
      · obtain ⟨ep, hep, hrest⟩ := ih h
        exact ⟨ep, List.mem_cons_of_mem childEp hep, hrest⟩

theorem childWirings_covers (hmem : childEp ∈ parts)
    (hkind : childKind endpoints childEp = some kind) :
    ∃ pvIndex', childWiring matterNodeId invX invY kind childEp pvIndex' ∈
      childWirings matterNodeId endpoints invX invY parts pvIndex := by
  induction parts generalizing pvIndex with
  | nil => cases hmem
  | cons ep parts ih =>
    unfold childWirings
    rcases List.mem_cons.mp hmem with rfl | hmem
    · rw [hkind]
      exact ⟨pvIndex, List.mem_cons_self⟩
    · cases childKind endpoints ep with
      | none => exact ih hmem
      | some _ =>
        obtain ⟨pvIndex', h⟩ := ih hmem
        exact ⟨pvIndex', List.mem_cons_of_mem _ h⟩

end Wirings

section SolarPut

variable {toUint64 : ℚ → UInt64} {toUint16 : ℚ → UInt16} {devices : List Device} {a : Assignment}
  {g : Graph} {w : Wiring}

/-- The endpoint is a metered child of the endpoint that is assigned. -/
def MeteredChild (toUint64 : ℚ → UInt64) (toUint16 : ℚ → UInt16) (devices : List Device)
    (a : Assignment) (kind : ChildKind) (childEp : UInt16) : Prop :=
  childEp ∈ (solarParts toUint64 devices (toUint64 a.nodeId) (toUint16 a.endpointId)).2 ∧
    childKind (solarParts toUint64 devices (toUint64 a.nodeId) (toUint16 a.endpointId)).1 childEp =
      some kind

/-- A wiring of the request is that of the inverter or that of a metered child. -/
theorem mem_solarWirings (h : w ∈ solarWirings toUint64 toUint16 devices a g) :
    (∃ x y, w = inverterWiring a x y) ∨
      ∃ kind childEp, MeteredChild toUint64 toUint16 devices a kind childEp ∧ ∃ invX invY pvIndex,
        w = childWiring (toUint64 a.nodeId) invX invY kind childEp pvIndex := by
  rcases List.mem_cons.mp h with rfl | h
  · exact .inl ⟨_, _, rfl⟩
  · obtain ⟨childEp, hpart, kind, hkind, pvIndex, rfl⟩ := mem_childWirings h
    exact .inr ⟨kind, childEp, ⟨hpart, hkind⟩, _, _, pvIndex, rfl⟩

theorem inverter_mem :
    "solar_inverter" ∈ (solarWirings toUint64 toUint16 devices a g).map (·.node.id) :=
  List.mem_cons_self

theorem childWiring_mem {kind : ChildKind} {childEp : UInt16}
    (h : MeteredChild toUint64 toUint16 devices a kind childEp) :
    ∃ invX invY pvIndex, childWiring (toUint64 a.nodeId) invX invY kind childEp pvIndex ∈
      solarWirings toUint64 toUint16 devices a g := by
  obtain ⟨pvIndex, hmem⟩ := childWirings_covers h.1 h.2
  exact ⟨_, _, pvIndex, List.mem_cons_of_mem _ hmem⟩

theorem solarWirings_consistent : Consistent (solarWirings toUint64 toUint16 devices a g) := by
  intro w hw w' hw' hid
  obtain ⟨x, y, rfl⟩ | ⟨kind, childEp, -, x, y, i, rfl⟩ := mem_solarWirings hw <;>
  obtain ⟨x', y', rfl⟩ | ⟨kind', childEp', -, x', y', i', rfl⟩ := mem_solarWirings hw'
  · rfl
  · rw [childWiring_edge] at hid
    exact absurd hid.symm childEdge_id_ne
  · rw [childWiring_edge] at hid
    exact absurd hid childEdge_id_ne
  · rw [childWiring_edge, childWiring_edge] at hid ⊢
    obtain ⟨rfl, rfl⟩ := childEdge_id_injective hid
    rfl

theorem findNode_inverter (toUint64 : ℚ → UInt64) (toUint16 : ℚ → UInt16)
    (devices : List Device) (a : Assignment) (g : Graph) :
    ∃ x y, findNode (storeAll (solarWirings toUint64 toUint16 devices a g) g).nodes
      "solar_inverter" = some (inverterWiring a x y).node := by
  have hmem : inverterWiring a (cuPosition g).1 ((cuPosition g).2 + 220) ∈
      solarWirings toUint64 toUint16 devices a g := List.mem_cons_self
  obtain ⟨w, hw, hid, hfind⟩ := findNode_storeAll (g := g) hmem
  obtain ⟨x, y, rfl⟩ | ⟨kind, childEp, -, x, y, i, rfl⟩ := mem_solarWirings hw
  · exact ⟨x, y, hfind⟩
  · rw [childWiring_id] at hid
    exact absurd hid childId_ne

/-- Whatever the topology was: after the request the inverter has its settings; each metered child
has a node that claims the child's endpoint and its edge to the inverter; and nodes and edges of
other ids are as they were. -/
theorem topologySolarPut_wires (toUint64 : ℚ → UInt64) (toUint16 : ℚ → UInt16)
    (devices : List Device) (a : Assignment) (g : Graph) :
    (∃ n, findNode (topologySolarPut toUint64 toUint16 devices a g).nodes "solar_inverter" =
        some n ∧ n.settings = assignedSettings a "solarInverter") ∧
    (∀ kind childEp, MeteredChild toUint64 toUint16 devices a kind childEp →
      childEdge kind (childId kind childEp) ∈
          (topologySolarPut toUint64 toUint16 devices a g).edges ∧
        ∃ n, findNode (topologySolarPut toUint64 toUint16 devices a g).nodes
            (childId kind childEp) = some n ∧
          numAt n.settings "nodeId" = some (Double.ofNat (toUint64 a.nodeId).toNat) ∧
          numAt n.settings "endpointId" = some (childEp.toNat : ℚ)) ∧
    (∀ id, id ≠ "solar_inverter" →
      (∀ kind childEp, MeteredChild toUint64 toUint16 devices a kind childEp →
        id ≠ childId kind childEp) →
      findNode (topologySolarPut toUint64 toUint16 devices a g).nodes id = findNode g.nodes id) ∧
    (topologySolarPut toUint64 toUint16 devices a g).edges.filter
        (fun e => e.id ∉ (solarWirings toUint64 toUint16 devices a g).map (·.edge.id)) =
      g.edges.filter
        fun e => e.id ∉ (solarWirings toUint64 toUint16 devices a g).map (·.edge.id) := by
  rw [topologySolarPut_eq]
  refine ⟨?_, fun kind childEp hchild => ⟨?_, ?_⟩, fun id hinverter hchild => ?_,
    storeAll_edges _ g⟩
  · obtain ⟨x, y, hfind⟩ := findNode_inverter toUint64 toUint16 devices a g
    exact ⟨_, hfind, rfl⟩
  · obtain ⟨x, y, i, hmem⟩ := childWiring_mem (g := g) hchild
    have hedge := storeAll_wires (g := g) solarWirings_consistent hmem
    rwa [childWiring_edge] at hedge
  · obtain ⟨x, y, i, hmem⟩ := childWiring_mem (g := g) hchild
    obtain ⟨w, hw, hid, hfind⟩ := findNode_storeAll (g := g) hmem
    rw [childWiring_id] at hid hfind
    obtain ⟨x, y, rfl⟩ | ⟨kind', childEp', -, x, y, i, rfl⟩ := mem_solarWirings hw
    · exact absurd hid.symm childId_ne
    · rw [childWiring_id] at hid
      obtain ⟨rfl, rfl⟩ := childId_injective hid
      exact ⟨_, hfind, childWiring_claims⟩
  · refine findNode_storeAll_of_ne fun w hw => ?_
    obtain ⟨x, y, rfl⟩ | ⟨kind, childEp, hmetered, x, y, i, rfl⟩ := mem_solarWirings hw
    · exact hinverter
    · rw [childWiring_id]
      exact hchild kind childEp hmetered

/-! ## Deleting the inverter again -/

/-- The graph has none of the nodes and edges that the wirings make. -/
structure FreshFor (ws : List Wiring) (g : Graph) : Prop where
  nodes : ∀ n ∈ g.nodes, n.id ∉ ws.map (·.node.id)
  edges : ∀ e ∈ g.edges, e.id ∉ ws.map (·.edge.id) ∧ e.touches (ws.map (·.node.id)) = false

/-- What goes with the inverter is what the request has made. -/
theorem removed_topologySolarPut (hfresh : FreshFor (solarWirings toUint64 toUint16 devices a g) g)
    (x : String) :
    Removed (storeAll (solarWirings toUint64 toUint16 devices a g) g) "solar_inverter" x ↔
      x ∈ (solarWirings toUint64 toUint16 devices a g).map (·.node.id) := by
  constructor
  · rintro (rfl | ⟨e, he, htarget, hhandle, rfl⟩ | ⟨e, he, hsource, hhandle, rfl⟩)
    · exact inverter_mem
    · rcases mem_storeAll_edges he with hold | ⟨w, hw, rfl⟩
      · have htouch := (touches_eq_false.mp (hfresh.edges e hold).2).2
        rw [htarget] at htouch
        exact absurd inverter_mem htouch
      · obtain ⟨x, y, rfl⟩ | ⟨kind, childEp, hchild, x, y, i, rfl⟩ := mem_solarWirings hw
        · have hne : "consumer_unit" ≠ "solar_inverter" := by decide
          exact absurd htarget hne
        · refine List.mem_map.mpr ⟨_, hw, ?_⟩
          rw [childWiring_edge] at hhandle ⊢
          cases kind
          · have hne : "power-in" ≠ "dc_in" := by decide
            exact absurd hhandle hne
          · rfl
    · rcases mem_storeAll_edges he with hold | ⟨w, hw, rfl⟩
      · have htouch := (touches_eq_false.mp (hfresh.edges e hold).2).1
        rw [hsource] at htouch
        exact absurd inverter_mem htouch
      · obtain ⟨x, y, rfl⟩ | ⟨kind, childEp, hchild, x, y, i, rfl⟩ := mem_solarWirings hw
        · have hne : "power-out" ≠ "battery" := by decide
          exact absurd hhandle hne
        · refine List.mem_map.mpr ⟨_, hw, ?_⟩
          rw [childWiring_edge] at hhandle ⊢
          cases kind
          · rfl
          · have hne : "power-out" ≠ "battery" := by decide
            exact absurd hhandle hne
  · intro hx
    obtain ⟨w, hw, rfl⟩ := List.mem_map.mp hx
    have hedge := storeAll_wires (g := g) solarWirings_consistent hw
    obtain ⟨x, y, rfl⟩ | ⟨kind, childEp, hchild, x, y, i, rfl⟩ := mem_solarWirings hw
    · exact .inl rfl
    · right
      rw [childWiring_edge] at hedge
      rw [childWiring_id]
      cases kind
      · exact .inr ⟨_, hedge, rfl, rfl, rfl⟩
      · exact .inl ⟨_, hedge, rfl, rfl, rfl⟩

/-- On a topology that has none of what it makes, the request for an inverter is undone by deleting
the inverter, whatever children the device has. -/
theorem delete_topologySolarPut
    (hfresh : FreshFor (solarWirings toUint64 toUint16 devices a g) g) :
    NodeManager.delete "solar_inverter" (topologySolarPut toUint64 toUint16 devices a g) =
      .ok g := by
  rw [topologySolarPut_eq]
  have hremoved := removed_topologySolarPut hfresh
  have hnotLocked : (storeAll (solarWirings toUint64 toUint16 devices a g) g).locked
      "solar_inverter" = false := by
    obtain ⟨x, y, hfind⟩ := findNode_inverter toUint64 toUint16 devices a g
    rw [Graph.locked, hfind]
    simp [NodeConfig.locked, inverterWiring, assignedSettings]
  rw [NodeManager.delete, hnotLocked, if_neg Bool.false_ne_true]
  refine congrArg Except.ok ?_
  have hnodes : (storeAll (solarWirings toUint64 toUint16 devices a g) g).nodes.filter
      (fun n => n.id ∉ removedIds "solar_inverter"
        (storeAll (solarWirings toUint64 toUint16 devices a g) g).edges) = g.nodes := by
    calc _ = (storeAll (solarWirings toUint64 toUint16 devices a g) g).nodes.filter
          fun n => n.id ∉ (solarWirings toUint64 toUint16 devices a g).map (·.node.id) := by
          refine List.filter_congr fun n _ => ?_
          rw [decide_eq_decide, mem_removedIds, hremoved]
      _ = g.nodes.filter
          fun n => n.id ∉ (solarWirings toUint64 toUint16 devices a g).map (·.node.id) :=
          storeAll_nodes _ g
      _ = g.nodes := List.filter_eq_self.mpr fun n hn => decide_eq_true (hfresh.nodes n hn)
  have hedges : (storeAll (solarWirings toUint64 toUint16 devices a g) g).edges.filter
      (fun e => !e.touches (removedIds "solar_inverter"
        (storeAll (solarWirings toUint64 toUint16 devices a g) g).edges)) = g.edges := by
    calc _ = (storeAll (solarWirings toUint64 toUint16 devices a g) g).edges.filter
          fun e => e.id ∉ (solarWirings toUint64 toUint16 devices a g).map (·.edge.id) := by
          refine List.filter_congr fun e he => ?_
          rw [Bool.eq_iff_iff, Bool.not_eq_true', touches_eq_false, decide_eq_true_eq,
            mem_removedIds, mem_removedIds, hremoved, hremoved]
          rcases mem_storeAll_edges he with hold | ⟨w, hw, rfl⟩
          · exact iff_of_true (touches_eq_false.mp (hfresh.edges e hold).2)
              (hfresh.edges e hold).1
          · -- each of the new edges has the inverter at one end
            refine iff_of_false (fun hends => ?_)
              (not_not_intro (List.mem_map_of_mem (f := fun w : Wiring => w.edge.id) hw))
            obtain ⟨x, y, rfl⟩ | ⟨kind, childEp, -, x, y, i, rfl⟩ := mem_solarWirings hw
            · exact hends.1 inverter_mem
            · rw [childWiring_edge] at hends
              cases kind
              · exact hends.1 inverter_mem
              · exact hends.2 inverter_mem
      _ = g.edges.filter
          fun e => e.id ∉ (solarWirings toUint64 toUint16 devices a g).map (·.edge.id) :=
          storeAll_edges _ g
      _ = g.edges := List.filter_eq_self.mpr fun e he => decide_eq_true (hfresh.edges e he).1
  rw [Graph.erase, hnodes, hedges]

/-- A hybrid inverter: a string at endpoint 2, a battery at 3, and 4 is not metered. -/
def hybridInverter : Device where
  nodeId := 10001
  endpoints :=
    [{ endpointId := 1, parts := [2, 3, 4] },
      { endpointId := 2, deviceTypes := [DEVICE_TYPE_ELECTRICAL_SENSOR] },
      { endpointId := 3, deviceTypes := [DEVICE_TYPE_POWER_SOURCE, DEVICE_TYPE_ELECTRICAL_SENSOR] },
      { endpointId := 4 }]

theorem delete_topologySolarPut_hybrid :
    (topologySolarPut (fun x => UInt64.ofNat x.num.toNat) (fun x => UInt16.ofNat x.num.toNat)
        [hybridInverter] { nodeId := 10001, endpointId := 1, label := "Roof" }
        { nodes := [{ id := "consumer_unit" }] }).nodes.map (·.id) =
      ["consumer_unit", "solar_inverter", "pv_string_2", "battery_3"] ∧
    NodeManager.delete "solar_inverter"
        (topologySolarPut (fun x => UInt64.ofNat x.num.toNat) (fun x => UInt16.ofNat x.num.toNat)
          [hybridInverter] { nodeId := 10001, endpointId := 1, label := "Roof" }
          { nodes := [{ id := "consumer_unit" }] }) =
      .ok { nodes := [{ id := "consumer_unit" }] } :=
  ⟨by decide +kernel, delete_topologySolarPut ⟨by decide +kernel, by decide +kernel⟩⟩

end SolarPut

end HomeEnergyManager.WebServer
