import Mathlib.Data.List.Basic
import HomeEnergyManager.Canvas.Live

/-! # The readings behind the canvas

The firmware keeps the last value of each attribute. So what a reload restores at an edge is the
last power that its metered node reported, and that is what the frames have stamped on it.

Reference: `onInit` and `handleWsMessage` in `firmware/html_app/src/Topology.tsx`.
-/

namespace HomeEnergyManager.Canvas

open OrderedMap

/-! ## The last power of some reports -/

/-- The entry is about the active power. -/
def IsPower (clusterId attributeId : ℕ) : Prop := clusterId = EPM_CLUSTER ∧ attributeId = EPM_POWER

instance (clusterId attributeId : ℕ) : Decidable (IsPower clusterId attributeId) :=
  inferInstanceAs (Decidable (_ ∧ _))

theorem power_powerFromAttribute (clusterId attributeId : ℕ) (value : ℚ) :
    (powerFromAttribute clusterId attributeId value).power =
      if IsPower clusterId attributeId then some value else none := by
  unfold powerFromAttribute IsPower
  by_cases hcluster : clusterId = EPM_CLUSTER
  · by_cases hpower : attributeId = EPM_POWER
    · simp [hcluster, hpower, EPM_VOLTAGE, EPM_CURRENT, EPM_POWER]
    · simp only [hcluster, hpower, true_and, if_true, if_false]
      split_ifs <;> rfl
  · simp [hcluster]

/-- The last power that is reported, of whatever endpoint. -/
def lastPower (entries : List AttrEntry) : Option ℚ :=
  entries.foldl (fun o d => if IsPower d.clusterId d.attributeId then some d.value else o) none

theorem lastPower_concat (entries : List AttrEntry) (d : AttrEntry) :
    lastPower (entries ++ [d]) =
      if IsPower d.clusterId d.attributeId then some d.value else lastPower entries :=
  List.foldl_concat ..

/-- The power that a frame says of an endpoint is the last one in it. -/
theorem power_powerByKey (entries : List AttrEntry) (k : ℕ × ℕ) :
    (get (powerByKey entries) k).bind (·.power) =
      lastPower (entries.filter fun d => (d.nodeId, d.endpointId) = k) := by
  induction entries using List.reverseRecOn with
  | nil => rfl
  | append_singleton entries d ih =>
    have hpower := power_powerFromAttribute d.clusterId d.attributeId d.value
    rw [powerByKey, List.foldl_concat, ← powerByKey, List.filter_append]
    dsimp only
    by_cases hk : (d.nodeId, d.endpointId) = k
    · rw [List.filter_cons_of_pos (by simpa using hk), List.filter_nil, lastPower_concat]
      split
      · rename_i hnone
        rw [hnone] at hpower
        rw [ih]
        split at hpower
        · exact absurd hpower (by simp)
        · rename_i hnot
          rw [if_neg hnot]
      · rw [get_update, if_pos hk, hk, Option.bind_some, PowerMeasurement.merge, hpower]
        split
        · rfl
        · rw [Option.none_or, ← ih]
          cases get (powerByKey entries) k <;> rfl
    · rw [List.filter_cons_of_neg (by simpa using hk), List.filter_nil, List.append_nil, ← ih]
      split
      · rfl
      · rw [get_update, if_neg hk]

/-! ## What the firmware keeps -/

/-- The last value of each attribute. -/
def setValue (values : List ValueEntry) (d : AttrEntry) : List ValueEntry :=
  values.filter (fun v => ¬ (v.clusterId = d.clusterId ∧ v.attributeId = d.attributeId)) ++
    [{ clusterId := d.clusterId, attributeId := d.attributeId, value := d.value }]

/-- The node with what is reported of its endpoint. -/
def SavedNode.report (entries : List AttrEntry) (n : SavedNode) : SavedNode :=
  { n with
    values := (entries.filter fun d =>
      endpointOf n.nodeId n.endpointId = some (d.nodeId, d.endpointId)).foldl setValue n.values }

/-- What the firmware serves after some reports. -/
def SavedTopology.report (t : SavedTopology) (entries : List AttrEntry) : SavedTopology where
  nodes := t.nodes.map (SavedNode.report entries)
  edges := t.edges
  profiles := t.profiles
  nodup := by
    rw [List.map_map]
    exact t.nodup

theorem measurementOf_concat (values : List ValueEntry) (v : ValueEntry) :
    measurementOf (values ++ [v]) =
      (measurementOf values).merge (powerFromAttribute v.clusterId v.attributeId v.value) :=
  List.foldl_concat ..

theorem power_measurementOf_concat (values : List ValueEntry) (v : ValueEntry) :
    (measurementOf (values ++ [v])).power =
      if IsPower v.clusterId v.attributeId then some v.value else (measurementOf values).power := by
  rw [measurementOf_concat, PowerMeasurement.merge, power_powerFromAttribute]
  split
  · rfl
  · exact Option.none_or

/-- Values of other attributes may go. -/
theorem power_measurementOf_filter {p : ValueEntry → Bool} (values : List ValueEntry)
    (hp : ∀ v : ValueEntry, IsPower v.clusterId v.attributeId → p v = true) :
    (measurementOf (values.filter p)).power = (measurementOf values).power := by
  induction values using List.reverseRecOn with
  | nil => rfl
  | append_singleton values v ih =>
    rw [List.filter_append, power_measurementOf_concat]
    by_cases hpower : IsPower v.clusterId v.attributeId
    · rw [List.filter_cons_of_pos (hp v hpower), List.filter_nil, power_measurementOf_concat]
      rw [if_pos hpower, if_pos hpower]
    · rw [if_neg hpower, ← ih]
      cases hv : p v with
      | true =>
        rw [List.filter_cons_of_pos hv, List.filter_nil, power_measurementOf_concat,
          if_neg hpower]
      | false =>
        rw [List.filter_cons_of_neg (by simp [hv]), List.filter_nil, List.append_nil]

theorem power_setValue (values : List ValueEntry) (d : AttrEntry) :
    (measurementOf (setValue values d)).power =
      if IsPower d.clusterId d.attributeId then some d.value else (measurementOf values).power := by
  rw [setValue, power_measurementOf_concat]
  by_cases hpower : IsPower d.clusterId d.attributeId
  · rw [if_pos hpower, if_pos hpower]
  · rw [if_neg hpower, if_neg hpower]
    refine power_measurementOf_filter values fun v hv => ?_
    refine decide_eq_true fun h => hpower ?_
    rwa [← h.1, ← h.2]

theorem power_foldl_setValue (entries : List AttrEntry) (values : List ValueEntry) :
    (measurementOf (entries.foldl setValue values)).power =
      (lastPower entries).or (measurementOf values).power := by
  induction entries using List.reverseRecOn with
  | nil => exact Option.none_or.symm
  | append_singleton entries d ih =>
    rw [List.foldl_concat, power_setValue, ih, lastPower_concat]
    split <;> rfl

/-! ## The readings of the nodes -/

/-- The power that a reload reads for a node. -/
def SavedTopology.reading (t : SavedTopology) (id : String) : Option ℚ :=
  (get (powerByNode t.nodes) id).bind (·.power)

theorem reading_eq (t : SavedTopology) (id : String) :
    t.reading id = (t.nodes.find? (·.id = id)).bind fun n => (measurementOf n.values).power := by
  have hloop := get_foldl_of_nodup (·.id)
    (fun n : SavedNode => if measurementOf n.values = {} then none
      else some (measurementOf n.values)) t.nodup [] id
  have hstep : powerByNode t.nodes = t.nodes.foldl (fun m n =>
      (if measurementOf n.values = {} then none else some (measurementOf n.values)).elim m
        fun v => update n.id (fun _ => v) m) [] := by
    unfold powerByNode
    congr 1
    funext m n
    dsimp only
    split <;> rfl
  rw [SavedTopology.reading, hstep, hloop, get_nil, Option.or_none]
  cases t.nodes.find? (·.id = id) with
  | none => rfl
  | some n =>
    rw [Option.bind_some, Option.bind_some]
    split
    · rename_i h
      rw [h]
      rfl
    · rfl

/-- A saved node on the canvas. -/
def SavedNode.restore (n : SavedNode) : Node where
  id := n.id
  type := n.type
  deletable := some (n.deletable != some false)
  nodeId := n.nodeId
  endpointId := n.endpointId

/-- The node of the Unallocated edge, if none is saved. -/
def unallocatedNode : Node where
  id := unallocatedId
  type := some "unallocated"
  deletable := some false

theorem restoredNodes_eq (nodes : List SavedNode) : restoredNodes nodes =
    if (nodes.map SavedNode.restore).any (·.id = unallocatedId) then nodes.map SavedNode.restore
    else nodes.map SavedNode.restore ++ [unallocatedNode] := rfl

theorem map_id_restore (nodes : List SavedNode) :
    (nodes.map SavedNode.restore).map (·.id) = nodes.map (·.id) := by
  rw [List.map_map]
  rfl

theorem nodup_restoredNodes {nodes : List SavedNode} (h : (nodes.map (·.id)).Nodup) :
    ((restoredNodes nodes).map (·.id)).Nodup := by
  rw [restoredNodes_eq]
  split
  · rwa [map_id_restore]
  · rename_i hnone
    rw [List.map_append, map_id_restore]
    refine h.append (List.nodup_singleton _) (List.disjoint_singleton.mpr fun hmem => hnone ?_)
    rw [← map_id_restore] at hmem
    obtain ⟨n, hn, hid⟩ := List.mem_map.mp hmem
    exact List.any_eq_true.mpr ⟨n, hn, decide_eq_true hid⟩

/-- What is read of a node on the canvas is read of the saved one. -/
theorem find?_restoredNodes {β : Type*} (f : Node → Option β) (hf : f unallocatedNode = none)
    (nodes : List SavedNode) (id : String) :
    ((restoredNodes nodes).find? (·.id = id)).bind f =
      (nodes.find? (·.id = id)).bind fun n => f n.restore := by
  have hmap : (nodes.map SavedNode.restore).find? (·.id = id) =
      (nodes.find? (·.id = id)).map SavedNode.restore := by
    rw [List.find?_map]
    rfl
  have hbind : ((nodes.map SavedNode.restore).find? (·.id = id)).bind f =
      (nodes.find? (·.id = id)).bind fun n => f n.restore := by
    rw [hmap]
    cases nodes.find? (·.id = id) <;> rfl
  rw [restoredNodes_eq]
  split
  · exact hbind
  · rw [List.find?_append, ← hbind]
    cases (nodes.map SavedNode.restore).find? (·.id = id) with
    | some n => rfl
    | none =>
      by_cases hid : unallocatedNode.id = id
      · rw [List.find?_cons_of_pos (by simpa using hid)]
        exact hf
      · rw [List.find?_cons_of_neg (by simpa using hid)]
        rfl

/-- The power that a frame has for a node. -/
def SavedTopology.reported (t : SavedTopology) (entries : List AttrEntry) (id : String) :
    Option ℚ :=
  (get (powerByRfId (restoredNodes t.nodes) (powerByKey entries)) id).bind (·.power)

theorem get_powerByRfId (t : SavedTopology) (entries : List AttrEntry) (id : String) :
    get (powerByRfId (restoredNodes t.nodes) (powerByKey entries)) id =
      (t.nodes.find? (·.id = id)).bind fun n =>
        ((endpointOf n.nodeId n.endpointId).bind (get (powerByKey entries))).filter
          (·.power.isSome) := by
  let f (n : Node) : Option PowerMeasurement :=
    ((endpointOf n.nodeId n.endpointId).bind (get (powerByKey entries))).filter (·.power.isSome)
  have hloop := get_foldl_of_nodup (·.id) f (nodup_restoredNodes t.nodup) [] id
  have hstep : powerByRfId (restoredNodes t.nodes) (powerByKey entries) =
      (restoredNodes t.nodes).foldl (fun m n =>
        (f n).elim m fun v => update n.id (fun _ => v) m) [] := by
    unfold powerByRfId
    congr 1
    funext m n
    dsimp only [f]
    cases (endpointOf n.nodeId n.endpointId).bind (get (powerByKey entries)) with
    | none => rfl
    | some power =>
      cases hpower : power.power.isSome <;> simp [Option.filter, hpower]
  rw [hstep, hloop, get_nil, Option.or_none]
  exact find?_restoredNodes f rfl t.nodes id

theorem reported_eq (t : SavedTopology) (entries : List AttrEntry) (id : String) :
    t.reported entries id = (t.nodes.find? (·.id = id)).bind fun n =>
      lastPower (entries.filter fun d =>
        endpointOf n.nodeId n.endpointId = some (d.nodeId, d.endpointId)) := by
  rw [SavedTopology.reported, get_powerByRfId]
  cases t.nodes.find? (·.id = id) with
  | none => rfl
  | some n =>
    rw [Option.bind_some, Option.bind_some]
    cases endpointOf n.nodeId n.endpointId with
    | none => simp [lastPower]
    | some k =>
      have hfilter : entries.filter (fun d => some k = some (d.nodeId, d.endpointId)) =
          entries.filter fun d => (d.nodeId, d.endpointId) = k :=
        List.filter_congr fun d _ => decide_eq_decide.mpr (Option.some_inj.trans eq_comm)
      rw [Option.bind_some, hfilter, ← power_powerByKey]
      cases get (powerByKey entries) k with
      | none => rfl
      | some power => cases hpower : power.power <;> simp [Option.filter, hpower]

/-- A reload after a frame reads what the frame has, or else what it read before. -/
theorem reading_report (t : SavedTopology) (entries : List AttrEntry) (id : String) :
    (t.report entries).reading id = (t.reported entries id).or (t.reading id) := by
  have hfind : (t.report entries).nodes.find? (·.id = id) =
      (t.nodes.find? (·.id = id)).map (SavedNode.report entries) := by
    rw [SavedTopology.report, List.find?_map]
    rfl
  rw [reading_eq, reading_eq, reported_eq, hfind]
  cases t.nodes.find? (·.id = id) with
  | none => rfl
  | some n => exact power_foldl_setValue _ _

theorem restoredNodes_report (t : SavedTopology) (entries : List AttrEntry) :
    restoredNodes (t.report entries).nodes = restoredNodes t.nodes := by
  rw [restoredNodes_eq, restoredNodes_eq, SavedTopology.report, List.map_map]
  rfl

/-! ## The boards -/

/-- The sub consumer units on the canvas. -/
def SavedTopology.subCuIds (t : SavedTopology) : List String := subCuIdsOf (restoredNodes t.nodes)

theorem mem_subCuIds {t : SavedTopology} {id : String} (h : id ∈ t.subCuIds) :
    ∃ n ∈ t.nodes, n.id = id ∧ n.type.getD "" ∈ SUB_CU_TYPES := by
  obtain ⟨n, hn, rfl⟩ := List.mem_map.mp h
  obtain ⟨hmem, htype⟩ := List.mem_filter.mp hn
  have htype : n.type.getD "" ∈ SUB_CU_TYPES := of_decide_eq_true htype
  rw [restoredNodes_eq] at hmem
  have hrestored : n ∈ t.nodes.map SavedNode.restore := by
    split at hmem
    · exact hmem
    · rcases List.mem_append.mp hmem with hmem | hmem
      · exact hmem
      · rw [List.mem_singleton.mp hmem] at htype
        exact absurd htype (by decide)
  obtain ⟨saved, hsaved, rfl⟩ := List.mem_map.mp hrestored
  exact ⟨saved, hsaved, rfl, htype⟩

/-- The two nodes that every canvas has are what they are for: neither is a sub consumer unit, and
the Unallocated node stands for no device. -/
structure SavedTopology.FixedNodes (t : SavedTopology) : Prop where
  unit : ∀ n ∈ t.nodes, n.id = consumerUnitId → n.type.getD "" ∉ SUB_CU_TYPES
  unallocated : ∀ n ∈ t.nodes, n.id = unallocatedId →
    n.type.getD "" ∉ SUB_CU_TYPES ∧ n.nodeId = none

namespace SavedTopology.FixedNodes

variable {t : SavedTopology}

theorem report (h : t.FixedNodes) (entries : List AttrEntry) : (t.report entries).FixedNodes where
  unit n hn hid := by
    obtain ⟨n', hn', rfl⟩ := List.mem_map.mp hn
    exact h.unit n' hn' hid
  unallocated n hn hid := by
    obtain ⟨n', hn', rfl⟩ := List.mem_map.mp hn
    exact h.unallocated n' hn' hid

theorem consumerUnit_notMem (h : t.FixedNodes) : consumerUnitId ∉ t.subCuIds := by
  intro hmem
  obtain ⟨n, hn, hid, htype⟩ := mem_subCuIds hmem
  exact h.unit n hn hid htype

theorem unallocated_notMem (h : t.FixedNodes) : unallocatedId ∉ t.subCuIds := by
  intro hmem
  obtain ⟨n, hn, hid, htype⟩ := mem_subCuIds hmem
  exact (h.unallocated n hn hid).1 htype

/-- No frame has a reading for the Unallocated node. -/
theorem reported_unallocated (h : t.FixedNodes) (entries : List AttrEntry) :
    t.reported entries unallocatedId = none := by
  rw [reported_eq]
  cases hfind : t.nodes.find? (·.id = unallocatedId) with
  | none => rfl
  | some n =>
    have hid : n.id = unallocatedId := by simpa using List.find?_some hfind
    have hnone := (h.unallocated n (List.mem_of_find?_eq_some hfind) hid).2
    rw [Option.bind_some, hnone]
    simp [endpointOf, lastPower]

end SavedTopology.FixedNodes

end HomeEnergyManager.Canvas
