import HomeEnergyManager.Topology.Graph

/-! # The loads of the two readers

A metered node is profiled as an appliance if some edge makes it one, and logged as a load if the
first edge that connects it does. These are the same nodes unless some node is wired to a handle
that only one of the filters knows, or to several handles. -/

namespace HomeEnergyManager.Topology

open NodePowerLogger

/-- The node carries a Matter node and endpoint. -/
def Metered (g : Graph) (id : String) : Prop :=
  ∃ settings ∈ (findNode g.nodes id).bind (·.settings),
    settings.nodeId.isSome ∧ settings.endpointId.isSome

/-- The appliances that carry a Matter node and endpoint are the streams with the role load. -/
def LoadSetsAgree (g : Graph) : Prop :=
  ∀ id, (id ∈ (enumerateAppliances g).map Prod.fst ∧ Metered g id) ↔
    ∃ s ∈ refreshStreams g, s.graphId = id ∧ s.role = .load

/-- No more nodes qualify than are enumerated. -/
def FewAppliances (g : Graph) : Prop :=
  ((g.edges.filterMap (applianceOf g.nodes)).map Prod.fst).dedup.length ≤ MAX_APPLIANCES

/-- The role that the first edge which connects a node gives it. -/
def firstRole (g : Graph) (id : String) : Option Role :=
  ((g.edges.filterMap (connectionOf g.nodes)).find? (·.1 = id)).map Prod.snd

/-- An edge makes the node an appliance, but the first edge that connects it gives it another role
than load, or none does. -/
def Phantom (g : Graph) (id : String) : Prop :=
  (∃ e ∈ g.edges, (applianceOf g.nodes e).map Prod.fst = some id) ∧ firstRole g id ≠ some .load

/-- The node is a load, but it is wired to boards by handles of appliances nowhere. -/
def Unprofiled (g : Graph) (id : String) : Prop :=
  firstRole g id = some .load ∧
    ∀ e ∈ g.edges, ∀ p ∈ boardEnd g.nodes e, p.1 = id → handleIsAppliance p.2 = false

instance (g : Graph) (id : String) : Decidable (Metered g id) :=
  inferInstanceAs (Decidable (∃ _ ∈ _, _))

instance (g : Graph) : Decidable (FewAppliances g) := inferInstanceAs (Decidable (_ ≤ _))

instance (g : Graph) (id : String) : Decidable (Phantom g id) :=
  inferInstanceAs (Decidable (_ ∧ _))

instance (g : Graph) (id : String) : Decidable (Unprofiled g id) :=
  inferInstanceAs (Decidable (_ ∧ ∀ _ ∈ _, _))

section Walks

variable {nodes : List Node} {g : Graph} {id : String}

theorem visitEdges_eq (seen : List (String × Option String)) (edges : List Edge) :
    visitEdges nodes seen edges
      = FirstSeen.collectUpTo MAX_APPLIANCES seen (edges.filterMap (applianceOf nodes)) := by
  induction edges generalizing seen with
  | nil => rfl
  | cons e edges ih =>
    rw [visitEdges, List.filterMap_cons]
    cases applianceOf nodes e with
    | none => exact ih seen
    | some visit =>
      dsimp only
      rw [FirstSeen.collectUpTo, ih, ih]

theorem foldl_connectEdge (connected : List (String × Role)) (edges : List Edge) :
    edges.foldl (connectEdge nodes) connected
      = FirstSeen.collect connected (edges.filterMap (connectionOf nodes)) := by
  induction edges generalizing connected with
  | nil => rfl
  | cons e edges ih =>
    rw [List.foldl_cons, ih, List.filterMap_cons]
    unfold connectEdge
    cases connectionOf nodes e with
    | none => rfl
    | some c =>
      dsimp only
      rw [FirstSeen.collect]
      split <;> rfl

/-- Below the cap, the nodes that some edge makes an appliance are enumerated. -/
theorem mem_enumerateAppliances (h : FewAppliances g) :
    id ∈ (enumerateAppliances g).map Prod.fst ↔
      ∃ e ∈ g.edges, (applianceOf g.nodes e).map Prod.fst = some id := by
  unfold FewAppliances at h
  rw [← FirstSeen.length_collect] at h
  rw [enumerateAppliances, visitEdges_eq, FirstSeen.collectUpTo_eq h, FirstSeen.mem_keys_collect]
  simp only [List.mem_map, List.mem_filterMap, Option.map_eq_some_iff]
  constructor
  · rintro ⟨visit, ⟨e, he, hvisit⟩, rfl⟩
    exact ⟨e, he, visit, hvisit, rfl⟩
  · rintro ⟨e, he, visit, hvisit, rfl⟩
    exact ⟨visit, ⟨e, he, hvisit⟩, rfl⟩

/-- A node is connected with the role of the first edge that connects it. -/
theorem mem_connected {role : Role} :
    (id, role) ∈ g.edges.foldl (connectEdge g.nodes) [] ↔ firstRole g id = some role := by
  rw [foldl_connectEdge, FirstSeen.mem_collect, firstRole, Option.map_eq_some_iff]
  constructor
  · rintro (hnil | ⟨-, hfirst⟩)
    · exact absurd hnil List.not_mem_nil
    · exact ⟨(id, role), hfirst, rfl⟩
  · rintro ⟨⟨id', role'⟩, hfirst, rfl⟩
    obtain rfl : id' = id := by simpa using List.find?_some hfirst
    exact Or.inr ⟨List.not_mem_nil, hfirst⟩

/-- The loads that are logged: the metered nodes that are connected as loads. -/
theorem mem_loads :
    (∃ s ∈ refreshStreams g, s.graphId = id ∧ s.role = .load) ↔
      sanitizeToken id.toList = true ∧ Metered g id ∧ firstRole g id = some .load := by
  unfold refreshStreams
  constructor
  · rintro ⟨s, hs, rfl, hrole⟩
    obtain ⟨c, hc, hstream⟩ := List.mem_filterMap.mp hs
    unfold streamOf at hstream
    split at hstream
    · rename_i hclean
      obtain ⟨settings, hsettings, hmatter⟩ := Option.bind_eq_some_iff.mp hstream
      split at hmatter
      · rename_i nid eid hnid heid
        obtain rfl := Option.some.inj hmatter
        dsimp only at hrole ⊢
        refine ⟨hclean, ⟨settings, hsettings, by rw [hnid]; rfl, by rw [heid]; rfl⟩, ?_⟩
        rw [← mem_connected, ← hrole]
        exact hc
      · exact nomatch hmatter
    · exact nomatch hstream
  · rintro ⟨hclean, ⟨settings, hsettings, hnid, heid⟩, hfirst⟩
    obtain ⟨nid, hnid⟩ := Option.isSome_iff_exists.mp hnid
    obtain ⟨eid, heid⟩ := Option.isSome_iff_exists.mp heid
    refine ⟨{ graphId := id, role := .load, nodeId := toUnsigned 64 nid,
              endpointId := toUnsigned 16 eid }, ?_, rfl, rfl⟩
    refine List.mem_filterMap.mpr ⟨(id, .load), mem_connected.mpr hfirst, ?_⟩
    unfold streamOf
    dsimp only
    rw [if_pos hclean, Option.mem_def.mp hsettings, Option.bind_some, hnid, heid]

/-- What makes a node an appliance: an edge at a board, by a handle of an appliance. -/
theorem applianceOf_eq_some {e : Edge} :
    (applianceOf nodes e).map Prod.fst = some id ↔
      id ≠ GRID_NODE_ID ∧ sanitizeToken id.toList = true ∧
        ∃ handle, boardEnd nodes e = some (id, handle) ∧ handleIsAppliance handle = true := by
  unfold applianceOf
  cases boardEnd nodes e with
  | none => simp
  | some p =>
    obtain ⟨other, handle⟩ := p
    dsimp only
    split_ifs with hgrid hhandle hclean
    · simp only [Option.map_none, reduceCtorEq, false_iff]
      rintro ⟨hne, -, handle', heq, -⟩
      obtain ⟨rfl, -⟩ := Prod.mk.inj (Option.some.inj heq)
      exact hne hgrid
    · simp only [Option.map_none, reduceCtorEq, false_iff]
      rintro ⟨-, -, handle', heq, happliance⟩
      obtain ⟨-, rfl⟩ := Prod.mk.inj (Option.some.inj heq)
      rw [happliance] at hhandle
      exact nomatch hhandle
    · simp only [Option.map_none, reduceCtorEq, false_iff]
      rintro ⟨-, hclean', handle', heq, -⟩
      obtain ⟨rfl, -⟩ := Prod.mk.inj (Option.some.inj heq)
      rw [hclean'] at hclean
      exact nomatch hclean
    · simp only [Option.map_some, Option.some.injEq, Prod.mk.injEq]
      constructor
      · rintro rfl
        exact ⟨hgrid, by simpa using hclean, handle, ⟨rfl, rfl⟩, by simpa using hhandle⟩
      · rintro ⟨-, -, -, ⟨rfl, -⟩, -⟩
        rfl

/-- The grid meter is no load. -/
theorem firstRole_grid : firstRole g GRID_NODE_ID ≠ some .load := by
  intro h
  obtain ⟨⟨other, role⟩, hfirst, hrole⟩ := Option.map_eq_some_iff.mp h
  obtain rfl : other = GRID_NODE_ID := by simpa using List.find?_some hfirst
  obtain rfl : role = .load := hrole
  obtain ⟨e, -, he⟩ := List.mem_filterMap.mp (List.mem_of_find?_eq_some hfirst)
  unfold connectionOf at he
  split at he
  · split at he
    · exact nomatch (Prod.mk.inj (Option.some.inj he)).2
    · split at he
      · exact nomatch he
      · split at he
        · exact nomatch he
        · obtain ⟨rfl, hrole'⟩ := Prod.mk.inj (Option.some.inj he)
          unfold roleOf at hrole'
          simp at hrole'
  · exact nomatch he

/-- A metered node is one of the nodes of the graph. -/
theorem Metered.mem_nodes (h : Metered g id) : ∃ n ∈ g.nodes, id ∈ n.id := by
  obtain ⟨settings, hsettings, -⟩ := h
  obtain ⟨n, hn, -⟩ := Option.bind_eq_some_iff.mp hsettings
  exact ⟨n, List.mem_of_find?_eq_some hn, by simpa using List.find?_some hn⟩

end Walks

/-- With no more qualifying nodes than are enumerated, the load sets agree exactly if no metered
node is an appliance without being a load, or a load without being an appliance, by its edges. -/
theorem load_sets_agree_iff (g : Graph) (hfew : FewAppliances g) :
    LoadSetsAgree g ↔
      ∀ n ∈ g.nodes, ∀ id ∈ n.id, sanitizeToken id.toList = true → Metered g id →
        ¬ Phantom g id ∧ ¬ Unprofiled g id := by
  unfold LoadSetsAgree
  simp only [mem_enumerateAppliances hfew, mem_loads]
  constructor
  · intro h n _ id _ hclean hmetered
    constructor
    · rintro ⟨happliance, hrole⟩
      exact hrole ((h id).mp ⟨happliance, hmetered⟩).2.2
    · rintro ⟨hrole, hhandles⟩
      obtain ⟨⟨e, he, happliance⟩, -⟩ := (h id).mpr ⟨hclean, hmetered, hrole⟩
      obtain ⟨-, -, handle, hboard, hhandle⟩ := applianceOf_eq_some.mp happliance
      exact nomatch hhandle.symm.trans (hhandles e he (id, handle) hboard rfl)
  · intro h id
    constructor
    · rintro ⟨⟨e, he, happliance⟩, hmetered⟩
      obtain ⟨-, hclean, -⟩ := applianceOf_eq_some.mp happliance
      obtain ⟨n, hn, hid⟩ := hmetered.mem_nodes
      refine ⟨hclean, hmetered, ?_⟩
      by_contra hrole
      exact (h n hn id hid hclean hmetered).1 ⟨⟨e, he, happliance⟩, hrole⟩
    · rintro ⟨hclean, hmetered, hrole⟩
      obtain ⟨n, hn, hid⟩ := hmetered.mem_nodes
      have hgrid : id ≠ GRID_NODE_ID := by
        rintro rfl
        exact firstRole_grid hrole
      refine ⟨?_, hmetered⟩
      by_contra hnone
      refine (h n hn id hid hclean hmetered).2 ⟨hrole, fun e he p hp hpid => ?_⟩
      -- an edge by the handle of an appliance would have made it one
      by_contra hhandle
      refine hnone ⟨e, he, applianceOf_eq_some.mpr ⟨hgrid, hclean, p.2, ?_, ?_⟩⟩
      · rw [← hpid]
        exact hp
      · simpa using hhandle

/-- A metered node; edges are between a handle of one node and a handle of another. -/
def device (id : String) (nodeId : ℚ) : Node :=
  { id := some id, settings := some { nodeId := some nodeId, endpointId := some 1 } }

def wire (source sourceHandle target targetHandle : String) : Edge :=
  { source := some source, sourceHandle := some sourceHandle, target := some target,
    targetHandle := some targetHandle }

/-- A grid meter, an inverter with its battery, a cooker and a heater on a sub consumer unit. -/
def home : Graph :=
  { nodes := [{ id := some "consumer_unit" }, device "grid_meter" 1, device "inverter" 2,
      device "battery" 3, device "cooker" 4,
      { id := some "annexe", settings := some { type := some "subConsumerUnit" } },
      device "heater" 5]
    edges := [wire "grid_meter" "out" "consumer_unit" "grid",
      wire "inverter" "ac" "consumer_unit" "solar_input", wire "inverter" "battery" "battery" "in",
      wire "consumer_unit" "circuit_1" "cooker" "in",
      wire "consumer_unit" "circuit_2" "annexe" "grid", wire "annexe" "circuit_1" "heater" "in"] }

theorem load_sets_agree_home : LoadSetsAgree home :=
  (load_sets_agree_iff home (by decide +kernel)).mpr (by decide +kernel)

/-- The tariff source as it is added to the graph. -/
def tariffHome : Graph :=
  { nodes := [{ id := some "consumer_unit" }, device "tariff" 40001]
    edges := [wire "tariff" "tariff-out" "consumer_unit" "tariff"] }

/-- The tariff source is profiled as an appliance, and it is not logged. -/
theorem tariff_source_profiled : ¬ ∀ g, FewAppliances g → LoadSetsAgree g := by
  intro h
  obtain ⟨s, hs, -⟩ := (h tariffHome (by decide +kernel) "tariff").mp
    ⟨by decide +kernel, by decide +kernel⟩
  have hnone : refreshStreams tariffHome = [] := by decide +kernel
  rw [hnone] at hs
  exact absurd hs List.not_mem_nil

end HomeEnergyManager.Topology
