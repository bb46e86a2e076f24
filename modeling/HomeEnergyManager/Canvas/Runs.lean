import HomeEnergyManager.Canvas.LikeReload

/-! # Runs of the canvas

Frames and drawn edges keep the invariant, and after a frame the flows are those of a reload. A
circuit that carries a remainder breaks this: the totals read what it carries and not its reading.

Reference: `firmware/html_app/src/Topology.tsx`.
-/

namespace HomeEnergyManager.Canvas

open OrderedMap

section Served

variable {t t' : SavedTopology} {l : List Edge} {e : Edge} {entries : List AttrEntry}

theorem subCuIds_report (t : SavedTopology) (entries : List AttrEntry) :
    (t.report entries).subCuIds = t.subCuIds := by
  rw [SavedTopology.subCuIds, restoredNodes_report, SavedTopology.subCuIds]

theorem reading_of_not_reports (h : t.reported entries (edgePowerNodeId e) = none) :
    (t.report entries).reading (edgePowerNodeId e) = t.reading (edgePowerNodeId e) := by
  rw [reading_report, h, Option.none_or]

theorem restore_of_not_reports (h : t.reported entries (edgePowerNodeId e) = none) :
    (t.report entries).restore e = t.restore e :=
  restore_congr rfl (reading_of_not_reports h)

/-- A reload that reads the same of every node makes the same canvas. -/
theorem onInit_congr (hedges : t'.edges = t.edges) (hprofiles : t'.profiles = t.profiles)
    (hnodes : restoredNodes t'.nodes = restoredNodes t.nodes)
    (hreading : ∀ id, t'.reading id = t.reading id) : onInit t' = onInit t := by
  have hrestore (e : SavedEdge) :
      restoreEdge (powerByNode t'.nodes) (standbyMapOf t'.profiles) e =
        restoreEdge (powerByNode t.nodes) (standbyMapOf t.profiles) e :=
    restore_congr (e := { id := e.id, source := e.source, target := e.target
                          sourceHandle := e.sourceHandle, targetHandle := e.targetHandle })
      hprofiles (hreading _)
  unfold onInit
  dsimp only
  rw [hedges, hnodes, List.map_congr_left fun e _ => hrestore e]

/-! ## Stamping the edges -/

/-- An edge that the frame has a reading of holds what is restored, and carries it. -/
theorem stamp_readAs (hmetered : e.isMetered t.subCuIds) (h : t.Reports entries e) :
    (t.stamp entries e).ReadAs (t.report entries) ∧
      (t.stamp entries e).data.bind (·.kw) = (t.stamp entries e).meteredKw ∧
      (t.stamp entries e).meteredKw ≠ none := by
  obtain ⟨htariff, htarget, -⟩ := SameReads.isMetered_iff.mp hmetered
  obtain ⟨power, hpower⟩ := Option.isSome_iff_exists.mp h
  obtain ⟨hkw, hmeteredKw, hidle⟩ := stamp_of_reported htarget hpower
  have hwiring := stamp_wiring t entries e
  have hreading : (t.report entries).reading (edgePowerNodeId e) = some power := by
    rw [reading_report, hpower, Option.some_or]
  have hdata := restore_data (t := t.report entries) htariff
  rw [hreading] at hdata
  refine ⟨⟨?_, ?_⟩, hkw.trans hmeteredKw.symm, ?_⟩
  · rw [restore_of_wiring _ hwiring, hmeteredKw]
    exact (congrArg (fun d : Option FlowData => d.bind (·.meteredKw)) hdata).symm
  · rw [restore_of_wiring _ hwiring, Edge.idle, hidle]
    exact (congrArg (fun d : Option FlowData => d.bind (·.idle) == some true) hdata).symm
  · intro hnone
    rw [hmeteredKw] at hnone
    exact absurd hnone (Option.some_ne_none _)

theorem stamp_of_not (h : ¬ t.Reports entries e) :
    t.reported entries (edgePowerNodeId e) = none ∧ t.stamp entries e = e := by
  have hnone : t.reported entries (edgePowerNodeId e) = none := by
    rwa [SavedTopology.Reports, Option.not_isSome_iff_eq_none] at h
  exact ⟨hnone, stamp_of_not_reported hnone⟩

/-- Only an edge that the frame has no reading of still carries a remainder. -/
theorem carriesRemainder_stamp
    (h : (t.stamp entries e).CarriesRemainder t.subCuIds) :
    ¬ t.Reports entries e ∧ e.CarriesRemainder t.subCuIds := by
  have hmetered : e.isMetered t.subCuIds := by
    rw [← isMetered_of_wiring (stamp_wiring t entries e)]
    exact h.1
  have hnot : ¬ t.Reports entries e := fun hreports =>
    h.2.2 (stamp_readAs hmetered hreports).2.1
  exact ⟨hnot, (stamp_of_not hnot).2 ▸ h⟩

theorem Restored.stamp (h : Restored t l) (entries : List AttrEntry) :
    Restored (t.report entries) (l.map (t.stamp entries)) := by
  refine h.map (stamp_wiring t entries) (h.fixed.report entries) rfl (subCuIds_report t entries)
    ?_ ?_ ?_ ?_
  · intro u _ hwiring
    have hnot : ¬ t.Reports entries u := by
      have hnode : edgePowerNodeId u = unallocatedId := powerNode_of_wiring hwiring
      rw [SavedTopology.Reports, hnode, h.fixed.reported_unallocated]
      exact Bool.false_ne_true
    rw [(stamp_of_not hnot).2]
  · intro e he hmetered
    by_cases hreports : t.Reports entries e
    · exact .inl (stamp_readAs hmetered hreports).1
    · obtain ⟨hnone, hstamp⟩ := stamp_of_not hreports
      rw [hstamp, Edge.ReadAs, restore_of_not_reports hnone]
      exact h.read e he hmetered
  · intro e he hcarries
    exact h.remainder e he (carriesRemainder_stamp hcarries).2
  · intro e he htariff htarget
    by_cases hreports : t.Reports entries e
    · obtain ⟨power, hpower⟩ := Option.isSome_iff_exists.mp hreports
      rw [reading_report, hpower]
      exact .inr (Option.some_ne_none _)
    · obtain ⟨hnone, hstamp⟩ := stamp_of_not hreports
      rw [hstamp, reading_of_not_reports hnone]
      exact h.tariff e he htariff htarget

theorem Restored.sound_stamp {p : Page} (h : Restored p.served p.edges)
    (hok : p.FrameOk entries) (hstamps : p.served.Stamps entries) :
    Sound (p.served.report entries) (p.edges.map (p.served.stamp entries)) where
  unread e' he' hmetered hnone := by
    obtain ⟨e, he, rfl⟩ := List.mem_map.mp he'
    have hwiring := stamp_wiring p.served entries
    rw [subCuIds_report] at hmetered ⊢
    rw [isMetered_of_wiring (hwiring e)] at hmetered
    have hnot : ¬ p.served.Reports entries e := fun hreports =>
      (stamp_readAs hmetered hreports).2.2 hnone
    obtain ⟨hreported, hstamp⟩ := stamp_of_not hnot
    have hmeteredKw : e.meteredKw = none := hstamp ▸ hnone
    obtain ⟨hreading, halone⟩ :=
      (hok.unread hstamps e he hmetered hmeteredKw).resolve_left hnot
    refine ⟨?_, fun h' => halone ?_⟩
    · rw [hstamp, reading_of_not_reports hreported, hreading]
    · exact isAlone_of_map h.ids hwiring he h'
  circuits c' hc' hfed hcarries := by
    obtain ⟨c, hc, rfl⟩ := List.mem_map.mp hc'
    rw [subCuIds_report] at hfed hcarries
    have hwiring := stamp_wiring p.served entries
    obtain ⟨hnot, hcarries⟩ := carriesRemainder_stamp hcarries
    rw [source_of_wiring (hwiring c)] at hfed
    exact hnot (hok.circuits hstamps c hc ((fed_map_iff hwiring).mp hfed) hcarries)
  tariff c' hc' hfed htarget htariff := by
    obtain ⟨c, hc, rfl⟩ := List.mem_map.mp hc'
    have hwiring := stamp_wiring p.served entries
    rw [subCuIds_report] at hfed htarget
    rw [source_of_wiring (hwiring c)] at hfed
    rw [target_of_wiring (hwiring c)] at htarget
    rw [tariff_of_wiring (hwiring c)] at htariff
    have hreading := hok.tariff hstamps c hc ((fed_map_iff hwiring).mp hfed) htarget htariff
    rw [reading_report] at hreading
    obtain ⟨hreported, hreading⟩ := Option.or_eq_none_iff.mp hreading
    have hnot : ¬ p.served.Reports entries c := by
      rw [SavedTopology.Reports, hreported]
      exact Bool.false_ne_true
    rw [(stamp_of_not hnot).2]
    exact (h.tariff c hc htariff htarget).resolve_right fun hne => hne hreading

end Served

/-! ## The steps -/

/-- What holds between the steps. -/
structure Page.Inv (t : SavedTopology) (p : Page) : Prop where
  profiles : p.served.profiles = t.profiles
  nodes : restoredNodes p.served.nodes = restoredNodes t.nodes
  restored : Restored p.served p.edges
  flows : p.drawn = false → p.LikeReload

section Steps

variable {t : SavedTopology} {lib : AddEdge} {p p' : Page} {msg : WsMessage} {c : Connection}

theorem powerByRfId_nil (nodes : List Node) : powerByRfId nodes [] = [] := by
  unfold powerByRfId
  induction nodes with
  | nil => rfl
  | cons n nodes ih =>
    rw [List.foldl_cons]
    cases endpointOf n.nodeId n.endpointId <;> exact ih

theorem handleWsMessage_eq (nodes : List Node) (standbyMap : List (String × ℚ)) (msg : WsMessage)
    (edges : List Edge) : handleWsMessage nodes standbyMap msg edges =
      handleWsMessage.handle nodes standbyMap edges msg.entries := by
  cases msg with
  | deviceCommissioned =>
    have hnone : powerByRfId nodes (powerByKey []) = [] := powerByRfId_nil nodes
    rw [handleWsMessage, WsMessage.entries, handleWsMessage.handle]
    simp only [hnone, if_true]
  | attributeBatch entries => rfl
  | attributeUpdate entry => rfl

/-- A frame without power changes nothing that a reload reads. -/
theorem Page.Inv.quiet (h : p.Inv t) (hstamps : ¬ p.served.Stamps msg.entries)
    (hstep : p.step lib (.message msg) = some p') :
    p'.Inv t ∧ (p.drawn = false → p'.LikeReload) := by
  have hnil : powerByRfId (restoredNodes p.served.nodes) (powerByKey msg.entries) = [] :=
    not_not.mp hstamps
  have hreported (id : String) : p.served.reported msg.entries id = none := by
    rw [SavedTopology.reported, hnil]
    rfl
  have hreading (id : String) :
      (p.served.report msg.entries).reading id = p.served.reading id := by
    rw [reading_report, hreported, Option.none_or]
  rw [Page.step, handleWsMessage_eq, handleWsMessage.handle] at hstep
  simp only [hnil, if_true, Option.map_some, Option.some_inj] at hstep
  subst hstep
  have hlike : p.drawn = false → Page.LikeReload
      { served := p.served.report msg.entries, edges := p.edges
        drawn := p.drawn && !decide (p.served.Stamps msg.entries) } := by
    intro hdrawn
    obtain ⟨reloaded, hreload, hflows⟩ := h.flows hdrawn
    have hinit : onInit (p.served.report msg.entries) = onInit p.served :=
      onInit_congr rfl rfl (restoredNodes_report _ _) hreading
    exact ⟨reloaded, hinit.trans hreload, hflows⟩
  have hstamp : p.edges.map (p.served.stamp msg.entries) = p.edges := by
    refine (List.map_congr_left fun e _ => ?_).trans (List.map_id _)
    exact stamp_of_not_reported (hreported _)
  refine ⟨⟨h.profiles, (restoredNodes_report _ _).trans h.nodes, ?_, fun hdrawn => ?_⟩, hlike⟩
  · have hrestored := h.restored.stamp msg.entries
    rwa [hstamp] at hrestored
  · refine hlike ?_
    simpa [hstamps] using hdrawn

/-- A frame with power stamps the edges and derives the flows. -/
theorem Page.Inv.stamped (h : p.Inv t) (hok : p.FrameOk msg.entries)
    (hstamps : p.served.Stamps msg.entries) (hstep : p.step lib (.message msg) = some p') :
    p'.Inv t ∧ p'.LikeReload := by
  obtain ⟨l', reloaded, hderived, hreload, hflows, hrestored⟩ :=
    (h.restored.stamp msg.entries).derive (h.restored.sound_stamp hok hstamps)
  rw [subCuIds_report] at hderived
  rw [Page.step, handleWsMessage_eq, handleWsMessage.handle] at hstep
  have hhandle : withDerivedFlows (p.edges.map fun e =>
      e.stamp (standbyMapOf p.served.profiles) (subCuIdsOf (restoredNodes p.served.nodes))
        (powerByRfId (restoredNodes p.served.nodes) (powerByKey msg.entries)))
      (subCuIdsOf (restoredNodes p.served.nodes)) = some l' := hderived
  simp only [if_neg hstamps, hhandle, Option.map_some, Option.some_inj] at hstep
  subst hstep
  have hlike : Page.LikeReload
      { served := p.served.report msg.entries, edges := l'
        drawn := p.drawn && !decide (p.served.Stamps msg.entries) } := ⟨reloaded, hreload, hflows⟩
  exact ⟨⟨h.profiles, (restoredNodes_report _ _).trans h.nodes, hrestored, fun _ => hlike⟩, hlike⟩

theorem Page.Inv.message (h : p.Inv t) (hok : p.FrameOk msg.entries)
    (hstep : p.step lib (.message msg) = some p') : p'.Inv t ∧ p'.LikeReload := by
  by_cases hstamps : p.served.Stamps msg.entries
  · exact h.stamped hok hstamps hstep
  · obtain ⟨hinv, hlike⟩ := h.quiet hstamps hstep
    exact ⟨hinv, hlike (hok.stamps.resolve_left hstamps)⟩

/-- Saving an edge again changes nothing. -/
theorem upsertEdge_self {e : SavedEdge} (h : t.edges.find? (·.id = e.id) = some e) :
    t.upsertEdge e = t := by
  have hmodify (l : List SavedEdge) (h : l.find? (·.id = e.id) = some e) :
      l.modify (l.findIdx (·.id = e.id)) (fun _ => e) = l := by
    induction l with
    | nil => exact absurd h (by simp)
    | cons e' l ih =>
      by_cases hid : e'.id = e.id
      · rw [List.find?_cons_of_pos (by simpa using hid), Option.some_inj] at h
        simp [List.findIdx_cons, h]
      · rw [List.find?_cons_of_neg (by simpa using hid)] at h
        simp [List.findIdx_cons, hid, ih h]
  unfold SavedTopology.upsertEdge
  simp only [h, hmodify t.edges h]

theorem upsertEdge_new {e : SavedEdge} (h : ∀ e' ∈ t.edges, e'.id ≠ e.id) :
    (t.upsertEdge e).edges = t.edges ++ [e] := by
  have hfind : t.edges.find? (·.id = e.id) = none := by
    rw [List.find?_eq_none]
    exact fun e' he' => by simpa using h e' he'
  unfold SavedTopology.upsertEdge
  simp only [hfind]

theorem newEdge_saved_id (c : Connection) : c.newEdge.id = c.edgeId := by
  unfold Connection.newEdge
  dsimp only
  split <;> rfl

/-- A drawn edge has no reading, and a tariff edge no data. -/
theorem newEdge_data (c : Connection) : c.newEdge.data =
    if isTariffEdge c.newEdge then none else some { kw := some 0 } := by
  unfold Connection.newEdge
  dsimp only
  split
  · rfl
  · rename_i h
    exact (if_neg h).symm

theorem Restored.connect {l : List Edge} (h : Restored t l) (hnew : ∀ e ∈ l, e.id ≠ c.edgeId)
    (hcarries : ∀ e ∈ l, e.CarriesRemainder t.subCuIds →
      e.IsAlone (l ++ [c.newEdge]) t.subCuIds) :
    Restored (t.upsertEdge c.newEdge.saved) (l ++ [c.newEdge]) := by
  obtain ⟨u, hu, hwiring, hidle⟩ := h.unallocated
  have hmem : u ∈ l := (List.mem_filter.mp (hu ▸ List.mem_singleton_self u)).1
  have hne : c.newEdge.id ≠ unallocatedEdgeId := by
    rw [newEdge_saved_id]
    have hid : u.id = unallocatedEdgeId := id_of_wiring hwiring
    exact fun heq => hnew u hmem (hid.trans heq.symm)
  have hedges : (t.upsertEdge c.newEdge.saved).edges = t.edges ++ [c.newEdge.saved] := by
    refine upsertEdge_new fun e' he' hid => ?_
    have hid : e'.id = c.newEdge.id := hid
    have hserved : e' ∈ t.edges.filter (·.id ≠ unallocatedEdgeId) :=
      List.mem_filter.mpr ⟨he', decide_eq_true (hid ▸ hne)⟩
    rw [h.served] at hserved
    obtain ⟨e, he, rfl⟩ := List.mem_map.mp hserved
    exact hnew e (List.mem_filter.mp he).1 (hid.trans (newEdge_saved_id c))
  refine ⟨⟨h.fixed.unit, h.fixed.unallocated⟩, ?_, ?_, ⟨u, ?_, hwiring, hidle⟩, ?_, ?_, ?_⟩
  · rw [List.map_append]
    refine h.ids.append (List.nodup_singleton _) (List.disjoint_singleton.mpr fun hid => ?_)
    obtain ⟨e, he, hid⟩ := List.mem_map.mp hid
    exact hnew e he (hid.trans (newEdge_saved_id c))
  · have hsaved : c.newEdge.saved.id ≠ unallocatedEdgeId := hne
    rw [hedges, List.filter_append, List.filter_append, h.served,
      List.filter_cons_of_pos (by simpa using hsaved), List.filter_nil,
      List.filter_cons_of_pos (by simpa using hne), List.filter_nil, List.map_append,
      List.map_singleton]
  · rw [List.filter_append, hu, List.filter_cons_of_neg (by simpa using hne), List.filter_nil,
      List.append_nil]
  · intro e he hmetered
    rcases List.mem_append.mp he with he | he
    · exact h.read e he hmetered
    · obtain rfl := List.mem_singleton.mp he
      have htariff := (SameReads.isMetered_iff.mp hmetered).1
      have hdata : c.newEdge.data = some { kw := some 0 } := by
        rw [newEdge_data, htariff]
        rfl
      right
      rw [Edge.Unread, Edge.meteredKw, Edge.idle, hdata]
      exact ⟨rfl, rfl, rfl⟩
  · intro e he hremainder
    rcases List.mem_append.mp he with he | he
    · exact hcarries e he hremainder
    · obtain rfl := List.mem_singleton.mp he
      refine absurd ?_ hremainder.2.1
      rw [Edge.meteredKw, newEdge_data]
      split <;> rfl
  · intro e he htariff htarget
    rcases List.mem_append.mp he with he | he
    · exact h.tariff e he htariff htarget
    · obtain rfl := List.mem_singleton.mp he
      exact .inl ((newEdge_data c).trans (if_pos htariff))

theorem Page.Inv.connect (h : p.Inv t) (hok : p.DrawOk lib c)
    (hstep : p.step lib (.connect c) = some p') : p'.Inv t := by
  obtain rfl := Option.some.inj hstep
  rcases hok with ⟨hedges, hserved⟩ | ⟨hedges, hnew, hcarries⟩
  · refine ⟨h.profiles, h.nodes, ?_, fun hdrawn => absurd hdrawn (by simp)⟩
    have hid : c.newEdge.saved.id = c.edgeId := newEdge_saved_id c
    show Restored (p.served.upsertEdge c.newEdge.saved) (onConnect lib p.edges c)
    rw [hedges, upsertEdge_self (by rwa [hid])]
    exact h.restored
  · refine ⟨h.profiles, h.nodes, ?_, fun hdrawn => absurd hdrawn (by simp)⟩
    show Restored (p.served.upsertEdge c.newEdge.saved) (onConnect lib p.edges c)
    rw [hedges]
    exact h.restored.connect hnew hcarries

theorem Page.Inv.step {ev : Event} (h : p.Inv t) (hok : p.StepOk lib ev)
    (hstep : p.step lib ev = some p') : p'.Inv t := by
  cases ev with
  | message msg => exact (h.message hok hstep).1
  | connect c => exact h.connect hok hstep

/-! ## Loading -/

/-- The edges before the flows are derived. -/
def SavedTopology.loaded (t : SavedTopology) : List Edge :=
  (t.edges.filter (·.id ≠ unallocatedEdgeId)).map
    (restoreEdge (powerByNode t.nodes) (standbyMapOf t.profiles)) ++ [unallocatedEdge]

theorem mem_loaded {e : Edge} (he : e ∈ t.loaded) : t.restore e = e ∨ e = unallocatedEdge := by
  rcases List.mem_append.mp he with he | he
  · left
    obtain ⟨s, -, rfl⟩ := List.mem_map.mp he
    rw [SavedTopology.restore, saved_restoreEdge]
  · exact .inr (List.mem_singleton.mp he)

theorem restore_of_mem_loaded {e : Edge} (he : e ∈ t.loaded) (hid : e.id ≠ unallocatedEdgeId) :
    t.restore e = e :=
  (mem_loaded he).resolve_right fun heq => hid (heq ▸ rfl)

theorem not_carriesRemainder_of_mem_loaded {e : Edge} (he : e ∈ t.loaded) :
    ¬ e.CarriesRemainder t.subCuIds := by
  rintro ⟨hmetered, -, hne⟩
  obtain ⟨htariff, -, hid⟩ := SameReads.isMetered_iff.mp hmetered
  have hkw := restore_kw (t := t) htariff
  rw [restore_of_mem_loaded he hid] at hkw
  exact hne hkw

theorem data_of_mem_loaded {e : Edge} (he : e ∈ t.loaded) (htariff : isTariffEdge e = true) :
    e.data = none := by
  rcases mem_loaded he with hrestore | rfl
  · rw [← hrestore, restore_of_tariff htariff]
    rfl
  · exact absurd htariff (by decide)

theorem filter_loaded (t : SavedTopology) :
    t.loaded.filter (·.id ≠ unallocatedEdgeId) =
      (t.edges.filter (·.id ≠ unallocatedEdgeId)).map
        (restoreEdge (powerByNode t.nodes) (standbyMapOf t.profiles)) ∧
    t.loaded.filter (·.id = unallocatedEdgeId) = [unallocatedEdge] := by
  have hne {e : Edge} (he : e ∈ (t.edges.filter (·.id ≠ unallocatedEdgeId)).map
      (restoreEdge (powerByNode t.nodes) (standbyMapOf t.profiles))) :
        e.id ≠ unallocatedEdgeId := by
    obtain ⟨s, hs, rfl⟩ := List.mem_map.mp he
    rw [id_restoreEdge]
    simpa using (List.mem_filter.mp hs).2
  have hself := List.filter_eq_self.mpr fun e he => decide_eq_true (hne he)
  have hnil := List.filter_eq_nil_iff.mpr fun e he h => hne he (of_decide_eq_true h)
  rw [SavedTopology.loaded, List.filter_append, List.filter_append, hself, hnil]
  exact ⟨List.append_nil _, rfl⟩

theorem restored_loaded (hfixed : t.FixedNodes) (hids : (t.edges.map (·.id)).Nodup) :
    Restored t t.loaded where
  fixed := hfixed
  ids := by
    rw [SavedTopology.loaded, List.map_append, List.map_map]
    have hmap : (t.edges.filter (·.id ≠ unallocatedEdgeId)).map ((fun e : Edge => e.id) ∘
        restoreEdge (powerByNode t.nodes) (standbyMapOf t.profiles)) =
          (t.edges.filter (·.id ≠ unallocatedEdgeId)).map (·.id) :=
      List.map_congr_left fun s _ => id_restoreEdge _ _ s
    rw [hmap]
    refine (hids.sublist (List.filter_sublist.map _)).append (List.nodup_singleton _)
      (List.disjoint_singleton.mpr fun hmem => ?_)
    obtain ⟨s, hs, heq⟩ := List.mem_map.mp hmem
    exact of_decide_eq_true (List.mem_filter.mp hs).2 heq
  served := by
    rw [(filter_loaded t).1, List.map_map]
    exact (List.map_id _).symm.trans
      (List.map_congr_left fun s _ => (saved_restoreEdge _ _ s).symm)
  unallocated := ⟨unallocatedEdge, (filter_loaded t).2, rfl, rfl⟩
  read e he hmetered := by
    have hid := (SameReads.isMetered_iff.mp hmetered).2.2
    left
    rw [Edge.ReadAs, restore_of_mem_loaded he hid]
    exact ⟨rfl, rfl⟩
  remainder e he hcarries := absurd hcarries (not_carriesRemainder_of_mem_loaded he)
  tariff e he htariff _ := .inl (data_of_mem_loaded he htariff)

theorem sound_loaded (t : SavedTopology) : Sound t t.loaded where
  unread e he hmetered hnone := by
    obtain ⟨htariff, -, hid⟩ := SameReads.isMetered_iff.mp hmetered
    rw [← restore_of_mem_loaded he hid] at hnone
    exact absurd hnone (restore_metered_ne_none htariff)
  circuits c hc _ := not_carriesRemainder_of_mem_loaded hc
  tariff c hc _ _ htariff := data_of_mem_loaded hc htariff

theorem inv_load (hfixed : t.FixedNodes) (hids : (t.edges.map (·.id)).Nodup)
    (hload : Page.load t = some p) : p.Inv t := by
  obtain ⟨l', reloaded, hderived, hreload, hflows, hrestored⟩ :=
    (restored_loaded hfixed hids).derive (sound_loaded t)
  have hinit : onInit t = some l' := hderived
  rw [Page.load, hinit, Option.map_some, Option.some_inj] at hload
  subst hload
  exact ⟨rfl, rfl, hrestored, fun _ => ⟨reloaded, hreload, hflows⟩⟩

theorem exists_step (lib : AddEdge) (p : Page) (ev : Event) : ∃ p', p.step lib ev = some p' := by
  cases ev with
  | connect c => exact ⟨_, rfl⟩
  | message msg =>
    rw [Page.step, handleWsMessage_eq, handleWsMessage.handle]
    split
    · exact ⟨_, rfl⟩
    · obtain ⟨r, -, hderived⟩ := withDerivedFlows_eq_map (p.edges.map fun e =>
        e.stamp (standbyMapOf p.served.profiles) (subCuIdsOf (restoredNodes p.served.nodes))
          (powerByRfId (restoredNodes p.served.nodes) (powerByKey msg.entries)))
        (subCuIdsOf (restoredNodes p.served.nodes))
      rw [hderived]
      exact ⟨_, rfl⟩

/-- After a run that ends with a frame, the canvas shows what a reload would. -/
theorem Page.Inv.run {es : List Event} (h : p.Inv t)
    (hok : StepSystem.Meets (Page.step lib) (Page.StepOk lib) p (es ++ [.message msg])) :
    ∃ p', StepSystem.run (Page.step lib) p (es ++ [.message msg]) = some p' ∧ p'.Inv t ∧
      p'.LikeReload := by
  induction es generalizing p with
  | nil =>
    obtain ⟨p', hstep⟩ := exists_step lib p (.message msg)
    refine ⟨p', ?_, h.message hok.1 hstep⟩
    exact StepSystem.run_cons_eq_some.mpr ⟨p', hstep, rfl⟩
  | cons ev es ih =>
    obtain ⟨p₁, hstep⟩ := exists_step lib p ev
    obtain ⟨p', hrun, hlike⟩ := ih (h.step hok.1 hstep) (hok.2 p₁ hstep)
    exact ⟨p', StepSystem.run_cons_eq_some.mpr ⟨p₁, hstep, hrun⟩, hlike⟩

end Steps

/-- From every topology with one edge for each id and its two fixed nodes, along every run of frames
and drawn edges whose steps meet the condition: after each frame the flows are those of a reload of
the graph with the latest readings. So two runs that end with the same graph and readings show the
same, whatever the order and the frames in which the readings came. -/
theorem live_eq_reload (lib : AddEdge) (t : SavedTopology) (hfixed : t.FixedNodes)
    (hids : (t.edges.map (·.id)).Nodup) :
    ∃ p₀, Page.load t = some p₀ ∧ ∀ es msg,
      StepSystem.Meets (Page.step lib) (Page.StepOk lib) p₀ (es ++ [.message msg]) →
      ∃ p, StepSystem.run (Page.step lib) p₀ (es ++ [.message msg]) = some p ∧ p.LikeReload ∧
        ∀ es' msg' p',
          StepSystem.Meets (Page.step lib) (Page.StepOk lib) p₀ (es' ++ [.message msg']) →
          StepSystem.run (Page.step lib) p₀ (es' ++ [.message msg']) = some p' →
          p'.served.edges = p.served.edges →
          (∀ id, p'.served.reading id = p.served.reading id) →
          flowsOf p'.edges = flowsOf p.edges := by
  obtain ⟨l, -, hderived, -, -, -⟩ := (restored_loaded hfixed hids).derive (sound_loaded t)
  have hload : Page.load t = some { served := t, edges := l } := by
    have hinit : onInit t = some l := hderived
    rw [Page.load, hinit]
    rfl
  have hinv := inv_load hfixed hids hload
  refine ⟨_, hload, fun es msg hok => ?_⟩
  obtain ⟨p, hrun, hp, hlike⟩ := hinv.run hok
  refine ⟨p, hrun, hlike, fun es' msg' p' hok' hrun' hedges hreading => ?_⟩
  obtain ⟨p₁, hrun₁, hp', hlike'⟩ := hinv.run hok'
  obtain rfl := Option.some.inj (hrun₁.symm.trans hrun')
  obtain ⟨reloaded, hreload, hflows⟩ := hlike
  obtain ⟨reloaded', hreload', hflows'⟩ := hlike'
  have hsame : onInit p₁.served = onInit p.served :=
    onInit_congr hedges (hp'.profiles.trans hp.profiles.symm) (hp'.nodes.trans hp.nodes.symm)
      hreading
  rw [hreload, hreload', Option.some_inj] at hsame
  rw [hflows, hflows', hsame]

/-! ## An annexe with a heater -/

/-- A canvas library that takes every edge. -/
def takesAll : AddEdge where
  addEdge e edges := edges ++ [e]
  adds_or_not _ _ := .inr rfl

/-- The annexe feeds a shed from one circuit and a heater of 3 kW from another, or the same; the
lamp in the shed takes 1 kW. The fan has not reported yet. -/
def servedAnnexe (heaterCircuit : String) : SavedTopology where
  nodes := [
    { id := "annexe", type := some "subConsumerUnit" },
    { id := "shed", type := some "subConsumerUnit" },
    { id := "heater", nodeId := some 1, endpointId := some 1, values := [⟨144, 8, 3000000⟩] },
    { id := "lamp", nodeId := some 2, endpointId := some 1, values := [⟨144, 8, 1000000⟩] },
    { id := "fan", nodeId := some 3, endpointId := some 1 }]
  edges := [
    ⟨"1", consumerUnitId, "annexe", some "circuit_1", some "power-in"⟩,
    ⟨"2", "annexe", "shed", some "circuit_1", some "power-in"⟩,
    ⟨"3", "annexe", "heater", some heaterCircuit, some "power-in"⟩,
    ⟨"4", "shed", "lamp", some "circuit_1", some "power-in"⟩]
  profiles := []
  nodup := by decide

def powerReport (nodeId : ℕ) (powerMw : ℚ) : Event :=
  .message (.attributeUpdate ⟨nodeId, 1, 144, 8, powerMw⟩)

/-- The lamp is dimmed, and the fan is drawn and reports. -/
def fanRun : List Event :=
  [powerReport 2 500000, .connect ⟨"annexe", "fan", some "circuit_3", some "power-in"⟩]

theorem live_eq_reload_fan : ∃ p₀ p, Page.load (servedAnnexe "circuit_2") = some p₀ ∧
    StepSystem.run (Page.step takesAll) p₀ (fanRun ++ [powerReport 3 200000]) = some p ∧
      p.LikeReload := by
  obtain ⟨p₀, hload, h⟩ := live_eq_reload takesAll (servedAnnexe "circuit_2")
    ⟨by decide, by decide⟩ (by decide)
  have hok : ((Page.load (servedAnnexe "circuit_2")).all fun p => decide
      (StepSystem.Meets (Page.step takesAll) (Page.StepOk takesAll) p
        (fanRun ++ [powerReport 3 200000]))) = true := by
    decide +kernel
  rw [hload] at hok
  obtain ⟨p, hrun, hlike, -⟩ := h fanRun _ (of_decide_eq_true hok)
  exact ⟨p₀, p, hload, hrun, hlike⟩

/-- On a shared circuit the heater's remainder is taken for its reading as soon as the lamp reports
again, and the annexe's feed goes from 4 kW to 3 kW. -/
theorem shared_circuit_unlike_reload :
    ¬ ∀ (lib : AddEdge) (t : SavedTopology), (t.edges.map (·.id)).Nodup →
      ∀ p₀, Page.load t = some p₀ → ∀ es msg p,
        StepSystem.run (Page.step lib) p₀ (es ++ [.message msg]) = some p → p.LikeReload := by
  intro h
  have hunlike : ((Page.load (servedAnnexe "circuit_1")).any fun p₀ =>
      (StepSystem.run (Page.step takesAll) p₀ [powerReport 2 1000000]).any fun p =>
        decide ((onInit p.served).map flowsOf ≠ some (flowsOf p.edges))) = true := by
    decide +kernel
  obtain ⟨p₀, hload, hunlike⟩ := (Option.any_eq_true _ _).mp hunlike
  obtain ⟨p, hrun, hunlike⟩ := (Option.any_eq_true _ _).mp hunlike
  obtain ⟨reloaded, hreload, hflows⟩ :=
    h takesAll (servedAnnexe "circuit_1") (by decide) p₀ hload [] _ p hrun
  apply of_decide_eq_true hunlike
  rw [hreload, hflows]
  rfl

end HomeEnergyManager.Canvas
