import HomeEnergyManager.Canvas.Reads

/-! # Deriving the flows again

Every event on the canvas derives the flows anew from those of the last time. Nothing changes then
if and only if the circuits of each fed board add up to the same once those that share a handle with
feeds carry what the feeds leave them.

Reference: `withDerivedFlows` in `firmware/html_app/src/Topology.tsx`.
-/

namespace HomeEnergyManager.Canvas

open OrderedMap

/-! ## The canvas -/

/-- No wiring loop, one feed at most for each board, and the one Unallocated edge. -/
structure WellWired (edges : List Edge) (subCuIds : List String) : Prop where
  noLoop : NoLoop edges subCuIds
  singleFed : ∀ b ∈ subCuIds, (edges.filter (·.target = b)).length ≤ 1
  unallocated : ∃ u, edges.filter (·.id = unallocatedEdgeId) = [u] ∧
    u.wiring = unallocatedEdge.wiring
  /-- The main consumer unit is no sub consumer unit, and neither is the Unallocated node. -/
  unit : consumerUnitId ∉ subCuIds
  remainder : unallocatedId ∉ subCuIds

/-- What the edges of an id are to carry in place of their flow: the last share of that id. -/
def shareAt (edges : List Edge) (subCuIds : List String) (id : String) : Option ℚ :=
  ((shares edges subCuIds).filter fun p => p.1 = id).getLast?.map Prod.snd

/-- What a circuit counts for once it carries its share. -/
def carried (edges : List Edge) (subCuIds : List String) (c : Edge) : Flow :=
  if c.target ∈ subCuIds then totalOf edges subCuIds c.target
  else { kw := (shareAt edges subCuIds c.id).getD c.kw, idle := c.idle }

/-- The condition: the circuits of a fed board add up to the same, whether each counts for what it
carries or for its share, if it has one. -/
def Steady (edges : List Edge) (subCuIds : List String) : Prop :=
  ∀ e ∈ edges, e.target ∈ subCuIds →
    (edges.filter (·.source = e.target)).foldl (fun t c => t.add (carried edges subCuIds c))
      Flow.zero = sumOfCircuits edges subCuIds (totalOf edges subCuIds) e.target

instance (edges : List Edge) (subCuIds : List String) : Decidable (Steady edges subCuIds) :=
  inferInstanceAs (Decidable (∀ e ∈ edges, _ → _))

/-! ## What an edge becomes -/

section Edges

theorem skeleton_congr {e e' : Edge} (hwiring : e.wiring = e'.wiring)
    (hmetered : e.meteredKw = e'.meteredKw) : e.skeleton = e'.skeleton := by
  have h := congrArg (fun w : Edge => { w with data := some { meteredKw := e.meteredKw } }) hwiring
  unfold Edge.skeleton
  rw [← hmetered]
  exact h

theorem setFlow_idle (e : Edge) (t : Flow) : (e.setFlow t).data.bind (·.idle) = some t.idle := by
  unfold Edge.setFlow
  split
  · rename_i h
    exact h.2
  · rfl

theorem setFlow_metered (e : Edge) (t : Flow) : (e.setFlow t).meteredKw = e.meteredKw := by
  unfold Edge.setFlow
  split
  · rfl
  · unfold Edge.meteredKw
    cases e.data <;> rfl

/-- A feed that carries its total stays as it is. -/
theorem setFlow_setFlow (e : Edge) (t : Flow) : (e.setFlow t).setFlow t = e.setFlow t :=
  if_pos ⟨setFlow_kw e t, setFlow_idle e t⟩

theorem setRemainder_metered (e : Edge) (o : Option ℚ) :
    (e.setRemainder o).meteredKw = e.meteredKw := by
  unfold Edge.setRemainder
  cases o with
  | none => rfl
  | some v =>
    dsimp only
    split
    · rfl
    · unfold Edge.meteredKw
      cases e.data <;> rfl

theorem setRemainder_idle (e : Edge) (o : Option ℚ) : (e.setRemainder o).idle = e.idle := by
  unfold Edge.setRemainder
  cases o with
  | none => rfl
  | some v =>
    dsimp only
    split
    · rfl
    · unfold Edge.idle
      cases e.data <;> rfl

theorem setRemainder_setRemainder (e : Edge) (o : Option ℚ) :
    (e.setRemainder o).setRemainder o = e.setRemainder o := by
  cases o with
  | none => rfl
  | some v => exact if_pos (setRemainder_kw e v)

theorem setUnallocated_of_ne {e : Edge} (h : e.id ≠ unallocatedEdgeId) (rawKw : ℚ) :
    e.setUnallocated rawKw = e :=
  if_pos h

theorem setUnallocated_of_eq {e : Edge} (h : e.id = unallocatedEdgeId) (rawKw : ℚ) :
    e.setUnallocated rawKw =
      { e with data := some { e.data.getD {} with
          kw := some (-max 0 rawKw), rawKw := some rawKw } } := by
  unfold Edge.setUnallocated
  rw [if_neg (not_not.mpr h)]
  split
  · rename_i hsame
    obtain ⟨id, source, target, sourceHandle, targetHandle, data⟩ := e
    cases data with
    | none => exact absurd hsame.1 (by simp)
    | some d =>
      obtain ⟨kw, metered, raw, idle⟩ := d
      obtain ⟨hkw, hraw⟩ := hsame
      dsimp only [Option.bind_some] at hkw hraw
      rw [hkw, hraw]
      rfl
  · rfl

/-- The Unallocated edge stays as it is, whatever a remainder does in between. -/
theorem setUnallocated_setRemainder {e : Edge} (h : e.id = unallocatedEdgeId) (o : Option ℚ)
    (rawKw : ℚ) :
    ((e.setUnallocated rawKw).setRemainder o).setUnallocated rawKw = e.setUnallocated rawKw := by
  rw [setUnallocated_of_eq h]
  cases o with
  | none => exact if_neg (not_not.mpr h) |>.trans (if_pos ⟨rfl, rfl⟩)
  | some v =>
    unfold Edge.setRemainder
    dsimp only [Option.bind_some]
    split
    · exact if_neg (not_not.mpr h) |>.trans (if_pos ⟨rfl, rfl⟩)
    · rw [setUnallocated_of_eq]
      · rfl
      · exact h

theorem setUnallocated_wiring (e : Edge) (rawKw : ℚ) :
    (e.setUnallocated rawKw).wiring = e.wiring := by
  unfold Edge.setUnallocated
  dsimp only
  split
  · rfl
  · split <;> rfl

theorem setUnallocated_metered (e : Edge) (rawKw : ℚ) :
    (e.setUnallocated rawKw).meteredKw = e.meteredKw := by
  unfold Edge.setUnallocated
  dsimp only
  split
  · rfl
  · split
    · rfl
    · unfold Edge.meteredKw
      cases e.data <;> rfl

theorem setUnallocated_idle (e : Edge) (rawKw : ℚ) :
    (e.setUnallocated rawKw).idle = e.idle := by
  unfold Edge.setUnallocated
  dsimp only
  split
  · rfl
  · split
    · rfl
    · unfold Edge.idle
      cases e.data <;> rfl

/-- What the derivation makes of an edge. -/
def Edge.derived (edges : List Edge) (subCuIds : List String) (e : Edge) : Edge :=
  (e.fed edges subCuIds).setUnallocated (rawKwOf (edges.map (·.fed edges subCuIds)))

variable {edges : List Edge} {subCuIds : List String}

theorem withDerivedFlows_eq (h : NoLoop edges subCuIds) :
    withDerivedFlows edges subCuIds = some (edges.map (·.derived edges subCuIds)) := by
  rw [withDerivedFlows, withSubCuFeeds_eq h, Option.map_some, withUnallocated, List.map_map]
  rfl

theorem derived_wiring (e : Edge) : (e.derived edges subCuIds).wiring = e.wiring :=
  (setUnallocated_wiring _ _).trans (fed_wiring e)

theorem derived_skeleton (e : Edge) : (e.derived edges subCuIds).skeleton = e.skeleton := by
  refine skeleton_congr (derived_wiring e) ?_
  unfold Edge.derived
  rw [setUnallocated_metered, Edge.fed]
  split
  · exact setFlow_metered _ _
  · exact setRemainder_metered _ _

theorem map_derived_skeleton :
    (edges.map (·.derived edges subCuIds)).map Edge.skeleton = edges.map Edge.skeleton := by
  rw [List.map_map]
  exact List.map_congr_left fun e _ => derived_skeleton e

theorem fed_id (e : Edge) : (e.fed edges subCuIds).id = e.id :=
  id_of_wiring (fed_wiring e)

theorem derived_of_ne {e : Edge} (h : e.id ≠ unallocatedEdgeId) :
    e.derived edges subCuIds = e.fed edges subCuIds := by
  apply setUnallocated_of_ne
  rwa [fed_id]

theorem derived_target (e : Edge) : (e.derived edges subCuIds).target = e.target :=
  target_of_wiring (derived_wiring e)

theorem derived_source (e : Edge) : (e.derived edges subCuIds).source = e.source :=
  source_of_wiring (derived_wiring e)

theorem derived_id (e : Edge) : (e.derived edges subCuIds).id = e.id :=
  id_of_wiring (derived_wiring e)

end Edges

/-! ## Deriving again -/

section Again

variable {edges : List Edge} {subCuIds : List String}

theorem rawKwOf_eq_sum (l : List Edge) : rawKwOf l = (l.map Edge.intoUnit).sum := by
  have hfold (r : ℚ) : l.foldl (fun r e => r + e.intoUnit) r = r + (l.map Edge.intoUnit).sum := by
    induction l generalizing r with
    | nil => simp
    | cons e l ih =>
      rw [List.foldl_cons, ih, List.map_cons, List.sum_cons]
      ring
  rw [rawKwOf, hfold, zero_add]

theorem sum_filter_eq {α : Type*} (p : α → Prop) [DecidablePred p] (φ : α → ℚ) (l : List α) :
    ((l.filter p).map φ).sum = (l.map fun a => if p a then φ a else 0).sum := by
  rw [List.sum_map_ite]
  simp

/-- The Unallocated edge does not count. -/
theorem rawKwOf_eq_sum_filter (l : List Edge) :
    rawKwOf l = ((l.filter (·.id ≠ unallocatedEdgeId)).map Edge.intoUnit).sum := by
  rw [rawKwOf_eq_sum, sum_filter_eq]
  congr 1
  refine List.map_congr_left fun e _ => ?_
  split
  · rfl
  · rename_i hid
    exact if_pos (Or.inl (not_not.mp hid))

theorem rawKwOf_congr {f g : Edge → Edge} (h : ∀ e ∈ edges, (f e).intoUnit = (g e).intoUnit) :
    rawKwOf (edges.map f) = rawKwOf (edges.map g) := by
  rw [rawKwOf_eq_sum, rawKwOf_eq_sum, List.map_map, List.map_map]
  congr 1
  exact List.map_congr_left h

/-- The Unallocated edge feeds no board, and leaves none. -/
theorem WellWired.id_ne (h : WellWired edges subCuIds) {e : Edge} (he : e ∈ edges)
    (hboard : e.target ∈ subCuIds ∨ e.source ∈ subCuIds) : e.id ≠ unallocatedEdgeId := by
  intro hid
  obtain ⟨u, hu, hwiring⟩ := h.unallocated
  have hmem : e ∈ edges.filter (·.id = unallocatedEdgeId) :=
    List.mem_filter.mpr ⟨he, by simpa using hid⟩
  rw [hu] at hmem
  obtain rfl := List.mem_singleton.mp hmem
  have hsource : e.source = consumerUnitId := source_of_wiring hwiring
  have htarget : e.target = unallocatedId := target_of_wiring hwiring
  rcases hboard with hboard | hboard
  · exact h.remainder (htarget ▸ hboard)
  · exact h.unit (hsource ▸ hboard)

/-- The circuits of a board count in the result for what they are to carry. -/
theorem sumOfCircuits_derived (h : WellWired edges subCuIds) {b : String} (hb : b ∈ subCuIds) :
    sumOfCircuits (edges.map (·.derived edges subCuIds)) subCuIds (totalOf edges subCuIds) b =
      (edges.filter (·.source = b)).foldl (fun t c => t.add (carried edges subCuIds c))
        Flow.zero := by
  have hfilter : edges.filter ((fun e : Edge => decide (e.source = b)) ∘
      fun e => e.derived edges subCuIds) = edges.filter (·.source = b) :=
    List.filter_congr fun c _ => by simp [derived_source]
  unfold sumOfCircuits
  rw [List.filter_map, hfilter, List.foldl_map]
  apply List.foldl_ext
  intro t c hc
  obtain ⟨hmem, hsource⟩ := List.mem_filter.mp hc
  have hsource : c.source = b := by simpa using hsource
  congr 1
  unfold Edge.counts carried
  rw [derived_target]
  split
  · rfl
  · rename_i htarget
    rw [derived_of_ne (h.id_ne hmem (Or.inr (hsource ▸ hb))), Edge.flow, fed_kw_of_not_feed htarget,
      fed_of_not_feed htarget, setRemainder_idle, remainderAt_eq]
    rfl

/-- In a steady canvas the boards have the same totals afterwards. -/
theorem totalOf_derived (h : WellWired edges subCuIds) (hsteady : Steady edges subCuIds) :
    ∀ e ∈ edges, e.target ∈ subCuIds →
      totalOf (edges.map (·.derived edges subCuIds)) subCuIds e.target =
        totalOf edges subCuIds e.target := by
  intro e he htarget
  refine totalOf_eq_of_sums (wiring_of_skeleton map_derived_skeleton) h.noLoop
    (fun e he htarget => ?_) he htarget
  rw [sumOfCircuits_derived h htarget, hsteady e he htarget, ← totalOf_eq h.noLoop]

/-- In a steady canvas the feeds and the remainders are written as they are. -/
theorem fed_derived (h : WellWired edges subCuIds) (hsteady : Steady edges subCuIds) {e : Edge}
    (he : e ∈ edges) (hid : e.id ≠ unallocatedEdgeId) :
    (e.derived edges subCuIds).fed (edges.map (·.derived edges subCuIds)) subCuIds =
      e.derived edges subCuIds := by
  have htotal := totalOf_derived h hsteady
  rw [derived_of_ne hid]
  by_cases htarget : e.target ∈ subCuIds
  · rw [Edge.fed, fed_target, if_pos htarget, htotal e he htarget, Edge.fed, if_pos htarget,
      setFlow_setFlow]
  · rw [fed_of_not_feed (by rwa [fed_target]), fed_id,
      remainderAt_congr map_derived_skeleton htotal, fed_of_not_feed htarget,
      setRemainder_setRemainder]

theorem intoUnit_of_eq {e : Edge} (h : e.id = unallocatedEdgeId) : e.intoUnit = 0 :=
  if_pos (Or.inl h)

/-- In a steady canvas nothing changes. -/
theorem derived_derived (h : WellWired edges subCuIds) (hsteady : Steady edges subCuIds) {e : Edge}
    (he : e ∈ edges) :
    (e.derived edges subCuIds).derived (edges.map (·.derived edges subCuIds)) subCuIds =
      e.derived edges subCuIds := by
  have hraw : rawKwOf ((edges.map (·.derived edges subCuIds)).map
      (·.fed (edges.map (·.derived edges subCuIds)) subCuIds)) =
        rawKwOf (edges.map (·.fed edges subCuIds)) := by
    rw [List.map_map]
    refine rawKwOf_congr fun e he => ?_
    show ((e.derived edges subCuIds).fed _ subCuIds).intoUnit = _
    by_cases hid : e.id = unallocatedEdgeId
    · rw [intoUnit_of_eq, intoUnit_of_eq]
      · rw [fed_id, hid]
      · rw [fed_id, derived_id, hid]
    · rw [fed_derived h hsteady he hid, derived_of_ne hid]
  rw [Edge.derived, hraw]
  by_cases hid : e.id = unallocatedEdgeId
  · have htarget : e.target ∉ subCuIds := fun hboard => h.id_ne he (Or.inl hboard) hid
    rw [fed_of_not_feed (by rwa [derived_target]), derived_id,
      remainderAt_congr map_derived_skeleton (totalOf_derived h hsteady), Edge.derived,
      fed_of_not_feed htarget]
    refine setUnallocated_setRemainder ?_ _ _
    exact (id_of_wiring (setRemainder_wiring e _)).trans hid
  · rw [fed_derived h hsteady he hid, setUnallocated_of_ne]
    rwa [derived_id]

theorem steady_of_again (h : WellWired edges subCuIds)
    (hagain : withDerivedFlows (edges.map (·.derived edges subCuIds)) subCuIds =
      some (edges.map (·.derived edges subCuIds))) : Steady edges subCuIds := by
  have hloop : NoLoop (edges.map (·.derived edges subCuIds)) subCuIds :=
    noLoop_of_wiring (wiring_of_skeleton map_derived_skeleton) h.noLoop
  rw [withDerivedFlows_eq hloop, Option.some.injEq, List.map_map] at hagain
  have hsame : ∀ e ∈ edges,
      (e.derived edges subCuIds).derived (edges.map (·.derived edges subCuIds)) subCuIds =
        e.derived edges subCuIds := List.map_inj_left.mp hagain
  have htotal : ∀ e ∈ edges, e.target ∈ subCuIds →
      totalOf (edges.map (·.derived edges subCuIds)) subCuIds e.target =
        totalOf edges subCuIds e.target := by
    intro e he htarget
    have hid := h.id_ne he (Or.inl htarget)
    have heq := hsame e he
    rw [derived_of_ne (by rwa [derived_id]), derived_of_ne hid, Edge.fed, fed_target,
      if_pos htarget, Edge.fed, if_pos htarget] at heq
    have hkw := setFlow_kw (e.setFlow (totalOf edges subCuIds e.target))
      (totalOf (edges.map (·.derived edges subCuIds)) subCuIds e.target)
    have hidle := setFlow_idle (e.setFlow (totalOf edges subCuIds e.target))
      (totalOf (edges.map (·.derived edges subCuIds)) subCuIds e.target)
    rw [heq, setFlow_kw] at hkw
    rw [heq, setFlow_idle] at hidle
    generalize totalOf (edges.map (·.derived edges subCuIds)) subCuIds e.target = t' at hkw hidle ⊢
    generalize totalOf edges subCuIds e.target = t at hkw hidle ⊢
    cases t
    cases t'
    rw [Option.some.injEq] at hkw hidle
    rw [Flow.mk.injEq]
    exact ⟨hkw.symm, hidle.symm⟩
  intro e he htarget
  rw [← sumOfCircuits_derived h htarget, ← totalOf_eq h.noLoop, ← htotal e he htarget,
    totalOf_eq hloop]
  apply sumOfCircuits_congr
  intro c hc
  obtain ⟨e', he', -, rfl, hboard⟩ :=
    feeds_of_wiring (wiring_of_skeleton map_derived_skeleton) hc
  exact (htotal e' he' hboard).symm

/-- Deriving again changes nothing if and only if the canvas is steady. -/
theorem withDerivedFlows_again_iff (h : WellWired edges subCuIds) :
    withDerivedFlows (edges.map (·.derived edges subCuIds)) subCuIds =
      some (edges.map (·.derived edges subCuIds)) ↔ Steady edges subCuIds := by
  refine ⟨steady_of_again h, fun hsteady => ?_⟩
  have hloop : NoLoop (edges.map (·.derived edges subCuIds)) subCuIds :=
    noLoop_of_wiring (wiring_of_skeleton map_derived_skeleton) h.noLoop
  rw [withDerivedFlows_eq hloop, List.map_map]
  exact congrArg some (List.map_congr_left fun e he => derived_derived h hsteady he)

end Again

end HomeEnergyManager.Canvas
