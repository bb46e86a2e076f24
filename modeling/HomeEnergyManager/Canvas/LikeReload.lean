import HomeEnergyManager.Canvas.Session

/-! # The canvas shows what a reload would

Between the frames every metered edge holds the reading that a reload would restore, or none since
it was drawn, and carries it, or a remainder while it is alone with feeds. So the stamped edges are
read by the passes as the restored ones are. -/

namespace HomeEnergyManager.Canvas

open OrderedMap

/-! ## The invariant -/

/-- It holds the reading that a reload restores. -/
def Edge.ReadAs (t : SavedTopology) (e : Edge) : Prop :=
  e.meteredKw = (t.restore e).meteredKw ∧ e.idle = (t.restore e).idle

/-- It has had no reading since it was drawn. -/
def Edge.Unread (e : Edge) : Prop :=
  e.meteredKw = none ∧ e.data.bind (·.kw) = some 0 ∧ e.idle = false

structure Restored (t : SavedTopology) (edges : List Edge) : Prop where
  fixed : t.FixedNodes
  ids : (edges.map (·.id)).Nodup
  served : t.edges.filter (·.id ≠ unallocatedEdgeId) =
    (edges.filter (·.id ≠ unallocatedEdgeId)).map Edge.saved
  unallocated : ∃ u, edges.filter (·.id = unallocatedEdgeId) = [u] ∧
    u.wiring = unallocatedEdge.wiring ∧ u.idle = false
  read : ∀ e ∈ edges, e.isMetered t.subCuIds → e.ReadAs t ∨ e.Unread
  remainder : ∀ e ∈ edges, e.CarriesRemainder t.subCuIds → e.IsAlone edges t.subCuIds
  tariff : ∀ e ∈ edges, isTariffEdge e → e.target ∉ t.subCuIds →
    e.data = none ∨ t.reading (edgePowerNodeId e) ≠ none

/-- What the passes take for granted: an edge without a reading has none to restore and is not alone
with feeds, and no circuit of a fed board carries anything but its reading. -/
structure Sound (t : SavedTopology) (edges : List Edge) : Prop where
  unread : ∀ e ∈ edges, e.isMetered t.subCuIds → e.meteredKw = none →
    t.reading (edgePowerNodeId e) = none ∧ ¬ e.IsAlone edges t.subCuIds
  circuits : ∀ c ∈ edges, Fed edges t.subCuIds c.source → ¬ c.CarriesRemainder t.subCuIds
  tariff : ∀ c ∈ edges, Fed edges t.subCuIds c.source → c.target ∉ t.subCuIds → isTariffEdge c →
    c.data = none

section Edges

variable {t t' : SavedTopology} {l : List Edge} {subCuIds : List String} {e e' : Edge}
  {f : Edge → Edge}

theorem eq_of_id (hids : (l.map (·.id)).Nodup) (he : e ∈ l) (he' : e' ∈ l) (h : e.id = e'.id) :
    e = e' :=
  List.inj_on_of_nodup_map hids he he' h

theorem mem_of_mem_otherEnds {x : EdgeEnd} (hx : x ∈ otherEnds l subCuIds) :
    x.edge ∈ l ∧ x.edge.target ∉ subCuIds := by
  obtain ⟨e, he, hxe⟩ := List.mem_flatMap.mp hx
  obtain ⟨hmem, htarget⟩ := List.mem_filter.mp he
  have htarget : e.target ∉ subCuIds := of_decide_eq_true htarget
  rcases List.mem_pair.mp hxe with rfl | rfl <;> exact ⟨hmem, htarget⟩

theorem saved_of_wiring (h : e.wiring = e'.wiring) : e.saved = e'.saved := by
  have heq := congrArg Edge.saved h
  exact heq

theorem powerNode_of_wiring (h : e.wiring = e'.wiring) :
    edgePowerNodeId e = edgePowerNodeId e' := by
  have heq := congrArg edgePowerNodeId h
  exact heq

theorem restore_of_wiring (t : SavedTopology) (h : e.wiring = e'.wiring) :
    t.restore e = t.restore e' := by
  rw [SavedTopology.restore, SavedTopology.restore, saved_of_wiring h]

theorem isMetered_of_wiring (h : e.wiring = e'.wiring) :
    e.isMetered subCuIds = e'.isMetered subCuIds := by
  unfold Edge.isMetered
  rw [id_of_wiring h, target_of_wiring h, tariff_of_wiring h]

theorem fed_map_iff (hf : ∀ e, (f e).wiring = e.wiring) {b : String} :
    Fed (l.map f) subCuIds b ↔ Fed l subCuIds b := by
  refine and_congr_right fun _ => ?_
  simp only [List.mem_map, exists_exists_and_eq_and, target_of_wiring (hf _)]

/-- Being alone is a matter of the wiring. -/
theorem isAlone_map_iff (hf : ∀ e, (f e).wiring = e.wiring) {x : EdgeEnd}
    (hx : x ∈ otherEnds l subCuIds) :
    (x.map f).isAlone (l.map f) subCuIds ↔ x.isAlone l subCuIds := by
  have hmem : x.map f ∈ otherEnds (l.map f) subCuIds := by
    rw [otherEnds_map hf]
    exact List.mem_map_of_mem hx
  have hkey : (x.map f).key = x.key := key_of_wiring (hf x.edge) x.atSource
  have hfeeds : feedsOn (l.map f) subCuIds x.key = (feedsOn l subCuIds x.key).map f := by
    unfold feedsOn
    rw [List.filter_map]
    refine congrArg (List.map f) (List.filter_congr fun e _ => ?_)
    have hsource : (f e).sourceKey = e.sourceKey := key_of_wiring (hf e) true
    rw [Function.comp_apply, hsource, target_of_wiring (hf e)]
  have hperm : ((l.map f).map Edge.wiring).Perm (l.map Edge.wiring) := by
    rw [List.map_map]
    exact List.Perm.of_eq (List.map_congr_left fun e _ => hf e)
  refine and_congr ?_ ?_
  · rw [hkey, hfeeds, Ne, List.map_eq_nil_iff]
  · rw [othersOn_eq_iff hmem, othersOn_eq_iff hx, hkey, length_othersOn_perm hperm]

theorem Edge.IsAlone.map (h : e.IsAlone l subCuIds) (hf : ∀ e, (f e).wiring = e.wiring) :
    (f e).IsAlone (l.map f) subCuIds := by
  obtain ⟨x, hx, rfl, halone⟩ := h
  refine ⟨x.map f, ?_, rfl, (isAlone_map_iff hf hx).mpr halone⟩
  rw [otherEnds_map hf]
  exact List.mem_map_of_mem hx

theorem isAlone_of_map (hids : (l.map (·.id)).Nodup) (hf : ∀ e, (f e).wiring = e.wiring)
    (he : e ∈ l) (h : (f e).IsAlone (l.map f) subCuIds) : e.IsAlone l subCuIds := by
  obtain ⟨y, hy, hye, halone⟩ := h
  rw [otherEnds_map hf] at hy
  obtain ⟨x, hx, rfl⟩ := List.mem_map.mp hy
  have hwiring : x.edge.wiring = e.wiring := by
    rw [← hf x.edge, ← hf e]
    exact congrArg Edge.wiring hye
  exact ⟨x, hx, eq_of_id hids (mem_of_mem_otherEnds hx).1 he (id_of_wiring hwiring),
    (isAlone_map_iff hf hx).mp halone⟩

theorem filter_map_of_wiring {p : Edge → Bool} (hp : ∀ e : Edge, p e.wiring = p e)
    (hf : ∀ e, (f e).wiring = e.wiring) : (l.map f).filter p = (l.filter p).map f := by
  have hcomp : p ∘ f = p := by
    funext e
    exact (hp (f e)).symm.trans ((congrArg p (hf e)).trans (hp e))
  rw [List.filter_map, hcomp]

namespace Restored

/-- Other data on the edges. -/
theorem map (h : Restored t l) (hf : ∀ e, (f e).wiring = e.wiring) (hfixed : t'.FixedNodes)
    (hedges : t'.edges = t.edges) (hsubCuIds : t'.subCuIds = t.subCuIds)
    (hidle : ∀ u ∈ l, u.wiring = unallocatedEdge.wiring → (f u).idle = u.idle)
    (hread : ∀ e ∈ l, e.isMetered t.subCuIds → (f e).ReadAs t' ∨ (f e).Unread)
    (hremainder : ∀ e ∈ l, (f e).CarriesRemainder t.subCuIds → e.IsAlone l t.subCuIds)
    (htariff : ∀ e ∈ l, isTariffEdge e → e.target ∉ t.subCuIds →
      (f e).data = none ∨ t'.reading (edgePowerNodeId e) ≠ none) :
    Restored t' (l.map f) where
  fixed := hfixed
  ids := by
    have hcomp : (fun e : Edge => e.id) ∘ f = fun e => e.id := funext fun e => id_of_wiring (hf e)
    rw [List.map_map, hcomp]
    exact h.ids
  served := by
    rw [hedges, h.served, filter_map_of_wiring (fun _ => rfl) hf, List.map_map]
    exact List.map_congr_left fun e _ => (saved_of_wiring (hf e)).symm
  unallocated := by
    obtain ⟨u, hu, hwiring, hnot⟩ := h.unallocated
    have hmem : u ∈ l := (List.mem_filter.mp (hu ▸ List.mem_singleton_self u)).1
    refine ⟨f u, ?_, (hf u).trans hwiring, (hidle u hmem hwiring).trans hnot⟩
    rw [filter_map_of_wiring (fun _ => rfl) hf, hu, List.map_singleton]
  read e' he' hmetered := by
    obtain ⟨e, he, rfl⟩ := List.mem_map.mp he'
    rw [hsubCuIds, isMetered_of_wiring (hf e)] at hmetered
    exact hread e he hmetered
  remainder e' he' hcarries := by
    obtain ⟨e, he, rfl⟩ := List.mem_map.mp he'
    rw [hsubCuIds] at hcarries ⊢
    exact (hremainder e he hcarries).map hf
  tariff e' he' htariffEdge htarget := by
    obtain ⟨e, he, rfl⟩ := List.mem_map.mp he'
    rw [hsubCuIds, target_of_wiring (hf e)] at htarget
    rw [tariff_of_wiring (hf e)] at htariffEdge
    rw [powerNode_of_wiring (hf e)]
    exact htariff e he htariffEdge htarget

/-- An edge with the wiring of the Unallocated edge's id is the Unallocated edge. -/
theorem wiring_of_id (h : Restored t l) (he : e ∈ l) (hid : e.id = unallocatedEdgeId) :
    e.wiring = unallocatedEdge.wiring := by
  obtain ⟨u, hu, hwiring, -⟩ := h.unallocated
  have hmem : e ∈ l.filter (·.id = unallocatedEdgeId) :=
    List.mem_filter.mpr ⟨he, decide_eq_true hid⟩
  rw [hu, List.mem_singleton] at hmem
  rw [hmem, hwiring]

theorem ne_of_tariff (h : Restored t l) (he : e ∈ l) (htariff : isTariffEdge e = true) :
    e.id ≠ unallocatedEdgeId := by
  intro hid
  rw [tariff_of_wiring (h.wiring_of_id he hid)] at htariff
  exact absurd htariff (by decide)

/-! ## Deriving the flows -/

/-- An edge carries what is restored, or a remainder. -/
theorem kw_eq_or (h : Restored t l) (hsound : Sound t l) (he : e ∈ l)
    (hmetered : e.isMetered t.subCuIds) :
    (t.restore e).data.bind (·.kw) = e.data.bind (·.kw) ∧ (t.restore e).idle = e.idle ∨
      (t.restore e).idle = e.idle ∧ e.CarriesRemainder t.subCuIds := by
  have htariff := (SameReads.isMetered_iff.mp hmetered).1
  rcases h.read e he hmetered with ⟨hkw, hidle⟩ | ⟨hnone, hkw, hidle⟩
  · by_cases hcarries : e.data.bind (·.kw) = e.meteredKw
    · exact .inl ⟨(restore_kw htariff).trans (hkw.symm.trans hcarries.symm), hidle.symm⟩
    · exact .inr ⟨hidle.symm, hmetered, hkw ▸ restore_metered_ne_none htariff, hcarries⟩
  · have hreading := (hsound.unread e he hmetered hnone).1
    obtain ⟨hkw', hidle'⟩ := restore_unread (t := t) htariff hreading
    exact .inl ⟨hkw'.trans hkw.symm, hidle'.trans hidle.symm⟩

/-- The edges that a reload derives the flows of. -/
theorem sameReads (h : Restored t l) (hsound : Sound t l) :
    SameReads l ((t.edges.filter (·.id ≠ unallocatedEdgeId)).map
      (restoreEdge (powerByNode t.nodes) (standbyMapOf t.profiles)) ++ [unallocatedEdge])
      t.subCuIds t.restore where
  wiring := restore_wiring t
  reload := by
    rw [h.served, List.map_map]
    rfl
  unallocated := h.unallocated
  unit := h.fixed.consumerUnit_notMem
  remainder := h.fixed.unallocated_notMem
  circuits c hc hfed htarget := by
    cases htariff : isTariffEdge c with
    | true =>
      have hdata := hsound.tariff c hc hfed htarget htariff
      have hsame : c.wiring = c := by
        rw [Edge.wiring, ← hdata]
      rw [restore_of_tariff htariff, hsame]
    | false =>
      have hid : c.id ≠ unallocatedEdgeId := by
        intro hid
        have hsource : c.source = consumerUnitId := source_of_wiring (h.wiring_of_id hc hid)
        exact h.fixed.consumerUnit_notMem (hsource ▸ hfed.1)
      have hmetered := SameReads.isMetered_iff.mpr ⟨htariff, htarget, hid⟩
      rcases h.kw_eq_or hsound hc hmetered with ⟨hkw, hidle⟩ | ⟨-, hcarries⟩
      · rw [Edge.flow, Edge.flow, Edge.kw, Edge.kw, hkw, hidle]
      · exact absurd hcarries (hsound.circuits c hc hfed)
  alone x hx halone e he hmetered hid := by
    obtain rfl := eq_of_id h.ids (mem_of_mem_otherEnds hx).1 he hid.symm
    rcases h.read _ he hmetered with ⟨hkw, -⟩ | ⟨hnone, -⟩
    · exact hkw.symm
    · exact absurd ⟨x, hx, rfl, halone⟩ (hsound.unread _ he hmetered hnone).2
  idle e he hmetered := (h.kw_eq_or hsound he hmetered).elim And.right And.left
  kw e he hmetered := by
    rcases h.kw_eq_or hsound he hmetered with ⟨hkw, -⟩ | ⟨-, hcarries⟩
    · exact .inl hkw
    · obtain ⟨x, hx, rfl, halone⟩ := h.remainder e he hcarries
      exact .inr ⟨x, hx, halone, rfl, hcarries.2.1⟩

end Restored

/-- A remainder comes from an edge of that id that is alone with feeds and has a reading. -/
theorem exists_of_remainderBy {r : List (String × ℚ) × Totals} (hr : firstPass l subCuIds = some r)
    {id : String} {v : ℚ} (h : remainderBy l subCuIds r.1 id = some v) :
    ∃ x ∈ otherEnds l subCuIds, x.edge.id = id ∧ x.isAlone l subCuIds ∧
      x.edge.meteredKw ≠ none := by
  rw [remainderBy_eq, Option.map_eq_some_iff] at h
  obtain ⟨p, hp, -⟩ := h
  obtain ⟨x, hx, hcond⟩ := List.mem_filterMap.mp (List.mem_of_getLast? hp)
  rw [otherEnds_filter_id] at hx
  obtain ⟨hmem, hid⟩ := List.mem_filter.mp hx
  split at hcond
  · rename_i halone
    refine ⟨x, hmem, of_decide_eq_true hid, ⟨(firstPass_isSome_iff hr x.key).mp halone.1, halone.2⟩,
      fun hnone => ?_⟩
    simp only [remainderOf, hnone, Option.map_none] at hcond
    exact absurd hcond (by simp)
  · exact absurd hcond (by simp)

namespace Restored

/-- The flows are derived as in a reload, and the invariant holds of them. -/
theorem derive (h : Restored t l) (hsound : Sound t l) :
    ∃ l' reloaded, withDerivedFlows l t.subCuIds = some l' ∧ onInit t = some reloaded ∧
      flowsOf l' = flowsOf reloaded ∧ Restored t l' := by
  obtain ⟨l', reloaded, hl, hreload, hflows⟩ := (h.sameReads hsound).flowsOf_eq
  obtain ⟨r, hr, hmap⟩ := withDerivedFlows_eq_map l t.subCuIds
  refine ⟨l', reloaded, hl, hreload, hflows, ?_⟩
  obtain rfl := Option.some.inj (hl.symm.trans hmap)
  -- an edge without a reading gets no remainder
  have hnone {e : Edge} (he : e ∈ l) (hmetered : e.meteredKw = none) :
      remainderBy l t.subCuIds r.1 e.id = none := by
    rw [Option.eq_none_iff_forall_ne_some]
    intro v hv
    obtain ⟨x, hx, hid, -, hne⟩ := exists_of_remainderBy hr hv
    obtain rfl := eq_of_id h.ids (mem_of_mem_otherEnds hx).1 he hid
    exact hne hmetered
  have hfed {e : Edge} (htarget : e.target ∉ t.subCuIds) :
      e.fedBy l t.subCuIds r = e.setRemainder (remainderBy l t.subCuIds r.1 e.id) :=
    if_neg htarget
  have hderived {e : Edge} (htarget : e.target ∉ t.subCuIds) (hid : e.id ≠ unallocatedEdgeId) :
      e.derivedBy l t.subCuIds r = e.setRemainder (remainderBy l t.subCuIds r.1 e.id) := by
    rw [Edge.derivedBy, hfed htarget]
    refine setUnallocated_of_ne ?_ _
    rwa [id_of_wiring (setRemainder_wiring e _)]
  refine h.map (derivedBy_wiring r) h.fixed rfl rfl ?_ ?_ ?_ ?_
  · intro u _ hwiring
    have htarget : u.target ∉ t.subCuIds :=
      target_of_wiring hwiring ▸ h.fixed.unallocated_notMem
    rw [Edge.derivedBy, setUnallocated_idle, hfed htarget, setRemainder_idle]
  · intro e he hmetered
    obtain ⟨-, htarget, hid⟩ := SameReads.isMetered_iff.mp hmetered
    rw [hderived htarget hid]
    rcases h.read e he hmetered with ⟨hkw, hidle⟩ | hunread
    · refine .inl ⟨?_, ?_⟩
      · rw [setRemainder_metered, hkw, restore_of_wiring t (setRemainder_wiring e _)]
      · rw [setRemainder_idle, hidle, restore_of_wiring t (setRemainder_wiring e _)]
    · rw [hnone he hunread.1]
      exact .inr hunread
  · rintro e he ⟨hmetered, hne, hcarries⟩
    rw [isMetered_of_wiring (derivedBy_wiring r e)] at hmetered
    obtain ⟨-, htarget, hid⟩ := SameReads.isMetered_iff.mp hmetered
    rw [hderived htarget hid] at hne hcarries
    cases hv : remainderBy l t.subCuIds r.1 e.id with
    | some v =>
      obtain ⟨x, hx, hxid, halone, -⟩ := exists_of_remainderBy hr hv
      exact ⟨x, hx, eq_of_id h.ids (mem_of_mem_otherEnds hx).1 he hxid, halone⟩
    | none =>
      rw [hv] at hne hcarries
      exact h.remainder e he ⟨hmetered, hne, hcarries⟩
  · intro e he htariff htarget
    rcases h.tariff e he htariff htarget with hdata | hreading
    · have hmetered : e.meteredKw = none := by
        rw [Edge.meteredKw, hdata]
        rfl
      rw [hderived htarget (h.ne_of_tariff he htariff), hnone he hmetered]
      exact .inl hdata
    · exact .inr hreading

end Restored

end Edges

end HomeEnergyManager.Canvas
