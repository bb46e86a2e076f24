import Mathlib.Tactic.Ring
import HomeEnergyManager.Canvas.Live
import HomeEnergyManager.Canvas.Passes

/-! # The live canvas and a reload

Two lists of edges that the passes read the same have the same flows, whatever else their edges
carry from the canvas before.

Reference: `firmware/html_app/src/Topology.tsx`.
-/

namespace HomeEnergyManager.Canvas

open OrderedMap

/-! ## What is compared -/

/-- The flows of the power edges, in their order; the Unallocated edge, which a reload appends, is
the last. -/
def flowsOf (edges : List Edge) : List (Edge × Option ℚ × Bool) :=
  ((edges.filter (·.id ≠ unallocatedEdgeId) ++ edges.filter (·.id = unallocatedEdgeId)).filter
    (!isTariffEdge ·)).map fun e => (e.wiring, e.data.bind (·.kw), e.idle)

/-- A power edge that its meter is read for. -/
def Edge.isMetered (subCuIds : List String) (e : Edge) : Bool :=
  !isTariffEdge e && e.target ∉ subCuIds && e.id != unallocatedEdgeId

/-- Nothing else but feeds is on the handle. -/
def EdgeEnd.isAlone (edges : List Edge) (subCuIds : List String) (x : EdgeEnd) : Prop :=
  feedsOn edges subCuIds x.key ≠ [] ∧ othersOn edges subCuIds x.key = [x]

instance (edges : List Edge) (subCuIds : List String) (x : EdgeEnd) :
    Decidable (x.isAlone edges subCuIds) :=
  inferInstanceAs (Decidable (_ ∧ _))

/-! ## The same flows -/

/-- What two lists have in common, of which the second has other data on the edges of the first and
the Unallocated edge at the end. -/
structure SameReads (l m : List Edge) (subCuIds : List String) (g : Edge → Edge) : Prop where
  wiring : ∀ e, (g e).wiring = e.wiring
  reload : m = (l.filter (·.id ≠ unallocatedEdgeId)).map g ++ [unallocatedEdge]
  unallocated : ∃ u, l.filter (·.id = unallocatedEdgeId) = [u] ∧
    u.wiring = unallocatedEdge.wiring ∧ u.idle = false
  unit : consumerUnitId ∉ subCuIds
  remainder : unallocatedId ∉ subCuIds
  /-- The circuits of the fed boards count for the same. -/
  circuits : ∀ c ∈ l, Fed l subCuIds c.source → c.target ∉ subCuIds →
    Flow.zero.add (g c).flow = Flow.zero.add c.flow
  /-- The edges that are alone with feeds have the same reading. -/
  alone : ∀ x ∈ otherEnds l subCuIds, x.isAlone l subCuIds → ∀ e ∈ l, e.isMetered subCuIds →
    e.id = x.edge.id → (g x.edge).meteredKw = x.edge.meteredKw
  idle : ∀ e ∈ l, e.isMetered subCuIds → (g e).idle = e.idle
  /-- Each metered edge carries the same, or a remainder is due to it. -/
  kw : ∀ e ∈ l, e.isMetered subCuIds → (g e).data.bind (·.kw) = e.data.bind (·.kw) ∨
    ∃ x ∈ otherEnds l subCuIds, x.isAlone l subCuIds ∧ x.edge.id = e.id ∧ x.edge.meteredKw ≠ none

namespace SameReads

variable {l m : List Edge} {subCuIds : List String} {g : Edge → Edge}

theorem target (h : SameReads l m subCuIds g) (e : Edge) : (g e).target = e.target :=
  target_of_wiring (h.wiring e)

/-- Edges of a kind that the Unallocated edge is not of are the same in both. -/
theorem filter_eq (h : SameReads l m subCuIds g) {p : Edge → Bool}
    (hp : ∀ e : Edge, p e.wiring = p e) (hunallocated : p unallocatedEdge = false) :
    m.filter p = (l.filter p).map g := by
  obtain ⟨u, hu, hwiring, -⟩ := h.unallocated
  have hg (e : Edge) : p (g e) = p e := by
    rw [← hp, h.wiring, hp]
  have hmem {e : Edge} (he : e ∈ l) (hpe : p e = true) : e.id ≠ unallocatedEdgeId := by
    intro hid
    have heq : e ∈ l.filter (·.id = unallocatedEdgeId) :=
      List.mem_filter.mpr ⟨he, by simpa using hid⟩
    rw [hu, List.mem_singleton] at heq
    rw [heq, ← hp, hwiring, hp, hunallocated] at hpe
    exact absurd hpe (by simp)
  have hfilter : (l.filter (·.id ≠ unallocatedEdgeId)).filter p = l.filter p := by
    rw [List.filter_filter]
    refine List.filter_congr fun e he => ?_
    cases hpe : p e with
    | false => rfl
    | true => simpa using hmem he hpe
  have hcomp : p ∘ g = p := funext hg
  rw [h.reload, List.filter_append, List.filter_map, hcomp, hfilter,
    List.filter_cons_of_neg (by simp [hunallocated]), List.filter_nil, List.append_nil]

theorem perm (h : SameReads l m subCuIds g) : (l.map Edge.wiring).Perm (m.map Edge.wiring) := by
  obtain ⟨u, hu, hwiring, -⟩ := h.unallocated
  have hsplit := (List.filter_append_perm (fun e : Edge => e.id ≠ unallocatedEdgeId) l).map
    Edge.wiring
  have hlast : l.filter (fun e => !decide (e.id ≠ unallocatedEdgeId)) = [u] := by
    rw [← hu]
    exact List.filter_congr fun e _ => by simp
  have hmap : (l.filter (·.id ≠ unallocatedEdgeId)).map (Edge.wiring ∘ g) =
      (l.filter (·.id ≠ unallocatedEdgeId)).map Edge.wiring :=
    List.map_congr_left fun e _ => h.wiring e
  rw [hlast, List.map_append] at hsplit
  rw [h.reload, List.map_append, List.map_map, hmap]
  refine hsplit.symm.trans (List.Perm.of_eq ?_)
  rw [List.map_singleton, List.map_singleton, hwiring]

theorem feedsOf_eq (h : SameReads l m subCuIds g) : feedsOf l subCuIds = feedsOf m subCuIds := by
  have hremainder : decide (unallocatedEdge.target ∈ subCuIds) = false :=
    decide_eq_false h.remainder
  rw [feedsOf, feedsOf, h.filter_eq (fun e => rfl) hremainder, List.map_map]
  exact List.map_congr_left fun e _ => (h.wiring e).symm

theorem circuitsOf_eq (h : SameReads l m subCuIds g) {b : String} (hb : Fed l subCuIds b) :
    circuitsOf l subCuIds b = circuitsOf m subCuIds b := by
  have hunit : decide (unallocatedEdge.source = b) = false := by
    apply decide_eq_false
    rintro rfl
    exact h.unit hb.1
  rw [circuitsOf, circuitsOf, h.filter_eq (fun e => rfl) hunit, List.map_map]
  refine List.map_congr_left fun c hc => ?_
  obtain ⟨hmem, hsource⟩ := List.mem_filter.mp hc
  obtain rfl : c.source = b := by simpa using hsource
  show c.circuit subCuIds = (g c).circuit subCuIds
  unfold Edge.circuit
  rw [h.target]
  split
  · rfl
  · rename_i htarget
    rw [h.circuits c hmem hb htarget]

theorem firstPass_eq (h : SameReads l m subCuIds g) :
    firstPass l subCuIds = firstPass m subCuIds :=
  firstPass_congr h.feedsOf_eq fun _ hb => h.circuitsOf_eq hb

theorem isMetered_iff {e : Edge} : e.isMetered subCuIds ↔
    isTariffEdge e = false ∧ e.target ∉ subCuIds ∧ e.id ≠ unallocatedEdgeId := by
  simp [Edge.isMetered, and_assoc]

/-- A metered edge has the same remainder in both. -/
theorem remainderBy_eq (h : SameReads l m subCuIds g) {r : List (String × ℚ) × Totals}
    (hr : firstPass l subCuIds = some r) {e : Edge} (he : e ∈ l) (hmetered : e.isMetered subCuIds) :
    remainderBy l subCuIds r.1 e.id = remainderBy m subCuIds r.1 e.id := by
  obtain ⟨-, -, hid⟩ := isMetered_iff.mp hmetered
  refine remainderBy_congr h.wiring h.perm (h.filter_eq (fun e => rfl) ?_) ?_
  · exact decide_eq_false (Ne.symm hid)
  · intro x hx hxid hfeeds halone
    exact h.alone x hx ⟨(firstPass_isSome_iff hr x.key).mp hfeeds, halone⟩ e he hmetered hxid.symm

/-- An edge that a remainder is due to gets one. -/
theorem remainderBy_isSome {r : List (String × ℚ) × Totals} (hr : firstPass l subCuIds = some r)
    {x : EdgeEnd} (hx : x ∈ otherEnds l subCuIds) (halone : x.isAlone l subCuIds)
    (hmetered : x.edge.meteredKw ≠ none) : (remainderBy l subCuIds r.1 x.edge.id).isSome := by
  obtain ⟨metered, hmetered⟩ := Option.ne_none_iff_exists'.mp hmetered
  have hfeeds : (get r.1 x.key).isSome := (firstPass_isSome_iff hr x.key).mpr halone.1
  have hmem : x ∈ otherEnds (l.filter (·.id = x.edge.id)) subCuIds := by
    rw [otherEnds_filter_id]
    exact List.mem_filter.mpr ⟨hx, by simp⟩
  have hremainder : remainderOf r.1 (x.key, [x]) =
      some (x.edge.id, x.away (x.away metered - (get r.1 x.key).getD 0)) := by
    simp only [remainderOf, hmetered, Option.map_some]
  rw [Canvas.remainderBy_eq, Option.isSome_map, List.getLast?_isSome]
  exact List.ne_nil_of_mem (List.mem_filterMap.mpr
    ⟨x, hmem, (if_pos ⟨hfeeds, halone.2⟩).trans hremainder⟩)

/-- A power edge carries the same in both results. -/
theorem fedBy_flow (h : SameReads l m subCuIds g) {r : List (String × ℚ) × Totals}
    (hr : firstPass l subCuIds = some r) {e : Edge} (he : e ∈ l)
    (htariff : isTariffEdge e = false) (hid : e.id ≠ unallocatedEdgeId) :
    ((g e).fedBy m subCuIds r).data.bind (·.kw) = (e.fedBy l subCuIds r).data.bind (·.kw) ∧
      ((g e).fedBy m subCuIds r).idle = (e.fedBy l subCuIds r).idle := by
  have hidg : (g e).id = e.id := id_of_wiring (h.wiring e)
  unfold Edge.fedBy
  rw [h.target, hidg]
  split
  · rename_i htarget
    rw [← boardTotal_congr (fun _ hb => h.circuitsOf_eq hb) ⟨htarget, e, he, rfl⟩, setFlow_kw,
      setFlow_kw, Edge.idle, Edge.idle, setFlow_idle, setFlow_idle]
    exact ⟨rfl, rfl⟩
  · rename_i htarget
    have hmetered : e.isMetered subCuIds := isMetered_iff.mpr ⟨htariff, htarget, hid⟩
    have hremainder : get (remainderKwOf m subCuIds r.1) e.id = remainderBy l subCuIds r.1 e.id :=
      (h.remainderBy_eq hr he hmetered).symm
    rw [hremainder, setRemainder_idle, setRemainder_idle]
    refine ⟨?_, h.idle e he hmetered⟩
    show _ = (e.setRemainder (remainderBy l subCuIds r.1 e.id)).data.bind (·.kw)
    cases hv : remainderBy l subCuIds r.1 e.id with
    | some v => rw [setRemainder_kw, setRemainder_kw]
    | none =>
      rcases h.kw e he hmetered with hkw | ⟨x, hx, halone, hxid, hne⟩
      · exact hkw
      · have hsome := remainderBy_isSome hr hx halone hne
        rw [hxid, hv] at hsome
        exact absurd hsome (by simp)

/-- The Unallocated edge is the last of the reload. -/
theorem filter_unallocated (h : SameReads l m subCuIds g) :
    m.filter (·.id = unallocatedEdgeId) = [unallocatedEdge] := by
  have hnil : ((l.filter (·.id ≠ unallocatedEdgeId)).map g).filter
      (·.id = unallocatedEdgeId) = [] := by
    rw [List.filter_eq_nil_iff]
    intro e he hid
    obtain ⟨e', he', rfl⟩ := List.mem_map.mp he
    have heq : (g e').id = e'.id := id_of_wiring (h.wiring e')
    have hne := (List.mem_filter.mp he').2
    simp only [ne_eq, decide_not, Bool.not_eq_true', decide_eq_false_iff_not] at hne
    exact hne (heq.symm.trans (by simpa using hid))
  rw [h.reload, List.filter_append, hnil]
  rfl

theorem filter_others (h : SameReads l m subCuIds g) :
    m.filter (·.id ≠ unallocatedEdgeId) = (l.filter (·.id ≠ unallocatedEdgeId)).map g :=
  h.filter_eq (fun _ => rfl) (by simp [unallocatedEdge])

theorem intoUnit_congr {e e' : Edge} (hwiring : e.wiring = e'.wiring)
    (hkw : isTariffEdge e' = false → e.kw = e'.kw) : e.intoUnit = e'.intoUnit := by
  unfold Edge.intoUnit
  rw [id_of_wiring hwiring, source_of_wiring hwiring, target_of_wiring hwiring,
    tariff_of_wiring hwiring]
  split
  · rfl
  · rename_i hnot
    rw [hkw (by simpa using (not_or.mp hnot).2)]

/-- The main consumer unit has the same remainder in both. -/
theorem rawKwOf_eq (h : SameReads l m subCuIds g) {r : List (String × ℚ) × Totals}
    (hr : firstPass l subCuIds = some r) :
    rawKwOf (m.map (·.fedBy m subCuIds r)) = rawKwOf (l.map (·.fedBy l subCuIds r)) := by
  have hfilter (edges : List Edge) : (edges.map (·.fedBy edges subCuIds r)).filter
      (·.id ≠ unallocatedEdgeId) =
        (edges.filter (·.id ≠ unallocatedEdgeId)).map (·.fedBy edges subCuIds r) := by
    rw [List.filter_map]
    congr 1
    refine List.filter_congr fun e _ => ?_
    exact congrArg (fun id => decide (id ≠ unallocatedEdgeId)) (fedBy_id r e)
  rw [rawKwOf_eq_sum_filter, rawKwOf_eq_sum_filter, hfilter, hfilter, h.filter_others,
    List.map_map, List.map_map, List.map_map]
  congr 1
  refine List.map_congr_left fun e he => ?_
  obtain ⟨hmem, hid⟩ := List.mem_filter.mp he
  have hid : e.id ≠ unallocatedEdgeId := by simpa using hid
  refine intoUnit_congr ?_ fun htariff => ?_
  · rw [fedBy_wiring, fedBy_wiring, h.wiring]
  · have hsame := tariff_of_wiring (fedBy_wiring r e :
      (e.fedBy l subCuIds r).wiring = e.wiring)
    have htariff : isTariffEdge e = false := hsame.symm.trans htariff
    rw [Edge.kw, Edge.kw, (h.fedBy_flow hr hmem htariff hid).1]

/-- The power edges carry the same in both results. -/
theorem flowsOf_eq (h : SameReads l m subCuIds g) :
    ∃ l' m', withDerivedFlows l subCuIds = some l' ∧ withDerivedFlows m subCuIds = some m' ∧
      flowsOf l' = flowsOf m' := by
  obtain ⟨r, hr, hl⟩ := withDerivedFlows_eq_map l subCuIds
  obtain ⟨r', hr', hm⟩ := withDerivedFlows_eq_map m subCuIds
  obtain rfl : r = r' := Option.some.inj (hr.symm.trans (h.firstPass_eq.trans hr'))
  refine ⟨_, _, hl, hm, ?_⟩
  obtain ⟨u, hu, hwiring, hidle⟩ := h.unallocated
  have hpower {e : Edge} (he : e ∈ l) (hid : e.id ≠ unallocatedEdgeId)
      (htariff : isTariffEdge e = false) :
      (((g e).derivedBy m subCuIds r).wiring, ((g e).derivedBy m subCuIds r).data.bind (·.kw),
        ((g e).derivedBy m subCuIds r).idle) =
      ((e.derivedBy l subCuIds r).wiring, (e.derivedBy l subCuIds r).data.bind (·.kw),
        (e.derivedBy l subCuIds r).idle) := by
    have hne {edges : List Edge} {e : Edge} (hid : e.id ≠ unallocatedEdgeId) :
        e.derivedBy edges subCuIds r = e.fedBy edges subCuIds r := by
      apply setUnallocated_of_ne
      rwa [fedBy_id]
    have hidg : (g e).id = e.id := id_of_wiring (h.wiring e)
    obtain ⟨hkw, hsame⟩ := h.fedBy_flow hr he htariff hid
    rw [hne hid, hne (by rwa [hidg]), fedBy_wiring, fedBy_wiring, h.wiring, hkw, hsame]
  have hlast {edges : List Edge} {e : Edge} (hid : e.id = unallocatedEdgeId)
      (htarget : e.target ∉ subCuIds) :
      ((e.derivedBy edges subCuIds r).wiring, (e.derivedBy edges subCuIds r).data.bind (·.kw),
        (e.derivedBy edges subCuIds r).idle) =
      (e.wiring, some (-max 0 (rawKwOf (edges.map (·.fedBy edges subCuIds r)))), e.idle) := by
    have hidle : (e.derivedBy edges subCuIds r).idle = e.idle := by
      rw [Edge.derivedBy, setUnallocated_idle, Edge.fedBy, if_neg htarget, setRemainder_idle]
    rw [derivedBy_wiring, hidle, Edge.derivedBy, setUnallocated_of_eq ((fedBy_id r e).trans hid)]
    rfl
  have hflows (edges : List Edge) : flowsOf (edges.map (·.derivedBy edges subCuIds r)) =
      ((edges.filter (·.id ≠ unallocatedEdgeId) ++
        edges.filter (·.id = unallocatedEdgeId)).filter (!isTariffEdge ·)).map fun e =>
          ((e.derivedBy edges subCuIds r).wiring, (e.derivedBy edges subCuIds r).data.bind (·.kw),
            (e.derivedBy edges subCuIds r).idle) := by
    have hfilter (p : Edge → Bool) (hp : ∀ e : Edge, p e.wiring = p e) (l : List Edge) :
        (l.map (·.derivedBy edges subCuIds r)).filter p =
          (l.filter p).map (·.derivedBy edges subCuIds r) := by
      rw [List.filter_map]
      congr 1
      refine List.filter_congr fun e _ => ?_
      show p (e.derivedBy edges subCuIds r) = p e
      rw [← hp, derivedBy_wiring, hp]
    rw [flowsOf, hfilter _ fun e => rfl, hfilter _ fun e => rfl, ← List.map_append,
      hfilter _ fun e => rfl, List.map_map]
    rfl
  have htariffg (e : Edge) : isTariffEdge (g e) = isTariffEdge e := tariff_of_wiring (h.wiring e)
  have hcomp : (fun e => !isTariffEdge e) ∘ g = fun e => !isTariffEdge e :=
    funext fun e => congrArg (!·) (htariffg e)
  have hid : u.id = unallocatedEdgeId := id_of_wiring hwiring
  have htarget : u.target ∉ subCuIds := by
    have heq : u.target = unallocatedId := target_of_wiring hwiring
    exact heq ▸ h.remainder
  have htariff : isTariffEdge u = false := tariff_of_wiring hwiring
  rw [hflows, hflows, h.filter_others, h.filter_unallocated, hu, List.filter_append,
    List.filter_append, List.filter_map, hcomp, List.map_append, List.map_append, List.map_map,
    List.filter_cons_of_pos (by simp [htariff]), List.filter_cons_of_pos (by decide)]
  congr 1
  · refine List.map_congr_left fun e he => ?_
    obtain ⟨hmem, hnot⟩ := List.mem_filter.mp he
    obtain ⟨hmem, hne⟩ := List.mem_filter.mp hmem
    exact (hpower hmem (by simpa using hne) (by simpa using hnot)).symm
  · rw [List.filter_nil, List.map_singleton, List.map_singleton, hlast hid htarget,
      hlast rfl h.remainder, h.rawKwOf_eq hr, hwiring, hidle]
    rfl

end SameReads

end HomeEnergyManager.Canvas
