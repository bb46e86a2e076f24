import Mathlib.Algebra.BigOperators.Group.Finset.Piecewise
import Mathlib.Tactic.Linarith
import HomeEnergyManager.Canvas.Derived

/-! # Power is conserved

Each board fed from the main consumer unit has one feed, from the unit or from another such board.
So the feeds between the boards cancel, and what the unit's own feeds carry is what the loads of all
these boards draw.

Reference: `withUnallocated` in `firmware/html_app/src/Topology.tsx`.
-/

namespace HomeEnergyManager.Canvas

/-! ## The main consumer unit -/

/-- A power edge of the main consumer unit, other than the Unallocated one. -/
def Edge.atUnit (e : Edge) : Bool :=
  (e.target == consumerUnitId || e.source == consumerUnitId) && e.id != unallocatedEdgeId &&
    !isTariffEdge e

/-- The handle of the main consumer unit that the edge is wired to. -/
def Edge.unitHandle (e : Edge) : Option String :=
  if e.target = consumerUnitId then e.targetHandle else e.sourceHandle

def startsWith (s pre : String) : Bool := pre.toList.isPrefixOf s.toList

def isSupplyHandle (handle : Option String) : Bool :=
  handle.any fun h => startsWith h "grid" || startsWith h "solar" || startsWith h "battery"

/-- A supply of the main consumer unit: on one of its supply handles, or from a board. -/
def Edge.isSupply (subCuIds : List String) (e : Edge) : Bool :=
  e.atUnit && e.target ∉ subCuIds && (isSupplyHandle e.unitHandle || e.source ∈ subCuIds)

/-- A load of the main consumer unit that is no board. -/
def Edge.isUnitLoad (subCuIds : List String) (e : Edge) : Bool :=
  e.atUnit && e.target ∉ subCuIds && !(isSupplyHandle e.unitHandle || e.source ∈ subCuIds)

/-- A feed of the main consumer unit. -/
def Edge.isUnitFeed (subCuIds : List String) (e : Edge) : Bool :=
  e.atUnit && e.target ∈ subCuIds

/-- The board is fed from the main consumer unit, through other boards or at once. -/
def FromUnit (edges : List Edge) (subCuIds : List String) (b : String) : Prop :=
  ∃ e ∈ edges, e.isUnitFeed subCuIds ∧ Relation.ReflTransGen (Feeds edges subCuIds) e.target b

open Classical in
noncomputable def boardsOfUnit (edges : List Edge) (subCuIds : List String) : Finset String :=
  subCuIds.toFinset.filter (FromUnit edges subCuIds)

/-- What the main consumer unit takes in is what its loads draw, what the loads of all boards fed
from it draw, and the remainder, which the Unallocated edge draws if it is positive. -/
def Conserves (edges : List Edge) (subCuIds : List String) (out : List Edge) : Prop :=
  ∃ u rawKw, out.filter (·.id = unallocatedEdgeId) = [u] ∧ u.data.bind (·.rawKw) = some rawKw ∧
    u.data.bind (·.kw) = some (-max 0 rawKw) ∧
    ((out.filter (·.isSupply subCuIds)).map Edge.intoUnit).sum =
      ((out.filter (·.isUnitLoad subCuIds)).map fun e => -e.intoUnit).sum +
        ∑ b ∈ boardsOfUnit edges subCuIds,
          ((loadCircuits out subCuIds b).map fun c => -c.kw).sum + rawKw

/-! ## Sums over the edges -/

section Sums

variable {α : Type*}

/-- The sums over the fibres of a key add up to the sum over all of them. -/
theorem sum_fibres {β : Type*} [DecidableEq β] (S : Finset β) (key : α → β) (φ : α → ℚ)
    (l : List α) :
    ∑ b ∈ S, ((l.filter fun a => key a = b).map φ).sum =
      (l.map fun a => if key a ∈ S then φ a else 0).sum := by
  induction l with
  | nil => simp
  | cons a l ih =>
    have hcons (b : β) : (((a :: l).filter fun a => key a = b).map φ).sum =
        (if key a = b then φ a else 0) + ((l.filter fun a => key a = b).map φ).sum := by
      by_cases hb : key a = b <;> simp [hb]
    simp only [hcons]
    rw [Finset.sum_add_distrib, Finset.sum_ite_eq, ih, List.map_cons, List.sum_cons]

end Sums

/-! ## The boards of the unit -/

section Boards

variable {edges : List Edge} {subCuIds : List String}

theorem mem_boardsOfUnit {b : String} :
    b ∈ boardsOfUnit edges subCuIds ↔ b ∈ subCuIds ∧ FromUnit edges subCuIds b := by
  simp only [boardsOfUnit, Finset.mem_filter, List.mem_toFinset]

theorem isUnitFeed_target {e : Edge} (h : e.isUnitFeed subCuIds) : e.target ∈ subCuIds := by
  unfold Edge.isUnitFeed at h
  simp only [Bool.and_eq_true, decide_eq_true_eq] at h
  exact h.2

theorem WellWired.feed_source (h : WellWired edges subCuIds) {e : Edge}
    (hfeed : e.isUnitFeed subCuIds) : e.source = consumerUnitId := by
  have htarget := isUnitFeed_target hfeed
  unfold Edge.isUnitFeed Edge.atUnit at hfeed
  simp only [Bool.and_eq_true, Bool.or_eq_true, beq_iff_eq] at hfeed
  obtain ⟨⟨⟨hunit | hunit, -⟩, -⟩, -⟩ := hfeed
  · exact absurd (hunit ▸ htarget) h.unit
  · exact hunit

/-- An edge into a board is its only feed. -/
theorem WellWired.feeds_eq (h : WellWired edges subCuIds) {e : Edge} (he : e ∈ edges)
    (hb : e.target ∈ subCuIds) : edges.filter (·.target = e.target) = [e] := by
  have hmem : e ∈ edges.filter (·.target = e.target) := List.mem_filter.mpr ⟨he, by simp⟩
  obtain ⟨f, hf⟩ := List.length_eq_one_iff.mp
    (le_antisymm (h.singleFed _ hb) (List.length_pos_of_mem hmem))
  rw [hf, List.mem_singleton] at hmem
  rw [hf, hmem]

theorem WellWired.feed_unique (h : WellWired edges subCuIds) {e e' : Edge} (he : e ∈ edges)
    (he' : e' ∈ edges) (hb : e.target ∈ subCuIds) (heq : e'.target = e.target) : e' = e := by
  have hmem : e' ∈ edges.filter (·.target = e.target) :=
    List.mem_filter.mpr ⟨he', by simpa using heq⟩
  rw [h.feeds_eq he hb] at hmem
  exact List.mem_singleton.mp hmem

/-- An edge into a board of the unit comes from the unit or from such a board, not from both. -/
theorem WellWired.target_mem (h : WellWired edges subCuIds) {e : Edge} (he : e ∈ edges)
    (hb : e.target ∈ subCuIds) :
    e.target ∈ boardsOfUnit edges subCuIds ↔
      e.isUnitFeed subCuIds ∨ e.source ∈ boardsOfUnit edges subCuIds := by
  simp only [mem_boardsOfUnit]
  constructor
  · rintro ⟨-, e₀, he₀, hfeed, hpath⟩
    rcases Relation.ReflTransGen.cases_tail hpath with heq | ⟨b, hpath, hstep⟩
    · rw [h.feed_unique he he₀ hb heq.symm] at hfeed
      exact Or.inl hfeed
    · obtain ⟨e₁, he₁, hsource, htarget, -⟩ := hstep
      rw [h.feed_unique he he₁ hb htarget] at hsource
      refine Or.inr ⟨?_, e₀, he₀, hfeed, hsource ▸ hpath⟩
      rw [hsource]
      rcases Relation.ReflTransGen.cases_tail hpath with heq | ⟨_, -, hlast⟩
      · exact heq ▸ isUnitFeed_target hfeed
      · obtain ⟨_, -, -, -, hmem⟩ := hlast
        exact hmem
  · rintro (hfeed | ⟨hsource, e₀, he₀, hfeed, hpath⟩)
    · exact ⟨hb, e, he, hfeed, Relation.ReflTransGen.refl⟩
    · exact ⟨hb, e₀, he₀, hfeed, hpath.tail ⟨e, he, rfl, rfl, hb⟩⟩

/-- Each board of the unit has its feed. -/
theorem exists_feed {b : String} (hb : b ∈ boardsOfUnit edges subCuIds) :
    ∃ e ∈ edges, e.target = b := by
  obtain ⟨-, e₀, he₀, -, hpath⟩ := mem_boardsOfUnit.mp hb
  rcases Relation.ReflTransGen.cases_tail hpath with heq | ⟨_, -, e, he, -, htarget, -⟩
  · exact ⟨e₀, he₀, heq.symm⟩
  · exact ⟨e, he, htarget⟩

/-- The total of a board, as the sum over its one feed. -/
theorem sum_feed (h : WellWired edges subCuIds) (φ : String → ℚ) {b : String}
    (hb : b ∈ boardsOfUnit edges subCuIds) :
    ((edges.filter fun e => e.target = b).map fun e => φ e.target).sum = φ b := by
  obtain ⟨e, he, rfl⟩ := exists_feed hb
  rw [h.feeds_eq he (mem_boardsOfUnit.mp hb).1]
  simp

/-- In a steady canvas the total of a board of the unit is what its circuits are to carry. -/
theorem total_eq_sum_carried (h : WellWired edges subCuIds) (hsteady : Steady edges subCuIds)
    {b : String} (hb : b ∈ boardsOfUnit edges subCuIds) :
    (totalOf edges subCuIds b).kw =
      ((edges.filter fun c => c.source = b).map fun c => (carried edges subCuIds c).kw).sum := by
  obtain ⟨e, he, rfl⟩ := exists_feed hb
  rw [totalOf_eq h.noLoop, ← hsteady e he (mem_boardsOfUnit.mp hb).1, foldl_add_kw]
  exact zero_add _

/-- The feeds between the boards cancel: the unit's own feeds carry what the loads of the boards
draw. -/
theorem sum_unitFeeds (h : WellWired edges subCuIds) (hsteady : Steady edges subCuIds) :
    (edges.map fun e =>
        if e.isUnitFeed subCuIds then (totalOf edges subCuIds e.target).kw else 0).sum =
      ∑ b ∈ boardsOfUnit edges subCuIds,
        ((loadCircuits edges subCuIds b).map fun c => (c.fed edges subCuIds).kw).sum := by
  classical
  let S := boardsOfUnit edges subCuIds
  let T (e : Edge) : ℚ := (totalOf edges subCuIds e.target).kw
  have hloads : ∑ b ∈ S, ((loadCircuits edges subCuIds b).map fun c =>
      (c.fed edges subCuIds).kw).sum =
        (edges.map fun c => if c.source ∈ S then
          (if c.target ∉ subCuIds then (c.fed edges subCuIds).kw else 0) else 0).sum := by
    rw [← sum_fibres S Edge.source]
    refine Finset.sum_congr rfl fun b _ => ?_
    rw [← sum_filter_eq, List.filter_filter]
    unfold loadCircuits
    congr 2
    exact List.filter_congr fun c _ => by simp [Bool.and_comm]
  have hcarried : ∑ b ∈ S, (totalOf edges subCuIds b).kw =
      (edges.map fun c => if c.source ∈ S then
        (if c.target ∉ subCuIds then (c.fed edges subCuIds).kw else 0) else 0).sum +
      (edges.map fun c => if c.source ∈ S then
        (if c.target ∈ subCuIds then T c else 0) else 0).sum := by
    rw [Finset.sum_congr rfl fun b hb => total_eq_sum_carried h hsteady hb,
      sum_fibres S Edge.source, ← List.sum_map_add]
    congr 1
    refine List.map_congr_left fun c _ => ?_
    by_cases hsource : c.source ∈ S
    · simp only [if_pos hsource]
      by_cases htarget : c.target ∈ subCuIds
      · simp only [carried, htarget, not_true_eq_false, if_true, if_false, zero_add, T]
      · simp only [carried, htarget, not_false_eq_true, if_true, if_false, add_zero]
        rw [fed_kw_of_not_feed htarget, remainderAt_eq]
        rfl
    · simp only [if_neg hsource, add_zero]
  have hfeeds : ∑ b ∈ S, (totalOf edges subCuIds b).kw =
      (edges.map fun e => if e.isUnitFeed subCuIds then T e else 0).sum +
      (edges.map fun c => if c.source ∈ S then
        (if c.target ∈ subCuIds then T c else 0) else 0).sum := by
    rw [← Finset.sum_congr rfl fun b hb => sum_feed h (fun b => (totalOf edges subCuIds b).kw) hb,
      sum_fibres S Edge.target, ← List.sum_map_add]
    congr 1
    refine List.map_congr_left fun e he => ?_
    by_cases hb : e.target ∈ subCuIds
    · rw [if_pos hb]
      by_cases hfeed : e.isUnitFeed subCuIds
      · have hsource : e.source ∉ S := fun hmem =>
          h.unit (h.feed_source hfeed ▸ (mem_boardsOfUnit.mp hmem).1)
        rw [if_pos ((h.target_mem he hb).mpr (Or.inl hfeed)), if_pos hfeed, if_neg hsource,
          add_zero]
      · rw [if_neg hfeed, zero_add]
        have hiff : e.target ∈ S ↔ e.source ∈ S :=
          (h.target_mem he hb).trans (or_iff_right hfeed)
        exact if_congr hiff rfl rfl
    · have htarget : e.target ∉ S := fun hmem => hb (mem_boardsOfUnit.mp hmem).1
      have hfeed : ¬ e.isUnitFeed subCuIds := fun hfeed => hb (isUnitFeed_target hfeed)
      rw [if_neg htarget, if_neg hfeed, if_neg hb, ite_self, add_zero]
  rw [hloads]
  linarith

end Boards

/-! ## The flows of the unit -/

section Unit

variable {edges : List Edge} {subCuIds : List String}

theorem intoUnit_of_not_atUnit {e : Edge} (h : e.atUnit = false) : e.intoUnit = 0 := by
  unfold Edge.atUnit at h
  unfold Edge.intoUnit
  split
  · rfl
  · rename_i hnot
    obtain ⟨hid, htariff⟩ := not_or.mp hnot
    simp only [Bool.and_eq_false_iff, Bool.or_eq_false_iff, beq_eq_false_iff_ne,
      bne_eq_false_iff_eq, hid, htariff, Bool.not_false, reduceCtorEq, or_false] at h
    rw [if_neg h.1, if_neg h.2]

/-- What comes into the unit, by the kind of the edge. -/
theorem sum_intoUnit (l : List Edge) (subCuIds : List String) :
    (l.map Edge.intoUnit).sum =
      ((l.filter (·.isSupply subCuIds)).map Edge.intoUnit).sum +
      ((l.filter (·.isUnitLoad subCuIds)).map Edge.intoUnit).sum +
      ((l.filter (·.isUnitFeed subCuIds)).map Edge.intoUnit).sum := by
  have hsplit (e : Edge) : e.intoUnit =
      (if e.isSupply subCuIds then e.intoUnit else 0) +
      (if e.isUnitLoad subCuIds then e.intoUnit else 0) +
      (if e.isUnitFeed subCuIds then e.intoUnit else 0) := by
    unfold Edge.isSupply Edge.isUnitLoad Edge.isUnitFeed
    cases hunit : e.atUnit with
    | false => simp [intoUnit_of_not_atUnit hunit]
    | true =>
      by_cases htarget : e.target ∈ subCuIds
      · simp [htarget]
      · cases (isSupplyHandle e.unitHandle || e.source ∈ subCuIds) <;> simp [htarget]
  rw [List.map_congr_left fun e _ => hsplit e, List.sum_map_add, List.sum_map_add]
  simp only [← sum_filter_eq, Bool.decide_eq_true]

theorem filter_derived (p : Edge → Bool) (hp : ∀ e : Edge, p e.wiring = p e) :
    (edges.map (·.derived edges subCuIds)).filter p =
      (edges.filter p).map (·.derived edges subCuIds) := by
  rw [List.filter_map]
  congr 1
  refine List.filter_congr fun e _ => ?_
  show p (e.derived edges subCuIds) = p e
  rw [← hp, derived_wiring, hp]

theorem kw_derived {e : Edge} (h : e.id ≠ unallocatedEdgeId) :
    (e.derived edges subCuIds).kw = (e.fed edges subCuIds).kw := by
  rw [derived_of_ne h]

theorem rawKwOf_derived :
    ((edges.map (·.derived edges subCuIds)).map Edge.intoUnit).sum =
      rawKwOf (edges.map (·.fed edges subCuIds)) := by
  rw [← rawKwOf_eq_sum]
  refine rawKwOf_congr fun e _ => ?_
  by_cases hid : e.id = unallocatedEdgeId
  · rw [intoUnit_of_eq, intoUnit_of_eq]
    · rw [fed_id, hid]
    · rw [derived_id, hid]
  · rw [derived_of_ne hid]

/-- A feed of the unit brings in its board's total, which is negative while the board draws. -/
theorem intoUnit_derived (h : WellWired edges subCuIds) {e : Edge} (he : e ∈ edges)
    (hfeed : e.isUnitFeed subCuIds) :
    (e.derived edges subCuIds).intoUnit = (totalOf edges subCuIds e.target).kw := by
  have htarget := isUnitFeed_target hfeed
  have hid := h.id_ne he (Or.inl htarget)
  have hsource := h.feed_source hfeed
  have htariff : isTariffEdge (e.derived edges subCuIds) = false := by
    have hsame := tariff_of_wiring
      (derived_wiring e : (e.derived edges subCuIds).wiring = e.wiring)
    unfold Edge.isUnitFeed Edge.atUnit at hfeed
    simp only [Bool.and_eq_true, Bool.not_eq_true'] at hfeed
    exact hsame.trans hfeed.1.2
  have hne : e.target ≠ consumerUnitId := fun heq => h.unit (heq ▸ htarget)
  unfold Edge.intoUnit
  rw [derived_id, derived_target, derived_source, htariff, if_neg (by simpa using hid), if_neg hne,
    if_pos hsource, kw_derived hid, kw_of_data (fed_kw_of_feed htarget)]

/-- In a steady canvas power is conserved. -/
theorem conserves_of_steady (h : WellWired edges subCuIds) (hsteady : Steady edges subCuIds) :
    Conserves edges subCuIds (edges.map (·.derived edges subCuIds)) := by
  obtain ⟨u, hu, -⟩ := h.unallocated
  have hid : u.id = unallocatedEdgeId := by
    have hmem : u ∈ edges.filter (·.id = unallocatedEdgeId) := by
      rw [hu]
      exact List.mem_singleton_self u
    simpa using (List.mem_filter.mp hmem).2
  have hdata : u.derived edges subCuIds =
      { u.fed edges subCuIds with data := some { (u.fed edges subCuIds).data.getD {} with
        kw := some (-max 0 (rawKwOf (edges.map (·.fed edges subCuIds))))
        rawKw := some (rawKwOf (edges.map (·.fed edges subCuIds))) } } := by
    apply setUnallocated_of_eq
    rw [fed_id, hid]
  refine ⟨u.derived edges subCuIds, rawKwOf (edges.map (·.fed edges subCuIds)), ?_, ?_, ?_, ?_⟩
  · rw [filter_derived _ fun e => rfl, hu]
    rfl
  · rw [hdata]
    rfl
  · rw [hdata]
    rfl
  · have hsum := sum_intoUnit (edges.map (·.derived edges subCuIds)) subCuIds
    have hfeeds : (((edges.map (·.derived edges subCuIds)).filter (·.isUnitFeed subCuIds)).map
        Edge.intoUnit).sum =
          ∑ b ∈ boardsOfUnit edges subCuIds,
            ((loadCircuits edges subCuIds b).map fun c => (c.fed edges subCuIds).kw).sum := by
      rw [← sum_unitFeeds h hsteady, ← sum_filter_eq, filter_derived _ fun e => rfl, List.map_map]
      simp only [Bool.decide_eq_true]
      congr 1
      refine List.map_congr_left fun e he => ?_
      obtain ⟨hmem, hfeed⟩ := List.mem_filter.mp he
      exact intoUnit_derived h hmem hfeed
    have hboards : ∑ b ∈ boardsOfUnit edges subCuIds,
        ((loadCircuits (edges.map (·.derived edges subCuIds)) subCuIds b).map fun c => -c.kw).sum =
          -∑ b ∈ boardsOfUnit edges subCuIds,
            ((loadCircuits edges subCuIds b).map fun c => (c.fed edges subCuIds).kw).sum := by
      rw [← Finset.sum_neg_distrib]
      refine Finset.sum_congr rfl fun b hb => ?_
      rw [loadCircuits, filter_derived _ fun e => rfl, List.map_map, List.sum_neg, List.map_map]
      congr 1
      refine List.map_congr_left fun c hc => ?_
      obtain ⟨hmem, hboard⟩ := List.mem_filter.mp hc
      simp only [decide_eq_true_eq] at hboard
      have hsource : c.source ∈ subCuIds := hboard.1 ▸ (mem_boardsOfUnit.mp hb).1
      exact congrArg Neg.neg (kw_derived (h.id_ne hmem (Or.inr hsource)))
    have hloads : (((edges.map (·.derived edges subCuIds)).filter (·.isUnitLoad subCuIds)).map
        fun e => -e.intoUnit).sum =
          -(((edges.map (·.derived edges subCuIds)).filter (·.isUnitLoad subCuIds)).map
            Edge.intoUnit).sum := by
      rw [List.sum_neg, List.map_map]
      rfl
    rw [rawKwOf_derived, hfeeds] at hsum
    rw [hboards, hloads, hsum]
    ring

end Unit

/-- The flows are derived, and they stay as they are when they are derived again and conserve power,
if and only if the circuits of each fed board add up to the same once those that share a handle with
feeds carry what the feeds leave them. -/
theorem derived_again_iff {edges : List Edge} {subCuIds : List String}
    (h : WellWired edges subCuIds) :
    ∃ out, withDerivedFlows edges subCuIds = some out ∧
      ((withDerivedFlows out subCuIds = some out ∧ Conserves edges subCuIds out) ↔
        Steady edges subCuIds) := by
  refine ⟨_, withDerivedFlows_eq h.noLoop, ?_⟩
  rw [withDerivedFlows_again_iff h]
  exact ⟨fun hboth => hboth.1, fun hsteady => ⟨hsteady, conserves_of_steady h hsteady⟩⟩

/-- The annexe and the shed have their loads on circuits of their own. -/
def annexeOfUnit : List Edge := annexe.map (fun e =>
    if e.source = "meter" ∧ e.target = "annexe" then
      meteredEdge consumerUnitId "circuit_1" "annexe" "power-in" 0
    else e) ++ [unallocatedEdge]

theorem derived_again_annexe :
    ∃ out, withDerivedFlows annexeOfUnit ["annexe", "shed"] = some out ∧
      withDerivedFlows out ["annexe", "shed"] = some out ∧
      Conserves annexeOfUnit ["annexe", "shed"] out := by
  have hloop : NoLoop annexeOfUnit ["annexe", "shed"] :=
    noLoop_of_rank (fun b => if b = consumerUnitId then 2 else if b = "annexe" then 1 else 0)
      (by decide +kernel)
  have hwired : WellWired annexeOfUnit ["annexe", "shed"] :=
    { noLoop := hloop
      singleFed := by decide +kernel
      unallocated := ⟨unallocatedEdge, by decide +kernel, rfl⟩
      unit := by decide
      remainder := by decide }
  obtain ⟨out, hout, hiff⟩ := derived_again_iff hwired
  exact ⟨out, hout, hiff.mpr (by decide +kernel)⟩

/-- The canvas with the shared circuit, and its Unallocated edge. -/
def sharedCircuitOfUnit : List Edge := sharedCircuit ++ [unallocatedEdge]

/-- The heater's remainder is not what the annexe was summed up with, so the annexe's feed goes from
4 kW to 3 kW when the flows are derived again. -/
theorem shared_circuit_changes :
    ¬ ∀ (edges : List Edge) (subCuIds : List String), WellWired edges subCuIds →
      ∃ out, withDerivedFlows edges subCuIds = some out ∧
        withDerivedFlows out subCuIds = some out ∧ Conserves edges subCuIds out := by
  intro h
  have hloop : NoLoop sharedCircuitOfUnit ["annexe", "shed"] :=
    noLoop_of_rank (fun b => if b = consumerUnitId then 2 else if b = "annexe" then 1 else 0)
      (by decide +kernel)
  have hwired : WellWired sharedCircuitOfUnit ["annexe", "shed"] :=
    { noLoop := hloop
      singleFed := by decide +kernel
      unallocated := ⟨unallocatedEdge, by decide +kernel, rfl⟩
      unit := by decide
      remainder := by decide }
  obtain ⟨out, hout, hagain, -⟩ := h sharedCircuitOfUnit ["annexe", "shed"] hwired
  have hchanges : (withDerivedFlows sharedCircuitOfUnit ["annexe", "shed"]).bind
      (withDerivedFlows · ["annexe", "shed"]) ≠
        withDerivedFlows sharedCircuitOfUnit ["annexe", "shed"] := by
    decide +kernel
  rw [hout, Option.bind_some, hagain] at hchanges
  exact hchanges rfl

end HomeEnergyManager.Canvas
