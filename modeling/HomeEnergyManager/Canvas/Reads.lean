import HomeEnergyManager.Canvas.Balance

/-! # What the derivation reads

The feeds depend on the wiring and on the flows of the circuits of fed boards. The remainders depend
on the wiring, the feeds and the readings that are stamped on the edges. So two lists of edges with
the same wiring and readings, in which the boards add up to the same, have the same feeds and
remainders.
-/

namespace HomeEnergyManager.Canvas

open OrderedMap

/-- An edge with its reading alone. -/
def Edge.skeleton (e : Edge) : Edge := { e with data := some { meteredKw := e.meteredKw } }

section Wiring

variable {edges out : List Edge} {subCuIds : List String}

theorem mem_wiring (h : out.map Edge.wiring = edges.map Edge.wiring) {e' : Edge} (he' : e' ∈ out) :
    ∃ e ∈ edges, e.wiring = e'.wiring := by
  have hmem : e'.wiring ∈ out.map Edge.wiring := List.mem_map_of_mem he'
  rw [h] at hmem
  exact List.mem_map.mp hmem

theorem wiring_of_skeleton (h : out.map Edge.skeleton = edges.map Edge.skeleton) :
    out.map Edge.wiring = edges.map Edge.wiring := by
  have hcomp (l : List Edge) : l.map Edge.wiring = (l.map Edge.skeleton).map Edge.wiring := by
    rw [List.map_map]
    rfl
  rw [hcomp out, h, ← hcomp edges]

theorem feeds_of_wiring (h : out.map Edge.wiring = edges.map Edge.wiring) {b c : String}
    (hbc : Feeds out subCuIds b c) : Feeds edges subCuIds b c := by
  obtain ⟨e', he', rfl, rfl, htarget⟩ := hbc
  obtain ⟨e, he, heq⟩ := mem_wiring h he'
  exact ⟨e, he, source_of_wiring heq, target_of_wiring heq, htarget⟩

theorem noLoop_of_wiring (h : out.map Edge.wiring = edges.map Edge.wiring)
    (hloop : NoLoop edges subCuIds) : NoLoop out subCuIds := by
  intro b hb
  have hle : Feeds out subCuIds ≤ Feeds edges subCuIds := fun _ _ => feeds_of_wiring h
  exact hloop b (Relation.TransGen.mono hle b b hb)

/-- Where every fed board adds up to its total in the other list, it has the same total there. -/
theorem totalOf_eq_of_sums (hwiring : out.map Edge.wiring = edges.map Edge.wiring)
    (hloop : NoLoop edges subCuIds)
    (hsum : ∀ e ∈ edges, e.target ∈ subCuIds →
      sumOfCircuits out subCuIds (totalOf edges subCuIds) e.target =
        totalOf edges subCuIds e.target)
    {e : Edge} (he : e ∈ edges) (htarget : e.target ∈ subCuIds) :
    totalOf out subCuIds e.target = totalOf edges subCuIds e.target := by
  have hids : ∀ a b, Feeds edges subCuIds a b → b ∈ subCuIds := fun a b hab => by
    obtain ⟨-, -, -, -, hb⟩ := hab
    exact hb
  have hboard : ∀ b, (∃ e ∈ edges, e.target = b) → b ∈ subCuIds →
      totalOf out subCuIds b = totalOf edges subCuIds b := by
    refine Acyclic.ind hloop hids fun b ih hfed hb => ?_
    obtain ⟨e, he, rfl⟩ := hfed
    rw [totalOf_eq (noLoop_of_wiring hwiring hloop), ← hsum e he hb]
    apply sumOfCircuits_congr
    intro c hc
    have hbc := feeds_of_wiring hwiring hc
    obtain ⟨e', he', -, htarget', hmem⟩ := id hbc
    exact ih c hbc ⟨e', he', htarget'⟩ hmem
  exact hboard e.target ⟨e, he, rfl⟩ htarget

theorem toSubCusOf_congr (hwiring : out.map Edge.wiring = edges.map Edge.wiring)
    (htotal : ∀ e ∈ edges, e.target ∈ subCuIds →
      totalOf out subCuIds e.target = totalOf edges subCuIds e.target) :
    toSubCusOf out subCuIds = toSubCusOf edges subCuIds := by
  have hmap (l : List Edge) (total : String → Flow) :
      (l.filter (·.target ∈ subCuIds)).foldl (fun m e =>
          update e.sourceKey (fun o => o.getD 0 - (total e.target).kw) m) [] =
        ((l.map Edge.wiring).filter (·.target ∈ subCuIds)).foldl (fun m e =>
          update e.sourceKey (fun o => o.getD 0 - (total e.target).kw) m) [] := by
    rw [List.filter_map, List.foldl_map]
    rfl
  unfold toSubCusOf
  rw [hmap out, hwiring, ← hmap edges]
  apply List.foldl_ext
  intro m e he
  obtain ⟨hmem, htarget⟩ := List.mem_filter.mp he
  rw [htotal e hmem (by simpa using htarget)]

/-- The remainders read the edges without their flows. -/
theorem remainderKwOf_skeleton (edges : List Edge) (subCuIds : List String)
    (toSubCus : List (String × ℚ)) :
    remainderKwOf (edges.map Edge.skeleton) subCuIds toSubCus =
      remainderKwOf edges subCuIds toSubCus := by
  let bare (x : EdgeEnd) : EdgeEnd := { x with edge := x.edge.skeleton }
  have hends : otherEnds (edges.map Edge.skeleton) subCuIds =
      (otherEnds edges subCuIds).map bare := by
    unfold otherEnds
    rw [List.filter_map, List.flatMap_map, List.map_flatMap]
    rfl
  have hsiblings : siblingsOf (edges.map Edge.skeleton) subCuIds toSubCus =
      (siblingsOf edges subCuIds toSubCus).map fun p => (p.1, p.2.map bare) := by
    unfold siblingsOf
    rw [hends, List.filter_map]
    refine foldl_update_map (List.map bare) bare (fun _ => rfl) (fun x o => ?_) _ []
    cases o with
    | none => rfl
    | some l => simp
  have hremainder (p : String × List EdgeEnd) :
      remainderOf toSubCus (p.1, p.2.map bare) = remainderOf toSubCus p := by
    obtain ⟨key, l⟩ := p
    rcases l with _ | ⟨x, _ | ⟨y, l⟩⟩ <;> rfl
  unfold remainderKwOf
  rw [hsiblings, List.filterMap_map]
  congr 1
  exact List.filterMap_congr fun p _ => hremainder p

theorem remainderAt_congr (hskeleton : out.map Edge.skeleton = edges.map Edge.skeleton)
    (htotal : ∀ e ∈ edges, e.target ∈ subCuIds →
      totalOf out subCuIds e.target = totalOf edges subCuIds e.target) :
    remainderAt out subCuIds = remainderAt edges subCuIds := by
  funext id
  unfold remainderAt
  rw [toSubCusOf_congr (wiring_of_skeleton hskeleton) htotal, ← remainderKwOf_skeleton out,
    hskeleton, remainderKwOf_skeleton]

end Wiring

end HomeEnergyManager.Canvas
