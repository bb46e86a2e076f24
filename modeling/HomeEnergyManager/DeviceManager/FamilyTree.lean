import Mathlib.Data.Bool.AllAny
import Mathlib.Logic.Function.Iterate
import HomeEnergyManager.DeviceManager.Parents

/-! # Endpoints that form a tree

Matter's endpoints form a tree below endpoint 0, and an endpoint lists its children and maybe more
of those below it. Where several list an endpoint, the depths need not tell the nearest from the
others.

Reference: `firmware/main/managers/device_manager.cpp`.
-/

namespace HomeEnergyManager.DeviceManager

/-- `x` is below `p` in the tree whose direct parents are given. -/
def Below (parent : UInt16 → UInt16) (x p : UInt16) : Prop :=
  ∃ k, parent^[k + 1] x = p ∧ ∀ j ≤ k, parent^[j] x ≠ 0

/-- The endpoints are a tree below endpoint 0, each lists its children, and what else it lists is
below it. -/
structure FamilyTree (d : Device) (parent : UInt16 → UInt16) : Prop where
  unique : d.endpointIds.Nodup
  root : 0 ∈ d.endpointIds
  rooted : ∀ x ∈ d.endpointIds, x ≠ 0 → parent x ∈ d.endpointIds ∧ Below parent x 0
  children : ∀ x ∈ d.endpointIds, x ≠ 0 → d.Lists (parent x) x
  others : ∀ p x, d.Lists p x → x ∈ d.endpointIds ∧ Below parent x p

/-- Every endpoint but 0 has its direct parent. -/
def TrueParents (d : Device) (parent : UInt16 → UInt16) : Prop :=
  ∀ ep ∈ d.endpoints, ep.endpointId ≠ 0 → ep.parentEndpointId = parent ep.endpointId

variable {d : Device} {parent : UInt16 → UInt16} {p q x : UInt16}

theorem mem_endpointIds : x ∈ d.endpointIds ↔ ∃ ep ∈ d.endpoints, ep.endpointId = x :=
  List.mem_map

/-- The parents are right if and only if no other that lists an endpoint is farther from endpoint 0
than its direct parent, or as far and earlier in the store. -/
theorem trueParents_iff (h : FamilyTree d parent) :
    TrueParents d.resolveParents parent ↔
      ∀ x ∈ d.endpointIds, x ≠ 0 → ∀ q, d.Lists q x → ¬ d.Beats q (parent x) := by
  have hparent : ∀ x ∈ d.endpointIds, x ≠ 0 →
      (d.parentFor x = parent x ↔ ∀ q, d.Lists q x → ¬ d.Beats q (parent x)) := by
    intro x hx hzero
    have hlists := h.children x hx hzero
    rw [parentFor_eq_iff h.unique ⟨_, hlists⟩]
    exact and_iff_right hlists
  constructor
  · intro htrue x hx hzero
    obtain ⟨ep, hep, rfl⟩ := mem_endpointIds.mp hx
    refine (hparent _ hx hzero).mp ?_
    rw [resolveParents_eq] at htrue
    exact htrue _ (List.mem_map.mpr ⟨ep, hep, rfl⟩) hzero
  · intro hnone ep' hep' hzero
    rw [resolveParents_eq] at hep'
    obtain ⟨ep, hep, rfl⟩ := List.mem_map.mp hep'
    have hx : ep.endpointId ∈ d.endpointIds := mem_endpointIds.mpr ⟨ep, hep, rfl⟩
    exact (hparent _ hx hzero).mpr (hnone _ hx hzero)

/-! ## The full family at endpoint 0 -/

theorem mem_partsOf (hunique : d.endpointIds.Nodup) : x ∈ d.partsOf p ↔ d.Lists p x := by
  rw [Device.partsOf]
  constructor
  · intro hx
    cases hfind : d.endpoints.find? (·.endpointId = p) with
    | none =>
      rw [hfind] at hx
      exact absurd hx List.not_mem_nil
    | some ep =>
      rw [hfind] at hx
      have hid := List.find?_some hfind
      exact ⟨ep, List.mem_of_find?_eq_some hfind, of_decide_eq_true hid, hx⟩
  · rintro ⟨ep, hep, rfl, hx⟩
    have hfind : d.endpoints.find? (·.endpointId = ep.endpointId) = some ep := by
      obtain ⟨l₁, l₂, hsplit⟩ := List.append_of_mem hep
      rw [Device.endpointIds, hsplit, List.map_append, List.map_cons] at hunique
      have hnot : l₁.find? (·.endpointId = ep.endpointId) = none := by
        rw [List.find?_eq_none]
        intro e he hid
        refine (List.nodup_append.mp hunique).2.2 _ (List.mem_map_of_mem he) _
          List.mem_cons_self ?_
        exact of_decide_eq_true hid
      rw [hsplit, List.find?_append, hnot, Option.none_or, List.find?_cons_of_pos (by simp)]
    rw [hfind]
    exact hx

/-- What endpoint 0 lists is one listing away from it. -/
theorem listDist_eq_one (hunique : d.endpointIds.Nodup) (hx : x ≠ 0) (h : d.Lists 0 x) :
    d.listDist x = 1 := by
  refine listDist_of_isDist ⟨.step .root ((mem_partsOf hunique).mpr h), fun m hm => ?_⟩
  cases hm with
  | root => exact absurd rfl hx
  | step => omega

/-- Where endpoint 0 lists all others, as the full family does, the order of the store decides. -/
theorem beats_iff_of_full_family (hunique : d.endpointIds.Nodup)
    (hfull : ∀ x ∈ d.endpointIds, x ≠ 0 → d.Lists 0 x) (hp : p ∈ d.endpointIds ∧ p ≠ 0)
    (hq : q ∈ d.endpointIds ∧ q ≠ 0) :
    d.Beats q p ↔ d.endpointIds.idxOf q < d.endpointIds.idxOf p := by
  rw [Device.Beats, listDist_eq_one hunique hp.2 (hfull p hp.1 hp.2),
    listDist_eq_one hunique hq.2 (hfull q hq.1 hq.2)]
  simp

/-! ## A chain of endpoints -/

/-- A chain of the endpoints 0, 1, 2 and 3, with what each lists. -/
def chain (parts : List (List UInt16)) : Device where
  nodeId := 10000
  endpoints := (parts.zip [0, 1, 2, 3]).map fun e => { endpointId := e.2, parts := e.1 }

/-- A check that goes over the lists, not over every endpoint id. -/
theorem familyTree_of_all (bound : ℕ) (hunique : d.endpointIds.Nodup) (hroot : 0 ∈ d.endpointIds)
    (hrooted : d.endpointIds.all fun x => x ≠ 0 → parent x ∈ d.endpointIds ∧
      ∃ k < bound, parent^[k + 1] x = 0 ∧ ∀ j ≤ k, parent^[j] x ≠ 0)
    (hchildren : d.endpointIds.all fun x => x ≠ 0 →
      ∃ ep ∈ d.endpoints, ep.endpointId = parent x ∧ x ∈ ep.parts)
    (hothers : d.endpoints.all fun ep => ep.parts.all fun x => x ∈ d.endpointIds ∧
      ∃ k < bound, parent^[k + 1] x = ep.endpointId ∧ ∀ j ≤ k, parent^[j] x ≠ 0) :
    FamilyTree d parent where
  unique := hunique
  root := hroot
  rooted x hx hzero := by
    obtain ⟨hmem, k, -, hk⟩ := List.all_iff_forall_prop.mp hrooted x hx hzero
    exact ⟨hmem, k, hk⟩
  children := by
    have hlisted := List.all_iff_forall_prop.mp hchildren
    exact hlisted
  others := by
    rintro p x ⟨ep, hep, rfl, hx⟩
    have hparts := List.all_eq_true.mp hothers ep hep
    obtain ⟨hmem, k, -, hk⟩ := List.all_iff_forall_prop.mp hparts x hx
    exact ⟨hmem, k, hk⟩

/-- Where each lists its child alone, the parents are right. -/
theorem trueParents_children :
    TrueParents (chain [[1], [2], [3], []]).resolveParents (· - 1) := by
  refine (trueParents_iff (familyTree_of_all 3 (by decide) (by decide) (by decide) (by decide)
    (by decide))).mpr ?_
  rintro x hx hzero q ⟨ep, hep, rfl, hq⟩
  have hsame : ∀ ep ∈ (chain [[1], [2], [3], []]).endpoints,
      ep.parts.all fun x => ep.endpointId = x - 1 := by decide
  rw [List.all_iff_forall_prop.mp (hsame ep hep) x hq]
  rintro (hfar | ⟨-, hless⟩)
  · exact lt_irrefl _ hfar
  · exact lt_irrefl _ hless

/-- With full families, endpoint 3 comes below endpoint 1 instead of 2. -/
theorem full_family_wrong : ¬ ∀ (d : Device) (parent : UInt16 → UInt16), FamilyTree d parent →
    TrueParents d.resolveParents parent := by
  intro h
  have htree : FamilyTree (chain [[1, 2, 3], [2, 3], [3], []]) (· - 1) :=
    familyTree_of_all 3 (by decide) (by decide) (by decide) (by decide) (by decide)
  have htrue := h _ _ htree
  have hwrong : ¬ ∀ ep ∈ (chain [[1, 2, 3], [2, 3], [3], []]).resolveParents.endpoints,
      ep.endpointId ≠ 0 → ep.parentEndpointId = ep.endpointId - 1 := by decide
  exact hwrong htrue

end HomeEnergyManager.DeviceManager
