import Mathlib.Data.List.Nodup
import Mathlib.Order.Nat
import Mathlib.Order.Lattice.Nat
import HomeEnergyManager.Lib.BreadthFirst
import HomeEnergyManager.Lib.FirstMax
import HomeEnergyManager.DeviceManager.Store

/-! # The parents of a device's endpoints

`device_manager_resolve_parents` gives an endpoint the deepest of those that list it. The depth that
its search finds is the least number of listings that lead from endpoint 0, and of several deepest
the first in the store is taken.

Reference: `firmware/main/managers/device_manager.cpp`.
-/

namespace HomeEnergyManager.DeviceManager

variable {d : Device} {x p q : UInt16}

/-! ## Listings -/

/-- The parts of the endpoint that `find_endpoint` finds. -/
def Device.partsOf (d : Device) (id : UInt16) : List UInt16 :=
  (d.endpoints.find? (·.endpointId = id)).elim [] (·.parts)

/-- The endpoint `p` lists `x` among its parts. -/
def Device.Lists (d : Device) (p x : UInt16) : Prop :=
  ∃ ep ∈ d.endpoints, ep.endpointId = p ∧ x ∈ ep.parts

/-- The ids of the endpoints, as they are in the store. -/
def Device.endpointIds (d : Device) : List UInt16 := d.endpoints.map (·.endpointId)

/-- The least number of listings that lead from endpoint 0 to an endpoint; 0 if none do. -/
noncomputable def Device.listDist (d : Device) (x : UInt16) : ℕ :=
  sInf {n | BreadthFirst.Walk d.partsOf 0 n x}

/-- `q` is farther from endpoint 0 than `p`, or as far and earlier in the store. -/
def Device.Beats (d : Device) (q p : UInt16) : Prop :=
  d.listDist p < d.listDist q ∨
    d.listDist p = d.listDist q ∧ d.endpointIds.idxOf q < d.endpointIds.idxOf p

theorem mem_claimants : p ∈ d.claimants x ↔ d.Lists p x := by
  simp only [Device.claimants, Device.Lists, List.mem_flatMap, List.mem_map, List.mem_filter,
    decide_eq_true_eq]
  constructor
  · rintro ⟨ep, hep, part, ⟨hpart, rfl⟩, rfl⟩
    exact ⟨ep, hep, rfl, hpart⟩
  · rintro ⟨ep, hep, rfl, hpart⟩
    exact ⟨ep, hep, x, ⟨hpart, rfl⟩, rfl⟩

/-! ## The search finds the distances -/

section Search

variable {s : Search}

/-- The search without the order in which the depths were found. -/
def Search.toState (s : Search) : BreadthFirst.State UInt16 where
  depth := s.depthOf
  queue := s.queue

theorem depthOf_append (s : Search) (part : UInt16) (n : ℕ) (queue : List UInt16)
    (hnone : s.depthOf part = none) :
    Search.depthOf { depth := s.depth ++ [(part, n)], queue } =
      Function.update s.depthOf part (some n) := by
  funext y
  unfold Search.depthOf at hnone ⊢
  rw [List.find?_append]
  by_cases hy : y = part
  · subst hy
    rw [Function.update_self, Option.map_eq_none_iff.mp hnone]
    simp
  · have hone : [(part, n)].find? (·.1 = y) = none := by
      simp [Ne.symm hy]
    rw [Function.update_of_ne hy, hone, Option.or_none]

theorem toState_visit (n : ℕ) (part : UInt16) :
    (s.visit n part).toState = BreadthFirst.visit n s.toState part := by
  unfold Search.visit BreadthFirst.visit
  cases hpart : s.depthOf part with
  | some k =>
    have hpart : s.toState.depth part = some k := hpart
    rw [hpart]
  | none =>
    have hpart' : s.toState.depth part = none := hpart
    rw [hpart']
    refine congrArg₂ BreadthFirst.State.mk ?_ rfl
    exact depthOf_append s part n _ hpart

theorem toState_foldl_visit (n : ℕ) (parts : List UInt16) :
    (parts.foldl (Search.visit n) s).toState =
      parts.foldl (BreadthFirst.visit n) s.toState := by
  induction parts generalizing s with
  | nil => rfl
  | cons part parts ih => rw [List.foldl_cons, List.foldl_cons, ih, toState_visit]

/-- The search of the source is the breadth-first search along the listings. -/
theorem toState_search (fuel : ℕ) :
    (d.search fuel s).toState = BreadthFirst.run d.partsOf fuel s.toState := by
  induction fuel generalizing s with
  | zero => rfl
  | succ fuel ih =>
    rw [Device.search, BreadthFirst.run]
    cases hqueue : s.queue with
    | nil =>
      have hqueue : s.toState.queue = [] := hqueue
      rw [hqueue]
    | cons cur queue =>
      have hqueue : s.toState.queue = cur :: queue := hqueue
      rw [hqueue]
      dsimp only
      rw [Device.partsOf]
      cases d.endpoints.find? (·.endpointId = cur) with
      | none => exact ih
      | some ep =>
        rw [ih, toState_foldl_visit]
        rfl

/-- A search that may go on for as many endpoints as can enter the queue empties it. -/
theorem queue_search {fuel : ℕ} (h : s.queue.length + d.unvisited s ≤ fuel) :
    (d.search fuel s).queue = [] := by
  induction fuel generalizing s with
  | zero =>
    have hqueue : s.queue.length = 0 := by omega
    exact List.length_eq_zero_iff.mp hqueue
  | succ fuel ih =>
    rw [Device.search]
    cases hqueue : s.queue with
    | nil => exact hqueue
    | cons cur queue =>
      rw [hqueue, List.length_cons] at h
      have hsame : d.unvisited { s with queue } = d.unvisited s := rfl
      dsimp only
      cases hfind : d.endpoints.find? (·.endpointId = cur) with
      | none =>
        apply ih
        dsimp only at hsame ⊢
        omega
      | some ep =>
        apply ih
        have hparts : ∀ p ∈ ep.parts, p ∈ d.allParts := fun p hp =>
          List.mem_flatMap.mpr ⟨ep, List.mem_of_find?_eq_some hfind, hp⟩
        refine (unvisited_foldl_visit hparts).trans ?_
        dsimp only at hsame ⊢
        omega

theorem toState_start :
    Search.toState { depth := [(0, 0)], queue := [0] } = BreadthFirst.start 0 := by
  refine congrArg₂ BreadthFirst.State.mk ?_ rfl
  funext x
  have hstart := BreadthFirst.depth_start (0 : UInt16) x
  refine Eq.trans ?_ hstart.symm
  by_cases hx : x = 0
  · simp [Search.depthOf, hx]
  · simp [Search.depthOf, hx, Ne.symm hx]

/-- With an endpoint 0, the depths are the distances from it. -/
theorem depthOf_depths (hzero : d.endpoints.any (·.endpointId = 0) = true) {n : ℕ} :
    d.depths.depthOf x = some n ↔ BreadthFirst.IsDist d.partsOf 0 n x := by
  have hinv : BreadthFirst.Inv d.partsOf 0 d.depths.toState := by
    rw [Device.depths, if_pos hzero, toState_search, toState_start]
    exact (BreadthFirst.Inv.start d.partsOf 0).run _
  refine hinv.depth_eq_some_iff ?_
  show d.depths.queue = []
  rw [Device.depths, if_pos hzero]
  apply queue_search
  have hle : d.unvisited { depth := [(0, 0)], queue := [0] } ≤ d.allParts.length :=
    List.length_filter_le _ _
  rw [List.length_singleton]
  omega

end Search

theorem listDist_of_isDist {n : ℕ} (h : BreadthFirst.IsDist d.partsOf 0 n x) :
    d.listDist x = n :=
  le_antisymm (Nat.sInf_le h.1) (le_csInf ⟨n, h.1⟩ fun m hm => h.2 m hm)

/-- Without an endpoint 0, no listings lead anywhere. -/
theorem walk_of_not_any (hzero : ¬ d.endpoints.any (·.endpointId = 0) = true) {n : ℕ}
    (h : BreadthFirst.Walk d.partsOf 0 n x) : n = 0 := by
  have hparts : d.partsOf 0 = [] := by
    have hfind : d.endpoints.find? (·.endpointId = 0) = none := by
      rw [List.find?_eq_none]
      intro ep hep hid
      exact hzero (List.any_eq_true.mpr ⟨ep, hep, hid⟩)
    rw [Device.partsOf, hfind]
    rfl
  have hroot : n = 0 ∧ x = 0 := by
    induction h with
    | root => exact ⟨rfl, rfl⟩
    | step _ hmem ih =>
      obtain ⟨-, rfl⟩ := ih
      rw [hparts] at hmem
      exact absurd hmem List.not_mem_nil
  exact hroot.1

/-- What the last loop takes for the depth of a claimant. -/
theorem getD_depthOf_depths (x : UInt16) : (d.depths.depthOf x).getD 0 = d.listDist x := by
  by_cases hzero : d.endpoints.any (·.endpointId = 0) = true
  · cases hx : d.depths.depthOf x with
    | some n =>
      rw [Option.getD_some]
      exact (listDist_of_isDist ((depthOf_depths hzero).mp hx)).symm
    | none =>
      rw [Option.getD_none, Device.listDist]
      have hempty : {n | BreadthFirst.Walk d.partsOf 0 n x} = ∅ := by
        refine Set.eq_empty_of_forall_notMem fun n hn => ?_
        obtain ⟨m, hm⟩ := BreadthFirst.exists_isDist hn
        rw [(depthOf_depths hzero).mpr hm] at hx
        exact absurd hx (Option.some_ne_none m)
      rw [hempty, Nat.sInf_empty]
  · have hdepth : d.depths.depthOf x = none := by
      rw [Device.depths, if_neg hzero]
      rfl
    rw [hdepth, Option.getD_none, Device.listDist]
    rcases Set.eq_empty_or_nonempty {n | BreadthFirst.Walk d.partsOf 0 n x} with hempty | hne
    · rw [hempty, Nat.sInf_empty]
    · exact (walk_of_not_any hzero (Nat.sInf_mem hne)).symm

/-! ## The deepest claimant -/

/-- The first of the greatest distance among the endpoints that list `x`. -/
def Device.IsDeepest (d : Device) (x : UInt16) (ep : Endpoint) : Prop :=
  FirstMax.IsFirstMax (fun ep => d.listDist ep.endpointId) (x ∈ ·.parts) d.endpoints ep

/-- What `resolveParents` writes into an endpoint. -/
def Device.parentFor (d : Device) (x : UInt16) : UInt16 :=
  match d.claimants x with
  | [] => kNoParent
  | claimants => deepest d.depths claimants

theorem parentFor_of_not_listed (h : ∀ p, ¬ d.Lists p x) : d.parentFor x = kNoParent := by
  have hnil : d.claimants x = [] := List.eq_nil_iff_forall_not_mem.mpr fun p hp =>
    h p (mem_claimants.mp hp)
  rw [Device.parentFor, hnil]

theorem parentFor_of_isDeepest {ep : Endpoint} (h : d.IsDeepest x ep) :
    d.parentFor x = ep.endpointId := by
  obtain ⟨l₁, l₂, hsplit, hpart, hbefore, hafter⟩ := h
  let listings : List Endpoint → List UInt16 := fun l =>
    l.flatMap fun ep => (ep.parts.filter (· = x)).map fun _ => ep.endpointId
  have hmem : ∀ l : List Endpoint, ∀ c ∈ listings l, ∃ e ∈ l, x ∈ e.parts ∧ e.endpointId = c := by
    intro l c hc
    obtain ⟨e, he, hc⟩ := List.mem_flatMap.mp hc
    obtain ⟨part, hpart, rfl⟩ := List.mem_map.mp hc
    obtain ⟨hpart, heq⟩ := List.mem_filter.mp hpart
    exact ⟨e, he, (decide_eq_true_eq.mp heq) ▸ hpart, rfl⟩
  -- the endpoint itself lists `x` at least once
  obtain ⟨n, hown⟩ : ∃ n, (ep.parts.filter (· = x)).map (fun _ => ep.endpointId) =
      ep.endpointId :: List.replicate n ep.endpointId := by
    have hne : (ep.parts.filter (· = x)).length ≠ 0 := by
      rw [Ne, List.length_eq_zero_iff, List.filter_eq_nil_iff]
      exact fun hall => hall x hpart (decide_eq_true rfl)
    refine ⟨(ep.parts.filter (· = x)).length - 1, ?_⟩
    rw [List.map_const', ← List.replicate_succ]
    congr 1
    omega
  have hclaimants : d.claimants x =
      listings l₁ ++ ep.endpointId :: (List.replicate n ep.endpointId ++ listings l₂) := by
    show listings d.endpoints = _
    rw [hsplit]
    simp only [listings, List.flatMap_append, List.flatMap_cons, hown, List.cons_append]
  let key : UInt16 → ℤ := fun c => ((d.depths.depthOf c).getD 0 : ℕ)
  have hpick := @FirstMax.foldl_pick _ _ _ key (listings l₁)
    (List.replicate n ep.endpointId ++ listings l₂) ep.endpointId (kNoParent, -1) ?_ ?_ ?_
  · have hdeepest : deepest d.depths (d.claimants x) = ep.endpointId := by
      rw [hclaimants]
      exact congrArg Prod.fst hpick
    rw [Device.parentFor]
    split
    · rename_i hnil
      rw [hnil] at hclaimants
      exact absurd hclaimants (by simp)
    · exact hdeepest
  · show (-1 : ℤ) < ((d.depths.depthOf ep.endpointId).getD 0 : ℕ)
    omega
  · intro c hc
    obtain ⟨e, he, hlists, rfl⟩ := hmem l₁ c hc
    have hlt := hbefore e he hlists
    simp only [key, getD_depthOf_depths]
    exact_mod_cast hlt
  · intro c hc
    simp only [key, getD_depthOf_depths]
    rcases List.mem_append.mp hc with hc | hc
    · rw [List.eq_of_mem_replicate hc]
    · obtain ⟨e, he, hlists, rfl⟩ := hmem l₂ c hc
      exact_mod_cast hafter e he hlists

/-- The position of an endpoint's id. -/
theorem idxOf_endpointIds {l₁ l₂ : List Endpoint} {ep : Endpoint} (hunique : d.endpointIds.Nodup)
    (hsplit : d.endpoints = l₁ ++ ep :: l₂) : d.endpointIds.idxOf ep.endpointId = l₁.length := by
  rw [Device.endpointIds, hsplit, List.map_append, List.map_cons] at hunique ⊢
  have hnot : ep.endpointId ∉ l₁.map (·.endpointId) := fun hmem =>
    (List.nodup_append.mp hunique).2.2 _ hmem _ List.mem_cons_self rfl
  rw [List.idxOf_append_of_notMem hnot, List.idxOf_cons_self, List.length_map, add_zero]

/-- The deepest of those that list an endpoint is the one that no other beats. -/
theorem isDeepest_iff (hunique : d.endpointIds.Nodup) {ep : Endpoint} (hep : ep ∈ d.endpoints) :
    d.IsDeepest x ep ↔ x ∈ ep.parts ∧ ∀ q, d.Lists q x → ¬ d.Beats q ep.endpointId := by
  constructor
  · rintro ⟨l₁, l₂, hsplit, hpart, hbefore, hafter⟩
    refine ⟨hpart, ?_⟩
    rintro q ⟨e, he, rfl, hlists⟩ hbeats
    rw [hsplit, List.mem_append, List.mem_cons] at he
    have hidx := idxOf_endpointIds hunique hsplit
    rcases he with he | rfl | he
    · have hlt : d.listDist e.endpointId < d.listDist ep.endpointId := hbefore e he hlists
      rcases hbeats with hfar | ⟨hsame, -⟩ <;> omega
    · rcases hbeats with hfar | ⟨-, hless⟩
      · exact lt_irrefl _ hfar
      · exact lt_irrefl _ hless
    · have hle : d.listDist e.endpointId ≤ d.listDist ep.endpointId := hafter e he hlists
      obtain ⟨m₁, m₂, rfl⟩ := List.append_of_mem he
      have hsplit' : d.endpoints = (l₁ ++ ep :: m₁) ++ e :: m₂ := by
        rw [hsplit, List.append_assoc, List.cons_append]
      have hidx' := idxOf_endpointIds hunique hsplit'
      rw [List.length_append, List.length_cons] at hidx'
      rcases hbeats with hfar | ⟨-, hless⟩ <;> omega
  · rintro ⟨hpart, hnone⟩
    obtain ⟨best, l₁, l₂, hsplit, hbest, hbefore, hafter⟩ : ∃ best, d.IsDeepest x best :=
      FirstMax.exists_isFirstMax ⟨ep, hep, hpart⟩
    have hmem : best ∈ d.endpoints := hsplit ▸ List.mem_append_right _ List.mem_cons_self
    have hnot := hnone _ ⟨best, hmem, rfl, hbest⟩
    have hidx := idxOf_endpointIds hunique hsplit
    have hep' := hep
    rw [hsplit, List.mem_append, List.mem_cons] at hep'
    rcases hep' with hin | rfl | hin
    · exact absurd (Or.inl (hbefore ep hin hpart)) hnot
    · exact ⟨l₁, l₂, hsplit, hbest, hbefore, hafter⟩
    · have hle := hafter ep hin hpart
      obtain ⟨m₁, m₂, rfl⟩ := List.append_of_mem hin
      have hsplit' : d.endpoints = (l₁ ++ best :: m₁) ++ ep :: m₂ := by
        rw [hsplit, List.append_assoc, List.cons_append]
      have hidx' := idxOf_endpointIds hunique hsplit'
      rw [List.length_append, List.length_cons] at hidx'
      rcases lt_or_eq_of_le hle with hlt | heq
      · exact absurd (Or.inl hlt) hnot
      · exact absurd (Or.inr ⟨heq, by omega⟩) hnot

/-- The parent of a listed endpoint is the one that lists it and that no other beats. -/
theorem parentFor_eq_iff (hunique : d.endpointIds.Nodup) (hlisted : ∃ q, d.Lists q x) :
    d.parentFor x = p ↔ d.Lists p x ∧ ∀ q, d.Lists q x → ¬ d.Beats q p := by
  constructor
  · rintro rfl
    obtain ⟨q, ep, hep, -, hpart⟩ := hlisted
    obtain ⟨best, hbest⟩ : ∃ best, d.IsDeepest x best :=
      FirstMax.exists_isFirstMax ⟨ep, hep, hpart⟩
    have hmem : best ∈ d.endpoints := by
      obtain ⟨l₁, l₂, hsplit, -⟩ := hbest
      exact hsplit ▸ List.mem_append_right _ List.mem_cons_self
    rw [parentFor_of_isDeepest hbest]
    obtain ⟨hlists, hnone⟩ := (isDeepest_iff hunique hmem).mp hbest
    exact ⟨⟨best, hmem, rfl, hlists⟩, hnone⟩
  · rintro ⟨⟨ep, hep, rfl, hpart⟩, hnone⟩
    exact parentFor_of_isDeepest ((isDeepest_iff hunique hep).mpr ⟨hpart, hnone⟩)

theorem resolveParents_eq (d : Device) : d.resolveParents =
    { d with
      endpoints := d.endpoints.map fun ep =>
        { ep with parentEndpointId := d.parentFor ep.endpointId } } := rfl

end HomeEnergyManager.DeviceManager
