import HomeEnergyManager.Lib.Acyclic
import HomeEnergyManager.DeviceManager.FamilyTree
import HomeEnergyManager.DeviceManager.Persist

/-! # The walk to a label

`devices_endpoints_get_handler` labels an endpoint that has no label of its own with that of its
nearest labelled ancestor. Nothing stops the walk on parents that form a cycle, and the parts lists
of a device can make such parents.

Reference: `firmware/main/web_server.c`.
-/

namespace HomeEnergyManager.WebServer

open DeviceManager

/-- The loop that climbs from the parent of an endpoint, for at most so many steps; `none` if these
do not reach its end. -/
def climb (d : Device) : ℕ → UInt16 → Option String
  | 0, _ => none
  | fuel + 1, parent =>
    if parent = kNoParent then some ""
    else
      match d.endpoints.find? (·.endpointId = parent) with
      | none => some ""
      | some parentEp =>
        if cStr parentEp.label = "" then climb d fuel parentEp.parentEndpointId
        else some (cStr parentEp.label)

/-- The label that is shown for an endpoint. -/
def labelOf (d : Device) (fuel : ℕ) (ep : Endpoint) : Option String :=
  if cStr ep.label = "" then climb d fuel ep.parentEndpointId else some (cStr ep.label)

/-- The loop comes to its end. -/
def WalkEnds (d : Device) (ep : Endpoint) : Prop := ∃ fuel label, labelOf d fuel ep = some label

/-! ## Where the loop ends -/

/-- The loop goes on from the endpoint `a`, which has no label, to its parent `b`. -/
def Climbs (d : Device) (a b : UInt16) : Prop :=
  a ≠ kNoParent ∧ ∃ ep, d.endpoints.find? (·.endpointId = a) = some ep ∧ cStr ep.label = "" ∧
    ep.parentEndpointId = b

section Walk

variable {d : Device} {a b : UInt16} {fuel : ℕ}

theorem climb_of_climbs (h : Climbs d a b) : climb d (fuel + 1) a = climb d fuel b := by
  obtain ⟨hparent, ep, hfind, hlabel, rfl⟩ := h
  rw [climb, if_neg hparent, hfind]
  exact if_pos hlabel

theorem climb_of_not_climbs (h : ∀ b, ¬ Climbs d a b) :
    ∃ label, climb d (fuel + 1) a = some label := by
  rw [climb]
  split
  · exact ⟨_, rfl⟩
  · rename_i hparent
    cases hfind : d.endpoints.find? (·.endpointId = a) with
    | none => exact ⟨_, rfl⟩
    | some ep =>
      have hlabel : cStr ep.label ≠ "" := fun hlabel =>
        h _ ⟨hparent, ep, hfind, hlabel, rfl⟩
      exact ⟨_, if_neg hlabel⟩

/-- The loop ends if and only if the climb from an endpoint does not go on for ever. -/
theorem exists_climb_iff :
    (∃ fuel label, climb d fuel a = some label) ↔ Acc (fun b a => Climbs d a b) a := by
  constructor
  · rintro ⟨fuel, label, h⟩
    induction fuel generalizing a with
    | zero => exact absurd h.symm (Option.some_ne_none label)
    | succ fuel ih =>
      refine ⟨a, fun b hb => ih ?_⟩
      rwa [climb_of_climbs hb] at h
  · intro h
    induction h with
    | intro a _ ih =>
      by_cases hex : ∃ b, Climbs d a b
      · obtain ⟨b, hb⟩ := hex
        obtain ⟨fuel, label, h⟩ := ih b hb
        exact ⟨fuel + 1, label, (climb_of_climbs hb).trans h⟩
      · exact ⟨1, climb_of_not_climbs (not_exists.mp hex)⟩

theorem walkEnds_of_acc {ep : Endpoint}
    (h : Acc (fun b a => Climbs d a b) ep.parentEndpointId) : WalkEnds d ep := by
  unfold WalkEnds labelOf
  split
  · exact exists_climb_iff.mpr h
  · exact ⟨0, _, rfl⟩

end Walk

/-! ## Parents without a cycle -/

/-- `p` is the parent of the endpoint `x`. -/
def IsParent (d : Device) (x p : UInt16) : Prop :=
  ∃ ep ∈ d.endpoints, ep.endpointId = x ∧ ep.parentEndpointId = p ∧ p ≠ kNoParent

/-- The parents of a device have no cycle, and every walk to a label ends. -/
def ParentsEnd (d : Device) : Prop :=
  Acyclic.NoCycle (IsParent d) ∧ ∀ ep ∈ d.endpoints, WalkEnds d ep

/-- Every cycle of listings has an endpoint that another one lists as well, which is farther from
endpoint 0 than the one that lists it in the cycle, or as far and earlier in the store. -/
def CyclesLeft (d : Device) : Prop :=
  ∀ (n : ℕ) (f : ℕ → UInt16), 0 < n → (∀ i, f (i + n) = f i) →
    (∀ i, f i ∈ d.endpointIds ∧ f i ≠ kNoParent ∧ d.Lists (f (i + 1)) (f i)) →
    ∃ i q, d.Lists q (f i) ∧ d.Beats q (f (i + 1))

section Parents

variable {d : Device} {x p : UInt16}

theorem walkEnds_of_noCycle (h : Acyclic.NoCycle (IsParent d)) (ep : Endpoint) : WalkEnds d ep := by
  have hids : ∀ a b, IsParent d a b → b ∈ d.endpoints.map (·.parentEndpointId) := by
    rintro a b ⟨ep, hep, -, rfl, -⟩
    exact List.mem_map_of_mem hep
  refine walkEnds_of_acc (Acyclic.ind h hids (fun a ih => ⟨a, ?_⟩) _)
  rintro b ⟨-, ep, hfind, -, rfl⟩
  by_cases hnone : ep.parentEndpointId = kNoParent
  · rw [hnone]
    refine ⟨_, ?_⟩
    rintro c ⟨hparent, -⟩
    exact absurd rfl hparent
  · have hfound := List.find?_some hfind
    have hid : ep.endpointId = a := of_decide_eq_true hfound
    exact ih _ ⟨ep, List.mem_of_find?_eq_some hfind, hid, rfl, hnone⟩

/-- The parents after `device_manager_resolve_parents`. -/
theorem isParent_resolveParents (hunique : d.endpointIds.Nodup) :
    IsParent d.resolveParents x p ↔ x ∈ d.endpointIds ∧ p ≠ kNoParent ∧ d.Lists p x ∧
      ∀ q, d.Lists q x → ¬ d.Beats q p := by
  rw [resolveParents_eq]
  constructor
  · rintro ⟨ep', hep', hid, hparent, hnone⟩
    obtain ⟨ep, hep, rfl⟩ := List.mem_map.mp hep'
    change ep.endpointId = x at hid
    change d.parentFor ep.endpointId = p at hparent
    rw [hid] at hparent
    refine ⟨mem_endpointIds.mpr ⟨ep, hep, hid⟩, hnone, ?_⟩
    by_cases hlisted : ∃ q, d.Lists q x
    · exact (parentFor_eq_iff hunique hlisted).mp hparent
    · rw [parentFor_of_not_listed (not_exists.mp hlisted)] at hparent
      exact absurd hparent.symm hnone
  · rintro ⟨hx, hnone, hlists, hbest⟩
    obtain ⟨ep, hep, rfl⟩ := mem_endpointIds.mp hx
    refine ⟨_, List.mem_map.mpr ⟨ep, hep, rfl⟩, rfl, ?_, hnone⟩
    exact (parentFor_eq_iff hunique ⟨p, hlists⟩).mpr ⟨hlists, hbest⟩

/-- The parents that `device_manager_resolve_parents` leaves have no cycle, so that every walk to a
label ends, if and only if every cycle of listings is left somewhere. -/
theorem parentsEnd_iff (hunique : d.endpointIds.Nodup) :
    ParentsEnd d.resolveParents ↔ CyclesLeft d := by
  have hcycle : Acyclic.NoCycle (IsParent d.resolveParents) ↔ CyclesLeft d := by
    rw [Acyclic.noCycle_iff_periodic]
    refine forall_congr' fun n => forall_congr' fun f => forall_congr' fun _ =>
      forall_congr' fun hperiod => ?_
    simp only [isParent_resolveParents hunique]
    constructor
    · rintro ⟨i, hi⟩ hlists
      by_contra hall
      push Not at hall
      refine hi ⟨(hlists i).1, (hlists (i + 1)).2.1, (hlists i).2.2, fun q hq => hall i q hq⟩
    · intro hleft
      by_contra hall
      push Not at hall
      have hmember : ∀ i, f i ≠ kNoParent := by
        intro i
        have hlast := (hall (i + (n - 1))).2.1
        have hsum : i + (n - 1) + 1 = i + n := by omega
        rwa [hsum, hperiod] at hlast
      obtain ⟨i, q, hq, hbeats⟩ := hleft fun i => ⟨(hall i).1, hmember i, (hall i).2.2.1⟩
      exact (hall i).2.2.2 q hq hbeats
  refine Iff.trans ?_ hcycle
  exact and_iff_left_of_imp fun h ep _ => walkEnds_of_noCycle h ep

end Parents

/-- Listings that only lead to greater ids have no cycle. -/
theorem parentsEnd_chain : ParentsEnd (chain [[1], [2], [3], []]).resolveParents := by
  refine (parentsEnd_iff (by decide)).mpr fun n f hn hperiod hlists => ?_
  have hless : ∀ ep ∈ (chain [[1], [2], [3], []]).endpoints,
      ep.parts.all fun x => ep.endpointId.toNat < x.toNat := by decide
  have hfall : ∀ i, (f i).toNat + i ≤ (f 0).toNat := by
    intro i
    induction i with
    | zero => exact le_refl _
    | succ i ih =>
      obtain ⟨ep, hep, hid, hpart⟩ := (hlists i).2.2
      have hlt := List.all_iff_forall_prop.mp (hless ep hep) _ hpart
      rw [hid] at hlt
      omega
  have hback := hfall n
  rw [← Nat.zero_add n, hperiod 0] at hback
  omega

/-- An endpoint that lists itself becomes its own parent. -/
theorem self_parent : ¬ ∀ d : Device, d.endpointIds.Nodup → ParentsEnd d.resolveParents := by
  intro h
  have hends := h (chain [[1], [1]]) (by decide)
  refine hends.1 1 (.single ?_)
  exact ⟨{ endpointId := 1, parentEndpointId := 1, parts := [1] }, by decide, rfl, rfl, by decide⟩

end HomeEnergyManager.WebServer
