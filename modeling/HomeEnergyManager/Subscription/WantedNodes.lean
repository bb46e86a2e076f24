import Mathlib.Data.Finset.Card
import Mathlib.Data.Finset.Option
import HomeEnergyManager.DeviceManager.Store
import HomeEnergyManager.Subscription.Model

/-! # The wanted nodes

`wanted_nodes` asks for no more endpoints than there may be nodes, and only then drops the nodes
that come twice. So a device is left out when the devices before it have too many endpoints.

Reference: `firmware/main/managers/device_manager.cpp`,
`firmware/main/managers/subscription_manager.cpp`.
-/

namespace HomeEnergyManager.SubscriptionManager

open DeviceManager (Device Endpoint)

def kDevTypeElectricalSensor : UInt32 := 0x0510

/-- An endpoint with an electrical sensor. -/
def isSensor (ep : Endpoint) : Bool := kDevTypeElectricalSensor ∈ ep.deviceTypes

/-- `device_manager_get_electrical_sensor_endpoints`, with room for `max` endpoints. -/
def electricalSensorEndpoints (devices : List Device) (max : ℕ) : List (UInt64 × UInt16) :=
  devices.foldl (fun out dev =>
    dev.endpoints.foldl (fun out ep =>
      if max ≤ out.length then out
      else if isSensor ep then out ++ [(dev.nodeId, ep.endpointId)] else out) out) []

/-- `wanted_nodes`, with room for `MAX_NODES`. -/
def wantedNodes (devices : List Device) (tariffSource : Option (ℕ × ℕ)) : List ℕ :=
  let out := ((electricalSensorEndpoints devices MAX_NODES).map fun e => e.1.toNat).foldl addNode []
  match tariffSource with
  | some (tariffNode, _) => addNode out tariffNode
  | none => out

/-- The node of each endpoint with an electrical sensor, in the order of the device store. -/
def sensorNodes (devices : List Device) : List ℕ :=
  devices.flatMap fun dev => (dev.endpoints.filter isSensor).map fun _ => dev.nodeId.toNat

/-- The devices with an electrical sensor and the tariff source. -/
def neededNodes (devices : List Device) (tariffSource : Option (ℕ × ℕ)) : Finset ℕ :=
  ((devices.filter fun dev => dev.endpoints.any isSensor).map fun dev =>
      dev.nodeId.toNat).toFinset ∪
    (tariffSource.map Prod.fst).toFinset

/-! ## The bounded list of endpoints -/

/-- The endpoints of one device that still find room. -/
theorem foldl_endpoints (nodeId : UInt64) (max : ℕ) (eps : List Endpoint)
    {out all : List (UInt64 × UInt16)} (hout : out = all.take max) :
    eps.foldl (fun out ep =>
      if max ≤ out.length then out
      else if isSensor ep then out ++ [(nodeId, ep.endpointId)] else out) out
      = (all ++ (eps.filter isSensor).map fun ep => (nodeId, ep.endpointId)).take max := by
  induction eps generalizing out all with
  | nil => rw [List.filter_nil, List.map_nil, List.append_nil, ← hout, List.foldl_nil]
  | cons ep eps ih =>
    rw [List.foldl_cons]
    by_cases hsensor : isSensor ep
    · rw [List.filter_cons_of_pos hsensor, List.map_cons, List.append_cons all]
      apply ih
      split
      · rename_i hfull
        have hall : max ≤ all.length := by
          rw [hout, List.length_take] at hfull
          omega
        rw [hout, List.take_append_of_le_length hall]
      · rename_i hroom
        have hall : all.length < max := by
          rw [hout, List.length_take] at hroom
          omega
        rw [hout, List.take_of_length_le hall.le, List.take_of_length_le]
        rw [List.length_append, List.length_singleton]
        omega
    · rw [List.filter_cons_of_neg hsensor, if_neg hsensor, ite_self]
      exact ih hout

/-- The endpoints that are returned are the first ones of the store. -/
theorem electricalSensorEndpoints_eq (devices : List Device) (max : ℕ) :
    electricalSensorEndpoints devices max
      = (devices.flatMap fun dev =>
          (dev.endpoints.filter isSensor).map fun ep => (dev.nodeId, ep.endpointId)).take max := by
  have hloop : ∀ (ds : List Device) (out all : List (UInt64 × UInt16)), out = all.take max →
      ds.foldl (fun out dev =>
        dev.endpoints.foldl (fun out ep =>
          if max ≤ out.length then out
          else if isSensor ep then out ++ [(dev.nodeId, ep.endpointId)] else out) out) out
        = (all ++ ds.flatMap fun dev =>
            (dev.endpoints.filter isSensor).map fun ep =>
              (dev.nodeId, ep.endpointId)).take max := by
    intro ds
    induction ds with
    | nil =>
      intro out all hout
      rw [List.flatMap_nil, List.append_nil, ← hout, List.foldl_nil]
    | cons dev ds ih =>
      intro out all hout
      rw [List.foldl_cons, List.flatMap_cons, ← List.append_assoc]
      exact ih _ _ (foldl_endpoints dev.nodeId max dev.endpoints hout)
  have hempty : ([] : List (UInt64 × UInt16)) = List.take max [] := List.take_nil.symm
  rw [electricalSensorEndpoints, hloop devices [] [] hempty, List.nil_append]

/-- Their nodes. -/
theorem map_electricalSensorEndpoints (devices : List Device) :
    (electricalSensorEndpoints devices MAX_NODES).map (fun e => e.1.toNat)
      = (sensorNodes devices).take MAX_NODES := by
  rw [electricalSensorEndpoints_eq, List.map_take, List.map_flatMap]
  unfold sensorNodes
  simp only [List.map_map]
  rfl

/-- What the manager takes as wanted. -/
theorem wantedNodes_eq (s : Shared) (devices : List Device)
    (hs : s.sensorEndpoints = sensorNodes devices) :
    s.wantedNodes = wantedNodes devices s.tariffSource := by
  unfold Shared.wantedNodes wantedNodes
  cases s.tariffSource <;> simp only [map_electricalSensorEndpoints, hs]

/-! ## The nodes among them -/

/-- Adding the nodes of a list, as long as there is room. -/
theorem foldl_addNode (ids out : List ℕ) (hout : out.Nodup)
    (hroom : (out.toFinset ∪ ids.toFinset).card ≤ MAX_NODES) :
    (ids.foldl addNode out).Nodup ∧ ∀ n, n ∈ ids.foldl addNode out ↔ n ∈ out ∨ n ∈ ids := by
  induction ids generalizing out with
  | nil => exact ⟨hout, fun n => by simp⟩
  | cons id ids ih =>
    rw [List.foldl_cons, addNode]
    by_cases hmem : id ∈ out
    · rw [if_pos hmem]
      have hknown : ∀ n, n ∈ out ∨ n ∈ ids ↔ n ∈ out ∨ n ∈ id :: ids := by
        intro n
        rw [List.mem_cons]
        constructor
        · rintro (h | h)
          · exact Or.inl h
          · exact Or.inr (Or.inr h)
        · rintro (h | rfl | h)
          · exact Or.inl h
          · exact Or.inl hmem
          · exact Or.inr h
      have hsame : out.toFinset ∪ ids.toFinset = out.toFinset ∪ (id :: ids).toFinset := by
        ext n
        simp only [Finset.mem_union, List.mem_toFinset]
        exact hknown n
      obtain ⟨hnodup, hiff⟩ := ih out hout (hsame ▸ hroom)
      exact ⟨hnodup, fun n => (hiff n).trans (hknown n)⟩
    · rw [if_neg hmem]
      have hnodup : (out ++ [id]).Nodup :=
        List.nodup_append.mpr ⟨hout, List.nodup_singleton _, fun a ha b hb heq =>
          hmem (List.mem_singleton.mp hb ▸ heq ▸ ha)⟩
      have hsame : (out ++ [id]).toFinset ∪ ids.toFinset = out.toFinset ∪ (id :: ids).toFinset := by
        ext n
        simp
      have hlt : out.length < MAX_NODES := by
        have hsub : (out ++ [id]).toFinset ⊆ out.toFinset ∪ (id :: ids).toFinset :=
          hsame ▸ Finset.subset_union_left
        have hcard := (Finset.card_le_card hsub).trans hroom
        rw [List.toFinset_card_of_nodup hnodup, List.length_append, List.length_singleton] at hcard
        omega
      rw [if_pos hlt]
      obtain ⟨hnodup', hiff⟩ := ih (out ++ [id]) hnodup (hsame ▸ hroom)
      refine ⟨hnodup', fun n => (hiff n).trans ?_⟩
      simp [or_assoc]

theorem mem_neededNodes {devices : List Device} {tariffSource : Option (ℕ × ℕ)} {n : ℕ} :
    n ∈ neededNodes devices tariffSource ↔
      n ∈ sensorNodes devices ∨ tariffSource.map Prod.fst = some n := by
  unfold neededNodes sensorNodes
  simp only [Finset.mem_union, List.mem_toFinset, List.mem_map, List.mem_filter, List.any_eq_true,
    List.mem_flatMap, Option.mem_toFinset, Option.mem_def]
  refine or_congr_left ⟨?_, ?_⟩
  · rintro ⟨dev, ⟨hdev, ep, hep, hsensor⟩, rfl⟩
    exact ⟨dev, hdev, ep, ⟨hep, hsensor⟩, rfl⟩
  · rintro ⟨dev, hdev, ep, ⟨hep, hsensor⟩, rfl⟩
    exact ⟨dev, ⟨hdev, ep, hep, hsensor⟩, rfl⟩

/-- With no more needed nodes than there is room for, the wanted nodes are those of the endpoints
that found room, and the tariff source, each once. -/
theorem wantedNodes_spec {devices : List Device} {tariffSource : Option (ℕ × ℕ)}
    (hfew : (neededNodes devices tariffSource).card ≤ MAX_NODES) :
    (wantedNodes devices tariffSource).Nodup ∧ ∀ n, n ∈ wantedNodes devices tariffSource ↔
      n ∈ (sensorNodes devices).take MAX_NODES ∨ tariffSource.map Prod.fst = some n := by
  have hfold : wantedNodes devices tariffSource =
      ((sensorNodes devices).take MAX_NODES ++ (tariffSource.map Prod.fst).toList).foldl
        addNode [] := by
    unfold wantedNodes
    rw [map_electricalSensorEndpoints, List.foldl_append]
    cases tariffSource <;> rfl
  have hsub : ([] : List ℕ).toFinset ∪
      ((sensorNodes devices).take MAX_NODES ++ (tariffSource.map Prod.fst).toList).toFinset ⊆
        neededNodes devices tariffSource := by
    intro n hn
    rw [List.toFinset_nil, Finset.empty_union, List.mem_toFinset, List.mem_append,
      Option.mem_toList] at hn
    exact mem_neededNodes.mpr (hn.imp_left List.mem_of_mem_take)
  obtain ⟨hnodup, hiff⟩ := foldl_addNode _ [] List.nodup_nil
    ((Finset.card_le_card hsub).trans hfew)
  rw [← hfold] at hnodup hiff
  refine ⟨hnodup, fun n => (hiff n).trans ?_⟩
  rw [List.mem_append, Option.mem_toList]
  exact or_iff_right List.not_mem_nil

/-- The wanted nodes are the needed ones, each once. -/
def AllWanted (devices : List Device) (tariffSource : Option (ℕ × ℕ)) : Prop :=
  (wantedNodes devices tariffSource).Nodup ∧
    ∀ n, n ∈ wantedNodes devices tariffSource ↔ n ∈ neededNodes devices tariffSource

/-- For every device store and tariff source with at most `MAX_NODES` needed nodes: exactly these
are wanted if and only if each of them is the tariff source or has fewer than `MAX_NODES` endpoints
with an electrical sensor in front of its first one. -/
theorem allWanted_iff (devices : List Device) (tariffSource : Option (ℕ × ℕ))
    (hfew : (neededNodes devices tariffSource).card ≤ MAX_NODES) :
    AllWanted devices tariffSource ↔
      ∀ n ∈ neededNodes devices tariffSource,
        tariffSource.map Prod.fst = some n ∨ (sensorNodes devices).idxOf n < MAX_NODES := by
  obtain ⟨hnodup, hwanted⟩ := wantedNodes_spec hfew
  have hfirst : ∀ n, n ∈ (sensorNodes devices).take MAX_NODES ↔
      n ∈ sensorNodes devices ∧ (sensorNodes devices).idxOf n < MAX_NODES := by
    intro n
    constructor
    · intro hmem
      have hn := List.mem_of_mem_take hmem
      exact ⟨hn, (List.mem_take_iff_idxOf_lt hn).mp hmem⟩
    · rintro ⟨hn, hidx⟩
      exact (List.mem_take_iff_idxOf_lt hn).mpr hidx
  unfold AllWanted
  rw [and_iff_right hnodup]
  constructor
  · intro h n hn
    rcases (hwanted n).mp ((h n).mpr hn) with hmem | htariff
    · exact Or.inr ((hfirst n).mp hmem).2
    · exact Or.inl htariff
  · intro h n
    rw [hwanted]
    constructor
    · rintro (hmem | htariff)
      · exact mem_neededNodes.mpr (Or.inl (List.mem_of_mem_take hmem))
      · exact mem_neededNodes.mpr (Or.inr htariff)
    · intro hn
      rcases h n hn with htariff | hidx
      · exact Or.inr htariff
      · rcases mem_neededNodes.mp hn with hmem | htariff
        · exact Or.inl ((hfirst n).mpr ⟨hmem, hidx⟩)
        · exact Or.inr htariff

/-- A device with `k` electrical sensors. -/
def meter (nodeId : UInt64) (k : ℕ) : Device :=
  { nodeId := nodeId
    endpoints := (List.range k).map fun i =>
      { endpointId := UInt16.ofNat (i + 1), deviceTypes := [kDevTypeElectricalSensor] } }

/-- Behind a meter with 31 channels another meter is still wanted. -/
theorem allWanted_iff_meters : AllWanted [meter 10000 31, meter 10001 1] (some (10002, 1)) :=
  (allWanted_iff [meter 10000 31, meter 10001 1] (some (10002, 1)) (by decide)).mpr (by decide)

/-- Behind a meter with 32 channels it is not. -/
theorem wantedNodes_crowded_out :
    ¬ ∀ (devices : List Device) (tariffSource : Option (ℕ × ℕ)),
      (neededNodes devices tariffSource).card ≤ MAX_NODES → AllWanted devices tariffSource := by
  intro h
  have hall := h [meter 10000 32, meter 10001 1] none (by decide)
  exact absurd ((hall.2 10001).mpr (by decide)) (by decide)

end HomeEnergyManager.SubscriptionManager
