import Mathlib.Data.List.Basic
import Mathlib.Data.Int.Notation
import Mathlib.Order.Basic
import Mathlib.Order.Nat

/-! # The device store

The devices that `device_manager` keeps, with what commissioning, the interrogation of a device and
the user change of them. A call that finds no device or no endpoint leaves the store alone.

Reference: `firmware/main/managers/device_manager.cpp`, `on_interrogation_attr` in
`firmware/main/matter_controller.cpp`.
-/

namespace HomeEnergyManager.DeviceManager

/-- `kNoParent`. -/
def kNoParent : UInt16 := 65535

/-- `endpoint_entry_t`. -/
structure Endpoint where
  endpointId : UInt16
  parentEndpointId : UInt16 := kNoParent
  label : String := ""
  included : Bool := false
  hasDem : Bool := false
  deviceTypes : List UInt32 := []
  parts : List UInt16 := []
deriving DecidableEq

/-- `device_entry_t`. -/
structure Device where
  nodeId : UInt64
  vendorName : String := ""
  productName : String := ""
  name : String := ""
  endpoints : List Endpoint := []
  hasSubscription : Bool := false
deriving DecidableEq

/-- `s_next_node_id` and `s_devices`; it starts at `FIRST_NODE_ID`. -/
structure Store where
  nextNodeId : UInt64 := 10000
  devices : List Device := []
deriving DecidableEq

/-! ## Parents -/

/-- `claimants`: the endpoints that list `id` among their parts. -/
def Device.claimants (d : Device) (id : UInt16) : List UInt16 :=
  d.endpoints.flatMap fun ep => (ep.parts.filter (· = id)).map fun _ => ep.endpointId

/-- The depths found so far and the queue. -/
structure Search where
  depth : List (UInt16 × ℕ)
  queue : List UInt16

/-- `depth.find`. -/
def Search.depthOf (s : Search) (id : UInt16) : Option ℕ := (s.depth.find? (·.1 = id)).map (·.2)

/-- One part of the endpoint at hand: it gets its depth and a place in the queue, once. -/
def Search.visit (depth : ℕ) (s : Search) (part : UInt16) : Search :=
  match s.depthOf part with
  | some _ => s
  | none => { depth := s.depth ++ [(part, depth)], queue := s.queue ++ [part] }

/-- The search from endpoint 0 over parts, for at most so many endpoints. -/
def Device.search (d : Device) : ℕ → Search → Search
  | 0, s => s
  | fuel + 1, s =>
    match s.queue with
    | [] => s
    | cur :: queue =>
      match d.endpoints.find? (·.endpointId = cur) with
      | none => d.search fuel { s with queue }
      | some ep =>
        let depth := (s.depthOf cur).getD 0 + 1
        d.search fuel (ep.parts.foldl (Search.visit depth) { s with queue })

/-- All parts, as often as they are listed. -/
def Device.allParts (d : Device) : List UInt16 := d.endpoints.flatMap (·.parts)

/-- The depths of the endpoints; an endpoint enters the queue at most once. -/
def Device.depths (d : Device) : Search :=
  if d.endpoints.any (·.endpointId = 0) then
    d.search (d.allParts.length + 1) { depth := [(0, 0)], queue := [0] }
  else { depth := [], queue := [] }

/-- The deepest of the claimants, the first one of several. -/
def deepest (s : Search) (claimants : List UInt16) : UInt16 :=
  (claimants.foldl (fun (best : UInt16 × ℤ) claimant =>
    let d : ℤ := (s.depthOf claimant).getD 0
    if best.2 < d then (claimant, d) else best) (kNoParent, -1)).1

/-- `device_manager_resolve_parents`, on the device. -/
def Device.resolveParents (d : Device) : Device :=
  { d with
    endpoints := d.endpoints.map fun ep =>
      { ep with
        parentEndpointId :=
          match d.claimants ep.endpointId with
          | [] => kNoParent
          | claimants => deepest d.depths claimants } }

section

variable {d : Device} {s : Search} {depth : ℕ}

/-- How many parts are still without a depth. -/
def Device.unvisited (d : Device) (s : Search) : ℕ :=
  (d.allParts.filter (s.depthOf · = none)).length

/-- A visit puts an endpoint into the queue only if it takes it off the parts without a depth. -/
theorem unvisited_visit {part : UInt16} (hpart : part ∈ d.allParts) :
    (s.visit depth part).queue.length + d.unvisited (s.visit depth part) ≤
      s.queue.length + d.unvisited s := by
  unfold Search.visit
  split
  · exact le_refl _
  · rename_i hnone
    set s' : Search := { depth := s.depth ++ [(part, depth)], queue := s.queue ++ [part] }
    have hdepth : ∀ p, s'.depthOf p = none ↔ s.depthOf p = none ∧ p ≠ part := by
      intro p
      simp only [s', Search.depthOf, List.find?_append, Option.map_eq_none_iff,
        Option.or_eq_none_iff]
      simp [eq_comm]
    have hfilter : d.allParts.filter (s'.depthOf · = none) =
        (d.allParts.filter (s.depthOf · = none)).filter (· ≠ part) := by
      rw [List.filter_filter]
      apply List.filter_congr
      intro p _
      simp [hdepth, and_comm]
    have hless : d.unvisited s' < d.unvisited s := by
      rw [Device.unvisited, Device.unvisited, hfilter, List.length_filter_lt_length_iff_exists]
      exact ⟨part, List.mem_filter.mpr ⟨hpart, by simpa using hnone⟩, by simp⟩
    have hqueue : s'.queue.length = s.queue.length + 1 := by simp [s']
    omega

theorem unvisited_foldl_visit {parts : List UInt16} (hparts : ∀ p ∈ parts, p ∈ d.allParts) :
    (parts.foldl (Search.visit depth) s).queue.length +
        d.unvisited (parts.foldl (Search.visit depth) s) ≤ s.queue.length + d.unvisited s := by
  induction parts generalizing s with
  | nil => exact le_refl _
  | cons part parts ih =>
    exact (ih fun p hp => hparts p (List.mem_cons_of_mem _ hp)).trans
      (unvisited_visit (hparts part List.mem_cons_self))

/-- A search that may go on for as many endpoints as can enter the queue ends by itself. -/
theorem search_add {fuel : ℕ} (h : s.queue.length + d.unvisited s ≤ fuel) (k : ℕ) :
    d.search (fuel + k) s = d.search fuel s := by
  induction fuel generalizing s with
  | zero =>
    have hqueue : s.queue = [] := List.length_eq_zero_iff.mp (by omega)
    cases k with
    | zero => rfl
    | succ k => simp [Device.search, hqueue]
  | succ fuel ih =>
    rw [Nat.add_right_comm, Device.search, Device.search]
    cases hqueue : s.queue with
    | nil => rfl
    | cons cur queue =>
      rw [hqueue, List.length_cons] at h
      cases hfind : d.endpoints.find? (·.endpointId = cur) with
      | none =>
        simp only [hfind]
        apply ih
        have hsame : d.unvisited { s with queue } = d.unvisited s := rfl
        dsimp only at hsame ⊢
        omega
      | some ep =>
        simp only [hfind]
        apply ih
        have hparts : ∀ p ∈ ep.parts, p ∈ d.allParts := fun p hp =>
          List.mem_flatMap.mpr ⟨ep, List.mem_of_find?_eq_some hfind, hp⟩
        refine (unvisited_foldl_visit hparts).trans ?_
        have hsame : d.unvisited { s with queue } = d.unvisited s := rfl
        dsimp only at hsame ⊢
        omega

/-- The depths are those of the whole search. -/
theorem depths_complete (h : d.endpoints.any (·.endpointId = 0) = true) (k : ℕ) :
    d.search (d.allParts.length + 1 + k) { depth := [(0, 0)], queue := [0] } = d.depths := by
  rw [Device.depths, if_pos h]
  apply search_add
  have hle : d.unvisited { depth := [(0, 0)], queue := [0] } ≤ d.allParts.length :=
    List.length_filter_le _ _
  rw [List.length_singleton]
  omega

end

/-! ## The calls -/

/-- Change the first entry that meets `p`. -/
def updateFirst {α : Type*} (p : α → Bool) (f : α → α) : List α → List α
  | [] => []
  | a :: l => if p a then f a :: l else a :: updateFirst p f l

/-- Change the device that `find_device` finds. -/
def Store.onDevice (nodeId : UInt64) (f : Device → Device) (s : Store) : Store :=
  { s with devices := updateFirst (·.nodeId = nodeId) f s.devices }

/-- Change the endpoint that `find_endpoint` finds. -/
def Store.onEndpoint (nodeId : UInt64) (endpointId : UInt16) (f : Endpoint → Endpoint)
    (s : Store) : Store :=
  s.onDevice nodeId fun d =>
    { d with endpoints := updateFirst (·.endpointId = endpointId) f d.endpoints }

/-- Add an id at the end of a list that does not hold it. -/
def addNew {α : Type*} [DecidableEq α] (a : α) (l : List α) : List α :=
  if a ∈ l then l else l ++ [a]

inductive Op where
  | nextNodeId
  | addDevice (nodeId : UInt64)
  | setVendorName (nodeId : UInt64) (name : String)
  | setProductName (nodeId : UInt64) (name : String)
  | setDeviceName (nodeId : UInt64) (name : String)
  | addEndpoint (nodeId : UInt64) (endpointId : UInt16)
  | addDeviceType (nodeId : UInt64) (endpointId : UInt16) (deviceTypeId : UInt32)
  | setEndpointDem (nodeId : UInt64) (endpointId : UInt16) (hasDem : Bool)
  | setEndpointLabel (nodeId : UInt64) (endpointId : UInt16) (label : String)
  | setEndpointIncluded (nodeId : UInt64) (endpointId : UInt16) (included : Bool)
  | markSubscribed (nodeId : UInt64)
  | markUnsubscribed (nodeId : UInt64)
  | addEndpointPart (nodeId : UInt64) (parent child : UInt16)
  | resolveParents (nodeId : UInt64)
  | clearDeviceEndpoints (nodeId : UInt64)
  | removeDevice (nodeId : UInt64)
  | clear

def Op.apply (s : Store) : Op → Store
  | nextNodeId => { s with nextNodeId := s.nextNodeId + 1 }
  | addDevice nodeId =>
    if s.devices.any (·.nodeId = nodeId) then s
    else { s with devices := s.devices ++ [{ nodeId }] }
  | setVendorName nodeId name => s.onDevice nodeId fun d => { d with vendorName := name }
  | setProductName nodeId name => s.onDevice nodeId fun d => { d with productName := name }
  | setDeviceName nodeId name => s.onDevice nodeId fun d => { d with name }
  | addEndpoint nodeId endpointId =>
    s.onDevice nodeId fun d =>
      if d.endpoints.any (·.endpointId = endpointId) then d
      else { d with endpoints := d.endpoints ++ [{ endpointId }] }
  | addDeviceType nodeId endpointId deviceTypeId =>
    s.onEndpoint nodeId endpointId fun ep =>
      { ep with deviceTypes := addNew deviceTypeId ep.deviceTypes }
  | setEndpointDem nodeId endpointId hasDem =>
    s.onEndpoint nodeId endpointId fun ep => { ep with hasDem }
  | setEndpointLabel nodeId endpointId label =>
    s.onEndpoint nodeId endpointId fun ep => { ep with label }
  | setEndpointIncluded nodeId endpointId included =>
    s.onEndpoint nodeId endpointId fun ep => { ep with included }
  | markSubscribed nodeId => s.onDevice nodeId fun d => { d with hasSubscription := true }
  | markUnsubscribed nodeId => s.onDevice nodeId fun d => { d with hasSubscription := false }
  | addEndpointPart nodeId parent child =>
    s.onEndpoint nodeId parent fun ep => { ep with parts := addNew child ep.parts }
  | resolveParents nodeId => s.onDevice nodeId Device.resolveParents
  | clearDeviceEndpoints nodeId => s.onDevice nodeId fun d => { d with endpoints := [] }
  | removeDevice nodeId => { s with devices := s.devices.eraseP (·.nodeId = nodeId) }
  | clear => {}

/-! ## Interrogation -/

/-- What a device reports about itself; entries that cannot be read are left out. -/
inductive Report where
  | partsList (endpointId : UInt16) (parts : List UInt16)
  | serverList (endpointId : UInt16) (clusters : List UInt32)
  | deviceTypeList (endpointId : UInt16) (deviceTypes : List UInt32)
  | vendorName (name : String)
  | productName (name : String)
  | nodeLabel (endpointId : UInt16) (label : String)

/-- `kClusterDeviceEnergyManagement`. -/
def kClusterDeviceEnergyManagement : UInt32 := 0x98

/-- `on_interrogation_attr`: the calls that a report makes. -/
def Report.ops (nodeId : UInt64) : Report → List Op
  | partsList endpointId parts =>
    parts.flatMap fun part => [.addEndpoint nodeId part, .addEndpointPart nodeId endpointId part]
  | serverList endpointId clusters =>
    .addEndpoint nodeId endpointId ::
      (clusters.filter (· = kClusterDeviceEnergyManagement)).map fun _ =>
        .setEndpointDem nodeId endpointId true
  | deviceTypeList endpointId deviceTypes =>
    .addEndpoint nodeId endpointId ::
      (deviceTypes.filter (· ≠ 0)).map fun t => .addDeviceType nodeId endpointId t
  | vendorName name => [.setVendorName nodeId name]
  | productName name => [.setProductName nodeId name]
  | nodeLabel endpointId label =>
    [.addEndpoint nodeId endpointId, .setEndpointLabel nodeId endpointId label]

end HomeEnergyManager.DeviceManager
