import HomeEnergyManager.NodeManager.Graph
import HomeEnergyManager.WebServer.LabelWalk

/-! # The endpoints that are on offer

`devices_endpoints_get_handler` lists the endpoints of a device type that no topology node has
claimed by its settings. The claims go into a table of 16; those of further nodes are dropped.

`toUint64` and `toUint16` are the casts of a number, which C defines only for what fits.

Reference: `firmware/main/web_server.c`.
-/

namespace HomeEnergyManager.WebServer

open DeviceManager Json
open NodeManager (NodeConfig)

def MAX_IN_USE : ℕ := 16

/-- An entry of the answer. -/
structure Entry where
  nodeId : ℚ
  endpointId : ℕ
  label : String
  deviceName : String
deriving DecidableEq

variable (toUint64 : ℚ → UInt64) (toUint16 : ℚ → UInt16)

/-- The endpoint that a topology node claims: settings with the numbers `nodeId` and
`endpointId`. -/
def claimOf (n : NodeConfig) : Option (UInt64 × UInt16) :=
  match numAt n.settings "nodeId", numAt n.settings "endpointId" with
  | some nid, some eid => some (toUint64 nid, toUint16 eid)
  | _, _ => none

/-- `used_node_ids` and `used_ep_ids`, as far as they are filled. -/
def inUse (nodes : List NodeConfig) : List (UInt64 × UInt16) :=
  (nodes.filterMap (claimOf toUint64 toUint16)).take MAX_IN_USE

/-- The number that stands for a device's node id in the document of the store. -/
def nodeNumber (d : Device) : ℚ := Double.ofNat d.nodeId.toNat

/-- What is compared with the claims. -/
def keyOf (d : Device) (ep : Endpoint) : UInt64 × UInt16 := (toUint64 (nodeNumber d), ep.endpointId)

/-- The name that the user gave, else that of the product. -/
def deviceName (d : Device) : String := if cStr d.name = "" then cStr d.productName else cStr d.name

/-- What the two loops visit: the endpoints of the devices, each with its device. -/
def allEndpoints (devices : List Device) : List (Device × Endpoint) :=
  devices.flatMap fun d => d.endpoints.map fun ep => (d, ep)

/-- The two loops; `none` if a walk to a label does not end in so many steps. -/
def offer (fuel : ℕ) (used : List (UInt64 × UInt16)) (filterType : UInt32) :
    List (Device × Endpoint) → Option (List Entry)
  | [] => some []
  | (d, ep) :: rest =>
    if filterType ∉ ep.deviceTypes then offer fuel used filterType rest
    else if keyOf toUint64 d ep ∈ used then offer fuel used filterType rest
    else
      (labelOf d fuel ep).bind fun label =>
        (offer fuel used filterType rest).map fun entries =>
          { nodeId := Double.ofNat (toUint64 (nodeNumber d)).toNat
            endpointId := ep.endpointId.toNat
            label := label
            deviceName := deviceName d } :: entries

/-- `devices_endpoints_get_handler`, once its query is read. -/
def devicesEndpointsGetHandler (fuel : ℕ) (nodes : List NodeConfig) (devices : List Device)
    (filterType : UInt32) : Option (List Entry) :=
  offer toUint64 fuel (inUse toUint64 toUint16 nodes) filterType (allEndpoints devices)

/-! ## What has to be on offer -/

/-- The endpoints of a type, as they are in the store, each with its device. -/
def endpointsOf (devices : List Device) (filterType : UInt32) : List (Device × Endpoint) :=
  (allEndpoints devices).filter fun e => filterType ∈ e.2.deviceTypes

/-- Some topology node claims the endpoint. -/
def Claimed (nodes : List NodeConfig) (e : Device × Endpoint) : Prop :=
  keyOf toUint64 e.1 e.2 ∈ nodes.filterMap (claimOf toUint64 toUint16)

instance (nodes : List NodeConfig) : DecidablePred (Claimed toUint64 toUint16 nodes) :=
  fun _ => inferInstanceAs (Decidable (_ ∈ _))

/-- The entry is that of the endpoint. -/
def IsEntryOf (e : Device × Endpoint) (entry : Entry) : Prop :=
  entry.nodeId = Double.ofNat (toUint64 (nodeNumber e.1)).toNat ∧
    entry.endpointId = e.2.endpointId.toNat

/-- The answer has one entry for each endpoint of the type that no node claims, and no other. -/
def OffersUnclaimed (nodes : List NodeConfig) (devices : List Device) (filterType : UInt32) :
    Prop :=
  ∃ fuel entries, devicesEndpointsGetHandler toUint64 toUint16 fuel nodes devices filterType =
      some entries ∧
    List.Forall₂ (IsEntryOf toUint64)
      ((endpointsOf devices filterType).filter fun e => ¬ Claimed toUint64 toUint16 nodes e) entries

/-- Each endpoint of the type that is claimed is among the first 16 claims. -/
def ClaimsFit (nodes : List NodeConfig) (devices : List Device) (filterType : UInt32) : Prop :=
  ∀ e ∈ endpointsOf devices filterType, Claimed toUint64 toUint16 nodes e →
    keyOf toUint64 e.1 e.2 ∈ (nodes.filterMap (claimOf toUint64 toUint16)).take MAX_IN_USE

/-- No climb from an unclaimed endpoint without a label goes on for ever. -/
def ClimbsEnd (nodes : List NodeConfig) (devices : List Device) (filterType : UInt32) : Prop :=
  ∀ e ∈ endpointsOf devices filterType, ¬ Claimed toUint64 toUint16 nodes e →
    cStr e.2.label ≠ "" ∨ Acc (fun b a => Climbs e.1 a b) e.2.parentEndpointId

/-! ## More steps change no label -/

section Labels

variable {d : Device} {ep : Endpoint} {a : UInt16} {fuel : ℕ} {label : String}

theorem climb_succ (h : climb d fuel a = some label) : climb d (fuel + 1) a = some label := by
  induction fuel generalizing a with
  | zero => exact absurd h.symm (Option.some_ne_none label)
  | succ fuel ih =>
    by_cases hex : ∃ b, Climbs d a b
    · obtain ⟨b, hb⟩ := hex
      rw [climb_of_climbs hb] at h ⊢
      exact ih h
    · rw [climb] at h ⊢
      split
      · rwa [if_pos ‹_›] at h
      · rename_i hparent
        rw [if_neg hparent] at h
        cases hfind : d.endpoints.find? (·.endpointId = a) with
        | none => rwa [hfind] at h
        | some parentEp =>
          rw [hfind] at h
          dsimp only at h ⊢
          have hlabel : cStr parentEp.label ≠ "" := fun hlabel =>
            hex ⟨_, hparent, parentEp, hfind, hlabel, rfl⟩
          rw [if_neg hlabel] at h ⊢
          exact h

theorem labelOf_mono {fuel' : ℕ} (hle : fuel ≤ fuel') (h : labelOf d fuel ep = some label) :
    labelOf d fuel' ep = some label := by
  induction fuel', hle using Nat.le_induction with
  | base => exact h
  | succ fuel' _ ih =>
    unfold labelOf at ih ⊢
    split
    · rw [if_pos ‹_›] at ih
      exact climb_succ ih
    · rwa [if_neg ‹_›] at ih

theorem walkEnds_iff : WalkEnds d ep ↔
    cStr ep.label ≠ "" ∨ Acc (fun b a => Climbs d a b) ep.parentEndpointId := by
  rw [← exists_climb_iff, WalkEnds]
  unfold labelOf
  by_cases hlabel : cStr ep.label = ""
  · simp [hlabel]
  · simp [hlabel]

/-- One number of steps is enough for all endpoints whose walks end. -/
theorem exists_fuel {l : List (Device × Endpoint)} (h : ∀ e ∈ l, WalkEnds e.1 e.2) :
    ∃ fuel, ∀ e ∈ l, ∃ label, labelOf e.1 fuel e.2 = some label := by
  induction l with
  | nil => exact ⟨0, fun e he => absurd he List.not_mem_nil⟩
  | cons e l ih =>
    obtain ⟨fuel, hrest⟩ := ih fun e he => h e (List.mem_cons_of_mem _ he)
    obtain ⟨fuel', label, hlabel⟩ := h e List.mem_cons_self
    refine ⟨max fuel fuel', fun e' he' => ?_⟩
    rcases List.mem_cons.mp he' with rfl | he'
    · exact ⟨label, labelOf_mono (le_max_right _ _) hlabel⟩
    · obtain ⟨label', hlabel'⟩ := hrest e' he'
      exact ⟨label', labelOf_mono (le_max_left _ _) hlabel'⟩

end Labels

/-! ## What is on offer -/

section Offer

variable {toUint64 toUint16} {fuel : ℕ} {used : List (UInt64 × UInt16)} {filterType : UInt32}

/-- What the loops let through. -/
def passing (toUint64 : ℚ → UInt64) (used : List (UInt64 × UInt16)) (filterType : UInt32)
    (l : List (Device × Endpoint)) : List (Device × Endpoint) :=
  (l.filter fun e => filterType ∈ e.2.deviceTypes).filter fun e => keyOf toUint64 e.1 e.2 ∉ used

theorem passing_cons (d : Device) (ep : Endpoint) (rest : List (Device × Endpoint)) :
    passing toUint64 used filterType ((d, ep) :: rest) =
      if filterType ∉ ep.deviceTypes then passing toUint64 used filterType rest
      else if keyOf toUint64 d ep ∈ used then passing toUint64 used filterType rest
      else (d, ep) :: passing toUint64 used filterType rest := by
  unfold passing
  by_cases htype : filterType ∈ ep.deviceTypes
  · by_cases hused : keyOf toUint64 d ep ∈ used <;> simp [htype, hused]
  · simp [htype]

theorem offer_spec {l : List (Device × Endpoint)} {entries : List Entry}
    (h : offer toUint64 fuel used filterType l = some entries) :
    List.Forall₂ (IsEntryOf toUint64) (passing toUint64 used filterType l) entries ∧
      ∀ e ∈ passing toUint64 used filterType l, WalkEnds e.1 e.2 := by
  induction l generalizing entries with
  | nil =>
    obtain rfl := Option.some.inj h
    exact ⟨.nil, fun e he => absurd he List.not_mem_nil⟩
  | cons e l ih =>
    obtain ⟨d, ep⟩ := e
    rw [passing_cons]
    rw [offer] at h
    split at h
    · rw [if_pos ‹_›]
      exact ih h
    · rw [if_neg ‹_›]
      split at h
      · rw [if_pos ‹_›]
        exact ih h
      · rw [if_neg ‹_›]
        obtain ⟨label, hlabel, h⟩ := Option.bind_eq_some_iff.mp h
        obtain ⟨rest, hrest, rfl⟩ := Option.map_eq_some_iff.mp h
        obtain ⟨hall, hends⟩ := ih hrest
        refine ⟨.cons ⟨rfl, rfl⟩ hall, fun e he => ?_⟩
        rcases List.mem_cons.mp he with rfl | he
        · exact ⟨fuel, label, hlabel⟩
        · exact hends e he

theorem exists_offer {l : List (Device × Endpoint)}
    (h : ∀ e ∈ passing toUint64 used filterType l, ∃ label, labelOf e.1 fuel e.2 = some label) :
    ∃ entries, offer toUint64 fuel used filterType l = some entries := by
  induction l with
  | nil => exact ⟨[], rfl⟩
  | cons e l ih =>
    obtain ⟨d, ep⟩ := e
    rw [passing_cons] at h
    rw [offer]
    split
    · rw [if_pos ‹_›] at h
      exact ih h
    · rw [if_neg ‹_›] at h
      split
      · rw [if_pos ‹_›] at h
        exact ih h
      · rw [if_neg ‹_›] at h
        obtain ⟨label, hlabel⟩ := h _ List.mem_cons_self
        obtain ⟨rest, hrest⟩ := ih fun e he => h e (List.mem_cons_of_mem _ he)
        rw [hlabel, hrest]
        exact ⟨_, rfl⟩

/-- Two filters of a list that keep as many, one of them no more than the other, keep the same. -/
theorem filter_eq_of_length {α : Type*} {p q : α → Bool} {l : List α}
    (himp : ∀ a ∈ l, q a = true → p a = true) (hlen : (l.filter p).length = (l.filter q).length) :
    l.filter p = l.filter q := by
  have hsub : (l.filter p).filter q = l.filter q := by
    rw [List.filter_filter]
    refine List.filter_congr fun a ha => ?_
    cases hq : q a with
    | false => rfl
    | true => rw [himp a ha hq]; rfl
  have hsublist : (l.filter q).Sublist (l.filter p) := by
    rw [← hsub]
    exact List.filter_sublist
  exact (hsublist.eq_of_length hlen.symm).symm

/-- The answer is right if and only if the claims fit into the table and the climbs to the labels
end. -/
theorem offersUnclaimed_iff (toUint64 : ℚ → UInt64) (toUint16 : ℚ → UInt16)
    (nodes : List NodeConfig) (devices : List Device) (filterType : UInt32) :
    OffersUnclaimed toUint64 toUint16 nodes devices filterType ↔
      ClaimsFit toUint64 toUint16 nodes devices filterType ∧
        ClimbsEnd toUint64 toUint16 nodes devices filterType := by
  let used := inUse toUint64 toUint16 nodes
  let unclaimed := (endpointsOf devices filterType).filter
    fun e => ¬ Claimed toUint64 toUint16 nodes e
  have hpassing : passing toUint64 used filterType (allEndpoints devices) =
      (endpointsOf devices filterType).filter fun e => keyOf toUint64 e.1 e.2 ∉ used := rfl
  have htable : ∀ e, keyOf toUint64 e.1 e.2 ∈ used → Claimed toUint64 toUint16 nodes e :=
    fun e he => List.mem_of_mem_take he
  constructor
  · rintro ⟨fuel, entries, hrun, hentries⟩
    obtain ⟨hall, hends⟩ := offer_spec hrun
    have hlen : (passing toUint64 used filterType (allEndpoints devices)).length =
        unclaimed.length := hall.length_eq.trans hentries.length_eq.symm
    have hsame : passing toUint64 used filterType (allEndpoints devices) = unclaimed := by
      refine filter_eq_of_length (fun e _ he => ?_) hlen
      exact decide_eq_true fun hin => (of_decide_eq_true he) (htable e hin)
    refine ⟨fun e he hclaimed => ?_, fun e he hnot => ?_⟩
    · by_contra hout
      have hmem : e ∈ passing toUint64 used filterType (allEndpoints devices) :=
        List.mem_filter.mpr ⟨he, decide_eq_true hout⟩
      rw [hsame] at hmem
      exact (of_decide_eq_true (List.mem_filter.mp hmem).2) hclaimed
    · refine walkEnds_iff.mp (hends e ?_)
      exact List.mem_filter.mpr ⟨he, decide_eq_true fun hin => hnot (htable e hin)⟩
  · rintro ⟨hfit, hclimbs⟩
    have hsame : passing toUint64 used filterType (allEndpoints devices) = unclaimed := by
      refine List.filter_congr fun e he => ?_
      rw [decide_eq_decide]
      exact not_congr ⟨htable e, hfit e he⟩
    have hends : ∀ e ∈ unclaimed, WalkEnds e.1 e.2 := fun e he =>
      walkEnds_iff.mpr (hclimbs e (List.mem_filter.mp he).1
        (of_decide_eq_true (List.mem_filter.mp he).2))
    obtain ⟨fuel, hfuel⟩ := exists_fuel hends
    have hlabels : ∀ e ∈ passing toUint64 used filterType (allEndpoints devices),
        ∃ label, labelOf e.1 fuel e.2 = some label := hsame ▸ hfuel
    obtain ⟨entries, hrun⟩ := exists_offer hlabels
    refine ⟨fuel, entries, hrun, ?_⟩
    have hall := (offer_spec hrun).1
    rwa [hsame] at hall

/-! ## A seventeenth node -/

/-- A node with the settings that claim an endpoint of the device 10000. -/
def claiming (endpointId : ℕ) : NodeConfig where
  id := "appliance"
  settings := .obj [("nodeId", .num 10000), ("endpointId", .num endpointId)]

/-- A device with one meter. -/
def meter : Device where
  nodeId := 10000
  endpoints := [{ endpointId := 1, label := "Meter", deviceTypes := [1296] }]

/-- A meter that the seventeenth node has claimed is offered again. -/
theorem seventeenth_offered : ¬ ∀ (toUint64 : ℚ → UInt64) (toUint16 : ℚ → UInt16)
    (nodes : List NodeConfig) (devices : List Device) (filterType : UInt32),
    OffersUnclaimed toUint64 toUint16 nodes devices filterType := by
  intro h
  obtain ⟨fuel, entries, hrun, hentries⟩ := h DeviceManager.toUInt64
    (fun x => UInt16.ofNat (x.num.toNat / x.den))
    (((List.range 16).map fun i => claiming (i + 2)) ++ [claiming 1]) [meter] 1296
  have hlen : entries.length = 1 := by
    have hall := (offer_spec hrun).1
    rw [← hall.length_eq]
    decide +kernel
  have hnone : entries.length = 0 := by
    rw [← hentries.length_eq]
    decide +kernel
  omega

end Offer

end HomeEnergyManager.WebServer
