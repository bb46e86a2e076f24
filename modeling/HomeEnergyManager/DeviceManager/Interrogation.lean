import Mathlib.Data.List.Nodup
import HomeEnergyManager.DeviceManager.Parents

/-! # What the reports of an interrogation leave

The reports of one interrogation change one device. A report creates the endpoints that it is about,
but for a `PartsList`, which creates those that it lists: what comes before its own endpoint is
known is lost.

Reference: `on_interrogation_attr` in `firmware/main/matter_controller.cpp`,
`firmware/main/managers/device_manager.cpp`.
-/

namespace HomeEnergyManager.DeviceManager

/-! ## The calls on a device -/

/-- `device_manager_add_endpoint`, on the device. -/
def Device.addEndpoint (d : Device) (endpointId : UInt16) : Device :=
  if d.endpoints.any (·.endpointId = endpointId) then d
  else { d with endpoints := d.endpoints ++ [{ endpointId }] }

/-- Change the endpoint that `find_endpoint` finds. -/
def Device.onEndpoint (d : Device) (endpointId : UInt16) (f : Endpoint → Endpoint) : Device :=
  { d with endpoints := updateFirst (·.endpointId = endpointId) f d.endpoints }

/-- The endpoint `p` is there, and so is `Q` of it. -/
def Device.Has (d : Device) (p : UInt16) (Q : Endpoint → Prop) : Prop :=
  ∃ ep ∈ d.endpoints, ep.endpointId = p ∧ Q ep

section Calls

variable {d : Device} {p id : UInt16} {Q : Endpoint → Prop} {f : Endpoint → Endpoint}

theorem has_true : d.Has p (fun _ => True) ↔ p ∈ d.endpointIds := by
  simp [Device.Has, Device.endpointIds]

theorem Device.Has.mem (h : d.Has p Q) : p ∈ d.endpointIds := by
  obtain ⟨ep, hep, rfl, -⟩ := h
  exact List.mem_map_of_mem hep

/-- Of an endpoint in the store, what the device has is what it has. -/
theorem has_iff_of_mem (hunique : d.endpointIds.Nodup) {ep : Endpoint} (hep : ep ∈ d.endpoints) :
    d.Has ep.endpointId Q ↔ Q ep := by
  refine ⟨?_, fun hQ => ⟨ep, hep, rfl, hQ⟩⟩
  rintro ⟨ep', hep', hid, hQ⟩
  rwa [List.inj_on_of_nodup_map hunique hep hep' hid.symm]

theorem any_endpointId : d.endpoints.any (·.endpointId = id) = true ↔ id ∈ d.endpointIds := by
  simp [Device.endpointIds]

theorem mem_addNew {α : Type*} [DecidableEq α] {a b : α} {l : List α} :
    b ∈ addNew a l ↔ b ∈ l ∨ b = a := by
  unfold addNew
  split
  · rename_i ha
    exact ⟨Or.inl, fun h => h.elim (fun hmem => hmem) fun hb => hb ▸ ha⟩
  · rw [List.mem_append, List.mem_singleton]

theorem nodup_addNew {α : Type*} [DecidableEq α] {a : α} {l : List α} (h : l.Nodup) :
    (addNew a l).Nodup := by
  unfold addNew
  split
  · exact h
  · rename_i ha
    rw [← List.concat_eq_append]
    exact h.concat ha

theorem endpointIds_addEndpoint : (d.addEndpoint id).endpointIds = addNew id d.endpointIds := by
  unfold Device.addEndpoint addNew
  by_cases hid : id ∈ d.endpointIds
  · rw [if_pos hid, if_pos (any_endpointId.mpr hid)]
  · rw [if_neg hid, if_neg (mt any_endpointId.mp hid), Device.endpointIds, List.map_append]
    rfl

/-- A new endpoint has its defaults. -/
theorem has_addEndpoint : (d.addEndpoint id).Has p Q ↔
    d.Has p Q ∨ p = id ∧ id ∉ d.endpointIds ∧ Q { endpointId := id } := by
  unfold Device.addEndpoint
  by_cases hid : id ∈ d.endpointIds
  · rw [if_pos (any_endpointId.mpr hid)]
    simp [hid]
  · rw [if_neg (mt any_endpointId.mp hid)]
    simp only [Device.Has, List.mem_append, List.mem_singleton]
    constructor
    · rintro ⟨ep, hep | rfl, hp, hQ⟩
      · exact .inl ⟨ep, hep, hp, hQ⟩
      · exact .inr ⟨hp.symm, hid, hQ⟩
    · rintro (⟨ep, hep, hp, hQ⟩ | ⟨rfl, -, hQ⟩)
      · exact ⟨ep, .inl hep, hp, hQ⟩
      · exact ⟨_, .inr rfl, rfl, hQ⟩

theorem map_updateFirst (hf : ∀ ep, (f ep).endpointId = ep.endpointId) (l : List Endpoint) :
    (updateFirst (·.endpointId = id) f l).map (·.endpointId) = l.map (·.endpointId) := by
  induction l with
  | nil => rfl
  | cons a l ih =>
    rw [updateFirst]
    split
    · rw [List.map_cons, List.map_cons, hf]
    · rw [List.map_cons, List.map_cons, ih]

theorem endpointIds_onEndpoint (hf : ∀ ep, (f ep).endpointId = ep.endpointId) :
    (d.onEndpoint id f).endpointIds = d.endpointIds :=
  map_updateFirst hf _

theorem has_onEndpoint_self (hunique : d.endpointIds.Nodup)
    (hf : ∀ ep, (f ep).endpointId = ep.endpointId) :
    (d.onEndpoint id f).Has id Q ↔ d.Has id fun ep => Q (f ep) := by
  unfold Device.Has Device.onEndpoint Device.endpointIds at *
  dsimp only
  generalize d.endpoints = l at hunique
  induction l with
  | nil => simp [updateFirst]
  | cons a l ih =>
    rw [List.map_cons, List.nodup_cons] at hunique
    rw [updateFirst]
    split
    · rename_i ha
      have ha : a.endpointId = id := of_decide_eq_true ha
      have hnot : ∀ ep ∈ l, ep.endpointId ≠ id := fun ep hep hid =>
        hunique.1 (List.mem_map.mpr ⟨ep, hep, hid.trans ha.symm⟩)
      simp only [List.mem_cons, exists_eq_or_imp, hf]
      refine or_congr Iff.rfl ⟨?_, ?_⟩ <;>
        exact fun ⟨ep, hep, hid, _⟩ => absurd hid (hnot ep hep)
    · rename_i ha
      have ha : a.endpointId ≠ id := fun heq => ha (decide_eq_true heq)
      simp only [List.mem_cons, exists_eq_or_imp, ih hunique.2, ha, false_and, false_or]

theorem has_onEndpoint_of_ne (hp : p ≠ id) (hf : ∀ ep, (f ep).endpointId = ep.endpointId) :
    (d.onEndpoint id f).Has p Q ↔ d.Has p Q := by
  unfold Device.Has Device.onEndpoint
  dsimp only
  generalize d.endpoints = l
  induction l with
  | nil => rfl
  | cons a l ih =>
    rw [updateFirst]
    split
    · rename_i ha
      have ha : a.endpointId ≠ p := fun heq => hp (heq.symm.trans (of_decide_eq_true ha))
      simp only [List.mem_cons, exists_eq_or_imp, hf, ha, false_and]
    · simp only [List.mem_cons, exists_eq_or_imp, ih]

/-- A change of one endpoint that adds `R` to what it has. -/
theorem has_onEndpoint (hunique : d.endpointIds.Nodup) {R : Prop}
    (hf : ∀ ep, (f ep).endpointId = ep.endpointId) (hQ : ∀ ep, Q (f ep) ↔ Q ep ∨ R) :
    (d.onEndpoint id f).Has p Q ↔ d.Has p Q ∨ p = id ∧ id ∈ d.endpointIds ∧ R := by
  by_cases hp : p = id
  · subst hp
    rw [has_onEndpoint_self hunique hf, ← has_true]
    constructor
    · rintro ⟨ep, hep, hid, hown⟩
      rcases (hQ ep).mp hown with hown | hR
      · exact .inl ⟨ep, hep, hid, hown⟩
      · exact .inr ⟨rfl, ⟨ep, hep, hid, trivial⟩, hR⟩
    · rintro (⟨ep, hep, hid, hown⟩ | ⟨-, ⟨ep, hep, hid, -⟩, hR⟩)
      · exact ⟨ep, hep, hid, (hQ ep).mpr (.inl hown)⟩
      · exact ⟨ep, hep, hid, (hQ ep).mpr (.inr hR)⟩
  · rw [has_onEndpoint_of_ne hp hf]
    simp [hp]

variable {α : Type*} {g : α → Endpoint → Endpoint} {R : α → Prop}

theorem endpointIds_foldl_onEndpoint (hg : ∀ c ep, (g c ep).endpointId = ep.endpointId)
    (l : List α) : (l.foldl (fun d c => d.onEndpoint id (g c)) d).endpointIds = d.endpointIds := by
  induction l generalizing d with
  | nil => rfl
  | cons c l ih => exact ih.trans (endpointIds_onEndpoint (hg c))

/-- Changes of one endpoint, one after the other. -/
theorem has_foldl_onEndpoint (hunique : d.endpointIds.Nodup)
    (hg : ∀ c ep, (g c ep).endpointId = ep.endpointId) (hQ : ∀ c ep, Q (g c ep) ↔ Q ep ∨ R c)
    (l : List α) : (l.foldl (fun d c => d.onEndpoint id (g c)) d).Has p Q ↔
      d.Has p Q ∨ p = id ∧ id ∈ d.endpointIds ∧ ∃ c ∈ l, R c := by
  induction l generalizing d with
  | nil => simp
  | cons c l ih =>
    have hids : (d.onEndpoint id (g c)).endpointIds = d.endpointIds := endpointIds_onEndpoint (hg c)
    rw [List.foldl_cons, ih (hids ▸ hunique), hids, has_onEndpoint hunique (hg c) (hQ c), or_assoc,
      ← and_or_left, ← and_or_left]
    simp only [List.mem_cons, exists_eq_or_imp]

/-- Changes of an endpoint that was created for them. -/
theorem has_created (hunique : d.endpointIds.Nodup)
    (hg : ∀ c ep, (g c ep).endpointId = ep.endpointId) (hQ : ∀ c ep, Q (g c ep) ↔ Q ep ∨ R c)
    (l : List α) : (l.foldl (fun d c => d.onEndpoint id (g c)) (d.addEndpoint id)).Has p Q ↔
      d.Has p Q ∨ p = id ∧ (id ∉ d.endpointIds ∧ Q { endpointId := id } ∨ ∃ c ∈ l, R c) := by
  have hunique' : (d.addEndpoint id).endpointIds.Nodup :=
    endpointIds_addEndpoint ▸ nodup_addNew hunique
  have hid : id ∈ (d.addEndpoint id).endpointIds := by
    rw [endpointIds_addEndpoint, mem_addNew]
    exact .inr rfl
  rw [has_foldl_onEndpoint hunique' hg hQ, has_addEndpoint, or_assoc, ← and_or_left]
  simp only [hid, true_and]

/-- Changes of an endpoint that was created for them, seen by what they do not change. -/
theorem has_created_frame (hunique : d.endpointIds.Nodup)
    (hg : ∀ c ep, (g c ep).endpointId = ep.endpointId) (hQ : ∀ c ep, Q (g c ep) ↔ Q ep)
    (l : List α) : (l.foldl (fun d c => d.onEndpoint id (g c)) (d.addEndpoint id)).Has p Q ↔
      d.Has p Q ∨ p ∉ d.endpointIds ∧ p ∈ [id] ∧ Q { endpointId := p } := by
  have hnone : ∀ c ep, Q (g c ep) ↔ Q ep ∨ False := fun c ep => (hQ c ep).trans (by simp)
  rw [has_created (R := fun _ => False) hunique hg hnone, List.mem_singleton]
  refine or_congr Iff.rfl ⟨?_, ?_⟩
  · rintro ⟨rfl, ⟨hnew, hfresh⟩ | ⟨-, -, hfalse⟩⟩
    · exact ⟨hnew, rfl, hfresh⟩
    · exact hfalse.elim
  · rintro ⟨hnew, rfl, hfresh⟩
    exact ⟨rfl, .inl ⟨hnew, hfresh⟩⟩

end Calls

/-! ## The reports on a device -/

/-- `device_manager_add_endpoint_part`, on the endpoint. -/
def addPart (part : UInt16) (ep : Endpoint) : Endpoint := { ep with parts := addNew part ep.parts }

/-- `device_manager_add_device_type`. -/
def addType (deviceType : UInt32) (ep : Endpoint) : Endpoint :=
  { ep with deviceTypes := addNew deviceType ep.deviceTypes }

/-- `device_manager_set_endpoint_dem`, with `true`. -/
def setDem (_ : UInt32) (ep : Endpoint) : Endpoint := { ep with hasDem := true }

/-- `device_manager_set_endpoint_label`. -/
def setLabel (label : String) (ep : Endpoint) : Endpoint := { ep with label }

/-- One part of a `PartsList`. -/
def Device.listPart (endpointId : UInt16) (d : Device) (part : UInt16) : Device :=
  (d.addEndpoint part).onEndpoint endpointId (addPart part)

/-- What a report does to its device. -/
def Device.receive (d : Device) : Report → Device
  | .partsList endpointId parts => parts.foldl (Device.listPart endpointId) d
  | .serverList endpointId clusters =>
    (clusters.filter (· = kClusterDeviceEnergyManagement)).foldl
      (fun d c => d.onEndpoint endpointId (setDem c)) (d.addEndpoint endpointId)
  | .deviceTypeList endpointId deviceTypes =>
    (deviceTypes.filter (· ≠ 0)).foldl (fun d t => d.onEndpoint endpointId (addType t))
      (d.addEndpoint endpointId)
  | .vendorName name => { d with vendorName := name }
  | .productName name => { d with productName := name }
  | .nodeLabel endpointId label =>
    (d.addEndpoint endpointId).onEndpoint endpointId (setLabel label)

/-- The endpoints that a report creates, if they are new. -/
def Report.creates : Report → List UInt16
  | partsList _ parts => parts
  | serverList endpointId _ => [endpointId]
  | deviceTypeList endpointId _ => [endpointId]
  | vendorName _ => []
  | productName _ => []
  | nodeLabel endpointId _ => [endpointId]

/-- The parts of endpoint `p` that a report leaves there, with `p` known before or not. -/
def Report.leaves (p : UInt16) (known : Bool) : Report → List UInt16
  | partsList endpointId parts =>
    if endpointId = p then if known then parts else parts.dropWhile (· ≠ p) else []
  | _ => []

/-- Append what is new. -/
def addAll (l : List UInt16) : List UInt16 → List UInt16 := List.foldl (fun l a => addNew a l) l

section Reports

variable {d : Device} {p x : UInt16} {r : Report} {rs : List Report}

theorem mem_addAll {l m : List UInt16} {a : UInt16} : a ∈ addAll l m ↔ a ∈ l ∨ a ∈ m := by
  unfold addAll
  induction m generalizing l with
  | nil => simp
  | cons b m ih =>
    rw [List.foldl_cons, ih, mem_addNew, List.mem_cons, or_assoc]

theorem nodup_addAll {l m : List UInt16} (h : l.Nodup) : (addAll l m).Nodup := by
  unfold addAll
  induction m generalizing l with
  | nil => exact h
  | cons b m ih => exact ih (nodup_addNew h)

/-- A `PartsList` creates its parts, and leaves those that come when its own endpoint is there. -/
theorem listPart_foldl (endpointId : UInt16) (parts : List UInt16) (hunique : d.endpointIds.Nodup) :
    (parts.foldl (Device.listPart endpointId) d).endpointIds = addAll d.endpointIds parts ∧
    ((parts.foldl (Device.listPart endpointId) d).Lists p x ↔ d.Lists p x ∨
      x ∈ Report.leaves p (decide (p ∈ d.endpointIds)) (.partsList endpointId parts)) ∧
    ∀ Q : Endpoint → Prop, (∀ part ep, Q (addPart part ep) ↔ Q ep) →
      ((parts.foldl (Device.listPart endpointId) d).Has p Q ↔
        d.Has p Q ∨ p ∉ d.endpointIds ∧ p ∈ parts ∧ Q { endpointId := p }) := by
  induction parts generalizing d with
  | nil => simp [addAll, Report.leaves]
  | cons part parts ih =>
    have hids : (d.listPart endpointId part).endpointIds = addNew part d.endpointIds :=
      (endpointIds_onEndpoint (f := addPart part) fun _ => rfl).trans endpointIds_addEndpoint
    have hunique' : (d.addEndpoint part).endpointIds.Nodup :=
      endpointIds_addEndpoint ▸ nodup_addNew hunique
    obtain ⟨hrest, hlists, hhas⟩ := @ih (d.listPart endpointId part) (hids ▸ nodup_addNew hunique)
    rw [List.foldl_cons]
    refine ⟨hrest.trans (by rw [hids]; rfl), hlists.trans ?_, fun Q hQ => (hhas Q hQ).trans ?_⟩
    -- the endpoint is there from the part on that is itself
    · have hone : (d.listPart endpointId part).Lists p x ↔
          d.Lists p x ∨ p = endpointId ∧ (p ∈ d.endpointIds ∨ p = part) ∧ x = part := by
        have hadd : (d.listPart endpointId part).Lists p x ↔ _ :=
          has_onEndpoint (f := addPart part) (Q := (x ∈ ·.parts)) (R := x = part) hunique'
            (fun _ => rfl) fun _ => mem_addNew
        rw [hadd, has_addEndpoint, endpointIds_addEndpoint, mem_addNew]
        have hfresh : x ∉ ({ endpointId := part } : Endpoint).parts := List.not_mem_nil
        constructor
        · rintro ((hold | ⟨-, -, hnew⟩) | ⟨rfl, hknown, hx⟩)
          · exact .inl hold
          · exact absurd hnew hfresh
          · exact .inr ⟨rfl, hknown, hx⟩
        · rintro (hold | ⟨rfl, hknown, hx⟩)
          · exact .inl (.inl hold)
          · exact .inr ⟨rfl, hknown, hx⟩
      rw [hone, hids]
      simp only [Report.leaves, mem_addNew, decide_eq_true_eq]
      by_cases hid : endpointId = p
      · subst hid
        by_cases hknown : endpointId ∈ d.endpointIds
        · simp [hknown, or_assoc]
        · by_cases hpart : endpointId = part
          · subst hpart
            simp [hknown, or_assoc]
          · simp [hknown, hpart, Ne.symm hpart]
      · simp [hid, Ne.symm hid]
    · have hone : (d.listPart endpointId part).Has p Q ↔ d.Has p Q ∨
          p = part ∧ part ∉ d.endpointIds ∧ Q { endpointId := part } := by
        have hframe : (d.listPart endpointId part).Has p Q ↔ _ :=
          has_onEndpoint (f := addPart part) (Q := Q) (R := False) hunique' (fun _ => rfl)
            fun ep => (hQ part ep).trans (by simp)
        rw [hframe, has_addEndpoint]
        simp
      rw [hone, hids, mem_addNew, List.mem_cons]
      constructor
      · rintro ((hold | ⟨rfl, hnew, hQp⟩) | ⟨hnew, hmem, hQp⟩)
        · exact .inl hold
        · exact .inr ⟨hnew, .inl rfl, hQp⟩
        · exact .inr ⟨fun hp => hnew (.inl hp), .inr hmem, hQp⟩
      · rintro (hold | ⟨hnew, rfl | hmem, hQp⟩)
        · exact .inl (.inl hold)
        · exact .inl (.inr ⟨rfl, hnew, hQp⟩)
        · by_cases hpart : p = part
          · subst hpart
            exact .inl (.inr ⟨rfl, hnew, hQp⟩)
          · exact .inr ⟨fun h => h.elim hnew hpart, hmem, hQp⟩

theorem endpointIds_receive (hunique : d.endpointIds.Nodup) (r : Report) :
    (d.receive r).endpointIds = addAll d.endpointIds r.creates := by
  cases r with
  | partsList e parts => exact (@listPart_foldl d 0 0 e parts hunique).1
  | serverList e clusters =>
    exact (endpointIds_foldl_onEndpoint (g := setDem) (fun _ _ => rfl) _).trans
      endpointIds_addEndpoint
  | deviceTypeList e types =>
    exact (endpointIds_foldl_onEndpoint (g := addType) (fun _ _ => rfl) _).trans
      endpointIds_addEndpoint
  | vendorName name => rfl
  | productName name => rfl
  | nodeLabel e label =>
    exact (endpointIds_onEndpoint (f := setLabel label) fun _ => rfl).trans endpointIds_addEndpoint

theorem nodup_receive (hunique : d.endpointIds.Nodup) (r : Report) :
    (d.receive r).endpointIds.Nodup := by
  rw [endpointIds_receive hunique]
  exact nodup_addAll hunique

/-- Only a `PartsList` leaves parts. -/
theorem lists_receive (hunique : d.endpointIds.Nodup) (r : Report) :
    (d.receive r).Lists p x ↔ d.Lists p x ∨ x ∈ r.leaves p (decide (p ∈ d.endpointIds)) := by
  have hsame : ∀ {r : Report}, (∀ known, r.leaves p known = []) →
      ((d.receive r).Lists p x ↔ d.Lists p x ∨ p ∉ d.endpointIds ∧ p ∈ r.creates ∧
        x ∈ ({ endpointId := p } : Endpoint).parts) →
      ((d.receive r).Lists p x ↔ d.Lists p x ∨ x ∈ r.leaves p (decide (p ∈ d.endpointIds))) := by
    intro r hnone hframe
    rw [hframe, hnone]
    simp
  cases r with
  | partsList e parts => exact (listPart_foldl e parts hunique).2.1
  | serverList e clusters =>
    exact hsame (fun _ => rfl) (has_created_frame (g := setDem) (Q := (x ∈ ·.parts)) hunique
      (fun _ _ => rfl) (fun _ _ => Iff.rfl) _)
  | deviceTypeList e types =>
    exact hsame (fun _ => rfl) (has_created_frame (g := addType) (Q := (x ∈ ·.parts)) hunique
      (fun _ _ => rfl) (fun _ _ => Iff.rfl) _)
  | vendorName name => exact (or_iff_left List.not_mem_nil).symm
  | productName name => exact (or_iff_left List.not_mem_nil).symm
  | nodeLabel e label =>
    exact hsame (fun _ => rfl) (has_created_frame (g := setLabel) (Q := (x ∈ ·.parts)) hunique
      (fun _ _ => rfl) (fun _ _ => Iff.rfl) [label])

/-- A device type of endpoint `p` that a report gives. -/
def Report.GivesType (p : UInt16) (t : UInt32) (r : Report) : Prop :=
  ∃ types, r = .deviceTypeList p types ∧ t ∈ types ∧ t ≠ 0

/-- A report that endpoint `p` has Device Energy Management. -/
def Report.GivesDem (p : UInt16) (r : Report) : Prop :=
  ∃ clusters, r = .serverList p clusters ∧ kClusterDeviceEnergyManagement ∈ clusters

theorem type_receive (hunique : d.endpointIds.Nodup) (r : Report) {t : UInt32} :
    (d.receive r).Has p (t ∈ ·.deviceTypes) ↔ d.Has p (t ∈ ·.deviceTypes) ∨ r.GivesType p t := by
  unfold Report.GivesType
  cases r with
  | partsList e parts =>
    have hparts := (@listPart_foldl d p 0 e parts hunique).2.2 (t ∈ ·.deviceTypes)
      fun part ep => Iff.rfl
    exact hparts.trans (by simp)
  | serverList e clusters =>
    have hdem : (d.receive (.serverList e clusters)).Has p (t ∈ ·.deviceTypes) ↔ _ :=
      has_created_frame (g := setDem) (Q := (t ∈ ·.deviceTypes)) hunique (fun _ _ => rfl)
        (fun _ _ => Iff.rfl) _
    exact hdem.trans (by simp)
  | deviceTypeList e types =>
    have htypes : (d.receive (.deviceTypeList e types)).Has p (t ∈ ·.deviceTypes) ↔ _ :=
      has_created (g := addType) (Q := (t ∈ ·.deviceTypes)) (R := fun c => t = c) hunique
        (fun _ _ => rfl) (fun _ _ => mem_addNew) _
    refine htypes.trans (or_congr Iff.rfl ⟨?_, ?_⟩)
    · rintro ⟨rfl, ⟨-, hnil⟩ | ⟨c, hc, rfl⟩⟩
      · exact absurd hnil List.not_mem_nil
      · obtain ⟨hmem, hne⟩ := List.mem_filter.mp hc
        exact ⟨types, rfl, hmem, of_decide_eq_true hne⟩
    · rintro ⟨_, heq, hmem, hne⟩
      obtain ⟨rfl, rfl⟩ := Report.deviceTypeList.inj heq
      exact ⟨rfl, .inr ⟨t, List.mem_filter.mpr ⟨hmem, decide_eq_true hne⟩, rfl⟩⟩
  | vendorName name => exact (or_iff_left (by simp)).symm
  | productName name => exact (or_iff_left (by simp)).symm
  | nodeLabel e label =>
    have hlabel : (d.receive (.nodeLabel e label)).Has p (t ∈ ·.deviceTypes) ↔ _ :=
      has_created_frame (g := setLabel) (Q := (t ∈ ·.deviceTypes)) hunique (fun _ _ => rfl)
        (fun _ _ => Iff.rfl) [label]
    exact hlabel.trans (by simp)

theorem dem_receive (hunique : d.endpointIds.Nodup) (r : Report) :
    (d.receive r).Has p (·.hasDem = true) ↔ d.Has p (·.hasDem = true) ∨ r.GivesDem p := by
  unfold Report.GivesDem
  cases r with
  | partsList e parts =>
    have hparts := (@listPart_foldl d p 0 e parts hunique).2.2 (·.hasDem = true)
      fun part ep => Iff.rfl
    exact hparts.trans (by simp)
  | serverList e clusters =>
    have hdem : (d.receive (.serverList e clusters)).Has p (·.hasDem = true) ↔ _ :=
      has_created (g := setDem) (Q := (·.hasDem = true)) (R := fun _ => True) hunique
        (fun _ _ => rfl) (fun _ _ => by simp [setDem]) _
    refine hdem.trans (or_congr Iff.rfl ?_)
    simp [eq_comm]
  | deviceTypeList e types =>
    have htypes : (d.receive (.deviceTypeList e types)).Has p (·.hasDem = true) ↔ _ :=
      has_created_frame (g := addType) (Q := (·.hasDem = true)) hunique (fun _ _ => rfl)
        (fun _ _ => Iff.rfl) _
    exact htypes.trans (by simp)
  | vendorName name => exact (or_iff_left (by simp)).symm
  | productName name => exact (or_iff_left (by simp)).symm
  | nodeLabel e label =>
    have hlabel : (d.receive (.nodeLabel e label)).Has p (·.hasDem = true) ↔ _ :=
      has_created_frame (g := setLabel) (Q := (·.hasDem = true)) hunique (fun _ _ => rfl)
        (fun _ _ => Iff.rfl) [label]
    exact hlabel.trans (by simp)

/-- A label is what the report says; a new endpoint has none. -/
theorem label_receive (hunique : d.endpointIds.Nodup) (r : Report) {l : String} :
    (d.receive r).Has p (·.label = l) ↔ r = .nodeLabel p l ∨ (∀ l', r ≠ .nodeLabel p l') ∧
      (d.Has p (·.label = l) ∨ p ∉ d.endpointIds ∧ p ∈ r.creates ∧ "" = l) := by
  cases r with
  | partsList e parts =>
    have hparts := (@listPart_foldl d p 0 e parts hunique).2.2 (·.label = l) fun part ep => Iff.rfl
    exact hparts.trans (by simp [Report.creates])
  | serverList e clusters =>
    have hdem : (d.receive (.serverList e clusters)).Has p (·.label = l) ↔ _ :=
      has_created_frame (g := setDem) (Q := (·.label = l)) hunique (fun _ _ => rfl)
        (fun _ _ => Iff.rfl) _
    exact hdem.trans (by simp [Report.creates])
  | deviceTypeList e types =>
    have htypes : (d.receive (.deviceTypeList e types)).Has p (·.label = l) ↔ _ :=
      has_created_frame (g := addType) (Q := (·.label = l)) hunique (fun _ _ => rfl)
        (fun _ _ => Iff.rfl) _
    exact htypes.trans (by simp [Report.creates])
  | vendorName name => simp [Device.receive, Device.Has, Report.creates]
  | productName name => simp [Device.receive, Device.Has, Report.creates]
  | nodeLabel e label =>
    have hunique' : (d.addEndpoint e).endpointIds.Nodup :=
      endpointIds_addEndpoint ▸ nodup_addNew hunique
    by_cases hp : p = e
    · subst hp
      have hself : (d.receive (.nodeLabel p label)).Has p (·.label = l) ↔ _ :=
        has_onEndpoint_self (f := setLabel label) (Q := (·.label = l)) hunique' fun _ => rfl
      have hthere : (d.addEndpoint p).Has p fun _ => True := by
        rw [has_true, endpointIds_addEndpoint, mem_addNew]
        exact .inr rfl
      rw [hself]
      obtain ⟨ep, hep, hid, -⟩ := hthere
      constructor
      · rintro ⟨_, -, -, hl⟩
        exact .inl (by rw [← show label = l from hl])
      · rintro (heq | ⟨hno, -⟩)
        · injection heq with _ hl
          exact ⟨ep, hep, hid, hl⟩
        · exact absurd rfl (hno label)
    · have hother : (d.receive (.nodeLabel e label)).Has p (·.label = l) ↔ _ :=
        has_onEndpoint_of_ne (f := setLabel label) (Q := (·.label = l)) hp fun _ => rfl
      rw [hother, has_addEndpoint]
      simp [Report.creates, hp, Ne.symm hp]

/-! ## All reports -/

theorem endpointIds_foldl (hunique : d.endpointIds.Nodup) :
    (rs.foldl Device.receive d).endpointIds = addAll d.endpointIds (rs.flatMap Report.creates) := by
  induction rs generalizing d with
  | nil => rfl
  | cons r rs ih =>
    rw [List.foldl_cons, ih (nodup_receive hunique r), endpointIds_receive hunique,
      List.flatMap_cons]
    exact (List.foldl_append ..).symm

theorem nodup_foldl (hunique : d.endpointIds.Nodup) :
    (rs.foldl Device.receive d).endpointIds.Nodup := by
  rw [endpointIds_foldl hunique]
  exact nodup_addAll hunique

/-- The parts are those that some report left, by what was known when it came. -/
theorem lists_foldl (hunique : d.endpointIds.Nodup) :
    (rs.foldl Device.receive d).Lists p x ↔ d.Lists p x ∨ ∃ before r after,
      rs = before ++ r :: after ∧
        x ∈ r.leaves p (decide (p ∈ d.endpointIds ∨ p ∈ before.flatMap Report.creates)) := by
  induction rs generalizing d with
  | nil => simp
  | cons r rs ih =>
    rw [List.foldl_cons, ih (nodup_receive hunique r), lists_receive hunique,
      endpointIds_receive hunique, or_assoc]
    simp only [mem_addAll]
    refine or_congr Iff.rfl ⟨?_, ?_⟩
    · rintro (hfirst | ⟨before, r', after, rfl, hx⟩)
      · exact ⟨[], r, rs, rfl, by simpa using hfirst⟩
      · refine ⟨r :: before, r', after, rfl, ?_⟩
        simpa only [List.flatMap_cons, List.mem_append, or_assoc] using hx
    · rintro ⟨before, r', after, hsplit, hx⟩
      cases before with
      | nil =>
        obtain ⟨rfl, rfl⟩ := List.cons.inj hsplit
        exact .inl (by simpa using hx)
      | cons r₀ before =>
        obtain ⟨rfl, rfl⟩ := List.cons.inj hsplit
        refine .inr ⟨before, r', after, rfl, ?_⟩
        simpa only [List.flatMap_cons, List.mem_append, or_assoc] using hx

theorem type_foldl (hunique : d.endpointIds.Nodup) {t : UInt32} :
    (rs.foldl Device.receive d).Has p (t ∈ ·.deviceTypes) ↔
      d.Has p (t ∈ ·.deviceTypes) ∨ ∃ r ∈ rs, r.GivesType p t := by
  induction rs generalizing d with
  | nil => simp
  | cons r rs ih =>
    rw [List.foldl_cons, ih (nodup_receive hunique r), type_receive hunique, or_assoc]
    simp only [List.mem_cons, exists_eq_or_imp]

theorem dem_foldl (hunique : d.endpointIds.Nodup) :
    (rs.foldl Device.receive d).Has p (·.hasDem = true) ↔
      d.Has p (·.hasDem = true) ∨ ∃ r ∈ rs, r.GivesDem p := by
  induction rs generalizing d with
  | nil => simp
  | cons r rs ih =>
    rw [List.foldl_cons, ih (nodup_receive hunique r), dem_receive hunique, or_assoc]
    simp only [List.mem_cons, exists_eq_or_imp]

/-- With one report for each label, that is the label. -/
theorem label_foldl (hunique : d.endpointIds.Nodup) {l : String}
    (honce : rs.Pairwise fun r r' => ∀ l l', r = .nodeLabel p l → r' ≠ .nodeLabel p l') :
    (rs.foldl Device.receive d).Has p (·.label = l) ↔ .nodeLabel p l ∈ rs ∨
      (∀ l', .nodeLabel p l' ∉ rs) ∧ (d.Has p (·.label = l) ∨
        p ∉ d.endpointIds ∧ p ∈ rs.flatMap Report.creates ∧ "" = l) := by
  induction rs generalizing d with
  | nil => simp
  | cons r rs ih =>
    obtain ⟨hfirst, hrest⟩ := List.pairwise_cons.mp honce
    rw [List.foldl_cons, ih (nodup_receive hunique r) hrest, label_receive hunique,
      endpointIds_receive hunique, mem_addAll]
    simp only [List.mem_cons, List.flatMap_cons, List.mem_append, not_or, forall_and]
    by_cases hlabel : ∃ l₀, r = .nodeLabel p l₀
    · obtain ⟨l₀, rfl⟩ := hlabel
      have hnone : ∀ l', .nodeLabel p l' ∉ rs := fun l' hmem => hfirst _ hmem l₀ l' rfl rfl
      have hcreates : p ∈ (Report.nodeLabel p l₀).creates := List.mem_singleton_self p
      have hsome : ¬ ∀ l', Report.nodeLabel p l₀ ≠ .nodeLabel p l' := fun h => h l₀ rfl
      simp only [hnone, hcreates, hsome, eq_comm, not_false_eq_true, implies_true, true_and,
        false_and, or_false, not_true_eq_false, and_false, false_or]
    · have hne : ∀ l', r ≠ .nodeLabel p l' := fun l' heq => hlabel ⟨l', heq⟩
      have hne' : ∀ l', ¬ Report.nodeLabel p l' = r := fun l' heq => hne l' heq.symm
      simp only [hne, hne', ne_eq, not_false_eq_true, implies_true, true_and, false_or]
      tauto

end Reports

end HomeEnergyManager.DeviceManager
