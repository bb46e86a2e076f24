import Mathlib.Data.List.Perm.Basic
import HomeEnergyManager.DeviceManager.FamilyTree
import HomeEnergyManager.DeviceManager.Interrogation

/-! # The order of the reports

Whether an interrogation leaves the same endpoints in whatever order its reports come. A `PartsList`
does not create its own endpoint, so what it lists before that is lost unless another report came
first; and of several deepest endpoints that list an endpoint the one that was created first becomes
its parent.

Reference: `on_interrogation_attr` in `firmware/main/matter_controller.cpp`,
`firmware/main/managers/device_manager.cpp`.
-/

namespace HomeEnergyManager.DeviceManager

open FirstMax

/-! ## An interrogation -/

/-- The attributes that an interrogation reads. -/
inductive Attribute where
  | partsList
  | serverList
  | deviceTypeList
  | vendorName
  | productName
  | nodeLabel
deriving DecidableEq

/-- The attribute that a report is about; the names are those of endpoint 0. -/
def Report.path : Report → Attribute × UInt16
  | partsList endpointId _ => (.partsList, endpointId)
  | serverList endpointId _ => (.serverList, endpointId)
  | deviceTypeList endpointId _ => (.deviceTypeList, endpointId)
  | vendorName _ => (.vendorName, 0)
  | productName _ => (.productName, 0)
  | nodeLabel endpointId _ => (.nodeLabel, endpointId)

/-- The reports of one interrogation: each attribute of an endpoint is reported once. -/
structure Interrogation where
  reports : List Report
  once : (reports.map Report.path).Nodup

/-- `find_device`. -/
def Store.find (nodeId : UInt64) (s : Store) : Option Device :=
  s.devices.find? (·.nodeId = nodeId)

/-- `matter_controller_interrogate_node` and `on_interrogation_done`, with the reports in the order
in which they come. A device that was just commissioned has no endpoints to clear. -/
def interrogate (nodeId : UInt64) (rs : List Report) (s : Store) : Store :=
  let s := Op.apply (Op.apply s (.clearDeviceEndpoints nodeId)) (.addDevice nodeId)
  Op.apply ((rs.flatMap (Report.ops nodeId)).foldl Op.apply s) (.resolveParents nodeId)

/-- The same endpoint, but for the order of its device types and parts. -/
structure Endpoint.Same (ep ep' : Endpoint) : Prop where
  endpointId : ep.endpointId = ep'.endpointId
  parent : ep.parentEndpointId = ep'.parentEndpointId
  label : ep.label = ep'.label
  dem : ep.hasDem = ep'.hasDem
  types : ∀ t, t ∈ ep.deviceTypes ↔ t ∈ ep'.deviceTypes
  parts : ∀ x, x ∈ ep.parts ↔ x ∈ ep'.parts

/-- The same endpoints, in whatever order. -/
def Device.Same (d d' : Device) : Prop :=
  (∀ ep ∈ d.endpoints, ∃ ep' ∈ d'.endpoints, ep.Same ep') ∧
    ∀ ep' ∈ d'.endpoints, ∃ ep ∈ d.endpoints, ep.Same ep'

/-- In whatever order the reports come, they leave the same endpoints. -/
def OrderIndependent (nodeId : UInt64) (rs : List Report) (s : Store) : Prop :=
  ∀ rs', rs'.Perm rs → ∃ d d', (interrogate nodeId rs s).find nodeId = some d ∧
    (interrogate nodeId rs' s).find nodeId = some d' ∧ d.Same d'

/-! ## What the reports tell -/

/-- The parts of `p`, as its `PartsList` leaves them when no other report creates `p` before. -/
def partsIn (rs : List Report) (p : UInt16) : List UInt16 := rs.flatMap (Report.leaves p false)

/-- The least number of listings from endpoint 0; 0 if there are none. -/
noncomputable def distIn (rs : List Report) (x : UInt16) : ℕ :=
  sInf {n | BreadthFirst.Walk (partsIn rs) 0 n x}

/-- Of the endpoints that list `x`, none is farther from endpoint 0 than `p`. -/
def DeepestIn (rs : List Report) (x p : UInt16) : Prop :=
  x ∈ partsIn rs p ∧ ∀ q, x ∈ partsIn rs q → distIn rs q ≤ distIn rs p

/-- An endpoint that another report creates as well lists nothing that it does not list after
itself. -/
def PartsKept (rs : List Report) : Prop :=
  ∀ p parts, .partsList p parts ∈ rs → (∃ r ∈ rs, r ≠ .partsList p parts ∧ p ∈ r.creates) →
    ∀ x ∈ parts, x ∈ parts.dropWhile (· ≠ p)

/-- Of the deepest endpoints that list an endpoint, all reports that create some create the same one
first. -/
def TiesMet (rs : List Report) : Prop :=
  ∀ x, ∀ r ∈ rs, ∀ r' ∈ rs, ∀ p p', IsFirst (DeepestIn rs x) r.creates p →
    IsFirst (DeepestIn rs x) r'.creates p' → p = p'

/-! ## The device in the store -/

section Find

variable {nodeId : UInt64} {s : Store} {f : Device → Device}

theorem find_onDevice (hf : ∀ d, (f d).nodeId = d.nodeId) :
    (s.onDevice nodeId f).find nodeId = (s.find nodeId).map f := by
  unfold Store.find Store.onDevice
  dsimp only
  induction s.devices with
  | nil => rfl
  | cons d ds ih =>
    rw [updateFirst]
    by_cases hd : d.nodeId = nodeId
    · rw [if_pos (decide_eq_true hd), List.find?_cons_of_pos (by simp [hf, hd]),
        List.find?_cons_of_pos (by simp [hd]), Option.map_some]
    · rw [if_neg (by simp [hd]), List.find?_cons_of_neg (by simp [hd]),
        List.find?_cons_of_neg (by simp [hd]), ih]

theorem nodeId_addEndpoint (d : Device) (id : UInt16) : (d.addEndpoint id).nodeId = d.nodeId := by
  unfold Device.addEndpoint
  split <;> rfl

/-- The calls of a report come down to what it does to its device. -/
theorem find_ops (r : Report) :
    ((r.ops nodeId).foldl Op.apply s).find nodeId = (s.find nodeId).map (·.receive r) := by
  have hcreate : ∀ (s : Store) (id : UInt16),
      (Op.apply s (.addEndpoint nodeId id)).find nodeId = (s.find nodeId).map (·.addEndpoint id) :=
    fun s id => find_onDevice fun d => nodeId_addEndpoint d id
  have hchange : ∀ (s : Store) (id : UInt16) (f : Endpoint → Endpoint),
      (s.onEndpoint nodeId id f).find nodeId = (s.find nodeId).map (·.onEndpoint id f) :=
    fun s id f => find_onDevice fun d => rfl
  have hchanges : ∀ {α : Type} (op : α → Op) (id : UInt16) (g : α → Endpoint → Endpoint)
      (l : List α) (s : Store), (∀ s c, Op.apply s (op c) = s.onEndpoint nodeId id (g c)) →
      ((l.map op).foldl Op.apply s).find nodeId
        = (s.find nodeId).map fun d => l.foldl (fun d c => d.onEndpoint id (g c)) d := by
    intro α op id g l s hop
    induction l generalizing s with
    | nil => exact (Option.map_id' ..).symm
    | cons c l ih =>
      rw [List.map_cons, List.foldl_cons, ih, hop, hchange, Option.map_map]
      rfl
  cases r with
  | partsList id parts =>
    show ((parts.flatMap _).foldl Op.apply s).find nodeId = _
    induction parts generalizing s with
    | nil => exact (Option.map_id' ..).symm
    | cons part parts ih =>
      rw [List.flatMap_cons, List.foldl_append, ih, List.foldl_cons, List.foldl_cons,
        List.foldl_nil]
      have hpart :
          Op.apply (Op.apply s (.addEndpoint nodeId part)) (.addEndpointPart nodeId id part)
          = (Op.apply s (.addEndpoint nodeId part)).onEndpoint nodeId id (addPart part) := rfl
      rw [hpart, hchange, hcreate, Option.map_map, Option.map_map]
      rfl
  | serverList id clusters =>
    rw [Report.ops, List.foldl_cons, hchanges _ id setDem _ _ fun _ _ => rfl, hcreate,
      Option.map_map]
    rfl
  | deviceTypeList id types =>
    rw [Report.ops, List.foldl_cons, hchanges _ id addType _ _ fun _ _ => rfl, hcreate,
      Option.map_map]
    rfl
  | vendorName name => exact find_onDevice fun d => rfl
  | productName name => exact find_onDevice fun d => rfl
  | nodeLabel id label =>
    have hlabel := hchange (Op.apply s (.addEndpoint nodeId id)) id (setLabel label)
    rw [hcreate, Option.map_map] at hlabel
    exact hlabel

theorem find_reports (rs : List Report) : ((rs.flatMap (Report.ops nodeId)).foldl Op.apply s).find
    nodeId = (s.find nodeId).map fun d => rs.foldl Device.receive d := by
  induction rs generalizing s with
  | nil => exact (Option.map_id' ..).symm
  | cons r rs ih =>
    rw [List.flatMap_cons, List.foldl_append, ih, find_ops, Option.map_map]
    rfl

/-- The reports find a device without endpoints. -/
theorem find_start (nodeId : UInt64) (s : Store) : ∃ d : Device, d.endpoints = [] ∧
    ∀ rs, (interrogate nodeId rs s).find nodeId
      = some (rs.foldl Device.receive d).resolveParents := by
  obtain ⟨d, hd, hstart⟩ : ∃ d : Device, d.endpoints = [] ∧
      (Op.apply (Op.apply s (.clearDeviceEndpoints nodeId)) (.addDevice nodeId)).find nodeId
        = some d := by
    have hclear : (Op.apply s (.clearDeviceEndpoints nodeId)).find nodeId
        = (s.find nodeId).map fun d => { d with endpoints := [] } := find_onDevice fun d => rfl
    generalize Op.apply s (.clearDeviceEndpoints nodeId) = s' at hclear
    simp only [Op.apply]
    by_cases hany : s'.devices.any (·.nodeId = nodeId) = true
    · rw [if_pos hany]
      cases hfind : s.find nodeId with
      | none =>
        rw [hfind, Option.map_none, Store.find, List.find?_eq_none] at hclear
        obtain ⟨d, hd, hid⟩ := List.any_eq_true.mp hany
        exact absurd hid (hclear d hd)
      | some d =>
        rw [hfind] at hclear
        exact ⟨_, rfl, hclear⟩
    · rw [if_neg hany]
      refine ⟨{ nodeId }, rfl, ?_⟩
      have hnone : s'.devices.find? (·.nodeId = nodeId) = none := by
        rw [List.find?_eq_none]
        exact fun d hd hid => hany (List.any_eq_true.mpr ⟨d, hd, hid⟩)
      rw [Store.find, List.find?_append, hnone, Option.none_or]
      simp
  refine ⟨d, hd, fun rs => ?_⟩
  have hresolve : (interrogate nodeId rs s).find nodeId = _ :=
    find_onDevice (f := Device.resolveParents) fun d => rfl
  rw [hresolve, find_reports, hstart]
  rfl

end Find

/-! ## What every order leaves -/

section Orders

variable {d : Device} {rs rs' : List Report} {p x : UInt16}

theorem endpointIds_of_nil (hd : d.endpoints = []) : d.endpointIds = [] := by
  rw [Device.endpointIds, hd]
  rfl

theorem has_of_nil (hd : d.endpoints = []) (Q : Endpoint → Prop) : ¬ d.Has p Q := by
  rintro ⟨ep, hep, -⟩
  rw [hd] at hep
  exact List.not_mem_nil hep

theorem nodup_of_nil (hd : d.endpoints = []) : d.endpointIds.Nodup :=
  endpointIds_of_nil hd ▸ List.nodup_nil

theorem mem_endpointIds_foldl (hd : d.endpoints = []) :
    x ∈ (rs.foldl Device.receive d).endpointIds ↔ ∃ r ∈ rs, x ∈ r.creates := by
  rw [endpointIds_foldl (nodup_of_nil hd), mem_addAll, endpointIds_of_nil hd, List.mem_flatMap]
  simp

theorem mem_leaves {r : Report} {known : Bool} : x ∈ r.leaves p known ↔
    ∃ parts, r = .partsList p parts ∧ x ∈ if known then parts else parts.dropWhile (· ≠ p) := by
  cases r with
  | partsList id parts =>
    unfold Report.leaves
    by_cases hid : id = p
    · subst hid
      simp
    · simp [hid]
  | _ => simp [Report.leaves]

theorem mem_partsIn : x ∈ partsIn rs p ↔
    ∃ parts, .partsList p parts ∈ rs ∧ x ∈ parts.dropWhile (· ≠ p) := by
  rw [partsIn, List.mem_flatMap]
  constructor
  · rintro ⟨r, hr, hx⟩
    obtain ⟨parts, rfl, hpart⟩ := mem_leaves.mp hx
    exact ⟨parts, hr, hpart⟩
  · rintro ⟨parts, hr, hx⟩
    exact ⟨_, hr, mem_leaves.mpr ⟨parts, rfl, hx⟩⟩

/-- If the parts are kept, every order leaves those that each `PartsList` leaves when it comes
first. -/
theorem lists_iff (hd : d.endpoints = []) (honce : (rs.map Report.path).Nodup)
    (hperm : rs'.Perm rs) (hkept : PartsKept rs) :
    (rs'.foldl Device.receive d).Lists p x ↔ x ∈ partsIn rs p := by
  have hnodup : rs'.Nodup := hperm.nodup_iff.mpr honce.of_map
  rw [lists_foldl (nodup_of_nil hd), mem_partsIn, endpointIds_of_nil hd]
  constructor
  · rintro (hold | ⟨before, r, after, rfl, hx⟩)
    · exact absurd hold (has_of_nil hd _)
    obtain ⟨parts, rfl, hpart⟩ := mem_leaves.mp hx
    have hmem : .partsList p parts ∈ rs :=
      hperm.mem_iff.mp (List.mem_append_right _ List.mem_cons_self)
    refine ⟨parts, hmem, ?_⟩
    by_cases hknown : p ∈ before.flatMap Report.creates
    -- another report created `p`
    · obtain ⟨r, hr, hcreates⟩ := List.mem_flatMap.mp hknown
      have hne : r ≠ .partsList p parts := fun heq =>
        (List.nodup_append.mp hnodup).2.2 r hr _ List.mem_cons_self heq
      have hin : x ∈ parts := by simpa [hknown] using hpart
      exact hkept p parts hmem
        ⟨r, hperm.mem_iff.mp (List.mem_append_left _ hr), hne, hcreates⟩ x hin
    · simpa [hknown] using hpart
  · rintro ⟨parts, hmem, hx⟩
    obtain ⟨before, after, rfl⟩ := List.append_of_mem (hperm.mem_iff.mpr hmem)
    refine .inr ⟨before, _, after, rfl, mem_leaves.mpr ⟨parts, rfl, ?_⟩⟩
    split
    · exact (List.dropWhile_sublist _).subset hx
    · exact hx

/-- The first elements of a kind come first in the store as well. -/
theorem isFirst_addAll {P : UInt16 → Prop} {l m : List UInt16} (hl : ∀ b ∈ l, ¬ P b)
    (h : IsFirst P m p) : IsFirst P (addAll l m) p := by
  obtain ⟨m₁, m₂, rfl, hp, hbefore⟩ := h
  have hnone : ∀ b ∈ addAll l m₁, ¬ P b := fun b hb =>
    (mem_addAll.mp hb).elim (hl b) (hbefore b)
  have hprefix : ∀ k k' : List UInt16, ∃ more, addAll k k' = k ++ more := by
    intro k k'
    induction k' generalizing k with
    | nil => exact ⟨[], (List.append_nil k).symm⟩
    | cons a k' ih =>
      obtain ⟨more, hmore⟩ := ih (addNew a k)
      have hstep : addAll k (a :: k') = addAll (addNew a k) k' := rfl
      rw [hstep, hmore]
      by_cases ha : a ∈ k
      · exact ⟨more, by rw [addNew, if_pos ha]⟩
      · exact ⟨a :: more, by rw [addNew, if_neg ha, List.append_assoc, List.singleton_append]⟩
  obtain ⟨more, hmore⟩ := hprefix (addAll l m₁ ++ [p]) m₂
  refine ⟨addAll l m₁, more, ?_, hp, hnone⟩
  have hsplit : addAll l (m₁ ++ p :: m₂) = addAll (addNew p (addAll l m₁)) m₂ :=
    List.foldl_append ..
  rw [hsplit, addNew, if_neg fun hmem => hnone p hmem hp, hmore, List.append_assoc]
  rfl

/-- The parent is the deepest endpoint that was created first. -/
theorem isFirst_parentFor (hd : d.endpoints = []) (honce : (rs.map Report.path).Nodup)
    (hperm : rs'.Perm rs) (hkept : PartsKept rs) (hlisted : ∃ q, x ∈ partsIn rs q) :
    IsFirst (DeepestIn rs x) (rs'.flatMap Report.creates)
      ((rs'.foldl Device.receive d).parentFor x) := by
  have hunique : (rs'.foldl Device.receive d).endpointIds.Nodup := nodup_foldl (nodup_of_nil hd)
  have hids : (rs'.foldl Device.receive d).endpointIds = _ := endpointIds_foldl (nodup_of_nil hd)
  have hlists : ∀ q y, (rs'.foldl Device.receive d).Lists q y ↔ y ∈ partsIn rs q := fun q y =>
    lists_iff hd honce hperm hkept
  generalize rs'.foldl Device.receive d = D at hunique hids hlists
  have hdist : ∀ q, D.listDist q = distIn rs q := by
    intro q
    unfold Device.listDist distIn
    congr 1
    ext n
    have hparts : ∀ q y, y ∈ D.partsOf q ↔ y ∈ partsIn rs q := fun q y =>
      (mem_partsOf hunique).trans (hlists q y)
    exact ⟨fun h => h.mono fun q y => (hparts q y).mp, fun h => h.mono fun q y => (hparts q y).mpr⟩
  have hlisted' : ∃ q, D.Lists q x := hlisted.imp fun q hq => (hlists q x).mpr hq
  obtain ⟨hparent, hnone⟩ := (parentFor_eq_iff hunique hlisted').mp rfl
  have hdeepest : DeepestIn rs x (D.parentFor x) := by
    refine ⟨(hlists _ _).mp hparent, fun q hq => ?_⟩
    by_contra hfar
    refine hnone q ((hlists q x).mpr hq) (.inl ?_)
    rw [hdist, hdist]
    exact not_le.mp hfar
  have hcreated : D.parentFor x ∈ rs'.flatMap Report.creates := by
    have hmem := Device.Has.mem hparent
    rw [hids, mem_addAll, endpointIds_of_nil hd] at hmem
    exact hmem.resolve_left List.not_mem_nil
  obtain ⟨a, ha⟩ := exists_isFirst ⟨_, hcreated, hdeepest⟩
  have hstore : IsFirst (DeepestIn rs x) D.endpointIds a := by
    rw [hids, endpointIds_of_nil hd]
    exact isFirst_addAll (fun b hb => absurd hb List.not_mem_nil) ha
  obtain ⟨-, -, -, hadeepest, -⟩ := id ha
  have heq : D.parentFor x = a := by
    refine (parentFor_eq_iff hunique hlisted').mpr ⟨(hlists a x).mpr hadeepest.1, ?_⟩
    rintro q hq (hfar | ⟨hsame, hless⟩)
    · rw [hdist, hdist] at hfar
      exact absurd (hadeepest.2 q ((hlists q x).mp hq)) (not_le.mpr hfar)
    · rw [hdist, hdist] at hsame
      have hqdeepest : DeepestIn rs x q :=
        ⟨(hlists q x).mp hq, fun q' hq' => (hadeepest.2 q' hq').trans hsame.le⟩
      exact absurd (hstore.le_idxOf hqdeepest) (not_le.mpr hless)
  rwa [heq]

end Orders

/-! ## The same endpoints -/

theorem Endpoint.Same.symm {ep ep' : Endpoint} (h : ep.Same ep') : ep'.Same ep where
  endpointId := h.endpointId.symm
  parent := h.parent.symm
  label := h.label.symm
  dem := h.dem.symm
  types t := (h.types t).symm
  parts x := (h.parts x).symm

theorem Device.Same.symm {d d' : Device} (h : d.Same d') : d'.Same d :=
  ⟨fun ep' hep' => (h.2 ep' hep').imp fun _ ⟨hep, hsame⟩ => ⟨hep, hsame.symm⟩,
    fun ep hep => (h.1 ep hep).imp fun _ ⟨hep', hsame⟩ => ⟨hep', hsame.symm⟩⟩

section Same

variable {D D' : Device} {p x : UInt16}

/-- Devices that have the same are the same. -/
theorem same_resolveParents (hunique : D.endpointIds.Nodup) (hunique' : D'.endpointIds.Nodup)
    (hids : ∀ x, x ∈ D.endpointIds ↔ x ∈ D'.endpointIds)
    (hlists : ∀ p x, D.Lists p x ↔ D'.Lists p x)
    (htypes : ∀ p t, D.Has p (t ∈ ·.deviceTypes) ↔ D'.Has p (t ∈ ·.deviceTypes))
    (hdem : ∀ p, D.Has p (·.hasDem = true) ↔ D'.Has p (·.hasDem = true))
    (hlabel : ∀ p l, D.Has p (·.label = l) ↔ D'.Has p (·.label = l))
    (hparent : ∀ x ∈ D.endpointIds, D.parentFor x = D'.parentFor x) :
    D.resolveParents.Same D'.resolveParents := by
  have hone : ∀ ep ∈ D.endpoints, ∀ ep' ∈ D'.endpoints, ep.endpointId = ep'.endpointId →
      Endpoint.Same { ep with parentEndpointId := D.parentFor ep.endpointId }
        { ep' with parentEndpointId := D'.parentFor ep'.endpointId } := by
    intro ep hep ep' hep' hid
    have hmove : ∀ Q : Endpoint → Prop, (∀ p, D.Has p Q ↔ D'.Has p Q) → (Q ep ↔ Q ep') := by
      intro Q hQ
      have hthere : D.Has ep'.endpointId Q ↔ Q ep := hid ▸ has_iff_of_mem hunique hep
      exact hthere.symm.trans ((hQ _).trans (has_iff_of_mem hunique' hep'))
    refine ⟨hid, ?_, ?_, ?_, fun t => hmove _ fun p => htypes p t, fun x => hmove _ fun p =>
      hlists p x⟩
    · show D.parentFor ep.endpointId = D'.parentFor ep'.endpointId
      rw [← hid]
      exact hparent _ (mem_endpointIds.mpr ⟨ep, hep, rfl⟩)
    · exact ((hmove (·.label = ep.label) fun p => hlabel p _).mp rfl).symm
    · exact Bool.eq_iff_iff.mpr (hmove (·.hasDem = true) hdem)
  rw [resolveParents_eq, resolveParents_eq]
  constructor
  · intro e he
    obtain ⟨ep, hep, rfl⟩ := List.mem_map.mp he
    obtain ⟨ep', hep', hid⟩ := mem_endpointIds.mp ((hids _).mp (mem_endpointIds.mpr ⟨ep, hep, rfl⟩))
    exact ⟨_, List.mem_map.mpr ⟨ep', hep', rfl⟩, hone ep hep ep' hep' hid.symm⟩
  · intro e' he'
    obtain ⟨ep', hep', rfl⟩ := List.mem_map.mp he'
    obtain ⟨ep, hep, hid⟩ :=
      mem_endpointIds.mp ((hids _).mpr (mem_endpointIds.mpr ⟨ep', hep', rfl⟩))
    exact ⟨_, List.mem_map.mpr ⟨ep, hep, rfl⟩, hone ep hep ep' hep' hid⟩

/-- An endpoint of one device and the same one of the other. -/
theorem exists_of_same (h : D.resolveParents.Same D'.resolveParents) {ep : Endpoint}
    (hep : ep ∈ D.endpoints) : ∃ ep' ∈ D'.endpoints,
      Endpoint.Same { ep with parentEndpointId := D.parentFor ep.endpointId }
        { ep' with parentEndpointId := D'.parentFor ep'.endpointId } := by
  obtain ⟨e', he', hsame⟩ := h.1 _ (List.mem_map.mpr ⟨ep, hep, rfl⟩)
  obtain ⟨ep', hep', rfl⟩ := List.mem_map.mp he'
  exact ⟨ep', hep', hsame⟩

theorem lists_of_same (h : D.resolveParents.Same D'.resolveParents) (hlists : D.Lists p x) :
    D'.Lists p x := by
  obtain ⟨ep, hep, rfl, hx⟩ := hlists
  obtain ⟨ep', hep', hsame⟩ := exists_of_same h hep
  exact ⟨ep', hep', hsame.endpointId.symm, (hsame.parts x).mp hx⟩

theorem parentFor_of_same (h : D.resolveParents.Same D'.resolveParents)
    (hx : x ∈ D.endpointIds) : D.parentFor x = D'.parentFor x := by
  obtain ⟨ep, hep, rfl⟩ := mem_endpointIds.mp hx
  obtain ⟨ep', hep', hsame⟩ := exists_of_same h hep
  have hid : ep.endpointId = ep'.endpointId := hsame.endpointId
  have hparent : D.parentFor ep.endpointId = D'.parentFor ep'.endpointId := hsame.parent
  rw [hparent, hid]

end Same

/-! ## When the order does not matter -/

section Independence

variable {d : Device} {rs rs' : List Report}

theorem pairwise_label (honce : (rs.map Report.path).Nodup) (p : UInt16) :
    rs.Pairwise fun r r' => ∀ l l', r = .nodeLabel p l → r' ≠ .nodeLabel p l' := by
  refine (List.pairwise_map.mp honce).imp fun hne l l' hr hr' => hne ?_
  rw [hr, hr']
  rfl

/-- With the parts kept and the ties met, every order leaves the same. -/
theorem same_of_kept (hd : d.endpoints = []) (honce : (rs.map Report.path).Nodup)
    (hkept : PartsKept rs) (hties : TiesMet rs) (hperm : rs'.Perm rs) :
    (rs.foldl Device.receive d).resolveParents.Same
      (rs'.foldl Device.receive d).resolveParents := by
  have hnil := nodup_of_nil hd
  have honce' : (rs'.map Report.path).Nodup := (hperm.map _).nodup_iff.mpr honce
  have hlists : ∀ p x, (rs.foldl Device.receive d).Lists p x ↔
      (rs'.foldl Device.receive d).Lists p x := fun p x =>
    (lists_iff hd honce (.refl rs) hkept).trans (lists_iff hd honce hperm hkept).symm
  refine same_resolveParents (nodup_foldl hnil) (nodup_foldl hnil) ?_ hlists ?_ ?_ ?_ ?_
  · intro x
    simp only [mem_endpointIds_foldl hd, hperm.mem_iff]
  · intro p t
    simp only [type_foldl hnil, hperm.mem_iff]
  · intro p
    simp only [dem_foldl hnil, hperm.mem_iff]
  · intro p l
    simp only [label_foldl hnil (pairwise_label honce p),
      label_foldl hnil (pairwise_label honce' p), List.mem_flatMap, hperm.mem_iff]
  · intro x hx
    by_cases hlisted : ∃ q, x ∈ partsIn rs q
    -- whatever report comes first, it creates the same of the deepest first
    · have hfirst := isFirst_parentFor hd honce (.refl rs) hkept hlisted
      have hfirst' := isFirst_parentFor hd honce hperm hkept hlisted
      obtain ⟨r, hr, hp⟩ := hfirst.of_flatMap
      obtain ⟨r', hr', hp'⟩ := hfirst'.of_flatMap
      exact hties x r hr r' (hperm.mem_iff.mp hr') _ _ hp hp'
    · have hnone : ∀ p, ¬ (rs.foldl Device.receive d).Lists p x := fun p hp =>
        hlisted ⟨p, (lists_iff hd honce (.refl rs) hkept).mp hp⟩
      rw [parentFor_of_not_listed hnone,
        parentFor_of_not_listed fun p hp => hnone p ((hlists p x).mpr hp)]

/-- If every order leaves the same, a `PartsList` that comes first loses nothing that it would leave
later. -/
theorem partsKept_of_same (hd : d.endpoints = []) (honce : (rs.map Report.path).Nodup)
    (h : ∀ rs' : List Report, rs'.Perm rs →
      (rs.foldl Device.receive d).resolveParents.Same (rs'.foldl Device.receive d).resolveParents) :
    PartsKept rs := by
  intro p parts hmem hother x hx
  obtain ⟨r, hr, hne, hcreates⟩ := hother
  have hnil := nodup_of_nil hd
  obtain ⟨before, after, rfl⟩ := List.append_of_mem hmem
  have hfirst : (.partsList p parts :: (before ++ after)).Perm
      (before ++ .partsList p parts :: after) := List.perm_middle.symm
  have hr' : r ∈ before ++ after :=
    (List.mem_cons.mp (hfirst.mem_iff.mpr hr)).resolve_left hne
  obtain ⟨before', after', hsplit⟩ := List.append_of_mem hr'
  have hsecond : (r :: .partsList p parts :: (before' ++ after')).Perm
      (before ++ .partsList p parts :: after) := by
    refine (List.Perm.swap ..).trans (.trans (.cons _ ?_) hfirst)
    rw [hsplit]
    exact List.perm_middle.symm
  have hlater : ((r :: .partsList p parts :: (before' ++ after')).foldl Device.receive d).Lists
      p x := by
    refine (lists_foldl hnil).mpr (.inr ⟨[r], _, before' ++ after', rfl, ?_⟩)
    exact mem_leaves.mpr ⟨parts, rfl, by simpa [hcreates] using hx⟩
  have hearly := lists_of_same (h _ hfirst) (lists_of_same (h _ hsecond).symm hlater)
  rcases (lists_foldl hnil).mp hearly with hold | ⟨before₀, r₀, after₀, hsplit₀, hx₀⟩
  · exact absurd hold (has_of_nil hd _)
  obtain ⟨parts₀, rfl, hpart⟩ := mem_leaves.mp hx₀
  cases before₀ with
  | nil =>
    obtain ⟨heq, -⟩ := List.cons.inj hsplit₀
    obtain ⟨-, rfl⟩ := Report.partsList.inj heq
    simpa [endpointIds_of_nil hd] using hpart
  -- no second report of its parts
  | cons r₁ before₀ =>
    obtain ⟨-, hrest⟩ := List.cons.inj hsplit₀
    have honce' := (hfirst.map Report.path).nodup_iff.mpr honce
    rw [List.map_cons, List.nodup_cons, hrest] at honce'
    refine absurd (List.mem_map.mpr ⟨Report.partsList p parts₀, ?_, rfl⟩) honce'.1
    exact List.mem_append_right _ List.mem_cons_self

/-- And whichever of the deepest some report creates first becomes the parent. -/
theorem tiesMet_of_same (hd : d.endpoints = []) (honce : (rs.map Report.path).Nodup)
    (h : ∀ rs' : List Report, rs'.Perm rs →
      (rs.foldl Device.receive d).resolveParents.Same (rs'.foldl Device.receive d).resolveParents) :
    TiesMet rs := by
  have hkept := partsKept_of_same hd honce h
  intro x r hr r' hr' p p' hp hp'
  have hparent : ∀ r ∈ rs, ∀ p, IsFirst (DeepestIn rs x) r.creates p →
      (rs.foldl Device.receive d).parentFor x = p := by
    intro r hr p hp
    obtain ⟨before, after, hsplit⟩ := List.append_of_mem hr
    have hperm : (r :: (before ++ after)).Perm rs := hsplit ▸ List.perm_middle.symm
    obtain ⟨-, -, -, hdeepest, -⟩ := id hp
    have hcreated : x ∈ (rs.foldl Device.receive d).endpointIds := by
      obtain ⟨parts, hmem, hx⟩ := mem_partsIn.mp hdeepest.1
      exact (mem_endpointIds_foldl hd).mpr ⟨_, hmem, (List.dropWhile_sublist _).subset hx⟩
    rw [parentFor_of_same (h _ hperm) hcreated]
    exact (isFirst_parentFor hd honce hperm hkept ⟨p, hdeepest.1⟩).unique hp.append
  rw [← hparent r hr p hp, hparent r' hr' p' hp']

end Independence

/-- The order of the reports does not matter if and only if each endpoint that another report
creates lists nothing that it does not list after itself, and of the deepest endpoints that list an
endpoint no two are created first by different reports. -/
theorem orderIndependent_iff (i : Interrogation) (nodeId : UInt64) (s : Store) :
    OrderIndependent nodeId i.reports s ↔ PartsKept i.reports ∧ TiesMet i.reports := by
  obtain ⟨d, hd, hfind⟩ := find_start nodeId s
  constructor
  · intro h
    have hsame : ∀ rs' : List Report, rs'.Perm i.reports →
        (i.reports.foldl Device.receive d).resolveParents.Same
          (rs'.foldl Device.receive d).resolveParents := by
      intro rs' hperm
      obtain ⟨d₁, d₂, h₁, h₂, hsame⟩ := h rs' hperm
      rw [hfind] at h₁ h₂
      rwa [Option.some.inj h₁, Option.some.inj h₂]
    exact ⟨partsKept_of_same hd i.once hsame, tiesMet_of_same hd i.once hsame⟩
  · rintro ⟨hkept, hties⟩ rs' hperm
    exact ⟨_, _, hfind _, hfind _, same_of_kept hd i.once hkept hties hperm⟩

/-- Endpoint 1 has the parent 0 if endpoint 0 reports its servers before its parts, else none. -/
theorem parts_before_servers : ¬ ∀ (i : Interrogation) (nodeId : UInt64) (s : Store),
    OrderIndependent nodeId i.reports s := by
  intro h
  obtain ⟨d, d', hd, hd', hsame⟩ := h
    { reports := [.serverList 0 [], .partsList 0 [1]], once := by decide } 10000 {}
    [.partsList 0 [1], .serverList 0 []] (.swap ..)
  have hafter : (interrogate 10000 [.serverList 0 [], .partsList 0 [1]] {}).find 10000
      = some { nodeId := 10000, endpoints := [{ endpointId := 0, parts := [1] },
          { endpointId := 1, parentEndpointId := 0 }] } := by rfl
  have hbefore : (interrogate 10000 [.partsList 0 [1], .serverList 0 []] {}).find 10000
      = some { nodeId := 10000, endpoints := [{ endpointId := 1 }, { endpointId := 0 }] } := by rfl
  obtain rfl := Option.some.inj (hafter.symm.trans hd)
  obtain rfl := Option.some.inj (hbefore.symm.trans hd')
  obtain ⟨ep', hep', hsame⟩ := hsame.1 { endpointId := 1, parentEndpointId := 0 } (by simp)
  have hnone : ep'.parentEndpointId = kNoParent := by
    rcases List.mem_cons.mp hep' with rfl | hep'
    · rfl
    · rw [List.mem_singleton.mp hep']
  exact absurd (hsame.parent.trans hnone) (by decide)

end HomeEnergyManager.DeviceManager
