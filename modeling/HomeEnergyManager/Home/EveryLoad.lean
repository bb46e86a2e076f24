import HomeEnergyManager.Home.ApplianceSlots

/-! # Every load once

The home screen should show each load once: those with a slot of their own in it, the others in the
empty slots and then past the last one, by the numbers that their ids end in. It does unless two
loads have the same slot for their own, or two numbers are too long to be told apart as doubles.

Reference: `applianceSlots` in `firmware/html_app/src/Home.tsx`.
-/

namespace HomeEnergyManager.Home

open scoped List

/-! ## What the screen should show -/

/-- The edge wires the node to a supply handle of the consumer unit. -/
def SavedEdge.Supplies (e : SavedEdge) (id : String) : Prop :=
  (e.target = CU_ID ∧ isSupplyHandle e.targetHandle = true ∧ id = e.source) ∨
    (e.source = CU_ID ∧ isSupplyHandle e.sourceHandle = true ∧ id = e.target)

instance (e : SavedEdge) : DecidablePred e.Supplies := fun _ => inferInstanceAs (Decidable (_ ∨ _))

/-- A device or appliance with an endpoint and a label. -/
def Settings.IsLoad (s : Settings) : Prop :=
  (s.type = some "device" ∨ s.type = some "appliance") ∧ s.nodeId.isSome ∧ s.endpointId.isSome ∧
    s.label.getD "" ≠ ""

instance : DecidablePred Settings.IsLoad := fun _ => inferInstanceAs (Decidable (_ ∧ _))

/-- A load, which is not the grid meter and not wired to a supply handle. -/
def Qualifies (edges : List SavedEdge) (n : SavedNode) : Prop :=
  n.settings.any (fun s => s.IsLoad) = true ∧ n.id ≠ "grid_meter" ∧ ∀ e ∈ edges, ¬ e.Supplies n.id

instance (edges : List SavedEdge) : DecidablePred (Qualifies edges) :=
  fun _ => inferInstanceAs (Decidable (_ ∧ _))

/-- What a slot tells of its node. -/
def Shows (n : SavedNode) (slot : ApplianceSlot) : Prop :=
  slot.graphId = n.id ∧ slot.x = n.x ∧ slot.y = n.y ∧
    ∃ s ∈ n.settings, s.type = some slot.type ∧ s.nodeId = some slot.device.nodeId ∧
      s.endpointId = some slot.device.endpointId ∧ s.label = some slot.device.label ∧
      slot.device.name = s.name ∧
      slot.device.excludeFromScheduling = some (decide (s.excludeFromScheduling = some true)) ∧
      slot.device.hasElectricalSensor = true ∧ slot.device.hasSolarPower = false

/-- The number of an id `appliance_N`. -/
def applianceNumber (id : String) : Option ℕ := (ownDigits id).map digitsValue

def HasOwnSlot (id : String) : Prop :=
  (applianceNumber id).any (fun n => 1 ≤ n && n ≤ APPLIANCE_SLOTS.length) = true

instance : DecidablePred HasOwnSlot := fun _ => inferInstanceAs (Decidable (_ = true))

/-- The number that an id ends in, 0 if it ends in none. -/
def numericSuffix (id : String) : ℕ := digitsValue (suffixDigits id)

/-- The slots show each load once and nothing else. -/
structure ShowsEveryLoad (nodes : List SavedNode) (edges : List SavedEdge)
    (slots : List (Option ApplianceSlot)) : Prop where
  length : APPLIANCE_SLOTS.length ≤ slots.length
  once : (slots.reduceOption.map (·.graphId)).Perm ((nodes.filter (Qualifies edges ·)).map (·.id))
  shown : ∀ s ∈ slots.reduceOption, ∃ n ∈ nodes, Qualifies edges n ∧ Shows n s
  own : ∀ n ∈ nodes, Qualifies edges n → ∀ i < APPLIANCE_SLOTS.length,
    applianceNumber n.id = some (i + 1) → ∃ s, slots[i]? = some (some s) ∧ s.graphId = n.id
  firstFree : ∀ (i j : ℕ) (s : ApplianceSlot), i < j → slots[i]? = some none →
    slots[j]? = some (some s) → HasOwnSlot s.graphId
  noGap : ∀ i : ℕ, slots[i]? = some none → i < APPLIANCE_SLOTS.length
  inOrder : (slots.reduceOption.filter fun s => ¬ HasOwnSlot s.graphId).Pairwise fun s s' =>
    numericSuffix s.graphId ≤ numericSuffix s'.graphId

/-- No two loads have the same slot for their own, and others whose numbers are the same double
stand by their numbers already. -/
structure Distinguishable (nodes : List SavedNode) (edges : List SavedEdge) : Prop where
  own : ∀ n ∈ nodes, ∀ n' ∈ nodes, Qualifies edges n → Qualifies edges n' →
    HasOwnSlot n.id → applianceNumber n.id = applianceNumber n'.id → n = n'
  order : ((nodes.filter fun n => Qualifies edges n ∧ ¬ HasOwnSlot n.id).map (·.id)).Pairwise
    fun a b => order a = order b → numericSuffix a ≤ numericSuffix b

/-! ## Loads -/

theorem mem_addSupplies {ids : Finset String} {e : SavedEdge} {id : String} :
    id ∈ addSupplies ids e ↔ id ∈ ids ∨ e.Supplies id := by
  by_cases ht : e.target = CU_ID ∧ isSupplyHandle e.targetHandle = true <;>
    by_cases hs : e.source = CU_ID ∧ isSupplyHandle e.sourceHandle = true <;>
    simp [addSupplies, SavedEdge.Supplies, ht, hs, Finset.mem_insert] <;> tauto

theorem mem_supplyIds {edges : List SavedEdge} {id : String} :
    id ∈ supplyIds edges ↔ id = "grid_meter" ∨ ∃ e ∈ edges, e.Supplies id := by
  suffices h : ∀ ids : Finset String,
      id ∈ edges.foldl addSupplies ids ↔ id ∈ ids ∨ ∃ e ∈ edges, e.Supplies id by
    rw [supplyIds, h, Finset.mem_singleton]
  induction edges with
  | nil => simp
  | cons e edges ih =>
    intro ids
    rw [List.foldl_cons, ih, mem_addSupplies, List.exists_mem_cons_iff, or_assoc]

theorem not_mem_supplyIds {edges : List SavedEdge} {id : String} :
    id ∉ supplyIds edges ↔ id ≠ "grid_meter" ∧ ∀ e ∈ edges, ¬ e.Supplies id := by
  rw [mem_supplyIds, not_or]
  push Not
  rfl

theorem contains_LOAD_TYPES {type : Option String} :
    LOAD_TYPES.contains (type.getD "") = true ↔ type = some "device" ∨ type = some "appliance" := by
  cases type with
  | none => simp [LOAD_TYPES]
  | some type => simp [LOAD_TYPES]

theorem loadSlot_eq_some_iff {edges : List SavedEdge} {n : SavedNode} {slot : ApplianceSlot} :
    loadSlot (supplyIds edges) n = some slot ↔ Qualifies edges n ∧ Shows n slot := by
  rw [Qualifies, ← not_mem_supplyIds]
  constructor
  · intro h
    obtain ⟨s, hs, h⟩ := Option.bind_eq_some_iff.mp h
    dsimp only at h
    split at h
    · cases h
    rename_i hguard
    rw [Bool.not_eq_true, Bool.or_eq_false_iff, Bool.not_eq_false', contains_LOAD_TYPES,
      decide_eq_false_iff_not] at hguard
    obtain ⟨nodeId, hnode, h⟩ := Option.bind_eq_some_iff.mp h
    obtain ⟨endpointId, hendpoint, h⟩ := Option.bind_eq_some_iff.mp h
    obtain ⟨label, hlabel, h⟩ := Option.bind_eq_some_iff.mp h
    rw [Option.filter_eq_some_iff, decide_eq_true_iff] at hlabel
    obtain rfl := Option.some.inj h
    refine ⟨⟨?_, hguard.2⟩, rfl, rfl, rfl, s, hs, ?_, hnode, hendpoint, hlabel.1, rfl, rfl, rfl,
      rfl⟩
    · rw [hs, Option.any_some, decide_eq_true_iff]
      refine ⟨hguard.1, Option.isSome_of_mem hnode, Option.isSome_of_mem hendpoint, ?_⟩
      rw [hlabel.1]
      exact hlabel.2
    · rcases hguard.1 with htype | htype <;> rw [htype] <;> rfl
  · rintro ⟨⟨hload, hsupply⟩, hid, hx, hy, s, hs, htype, hnode, hendpoint, hlabel, hname, hexclude,
      hsensor, hsolar⟩
    rw [hs, Option.any_some, decide_eq_true_iff] at hload
    obtain ⟨hload, -, -, hempty⟩ := hload
    have hguard : (!LOAD_TYPES.contains (s.type.getD "") || decide (n.id ∈ supplyIds edges)) =
        false := by
      rw [contains_LOAD_TYPES.mpr hload, decide_eq_false hsupply]
      rfl
    rw [hlabel, Option.getD_some] at hempty
    rw [loadSlot, hs, Option.bind_eq_bind, Option.bind_some]
    dsimp only
    rw [hguard, if_neg Bool.false_ne_true, hnode, hendpoint, hlabel, Option.filter_some,
      if_pos (decide_eq_true hempty), htype]
    obtain ⟨graphId, type, x, y, device⟩ := slot
    obtain ⟨nodeId, endpointId, label, name, sensor, solar, exclude⟩ := device
    obtain rfl : graphId = n.id := hid
    obtain rfl : x = n.x := hx
    obtain rfl : y = n.y := hy
    obtain rfl : name = s.name := hname
    obtain rfl : sensor = true := hsensor
    obtain rfl : solar = false := hsolar
    obtain rfl : exclude = _ := hexclude
    rfl

theorem exists_loadSlot {edges : List SavedEdge} {n : SavedNode} (h : Qualifies edges n) :
    ∃ slot, loadSlot (supplyIds edges) n = some slot := by
  obtain ⟨id, x, y, _ | ⟨label, name, type, nodeId, endpointId, exclude⟩⟩ := n
  · exact absurd h.1 (by simp)
  · have hload : Settings.IsLoad ⟨label, name, type, nodeId, endpointId, exclude⟩ := by
      simpa using h.1
    obtain ⟨htype, hnode, hendpoint, hlabel⟩ := hload
    obtain ⟨nodeId, rfl⟩ := Option.isSome_iff_exists.mp hnode
    obtain ⟨endpointId, rfl⟩ := Option.isSome_iff_exists.mp hendpoint
    cases label with
    | none => exact absurd rfl hlabel
    | some label =>
      obtain ⟨type, rfl⟩ : ∃ t, type = some t := by rcases htype with h | h <;> exact ⟨_, h⟩
      exact ⟨⟨id, type, x, y, nodeId, endpointId, label, name, true, false,
        some (decide (exclude = some true))⟩, loadSlot_eq_some_iff.mpr ⟨h, rfl, rfl, rfl, _, rfl,
        rfl, rfl, rfl, rfl, rfl, rfl, rfl, rfl⟩⟩

/-- The loads in the order of their nodes. -/
def loads (nodes : List SavedNode) (edges : List SavedEdge) : List ApplianceSlot :=
  nodes.filterMap (loadSlot (supplyIds edges))

theorem mem_loads {nodes : List SavedNode} {edges : List SavedEdge} {slot : ApplianceSlot} :
    slot ∈ loads nodes edges ↔ ∃ n ∈ nodes, Qualifies edges n ∧ Shows n slot := by
  simp only [loads, List.mem_filterMap, loadSlot_eq_some_iff]

theorem graphIds_loads (nodes : List SavedNode) (edges : List SavedEdge) :
    (loads nodes edges).map (·.graphId) = (nodes.filter (Qualifies edges ·)).map (·.id) := by
  induction nodes with
  | nil => rfl
  | cons n nodes ih =>
    rw [loads] at ih ⊢
    by_cases h : Qualifies edges n
    · obtain ⟨slot, hslot⟩ := exists_loadSlot h
      rw [List.filterMap_cons_some hslot, List.filter_cons_of_pos (by simpa using h),
        List.map_cons, List.map_cons, ih, (loadSlot_eq_some_iff.mp hslot).2.1]
    · have hslot : loadSlot (supplyIds edges) n = none := by
        cases hs : loadSlot (supplyIds edges) n with
        | none => rfl
        | some slot => exact absurd (loadSlot_eq_some_iff.mp hs).1 h
      rw [List.filterMap_cons_none hslot, List.filter_cons_of_neg (by simpa using h), ih]

/-! ## The slots of their own -/

theorem order_le {a b : String} (h : numericSuffix a ≤ numericSuffix b) :
    order a ≤ order b := Double.nearest_mono h

theorem ownIndex_eq_iff {id : String} {i : ℕ} (hi : i < APPLIANCE_SLOTS.length) :
    ownIndex id = i ↔ applianceNumber id = some (i + 1) := by
  rw [length_APPLIANCE_SLOTS] at hi
  rw [ownIndex, applianceNumber]
  cases ownDigits id with
  | none => simp
  | some digits =>
    have hnearest := Double.nearest_eq_coe_iff (n := digitsValue digits)
      (show i + 1 < 2 ^ 53 by omega)
    have huntop : (parseInt digits).untopD 0 = i + 1 ↔ parseInt digits = .some (i + 1) := by
      rw [WithTop.untopD_eq_iff]
      exact or_iff_left (by omega)
    rw [Option.map_some, Option.some_inj, ← hnearest, ← parseInt, ← huntop]
    simp only
    omega

theorem hasOwnSlot_iff {id : String} :
    HasOwnSlot id ↔ ∃ i < APPLIANCE_SLOTS.length, applianceNumber id = some (i + 1) := by
  rw [HasOwnSlot]
  cases h : applianceNumber id with
  | none => simp
  | some n =>
    simp only [Option.any_some, Bool.and_eq_true, decide_eq_true_eq, Option.some_inj]
    constructor
    · rintro ⟨hpos, hle⟩
      exact ⟨n - 1, by omega, by omega⟩
    · rintro ⟨i, hi, rfl⟩
      omega

/-- A load with a slot of its own is put there, whatever it held. -/
theorem place_own {st : Layout} {slot : ApplianceSlot} {i : ℕ}
    (hlength : st.slots.length = APPLIANCE_SLOTS.length) (hi : i < APPLIANCE_SLOTS.length)
    (h : applianceNumber slot.graphId = some (i + 1)) :
    place st slot = { st with slots := st.slots.set i (some slot) } := by
  rw [place, (ownIndex_eq_iff hi).mpr h, if_pos (by omega), Int.toNat_natCast]

theorem place_other {st : Layout} {slot : ApplianceSlot}
    (hlength : st.slots.length = APPLIANCE_SLOTS.length) (h : ¬ HasOwnSlot slot.graphId) :
    place st slot = { st with others := st.others ++ [slot] } := by
  rw [place]
  refine if_neg fun ⟨hnonneg, hlt⟩ => h ?_
  have hi : (ownIndex slot.graphId).toNat < APPLIANCE_SLOTS.length := by omega
  exact hasOwnSlot_iff.mpr ⟨_, hi, (ownIndex_eq_iff hi).mp (Int.toNat_of_nonneg hnonneg).symm⟩

/-- The layout after some loads. -/
structure Placed (loads : List ApplianceSlot) (st : Layout) : Prop where
  length : st.slots.length = APPLIANCE_SLOTS.length
  others : st.others = loads.filter fun s => ¬ HasOwnSlot s.graphId
  own : ∀ (i : ℕ) (s : ApplianceSlot), st.slots[i]? = some (some s) →
    s ∈ loads ∧ applianceNumber s.graphId = some (i + 1)
  claimed : ∀ s ∈ loads, ∀ i < APPLIANCE_SLOTS.length,
    applianceNumber s.graphId = some (i + 1) → ∃ s', st.slots[i]? = some (some s')

theorem placed_nil : Placed [] ⟨APPLIANCE_SLOTS.map fun _ => none, []⟩ where
  length := List.length_map _
  others := rfl
  own i s h := by
    rw [List.getElem?_map, Option.map_eq_some_iff] at h
    obtain ⟨_, _, h⟩ := h
    exact absurd h (by simp)
  claimed s hs := absurd hs List.not_mem_nil

theorem Placed.place {done : List ApplianceSlot} {st : Layout} (h : Placed done st)
    (slot : ApplianceSlot) : Placed (done ++ [slot]) (place st slot) := by
  by_cases hown : HasOwnSlot slot.graphId
  · obtain ⟨k, hk, hnumber⟩ := hasOwnSlot_iff.mp hown
    have hlt : k < st.slots.length := h.length ▸ hk
    rw [place_own h.length hk hnumber]
    refine ⟨by rw [List.length_set, h.length], ?_, fun i s hs => ?_, fun s hs i hi hsi => ?_⟩
    · rw [List.filter_append, List.filter_cons_of_neg (by simpa using hown), List.filter_nil,
        List.append_nil]
      exact h.others
    · rcases eq_or_ne k i with rfl | hne
      · rw [List.getElem?_set_self hlt, Option.some_inj, Option.some_inj] at hs
        exact hs ▸ ⟨List.mem_append_right _ List.mem_cons_self, hnumber⟩
      · rw [List.getElem?_set_ne hne] at hs
        exact ⟨List.mem_append_left _ (h.own i s hs).1, (h.own i s hs).2⟩
    · rcases eq_or_ne k i with rfl | hne
      · exact ⟨slot, List.getElem?_set_self hlt⟩
      · rw [List.getElem?_set_ne hne]
        rcases List.mem_append.mp hs with hs | hs
        · exact h.claimed s hs i hi hsi
        · rw [List.mem_singleton.mp hs, hnumber, Option.some_inj] at hsi
          omega
  · rw [place_other h.length hown]
    refine ⟨h.length, ?_, fun i s hs => ?_, fun s hs i hi hsi => ?_⟩
    · rw [List.filter_append, List.filter_cons_of_pos (by simpa using hown), List.filter_nil]
      exact congrArg (· ++ [slot]) h.others
    · exact ⟨List.mem_append_left _ (h.own i s hs).1, (h.own i s hs).2⟩
    · rcases List.mem_append.mp hs with hs | hs
      · exact h.claimed s hs i hi hsi
      · rw [List.mem_singleton.mp hs] at hsi
        exact absurd (hasOwnSlot_iff.mpr ⟨i, hi, hsi⟩) hown

theorem Placed.foldl {done : List ApplianceSlot} {st : Layout} (h : Placed done st)
    (slots : List ApplianceSlot) :
    Placed (done ++ slots) (slots.foldl Home.place st) := by
  induction slots generalizing done st with
  | nil => rwa [List.append_nil]
  | cons slot slots ih =>
    rw [List.foldl_cons, ← List.singleton_append, ← List.append_assoc]
    exact ih (h.place slot)

/-! ## The other slots -/

/-- While nothing past the fixed slots is empty, a load goes into the first empty slot, or past the
last one. -/
theorem placeOther_eq {slots : List (Option ApplianceSlot)}
    (h : ∀ i : ℕ, slots[i]? = some none → i < APPLIANCE_SLOTS.length) (o : ApplianceSlot) :
    placeOther slots o = Slots.putFirst slots o := by
  rw [placeOther, Slots.putFirst_eq]
  cases hfree : slots.findIdx? Option.isNone with
  | none => rfl
  | some free =>
    obtain ⟨hlt, hnone, -⟩ := List.findIdx?_eq_some_iff_getElem.mp hfree
    refine if_pos (h free ?_)
    rw [List.getElem?_eq_getElem hlt, Option.isNone_iff_eq_none.mp hnone]

theorem foldl_placeOther {slots : List (Option ApplianceSlot)}
    (h : ∀ i : ℕ, slots[i]? = some none → i < APPLIANCE_SLOTS.length) (l : List ApplianceSlot) :
    l.foldl placeOther slots = Slots.fill slots l := by
  rw [← Slots.foldl_putFirst]
  induction l generalizing slots with
  | nil => rfl
  | cons o l ih =>
    rw [List.foldl_cons, List.foldl_cons, placeOther_eq h]
    refine ih fun i hi => h i ?_
    rw [← Slots.fill_nil (Slots.putFirst slots o), ← Slots.fill_cons] at hi
    exact Slots.getElem?_of_fill_none hi

/-- The others of a layout, as they are sorted. -/
def sortedOthers (st : Layout) : List ApplianceSlot :=
  st.others.insertionSort fun a b => order a.graphId ≤ order b.graphId

theorem foldl_placeNode (nodes : List SavedNode) (edges : List SavedEdge) (st : Layout) :
    nodes.foldl (placeNode (supplyIds edges)) st = (loads nodes edges).foldl place st := by
  induction nodes generalizing st with
  | nil => rfl
  | cons n nodes ih =>
    rw [List.foldl_cons, ih, loads, loads, placeNode, List.filterMap_cons]
    cases loadSlot (supplyIds edges) n <;> rfl

theorem applianceSlots_eq_fill (nodes : List SavedNode) (edges : List SavedEdge) :
    ∃ st, Placed (loads nodes edges) st ∧
      applianceSlots nodes edges = Slots.fill st.slots (sortedOthers st) := by
  have hplaced := placed_nil.foldl (loads nodes edges)
  rw [List.nil_append] at hplaced
  refine ⟨_, hplaced, ?_⟩
  rw [← foldl_placeOther, ← foldl_placeNode]
  · rfl
  · intro i hi
    rw [← hplaced.length]
    exact (List.getElem?_eq_some_iff.mp hi).1

theorem Placed.mem_slots {l : List ApplianceSlot} {st : Layout} (h : Placed l st)
    {s : ApplianceSlot} (hs : s ∈ st.slots.reduceOption) : s ∈ l ∧ HasOwnSlot s.graphId := by
  obtain ⟨i, hi⟩ := List.mem_iff_getElem?.mp (List.reduceOption_mem_iff.mp hs)
  have hlt : i < APPLIANCE_SLOTS.length := h.length ▸ (List.getElem?_eq_some_iff.mp hi).1
  exact ⟨(h.own i s hi).1, hasOwnSlot_iff.mpr ⟨i, hlt, (h.own i s hi).2⟩⟩

theorem Placed.mem_sortedOthers {l : List ApplianceSlot} {st : Layout} (h : Placed l st)
    {s : ApplianceSlot} : s ∈ sortedOthers st ↔ s ∈ l ∧ ¬ HasOwnSlot s.graphId := by
  rw [sortedOthers, List.mem_insertionSort, h.others, List.mem_filter, decide_eq_true_eq]

/-- The others are read back as they were sorted. -/
theorem Placed.filter_fill {l : List ApplianceSlot} {st : Layout} (h : Placed l st) :
    (Slots.fill st.slots (sortedOthers st)).reduceOption.filter
      (fun s => ¬ HasOwnSlot s.graphId) = sortedOthers st :=
  Slots.filter_reduceOption_fill (fun _ hs => decide_eq_false (not_not.mpr (h.mem_slots hs).2))
    fun _ hs => decide_eq_true (h.mem_sortedOthers.mp hs).2

/-- The slots of their own hold each of these loads once, if no two have the same. -/
theorem Placed.slots_perm {l : List ApplianceSlot} {st : Layout} (h : Placed l st) (hl : l.Nodup)
    (hown : ∀ s ∈ l, ∀ s' ∈ l, HasOwnSlot s.graphId →
      applianceNumber s.graphId = applianceNumber s'.graphId → s = s') :
    st.slots.reduceOption.Perm (l.filter fun s => HasOwnSlot s.graphId) := by
  refine (List.perm_ext_iff_of_nodup (Slots.nodup_reduceOption fun i j s hi hj => ?_)
    (hl.filter _)).mpr fun s => ⟨fun hs => ?_, fun hs => ?_⟩
  · have hnumber := (h.own i s hi).2.symm.trans (h.own j s hj).2
    rw [Option.some_inj] at hnumber
    omega
  · exact List.mem_filter.mpr ⟨(h.mem_slots hs).1, decide_eq_true (h.mem_slots hs).2⟩
  · rw [List.mem_filter, decide_eq_true_eq] at hs
    obtain ⟨i, hi, hnumber⟩ := hasOwnSlot_iff.mp hs.2
    obtain ⟨s', hs'⟩ := h.claimed s hs.1 i hi hnumber
    have hsame : s = s' :=
      hown s hs.1 s' (h.own i s' hs').1 hs.2 (hnumber.trans (h.own i s' hs').2.symm)
    exact List.reduceOption_mem_iff.mpr (hsame ▸ List.mem_of_getElem? hs')

theorem Placed.fill_perm {l : List ApplianceSlot} {st : Layout} (h : Placed l st) (hl : l.Nodup)
    (hown : ∀ s ∈ l, ∀ s' ∈ l, HasOwnSlot s.graphId →
      applianceNumber s.graphId = applianceNumber s'.graphId → s = s') :
    (Slots.fill st.slots (sortedOthers st)).reduceOption.Perm l := by
  have hothers : (sortedOthers st).Perm (l.filter fun s => !decide (HasOwnSlot s.graphId)) := by
    rw [sortedOthers, h.others]
    simp only [decide_not]
    exact List.perm_insertionSort _ _
  calc
    _ ~ st.slots.reduceOption ++ sortedOthers st := Slots.reduceOption_fill_perm _ _
    _ ~ _ := (h.slots_perm hl hown).append hothers
    _ ~ l := List.filter_append_perm _ _

/-- The order of the doubles sorts by the numbers if it leaves equal doubles as they should be. -/
theorem Placed.sorted_iff {l : List ApplianceSlot} {st : Layout} (h : Placed l st) :
    (sortedOthers st).Pairwise (fun s s' => numericSuffix s.graphId ≤ numericSuffix s'.graphId) ↔
      ((l.filter fun s => ¬ HasOwnSlot s.graphId).map (·.graphId)).Pairwise
        fun a b => order a = order b → numericSuffix a ≤ numericSuffix b := by
  have : Std.Total fun a b : ApplianceSlot => order a.graphId ≤ order b.graphId :=
    ⟨fun a b => le_total _ _⟩
  have : IsTrans ApplianceSlot fun a b => order a.graphId ≤ order b.graphId :=
    ⟨fun _ _ _ => le_trans⟩
  have hstrict : ∀ {a b : String}, ¬ order a ≤ order b → numericSuffix b ≤ numericSuffix a := by
    intro a b hab
    by_contra hlt
    exact hab (order_le (le_of_not_ge hlt))
  rw [sortedOthers, Slots.pairwise_insertionSort_iff (fun _ _ => hstrict), h.others,
    List.pairwise_map]
  refine List.Pairwise.iff fun s s' => ⟨fun hle heq => hle heq.le, fun heq hle => ?_⟩
  rcases hle.lt_or_eq with hlt | hsame
  · exact hstrict hlt.not_ge
  · exact heq hsame

/-! ## Every load once -/

theorem graphIds_others (nodes : List SavedNode) (edges : List SavedEdge) :
    ((loads nodes edges).filter fun s => ¬ HasOwnSlot s.graphId).map (·.graphId) =
      (nodes.filter fun n => Qualifies edges n ∧ ¬ HasOwnSlot n.id).map (·.id) := by
  have hfilter := congrArg (List.filter fun id => ¬ HasOwnSlot id) (graphIds_loads nodes edges)
  rw [List.filter_map, List.filter_map, List.filter_filter] at hfilter
  refine hfilter.trans (congrArg (List.map _) (List.filter_congr fun n _ => ?_))
  rw [Function.comp_apply, Bool.decide_and, Bool.and_comm]

theorem nodup_graphIds_loads {nodes : List SavedNode} (edges : List SavedEdge)
    (hids : (nodes.map (·.id)).Nodup) : ((loads nodes edges).map (·.graphId)).Nodup := by
  rw [graphIds_loads]
  exact hids.sublist (List.filter_sublist.map _)

theorem Distinguishable.own_loads {nodes : List SavedNode} {edges : List SavedEdge}
    (h : Distinguishable nodes edges) (hids : (nodes.map (·.id)).Nodup) :
    ∀ s ∈ loads nodes edges, ∀ s' ∈ loads nodes edges, HasOwnSlot s.graphId →
      applianceNumber s.graphId = applianceNumber s'.graphId → s = s' := by
  intro s hs s' hs' howns hsame
  refine List.inj_on_of_nodup_map (nodup_graphIds_loads edges hids) hs hs' ?_
  obtain ⟨n, hn, hq, hid, -⟩ := mem_loads.mp hs
  obtain ⟨n', hn', hq', hid', -⟩ := mem_loads.mp hs'
  rw [hid, hid'] at hsame ⊢
  rw [hid] at howns
  exact congrArg _ (h.own n hn n' hn' hq hq' howns hsame)

/-- With distinct ids, the slots show each load once, in its place, if and only if the loads can be
told apart. -/
theorem showsEveryLoad_iff (nodes : List SavedNode) (edges : List SavedEdge)
    (hids : (nodes.map (·.id)).Nodup) :
    ShowsEveryLoad nodes edges (applianceSlots nodes edges) ↔ Distinguishable nodes edges := by
  obtain ⟨st, hst, heq⟩ := applianceSlots_eq_fill nodes edges
  constructor
  · intro h
    refine ⟨fun n hn n' hn' hq hq' hown hsame => ?_, ?_⟩
    · obtain ⟨i, hi, hnumber⟩ := hasOwnSlot_iff.mp hown
      obtain ⟨s, hs, hid⟩ := h.own n hn hq i hi hnumber
      obtain ⟨s', hs', hid'⟩ := h.own n' hn' hq' i hi (hsame ▸ hnumber)
      rw [hs, Option.some_inj, Option.some_inj] at hs'
      exact List.inj_on_of_nodup_map hids hn hn' (hid.symm.trans (hs' ▸ hid'))
    · rw [← graphIds_others, ← hst.sorted_iff, ← hst.filter_fill, ← heq]
      exact h.inOrder
  · intro h
    have hloads := nodup_graphIds_loads edges hids
    have hown := h.own_loads hids
    have hperm : (applianceSlots nodes edges).reduceOption.Perm (loads nodes edges) :=
      heq ▸ hst.fill_perm hloads.of_map hown
    refine
      { length := ?_, once := ?_, shown := ?_, own := ?_, firstFree := ?_, noGap := ?_,
        inOrder := ?_ }
    · rw [heq, ← hst.length]
      exact Slots.length_le_length_fill _ _
    · rw [← graphIds_loads]
      exact hperm.map _
    · exact fun s hs => mem_loads.mp (hperm.mem_iff.mp hs)
    · intro n hn hq i hi hnumber
      obtain ⟨s, hs⟩ := exists_loadSlot hq
      have hshows := loadSlot_eq_some_iff.mp hs
      have hmem := mem_loads.mpr ⟨n, hn, hshows⟩
      have hid : s.graphId = n.id := hshows.2.1
      rw [← hid] at hnumber
      obtain ⟨s', hs'⟩ := hst.claimed s hmem i hi hnumber
      have hsame : s = s' := hown s hmem s' (hst.own i s' hs').1
        (hasOwnSlot_iff.mpr ⟨i, hi, hnumber⟩) (hnumber.trans (hst.own i s' hs').2.symm)
      rw [heq]
      exact ⟨s', Slots.getElem?_fill_of_some hs' _, hsame ▸ hid⟩
    · intro i j s hij hi hj
      rw [heq] at hi hj
      have hslot := Slots.getElem?_of_fill_empty hij hi hj
      exact (hst.mem_slots (List.reduceOption_mem_iff.mpr (List.mem_of_getElem? hslot))).2
    · intro i hi
      rw [heq] at hi
      rw [← hst.length]
      exact (List.getElem?_eq_some_iff.mp (Slots.getElem?_of_fill_none hi)).1
    · rw [heq, hst.filter_fill, hst.sorted_iff, graphIds_others]
      exact h.order

/-- A metered load with an id. -/
def load (id : String) : SavedNode where
  id := id
  settings := some
    { label := some "Main", type := some "device", nodeId := some 1, endpointId := some 1 }

theorem showsEveryLoad_iff_threeLoads :
    (([load "node_7", load "appliance_2", load "node_3"].map (·.id)).Nodup) ∧
      (ShowsEveryLoad [load "node_7", load "appliance_2", load "node_3"] []
          (applianceSlots [load "node_7", load "appliance_2", load "node_3"] []) ↔
        Distinguishable [load "node_7", load "appliance_2", load "node_3"] []) :=
  ⟨by decide, showsEveryLoad_iff _ _ (by decide)⟩

/-- The second of two ids for slot 1 takes the place of the first. -/
theorem appliance_slot_overwritten :
    ¬ ∀ nodes edges, ((nodes.map (·.id)).Nodup : Prop) →
      ShowsEveryLoad nodes edges (applianceSlots nodes edges) := by
  intro h
  have hlength := (h [load "appliance_1", load "appliance_01"] [] (by decide)).once.length_eq
  exact absurd hlength (by decide)

end HomeEnergyManager.Home
