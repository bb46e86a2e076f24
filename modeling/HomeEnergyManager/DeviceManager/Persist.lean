import Mathlib.Data.List.TakeWhile
import HomeEnergyManager.Lib.Double
import HomeEnergyManager.Lib.Json
import HomeEnergyManager.Lib.SavedFile
import HomeEnergyManager.DeviceManager.Store

/-! # The device store across a restart

`device_manager_persist` writes the store field by field and `load_from_disk` reads it back. Node
ids go through a double, device types come back through a signed `int`, a name ends at its first
NUL, and a file that is larger than 65536 bytes is not read. The text of a number is taken to give
back the double that was printed, on which node ids from 2⁵³ on rely.

`numSize` is the number of bytes of a number's text.

Reference: `firmware/main/managers/device_manager.cpp`.
-/

namespace HomeEnergyManager.DeviceManager

open Json SavedFile

/-! ## Writer -/

/-- What `c_str` shows of a text: it ends at the first NUL. -/
def cStr (s : String) : String := String.ofList (s.toList.takeWhile (· ≠ Char.ofNat 0))

/-- An absent key stands for no parent. -/
def parentJson (parent : UInt16) : List (String × Value) :=
  if parent = kNoParent then [] else [("parentEndpointId", .num parent.toNat)]

def endpointJson (ep : Endpoint) : Value :=
  .obj ([("endpointId", .num ep.endpointId.toNat)] ++ parentJson ep.parentEndpointId ++
    [("label", .str (cStr ep.label)), ("included", .bool ep.included), ("hasDem", .bool ep.hasDem),
      ("deviceTypes", .arr (ep.deviceTypes.map fun t => .num t.toNat)),
      ("parts", .arr (ep.parts.map fun p => .num p.toNat))])

def deviceJson (d : Device) : Value :=
  .obj [("nodeId", .num (Double.ofNat d.nodeId.toNat)), ("vendorName", .str (cStr d.vendorName)),
    ("productName", .str (cStr d.productName)), ("name", .str (cStr d.name)),
    ("endpoints", .arr (d.endpoints.map endpointJson))]

/-- The document that `device_manager_persist` prints. -/
def storeJson (s : Store) : Value :=
  .obj [("nextNodeId", .num (Double.ofNat s.nextNodeId.toNat)),
    ("devices", .arr (s.devices.map deviceJson))]

/-! ## Reader -/

/-- The cast of a number that is not negative to `uint64_t`. -/
def toUInt64 (x : ℚ) : UInt64 := UInt64.ofNat (x.num.toNat / x.den)

def numAt (v : Value) (key : String) : Option ℚ := (v.member key).bind Value.asNum

def readType (v : Value) : Option UInt32 := v.asNum.map fun x => UInt32.ofInt (intOf x)

def readPart (v : Value) : Option UInt16 := v.asNum.map fun x => UInt16.ofInt (intOf x)

/-- A number without an entry of its own in the file stays what it was before; the writer always
makes one. -/
def readEndpoint (v : Value) : Endpoint where
  endpointId := ((numAt v "endpointId").map fun x => UInt16.ofInt (intOf x)).getD 0
  parentEndpointId :=
    ((numAt v "parentEndpointId").map fun x => UInt16.ofInt (intOf x)).getD kNoParent
  label := v.textAt "label"
  included := (v.member "included").any Value.isTrue
  hasDem := (v.member "hasDem").any Value.isTrue
  deviceTypes := (v.itemsAt "deviceTypes").filterMap readType
  parts := (v.itemsAt "parts").filterMap readPart

def readDevice (v : Value) : Device where
  nodeId := ((numAt v "nodeId").map toUInt64).getD 0
  vendorName := v.textAt "vendorName"
  productName := v.textAt "productName"
  name := v.textAt "name"
  endpoints := (v.itemsAt "endpoints").map readEndpoint

def readStore (root : Value) : Store where
  nextNodeId := ((numAt root "nextNodeId").map toUInt64).getD 10000
  devices := (root.itemsAt "devices").map readDevice

variable (numSize : ℚ → ℕ)

/-- `load_from_disk`, at a start. -/
def loadFromDisk (readable : Bool) (disk : Option (File Value)) : Store :=
  ((load (Value.size numSize) 65536 readable disk).map readStore).getD {}

/-! ## Runs -/

structure State where
  store : Store := {}
  disk : Option (File Value) := none

/-- `device_manager_persist`. -/
def persist (w : Write) (s : State) : State :=
  { s with disk := w.replace (storeJson s.store) s.disk }

inductive Event where
  | call (op : Op)
  | report (nodeId : UInt64) (r : Report)
  | persist (w : Write)
  | restart (readable : Bool)

def step (s : State) : Event → State
  | .call op => { s with store := op.apply s.store }
  | .report nodeId r => { s with store := (r.ops nodeId).foldl Op.apply s.store }
  | .persist w => DeviceManager.persist w s
  | .restart readable => { s with store := loadFromDisk numSize readable s.disk }

def runFrom (es : List Event) : State := es.foldl (step numSize) {}

/-! ## What comes back -/

/-- A device type as it comes back through `valueint`. -/
def storedType (t : UInt32) : UInt32 := UInt32.ofNat (min t.toNat 2147483647)

/-- A node id as it comes back through a double. -/
def storedId (id : UInt64) : UInt64 := UInt64.ofNat (Double.ofNat id.toNat)

def Endpoint.stored (ep : Endpoint) : Endpoint :=
  { ep with label := cStr ep.label, deviceTypes := ep.deviceTypes.map storedType }

def Device.stored (d : Device) : Device where
  nodeId := storedId d.nodeId
  vendorName := cStr d.vendorName
  productName := cStr d.productName
  name := cStr d.name
  endpoints := d.endpoints.map Endpoint.stored

def Store.stored (s : Store) : Store where
  nextNodeId := storedId s.nextNodeId
  devices := s.devices.map Device.stored

/-- The store with no subscription, as it is after a start. -/
def Store.unsubscribed (s : Store) : Store :=
  { s with devices := s.devices.map fun d => { d with hasSubscription := false } }

/-- A text without NUL. -/
def NulFree (s : String) : Prop := Char.ofNat 0 ∉ s.toList

/-- A double holds the id exactly. -/
def ExactId (id : UInt64) : Prop := Double.lastPlace id.toNat ∣ id.toNat

instance (id : UInt64) : Decidable (ExactId id) :=
  inferInstanceAs (Decidable (Double.lastPlace id.toNat ∣ id.toNat))

def Endpoint.Plain (ep : Endpoint) : Prop :=
  NulFree ep.label ∧ ∀ t ∈ ep.deviceTypes, t.toNat < 2147483648

structure Device.Plain (d : Device) : Prop where
  nodeId : ExactId d.nodeId
  vendorName : NulFree d.vendorName
  productName : NulFree d.productName
  name : NulFree d.name
  endpoints : ∀ ep ∈ d.endpoints, ep.Plain

/-- No text holds a NUL, every device type is below 2^31 and every id is exact as a double. -/
structure Store.Plain (s : Store) : Prop where
  nextNodeId : ExactId s.nextNodeId
  devices : ∀ d ∈ s.devices, d.Plain

section

variable {numSize : ℚ → ℕ} {s : Store}

theorem ofInt_intOf_toNat (p : UInt16) : UInt16.ofInt (intOf (p.toNat : ℚ)) = p := by
  have hlt := p.toNat_lt
  apply UInt16.toNat_inj.mp
  rw [intOf_natCast, UInt16.ofInt]
  simp
  omega

theorem readPart_num (p : UInt16) : readPart (.num p.toNat) = some p :=
  congrArg some (ofInt_intOf_toNat p)

theorem readType_num (t : UInt32) : readType (.num t.toNat) = some (storedType t) := by
  refine congrArg some (UInt32.toNat_inj.mp ?_)
  dsimp only
  rw [intOf_natCast, UInt32.ofInt, storedType]
  simp
  omega

theorem toUInt64_ofNat (id : UInt64) : toUInt64 (Double.ofNat id.toNat : ℕ) = storedId id := by
  rw [toUInt64, Rat.num_natCast, Rat.den_natCast, Nat.div_one, Int.toNat_natCast, storedId]

theorem filterMap_map_of_some {α β : Type*} {f : β → Option α} {g : α → β} {h : α → α}
    (hfg : ∀ a, f (g a) = some (h a)) (l : List α) : (l.map g).filterMap f = l.map h := by
  rw [List.filterMap_map, ← List.filterMap_eq_map]
  apply List.filterMap_congr
  intro a _
  exact hfg a

theorem readEndpoint_endpointJson (ep : Endpoint) : readEndpoint (endpointJson ep) = ep.stored := by
  obtain ⟨id, parent, label, included, hasDem, deviceTypes, parts⟩ := ep
  have hid := ofInt_intOf_toNat id
  have hparent := ofInt_intOf_toNat parent
  have htypes : (deviceTypes.map fun t => Value.num t.toNat).filterMap readType =
      deviceTypes.map storedType :=
    filterMap_map_of_some readType_num deviceTypes
  have hparts : (parts.map fun p => Value.num p.toNat).filterMap readPart = parts.map fun p => p :=
    filterMap_map_of_some readPart_num parts
  rw [List.map_id'] at hparts
  by_cases hnone : parent = kNoParent <;>
    simp [readEndpoint, endpointJson, parentJson, numAt, Value.textAt, Value.itemsAt,
      Endpoint.stored, hnone, hid, hparent, htypes, hparts]

theorem readDevice_deviceJson (d : Device) : readDevice (deviceJson d) = d.stored := by
  have hid := toUInt64_ofNat d.nodeId
  have hendpoints : (d.endpoints.map endpointJson).map readEndpoint =
      d.endpoints.map Endpoint.stored := by
    rw [List.map_map]
    exact List.map_congr_left fun ep _ => readEndpoint_endpointJson ep
  simp [readDevice, deviceJson, numAt, Value.textAt, Value.itemsAt, Device.stored, hid, hendpoints]

/-- The reader makes of the writer's document the store, up to what the fields lose. -/
theorem readStore_storeJson (s : Store) : readStore (storeJson s) = s.stored := by
  have hid := toUInt64_ofNat s.nextNodeId
  have hdevices : (s.devices.map deviceJson).map readDevice = s.devices.map Device.stored := by
    rw [List.map_map]
    exact List.map_congr_left fun d _ => readDevice_deviceJson d
  simp [readStore, storeJson, numAt, Value.itemsAt, Store.stored, hid, hdevices]

/-! ## When nothing is lost -/

theorem cStr_eq_self_iff {t : String} : cStr t = t ↔ NulFree t := by
  rw [cStr, NulFree]
  constructor
  · intro h hmem
    rw [← h, String.toList_ofList] at hmem
    simpa using List.mem_takeWhile_imp hmem
  · intro h
    have hall : t.toList.takeWhile (· ≠ Char.ofNat 0) = t.toList := by
      rw [List.takeWhile_eq_self_iff]
      intro c hc
      have hne : c ≠ Char.ofNat 0 := fun heq => h (heq ▸ hc)
      simpa using hne
    rw [hall, String.ofList_toList]

theorem storedType_eq_self_iff {t : UInt32} : storedType t = t ↔ t.toNat < 2147483648 := by
  have hlt := t.toNat_lt
  rw [← UInt32.toNat_inj, storedType, UInt32.toNat_ofNat']
  omega

theorem storedId_eq_self_iff {id : UInt64} : storedId id = id ↔ ExactId id := by
  rw [← UInt64.toNat_inj, storedId, UInt64.toNat_ofNat', ExactId]
  exact Double.ofNat_mod_eq_self_iff id.toNat_lt

theorem map_eq_self_iff {α : Type*} {f : α → α} {l : List α} :
    l.map f = l ↔ ∀ a ∈ l, f a = a := by
  have h := List.map_inj_left (l := l) (f := f) (g := fun a => a)
  rwa [List.map_id'] at h

theorem Endpoint.stored_eq_self_iff {ep : Endpoint} : ep.stored = ep ↔ ep.Plain := by
  obtain ⟨id, parent, label, included, hasDem, deviceTypes, parts⟩ := ep
  simp [Endpoint.stored, Endpoint.Plain, cStr_eq_self_iff, map_eq_self_iff, storedType_eq_self_iff]

theorem Device.stored_eq_iff {d : Device} :
    d.stored = { d with hasSubscription := false } ↔ d.Plain := by
  obtain ⟨nodeId, vendorName, productName, name, endpoints, hasSubscription⟩ := d
  simp only [Device.stored, Device.mk.injEq, storedId_eq_self_iff, cStr_eq_self_iff,
    map_eq_self_iff, Endpoint.stored_eq_self_iff, and_true]
  constructor
  · rintro ⟨hid, hvendor, hproduct, hname, hendpoints⟩
    exact ⟨hid, hvendor, hproduct, hname, hendpoints⟩
  · rintro ⟨hid, hvendor, hproduct, hname, hendpoints⟩
    exact ⟨hid, hvendor, hproduct, hname, hendpoints⟩

theorem Store.stored_eq_iff : s.stored = s.unsubscribed ↔ s.Plain := by
  simp only [Store.stored, Store.unsubscribed, Store.mk.injEq, storedId_eq_self_iff,
    List.map_inj_left, Device.stored_eq_iff]
  constructor
  · rintro ⟨hid, hdevices⟩
    exact ⟨hid, hdevices⟩
  · rintro ⟨hid, hdevices⟩
    exact ⟨hid, hdevices⟩

/-- Where there is nothing, nothing is lost. -/
theorem plain_of_unsubscribed_eq (h : s.unsubscribed = {}) : s.Plain := by
  rw [Store.unsubscribed, Store.mk.injEq, List.map_eq_nil_iff] at h
  refine ⟨?_, fun d hd => ?_⟩
  · rw [h.1]
    decide
  · rw [h.2] at hd
    exact absurd hd List.not_mem_nil

theorem size_storeJson_pos : 0 < (storeJson s).size numSize := by
  rw [storeJson, Value.size]
  omega

theorem loadFromDisk_text (readable : Bool) :
    loadFromDisk numSize readable (some (.text (storeJson s))) =
      if readable = true ∧ (storeJson s).size numSize ≤ 65536 then s.stored else {} := by
  rw [loadFromDisk, load_text size_storeJson_pos]
  split
  · rw [Option.map_some, Option.getD_some, readStore_storeJson]
  · rfl

theorem loadFromDisk_cut {readable : Bool} :
    loadFromDisk numSize readable (some .cut) = {} := by
  rw [loadFromDisk, load_cut]
  rfl

end

/-- After a write that was reported as a success, the store comes back, without subscriptions, if
and only if it was wholly written, is no larger than the reader allows, can be read and holds
nothing that its fields lose; or there is nothing in it. -/
theorem store_survives_iff (numSize : ℚ → ℕ) (es : List Event) {w : Write}
    (hw : w.reported = true) (readable : Bool) :
    loadFromDisk numSize readable (persist w (runFrom numSize es)).disk =
        (runFrom numSize es).store.unsubscribed ↔
      (w.flushed = true ∧ readable = true ∧
          (storeJson (runFrom numSize es).store).size numSize ≤ 65536 ∧
          (runFrom numSize es).store.Plain) ∨
        (runFrom numSize es).store.unsubscribed = {} := by
  generalize runFrom numSize es = s
  rw [persist, Write.replace, if_pos hw]
  dsimp only
  cases hflushed : w.flushed with
  | false =>
    rw [if_neg Bool.false_ne_true, loadFromDisk_cut, eq_comm]
    exact (or_iff_right fun h => Bool.false_ne_true h.1).symm
  | true =>
    rw [if_pos rfl, loadFromDisk_text]
    by_cases hfits : readable = true ∧ (storeJson s.store).size numSize ≤ 65536
    · rw [if_pos hfits, Store.stored_eq_iff]
      constructor
      · exact fun hplain => Or.inl ⟨rfl, hfits.1, hfits.2, hplain⟩
      · rintro (⟨-, -, -, hplain⟩ | hempty)
        · exact hplain
        · exact plain_of_unsubscribed_eq hempty
    · rw [if_neg hfits, eq_comm]
      exact (or_iff_right fun h => hfits ⟨h.2.1, h.2.2.1⟩).symm

/-- The bytes of the text of a natural number. -/
def decimalSize (x : ℚ) : ℕ := (Nat.toDigits 10 x.num.toNat).length

/-- A smart meter that has been commissioned, interrogated and named. -/
def meterRun : List Event :=
  [.call .nextNodeId, .call (.addDevice 10000), .report 10000 (.deviceTypeList 0 [0x16]),
    .report 10000 (.partsList 0 [1]), .report 10000 (.deviceTypeList 1 [0x0510]),
    .report 10000 (.vendorName "Acme"), .call (.resolveParents 10000),
    .call (.setDeviceName 10000 "Meter")]

theorem meter_survives :
    loadFromDisk decimalSize true (persist {} (runFrom decimalSize meterRun)).disk =
      (runFrom decimalSize meterRun).store.unsubscribed := by
  have hplain : (runFrom decimalSize meterRun).store.Plain :=
    Store.stored_eq_iff.mp (by decide)
  exact (store_survives_iff decimalSize meterRun rfl true).mpr
    (Or.inl ⟨rfl, rfl, by decide, hplain⟩)

/-- A device type of a manufacturer comes back as another one. -/
theorem store_loses_device_type : ¬ ∀ (numSize : ℚ → ℕ) (es : List Event) (w : Write),
    w.reported = true → loadFromDisk numSize true (persist w (runFrom numSize es)).disk =
      (runFrom numSize es).store.unsubscribed := by
  intro h
  have hsame := h decimalSize
    [.call (.addDevice 10000), .report 10000 (.deviceTypeList 1 [0xFFF10001])] {} rfl
  rw [persist, Write.replace, if_pos (by decide), if_pos rfl, loadFromDisk_text] at hsame
  exact absurd hsame (by decide)

end HomeEnergyManager.DeviceManager
