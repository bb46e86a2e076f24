import Mathlib.Data.Finset.Prod
import Mathlib.Data.Finset.Range
import HomeEnergyManager.Lib.FirstSeen
import HomeEnergyManager.Subscription.TariffPaths
import HomeEnergyManager.Subscription.WantedNodes

/-! # The value cache

The latest value of each subscribed attribute. Entries are claimed by `seed` and by the first report
of a key, and are never released, so the cache holds the first keys that came, and the reports of
the others are dropped.

Reference: `firmware/main/value_cache.cpp`, `firmware/main/matter_controller.cpp`.
-/

namespace HomeEnergyManager.ValueCache

open DeviceManager (Device)
open SubscriptionManager (AttributePath Attribute Cluster attrPaths electricalSensorEndpoints)

/-- What an entry is found by. -/
structure Key where
  nodeId : ℕ
  endpointId : ℕ
  clusterId : Cluster
  attributeId : Attribute
deriving DecidableEq, Repr

/-- `ValueCacheEntry`. -/
structure Entry where
  key : Key
  value : ℤ
  valid : Bool
  lastUpdateUnix : ℕ
deriving DecidableEq, Repr

def kMaxEntries : ℕ := 96

def kMaxSensors : ℕ := 32

/-- `find_or_claim` with `create`: the entries, and the place of the one for the key. -/
def findOrClaim (entries : List Entry) (key : Key) : Option (List Entry × ℕ) :=
  match entries.findIdx? (·.key = key) with
  | some i => some (entries, i)
  | none =>
    if kMaxEntries ≤ entries.length then none
    else some
      (entries ++ [{ key := key, value := 0, valid := false, lastUpdateUnix := 0 }], entries.length)

def put (key : Key) (value : ℤ) (now : ℕ) (entries : List Entry) : List Entry :=
  match findOrClaim entries key with
  | some (entries, i) =>
    entries.modify i fun e => { e with value := value, valid := true, lastUpdateUnix := now }
  | none => entries

def seed (key : Key) (entries : List Entry) : List Entry :=
  match findOrClaim entries key with
  | some (entries, _) => entries
  | none => entries

/-! ## What comes in -/

/-- The element that a report carries. -/
inductive Tlv where
  | null
  | signed (v : Int64)
  | unsigned (v : UInt64)
  | other
deriving DecidableEq

/-- `raw_value`, if the element is an integer. -/
def Tlv.rawValue : Tlv → Option ℤ
  | .signed v => some v.toInt
  | .unsigned v => some v.toInt64.toInt
  | .null | .other => none

/-- `cache_attribute`. -/
def cacheAttribute (key : Key) (data : Tlv) (now : ℕ) (entries : List Entry) : List Entry :=
  data.rawValue.elim entries fun v => put key v now entries

/-- `matter_controller_attribute_data_cb`, as far as the cache goes. -/
def attributeDataCb (key : Key) (data : Tlv) (now : ℕ) (entries : List Entry) : List Entry :=
  match key.clusterId with
  | .electricalPowerMeasurement | .powerSource => cacheAttribute key data now entries
  | .commodityTariff | .commodityPrice => entries

/-- The keys that are seeded for an endpoint. -/
def seededKeys (ep : UInt64 × UInt16) : List Key :=
  [.voltage, .activeCurrent, .activePower].map fun attributeId =>
    { nodeId := ep.1.toNat
      endpointId := ep.2.toNat
      clusterId := .electricalPowerMeasurement
      attributeId := attributeId }

/-- `matter_controller_seed_value_cache`. -/
def seedValueCache (devices : List Device) (entries : List Entry) : List Entry :=
  ((electricalSensorEndpoints devices kMaxSensors).flatMap seededKeys).foldl (fun es k => seed k es)
    entries

inductive Event where
  | seed (devices : List Device)
  | report (key : Key) (data : Tlv) (now : ℕ)

def step (entries : List Entry) : Event → List Entry
  | .seed devices => seedValueCache devices entries
  | .report key data now => attributeDataCb key data now entries

/-- `snapshot()` after some events, from the empty cache on. -/
def snapshot (es : List Event) : List Entry := es.foldl step []

/-! ## What was reported -/

/-- The clusters whose reports are cached. -/
def Key.cached (key : Key) : Bool :=
  key.clusterId = .electricalPowerMeasurement ∨ key.clusterId = .powerSource

/-- The integer value that an event reports of a key. -/
def Event.value (key : Key) : Event → Option ℤ
  | .report key' data _ => if key' = key then data.rawValue else none
  | .seed _ => none

/-- The last reported integer value of a key. -/
def lastReported (es : List Event) (key : Key) : Option ℤ :=
  es.foldl (fun last e => (e.value key).or last) none

/-- The keys that an event needs an entry for. -/
def Event.claims : Event → List Key
  | .seed devices => (electricalSensorEndpoints devices kMaxSensors).flatMap seededKeys
  | .report key data _ => if key.cached && data.rawValue.isSome then [key] else []

/-- The distinct keys that came, in the order of the first time. -/
def claimedKeys (es : List Event) : List Key :=
  (es.flatMap Event.claims).foldl FirstSeen.insertNew []

/-- An endpoint of a set, and a path that is asked for on any endpoint. -/
def Key.Requested (endpoints : Finset (ℕ × ℕ)) (key : Key) : Prop :=
  (key.nodeId, key.endpointId) ∈ endpoints ∧
    ∃ p ∈ attrPaths none, p.clusterId = key.clusterId ∧ p.attributeId = some key.attributeId

/-- The event is about the endpoints of a set. -/
def Event.About (endpoints : Finset (ℕ × ℕ)) : Event → Prop
  | .seed devices =>
    ∀ ep ∈ electricalSensorEndpoints devices kMaxSensors, (ep.1.toNat, ep.2.toNat) ∈ endpoints
  | .report key _ _ => key.Requested endpoints

instance (endpoints : Finset (ℕ × ℕ)) : DecidablePred (Key.Requested endpoints) :=
  fun _ => inferInstanceAs (Decidable (_ ∧ ∃ p ∈ attrPaths none, _ ∧ _))

instance (endpoints : Finset (ℕ × ℕ)) : DecidablePred (Event.About endpoints)
  -- the list is searched, not the type of the endpoints
  | .seed devices => List.decidableBAll
      (fun ep : UInt64 × UInt16 => (ep.1.toNat, ep.2.toNat) ∈ endpoints)
      (electricalSensorEndpoints devices kMaxSensors)
  | .report key _ _ => inferInstanceAs (Decidable (key.Requested endpoints))

/-! ## One key -/

section Claim

variable {entries : List Entry} {asked : List Key} {last : Key → Option ℤ} {key : Key}

/-- A claimed entry that has no value yet. -/
def Entry.fresh (key : Key) : Entry :=
  { key := key, value := 0, valid := false, lastUpdateUnix := 0 }

theorem findIdx?_eq_none_iff :
    entries.findIdx? (·.key = key) = none ↔ key ∉ entries.map (·.key) := by
  rw [List.findIdx?_eq_none_iff]
  constructor
  · intro h hmem
    obtain ⟨e, he, rfl⟩ := List.mem_map.mp hmem
    exact absurd rfl (of_decide_eq_false (h e he))
  · intro h e he
    exact decide_eq_false fun heq => h (heq ▸ List.mem_map_of_mem he)

/-- Seeding claims an entry for a key that has none, while there is room. -/
theorem seed_eq (key : Key) (entries : List Entry) :
    seed key entries =
      if key ∈ entries.map (·.key) ∨ kMaxEntries ≤ entries.length then entries
      else entries ++ [.fresh key] := by
  unfold seed findOrClaim
  cases hfind : entries.findIdx? (·.key = key) with
  | some i =>
    have hmem : key ∈ entries.map (·.key) := by
      by_contra hnot
      rw [findIdx?_eq_none_iff.mpr hnot] at hfind
      exact nomatch hfind
    exact (if_pos (Or.inl hmem)).symm
  | none =>
    have hnot := findIdx?_eq_none_iff.mp hfind
    dsimp only
    by_cases hfull : kMaxEntries ≤ entries.length
    · rw [if_pos hfull, if_pos (Or.inr hfull)]
    · rw [if_neg hfull, if_neg (not_or.mpr ⟨hnot, hfull⟩)]
      rfl

/-- The entry of a key with its new value. -/
def setValue (key : Key) (value : ℤ) (now : ℕ) (e : Entry) : Entry :=
  if e.key = key then { e with value := value, valid := true, lastUpdateUnix := now } else e

@[simp] theorem setValue_key (value : ℤ) (now : ℕ) (e : Entry) :
    (setValue key value now e).key = e.key := by
  unfold setValue
  split <;> rfl

theorem map_setValue_of_not_mem (value : ℤ) (now : ℕ) (h : key ∉ entries.map (·.key)) :
    entries.map (setValue key value now) = entries := by
  conv_rhs => rw [← List.map_id entries]
  refine List.map_congr_left fun e he => if_neg fun heq => h ?_
  exact heq ▸ List.mem_map_of_mem he

/-- Where keys are distinct, setting the first entry of a key sets the entries of the key. -/
theorem modify_findIdx (hkeys : (entries.map (·.key)).Nodup) {i : ℕ} (value : ℤ) (now : ℕ)
    (hfind : entries.findIdx? (·.key = key) = some i) :
    entries.modify i (fun e => { e with value := value, valid := true, lastUpdateUnix := now })
      = entries.map (setValue key value now) := by
  induction entries generalizing i with
  | nil => exact nomatch hfind
  | cons e entries ih =>
    rw [List.map_cons, List.nodup_cons] at hkeys
    rw [List.findIdx?_cons] at hfind
    rw [List.map_cons]
    by_cases hkey : e.key = key
    · rw [if_pos (decide_eq_true hkey)] at hfind
      obtain rfl := Option.some.inj hfind
      rw [map_setValue_of_not_mem value now (hkey ▸ hkeys.1), setValue, if_pos hkey]
      rfl
    · rw [if_neg (by simpa using hkey)] at hfind
      obtain ⟨j, hj, rfl⟩ := Option.map_eq_some_iff.mp hfind
      rw [List.modify_succ_cons, ih hkeys.2 hj, setValue, if_neg hkey]

/-- `put` seeds the key and sets its value, if there was room. -/
theorem put_eq (hkeys : (entries.map (·.key)).Nodup) (key : Key) (value : ℤ) (now : ℕ) :
    put key value now entries = (seed key entries).map (setValue key value now) := by
  unfold put seed findOrClaim
  cases hfind : entries.findIdx? (·.key = key) with
  | some i => exact modify_findIdx hkeys value now hfind
  | none =>
    have hnot := findIdx?_eq_none_iff.mp hfind
    dsimp only
    by_cases hfull : kMaxEntries ≤ entries.length
    · rw [if_pos hfull]
      exact (map_setValue_of_not_mem value now hnot).symm
    · rw [if_neg hfull]
      dsimp only
      rw [List.map_append, map_setValue_of_not_mem value now hnot, List.modify_eq_take_cons_drop]
      · simp [setValue]
      · simp

/-- The value of an entry, if it has one. -/
def Entry.shown (e : Entry) : Option ℤ := if e.valid then some e.value else none

/-- The cache holds the first keys, each once, with the values that were reported last. -/
structure Inv (entries : List Entry) (asked : List Key) (last : Key → Option ℤ) : Prop where
  nodup : asked.Nodup
  keys : entries.map (·.key) = asked.take kMaxEntries
  shown : ∀ e ∈ entries, e.shown = last e.key
  reported : ∀ key, (last key).isSome → key ∈ asked

theorem Inv.nodup_keys (h : Inv entries asked last) : (entries.map (·.key)).Nodup := by
  rw [h.keys]
  exact (List.take_sublist _ _).nodup h.nodup

theorem Inv.seed (h : Inv entries asked last) (key : Key) :
    Inv (ValueCache.seed key entries) (FirstSeen.insertNew asked key) last := by
  have hlength : entries.length = (asked.take kMaxEntries).length := by
    rw [← h.keys, List.length_map]
  rw [seed_eq, h.keys, hlength]
  refine ⟨FirstSeen.nodup_insertNew h.nodup key, ?_, ?_, fun k hk =>
    FirstSeen.mem_insertNew.mpr (Or.inl (h.reported k hk))⟩
  · rw [FirstSeen.take_insertNew]
    split
    · exact h.keys
    · rw [List.map_append, h.keys]
      rfl
  · split
    · exact h.shown
    · rename_i hnew
      rw [not_or, not_le] at hnew
      intro e he
      rcases List.mem_append.mp he with he | he
      · exact h.shown e he
      -- a key that gets its entry now was never reported
      · rw [List.mem_singleton.mp he]
        have hnone : last key = none := by
          rw [← Option.not_isSome_iff_eq_none]
          intro hsome
          have hshort : asked.take kMaxEntries = asked := by
            rw [List.length_take] at hnew
            exact List.take_of_length_le (by omega)
          rw [hshort] at hnew
          exact hnew.1 (h.reported key hsome)
        exact hnone.symm

theorem Inv.put (h : Inv entries asked last) (key : Key) (value : ℤ) (now : ℕ) :
    Inv (ValueCache.put key value now entries) (FirstSeen.insertNew asked key)
      (Function.update last key (some value)) := by
  obtain ⟨hnodup, hkeys, hshown, hreported⟩ := h.seed key
  rw [put_eq h.nodup_keys]
  refine ⟨hnodup, ?_, ?_, ?_⟩
  · rw [List.map_map, ← hkeys]
    exact List.map_congr_left fun e _ => setValue_key value now e
  · intro e he
    obtain ⟨e', he', rfl⟩ := List.mem_map.mp he
    rw [setValue_key]
    unfold setValue
    by_cases hkey : e'.key = key
    · rw [if_pos hkey, hkey, Function.update_self]
      rfl
    · rw [if_neg hkey, Function.update_of_ne hkey]
      exact hshown e' he'
  · intro k hk
    by_cases hkey : k = key
    · exact FirstSeen.mem_insertNew.mpr (Or.inr hkey)
    · rw [Function.update_of_ne hkey] at hk
      exact hreported k hk

end Claim

/-! ## Runs -/

section Run

variable {entries : List Entry} {asked : List Key} {last : Key → Option ℤ}
  {endpoints : Finset (ℕ × ℕ)} {es : List Event}

theorem Inv.seedAll (h : Inv entries asked last) (keys : List Key) :
    Inv (keys.foldl (fun es k => ValueCache.seed k es) entries)
      (keys.foldl FirstSeen.insertNew asked) last := by
  induction keys generalizing entries asked with
  | nil => exact h
  | cons key keys ih => exact ih (h.seed key)

theorem Key.Requested.cached {key : Key} (h : key.Requested endpoints) : key.cached = true := by
  obtain ⟨-, p, hp, hcluster, -⟩ := h
  have hall : ∀ p ∈ attrPaths none,
      p.clusterId = .electricalPowerMeasurement ∨ p.clusterId = .powerSource := by decide
  exact decide_eq_true (hcluster ▸ hall p hp)

/-- One event keeps the invariant. -/
theorem Inv.step (h : Inv entries asked last) {e : Event} (he : e.About endpoints) :
    Inv (ValueCache.step entries e) (e.claims.foldl FirstSeen.insertNew asked)
      (fun key => (e.value key).or (last key)) := by
  cases e with
  | seed devices => exact h.seedAll _
  | report key data now =>
    have hcached : key.cached = true := Key.Requested.cached he
    have hcache : ValueCache.step entries (.report key data now)
        = cacheAttribute key data now entries := by
      unfold ValueCache.step attributeDataCb
      dsimp only
      unfold Key.cached at hcached
      cases hcluster : key.clusterId <;> simp_all
    rw [hcache]
    unfold cacheAttribute Event.claims Event.value
    dsimp only
    rw [hcached, Bool.true_and]
    cases hvalue : data.rawValue with
    | none =>
      rw [Option.isSome_none, if_neg Bool.false_ne_true]
      simp only [ite_self, Option.none_or]
      exact h
    | some v =>
      rw [Option.isSome_some, if_pos rfl]
      have hlast : (fun key' => (if key = key' then some v else none).or (last key'))
          = Function.update last key (some v) := by
        funext key'
        by_cases hkey : key = key'
        · rw [if_pos hkey, hkey, Function.update_self]
          rfl
        · rw [if_neg hkey, Function.update_of_ne (Ne.symm hkey)]
          rfl
      rw [hlast]
      exact h.put key v now

theorem Inv.run (h : Inv entries asked last) (hes : ∀ e ∈ es, e.About endpoints) :
    Inv (es.foldl ValueCache.step entries)
      ((es.flatMap Event.claims).foldl FirstSeen.insertNew asked)
      (fun key => es.foldl (fun last e => (e.value key).or last) (last key)) := by
  induction es generalizing entries asked last with
  | nil => exact h
  | cons e es ih =>
    rw [List.forall_mem_cons] at hes
    rw [List.flatMap_cons, List.foldl_append]
    exact ih (h.step hes.1) hes.2

/-- After any events about some endpoints. -/
theorem inv_snapshot (hes : ∀ e ∈ es, e.About endpoints) :
    Inv (snapshot es) (claimedKeys es) (lastReported es) := by
  have hempty : Inv [] [] fun _ => none :=
    ⟨List.nodup_nil, rfl, fun e he => absurd he List.not_mem_nil, fun _ hk => nomatch hk⟩
  exact hempty.run hes

/-- The snapshot shows the last reported value of every key. -/
def HoldsLast (es : List Event) : Prop :=
  ∀ key v, lastReported es key = some v →
    ∃ e ∈ snapshot es, e.key = key ∧ e.valid = true ∧ e.value = v

/-- A reported key is shown exactly if it was among the first. -/
theorem Inv.holdsLast_iff (h : Inv (snapshot es) (claimedKeys es) (lastReported es)) :
    HoldsLast es ↔
      ∀ key, (lastReported es key).isSome → key ∈ (claimedKeys es).take kMaxEntries := by
  rw [← h.keys]
  constructor
  · intro hall key hkey
    obtain ⟨v, hv⟩ := Option.isSome_iff_exists.mp hkey
    obtain ⟨e, he, rfl, -⟩ := hall key v hv
    exact List.mem_map_of_mem he
  · intro hfirst key v hv
    obtain ⟨e, he, rfl⟩ := List.mem_map.mp (hfirst key (by rw [hv]; rfl))
    have hshown := h.shown e he
    rw [hv] at hshown
    unfold Entry.shown at hshown
    split at hshown
    · rename_i hvalid
      exact ⟨e, he, rfl, hvalid, Option.some.inj hshown⟩
    · exact nomatch hshown

/-! ## How many keys there are -/

/-- The requested attributes of an endpoint. -/
def requestedAttributes : Finset (Cluster × Attribute) :=
  {(.electricalPowerMeasurement, .voltage), (.electricalPowerMeasurement, .activeCurrent),
    (.electricalPowerMeasurement, .activePower), (.powerSource, .batPercentRemaining)}

/-- The endpoint and the attribute of a key. -/
def Key.parts (key : Key) : (ℕ × ℕ) × Cluster × Attribute :=
  ((key.nodeId, key.endpointId), key.clusterId, key.attributeId)

theorem Key.parts_injective : Function.Injective Key.parts := by
  rintro ⟨n, ep, c, a⟩ ⟨n', ep', c', a'⟩ h
  simp only [Key.parts, Prod.mk.injEq] at h
  obtain ⟨⟨rfl, rfl⟩, rfl, rfl⟩ := h
  rfl

theorem parts_mem_of_claims {e : Event} (he : e.About endpoints) {key : Key}
    (hkey : key ∈ e.claims) : key.parts ∈ endpoints ×ˢ requestedAttributes := by
  rw [Finset.mem_product]
  cases e with
  | seed devices =>
    obtain ⟨ep, hep, hkey⟩ := List.mem_flatMap.mp hkey
    obtain ⟨attributeId, hattribute, rfl⟩ := List.mem_map.mp hkey
    have hall : ∀ a ∈ [Attribute.voltage, .activeCurrent, .activePower],
        (Cluster.electricalPowerMeasurement, a) ∈ requestedAttributes := by decide
    exact ⟨he ep hep, hall attributeId hattribute⟩
  | report key' data now =>
    unfold Event.claims at hkey
    dsimp only at hkey
    split at hkey
    · obtain rfl := List.mem_singleton.mp hkey
      obtain ⟨hmem, p, hp, hcluster, hattribute⟩ := he
      have hall : ∀ p ∈ attrPaths none, ∀ a ∈ p.attributeId,
          (p.clusterId, a) ∈ requestedAttributes := by decide
      have hrequested := hall p hp key.attributeId hattribute
      rw [hcluster] at hrequested
      exact ⟨hmem, hrequested⟩
    · exact absurd hkey List.not_mem_nil

theorem mem_foldl_insertNew {l : List Key} {key : Key} :
    key ∈ l.foldl FirstSeen.insertNew asked ↔ key ∈ asked ∨ key ∈ l := by
  induction l generalizing asked with
  | nil => simp
  | cons k l ih => rw [List.foldl_cons, ih, FirstSeen.mem_insertNew, List.mem_cons, or_assoc]

/-- Four for each endpoint. -/
theorem length_claimedKeys (hes : ∀ e ∈ es, e.About endpoints) :
    (claimedKeys es).length ≤ endpoints.card * 4 := by
  have hnodup : ((claimedKeys es).map Key.parts).Nodup :=
    (inv_snapshot hes).nodup.map Key.parts_injective
  have hsub : ((claimedKeys es).map Key.parts).toFinset ⊆ endpoints ×ˢ requestedAttributes := by
    intro x hx
    obtain ⟨key, hkey, rfl⟩ := List.mem_map.mp (List.mem_toFinset.mp hx)
    obtain ⟨e, he, hclaims⟩ :=
      List.mem_flatMap.mp ((mem_foldl_insertNew.mp hkey).resolve_left List.not_mem_nil)
    exact parts_mem_of_claims (hes e he) hclaims
  have hcard := Finset.card_le_card hsub
  rw [List.toFinset_card_of_nodup hnodup, List.length_map, Finset.card_product] at hcard
  exact hcard

end Run

/-- For every set of endpoints and every sequence of seedings and reports about them: no key has two
entries, and the last reported values are all shown exactly if each reported key was among the first
`kMaxEntries` keys that were seeded or reported. With 24 endpoints at most they always are. -/
theorem value_cache_iff (endpoints : Finset (ℕ × ℕ)) (es : List Event)
    (hes : ∀ e ∈ es, e.About endpoints) :
    ((snapshot es).map (·.key)).Nodup ∧
    (HoldsLast es ↔
      ∀ key, (lastReported es key).isSome → key ∈ (claimedKeys es).take kMaxEntries) ∧
    (endpoints.card ≤ 24 → HoldsLast es) := by
  have hinv := inv_snapshot hes
  refine ⟨hinv.nodup_keys, hinv.holdsLast_iff, fun hfew => ?_⟩
  refine hinv.holdsLast_iff.mpr fun key hkey => ?_
  have hlength := length_claimedKeys hes
  rw [List.take_of_length_le (by unfold kMaxEntries; omega)]
  exact hinv.reported key hkey

/-- The battery percentage of an endpoint. -/
def batteryKey (nodeId endpointId : ℕ) : Key :=
  { nodeId := nodeId
    endpointId := endpointId
    clusterId := .powerSource
    attributeId := .batPercentRemaining }

/-- A meter with some sensors is seeded, and its first endpoint reports a full battery. -/
def batteryRun (k : ℕ) : List Event :=
  [.seed [SubscriptionManager.meter 10000 k], .report (batteryKey 10000 1) (.unsigned 200) 0]

/-- The endpoints of such a meter. -/
def meterEndpoints (k : ℕ) : Finset (ℕ × ℕ) := (Finset.range k).image fun i => (10000, i + 1)

/-- With two endpoints the percentage is shown. -/
theorem value_cache_two_endpoints : HoldsLast (batteryRun 2) :=
  (value_cache_iff (meterEndpoints 2) (batteryRun 2) (by decide)).2.2 (by decide)

/-- With 32 endpoints it is dropped. -/
theorem value_cache_drops_battery :
    ¬ ∀ (endpoints : Finset (ℕ × ℕ)) (es : List Event), endpoints.card ≤ kMaxSensors →
      (∀ e ∈ es, e.About endpoints) → HoldsLast es := by
  intro h
  obtain ⟨e, he, hkey, -⟩ := h (meterEndpoints 32) (batteryRun 32) (by decide +kernel)
    (by decide +kernel) (batteryKey 10000 1) 200 (by decide +kernel)
  have hnot : ((snapshot (batteryRun 32)).all fun e => e.key ≠ batteryKey 10000 1) = true := by
    decide +kernel
  exact of_decide_eq_true (List.all_eq_true.mp hnot e he) hkey

end HomeEnergyManager.ValueCache
