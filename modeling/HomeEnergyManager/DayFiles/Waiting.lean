import HomeEnergyManager.DayFiles.Stores
import HomeEnergyManager.DayFiles.System
import HomeEnergyManager.Price.History

/-! # What waits to be written

A reading waits in an accumulator, and then with the flush, before it reaches its file; a price
waits to be flushed. A step adds readings of today, and the prices of the days that it stamps or
resolves.
-/

namespace HomeEnergyManager.DayFiles

open NodePowerLogger

/-- The derived file is made from the file that a reading is appended to. -/
def Derived.reads : Derived → Append → Bool
  | .gridHourly, .grid _ => true
  | .nodeHourly id, .node id' _ => id == id'
  | .cost, .grid _ | .cost, .node _ _ => true
  | .split, _ => true
  | _, _ => false

def TimerTask.appends : TimerTask → List Append
  | .powerFlush todo => todo
  | _ => []

def TimerTask.tariffDates : TimerTask → List DateStr
  | .tariffFlush todo => todo.map (·.1)
  | _ => []

/-- The readings that are still on their way to the minute files. -/
def System.waiting (s : System) : List Append := s.streams.flatMap (·.appends) ++ s.timer.appends

/-- The days whose price file is still to be written. -/
def priceDates (p : CommodityPrice.System) : List DateStr :=
  p.price.pending.keys ++ p.flushing.elim [] fun f => f.2.keys

/-- The days whose tariff or price file is still to be written. -/
def System.waitingPrices (s : System) : List DateStr := priceDates s.price ++ s.timer.tariffDates

/-! ## Readings -/

/-- A reading that waits stands for one that waited, for no fewer derived files. -/
def Succeeds (s : System) (a : Append) : Prop :=
  ∃ a' ∈ s.waiting, a'.date = a.date ∧ ∀ k : Derived, k.reads a = true → k.reads a' = true

theorem succeeds_of_mem {s : System} {a : Append} (h : a ∈ s.waiting) : Succeeds s a :=
  ⟨a, h, rfl, fun _ hk => hk⟩

theorem reads_grid (k : Derived) (r r' : PowerRecord) :
    k.reads (.grid r) = k.reads (.grid r') := by
  cases k <;> rfl

theorem reads_node (k : Derived) (id : String) (r r' : PowerRecord) :
    k.reads (.node id r) = k.reads (.node id r') := by
  cases k <;> rfl

/-- Only a split is made from a charge, and it is made from everything. -/
theorem reads_of_reads_soc {k : Derived} {id : String} {r : PowerRecord}
    (h : k.reads (.soc id r) = true) (a : Append) : k.reads a = true := by
  cases k with
  | split => rfl
  | gridHourly | nodeHourly id' | cost => exact nomatch h

/-- Sampling adds readings of the current minute alone. -/
theorem mem_appends_sample {minuteStart : ℕ} {snap : List ValueCacheEntry} {s : SampledStream}
    {a : Append} (h : a ∈ (s.sample minuteStart snap).appends) :
    (∃ a' ∈ s.appends, a'.date = a.date ∧ ∀ k : Derived, k.reads a = true → k.reads a' = true) ∨
      a.date = dateFromUnix minuteStart := by
  obtain ⟨hstream, hrunning, hfresh⟩ := s.sample_spec minuteStart snap
  obtain ⟨hcount, hdate⟩ := SampledStream.date_of_mem_appends h
  by_cases hzero : s.count = 0
  · rcases hfresh hzero with hnone | hminute
    · exact absurd hnone hcount
    · rw [hminute] at hdate
      exact Or.inr hdate
  -- the record of the power is there already, and whatever reads a charge reads that too
  · rw [hrunning hzero] at hdate
    have hrole : (s.sample minuteStart snap).role = s.role := congrArg Stream.role hstream
    have hid : (s.sample minuteStart snap).graphId = s.graphId := congrArg Stream.graphId hstream
    unfold SampledStream.appends at h ⊢
    rw [if_neg hcount, hrole, hid] at h
    rw [if_neg hzero]
    refine Or.inl ⟨_, List.mem_cons_self, ?_, fun k hk => ?_⟩
    · rw [hdate]
      split <;> rfl
    · rcases List.mem_cons.mp h with rfl | h
      · split at hk
        · rwa [if_pos ‹_›, reads_grid]
        · rwa [if_neg ‹_›, reads_node]
      · split at h
        · rw [List.mem_singleton.mp h] at hk
          exact reads_of_reads_soc hk _
        · exact absurd h List.not_mem_nil

theorem waiting_sample {s : System} {snap : List ValueCacheEntry} {a : Append}
    (h : a ∈ System.waiting { s with streams := onSampleTimer s.now snap s.streams }) :
    Succeeds s a ∨ a.date = dateFromUnix (minuteStart s.now) := by
  rcases List.mem_append.mp h with hstream | htimer
  · obtain ⟨stream', hmem, ha⟩ := List.mem_flatMap.mp hstream
    obtain ⟨stream, hstream, rfl⟩ := List.mem_map.mp hmem
    rcases mem_appends_sample ha with ⟨a', ha', hdate, hreads⟩ | hminute
    · exact Or.inl ⟨a', List.mem_append_left _ (List.mem_flatMap.mpr ⟨stream, hstream, ha'⟩),
        hdate, hreads⟩
    · exact Or.inr hminute
  · exact Or.inl (succeeds_of_mem (List.mem_append_right _ htimer))

/-- Streams without an accumulation have nothing waiting. -/
theorem flatMap_appends_eq_nil {streams : List SampledStream} {f : SampledStream → SampledStream}
    (h : ∀ s, (f s).appends = []) : (streams.map f).flatMap (·.appends) = [] := by
  rw [List.flatMap_map]
  exact List.flatMap_eq_nil_iff.mpr fun s _ => h s

/-! ## Prices -/

/-- The dates that a report stamps. -/
def stampedDates (now : ℤ) : CommodityPrice.Handler → List DateStr
  | .accepted r => (r.stamps now).1.map fun t => dateStr (localDay t)
  | _ => []

theorem mem_keys_stampSlot {t price : ℤ} {pending : CommodityPrice.Pending} {date : DateStr} :
    date ∈ (CommodityPrice.stampSlot t price pending).keys ↔
      date = dateStr (localDay t) ∨ date ∈ pending.keys := by
  rw [CommodityPrice.stampSlot_eq, ← AList.mem_keys, AList.mem_insert]
  rfl

theorem mem_keys_foldl_stampSlot {ts : List ℤ} {price : ℤ} {pending : CommodityPrice.Pending}
    {date : DateStr}
    (h : date ∈
      (ts.foldl (fun pending t => CommodityPrice.stampSlot t price pending) pending).keys) :
    date ∈ pending.keys ∨ date ∈ ts.map fun t => dateStr (localDay t) := by
  induction ts generalizing pending with
  | nil => exact Or.inl h
  | cons t ts ih =>
    rcases ih h with hkeys | htail
    · rcases mem_keys_stampSlot.mp hkeys with hself | hold
      · exact Or.inr (List.mem_cons.mpr (Or.inl hself))
      · exact Or.inl hold
    · exact Or.inr (List.mem_cons_of_mem _ htail)

/-- A report stamps the slots that its price covers, and no others. -/
theorem mem_keys_handleReport {now : ℤ} {r : CommodityPrice.Report} {s : CommodityPrice.State}
    {date : DateStr} (h : date ∈ (CommodityPrice.handleReport now r s).pending.keys) :
    date ∈ s.pending.keys ∨ date ∈ (r.stamps now).1.map fun t => dateStr (localDay t) := by
  cases r with
  | currency v | tariffUnit v | other => exact Or.inl h
  | currentPrice v | priceChange v => exact mem_keys_foldl_stampSlot h

/-- A flush takes along the days that were stamped. -/
theorem mem_keys_flushRest {hdr : FileHeader} {pending : CommodityPrice.Pending} {date : DateStr}
    (h : date ∈ (CommodityPrice.flushRest hdr pending).elim [] fun f => f.2.keys) :
    date ∈ pending.keys := by
  unfold CommodityPrice.flushRest at h
  split at h
  · exact absurd h List.not_mem_nil
  · exact h

/-- A price that waits has waited before, or was stamped by a report or the tick. -/
theorem priceDates_of_step {p p' : CommodityPrice.System} {e : CommodityPrice.Event}
    (h : CommodityPrice.step p e = some p') {date : DateStr} (hd : date ∈ priceDates p') :
    date ∈ priceDates p ∨ (e = .handle ∧ date ∈ stampedDates p.now p.handler) ∨
      (e = .tick ∧ date = dateStr (localDay p.now)) := by
  unfold CommodityPrice.step at h
  cases e with
  | clock now | setSource source =>
    obtain rfl := Option.some.inj h
    exact Or.inl hd
  | report nodeId endpointId r =>
    dsimp only at h
    split at h
    · obtain rfl := Option.some.inj h
      exact Or.inl hd
    · exact nomatch h
  | fromSource =>
    dsimp only at h
    split at h
    · obtain rfl := Option.some.inj h
      apply Or.inl
      unfold priceDates CommodityPrice.fromSource at hd
      dsimp only at hd
      split at hd <;> exact hd
    · exact nomatch h
  | handle =>
    dsimp only at h
    split at h
    · rename_i r hr
      obtain rfl := Option.some.inj h
      rcases List.mem_append.mp hd with hpending | hflushing
      · rcases mem_keys_handleReport hpending with hold | hstamped
        · exact Or.inl (List.mem_append_left _ hold)
        · rw [hr]
          exact Or.inr (Or.inl ⟨rfl, hstamped⟩)
      · exact Or.inl (List.mem_append_right _ hflushing)
    · exact nomatch h
  | tick =>
    dsimp only at h
    split at h
    · obtain rfl := Option.some.inj h
      rcases List.mem_append.mp hd with hpending | hflushing
      · unfold CommodityPrice.onTick at hpending
        split at hpending
        · rcases mem_keys_stampSlot.mp hpending with htoday | hold
          · exact Or.inr (Or.inr ⟨rfl, htoday⟩)
          · exact Or.inl (List.mem_append_left _ hold)
        · exact Or.inl (List.mem_append_left _ hpending)
      · exact Or.inl (List.mem_append_right _ hflushing)
    · exact nomatch h
  | flushSwap =>
    dsimp only at h
    split at h
    · obtain rfl := Option.some.inj h
      -- the swap leaves no pending map and takes the old one along
      rcases List.mem_append.mp hd with hpending | hflushing
      · exact absurd hpending List.not_mem_nil
      · exact Or.inl (List.mem_append_left _ (mem_keys_flushRest hflushing))
    · exact nomatch h
  | flushWrite date' =>
    dsimp only at h
    split at h
    · rename_i hdr pending hf
      split at h
      · obtain rfl := Option.some.inj h
        rcases List.mem_append.mp hd with hpending | hflushing
        · exact Or.inl (List.mem_append_left _ hpending)
        · refine Or.inl (List.mem_append_right _ ?_)
          have hkeys := AList.mem_keys.mpr (mem_keys_flushRest hflushing)
          rw [hf]
          exact AList.mem_keys.mp (AList.mem_erase.mp hkeys).2
      · exact nomatch h
    · exact nomatch h

/-- Only the file of a day that waits is written. -/
theorem files_of_step {p p' : CommodityPrice.System} {e : CommodityPrice.Event}
    (h : CommodityPrice.step p e = some p') (date : DateStr) :
    p'.files date = p.files date ∨ date ∈ priceDates p := by
  unfold CommodityPrice.step at h
  cases e with
  | clock now | setSource source =>
    obtain rfl := Option.some.inj h
    exact Or.inl rfl
  | report nodeId endpointId r | fromSource | handle | tick | flushSwap =>
    dsimp only at h
    split at h
    · obtain rfl := Option.some.inj h
      exact Or.inl rfl
    · exact nomatch h
  | flushWrite date' =>
    dsimp only at h
    split at h
    · rename_i hdr pending hf
      split at h
      · rename_i slots hslots
        obtain rfl := Option.some.inj h
        by_cases heq : date = date'
        · subst heq
          have hmem : date ∈ pending := by
            rw [← AList.lookup_isSome, hslots]
            rfl
          refine Or.inr (List.mem_append_right _ ?_)
          rw [hf]
          exact AList.mem_keys.mp hmem
        · exact Or.inl (Function.update_of_ne heq _ _)
      · exact nomatch h
    · exact nomatch h

end HomeEnergyManager.DayFiles
