import HomeEnergyManager.PowerLogger.Rollup

/-! # Sampling and flushing

`on_sample_timer` adds the latest reading of each stream to its accumulator, `on_flush_timer` drains
the accumulators under the lock and then appends one record for each to the minute files of the day
on which the accumulation began.

Reference: `firmware/main/node_power_logger.cpp`.
-/

namespace HomeEnergyManager.NodePowerLogger

def EPM_CLUSTER_ID : ℕ := 0x0090

def EPM_ACTIVE_POWER_ATTR : ℕ := 0x0008

def PS_CLUSTER_ID : ℕ := 0x002F

def PS_BAT_PERCENT_ATTR : ℕ := 0x000C

/-- `ValueCacheEntry`, as far as it is read. -/
structure ValueCacheEntry where
  valid : Bool
  nodeId : ℕ
  endpointId : ℕ
  clusterId : ℕ
  attributeId : ℕ
  value : ℤ
deriving DecidableEq, Repr

/-- `stream_t`. -/
structure SampledStream extends Stream where
  nodeId : ℕ := 0
  endpointId : ℕ := 0
  sumMw : ℤ := 0
  count : ℕ := 0
  /-- The start of the minute being accumulated. -/
  unixMinute : ℕ := 0
  /-- Of a battery; -1 if none was seen. -/
  socHalfPct : ℤ := -1
deriving DecidableEq, Repr

/-! ## `on_sample_timer` -/

/-- The first valid entry for an attribute of the stream's endpoint. -/
def SampledStream.reading (s : SampledStream) (clusterId attributeId : ℕ)
    (snap : List ValueCacheEntry) : Option ℤ :=
  (snap.find? fun v =>
    v.valid && v.nodeId == s.nodeId && v.endpointId == s.endpointId && v.clusterId == clusterId &&
      v.attributeId == attributeId).map (·.value)

/-- A reading joins the accumulator. -/
def SampledStream.addPower (minuteStart : ℕ) (mw : ℤ) (s : SampledStream) : SampledStream :=
  { s with
    unixMinute := if s.count = 0 then minuteStart else s.unixMinute
    sumMw := s.sumMw + mw
    count := s.count + 1 }

/-- The state of charge of a battery anchors its ledger. -/
def SampledStream.noteSoc (snap : List ValueCacheEntry) (s : SampledStream) : SampledStream :=
  if s.role = .battery then
    match s.reading PS_CLUSTER_ID PS_BAT_PERCENT_ATTR snap with
    | some v => if 0 ≤ v ∧ v ≤ 200 then { s with socHalfPct := v } else s
    | none => s
  else s

def SampledStream.sample (minuteStart : ℕ) (snap : List ValueCacheEntry) (s : SampledStream) :
    SampledStream :=
  ((s.reading EPM_CLUSTER_ID EPM_ACTIVE_POWER_ATTR snap).elim s (s.addPower minuteStart)).noteSoc
    snap

/-- `minute_start`. -/
def minuteStart (now : ℤ) : ℕ := toUint32 (now - now.tmod 60)

/-- `on_sample_timer`. -/
def onSampleTimer (now : ℤ) (snap : List ValueCacheEntry) (streams : List SampledStream) :
    List SampledStream :=
  streams.map (·.sample (minuteStart now) snap)

/-! ## `on_flush_timer` -/

/-- An append of one record to a minute file. -/
inductive Append where
  | grid (record : PowerRecord)
  | node (graphId : String) (record : PowerRecord)
  | soc (graphId : String) (record : PowerRecord)
deriving DecidableEq, Repr

def Append.record : Append → PowerRecord
  | .grid record | .node _ record | .soc _ record => record

/-- What the flush writes for a stream. -/
def SampledStream.appends (s : SampledStream) : List Append :=
  if s.count = 0 then []
  else
    let record : PowerRecord :=
      { unixMinute := s.unixMinute, powerMw := toInt32 (s.sumMw.tdiv s.count) }
    (if s.role = .grid then .grid record else .node s.graphId record) ::
      if 0 ≤ s.socHalfPct then
        [.soc s.graphId { unixMinute := s.unixMinute, powerMw := s.socHalfPct }]
      else []

/-- The accumulator after the flush has drained it. -/
def SampledStream.drain (s : SampledStream) : SampledStream :=
  if s.count = 0 then s else { s with sumMw := 0, count := 0, unixMinute := 0, socHalfPct := -1 }

/-- `refresh_streams` while the topology stays as it is: the accumulators start fresh. -/
def SampledStream.refresh (s : SampledStream) : SampledStream :=
  { s with sumMw := 0, count := 0, unixMinute := 0, socHalfPct := -1 }

/-- `date_from_unix`. -/
def dateFromUnix (ts : ℕ) : DateStr := strftimeDate (localtime ts)

/-- The day whose file an append goes to. -/
def Append.date (a : Append) : DateStr := dateFromUnix a.record.unixMinute

/-- A file with one more record; `fopen` creates it if need be. -/
def appendTo (file : Option (List PowerRecord)) (record : PowerRecord) :
    Option (List PowerRecord) :=
  some (file.getD [] ++ [record])

/-- `power_logger_write_grid_minute` and `write_record`. -/
def Append.run (a : Append) (c : Card) : Card :=
  match a with
  | .grid record =>
    { c with grid := Function.update c.grid a.date (appendTo (c.grid a.date) record) }
  | .node id record =>
    { c with
      node := Function.update c.node id
        (Function.update (c.node id) a.date (appendTo (c.node id a.date) record)) }
  | .soc id record =>
    { c with
      soc := Function.update c.soc id
        (Function.update (c.soc id) a.date (appendTo (c.soc id a.date) record)) }

/-! ## The day of a reading -/

/-- A minute that begins now is of today. -/
theorem dateFromUnix_minuteStart {now : ℤ} (h : 0 ≤ now ∧ now < 2 ^ 32) :
    dateFromUnix (minuteStart now) = dateStr (localDay now) := by
  have hcast : ((minuteStart now : ℕ) : ℤ) = now - now % 60 := by
    have hrange : 0 ≤ now - now % 60 ∧ now - now % 60 < 2 ^ 32 := by omega
    unfold minuteStart toUint32
    rw [Int.tmod_eq_emod_of_nonneg h.1, Int.emod_eq_of_lt hrange.1 hrange.2,
      Int.toNat_of_nonneg hrange.1]
  rw [dateFromUnix, strftimeDate_localtime, hcast, localDay_minute]

theorem SampledStream.noteSoc_eq (snap : List ValueCacheEntry) (s : SampledStream) :
    ∃ soc, s.noteSoc snap = { s with socHalfPct := soc } := by
  unfold noteSoc
  split_ifs
  · split
    · split_ifs
      · exact ⟨_, rfl⟩
      · exact ⟨s.socHalfPct, rfl⟩
    · exact ⟨s.socHalfPct, rfl⟩
  · exact ⟨s.socHalfPct, rfl⟩

/-- Sampling leaves a running accumulation on its minute; one that begins is on the current one. -/
theorem SampledStream.sample_spec (minuteStart : ℕ) (snap : List ValueCacheEntry)
    (s : SampledStream) :
    (s.sample minuteStart snap).toStream = s.toStream ∧
      (s.count ≠ 0 → (s.sample minuteStart snap).unixMinute = s.unixMinute) ∧
      (s.count = 0 → (s.sample minuteStart snap).count = 0 ∨
        (s.sample minuteStart snap).unixMinute = minuteStart) := by
  unfold sample
  obtain ⟨soc, hsoc⟩ := ((s.reading EPM_CLUSTER_ID EPM_ACTIVE_POWER_ATTR snap).elim s
    (s.addPower minuteStart)).noteSoc_eq snap
  rw [hsoc]
  cases s.reading EPM_CLUSTER_ID EPM_ACTIVE_POWER_ATTR snap with
  | none => exact ⟨rfl, fun _ => rfl, fun h => Or.inl h⟩
  | some mw => exact ⟨rfl, fun h => if_neg h, fun h => Or.inr (if_pos h)⟩

/-- The appends of a stream are on the minute of its accumulation. -/
theorem SampledStream.date_of_mem_appends {s : SampledStream} {a : Append} (h : a ∈ s.appends) :
    s.count ≠ 0 ∧ a.date = dateFromUnix s.unixMinute := by
  unfold appends at h
  split at h
  · exact absurd h List.not_mem_nil
  · rename_i hcount
    refine ⟨hcount, ?_⟩
    rcases List.mem_cons.mp h with rfl | h
    · split <;> rfl
    · split at h
      · rw [List.mem_singleton.mp h]
        rfl
      · exact absurd h List.not_mem_nil

theorem SampledStream.appends_drain (s : SampledStream) : s.drain.appends = [] := by
  unfold drain
  split
  · rename_i hcount
    exact if_pos hcount
  · rfl

end HomeEnergyManager.NodePowerLogger
