import HomeEnergyManager.Lib.StepSystem
import HomeEnergyManager.Topology.LoadSets

/-! # From samples to records

The callbacks of `node_power_logger` run one after another on the timer task, while the HTTP task
may edit the graph at any moment. A flush drains the accumulators under the lock, appends what they
held, and rebuilds the streams from the graph of that moment. A witness notes every sample that is
taken, with the number of flushes before it, and every append, with the flush that makes it: each
sample is in the one record that the first flush after it writes for its stream.

Reference: `firmware/main/node_power_logger.cpp`, `firmware/main/power_logger.c`.
-/

namespace HomeEnergyManager.SampleRecords

open NodePowerLogger StepSystem HomeEnergyManager.Topology

/-! ## The callbacks -/

/-- Where the timer task stands. -/
inductive Timer where
  | idle
  /-- In `on_flush_timer`, with these appends still to make before the streams are rebuilt. -/
  | flushing (todo : List Append)

structure System where
  graph : Graph
  streams : List SampledStream
  timer : Timer
  card : Card

inductive Event where
  /-- The node manager changes the graph. -/
  | edit (g : Graph)
  /-- `on_sample_timer`, with the clock and the cache of that moment. -/
  | sample (now : ℤ) (snap : List ValueCacheEntry)
  /-- The locked section of `on_flush_timer`. -/
  | flush
  /-- One append of it. -/
  | write
  /-- `refresh_streams` at its end; without memory for the graph the streams stay. -/
  | refresh (parsed : Bool)

def step (s : System) : Event → Option System
  | .edit g => some { s with graph := g }
  | .sample now snap =>
    match s.timer with
    | .idle => some { s with streams := onSampleTimer now snap s.streams }
    | .flushing _ => none
  | .flush =>
    match s.timer with
    | .idle =>
      some { s with
        streams := s.streams.map (·.drain)
        timer := .flushing (s.streams.flatMap (·.appends)) }
    | .flushing _ => none
  | .write =>
    match s.timer with
    | .flushing (a :: todo) => some { s with timer := .flushing todo, card := a.run s.card }
    | _ => none
  | .refresh parsed =>
    match s.timer with
    | .flushing [] =>
      some { s with
        streams := if parsed then refreshStreams s.graph else s.streams
        timer := .idle }
    | _ => none

/-- `node_power_logger_init`. -/
def System.boot (g : Graph) (parsed : Bool) (card : Card) : System where
  graph := g
  streams := if parsed then refreshStreams g else []
  timer := .idle
  card := card

/-! ## The witness -/

/-- A reading that a stream took, after so many flushes. -/
structure Sample where
  flush : ℕ
  graphId : String
  role : Role
  value : ℤ
  minute : ℕ

/-- An append that a flush makes for a stream. -/
structure Written where
  flush : ℕ
  graphId : String
  append : Append

/-- The flushes so far, the samples taken, the appends made and those still to be made. -/
structure History where
  flushes : ℕ := 0
  taken : List Sample := []
  written : List Written := []
  todo : List Written := []

/-- What a stream takes from the cache. -/
def sampleTaken (flush : ℕ) (now : ℤ) (snap : List ValueCacheEntry) (s : SampledStream) :
    Option Sample :=
  (s.reading EPM_CLUSTER_ID EPM_ACTIVE_POWER_ATTR snap).map fun value =>
    { flush, graphId := s.graphId, role := s.role, value, minute := minuteStart now }

/-- The appends that a flush makes for a stream. -/
def writtenFor (flush : ℕ) (s : SampledStream) : List Written :=
  s.appends.map fun append => { flush, graphId := s.graphId, append }

/-- What the witness notes at a step from `s`. -/
def History.next (s : System) (h : History) : Event → History
  | .sample now snap =>
    { h with taken := h.taken ++ s.streams.filterMap (sampleTaken h.flushes now snap) }
  | .flush =>
    { h with
      flushes := h.flushes + 1
      todo := s.streams.flatMap (writtenFor h.flushes) }
  | .write => { h with written := h.written ++ h.todo.take 1, todo := h.todo.drop 1 }
  | _ => h

/-- The tasks and the witness. -/
structure Tracked where
  sys : System
  history : History := {}

/-- The witness watches and never steers. -/
def Tracked.step (t : Tracked) (e : Event) : Option Tracked :=
  (SampleRecords.step t.sys e).map fun sys => { sys, history := t.history.next t.sys e }

/-! ## What should be written -/

/-- The samples that a stream took between two flushes. -/
def samplesOf (taken : List Sample) (flush : ℕ) (graphId : String) : List Sample :=
  taken.filter fun x => x.flush = flush ∧ x.graphId = graphId

/-- The record that accounts for some samples: their truncated mean, at the minute of the first. -/
def recordOf : List Sample → Option PowerRecord
  | [] => none
  | x :: xs =>
    some { unixMinute := x.minute
           powerMw := (((x :: xs).map Sample.value).sum).tdiv (x :: xs).length }

/-- Its append, to the file of the grid or of the stream. -/
def appendOf (samples : List Sample) : Option Append :=
  (recordOf samples).bind fun record => samples.head?.map fun x =>
    if x.role = .grid then .grid record else .node x.graphId record

/-- An append of power, as against the state of charge. -/
def isPower : Append → Bool
  | .grid _ | .node _ _ => true
  | .soc _ _ => false

/-- The appends of power that a flush makes for a stream. -/
def powerOf (ws : List Written) (flush : ℕ) (graphId : String) : List Append :=
  ((ws.filter fun w => w.flush = flush ∧ w.graphId = graphId).map Written.append).filter isPower

/-- What an append puts into the file of a stream's date. -/
def nodeRecord (graphId : String) (date : DateStr) (w : Written) : Option PowerRecord :=
  match w.append with
  | .node id record => if id = graphId ∧ dateFromUnix record.unixMinute = date then some record
    else none
  | _ => none

/-- What an append puts into the grid's file of a date. -/
def gridRecord (date : DateStr) (w : Written) : Option PowerRecord :=
  match w.append with
  | .grid record => if dateFromUnix record.unixMinute = date then some record else none
  | _ => none

/-- Every sample is held by its stream until a flush, which writes one record for all samples that
the stream took since the flush before, in the file of the record's date. -/
structure Accounted (card : Card) (t : Tracked) : Prop where
  /-- Samples since the last flush are in the accumulator of their stream. -/
  held : ∀ graphId, samplesOf t.history.taken t.history.flushes graphId ≠ [] →
    ∃ s ∈ t.sys.streams, s.graphId = graphId ∧
      s.count = (samplesOf t.history.taken t.history.flushes graphId).length ∧
      s.sumMw = ((samplesOf t.history.taken t.history.flushes graphId).map Sample.value).sum
  /-- An accumulator of 64 bits and its count of 32 bits hold fewer than 2^32 samples. -/
  fits : ∀ s ∈ t.sys.streams,
    (samplesOf t.history.taken t.history.flushes s.graphId).length < 2 ^ 32 →
      s.count < 2 ^ 32 ∧ -2 ^ 63 ≤ s.sumMw ∧ s.sumMw < 2 ^ 63
  /-- A flush makes one append for the samples of a stream since the flush before, if any. -/
  once : ∀ k < t.history.flushes, ∀ graphId,
    powerOf (t.history.written ++ t.history.todo) k graphId =
      (appendOf (samplesOf t.history.taken k graphId)).toList
  /-- No record is of a flush that is yet to come. -/
  only : ∀ w ∈ t.history.written ++ t.history.todo, w.flush < t.history.flushes
  /-- When the timer task is idle, nothing is left to be written. -/
  finished : (match t.sys.timer with | .idle => t.history.todo = [] | .flushing _ => True)
  node : ∀ graphId date, (t.sys.card.node graphId date).getD [] =
    (card.node graphId date).getD [] ++ t.history.written.filterMap (nodeRecord graphId date)
  grid : ∀ date, (t.sys.card.grid date).getD [] =
    (card.grid date).getD [] ++ t.history.written.filterMap (gridRecord date)

/-- The power readings of the cache are below 2^31 in magnitude. -/
def SmallReadings : Event → Prop
  | .sample _ snap => ∀ v ∈ snap, v.clusterId = EPM_CLUSTER_ID →
      v.attributeId = EPM_ACTIVE_POWER_ATTR → -2 ^ 31 < v.value ∧ v.value < 2 ^ 31
  | _ => True

instance : DecidablePred SmallReadings
  | .sample _ _ => inferInstanceAs (Decidable (∀ _ ∈ _, _))
  | .edit _ | .flush | .write | .refresh _ => isTrue trivial

section Keyed

variable {α β κ : Type*} [DecidableEq κ] {key : α → κ} {tag : β → κ} {f : α → List β}

/-- Where no element has the key, nothing that comes of them has it. -/
theorem filter_flatMap_of_absent {l : List α} {k : κ} (htag : ∀ a, ∀ b ∈ f a, tag b = key a)
    (hk : k ∉ l.map key) : (l.flatMap f).filter (fun b => decide (tag b = k)) = [] := by
  rw [List.filter_eq_nil_iff]
  intro b hb
  obtain ⟨a, ha, hb⟩ := List.mem_flatMap.mp hb
  rw [htag a b hb]
  simpa using fun heq : key a = k => hk (heq ▸ List.mem_map_of_mem ha)

/-- Where the keys differ, what comes of an element is what has its key. -/
theorem filter_flatMap_of_mem {l : List α} {a : α} (htag : ∀ a, ∀ b ∈ f a, tag b = key a)
    (hl : (l.map key).Nodup) (ha : a ∈ l) :
    (l.flatMap f).filter (fun b => decide (tag b = key a)) = f a := by
  induction l with
  | nil => exact absurd ha List.not_mem_nil
  | cons a' l ih =>
    rw [List.map_cons, List.nodup_cons] at hl
    rw [List.flatMap_cons, List.filter_append]
    rcases List.mem_cons.mp ha with rfl | ha
    · rw [filter_flatMap_of_absent htag hl.1, List.append_nil, List.filter_eq_self]
      intro b hb
      rw [htag a b hb]
      exact decide_eq_true rfl
    · rw [ih hl.2 ha, List.filter_eq_nil_iff.mpr, List.nil_append]
      intro b hb
      rw [htag a' b hb]
      simpa using fun heq : key a' = key a => hl.1 (heq ▸ List.mem_map_of_mem ha)

end Keyed

section Witness

variable {taken : List Sample} {ws : List Written} {k : ℕ} {id : String}

theorem samplesOf_append (taken new : List Sample) (k : ℕ) (id : String) :
    samplesOf (taken ++ new) k id = samplesOf taken k id ++ samplesOf new k id :=
  List.filter_append _ _

theorem mem_samplesOf {x : Sample} :
    x ∈ samplesOf taken k id ↔ x ∈ taken ∧ x.flush = k ∧ x.graphId = id := by
  simp [samplesOf]

theorem samplesOf_of_ne (h : ∀ x ∈ taken, x.flush ≠ k) : samplesOf taken k id = [] := by
  rw [List.eq_nil_iff_forall_not_mem]
  intro x hx
  obtain ⟨hmem, hflush, -⟩ := mem_samplesOf.mp hx
  exact h x hmem hflush

theorem powerOf_append (ws ws' : List Written) (k : ℕ) (id : String) :
    powerOf (ws ++ ws') k id = powerOf ws k id ++ powerOf ws' k id := by
  simp only [powerOf, List.filter_append, List.map_append]

theorem powerOf_of_ne (h : ∀ w ∈ ws, w.flush ≠ k) : powerOf ws k id = [] := by
  unfold powerOf
  have hnone : (ws.filter fun w => w.flush = k ∧ w.graphId = id) = [] := by
    rw [List.filter_eq_nil_iff]
    intro w hw
    simp [h w hw]
  rw [hnone]
  rfl

/-- Of the streams' readings, those of one stream are its own. -/
theorem samplesOf_sampleTaken {streams : List SampledStream} {s : SampledStream} {now : ℤ}
    {snap : List ValueCacheEntry} (hids : (streams.map (·.graphId)).Nodup) (hs : s ∈ streams) :
    samplesOf (streams.filterMap (sampleTaken k now snap)) k s.graphId =
      (sampleTaken k now snap s).toList := by
  have htag (s : SampledStream) : ∀ x ∈ (sampleTaken k now snap s).toList,
      x.flush = k ∧ x.graphId = s.graphId := by
    intro x hx
    obtain ⟨v, -, rfl⟩ := Option.map_eq_some_iff.mp (Option.mem_toList.mp hx)
    exact ⟨rfl, rfl⟩
  rw [List.filterMap_eq_flatMap_toList, ← filter_flatMap_of_mem (fun s x hx => (htag s x hx).2)
    hids hs]
  refine List.filter_congr fun x hx => ?_
  obtain ⟨s', -, hx⟩ := List.mem_flatMap.mp hx
  simp [(htag s' x hx).1]

theorem mem_writtenFor {s : SampledStream} {w : Written} (h : w ∈ writtenFor k s) :
    w.flush = k ∧ w.graphId = s.graphId := by
  obtain ⟨a, -, rfl⟩ := List.mem_map.mp h
  exact ⟨rfl, rfl⟩

theorem filter_writtenFor {streams : List SampledStream} :
    ((streams.flatMap (writtenFor k)).filter fun w => w.flush = k ∧ w.graphId = id) =
      (streams.flatMap (writtenFor k)).filter fun w => w.graphId = id := by
  refine List.filter_congr fun w hw => ?_
  obtain ⟨s, -, hw⟩ := List.mem_flatMap.mp hw
  simp [(mem_writtenFor hw).1]

/-- Of the appends of a flush, those for one stream are its own. -/
theorem powerOf_writtenFor {streams : List SampledStream} {s : SampledStream}
    (hids : (streams.map (·.graphId)).Nodup) (hs : s ∈ streams) :
    powerOf (streams.flatMap (writtenFor k)) k s.graphId = s.appends.filter isPower := by
  unfold powerOf
  rw [filter_writtenFor, filter_flatMap_of_mem (fun s w hw => (mem_writtenFor hw).2) hids hs]
  unfold writtenFor
  rw [List.map_map, show Written.append ∘ _ = id from rfl, List.map_id]

theorem powerOf_writtenFor_of_absent {streams : List SampledStream}
    (hid : id ∉ streams.map (·.graphId)) : powerOf (streams.flatMap (writtenFor k)) k id = [] := by
  unfold powerOf
  rw [filter_writtenFor, filter_flatMap_of_absent (fun s w hw => (mem_writtenFor hw).2) hid]
  rfl

end Witness

/-! ## Accumulators and records -/

/-- The accumulator of a stream holds these samples. -/
structure Holds (samples : List Sample) (s : SampledStream) : Prop where
  count : s.count = samples.length
  sumMw : s.sumMw = (samples.map Sample.value).sum
  unixMinute : ∀ x ∈ samples.head?, s.unixMinute = x.minute
  stream : ∀ x ∈ samples, x.graphId = s.graphId ∧ x.role = s.role
  small : ∀ x ∈ samples, -2 ^ 31 < x.value ∧ x.value < 2 ^ 31

/-- An empty accumulator holds nothing. -/
theorem Holds.fresh {s : SampledStream} (hcount : s.count = 0) (hsum : s.sumMw = 0) :
    Holds [] s where
  count := hcount
  sumMw := hsum
  unixMinute _ hx := absurd hx (Option.not_mem_none _)
  stream _ hx := absurd hx List.not_mem_nil
  small _ hx := absurd hx List.not_mem_nil

theorem Holds.fits {samples : List Sample} {s : SampledStream} (h : Holds samples s)
    (hfew : samples.length < 2 ^ 32) :
    s.count < 2 ^ 32 ∧ -2 ^ 63 ≤ s.sumMw ∧ s.sumMw < 2 ^ 63 := by
  have hvalue : ∀ v ∈ samples.map Sample.value, -2 ^ 31 ≤ v ∧ v ≤ 2 ^ 31 - 1 := by
    intro v hv
    obtain ⟨x, hx, rfl⟩ := List.mem_map.mp hv
    exact ⟨(h.small x hx).1.le, Int.le_sub_one_of_lt (h.small x hx).2⟩
  have hlow := List.card_nsmul_le_sum _ _ fun v hv => (hvalue v hv).1
  have hhigh := List.sum_le_card_nsmul _ _ fun v hv => (hvalue v hv).2
  rw [List.length_map, nsmul_eq_mul] at hlow hhigh
  rw [h.count, h.sumMw]
  exact ⟨hfew, by omega, by omega⟩

/-- The flush writes the mean of the samples that a stream holds, once, if there is any. -/
theorem Holds.appends {samples : List Sample} {s : SampledStream} (h : Holds samples s) :
    s.appends.filter isPower = (appendOf samples).toList := by
  cases samples with
  | nil =>
    have hcount : s.count = 0 := h.count
    unfold SampledStream.appends
    rw [if_pos hcount]
    rfl
  | cons x xs =>
    have hcount : s.count ≠ 0 := by
      rw [h.count]
      exact Nat.succ_ne_zero _
    have hmean : toInt32 (s.sumMw.tdiv s.count) =
        (((x :: xs).map Sample.value).sum).tdiv (x :: xs).length := by
      rw [h.count, h.sumMw, ← List.length_map Sample.value, toInt32_mean]
      intro v hv
      obtain ⟨y, hy, rfl⟩ := List.mem_map.mp hv
      exact ⟨(h.small y hy).1.le, (h.small y hy).2⟩
    have hminute := h.unixMinute x rfl
    obtain ⟨hid, hrole⟩ := h.stream x List.mem_cons_self
    have hsoc (record : PowerRecord) : (if 0 ≤ s.socHalfPct then [Append.soc s.graphId record]
        else []).filter isPower = [] := by
      split <;> rfl
    unfold SampledStream.appends
    rw [if_neg hcount]
    dsimp only
    rw [List.filter_cons_of_pos (by split <;> rfl), hsoc, hmean, hminute, ← hid, ← hrole]
    rfl

theorem Holds.drain {samples : List Sample} {s : SampledStream} (h : Holds samples s) :
    Holds [] s.drain := by
  unfold SampledStream.drain
  split
  · rename_i hcount
    have hsamples : samples = [] := List.eq_nil_of_length_eq_zero (h.count ▸ hcount)
    rwa [hsamples] at h
  · exact Holds.fresh rfl rfl

/-- A sampled stream holds what it took as well. -/
theorem Holds.sample {samples : List Sample} {s : SampledStream} (h : Holds samples s) (k : ℕ)
    {now : ℤ} {snap : List ValueCacheEntry} (hsmall : SmallReadings (.sample now snap)) :
    Holds (samples ++ (sampleTaken k now snap s).toList) (s.sample (minuteStart now) snap) := by
  unfold SampledStream.sample
  obtain ⟨soc, hsoc⟩ := ((s.reading EPM_CLUSTER_ID EPM_ACTIVE_POWER_ATTR snap).elim s
    (s.addPower (minuteStart now))).noteSoc_eq snap
  rw [hsoc]
  unfold sampleTaken
  cases hreading : s.reading EPM_CLUSTER_ID EPM_ACTIVE_POWER_ATTR snap with
  | none =>
    rw [Option.map_none, Option.toList_none, List.append_nil]
    exact ⟨h.count, h.sumMw, h.unixMinute, h.stream, h.small⟩
  | some v =>
    have hv : -2 ^ 31 < v ∧ v < 2 ^ 31 := by
      obtain ⟨entry, hfound, rfl⟩ := Option.map_eq_some_iff.mp hreading
      have hentry := List.find?_some hfound
      simp only [Bool.and_eq_true, beq_iff_eq] at hentry
      exact hsmall entry (List.mem_of_find?_eq_some hfound) hentry.1.2 hentry.2
    rw [Option.map_some, Option.toList_some]
    refine ⟨?_, ?_, ?_, ?_, ?_⟩
    · rw [List.length_append, ← h.count]
      rfl
    · rw [List.map_append, List.sum_append, ← h.sumMw]
      simp [SampledStream.addPower]
    · -- the first sample sets the minute, and the others leave it
      intro x hx
      cases samples with
      | nil =>
        obtain rfl := Option.some.inj hx
        exact if_pos h.count
      | cons y ys =>
        obtain rfl := Option.some.inj hx
        rw [← h.unixMinute y rfl]
        exact if_neg (h.count ▸ Nat.succ_ne_zero _)
    · intro x hx
      rcases List.mem_append.mp hx with hx | hx
      · exact h.stream x hx
      · rw [List.mem_singleton.mp hx]
        exact ⟨rfl, rfl⟩
    · intro x hx
      rcases List.mem_append.mp hx with hx | hx
      · exact h.small x hx
      · rw [List.mem_singleton.mp hx]
        exact hv

/-! ## The streams of a graph -/

/-- A node has one stream, and its accumulator is fresh. -/
theorem refreshStreams_fresh (g : Graph) :
    ((refreshStreams g).map (·.graphId)).Nodup ∧ ∀ s ∈ refreshStreams g, Holds [] s := by
  have hstream {c : String × Role} {s : SampledStream} (h : streamOf g.nodes c = some s) :
      s.graphId = c.1 ∧ Holds [] s := by
    unfold streamOf at h
    split at h
    · obtain ⟨settings, -, h⟩ := Option.bind_eq_some_iff.mp h
      split at h
      · obtain rfl := Option.some.inj h
        exact ⟨rfl, Holds.fresh rfl rfl⟩
      · exact absurd h (by simp)
    · exact absurd h (by simp)
  have hkeys : ((g.edges.foldl (connectEdge g.nodes) []).map Prod.fst).Nodup := by
    rw [foldl_connectEdge]
    apply FirstSeen.nodup_keys_collect
    exact List.nodup_nil
  constructor
  · have hsub (l : List (String × Role)) :
        ((l.filterMap (streamOf g.nodes)).map (·.graphId)).Sublist (l.map Prod.fst) := by
      induction l with
      | nil => exact List.Sublist.refl _
      | cons c l ih =>
        rw [List.filterMap_cons]
        cases hc : streamOf g.nodes c with
        | none => exact ih.cons _
        | some s =>
          rw [List.map_cons, List.map_cons, (hstream hc).1]
          exact ih.cons_cons _
    exact hkeys.sublist (hsub _)
  · intro s hs
    obtain ⟨c, -, hc⟩ := List.mem_filterMap.mp hs
    exact (hstream hc).2

/-! ## One step -/

/-- The samples of each stream, now. -/
def Tracked.current (t : Tracked) (graphId : String) : List Sample :=
  samplesOf t.history.taken t.history.flushes graphId

/-- Each stream holds what it took since the last flush, each append accounts for what its stream
took before its flush, and the files have the appends. -/
structure Inv (card : Card) (t : Tracked) : Prop where
  ids : (t.sys.streams.map (·.graphId)).Nodup
  holds : ∀ s ∈ t.sys.streams, Holds (t.current s.graphId) s
  tracked : ∀ x ∈ t.history.taken, x.flush = t.history.flushes →
    x.graphId ∈ t.sys.streams.map (·.graphId)
  past : ∀ x ∈ t.history.taken, x.flush ≤ t.history.flushes
  appended : ∀ w ∈ t.history.written ++ t.history.todo, w.flush < t.history.flushes
  once : ∀ k < t.history.flushes, ∀ graphId,
    powerOf (t.history.written ++ t.history.todo) k graphId =
      (appendOf (samplesOf t.history.taken k graphId)).toList
  timer : match t.sys.timer with
    | .idle => t.history.todo = []
    | .flushing todo => todo = t.history.todo.map Written.append ∧
        ∀ x ∈ t.history.taken, x.flush < t.history.flushes
  node : ∀ graphId date, (t.sys.card.node graphId date).getD [] =
    (card.node graphId date).getD [] ++ t.history.written.filterMap (nodeRecord graphId date)
  grid : ∀ date, (t.sys.card.grid date).getD [] =
    (card.grid date).getD [] ++ t.history.written.filterMap (gridRecord date)

section Steps

variable {card : Card} {t t' : Tracked}

/-- A stream that is not there took nothing since the last flush. -/
theorem Inv.current_of_absent (h : Inv card t) {id : String}
    (hid : id ∉ t.sys.streams.map (·.graphId)) : t.current id = [] := by
  rw [List.eq_nil_iff_forall_not_mem]
  intro x hx
  obtain ⟨hmem, hflush, rfl⟩ := mem_samplesOf.mp hx
  exact hid (h.tracked x hmem hflush)

theorem Inv.todo_of_idle (h : Inv card t) (hidle : t.sys.timer = .idle) : t.history.todo = [] := by
  have htimer := h.timer
  rw [hidle] at htimer
  exact htimer

theorem inv_edit (h : Inv card t) {g : Graph} (hstep : t.step (.edit g) = some t') :
    Inv card t' := by
  obtain ⟨sys, hsys, rfl⟩ := Option.map_eq_some_iff.mp hstep
  obtain rfl := Option.some.inj hsys
  exact ⟨h.ids, h.holds, h.tracked, h.past, h.appended, h.once, h.timer, h.node, h.grid⟩

theorem inv_sample (h : Inv card t) {now : ℤ} {snap : List ValueCacheEntry}
    (hsmall : SmallReadings (.sample now snap)) (hstep : t.step (.sample now snap) = some t') :
    Inv card t' := by
  obtain ⟨sys, hsys, rfl⟩ := Option.map_eq_some_iff.mp hstep
  unfold SampleRecords.step at hsys
  dsimp only at hsys
  split at hsys
  · rename_i hidle
    obtain rfl := Option.some.inj hsys
    have hids : (onSampleTimer now snap t.sys.streams).map (·.graphId) =
        t.sys.streams.map (·.graphId) := by
      unfold onSampleTimer
      rw [List.map_map]
      exact List.map_congr_left fun s _ =>
        congrArg Stream.graphId (s.sample_spec (minuteStart now) snap).1
    have hnew : ∀ x ∈ t.sys.streams.filterMap (sampleTaken t.history.flushes now snap),
        x.flush = t.history.flushes ∧ x.graphId ∈ t.sys.streams.map (·.graphId) := by
      intro x hx
      obtain ⟨s, hs, hx⟩ := List.mem_filterMap.mp hx
      obtain ⟨v, -, rfl⟩ := Option.map_eq_some_iff.mp hx
      exact ⟨rfl, List.mem_map_of_mem hs⟩
    refine ⟨?_, ?_, ?_, ?_, h.appended, ?_, ?_, h.node, h.grid⟩
    · dsimp only
      rw [hids]
      exact h.ids
    · intro s' hs'
      obtain ⟨s, hs, rfl⟩ := List.mem_map.mp hs'
      have hid : (s.sample (minuteStart now) snap).graphId = s.graphId :=
        congrArg Stream.graphId (s.sample_spec (minuteStart now) snap).1
      unfold Tracked.current
      dsimp only [History.next]
      rw [hid, samplesOf_append, samplesOf_sampleTaken h.ids hs]
      exact (h.holds s hs).sample _ hsmall
    · intro x hx hflush
      dsimp only
      rw [hids]
      rcases List.mem_append.mp hx with hx | hx
      · exact h.tracked x hx hflush
      · exact (hnew x hx).2
    · intro x hx
      rcases List.mem_append.mp hx with hx | hx
      · exact h.past x hx
      · exact (hnew x hx).1.le
    · intro k hk id
      dsimp only [History.next] at hk ⊢
      have hnone : samplesOf (t.sys.streams.filterMap (sampleTaken t.history.flushes now snap)) k
          id = [] := samplesOf_of_ne fun x hx => (hnew x hx).1.trans_ne hk.ne'
      rw [samplesOf_append, hnone, List.append_nil]
      exact h.once k hk id
    · dsimp only
      rw [hidle]
      exact h.todo_of_idle hidle
  · exact absurd hsys (by simp)

theorem inv_flush (h : Inv card t) (hstep : t.step .flush = some t') : Inv card t' := by
  obtain ⟨sys, hsys, rfl⟩ := Option.map_eq_some_iff.mp hstep
  unfold SampleRecords.step at hsys
  dsimp only at hsys
  split at hsys
  · rename_i hidle
    obtain rfl := Option.some.inj hsys
    have htodo := h.todo_of_idle hidle
    have hids : (t.sys.streams.map (·.drain)).map (·.graphId) =
        t.sys.streams.map (·.graphId) := by
      rw [List.map_map]
      refine List.map_congr_left fun s _ => ?_
      show s.drain.graphId = s.graphId
      unfold SampledStream.drain
      split <;> rfl
    have hold : ∀ w ∈ t.history.written, w.flush < t.history.flushes := fun w hw =>
      h.appended w (List.mem_append_left _ hw)
    have hnew : ∀ w ∈ t.sys.streams.flatMap (writtenFor t.history.flushes),
        w.flush = t.history.flushes := by
      intro w hw
      obtain ⟨s, -, hw⟩ := List.mem_flatMap.mp hw
      exact (mem_writtenFor hw).1
    have hpast : ∀ x ∈ t.history.taken, x.flush < t.history.flushes + 1 := fun x hx =>
      Nat.lt_succ_of_le (h.past x hx)
    refine ⟨?_, ?_, ?_, fun x hx => (hpast x hx).le, ?_, ?_, ⟨?_, hpast⟩, h.node, h.grid⟩
    · dsimp only
      rw [hids]
      exact h.ids
    · intro s' hs'
      obtain ⟨s, hs, rfl⟩ := List.mem_map.mp hs'
      have hnone : samplesOf t.history.taken (t.history.flushes + 1) s.drain.graphId = [] :=
        samplesOf_of_ne fun x hx => (hpast x hx).ne
      unfold Tracked.current
      dsimp only [History.next]
      rw [hnone]
      exact (h.holds s hs).drain
    · intro x hx hflush
      exact absurd hflush (hpast x hx).ne
    · intro w hw
      rcases List.mem_append.mp hw with hw | hw
      · exact Nat.lt_succ_of_lt (hold w hw)
      · exact Nat.lt_succ_of_le (hnew w hw).le
    · intro k hk id
      dsimp only [History.next] at hk ⊢
      rw [powerOf_append]
      rcases Nat.lt_succ_iff_lt_or_eq.mp hk with hk | rfl
      · have honce := h.once k hk id
        rw [htodo, List.append_nil] at honce
        rw [honce, powerOf_of_ne (fun w hw => (hnew w hw).trans_ne hk.ne'), List.append_nil]
      · rw [powerOf_of_ne (fun w hw => (hold w hw).ne), List.nil_append]
        by_cases hid : id ∈ t.sys.streams.map (·.graphId)
        · obtain ⟨s, hs, rfl⟩ := List.mem_map.mp hid
          rw [powerOf_writtenFor h.ids hs]
          exact (h.holds s hs).appends
        · have hnone : samplesOf t.history.taken t.history.flushes id = [] :=
            h.current_of_absent hid
          rw [powerOf_writtenFor_of_absent hid, hnone]
          rfl
    · show t.sys.streams.flatMap (·.appends) =
        (t.sys.streams.flatMap (writtenFor t.history.flushes)).map Written.append
      rw [List.map_flatMap]
      congr 1
      funext s
      unfold writtenFor
      rw [List.map_map]
      exact (List.map_id _).symm
  · exact absurd hsys (by simp)

/-- A record goes to the file of its date. -/
theorem getD_update_appendTo (files : DateStr → Option (List PowerRecord)) (record : PowerRecord)
    (date : DateStr) :
    (Function.update files (dateFromUnix record.unixMinute)
        (appendTo (files (dateFromUnix record.unixMinute)) record) date).getD [] =
      (files date).getD [] ++
        (if dateFromUnix record.unixMinute = date then some record else none).toList := by
  by_cases hdate : dateFromUnix record.unixMinute = date
  · subst hdate
    simp [appendTo]
  · rw [Function.update_of_ne (Ne.symm hdate)]
    simp [hdate]

/-- What an append adds to the file of a stream's date. -/
theorem node_run (w : Written) (c : Card) (id : String) (date : DateStr) :
    ((w.append.run c).node id date).getD [] =
      (c.node id date).getD [] ++ (nodeRecord id date w).toList := by
  unfold nodeRecord Append.run
  cases w.append with
  | grid record => simp
  | soc id' record => simp
  | node id' record =>
    dsimp only [Append.date, Append.record]
    by_cases hid : id' = id
    · subst hid
      rw [Function.update_self, getD_update_appendTo]
      simp
    · rw [Function.update_of_ne (Ne.symm hid)]
      simp [hid]

/-- What an append adds to the grid's file of a date. -/
theorem grid_run (w : Written) (c : Card) (date : DateStr) :
    ((w.append.run c).grid date).getD [] =
      (c.grid date).getD [] ++ (gridRecord date w).toList := by
  unfold gridRecord Append.run
  cases w.append with
  | node id' record => simp
  | soc id' record => simp
  | grid record =>
    exact getD_update_appendTo c.grid record date

theorem inv_write (h : Inv card t) (hstep : t.step .write = some t') : Inv card t' := by
  obtain ⟨sys, hsys, rfl⟩ := Option.map_eq_some_iff.mp hstep
  unfold SampleRecords.step at hsys
  dsimp only at hsys
  split at hsys
  · rename_i a todo htimer
    obtain rfl := Option.some.inj hsys
    have hflushing := h.timer
    rw [htimer] at hflushing
    obtain ⟨htodo, hpast⟩ := hflushing
    cases hhistory : t.history.todo with
    | nil =>
      rw [hhistory] at htodo
      exact absurd htodo (List.cons_ne_nil _ _)
    | cons w ws =>
      rw [hhistory, List.map_cons] at htodo
      obtain ⟨rfl, rfl⟩ := List.cons.inj htodo
      have hmoved : (t.history.written ++ t.history.todo.take 1) ++ t.history.todo.drop 1 =
          t.history.written ++ t.history.todo := by
        rw [List.append_assoc, List.take_append_drop]
      have hfirst : t.history.todo.take 1 = [w] := by
        rw [hhistory]
        rfl
      refine ⟨h.ids, h.holds, h.tracked, h.past, ?_, ?_, ⟨?_, hpast⟩, ?_, ?_⟩
      · dsimp only [History.next]
        rw [hmoved]
        exact h.appended
      · dsimp only [History.next]
        rw [hmoved]
        exact h.once
      · dsimp only [History.next]
        rw [hhistory]
        rfl
      · intro id date
        dsimp only [History.next]
        rw [hfirst, List.filterMap_append, List.filterMap_eq_flatMap_toList _ [w],
          List.flatMap_singleton, node_run, h.node, List.append_assoc]
      · intro date
        dsimp only [History.next]
        rw [hfirst, List.filterMap_append, List.filterMap_eq_flatMap_toList _ [w],
          List.flatMap_singleton, grid_run, h.grid, List.append_assoc]
  · exact absurd hsys (by simp)

theorem inv_refresh (h : Inv card t) {parsed : Bool} (hstep : t.step (.refresh parsed) = some t') :
    Inv card t' := by
  obtain ⟨sys, hsys, rfl⟩ := Option.map_eq_some_iff.mp hstep
  unfold SampleRecords.step at hsys
  dsimp only at hsys
  split at hsys
  · rename_i htimer
    obtain rfl := Option.some.inj hsys
    have hflushing := h.timer
    rw [htimer] at hflushing
    obtain ⟨htodo, hpast⟩ := hflushing
    have hnone (id : String) : samplesOf t.history.taken t.history.flushes id = [] :=
      samplesOf_of_ne fun x hx => (hpast x hx).ne
    obtain ⟨hids, hfresh⟩ := refreshStreams_fresh t.sys.graph
    refine ⟨?_, ?_, fun x hx hflush => absurd hflush (hpast x hx).ne, h.past, h.appended, h.once,
      ?_, h.node, h.grid⟩
    · dsimp only
      split
      · exact hids
      · exact h.ids
    · intro s hs
      dsimp only at hs
      split at hs
      · unfold Tracked.current
        dsimp only [History.next]
        rw [hnone]
        exact hfresh s hs
      · exact h.holds s hs
    · exact List.map_eq_nil_iff.mp htodo.symm
  · exact absurd hsys (by simp)

theorem inv_step {e : Event} (h : Inv card t) (hsmall : SmallReadings e)
    (hstep : t.step e = some t') : Inv card t' := by
  cases e with
  | edit g => exact inv_edit h hstep
  | sample now snap => exact inv_sample h hsmall hstep
  | flush => exact inv_flush h hstep
  | write => exact inv_write h hstep
  | refresh parsed => exact inv_refresh h hstep

theorem inv_boot (g : Graph) (parsed : Bool) (card : Card) :
    Inv card { sys := System.boot g parsed card } := by
  obtain ⟨hids, hfresh⟩ := refreshStreams_fresh g
  refine ⟨?_, ?_, ?_, ?_, ?_, ?_, rfl, fun _ _ => (List.append_nil _).symm,
    fun _ => (List.append_nil _).symm⟩
  · dsimp only [System.boot]
    split
    · exact hids
    · exact List.nodup_nil
  · intro s hs
    dsimp only [System.boot] at hs
    split at hs
    · exact hfresh s hs
    · exact absurd hs List.not_mem_nil
  · exact fun x hx => absurd hx List.not_mem_nil
  · exact fun x hx => absurd hx List.not_mem_nil
  · exact fun w hw => absurd hw List.not_mem_nil
  · exact fun k hk => absurd hk (Nat.not_lt_zero k)

/-- The invariant accounts for every sample. -/
theorem Inv.accounted (h : Inv card t) : Accounted card t := by
  refine ⟨?_, fun s hs => (h.holds s hs).fits, h.once, h.appended, ?_, h.node, h.grid⟩
  · intro id hsamples
    have hid : id ∈ t.sys.streams.map (·.graphId) := by
      by_contra hid
      exact hsamples (h.current_of_absent hid)
    obtain ⟨s, hs, rfl⟩ := List.mem_map.mp hid
    exact ⟨s, hs, rfl, (h.holds s hs).count, (h.holds s hs).sumMw⟩
  · cases htimer : t.sys.timer with
    | idle => exact h.todo_of_idle htimer
    | flushing todo => trivial

end Steps

/-- After any run of the callbacks and of edits of the graph, every sample that was taken is in the
one record that the first flush after it writes for its stream, or still in its accumulator. -/
theorem samples_accounted (g : Graph) (parsed : Bool) (card : Card) {events : List Event}
    {t : Tracked} (hrun : run Tracked.step { sys := System.boot g parsed card } events = some t)
    (hsmall : Meets Tracked.step (fun _ e => SmallReadings e) { sys := System.boot g parsed card }
      events) : Accounted card t :=
  (inv_of_run (fun _ _ _ hinv he hstep => inv_step hinv he hstep) (inv_boot g parsed card) hsmall
    hrun).accounted

/-- A grid meter and a cooker at the consumer unit. -/
def kitchen : Graph :=
  { nodes := [{ id := some "consumer_unit" }, device "grid_meter" 1, device "cooker" 2]
    edges := [wire "grid_meter" "out" "consumer_unit" "grid",
      wire "consumer_unit" "circuit_1" "cooker" "in"] }

def power (nodeId : ℕ) (value : ℤ) : ValueCacheEntry :=
  { valid := true, nodeId, endpointId := 1, clusterId := EPM_CLUSTER_ID,
    attributeId := EPM_ACTIVE_POWER_ATTR, value }

/-- No file yet. -/
def newCard : Card :=
  { grid := fun _ => none, node := fun _ _ => none, soc := fun _ _ => none, tariff := fun _ => none,
    price := fun _ => none }

/-- Two samples over a change of minute, then the cooker is taken out of the graph, then a flush. -/
def cookerRemoved : List Event :=
  [.sample 1750000030 [power 1 2000, power 2 1500], .sample 1750000090 [power 1 2101, power 2 1500],
    .edit { kitchen with edges := kitchen.edges.take 1 }, .flush, .write, .write, .refresh true]

theorem samples_accounted_cookerRemoved :
    ∃ t, run Tracked.step { sys := System.boot kitchen true newCard } cookerRemoved = some t ∧
      Accounted newCard t := by
  have hruns : (run Tracked.step { sys := System.boot kitchen true newCard }
      cookerRemoved).isSome = true := by decide +kernel
  obtain ⟨t, ht⟩ := Option.isSome_iff_exists.mp hruns
  exact ⟨t, ht, samples_accounted kitchen true newCard ht (by decide +kernel)⟩

end HomeEnergyManager.SampleRecords
