import Mathlib.Data.Char
import Mathlib.Data.List.Lex
import HomeEnergyManager.PowerLogger.StartLedger

/-! # The mix does not depend on what was asked first

While every walk back for a start ledger stops in time, every query answers from the start ledgers
that the files determine, so its answer does not depend on the queries before it. A walk that gives
up starts a day from the unknown ledger, and what it computes is cached for good.
-/

namespace HomeEnergyManager.NodePowerLogger

/-! ## What the answers say about the mix -/

/-- The parts of an answer that the battery's mix goes into. -/
inductive MixAnswer where
  | batterySource (mix : Option (ℚ × ℚ))
  | dailyEnergy (days : List (DateStr × Option (List (String × ℚ × ℚ))))
  | splitDayCached
  | mixTrace (trace : Option (Option MixTrace))
deriving DecidableEq, Repr

def DayRow.mix (row : DayRow) : DateStr × Option (List (String × ℚ × ℚ)) := (row.date, row.split)

def Answer.mix : Answer → MixAnswer
  | .batterySource mix => .batterySource mix
  | .dailyEnergy doc => .dailyEnergy (doc.days.map (·.mix))
  | .splitDayCached => .splitDayCached
  | .mixTrace trace => .mixTrace trace

/-- What a query has to answer: every day split from its start ledger. -/
def Query.mix (c : Inputs) (streams : List Stream) : Query → MixAnswer
  | .batterySource now =>
    .batterySource (NodePowerLogger.batterySource (daySplitOf c streams (localDay now)))
  | .dailyEnergy now days =>
    .dailyEnergy ((backs days).map fun back =>
      (dateStr (localDay now - back), (daySplitOf c streams (localDay now - back)).map (·.kwh)))
  | .splitDayCached _ => .splitDayCached
  | .mixTrace now date =>
    .mixTrace ((traceStart now date).map fun dayStart =>
      let start := startLedger c streams (localDay dayStart)
      NodePowerLogger.mixTrace now dayStart date start (computeDaySplit c date streams start))

/-- The day that a query walks back from. -/
def Query.firstDay : Query → Option ℤ
  | .batterySource now => some (localDay now)
  | .dailyEnergy now days => if 0 < days then some (localDay now - (days - 1)) else none
  | .splitDayCached date => dayOf date
  | .mixTrace now date => (traceStart now date).map localDay

/-- The last day that a query is about. -/
def Query.lastDay : Query → Option ℤ
  | .batterySource now => some (localDay now)
  | .dailyEnergy now _ => some (localDay now)
  | .splitDayCached date => dayOf date
  | .mixTrace now date => (traceStart now date).map localDay

/-- The condition on a query: walking back from its first day meets a cached day or a day without
grid data within eight days, and all these days have years of four digits. -/
structure Query.InReach (len : TextLength) (c : Card) (q : Query) : Prop where
  stops : ∀ z ∈ q.firstDay, WithinReach len c kLedgerDepth z
  first : ∀ z ∈ q.firstDay, Dated (z - 1 - kLedgerDepth)
  last : ∀ z ∈ q.lastDay, Dated z

instance (len : TextLength) (c : Card) (q : Query) : Decidable (q.InReach len c) :=
  decidable_of_iff
    ((∀ z ∈ q.firstDay, WithinReach len c kLedgerDepth z) ∧
      (∀ z ∈ q.firstDay, Dated (z - 1 - kLedgerDepth)) ∧ ∀ z ∈ q.lastDay, Dated z)
    ⟨fun h => ⟨h.1, h.2.1, h.2.2⟩, fun h => ⟨h.stops, h.first, h.last⟩⟩

/-! ## One query -/

section Query

variable {len : TextLength} {streams : List Stream} {c : Card}

variable (len streams c) in
/-- A cost leaves everything but the cost caches alone. -/
theorem dayCost_snd (date : DateStr) (isToday allowCacheWrite : Bool) :
    ∃ cost, (dayCost len date isToday streams allowCacheWrite c).2 = { c with cost := cost } := by
  unfold dayCost
  split
  · exact ⟨c.cost, rfl⟩
  · split
    · split
      · exact ⟨_, rfl⟩
      · exact ⟨c.cost, rfl⟩
    · exact ⟨c.cost, rfl⟩

theorem RightCard.setCost (h : RightCard streams c) (cost : DateStr → Option DayCost) :
    RightCard streams { c with cost := cost } := ⟨h.split, h.starts⟩

/-- The energies of an answer are those of the split. -/
theorem kwh_of_core {r r' : Option DaySplit} (h : r.map (·.core) = r'.map (·.core)) :
    r.map (·.kwh) = r'.map (·.kwh) := by
  have hkwh : ∀ r : Option DaySplit, r.map (·.kwh)
      = (r.map (·.core)).map fun w => w.1.map fun w => (w.1, w.2.1 / 1000, w.2.2 / 1000) := by
    intro r
    cases r <;> rfl
  rw [hkwh, hkwh, h]

variable (len) in
/-- A text that is no date is not split. -/
theorem RightCard.daySplit_of_no_day (h : RightCard streams c) {date : DateStr}
    (hday : dayOf date = none) :
    let r := NodePowerLogger.daySplit len date false streams .unknown c
    r.2.toInputs = c.toInputs ∧ RightCard streams r.2 := by
  dsimp only
  have hcompute : computeDaySplit c.toInputs date streams .unknown = none := by
    unfold computeDaySplit
    rw [Option.map_eq_none_iff.mp hday, Option.bind_none]
  unfold NodePowerLogger.daySplit NodePowerLogger.splitFrom
  rw [hcompute]
  split
  · exact ⟨rfl, h⟩
  -- the run is noted under a text that names no day
  · refine ⟨rfl, ⟨h.split, fun p hp z hz => ?_⟩⟩
    rcases List.mem_append.mp hp with hold | hnew
    · exact h.starts p hold z hz
    · rw [List.mem_singleton.mp hnew, hday] at hz
      exact nomatch hz

variable (len) in
/-- A seeded ledger is the start ledger, and one that is handed on stays it. -/
theorem RightCard.seeded (h : RightCard streams c) (hids : DistinctLoads streams) {z : ℤ}
    (hz : Dated z) {L : Option BatteryLedger}
    (hsome : ∀ L' ∈ L, L' = startLedger c.toInputs streams z)
    (hnone : L = none → Dated (z - 1 - kLedgerDepth) ∧
      WithinReach len c kLedgerDepth z) :
    let r := seeded len streams (dateStr z) L c
    r.1 = startLedger c.toInputs streams z ∧ r.2.toInputs = c.toInputs ∧ RightCard streams r.2 := by
  cases L with
  | some L => exact ⟨hsome L rfl, rfl, h⟩
  | none =>
    obtain ⟨hfirst, hreach⟩ := hnone rfl
    have hlast : Dated (z - 1) := hfirst.of_mem hz (by unfold kLedgerDepth; omega)
    exact h.ledgerBefore hids kLedgerDepth (dayOf_dateStr hz) hfirst hlast hreach

variable (len) in
/-- One day of the daily energies is split from its start ledger, and hands the next one on. -/
theorem dailyDay_spec (hids : DistinctLoads streams) {now : ℤ} {n : ℕ} {st : DailyState}
    (h : RightCard streams st.card) (hz : Dated (localDay now - n))
    (hsome : ∀ L ∈ st.ledger, L = startLedger st.card.toInputs streams (localDay now - n))
    (hnone : st.ledger = none → Dated (localDay now - n - 1 - kLedgerDepth) ∧
      WithinReach len st.card kLedgerDepth (localDay now - n)) :
    let st' := dailyDay len streams now st n
    st'.card.toInputs = st.card.toInputs ∧ RightCard streams st'.card ∧
      st'.ledger = some (startLedger st.card.toInputs streams (localDay now - n + 1)) ∧
      st'.rows.map (·.mix) = st.rows.map (·.mix) ++ [(dateStr (localDay now - n),
        (daySplitOf st.card.toInputs streams (localDay now - n)).map (·.kwh))] := by
  dsimp only
  have hdate : stepDate now (-(n : ℤ)) = dateStr (localDay now - n) := by
    rw [stepDate_eq, ← sub_eq_add_neg]
  have hday := dayOf_dateStr hz
  obtain ⟨cost, hcost⟩ :=
    dayCost_snd len streams st.card (dateStr (localDay now - n)) ((n : ℤ) == 0) true
  obtain ⟨hstart, hinputs, hright⟩ := (h.setCost cost).seeded len hids hz hsome hnone
  obtain ⟨hcore, hinputs', hright'⟩ := hright.daySplit len hids ((n : ℤ) == 0) hday
  dsimp only at hstart hinputs
  rw [hinputs, ← hstart] at hcore hinputs' hright'
  unfold dailyDay
  dsimp only
  rw [hdate, hcost]
  refine ⟨hinputs', hright', ?_, ?_⟩
  · have hlast : Dated (localDay now - n + 1 - 1) := by rwa [add_sub_cancel_right]
    congr 1
    apply startLedger_of_core hlast
    rw [add_sub_cancel_right, hcore, hstart]
    rfl
  · rw [List.map_append, List.map_singleton]
    congr 2
    refine Prod.ext rfl (kwh_of_core ?_)
    rw [hcore, hstart]
    rfl

theorem backs_succ (n : ℕ) : backs (n + 1 : ℕ) = (n : ℤ) :: backs n := by
  unfold backs
  rw [Int.toNat_natCast, Int.toNat_natCast, List.range_succ_eq_map, List.map_cons, List.map_map]
  refine List.cons_eq_cons.mpr ⟨by push_cast; ring, List.map_congr_left fun i _ => ?_⟩
  dsimp only [Function.comp]
  push_cast
  ring

theorem backs_toNat (days : ℤ) : backs days.toNat = backs days := by
  unfold backs
  rcases le_or_gt 0 days with hpos | hneg
  · rw [Int.toNat_of_nonneg hpos]
  · rw [Int.toNat_of_nonpos hneg.le]
    rfl

variable (len) in
/-- The loop over the days splits every one from its start ledger. -/
theorem dailyDays_spec (hids : DistinctLoads streams) {now : ℤ} (n : ℕ) (st : DailyState)
    (h : RightCard streams st.card) (hlast : Dated (localDay now))
    (hsome : ∀ L ∈ st.ledger, L = startLedger st.card.toInputs streams (localDay now - n + 1))
    (hfirst : 0 < n → Dated (localDay now - n + 1))
    (hnone : st.ledger = none → 0 < n → Dated (localDay now - n + 1 - 1 - kLedgerDepth) ∧
      WithinReach len st.card kLedgerDepth (localDay now - n + 1)) :
    let st' := (backs n).foldl (dailyDay len streams now) st
    st'.card.toInputs = st.card.toInputs ∧ RightCard streams st'.card ∧
      st'.rows.map (·.mix) = st.rows.map (·.mix) ++ (backs n).map fun back =>
        (dateStr (localDay now - back),
          (daySplitOf st.card.toInputs streams (localDay now - back)).map (·.kwh)) := by
  dsimp only
  induction n generalizing st with
  | zero => exact ⟨rfl, h, (List.append_nil _).symm⟩
  | succ n ih =>
    have hday : localDay now - (n + 1 : ℕ) + 1 = localDay now - n := by push_cast; ring
    rw [hday] at hsome hfirst hnone
    have hz := hfirst (Nat.succ_pos n)
    obtain ⟨hinputs, hright, hledger, hrows⟩ := dailyDay_spec len hids h hz hsome
      fun hseed => hnone hseed (Nat.succ_pos n)
    rw [backs_succ, List.foldl_cons, List.map_cons]
    -- from the second day on the ledger is handed over
    obtain ⟨hinputs', hright', hrows'⟩ := ih _ hright
      (fun L hL => by
        rw [hledger] at hL
        rw [← Option.some.inj hL, hinputs])
      (fun hn => hz.of_mem hlast (by omega))
      (fun hseed => by
        rw [hledger] at hseed
        exact nomatch hseed)
    refine ⟨hinputs'.trans hinputs, hright', ?_⟩
    rw [hrows', hrows, hinputs, List.append_assoc, List.singleton_append]

variable (len) in
/-- `compute_day_split` after `ledger_before`, without a cache in between. -/
theorem RightCard.splitBefore (h : RightCard streams c) (hids : DistinctLoads streams)
    {date : DateStr} {z : ℤ} (hz : dayOf date = some z) (hfirst : Dated (z - 1 - kLedgerDepth))
    (hlast : Dated z) (hreach : WithinReach len c kLedgerDepth z) :
    let before := NodePowerLogger.ledgerBefore len streams kLedgerDepth date c
    let r := NodePowerLogger.splitFrom date streams before.1 before.2
    before.1 = startLedger c.toInputs streams z ∧
      r.1 = computeDaySplit c.toInputs date streams (startLedger c.toInputs streams z) ∧
      r.2.toInputs = c.toInputs ∧ RightCard streams r.2 := by
  have hlast' : Dated (z - 1) := hfirst.of_mem hlast (by unfold kLedgerDepth; omega)
  obtain ⟨hstart, hinputs, hright⟩ := h.ledgerBefore hids kLedgerDepth hz hfirst hlast' hreach
  have hright' := hright.splitFrom hz
  rw [hinputs, ← hstart] at hright'
  refine ⟨hstart, ?_, hinputs, hright'⟩
  dsimp only [NodePowerLogger.splitFrom]
  rw [hstart, hinputs]

theorem localDayStart_of_traceStart {now : ℤ} {date : DateStr} {dayStart : ℤ}
    (h : traceStart now date = some dayStart) : localDayStart date = some dayStart := by
  unfold traceStart at h
  split at h
  · exact (Option.filter_eq_some_iff.mp h).1
  · exact nomatch h

/-- A query within reach answers the mix that the files determine, and keeps the card right. -/
theorem query_spec (hids : DistinctLoads streams) (h : RightCard streams c) {q : Query}
    (hq : q.InReach len c) :
    (q.run len streams c).1.mix = q.mix c.toInputs streams ∧
      (q.run len streams c).2.toInputs = c.toInputs ∧
        RightCard streams (q.run len streams c).2 := by
  cases q with
  | batterySource now =>
    have hday := dayOf_dateStr (hq.last _ rfl)
    obtain ⟨-, hsplit, hinputs, hright⟩ :=
      h.splitBefore len hids hday (hq.first _ rfl) (hq.last _ rfl) (hq.stops _ rfl)
    refine ⟨?_, hinputs, hright⟩
    show MixAnswer.batterySource (NodePowerLogger.batterySource _) = _
    rw [hsplit]
    rfl
  | dailyEnergy now days =>
    have hfirst : 0 < days.toNat →
        localDay now - days.toNat + 1 ∈ (Query.dailyEnergy now days).firstDay := by
      intro hpos
      have hdays : (days.toNat : ℤ) = days := Int.toNat_of_nonneg (by omega)
      dsimp only [Query.firstDay]
      rw [hdays, if_pos (by omega), sub_add]
      rfl
    have hlast : Dated (localDay now) := hq.last _ rfl
    obtain ⟨hinputs, hright, hrows⟩ := dailyDays_spec len hids days.toNat { card := c }
      h hlast (fun L hL => nomatch hL)
      (fun hpos => (hq.first _ (hfirst hpos)).of_mem hlast (by unfold kLedgerDepth; omega))
      (fun _ hpos => ⟨hq.first _ (hfirst hpos), hq.stops _ (hfirst hpos)⟩)
    rw [backs_toNat] at hinputs hright hrows
    refine ⟨?_, hinputs, hright⟩
    show MixAnswer.dailyEnergy (List.map _ _) = _
    rw [hrows]
    rfl
  | splitDayCached date =>
    refine ⟨rfl, ?_⟩
    unfold Query.run NodePowerLogger.splitDayCached
    dsimp only
    cases hday : dayOf date with
    | some z =>
      have hfirst := hq.first z hday
      have hlast : Dated (z - 1) := hfirst.of_mem (hq.last z hday) (by unfold kLedgerDepth; omega)
      obtain ⟨hstart, hinputs, hright⟩ :=
        h.ledgerBefore hids kLedgerDepth hday hfirst hlast (hq.stops z hday)
      obtain ⟨-, hinputs', hright'⟩ := hright.daySplit len hids false hday
      rw [hinputs, ← hstart] at hinputs' hright'
      exact ⟨hinputs', hright'⟩
    | none =>
      have hstart := Option.map_eq_none_iff.mp hday
      have hbefore :
          NodePowerLogger.ledgerBefore len streams kLedgerDepth date c = (.unknown, c) := by
        unfold NodePowerLogger.ledgerBefore
        rw [hstart]
      rw [hbefore]
      exact h.daySplit_of_no_day len hday
  | mixTrace now date =>
    unfold Query.run Query.mix
    dsimp only
    cases htrace : traceStart now date with
    | none => exact ⟨rfl, rfl, h⟩
    | some dayStart =>
      have hday : dayOf date = some (localDay dayStart) := by
        unfold dayOf
        rw [localDayStart_of_traceStart htrace, Option.map_some]
      have hmem : localDay dayStart ∈ (traceStart now date).map localDay := by
        rw [htrace]
        rfl
      obtain ⟨hstart, hsplit, hinputs, hright⟩ :=
        h.splitBefore len hids hday (hq.first _ hmem) (hq.last _ hmem) (hq.stops _ hmem)
      refine ⟨?_, hinputs, hright⟩
      dsimp only [Answer.mix]
      rw [hsplit, hstart]
      rfl

end Query

/-! ## Any sequence of queries -/

/-- While every query is within reach, each answers the mix that the files determine, whatever was
asked before it, and every cached split and every start ledger is the right one. -/
theorem mix_independent_of_order {len : TextLength} {streams : List Stream}
    (hids : DistinctLoads streams) {c : Card} (h : RightCard streams c) {qs : List Query}
    (hreach : StepSystem.Meets (queryStep len streams) (fun c q => q.InReach len c) c qs) :
    (answers len streams c qs).map (·.mix) = qs.map (Query.mix c.toInputs streams) ∧
      ∀ c', StepSystem.run (queryStep len streams) c qs = some c' →
        c'.toInputs = c.toInputs ∧ RightCard streams c' := by
  induction qs generalizing c with
  | nil =>
    refine ⟨rfl, fun c' hrun => ?_⟩
    obtain rfl : c = c' := Option.some.inj hrun
    exact ⟨rfl, h⟩
  | cons q qs ih =>
    obtain ⟨hmix, hinputs, hright⟩ := query_spec hids h hreach.1
    obtain ⟨hmixes, hrest⟩ := ih hright (hreach.2 _ rfl)
    rw [hinputs] at hmixes hrest
    refine ⟨?_, fun c' hrun => ?_⟩
    · rw [answers, List.map_cons, List.map_cons, hmix, hmixes]
    · obtain ⟨s, hstep, hrun'⟩ := StepSystem.run_cons_eq_some.mp hrun
      obtain rfl := Option.some.inj hstep
      exact hrest c' hrun'

/-! ## A walk that gives up -/

/-- Nothing is recorded of the batteries on a day. -/
def AtRest (c : Inputs) (streams : List Stream) (date : DateStr) : Prop :=
  ∀ s ∈ streams, s.role = .battery → c.node s.graphId date = none ∧ c.soc s.graphId date = none

/-- A day at rest leaves a ledger in Wh as it is. -/
theorem endLedger_of_atRest {c : Inputs} {date : DateStr} {streams : List Stream}
    (hrest : AtRest c streams date) {start : BatteryLedger} (hstart : start.soc = false)
    {ds : DaySplit} (h : computeDaySplit c date streams start = some ds) :
    ds.endLedger = start := by
  obtain ⟨dayStart, -, h⟩ := Option.bind_eq_some_iff.mp h
  obtain ⟨grid, -, rfl⟩ := Option.map_eq_some_iff.mp h
  -- without records there is no reading and no power of the battery
  have hsoc : socMinutes c date dayStart streams = none := by
    refine List.findSome?_eq_none_iff.mpr fun s hs => ?_
    obtain ⟨hmem, hrole⟩ := List.mem_filter.mp hs
    rw [(hrest s hmem (of_decide_eq_true hrole)).2]
    rfl
  have hbat : ∀ m ∈ (dayArrays c date dayStart streams grid).minutes, m.bat = 0 := by
    intro m hm
    dsimp only [dayArrays] at hm
    obtain ⟨i, -, rfl⟩ := List.mem_map.mp hm
    refine List.sum_eq_zero fun v hv => ?_
    obtain ⟨s, hs, rfl⟩ := List.mem_map.mp hv
    obtain ⟨hmem, hrole⟩ := List.mem_filter.mp hs
    unfold nodeMinutes
    rw [(hrest s hmem (of_decide_eq_true hrole)).1]
    rfl
  have hloop : ∀ (ms : List Minute) (s : LedgerState), (∀ m ∈ ms, m.bat = 0) →
      ledgerLoop false ms s = s := by
    intro ms
    induction ms with
    | nil => exact fun s _ => rfl
    | cons m ms ih =>
      intro s hms
      rw [List.forall_mem_cons] at hms
      have hcount : countWh m s.L = s.L := by
        unfold countWh Minute.batW
        rw [hms.1]
        simp
      rw [ledgerLoop_cons, ledgerMinute, if_neg Bool.false_ne_true, hcount]
      exact ih s hms.2
  have hhave : (dayArrays c date dayStart streams grid).haveSoc = false := by
    dsimp only [dayArrays]
    rw [hsoc]
    rfl
  obtain ⟨e, f, known, soc⟩ := start
  obtain rfl : soc = false := hstart
  rw [splitDay_endLedger, hhave, endLedger, hloop _ _ hbat]
  rfl

/-- Days at rest do not matter for the start ledger. -/
theorem foldDays_of_atRest {c : Inputs} {streams : List Stream} {k n : ℕ} {z : ℤ}
    (hsoc : (foldDays c streams n (z - k)).soc = false)
    (h : ∀ j < k, Dated (z - 1 - j) ∧ (c.grid (dateStr (z - 1 - j))).isSome ∧
      AtRest c streams (dateStr (z - 1 - j))) :
    foldDays c streams (n + k) z = foldDays c streams n (z - k) := by
  induction k generalizing z with
  | zero => rw [Nat.cast_zero, sub_zero, Nat.add_zero]
  | succ k ih =>
    have hshift : z - ((k + 1 : ℕ) : ℤ) = z - 1 - k := by push_cast; ring
    rw [hshift] at hsoc ⊢
    -- the days before the last one, one further back
    have hrest := ih hsoc fun j hj => by
      have := h (j + 1) (by omega)
      rwa [show z - 1 - ((j + 1 : ℕ) : ℤ) = z - 1 - 1 - j by push_cast; ring] at this
    obtain ⟨hdated, hgrid, hat⟩ := h 0 (Nat.succ_pos k)
    rw [Nat.cast_zero, sub_zero] at hdated hgrid hat
    obtain ⟨ds, hds⟩ :=
      exists_computeDaySplit hdated hgrid streams (foldDays c streams (n + k) (z - 1))
    rw [← Nat.add_assoc, foldDays, hds, Option.elim_some, ← hrest]
    exact endLedger_of_atRest hat (by rw [hrest, hsoc]) hds

/-- A card with nine days of grid data, 2 January to 10 January 2024, and no cache: the battery
charged on the first of them for a minute, from solar. -/
def nineDayCard : Card :=
  { grid := fun date =>
      if "2024-01-02".toList ≤ date ∧ date ≤ "2024-01-10".toList then some [] else none
    node := fun id date =>
      if id = "battery" ∧ date = "2024-01-02".toList then
        some [{ unixMinute := 1704186000, powerMw := 1000000 }]
      else none
    soc := fun _ _ => none
    tariff := fun _ => none
    price := fun _ => none }

def nineDayStreams : List Stream :=
  [{ graphId := "battery", role := .battery }, { graphId := "kettle", role := .load }]

theorem rightCard_nineDayCard : RightCard nineDayStreams nineDayCard where
  split := by
    rintro _ _ ⟨⟩
  starts := by
    rintro _ ⟨⟩

/-- Asked on 4 January, the walk reaches the gap before the first day. -/
theorem mix_independent_of_order_nineDayCard :
    (answers shortTexts nineDayStreams nineDayCard
        [.batterySource 1704326400, .dailyEnergy 1704326400 3]).map (·.mix)
      = [.batterySource 1704326400, .dailyEnergy 1704326400 3].map
          (Query.mix nineDayCard.toInputs nineDayStreams) ∧
      ∀ c', StepSystem.run (queryStep shortTexts nineDayStreams) nineDayCard
          [.batterySource 1704326400, .dailyEnergy 1704326400 3] = some c' →
        c'.toInputs = nineDayCard.toInputs ∧ RightCard nineDayStreams c' :=
  mix_independent_of_order (by decide) rightCard_nineDayCard (by decide +kernel)

/-- The days between 2 January and 10 January are at rest. -/
theorem foldDays_nineDayCard (n : ℕ)
    (hsoc : (foldDays nineDayCard.toInputs nineDayStreams n 19725).soc = false) :
    foldDays nineDayCard.toInputs nineDayStreams (n + 7) 19732
      = foldDays nineDayCard.toInputs nineDayStreams n 19725 := by
  have hdays : ∀ j < 7, Dated (19732 - 1 - (j : ℕ)) ∧
      (nineDayCard.grid (dateStr (19732 - 1 - (j : ℕ)))).isSome ∧
      dateStr (19732 - 1 - (j : ℕ)) ≠ "2024-01-02".toList := by decide
  refine foldDays_of_atRest hsoc fun j hj => ?_
  obtain ⟨hdated, hgrid, hne⟩ := hdays j hj
  refine ⟨hdated, hgrid, fun s _ _ => ⟨if_neg fun h => hne h.2, rfl⟩⟩

/-- Asked on 10 January, the walk gives up one day short: the battery holds nothing but solar
energy, and the answer is that its mix is unknown. -/
theorem mix_forgotten_after_eight_days :
    DistinctLoads nineDayStreams ∧ RightCard nineDayStreams nineDayCard ∧
      Query.mix nineDayCard.toInputs nineDayStreams (.batterySource 1704844800)
        = .batterySource (some (100, 0)) ∧
      (answers shortTexts nineDayStreams nineDayCard [.batterySource 1704844800]).map (·.mix)
        = [.batterySource none] := by
  refine ⟨by decide, rightCard_nineDayCard, ?_, ?_⟩
  · have hfirst : foldDays nineDayCard.toInputs nineDayStreams 1 19725
        = { eWh := 50 / 3, f := 1, known := true, soc := false } := by
      decide +kernel
    have hstart : startLedger nineDayCard.toInputs nineDayStreams 19732
        = { eWh := 50 / 3, f := 1, known := true, soc := false } := by
      have hrun : gridRun nineDayCard.toInputs (19732 - Civil.newYear 0).toNat 19732 = 8 := by
        decide +kernel
      rw [startLedger, hrun, foldDays_nineDayCard 1, hfirst]
      rw [hfirst]
    have hday : localDay 1704844800 = 19732 := by decide
    unfold Query.mix daySplitOf
    dsimp only
    rw [hday, hstart]
    decide +kernel
  · have hday : dayOf (dateStr (localDay 1704844800)) = some 19732 := by decide
    have hbefore := ledgerBefore_of_not_withinReach shortTexts nineDayStreams nineDayCard
      kLedgerDepth hday (by decide) (by decide) (by decide)
    have hinputs := (ledgerBefore_frame shortTexts nineDayStreams nineDayCard kLedgerDepth hday
      (by decide) (by decide)).1
    have hunknown : foldDays nineDayCard.toInputs nineDayStreams kLedgerDepth 19732 = .unknown :=
      foldDays_nineDayCard 0 rfl
    rw [answers, answers, List.map_singleton]
    unfold Query.run splitFrom
    dsimp only
    rw [hbefore, hinputs, hunknown]
    decide +kernel

end HomeEnergyManager.NodePowerLogger
