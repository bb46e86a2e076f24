import HomeEnergyManager.PowerLogger.LedgerInvariant
import HomeEnergyManager.PowerLogger.Queries

/-! # The start ledger of a day

The ledger that a day starts from is that of the days before it, as far back as there is grid data.
A card is right when its cached splits are those of their start ledgers. Walking back with the
caches gives the start ledger, and keeps the card right, whenever the walk meets a cached day or a
day without grid data before it gives up.
-/

namespace HomeEnergyManager.NodePowerLogger

/-- The days with grid data immediately before `z`, of the `n` days before it. -/
def gridRun (c : Inputs) : ℕ → ℤ → ℕ
  | 0, _ => 0
  | n + 1, z => if (c.grid (dateStr (z - 1))).isSome then gridRun c n (z - 1) + 1 else 0

/-- `compute_day_split` folded over the `k` days before `z`, from the unknown ledger. -/
def foldDays (c : Inputs) (streams : List Stream) : ℕ → ℤ → BatteryLedger
  | 0, _ => .unknown
  | k + 1, z =>
    (computeDaySplit c (dateStr (z - 1)) streams (foldDays c streams k (z - 1))).elim .unknown
      (·.endLedger)

/-- The start ledger of day `z`: folded over all consecutive days before it that have grid data. -/
def startLedger (c : Inputs) (streams : List Stream) (z : ℤ) : BatteryLedger :=
  foldDays c streams (gridRun c (z - Civil.newYear 0).toNat z) z

/-- The split of a finished day that is right. -/
def daySplitOf (c : Inputs) (streams : List Stream) (z : ℤ) : Option DaySplit :=
  computeDaySplit c (dateStr z) streams (startLedger c streams z)

/-- The day after a day with grid data starts from where that day ends. -/
theorem startLedger_succ (c : Inputs) (streams : List Stream) {z : ℤ} (h : Dated z) :
    startLedger c streams (z + 1) = (daySplitOf c streams z).elim .unknown (·.endLedger) := by
  have hsucc : (z + 1 - Civil.newYear 0).toNat = (z - Civil.newYear 0).toNat + 1 := by
    have := h.1
    omega
  have hback : z + 1 - 1 = z := add_sub_cancel_right z 1
  unfold startLedger
  rw [hsucc, gridRun, hback]
  split
  · rw [foldDays, hback]
    rfl
  · rename_i hgap
    rw [foldDays, daySplitOf, computeDaySplit_of_gap h hgap]
    rfl

theorem foldDays_inv (c : Inputs) (streams : List Stream) (k : ℕ) (z : ℤ) :
    (foldDays c streams k z).Inv := by
  induction k generalizing z with
  | zero => exact BatteryLedger.inv_unknown
  | succ k ih =>
    rw [foldDays]
    cases hds : computeDaySplit c (dateStr (z - 1)) streams (foldDays c streams k (z - 1)) with
    | none => exact BatteryLedger.inv_unknown
    | some ds =>
      obtain ⟨d, -, -, rfl⟩ := computeDaySplit_eq_splitDay hds
      rw [Option.elim_some, splitDay_endLedger]
      exact endLedger_inv _ _ (ih (z - 1))

/-! ## Reading a cached split back -/

/-- What answers are made of: the energies and the end ledger. -/
def DaySplit.core (ds : DaySplit) : List (String × ℚ × ℚ) × BatteryLedger := (ds.wh, ds.endLedger)

/-- The first entry of a name is its own, where names are distinct. -/
theorem find?_of_nodup {α β : Type*} [DecidableEq α] {l : List (α × β)}
    (h : (l.map Prod.fst).Nodup) {w : α × β} (hw : w ∈ l) : l.find? (·.1 == w.1) = some w := by
  induction l with
  | nil => exact absurd hw List.not_mem_nil
  | cons v l ih =>
    rw [List.map_cons, List.nodup_cons] at h
    rcases List.mem_cons.mp hw with rfl | hw'
    · exact List.find?_cons_of_pos (beq_self_eq_true _)
    · have hne : v.1 ≠ w.1 := by
        intro heq
        exact h.1 (heq ▸ List.mem_map_of_mem hw')
      rw [List.find?_cons_of_neg (by simpa using hne)]
      exact ih h.2 hw'

/-- The end ledger reads back as it was written, if it holds nothing while it is unknown. -/
theorem DaySplit.endLedger_read_doc {ds : DaySplit}
    (h : ds.endLedger.known = false → ds.endLedger.eWh = 0 ∧ ds.endLedger.f = 0) :
    ds.doc.read.endLedger = ds.endLedger := by
  show (if ds.endLedger.known then _ else _) = ds.endLedger
  split
  · rfl
  · rename_i hknown
    obtain ⟨wh, ⟨e, f, known, soc⟩, hourly⟩ := ds
    obtain rfl : known = false := Bool.eq_false_iff.mpr hknown
    obtain ⟨rfl, rfl⟩ : e = 0 ∧ f = 0 := h rfl
    rfl

/-- A split reads back as it was written, if its names are distinct. -/
theorem DaySplit.read_doc {ds : DaySplit} (hids : (ds.wh.map Prod.fst).Nodup)
    (hinv : ds.endLedger.Inv) : ds.doc.read.core = ds.core := by
  refine Prod.ext ?_ (DaySplit.endLedger_read_doc hinv.unknown_zero)
  show List.map _ (List.map _ ds.wh) = ds.wh
  rw [List.map_map]
  conv_rhs => rw [← List.map_id ds.wh]
  apply List.map_congr_left
  intro w hw
  -- the grid energy is looked up by name
  have hfind : (ds.doc.gridKwh.find? (·.1 == w.1)) = some (w.1, w.2.2 / 1000) := by
    refine find?_of_nodup (w := (w.1, w.2.2 / 1000)) ?_
      (List.mem_map_of_mem (f := fun w => (w.1, w.2.2 / 1000)) hw)
    unfold DaySplit.doc
    rwa [List.map_map]
  show (w.1, w.2.1 / 1000 * 1000, (ds.doc.gridKwh.find? (·.1 == w.1)).elim 0 (·.2) * 1000) = w
  rw [hfind]
  ext
  · rfl
  · exact div_mul_cancel₀ _ (by norm_num)
  · exact div_mul_cancel₀ _ (by norm_num)

/-! ## Right cards -/

/-- Names that a split cannot mix up: distinct graph ids, none of them that of the remainder. -/
def DistinctLoads (streams : List Stream) : Prop :=
  ((loadStreams streams).map (·.graphId) ++ [UNMONITORED_KEY]).Nodup

instance (streams : List Stream) : Decidable (DistinctLoads streams) :=
  inferInstanceAs (Decidable (List.Nodup _))

/-- Every cached split is the right one, and every start ledger used so far was. -/
structure RightCard (streams : List Stream) (c : Card) : Prop where
  split : ∀ date doc, c.split date = some doc →
    ∃ z, dayOf date = some z ∧ ∃ ds,
      computeDaySplit c.toInputs date streams (startLedger c.toInputs streams z) = some ds ∧
        doc = ds.doc
  starts : ∀ p ∈ c.starts, ∀ z, dayOf p.1 = some z → p.2 = startLedger c.toInputs streams z

/-- A computed split from a start ledger reads back as it is. -/
theorem read_doc_of_compute {c : Inputs} {streams : List Stream} (hids : DistinctLoads streams)
    {date : DateStr} {z : ℤ} {ds : DaySplit}
    (h : computeDaySplit c date streams (startLedger c streams z) = some ds) :
    ds.doc.read.core = ds.core := by
  obtain ⟨d, hd, hlen, rfl⟩ := computeDaySplit_eq_splitDay h
  refine DaySplit.read_doc ?_ ?_
  · rw [splitDay_wh_ids hlen, hd]
    exact hids
  · rw [splitDay_endLedger]
    exact endLedger_inv _ _ (foldDays_inv c streams _ z)

theorem split_writeSplitCache (date date' : DateStr) (ds : DaySplit) (c : Card) :
    (writeSplitCache date ds c).split date' = if date' = date then some ds.doc else c.split date' :=
  Function.update_apply _ _ _ _

section Right

variable {len : TextLength} {streams : List Stream} {c : Card}

/-- What the cache answers is what computing afresh would. -/
theorem RightCard.readSplitCache (h : RightCard streams c) (hids : DistinctLoads streams)
    {date : DateStr} {z : ℤ} (hz : dayOf date = some z) {ds : DaySplit}
    (hds : readSplitCache len c date = some ds) :
    (computeDaySplit c.toInputs date streams (startLedger c.toInputs streams z)).map (·.core)
      = some ds.core := by
  obtain ⟨doc, hdoc, hread⟩ := Option.bind_eq_some_iff.mp hds
  obtain ⟨z', hz', ds', hcompute, rfl⟩ := h.split date doc hdoc
  obtain rfl := Option.some.inj (hz'.symm.trans hz)
  split at hread
  · obtain rfl := Option.some.inj hread
    rw [hcompute, Option.map_some, read_doc_of_compute hids hcompute]
  · exact nomatch hread

/-- Noting a right start keeps the card right. -/
theorem RightCard.splitFrom (h : RightCard streams c) {date : DateStr} {z : ℤ}
    (hz : dayOf date = some z) :
    RightCard streams
      (splitFrom date streams (startLedger c.toInputs streams z) c).2 where
  split := h.split
  starts p hp z' hz' := by
    rcases List.mem_append.mp hp with hold | hnew
    · exact h.starts p hold z' hz'
    · rw [List.mem_singleton.mp hnew] at hz' ⊢
      rw [Option.some.inj (hz.symm.trans hz')]
      rfl

/-- Caching the right split keeps the card right. -/
theorem RightCard.writeSplitCache (h : RightCard streams c) {date : DateStr} {z : ℤ}
    (hz : dayOf date = some z) {ds : DaySplit}
    (hds : computeDaySplit c.toInputs date streams (startLedger c.toInputs streams z) = some ds) :
    RightCard streams (writeSplitCache date ds c) where
  split date' doc hdoc := by
    rw [split_writeSplitCache] at hdoc
    split at hdoc
    · rename_i hdate
      rw [hdate]
      exact ⟨z, hz, ds, hds, (Option.some.inj hdoc).symm⟩
    · exact h.split date' doc hdoc
  starts := h.starts

/-- Without a cache to read, `day_split` computes the split, notes its start, and caches it unless
the day is today. -/
theorem daySplit_of_fresh {date : DateStr} {isToday : Bool}
    (hread : (if isToday then none else NodePowerLogger.readSplitCache len c date) = none)
    (start : BatteryLedger) :
    NodePowerLogger.daySplit len date isToday streams start c =
      (computeDaySplit c.toInputs date streams start,
        if isToday then (NodePowerLogger.splitFrom date streams start c).2
        else (computeDaySplit c.toInputs date streams start).elim
          (NodePowerLogger.splitFrom date streams start c).2
          (NodePowerLogger.writeSplitCache date ·
            (NodePowerLogger.splitFrom date streams start c).2)) := by
  unfold NodePowerLogger.daySplit NodePowerLogger.splitFrom
  rw [hread]
  cases computeDaySplit c.toInputs date streams start with
  | none => rw [Option.elim_none, ite_self]
  | some ds => rfl

variable (len) in
/-- `day_split` from the start ledger answers the right split and keeps the card right. -/
theorem RightCard.daySplit (h : RightCard streams c) (hids : DistinctLoads streams) (isToday : Bool)
    {date : DateStr} {z : ℤ} (hz : dayOf date = some z) :
    let start := startLedger c.toInputs streams z
    let r := daySplit len date isToday streams start c
    r.1.map (·.core) = (computeDaySplit c.toInputs date streams start).map (·.core) ∧
      r.2.toInputs = c.toInputs ∧ RightCard streams r.2 := by
  dsimp only
  cases hread : (if isToday then none else NodePowerLogger.readSplitCache len c date) with
  | some ds =>
    have hread' : NodePowerLogger.readSplitCache len c date = some ds := by
      cases isToday
      · exact hread
      · exact nomatch hread
    unfold NodePowerLogger.daySplit
    rw [hread]
    exact ⟨(h.readSplitCache hids hz hread').symm, rfl, h⟩
  | none =>
    have hright := h.splitFrom hz
    rw [daySplit_of_fresh hread]
    refine ⟨rfl, ?_⟩
    dsimp only
    split
    · exact ⟨rfl, hright⟩
    · cases hcompute :
        computeDaySplit c.toInputs date streams (startLedger c.toInputs streams z) with
      | none => exact ⟨rfl, hright⟩
      | some ds => exact ⟨rfl, hright.writeSplitCache hz hcompute⟩

/-- The walk of `ledger_before` stops at a day that is cached or has no grid data. -/
def Stops (len : TextLength) (c : Card) (z : ℤ) : Prop :=
  (readSplitCache len c (dateStr z)).isSome ∨ (c.grid (dateStr z)).isNone

instance (z : ℤ) : Decidable (Stops len c z) := inferInstanceAs (Decidable (_ ∨ _))

theorem not_stops {z : ℤ} :
    ¬ Stops len c z ↔ readSplitCache len c (dateStr z) = none ∧ ¬ (c.grid (dateStr z)).isNone := by
  rw [Stops, not_or, Bool.not_eq_true, Option.isSome_eq_false_iff, Option.isNone_iff_eq_none]

/-- The walk back from day `z` stops before it gives up. -/
def WithinReach (len : TextLength) (c : Card) (depth : ℕ) (z : ℤ) : Prop :=
  ∃ j < depth + 1, Stops len c (z - 1 - j)

instance (depth : ℕ) (z : ℤ) : Decidable (WithinReach len c depth z) :=
  inferInstanceAs (Decidable (∃ _ < _, _))

theorem withinReach_zero {z : ℤ} : WithinReach len c 0 z ↔ Stops len c (z - 1) := by
  constructor
  · rintro ⟨j, hj, hstop⟩
    obtain rfl : j = 0 := by omega
    rwa [Nat.cast_zero, sub_zero] at hstop
  · intro hstop
    refine ⟨0, Nat.one_pos, ?_⟩
    rwa [Nat.cast_zero, sub_zero]

theorem withinReach_succ {depth : ℕ} {z : ℤ} :
    WithinReach len c (depth + 1) z ↔ Stops len c (z - 1) ∨ WithinReach len c depth (z - 1) := by
  have hshift : ∀ j : ℕ, z - 1 - ((j + 1 : ℕ) : ℤ) = z - 1 - 1 - j := by
    intro j
    push_cast
    ring
  constructor
  · rintro ⟨j, hj, hstop⟩
    cases j with
    | zero =>
      rw [Nat.cast_zero, sub_zero] at hstop
      exact Or.inl hstop
    | succ j =>
      rw [hshift] at hstop
      exact Or.inr ⟨j, by omega, hstop⟩
  · rintro (hstop | ⟨j, hj, hstop⟩)
    · refine ⟨0, by omega, ?_⟩
      rwa [Nat.cast_zero, sub_zero]
    · refine ⟨j + 1, by omega, ?_⟩
      rwa [hshift]

/-- A day without grid data before it starts from the unknown ledger. -/
theorem startLedger_of_gap {z : ℤ} (h : Dated (z - 1)) (hgap : c.grid (dateStr (z - 1)) = none) :
    startLedger c.toInputs streams z = .unknown := by
  have hsucc := startLedger_succ c.toInputs streams h
  have hnone : ¬ (c.grid (dateStr (z - 1))).isSome := by
    rw [hgap]
    exact Bool.false_ne_true
  rwa [sub_add_cancel, daySplitOf, computeDaySplit_of_gap h hnone] at hsucc

/-- The start ledger is the end ledger of the right split of the day before. -/
theorem startLedger_of_core {z : ℤ} (h : Dated (z - 1)) {r : Option DaySplit}
    (hr : r.map (·.core) = (daySplitOf c.toInputs streams (z - 1)).map (·.core)) :
    r.elim .unknown (·.endLedger) = startLedger c.toInputs streams z := by
  have hsucc := startLedger_succ c.toInputs streams h
  rw [sub_add_cancel] at hsucc
  rw [hsucc]
  have helim : ∀ r : Option DaySplit, r.elim .unknown (·.endLedger)
      = (r.map (·.core)).elim BatteryLedger.unknown (·.2) := by
    intro r
    cases r <;> rfl
  rw [helim, helim, hr]

/-- Of the days of a longer walk, the ones after the first. -/
theorem Dated.sub_one {z : ℤ} {depth : ℕ} (hfirst : Dated (z - 1 - (depth + 1 : ℕ)))
    (hlast : Dated (z - 1)) : Dated (z - 1 - 1 - depth) ∧ Dated (z - 1 - 1) := by
  have hfirst' : Dated (z - 1 - 1 - depth) := by
    rwa [show z - 1 - ((depth + 1 : ℕ) : ℤ) = z - 1 - 1 - depth by push_cast; ring] at hfirst
  exact ⟨hfirst', hfirst'.of_mem hlast (by omega)⟩

/-! ## One day of the walk -/

/-- A pass looks at the day before the date. -/
theorem ledgerBefore_eq (depth : ℕ) {date : DateStr} {z : ℤ} (hz : dayOf date = some z) :
    ledgerBefore len streams depth date c =
      match NodePowerLogger.readSplitCache len c (dateStr (z - 1)), depth with
      | some ds, _ => (ds.endLedger, c)
      | none, 0 => (.unknown, c)
      | none, depth + 1 =>
        if (c.grid (dateStr (z - 1))).isNone then (.unknown, c)
        else
          let before := ledgerBefore len streams depth (dateStr (z - 1)) c
          let r := NodePowerLogger.daySplit len (dateStr (z - 1)) false streams before.1 before.2
          (r.1.elim .unknown (·.endLedger), r.2) := by
  obtain ⟨t, ht, rfl⟩ := Option.map_eq_some_iff.mp hz
  rw [ledgerBefore.eq_def]
  dsimp only
  rw [ht]
  dsimp only
  rw [stepDate_eq, ← sub_eq_add_neg]
  cases NodePowerLogger.readSplitCache len c (dateStr (localDay t - 1)) <;> cases depth <;> rfl

/-- A cached day ends the walk. -/
theorem ledgerBefore_of_read (depth : ℕ) {date : DateStr} {z : ℤ} (hz : dayOf date = some z)
    {ds : DaySplit} (hread : NodePowerLogger.readSplitCache len c (dateStr (z - 1)) = some ds) :
    ledgerBefore len streams depth date c = (ds.endLedger, c) := by
  rw [ledgerBefore_eq _ hz, hread]

/-- A day that is not cached is out of reach at depth 0. -/
theorem ledgerBefore_zero {date : DateStr} {z : ℤ} (hz : dayOf date = some z)
    (hread : NodePowerLogger.readSplitCache len c (dateStr (z - 1)) = none) :
    ledgerBefore len streams 0 date c = (.unknown, c) := by
  rw [ledgerBefore_eq _ hz, hread]

/-- Further from the end, it is split from the ledger before it if it has grid data. -/
theorem ledgerBefore_succ {depth : ℕ} {date : DateStr} {z : ℤ} (hz : dayOf date = some z)
    (hread : NodePowerLogger.readSplitCache len c (dateStr (z - 1)) = none) :
    ledgerBefore len streams (depth + 1) date c =
      if (c.grid (dateStr (z - 1))).isNone then (.unknown, c)
      else
        let before := ledgerBefore len streams depth (dateStr (z - 1)) c
        let r := NodePowerLogger.daySplit len (dateStr (z - 1)) false streams before.1 before.2
        (r.1.elim .unknown (·.endLedger), r.2) := by
  rw [ledgerBefore_eq _ hz, hread]

/-- A walk that stops at the day before finds that day's end ledger. -/
theorem RightCard.ledgerBefore_of_stops (h : RightCard streams c) (hids : DistinctLoads streams)
    (depth : ℕ) {date : DateStr} {z : ℤ} (hz : dayOf date = some z) (hlast : Dated (z - 1))
    (hstop : Stops len c (z - 1)) :
    NodePowerLogger.ledgerBefore len streams depth date c
      = (startLedger c.toInputs streams z, c) := by
  cases hread : NodePowerLogger.readSplitCache len c (dateStr (z - 1)) with
  | some ds =>
    have hcore := h.readSplitCache hids (dayOf_dateStr hlast) hread
    rw [ledgerBefore_of_read depth hz hread, ← startLedger_of_core (r := some ds) hlast hcore.symm,
      Option.elim_some]
  | none =>
    have hgap : (c.grid (dateStr (z - 1))).isNone := by
      rcases hstop with hsome | hgap
      · rw [hread] at hsome
        exact nomatch hsome
      · exact hgap
    rw [startLedger_of_gap hlast (Option.isNone_iff_eq_none.mp hgap)]
    cases depth with
    | zero => exact ledgerBefore_zero hz hread
    | succ depth => rw [ledgerBefore_succ hz hread, if_pos hgap]

/-- `ledger_before` finds the start ledger, if its walk stops in time. -/
theorem RightCard.ledgerBefore (hids : DistinctLoads streams) (depth : ℕ) {date : DateStr} {z : ℤ}
    (h : RightCard streams c) (hz : dayOf date = some z) (hfirst : Dated (z - 1 - depth))
    (hlast : Dated (z - 1)) (hreach : WithinReach len c depth z) :
    let r := ledgerBefore len streams depth date c
    r.1 = startLedger c.toInputs streams z ∧ r.2.toInputs = c.toInputs ∧ RightCard streams r.2 := by
  dsimp only
  induction depth generalizing date z with
  | zero =>
    rw [h.ledgerBefore_of_stops hids 0 hz hlast (withinReach_zero.mp hreach)]
    exact ⟨rfl, rfl, h⟩
  | succ depth ih =>
    by_cases hstop : Stops len c (z - 1)
    · rw [h.ledgerBefore_of_stops hids (depth + 1) hz hlast hstop]
      exact ⟨rfl, rfl, h⟩
    -- the walk goes on from the day before
    obtain ⟨hread, hgrid⟩ := not_stops.mp hstop
    obtain ⟨hfirst', hlast'⟩ := Dated.sub_one hfirst hlast
    have hday := dayOf_dateStr hlast
    obtain ⟨hbefore, hinputs, hright⟩ :=
      ih hday hfirst' hlast' ((withinReach_succ.mp hreach).resolve_left hstop)
    obtain ⟨hcore, hinputs', hright'⟩ := hright.daySplit len hids false hday
    rw [hinputs] at hcore hinputs' hright'
    rw [ledgerBefore_succ hz hread, if_neg hgrid]
    dsimp only
    rw [hbefore]
    exact ⟨startLedger_of_core hlast hcore, hinputs', hright'⟩

/-! ## Walks that give up -/

variable (len) in
/-- `day_split` writes one cache only. -/
theorem daySplit_frame (date : DateStr) (isToday : Bool) (start : BatteryLedger) (c : Card) :
    let r := NodePowerLogger.daySplit len date isToday streams start c
    r.2.toInputs = c.toInputs ∧ ∀ date', date' ≠ date → r.2.split date' = c.split date' := by
  dsimp only
  cases hread : (if isToday then none else NodePowerLogger.readSplitCache len c date) with
  | some ds =>
    unfold NodePowerLogger.daySplit
    rw [hread]
    exact ⟨rfl, fun _ _ => rfl⟩
  | none =>
    rw [daySplit_of_fresh hread]
    dsimp only
    split
    · exact ⟨rfl, fun _ _ => rfl⟩
    · cases computeDaySplit c.toInputs date streams start with
      | none => exact ⟨rfl, fun _ _ => rfl⟩
      | some ds => exact ⟨rfl, fun date' hne => Function.update_of_ne hne _ _⟩

/-- Without a readable cache the split is computed. -/
theorem daySplit_of_not_read {date : DateStr} (h : NodePowerLogger.readSplitCache len c date = none)
    (start : BatteryLedger) :
    (NodePowerLogger.daySplit len date false streams start c).1
      = computeDaySplit c.toInputs date streams start := by
  rw [daySplit_of_fresh (by rwa [if_neg Bool.false_ne_true])]

variable (len streams c) in
/-- A walk back from a day leaves the caches from that day on alone. -/
theorem ledgerBefore_frame (depth : ℕ) {date : DateStr} {z : ℤ} (hz : dayOf date = some z)
    (hfirst : Dated (z - 1 - depth)) (hlast : Dated (z - 1)) :
    let r := NodePowerLogger.ledgerBefore len streams depth date c
    r.2.toInputs = c.toInputs ∧
      ∀ y, z ≤ y → Dated y → r.2.split (dateStr y) = c.split (dateStr y) := by
  dsimp only
  induction depth generalizing date z with
  | zero =>
    cases hread : NodePowerLogger.readSplitCache len c (dateStr (z - 1)) with
    | some ds =>
      rw [ledgerBefore_of_read 0 hz hread]
      exact ⟨rfl, fun _ _ _ => rfl⟩
    | none =>
      rw [ledgerBefore_zero hz hread]
      exact ⟨rfl, fun _ _ _ => rfl⟩
  | succ depth ih =>
    cases hread : NodePowerLogger.readSplitCache len c (dateStr (z - 1)) with
    | some ds =>
      rw [ledgerBefore_of_read (depth + 1) hz hread]
      exact ⟨rfl, fun _ _ _ => rfl⟩
    | none =>
      rw [ledgerBefore_succ hz hread]
      split
      · exact ⟨rfl, fun _ _ _ => rfl⟩
      · obtain ⟨hfirst', hlast'⟩ := Dated.sub_one hfirst hlast
        obtain ⟨hinputs, hsplit⟩ := ih (dayOf_dateStr hlast) hfirst' hlast'
        refine ⟨(daySplit_frame len _ _ _ _).1.trans hinputs, fun y hy hdated => ?_⟩
        have hne : dateStr y ≠ dateStr (z - 1) := by
          intro heq
          have := dateStr_injective hdated hlast heq
          omega
        rw [(daySplit_frame len _ _ _ _).2 _ hne]
        exact hsplit y (by omega) hdated

variable (len streams c) in
/-- A walk that gives up starts from the days that it came past alone. -/
theorem ledgerBefore_of_not_withinReach (depth : ℕ) {date : DateStr} {z : ℤ}
    (hz : dayOf date = some z) (hfirst : Dated (z - 1 - depth)) (hlast : Dated (z - 1))
    (hreach : ¬ WithinReach len c depth z) :
    (NodePowerLogger.ledgerBefore len streams depth date c).1
      = foldDays c.toInputs streams depth z := by
  induction depth generalizing date z with
  | zero =>
    obtain ⟨hread, -⟩ := not_stops.mp (mt withinReach_zero.mpr hreach)
    rw [ledgerBefore_zero hz hread, foldDays]
  | succ depth ih =>
    obtain ⟨hfirst', hlast'⟩ := Dated.sub_one hfirst hlast
    obtain ⟨hstop, hreach'⟩ := not_or.mp (mt withinReach_succ.mpr hreach)
    obtain ⟨hread, hgrid⟩ := not_stops.mp hstop
    have hday := dayOf_dateStr hlast
    obtain ⟨hinputs, hsplit⟩ := ledgerBefore_frame len streams c depth hday hfirst' hlast'
    have hread' : NodePowerLogger.readSplitCache len
        (NodePowerLogger.ledgerBefore len streams depth (dateStr (z - 1)) c).2
        (dateStr (z - 1)) = none := by
      unfold NodePowerLogger.readSplitCache
      rw [hsplit _ le_rfl hlast]
      exact hread
    rw [ledgerBefore_succ hz hread, if_neg hgrid]
    dsimp only
    rw [daySplit_of_not_read hread', hinputs, foldDays, ih hday hfirst' hlast' hreach']

end Right

end HomeEnergyManager.NodePowerLogger
