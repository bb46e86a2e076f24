import HomeEnergyManager.PowerLogger.Queries
import HomeEnergyManager.PowerLogger.StartLedger
import HomeEnergyManager.Time.DateOrder

/-! # Recomputing the caches from a date on

`node_power_logger_recompute_from` drops the caches from a date up to yesterday and rebuilds them in
order. The date is named by the text that was given; the days after it are named by `date_add`. The
rebuilding is a chain: each day's split starts from the ledger that the one before it ends with.

Reference: `firmware/main/node_power_logger.cpp`.
-/

namespace HomeEnergyManager.NodePowerLogger

/-- `date_add`. -/
def dateAdd (date : DateStr) (offset : ℤ) : Option DateStr :=
  (localDayStart date).map fun t => stepDate t offset

/-- Both caches of a date are unlinked. -/
def dropDay (c : Card) (date : DateStr) : Card :=
  { c with cost := Function.update c.cost date none, split := Function.update c.split date none }

/-- The most days that are recomputed at once. -/
def kMaxRecomputeDays : ℕ := 60

/-- The days up to yesterday and the card without their caches; no days when it returns -1. -/
def dropDays (today : DateStr) : ℕ → DateStr → Card → Option (List DateStr) × Card
  | room, d, c =>
    if d < today then
      match room with
      | 0 => (none, c)
      | room + 1 =>
        match dateAdd d 1 with
        | none => (none, dropDay c d)
        | some next =>
          let rest := dropDays today room next (dropDay c d)
          (rest.1.map (d :: ·), rest.2)
    else (some [], c)

/-- The locals of the loop that rebuilds. -/
structure RecomputeState where
  card : Card
  ledger : BatteryLedger
  done : ℤ := 0

/-- One pass of the loop. -/
def recomputeDay (len : TextLength) (streams : List Stream) (st : RecomputeState) (day : DateStr) :
    RecomputeState :=
  let cost := dayCost len day false streams true st.card
  let split := daySplit len day false streams st.ledger cost.2
  { card := split.2
    -- without grid data the battery's history is lost
    ledger := split.1.elim .unknown (·.endLedger)
    done := if split.1.isSome then st.done + 1 else st.done }

/-- `node_power_logger_recompute_from`, for a text that is not null. -/
def recomputeFrom (len : TextLength) (streams : List Stream) (now : ℤ) (date : DateStr) (c : Card) :
    ℤ × Card :=
  if sanitizeToken date && date.length == 10 && (localDayStart date).isSome then
    match dropDays (dateStr (localDay now)) kMaxRecomputeDays date c with
    | (none, c) => (-1, c)
    | (some [], c) => (0, c)
    | (some (day :: days), c) =>
      let before := ledgerBefore len streams kLedgerDepth day c
      let st := (day :: days).foldl (recomputeDay len streams)
        { card := before.2, ledger := before.1 }
      (st.done, st.card)
  else (-1, c)

/-! ## Dropping the caches -/

/-- The tokens of the `n` days from `z` on. -/
def dayTokens (z : ℤ) (n : ℕ) : List DateStr := (List.range n).map fun (i : ℕ) => dateStr (z + i)

theorem dayTokens_succ (z : ℤ) (n : ℕ) :
    dayTokens z (n + 1) = dateStr z :: dayTokens (z + 1) n := by
  unfold dayTokens
  rw [List.range_succ_eq_map, List.map_cons, List.map_map]
  refine List.cons_eq_cons.mpr ⟨congrArg dateStr (by simp), List.map_congr_left fun i _ => ?_⟩
  dsimp only [Function.comp]
  congr 1
  push_cast
  ring

theorem mem_dayTokens {z : ℤ} {n : ℕ} {date : DateStr} :
    date ∈ dayTokens z n ↔ ∃ y, z ≤ y ∧ y < z + n ∧ date = dateStr y := by
  unfold dayTokens
  rw [List.mem_map]
  constructor
  · rintro ⟨i, hi, rfl⟩
    rw [List.mem_range] at hi
    exact ⟨z + i, by omega, by omega, rfl⟩
  · rintro ⟨y, hle, hlt, rfl⟩
    exact ⟨(y - z).toNat, List.mem_range.mpr (by omega), congrArg dateStr (by omega)⟩

/-- A day is not among others. -/
theorem dateStr_not_mem_dayTokens {z y : ℤ} {n : ℕ} (hy : Dated y) (hfirst : 0 < n → Dated z)
    (hlast : 0 < n → Dated (z + n - 1)) (hout : y < z ∨ z + n ≤ y) :
    dateStr y ∉ dayTokens z n := by
  rw [mem_dayTokens]
  rintro ⟨y', hle, hlt, heq⟩
  have hn : 0 < n := by omega
  have hy' : Dated y' := (hfirst hn).of_mem (hlast hn) (by omega)
  have := dateStr_injective hy hy' heq
  omega

theorem dateAdd_one {date : DateStr} {z : ℤ} (hz : dayOf date = some z) :
    dateAdd date 1 = some (dateStr (z + 1)) := by
  obtain ⟨t, ht, rfl⟩ := Option.map_eq_some_iff.mp hz
  rw [dateAdd, ht, Option.map_some, stepDate_eq]

section Drop

variable {today date : DateStr} {c : Card}

theorem dropDays_of_not_lt (h : ¬ date < today) (room : ℕ) :
    dropDays today room date c = (some [], c) := by
  rw [dropDays.eq_def]
  exact if_neg h

theorem dropDays_zero (h : date < today) : dropDays today 0 date c = (none, c) := by
  rw [dropDays.eq_def]
  exact if_pos h

theorem dropDays_succ (h : date < today) {next : DateStr} (hnext : dateAdd date 1 = some next)
    (room : ℕ) :
    dropDays today (room + 1) date c =
      ((dropDays today room next (dropDay c date)).1.map (date :: ·),
        (dropDays today room next (dropDay c date)).2) := by
  rw [dropDays.eq_def]
  dsimp only
  rw [if_pos h, hnext]

/-- The days that are dropped: the text itself and the days after the one that it stands for. -/
theorem dropDays_fst {z₀ : ℤ} (hz₀ : Dated z₀) (room : ℕ) {z : ℤ} (hz : dayOf date = some z)
    (hnext : Dated (z + 1)) (hdate : date < dateStr z₀) :
    (dropDays (dateStr z₀) room date c).1 =
      if (z₀ - (z + 1)).toNat < room then
        some (date :: dayTokens (z + 1) (z₀ - (z + 1)).toNat)
      else none := by
  induction room generalizing date z c with
  | zero => rw [dropDays_zero hdate, if_neg (Nat.not_lt_zero _)]
  | succ room ih =>
    rw [dropDays_succ hdate (dateAdd_one hz)]
    by_cases hmore : z + 1 < z₀
    · have hcount : (z₀ - (z + 1)).toNat = (z₀ - (z + 1 + 1)).toNat + 1 := by omega
      have hnext' : Dated (z + 1 + 1) := hnext.of_mem hz₀ (by omega)
      rw [ih (dayOf_dateStr hnext) hnext' ((dateStr_lt_iff hnext hz₀).mpr hmore), hcount,
        dayTokens_succ]
      split
      · rw [if_pos (by omega), Option.map_some]
      · rw [if_neg (by omega), Option.map_none]
    · have hcount : (z₀ - (z + 1)).toNat = 0 := by omega
      have hstop : ¬ dateStr (z + 1) < dateStr z₀ := by rwa [dateStr_lt_iff hnext hz₀]
      rw [dropDays_of_not_lt hstop, hcount, if_pos (Nat.succ_pos room)]
      rfl

/-- The card is then without their caches. -/
theorem dropDays_snd (room : ℕ) {days : List DateStr}
    (h : (dropDays today room date c).1 = some days) :
    (dropDays today room date c).2 = days.foldl dropDay c := by
  induction room generalizing date c days with
  | zero =>
    by_cases hdate : date < today
    · rw [dropDays_zero hdate] at h
      exact nomatch h
    · rw [dropDays_of_not_lt hdate] at h ⊢
      rw [← Option.some.inj h]
      rfl
  | succ room ih =>
    by_cases hdate : date < today
    · cases hnext : dateAdd date 1 with
      | none =>
        rw [dropDays.eq_def] at h
        dsimp only at h
        rw [if_pos hdate, hnext] at h
        exact nomatch h
      | some next =>
        rw [dropDays_succ hdate hnext] at h ⊢
        obtain ⟨rest, hrest, rfl⟩ := Option.map_eq_some_iff.mp h
        exact ih hrest
    · rw [dropDays_of_not_lt hdate] at h ⊢
      rw [← Option.some.inj h]
      rfl

end Drop

/-- Dropping days leaves everything but their caches. -/
theorem foldl_dropDay (days : List DateStr) (c : Card) :
    days.foldl dropDay c = { c with
      cost := fun date => if date ∈ days then none else c.cost date
      split := fun date => if date ∈ days then none else c.split date } := by
  induction days generalizing c with
  | nil => rfl
  | cons d days ih =>
    have hupdate : ∀ {α : Type} (f : DateStr → Option α) (date : DateStr),
        (if date ∈ days then none else Function.update f d none date)
          = if date ∈ d :: days then none else f date := by
      intro α f date
      rw [Function.update_apply]
      by_cases hdate : date = d <;> by_cases hmem : date ∈ days <;> simp [hdate, hmem]
    rw [List.foldl_cons, ih]
    unfold dropDay
    dsimp only
    congr 1 <;> funext date <;> apply hupdate

/-! ## Rebuilding them -/

/-- The cached splits after the days were split one after the other, from the ledger `L` on. -/
def chainSplits (c : Inputs) (streams : List Stream) :
    BatteryLedger → List DateStr → (DateStr → Option SplitDoc) → DateStr → Option SplitDoc
  | _, [], split => split
  | L, day :: days, split =>
    let ds := computeDaySplit c day streams L
    chainSplits c streams (ds.elim .unknown (·.endLedger)) days
      (Function.update split day (ds.map (·.doc)))

section Rebuild

variable {len : TextLength} {streams : List Stream}

/-- Without a cache the cost is computed and cached. -/
theorem dayCost_of_none {c : Card} {day : DateStr} (h : c.cost day = none) :
    dayCost len day false streams true c = (computeDayCost c.toInputs day streams,
      { c with cost := Function.update c.cost day (computeDayCost c.toInputs day streams) }) := by
  have hself : Function.update c.cost day none = c.cost :=
    (congrArg (Function.update c.cost day) h.symm).trans (Function.update_eq_self day c.cost)
  unfold dayCost readCostCache
  rw [if_neg Bool.false_ne_true, h, Option.bind_none]
  cases computeDayCost c.toInputs day streams with
  | none => rw [hself]
  | some dc => rfl

/-- Without a cache the split is computed and cached. -/
theorem daySplit_of_none {c : Card} {day : DateStr} (h : c.split day = none) (L : BatteryLedger) :
    daySplit len day false streams L c = (computeDaySplit c.toInputs day streams L,
      { c with
        split := Function.update c.split day
          ((computeDaySplit c.toInputs day streams L).map (·.doc))
        starts := c.starts ++ [(day, L)] }) := by
  have hself : Function.update c.split day none = c.split :=
    (congrArg (Function.update c.split day) h.symm).trans (Function.update_eq_self day c.split)
  have hread : (if false then none else readSplitCache len c day) = none := by
    unfold readSplitCache
    rw [if_neg Bool.false_ne_true, h, Option.bind_none]
  rw [daySplit_of_fresh hread, if_neg Bool.false_ne_true]
  cases computeDaySplit c.toInputs day streams L with
  | none =>
    rw [Option.map_none, hself]
    rfl
  | some ds => rfl

variable (len streams) in
/-- A day without caches is computed afresh, and its caches are all that changes. -/
theorem recomputeDay_spec {st : RecomputeState} {day : DateStr}
    (hcost : st.card.cost day = none) (hsplit : st.card.split day = none) :
    let ds := computeDaySplit st.card.toInputs day streams st.ledger
    (recomputeDay len streams st day).ledger = ds.elim .unknown (·.endLedger) ∧
      ∃ starts, (recomputeDay len streams st day).card = { st.card with
        cost := Function.update st.card.cost day (computeDayCost st.card.toInputs day streams)
        split := Function.update st.card.split day (ds.map (·.doc))
        starts := starts } := by
  dsimp only
  unfold recomputeDay
  dsimp only
  rw [dayCost_of_none hcost]
  dsimp only
  rw [daySplit_of_none (by exact hsplit)]
  exact ⟨rfl, _, rfl⟩

variable (len streams) in
/-- The days without caches that are rebuilt one after the other. -/
theorem recomputeDays_spec {days : List DateStr} (hnodup : days.Nodup) (st : RecomputeState)
    (hnone : ∀ day ∈ days, st.card.cost day = none ∧ st.card.split day = none) :
    ∃ starts, (days.foldl (recomputeDay len streams) st).card = { st.card with
      cost := fun date =>
        if date ∈ days then computeDayCost st.card.toInputs date streams else st.card.cost date
      split := chainSplits st.card.toInputs streams st.ledger days st.card.split
      starts := starts } := by
  induction days generalizing st with
  | nil => exact ⟨st.card.starts, rfl⟩
  | cons day days ih =>
    obtain ⟨hday, hdays⟩ := List.nodup_cons.mp hnodup
    obtain ⟨hcost, hsplit⟩ := hnone day List.mem_cons_self
    obtain ⟨hledger, starts, hcard⟩ := recomputeDay_spec len streams hcost hsplit
    -- the days that follow still have no caches
    have hnone' : ∀ d ∈ days, (recomputeDay len streams st day).card.cost d = none ∧
        (recomputeDay len streams st day).card.split d = none := by
      intro d hd
      have hne : d ≠ day := fun heq => hday (heq ▸ hd)
      rw [hcard]
      dsimp only
      rw [Function.update_of_ne hne, Function.update_of_ne hne]
      exact hnone d (List.mem_cons_of_mem day hd)
    obtain ⟨starts', hrest⟩ := ih hdays _ hnone'
    refine ⟨starts', ?_⟩
    rw [List.foldl_cons, hrest, hledger, hcard]
    dsimp only [chainSplits]
    congr 1
    funext date
    rw [Function.update_apply]
    by_cases hdate : date = day
    · subst hdate
      rw [if_neg hday, if_pos rfl, if_pos List.mem_cons_self]
    · simp only [List.mem_cons, hdate, false_or, if_false]

/-- Which caches there were of the days themselves makes no difference to the rebuilt ones. -/
theorem chainSplits_congr (c : Inputs) {days : List DateStr} {L : BatteryLedger}
    {split split' : DateStr → Option SplitDoc} {date : DateStr}
    (h : date ∉ days → split date = split' date) :
    chainSplits c streams L days split date = chainSplits c streams L days split' date := by
  induction days generalizing L split split' with
  | nil => exact h List.not_mem_nil
  | cons day days ih =>
    refine ih fun hdate => ?_
    rw [Function.update_apply, Function.update_apply]
    split
    · rfl
    · rename_i hne
      refine h fun hmem => ?_
      rcases List.mem_cons.mp hmem with rfl | hmem'
      · exact hne rfl
      · exact hdate hmem'

/-- The other days keep their caches. -/
theorem chainSplits_of_not_mem (c : Inputs) {days : List DateStr} {L : BatteryLedger}
    {split : DateStr → Option SplitDoc} {date : DateStr} (h : date ∉ days) :
    chainSplits c streams L days split date = split date := by
  induction days generalizing L split with
  | nil => rfl
  | cons day days ih =>
    rw [List.mem_cons, not_or] at h
    rw [chainSplits, ih h.2, Function.update_of_ne h.1]

end Rebuild

end HomeEnergyManager.NodePowerLogger
