import HomeEnergyManager.PowerLogger.RecomputeConsistent

/-! # Refused recomputations

The loop of `node_power_logger_recompute_from` unlinks the caches of a day before it looks at the
next one, and gives up at the first day too many. The caches of the days before that are then gone,
and nothing is rebuilt.

Reference: `firmware/main/node_power_logger.cpp`.
-/

namespace HomeEnergyManager.NodePowerLogger

/-- A text and the tokens that `date_add` steps to from it, `n` at most. -/
def daysFrom : ℕ → DateStr → List DateStr
  | 0, _ => []
  | n + 1, date => date :: (dateAdd date 1).elim [] (daysFrom n)

theorem daysFrom_succ_of_none {date : DateStr} (h : dateAdd date 1 = none) (n : ℕ) :
    daysFrom (n + 1) date = [date] := by
  rw [daysFrom, h, Option.elim_none]

theorem daysFrom_succ_of_some {date next : DateStr} (h : dateAdd date 1 = some next) (n : ℕ) :
    daysFrom (n + 1) date = date :: daysFrom n next := by
  rw [daysFrom, h, Option.elim_some]

/-- They are the days after the one that the text stands for. -/
theorem daysFrom_eq_dayTokens {date : DateStr} {z : ℤ} (hz : dayOf date = some z) (n : ℕ)
    (hlast : ∀ y, z + 1 ≤ y → y < z + n → Dated y) :
    daysFrom (n + 1) date = date :: dayTokens (z + 1) n := by
  induction n generalizing date z with
  | zero =>
    rw [daysFrom_succ_of_some (dateAdd_one hz)]
    rfl
  | succ n ih =>
    rw [daysFrom_succ_of_some (dateAdd_one hz), dayTokens_succ]
    cases n with
    | zero =>
      cases hnext : dateAdd (dateStr (z + 1)) 1 <;> simp [daysFrom, hnext, dayTokens]
    | succ n =>
      rw [ih (dayOf_dateStr (hlast (z + 1) le_rfl (by push_cast; omega)))
        fun y hle hlt => hlast y (by omega) (by push_cast at hlt ⊢; omega)]

section Refused

variable {today date : DateStr}

/-- The loop gives up exactly if it meets no day from today on. -/
theorem dropDays_eq_none_iff (room : ℕ) (c : Card) :
    (dropDays today room date c).1 = none ↔ ∀ d ∈ daysFrom (room + 1) date, d < today := by
  induction room generalizing date c with
  | zero =>
    have hfirst : (∀ d ∈ daysFrom (0 + 1) date, d < today) ↔ date < today := by
      cases hnext : dateAdd date 1 <;> simp [daysFrom, hnext]
    rw [hfirst]
    by_cases hdate : date < today
    · rw [dropDays_zero hdate]
      exact iff_of_true rfl hdate
    · rw [dropDays_of_not_lt hdate]
      exact iff_of_false nofun hdate
  | succ room ih =>
    by_cases hdate : date < today
    · cases hnext : dateAdd date 1 with
      | none =>
        rw [daysFrom_succ_of_none hnext, dropDays.eq_def]
        dsimp only
        rw [if_pos hdate, hnext]
        exact iff_of_true rfl fun d hd => List.mem_singleton.mp hd ▸ hdate
      | some next =>
        rw [dropDays_succ hdate hnext, daysFrom_succ_of_some hnext, List.forall_mem_cons,
          Option.map_eq_none_iff, ih]
        exact (and_iff_right hdate).symm
    · rw [dropDays_of_not_lt hdate]
      exact iff_of_false nofun fun h => hdate (h date List.mem_cons_self)

/-- By then it has dropped as many days as it has room for. -/
theorem dropDays_snd_of_none (room : ℕ) {c : Card}
    (h : ∀ d ∈ daysFrom (room + 1) date, d < today) :
    (dropDays today room date c).2 = (daysFrom room date).foldl dropDay c := by
  induction room generalizing date c with
  | zero =>
    rw [dropDays_zero (h date List.mem_cons_self)]
    rfl
  | succ room ih =>
    have hdate : date < today := h date List.mem_cons_self
    cases hnext : dateAdd date 1 with
    | none =>
      rw [daysFrom_succ_of_none hnext, dropDays.eq_def]
      dsimp only
      rw [if_pos hdate, hnext]
      rfl
    | some next =>
      rw [daysFrom_succ_of_some hnext] at h ⊢
      rw [dropDays_succ hdate hnext, List.foldl_cons]
      exact ih fun d hd => h d (List.mem_cons_of_mem date hd)

/-- Dropping days keeps the caches exactly if these days have none. -/
theorem foldl_dropDay_keeps_iff (days : List DateStr) (c : Card) :
    (days.foldl dropDay c).cost = c.cost ∧ (days.foldl dropDay c).split = c.split ↔
      ∀ d ∈ days, c.cost d = none ∧ c.split d = none := by
  have hkept : ∀ {α : Type} (f : DateStr → Option α),
      (fun date => if date ∈ days then none else f date) = f ↔ ∀ d ∈ days, f d = none := by
    intro α f
    rw [funext_iff]
    constructor
    · intro h d hd
      rw [← h d, if_pos hd]
    · intro h d
      split
      · rename_i hd
        exact (h d hd).symm
      · rfl
  rw [foldl_dropDay]
  dsimp only
  rw [hkept, hkept, ← forall₂_and]

end Refused

section Call

variable (len : TextLength) (streams : List Stream) (now : ℤ) (date : DateStr) (c : Card)

/-- The texts that the loop is entered with, and that it gives up on. -/
def TooFarBack : Prop :=
  Accepted date ∧ (localDayStart date).isSome ∧
    ∀ d ∈ daysFrom (kMaxRecomputeDays + 1) date, d < dateStr (localDay now)

/-- A text that is refused before the loop leaves the card as it is. -/
theorem recomputeFrom_of_malformed (h : ¬ (Accepted date ∧ (localDayStart date).isSome)) :
    recomputeFrom len streams now date c = (-1, c) := by
  unfold recomputeFrom
  refine if_neg fun hcond => h ?_
  rw [Bool.and_eq_true, Bool.and_eq_true, beq_iff_eq] at hcond
  exact hcond

theorem exists_dayOf (hstart : (localDayStart date).isSome) : ∃ z, dayOf date = some z := by
  rw [← Option.isSome_iff_exists, dayOf, Option.isSome_map]
  exact hstart

/-- A text that the loop gives up on loses the caches of the days that were dropped by then. -/
theorem recomputeFrom_of_tooFarBack (h : TooFarBack now date) :
    recomputeFrom len streams now date c =
      (-1, (daysFrom kMaxRecomputeDays date).foldl dropDay c) := by
  obtain ⟨haccept, hstart, hdays⟩ := h
  obtain ⟨z, hz⟩ := exists_dayOf date hstart
  rw [recomputeFrom_of_accepted haccept hz]
  have hnone := (dropDays_eq_none_iff kMaxRecomputeDays c).mpr hdays
  have hcard := dropDays_snd_of_none kMaxRecomputeDays (c := c) hdays
  generalize dropDays (dateStr (localDay now)) kMaxRecomputeDays date c = r at hnone hcard ⊢
  obtain ⟨days, c'⟩ := r
  obtain rfl : days = none := hnone
  obtain rfl : c' = (daysFrom kMaxRecomputeDays date).foldl dropDay c := hcard
  rfl

/-- No other call is refused. -/
theorem recomputeFrom_nonneg (haccept : Accepted date) (hstart : (localDayStart date).isSome)
    (h : ¬ ∀ d ∈ daysFrom (kMaxRecomputeDays + 1) date, d < dateStr (localDay now)) :
    0 ≤ (recomputeFrom len streams now date c).1 := by
  obtain ⟨z, hz⟩ := exists_dayOf date hstart
  rw [recomputeFrom_of_accepted haccept hz]
  have hsome : (dropDays (dateStr (localDay now)) kMaxRecomputeDays date c).1 ≠ none :=
    fun hnone => h ((dropDays_eq_none_iff kMaxRecomputeDays c).mp hnone)
  generalize dropDays (dateStr (localDay now)) kMaxRecomputeDays date c = r at hsome ⊢
  obtain ⟨days, c'⟩ := r
  cases days with
  | none => exact absurd rfl hsome
  | some days =>
    cases days with
    | nil => exact le_rfl
    | cons day days => exact foldl_recomputeDay_done (day :: days) le_rfl

/-- A refused call leaves the caches as they were. -/
def RefusedUnchanged : Prop :=
  let r := recomputeFrom len streams now date c
  r.1 < 0 → r.2.cost = c.cost ∧ r.2.split = c.split

/-- For any text, any clock and any card: a refused call leaves every cache as it was exactly if the
loop does not give up on the text, or none of the days that it drops by then has a cache. -/
theorem refusedUnchanged_iff :
    RefusedUnchanged len streams now date c ↔
      (TooFarBack now date →
        ∀ d ∈ daysFrom kMaxRecomputeDays date, c.cost d = none ∧ c.split d = none) := by
  unfold RefusedUnchanged
  dsimp only
  by_cases haccept : Accepted date ∧ (localDayStart date).isSome
  · by_cases hfar : ∀ d ∈ daysFrom (kMaxRecomputeDays + 1) date, d < dateStr (localDay now)
    · have htoo : TooFarBack now date := ⟨haccept.1, haccept.2, hfar⟩
      rw [recomputeFrom_of_tooFarBack len streams now date c htoo,
        imp_iff_right (show (-1 : ℤ) < 0 by decide), imp_iff_right htoo]
      exact foldl_dropDay_keeps_iff _ c
    · have hdone := recomputeFrom_nonneg len streams now date c haccept.1 haccept.2 hfar
      exact iff_of_true (fun hneg => absurd hdone (not_le.mpr hneg)) fun htoo =>
        absurd htoo.2.2 hfar
  · rw [recomputeFrom_of_malformed len streams now date c haccept]
    exact iff_of_true (fun _ => ⟨rfl, rfl⟩) fun htoo => absurd ⟨htoo.1, htoo.2.1⟩ haccept

end Call

/-- A card with nothing but the cached split of one day. -/
def splitOnly (z : ℤ) : Card :=
  { gridOnly z with
    grid := fun _ => none
    split := fun date =>
      if date = dateStr z then some { solarKwh := [], gridKwh := [], ledger := .unknown }
      else none }

/-- On 5 March 2024, recomputing from 1 January is refused, and its cached split is gone. -/
theorem refused_drops_january :
    ¬ ∀ (len : TextLength) (streams : List Stream) (now : ℤ) (date : DateStr) (c : Card),
      RefusedUnchanged len streams now date c := by
  intro h
  have hfar : TooFarBack 1709640000 "2024-01-01".toList := by
    have hz : dayOf "2024-01-01".toList = some 19723 := by decide +kernel
    have hjan : Dated 19723 := by decide +kernel
    have hmarch : Dated 19787 := by decide +kernel
    have hnow : localDay 1709640000 = 19787 := by decide +kernel
    refine ⟨by decide, by decide +kernel, ?_⟩
    rw [hnow, daysFrom_eq_dayTokens hz]
    · rw [List.forall_mem_cons]
      refine ⟨by decide +kernel, fun d hd => ?_⟩
      obtain ⟨y, hle, hlt, rfl⟩ := mem_dayTokens.mp hd
      unfold kMaxRecomputeDays at hlt
      exact (dateStr_lt_iff (hjan.of_mem hmarch (by omega)) hmarch).mpr (by omega)
    · intro y hle hlt
      unfold kMaxRecomputeDays at hlt
      exact hjan.of_mem hmarch (by omega)
  have hkept := h shortTexts [] 1709640000 "2024-01-01".toList (splitOnly 19723)
  unfold RefusedUnchanged at hkept
  rw [recomputeFrom_of_tooFarBack _ _ _ _ _ hfar] at hkept
  have hgone := (foldl_dropDay_keeps_iff _ _).mp (hkept (by decide)) "2024-01-01".toList
    List.mem_cons_self
  exact absurd hgone.2 (by decide +kernel)

end HomeEnergyManager.NodePowerLogger
