import Mathlib.Tactic.Linarith

/-! # The Gregorian calendar

Days are counted from 1970-01-01. A year of this calendar starts in March, so that the leap day is
the last of its year and the months follow one formula.
-/

namespace Civil

/-- A calendar date; months and days count from one. -/
structure Date where
  year : ℤ
  month : ℤ
  day : ℤ
deriving DecidableEq, Repr

/-- The day of 1 March of a year. -/
def marchFirst (y : ℤ) : ℤ := 365 * y + y / 4 - y / 100 + y / 400 - 719468

/-- The days before a month, counted from March as month zero. -/
def daysBefore (mp : ℤ) : ℤ := (153 * mp + 2) / 5

/-- The day of a date. The day of the month may leave its month. -/
def ofDate (c : Date) : ℤ :=
  marchFirst (if c.month ≤ 2 then c.year - 1 else c.year) + daysBefore ((c.month + 9) % 12)
    + (c.day - 1)

/-- The year that starts in March and the day in it. -/
def marchYear (z : ℤ) : ℤ × ℤ :=
  let era := (z + 719468) / 146097
  let doe := (z + 719468) % 146097
  let c := min (doe / 36524) 3
  let q := (doe - 36524 * c) / 1461
  let doq := doe - 36524 * c - 1461 * q
  let r := min (doq / 365) 3
  (400 * era + 100 * c + 4 * q + r, doq - 365 * r)

/-- The date of a day. -/
def toDate (z : ℤ) : Date :=
  let y := (marchYear z).1
  let doy := (marchYear z).2
  let mp := (5 * doy + 2) / 153
  { year := if mp < 10 then y else y + 1
    month := if mp < 10 then mp + 3 else mp - 9
    day := doy - daysBefore mp + 1 }

/-- 0 for Sunday. -/
def weekday (z : ℤ) : ℤ := (z + 4) % 7

/-- The days of a year that starts in March, counted within the 400, 100, 4 and 1 years. -/
theorem marchFirst_eq {era c q r : ℤ} (hc : 0 ≤ c ∧ c ≤ 3) (hq : 0 ≤ q ∧ q ≤ 24)
    (hr : 0 ≤ r ∧ r ≤ 3) :
    marchFirst (400 * era + 100 * c + 4 * q + r)
      = 146097 * era + 36524 * c + 1461 * q + 365 * r - 719468 := by
  unfold marchFirst
  omega

theorem marchFirst_succ_eq {era c q r : ℤ} (hc : 0 ≤ c ∧ c ≤ 3) (hq : 0 ≤ q ∧ q ≤ 24)
    (hr : 0 ≤ r ∧ r ≤ 3) :
    marchFirst (400 * era + 100 * c + 4 * q + r + 1)
      = 146097 * era + 36524 * c + 1461 * q + 365 * r + 365 - 719468
        + (if r = 3 ∧ (q < 24 ∨ c = 3) then 1 else 0) := by
  unfold marchFirst
  split <;> omega

/-- A day is in its year, at its place. -/
theorem marchYear_spec (z : ℤ) :
    marchFirst (marchYear z).1 + (marchYear z).2 = z ∧ z < marchFirst ((marchYear z).1 + 1) ∧
      0 ≤ (marchYear z).2 ∧ (marchYear z).2 ≤ 365 := by
  unfold marchYear
  dsimp only
  set era := (z + 719468) / 146097 with hera
  set doe := (z + 719468) % 146097 with hdoe
  set c := min (doe / 36524) 3 with hc
  have hc' : 0 ≤ c ∧ c ≤ 3 := by omega
  set q := (doe - 36524 * c) / 1461 with hq
  have hq' : 0 ≤ q ∧ q ≤ 24 := by omega
  set r := min ((doe - 36524 * c - 1461 * q) / 365) 3 with hr
  have hr' : 0 ≤ r ∧ r ≤ 3 := by omega
  rw [marchFirst_eq hc' hq' hr', marchFirst_succ_eq hc' hq' hr']
  refine ⟨by omega, ?_, by omega, by omega⟩
  split <;> omega

/-- The months of the year that starts in March tile its days. -/
theorem daysBefore_spec {doy : ℤ} (h : 0 ≤ doy ∧ doy ≤ 365) :
    0 ≤ (5 * doy + 2) / 153 ∧ (5 * doy + 2) / 153 ≤ 11 ∧
      daysBefore ((5 * doy + 2) / 153) ≤ doy ∧ doy ≤ daysBefore ((5 * doy + 2) / 153) + 30 := by
  unfold daysBefore
  omega

theorem toDate_month (z : ℤ) : 1 ≤ (toDate z).month ∧ (toDate z).month ≤ 12 := by
  have h := daysBefore_spec (marchYear_spec z).2.2
  unfold toDate
  dsimp only
  split <;> omega

theorem toDate_day (z : ℤ) : 1 ≤ (toDate z).day ∧ (toDate z).day ≤ 31 := by
  have h := daysBefore_spec (marchYear_spec z).2.2
  unfold toDate
  dsimp only
  omega

/-- A day is the day of its date. -/
@[simp] theorem ofDate_toDate (z : ℤ) : ofDate (toDate z) = z := by
  have hspec := marchYear_spec z
  have hmonth := daysBefore_spec hspec.2.2
  have hmp : ((toDate z).month + 9) % 12 = (5 * (marchYear z).2 + 2) / 153 := by
    unfold toDate
    dsimp only
    split <;> omega
  have hyear : (if (toDate z).month ≤ 2 then (toDate z).year - 1 else (toDate z).year)
      = (marchYear z).1 := by
    unfold toDate
    dsimp only
    split <;> split <;> omega
  rw [ofDate, hmp, hyear]
  unfold toDate
  dsimp only
  omega

theorem toDate_injective : Function.Injective toDate :=
  Function.LeftInverse.injective ofDate_toDate

/-- 1 January of a year. -/
def newYear (y : ℤ) : ℤ := ofDate { year := y, month := 1, day := 1 }

theorem newYear_eq (y : ℤ) : newYear y = marchFirst (y - 1) + 306 := by
  simp [newYear, ofDate, daysBefore]

theorem marchFirst_le_succ (y : ℤ) : marchFirst y + 365 ≤ marchFirst (y + 1) := by
  unfold marchFirst
  omega

/-- A day lies between the new year of its year and the next. -/
theorem year_spec (z : ℤ) :
    newYear (toDate z).year ≤ z ∧ z < newYear ((toDate z).year + 1) := by
  obtain ⟨hz, hlt, hdoy⟩ := marchYear_spec z
  have hmonth := daysBefore_spec hdoy
  have hprev := marchFirst_le_succ ((marchYear z).1 - 1)
  rw [sub_add_cancel] at hprev
  unfold daysBefore at hmonth
  rw [newYear_eq, newYear_eq]
  unfold toDate
  dsimp only
  split
  · rw [add_sub_cancel_right]
    omega
  · rw [add_sub_cancel_right, add_sub_cancel_right]
    omega

theorem newYear_mono {y y' : ℤ} (h : y ≤ y') : newYear y ≤ newYear y' := by
  rw [newYear_eq, newYear_eq]
  unfold marchFirst
  omega

/-- The year is told by the new years around the day. -/
theorem year_eq_iff (z y : ℤ) : (toDate z).year = y ↔ newYear y ≤ z ∧ z < newYear (y + 1) := by
  obtain ⟨hle, hlt⟩ := year_spec z
  constructor
  · rintro rfl
    exact ⟨hle, hlt⟩
  · rintro ⟨hle', hlt'⟩
    by_contra hne
    rcases lt_or_gt_of_ne hne with h | h
    · have := newYear_mono (show (toDate z).year + 1 ≤ y by omega)
      omega
    · have := newYear_mono (show y + 1 ≤ (toDate z).year by omega)
      omega

theorem year_mono {z z' : ℤ} (h : z ≤ z') : (toDate z).year ≤ (toDate z').year := by
  by_contra hlt
  have hmono := newYear_mono (show (toDate z').year + 1 ≤ (toDate z).year by omega)
  have := year_spec z
  have := year_spec z'
  omega

/-- A later day has a later date: the year decides, then the month, then the day. -/
theorem toDate_lt {z z' : ℤ} (h : z < z') :
    (toDate z).year < (toDate z').year ∨
      (toDate z).year = (toDate z').year ∧ ((toDate z).month < (toDate z').month ∨
        (toDate z).month = (toDate z').month ∧ (toDate z).day < (toDate z').day) := by
  rcases lt_or_eq_of_le (year_mono h.le) with hyear | hyear
  · exact Or.inl hyear
  refine Or.inr ⟨hyear, ?_⟩
  obtain ⟨hz, hlt, hdoy⟩ := marchYear_spec z
  obtain ⟨hz', hlt', hdoy'⟩ := marchYear_spec z'
  have hmonth := daysBefore_spec hdoy
  have hmonth' := daysBefore_spec hdoy'
  unfold toDate at hyear ⊢
  dsimp only at hyear ⊢
  unfold daysBefore at *
  -- January and February are at the end of the year before, the other months in their own
  rcases lt_trichotomy (marchYear z).1 (marchYear z').1 with hy | hy | hy
  · split_ifs at hyear ⊢ <;> omega
  · have hday : (marchYear z).2 < (marchYear z').2 := by
      rw [hy] at hz
      omega
    split_ifs at hyear ⊢ <;> omega
  · have hmarch := marchFirst_le_succ (marchYear z').1
    have hmono : marchFirst ((marchYear z').1 + 1) ≤ marchFirst (marchYear z).1 := by
      unfold marchFirst
      omega
    omega

end Civil
