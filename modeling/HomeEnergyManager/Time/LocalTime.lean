import HomeEnergyManager.Lib.Civil

/-! # Local time

`localtime_r` and `strftime` under the zone that `main.cpp` sets, `GMT0BST,M3.5.0/1,M10.5.0`: one
hour ahead of UTC from the last Sunday of March, 01:00 UTC, to the last Sunday of October, 01:00
UTC. Instants are seconds from 1970-01-01 00:00 UTC.
-/

namespace HomeEnergyManager

open Civil

/-- The fields of `struct tm` that the firmware reads, with the offsets of C: months from zero and
years from 1900. -/
structure Tm where
  sec : ℤ
  min : ℤ
  hour : ℤ
  mday : ℤ
  mon : ℤ
  year : ℤ
  isdst : ℤ
deriving DecidableEq, Repr

def secPerDay : ℤ := 86400

/-- The last Sunday of a month with 31 days. -/
def lastSunday (y m : ℤ) : ℤ :=
  let z := ofDate { year := y, month := m, day := 31 }
  z - weekday z

/-- `M3.5.0/1`, in UTC. -/
def dstStart (y : ℤ) : ℤ := lastSunday y 3 * secPerDay + 3600

/-- `M10.5.0`, at 02:00 of the local summer time, in UTC. -/
def dstEnd (y : ℤ) : ℤ := lastSunday y 10 * secPerDay + 3600

/-- The year in UTC. -/
def utcYear (t : ℤ) : ℤ := (toDate (t / secPerDay)).year

/-- `tm_isdst`; the zone rules start in 1970. -/
def isdst (t : ℤ) : ℤ :=
  if utcYear t < 1970 then -1
  else if dstStart (utcYear t) ≤ t ∧ t < dstEnd (utcYear t) then 1
  else 0

/-- Seconds that local time is ahead of UTC. -/
def utcOffset (t : ℤ) : ℤ := if isdst t = 1 then 3600 else 0

/-- The local calendar day. -/
def localDay (t : ℤ) : ℤ := (t + utcOffset t) / secPerDay

/-- The seconds since local midnight, as shown by the clock. -/
def localSec (t : ℤ) : ℤ := (t + utcOffset t) % secPerDay

def localtime (t : ℤ) : Tm :=
  let c := toDate (localDay t)
  { sec := localSec t % 60
    min := localSec t / 60 % 60
    hour := localSec t / 3600
    mday := c.day
    mon := c.month - 1
    year := c.year - 1900
    isdst := isdst t }

/-! ## Dates as text -/

/-- A C string. -/
abbrev DateStr := List Char

instance : LawfulBEq DateStr := inferInstanceAs (LawfulBEq (List Char))

/-- The decimal digit of the last place. -/
def digit (n : ℤ) : Char := Char.ofNat (48 + (n % 10).toNat)

def twoDigits (n : ℤ) : DateStr := [digit (n / 10), digit n]

def fourDigits (n : ℤ) : DateStr := twoDigits (n / 100) ++ twoDigits n

/-- `strftime` with `"%Y-%m-%d"`, for years of four digits. -/
def strftimeDate (tm : Tm) : DateStr :=
  fourDigits (tm.year + 1900) ++ '-' :: twoDigits (tm.mon + 1) ++ '-' :: twoDigits tm.mday

/-- The date token of a calendar day. -/
def dateStr (z : ℤ) : DateStr :=
  let c := toDate z
  fourDigits c.year ++ '-' :: twoDigits c.month ++ '-' :: twoDigits c.day

@[simp] theorem strftimeDate_localtime (t : ℤ) :
    strftimeDate (localtime t) = dateStr (localDay t) := by
  simp [strftimeDate, localtime, dateStr]

/-! ## The clock fields -/

theorem localSec_nonneg (t : ℤ) : 0 ≤ localSec t := Int.emod_nonneg _ (by decide)

theorem localSec_lt (t : ℤ) : localSec t < 86400 := Int.emod_lt_of_pos _ (by decide)

theorem localtime_sec (t : ℤ) : 0 ≤ (localtime t).sec ∧ (localtime t).sec ≤ 59 := by
  unfold localtime
  dsimp only
  omega

theorem localtime_min (t : ℤ) : 0 ≤ (localtime t).min ∧ (localtime t).min ≤ 59 := by
  unfold localtime
  dsimp only
  omega

theorem localtime_hour (t : ℤ) : 0 ≤ (localtime t).hour ∧ (localtime t).hour ≤ 23 := by
  have h₀ := localSec_nonneg t
  have h₁ := localSec_lt t
  unfold localtime
  dsimp only
  omega

/-! ## Days never run backwards -/

theorem utcOffset_eq (t : ℤ) : utcOffset t = 0 ∨ utcOffset t = 3600 := by
  unfold utcOffset
  split
  · exact Or.inr rfl
  · exact Or.inl rfl

theorem utcYear_mono {t t' : ℤ} (h : t ≤ t') : utcYear t ≤ utcYear t' :=
  year_mono (Int.ediv_le_ediv (by decide) h)

/-- The clocks go back within their year. -/
theorem dstEnd_lt_newYear (y : ℤ) : dstEnd y < newYear (y + 1) * secPerDay := by
  unfold dstEnd lastSunday weekday secPerDay
  rw [newYear_eq]
  simp only [ofDate, daysBefore]
  norm_num
  omega

/-- Summer time ends before any later instant without it. -/
theorem dstEnd_le_of_utcOffset {t t' : ℤ} (h : t ≤ t') (ht : utcOffset t = 3600)
    (ht' : utcOffset t' = 0) : ∃ y, t < dstEnd y ∧ dstEnd y ≤ t' := by
  have hdst : isdst t = 1 := by
    by_contra hne
    rw [utcOffset, if_neg hne] at ht
    exact absurd ht (by decide)
  have hyear : ¬ utcYear t < 1970 := by
    intro hy
    rw [isdst, if_pos hy] at hdst
    exact absurd hdst (by decide)
  have hrange : dstStart (utcYear t) ≤ t ∧ t < dstEnd (utcYear t) := by
    by_contra hne
    rw [isdst, if_neg hyear, if_neg hne] at hdst
    exact absurd hdst (by decide)
  refine ⟨utcYear t, hrange.2, ?_⟩
  by_contra hlt
  -- then `t'` is in the same year and still in summer time
  have hmono := utcYear_mono h
  have hsame : utcYear t' = utcYear t := by
    refine le_antisymm ?_ hmono
    have hspec := (year_spec (t' / secPerDay)).1
    by_contra hgt
    have hnext :=
      newYear_mono (show utcYear t + 1 ≤ (toDate (t' / secPerDay)).year from not_le.mp hgt)
    have hend := dstEnd_lt_newYear (utcYear t)
    unfold secPerDay at *
    omega
  have hdst' : isdst t' = 1 := by
    rw [isdst, hsame, if_neg hyear, if_pos ⟨hrange.1.trans h, not_le.mp hlt⟩]
  rw [utcOffset, if_pos hdst'] at ht'
  exact absurd ht' (by decide)

/-- The local date never goes back: the repeated hour is not the first of its day. -/
theorem localDay_mono {t t' : ℤ} (h : t ≤ t') : localDay t ≤ localDay t' := by
  unfold localDay
  rcases utcOffset_eq t with ht | ht <;> rcases utcOffset_eq t' with ht' | ht' <;> rw [ht, ht']
  · exact Int.ediv_le_ediv (by decide) (by omega)
  · exact Int.ediv_le_ediv (by decide) (by omega)
  · obtain ⟨y, hlt, hle⟩ := dstEnd_le_of_utcOffset h ht ht'
    unfold dstEnd secPerDay at *
    omega
  · exact Int.ediv_le_ediv (by decide) (by omega)

/-- The clocks change at full hours of UTC. -/
theorem isdst_hour (t : ℤ) : isdst (t - t % 3600) = isdst t := by
  have hyear : utcYear (t - t % 3600) = utcYear t := by
    unfold utcYear secPerDay
    congr 2
    omega
  have hiff : ∀ a b : ℤ, (a * 86400 + 3600 ≤ t - t % 3600 ∧ t - t % 3600 < b * 86400 + 3600)
      = (a * 86400 + 3600 ≤ t ∧ t < b * 86400 + 3600) := by
    intro a b
    apply propext
    omega
  unfold isdst
  rw [hyear]
  unfold dstStart dstEnd secPerDay
  congr 2
  exact hiff _ _

theorem utcOffset_hour (t : ℤ) : utcOffset (t - t % 3600) = utcOffset t := by
  unfold utcOffset
  rw [isdst_hour]

/-- A minute is on one local day. -/
theorem localDay_minute (t : ℤ) : localDay (t - t % 60) = localDay t := by
  -- the two are in one hour of UTC
  have hhour : t - t % 60 - (t - t % 60) % 3600 = t - t % 3600 := by omega
  have hoff : utcOffset (t - t % 60) = utcOffset t := by
    rw [← utcOffset_hour, hhour, utcOffset_hour]
  unfold localDay
  rw [hoff]
  unfold secPerDay
  rcases utcOffset_eq t with hoff | hoff <;> rw [hoff] <;> omega

end HomeEnergyManager
