import HomeEnergyManager.Time.MkTime

/-! # The hours of a local day

The instants of a UTC day against its clock changes. From the last Sunday of March to the last
Sunday of October, both included, some hour of the day is in summer time; on the other days local
time is UTC. `mktime` with a `tm_isdst` of zero takes every midnight for one in UTC.
-/

namespace HomeEnergyManager

open Civil

/-- Midnight in UTC. -/
def utcMidnight (z : ℤ) : ℤ := z * secPerDay

/-- Some hour of the day is in summer time. -/
def SummerDay (z : ℤ) : Prop :=
  1970 ≤ (toDate z).year ∧ lastSunday (toDate z).year 3 ≤ z ∧ z ≤ lastSunday (toDate z).year 10

instance (z : ℤ) : Decidable (SummerDay z) := inferInstanceAs (Decidable (_ ∧ _ ∧ _))

/-- An instant at which local hour `h` of day `z` begins. -/
def BeginsHour (z h t : ℤ) : Prop :=
  localDay t = z ∧ (localtime t).hour = h ∧ (localtime t).min = 0 ∧ (localtime t).sec = 0

section UtcDay

variable {z k : ℤ}

theorem utcYear_utcMidnight_add (hk : 0 ≤ k ∧ k < 86400) :
    utcYear (utcMidnight z + k) = (toDate z).year := by
  -- the year changes at midnight in UTC
  have hday : (utcMidnight z + k) / secPerDay = z := by
    unfold utcMidnight secPerDay
    omega
  rw [utcYear, hday]

/-- In the first hour of a UTC day it is summer time after a change in March and up to the one in
October. -/
theorem isdst_firstHour (hk : 0 ≤ k ∧ k < 3600) :
    isdst (utcMidnight z + k) = 1 ↔ 1970 ≤ (toDate z).year ∧
      lastSunday (toDate z).year 3 < z ∧ z ≤ lastSunday (toDate z).year 10 := by
  rw [isdst, utcYear_utcMidnight_add ⟨hk.1, by omega⟩]
  unfold dstStart dstEnd utcMidnight secPerDay
  split_ifs with hyear
  · exact ⟨fun h => absurd h (by decide), fun h => absurd h.1 (not_le.mpr hyear)⟩
  · omega
  · omega

/-- Later on, from the day of the change in March and up to the day before the one in October. -/
theorem isdst_laterHour (hk : 3600 ≤ k ∧ k < 86400) :
    isdst (utcMidnight z + k) = 1 ↔ 1970 ≤ (toDate z).year ∧
      lastSunday (toDate z).year 3 ≤ z ∧ z < lastSunday (toDate z).year 10 := by
  rw [isdst, utcYear_utcMidnight_add ⟨by omega, hk.2⟩]
  unfold dstStart dstEnd utcMidnight secPerDay
  split_ifs with hyear
  · exact ⟨fun h => absurd h (by decide), fun h => absurd h.1 (not_le.mpr hyear)⟩
  · omega
  · omega

/-- The fields are those of the seconds on the local clock. -/
theorem beginsHour_of_clock {t h : ℤ} (hh : 0 ≤ h ∧ h < 24)
    (hclock : t + utcOffset t = utcMidnight z + h * 3600) : BeginsHour z h t := by
  have hsec : localSec t = h * 3600 := by
    unfold localSec
    rw [hclock]
    unfold utcMidnight secPerDay
    omega
  refine ⟨?_, ?_, ?_, ?_⟩
  · unfold localDay
    rw [hclock]
    unfold utcMidnight secPerDay
    omega
  · show localSec t / 3600 = h
    rw [hsec]
    omega
  · show localSec t / 60 % 60 = 0
    rw [hsec]
    omega
  · show localSec t % 60 = 0
    rw [hsec]
    omega

/-- An hour begins at the full hour on the local clock. -/
theorem BeginsHour.clock {t h : ℤ} (hbegins : BeginsHour z h t) :
    t + utcOffset t = utcMidnight z + h * 3600 := by
  obtain ⟨hday, hhour, hmin, hsec⟩ := hbegins
  change localSec t / 3600 = h at hhour
  change localSec t / 60 % 60 = 0 at hmin
  change localSec t % 60 = 0 at hsec
  unfold localDay at hday
  unfold localSec at hhour hmin hsec
  unfold utcMidnight secPerDay at *
  omega

/-- On a day without summer time the local hours are those of UTC. -/
theorem beginsHour_of_not_summerDay (hz : ¬ SummerDay z) {h : ℤ} (hh : 0 ≤ h ∧ h < 24) :
    BeginsHour z h (utcMidnight z + h * 3600) := by
  have hisdst : isdst (utcMidnight z + h * 3600) ≠ 1 := by
    intro hdst
    rcases lt_or_ge h 1 with hfirst | hlater
    · obtain ⟨hyear, hstart, hend⟩ := (isdst_firstHour (by omega)).mp hdst
      exact hz ⟨hyear, hstart.le, hend⟩
    · obtain ⟨hyear, hstart, hend⟩ := (isdst_laterHour (by omega)).mp hdst
      exact hz ⟨hyear, hstart, hend.le⟩
  apply beginsHour_of_clock hh
  rw [utcOffset, if_neg hisdst, add_zero]

/-- Noon is an hour of every day. -/
theorem exists_beginsHour_noon (z : ℤ) : ∃ t, BeginsHour z 12 t := by
  by_cases hdst : isdst (utcMidnight z + 43200) = 1
  -- the hour before noon in UTC is in summer time as well
  · have hdst' : isdst (utcMidnight z + 39600) = 1 :=
      (isdst_laterHour (by omega)).mpr ((isdst_laterHour (by omega)).mp hdst)
    refine ⟨utcMidnight z + 39600, beginsHour_of_clock (by omega) ?_⟩
    rw [utcOffset, if_pos hdst']
    omega
  · refine ⟨utcMidnight z + 43200, beginsHour_of_clock (by omega) ?_⟩
    rw [utcOffset, if_neg hdst]
    omega

/-! ## Days with summer time -/

theorem lastSunday_march_lt_october (y : ℤ) : lastSunday y 3 < lastSunday y 10 := by
  unfold lastSunday weekday
  simp only [ofDate, daysBefore]
  norm_num
  omega

/-- Before the change in October the last hour of the UTC day is on the next local day. -/
theorem beginsHour_lastHour (hz : SummerDay z) (hend : z < lastSunday (toDate z).year 10) :
    BeginsHour (z + 1) 0 (utcMidnight z + 82800) := by
  have hdst : isdst (utcMidnight z + 82800) = 1 :=
    (isdst_laterHour (by omega)).mpr ⟨hz.1, hz.2.1, hend⟩
  apply beginsHour_of_clock (by omega)
  rw [utcOffset, if_pos hdst]
  unfold utcMidnight secPerDay
  omega

/-- On the day of the change in October, midnight in UTC is at one o'clock. -/
theorem beginsHour_change (hz : SummerDay z) (hend : z = lastSunday (toDate z).year 10) :
    BeginsHour z 1 (utcMidnight z) := by
  have hstart := lastSunday_march_lt_october (toDate z).year
  have hdst : isdst (utcMidnight z + 0) = 1 :=
    (isdst_firstHour (by omega)).mpr ⟨hz.1, by omega, hend.le⟩
  apply beginsHour_of_clock (by omega)
  rw [add_zero] at hdst
  rw [utcOffset, if_pos hdst]
  rfl

/-- From then on the local hours are those of UTC. -/
theorem beginsHour_after_change (hend : z = lastSunday (toDate z).year 10) {h : ℤ}
    (hh : 1 ≤ h ∧ h < 24) : BeginsHour z h (utcMidnight z + h * 3600) := by
  have hisdst : isdst (utcMidnight z + h * 3600) ≠ 1 := by
    intro hdst
    obtain ⟨-, -, hlt⟩ := (isdst_laterHour (by omega)).mp hdst
    omega
  apply beginsHour_of_clock (by omega)
  rw [utcOffset, if_neg hisdst, add_zero]

/-- The first hour of a day with summer time is one of its local hours. -/
theorem exists_beginsHour_zero (hz : SummerDay z) : ∃ t, BeginsHour z 0 t := by
  obtain ⟨hyear, hstart, hend⟩ := hz
  rcases eq_or_lt_of_le hstart with heq | hlt
  · have hdst : isdst (utcMidnight z + 0) ≠ 1 := by
      rw [Ne, isdst_firstHour (by omega)]
      omega
    refine ⟨utcMidnight z + 0, beginsHour_of_clock (by omega) ?_⟩
    rw [utcOffset, if_neg hdst]
    omega
  -- the last hour in UTC of the day before, which is in the same year
  · have hsame : (toDate (z - 1)).year = (toDate z).year := by
      have hnew := newYear_le_dstStart (toDate z).year
      have hspec := year_spec z
      rw [year_eq_iff]
      unfold dstStart secPerDay at hnew
      omega
    have hdst : isdst (utcMidnight (z - 1) + 82800) = 1 := by
      rw [isdst_laterHour (by omega), hsame]
      omega
    refine ⟨utcMidnight (z - 1) + 82800, beginsHour_of_clock (by omega) ?_⟩
    rw [utcOffset, if_pos hdst]
    unfold utcMidnight secPerDay
    omega

end UtcDay

/-! ## `mktime` without summer time -/

/-- The fields of midnight, with a `tm_isdst` of zero. -/
def standardMidnight (z : ℤ) : Tm :=
  { sec := 0, min := 0, hour := 0, mday := (toDate z).day, mon := (toDate z).month - 1,
    year := (toDate z).year - 1900, isdst := 0 }

theorem clock_standardMidnight (z : ℤ) : (standardMidnight z).clock = utcMidnight z := by
  rw [clock_of_toDate rfl rfl (add_zero _).symm]
  simp [standardMidnight, utcMidnight]

theorem clockTm_utcMidnight (z : ℤ) : clockTm (utcMidnight z) 0 = standardMidnight z := by
  have hday : utcMidnight z / secPerDay = z := Int.mul_ediv_cancel _ (by decide)
  have hsec : utcMidnight z % secPerDay = 0 := Int.mul_emod_left _ _
  unfold clockTm standardMidnight
  rw [hday, hsec]
  rfl

/-- In summer time the clock is moved on by the hour that it is ahead. -/
theorem settleDst_standardMidnight (z : ℤ) :
    settleDst (utcMidnight z) 0 =
      if 1970 ≤ (toDate z).year ∧ lastSunday (toDate z).year 3 < z ∧
          z ≤ lastSunday (toDate z).year 10 then (utcMidnight z + 3600, 1)
      else (utcMidnight z, 0) := by
  have hday : utcMidnight z / secPerDay = z := Int.mul_ediv_cancel _ (by decide)
  unfold settleDst
  rw [hday]
  unfold dstStart dstEnd utcMidnight secPerDay
  dsimp only
  split_ifs <;> first
    | rfl
    | omega

/-- So it is midnight in UTC. -/
theorem mktime_standardMidnight {z : ℤ} (hz : Dated z) :
    (mktime (standardMidnight z)).1 = utcMidnight z := by
  have hday : utcMidnight z / secPerDay = z := Int.mul_ediv_cancel _ (by decide)
  rw [mktime_eq (by rwa [clock_standardMidnight, hday]), clock_standardMidnight,
    show (standardMidnight z).isdst = 0 from rfl, settleDst_standardMidnight]
  split_ifs with h₁ h₂ <;> first
    | rfl
    | omega

/-- Without summer time the fields stay. -/
theorem mktime_standardMidnight_snd {z : ℤ} (hz : Dated z) (hwinter : ¬ SummerDay z) :
    (mktime (standardMidnight z)).2 = standardMidnight z := by
  have hday : utcMidnight z / secPerDay = z := Int.mul_ediv_cancel _ (by decide)
  have hnot : ¬ (1970 ≤ (toDate z).year ∧ lastSunday (toDate z).year 3 < z ∧
      z ≤ lastSunday (toDate z).year 10) := fun h => hwinter ⟨h.1, h.2.1.le, h.2.2⟩
  rw [mktime_eq (by rwa [clock_standardMidnight, hday]), clock_standardMidnight,
    show (standardMidnight z).isdst = 0 from rfl, settleDst_standardMidnight, if_neg hnot]
  exact clockTm_utcMidnight z

end HomeEnergyManager
