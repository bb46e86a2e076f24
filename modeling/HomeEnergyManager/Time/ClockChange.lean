import HomeEnergyManager.Time.LocalHours

/-! # Clocks around the changes

On which side of the clock changes an instant or a local clock is, and what `mktime` makes of a
clock that was set with the `tm_isdst` of an instant nearby. All of it is told by the two changes of
one year: the last day of the year before and the first of the year after have no summer time.
-/

namespace HomeEnergyManager

open Civil

/-- The changes are well within their year. -/
theorem lastSunday_bounds (y : ℤ) : newYear y + 59 ≤ lastSunday y 3 ∧
    lastSunday y 3 + 100 ≤ lastSunday y 10 ∧ lastSunday y 10 + 50 ≤ newYear (y + 1) := by
  have hyear := marchFirst_le_succ (y - 1)
  rw [sub_add_cancel] at hyear
  unfold lastSunday weekday
  rw [newYear_eq, newYear_eq, add_sub_cancel_right]
  simp only [ofDate, daysBefore]
  norm_num
  omega

section Near

variable {y z : ℤ}

/-- A day near a year is in it, or in one of its neighbours. -/
theorem year_near (hz : newYear y - 1 ≤ z ∧ z ≤ newYear (y + 1)) :
    (toDate z).year = y ∨ (toDate z).year = y - 1 ∧ z = newYear y - 1 ∨
      (toDate z).year = y + 1 ∧ z = newYear (y + 1) := by
  have hbefore := lastSunday_bounds (y - 1)
  have hafter := lastSunday_bounds (y + 1)
  rw [sub_add_cancel] at hbefore
  rcases lt_or_ge z (newYear y) with hlt | hge
  · refine .inr (.inl ⟨?_, by omega⟩)
    rw [year_eq_iff, sub_add_cancel]
    omega
  · rcases lt_or_ge z (newYear (y + 1)) with hlt | hge
    · exact .inl ((year_eq_iff z y).mpr ⟨hge, hlt⟩)
    · refine .inr (.inr ⟨?_, by omega⟩)
      rw [year_eq_iff]
      omega

theorem isdst_near {t : ℤ} (hy : 1970 ≤ y)
    (ht : newYear y - 1 ≤ t / secPerDay ∧ t / secPerDay ≤ newYear (y + 1)) :
    isdst t = 1 ↔ dstStart y ≤ t ∧ t < dstEnd y := by
  have hbefore := lastSunday_bounds (y - 1)
  have hthis := lastSunday_bounds y
  have hafter := lastSunday_bounds (y + 1)
  rw [sub_add_cancel] at hbefore
  unfold isdst utcYear
  rcases year_near ht with hyear | ⟨hyear, hday⟩ | ⟨hyear, hday⟩ <;> rw [hyear]
  · rw [if_neg (by omega)]
    split_ifs with hdst
    · exact iff_of_true rfl hdst
    · exact iff_of_false (by decide) hdst
  -- in the neighbouring years it is winter by both
  all_goals
    unfold dstStart dstEnd secPerDay at *
    refine iff_of_false ?_ (by omega)
    split_ifs <;> first
      | exact not_false
      | omega

theorem utcOffset_near {t : ℤ} (hy : 1970 ≤ y)
    (ht : newYear y - 1 ≤ t / secPerDay ∧ t / secPerDay ≤ newYear (y + 1)) :
    utcOffset t = if dstStart y ≤ t ∧ t < dstEnd y then 3600 else 0 := by
  unfold utcOffset
  simp only [isdst_near hy ht]

/-- What `mktime` settles on: in the repeated hour what it was told, elsewhere what the date has. -/
theorem settleDst_near {w user : ℤ} (hy : 1970 ≤ y)
    (hw : newYear y - 1 ≤ w / secPerDay ∧ w / secPerDay ≤ newYear (y + 1))
    (huser : user = 0 ∨ user = 1 ∧ newYear y ≤ w / secPerDay) :
    (dstEnd y ≤ w ∧ w < dstEnd y + 3600 ∧ settleDst w user = (w, user)) ∨
    (dstStart y + 3600 ≤ w ∧ w < dstEnd y ∧
      settleDst w user = (if user = 0 then w + 3600 else w, 1)) ∨
    ((w < dstStart y + 3600 ∨ dstEnd y + 3600 ≤ w) ∧
      settleDst w user = (if user = 1 then w - 3600 else w, 0)) := by
  have hbefore := lastSunday_bounds (y - 1)
  have hthis := lastSunday_bounds y
  have hafter := lastSunday_bounds (y + 1)
  rw [sub_add_cancel] at hbefore
  have hnorm : (if 0 < user then 1 else user) = user := by
    rcases huser with rfl | ⟨rfl, -⟩ <;> rfl
  unfold settleDst
  dsimp only
  rw [hnorm]
  rcases year_near hw with hyear | ⟨hyear, hday⟩ | ⟨hyear, hday⟩ <;> rw [hyear]
  · rw [if_neg (by omega)]
    by_cases hrepeated : dstEnd y ≤ w ∧ w < dstEnd y + 3600
    · exact .inl ⟨hrepeated.1, hrepeated.2, if_pos hrepeated⟩
    rw [if_neg hrepeated]
    by_cases hsummer : dstStart y + 3600 ≤ w ∧ w < dstEnd y
    · refine .inr (.inl ⟨hsummer.1, hsummer.2, ?_⟩)
      rw [if_pos hsummer]
      rcases huser with rfl | ⟨rfl, -⟩ <;> rfl
    · refine .inr (.inr ⟨by omega, ?_⟩)
      rw [if_neg hsummer]
      rcases huser with rfl | ⟨rfl, -⟩ <;> rfl
  -- the last day of the year before, where only a `tm_isdst` of zero comes in
  · obtain rfl : user = 0 := by omega
    have hwinter : ¬ (dstEnd (y - 1) ≤ w ∧ w < dstEnd (y - 1) + 3600) ∧
        ¬ (dstStart (y - 1) + 3600 ≤ w ∧ w < dstEnd (y - 1)) ∧ w < dstStart y + 3600 := by
      unfold dstStart dstEnd secPerDay at *
      omega
    refine .inr (.inr ⟨.inl hwinter.2.2, ?_⟩)
    rw [if_neg hwinter.1, if_neg hwinter.2.1]
    rcases lt_or_ge (y - 1) 1970 with hlt | hge
    · exact if_pos hlt
    · exact if_neg (not_lt.mpr hge)
  · have hwinter : ¬ (dstEnd (y + 1) ≤ w ∧ w < dstEnd (y + 1) + 3600) ∧
        ¬ (dstStart (y + 1) + 3600 ≤ w ∧ w < dstEnd (y + 1)) ∧ dstEnd y + 3600 ≤ w := by
      unfold dstStart dstEnd secPerDay at *
      omega
    refine .inr (.inr ⟨.inr hwinter.2.2, ?_⟩)
    rw [if_neg (by omega), if_neg hwinter.1, if_neg hwinter.2.1]
    rcases huser with rfl | ⟨rfl, -⟩ <;> rfl

end Near

/-! ## The clock of an instant -/

theorem clock_eq (t : ℤ) : utcMidnight (localDay t) + localSec t = t + utcOffset t :=
  Int.ediv_mul_add_emod _ _

/-- The first hour of a day begins where its clock starts. -/
theorem beginsHour_zero_iff {z t : ℤ} : BeginsHour z 0 t ↔ t + utcOffset t = utcMidnight z := by
  refine ⟨fun h => ?_, fun h => ?_⟩
  · have hclock := h.clock
    rwa [zero_mul, add_zero] at hclock
  · apply beginsHour_of_clock (by decide)
    rw [h, zero_mul, add_zero]

theorem localDay_nonneg {now : ℤ} (h : 0 ≤ now) : 0 ≤ localDay now := by
  have hoff := utcOffset_eq now
  unfold localDay secPerDay
  omega

theorem localYear_ge {now : ℤ} (h : 0 ≤ now) : 1970 ≤ (toDate (localDay now)).year := by
  have hfirst : (toDate 0).year = 1970 := by decide
  rw [← hfirst]
  exact year_mono (localDay_nonneg h)

/-- The `tm_isdst` of an instant, by its local clock and the changes of its local year. -/
theorem isdst_clock {now : ℤ} (h : 0 ≤ now) {y w : ℤ} (hy : (toDate (localDay now)).year = y)
    (hw : w = utcMidnight (localDay now) + localSec now) :
    isdst now = 1 ∧ dstStart y + 3600 ≤ w ∧ w < dstEnd y + 3600 ∧ now = w - 3600 ∨
      isdst now = 0 ∧ (w < dstStart y ∨ dstEnd y ≤ w) ∧ now = w := by
  have hyear := localYear_ge h
  have hspec := year_spec (localDay now)
  rw [hy] at hyear hspec
  rw [clock_eq] at hw
  have hnear : newYear y - 1 ≤ now / secPerDay ∧ now / secPerDay ≤ newYear (y + 1) := by
    have hoff := utcOffset_eq now
    unfold localDay secPerDay at *
    omega
  have hiff := isdst_near hyear hnear
  by_cases hdst : isdst now = 1
  · rw [utcOffset, if_pos hdst] at hw
    have hrange := hiff.mp hdst
    exact .inl ⟨hdst, by omega, by omega, by omega⟩
  · rw [utcOffset, if_neg hdst] at hw
    have hzero : isdst now = 0 := by
      have hutc : ¬ utcYear now < 1970 := by
        have hmono := utcYear_mono h
        have hfirst : utcYear 0 = 1970 := by decide
        omega
      unfold isdst at hdst ⊢
      rw [if_neg hutc] at hdst ⊢
      exact if_neg fun hrange => hdst (if_pos hrange)
    have hrange : ¬ (dstStart y ≤ now ∧ now < dstEnd y) := fun hrange => hdst (hiff.mpr hrange)
    exact .inr ⟨hzero, by omega, by omega⟩

/-! ## The hour of an instant -/

/-- The local hour of an instant begins with its hour of UTC. -/
theorem beginsHour_hour (t : ℤ) : BeginsHour (localDay t) (localtime t).hour (t - t % 3600) := by
  have hsec := localSec_nonneg t
  have hlt := localSec_lt t
  have hclock := clock_eq t
  have hhour : (localtime t).hour = localSec t / 3600 := rfl
  apply beginsHour_of_clock (by omega)
  rw [utcOffset_hour, hhour]
  unfold utcMidnight secPerDay at *
  rcases utcOffset_eq t with hoff | hoff <;> rw [hoff] at hclock ⊢ <;> omega

/-- The hours of a day begin one after the other: a change of the clocks makes up for an hour at
most, and not at one instant. -/
theorem BeginsHour.lt {z h h' t t' : ℤ} (ht : BeginsHour z h t) (ht' : BeginsHour z h' t')
    (hlt : h < h') : t < t' := by
  have hclock := ht.clock
  have hclock' := ht'.clock
  have heq : t = t' → utcOffset t = utcOffset t' := congrArg utcOffset
  rcases utcOffset_eq t with hoff | hoff <;> rcases utcOffset_eq t' with hoff' | hoff' <;>
    rw [hoff, hoff'] at heq <;> omega

/-- `mktime` of the full hour on the clock of an instant is where that hour began, also in the
repeated hour, where the `tm_isdst` tells which of the two it is. -/
theorem mktime_hour {t : ℤ} (h : 0 ≤ t ∧ t < 2 ^ 32) :
    (mktime { localtime t with min := 0, sec := 0 }).1 = t - t % 3600 := by
  obtain ⟨y, hy⟩ : ∃ y, (toDate (localDay t)).year = y := ⟨_, rfl⟩
  obtain ⟨w, hw⟩ : ∃ w, w = utcMidnight (localDay t) + (localtime t).hour * 3600 := ⟨_, rfl⟩
  have hyear : 1970 ≤ y := hy ▸ localYear_ge h.1
  have hspec := year_spec (localDay t)
  rw [hy] at hspec
  have hhour : (localtime t).hour = localSec t / 3600 := rfl
  have hsec := localSec_nonneg t
  have hlt := localSec_lt t
  have hclock : Tm.clock { localtime t with min := 0, sec := 0 } = w := by
    rw [hw, clock_of_toDate rfl rfl (add_zero _).symm]
    simp [utcMidnight]
  have hday : w / secPerDay = localDay t := by
    unfold utcMidnight secPerDay at *
    omega
  have hkept : settleDst w (isdst t) = (w, isdst t) := by
    have hinstant := isdst_clock h.1 hy rfl
    have hsettle := @settleDst_near y w (isdst t) hyear (by omega) (by omega)
    unfold dstStart dstEnd utcMidnight secPerDay at *
    rcases hinstant with ⟨hdst, hstart, hend, -⟩ | ⟨hdst, hout, -⟩ <;> rw [hdst] at hsettle ⊢ <;>
      rcases hsettle with ⟨hfrom, hto, hsettle⟩ | ⟨hfrom, hto, hsettle⟩ | ⟨hout', hsettle⟩ <;> first
        | exact hsettle
        | omega
  have hbegins := (beginsHour_hour t).clock
  have hisdst : (localtime t).isdst = isdst t := rfl
  rw [utcOffset_hour, ← hw] at hbegins
  have hdated : Dated (Tm.clock { localtime t with min := 0, sec := 0 } / secPerDay) := by
    rw [hclock, hday]
    exact dated_of_clock h
  rw [mktime_eq hdated, hclock, hisdst, hkept]
  change w - utcOffset t = _
  omega

end HomeEnergyManager
