import HomeEnergyManager.Time.ClockChange
import HomeEnergyManager.DayFiles.System

/-! # The days of the midnight job

`on_midnight_timer` takes yesterday and tomorrow from the fields of the local time, with the day of
the month moved by one and the hour and the `tm_isdst` of the moment kept; the next midnight and the
day of the solar forecast come from midnight's fields, with the `tm_isdst` of the moment as well.
`mktime` moves a clock whose `tm_isdst` is not that of its date by an hour. On the days next to a
clock change that can take it over midnight.

Reference: `firmware/main/node_power_logger.cpp`, `firmware/main/solar_forecast.c`.
-/

namespace HomeEnergyManager.DayFiles

open Civil

/-- `tomorrow` of `on_midnight_timer`. -/
def tomorrow (now : ℤ) : DateStr :=
  let tm := localtime now
  strftimeDate (mktime { tm with mday := tm.mday + 1 }).2

/-- `tomorrow` of `solar_forecast_fetch_tomorrow`. -/
def solarTomorrow (now : ℤ) : DateStr :=
  let tm := localtime now
  strftimeDate (mktime { tm with hour := 0, min := 0, sec := 0, mday := tm.mday + 1 }).2

/-- `next_midnight` of `schedule_midnight_rollup`. -/
def nextMidnight (now : ℤ) : ℤ :=
  let tm := localtime now
  (mktime { tm with hour := 0, min := 0, sec := 0, mday := tm.mday + 1 }).1

/-- `delay_us`. -/
def delayUs (now : ℤ) : ℕ := ((nextMidnight now - now) % 2 ^ 64).toNat * 1000000 % 2 ^ 64

/-- The instant for which `schedule_midnight_rollup` arms the timer. -/
def dueAfter (now : ℤ) : ℤ := now + delayUs now / 1000000

/-! ## Where the days are right -/

/-- The clock shows a year of four digits, today and tomorrow. -/
def Shown (now : ℤ) : Prop := 0 ≤ now ∧ Dated (localDay now + 1)

instance (now : ℤ) : Decidable (Shown now) := inferInstanceAs (Decidable (_ ∧ _))

/-- The changes of the local year. -/
def springChange (now : ℤ) : ℤ := lastSunday (toDate (localDay now)).year 3

def autumnChange (now : ℤ) : ℤ := lastSunday (toDate (localDay now)).year 10

/-- The first hour after the day of the change in March and the last of that in October. -/
def YesterdayOff (now : ℤ) : Prop :=
  localDay now = springChange now + 1 ∧ localSec now < 3600 ∨
    localDay now = autumnChange now ∧ 82800 ≤ localSec now

/-- The last hour before the day of the change in March and the first of that in October. -/
def TomorrowOff (now : ℤ) : Prop :=
  localDay now = springChange now - 1 ∧ 82800 ≤ localSec now ∨
    localDay now = autumnChange now ∧ localSec now < 3600

/-- On the day of the change in March before it: the midnight that is armed is an hour late. -/
def ArmsLate (now : ℤ) : Prop := localDay now = springChange now ∧ isdst now = 0

/-- On the day of the change in October before it: it is an hour early, on the same day. -/
def ArmsEarly (now : ℤ) : Prop := localDay now = autumnChange now ∧ isdst now = 1

instance (now : ℤ) : Decidable (YesterdayOff now) := inferInstanceAs (Decidable (_ ∨ _))

instance (now : ℤ) : Decidable (TomorrowOff now) := inferInstanceAs (Decidable (_ ∨ _))

instance (now : ℤ) : Decidable (ArmsLate now) := inferInstanceAs (Decidable (_ ∧ _))

instance (now : ℤ) : Decidable (ArmsEarly now) := inferInstanceAs (Decidable (_ ∧ _))

/-- What the callbacks take for yesterday, tomorrow and the next midnight is that. -/
structure DayBoundaries (now : ℤ) : Prop where
  yesterday : yesterday now = dateStr (localDay now - 1)
  tomorrow : tomorrow now = dateStr (localDay now + 1)
  solarTomorrow : solarTomorrow now = dateStr (localDay now + 1)
  nextMidnight : BeginsHour (localDay now + 1) 0 (dueAfter now)

section Instant

variable {now : ℤ}

theorem Shown.dated (h : Shown now) {z : ℤ} (hz : localDay now - 2 ≤ z ∧ z ≤ localDay now + 1) :
    Dated z := by
  have hday := localDay_nonneg h.1
  have hfirst : newYear 0 ≤ -2 := by decide
  have hlast := h.2.2
  exact ⟨by omega, by omega⟩

/-- The clock of the moment on another day. -/
theorem clock_moved (now : ℤ) (tm : Tm) (k : ℤ) (hyear : tm.year = (localtime now).year)
    (hmon : tm.mon = (localtime now).mon) (hday : tm.mday = (localtime now).mday + k) :
    tm.clock = utcMidnight (localDay now + k) + (tm.hour * 3600 + tm.min * 60 + tm.sec) := by
  rw [clock_of_toDate hyear hmon hday, utcMidnight]
  omega

theorem localtime_clock (t : ℤ) :
    (localtime t).hour * 3600 + (localtime t).min * 60 + (localtime t).sec = localSec t := by
  unfold localtime
  dsimp only
  omega

/-- The fields of the moment on another day. -/
def movedTm (now k : ℤ) : Tm :=
  let tm := localtime now
  { tm with mday := tm.mday + k }

/-- The fields of the next midnight. -/
def midnightTm (now : ℤ) : Tm :=
  let tm := localtime now
  { tm with hour := 0, min := 0, sec := 0, mday := tm.mday + 1 }

theorem clock_movedTm (now k : ℤ) :
    (movedTm now k).clock = utcMidnight (localDay now + k) + localSec now :=
  (clock_moved now (movedTm now k) k rfl rfl rfl).trans
    (congrArg (utcMidnight (localDay now + k) + ·) (localtime_clock now))

theorem clock_midnightTm (now : ℤ) : (midnightTm now).clock = utcMidnight (localDay now + 1) :=
  (clock_moved now (midnightTm now) 1 rfl rfl rfl).trans (add_zero _)

theorem dated_midnightTm (h : Shown now) : Dated ((midnightTm now).clock / secPerDay) := by
  rw [clock_midnightTm, utcMidnight, Int.mul_ediv_cancel _ (by decide)]
  exact h.2

theorem moved_eq (h : Shown now) {k : ℤ} (hk : -1 ≤ k ∧ k ≤ 1) :
    strftimeDate (mktime (movedTm now k)).2
      = dateStr ((settleDst (utcMidnight (localDay now + k) + localSec now) (isdst now)).1
        / secPerDay) := by
  have hnonneg := localSec_nonneg now
  have hlt := localSec_lt now
  have hday : (utcMidnight (localDay now + k) + localSec now) / secPerDay = localDay now + k := by
    unfold utcMidnight secPerDay
    omega
  rw [← clock_movedTm] at hday ⊢
  apply strftimeDate_mktime
  rw [hday]
  exact h.dated (by omega)

theorem solarTomorrow_eq (h : Shown now) :
    solarTomorrow now
      = dateStr ((settleDst (utcMidnight (localDay now + 1)) (isdst now)).1 / secPerDay) := by
  rw [← clock_midnightTm]
  exact strftimeDate_mktime (dated_midnightTm h)

theorem nextMidnight_eq (h : Shown now) :
    nextMidnight now = (settleDst (utcMidnight (localDay now + 1)) (isdst now)).1
      - if (settleDst (utcMidnight (localDay now + 1)) (isdst now)).2 = 1 then 3600 else 0 := by
  rw [← clock_midnightTm]
  exact congrArg Prod.fst (mktime_eq (dated_midnightTm h))

/-- The changes of the local year and the side of them on which the moment is. -/
theorem Shown.sides (h : Shown now) {y : ℤ} (hy : (toDate (localDay now)).year = y) :
    1970 ≤ y ∧ y ≤ 9999 ∧ (newYear y ≤ localDay now ∧ localDay now < newYear (y + 1)) ∧
      (0 ≤ localSec now ∧ localSec now < 86400) ∧
      (isdst now = 1 ∧ newYear y + 59 ≤ localDay now ∨ isdst now = 0) := by
  have hyear := localYear_ge h.1
  have hspec := year_spec (localDay now)
  have hlast := (h.dated (show _ ≤ localDay now ∧ _ by omega)).year.2
  have hbounds := lastSunday_bounds y
  have hnonneg := localSec_nonneg now
  have hlt := localSec_lt now
  rw [hy] at hyear hspec hlast
  refine ⟨hyear, hlast, hspec, ⟨hnonneg, hlt⟩, ?_⟩
  rcases isdst_clock h.1 hy rfl with ⟨hdst, hstart, -⟩ | ⟨hdst, -⟩
  · refine .inl ⟨hdst, ?_⟩
    unfold dstStart utcMidnight secPerDay at hstart
    omega
  · exact .inr hdst

/-- `mktime` takes a clock of these days over midnight in the last hour of a day, if it moves it on,
and in the first, if it moves it back. -/
theorem Shown.settled_day (h : Shown now) {y z k : ℤ} (hy : (toDate (localDay now)).year = y)
    (hz : localDay now - 1 ≤ z ∧ z ≤ localDay now + 1) (hk : 0 ≤ k ∧ k < 86400) :
    (settleDst (utcMidnight z + k) (isdst now)).1 / secPerDay =
      if isdst now = 0 ∧ 82800 ≤ k ∧ lastSunday y 3 ≤ z ∧ z < lastSunday y 10 then z + 1
      else if isdst now = 1 ∧ k < 3600 ∧ (z ≤ lastSunday y 3 ∨ lastSunday y 10 < z) then z - 1
      else z := by
  obtain ⟨hyear, -, hspec, -, hside⟩ := h.sides hy
  have hbounds := lastSunday_bounds y
  have hday : (utcMidnight z + k) / secPerDay = z := by
    unfold utcMidnight secPerDay
    omega
  have hsettle := @settleDst_near y (utcMidnight z + k) (isdst now) hyear (by omega) (by omega)
  generalize settleDst (utcMidnight z + k) (isdst now) = r at hsettle
  generalize isdst now = dst at *
  unfold utcMidnight dstStart dstEnd secPerDay at *
  rcases hsettle with ⟨hfrom, hto, rfl⟩ | ⟨hfrom, hto, rfl⟩ | ⟨hout, rfl⟩ <;> dsimp only
  · split_ifs <;> omega
  · split_ifs <;> omega
  · split_ifs <;> omega

theorem yesterday_iff (h : Shown now) :
    yesterday now = dateStr (localDay now - 1) ↔ ¬ YesterdayOff now := by
  obtain ⟨y, hy⟩ : ∃ y, (toDate (localDay now)).year = y := ⟨_, rfl⟩
  obtain ⟨-, -, hspec, hsec, hside⟩ := h.sides hy
  have hbounds := lastSunday_bounds y
  have hclock := isdst_clock h.1 hy rfl
  have hmoved : yesterday now = dateStr _ := moved_eq h (k := -1) (by omega)
  rw [← sub_eq_add_neg] at hmoved
  have hday := h.settled_day hy (z := localDay now - 1) (by omega) hsec
  generalize
    (settleDst (utcMidnight (localDay now - 1) + localSec now) (isdst now)).1 / secPerDay = d
    at hmoved hday
  have hdated : Dated d := h.dated (by split_ifs at hday <;> omega)
  have hd : d = localDay now - 1 ↔ ¬ YesterdayOff now := by
    rw [YesterdayOff, springChange, autumnChange, hy]
    unfold dstStart dstEnd utcMidnight secPerDay at hclock
    split_ifs at hday <;> omega
  rw [hmoved, ← hd]
  exact ⟨dateStr_injective hdated (h.dated (by omega)), congrArg dateStr⟩

theorem tomorrow_iff (h : Shown now) :
    tomorrow now = dateStr (localDay now + 1) ↔ ¬ TomorrowOff now := by
  obtain ⟨y, hy⟩ : ∃ y, (toDate (localDay now)).year = y := ⟨_, rfl⟩
  obtain ⟨-, hlast, hspec, hsec, hside⟩ := h.sides hy
  have hbounds := lastSunday_bounds y
  have hmono := newYear_mono (show y + 1 ≤ 10000 by omega)
  have hclock := isdst_clock h.1 hy rfl
  have hmoved : tomorrow now = dateStr _ := moved_eq h (k := 1) (by omega)
  have hday := h.settled_day hy (z := localDay now + 1) (by omega) hsec
  generalize
    (settleDst (utcMidnight (localDay now + 1) + localSec now) (isdst now)).1 / secPerDay = d
    at hmoved hday
  have hdated : Dated d := by
    have hfirst := (h.dated (show _ ≤ localDay now ∧ _ by omega)).1
    have hend := h.2.2
    unfold Dated
    split_ifs at hday <;> omega
  have hd : d = localDay now + 1 ↔ ¬ TomorrowOff now := by
    rw [TomorrowOff, springChange, autumnChange, hy]
    unfold dstStart dstEnd utcMidnight secPerDay at hclock
    split_ifs at hday <;> omega
  rw [hmoved, ← hd]
  exact ⟨dateStr_injective hdated h.2, congrArg dateStr⟩

theorem solarTomorrow_iff (h : Shown now) :
    solarTomorrow now = dateStr (localDay now + 1) ↔ ¬ ArmsEarly now := by
  obtain ⟨y, hy⟩ : ∃ y, (toDate (localDay now)).year = y := ⟨_, rfl⟩
  obtain ⟨-, -, hspec, hsec, hside⟩ := h.sides hy
  have hclock := isdst_clock h.1 hy rfl
  have hmoved := solarTomorrow_eq h
  have hday := h.settled_day hy (z := localDay now + 1) (k := 0) (by omega) (by decide)
  rw [add_zero] at hday
  generalize (settleDst (utcMidnight (localDay now + 1)) (isdst now)).1 / secPerDay = d
    at hmoved hday
  have hdated : Dated d := h.dated (by split_ifs at hday <;> omega)
  have hd : d = localDay now + 1 ↔ ¬ ArmsEarly now := by
    rw [ArmsEarly, autumnChange, hy]
    unfold dstStart dstEnd utcMidnight secPerDay at hclock
    split_ifs at hday <;> omega
  rw [hmoved, ← hd]
  exact ⟨dateStr_injective hdated h.2, congrArg dateStr⟩

/-! ## The midnight that is armed -/

/-- It is midnight on the clock of the moment, in summer or in winter time. -/
theorem nextMidnight_clock (h : Shown now) :
    nextMidnight now = utcMidnight (localDay now + 1) - utcOffset now := by
  obtain ⟨y, hy⟩ : ∃ y, (toDate (localDay now)).year = y := ⟨_, rfl⟩
  obtain ⟨hyear, -, hspec, -, hside⟩ := h.sides hy
  have hday : utcMidnight (localDay now + 1) / secPerDay = localDay now + 1 :=
    Int.mul_ediv_cancel _ (by decide)
  have hsettle := @settleDst_near y (utcMidnight (localDay now + 1)) (isdst now) hyear (by omega)
    (by omega)
  rw [nextMidnight_eq h, utcOffset]
  generalize settleDst (utcMidnight (localDay now + 1)) (isdst now) = r at hsettle
  generalize isdst now = dst at *
  unfold utcMidnight dstStart dstEnd secPerDay at *
  rcases hsettle with ⟨hfrom, hto, rfl⟩ | ⟨hfrom, hto, rfl⟩ | ⟨hout, rfl⟩
  · rfl
  · dsimp only
    split_ifs <;> omega
  · dsimp only
    split_ifs <;> omega

/-- It is on the next day, or the last hour of a day that falls back. -/
theorem nextMidnight_near (h : Shown now) {y : ℤ} (hy : (toDate (localDay now)).year = y) :
    utcMidnight (localDay now + 1) - 3600 ≤ nextMidnight now ∧
      nextMidnight now ≤ utcMidnight (localDay now + 1) ∧ now < nextMidnight now ∧
      (nextMidnight now + utcOffset (nextMidnight now) = utcMidnight (localDay now + 1) ↔
        ¬ (ArmsLate now ∨ ArmsEarly now)) ∧
      (localDay (nextMidnight now) = localDay now + 1 ↔ ¬ ArmsEarly now) := by
  obtain ⟨hyear, -, hspec, hsec, hside⟩ := h.sides hy
  have hbounds := lastSunday_bounds y
  have hnow := clock_eq now
  have hoff := utcOffset_eq now
  have hnext := nextMidnight_clock h
  generalize nextMidnight now = t at hnext
  have hnear := @utcOffset_near y t hyear (by unfold utcMidnight secPerDay at *; omega)
  have hsides := isdst_clock h.1 hy rfl
  have hdst : utcOffset now = if isdst now = 1 then 3600 else 0 := rfl
  -- the offsets of the two moments differ in the week of a change only
  have hlate : utcOffset now = 0 ∧ utcOffset t = 3600 ↔ ArmsLate now := by
    rw [ArmsLate, springChange, hy]
    unfold utcMidnight dstStart dstEnd secPerDay at *
    split_ifs at hnear hdst <;> omega
  have hearly : utcOffset now = 3600 ∧ utcOffset t = 0 ↔ ArmsEarly now := by
    rw [ArmsEarly, autumnChange, hy]
    unfold utcMidnight dstStart dstEnd secPerDay at *
    split_ifs at hnear hdst <;> omega
  have hoff' := utcOffset_eq t
  have hday : localDay t = (t + utcOffset t) / secPerDay := rfl
  rw [← hlate, ← hearly, hday]
  clear hlate hearly hnear hsides hdst
  unfold utcMidnight secPerDay at *
  exact ⟨by omega, by omega, by omega, by omega, by omega⟩

/-- The delay is positive and far from overflow. -/
theorem dueAfter_eq (h : Shown now) : dueAfter now = nextMidnight now := by
  obtain ⟨-, hle, hlt, -⟩ := nextMidnight_near h rfl
  have hclock := clock_eq now
  have hoff := utcOffset_eq now
  have hsec := localSec_nonneg now
  unfold dueAfter delayUs
  unfold utcMidnight secPerDay at *
  omega

theorem nextMidnight_iff (h : Shown now) :
    BeginsHour (localDay now + 1) 0 (dueAfter now) ↔ ¬ (ArmsLate now ∨ ArmsEarly now) := by
  obtain ⟨-, -, -, hiff, -⟩ := nextMidnight_near h rfl
  rw [dueAfter_eq h, beginsHour_zero_iff, hiff]

/-- Unless the timer is armed early, it is due on the next day. -/
theorem localDay_dueAfter (h : Shown now) (hearly : ¬ ArmsEarly now) :
    localDay (dueAfter now) = localDay now + 1 := by
  obtain ⟨-, -, -, -, hiff⟩ := nextMidnight_near h rfl
  rw [dueAfter_eq h]
  exact hiff.mpr hearly

end Instant

/-! ## Runs of the daily timer -/

/-- A firing of the timer and the instant at which it is armed again, when the job is done. -/
structure Firing where
  fired : ℤ
  armed : ℤ

/-- When the timer is due, and the days that were rolled up, each with the instant of the firing. -/
structure DailyTimer where
  due : ℤ
  rolled : List (DateStr × ℤ)

/-- `node_power_logger_init`. -/
def DailyTimer.init (now : ℤ) : DailyTimer := { due := dueAfter now, rolled := [] }

/-- `on_midnight_timer`. -/
def DailyTimer.fire (s : DailyTimer) (f : Firing) : DailyTimer :=
  { due := dueAfter f.armed, rolled := s.rolled ++ [(yesterday f.fired, f.fired)] }

def DailyTimer.run (s : DailyTimer) (firings : List Firing) : DailyTimer :=
  firings.foldl DailyTimer.fire s

/-- Each firing comes when the timer is due or later, but on that day, and so does the end of its
job. -/
def OnTime (s : DailyTimer) : List Firing → Prop
  | [] => True
  | f :: firings =>
    (s.due ≤ f.fired ∧ localDay f.fired = localDay s.due ∧ f.fired ≤ f.armed ∧
      localDay f.armed = localDay f.fired ∧ Shown f.fired) ∧ OnTime (s.fire f) firings

/-- The days are rolled up one after the other from `first` on, each after it has ended. -/
def EachDayOnce (first : ℤ) (s : DailyTimer) : Prop :=
  ∀ (i : ℕ) (date : DateStr) (fired : ℤ), s.rolled[i]? = some (date, fired) →
    date = dateStr (first + i) ∧ ∀ t, localDay t = first + i → t < fired

/-- Between two firings the timer is due on the day after the last one that is left. -/
structure DailyTimer.Waiting (first : ℤ) (s : DailyTimer) : Prop where
  due : localDay s.due = first + s.rolled.length + 1
  done : EachDayOnce first s

section Runs

variable {first : ℤ} {s : DailyTimer} {f : Firing}

theorem DailyTimer.Waiting.init {boot : ℤ} (h : Shown boot) (hearly : ¬ ArmsEarly boot) :
    (DailyTimer.init boot).Waiting (localDay boot) := by
  refine ⟨?_, fun i date fired hi => nomatch hi⟩
  have hdue := localDay_dueAfter h hearly
  simpa [DailyTimer.init] using hdue

/-- A firing that takes yesterday for what it is rolls up the next day. -/
theorem DailyTimer.Waiting.fire (h : s.Waiting first) (hday : localDay f.fired = localDay s.due)
    (hdone : f.fired ≤ f.armed ∧ localDay f.armed = localDay f.fired) (hfired : Shown f.fired)
    (hyesterday : ¬ YesterdayOff f.fired) (hearly : ¬ ArmsEarly f.armed) :
    (s.fire f).Waiting first := by
  have harmed : Shown f.armed := ⟨hfired.1.trans hdone.1, hdone.2 ▸ hfired.2⟩
  have hlast : localDay f.fired = first + s.rolled.length + 1 := hday.trans h.due
  refine ⟨?_, ?_⟩
  · show localDay (dueAfter f.armed) = first + (s.rolled ++ [(_, _)]).length + 1
    rw [localDay_dueAfter harmed hearly, hdone.2, hlast, List.length_append, List.length_singleton]
    push_cast
    omega
  intro i date fired hi
  rcases lt_or_ge i s.rolled.length with hlt | hge
  · rw [DailyTimer.fire, List.getElem?_append_left hlt] at hi
    exact h.done i date fired hi
  -- the day before the firing, which has ended as days do not run backwards
  · rw [DailyTimer.fire, List.getElem?_append_right hge] at hi
    obtain ⟨hzero, hpair⟩ : i - s.rolled.length = 0 ∧
        (yesterday f.fired, f.fired) = (date, fired) := by
      cases hindex : i - s.rolled.length with
      | zero =>
        rw [hindex] at hi
        exact ⟨rfl, Option.some.inj hi⟩
      | succ k =>
        rw [hindex] at hi
        exact nomatch hi
    obtain ⟨rfl, rfl⟩ := Prod.mk.inj hpair
    obtain rfl : i = s.rolled.length := by omega
    refine ⟨?_, fun t ht => ?_⟩
    · rw [(yesterday_iff hfired).mpr hyesterday, hlast, add_sub_cancel_right]
    · by_contra hle
      have hmono := localDay_mono (not_lt.mp hle)
      omega

theorem DailyTimer.Waiting.run (h : s.Waiting first) {firings : List Firing}
    (hontime : OnTime s firings)
    (hclear : ∀ f ∈ firings, ¬ YesterdayOff f.fired ∧ ¬ ArmsEarly f.armed) :
    (s.run firings).Waiting first := by
  induction firings generalizing s with
  | nil => exact h
  | cons f firings ih =>
    obtain ⟨⟨-, hday, hle, hdone, hshown⟩, hrest⟩ := hontime
    obtain ⟨hyesterday, hearly⟩ := hclear f (List.mem_cons_self ..)
    exact ih (h.fire hday ⟨hle, hdone⟩ hshown hyesterday hearly) hrest
      fun f' hf' => hclear f' (List.mem_cons_of_mem _ hf')

end Runs

/-- The callbacks are right at an instant exactly if it is clear of the hours next to the changes,
and a run that stays clear of those that matter to it rolls up each day once, after it has ended. -/
theorem dayBoundaries_iff (now boot : ℤ) (firings : List Firing) :
    (Shown now → (DayBoundaries now ↔
      ¬ (YesterdayOff now ∨ TomorrowOff now ∨ ArmsLate now ∨ ArmsEarly now))) ∧
    (Shown boot → OnTime (.init boot) firings → ¬ ArmsEarly boot →
      (∀ f ∈ firings, ¬ YesterdayOff f.fired ∧ ¬ ArmsEarly f.armed) →
      EachDayOnce (localDay boot) ((DailyTimer.init boot).run firings)) := by
  refine ⟨fun h => ⟨fun hright => ?_, fun hclear => ?_⟩, fun h hontime hearly hclear =>
    ((DailyTimer.Waiting.init h hearly).run hontime hclear).done⟩
  · have hyesterday := (yesterday_iff h).mp hright.yesterday
    have htomorrow := (tomorrow_iff h).mp hright.tomorrow
    have hnext := (nextMidnight_iff h).mp hright.nextMidnight
    rintro (hoff | hoff | hoff)
    · exact hyesterday hoff
    · exact htomorrow hoff
    · exact hnext hoff
  · rw [not_or, not_or] at hclear
    obtain ⟨hyesterday, htomorrow, hnext⟩ := hclear
    exact ⟨(yesterday_iff h).mpr hyesterday, (tomorrow_iff h).mpr htomorrow,
      (solarTomorrow_iff h).mpr (not_or.mp hnext).2, (nextMidnight_iff h).mpr hnext⟩

/-- Over the change in March: the second firing is at 01:00, when the timer was due. -/
theorem eachDayOnce_march : EachDayOnce (localDay 1743249600) ((DailyTimer.init 1743249600).run
    [{ fired := 1743292800, armed := 1743292802 }, { fired := 1743379200, armed := 1743379201 }]) :=
  (dayBoundaries_iff 1743379200 1743249600
    [{ fired := 1743292800, armed := 1743292802 }, { fired := 1743379200, armed := 1743379201 }]).2
    (by decide) ⟨by decide, by decide, trivial⟩ (by decide) (by decide)

/-- On 2025-10-26 the timer that was armed at midnight fires at 23:00, and the day that is rolled up
is that day. -/
theorem change_day_not_ended : ¬ ∀ boot firings, Shown boot → OnTime (.init boot) firings →
    (∀ f ∈ firings, DayBoundaries f.fired) ∧
      EachDayOnce (localDay boot) ((DailyTimer.init boot).run firings) := by
  intro h
  have hontime : OnTime (.init 1761390000)
      [{ fired := 1761433200, armed := 1761433200 },
        { fired := 1761519600, armed := 1761519600 }] :=
    ⟨by decide, by decide, trivial⟩
  have hlast := (h _ _ (by decide) hontime).2 1 (dateStr (localDay 1761519600)) 1761519600
    (by decide)
  exact lt_irrefl _ (hlast.2 1761519600 (by decide))

end HomeEnergyManager.DayFiles
