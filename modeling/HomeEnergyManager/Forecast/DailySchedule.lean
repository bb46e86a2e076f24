import HomeEnergyManager.DayFiles.Midnight

/-! # The instants of the daily forecast job

`schedule_next_daily_job` takes today's slot from the fields of the local time, and tomorrow's from
the fields that `mktime` made of it. Both keep the `tm_isdst` of the moment, so that the slot is two
hours after midnight on the clock that is in force when the timer is armed. On the day of a change
it comes at three in March and at one in October, when it comes again at two.

Reference: `firmware/main/solar_forecast.c`.
-/

namespace HomeEnergyManager.Forecast

open Civil DayFiles

/-- Local hour at which the daily forecast job runs. -/
def DAILY_JOB_HOUR : ℤ := 2

/-- `tm_info` at the slot of the day. -/
def slotTm (now : ℤ) : Tm :=
  let tm := localtime now
  { tm with hour := DAILY_JOB_HOUR, min := 0, sec := 0 }

/-- `next` of `schedule_next_daily_job`. -/
def nextDailyJob (now : ℤ) : ℤ :=
  let today := mktime (slotTm now)
  if today.1 ≤ now then
    -- already past today's slot
    (mktime { today.2 with mday := today.2.mday + 1 }).1
  else today.1

/-- `delay_us`. -/
def jobDelayUs (now : ℤ) : ℕ := ((nextDailyJob now - now) % 2 ^ 64).toNat * 1000000 % 2 ^ 64

/-- The instant for which the timer is armed. -/
def jobDueAfter (now : ℤ) : ℤ := now + jobDelayUs now / 1000000

/-- `today_date`. -/
def todayDate (now : ℤ) : DateStr := strftimeDate (localtime now)

/-! ## The slot -/

/-- The day of the next slot. -/
def slotDay (now : ℤ) : ℤ := if localSec now < 7200 then localDay now else localDay now + 1

/-- The slot is on the day of the change in March, and it is winter still. -/
def SlotLate (now : ℤ) : Prop := slotDay now = springChange now ∧ isdst now = 0

/-- The slot is on the day of the change in October, and it is summer still. -/
def SlotEarly (now : ℤ) : Prop := slotDay now = autumnChange now ∧ isdst now = 1

instance (now : ℤ) : Decidable (SlotLate now) := inferInstanceAs (Decidable (_ ∧ _))

instance (now : ℤ) : Decidable (SlotEarly now) := inferInstanceAs (Decidable (_ ∧ _))

section Instant

variable {now : ℤ}

theorem clock_slotTm (now : ℤ) : (slotTm now).clock = utcMidnight (localDay now) + 7200 := by
  have hclock : (slotTm now).clock = utcMidnight (localDay now + 0) + (2 * 3600 + 0 * 60 + 0) :=
    clock_moved now (slotTm now) 0 rfl rfl (add_zero _).symm
  rwa [add_zero] at hclock

/-- What `mktime` settles on at a slot: the clock keeps its hour where the `tm_isdst` is that of the
day. -/
theorem settleDst_slot {y z user : ℤ} (hy : 1970 ≤ y) (hz : newYear y ≤ z ∧ z ≤ newYear (y + 1))
    (huser : user = 0 ∨ user = 1) :
    settleDst (utcMidnight z + 7200) user =
      if lastSunday y 3 ≤ z ∧ z < lastSunday y 10 then
        (if user = 0 then utcMidnight z + 7200 + 3600 else utcMidnight z + 7200, 1)
      else (if user = 1 then utcMidnight z + 7200 - 3600 else utcMidnight z + 7200, 0) := by
  have hday : (utcMidnight z + 7200) / secPerDay = z := by
    unfold utcMidnight secPerDay
    omega
  have hsettle := @settleDst_near y (utcMidnight z + 7200) user hy (by omega) (by omega)
  generalize settleDst (utcMidnight z + 7200) user = r at hsettle
  unfold utcMidnight dstStart dstEnd secPerDay at *
  rcases hsettle with ⟨hfrom, hto, rfl⟩ | ⟨hfrom, hto, rfl⟩ | ⟨hout, rfl⟩
  · omega
  · have hsummer : lastSunday y 3 ≤ z ∧ z < lastSunday y 10 := by omega
    rw [if_pos hsummer]
  · have hwinter : ¬ (lastSunday y 3 ≤ z ∧ z < lastSunday y 10) := by omega
    rw [if_neg hwinter]

/-- The fields of the slot that has passed, on the next day. -/
theorem clock_clockTm_next (w dst : ℤ) :
    Tm.clock { clockTm w dst with mday := (clockTm w dst).mday + 1 } = w + secPerDay := by
  have hclock : Tm.clock { clockTm w dst with mday := (clockTm w dst).mday + 1 }
      = (w / secPerDay + 1) * secPerDay + (w % secPerDay / 3600) * 3600
        + (w % secPerDay / 60 % 60) * 60 + w % secPerDay % 60 :=
    clock_of_toDate rfl rfl rfl
  rw [hclock]
  unfold secPerDay
  omega

/-- The slot is two hours after midnight on the clock of the moment, in summer or in winter time. -/
theorem nextDailyJob_clock (h : Shown now) :
    nextDailyJob now = utcMidnight (slotDay now) + 7200 - utcOffset now := by
  obtain ⟨y, hy⟩ : ∃ y, (toDate (localDay now)).year = y := ⟨_, rfl⟩
  obtain ⟨hyear, -, hspec, hsec, hside⟩ := h.sides hy
  have huser : isdst now = 0 ∨ isdst now = 1 := by omega
  have hclock := clock_eq now
  have hdated : Dated ((slotTm now).clock / secPerDay) := by
    rw [clock_slotTm]
    apply h.dated
    unfold utcMidnight secPerDay
    omega
  have htoday : (mktime (slotTm now)).1 = utcMidnight (localDay now) + 7200 - utcOffset now := by
    rw [mktime_eq hdated, clock_slotTm]
    change (settleDst _ (isdst now)).1 - (if (settleDst _ (isdst now)).2 = 1 then 3600 else 0) = _
    rw [settleDst_slot hyear (by omega) huser, utcOffset]
    rcases huser with hdst | hdst <;> rw [hdst] <;> split_ifs <;> omega
  unfold nextDailyJob
  dsimp only
  rw [htoday, slotDay]
  by_cases hbefore : localSec now < 7200
  · rw [if_neg (by omega), if_pos hbefore]
  rw [if_pos (by omega), if_neg hbefore]
  -- past the slot the `tm_isdst` is that of the day
  have hkept : settleDst (utcMidnight (localDay now) + 7200) (isdst now)
      = (utcMidnight (localDay now) + 7200, isdst now) := by
    have hside := isdst_clock h.1 hy rfl
    rw [settleDst_slot hyear (by omega) huser]
    unfold dstStart dstEnd utcMidnight secPerDay at *
    rcases huser with hdst | hdst <;> rw [hdst] at hside ⊢
    · rw [if_neg (by omega)]
      rfl
    · rw [if_pos (by omega)]
      rfl
  have htm : (mktime (slotTm now)).2 = clockTm (utcMidnight (localDay now) + 7200) (isdst now) := by
    rw [mktime_eq hdated, clock_slotTm]
    change clockTm (settleDst _ (isdst now)).1 (settleDst _ (isdst now)).2 = _
    rw [hkept]
  have hnext : utcMidnight (localDay now) + 7200 + secPerDay
      = utcMidnight (localDay now + 1) + 7200 := by
    unfold utcMidnight secPerDay
    omega
  have hdated' : Dated ((utcMidnight (localDay now + 1) + 7200) / secPerDay) := by
    apply h.dated
    unfold utcMidnight secPerDay
    omega
  rw [htm, mktime_eq (by rwa [clock_clockTm_next, hnext]), clock_clockTm_next, hnext]
  change (settleDst _ (isdst now)).1 - (if (settleDst _ (isdst now)).2 = 1 then 3600 else 0) = _
  rw [settleDst_slot hyear (by omega) huser, utcOffset]
  rcases huser with hdst | hdst <;> rw [hdst] <;> split_ifs <;> omega

/-- It is ahead, on its day, and at two unless the clocks change between. -/
theorem nextDailyJob_near (h : Shown now) :
    now < nextDailyJob now ∧ nextDailyJob now < now + 2 * secPerDay ∧
      localDay (nextDailyJob now) = slotDay now ∧
      localSec (nextDailyJob now) = 7200 + utcOffset (nextDailyJob now) - utcOffset now ∧
      (utcOffset (nextDailyJob now) = utcOffset now ↔ ¬ (SlotLate now ∨ SlotEarly now)) ∧
      (SlotLate now → utcOffset now = 0) ∧ (SlotEarly now → utcOffset now = 3600) := by
  obtain ⟨y, hy⟩ : ∃ y, (toDate (localDay now)).year = y := ⟨_, rfl⟩
  obtain ⟨hyear, -, hspec, hsec, hside⟩ := h.sides hy
  have hnow := clock_eq now
  have hoff := utcOffset_eq now
  have hbounds := lastSunday_bounds y
  have hnext := nextDailyJob_clock h
  have hslot : slotDay now = localDay now ∧ localSec now < 7200 ∨
      slotDay now = localDay now + 1 ∧ 7200 ≤ localSec now := by
    unfold slotDay
    split_ifs with hbefore <;> omega
  have hlate : SlotLate now ↔ slotDay now = lastSunday y 3 ∧ isdst now = 0 := by
    rw [SlotLate, springChange, hy]
  have hearly : SlotEarly now ↔ slotDay now = lastSunday y 10 ∧ isdst now = 1 := by
    rw [SlotEarly, autumnChange, hy]
  rw [hlate, hearly]
  generalize slotDay now = z at *
  generalize nextDailyJob now = t at *
  have hnear := @utcOffset_near y t hyear (by unfold utcMidnight secPerDay at *; omega)
  have hsides := isdst_clock h.1 hy rfl
  have hdst : utcOffset now = if isdst now = 1 then 3600 else 0 := rfl
  have hoff' := utcOffset_eq t
  unfold localDay localSec utcMidnight dstStart dstEnd secPerDay at *
  refine ⟨by omega, by omega, by omega, by omega, ?_, ?_, ?_⟩ <;> split_ifs at hnear hdst <;> omega

/-- The delay is positive and far from overflow. -/
theorem jobDueAfter_eq (h : Shown now) : jobDueAfter now = nextDailyJob now := by
  obtain ⟨hlt, hlt', -⟩ := nextDailyJob_near h
  unfold jobDueAfter jobDelayUs
  unfold secPerDay at hlt'
  omega

/-- The timer is armed for two o'clock on the day of the slot exactly if the clocks do not change
between; else it is for three in March and for one in October. -/
theorem jobDueAfter_beginsHour (h : Shown now) :
    now < jobDueAfter now ∧ BeginsHour (slotDay now)
      (if SlotLate now then 3 else if SlotEarly now then 1 else 2) (jobDueAfter now) := by
  obtain ⟨hlt, -, hday, hsec, hiff, hlate, hearly⟩ := nextDailyJob_near h
  rw [jobDueAfter_eq h]
  refine ⟨hlt, ?_⟩
  have hoff := utcOffset_eq now
  have hoff' := utcOffset_eq (nextDailyJob now)
  have hclock := clock_eq (nextDailyJob now)
  rw [hday] at hclock
  apply beginsHour_of_clock (by split_ifs <;> decide)
  rw [← hclock]
  split_ifs with hl he
  · have hne := mt hiff.mp (not_not_intro (.inl hl))
    have hzero := hlate hl
    omega
  · have hne := mt hiff.mp (not_not_intro (.inr he))
    have hone := hearly he
    omega
  · have heq := hiff.mpr (not_or.mpr ⟨hl, he⟩)
    omega

/-- Armed before the change in March 2025, the timer is due at three. -/
theorem jobDueAfter_march : 1743249600 < jobDueAfter 1743249600 ∧ BeginsHour (slotDay 1743249600)
    (if SlotLate 1743249600 then 3 else if SlotEarly 1743249600 then 1 else 2)
    (jobDueAfter 1743249600) :=
  jobDueAfter_beginsHour (by decide)

end Instant

/-! ## Runs of the job -/

/-- When the timer is due, and the instants at which the job took its date. -/
structure JobTimer where
  due : ℤ
  jobs : List ℤ

/-- `solar_forecast_start_daily_job`, as far as the timer is concerned. -/
def JobTimer.init (now : ℤ) : JobTimer := { due := jobDueAfter now, jobs := [] }

/-- The daily branch of `job_task`: the job, and the timer armed again when it is done. -/
def JobTimer.fire (s : JobTimer) (f : Firing) : JobTimer :=
  { due := jobDueAfter f.armed, jobs := s.jobs ++ [f.fired] }

def JobTimer.run (s : JobTimer) (firings : List Firing) : JobTimer :=
  firings.foldl JobTimer.fire s

/-- Each job begins when the timer is due or later, but on that day, and ends on it. -/
def JobsOnTime (s : JobTimer) : List Firing → Prop
  | [] => True
  | f :: firings =>
    (s.due ≤ f.fired ∧ localDay f.fired = localDay s.due ∧ f.fired ≤ f.armed ∧
      localDay f.armed = localDay f.fired ∧ Shown f.fired) ∧ JobsOnTime (s.fire f) firings

/-- The day of the change in October. -/
def AutumnDay (z : ℤ) : Prop := z = lastSunday (toDate z).year 10

/-- How many of the jobs were for a day. -/
def JobTimer.count (s : JobTimer) (z : ℤ) : ℕ := s.jobs.countP (todayDate · = dateStr z)

/-- Every day before the one on which the timer is due has its job from `first` on, and none has two
but the day of the change in October. -/
def EveryDay (first : ℤ) (s : JobTimer) : Prop :=
  ∀ z, first ≤ z → z < localDay s.due → s.count z = 1 ∨ s.count z = 2 ∧ AutumnDay z

/-- Between two jobs. The timer is due after the slot of a day without a job; but on the day of the
change in October it is due at one first, and then after the slot with one job done. -/
structure JobTimer.Waiting (first : ℤ) (s : JobTimer) : Prop where
  first_dated : Dated first
  first_le : first ≤ localDay s.due
  due : Dated (localDay s.due)
  jobs : ∀ t ∈ s.jobs, Dated (localDay t) ∧ localDay t ≤ localDay s.due
  done : EveryDay first s
  today : s.count (localDay s.due) = 0 ∧ 7200 ≤ localSec s.due ∨
    AutumnDay (localDay s.due) ∧
      (s.count (localDay s.due) = 0 ∧ localSec s.due < 7200 ∧ isdst s.due = 0 ∨
        s.count (localDay s.due) = 1 ∧ 7200 ≤ localSec s.due)

section Runs

variable {first : ℤ} {s : JobTimer} {f : Firing}

theorem todayDate_eq_iff {t z : ℤ} (ht : Dated (localDay t)) (hz : Dated z) :
    todayDate t = dateStr z ↔ localDay t = z := by
  rw [todayDate, strftimeDate_localtime]
  exact ⟨dateStr_injective ht hz, congrArg dateStr⟩

/-- The clock of a day does not come back to before its slot, nor to summer time. -/
theorem localSec_slot {t t' : ℤ} (h : 0 ≤ t) (hle : t ≤ t') (hday : localDay t' = localDay t) :
    (7200 ≤ localSec t → 7200 ≤ localSec t') ∧
      (localSec t < 7200 → isdst t = 0 → AutumnDay (localDay t) → isdst t' = 0) := by
  obtain ⟨y, hy⟩ : ∃ y, (toDate (localDay t)).year = y := ⟨_, rfl⟩
  have hbounds := lastSunday_bounds y
  have hside := isdst_clock h hy rfl
  have hside' := isdst_clock (h.trans hle) (hday ▸ hy) rfl
  have hsec := localSec_nonneg t
  have hsec' := localSec_nonneg t'
  unfold AutumnDay
  rw [hy]
  rw [hday] at hside'
  unfold utcMidnight dstStart dstEnd secPerDay at *
  omega

theorem autumnDay_autumnChange (now : ℤ) : AutumnDay (autumnChange now) := by
  have hbounds := lastSunday_bounds (toDate (localDay now)).year
  have hyear := (year_eq_iff (autumnChange now) (toDate (localDay now)).year).mpr
    ⟨by unfold autumnChange; omega, by unfold autumnChange; omega⟩
  rw [AutumnDay, hyear, autumnChange]

theorem isdst_eq_zero {t : ℤ} (h : 0 ≤ t) (hoff : utcOffset t = 0) : isdst t = 0 := by
  rcases isdst_clock h rfl rfl with ⟨hdst, -⟩ | ⟨hdst, -⟩
  · rw [utcOffset, if_pos hdst] at hoff
    omega
  · exact hdst

/-- The timer is due after the slot, but on the day of the change in October it can be due at
one. -/
theorem jobDueAfter_slot {now : ℤ} (h : Shown now) :
    now < jobDueAfter now ∧ localDay (jobDueAfter now) = slotDay now ∧
      (7200 ≤ localSec (jobDueAfter now) ∨ isdst now = 1 ∧ AutumnDay (localDay (jobDueAfter now)) ∧
        localSec (jobDueAfter now) < 7200 ∧ isdst (jobDueAfter now) = 0) := by
  obtain ⟨hlt, -, hnext, hsec, hiff, hlate, hearly⟩ := nextDailyJob_near h
  rw [jobDueAfter_eq h]
  have hoff := utcOffset_eq (nextDailyJob now)
  refine ⟨hlt, hnext, ?_⟩
  by_cases hcome : SlotEarly now
  · have hone := hearly hcome
    have hne := mt hiff.mp (not_not_intro (.inr hcome))
    refine .inr ⟨hcome.2, ?_, by omega, isdst_eq_zero (h.1.trans hlt.le) (by omega)⟩
    rw [hnext, hcome.1]
    exact autumnDay_autumnChange _
  · by_cases hl : SlotLate now
    · have hzero := hlate hl
      exact .inl (by omega)
    · have heq := hiff.mpr (not_or.mpr ⟨hl, hcome⟩)
      exact .inl (by omega)

/-- The job of a firing is counted for its day. -/
theorem JobTimer.count_fire (hfired : Dated (localDay f.fired)) {z : ℤ} (hz : Dated z) :
    (s.fire f).count z = s.count z + if localDay f.fired = z then 1 else 0 := by
  rw [JobTimer.count, JobTimer.fire, List.countP_append, List.countP_singleton, JobTimer.count]
  simp only [decide_eq_true_eq, todayDate_eq_iff hfired hz]

/-- No job has been done for a day that is still to come. -/
theorem JobTimer.count_eq_zero {z d : ℤ} (hjobs : ∀ t ∈ s.jobs, Dated (localDay t) ∧ localDay t ≤ d)
    (hz : Dated z) (hlt : d < z) : s.count z = 0 := by
  rw [JobTimer.count, List.countP_eq_zero]
  intro t ht heq
  obtain ⟨hdated, hle⟩ := hjobs t ht
  have hday := (todayDate_eq_iff hdated hz).mp (of_decide_eq_true heq)
  omega

/-- A job on the day on which the timer is due, and the timer armed again on that day. -/
theorem JobTimer.Waiting.fire (h : s.Waiting first)
    (hontime : s.due ≤ f.fired ∧ localDay f.fired = localDay s.due ∧ f.fired ≤ f.armed ∧
      localDay f.armed = localDay f.fired ∧ Shown f.fired)
    (hdue : 0 ≤ s.due) : (s.fire f).Waiting first ∧ 0 ≤ (s.fire f).due := by
  obtain ⟨hle, hday, hdone, harmed, hshown⟩ := hontime
  have hshown' : Shown f.armed := ⟨hshown.1.trans hdone, harmed ▸ hshown.2⟩
  obtain ⟨hlt, hnext, hslotted⟩ := jobDueAfter_slot hshown'
  change f.armed < (s.fire f).due at hlt
  change localDay (s.fire f).due = _ at hnext
  change 7200 ≤ localSec (s.fire f).due ∨ _ ∧ AutumnDay (localDay (s.fire f).due) ∧
    localSec (s.fire f).due < 7200 ∧ isdst (s.fire f).due = 0 at hslotted
  obtain ⟨hslot, hwinter⟩ := localSec_slot hdue (hle.trans hdone) (harmed.trans hday)
  have hdated : Dated (localDay f.fired) := hday ▸ h.due
  have hjobs : ∀ t ∈ (s.fire f).jobs, Dated (localDay t) ∧ localDay t ≤ localDay s.due := by
    intro t ht
    rw [JobTimer.fire, List.mem_append, List.mem_singleton] at ht
    rcases ht with ht | rfl
    · exact h.jobs t ht
    · exact ⟨hdated, hday.le⟩
  have hcount (z : ℤ) (hz : Dated z) := JobTimer.count_fire (s := s) hdated hz
  rw [hday] at hcount
  have hbefore : ∀ z, first ≤ z → z < localDay s.due →
      (s.fire f).count z = 1 ∨ (s.fire f).count z = 2 ∧ AutumnDay z := by
    intro z hz hz'
    rw [hcount z (h.first_dated.of_mem h.due ⟨hz, hz'.le⟩), if_neg (ne_of_gt hz')]
    exact h.done z hz hz'
  have hcount' := hcount _ h.due
  rw [if_pos rfl] at hcount'
  refine ⟨?_, hdue.trans (hle.trans (hdone.trans hlt.le))⟩
  by_cases hpast : 7200 ≤ localSec f.armed
  -- past the slot: tomorrow's is next
  · have hnext' : localDay (s.fire f).due = localDay s.due + 1 := by
      rw [hnext, slotDay, if_neg (not_lt.mpr hpast), harmed, hday]
    have htomorrow : Dated (localDay s.due + 1) := hday ▸ harmed ▸ hshown'.2
    have hnone := JobTimer.count_eq_zero hjobs htomorrow (lt_add_one _)
    refine ⟨h.first_dated, ?_, ?_, fun t ht => ?_, fun z hz hz' => ?_, ?_⟩
    · rw [hnext']
      exact h.first_le.trans (lt_add_one _).le
    · rwa [hnext']
    · rw [hnext']
      exact ⟨(hjobs t ht).1, (hjobs t ht).2.trans (lt_add_one _).le⟩
    · rw [hnext'] at hz'
      rcases (Int.lt_add_one_iff.mp hz').lt_or_eq with hlt' | rfl
      · exact hbefore z hz hlt'
      · rcases h.today with ⟨hzero, -⟩ | ⟨hautumn, ⟨hzero, -⟩ | ⟨hone, -⟩⟩
        · exact .inl (by rw [hcount', hzero])
        · exact .inl (by rw [hcount', hzero])
        · exact .inr ⟨by rw [hcount', hone], hautumn⟩
    · rw [hnext'] at hslotted ⊢
      rw [hnone]
      rcases hslotted with hsec | ⟨-, hautumn, hsec⟩
      · exact .inl ⟨rfl, hsec⟩
      · exact .inr ⟨hautumn, .inl ⟨rfl, hsec⟩⟩
  -- before it, which is on the day of the change in October only, after one o'clock in winter time
  · rcases h.today with ⟨-, hsec'⟩ | ⟨hautumn, ⟨hzero, hsec', hdst⟩ | ⟨-, hsec'⟩⟩
    · exact absurd (hslot hsec') hpast
    · have hwinter' := hwinter hsec' hdst hautumn
      have hnext' : localDay (s.fire f).due = localDay s.due := by
        rw [hnext, slotDay, if_pos (not_le.mp hpast), harmed, hday]
      have hsec : 7200 ≤ localSec (s.fire f).due := by
        rcases hslotted with hsec | ⟨hsummer, -⟩
        · exact hsec
        · omega
      refine ⟨h.first_dated, ?_, ?_, fun t ht => ?_, fun z hz hz' => ?_, ?_⟩ <;>
        simp only [hnext'] at *
      · exact h.first_le
      · exact h.due
      · exact hjobs t ht
      · exact hbefore z hz hz'
      · exact .inr ⟨hautumn, .inr ⟨by rw [hcount', hzero], hsec⟩⟩
    · exact absurd (hslot hsec') hpast

theorem JobTimer.Waiting.init {boot : ℤ} (h : Shown boot) :
    (JobTimer.init boot).Waiting (slotDay boot) ∧ 0 ≤ (JobTimer.init boot).due := by
  obtain ⟨hlt, hnext, hslotted⟩ := jobDueAfter_slot h
  change localDay (JobTimer.init boot).due = _ at hnext
  have hdated : Dated (slotDay boot) := by
    apply h.dated
    unfold slotDay
    split_ifs <;> omega
  refine ⟨⟨hdated, hnext.ge, hnext ▸ hdated, (fun t ht => nomatch ht), fun z hz hz' => ?_, ?_⟩,
    h.1.trans hlt.le⟩
  · exact absurd (hnext ▸ hz') (not_lt.mpr hz)
  · rcases hslotted with hsec | ⟨-, hautumn, hsec⟩
    · exact .inl ⟨rfl, hsec⟩
    · exact .inr ⟨hautumn, .inl ⟨rfl, hsec⟩⟩

theorem JobTimer.Waiting.run (h : s.Waiting first) (hdue : 0 ≤ s.due) {firings : List Firing}
    (hontime : JobsOnTime s firings) : (s.run firings).Waiting first := by
  induction firings generalizing s with
  | nil => exact h
  | cons f firings ih =>
    obtain ⟨hfire, hdue'⟩ := h.fire hontime.1 hdue
    exact ih hfire hdue' hontime.2

end Runs

/-- From any instant at which the timer is armed, no day from that of its slot on is left without
its job, over any number of years, and only the day of the change in October can have two. -/
theorem dailyJob_everyDay (boot : ℤ) (firings : List Firing) (h : Shown boot)
    (hontime : JobsOnTime (.init boot) firings) :
    EveryDay (slotDay boot) ((JobTimer.init boot).run firings) := by
  obtain ⟨hinit, hdue⟩ := JobTimer.Waiting.init h
  exact (hinit.run hdue hontime).done

end HomeEnergyManager.Forecast
