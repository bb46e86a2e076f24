import HomeEnergyManager.Forecast.SurplusModel
import HomeEnergyManager.Lib.Accumulate
import HomeEnergyManager.Lib.LeastSquares

/-! # The fit of the surplus model

The training divides by no zero. The slope of an hour, where there is one, and its intercept are the
line of least squares through the samples of the hour, and the intercept of a weekday leaves
residuals on its samples that add up to zero.

Reference: `surplus_model_train` in `firmware/main/surplus_model.c`.
-/

namespace HomeEnergyManager.Forecast

open NodePowerLogger (PowerRecord)
open LeastSquares

/-! ## What the model is fitted to -/

/-- A day's forecast solar power and surplus at an hour. -/
structure Sample where
  dow : ℕ
  x : ℚ
  y : ℚ

/-- The sample of an hour of a day with both files, if its grid file has the hour. Of an hour that
the forecast leaves out the solar power is zero. -/
def fileSample (dow : ℕ) (grid solar : List PowerRecord) (h : ℕ) : Option Sample :=
  if ∃ rec ∈ grid, localHour rec = h then
    some { dow := dow, x := loadHourlyMw solar h, y := -loadHourlyMw grid h }
  else none

/-- The sample of an hour so many days ago. -/
def daySample (now : ℤ) (c : Card) (h d : ℕ) : Option Sample :=
  match c.gridHourly (strftimeDate (dayTm now d)), c.solarForecast (strftimeDate (dayTm now d)) with
  | some grid, some solar => fileSample (wday (dayTm now d)) grid solar h
  | _, _ => none

/-- The samples of an hour over the window that ends yesterday. -/
def samples (now : ℤ) (windowDays : ℕ) (c : Card) (h : ℕ) : List Sample :=
  ((List.range windowDays).map (· + 1)).filterMap (daySample now c h)

def points (l : List Sample) : List (ℚ × ℚ) := l.map fun p => (p.x, p.y)

def onWeekday (l : List Sample) (dow : ℕ) : List Sample := l.filter fun p => p.dow = dow

/-- The denominator of the slope. -/
def denom (l : List Sample) : ℚ :=
  l.length * (l.map fun p => p.x ^ 2).sum - (l.map (·.x)).sum ^ 2

/-- The intercept that goes with a slope: the mean of what it leaves. -/
def intercept (l : List Sample) (slope : ℚ) : ℚ := mean (l.map fun p => p.y - slope * p.x)

/-- There are days enough, and the solar power is not constant. -/
def Sloped (l : List Sample) : Prop :=
  MIN_SLOPE_DAYS ≤ l.length ∧ VAR_EPS_MW2 < variance (l.map (·.x))

/-- What an hour of the model should be. -/
structure Fitted (l : List Sample) (m : HourModel) : Prop where
  slope : Sloped l → 0 < denom l ∧
    ∀ a b, squares (points l) m.a (intercept l m.a) ≤ squares (points l) a b
  flat : ¬ Sloped l → m.a = 0
  bucket : ∀ dow, onWeekday l dow ≠ [] → ∃ b, m.b[dow]? = some b ∧
    residuals (points (onWeekday l dow)) m.a b = 0
  /-- A weekday without samples has the intercept of the hour. -/
  unsampled : ∀ dow < DOWS, onWeekday l dow = [] → m.b[dow]? = some (intercept l m.a)

/-! ## Reading a file -/

theorem put_mw (file : HourlyFile) (k : ℤ) (rec : PowerRecord) {h : ℕ} (hh : h < HOURS) :
    (file.put k rec).mw h = if k = h then rec.powerMw else file.mw h := by
  unfold HourlyFile.put
  by_cases hout : k < 0 ∨ HOURS ≤ k
  · rw [if_pos hout, if_neg (by omega)]
  · rw [if_neg hout]
    by_cases heq : k = h
    · rw [if_pos heq, heq, Int.toNat_natCast]
      exact Function.update_self h _ _
    · rw [if_neg heq]
      exact Function.update_of_ne (by omega) _ _

theorem put_present (file : HourlyFile) (k : ℤ) (rec : PowerRecord) {h : ℕ} (hh : h < HOURS) :
    (file.put k rec).present h = true ↔ k = h ∨ file.present h = true := by
  unfold HourlyFile.put
  by_cases hout : k < 0 ∨ HOURS ≤ k
  · rw [if_pos hout]
    exact (or_iff_right (by omega)).symm
  · rw [if_neg hout]
    by_cases heq : k = h
    · rw [heq, Int.toNat_natCast]
      simp
    · rw [or_iff_right heq]
      exact iff_of_eq (congrArg (· = true) (Function.update_of_ne (by omega) _ _))

theorem loadHourlyFile_mw (recs : List PowerRecord) {h : ℕ} (hh : h < HOURS) :
    (loadHourlyFile recs).mw h = loadHourlyMw recs h := by
  suffices hrun : ∀ file : HourlyFile,
      (recs.foldl (fun file rec => file.put (localHour rec) rec) file).mw h =
        LastWrite.cell (fun rec => localHour rec = h) (·.powerMw) recs (file.mw h) from hrun {}
  induction recs with
  | nil => exact fun _ => rfl
  | cons rec recs ih =>
    intro file
    rw [List.foldl_cons, ih, LastWrite.cell_cons, put_mw file _ rec hh]

theorem loadHourlyFile_present (recs : List PowerRecord) {h : ℕ} (hh : h < HOURS) :
    (loadHourlyFile recs).present h = true ↔ ∃ rec ∈ recs, localHour rec = h := by
  suffices hrun : ∀ file : HourlyFile,
      (recs.foldl (fun file rec => file.put (localHour rec) rec) file).present h = true ↔
        (∃ rec ∈ recs, localHour rec = h) ∨ file.present h = true by
    refine (hrun {}).trans (or_iff_left ?_)
    exact Bool.false_ne_true
  induction recs with
  | nil => simp
  | cons rec recs ih =>
    intro file
    rw [List.foldl_cons, ih, put_present file _ rec hh, List.exists_mem_cons_iff, or_assoc,
      or_left_comm]

/-! ## The sums -/

def HourSums.take (s : HourSums) (p : Sample) : HourSums := s.add p.x p.y

def BucketSums.take (s : BucketSums) (p : Sample) : BucketSums := s.add p.x p.y

theorem addHour_hour (dow : ℕ) (solar grid : HourlyFile) (s : Sums) (k h : ℕ) :
    (s.addHour dow solar grid k).hour h =
      if k = h then
        if grid.present h then (s.hour h).add (solar.mw h) (-grid.mw h) else s.hour h
      else s.hour h := by
  unfold Sums.addHour
  rcases eq_or_ne k h with rfl | hne
  · cases grid.present k <;> simp
  · cases grid.present k <;> simp [hne, hne.symm]

theorem addHour_bucket (dow : ℕ) (solar grid : HourlyFile) (s : Sums) (k h j : ℕ) :
    (s.addHour dow solar grid k).bucket h j =
      if k = h then
        if grid.present h ∧ dow = j then (s.bucket h j).add (solar.mw h) (-grid.mw h)
        else s.bucket h j
      else s.bucket h j := by
  unfold Sums.addHour
  rcases eq_or_ne k h with rfl | hne
  · rcases eq_or_ne dow j with rfl | hj
    · cases grid.present k <;> simp
    · cases grid.present k <;> simp [hj, hj.symm]
  · cases grid.present k <;> simp [hne, hne.symm]

/-- The count of the usable days leaves the sums as the loop over the hours has them. -/
theorem addFiles_sums (dow : ℕ) (grid solar : List PowerRecord) (s : Sums) :
    let loop := (List.range HOURS).foldl
      (Sums.addHour dow (loadHourlyFile solar) (loadHourlyFile grid)) s
    (s.addFiles dow grid solar).hour = loop.hour ∧
      (s.addFiles dow grid solar).bucket = loop.bucket := by
  unfold Sums.addFiles
  dsimp only
  split <;> exact ⟨rfl, rfl⟩

/-- A day with both files adds its sample of an hour, if it has one. -/
theorem addFiles_hour (dow : ℕ) (grid solar : List PowerRecord) (s : Sums) {h : ℕ}
    (hh : h < HOURS) : (s.addFiles dow grid solar).hour h =
      (fileSample dow grid solar h).elim (s.hour h) (s.hour h).take := by
  have hloop := Accumulate.place_foldl_once
    (Sums.addHour dow (loadHourlyFile solar) (loadHourlyFile grid)) (fun s => s.hour h)
    (fun x => if (loadHourlyFile grid).present h then
      x.add ((loadHourlyFile solar).mw h) (-(loadHourlyFile grid).mw h) else x)
    (fun s k => addHour_hour dow _ _ s k h) s (List.nodup_range (n := HOURS))
  rw [(addFiles_sums dow grid solar s).1, hloop, if_pos (List.mem_range.mpr hh)]
  simp only [loadHourlyFile_present grid hh, loadHourlyFile_mw _ hh]
  rw [fileSample, apply_ite (Option.elim · _ _)]
  rfl

theorem addFiles_bucket (dow : ℕ) (grid solar : List PowerRecord) (s : Sums) {h : ℕ}
    (hh : h < HOURS) (j : ℕ) : (s.addFiles dow grid solar).bucket h j =
      ((fileSample dow grid solar h).filter (·.dow = j)).elim (s.bucket h j)
        (s.bucket h j).take := by
  have hloop := Accumulate.place_foldl_once
    (Sums.addHour dow (loadHourlyFile solar) (loadHourlyFile grid)) (fun s => s.bucket h j)
    (fun x => if (loadHourlyFile grid).present h ∧ dow = j then
      x.add ((loadHourlyFile solar).mw h) (-(loadHourlyFile grid).mw h) else x)
    (fun s k => addHour_bucket dow _ _ s k h j) s (List.nodup_range (n := HOURS))
  rw [(addFiles_sums dow grid solar s).2, hloop, if_pos (List.mem_range.mpr hh)]
  simp only [loadHourlyFile_present grid hh, loadHourlyFile_mw _ hh]
  unfold fileSample
  by_cases hrec : ∃ rec ∈ grid, localHour rec = h
  · rw [if_pos hrec]
    rcases eq_or_ne dow j with rfl | hne
    · simp only [hrec, Option.filter]
      simp [BucketSums.take]
    · simp [hrec, hne, Option.filter]
  · simp [hrec]

theorem addDay_hour (now : ℤ) (c : Card) (s : Sums) (d : ℕ) {h : ℕ} (hh : h < HOURS) :
    (s.addDay now c d).hour h = (daySample now c h d).elim (s.hour h) (s.hour h).take := by
  unfold Sums.addDay daySample
  dsimp only
  cases c.gridHourly (strftimeDate (dayTm now d)) with
  | none => rfl
  | some grid =>
    cases c.solarForecast (strftimeDate (dayTm now d)) with
    | none => rfl
    | some solar => exact addFiles_hour _ grid solar s hh

theorem addDay_bucket (now : ℤ) (c : Card) (s : Sums) (d : ℕ) {h : ℕ} (hh : h < HOURS) (j : ℕ) :
    (s.addDay now c d).bucket h j =
      ((daySample now c h d).filter (·.dow = j)).elim (s.bucket h j) (s.bucket h j).take := by
  unfold Sums.addDay daySample
  dsimp only
  cases c.gridHourly (strftimeDate (dayTm now d)) with
  | none => rfl
  | some grid =>
    cases c.solarForecast (strftimeDate (dayTm now d)) with
    | none => rfl
    | some solar => exact addFiles_bucket _ grid solar s hh j

/-- The sums of an hour are those over its samples. -/
theorem sums_hour (now : ℤ) (windowDays : ℕ) (c : Card) {h : ℕ} (hh : h < HOURS) :
    (sums now windowDays c).hour h =
      (samples now windowDays c h).foldl HourSums.take {} :=
  Accumulate.place_foldl_filterMap (Sums.addDay now c) (fun s => s.hour h) _ _
    (fun s d => addDay_hour now c s d hh) _ _

theorem sums_bucket (now : ℤ) (windowDays : ℕ) (c : Card) {h : ℕ} (hh : h < HOURS) (j : ℕ) :
    (sums now windowDays c).bucket h j =
      (onWeekday (samples now windowDays c h) j).foldl BucketSums.take {} := by
  rw [onWeekday, samples, List.filter_filterMap]
  exact Accumulate.place_foldl_filterMap (Sums.addDay now c) (fun s => s.bucket h j) _ _
    (fun s d => addDay_bucket now c s d hh j) _ _

@[simp] theorem length_points (l : List Sample) : (points l).length = l.length :=
  List.length_map _

@[simp] theorem fst_points (l : List Sample) : (points l).map Prod.fst = l.map (·.x) := by
  rw [points, List.map_map]
  rfl

@[simp] theorem snd_points (l : List Sample) : (points l).map Prod.snd = l.map (·.y) := by
  rw [points, List.map_map]
  rfl

/-- The sums over some samples. -/
theorem foldl_hourSums (l : List Sample) : l.foldl HourSums.take {} =
    { n := l.length
      sx := ((points l).map Prod.fst).sum
      sy := ((points l).map Prod.snd).sum
      sxx := (((points l).map Prod.fst).map (· ^ 2)).sum
      sxy := ((points l).map fun p => p.1 * p.2).sum } := by
  suffices hrun : ∀ s : HourSums, l.foldl HourSums.take s =
      { n := s.n + l.length
        sx := s.sx + ((points l).map Prod.fst).sum
        sy := s.sy + ((points l).map Prod.snd).sum
        sxx := s.sxx + (((points l).map Prod.fst).map (· ^ 2)).sum
        sxy := s.sxy + ((points l).map fun p => p.1 * p.2).sum } by
    rw [hrun]
    simp only [zero_add]
  induction l with
  | nil => intro s; simp [points]
  | cons p l ih =>
    intro s
    rw [List.foldl_cons, ih]
    simp only [HourSums.take, HourSums.add, points, List.map_cons, List.sum_cons, List.length_cons,
      HourSums.mk.injEq]
    refine ⟨by omega, ?_, ?_, ?_, ?_⟩ <;> ring

theorem foldl_bucketSums (l : List Sample) : l.foldl BucketSums.take {} =
    { bcnt := l.length
      bsx := ((points l).map Prod.fst).sum
      bsy := ((points l).map Prod.snd).sum } := by
  suffices hrun : ∀ s : BucketSums, l.foldl BucketSums.take s =
      { bcnt := s.bcnt + l.length
        bsx := s.bsx + ((points l).map Prod.fst).sum
        bsy := s.bsy + ((points l).map Prod.snd).sum } by
    rw [hrun]
    simp only [zero_add]
  induction l with
  | nil => intro s; simp [points]
  | cons p l ih =>
    intro s
    rw [List.foldl_cons, ih]
    simp only [BucketSums.take, BucketSums.add, points, List.map_cons, List.sum_cons,
      List.length_cons, BucketSums.mk.injEq]
    refine ⟨by omega, ?_, ?_⟩ <;> ring

/-! ## The fit of an hour -/

theorem denom_eq (l : List Sample) : denom l =
    (points l).length * (((points l).map Prod.fst).map (· ^ 2)).sum
      - ((points l).map Prod.fst).sum * ((points l).map Prod.fst).sum := by
  rw [denom, fst_points, length_points, List.map_map, sq ((l.map (·.x)).sum)]
  rfl

/-- The guard on the variance is one on the denominator. -/
theorem Sloped.denom_pos {l : List Sample} (h : Sloped l) : 0 < denom l := by
  have hn : (0 : ℚ) < l.length := Nat.cast_pos.mpr (lt_of_lt_of_le (by decide) h.1)
  have hvar : 0 < variance (l.map (·.x)) := lt_trans (by norm_num [VAR_EPS_MW2]) h.2
  have hscale := length_mul_sum_sq (l.map (·.x))
  rw [denom_eq, fst_points, length_points]
  rw [List.length_map] at hscale
  rw [hscale]
  positivity

theorem intercept_eq (l : List Sample) (slope : ℚ) : intercept l slope =
    (((points l).map Prod.snd).sum - slope * ((points l).map Prod.fst).sum)
      / (points l).length := by
  rw [intercept, mean, fst_points, snd_points, length_points, List.length_map]
  congr 1
  induction l with
  | nil => simp
  | cons p l ih =>
    simp only [List.map_cons, List.sum_cons, ih]
    ring

theorem residuals_eq_zero {l : List Sample} (hl : l ≠ []) (slope : ℚ) :
    residuals (points l) slope (intercept l slope) = 0 := by
  rw [intercept_eq]
  exact residuals_intercept (by rwa [points, Ne, List.map_eq_nil_iff]) slope

instance : DecidablePred Sloped := fun _ => inferInstanceAs (Decidable (_ ∧ _))

/-- The slope that the training finds. -/
def fittedSlope (l : List Sample) : ℚ :=
  if Sloped l then
    ((points l).length * ((points l).map fun p => p.1 * p.2).sum
      - ((points l).map Prod.fst).sum * ((points l).map Prod.snd).sum) / denom l
  else 0

/-- No divisor on the way to the slope is zero. -/
theorem slope_eq (l : List Sample) :
    (l.foldl HourSums.take {}).slope = some (fittedSlope l) := by
  rw [foldl_hourSums, HourSums.slope, fittedSlope]
  by_cases hdays : MIN_SLOPE_DAYS ≤ l.length
  · have hn : (l.length : ℚ) ≠ 0 :=
      Nat.cast_ne_zero.mpr (Nat.pos_iff_ne_zero.mp (lt_of_lt_of_le (by decide) hdays))
    have hvar := variance_eq ((points l).map Prod.fst)
    rw [mean, List.length_map, length_points, fst_points] at hvar
    simp only [if_pos hdays, Checked.div_of_ne hn, Option.bind_eq_bind, Option.bind_some,
      fst_points, ← hvar]
    by_cases hslope : VAR_EPS_MW2 < variance (l.map (·.x))
    · have hsloped : Sloped l := ⟨hdays, hslope⟩
      have hdenom := hsloped.denom_pos.ne'
      rw [denom_eq, fst_points, length_points] at hdenom
      rw [if_pos hslope, if_pos hsloped, Checked.div_of_ne hdenom, denom_eq, fst_points,
        length_points]
    · rw [if_neg hslope, if_neg fun h => hslope h.2]
  · rw [if_neg hdays, if_neg fun h => hdays h.1]

theorem intercept_hour (l : List Sample) (slope : ℚ) :
    (l.foldl HourSums.take {}).intercept slope = some (intercept l slope) := by
  rw [foldl_hourSums, HourSums.intercept, intercept_eq, length_points]
  by_cases hl : 0 < l.length
  · rw [if_pos hl, Checked.div_of_ne (Nat.cast_ne_zero.mpr hl.ne')]
  · rw [if_neg hl, Nat.eq_zero_of_not_pos hl, Nat.cast_zero, div_zero]

theorem intercept_bucket (l : List Sample) (slope c : ℚ) :
    (l.foldl BucketSums.take {}).intercept slope c =
      some (if l = [] then c else intercept l slope) := by
  rw [foldl_bucketSums, BucketSums.intercept, intercept_eq, length_points]
  rcases eq_or_ne l [] with rfl | hl
  · rfl
  · have hpos := List.length_pos_iff.mpr hl
    rw [if_pos hpos, if_neg hl, Checked.div_of_ne (Nat.cast_ne_zero.mpr hpos.ne')]

theorem fittedSlope_least {l : List Sample} (h : Sloped l) (a b : ℚ) :
    squares (points l) (fittedSlope l) (intercept l (fittedSlope l)) ≤ squares (points l) a b := by
  have hl : l ≠ [] := List.length_pos_iff.mp (lt_of_lt_of_le (by decide) h.1)
  have hpoints : points l ≠ [] := by rwa [points, Ne, List.map_eq_nil_iff]
  refine squares_le (residuals_eq_zero hl _) ?_ a b
  rw [intercept_eq]
  refine moment_slope hpoints ?_ ?_
  · rw [← denom_eq]
    exact h.denom_pos.ne'
  · rw [← denom_eq, fittedSlope, if_pos h]

/-! ## The model -/

theorem wday_lt (tm : Tm) : wday tm < DOWS := by
  unfold wday Civil.weekday DOWS
  omega

theorem dow_lt {now : ℤ} {windowDays : ℕ} {c : Card} {h : ℕ} {p : Sample}
    (hp : p ∈ samples now windowDays c h) : p.dow < DOWS := by
  obtain ⟨d, -, hd⟩ := List.mem_filterMap.mp hp
  unfold daySample at hd
  split at hd
  · unfold fileSample at hd
    split at hd
    · rw [Option.some_inj] at hd
      exact hd ▸ wday_lt _
    · exact absurd hd (by simp)
  · exact absurd hd (by simp)

/-- The intercepts of the weekdays; one without a sample has that of the hour. -/
def weekdayIntercept (l : List Sample) (dow : ℕ) : ℚ :=
  if onWeekday l dow = [] then intercept l (fittedSlope l)
  else intercept (onWeekday l dow) (fittedSlope l)

theorem trainHour_eq (now : ℤ) (windowDays : ℕ) (c : Card) {h : ℕ} (hh : h < HOURS) :
    trainHour (sums now windowDays c) h = some
      { a := fittedSlope (samples now windowDays c h)
        b := (List.range DOWS).map (weekdayIntercept (samples now windowDays c h))
        n := (List.range DOWS).map fun dow =>
          ((sums now windowDays c).bucket h dow).bcnt % 2 ^ 16 } := by
  have hb := Checked.mapM_eq_some (l := List.range DOWS)
    (f := fun dow => ((sums now windowDays c).bucket h dow).intercept
      (fittedSlope (samples now windowDays c h))
      (intercept (samples now windowDays c h) (fittedSlope (samples now windowDays c h))))
    (g := weekdayIntercept (samples now windowDays c h)) fun dow _ => by
      rw [sums_bucket now windowDays c hh, intercept_bucket, weekdayIntercept]
  rw [trainHour, sums_hour now windowDays c hh, slope_eq, Option.bind_eq_bind, Option.bind_some,
    intercept_hour, Option.bind_eq_bind, Option.bind_some, hb]
  rfl

/-- The hour of the model is fitted to the samples. -/
theorem fitted_trainHour (now : ℤ) (windowDays : ℕ) (c : Card) {h : ℕ} {n : List ℕ} :
    Fitted (samples now windowDays c h)
      { a := fittedSlope (samples now windowDays c h)
        b := (List.range DOWS).map (weekdayIntercept (samples now windowDays c h))
        n := n } where
  slope hsloped := ⟨hsloped.denom_pos, fittedSlope_least hsloped⟩
  flat hflat := if_neg hflat
  bucket dow hdow := by
    obtain ⟨p, hp⟩ := List.exists_mem_of_ne_nil _ hdow
    obtain ⟨hmem, hpd⟩ := List.mem_filter.mp hp
    have hlt : dow < DOWS := of_decide_eq_true hpd ▸ dow_lt hmem
    refine ⟨weekdayIntercept (samples now windowDays c h) dow, ?_, ?_⟩
    · rw [List.getElem?_map, List.getElem?_range hlt, Option.map_some]
    · rw [weekdayIntercept, if_neg hdow]
      exact residuals_eq_zero hdow _
  unsampled dow hlt hdow := by
    rw [List.getElem?_map, List.getElem?_range hlt, Option.map_some, weekdayIntercept, if_pos hdow]

end HomeEnergyManager.Forecast
