import HomeEnergyManager.Time.LocalTime

/-! # From broken-down time back to instants

`mktime` under the zone of `Time.LocalTime`, and the steps from one date token to another that the
firmware makes with it. `mktime` normalises its argument. It honours a `tm_isdst` that is not
negative: in the repeated hour it decides which of the two hours is meant, elsewhere a wrong one
moves the clock by an hour.
-/

namespace HomeEnergyManager

open Civil

/-- The conversion of C to `int32_t`. -/
def toInt32 (x : ℤ) : ℤ := x.bmod (2 ^ 32)

/-- The conversion of C to `uint32_t`. -/
def toUint32 (x : ℤ) : ℕ := (x % 2 ^ 32).toNat

/-! ## `mktime` -/

/-- What the fields show, in seconds of the local clock from 1970-01-01 on. -/
def Tm.clock (tm : Tm) : ℤ :=
  ofDate { year := tm.year + 1900 + tm.mon / 12, month := tm.mon % 12 + 1, day := tm.mday }
      * secPerDay
    + tm.hour * 3600 + tm.min * 60 + tm.sec

/-- The fields that show a clock. -/
def clockTm (w isdst : ℤ) : Tm :=
  let c := toDate (w / secPerDay)
  { sec := w % secPerDay % 60
    min := w % secPerDay / 60 % 60
    hour := w % secPerDay / 3600
    mday := c.day
    mon := c.month - 1
    year := c.year - 1900
    isdst := isdst }

/-- The clock and the `tm_isdst` that `mktime` settles on. -/
def settleDst (w user : ℤ) : ℤ × ℤ :=
  let y := (toDate (w / secPerDay)).year
  let user := if 0 < user then 1 else user
  if y < 1970 then (w, user)
  else if dstEnd y ≤ w ∧ w < dstEnd y + 3600 then (w, user)
  else
    let isdst := if dstStart y + 3600 ≤ w ∧ w < dstEnd y then 1 else 0
    if 0 ≤ user ∧ isdst ≠ user then (if isdst = 1 then w + 3600 else w - 3600, isdst)
    else (w, isdst)

/-- `mktime`: the instant and the normalised fields. -/
def mktime (tm : Tm) : ℤ × Tm :=
  let w := tm.clock
  let y := (toDate (w / secPerDay)).year - 1900
  if 10000 < y ∨ y < -10000 then (-1, clockTm w tm.isdst)
  else
    let r := settleDst w tm.isdst
    (r.1 - (if r.2 = 1 then 3600 else 0), clockTm r.1 r.2)

/-! ## Reading a date token -/

/-- The conversion `%d`: the number and the rest of the text. -/
def scanInt (s : DateStr) : Option (ℤ × DateStr) :=
  let s := s.dropWhile Char.isWhitespace
  let neg := s.head? == some '-'
  let s := if neg || s.head? == some '+' then s.tail else s
  let n : ℤ := (s.takeWhile Char.isDigit).foldl (fun n c => 10 * n + (c.toNat - 48 : ℤ)) 0
  if s.takeWhile Char.isDigit = [] then none
  else some (if neg then -n else n, s.dropWhile Char.isDigit)

/-- A `-` of the format. -/
def scanDash : DateStr → Option DateStr
  | '-' :: s => some s
  | _ => none

/-- `sscanf` with `"%d-%d-%d"`, when it converts all three. -/
def sscanfDate (s : DateStr) : Option Date := do
  let (year, s) ← scanInt s
  let s ← scanDash s
  let (month, s) ← scanInt s
  let s ← scanDash s
  let (day, _) ← scanInt s
  return { year := year, month := month, day := day }

/-- `local_day_start`: local midnight. -/
def localDayStart (date : DateStr) : Option ℤ :=
  (sscanfDate date).map fun c =>
    (mktime { sec := 0, min := 0, hour := 0, mday := c.day, mon := c.month - 1,
              year := c.year - 1900, isdst := -1 }).1

/-- The date token of the day `offset` days from that of an instant, stepped at midday. -/
def stepDate (t offset : ℤ) : DateStr :=
  let d := localtime t
  strftimeDate (mktime { d with hour := 12, mday := d.mday + offset }).2

/-! ## Days stepped at midday -/

@[simp] theorem strftimeDate_clockTm (w isdst : ℤ) :
    strftimeDate (clockTm w isdst) = dateStr (w / secPerDay) := by
  simp [strftimeDate, clockTm, dateStr]

theorem ofDate_add_day (c : Date) (k : ℤ) : ofDate { c with day := c.day + k } = ofDate c + k := by
  unfold ofDate
  dsimp only
  omega

/-- The clock of fields that were read off a day. -/
theorem clock_of_toDate {tm : Tm} {z offset : ℤ} (hyear : tm.year = (toDate z).year - 1900)
    (hmon : tm.mon = (toDate z).month - 1) (hday : tm.mday = (toDate z).day + offset) :
    tm.clock = (z + offset) * secPerDay + tm.hour * 3600 + tm.min * 60 + tm.sec := by
  have hmonth := toDate_month z
  have hdiv : tm.mon / 12 = 0 := by omega
  have hmod : tm.mon % 12 + 1 = (toDate z).month := by omega
  unfold Tm.clock
  rw [hdiv, hmod, hday, show tm.year + 1900 + 0 = (toDate z).year by omega]
  rw [ofDate_add_day (toDate z) offset, ofDate_toDate]

/-- A wrong `tm_isdst` moves the clock by an hour. -/
theorem settleDst_fst (w user : ℤ) :
    w - 3600 ≤ (settleDst w user).1 ∧ (settleDst w user).1 ≤ w + 3600 := by
  unfold settleDst
  dsimp only
  split_ifs <;> omega

/-- Midday is far enough from either end of the day for that. -/
theorem stepDate_eq (t offset : ℤ) : stepDate t offset = dateStr (localDay t + offset) := by
  unfold stepDate
  dsimp only
  have hclock : Tm.clock { localtime t with hour := 12, mday := (localtime t).mday + offset }
      = (localDay t + offset) * secPerDay + 12 * 3600 + (localtime t).min * 60 +
        (localtime t).sec :=
    clock_of_toDate rfl rfl rfl
  have hmin := localtime_min t
  have hsec := localtime_sec t
  unfold mktime
  dsimp only
  split
  · rw [strftimeDate_clockTm, hclock]
    congr 1
    unfold secPerDay
    omega
  · rw [strftimeDate_clockTm, hclock]
    have hsettle := settleDst_fst ((localDay t + offset) * secPerDay + 12 * 3600
      + (localtime t).min * 60 + (localtime t).sec) (localtime t).isdst
    congr 1
    unfold secPerDay at *
    omega

/-! ## Date tokens name days -/

/-- The days whose year has four digits. -/
def Dated (z : ℤ) : Prop := newYear 0 ≤ z ∧ z < newYear 10000

instance (z : ℤ) : Decidable (Dated z) := inferInstanceAs (Decidable (_ ∧ _))

theorem Dated.year {z : ℤ} (h : Dated z) : 0 ≤ (toDate z).year ∧ (toDate z).year ≤ 9999 := by
  have hspec := year_spec z
  constructor
  · by_contra hlt
    have := newYear_mono (show (toDate z).year + 1 ≤ 0 by omega)
    have := h.1
    omega
  · by_contra hlt
    have := newYear_mono (show 10000 ≤ (toDate z).year by omega)
    have := h.2
    omega

theorem Dated.of_mem {z z₁ z₂ : ℤ} (h₁ : Dated z₁) (h₂ : Dated z₂) (h : z₁ ≤ z ∧ z ≤ z₂) :
    Dated z := ⟨h₁.1.trans h.1, h.2.trans_lt h₂.2⟩

/-- In these years `mktime` shows the clock that it settles on. -/
theorem mktime_eq {tm : Tm} (h : Dated (tm.clock / secPerDay)) :
    mktime tm = ((settleDst tm.clock tm.isdst).1
        - (if (settleDst tm.clock tm.isdst).2 = 1 then 3600 else 0),
      clockTm (settleDst tm.clock tm.isdst).1 (settleDst tm.clock tm.isdst).2) := by
  have hyear := h.year
  unfold mktime
  dsimp only
  rw [if_neg (by omega)]

/-- The clock that `mktime` settles on names the day. -/
theorem strftimeDate_mktime {tm : Tm} (h : Dated (tm.clock / secPerDay)) :
    strftimeDate (mktime tm).2 = dateStr ((settleDst tm.clock tm.isdst).1 / secPerDay) := by
  rw [mktime_eq h, strftimeDate_clockTm]

/-- A clock of 32 bits shows years of four digits. -/
theorem dated_of_clock {now : ℤ} (h : 0 ≤ now ∧ now < 2 ^ 32) : Dated (localDay now) := by
  have hfirst : Civil.newYear 0 ≤ 0 := by decide
  have hlast : 50000 < Civil.newYear 10000 := by decide
  unfold Dated localDay secPerDay
  rcases utcOffset_eq now with hoff | hoff <;> rw [hoff] <;> omega

/-- Reading one digit. -/
theorem digit_spec (n : ℤ) :
    (digit n).isDigit = true ∧ ((digit n).toNat - 48 : ℤ) = n % 10 := by
  have hall : ∀ k < 10,
      (Char.ofNat (48 + k)).isDigit = true ∧ (Char.ofNat (48 + k)).toNat = 48 + k := by decide
  obtain ⟨hdigit, hval⟩ := hall (n % 10).toNat (by omega)
  refine ⟨hdigit, ?_⟩
  unfold digit
  rw [hval]
  omega

theorem ne_of_isDigit {c d : Char} (hc : c.isDigit = true) (hd : d.isDigit = false) : c ≠ d := by
  rintro rfl
  rw [hc] at hd
  exact nomatch hd

/-- `%d` reads the digits up to the first other character. -/
theorem scanInt_digits {c : Char} {ds rest : DateStr} (hc : c.isDigit = true)
    (hds : ∀ d ∈ ds, d.isDigit = true) (hrest : ∀ d ∈ rest.head?, d.isDigit = false) :
    scanInt (c :: ds ++ rest)
      = some ((c :: ds).foldl (fun n c => 10 * n + (c.toNat - 48 : ℤ)) 0, rest) := by
  -- a digit is neither blank nor a sign
  have hspace : c.isWhitespace = false := by
    have hblank : c ≠ ' ' := ne_of_isDigit hc rfl
    have htab : c ≠ '\t' := ne_of_isDigit hc rfl
    have hreturn : c ≠ '\r' := ne_of_isDigit hc rfl
    have hnewline : c ≠ '\n' := ne_of_isDigit hc rfl
    simp [Char.isWhitespace, hblank, htab, hreturn, hnewline]
  have hdash : c ≠ '-' := ne_of_isDigit hc rfl
  have hplus : c ≠ '+' := ne_of_isDigit hc rfl
  have hall : ∀ d ∈ c :: ds, d.isDigit = true := by
    rw [List.forall_mem_cons]
    exact ⟨hc, hds⟩
  have hdrop : rest.dropWhile Char.isDigit = rest ∧ rest.takeWhile Char.isDigit = [] := by
    cases rest with
    | nil => exact ⟨rfl, rfl⟩
    | cons d rest =>
      have hd := hrest d rfl
      exact ⟨List.dropWhile_cons_of_neg (by simp [hd]), List.takeWhile_cons_of_neg (by simp [hd])⟩
  have htake : (c :: ds ++ rest).takeWhile Char.isDigit = c :: ds := by
    rw [List.takeWhile_append_of_pos hall, hdrop.2, List.append_nil]
  have hdrop' : (c :: ds ++ rest).dropWhile Char.isDigit = rest := by
    rw [List.dropWhile_append_of_pos hall, hdrop.1]
  unfold scanInt
  have hskip : (c :: ds ++ rest).dropWhile Char.isWhitespace = c :: ds ++ rest :=
    List.dropWhile_cons_of_neg (by simp [hspace])
  have hsign : ((c :: ds ++ rest).head? == some '-') = false ∧
      ((c :: ds ++ rest).head? == some '+') = false := by
    simp [hdash, hplus]
  simp only [hskip, hsign.1, hsign.2, Bool.or_self, Bool.false_eq_true, if_false, htake, hdrop']
  rw [if_neg (List.cons_ne_nil c ds)]

theorem scanInt_twoDigits {n : ℤ} (hn : 0 ≤ n ∧ n ≤ 99) {rest : DateStr}
    (hrest : ∀ d ∈ rest.head?, d.isDigit = false) :
    scanInt (twoDigits n ++ rest) = some (n, rest) := by
  have hscan : scanInt (digit (n / 10) :: [digit n] ++ rest) = some (_, rest) :=
    scanInt_digits (digit_spec _).1 (by simp [(digit_spec n).1]) hrest
  rw [show twoDigits n ++ rest = digit (n / 10) :: [digit n] ++ rest from rfl, hscan]
  simp only [List.foldl_cons, List.foldl_nil, (digit_spec n).2, (digit_spec (n / 10)).2]
  congr 2
  omega

theorem scanInt_fourDigits {n : ℤ} (hn : 0 ≤ n ∧ n ≤ 9999) {rest : DateStr}
    (hrest : ∀ d ∈ rest.head?, d.isDigit = false) :
    scanInt (fourDigits n ++ rest) = some (n, rest) := by
  have hscan : scanInt (digit (n / 100 / 10) :: [digit (n / 100), digit (n / 10), digit n] ++ rest)
      = some (_, rest) :=
    scanInt_digits (digit_spec _).1
      (by simp [(digit_spec n).1, (digit_spec (n / 10)).1, (digit_spec (n / 100)).1]) hrest
  rw [show fourDigits n ++ rest
    = digit (n / 100 / 10) :: [digit (n / 100), digit (n / 10), digit n] ++ rest from rfl, hscan]
  simp only [List.foldl_cons, List.foldl_nil, (digit_spec n).2, (digit_spec (n / 10)).2,
    (digit_spec (n / 100)).2, (digit_spec (n / 100 / 10)).2]
  congr 2
  omega

/-- A date token reads back as its date. -/
theorem sscanfDate_dateStr {z : ℤ} (h : Dated z) : sscanfDate (dateStr z) = some (toDate z) := by
  have hmonth := toDate_month z
  have hday := toDate_day z
  have hdash : ∀ (s : DateStr), ∀ d ∈ ('-' :: s).head?, d.isDigit = false := by
    rintro s d ⟨⟩
    rfl
  have hday' : scanInt (twoDigits (toDate z).day) = some ((toDate z).day, []) := by
    have hscan : scanInt (twoDigits (toDate z).day ++ []) = some ((toDate z).day, []) :=
      scanInt_twoDigits (by omega) (by simp)
    rwa [List.append_nil] at hscan
  unfold sscanfDate dateStr
  dsimp only
  rw [List.append_assoc, List.cons_append, scanInt_fourDigits h.year (hdash _)]
  simp only [Option.bind_eq_bind, Option.bind_some, scanDash]
  rw [scanInt_twoDigits (by omega) (hdash _)]
  simp only [Option.bind_some, hday']
  rfl

theorem dateStr_injective {z z' : ℤ} (h : Dated z) (h' : Dated z') (heq : dateStr z = dateStr z') :
    z = z' := by
  -- both tokens read back as their dates
  apply toDate_injective
  have := sscanfDate_dateStr h
  rw [heq, sscanfDate_dateStr h'] at this
  exact (Option.some.inj this).symm

/-! ## Midnight -/

/-- The clocks go forward after the new year. -/
theorem newYear_le_dstStart (y : ℤ) : newYear y * secPerDay ≤ dstStart y := by
  have hyear := marchFirst_le_succ (y - 1)
  rw [sub_add_cancel] at hyear
  unfold dstStart lastSunday weekday secPerDay
  rw [newYear_eq]
  simp only [ofDate, daysBefore]
  norm_num
  omega

/-- `mktime` of a midnight whose `tm_isdst` is unknown: the clocks never change at midnight. -/
theorem settleDst_midnight (z : ℤ) :
    settleDst (z * secPerDay) (-1) = (z * secPerDay,
      if (toDate z).year < 1970 then -1
      else if dstStart (toDate z).year ≤ z * secPerDay ∧
          z * secPerDay < dstEnd (toDate z).year then 1
      else 0) := by
  have hday : z * secPerDay / secPerDay = z := Int.mul_ediv_cancel _ (by decide)
  unfold settleDst
  rw [hday]
  simp only [show ¬ (0 : ℤ) < -1 by decide, show ¬ (0 : ℤ) ≤ -1 by decide, if_false, false_and]
  by_cases hyear : (toDate z).year < 1970
  · rw [if_pos hyear, if_pos hyear]
  · rw [if_neg hyear, if_neg hyear]
    unfold dstStart dstEnd secPerDay
    split_ifs <;> first
      | rfl
      | omega

/-- Local midnight is on the day that it starts. -/
theorem localDay_midnight (z : ℤ) :
    localDay (z * secPerDay - if (settleDst (z * secPerDay) (-1)).2 = 1 then 3600 else 0) = z := by
  rw [settleDst_midnight]
  set y := (toDate z).year with hy
  have hspec := year_spec z
  rw [← hy] at hspec
  have hstart := newYear_le_dstStart y
  have hend := dstEnd_lt_newYear y
  by_cases hdst : ¬ y < 1970 ∧ dstStart y ≤ z * secPerDay ∧ z * secPerDay < dstEnd y
  -- in summer time midnight is an hour earlier, still after the change
  · have ht : z * secPerDay - 3600 < dstEnd y ∧ dstStart y ≤ z * secPerDay - 3600 := by
      unfold dstStart dstEnd secPerDay at *
      omega
    have hyear : utcYear (z * secPerDay - 3600) = y := by
      rw [utcYear, year_eq_iff]
      unfold secPerDay at *
      omega
    have hisdst : isdst (z * secPerDay - 3600) = 1 := by
      rw [isdst, hyear, if_neg hdst.1, if_pos ⟨ht.2, ht.1⟩]
    rw [if_neg hdst.1, if_pos hdst.2, if_pos rfl, localDay, utcOffset, if_pos hisdst]
    unfold secPerDay
    omega
  · have hyear : utcYear (z * secPerDay) = y := by
      rw [utcYear, Int.mul_ediv_cancel _ (by decide : secPerDay ≠ 0)]
    have hne : ∀ v : ℤ, (if y < 1970 then -1 else if dstStart y ≤ z * secPerDay ∧
        z * secPerDay < dstEnd y then 1 else 0) = v → v ≠ 1 := by
      rintro v rfl
      split_ifs with h₁ h₂
      · decide
      · exact absurd ⟨h₁, h₂⟩ hdst
      · decide
    have hisdst : isdst (z * secPerDay) ≠ 1 := by
      rw [isdst, hyear]
      exact hne _ rfl
    rw [if_neg (hne _ rfl), sub_zero, localDay, utcOffset, if_neg hisdst, add_zero]
    exact Int.mul_ediv_cancel _ (by decide)

/-- The day that a date token stands for. -/
def dayOf (date : DateStr) : Option ℤ := (localDayStart date).map localDay

/-- A date token stands for its day. -/
@[simp] theorem dayOf_dateStr {z : ℤ} (h : Dated z) : dayOf (dateStr z) = some z := by
  unfold dayOf localDayStart
  rw [sscanfDate_dateStr h, Option.map_some, Option.map_some]
  congr 1
  have hclock : Tm.clock
      { sec := 0, min := 0, hour := 0, mday := (toDate z).day, mon := (toDate z).month - 1,
        year := (toDate z).year - 1900, isdst := -1 } = z * secPerDay := by
    rw [clock_of_toDate rfl rfl (add_zero _).symm]
    simp
  have hday : z * secPerDay / secPerDay = z := Int.mul_ediv_cancel _ (by decide)
  have hclockDay : (settleDst (z * secPerDay) (-1)).1 = z * secPerDay := by
    rw [settleDst_midnight]
  rw [mktime_eq (by rwa [hclock, hday]), hclock]
  dsimp only
  rw [hclockDay]
  exact localDay_midnight z

end HomeEnergyManager
