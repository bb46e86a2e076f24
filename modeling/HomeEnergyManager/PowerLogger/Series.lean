import Mathlib.Algebra.BigOperators.Ring.Finset
import Mathlib.Algebra.BigOperators.Ring.List
import Mathlib.Data.List.ReduceOption
import HomeEnergyManager.Lib.LeastSquares
import HomeEnergyManager.PowerLogger.Queries

/-! # The series of a day

`node_power_logger_series_json` reads one minute file and answers either with its minutes or with
the means of its hours.

Reference: `firmware/main/node_power_logger.cpp`.
-/

namespace HomeEnergyManager.NodePowerLogger

/-- Marks a minute with no record. -/
def INT32_MIN : ℤ := -2 ^ 31

/-- `last` after the first `n` minutes. -/
def lastAfter (mw : ℕ → ℤ) (n : ℕ) : ℤ :=
  (List.range n).foldl (fun last i => if mw i ≠ INT32_MIN then (i : ℤ) else last) (-1)

/-- `last`: the last minute that has a record, -1 if none has. -/
def lastMinute (mw : ℕ → ℤ) : ℤ := lastAfter mw kMaxDayMinutes

/-- `sum` and `n` after the minute `j`. -/
def addMinute (mw : ℕ → ℤ) (acc : ℤ × ℕ) (j : ℕ) : ℤ × ℕ :=
  if mw j ≠ INT32_MIN then (acc.1 + mw j, acc.2 + 1) else acc

/-- The entry for the `step` minutes from `i` on, as far as they are not after `last`. In watts. -/
def seriesEntry (mw : ℕ → ℤ) (last : ℤ) (step i : ℕ) : Option ℚ :=
  let acc := (List.range' i (min step (last + 1 - i).toNat)).foldl (addMinute mw) (0, 0)
  if acc.2 = 0 then none else some (round ((acc.1 : ℚ) / acc.2 / 100) / 10)

/-- `power_w`: the loop over `i`, which goes on by `step` up to `last`. -/
def powerW (mw : ℕ → ℤ) (last : ℤ) (step : ℕ) : List (Option ℚ) :=
  (List.range ((last + step) / step).toNat).map fun k => seriesEntry mw last step (step * k)

/-- The document; its texts that are always the same are left out. -/
structure Series where
  nodeId : DateStr
  date : DateStr
  role : Option Role
  resolution : String
  stepMinutes : ℕ
  powerW : List (Option ℚ)
deriving DecidableEq, Repr

/-- `role`: that of the first stream for the node. -/
def roleOf (streams : List Stream) (node : DateStr) : Option Role :=
  (streams.find? (·.graphId.toList = node)).map (·.role)

/-- The minute file of a node, which for the grid is its own. -/
def seriesFile (c : Inputs) (streams : List Stream) (node date : DateStr) :
    Option (List PowerRecord) :=
  if roleOf streams node = some .grid then c.grid date else c.node (String.ofList node) date

/-- `node_power_logger_series_json`; `none` for a null pointer. -/
def nodePowerLoggerSeriesJson (streams : List Stream) (node date : DateStr) (hourly : Bool)
    (c : Inputs) : Option Series :=
  if sanitizeToken node && sanitizeToken date && date.length == 10 then
    (localDayStart date).map fun dayStart =>
      { nodeId := node
        date := date
        role := roleOf streams node
        resolution := if hourly then "hourly" else "minute"
        stepMinutes := if hourly then 60 else 1
        powerW :=
          match loadMinutes (seriesFile c streams node date) dayStart INT32_MIN with
          | some mw => NodePowerLogger.powerW mw (lastMinute mw) (if hourly then 60 else 1)
          | none => [] }
  else none

/-! ## The hours and the minutes -/

theorem abs_round_sub_le (x : ℚ) : |(round x : ℚ) - x| ≤ 1 / 2 := by
  rw [abs_le, round]
  split
  · have hle := Int.floor_le (x + 1 / 2)
    have hlt := Int.lt_floor_add_one (x + 1 / 2)
    constructor <;> linarith
  · have hle := Int.floor_le (-x + 1 / 2)
    have hlt := Int.lt_floor_add_one (-x + 1 / 2)
    push_cast
    constructor <;> linarith

/-- A reading in milliwatts as it is shown, in tenths of a watt. -/
def watts (x : ℚ) : ℚ := round (x / 100) / 10

theorem abs_watts_sub_le (x : ℚ) : |watts x - x / 1000| ≤ 1 / 20 := by
  have h := abs_le.mp (abs_round_sub_le (x / 100))
  rw [abs_le, watts]
  constructor <;> linarith

/-- The readings of some minutes. -/
def readings (mw : ℕ → ℤ) (js : List ℕ) : List ℤ := (js.map mw).filter (· ≠ INT32_MIN)

/-- The minutes that an entry stands for. -/
def minutesFrom (last : ℤ) (step i : ℕ) : List ℕ := List.range' i (min step (last + 1 - i).toNat)

theorem readings_cons (mw : ℕ → ℤ) (j : ℕ) (js : List ℕ) :
    readings mw (j :: js)
      = if mw j = INT32_MIN then readings mw js else mw j :: readings mw js := by
  rw [readings, List.map_cons]
  by_cases h : mw j = INT32_MIN
  · rw [if_pos h, List.filter_cons_of_neg (by simpa using h), readings]
  · rw [if_neg h, List.filter_cons_of_pos (by simpa using h), readings]

theorem foldl_addMinute (mw : ℕ → ℤ) (js : List ℕ) (acc : ℤ × ℕ) :
    js.foldl (addMinute mw) acc
      = (acc.1 + (readings mw js).sum, acc.2 + (readings mw js).length) := by
  induction js generalizing acc with
  | nil => simp [readings]
  | cons j js ih =>
    rw [List.foldl_cons, ih, addMinute, readings_cons]
    by_cases h : mw j = INT32_MIN
    · rw [if_neg (not_not.mpr h), if_pos h]
    · rw [if_pos h, if_neg h, List.sum_cons, List.length_cons, add_assoc, add_assoc, add_comm 1]

open LeastSquares (mean)

/-- An entry is the mean of the readings of its minutes. -/
theorem seriesEntry_eq (mw : ℕ → ℤ) (last : ℤ) (step i : ℕ) :
    seriesEntry mw last step i
      = if readings mw (minutesFrom last step i) = [] then none
        else some
          (watts (mean ((readings mw (minutesFrom last step i)).map (Int.cast : ℤ → ℚ)))) := by
  rw [seriesEntry, foldl_addMinute, ← minutesFrom]
  simp only [zero_add, List.length_eq_zero_iff, watts, mean, List.length_map,
    Int.cast_list_sum]

/-- The entry of one minute. -/
def minuteEntry (v : ℤ) : Option ℚ := if v = INT32_MIN then none else some (watts v)

theorem powerW_one (mw : ℕ → ℤ) (last : ℤ) :
    powerW mw last 1 = (List.range (last + 1).toNat).map fun j => minuteEntry (mw j) := by
  rw [powerW, Nat.cast_one, Int.ediv_one]
  apply List.map_congr_left
  intro j hj
  have hmin : min 1 (last + 1 - (1 * j : ℕ)).toNat = 1 := by
    have := List.mem_range.mp hj
    omega
  rw [seriesEntry_eq, minutesFrom, hmin, one_mul, List.range'_one, readings, List.map_singleton,
    minuteEntry]
  by_cases h : mw j = INT32_MIN
  · simp [h]
  · simp [h, mean]

/-- The minutes of an entry, among all. -/
theorem minutesFrom_eq (last : ℤ) (step i : ℕ) :
    minutesFrom last step i = ((List.range (last + 1).toNat).drop i).take step := by
  rw [minutesFrom, List.range_eq_range', List.drop_range', Nat.zero_add, mul_one]
  rcases le_total step ((last + 1).toNat - i) with h | h
  · rw [List.take_range'_of_length_ge h]
    congr 1
    omega
  · rw [List.take_range'_of_length_le h]
    congr 1
    omega

theorem reduceOption_minuteEntry (mw : ℕ → ℤ) (js : List ℕ) :
    (js.map fun j => minuteEntry (mw j)).reduceOption
      = (readings mw js).map fun v : ℤ => watts v := by
  induction js with
  | nil => rfl
  | cons j js ih =>
    rw [List.map_cons, readings_cons, minuteEntry]
    by_cases h : mw j = INT32_MIN
    · rw [if_pos h, if_pos h, List.reduceOption_cons_of_none, ih]
    · rw [if_neg h, if_neg h, List.reduceOption_cons_of_some, ih, List.map_cons]

/-- What an hour shows of the minutes that have a figure: their mean, up to the rounding. -/
structure StandsFor (present : List ℚ) (hour : Option ℚ) : Prop where
  none_iff : hour = none ↔ present = []
  near : ∀ w, hour = some w → |w - mean present| ≤ 1 / 10

/-- Each entry of `hours` stands for `step` entries of `minutes`, the last one for the rest. -/
structure Summarises (step : ℕ) (minutes hours : List (Option ℚ)) : Prop where
  length_eq : hours.length = (minutes.length + (step - 1)) / step
  stands : ∀ k hour, hours[k]? = some hour →
    StandsFor ((minutes.drop (step * k)).take step).reduceOption hour

theorem standsFor_entry (mw : ℕ → ℤ) (last : ℤ) (step i : ℕ) :
    StandsFor (((powerW mw last 1).drop i).take step).reduceOption
      (seriesEntry mw last step i) := by
  have hpresent : (((powerW mw last 1).drop i).take step).reduceOption
      = (readings mw (minutesFrom last step i)).map fun v : ℤ => watts v := by
    rw [powerW_one, ← List.map_drop, ← List.map_take, ← minutesFrom_eq, reduceOption_minuteEntry]
  rw [hpresent, seriesEntry_eq]
  generalize readings mw (minutesFrom last step i) = vs
  constructor
  · simp
  · intro w hw
    split at hw
    · exact absurd hw (Option.some_ne_none w).symm
    · rename_i hne
      obtain rfl := Option.some_inj.mp hw
      have hmean : mean (vs.map fun v : ℤ => (v : ℚ) / 1000)
          = mean (vs.map (Int.cast : ℤ → ℚ)) / 1000 := by
        simp only [mean, List.length_map, div_eq_mul_inv, List.sum_map_mul_right]
        ring
      have hminutes := LeastSquares.abs_mean_sub_le (l := vs) (f := fun v : ℤ => watts v)
        (g := fun v : ℤ => (v : ℚ) / 1000) hne fun v _ => abs_watts_sub_le v
      have hhour := abs_watts_sub_le (mean (vs.map (Int.cast : ℤ → ℚ)))
      rw [hmean] at hminutes
      rw [abs_le] at hminutes hhour ⊢
      constructor <;> linarith

theorem powerW_summarises (mw : ℕ → ℤ) {last : ℤ} (hlast : -1 ≤ last) {step : ℕ}
    (hstep : 0 < step) :
    Summarises step (powerW mw last 1) (powerW mw last step) := by
  constructor
  · rw [powerW_one, powerW, List.length_map, List.length_map, List.length_range, List.length_range]
    obtain ⟨n, rfl⟩ : ∃ n : ℕ, last = n - 1 := ⟨(last + 1).toNat, by omega⟩
    have hsum : (n : ℤ) - 1 + step = (n + (step - 1) : ℕ) := by omega
    rw [hsum, sub_add_cancel, Int.toNat_natCast, ← Int.natCast_div, Int.toNat_natCast]
  · intro k hour hk
    rw [powerW, List.getElem?_map, Option.map_eq_some_iff] at hk
    obtain ⟨k', hk', rfl⟩ := hk
    obtain ⟨hlt, rfl⟩ := List.getElem?_eq_some_iff.mp hk'
    rw [List.getElem_range]
    exact standsFor_entry mw last step (step * k)

theorem lastAfter_succ (mw : ℕ → ℤ) (n : ℕ) :
    lastAfter mw (n + 1) = if mw n ≠ INT32_MIN then (n : ℤ) else lastAfter mw n := by
  rw [lastAfter, List.range_succ, List.foldl_append]
  rfl

theorem neg_one_le_lastAfter (mw : ℕ → ℤ) (n : ℕ) : -1 ≤ lastAfter mw n := by
  induction n with
  | zero => exact le_rfl
  | succ n ih =>
    rw [lastAfter_succ]
    split
    · omega
    · exact ih

theorem le_lastAfter {mw : ℕ → ℤ} {i n : ℕ} (hi : i < n) (h : mw i ≠ INT32_MIN) :
    (i : ℤ) ≤ lastAfter mw n := by
  induction n with
  | zero => exact absurd hi (Nat.not_lt_zero i)
  | succ n ih =>
    rw [lastAfter_succ]
    split
    · omega
    · rename_i hn
      rcases Nat.lt_succ_iff_lt_or_eq.mp hi with hlt | rfl
      · exact ih hlt
      · exact absurd h hn

/-- A day without a file has neither minutes nor hours. -/
theorem summarises_nil {step : ℕ} (hstep : 0 < step) : Summarises step [] [] := by
  constructor
  · rw [List.length_nil, Nat.zero_add, Nat.div_eq_of_lt (Nat.sub_lt hstep Nat.one_pos)]
  · intro k hour hk
    rw [List.getElem?_nil] at hk
    exact absurd hk (Option.some_ne_none hour).symm

/-- Whatever is asked, both resolutions are refused together, and each hour is the mean of its
minutes up to 0.1 W; an hour is null exactly when all of its minutes are. -/
theorem series_hourly_summarises (streams : List Stream) (node date : DateStr) (c : Inputs) :
    Option.Rel
      (fun minutes hours =>
        hours.role = minutes.role ∧ Summarises hours.stepMinutes minutes.powerW hours.powerW)
      (nodePowerLoggerSeriesJson streams node date false c)
      (nodePowerLoggerSeriesJson streams node date true c) := by
  unfold nodePowerLoggerSeriesJson
  split
  · cases localDayStart date with
    | none => exact .none
    | some dayStart =>
      refine .some ⟨rfl, ?_⟩
      simp only [Bool.false_eq_true, ↓reduceIte]
      cases loadMinutes (seriesFile c streams node date) dayStart INT32_MIN with
      | some mw =>
        exact powerW_summarises mw (neg_one_le_lastAfter mw kMaxDayMinutes) (Nat.succ_pos 59)
      | none => exact summarises_nil (Nat.succ_pos 59)
  · exact .none

end HomeEnergyManager.NodePowerLogger
