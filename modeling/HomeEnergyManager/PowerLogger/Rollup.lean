import Mathlib.Algebra.Order.BigOperators.Group.List
import HomeEnergyManager.PowerLogger.Queries

/-! # The hourly rollup

`rollup_one` and `power_logger_rollup_hourly` make an hourly file of a minute file, with the same
loops: one record for each clock hour that has records, with their mean.

Reference: `firmware/main/node_power_logger.cpp`, `firmware/main/power_logger.c`.
-/

namespace HomeEnergyManager.NodePowerLogger

/-- `hour_sum`, `hour_count` and `hour_ts` of one hour. -/
structure HourSums where
  sum : ℤ := 0
  count : ℕ := 0
  ts : ℕ := 0
deriving DecidableEq, Repr

/-- One pass of the loop that reads the minute file. -/
def addRecord (hours : ℤ → HourSums) (rec : PowerRecord) : ℤ → HourSums :=
  let tm := localtime rec.unixMinute
  let h := hours tm.hour
  Function.update hours tm.hour
    { sum := h.sum + rec.powerMw
      count := h.count + 1
      ts := if h.ts = 0 then toUint32 (mktime { tm with min := 0, sec := 0 }).1 else h.ts }

/-- The records of the hourly file. -/
def rollup (recs : List PowerRecord) : List PowerRecord :=
  let hours := recs.foldl addRecord fun _ => {}
  (List.range 24).filterMap fun h : ℕ =>
    if (hours h).count = 0 then none
    else some
      { unixMinute := (hours h).ts
        powerMw := toInt32 ((hours h).sum.tdiv (hours h).count) }

/-- `node_power_logger_rollup_hourly`: every node file of the date, as the directory lists them. -/
def nodePowerLoggerRollupHourly (date : DateStr) (c : Card) : Card :=
  if sanitizeToken date then
    { c with
      nodeHourly := fun id d =>
        if d = date ∧ 0 < id.utf8ByteSize ∧ id.utf8ByteSize < 40 then
          ((c.node id date).map rollup).or (c.nodeHourly id d)
        else c.nodeHourly id d }
  else c

/-- `power_logger_rollup_hourly`. -/
def powerLoggerRollupHourly (date : DateStr) (c : Card) : Card :=
  match c.grid date with
  | none => c
  | some recs => { c with gridHourly := Function.update c.gridHourly date (some (rollup recs)) }

/-- A mean, truncated towards zero, is between any bounds of its values. -/
theorem tdiv_mean_mem {l : List ℤ} (hne : l ≠ []) {lo hi : ℤ} (h : ∀ v ∈ l, lo ≤ v ∧ v ≤ hi) :
    lo ≤ l.sum.tdiv l.length ∧ l.sum.tdiv l.length ≤ hi := by
  have hlen : (0 : ℤ) < l.length := by exact_mod_cast List.length_pos_iff.mpr hne
  have hlo := List.card_nsmul_le_sum l lo fun v hv => (h v hv).1
  have hhi := List.sum_le_card_nsmul l hi fun v hv => (h v hv).2
  rw [nsmul_eq_mul] at hlo hhi
  constructor
  · calc lo = ((l.length : ℤ) * lo).tdiv l.length := (Int.mul_tdiv_cancel_left _ hlen.ne').symm
      _ ≤ l.sum.tdiv l.length := Int.tdiv_le_tdiv hlen hlo
  · calc l.sum.tdiv l.length ≤ ((l.length : ℤ) * hi).tdiv l.length := Int.tdiv_le_tdiv hlen hhi
      _ = hi := Int.mul_tdiv_cancel_left _ hlen.ne'

/-- The mean of values of 32 bits has 32 bits, so that its conversion loses nothing. -/
theorem toInt32_mean {l : List ℤ} (h : ∀ v ∈ l, -2 ^ 31 ≤ v ∧ v < 2 ^ 31) :
    toInt32 (l.sum.tdiv l.length) = l.sum.tdiv l.length := by
  rcases eq_or_ne l [] with rfl | hne
  · rfl
  have hmean := tdiv_mean_mem hne fun v hv => (h v hv).imp_right Int.le_sub_one_of_lt
  unfold toInt32
  rw [Int.bmod_eq_iff (by decide)]
  generalize l.sum.tdiv l.length = mean at hmean ⊢
  omega

end HomeEnergyManager.NodePowerLogger
