import Mathlib.Algebra.Order.Floor.Ring
import Mathlib.Data.Rat.Floor
import HomeEnergyManager.Lib.Checked
import HomeEnergyManager.PowerLogger.Queries
import HomeEnergyManager.Time.MkTime

/-! # Appliance profiles

The training goes over the minute files of an appliance twice: for the power that it draws when it
is idle, and for the cycles in which it runs. Floating point is exact arithmetic over `ℚ`. Unsigned
counters wrap; a signed operation on the way to the thresholds fails where its result does not fit.

Reference: `firmware/main/appliance_profile.c`.
-/

namespace HomeEnergyManager.ApplianceProfile

open NodePowerLogger (sanitizeToken)

def STANDBY_BIN_W : ℤ := 5
def STANDBY_MAX_W : ℤ := 2000
def STANDBY_NBINS : ℕ := (STANDBY_MAX_W / STANDBY_BIN_W).toNat

def ON_MARGIN_MW : ℤ := 30 * 1000
def OFF_MARGIN_MW : ℤ := 15 * 1000
def ON_REL_NUM : ℤ := 3
def ON_REL_DEN : ℤ := 10
def GAP_TOLERANCE_MIN : ℕ := 5
def MIN_CYCLE_MIN : ℕ := 5

def APPLIANCE_PROFILE_MAGIC : ℕ := 0x41505231
def APPLIANCE_PROFILE_VERSION : ℕ := 1

/-- `date_for_offset`. -/
def dateForOffset (now : ℤ) (daysAgo : ℕ) : DateStr :=
  let tm := localtime now
  strftimeDate (mktime { tm with mday := tm.mday - daysAgo, hour := 12, min := 0, sec := 0 }).2

/-! ## `record_cycle` -/

/-- `cycle_stats_t`. -/
structure CycleStats where
  count : ℕ := 0
  sumPow : ℚ := 0
  sumsqPow : ℚ := 0
  sumLen : ℚ := 0
  sumsqLen : ℚ := 0

def recordCycle (st : CycleStats) (cycSumMw : ℤ) (cycLen : ℕ) : CycleStats :=
  if cycLen < MIN_CYCLE_MIN then st
  else
    let meanPow : ℚ := cycSumMw / cycLen
    { count := (st.count + 1) % 2 ^ 32
      sumPow := st.sumPow + meanPow
      sumsqPow := st.sumsqPow + meanPow * meanPow
      sumLen := st.sumLen + cycLen
      sumsqLen := st.sumsqLen + cycLen * cycLen }

/-! ## `scan_day` -/

/-- The conversion to `int64_t`. -/
def toInt64 (x : ℤ) : ℤ := x.bmod (2 ^ 64)

/-- The variables of `scan_day`. -/
structure Scan where
  inCycle : Bool := false
  cycSum : ℤ := 0
  cycLen : ℕ := 0
  pendSum : ℤ := 0
  pendLen : ℕ := 0
  gap : ℕ := 0
  st : CycleStats

def Scan.read (onThreshold offThreshold : ℤ) (s : Scan) (p : ℤ) : Scan :=
  if !s.inCycle then
    if onThreshold ≤ p then { inCycle := true, cycSum := p, cycLen := 1, st := s.st } else s
  else if offThreshold ≤ p then
    -- still running
    { s with
      cycSum := toInt64 (s.cycSum + (s.pendSum + p))
      cycLen := (s.cycLen + (s.pendLen + 1)) % 2 ^ 32
      pendSum := 0
      pendLen := 0
      gap := 0 }
  else
    let gap := s.gap + 1
    if GAP_TOLERANCE_MIN < gap then { st := recordCycle s.st s.cycSum s.cycLen }
    else
      { s with
        gap := gap
        pendSum := toInt64 (s.pendSum + p)
        pendLen := (s.pendLen + 1) % 2 ^ 32 }

/-- `scan_day` for a day that has a file, of which only the power of the records matters. -/
def scanDay (onThreshold offThreshold : ℤ) (st : CycleStats) (recs : List ℤ) : CycleStats :=
  let s := recs.foldl (Scan.read onThreshold offThreshold) { st := st }
  if s.inCycle then recordCycle s.st s.cycSum s.cycLen else s.st

/-! ## `appliance_profile_train` -/

/-- `hist` and `peak_mw`. -/
structure Histogram where
  hist : ℕ → ℕ := fun _ => 0
  peakMw : ℤ := 0

def Histogram.add (g : Histogram) (p : ℤ) : Histogram :=
  let bin := if p ≤ 0 then 0 else (p.tdiv 1000).tdiv STANDBY_BIN_W
  let bin := if bin < 0 then 0 else bin
  let bin := if STANDBY_NBINS ≤ bin then STANDBY_NBINS - 1 else bin.toNat
  { hist := Function.update g.hist bin ((g.hist bin + 1) % 2 ^ 32)
    peakMw := if g.peakMw < p then p else g.peakMw }

def Histogram.modeBin (g : Histogram) : ℕ :=
  (List.range' 1 (STANDBY_NBINS - 1)).foldl
    (fun modeBin b => if g.hist modeBin < g.hist b then b else modeBin) 0

structure Thresholds where
  standbyMw : ℤ
  on : ℤ
  off : ℤ

/-- The centre of the modal band, or zero for the lowest. -/
def standbyOf (modeBin : ℕ) : Option ℤ :=
  if modeBin = 0 then some 0
  else do
    let w ← Checked.int 32 (modeBin * STANDBY_BIN_W)
    let w ← Checked.int 32 (w + STANDBY_BIN_W / 2)
    Checked.int 32 (w * 1000)

def thresholds (peakMw : ℤ) (modeBin : ℕ) : Option Thresholds := do
  let standbyMw ← standbyOf modeBin
  let above ← Checked.int 32 (peakMw - standbyMw)
  let scaled ← Checked.int 64 (above * ON_REL_NUM)
  let rel ← Checked.int 32 (scaled.tdiv ON_REL_DEN)
  let onMargin := if rel < ON_MARGIN_MW then ON_MARGIN_MW else rel
  let on ← Checked.int 32 (standbyMw + onMargin)
  let off ← Checked.int 32 (standbyMw + OFF_MARGIN_MW)
  return { standbyMw := standbyMw, on := on, off := off }

/-- The first pass, over the days that have a file. -/
def learn (days : List (List ℤ)) : Option Thresholds :=
  let g := days.foldl (fun g recs => recs.foldl Histogram.add g) {}
  thresholds g.peakMw g.modeBin

/-- The second pass. -/
def scanDays (t : Thresholds) (days : List (List ℤ)) : CycleStats :=
  days.foldl (scanDay t.on t.off) {}

/-- Half away from zero. -/
def lround (x : ℚ) : ℤ := if 0 ≤ x then ⌊x + 1 / 2⌋ else -⌊-x + 1 / 2⌋

/-- `lround(sqrt(x))`, of a number that is not negative. -/
def lroundSqrt (x : ℚ) : ℤ := (⌊4 * x⌋.toNat.sqrt + 1) / 2

/-- The square root is half a unit or less away. -/
theorem lroundSqrt_spec {x : ℚ} (hx : 0 ≤ x) :
    (1 ≤ lroundSqrt x → (lroundSqrt x - 1 / 2 : ℚ) ^ 2 ≤ x) ∧
      x < (lroundSqrt x + 1 / 2 : ℚ) ^ 2 := by
  have hfloor : 0 ≤ ⌊4 * x⌋ := Int.floor_nonneg.mpr (by linarith)
  have hcast : ((⌊4 * x⌋.toNat : ℕ) : ℚ) = (⌊4 * x⌋ : ℤ) := by
    exact_mod_cast Int.toNat_of_nonneg hfloor
  generalize hn : ⌊4 * x⌋.toNat = n at hcast
  have hle : (n : ℚ) ≤ 4 * x := hcast ▸ Int.floor_le _
  have hlt : 4 * x < n + 1 := hcast ▸ Int.lt_floor_add_one _
  have hsq : ((n.sqrt : ℕ) : ℚ) ^ 2 ≤ n := by exact_mod_cast Nat.sqrt_le' n
  have hsq' : (n + 1 : ℚ) ≤ ((n.sqrt : ℕ) + 1 : ℚ) ^ 2 := by exact_mod_cast Nat.lt_succ_sqrt' n
  have hr : lroundSqrt x = ((n.sqrt + 1) / 2 : ℤ) := by rw [lroundSqrt, hn]
  rw [hr]
  generalize n.sqrt = s at hsq hsq' ⊢
  generalize hhalf : ((s + 1) / 2 : ℤ) = r
  have hr2 : (2 * r - 1 : ℚ) ≤ s := by exact_mod_cast show 2 * r - 1 ≤ (s : ℤ) by omega
  have hs2 : (s : ℚ) ≤ 2 * r := by exact_mod_cast show (s : ℤ) ≤ 2 * r by omega
  have hs0 : (0 : ℚ) ≤ s := Nat.cast_nonneg s
  constructor
  · intro hpos
    have hpos : (1 : ℚ) ≤ r := by exact_mod_cast hpos
    nlinarith
  · nlinarith

/-- `appliance_profile_t`. -/
structure Profile where
  magic : ℕ := APPLIANCE_PROFILE_MAGIC
  version : ℕ := APPLIANCE_PROFILE_VERSION
  windowDays : ℕ
  trainedUnix : ℕ
  standbyMw : ℤ
  avgProgramPowerMw : ℤ := 0
  stdProgramPowerMw : ℤ := 0
  avgProgramLenMin : ℕ := 0
  stdProgramLenMin : ℕ := 0
  programCount : ℕ
  daysWithData : ℕ

def profileOf (now : ℤ) (windowDays : ℕ) (t : Thresholds) (st : CycleStats) (daysWithData : ℕ) :
    Profile :=
  let prof : Profile :=
    { windowDays := windowDays % 2 ^ 16
      trainedUnix := toUint32 now
      standbyMw := t.standbyMw
      programCount := st.count % 2 ^ 16
      daysWithData := daysWithData % 2 ^ 16 }
  if 0 < st.count then
    let meanPow := st.sumPow / st.count
    let varPow := st.sumsqPow / st.count - meanPow * meanPow
    let meanLen := st.sumLen / st.count
    let varLen := st.sumsqLen / st.count - meanLen * meanLen
    { prof with
      avgProgramPowerMw := toInt32 (lround meanPow)
      stdProgramPowerMw := toInt32 (lroundSqrt (if 0 < varPow then varPow else 0))
      avgProgramLenMin := toUint32 (lround meanLen)
      stdProgramLenMin := toUint32 (lroundSqrt (if 0 < varLen then varLen else 0)) }
  else prof

/-- The days of the window that have a file. -/
def dayFiles (file : DateStr → Option (List Int32)) (now : ℤ) (windowDays : ℕ) : List (List ℤ) :=
  (List.range windowDays).filterMap fun i =>
    (file (dateForOffset now (i + 1))).map (List.map Int32.toInt)

/-- The number of cycles, and the profile that is written. An id that is not safe is skipped. -/
def applianceProfileTrain (file : DateStr → Option (List Int32)) (now : ℤ) (windowDays : ℕ)
    (graphId : List Char) : Option (ℕ × Option Profile) :=
  if !sanitizeToken graphId then some (0, none)
  else
    let days := dayFiles file now windowDays
    (learn days).map fun t =>
      let st := scanDays t days
      (st.count, profileOf now windowDays t st (days.filter (· ≠ [])).length)

end HomeEnergyManager.ApplianceProfile
