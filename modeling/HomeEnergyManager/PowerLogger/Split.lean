import HomeEnergyManager.PowerLogger.Ledger

/-! # The minute loop of `compute_day_split`

Each minute, house consumption is supplied by grid import, PV directly and battery discharge. Every
load and the unmonitored remainder take the same mix, in proportion to their draw; the ledger says
which part of the discharge is solar. `splitDay` is `compute_day_split` from the point where the
minute arrays of the day are loaded.

Reference: `firmware/main/node_power_logger.cpp`.
-/

namespace HomeEnergyManager.NodePowerLogger

def UNMONITORED_KEY : String := "__unmonitored"

/-- The minute arrays of one day: whether a state-of-charge file was found, the graph ids of the
loads, and the minutes, whose `loads` are in the order of `loadIds`. -/
structure DayArrays where
  haveSoc : Bool
  loadIds : List String
  minutes : List Minute
deriving DecidableEq, Repr

/-- The energies that the loop accumulates, in Wh. -/
structure Shares where
  loadSolar : List ℚ
  loadGrid : List ℚ
  unSolar : ℚ
  unGrid : ℚ
deriving DecidableEq, Repr

/-- `day_split_t`, together with the ledgers pushed to `hourly`. -/
structure DaySplit where
  wh : List (String × ℚ × ℚ)
  endLedger : BatteryLedger
  hourly : List BatteryLedger
deriving DecidableEq, Repr

def Minute.loadsSum (m : Minute) : ℚ :=
  (m.loads.map fun v => if 0 < v then (v : ℚ) / 1000 else 0).sum

/-- House consumption. Where the meters disagree the loads win, so the remainder is not negative. -/
def Minute.total (m : Minute) : ℚ :=
  if m.gridW + m.invW < m.loadsSum then m.loadsSum else m.gridW + m.invW

/-- `g`: the grid share of the house, capped because import also charges the battery. -/
def Minute.gridShare (m : Minute) : ℚ :=
  let g := if 0 < m.gridW then m.gridW / m.total else 0
  if 1 < g then 1 else g

/-- `b`: the part of the inverter's output that came out of the battery. -/
def Minute.batteryShare (m : Minute) : ℚ :=
  let invPos := if 0 < m.invW then m.invW else 0
  let dis := if 0 < m.batW then m.batW else 0
  if 0 < invPos then (if dis < invPos then dis else invPos) / invPos else 0

/-- `s`: the solar share of the minute's consumption. -/
def Minute.solarShare (m : Minute) (L : BatteryLedger) : ℚ :=
  (1 - m.gridShare) * ((1 - m.batteryShare) + m.batteryShare * L.mix)

/-- `acc[k] += wh * w` for every load that draws power. -/
def addLoads (w : ℚ) (acc : List ℚ) (loads : List ℤ) : List ℚ :=
  List.zipWith (fun a (v : ℤ) => if 0 < v then a + (v : ℚ) / 1000 / 60 * w else a) acc loads

/-- The split of one minute's consumption. -/
def shareMinute (m : Minute) (L : BatteryLedger) (a : Shares) : Shares :=
  if 0 < m.total then
    let s := m.solarShare L
    let unWh := (m.total - m.loadsSum) / 60
    { loadSolar := addLoads s a.loadSolar m.loads
      loadGrid := addLoads (1 - s) a.loadGrid m.loads
      unSolar := a.unSolar + unWh * s
      unGrid := a.unGrid + unWh * (1 - s) }
  else a

/-- The locals of the minute loop; `i` is the loop counter. -/
structure SplitState where
  ledger : LedgerState
  shares : Shares
  hourly : List BatteryLedger
  i : ℕ
deriving DecidableEq, Repr

/-- One pass of the minute loop. -/
def splitMinute (haveSoc : Bool) (st : SplitState) (m : Minute) : SplitState :=
  let ledger := ledgerMinute haveSoc m st.ledger
  { ledger := ledger
    shares := shareMinute m st.ledger.L st.shares
    hourly := if st.i % 60 = 59 then st.hourly ++ [{ ledger.L with soc := haveSoc }] else st.hourly
    i := st.i + 1 }

/-- The locals before the first minute. -/
def splitStart (d : DayArrays) (start : BatteryLedger) : SplitState :=
  { ledger := startState d.haveSoc start
    shares :=
      { loadSolar := d.loadIds.map fun _ => 0
        loadGrid := d.loadIds.map fun _ => 0
        unSolar := 0
        unGrid := 0 }
    hourly := []
    i := 0 }

/-- The locals after the first `n` minutes. -/
def splitAfter (d : DayArrays) (start : BatteryLedger) (n : ℕ) : SplitState :=
  (d.minutes.take n).foldl (splitMinute d.haveSoc) (splitStart d start)

/-- `compute_day_split` on loaded arrays. -/
def splitDay (d : DayArrays) (start : BatteryLedger) : DaySplit :=
  let st := d.minutes.foldl (splitMinute d.haveSoc) (splitStart d start)
  { wh := (d.loadIds.zip (st.shares.loadSolar.zip st.shares.loadGrid))
      ++ [(UNMONITORED_KEY, st.shares.unSolar, st.shares.unGrid)]
    endLedger := { st.ledger.L with soc := d.haveSoc }
    hourly := st.hourly }

/-- The ledger part of the loop runs on its own: the energies are never read back. -/
theorem foldl_splitMinute_ledger (haveSoc : Bool) (ms : List Minute) (st : SplitState) :
    (ms.foldl (splitMinute haveSoc) st).ledger = ledgerLoop haveSoc ms st.ledger := by
  induction ms generalizing st with
  | nil => rfl
  | cons m ms ih => rw [List.foldl_cons, ih, ledgerLoop_cons]; rfl

theorem splitAfter_ledger (d : DayArrays) (start : BatteryLedger) (n : ℕ) :
    (splitAfter d start n).ledger
      = ledgerLoop d.haveSoc (d.minutes.take n) (startState d.haveSoc start) :=
  foldl_splitMinute_ledger _ _ _

@[simp] theorem splitDay_endLedger (d : DayArrays) (start : BatteryLedger) :
    (splitDay d start).endLedger = endLedger d.haveSoc d.minutes start := by
  simp only [splitDay, endLedger, foldl_splitMinute_ledger]
  rfl

/-- The end ledger of a chain of days, each started from the one before. -/
def chainEnd (start : BatteryLedger) (days : List DayArrays) : BatteryLedger :=
  days.foldl (fun L d => (splitDay d L).endLedger) start

@[simp] theorem chainEnd_nil (start : BatteryLedger) : chainEnd start [] = start := rfl

@[simp] theorem chainEnd_cons (start : BatteryLedger) (d : DayArrays) (ds : List DayArrays) :
    chainEnd start (d :: ds) = chainEnd (splitDay d start).endLedger ds := rfl

theorem chainEnd_append_singleton (start : BatteryLedger) (ds : List DayArrays) (d : DayArrays) :
    chainEnd start (ds ++ [d]) = (splitDay d (chainEnd start ds)).endLedger := by
  rw [chainEnd, List.foldl_append]
  rfl

end HomeEnergyManager.NodePowerLogger
