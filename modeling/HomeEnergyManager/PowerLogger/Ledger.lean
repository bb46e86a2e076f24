import Mathlib.Data.Rat.Defs
import Mathlib.Data.List.Basic
import HomeEnergyManager.Lib.Mix

/-! # The battery ledger of `compute_day_split`

`compute_day_split` walks over the minutes of a day and keeps a ledger of the energy held in the
battery and of the fraction of it that came from solar. This module has the ledger and the part of
the minute loop that updates it. Floating point is exact arithmetic over `ℚ`.

Reference: `firmware/main/node_power_logger.cpp`.
-/

namespace HomeEnergyManager.NodePowerLogger

/-- `battery_ledger_t`; the defaults are those of the source. -/
structure BatteryLedger where
  eWh : ℚ := 0
  f : ℚ := 0
  known : Bool := false
  /-- `eWh` is usable state of charge, not Wh. -/
  soc : Bool := false
deriving DecidableEq, Repr

/-- `battery_ledger_t{}`: energy of unknown origin. -/
def BatteryLedger.unknown : BatteryLedger := {}

def kBatteryRoundTrip : ℚ := 9 / 10

/-- The inverter never discharges below this, so charge under it is not counted. -/
def kBatteryReserveHalfPct : ℤ := 20

/-- One index of the minute arrays of a day. `inv` and `bat` are already what the devices supply
(`supplied_mw`): a generating inverter and a discharging battery are positive. `soc` is the state
of charge in half-percent, negative when there is no reading. -/
structure Minute where
  grid : ℤ
  inv : ℤ
  bat : ℤ
  soc : ℤ
  loads : List ℤ
deriving DecidableEq, Repr

/-- A minute with no flow, no load and no reading. -/
def Minute.idle : Minute := { grid := 0, inv := 0, bat := 0, soc := -1, loads := [] }

def Minute.gridW (m : Minute) : ℚ := m.grid / 1000

def Minute.invW (m : Minute) : ℚ := m.inv / 1000

def Minute.batW (m : Minute) : ℚ := m.bat / 1000

/-- The locals of the minute loop that the ledger update reads and writes: the ledger, the charge
since the last state-of-charge step and whether a Wh ledger still waits for its first reading. -/
structure LedgerState where
  L : BatteryLedger
  pendS : ℚ
  pendG : ℚ
  rebase : Bool
deriving DecidableEq, Repr

/-- `cg`: the part of the charge that was pulled from the AC side. -/
def Minute.chargeGrid (m : Minute) : ℚ :=
  if m.invW < 0 then (if -m.invW < -m.batW then -m.invW else -m.batW) else 0

/-- `c - cg`: the part of the charge that came from the panels. -/
def Minute.chargeSolar (m : Minute) : ℚ := -m.batW - m.chargeGrid

/-- The charge of this minute joins the totals that wait for the next reading. -/
def addPending (m : Minute) (s : LedgerState) : LedgerState :=
  if m.batW < 0 then
    { s with pendS := s.pendS + m.chargeSolar, pendG := s.pendG + m.chargeGrid }
  else s

/-- `u`: the usable charge that a reading stands for. -/
def usable (soc : ℤ) : ℚ :=
  if kBatteryReserveHalfPct < soc then ((soc - kBatteryReserveHalfPct : ℤ) : ℚ) else 0

/-- `held`: what the ledger holds before the reading. -/
def BatteryLedger.held (L : BatteryLedger) : ℚ := if L.known then L.eWh else 0

/-- The mix a ledger of unknown origin counts as is grid. -/
def BatteryLedger.mix (L : BatteryLedger) : ℚ := if L.known then L.f else 0

/-- `r`: the mix of a rise, that of the charge that produced it, else the current one. -/
def LedgerState.riseMix (s : LedgerState) : ℚ :=
  if 0 < s.pendS + s.pendG then s.pendS / (s.pendS + s.pendG) else s.L.mix

/-- The update for one state-of-charge reading. -/
def applyReading (soc : ℤ) (s : LedgerState) : LedgerState :=
  let u := usable soc
  let held := s.L.held
  if u ≤ 0 then
    -- down to the reserve: nothing usable left, charge below it is not counted
    { L := .unknown, pendS := 0, pendG := 0, rebase := false }
  else if s.rebase && s.L.known then
    { L := { s.L with eWh := u }, pendS := 0, pendG := 0, rebase := false }
  else if held < u then
    { L := { s.L with
        f := (s.L.f * held + s.riseMix * (u - held)) / u
        eWh := u
        known := true },
      pendS := 0, pendG := 0, rebase := false }
  else if u < held then
    { L := { s.L with eWh := u }, pendS := 0, pendG := 0, rebase := false }
  else
    { s with rebase := false }

/-- The update on a day without a state-of-charge file: Wh are counted from the battery's power. -/
def countWh (m : Minute) (L : BatteryLedger) : BatteryLedger :=
  if m.batW < 0 then
    let solarHeld := if L.known then L.f * L.eWh else 0
    let eWh := L.held + -m.batW / 60
    { L with eWh := eWh, f := (solarHeld + m.chargeSolar / 60) / eWh, known := true }
  else if 0 < m.batW ∧ L.known = true then
    let eWh := L.eWh - m.batW / 60 / kBatteryRoundTrip
    if eWh ≤ 0 then .unknown else { L with eWh := eWh }
  else L

/-- The ledger part of one pass of the minute loop. -/
def ledgerMinute (haveSoc : Bool) (m : Minute) (s : LedgerState) : LedgerState :=
  if haveSoc then
    let s := addPending m s
    if 0 ≤ m.soc then applyReading m.soc s else s
  else
    { s with L := countWh m s.L }

/-- The locals at the top of the minute loop. A ledger in Wh is re-based onto the first reading;
the reverse has no conversion, so the history is dropped. -/
def startState (haveSoc : Bool) (start : BatteryLedger) : LedgerState :=
  { L := if !haveSoc && start.soc then .unknown else start
    pendS := 0
    pendG := 0
    rebase := haveSoc && !start.soc }

/-- The minute loop, as far as the ledger goes. -/
def ledgerLoop (haveSoc : Bool) (ms : List Minute) (s : LedgerState) : LedgerState :=
  ms.foldl (fun s m => ledgerMinute haveSoc m s) s

/-- `out.end`: the ledger with which a day's minutes leave the loop. -/
def endLedger (haveSoc : Bool) (ms : List Minute) (start : BatteryLedger) : BatteryLedger :=
  { (ledgerLoop haveSoc ms (startState haveSoc start)).L with soc := haveSoc }

@[simp] theorem ledgerLoop_cons (haveSoc : Bool) (m : Minute) (ms : List Minute) (s : LedgerState) :
    ledgerLoop haveSoc (m :: ms) s = ledgerLoop haveSoc ms (ledgerMinute haveSoc m s) := rfl

theorem ledgerLoop_append (haveSoc : Bool) (ms ms' : List Minute) (s : LedgerState) :
    ledgerLoop haveSoc (ms ++ ms') s = ledgerLoop haveSoc ms' (ledgerLoop haveSoc ms s) := by
  rw [ledgerLoop, ledgerLoop, ledgerLoop, List.foldl_append]

end HomeEnergyManager.NodePowerLogger
