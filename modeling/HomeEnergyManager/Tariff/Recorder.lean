import HomeEnergyManager.Tariff.Resolve

/-! # The tariff recorder

Attribute reports of the tariff source update the decoded state, and a flush a moment after the last
of them resolves `CurrentDay` and `NextDay` into the files of these days.

Reference: `firmware/main/tariff.cpp`.
-/

namespace HomeEnergyManager.Tariff

/-- What is guarded by the mutex, as far as it is read to price a day, and whether the flush timer
runs. -/
structure State where
  source : Option (ℕ × ℕ) := none
  currency : ℕ := 0
  decimals : ℕ := 0
  unit : ℕ := 0
  entries : List DayEntry := []
  periods : List Period := []
  components : List Component := []
  currentDay : Day := {}
  nextDay : Day := {}
  flushArmed : Bool := false
deriving DecidableEq, Repr

/-- What a report carries once it is decoded; `other` stands for any attribute that is not handled
and for data that cannot be decoded. -/
inductive Report where
  /-- Currency and decimals, if the info has them. -/
  | tariffInfo (currency : Option (ℕ × ℕ))
  | tariffUnit (v : Option ℕ)
  | dayEntries (v : List DayEntry)
  | tariffPeriods (v : List Period)
  | tariffComponents (v : List Component)
  /-- The date, in seconds of the CHIP epoch, and the entry ids. -/
  | currentDay (v : Option (ℕ × List ℕ))
  | nextDay (v : Option (ℕ × List ℕ))
  | other
deriving DecidableEq, Repr

/-- `decode_day`. -/
def decodeDay (v : Option (ℕ × List ℕ)) : Day :=
  v.elim {} fun v =>
    { valid := true
      unixDate := toUint32 (v.1 + kChipEpochSecondsSinceUnixEpoch)
      entryIds := v.2 }

/-- The first section of `tariff_on_attribute`: only reports of the source count. -/
def accepts (s : State) (nodeId endpointId : ℕ) : Bool := s.source == some (nodeId, endpointId)

/-- The section of `tariff_on_attribute` that stores a report, and `schedule_flush`. -/
def storeReport (r : Report) (s : State) : State :=
  match r with
  | .tariffInfo currency =>
    { s with
      currency := (currency.getD (0, 0)).1
      decimals := (currency.getD (0, 0)).2
      flushArmed := true }
  | .tariffUnit v => { s with unit := v.getD 0, flushArmed := true }
  | .dayEntries v => { s with entries := v, flushArmed := true }
  | .tariffPeriods v => { s with periods := v, flushArmed := true }
  | .tariffComponents v => { s with components := v, flushArmed := true }
  | .currentDay v => { s with currentDay := decodeDay v, flushArmed := true }
  | .nextDay v => { s with nextDay := decodeDay v, flushArmed := true }
  | .other => s

/-- `pending` in `on_flush_timer`: the days that are resolved, under the header of now. -/
def State.pending (s : State) : List (DateStr × TariffDay) :=
  let hdr : FileHeader := { currency := s.currency, decimals := s.decimals, unit := s.unit }
  ([s.currentDay, s.nextDay].filter (·.valid)).map fun d =>
    (dateOfDay d.unixDate, { hdr := hdr, price := resolveDay s.entries s.periods s.components d })

end HomeEnergyManager.Tariff
