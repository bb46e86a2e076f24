import HomeEnergyManager.Time.LocalTime

/-! # A day of prices

`tariff_day_t` and the date tokens that name its files.

Reference: `firmware/main/tariff.h`.
-/

namespace HomeEnergyManager

/-- 15-minute slots per day. -/
abbrev TARIFF_SLOTS : ℕ := 96

def TARIFF_SLOT_MINUTES : ℤ := 15

/-- `INT64_MIN`: a slot with no resolvable price. -/
def TARIFF_NO_PRICE : ℤ := -2 ^ 63

/-- Devices count their seconds from 2000. -/
def kChipEpochSecondsSinceUnixEpoch : ℤ := 946684800

abbrev Slots := Fin TARIFF_SLOTS → ℤ

/-- A day with no price at all. -/
def Slots.blank : Slots := fun _ => TARIFF_NO_PRICE

/-- `file_header_t`, without the magic number. -/
structure FileHeader where
  currency : ℕ
  decimals : ℕ
  unit : ℕ
deriving DecidableEq, Repr

/-- `tariff_day_t`; also the content of a `price-` or `tariff-` file. -/
structure TariffDay where
  hdr : FileHeader
  price : Slots

/-- `valid_date`: `YYYY-MM-DD` only. -/
def validDate (d : DateStr) : Bool :=
  d.length == 10 && d.zipIdx.all fun (c, i) =>
    if i == 4 || i == 7 then c == '-' else '0' ≤ c && c ≤ '9'

theorem digit_mem (n : ℤ) : '0' ≤ digit n ∧ digit n ≤ '9' := by
  have hall : ∀ k < 10, '0' ≤ Char.ofNat (48 + k) ∧ Char.ofNat (48 + k) ≤ '9' := by decide
  exact hall _ (by omega)

/-- Every date that `strftime` writes is a valid token. -/
@[simp] theorem validDate_dateStr (z : ℤ) : validDate (dateStr z) = true := by
  simp [validDate, dateStr, fourDigits, twoDigits, List.zipIdx, digit_mem]

end HomeEnergyManager
