import Mathlib.Algebra.Order.Field.Basic
import Mathlib.Algebra.Order.Ring.Abs
import Mathlib.Data.Rat.Cast.Order
import Mathlib.Tactic.FieldSimp
import Mathlib.Tactic.Ring
import HomeEnergyManager.PowerLogger.Cost

/-! # The overlay of recorded prices, in 64 bits

`tariff_load_day` brings a recorded price to the precision of the schedule by repeated
multiplication or division by ten. The decimals come from devices, and nothing bounds the product.

Reference: `firmware/main/tariff.cpp`.
-/

namespace HomeEnergyManager.Tariff

open NodePowerLogger

/-- What an `int64_t` can hold. -/
def InInt64 (v : ℤ) : Prop := -2 ^ 63 ≤ v ∧ v < 2 ^ 63

instance : DecidablePred InInt64 := fun _ => inferInstanceAs (Decidable (_ ∧ _))

/-- `v *= 10`, so many times; `none` if one of the products overflows, which C leaves undefined. -/
def mulTen : ℕ → ℤ → Option ℤ
  | 0, v => some v
  | n + 1, v => if InInt64 (v * 10) then mulTen n (v * 10) else none

/-- The two loops that rescale a recorded price. -/
def rescale64 (recorded schedule : ℕ) (v : ℤ) : Option ℤ :=
  (mulTen (schedule - recorded) v).map fun v => (fun v => v.tdiv 10)^[recorded - schedule] v

/-- One pass of the loop over the slots. -/
def overlaySlot (recorded : TariffDay) (out : TariffDay) (i : Fin TARIFF_SLOTS) :
    Option TariffDay :=
  if recorded.price i = TARIFF_NO_PRICE then some out
  else (rescale64 recorded.hdr.decimals out.hdr.decimals (recorded.price i)).map fun v =>
    { out with price := Function.update out.price i v }

/-- `tariff_load_day` on the content of the two files of a day: whether it returns a day, and which;
`none` if a product overflows. -/
def tariffLoadDay64 : Option TariffDay → Option TariffDay → Option (Option TariffDay)
  | haveTariff, none => some haveTariff
  | none, some recorded => some (some recorded)
  | some out, some recorded =>
    ((List.finRange TARIFF_SLOTS).foldlM (overlaySlot recorded) out).map some

/-! ## What the overlay has to do -/

/-- A price of `r` decimals has the same money value as `v` with `s` decimals, but for the places
that are cut off. -/
def SameMoney (r : ℕ) (price : ℤ) (s : ℕ) (v : ℤ) : Prop :=
  if r ≤ s then (v / 10 ^ s : ℚ) = price / 10 ^ r else v = price.tdiv (10 ^ (r - s))

/-- The result of `tariff_load_day`. -/
def MoneyKept (tariff recorded result : Option TariffDay) : Prop :=
  match tariff, recorded with
  | tariff, none => result = tariff
  | none, some recorded => result = some recorded
  | some out, some recorded => ∃ day, result = some day ∧ day.hdr = out.hdr ∧
    ∀ i, if recorded.price i = TARIFF_NO_PRICE then day.price i = out.price i
      else SameMoney recorded.hdr.decimals (recorded.price i) day.hdr.decimals (day.price i) ∧
        day.price i ≠ TARIFF_NO_PRICE

/-- The recorded price of a slot fits into 64 bits in the precision of the schedule. -/
def FitsAt (recorded out : TariffDay) (i : Fin TARIFF_SLOTS) : Prop :=
  |recorded.price i| * 10 ^ (out.hdr.decimals - recorded.hdr.decimals) < 2 ^ 63

/-- Every recorded price does. -/
def Fits (tariff recorded : Option TariffDay) : Prop :=
  ∀ out ∈ tariff, ∀ day ∈ recorded, ∀ i, day.price i ≠ TARIFF_NO_PRICE → FitsAt day out i

/-! ## Rescaling -/

section Rescale

theorem mulTen_eq (n : ℕ) {v : ℤ} (hv : |v| < 2 ^ 63) :
    mulTen n v = if |v| * 10 ^ n < 2 ^ 63 then some (v * 10 ^ n) else none := by
  induction n generalizing v with
  | zero => rw [mulTen, pow_zero, mul_one, mul_one, if_pos hv]
  | succ n ih =>
    have habs : |v * 10| = |v| * 10 := by
      rw [abs_mul]
      rfl
    have hpow : |v| * 10 ^ (n + 1) = |v * 10| * 10 ^ n := by
      rw [habs, pow_succ]
      ring
    have hfits : InInt64 (v * 10) ↔ |v * 10| < 2 ^ 63 := by
      rw [InInt64, abs_lt]
      omega
    rw [mulTen, hpow]
    by_cases h : |v * 10| < 2 ^ 63
    · rw [if_pos (hfits.mpr h), ih h]
      congr 2
      ring
    · have hone : (1 : ℤ) ≤ 10 ^ n := one_le_pow₀ (by norm_num)
      have hle : |v * 10| ≤ |v * 10| * 10 ^ n := le_mul_of_one_le_right (abs_nonneg _) hone
      rw [if_neg (mt hfits.mp h), if_neg (by omega)]

theorem rescale64_eq {recorded schedule : ℕ} {v : ℤ} (hv : |v| < 2 ^ 63) :
    rescale64 recorded schedule v =
      if |v| * 10 ^ (schedule - recorded) < 2 ^ 63 then some (rescale recorded schedule v)
      else none := by
  rw [rescale64, mulTen_eq _ hv]
  split <;> rfl

theorem tdiv_tdiv (v : ℤ) (a b : ℕ) : (v.tdiv a).tdiv b = v.tdiv (a * b : ℕ) := by
  obtain ⟨n, rfl | rfl⟩ := v.eq_nat_or_neg
  · rw [← Int.ofNat_tdiv, ← Int.ofNat_tdiv, ← Int.ofNat_tdiv, Nat.div_div_eq_div_mul]
  · rw [Int.neg_tdiv, Int.neg_tdiv, Int.neg_tdiv, ← Int.ofNat_tdiv, ← Int.ofNat_tdiv,
      ← Int.ofNat_tdiv, Nat.div_div_eq_div_mul]

theorem iterate_tdiv (k : ℕ) (v : ℤ) : (fun v : ℤ => v.tdiv 10)^[k] v = v.tdiv (10 ^ k) := by
  induction k generalizing v with
  | zero => simp
  | succ k ih =>
    have h := tdiv_tdiv v 10 (10 ^ k)
    push_cast at h
    rw [Function.iterate_succ_apply, ih, h, pow_succ']

/-- The exact rescaling keeps the money value. -/
theorem sameMoney_rescale (r s : ℕ) (v : ℤ) : SameMoney r v s (rescale r s v) := by
  unfold SameMoney rescale
  rw [iterate_tdiv]
  split
  · rename_i hle
    obtain ⟨k, rfl⟩ := Nat.exists_eq_add_of_le hle
    have hzero : r - (r + k) = 0 := by omega
    have hk : r + k - r = k := by omega
    rw [hzero, hk, pow_zero, Int.tdiv_one]
    push_cast
    rw [pow_add]
    field_simp
  · rename_i hlt
    have hzero : s - r = 0 := by omega
    rw [hzero, pow_zero, mul_one]

/-- A price that fits does not turn into the one that stands for none. -/
theorem abs_rescale_lt {r s : ℕ} {v : ℤ} (hv : |v| * 10 ^ (s - r) < 2 ^ 63) :
    |rescale r s v| < 2 ^ 63 := by
  unfold rescale
  rw [iterate_tdiv]
  refine lt_of_le_of_lt ?_ hv
  have habs : |v * 10 ^ (s - r)| = |v| * 10 ^ (s - r) := by
    rw [abs_mul, abs_pow]
    rfl
  rw [← habs, ← Int.natCast_natAbs, ← Int.natCast_natAbs, Int.natAbs_tdiv]
  exact_mod_cast Nat.div_le_self _ _

end Rescale

/-! ## The loop over the slots -/

section Loop

variable {recorded : TariffDay}

/-- The loop succeeds if every price on its way fits, and then each slot is overlaid as in exact
arithmetic. -/
theorem foldlM_of_fits (hprice : ∀ i, recorded.price i ≠ TARIFF_NO_PRICE →
    |recorded.price i| < 2 ^ 63) (l : List (Fin TARIFF_SLOTS)) {out : TariffDay}
    (hfits : ∀ i ∈ l, recorded.price i ≠ TARIFF_NO_PRICE → FitsAt recorded out i) :
    l.foldlM (overlaySlot recorded) out = some { out with
      price := fun i => if i ∈ l then (overlay recorded out).price i else out.price i } := by
  induction l generalizing out with
  | nil => simp
  | cons i l ih =>
    rw [List.foldlM_cons, overlaySlot]
    have htail : ∀ j ∈ l, recorded.price j ≠ TARIFF_NO_PRICE → FitsAt recorded out j :=
      fun j hj => hfits j (List.mem_cons_of_mem _ hj)
    by_cases hnone : recorded.price i = TARIFF_NO_PRICE
    · rw [if_pos hnone]
      refine (ih htail).trans ?_
      refine congrArg (fun price => some { out with price := price }) (funext fun j => ?_)
      by_cases hj : j = i
      · subst hj
        simp [overlay, hnone]
      · simp [hj]
    · have hi : |recorded.price i| * 10 ^ (out.hdr.decimals - recorded.hdr.decimals) < 2 ^ 63 :=
        hfits i List.mem_cons_self hnone
      rw [if_neg hnone, rescale64_eq (hprice i hnone), if_pos hi]
      have hstep := @ih ⟨out.hdr, Function.update out.price i
        (rescale recorded.hdr.decimals out.hdr.decimals (recorded.price i))⟩ htail
      refine hstep.trans ?_
      refine congrArg (fun price => some { out with price := price }) (funext fun j => ?_)
      by_cases hj : j = i
      · subst hj
        by_cases hmem : j ∈ l <;> simp [overlay, hnone, hmem]
      · by_cases hmem : j ∈ l <;> simp [overlay, hj, hmem]

/-- It fails if one of them does not. -/
theorem foldlM_of_not_fits (hprice : ∀ i, recorded.price i ≠ TARIFF_NO_PRICE →
    |recorded.price i| < 2 ^ 63) {l : List (Fin TARIFF_SLOTS)} {out : TariffDay}
    {i : Fin TARIFF_SLOTS} (hi : i ∈ l) (hnone : recorded.price i ≠ TARIFF_NO_PRICE)
    (hfits : ¬ FitsAt recorded out i) :
    l.foldlM (overlaySlot recorded) out = none := by
  induction l generalizing out with
  | nil => exact absurd hi List.not_mem_nil
  | cons j l ih =>
    rw [List.foldlM_cons, overlaySlot]
    by_cases hskip : recorded.price j = TARIFF_NO_PRICE
    · have htail : i ∈ l := by
        refine (List.mem_cons.mp hi).resolve_left fun heq => ?_
        exact hnone (heq ▸ hskip)
      rw [if_pos hskip]
      exact ih htail hfits
    · rw [if_neg hskip, rescale64_eq (hprice j hskip)]
      split
      · rename_i hj
        have htail : i ∈ l := by
          refine (List.mem_cons.mp hi).resolve_left fun heq => ?_
          exact hfits (heq ▸ hj)
        exact ih htail hfits
      · rfl

theorem abs_lt_of_inInt64 {v : ℤ} (h : InInt64 v) (hprice : v ≠ TARIFF_NO_PRICE) :
    |v| < 2 ^ 63 := by
  rw [abs_lt]
  unfold TARIFF_NO_PRICE at hprice
  exact ⟨lt_of_le_of_ne h.1 hprice.symm, h.2⟩

/-- Where every price fits, the overlay keeps the money values. -/
theorem moneyKept_overlay {out : TariffDay} (hfits : Fits (some out) (some recorded)) :
    MoneyKept (some out) (some recorded) (some (overlay recorded out)) := by
  refine ⟨_, rfl, rfl, fun i => ?_⟩
  by_cases hnone : recorded.price i = TARIFF_NO_PRICE
  · simp [overlay, hnone]
  · rw [if_neg hnone]
    have hvalue : (overlay recorded out).price i =
        rescale recorded.hdr.decimals out.hdr.decimals (recorded.price i) := if_neg hnone
    rw [hvalue]
    refine ⟨sameMoney_rescale _ _ _, fun heq => ?_⟩
    have hlt := abs_rescale_lt (hfits out rfl recorded rfl i hnone)
    rw [heq, TARIFF_NO_PRICE] at hlt
    exact absurd hlt (by decide)

end Loop

/-- Where every price fits, this is the `tariff_load_day` of exact arithmetic. -/
theorem tariffLoadDay64_eq {c : Inputs} {date : DateStr} (hdate : validDate date = true)
    (h : ∀ day ∈ commodityPriceLoadDay c date, ∀ i, InInt64 (day.price i))
    (hfits : Fits (loadTariffFile c date) (commodityPriceLoadDay c date)) :
    tariffLoadDay64 (loadTariffFile c date) (commodityPriceLoadDay c date) =
      some (tariffLoadDay c date) := by
  rw [tariffLoadDay, if_pos hdate]
  generalize loadTariffFile c date = tariff at hfits
  generalize commodityPriceLoadDay c date = recorded at h hfits
  cases recorded with
  | none => cases tariff <;> rfl
  | some day =>
    cases tariff with
    | none => rfl
    | some out =>
      have hloop := foldlM_of_fits (fun i => abs_lt_of_inInt64 (h day rfl i))
        (List.finRange TARIFF_SLOTS) fun i _ => hfits out rfl day rfl i
      simp only [List.mem_finRange, if_true] at hloop
      rw [tariffLoadDay64, hloop]
      rfl

/-- `tariff_load_day` keeps the money value of every recorded price, without an overflow, if and
only if each of them fits into 64 bits in the precision of the schedule. -/
theorem money_kept_iff {tariff recorded : Option TariffDay}
    (h : ∀ day ∈ recorded, ∀ i, InInt64 (day.price i)) :
    (∃ result, tariffLoadDay64 tariff recorded = some result ∧ MoneyKept tariff recorded result) ↔
      Fits tariff recorded := by
  cases recorded with
  | none =>
    refine iff_of_true ⟨tariff, ?_, ?_⟩ ?_
    · cases tariff <;> rfl
    · cases tariff <;> rfl
    · intro out _ day hday
      simp at hday
  | some day =>
    cases tariff with
    | none =>
      refine iff_of_true ⟨some day, rfl, rfl⟩ ?_
      intro out hout
      simp at hout
    | some out =>
      have hprice : ∀ i, day.price i ≠ TARIFF_NO_PRICE → |day.price i| < 2 ^ 63 :=
        fun i => abs_lt_of_inInt64 (h day rfl i)
      constructor
      · rintro ⟨result, hresult, -⟩ out' hout day' hday i hnone
        obtain rfl := Option.some.inj hout
        obtain rfl := Option.some.inj hday
        by_contra hnot
        have hfail := foldlM_of_not_fits hprice (List.mem_finRange i) hnone hnot
        rw [tariffLoadDay64, hfail] at hresult
        simp at hresult
      · intro hfits
        have hloop := foldlM_of_fits hprice (List.finRange TARIFF_SLOTS)
          fun i _ => hfits out rfl day rfl i
        simp only [List.mem_finRange, if_true] at hloop
        refine ⟨some (overlay day out), ?_, moneyKept_overlay hfits⟩
        rw [tariffLoadDay64, hloop]
        rfl

/-- A day with one price in every slot. -/
def flatDay (decimals : ℕ) (price : ℤ) : TariffDay where
  hdr := { currency := 826, decimals := decimals, unit := 0 }
  price := fun _ => price

theorem money_kept_pence :
    ∃ result, tariffLoadDay64 (some (flatDay 4 2500)) (some (flatDay 2 31)) = some result ∧
      MoneyKept (some (flatDay 4 2500)) (some (flatDay 2 31)) result := by
  refine (money_kept_iff fun day hday i => ?_).mpr fun out hout day hday i _ => ?_
  · obtain rfl := Option.some.inj hday
    show InInt64 31
    decide
  · obtain rfl := Option.some.inj hday
    obtain rfl := Option.some.inj hout
    show |(31 : ℤ)| * 10 ^ 2 < 2 ^ 63
    decide

/-- A price of 10¹⁸ without decimals does not fit with two of them. -/
theorem money_overflows :
    ¬ ∀ tariff recorded : Option TariffDay, (∀ day ∈ recorded, ∀ i, InInt64 (day.price i)) →
      ∃ result, tariffLoadDay64 tariff recorded = some result ∧
        MoneyKept tariff recorded result := by
  intro h
  obtain ⟨result, hresult, -⟩ := h (some (flatDay 2 0)) (some (flatDay 0 (10 ^ 18)))
    fun day hday i => by
      obtain rfl := Option.some.inj hday
      show InInt64 (10 ^ 18)
      decide
  have hprice : ∀ i, (flatDay 0 (10 ^ 18)).price i ≠ TARIFF_NO_PRICE →
      |(flatDay 0 (10 ^ 18)).price i| < 2 ^ 63 := by
    intro i _
    show |(10 ^ 18 : ℤ)| < 2 ^ 63
    decide
  have hnone : (flatDay 0 (10 ^ 18)).price 0 ≠ TARIFF_NO_PRICE := by decide
  have hfits : ¬ FitsAt (flatDay 0 (10 ^ 18)) (flatDay 2 0) 0 := by
    show ¬ |(10 ^ 18 : ℤ)| * 10 ^ 2 < 2 ^ 63
    decide
  have hfail := foldlM_of_not_fits hprice (List.mem_finRange 0) hnone hfits
  rw [tariffLoadDay64, hfail] at hresult
  simp at hresult

end HomeEnergyManager.Tariff
