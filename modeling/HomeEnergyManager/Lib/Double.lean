import Mathlib.Algebra.Order.Ring.Nat
import Mathlib.Data.Nat.Log
import Mathlib.Order.WithBot

/-! # Whole numbers as doubles

A double holds 53 significant bits. The cast of a whole number rounds it to the nearest multiple of
the last place, a tie to the even one.
-/

namespace Double

/-- The weight of the last place of the double nearest to `n`. -/
def lastPlace (n : ℕ) : ℕ := 2 ^ (n.log2 - 52)

/-- The double nearest to `n`. -/
def ofNat (n : ℕ) : ℕ :=
  let q := n / lastPlace n
  let r := n % lastPlace n
  (if lastPlace n < 2 * r ∨ (2 * r = lastPlace n ∧ q % 2 = 1) then q + 1 else q) * lastPlace n

theorem lastPlace_pos (n : ℕ) : 0 < lastPlace n := Nat.two_pow_pos _

theorem lastPlace_dvd_ofNat (n : ℕ) : lastPlace n ∣ ofNat n := Nat.dvd_mul_left _ _

/-- The numbers that need no rounding are the multiples of their last place. -/
theorem ofNat_eq_self_of_dvd {n : ℕ} (h : lastPlace n ∣ n) : ofNat n = n := by
  have hpos := lastPlace_pos n
  have hmod : n % lastPlace n = 0 := Nat.mod_eq_zero_of_dvd h
  have hkeep : ¬ (lastPlace n < 2 * (n % lastPlace n) ∨
      (2 * (n % lastPlace n) = lastPlace n ∧ n / lastPlace n % 2 = 1)) := by
    rw [hmod]
    omega
  rw [ofNat]
  simp only [if_neg hkeep]
  exact Nat.div_mul_cancel h

/-- A 64-bit number comes back from a double if and only if it needed no rounding. -/
theorem ofNat_mod_eq_self_iff {n : ℕ} (h : n < 2 ^ 64) :
    ofNat n % 2 ^ 64 = n ↔ lastPlace n ∣ n := by
  constructor
  · intro heq
    have hexp : n.log2 - 52 ≤ 64 := by
      rcases Nat.eq_zero_or_pos n with rfl | hpos
      · decide
      · have := (Nat.log2_lt (Nat.pos_iff_ne_zero.mp hpos)).mpr h
        omega
    have hdvd : lastPlace n ∣ ofNat n % 2 ^ 64 :=
      (Nat.dvd_mod_iff (pow_dvd_pow 2 hexp)).mpr (lastPlace_dvd_ofNat n)
    rw [heq] at hdvd
    exact hdvd
  · intro hdvd
    rw [ofNat_eq_self_of_dvd hdvd, Nat.mod_eq_of_lt h]

/-- What is in the last place of a number or before it. -/
theorem two_pow_log2_eq {n : ℕ} (h : 52 ≤ n.log2) : 2 ^ n.log2 = 2 ^ 52 * lastPlace n := by
  rw [lastPlace, ← pow_add, Nat.add_sub_of_le h]

theorem ofNat_eq_self {n : ℕ} (h : n < 2 ^ 53) : ofNat n = n := by
  refine ofNat_eq_self_of_dvd ?_
  have hexp : n.log2 - 52 = 0 := by
    rcases Nat.eq_zero_or_pos n with rfl | hpos
    · decide
    · have := (Nat.log2_lt (Nat.pos_iff_ne_zero.mp hpos)).mpr h
      omega
  rw [lastPlace, hexp]
  exact one_dvd n

/-- Rounding does not go below the power of two that a number starts with. -/
theorem two_pow_log2_le_ofNat {n : ℕ} (h : n ≠ 0) : 2 ^ n.log2 ≤ ofNat n := by
  by_cases hbig : 52 ≤ n.log2
  · have hq : 2 ^ 52 ≤ n / lastPlace n := by
      rw [Nat.le_div_iff_mul_le (lastPlace_pos n), ← two_pow_log2_eq hbig]
      exact Nat.log2_self_le h
    rw [two_pow_log2_eq hbig, ofNat]
    refine Nat.mul_le_mul_right _ (hq.trans ?_)
    split
    · exact Nat.le_succ _
    · exact Nat.le_refl _
  · have hsmall : n < 2 ^ 53 := (Nat.log2_lt h).mp (by omega)
    rw [ofNat_eq_self hsmall]
    exact Nat.log2_self_le h

/-- Nor above the next one. -/
theorem ofNat_le_two_pow (n : ℕ) : ofNat n ≤ 2 ^ (n.log2 + 1) := by
  by_cases hbig : 52 ≤ n.log2
  · have hq : n / lastPlace n < 2 ^ 53 := by
      rw [Nat.div_lt_iff_lt_mul (lastPlace_pos n)]
      have hlt : n < 2 ^ (n.log2 + 1) := Nat.lt_log2_self
      rw [pow_succ, two_pow_log2_eq hbig] at hlt
      omega
    rw [pow_succ, two_pow_log2_eq hbig, ofNat, mul_right_comm]
    refine Nat.mul_le_mul_right _ ?_
    split
    · exact hq
    · exact hq.le
  · have hsmall : n < 2 ^ 53 := by
      rcases Nat.eq_zero_or_pos n with rfl | hpos
      · decide
      · exact (Nat.log2_lt (Nat.pos_iff_ne_zero.mp hpos)).mp (by omega)
    rw [ofNat_eq_self hsmall]
    exact Nat.lt_log2_self.le

/-- Rounding keeps the order, though it may make numbers equal. -/
theorem ofNat_mono : Monotone ofNat := by
  intro m n hmn
  rcases Nat.eq_zero_or_pos m with rfl | hm
  · rw [show ofNat 0 = 0 from rfl]
    exact Nat.zero_le _
  have hm : m ≠ 0 := Nat.pos_iff_ne_zero.mp hm
  have hn : n ≠ 0 := by omega
  have hlog : m.log2 ≤ n.log2 := (Nat.le_log2 hn).mpr ((Nat.log2_self_le hm).trans hmn)
  rcases Nat.lt_or_eq_of_le hlog with hlt | heq
  · calc
      ofNat m ≤ 2 ^ (m.log2 + 1) := ofNat_le_two_pow m
      _ ≤ 2 ^ n.log2 := Nat.pow_le_pow_right (by decide) hlt
      _ ≤ ofNat n := two_pow_log2_le_ofNat hn
  · -- both are rounded at the same place
    have hplace : lastPlace m = lastPlace n := by rw [lastPlace, lastPlace, heq]
    rw [ofNat, ofNat, hplace]
    refine Nat.mul_le_mul_right _ ?_
    have hq : m / lastPlace n ≤ n / lastPlace n := Nat.div_le_div_right hmn
    have hdm := Nat.div_add_mod m (lastPlace n)
    have hdn := Nat.div_add_mod n (lastPlace n)
    rcases Nat.lt_or_eq_of_le hq with hq | hq
    · split <;> split <;> omega
    · rw [hq] at hdm ⊢
      have hr : m % lastPlace n ≤ n % lastPlace n := by omega
      split <;> split <;> omega

/-- Doubles from 2^1024 on are not finite. -/
def tooLarge : ℕ := (2 ^ 256) ^ 4

/-- The double of a number, which is infinite when the nearest one would not be finite. -/
def nearest (n : ℕ) : WithTop ℕ := if ofNat n < tooLarge then .some (ofNat n) else ⊤

theorem nearest_mono : Monotone nearest := by
  intro m n hmn
  have hle := ofNat_mono hmn
  rw [nearest, nearest]
  split
  · split
    · exact WithTop.coe_le_coe.mpr hle
    · exact le_top
  · rename_i hm
    rw [if_neg (by omega)]

/-- A small double is the number itself. -/
theorem nearest_eq_coe_iff {n k : ℕ} (hk : k < 2 ^ 53) : nearest n = .some k ↔ n = k := by
  have hself : nearest k = .some k := by
    rw [nearest, ofNat_eq_self hk, if_pos (hk.trans (by decide))]
  refine ⟨fun h => ?_, fun h => h ▸ hself⟩
  rw [nearest] at h
  split at h
  · rw [WithTop.coe_inj] at h
    by_cases hn : n < 2 ^ 53
    · rwa [ofNat_eq_self hn] at h
    · have hle := ofNat_mono (Nat.le_of_not_lt hn)
      have hpow : ofNat (2 ^ 53) = 2 ^ 53 := by decide
      omega
  · exact absurd h (WithTop.top_ne_coe)

end Double
