import Mathlib.Algebra.Order.Field.Basic
import Mathlib.Order.Interval.Set.Basic
import Mathlib.Tactic.FieldSimp
import Mathlib.Tactic.Linarith
import Mathlib.Tactic.Positivity
import Mathlib.Tactic.Ring

/-! # Blending two quantities of different composition

A store holds an amount of which a fraction has some property. Adding an amount of another fraction
gives the weighted mean of the two. `blend` is that mean and `share` the fraction that two added
totals have; the rules are over any ordered field.
-/

namespace Mix

variable {K : Type*} [Field K] [LinearOrder K] [IsStrictOrderedRing K]

/-- The fraction of the whole after adding an amount `d` of fraction `r` to `h` of fraction `f`. -/
def blend (h f d r : K) : K := (f * h + r * d) / (h + d)

/-- The fraction that `s` makes of `s + g`. -/
def share (s g : K) : K := s / (s + g)

/-- A blend lies between any bounds that both fractions lie between. -/
theorem blend_mem_Icc {h f d r lo hi : K} (hh : 0 ≤ h) (hd : 0 ≤ d) (hpos : 0 < h + d)
    (hf : f ∈ Set.Icc lo hi) (hr : r ∈ Set.Icc lo hi) : blend h f d r ∈ Set.Icc lo hi := by
  obtain ⟨hf₁, hf₂⟩ := hf
  obtain ⟨hr₁, hr₂⟩ := hr
  have hlow : lo * (h + d) ≤ f * h + r * d := by
    have h₁ := mul_le_mul_of_nonneg_right hf₁ hh
    have h₂ := mul_le_mul_of_nonneg_right hr₁ hd
    linarith
  have hhigh : f * h + r * d ≤ hi * (h + d) := by
    have h₁ := mul_le_mul_of_nonneg_right hf₂ hh
    have h₂ := mul_le_mul_of_nonneg_right hr₂ hd
    linarith
  exact ⟨(le_div_iff₀ hpos).mpr hlow, (div_le_iff₀ hpos).mpr hhigh⟩

omit [LinearOrder K] [IsStrictOrderedRing K] in
/-- Adding an amount of the same fraction changes nothing. -/
theorem blend_self {h f d : K} (hpos : h + d ≠ 0) : blend h f d f = f := by
  rw [blend, ← mul_add, mul_div_assoc, div_self hpos, mul_one]

/-- Two blends of the same store with a positive amount agree only when the added fractions do. -/
theorem blend_right_inj {h f d r r' : K} (hd : 0 < d) (hpos : 0 < h + d) :
    blend h f d r = blend h f d r' ↔ r = r' := by
  constructor
  · intro heq
    rw [blend, blend, div_left_inj' hpos.ne', add_right_inj] at heq
    exact mul_right_cancel₀ hd.ne' heq
  · rintro rfl
    rfl

/-- Two blends of positive stores with the same addition agree only when the stores' fractions
do. -/
theorem blend_left_inj {h f f' d r : K} (hh : 0 < h) (hpos : 0 < h + d) :
    blend h f d r = blend h f' d r ↔ f = f' := by
  constructor
  · intro heq
    rw [blend, blend, div_left_inj' hpos.ne', add_left_inj] at heq
    exact mul_right_cancel₀ hh.ne' heq
  · rintro rfl
    rfl

/-- A share of two non-negative totals is a fraction. -/
theorem share_mem_unit {s g : K} (hs : 0 ≤ s) (hg : 0 ≤ g) (hpos : 0 < s + g) :
    share s g ∈ Set.Icc 0 1 := by
  refine ⟨div_nonneg hs hpos.le, (div_le_one hpos).mpr ?_⟩
  linarith

end Mix
