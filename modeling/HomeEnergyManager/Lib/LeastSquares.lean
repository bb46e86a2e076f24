import Mathlib.Algebra.BigOperators.Group.List.Basic
import Mathlib.Algebra.Order.BigOperators.Group.List
import Mathlib.Tactic.FieldSimp
import Mathlib.Tactic.Linarith
import Mathlib.Tactic.LinearCombination
import Mathlib.Tactic.Positivity
import Mathlib.Tactic.Ring

/-! # Means, variances and straight lines

The population mean and variance of a list of numbers, and the line through a list of points that
leaves the least sum of squares. All are computed from sums over the list.
-/

namespace LeastSquares

variable {K : Type*} [Field K]

/-! ## Mean and variance -/

def mean (l : List K) : K := l.sum / l.length

/-- The mean of the squared distances from the mean. -/
def variance (l : List K) : K := mean (l.map fun x => (x - mean l) ^ 2)

@[simp] theorem mean_nil : mean ([] : List K) = 0 := zero_div _

@[simp] theorem variance_nil : variance ([] : List K) = 0 := zero_div _

theorem sum_sq_sub (l : List K) (c : K) :
    (l.map fun x => (x - c) ^ 2).sum = (l.map (· ^ 2)).sum - 2 * c * l.sum + l.length * c ^ 2 := by
  induction l with
  | nil => simp
  | cons x l ih =>
    rw [List.map_cons, List.sum_cons, ih, List.map_cons, List.sum_cons, List.sum_cons,
      List.length_cons, Nat.cast_succ]
    ring

section Ordered

variable [LinearOrder K] [IsStrictOrderedRing K]

theorem length_pos_of_ne_nil {α : Type*} {l : List α} (h : l ≠ []) : (0 : K) < l.length :=
  Nat.cast_pos.mpr (List.length_pos_iff.mpr h)

theorem length_mul_mean (l : List K) : l.length * mean l = l.sum := by
  rcases eq_or_ne l [] with rfl | hl
  · simp
  · exact mul_div_cancel₀ _ (length_pos_of_ne_nil hl).ne'

/-- The mean lies where the numbers lie. -/
theorem mean_mem_Icc {l : List K} {a b : K} (hne : l ≠ []) (h : ∀ x ∈ l, a ≤ x ∧ x ≤ b) :
    a ≤ mean l ∧ mean l ≤ b := by
  have hpos : (0 : K) < l.length := length_pos_of_ne_nil hne
  have hlow := List.card_nsmul_le_sum l a fun x hx => (h x hx).1
  have hhigh := List.sum_le_card_nsmul l b fun x hx => (h x hx).2
  rw [nsmul_eq_mul] at hlow hhigh
  rw [mean, le_div_iff₀ hpos, div_le_iff₀ hpos, mul_comm a, mul_comm b]
  exact ⟨hlow, hhigh⟩

/-- Figures that are close have means that are close. -/
theorem abs_mean_sub_le {α : Type*} {l : List α} {f g : α → K} {e : K} (hne : l ≠ [])
    (h : ∀ x ∈ l, |f x - g x| ≤ e) : |mean (l.map f) - mean (l.map g)| ≤ e := by
  have hsum : (l.map f).sum = (l.map fun x => f x - g x).sum + (l.map g).sum := by
    rw [← List.sum_map_add]
    simp only [sub_add_cancel]
  have hdiff : mean (l.map f) - mean (l.map g) = mean (l.map fun x => f x - g x) := by
    simp only [mean, List.length_map, ← sub_div, hsum, add_sub_cancel_right]
  rw [hdiff, abs_le]
  apply mean_mem_Icc (by simpa using hne)
  intro y hy
  obtain ⟨x, hx, rfl⟩ := List.mem_map.mp hy
  exact abs_le.mp (h x hx)

/-- The variance as it is computed: the mean square less the square of the mean. -/
theorem variance_eq (l : List K) :
    variance l = (l.map (· ^ 2)).sum / l.length - mean l * mean l := by
  rcases eq_or_ne l [] with rfl | hl
  · simp [variance, mean]
  · have hn := (length_pos_of_ne_nil (K := K) hl).ne'
    rw [variance, mean, List.length_map, sum_sq_sub, ← length_mul_mean l]
    field_simp
    ring

theorem variance_nonneg (l : List K) : 0 ≤ variance l := by
  refine div_nonneg (List.sum_nonneg ?_) (Nat.cast_nonneg _)
  intro y hy
  obtain ⟨x, -, rfl⟩ := List.mem_map.mp hy
  exact sq_nonneg _

/-- The denominator of the slope is the variance on another scale. -/
theorem length_mul_sum_sq (l : List K) :
    l.length * (l.map (· ^ 2)).sum - l.sum * l.sum = l.length ^ 2 * variance l := by
  rcases eq_or_ne l [] with rfl | hl
  · simp
  · have hn := (length_pos_of_ne_nil (K := K) hl).ne'
    rw [variance_eq, ← length_mul_mean l]
    field_simp

end Ordered

/-! ## The line of least squares -/

/-- The sum of the squared residuals that a line leaves. -/
def squares (l : List (K × K)) (a b : K) : K := (l.map fun p => (p.2 - a * p.1 - b) ^ 2).sum

def residuals (l : List (K × K)) (a b : K) : K := (l.map fun p => p.2 - a * p.1 - b).sum

theorem residuals_eq (l : List (K × K)) (a b : K) :
    residuals l a b = (l.map Prod.snd).sum - a * (l.map Prod.fst).sum - l.length * b := by
  unfold residuals
  induction l with
  | nil => simp
  | cons p l ih =>
    simp only [List.map_cons, List.sum_cons, List.length_cons, Nat.cast_succ, ih]
    ring

/-- The residuals weighted by where they stand. -/
def moment (l : List (K × K)) (a b : K) : K := (l.map fun p => (p.2 - a * p.1 - b) * p.1).sum

theorem moment_eq (l : List (K × K)) (a b : K) :
    moment l a b =
      (l.map fun p => p.1 * p.2).sum - a * ((l.map Prod.fst).map (· ^ 2)).sum
        - b * (l.map Prod.fst).sum := by
  unfold moment
  induction l with
  | nil => simp
  | cons p l ih =>
    simp only [List.map_cons, List.sum_cons, ih]
    ring

/-- What another line leaves, from what the residuals of the first add up to. -/
theorem squares_eq (l : List (K × K)) (a b a' b' : K) :
    squares l a' b' =
      squares l a b + (l.map fun p => ((a' - a) * p.1 + (b' - b)) ^ 2).sum
        - 2 * (a' - a) * moment l a b - 2 * (b' - b) * residuals l a b := by
  unfold squares moment residuals
  induction l with
  | nil => simp
  | cons p l ih =>
    simp only [List.map_cons, List.sum_cons, ih]
    ring

variable [LinearOrder K] [IsStrictOrderedRing K]

/-- A line whose residuals vanish, plain and weighted, leaves the least. -/
theorem squares_le {l : List (K × K)} {a b : K} (hplain : residuals l a b = 0)
    (hweighted : moment l a b = 0) (a' b' : K) : squares l a b ≤ squares l a' b' := by
  have hnonneg : 0 ≤ (l.map fun p => ((a' - a) * p.1 + (b' - b)) ^ 2).sum := by
    refine List.sum_nonneg fun y hy => ?_
    obtain ⟨p, -, rfl⟩ := List.mem_map.mp hy
    exact sq_nonneg _
  rw [squares_eq l a b a' b', hplain, hweighted]
  linarith

/-- The intercept that goes with a slope makes the residuals vanish. -/
theorem residuals_intercept {l : List (K × K)} (hl : l ≠ []) (a : K) :
    residuals l a (((l.map Prod.snd).sum - a * (l.map Prod.fst).sum) / l.length) = 0 := by
  have hn := (length_pos_of_ne_nil (K := K) hl).ne'
  rw [residuals_eq]
  field_simp
  ring

/-- The slope of least squares, with its intercept, makes the weighted residuals vanish. -/
theorem moment_slope {l : List (K × K)} (hl : l ≠ []) {a : K}
    (hdenom : l.length * ((l.map Prod.fst).map (· ^ 2)).sum
      - (l.map Prod.fst).sum * (l.map Prod.fst).sum ≠ 0)
    (ha : a = (l.length * (l.map fun p => p.1 * p.2).sum
        - (l.map Prod.fst).sum * (l.map Prod.snd).sum) /
      (l.length * ((l.map Prod.fst).map (· ^ 2)).sum
        - (l.map Prod.fst).sum * (l.map Prod.fst).sum)) :
    moment l a (((l.map Prod.snd).sum - a * (l.map Prod.fst).sum) / l.length) = 0 := by
  have hn := (length_pos_of_ne_nil (K := K) hl).ne'
  rw [eq_div_iff hdenom] at ha
  rw [moment_eq]
  field_simp
  linear_combination -ha

end LeastSquares
