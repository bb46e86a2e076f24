import Mathlib.Algebra.Field.Basic
import Mathlib.Algebra.Ring.Int.Defs
import Mathlib.Data.List.Basic

/-! # Computations that check their operations

A division that fails where its divisor is zero, a result of so many bits that fails where it does
not fit, and the rules by which a loop of checked passes is the loop of the plain ones.
-/

namespace Checked

/-- Division that fails on a zero divisor. -/
def div {K : Type*} [Field K] [DecidableEq K] (a b : K) : Option K :=
  if b = 0 then none else some (a / b)

@[simp] theorem div_of_ne {K : Type*} [Field K] [DecidableEq K] {b : K} (hb : b ≠ 0) (a : K) :
    div a b = some (a / b) := if_neg hb

/-- A signed result of so many bits, which fails where it does not fit. -/
def int (bits : ℕ) (x : ℤ) : Option ℤ :=
  if -2 ^ (bits - 1) ≤ x ∧ x < 2 ^ (bits - 1) then some x else none

theorem int_of_fits {bits : ℕ} {x : ℤ} (h : -2 ^ (bits - 1) ≤ x ∧ x < 2 ^ (bits - 1)) :
    int bits x = some x := if_pos h

/-- Passes that succeed along an invariant make a loop that succeeds. -/
theorem foldlM_eq_some {σ ι : Type*} (checked : σ → ι → Option σ) (step : σ → ι → σ)
    (inv : σ → Prop) (hinv : ∀ s m, inv s → inv (step s m))
    (hstep : ∀ s m, inv s → checked s m = some (step s m)) {s : σ} (hs : inv s) (ms : List ι) :
    ms.foldlM checked s = some (ms.foldl step s) := by
  induction ms generalizing s with
  | nil => rfl
  | cons m ms ih =>
    rw [List.foldlM_cons, hstep s m hs, List.foldl_cons]
    exact ih (hinv s m hs)

/-- Computations that succeed on each element succeed on the list. -/
theorem mapM_eq_some {α β : Type*} {f : α → Option β} {g : α → β} {l : List α}
    (h : ∀ a ∈ l, f a = some (g a)) : l.mapM f = some (l.map g) := by
  induction l with
  | nil => rfl
  | cons a l ih =>
    rw [List.forall_mem_cons] at h
    rw [List.mapM_cons, h.1, ih h.2]
    rfl

end Checked
