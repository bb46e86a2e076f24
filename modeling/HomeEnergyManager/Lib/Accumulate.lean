import Mathlib.Algebra.Group.Pi.Basic
import Mathlib.Algebra.BigOperators.Group.List.Basic
import Mathlib.Algebra.Order.BigOperators.Group.List

/-! # What a loop adds up

A loop runs over a list with a state and adds something to its accumulators in each pass. What an
accumulator holds in the end is what it held before and the total of what was added, each gain read
off the state before its pass. The rules give the accumulators of a loop, one by one or a whole row
of them, and the totals that do not depend on the state. A place that not every pass changes is read
off the passes that do.
-/

namespace Accumulate

variable {σ ι α M : Type*}

/-- What the passes over a list add up to. -/
def total [AddMonoid M] (step : σ → ι → σ) (gain : σ → ι → M) : σ → List ι → M
  | _, [] => 0
  | s, m :: ms => gain s m + total step gain (step s m) ms

section AddMonoid

variable [AddMonoid M] {step : σ → ι → σ} {gain : σ → ι → M}

@[simp] theorem total_nil (s : σ) : total step gain s [] = 0 := rfl

@[simp] theorem total_cons (s : σ) (m : ι) (ms : List ι) :
    total step gain s (m :: ms) = gain s m + total step gain (step s m) ms := rfl

/-- One accumulator after the loop. -/
theorem foldl_eq_add_total (step : σ → ι → σ) (gain : σ → ι → M) (acc : σ → M)
    (hstep : ∀ s m, acc (step s m) = acc s + gain s m) (s : σ) (ms : List ι) :
    acc (ms.foldl step s) = acc s + total step gain s ms := by
  induction ms generalizing s with
  | nil => rw [List.foldl_nil, total_nil, add_zero]
  | cons m ms ih => rw [List.foldl_cons, ih, hstep, total_cons, add_assoc]

/-- Gains that do not depend on the state are just summed. -/
theorem total_const (g : ι → M) (s : σ) (ms : List ι) :
    total step (fun _ => g) s ms = (ms.map g).sum := by
  induction ms generalizing s with
  | nil => rfl
  | cons m ms ih => rw [total_cons, ih, List.map_cons, List.sum_cons]

end AddMonoid

/-- A row of accumulators after the loop, if every pass adds to each of them. -/
theorem foldl_row_eq [AddMonoid M] (step : σ → ι → σ) (gain : σ → ι → α → M) (items : List α)
    (row : σ → List M)
    (hstep : ∀ s m f, row s = items.map f → row (step s m) = items.map (f + gain s m))
    {s : σ} {f : α → M} (hs : row s = items.map f) (ms : List ι) :
    row (ms.foldl step s) = items.map (f + total step gain s ms) := by
  induction ms generalizing s f with
  | nil => rw [List.foldl_nil, hs, total_nil, add_zero]
  | cons m ms ih => rw [List.foldl_cons, ih (hstep s m f hs), total_cons, add_assoc]

/-- The total for one item of a row. -/
theorem total_apply [AddMonoid M] (step : σ → ι → σ) (gain : σ → ι → α → M) (s : σ) (ms : List ι)
    (x : α) : total step gain s ms x = total step (fun s m => gain s m x) s ms := by
  induction ms generalizing s with
  | nil => rfl
  | cons m ms ih => rw [total_cons, total_cons, Pi.add_apply, ih]

section AddCommMonoid

variable [AddCommMonoid M] {step : σ → ι → σ}

theorem total_add (gain gain' : σ → ι → M) (s : σ) (ms : List ι) :
    total step gain s ms + total step gain' s ms
      = total step (fun s m => gain s m + gain' s m) s ms := by
  induction ms generalizing s with
  | nil => rw [total_nil, total_nil, total_nil, add_zero]
  | cons m ms ih => rw [total_cons, total_cons, total_cons, ← ih, add_add_add_comm]

/-- Along an invariant of the loop nothing negative is added up. -/
theorem total_nonneg [PartialOrder M] [IsOrderedAddMonoid M] {gain : σ → ι → M} (inv : σ → Prop)
    (hinv : ∀ s m, inv s → inv (step s m)) (hgain : ∀ s m, inv s → 0 ≤ gain s m) {s : σ}
    (hs : inv s) (ms : List ι) : 0 ≤ total step gain s ms := by
  induction ms generalizing s with
  | nil => exact le_rfl
  | cons m ms ih =>
    rw [total_cons]
    exact add_nonneg (hgain s m hs) (ih (hinv s m hs))

end AddCommMonoid

/-! ## A place that some passes change -/

section Place

variable {ρ κ : Type*} (step : σ → ι → σ) (place : σ → ρ)

/-- A place that a pass changes by what it finds, if it finds anything. -/
theorem place_foldl_filterMap (find : ι → Option κ) (change : ρ → κ → ρ)
    (hstep : ∀ s i, place (step s i) = (find i).elim (place s) (change (place s)))
    (s : σ) (l : List ι) : place (l.foldl step s) = (l.filterMap find).foldl change (place s) := by
  induction l generalizing s with
  | nil => rfl
  | cons i l ih =>
    rw [List.foldl_cons, ih, hstep, List.filterMap_cons]
    cases find i <;> rfl

/-- A place that only one pass changes. -/
theorem place_foldl_once [DecidableEq ι] (change : ρ → ρ) {i : ι}
    (hstep : ∀ s k, place (step s k) = if k = i then change (place s) else place s)
    (s : σ) {l : List ι} (hnodup : l.Nodup) :
    place (l.foldl step s) = if i ∈ l then change (place s) else place s := by
  induction l generalizing s with
  | nil => rfl
  | cons k l ih =>
    rw [List.nodup_cons] at hnodup
    rw [List.foldl_cons, ih _ hnodup.2, hstep]
    rcases eq_or_ne k i with rfl | hne
    · simp [hnodup.1]
    · simp [hne, hne.symm]

end Place

end Accumulate
