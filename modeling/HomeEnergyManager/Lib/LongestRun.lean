import Mathlib.Data.List.Range
import Mathlib.Data.Nat.Count
import Mathlib.Tactic.Common

/-! # The longest gap

One pass over the places `0, …, n - 1`, some of which are held, counts the held ones and finds the
length of the longest run of free ones.
-/

namespace LongestRun

variable {held : ℕ → Prop}

/-- The `g` places from `s` on are free. -/
def IsGap (held : ℕ → Prop) (s g : ℕ) : Prop := ∀ i, s ≤ i → i < s + g → ¬ held i

instance [DecidablePred held] (s g : ℕ) : Decidable (IsGap held s g) :=
  inferInstanceAs (Decidable (∀ i, s ≤ i → i < s + g → ¬ held i))

theorem isGap_zero (s : ℕ) : IsGap held s 0 := by
  intro i hs hi
  omega

theorem IsGap.succ {s g : ℕ} (h : IsGap held s g) (hfree : ¬ held (s + g)) :
    IsGap held s (g + 1) := by
  intro i hs hi
  rcases Nat.lt_succ_iff_lt_or_eq.mp (show i < (s + g).succ from hi) with hlt | rfl
  · exact h i hs hlt
  · exact hfree

/-- A gap has gaps of every smaller length. -/
theorem IsGap.mono {s g g' : ℕ} (h : IsGap held s g) (hle : g' ≤ g) : IsGap held s g' := by
  intro i hs hi
  exact h i hs (by omega)

/-- The counters of the pass; `gap` is the length of the run that ends at the last place seen. -/
structure Scan where
  count : ℕ := 0
  gap : ℕ := 0
  longest : ℕ := 0
deriving DecidableEq, Repr

section Scan

variable (held : ℕ → Prop) [DecidablePred held]

/-- One place. -/
def pass (s : Scan) (i : ℕ) : Scan :=
  if held i then { s with count := s.count + 1, gap := 0 }
  else
    { s with
      gap := s.gap + 1
      longest := if s.longest < s.gap + 1 then s.gap + 1 else s.longest }

def scan (n : ℕ) : Scan := (List.range n).foldl (pass held) {}

theorem scan_succ (n : ℕ) : scan held (n + 1) = pass held (scan held n) n := by
  rw [scan, List.range_succ, List.foldl_append]
  rfl

end Scan

variable [DecidablePred held]

theorem scan_count (n : ℕ) : (scan held n).count = Nat.count held n := by
  induction n with
  | zero => rfl
  | succ n ih =>
    rw [scan_succ, Nat.count_succ, ← ih, pass]
    split <;> rfl

theorem gap_le (n : ℕ) : (scan held n).gap ≤ n := by
  induction n with
  | zero => exact le_rfl
  | succ n ih =>
    rw [scan_succ, pass]
    split
    · exact Nat.zero_le _
    · exact Nat.succ_le_succ ih

/-- The gap that ends at the place last seen is as long as it can be. -/
theorem isGap_iff_le_gap {n s g : ℕ} (hend : s + g = n) :
    IsGap held s g ↔ g ≤ (scan held n).gap := by
  induction n generalizing s g with
  | zero =>
    obtain rfl : g = 0 := by omega
    simp [isGap_zero]
  | succ n ih =>
    rw [scan_succ, pass]
    cases g with
    | zero => simp [isGap_zero]
    | succ g =>
      have hn : s + g = n := by omega
      split
      · rename_i h
        refine iff_of_false ?_ (Nat.not_succ_le_zero g)
        intro hgap
        exact hgap n (by omega) (by omega) h
      · rename_i h
        rw [Nat.add_le_add_iff_right, ← ih hn]
        constructor
        · intro hgap
          exact hgap.mono (Nat.le_succ g)
        · intro hgap
          exact hgap.succ (by rwa [hn])

/-- The pass finds a gap of every length up to the longest, and no longer one. -/
theorem le_longest_iff {n g : ℕ} :
    g ≤ (scan held n).longest ↔ ∃ s, s + g ≤ n ∧ IsGap held s g := by
  induction n generalizing g with
  | zero =>
    constructor
    · intro h
      obtain rfl : g = 0 := Nat.le_zero.mp h
      exact ⟨0, le_rfl, isGap_zero 0⟩
    · rintro ⟨s, hs, -⟩
      obtain rfl : g = 0 := by omega
      exact le_rfl
  | succ n ih =>
    -- a gap ends before the new place or at it
    have hsplit : (∃ s, s + g ≤ n + 1 ∧ IsGap held s g) ↔
        g ≤ (scan held n).longest ∨ g ≤ n + 1 ∧ g ≤ (scan held (n + 1)).gap := by
      rw [ih]
      constructor
      · rintro ⟨s, hs, hgap⟩
        rcases Nat.lt_or_eq_of_le hs with hlt | heq
        · exact .inl ⟨s, by omega, hgap⟩
        · exact .inr ⟨by omega, (isGap_iff_le_gap heq).mp hgap⟩
      · rintro (⟨s, hs, hgap⟩ | ⟨hle, hgap⟩)
        · exact ⟨s, by omega, hgap⟩
        · have hend : n + 1 - g + g = n + 1 := Nat.sub_add_cancel hle
          exact ⟨n + 1 - g, hend.le, (isGap_iff_le_gap hend).mpr hgap⟩
    have hfits : (scan held n).gap ≤ n := gap_le n
    rw [hsplit, scan_succ, pass]
    split
    · dsimp only
      omega
    · dsimp only
      split <;> omega

end LongestRun
