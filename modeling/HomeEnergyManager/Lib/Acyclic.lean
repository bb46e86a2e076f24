import Mathlib.Data.Finset.Card
import Mathlib.Logic.Relation

/-! # Relations without cycles

A relation that leads into finitely many elements only and has no cycle has a rank that falls with
each step, below their number. A recursion along such a relation that is cut off at a depth settles
once the depth exceeds the rank.
-/

namespace Acyclic

variable {α β : Type*} {r : α → α → Prop} {ids : List α}

/-- Nothing leads back to itself. -/
def NoCycle (r : α → α → Prop) : Prop := ∀ a, ¬ Relation.TransGen r a a

/-- A number that falls with each step rules cycles out. -/
theorem noCycle_of_rank (rank : α → ℕ) (h : ∀ a b, r a b → rank b < rank a) : NoCycle r := by
  have hlt {a b : α} (hab : Relation.TransGen r a b) : rank b < rank a := by
    induction hab with
    | single hab => exact h _ _ hab
    | tail _ hbc ih => exact (h _ _ hbc).trans ih
  exact fun a ha => lt_irrefl _ (hlt ha)

/-- A chain of steps as a sequence. -/
theorem exists_path {a b : α} (h : Relation.TransGen r a b) :
    ∃ (n : ℕ) (g : ℕ → α), 0 < n ∧ g 0 = a ∧ g n = b ∧ ∀ i < n, r (g i) (g (i + 1)) := by
  induction h with
  | @single b hab =>
    refine ⟨1, fun i => if i = 0 then a else b, Nat.one_pos, rfl, rfl, fun i hi => ?_⟩
    obtain rfl : i = 0 := by omega
    exact hab
  | @tail b c _ hbc ih =>
    obtain ⟨n, g, hn, hstart, hend, hsteps⟩ := ih
    refine ⟨n + 1, fun i => if i ≤ n then g i else c, Nat.succ_pos n, ?_, ?_, fun i hi => ?_⟩
    · exact (if_pos (Nat.zero_le n)).trans hstart
    · exact if_neg (by omega)
    · dsimp only
      rw [if_pos (show i ≤ n by omega)]
      by_cases hlast : i = n
      · rw [if_neg (by omega), hlast, hend]
        exact hbc
      · rw [if_pos (show i + 1 ≤ n by omega)]
        exact hsteps i (by omega)

/-- There is no cycle if and only if no sequence that repeats itself takes a step each time. -/
theorem noCycle_iff_periodic : NoCycle r ↔ ∀ (n : ℕ) (f : ℕ → α), 0 < n →
    (∀ i, f (i + n) = f i) → ∃ i, ¬ r (f i) (f (i + 1)) := by
  constructor
  · intro h n f hn hperiod
    by_contra hall
    push Not at hall
    have hpath : ∀ k, Relation.TransGen r (f 0) (f (k + 1)) := by
      intro k
      induction k with
      | zero => exact .single (hall 0)
      | succ k ih => exact .tail ih (hall (k + 1))
    have hback := hpath (n - 1)
    rw [Nat.sub_add_cancel hn, ← Nat.zero_add n, hperiod 0] at hback
    exact h _ hback
  · intro h a ha
    obtain ⟨n, g, hn, hstart, hend, hsteps⟩ := exists_path ha
    obtain ⟨i, hi⟩ := h n (fun i => g (i % n)) hn fun i => by rw [Nat.add_mod_right]
    apply hi
    have hlt := Nat.mod_lt i hn
    have hstep := hsteps (i % n) hlt
    have hdiv := Nat.div_add_mod i n
    by_cases hlast : i % n + 1 = n
    · have hzero : (i + 1) % n = 0 := by
        have hsum : i + 1 = n * (i / n + 1) := by
          rw [Nat.mul_add]
          omega
        rw [hsum, Nat.mul_mod_right]
      rw [hlast, hend, ← hstart] at hstep
      simpa [hzero] using hstep
    · have hnext : (i + 1) % n = i % n + 1 := by
        have hsum : i + 1 = n * (i / n) + (i % n + 1) := by omega
        rw [hsum, Nat.mul_add_mod, Nat.mod_eq_of_lt (by omega)]
      simpa [hnext] using hstep

variable [DecidableEq α]

open Classical in
/-- How many of the elements are led to. -/
noncomputable def rank (r : α → α → Prop) (ids : List α) (a : α) : ℕ :=
  (ids.toFinset.filter fun b => Relation.TransGen r a b).card

theorem rank_le (r : α → α → Prop) (ids : List α) (a : α) : rank r ids a ≤ ids.length := by
  classical
  exact (Finset.card_filter_le _ _).trans (List.toFinset_card_le ids)

theorem rank_lt (hacyclic : NoCycle r) (hids : ∀ a b, r a b → b ∈ ids) {a b : α} (h : r a b) :
    rank r ids b < rank r ids a := by
  classical
  apply Finset.card_lt_card
  rw [Finset.ssubset_iff_of_subset]
  · refine ⟨b, ?_, ?_⟩
    · rw [Finset.mem_filter, List.mem_toFinset]
      exact ⟨hids a b h, Relation.TransGen.single h⟩
    · rw [Finset.mem_filter]
      exact fun hb => hacyclic b hb.2
  · intro c hc
    rw [Finset.mem_filter] at hc ⊢
    exact ⟨hc.1, Relation.TransGen.head h hc.2⟩

/-- What holds of an element whenever it holds of all that the element leads to holds of all. -/
theorem ind (hacyclic : NoCycle r) (hids : ∀ a b, r a b → b ∈ ids) {P : α → Prop}
    (h : ∀ a, (∀ b, r a b → P b) → P a) (a : α) : P a := by
  induction hrank : rank r ids a using Nat.strong_induction_on generalizing a with
  | _ n ih =>
    apply h
    intro b hb
    have hlt := rank_lt hacyclic hids hb
    exact ih _ (hrank ▸ hlt) b rfl

/-- A recursion along the relation, cut off at a depth: where it computes with the values of what an
element leads to, all depths above the rank give the same. -/
theorem eq_of_rank_lt (hacyclic : NoCycle r) (hids : ∀ a b, r a b → b ∈ ids) {f : ℕ → α → β}
    (hcongr : ∀ n m a, (∀ b, r a b → f n b = f m b) → f (n + 1) a = f (m + 1) a) {n m : ℕ} {a : α}
    (hn : rank r ids a < n) (hm : rank r ids a < m) : f n a = f m a := by
  induction n generalizing m a with
  | zero => exact absurd hn (Nat.not_lt_zero _)
  | succ n ih =>
    cases m with
    | zero => exact absurd hm (Nat.not_lt_zero _)
    | succ m =>
      apply hcongr
      intro b hb
      have hlt := rank_lt hacyclic hids hb
      exact ih (by omega) (by omega)

end Acyclic
