import Mathlib.Data.List.Basic
import Mathlib.Order.Lattice

/-! # The best of a list

A loop that keeps nothing at first, and then replaces what it has only by something strictly better,
ends with a best element.
-/

namespace Best

variable {α β : Type*} [LinearOrder β] {key : α → β} {l : List α} {a b : α}

/-- One pass of the loop; smaller keys are better. -/
def keep (key : α → β) (best : Option α) (a : α) : Option α :=
  if best.all fun b => key a < key b then some a else best

/-- An element with the least key. -/
def IsBest (key : α → β) (l : List α) (a : α) : Prop := a ∈ l ∧ ∀ b ∈ l, key a ≤ key b

theorem keep_none (a : α) : keep key none a = some a := rfl

theorem keep_some_of_lt (h : key a < key b) : keep key (some b) a = some a :=
  if_pos (decide_eq_true h)

theorem keep_some_of_le (h : key b ≤ key a) : keep key (some b) a = some b :=
  if_neg fun hlt => absurd (of_decide_eq_true hlt) h.not_gt

variable (key) in
/-- From a kept element on, the loop ends with the best of it and the list. -/
theorem isBest_foldl_keep_some (l : List α) (b : α) :
    ∃ a, l.foldl (keep key) (some b) = some a ∧ IsBest key (b :: l) a := by
  induction l generalizing b with
  | nil =>
    refine ⟨b, rfl, List.mem_singleton_self b, fun c hc => ?_⟩
    exact (List.mem_singleton.mp hc) ▸ le_rfl
  | cons c l ih =>
    rw [List.foldl_cons]
    rcases lt_or_ge (key c) (key b) with hlt | hge
    · rw [keep_some_of_lt hlt]
      obtain ⟨a, hfold, hmem, hle⟩ := ih c
      refine ⟨a, hfold, List.mem_cons_of_mem b hmem, List.forall_mem_cons.mpr ⟨?_, hle⟩⟩
      exact (hle c List.mem_cons_self).trans hlt.le
    · rw [keep_some_of_le hge]
      obtain ⟨a, hfold, hmem, hle⟩ := ih b
      have hab : key a ≤ key b := hle b List.mem_cons_self
      refine ⟨a, hfold, ?_, ?_⟩
      · rcases List.mem_cons.mp hmem with rfl | hmem'
        · exact List.mem_cons_self
        · exact List.mem_cons_of_mem b (List.mem_cons_of_mem c hmem')
      · intro d hd
        rcases List.mem_cons.mp hd with rfl | hd'
        · exact hab
        · rcases List.mem_cons.mp hd' with rfl | hd''
          · exact hab.trans hge
          · exact hle d (List.mem_cons_of_mem b hd'')

variable (key) in
/-- The loop ends with a best element, if there is any element. -/
theorem foldl_keep_spec (l : List α) :
    match l.foldl (keep key) none with
    | none => l = []
    | some a => IsBest key l a := by
  cases l with
  | nil => rfl
  | cons b l =>
    obtain ⟨a, hfold, hbest⟩ := isBest_foldl_keep_some key l b
    rw [List.foldl_cons, keep_none, hfold]
    exact hbest

theorem foldl_keep_eq_none_iff : l.foldl (keep key) none = none ↔ l = [] := by
  have hspec := foldl_keep_spec key l
  constructor
  · intro h
    rwa [h] at hspec
  · rintro rfl
    rfl

theorem isBest_of_foldl_keep (h : l.foldl (keep key) none = some a) : IsBest key l a := by
  have hspec := foldl_keep_spec key l
  rwa [h] at hspec

end Best
