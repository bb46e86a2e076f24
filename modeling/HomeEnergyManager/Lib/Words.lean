import Mathlib.Computability.Language
import Mathlib.Data.List.TakeWhile

/-! # Words that are read in blocks

A block is a longest run of letters of one kind. A product of languages says only that a word is a
run followed by a word of the second language; where the words of that language do not begin with a
letter of the kind, the run can only be the block, so that a reader that takes as many letters as it
can decides the product.
-/

namespace Words

variable {α : Type*}

/-- The words of a letter and a word. -/
def letter (a : α) : Language α := {[a]}

/-- The runs of letters of a kind, of one letter or more. -/
def run (p : α → Bool) : Language α := {w | w ≠ [] ∧ ∀ a ∈ w, p a = true}

/-- No word of the language begins with a letter of the kind. -/
def Stops (p : α → Bool) (L : Language α) : Prop := ∀ a w, a :: w ∈ L → p a = false

variable {p : α → Bool} {L : Language α} {a b : α} {u v w : List α}

theorem mem_letter_mul : w ∈ letter a * L ↔ ∃ v ∈ L, a :: v = w := by
  rw [Language.mem_mul]
  constructor
  · rintro ⟨u, rfl, v, hv, rfl⟩
    exact ⟨v, hv, rfl⟩
  · rintro ⟨v, hv, rfl⟩
    exact ⟨[a], rfl, v, hv, rfl⟩

@[simp] theorem nil_notMem_letter_mul : [] ∉ letter a * L := by
  simp [mem_letter_mul]

@[simp] theorem cons_mem_letter_mul : b :: w ∈ letter a * L ↔ a = b ∧ w ∈ L := by
  rw [mem_letter_mul]
  constructor
  · rintro ⟨v, hv, heq⟩
    obtain ⟨rfl, rfl⟩ := List.cons.inj heq
    exact ⟨rfl, hv⟩
  · rintro ⟨rfl, hw⟩
    exact ⟨w, hw, rfl⟩

theorem stops_letter_mul (ha : p a = false) : Stops p (letter a * L) := by
  intro b w hw
  obtain ⟨rfl, -⟩ := cons_mem_letter_mul.mp hw
  exact ha

/-- What is left after the block is what follows the run. -/
theorem dropWhile_append (hu : ∀ a ∈ u, p a = true) (hL : Stops p L) (hv : v ∈ L) :
    (u ++ v).dropWhile p = v := by
  rw [List.dropWhile_append_of_pos hu]
  cases v with
  | nil => rfl
  | cons a v => exact List.dropWhile_cons_of_neg (by simp [hL a v hv])

/-- A word is a run and a word of a language at which the block stops if and only if it begins with
a block and goes on in the language. -/
theorem mem_run_mul (hL : Stops p L) :
    w ∈ run p * L ↔ w.takeWhile p ≠ [] ∧ w.dropWhile p ∈ L := by
  rw [Language.mem_mul]
  constructor
  · rintro ⟨u, ⟨hne, hu⟩, v, hv, rfl⟩
    refine ⟨?_, ?_⟩
    · rw [List.takeWhile_append_of_pos hu]
      exact fun hnil => hne (List.append_eq_nil_iff.mp hnil).1
    · rwa [dropWhile_append hu hL hv]
  · rintro ⟨hne, hmem⟩
    exact ⟨_, ⟨hne, fun a => List.mem_takeWhile_imp⟩, _, hmem, List.takeWhile_append_dropWhile⟩

end Words
