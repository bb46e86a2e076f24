import Mathlib.Data.List.Basic

/-! # Elements that take their turn one by one

A list of elements of which each waits until the ones before it are done. At place `k` the elements
before it are done and those after it wait; the element at `k`, if there is one, has its turn.
-/

namespace OneByOne

variable {α : Type*} {done waiting : α → Prop}

/-- It is the turn of place `k`. -/
structure At (done waiting : α → Prop) (l : List α) (k : ℕ) : Prop where
  before : ∀ i < k, ∀ a, l[i]? = some a → done a
  after : ∀ i, k < i → ∀ a, l[i]? = some a → waiting a

namespace At

variable {l : List α} {k : ℕ} {f : α → α} {a : α}

theorem nil : At done waiting [] 0 := ⟨nofun, nofun⟩

/-- Whatever becomes of the element that has its turn. -/
theorem modify (h : At done waiting l k) : At done waiting (l.modify k f) k := by
  constructor
  · intro i hi a ha
    rw [List.getElem?_modify_ne _ _ (Nat.ne_of_gt hi)] at ha
    exact h.before i hi a ha
  · intro i hi a ha
    rw [List.getElem?_modify_ne _ _ (Nat.ne_of_lt hi)] at ha
    exact h.after i hi a ha

/-- One more element gets in line behind it. -/
theorem append (h : At done waiting l k) (ha : k < l.length → waiting a) (hk : k ≤ l.length) :
    At done waiting (l ++ [a]) k := by
  constructor
  · intro i hi b hb
    rw [List.getElem?_append_left (by omega)] at hb
    exact h.before i hi b hb
  · intro i hi b hb
    rcases Nat.lt_or_ge i l.length with hlt | hge
    · rw [List.getElem?_append_left hlt] at hb
      exact h.after i hi b hb
    · rw [List.getElem?_append_right hge] at hb
      obtain ⟨hzero, rfl⟩ : i - l.length = 0 ∧ a = b := by
        cases hindex : i - l.length with
        | zero => simpa [hindex] using hb
        | succ n => simp [hindex] at hb
      exact ha (by omega)

/-- The element that has its turn is done, and the turn passes on. -/
theorem succ (h : At done waiting l k) (hdone : ∀ a, l[k]? = some a → done a) :
    At done waiting l (k + 1) := by
  constructor
  · intro i hi a ha
    rcases Nat.lt_succ_iff_lt_or_eq.mp hi with hlt | rfl
    · exact h.before i hlt a ha
    · exact hdone a ha
  · intro i hi a ha
    exact h.after i (by omega) a ha

/-- What is neither done nor waiting has its turn. -/
theorem eq_of_active (h : At done waiting l k) {i : ℕ} (hi : l[i]? = some a) (hdone : ¬ done a)
    (hwaiting : ¬ waiting a) : i = k := by
  rcases Nat.lt_trichotomy i k with hlt | heq | hgt
  · exact absurd (h.before i hlt a hi) hdone
  · exact heq
  · exact absurd (h.after i hgt a hi) hwaiting

end At

end OneByOne
