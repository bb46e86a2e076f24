import Mathlib.Data.List.ReduceOption
import Mathlib.Data.List.Sort

/-! # Filling slots

Elements go into the first empty slot each, and past the last slot when none is empty. What stood in
a slot before stays there, and the new elements are read back in the order in which they came.

A stable sort by a coarse order leaves the elements in a finer order if and only if those that the
coarse order does not tell apart were in the finer order before.
-/

namespace Slots

variable {α : Type*}

/-- The first empty slot takes the element. -/
def putFirst : List (Option α) → α → List (Option α)
  | [], a => [some a]
  | none :: slots, a => some a :: slots
  | some b :: slots, a => some b :: putFirst slots a

/-- The empty slots from the left take the elements, and those that are left over follow. -/
def fill : List (Option α) → List α → List (Option α)
  | [], l => l.map some
  | none :: slots, [] => none :: slots
  | none :: slots, a :: l => some a :: fill slots l
  | some b :: slots, l => some b :: fill slots l

@[simp] theorem reduceOption_map_some (l : List α) : (l.map some).reduceOption = l := by
  rw [List.reduceOption, List.filterMap_map, Function.id_comp, List.filterMap_some]

@[simp] theorem fill_nil (slots : List (Option α)) : fill slots [] = slots := by
  induction slots with
  | nil => rfl
  | cons s slots ih =>
    cases s with
    | none => rfl
    | some b => rw [fill, ih]

theorem fill_cons (slots : List (Option α)) (a : α) (l : List α) :
    fill slots (a :: l) = fill (putFirst slots a) l := by
  induction slots with
  | nil => rfl
  | cons s slots ih =>
    cases s with
    | none => rfl
    | some b => rw [fill, putFirst, fill, ih]

theorem putFirst_eq (slots : List (Option α)) (a : α) :
    putFirst slots a =
      match slots.findIdx? Option.isNone with
      | some i => slots.set i (some a)
      | none => slots ++ [some a] := by
  induction slots with
  | nil => rfl
  | cons s slots ih =>
    cases s with
    | none => rfl
    | some b =>
      rw [putFirst, ih, List.findIdx?_cons]
      cases slots.findIdx? Option.isNone <;> rfl

theorem foldl_putFirst (slots : List (Option α)) (l : List α) :
    l.foldl putFirst slots = fill slots l := by
  induction l generalizing slots with
  | nil => rw [fill_nil, List.foldl_nil]
  | cons a l ih => rw [List.foldl_cons, ih, fill_cons]

theorem length_le_length_fill (slots : List (Option α)) (l : List α) :
    slots.length ≤ (fill slots l).length := by
  induction slots generalizing l with
  | nil => exact Nat.zero_le _
  | cons s slots ih =>
    cases s with
    | some b => exact Nat.succ_le_succ (ih l)
    | none =>
      cases l with
      | nil => exact Nat.le_refl _
      | cons a l => exact Nat.succ_le_succ (ih l)

/-- Nothing is lost and nothing comes twice. -/
theorem reduceOption_fill_perm (slots : List (Option α)) (l : List α) :
    (fill slots l).reduceOption.Perm (slots.reduceOption ++ l) := by
  induction slots generalizing l with
  | nil => rw [fill, List.reduceOption_nil, List.nil_append, reduceOption_map_some]
  | cons s slots ih =>
    cases s with
    | some b =>
      rw [fill, List.reduceOption_cons_of_some, List.reduceOption_cons_of_some, List.cons_append]
      exact (ih l).cons b
    | none =>
      cases l with
      | nil => rw [fill, List.append_nil]
      | cons a l =>
        rw [fill, List.reduceOption_cons_of_some, List.reduceOption_cons_of_none]
        exact ((ih l).cons a).trans List.perm_middle.symm

/-- What has a slot keeps it. -/
theorem getElem?_fill_of_some {slots : List (Option α)} {i : ℕ} {b : α}
    (h : slots[i]? = some (some b)) (l : List α) : (fill slots l)[i]? = some (some b) := by
  induction slots generalizing l i with
  | nil => simp at h
  | cons s slots ih =>
    cases i with
    | zero =>
      rw [List.getElem?_cons_zero, Option.some_inj] at h
      rw [h, fill, List.getElem?_cons_zero]
    | succ i =>
      rw [List.getElem?_cons_succ] at h
      cases s with
      | some c => exact ih h l
      | none =>
        cases l with
        | nil => exact h
        | cons a l => exact ih h l

/-- The new elements are read back in their order. -/
theorem filter_reduceOption_fill {p : α → Bool} {slots : List (Option α)} {l : List α}
    (hslots : ∀ b ∈ slots.reduceOption, p b = false) (hl : ∀ a ∈ l, p a = true) :
    (fill slots l).reduceOption.filter p = l := by
  induction slots generalizing l with
  | nil => rw [fill, reduceOption_map_some, List.filter_eq_self.mpr hl]
  | cons s slots ih =>
    cases s with
    | some b =>
      rw [List.reduceOption_cons_of_some, List.forall_mem_cons] at hslots
      rw [fill, List.reduceOption_cons_of_some, List.filter_cons_of_neg (by simp [hslots.1])]
      exact ih hslots.2 hl
    | none =>
      rw [List.reduceOption_cons_of_none] at hslots
      cases l with
      | nil =>
        rw [fill, List.reduceOption_cons_of_none, List.filter_eq_nil_iff]
        intro b hb
        simp [hslots b hb]
      | cons a l =>
        rw [List.forall_mem_cons] at hl
        rw [fill, List.reduceOption_cons_of_some, List.filter_cons_of_pos hl.1, ih hslots hl.2]

/-- After an empty slot stands only what stood there before. -/
theorem getElem?_of_fill_empty {slots : List (Option α)} {l : List α} {i j : ℕ} {b : α}
    (hij : i < j) (hi : (fill slots l)[i]? = some none) (hj : (fill slots l)[j]? = some (some b)) :
    slots[j]? = some (some b) := by
  induction slots generalizing l i j with
  | nil => simp [fill] at hi
  | cons s slots ih =>
    obtain ⟨j, rfl⟩ : ∃ k, j = k + 1 := ⟨j - 1, by omega⟩
    rw [List.getElem?_cons_succ]
    cases s with
    | none =>
      cases l with
      | nil => simpa [fill] using hj
      | cons a l =>
        rw [fill, List.getElem?_cons_succ] at hj
        cases i with
        | zero => simp [fill] at hi
        | succ i => exact ih (Nat.lt_of_succ_lt_succ hij) (by simpa [fill] using hi) hj
    | some c =>
      rw [fill, List.getElem?_cons_succ] at hj
      cases i with
      | zero => simp [fill] at hi
      | succ i => exact ih (Nat.lt_of_succ_lt_succ hij) (by simpa [fill] using hi) hj

theorem nodup_reduceOption {slots : List (Option α)}
    (h : ∀ (i j : ℕ) (b : α), slots[i]? = some (some b) → slots[j]? = some (some b) → i = j) :
    slots.reduceOption.Nodup := by
  rw [List.reduceOption, List.Nodup, List.pairwise_filterMap, List.pairwise_iff_getElem]
  rintro i j hi hj hij a ha b hb rfl
  have := h i j a (by rw [List.getElem?_eq_getElem hi]; exact congrArg some ha)
    (by rw [List.getElem?_eq_getElem hj]; exact congrArg some hb)
  omega

/-- An empty slot was one before. -/
theorem getElem?_of_fill_none {slots : List (Option α)} {l : List α} {i : ℕ}
    (hi : (fill slots l)[i]? = some none) : slots[i]? = some none := by
  induction slots generalizing l i with
  | nil => simp [fill] at hi
  | cons s slots ih =>
    cases s with
    | none =>
      cases l with
      | nil => simpa [fill] using hi
      | cons a l =>
        cases i with
        | zero => simp [fill] at hi
        | succ i => exact ih (by simpa [fill] using hi)
    | some c =>
      cases i with
      | zero => simp [fill] at hi
      | succ i => exact ih (by simpa [fill] using hi)

/-! ## Sorting by a coarser order -/

variable {coarse fine : α → α → Prop} [DecidableRel coarse]

/-- What an element goes past comes before it in the finer order too. -/
theorem pairwise_orderedInsert (hfine : ∀ a b, ¬ coarse a b → fine b a)
    (htrans : ∀ a b c, coarse a b → coarse b c → coarse a c) {a : α} {l : List α}
    (hsorted : l.Pairwise coarse) (hl : l.Pairwise fine) (ha : ∀ b ∈ l, coarse a b → fine a b) :
    (l.orderedInsert coarse a).Pairwise fine := by
  induction l with
  | nil => exact List.pairwise_singleton _ _
  | cons b l ih =>
    rw [List.pairwise_cons] at hsorted hl
    by_cases hab : coarse a b
    · rw [List.orderedInsert_cons_of_le _ _ hab, List.pairwise_cons, List.pairwise_cons]
      refine ⟨fun c hc => ha c hc ?_, hl⟩
      rcases List.mem_cons.mp hc with rfl | hc
      · exact hab
      · exact htrans _ _ _ hab (hsorted.1 c hc)
    · rw [List.orderedInsert_of_not_le _ _ hab, List.pairwise_cons]
      refine ⟨fun c hc => ?_, ih hsorted.2 hl.2 fun c hc => ha c (List.mem_cons_of_mem _ hc)⟩
      rcases (List.mem_orderedInsert _).mp hc with rfl | hc
      · exact hfine _ _ hab
      · exact hl.1 c hc

theorem pairwise_insertionSort_iff [Std.Total coarse] [IsTrans α coarse]
    (hfine : ∀ a b, ¬ coarse a b → fine b a) (l : List α) :
    (l.insertionSort coarse).Pairwise fine ↔ l.Pairwise fun a b => coarse a b → fine a b := by
  constructor
  · intro h
    rw [List.pairwise_iff_forall_sublist] at h ⊢
    intro a b hab hc
    exact h (List.pair_sublist_insertionSort hc hab)
  · intro h
    induction l with
    | nil => exact List.Pairwise.nil
    | cons a l ih =>
      rw [List.pairwise_cons] at h
      rw [List.insertionSort_cons]
      refine pairwise_orderedInsert hfine (fun _ _ _ => Trans.trans)
        (List.pairwise_insertionSort coarse l) (ih h.2) fun b hb => h.1 b ?_
      exact (List.mem_insertionSort coarse).mp hb

end Slots
