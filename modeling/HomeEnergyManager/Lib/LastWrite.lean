import Mathlib.Data.List.Perm.Basic

/-! # The last write wins

A list of writers is applied in order to one cell. Each writer covers the cell or leaves it alone.
-/

namespace LastWrite

variable {α β : Type*} (covers : α → Prop) [DecidablePred covers] (val : α → β)

/-- The content of the cell after the writers of `l`, from `b`. -/
def cell (l : List α) (b : β) : β := l.foldl (fun b a => if covers a then val a else b) b

@[simp] theorem cell_nil (b : β) : cell covers val [] b = b := rfl

@[simp] theorem cell_cons (a : α) (l : List α) (b : β) :
    cell covers val (a :: l) b = cell covers val l (if covers a then val a else b) := rfl

theorem cell_append (l l' : List α) (b : β) :
    cell covers val (l ++ l') b = cell covers val l' (cell covers val l b) :=
  List.foldl_append

variable {covers val}

/-- The last writer, if it covers the cell, decides. -/
theorem cell_concat_of_covers (l : List α) {a : α} (ha : covers a) (b : β) :
    cell covers val (l ++ [a]) b = val a := by
  rw [cell_append, cell_cons, if_pos ha, cell_nil]

/-- A cell that no writer covers keeps its content. -/
theorem cell_of_forall_not {l : List α} (h : ∀ a ∈ l, ¬ covers a) (b : β) :
    cell covers val l b = b := by
  induction l with
  | nil => rfl
  | cons a l ih =>
    rw [List.forall_mem_cons] at h
    rw [cell_cons, if_neg h.1]
    exact ih h.2

/-- What holds of the content before and of every value that is written holds of the content. -/
theorem cell_ind {P : β → Prop} {l : List α} {b : β} (hb : P b)
    (hl : ∀ a ∈ l, covers a → P (val a)) : P (cell covers val l b) := by
  induction l generalizing b with
  | nil => exact hb
  | cons a l ih =>
    rw [List.forall_mem_cons] at hl
    rw [cell_cons]
    refine ih ?_ hl.2
    by_cases ha : covers a
    · rw [if_pos ha]
      exact hl.1 ha
    · rw [if_neg ha]
      exact hb

/-- A cell that a writer covers holds what one of them wrote. -/
theorem exists_of_covers (val : α → β) {l : List α} (hex : ∃ a ∈ l, covers a) (b : β) :
    ∃ a ∈ l, covers a ∧ cell covers val l b = val a := by
  induction l generalizing b with
  | nil =>
    obtain ⟨a, ha, -⟩ := hex
    exact absurd ha List.not_mem_nil
  | cons a l ih =>
    rw [cell_cons]
    by_cases hl : ∃ a ∈ l, covers a
    · obtain ⟨a', ha', hc, h⟩ := ih hl _
      exact ⟨a', List.mem_cons_of_mem a ha', hc, h⟩
    · -- the first writer is the only one
      push Not at hl
      obtain ⟨a', ha', hc⟩ := hex
      obtain rfl : a' = a := (List.mem_cons.mp ha').resolve_right fun hmem => hl a' hmem hc
      refine ⟨a', List.mem_cons_self, hc, ?_⟩
      rw [if_pos hc, cell_of_forall_not hl]

/-- Writers that agree may be applied in any order, over a cell that has their value already. -/
theorem cell_of_agree {l : List α} {x : β} (h : ∀ a ∈ l, covers a → val a = x) :
    cell covers val l x = x := by
  induction l with
  | nil => rfl
  | cons a l ih =>
    rw [List.forall_mem_cons] at h
    rw [cell_cons]
    split
    · rename_i ha
      rw [h.1 ha]
      exact ih h.2
    · exact ih h.2

/-- One writer that covers the cell is enough. -/
theorem cell_of_agree_of_mem {l : List α} {x : β} (h : ∀ a ∈ l, covers a → val a = x)
    (hex : ∃ a ∈ l, covers a) (b : β) : cell covers val l b = x := by
  induction l generalizing b with
  | nil =>
    obtain ⟨a, ha, -⟩ := hex
    exact absurd ha List.not_mem_nil
  | cons a l ih =>
    rw [List.forall_mem_cons] at h
    rw [cell_cons]
    by_cases ha : covers a
    · rw [if_pos ha, h.1 ha]
      exact cell_of_agree h.2
    · rw [if_neg ha]
      refine ih h.2 ?_ b
      obtain ⟨a', ha', hc⟩ := hex
      rcases List.mem_cons.mp ha' with rfl | hmem
      · exact absurd hc ha
      · exact ⟨a', hmem, hc⟩

/-- Every order leaves `x` exactly when all writers that cover the cell write `x`. -/
theorem forall_perm_cell_eq_iff {l : List α} (hex : ∃ a ∈ l, covers a) (x b : β) :
    (∀ l', l'.Perm l → cell covers val l' b = x) ↔ ∀ a ∈ l, covers a → val a = x := by
  constructor
  · intro h a ha hc
    -- the order in which `a` comes last
    obtain ⟨l₁, l₂, rfl⟩ := List.append_of_mem ha
    have hperm : (l₁ ++ l₂ ++ [a]).Perm (l₁ ++ a :: l₂) := by
      rw [List.append_assoc]
      exact (List.perm_append_singleton a l₂).append_left l₁
    rw [← h _ hperm, cell_concat_of_covers _ hc]
  · intro h l' hperm
    obtain ⟨a, ha, hc⟩ := hex
    exact cell_of_agree_of_mem (fun a ha => h a (hperm.mem_iff.mp ha))
      ⟨a, hperm.mem_iff.mpr ha, hc⟩ b

end LastWrite
