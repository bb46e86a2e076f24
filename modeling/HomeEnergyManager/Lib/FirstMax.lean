import Mathlib.Order.Lattice
import Mathlib.Data.List.Basic

/-! # The first of the greatest

A loop that replaces its best element only by a strictly better one ends with the first of the
greatest.
-/

namespace FirstMax

variable {α β : Type*} [LinearOrder β] {key : α → β} {P : α → Prop} {l : List α}

/-- One pass of the loop. -/
def pick (key : α → β) (best : α × β) (a : α) : α × β :=
  if best.2 < key a then (a, key a) else best

/-- Of the elements of a list that satisfy `P`, the first one with the greatest key. -/
def IsFirstMax (key : α → β) (P : α → Prop) (l : List α) (a : α) : Prop :=
  ∃ l₁ l₂, l = l₁ ++ a :: l₂ ∧ P a ∧ (∀ b ∈ l₁, P b → key b < key a) ∧
    ∀ b ∈ l₂, P b → key b ≤ key a

theorem exists_isFirstMax (h : ∃ a ∈ l, P a) : ∃ a, IsFirstMax key P l a := by
  induction l with
  | nil =>
    obtain ⟨a, ha, -⟩ := h
    exact absurd ha List.not_mem_nil
  | cons a l ih =>
    by_cases hl : ∃ b ∈ l, P b
    · obtain ⟨b, l₁, l₂, rfl, hb, hbefore, hafter⟩ := ih hl
      by_cases ha : P a ∧ key b ≤ key a
      · refine ⟨a, [], l₁ ++ b :: l₂, rfl, ha.1, fun c hc => absurd hc List.not_mem_nil, ?_⟩
        intro c hc hPc
        refine le_trans ?_ ha.2
        rcases List.mem_append.mp hc with hc | hc
        · exact (hbefore c hc hPc).le
        · rcases List.mem_cons.mp hc with rfl | hc
          · exact le_refl _
          · exact hafter c hc hPc
      · refine ⟨b, a :: l₁, l₂, rfl, hb, ?_, hafter⟩
        intro c hc hPc
        rcases List.mem_cons.mp hc with rfl | hc
        · exact lt_of_not_ge fun hle => ha ⟨hPc, hle⟩
        · exact hbefore c hc hPc
    · obtain ⟨b, hb, hPb⟩ := h
      have hba : b = a := (List.mem_cons.mp hb).resolve_right fun hb => hl ⟨b, hb, hPb⟩
      subst hba
      refine ⟨b, [], l, rfl, hPb, fun c hc => absurd hc List.not_mem_nil, ?_⟩
      exact fun c hc hPc => absurd ⟨c, hc, hPc⟩ hl

/-! ## The loop -/

/-- What is not better changes nothing. -/
theorem foldl_pick_of_le {best : α × β} (h : ∀ b ∈ l, key b ≤ best.2) :
    l.foldl (pick key) best = best := by
  induction l with
  | nil => rfl
  | cons a l ih =>
    have ha : pick key best a = best := if_neg (not_lt_of_ge (h a List.mem_cons_self))
    rw [List.foldl_cons, ha]
    exact ih fun b hb => h b (List.mem_cons_of_mem _ hb)

theorem foldl_pick_lt {best : α × β} {m : β} (hbest : best.2 < m) (h : ∀ b ∈ l, key b < m) :
    (l.foldl (pick key) best).2 < m := by
  induction l generalizing best with
  | nil => exact hbest
  | cons a l ih =>
    refine ih ?_ fun b hb => h b (List.mem_cons_of_mem _ hb)
    unfold pick
    split
    · exact h a List.mem_cons_self
    · exact hbest

theorem foldl_pick {l₁ l₂ : List α} {a : α} {best : α × β} (hbest : best.2 < key a)
    (hbefore : ∀ b ∈ l₁, key b < key a) (hafter : ∀ b ∈ l₂, key b ≤ key a) :
    (l₁ ++ a :: l₂).foldl (pick key) best = (a, key a) := by
  rw [List.foldl_append, List.foldl_cons, pick, if_pos (foldl_pick_lt hbest hbefore)]
  exact foldl_pick_of_le hafter

/-! ## The first of a kind -/

section First

variable {γ : Type*} {l' : List α} {a b : α}

/-- The first element of a list that satisfies `P`. -/
def IsFirst (P : α → Prop) (l : List α) (a : α) : Prop :=
  ∃ l₁ l₂, l = l₁ ++ a :: l₂ ∧ P a ∧ ∀ b ∈ l₁, ¬ P b

theorem exists_isFirst (h : ∃ a ∈ l, P a) : ∃ a, IsFirst P l a := by
  induction l with
  | nil =>
    obtain ⟨a, ha, -⟩ := h
    exact absurd ha List.not_mem_nil
  | cons c l ih =>
    by_cases hc : P c
    · exact ⟨c, [], l, rfl, hc, fun b hb => absurd hb List.not_mem_nil⟩
    · obtain ⟨b, hb, hPb⟩ := h
      have hbl : b ∈ l := (List.mem_cons.mp hb).resolve_left fun heq => hc (heq ▸ hPb)
      obtain ⟨a, l₁, l₂, rfl, ha, hbefore⟩ := ih ⟨b, hbl, hPb⟩
      exact ⟨a, c :: l₁, l₂, rfl, ha, List.forall_mem_cons.mpr ⟨hc, hbefore⟩⟩

theorem IsFirst.mem (h : IsFirst P l a) : a ∈ l := by
  obtain ⟨l₁, l₂, rfl, -⟩ := h
  exact List.mem_append_right _ List.mem_cons_self

theorem IsFirst.append (h : IsFirst P l a) : IsFirst P (l ++ l') a := by
  obtain ⟨l₁, l₂, rfl, ha, hbefore⟩ := h
  exact ⟨l₁, l₂ ++ l', by rw [List.append_assoc, List.cons_append], ha, hbefore⟩

theorem IsFirst.unique (h : IsFirst P l a) (h' : IsFirst P l b) : a = b := by
  obtain ⟨l₁, l₂, rfl, ha, hbefore⟩ := h
  obtain ⟨m₁, m₂, hsplit, hb, hbefore'⟩ := h'
  rcases List.append_eq_append_iff.mp hsplit with ⟨k, rfl, hk⟩ | ⟨k, rfl, hk⟩
  · cases k with
    | nil => exact (List.cons.inj hk).1
    | cons c k =>
      have hac : a = c := (List.cons.inj hk).1
      exact absurd ha (hac ▸ hbefore' c (List.mem_append_right _ List.mem_cons_self))
  · cases k with
    | nil => exact (List.cons.inj hk).1.symm
    | cons c k =>
      have hbc : b = c := (List.cons.inj hk).1
      exact absurd hb (hbc ▸ hbefore c (List.mem_append_right _ List.mem_cons_self))

/-- The first of several lists is the first of one of them. -/
theorem IsFirst.of_flatMap {f : γ → List α} {m : List γ} (h : IsFirst P (m.flatMap f) a) :
    ∃ c ∈ m, IsFirst P (f c) a := by
  induction m with
  | nil => exact absurd h.mem List.not_mem_nil
  | cons c m ih =>
    rw [List.flatMap_cons] at h
    by_cases hc : ∃ b ∈ f c, P b
    · obtain ⟨b, hb⟩ := exists_isFirst hc
      exact ⟨c, List.mem_cons_self, (h.unique hb.append) ▸ hb⟩
    · have hrest : IsFirst P (m.flatMap f) a := by
        obtain ⟨l₁, l₂, hsplit, ha, hbefore⟩ := h
        rcases List.append_eq_append_iff.mp hsplit with ⟨k, rfl, hk⟩ | ⟨k, hfc, hk⟩
        · exact ⟨k, l₂, hk, ha, fun b hb => hbefore b (List.mem_append_right _ hb)⟩
        · cases k with
          | nil => exact ⟨[], l₂, hk.symm, ha, fun b hb => absurd hb List.not_mem_nil⟩
          | cons e k =>
            have hae : a = e := (List.cons.inj hk).1
            exact absurd ⟨e, hfc ▸ List.mem_append_right _ List.mem_cons_self, hae ▸ ha⟩ hc
      obtain ⟨c', hc', hfirst⟩ := ih hrest
      exact ⟨c', List.mem_cons_of_mem _ hc', hfirst⟩

/-- No element of the kind has a smaller position. -/
theorem IsFirst.le_idxOf [DecidableEq α] (h : IsFirst P l a) (hb : P b) :
    l.idxOf a ≤ l.idxOf b := by
  obtain ⟨l₁, l₂, rfl, ha, hbefore⟩ := h
  have hna : a ∉ l₁ := fun hmem => hbefore a hmem ha
  have hnb : b ∉ l₁ := fun hmem => hbefore b hmem hb
  rw [List.idxOf_append_of_notMem hna, List.idxOf_append_of_notMem hnb, List.idxOf_cons_self]
  omega

end First

end FirstMax
