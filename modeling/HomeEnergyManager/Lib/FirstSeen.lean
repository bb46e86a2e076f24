import Mathlib.Data.List.Perm.Basic
import Mathlib.Data.List.Dedup

/-! # Keeping the first entry of each key

Entries of keys and values are taken in order, and an entry whose key was seen before is left out.
The keys that are kept are the distinct keys of the entries, each with its first value. Where only
so many entries are kept and the rest is dropped, nothing changes while there are no more keys.

A table that claims an entry for every new element while there is room holds the first elements of
the list that would have room for all.
-/

namespace FirstSeen

variable {α β : Type*} [DecidableEq α]

/-- The entries in `acc`, and the first entry of each key that is not in it. -/
def collect : List (α × β) → List (α × β) → List (α × β)
  | acc, [] => acc
  | acc, p :: l => if p.1 ∈ acc.map Prod.fst then collect acc l else collect (acc ++ [p]) l

/-- The same, until an entry of a new key comes when there are `cap` already. -/
def collectUpTo (cap : ℕ) : List (α × β) → List (α × β) → List (α × β)
  | acc, [] => acc
  | acc, p :: l =>
    if p.1 ∈ acc.map Prod.fst then collectUpTo cap acc l
    else if cap ≤ acc.length then acc
    else collectUpTo cap (acc ++ [p]) l

/-- What is in stays in. -/
theorem length_le_collect (acc l : List (α × β)) : acc.length ≤ (collect acc l).length := by
  induction l generalizing acc with
  | nil => exact Nat.le_refl _
  | cons p l ih =>
    rw [collect]
    split
    · exact ih acc
    · have := ih (acc ++ [p])
      rw [List.length_append] at this
      omega

/-- A cap that is not reached makes no difference. -/
theorem collectUpTo_eq {cap : ℕ} {acc l : List (α × β)} (h : (collect acc l).length ≤ cap) :
    collectUpTo cap acc l = collect acc l := by
  induction l generalizing acc with
  | nil => rfl
  | cons p l ih =>
    rw [collect] at h ⊢
    rw [collectUpTo]
    split
    · rename_i hseen
      rw [if_pos hseen] at h
      exact ih h
    · rename_i hnew
      rw [if_neg hnew] at h
      have hroom := length_le_collect (acc ++ [p]) l
      rw [List.length_append] at hroom
      rw [if_neg (by simp at hroom; omega)]
      exact ih h

/-- An entry is kept if it was in, or if it is the first of its key. -/
theorem mem_collect {acc l : List (α × β)} {p : α × β} :
    p ∈ collect acc l ↔
      p ∈ acc ∨ p.1 ∉ acc.map Prod.fst ∧ l.find? (fun q => q.1 = p.1) = some p := by
  induction l generalizing acc with
  | nil => simp [collect]
  | cons q l ih =>
    rw [collect]
    by_cases hkey : q.1 = p.1
    -- an entry of the same key settles it
    · rw [List.find?_cons_of_pos (by simpa using hkey)]
      split
      · rename_i hseen
        rw [hkey] at hseen
        rw [ih]
        simp [hseen]
      · rename_i hnew
        rw [hkey] at hnew
        rw [ih]
        simp [hnew, hkey, eq_comm]
    · rw [List.find?_cons_of_neg (by simpa using hkey)]
      split
      · exact ih
      · rw [ih]
        have hne : p ≠ q := fun heq => hkey (heq ▸ rfl)
        simp [hne, Ne.symm hkey]

/-- The keys that are kept are different. -/
theorem nodup_keys_collect {acc : List (α × β)} (h : (acc.map Prod.fst).Nodup)
    (l : List (α × β)) : ((collect acc l).map Prod.fst).Nodup := by
  induction l generalizing acc with
  | nil => exact h
  | cons p l ih =>
    rw [collect]
    split
    · exact ih h
    · rename_i hnew
      apply ih
      rw [List.map_append, List.map_singleton]
      exact List.nodup_append.mpr ⟨h, List.nodup_singleton _, fun a ha b hb heq => by
        rw [List.mem_singleton.mp hb] at heq
        exact hnew (heq ▸ ha)⟩

/-- Every key is kept. -/
theorem mem_keys_collect {l : List (α × β)} {a : α} :
    a ∈ (collect [] l).map Prod.fst ↔ a ∈ l.map Prod.fst := by
  constructor
  · intro h
    obtain ⟨p, hp, rfl⟩ := List.mem_map.mp h
    rcases mem_collect.mp hp with hnil | ⟨-, hfirst⟩
    · exact absurd hnil List.not_mem_nil
    · exact List.mem_map_of_mem (List.mem_of_find?_eq_some hfirst)
  · intro h
    obtain ⟨p, hp, rfl⟩ := List.mem_map.mp h
    obtain ⟨q, hq⟩ := Option.isSome_iff_exists.mp
      (List.find?_isSome.mpr ⟨p, hp, by simp⟩ : (l.find? fun q => q.1 = p.1).isSome)
    have hkey : q.1 = p.1 := by simpa using List.find?_some hq
    refine List.mem_map.mpr ⟨q, mem_collect.mpr (Or.inr ⟨List.not_mem_nil, ?_⟩), hkey⟩
    rw [hkey]
    exact hq

/-- There are as many as distinct keys. -/
theorem length_collect (l : List (α × β)) :
    (collect [] l).length = (l.map Prod.fst).dedup.length := by
  have hnodup : ((collect [] l).map Prod.fst).Nodup := by
    apply nodup_keys_collect
    exact List.nodup_nil
  rw [← List.length_map (f := Prod.fst)]
  refine List.Perm.length_eq ((List.perm_ext_iff_of_nodup hnodup (List.nodup_dedup _)).mpr
    fun a => ?_)
  rw [mem_keys_collect, List.mem_dedup]

/-! ## A table with room for the first ones -/

section Table

variable {l : List α} {a b : α} {cap : ℕ}

/-- A list with one more element, unless it is in it. -/
def insertNew (l : List α) (a : α) : List α := if a ∈ l then l else l ++ [a]

theorem mem_insertNew : b ∈ insertNew l a ↔ b ∈ l ∨ b = a := by
  unfold insertNew
  split
  · rename_i ha
    exact (or_iff_left_of_imp fun hb => hb ▸ ha).symm
  · rw [List.mem_append, List.mem_singleton]

theorem nodup_insertNew (h : l.Nodup) (a : α) : (insertNew l a).Nodup := by
  unfold insertNew
  split
  · exact h
  · rename_i ha
    exact List.nodup_append.mpr ⟨h, List.nodup_singleton _, fun b hb c hc heq =>
      ha (List.mem_singleton.mp hc ▸ heq ▸ hb)⟩

/-- The first elements grow by a new one while there is room. -/
theorem take_insertNew (l : List α) (a : α) (cap : ℕ) :
    (insertNew l a).take cap =
      if a ∈ l.take cap ∨ cap ≤ (l.take cap).length then l.take cap else l.take cap ++ [a] := by
  rw [List.length_take]
  unfold insertNew
  rcases Nat.lt_or_ge l.length cap with hlt | hge
  · rw [List.take_of_length_le (Nat.le_of_lt hlt)]
    split
    · rename_i ha
      rw [if_pos (Or.inl ha), List.take_of_length_le (Nat.le_of_lt hlt)]
    · rename_i ha
      rw [if_neg (not_or.mpr ⟨ha, by omega⟩), List.take_of_length_le]
      rw [List.length_append, List.length_singleton]
      omega
  · rw [if_pos (Or.inr (by omega))]
    split
    · rfl
    · rw [List.take_append_of_le_length hge]

theorem mem_take_insertNew :
    b ∈ (insertNew l a).take cap ↔ b ∈ l.take cap ∨ b = a ∧ (l.take cap).length < cap := by
  rw [take_insertNew]
  split
  · rename_i h
    refine (or_iff_left_of_imp ?_).symm
    rintro ⟨rfl, hlt⟩
    exact h.resolve_right (by omega)
  · rename_i h
    rw [not_or, Nat.not_le] at h
    rw [List.mem_append, List.mem_singleton, and_iff_left h.2]

end Table

end FirstSeen
