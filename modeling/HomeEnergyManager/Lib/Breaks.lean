import Mathlib.Data.List.Induction
import Mathlib.Order.Lattice
import Mathlib.Tactic.Common

/-! # Breaking a list into blocks

A list is broken wherever two neighbours are too far apart. The blocks are built in one pass, from
the front.
-/

namespace Breaks

variable {α : Type*}

/-! ## Neighbours -/

def pairs (l : List α) : List (α × α) := l.zip l.tail

theorem pairs_concat (l : List α) (a b : α) :
    pairs (l ++ [a] ++ [b]) = pairs (l ++ [a]) ++ [(a, b)] := by
  induction l with
  | nil => rfl
  | cons x l ih =>
    cases l with
    | nil => rfl
    | cons y l => exact congrArg ((x, y) :: ·) ih

theorem pairs_map {β : Type*} (f : α → β) (l : List α) :
    pairs (l.map f) = (pairs l).map fun p => (f p.1, f p.2) := by
  rw [pairs, pairs, ← List.map_tail, List.zip_map]
  rfl

/-- The values of a list get past `m` between two neighbours. -/
theorem exists_pair [LinearOrder α] {a m : α} {l : List α} (ha : a ≤ m) (hl : ∃ x ∈ l, m < x) :
    ∃ p ∈ pairs (a :: l), p.1 ≤ m ∧ m < p.2 := by
  induction l generalizing a with
  | nil =>
    obtain ⟨x, hx, -⟩ := hl
    exact absurd hx List.not_mem_nil
  | cons b l ih =>
    rcases lt_or_ge m b with hb | hb
    · exact ⟨(a, b), List.mem_cons_self, ha, hb⟩
    · obtain ⟨x, hx, hmx⟩ := hl
      have hxl : x ∈ l := (List.mem_cons.mp hx).resolve_left fun h => (h ▸ hmx).not_ge hb
      obtain ⟨p, hp, hpm⟩ := ih hb ⟨x, hxl, hmx⟩
      exact ⟨p, List.mem_cons_of_mem _ hp, hpm⟩

theorem mem_of_mem_pairs {a b : α} {l : List α} (h : (a, b) ∈ pairs l) : a ∈ l ∧ b ∈ l.tail :=
  List.of_mem_zip h

theorem mem_pairs_cons {a : α} {l : List α} {p : α × α} (h : p ∈ pairs (a :: l)) :
    (∃ b, l.head? = some b ∧ p = (a, b)) ∨ p ∈ pairs l := by
  cases l with
  | nil => exact absurd h List.not_mem_nil
  | cons b l =>
    rcases List.mem_cons.mp h with rfl | hl
    · exact .inl ⟨b, rfl, rfl⟩
    · exact .inr hl

/-- No value of a sorted list is between two neighbours. -/
theorem le_or_ge_of_mem_pairs [Preorder α] {l : List α} (hl : l.Pairwise (· ≤ ·)) {a b x : α}
    (hp : (a, b) ∈ pairs l) (hx : x ∈ l) : x ≤ a ∨ b ≤ x := by
  induction l with
  | nil => exact absurd hx List.not_mem_nil
  | cons c l ih =>
    obtain ⟨hc, hsorted⟩ := List.pairwise_cons.mp hl
    rcases mem_pairs_cons hp with ⟨b', hb', heq⟩ | hin
    · obtain ⟨rfl, rfl⟩ := Prod.mk.inj heq
      obtain ⟨l', rfl⟩ := List.head?_eq_some_iff.mp hb'
      rcases List.mem_cons.mp hx with rfl | hmem
      · exact .inl le_rfl
      · rcases List.mem_cons.mp hmem with rfl | hlate
        · exact .inr le_rfl
        · exact .inr ((List.pairwise_cons.mp hsorted).1 x hlate)
    · rcases List.mem_cons.mp hx with rfl | hmem
      · exact .inl (hc a (mem_of_mem_pairs hin).1)
      · exact ih hsorted hin hmem

/-- The same with one more value, of which nothing is known, at the end. -/
theorem le_or_ge_of_mem_pairs_concat [Preorder α] {l : List α} (hl : l.Pairwise (· ≤ ·))
    {a b z : α} (hp : (a, b) ∈ pairs (l ++ [z])) : a ∈ l ∧ ∀ x ∈ l, x ≤ a ∨ b ≤ x := by
  rcases List.eq_nil_or_concat l with rfl | ⟨c, last, hc⟩
  · exact absurd hp List.not_mem_nil
  · rw [List.concat_eq_append] at hc
    subst hc
    rw [pairs_concat] at hp
    rcases List.mem_append.mp hp with hin | hlast
    · exact ⟨(mem_of_mem_pairs hin).1, fun x hx => le_or_ge_of_mem_pairs hl hin hx⟩
    · obtain ⟨rfl, rfl⟩ := Prod.mk.inj (List.mem_singleton.mp hlast)
      refine ⟨List.mem_append_right _ List.mem_cons_self, ?_⟩
      intro x hx
      rcases List.mem_append.mp hx with hearly | hlate
      · exact .inl ((List.pairwise_append.mp hl).2.2 x hearly a List.mem_cons_self)
      · exact .inl (List.mem_singleton.mp hlate).le

/-! ## Blocks -/

/-- The blocks that are complete, and the one that is being filled. -/
structure Blocks (α : Type*) where
  done : List (List α) := []
  cur : List α := []

section Split

variable (cut : α → α → Prop) [DecidableRel cut]

/-- One element: it begins a block if it is cut off from the one before. -/
def put (s : Blocks α) (r : α) : Blocks α :=
  match s.cur.getLast? with
  | some a => if cut a r then ⟨s.done ++ [s.cur], [r]⟩ else { s with cur := s.cur ++ [r] }
  | none => { s with cur := s.cur ++ [r] }

def split (l : List α) : List (List α) :=
  let s := l.foldl (put cut) {}
  if s.cur.isEmpty then s.done else s.done ++ [s.cur]

end Split

/-- The last element of a block and the first one of the next. -/
def link (s t : List α) : List (α × α) :=
  match s.getLast?, t.head? with
  | some a, some b => [(a, b)]
  | _, _ => []

/-- Where the blocks meet. -/
def ends (blocks : List (List α)) : List (α × α) := (pairs blocks).flatMap fun p => link p.1 p.2

theorem ends_concat (blocks : List (List α)) (s t : List α) :
    ends (blocks ++ [s] ++ [t]) = ends (blocks ++ [s]) ++ link s t := by
  rw [ends, pairs_concat, List.flatMap_append, List.flatMap_singleton]
  rfl

/-- Only the first element of the last block counts. -/
theorem ends_grow (blocks : List (List α)) {t : List α} (ht : t ≠ []) (r : α) :
    ends (blocks ++ [t ++ [r]]) = ends (blocks ++ [t]) := by
  induction blocks using List.reverseRec with
  | nil => rfl
  | append_singleton blocks s _ =>
    have hhead : (t ++ [r]).head? = t.head? := by
      cases t with
      | nil => exact absurd rfl ht
      | cons x t => rfl
    rw [ends_concat, ends_concat, link, link, hhead]

/-- Together the blocks are the list, and it is broken where two neighbours are cut off from each
other, and nowhere else. -/
structure Broken (cut : α → α → Prop) [DecidableRel cut] (l : List α) (blocks : List (List α)) :
    Prop where
  flatten : blocks.flatten = l
  filled : [] ∉ blocks
  ends : ends blocks = (pairs l).filter fun p => cut p.1 p.2
  whole : ∀ block ∈ blocks, ∀ p ∈ pairs block, ¬ cut p.1 p.2

variable {cut : α → α → Prop} [DecidableRel cut]

theorem Broken.nil : Broken cut ([] : List α) [] where
  flatten := rfl
  filled := List.not_mem_nil
  ends := rfl
  whole _ hblock := absurd hblock List.not_mem_nil

theorem Broken.singleton (a : α) : Broken cut [a] [[a]] where
  flatten := rfl
  filled := by simp
  ends := rfl
  whole block hblock p hp := by
    obtain rfl : block = [a] := List.mem_singleton.mp hblock
    exact absurd hp List.not_mem_nil

section Put

variable {l c : List α} {done : List (List α)} {a r : α}

theorem Broken.pairs_concat (h : Broken cut l (done ++ [c ++ [a]])) (r : α) :
    pairs (l ++ [r]) = pairs l ++ [(a, r)] := by
  have hl : l = done.flatten ++ c ++ [a] := by
    rw [← h.flatten, List.flatten_append, List.flatten_singleton, List.append_assoc]
  rw [hl, Breaks.pairs_concat]

/-- An element that is cut off begins a block. -/
theorem Broken.begin (h : Broken cut l (done ++ [c ++ [a]])) (hcut : cut a r) :
    Broken cut (l ++ [r]) (done ++ [c ++ [a]] ++ [[r]]) where
  flatten := by rw [List.flatten_append, h.flatten, List.flatten_singleton]
  filled := by
    rw [List.mem_append, not_or]
    exact ⟨h.filled, by simp⟩
  ends := by
    have hlink : link (c ++ [a]) [r] = [(a, r)] := by simp [link]
    rw [ends_concat, h.ends, h.pairs_concat, List.filter_append, hlink,
      List.filter_cons_of_pos (by simpa), List.filter_nil]
  whole block hblock := by
    rcases List.mem_append.mp hblock with hold | hnew
    · exact h.whole block hold
    · obtain rfl : block = [r] := List.mem_singleton.mp hnew
      exact fun p hp => absurd hp List.not_mem_nil

/-- One that is not joins the last block. -/
theorem Broken.join (h : Broken cut l (done ++ [c ++ [a]])) (hcut : ¬ cut a r) :
    Broken cut (l ++ [r]) (done ++ [c ++ [a] ++ [r]]) where
  flatten := by
    rw [← h.flatten]
    simp only [List.flatten_append, List.flatten_singleton, List.append_assoc]
  filled := by
    intro hnil
    rcases List.mem_append.mp hnil with hold | hnew
    · exact h.filled (List.mem_append_left _ hold)
    · exact absurd (List.mem_singleton.mp hnew) (by simp)
  ends := by
    rw [ends_grow done (by simp), h.ends, h.pairs_concat, List.filter_append,
      List.filter_cons_of_neg (by simpa), List.filter_nil, List.append_nil]
  whole block hblock := by
    rcases List.mem_append.mp hblock with hold | hnew
    · exact h.whole block (List.mem_append_left _ hold)
    · obtain rfl : block = c ++ [a] ++ [r] := List.mem_singleton.mp hnew
      rw [Breaks.pairs_concat]
      intro p hp
      rcases List.mem_append.mp hp with hin | hlast
      · exact h.whole _ (List.mem_append_right _ List.mem_cons_self) p hin
      · obtain rfl : p = (a, r) := List.mem_singleton.mp hlast
        exact hcut

end Put

theorem Broken.put {l : List α} {s : Blocks α} (h : Broken cut l (s.done ++ [s.cur])) (r : α) :
    Broken cut (l ++ [r]) ((put cut s r).done ++ [(put cut s r).cur]) := by
  obtain ⟨done, cur⟩ := s
  have hne : cur ≠ [] := by
    rintro rfl
    exact h.filled (List.mem_append_right _ List.mem_cons_self)
  obtain ⟨c, a, hcur⟩ := (List.eq_nil_or_concat cur).resolve_left hne
  rw [List.concat_eq_append] at hcur
  subst hcur
  simp only [Breaks.put, List.getLast?_concat]
  split
  · rename_i hcut
    exact h.begin hcut
  · rename_i hcut
    exact h.join hcut

theorem Broken.run {l : List α} {s : Blocks α} (h : Broken cut l (s.done ++ [s.cur]))
    (l' : List α) : Broken cut (l ++ l')
      ((l'.foldl (Breaks.put cut) s).done ++ [(l'.foldl (Breaks.put cut) s).cur]) := by
  induction l' generalizing l s with
  | nil => rwa [List.append_nil]
  | cons r l' ih =>
    rw [List.foldl_cons, List.append_cons]
    exact ih (h.put r)

theorem broken_split (l : List α) : Broken cut l (split cut l) := by
  cases l with
  | nil => exact .nil
  | cons a l =>
    have hfirst : Broken cut [a] ((put cut {} a).done ++ [(put cut {} a).cur]) := .singleton a
    have h := hfirst.run l
    have hfilled : ((a :: l).foldl (put cut) {}).cur.isEmpty = false := by
      rw [List.isEmpty_eq_false_iff]
      intro hnil
      exact h.filled (List.mem_append_right _ (List.mem_singleton.mpr hnil.symm))
    rw [split, hfilled]
    exact h

end Breaks
