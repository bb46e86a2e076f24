import Mathlib.Data.List.Pairwise
import Mathlib.Logic.Function.Basic
import Mathlib.Order.Basic
import Mathlib.Order.Nat

/-! # Breadth-first search

A search with a queue gives each element the number of steps to it when it is first met. Once the
queue is empty these are the least numbers of steps, and what has no number cannot be reached.
-/

namespace BreadthFirst

variable {α : Type*} {succ : α → List α} {root : α}

/-- A way of so many steps from the root. -/
inductive Walk (succ : α → List α) (root : α) : ℕ → α → Prop
  | root : Walk succ root 0 root
  | step {n : ℕ} {x y : α} : Walk succ root n x → y ∈ succ x → Walk succ root (n + 1) y

theorem Walk.mono {succ' : α → List α} {n : ℕ} {x : α} (h : Walk succ root n x)
    (hsucc : ∀ y, ∀ z ∈ succ y, z ∈ succ' y) : Walk succ' root n x := by
  induction h with
  | root => exact .root
  | step _ hmem ih => exact ih.step (hsucc _ _ hmem)

/-- The least number of steps. -/
def IsDist (succ : α → List α) (root : α) (n : ℕ) (x : α) : Prop :=
  Walk succ root n x ∧ ∀ m, Walk succ root m x → n ≤ m

theorem exists_isDist {n : ℕ} {x : α} (h : Walk succ root n x) : ∃ m, IsDist succ root m x := by
  classical
  have hex : ∃ m, Walk succ root m x := ⟨n, h⟩
  exact ⟨Nat.find hex, Nat.find_spec hex, fun m hm => Nat.find_min' hex hm⟩

/-! ## The search -/

/-- The numbers found so far and the queue. -/
structure State (α : Type*) where
  depth : α → Option ℕ
  queue : List α

variable [DecidableEq α]

/-- An element that has no number gets one and a place in the queue. -/
def visit (n : ℕ) (s : State α) (y : α) : State α :=
  match s.depth y with
  | some _ => s
  | none => { depth := Function.update s.depth y (some n), queue := s.queue ++ [y] }

/-- The search, for at most so many elements of the queue. -/
def run (succ : α → List α) : ℕ → State α → State α
  | 0, s => s
  | fuel + 1, s =>
    match s.queue with
    | [] => s
    | x :: queue =>
      run succ fuel ((succ x).foldl (visit ((s.depth x).getD 0 + 1)) { s with queue })

/-! ## The visits of one element's successors -/

/-- What visiting the elements of a list has made of a state. -/
structure Visited (n : ℕ) (l : List α) (s s' : State α) : Prop where
  kept : ∀ x m, s.depth x = some m → s'.depth x = some m
  old_or_new : ∀ x m, s'.depth x = some m → s.depth x = some m ∨ m = n ∧ x ∈ l ∧ s.depth x = none
  found : ∀ y ∈ l, ∃ m, s'.depth y = some m
  queue : ∃ added, s'.queue = s.queue ++ added ∧ (∀ y ∈ added, s'.depth y = some n) ∧
    ∀ x, s.depth x = none → s'.depth x ≠ none → x ∈ added

theorem visited_visit (n : ℕ) (y : α) (s : State α) : Visited n [y] s (visit n s y) := by
  unfold visit
  cases hy : s.depth y with
  | some k =>
    refine ⟨fun _ _ h => h, fun _ _ h => Or.inl h, ?_, [], ?_, ?_, ?_⟩
    · intro x hx
      rw [List.mem_singleton.mp hx]
      exact ⟨k, hy⟩
    · exact (List.append_nil _).symm
    · exact fun x hx => absurd hx List.not_mem_nil
    · exact fun x hnone hsome => absurd hnone hsome
  | none =>
    refine ⟨?_, ?_, ?_, [y], rfl, ?_, ?_⟩
    · intro x m hx
      have hne : x ≠ y := by
        rintro rfl
        exact absurd (hx.symm.trans hy) (Option.some_ne_none m)
      exact (Function.update_of_ne hne _ _).trans hx
    · intro x m hx
      by_cases hxy : x = y
      · subst hxy
        have hm : some n = some m := (Function.update_self x _ s.depth).symm.trans hx
        exact Or.inr ⟨(Option.some.inj hm).symm, List.mem_singleton_self x, hy⟩
      · exact Or.inl ((Function.update_of_ne hxy _ _).symm.trans hx)
    · intro x hx
      rw [List.mem_singleton.mp hx]
      exact ⟨n, Function.update_self y _ s.depth⟩
    · intro x hx
      rw [List.mem_singleton.mp hx]
      exact Function.update_self y _ s.depth
    · intro x hnone hsome
      rw [List.mem_singleton]
      by_contra hne
      exact hsome ((Function.update_of_ne hne _ _).trans hnone)

omit [DecidableEq α] in
/-- Visits follow upon each other. -/
theorem Visited.trans {n : ℕ} {l l' : List α} {s s' s'' : State α} (h : Visited n l s s')
    (h' : Visited n l' s' s'') : Visited n (l ++ l') s s'' := by
  obtain ⟨added, hqueue, hadded, hnew⟩ := h.queue
  obtain ⟨added', hqueue', hadded', hnew'⟩ := h'.queue
  refine ⟨fun x m hx => h'.kept x m (h.kept x m hx), ?_, ?_, added ++ added', ?_, ?_, ?_⟩
  · intro x m hx
    rcases h'.old_or_new x m hx with hold | ⟨hm, hmem, hnone⟩
    · rcases h.old_or_new x m hold with hold | ⟨hm, hmem, hnone⟩
      · exact Or.inl hold
      · exact Or.inr ⟨hm, List.mem_append_left _ hmem, hnone⟩
    · refine Or.inr ⟨hm, List.mem_append_right _ hmem, ?_⟩
      cases hx : s.depth x with
      | none => rfl
      | some k => exact absurd ((h.kept x k hx).symm.trans hnone) (Option.some_ne_none k)
  · intro y hy
    rcases List.mem_append.mp hy with hy | hy
    · obtain ⟨m, hm⟩ := h.found y hy
      exact ⟨m, h'.kept y m hm⟩
    · exact h'.found y hy
  · rw [hqueue', hqueue, List.append_assoc]
  · intro y hy
    rcases List.mem_append.mp hy with hy | hy
    · exact h'.kept y n (hadded y hy)
    · exact hadded' y hy
  · intro x hnone hsome
    by_cases hmid : s'.depth x = none
    · exact List.mem_append_right _ (hnew' x hmid hsome)
    · exact List.mem_append_left _ (hnew x hnone hmid)

theorem visited_foldl (n : ℕ) (l : List α) (s : State α) : Visited n l s (l.foldl (visit n) s) := by
  induction l generalizing s with
  | nil =>
    refine ⟨fun _ _ h => h, fun _ _ h => Or.inl h, ?_, [], (List.append_nil _).symm, ?_, ?_⟩
    · exact fun y hy => absurd hy List.not_mem_nil
    · exact fun y hy => absurd hy List.not_mem_nil
    · exact fun x hnone hsome => absurd hnone hsome
  | cons y l ih => exact (visited_visit n y s).trans (ih (visit n s y))

/-! ## The invariant of the search -/

/-- The number of an element of the queue. -/
def State.dist (s : State α) (x : α) : ℕ := (s.depth x).getD 0

/-- What holds before each pass: the queue is sorted, no number exceeds that of its first element by
more than one, and what has left the queue has numbered its successors. -/
structure Inv (succ : α → List α) (root : α) (s : State α) : Prop where
  begun : s.depth root = some 0
  walk : ∀ x n, s.depth x = some n → Walk succ root n x
  queued : ∀ x ∈ s.queue, ∃ n, s.depth x = some n
  sorted : s.queue.Pairwise fun x y => s.dist x ≤ s.dist y
  near : ∀ x n, s.depth x = some n → ∀ q ∈ s.queue, n ≤ s.dist q + 1
  expanded : ∀ x n, s.depth x = some n → x ∉ s.queue →
    ∀ y ∈ succ x, ∃ m, s.depth y = some m ∧ m ≤ n + 1

/-- The state in which the search starts. -/
def start (root : α) : State α where
  depth := Function.update (fun _ => none) root (some 0)
  queue := [root]

theorem depth_start (root x : α) :
    (start root).depth x = if x = root then some 0 else none := by
  simp [start, Function.update_apply]

theorem eq_of_depth_start {x : α} {n : ℕ} (h : (start root).depth x = some n) :
    x = root ∧ n = 0 := by
  rw [depth_start] at h
  split at h
  · rename_i hx
    exact ⟨hx, (Option.some.inj h).symm⟩
  · exact absurd h.symm (Option.some_ne_none n)

theorem Inv.start (succ : α → List α) (root : α) : Inv succ root (start root) where
  begun := by rw [depth_start, if_pos rfl]
  walk x n h := by
    obtain ⟨rfl, rfl⟩ := eq_of_depth_start h
    exact .root
  queued x hx := by
    rw [List.mem_singleton.mp hx, depth_start, if_pos rfl]
    exact ⟨0, rfl⟩
  sorted := List.pairwise_singleton _ _
  near x n h q _ := by
    obtain ⟨-, rfl⟩ := eq_of_depth_start h
    exact Nat.zero_le _
  expanded x n h hx := by
    obtain ⟨rfl, -⟩ := eq_of_depth_start h
    exact absurd (List.mem_singleton_self x) hx

/-- One pass keeps the invariant. -/
theorem Inv.pass {s : State α} {x : α} {queue : List α} (h : Inv succ root s)
    (hqueue : s.queue = x :: queue) :
    Inv succ root ((succ x).foldl (visit ((s.depth x).getD 0 + 1)) { s with queue }) := by
  obtain ⟨k, hk⟩ := h.queued x (hqueue ▸ List.mem_cons_self)
  have hdist : s.dist x = k := by rw [State.dist, hk, Option.getD_some]
  have hvisited := visited_foldl (k + 1) (succ x) { s with queue }
  rw [hk, Option.getD_some]
  generalize (succ x).foldl (visit (k + 1)) { s with queue } = s' at hvisited ⊢
  obtain ⟨added, hqueue', hadded, hnew⟩ := hvisited.queue
  have hkept : ∀ y m, s.depth y = some m → s'.depth y = some m := hvisited.kept
  have hcases : ∀ y m, s'.depth y = some m → s.depth y = some m ∨
      m = k + 1 ∧ y ∈ succ x ∧ s.depth y = none := hvisited.old_or_new
  -- the queue behind the first element is between its number and the next one
  have hrest : ∀ q ∈ queue, s'.dist q = s.dist q ∧ k ≤ s.dist q ∧ s.dist q ≤ k + 1 := by
    intro q hq
    have hsorted := h.sorted
    rw [hqueue] at hsorted
    obtain ⟨m, hm⟩ := h.queued q (hqueue ▸ List.mem_cons_of_mem _ hq)
    have hnear := h.near q m hm x (hqueue ▸ List.mem_cons_self)
    have hle := List.rel_of_pairwise_cons hsorted hq
    have hsame : s'.dist q = s.dist q := by rw [State.dist, State.dist, hkept q m hm, hm]
    have hq : s.dist q = m := by rw [State.dist, hm, Option.getD_some]
    omega
  have hlast : ∀ q ∈ added, s'.dist q = k + 1 := by
    intro q hq
    rw [State.dist, hadded q hq, Option.getD_some]
  have hbound : ∀ y m, s'.depth y = some m → m ≤ k + 1 := by
    intro y m hy
    rcases hcases y m hy with hold | ⟨rfl, -, -⟩
    · have hnear := h.near y m hold x (hqueue ▸ List.mem_cons_self)
      omega
    · exact le_refl _
  constructor
  · exact hkept root 0 h.begun
  · intro y m hy
    rcases hcases y m hy with hold | ⟨rfl, hmem, -⟩
    · exact h.walk y m hold
    · exact (h.walk x k hk).step hmem
  · intro q hq
    rw [hqueue'] at hq
    rcases List.mem_append.mp hq with hq | hq
    · obtain ⟨m, hm⟩ := h.queued q (hqueue ▸ List.mem_cons_of_mem _ hq)
      exact ⟨m, hkept q m hm⟩
    · exact ⟨_, hadded q hq⟩
  · rw [hqueue', List.pairwise_append]
    refine ⟨?_, ?_, ?_⟩
    · have hsorted := h.sorted
      rw [hqueue] at hsorted
      refine (List.pairwise_cons.mp hsorted).2.imp_of_mem fun {a b} ha hb hab => ?_
      rw [(hrest a ha).1, (hrest b hb).1]
      exact hab
    · refine List.pairwise_of_forall_mem_list fun a ha b hb => ?_
      rw [hlast a ha, hlast b hb]
    · intro a ha b hb
      rw [hlast b hb, (hrest a ha).1]
      exact (hrest a ha).2.2
  · intro y m hy q hq
    have hle := hbound y m hy
    rw [hqueue'] at hq
    rcases List.mem_append.mp hq with hq | hq
    · have hq := hrest q hq
      omega
    · have hq := hlast q hq
      omega
  · intro y m hy hnot z hz
    rw [hqueue', List.mem_append] at hnot
    have hold : s.depth y = some m := by
      rcases hcases y m hy with hold | ⟨-, -, hnone⟩
      · exact hold
      · refine absurd (Or.inr (hnew y hnone ?_)) hnot
        rw [hy]
        exact Option.some_ne_none m
    by_cases hyx : y = x
    · subst hyx
      obtain ⟨n, hn⟩ := hvisited.found z hz
      have hm : m = k := Option.some.inj (hold.symm.trans hk)
      have hle := hbound z n hn
      exact ⟨n, hn, by omega⟩
    · have hqueue : y ∉ s.queue := by
        rw [hqueue, List.mem_cons]
        exact fun hmem => hmem.elim hyx fun hmem => hnot (Or.inl hmem)
      obtain ⟨n, hn, hle⟩ := h.expanded y m hold hqueue z hz
      exact ⟨n, hkept z n hn, hle⟩

theorem Inv.run {s : State α} (h : Inv succ root s) (fuel : ℕ) :
    Inv succ root (run succ fuel s) := by
  induction fuel generalizing s with
  | zero => exact h
  | succ fuel ih =>
    rw [BreadthFirst.run]
    cases hqueue : s.queue with
    | nil => exact h
    | cons x queue => exact ih (h.pass hqueue)

omit [DecidableEq α] in
/-- With an empty queue the numbers are the least numbers of steps. -/
theorem Inv.depth_eq_some_iff {s : State α} (h : Inv succ root s) (hdone : s.queue = []) {x : α}
    {n : ℕ} : s.depth x = some n ↔ IsDist succ root n x := by
  have hle : ∀ m y, Walk succ root m y → ∃ k, s.depth y = some k ∧ k ≤ m := by
    intro m y hwalk
    induction hwalk with
    | root => exact ⟨0, h.begun, le_refl 0⟩
    | step _ hmem ih =>
      obtain ⟨k, hk, hkm⟩ := ih
      have hnot : ∀ y, y ∉ s.queue := by simp [hdone]
      obtain ⟨j, hj, hjk⟩ := h.expanded _ k hk (hnot _) _ hmem
      exact ⟨j, hj, by omega⟩
  constructor
  · intro hx
    refine ⟨h.walk x n hx, fun m hm => ?_⟩
    obtain ⟨k, hk, hkm⟩ := hle m x hm
    have hkn : n = k := Option.some.inj (hx.symm.trans hk)
    omega
  · intro hx
    obtain ⟨k, hk, hkn⟩ := hle n x hx.1
    have hnk := hx.2 k (h.walk x k hk)
    have heq : k = n := by omega
    rw [hk, heq]

end BreadthFirst
