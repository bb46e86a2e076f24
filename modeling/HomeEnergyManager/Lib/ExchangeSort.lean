import Mathlib.Data.List.Perm.Basic
import Mathlib.Data.List.Rotate
import Mathlib.Order.Lattice

/-! # The exchange sort

For each position in turn, what stands there is exchanged with every later element that has to come
before it. The result is a sorted permutation; elements that may stand in either order need not keep
theirs.
-/

namespace ExchangeSort

variable {α : Type*} {before : α → α → Bool}

/-- The inner loop: the element of the position at hand goes along the later ones. What it is in the
end, and what these are. -/
def sweep (before : α → α → Bool) (a : α) : List α → α × List α
  | [] => (a, [])
  | b :: l =>
    if before b a then ((sweep before b l).1, a :: (sweep before b l).2)
    else ((sweep before a l).1, b :: (sweep before a l).2)

@[simp] theorem length_sweep (a : α) (l : List α) : (sweep before a l).2.length = l.length := by
  induction l generalizing a with
  | nil => rfl
  | cons b l ih =>
    unfold sweep
    split <;> simp [ih]

/-- The outer loop, for so many positions. -/
def sortFirst (before : α → α → Bool) : ℕ → List α → List α
  | 0, l => l
  | _ + 1, [] => []
  | n + 1, a :: l => (sweep before a l).1 :: sortFirst before n (sweep before a l).2

def sort (before : α → α → Bool) (l : List α) : List α := sortFirst before l.length l

@[simp] theorem sort_nil : sort before ([] : List α) = [] := rfl

theorem sort_cons (a : α) (l : List α) :
    sort before (a :: l) = (sweep before a l).1 :: sort before (sweep before a l).2 := by
  rw [sort, sort, List.length_cons, length_sweep, sortFirst]

theorem sweep_perm (a : α) (l : List α) :
    List.Perm ((sweep before a l).1 :: (sweep before a l).2) (a :: l) := by
  induction l generalizing a with
  | nil => exact .refl _
  | cons b l ih =>
    unfold sweep
    split
    · exact (List.Perm.swap _ _ _).trans ((ih b).cons a)
    · exact ((List.Perm.swap _ _ _).trans ((ih a).cons b)).trans (List.Perm.swap _ _ _)

theorem sort_perm (l : List α) : List.Perm (sort before l) l := by
  induction hn : l.length generalizing l with
  | zero =>
    rw [List.length_eq_zero_iff.mp hn, sort_nil]
  | succ n ih =>
    cases l with
    | nil => exact absurd hn (by simp)
    | cons a l =>
      rw [sort_cons]
      have hlen : (sweep before a l).2.length = n := by simpa using hn
      exact ((ih _ hlen).cons _).trans (sweep_perm a l)

/-! ## Sorting by a key, the greatest first -/

section Key

variable {κ : Type*} [LinearOrder κ] {key : α → κ} {v : κ} {a : α} {l : List α}

/-- An element comes before those with a smaller key. -/
def greater (key : α → κ) (b a : α) : Bool := decide (key a < key b)

theorem le_sweep (a : α) (l : List α) : ∀ b ∈ a :: l, key b ≤ key (sweep (greater key) a l).1 := by
  induction l generalizing a with
  | nil =>
    intro b hb
    rw [List.mem_singleton.mp hb]
    exact le_refl _
  | cons c l ih =>
    intro b hb
    unfold sweep
    split
    · rename_i hc
      have hlt : key a < key c := of_decide_eq_true hc
      rcases List.mem_cons.mp hb with rfl | hb
      · exact hlt.le.trans (ih c c List.mem_cons_self)
      · exact ih c b hb
    · rename_i hc
      have hle : key c ≤ key a := not_lt.mp fun hlt => hc (decide_eq_true hlt)
      rcases List.mem_cons.mp hb with rfl | hb
      · exact ih b b List.mem_cons_self
      · rcases List.mem_cons.mp hb with rfl | hb
        · exact hle.trans (ih a a List.mem_cons_self)
        · exact ih a b (List.mem_cons_of_mem _ hb)

/-- The result is sorted. -/
theorem pairwise_sort (l : List α) : (sort (greater key) l).Pairwise fun a b => key b ≤ key a := by
  induction hn : l.length generalizing l with
  | zero =>
    rw [List.length_eq_zero_iff.mp hn, sort_nil]
    exact .nil
  | succ n ih =>
    cases l with
    | nil => exact absurd hn (by simp)
    | cons a l =>
      rw [sort_cons, List.pairwise_cons]
      have hlen : (sweep (greater key) a l).2.length = n := by simpa using hn
      refine ⟨fun b hb => ?_, ih _ hlen⟩
      have hmem : b ∈ (sweep (greater key) a l).2 := (sort_perm _).mem_iff.mp hb
      exact le_sweep a l b ((sweep_perm a l).mem_iff.mp (List.mem_cons_of_mem _ hmem))

/-! ## What becomes of elements with one key

Of a list only the elements with the key `v` matter, and where those with a greater key stand
between them (`none`). Each sweep removes the first of the greater ones and moves the first element
before it, if there is one, to its place. -/

/-- An element as it counts for the key `v`. -/
def tag (key : α → κ) (v : κ) (a : α) : List (Option α) :=
  if v < key a then [none] else if key a = v then [some a] else []

/-- The list as it counts for the key `v`. -/
def word (key : α → κ) (v : κ) (l : List α) : List (Option α) := l.flatMap (tag key v)

theorem word_cons (a : α) (l : List α) : word key v (a :: l) = tag key v a ++ word key v l :=
  List.flatMap_cons

/-- The word after a sweep. -/
def pop : List (Option α) → List α → List (Option α)
  | [], es => (es.drop 1).map some
  | none :: w, es => (es.rotate 1).map some ++ w
  | some a :: w, es => pop w (es ++ [a])

/-- What the elements of a word end as. -/
def settle : List (Option α) → List α → List α
  | [], es => es
  | none :: w, es => settle w (es.rotate 1)
  | some a :: w, es => settle w (es ++ [a])

theorem sweep_of_le (h : ∀ b ∈ l, key b ≤ key a) : sweep (greater key) a l = (a, l) := by
  induction l with
  | nil => rfl
  | cons b l ih =>
    have hb : ¬ greater key b a = true := fun hlt =>
      not_le_of_gt (of_decide_eq_true hlt) (h b List.mem_cons_self)
    rw [sweep, if_neg hb, ih fun b hb => h b (List.mem_cons_of_mem _ hb)]

theorem word_sweep_of_gt (l : List α) (ha : v < key a) :
    word key v (sweep (greater key) a l).2 = word key v l := by
  induction l generalizing a with
  | nil => rfl
  | cons b l ih =>
    unfold sweep
    split
    · rename_i hb
      have hlt : key a < key b := of_decide_eq_true hb
      rw [word_cons, word_cons, ih (ha.trans hlt), tag, tag, if_pos ha, if_pos (ha.trans hlt)]
    · rw [word_cons, word_cons, ih ha]

theorem pop_cons_cons (w : List (Option α)) (a b : α) (es : List α) :
    pop w (a :: b :: es) = some b :: pop w (a :: es) := by
  induction w generalizing es with
  | nil => rfl
  | cons o w ih =>
    cases o with
    | none => simp [pop]
    | some c => simpa [pop] using ih (es ++ [c])

theorem word_sweep_of_eq (l : List α) (ha : key a = v) :
    word key v (sweep (greater key) a l).2 = pop (word key v l) [a] := by
  induction l with
  | nil => rfl
  | cons b l ih =>
    unfold sweep
    rw [word_cons b l]
    split
    · rename_i hb
      have hlt : v < key b := ha ▸ of_decide_eq_true hb
      have hnot : ¬ v < key a := ha ▸ lt_irrefl v
      rw [word_cons, word_sweep_of_gt l hlt, tag, tag, if_neg hnot, if_pos ha, if_pos hlt]
      simp [pop]
    · rename_i hb
      have hle : ¬ v < key b := fun hlt => hb (decide_eq_true (ha ▸ hlt))
      rw [word_cons, ih, tag, if_neg hle]
      split
      · exact (pop_cons_cons _ _ _ []).symm
      · rfl

theorem word_sweep_of_lt (l : List α) (ha : key a < v) :
    word key v (sweep (greater key) a l).2 = pop (word key v l) [] := by
  have hskip : ∀ {a}, key a < v → tag key v a = [] := fun {a} ha => by
    rw [tag, if_neg (not_lt_of_gt ha), if_neg ha.ne]
  induction l generalizing a with
  | nil => rfl
  | cons b l ih =>
    unfold sweep
    rw [word_cons b l]
    split
    · rw [word_cons, hskip ha, List.nil_append]
      rcases lt_trichotomy (key b) v with hb | hb | hb
      · rw [ih hb, hskip hb, List.nil_append]
      · rw [word_sweep_of_eq l hb, tag, if_neg (hb ▸ lt_irrefl v), if_pos hb]
        rfl
      · rw [word_sweep_of_gt l hb, tag, if_pos hb]
        rfl
    · rename_i hb
      have hle : key b ≤ key a := not_lt.mp fun hlt => hb (decide_eq_true hlt)
      rw [word_cons, ih ha, hskip (hle.trans_lt ha), List.nil_append, List.nil_append]

/-- A sweep in terms of the word. -/
theorem word_sweep (a : α) (l : List α) :
    word key v (sweep (greater key) a l).2 = pop (word key v (a :: l)) [] := by
  rw [word_cons]
  rcases lt_trichotomy (key a) v with ha | ha | ha
  · rw [word_sweep_of_lt l ha, tag, if_neg (not_lt_of_gt ha), if_neg ha.ne]
    rfl
  · rw [word_sweep_of_eq l ha, tag, if_neg (ha ▸ lt_irrefl v), if_pos ha]
    rfl
  · rw [word_sweep_of_gt l ha, tag, if_pos ha]
    rfl

theorem none_mem_word : none ∈ word key v l ↔ ∃ b ∈ l, v < key b := by
  unfold word tag
  rw [List.mem_flatMap]
  refine exists_congr fun b => and_congr_right fun _ => ?_
  split
  · simp [*]
  · split <;> simp [*]

/-- Without greater elements a sweep takes the first one with the key. -/
theorem sweep_fst_of_filter (h : ∀ b ∈ a :: l, key b ≤ v) {e : α} {es : List α}
    (hfilter : (a :: l).filter (key · = v) = e :: es) : (sweep (greater key) a l).1 = e := by
  induction l generalizing a with
  | nil =>
    by_cases ha : key a = v
    · simp only [List.filter_cons, ha, decide_true, if_true] at hfilter
      exact (List.cons.inj hfilter).1
    · simp [ha] at hfilter
  | cons b l ih =>
    by_cases ha : key a = v
    · have hle : ∀ c ∈ b :: l, key c ≤ key a := fun c hc =>
        (h c (List.mem_cons_of_mem _ hc)).trans ha.ge
      rw [sweep_of_le hle]
      simp only [List.filter_cons, ha, decide_true, if_true] at hfilter
      exact (List.cons.inj hfilter).1
    · rw [List.filter_cons_of_neg (by simpa using ha)] at hfilter
      unfold sweep
      split
      · exact ih (fun c hc => h c (List.mem_cons_of_mem _ hc)) hfilter
      · rename_i hb
        have hle : key b ≤ key a := not_lt.mp fun hlt => hb (decide_eq_true hlt)
        have hb : key b ≠ v := (hle.trans_lt (lt_of_le_of_ne (h a List.mem_cons_self) ha)).ne
        rw [List.filter_cons_of_neg (by simpa using hb)] at hfilter
        refine ih (fun c hc => ?_) ?_
        · rcases List.mem_cons.mp hc with rfl | hc
          · exact h c List.mem_cons_self
          · exact h c (List.mem_cons_of_mem _ (List.mem_cons_of_mem _ hc))
        · rw [List.filter_cons_of_neg (by simpa using ha)]
          exact hfilter

theorem settle_map_append (x : List α) (w : List (Option α)) (es : List α) :
    settle (x.map some ++ w) es = settle w (es ++ x) := by
  induction x generalizing es with
  | nil => simp
  | cons a x ih => simp [settle, ih]

theorem settle_pop (w : List (Option α)) (es : List α) (h : none ∈ w) :
    settle (pop w es) [] = settle w es := by
  induction w generalizing es with
  | nil => exact absurd h List.not_mem_nil
  | cons o w ih =>
    cases o with
    | none => rw [pop, settle_map_append, List.nil_append, settle]
    | some a =>
      have h : none ∈ w := (List.mem_cons.mp h).resolve_left (by simp)
      exact ih (es ++ [a]) h

theorem pop_map_some (x es : List α) : pop (x.map some) es = ((es ++ x).drop 1).map some := by
  induction x generalizing es with
  | nil => simp [pop]
  | cons a x ih => simp [pop, ih]

theorem settle_map_some (x es : List α) : settle (x.map some) es = es ++ x := by
  have h := settle_map_append x [] es
  rwa [List.append_nil] at h

theorem word_of_le (h : ∀ b ∈ l, key b ≤ v) : word key v l = (l.filter (key · = v)).map some := by
  induction l with
  | nil => rfl
  | cons b l ih =>
    have hb := not_lt_of_ge (h b List.mem_cons_self)
    rw [word_cons, ih fun c hc => h c (List.mem_cons_of_mem _ hc), tag, if_neg hb]
    by_cases heq : key b = v
    · simp [heq]
    · simp [heq]

/-- The elements with the key `v` end as their word settles. -/
theorem filter_sort (l : List α) :
    (sort (greater key) l).filter (key · = v) = settle (word key v l) [] := by
  induction hn : l.length generalizing l with
  | zero =>
    rw [List.length_eq_zero_iff.mp hn]
    rfl
  | succ n ih =>
    cases l with
    | nil => exact absurd hn (by simp)
    | cons a l =>
      have hlen : (sweep (greater key) a l).2.length = n := by simpa using hn
      have hrest := ih _ hlen
      rw [word_sweep] at hrest
      rw [sort_cons]
      have hmax : ∀ b ∈ a :: l, key b ≤ key (sweep (greater key) a l).1 := le_sweep a l
      have hmem : (sweep (greater key) a l).1 ∈ a :: l :=
        (sweep_perm a l).mem_iff.mp List.mem_cons_self
      by_cases hnone : none ∈ word key v (a :: l)
      · obtain ⟨b, hb, hlt⟩ := none_mem_word.mp hnone
        have hne : ¬ key (sweep (greater key) a l).1 = v := (hlt.trans_le (hmax b hb)).ne'
        rw [List.filter_cons_of_neg (by simpa using hne), hrest, settle_pop _ _ hnone]
      · have hle : ∀ b ∈ a :: l, key b ≤ v := fun b hb =>
          not_lt.mp fun hlt => hnone (none_mem_word.mpr ⟨b, hb, hlt⟩)
        rw [word_of_le hle] at hrest ⊢
        rw [pop_map_some, List.nil_append, settle_map_some, List.nil_append] at hrest
        rw [settle_map_some, List.nil_append]
        cases hfilter : (a :: l).filter (key · = v) with
        | nil =>
          have hne : ¬ key (sweep (greater key) a l).1 = v := fun heq =>
            absurd (decide_eq_true heq) (List.filter_eq_nil_iff.mp hfilter _ hmem)
          rw [List.filter_cons_of_neg (by simpa using hne), hrest, hfilter]
          rfl
        | cons e es =>
          have hfirst := sweep_fst_of_filter hle hfilter
          have hkey : key (sweep (greater key) a l).1 = v := by
            rw [hfirst]
            have hin : e ∈ (a :: l).filter (key · = v) := hfilter ▸ List.mem_cons_self
            exact of_decide_eq_true (List.mem_filter.mp hin).2
          rw [List.filter_cons_of_pos (by simpa using hkey), hrest, hfilter, hfirst]
          rfl

/-! ## When the order is kept -/

/-- How many elements with a greater key come after exactly `s` elements with the key `v`, when `n`
of these have come already. -/
def behind (key : α → κ) (v : κ) (s : ℕ) : ℕ → List α → ℕ
  | _, [] => 0
  | n, a :: l =>
    if v < key a then (if n = s then 1 else 0) + behind key v s n l
    else if key a = v then behind key v s (n + 1) l
    else behind key v s n l

theorem behind_of_forall_le {s n : ℕ} (h : ∀ a ∈ l, key a ≤ v) : behind key v s n l = 0 := by
  induction l generalizing n with
  | nil => rfl
  | cons a l ih =>
    rw [List.forall_mem_cons] at h
    rw [behind, if_neg (not_lt.mpr h.1)]
    split <;> exact ih h.2

/-- Of elements by falling key none is behind a smaller one. -/
theorem behind_eq_zero {s : ℕ} (hs : 0 < s) (h : l.Pairwise fun a b => key b ≤ key a) :
    behind key v s 0 l = 0 := by
  induction l with
  | nil => rfl
  | cons a l ih =>
    rw [List.pairwise_cons] at h
    rw [behind]
    split
    · rw [if_neg hs.ne, ih h.2]
    · split
      · rename_i heq
        exact behind_of_forall_le fun b hb => heq ▸ h.1 b hb
      · exact ih h.2

/-- The same for a word. -/
def gaps (s : ℕ) : ℕ → List (Option α) → ℕ
  | _, [] => 0
  | n, none :: w => (if n = s then 1 else 0) + gaps s n w
  | n, some _ :: w => gaps s (n + 1) w

theorem gaps_word (s n : ℕ) (l : List α) : gaps s n (word key v l) = behind key v s n l := by
  induction l generalizing n with
  | nil => rfl
  | cons a l ih =>
    rw [word_cons, tag, behind]
    split
    · simp [gaps, ih]
    · split <;> simp [gaps, ih]

theorem filterMap_word (l : List α) : (word key v l).filterMap id = l.filter (key · = v) := by
  induction l with
  | nil => rfl
  | cons a l ih =>
    rw [word_cons, List.filterMap_append, ih, tag]
    split
    · rename_i h
      simp [h.ne']
    · split
      · rename_i h
        simp [h]
      · rename_i h
        simp [h]

theorem gaps_append (s n : ℕ) (w w' : List (Option α)) :
    gaps s n (w ++ w') = gaps s n w + gaps s (n + (w.filterMap id).length) w' := by
  induction w generalizing n with
  | nil => simp [gaps]
  | cons o w ih =>
    cases o with
    | none => simp [gaps, ih, Nat.add_assoc]
    | some a =>
      have hlen : n + 1 + (w.filterMap id).length =
          n + ((some a :: w).filterMap id).length := by
        simp only [List.filterMap_cons, id_eq, List.length_cons]
        omega
      rw [List.cons_append, gaps, gaps, ih, hlen]

theorem settle_append (w w' : List (Option α)) (es : List α) :
    settle (w ++ w') es = settle w' (settle w es) := by
  induction w generalizing es with
  | nil => rfl
  | cons o w ih =>
    cases o with
    | none => exact ih _
    | some a => exact ih _

theorem gaps_eq_zero {s n : ℕ} {w : List (Option α)} (h : n + (w.filterMap id).length < s) :
    gaps s n w = 0 := by
  induction w generalizing n with
  | nil => rfl
  | cons o w ih =>
    cases o with
    | none =>
      have h : n + (w.filterMap id).length < s := by simpa using h
      rw [gaps, if_neg (by omega), ih h]
    | some a =>
      have h : n + ((w.filterMap id).length + 1) < s := by simpa using h
      rw [gaps, ih (by omega)]

theorem settle_perm (w : List (Option α)) (es : List α) :
    List.Perm (settle w es) (es ++ w.filterMap id) := by
  induction w generalizing es with
  | nil => simp [settle]
  | cons o w ih =>
    cases o with
    | none => simpa [settle] using (ih _).trans ((List.rotate_perm es 1).append_right _)
    | some a => simpa [settle] using ih (es ++ [a])

/-- A list with a last element of its own comes back from a rotation if and only if that is by a
multiple of its length. -/
theorem rotate_concat_iff {x y : List α} {a : α} {k : ℕ} (hnodup : (x ++ [a]).Nodup)
    (hlen : x.length = y.length) :
    (x ++ [a]).rotate k = y ++ [a] ↔ x.length + 1 ∣ k ∧ x = y := by
  have hlength : (x ++ [a]).length = x.length + 1 := by simp
  constructor
  · intro h
    have hdvd : x.length + 1 ∣ k := by
      have hlast : ((x ++ [a]).rotate k)[x.length]? = some a := by
        rw [h, hlen, List.getElem?_append_right le_rfl, Nat.sub_self]
        rfl
      rw [List.getElem?_rotate (by rw [hlength]; omega), hlength] at hlast
      have hlast' : (x ++ [a])[x.length]? = some a := by
        rw [List.getElem?_append_right le_rfl, Nat.sub_self]
        rfl
      have heq := (List.getElem?_inj (by rw [hlength]; exact Nat.mod_lt _ (Nat.succ_pos _))
        hnodup).mp (hlast.trans hlast'.symm)
      have hdiv := Nat.div_add_mod (x.length + k) (x.length + 1)
      refine ⟨(x.length + k) / (x.length + 1), ?_⟩
      rw [heq] at hdiv
      omega
    obtain ⟨m, rfl⟩ := hdvd
    rw [← hlength, List.rotate_length_mul] at h
    exact ⟨Nat.dvd_mul_right _ _, (List.append_inj h hlen).1⟩
  · rintro ⟨⟨m, rfl⟩, rfl⟩
    rw [← hlength, List.rotate_length_mul]

/-- A word settles in its own order, after a rotation, if and only if each number of gaps is a
multiple of the number of elements before them. -/
theorem rotate_settle_iff (w : List (Option α)) (hnodup : (w.filterMap id).Nodup) (k : ℕ) :
    (settle w []).rotate k = w.filterMap id ↔
      ∀ s, 0 < s → s ∣ gaps s 0 w + if s = (w.filterMap id).length then k else 0 := by
  induction w using List.reverseRecOn generalizing k with
  | nil =>
    refine iff_of_true (by simp [settle]) fun s hs => ?_
    simp [gaps, hs.ne']
  | append_singleton w o ih =>
    cases o with
    | none =>
      have helems : (w ++ [none]).filterMap id = w.filterMap id := by simp
      rw [helems] at hnodup ⊢
      have hsettle : (settle (w ++ [none]) []).rotate k = (settle w []).rotate (1 + k) := by
        rw [settle_append, settle, settle, List.rotate_rotate]
      rw [hsettle, ih hnodup]
      refine forall_congr' fun s => forall_congr' fun _ => ?_
      rw [gaps_append, gaps, gaps, Nat.zero_add]
      by_cases hs : s = (w.filterMap id).length
      · simp [hs, Nat.add_assoc]
      · rw [if_neg hs, if_neg (Ne.symm hs), if_neg hs]
    | some a =>
      have helems : (w ++ [some a]).filterMap id = w.filterMap id ++ [a] := by simp
      rw [helems] at hnodup ⊢
      have hperm : List.Perm (settle w []) (w.filterMap id) := by
        simpa using settle_perm w []
      have hsettle : settle (w ++ [some a]) [] = settle w [] ++ [a] := by
        rw [settle_append, settle, settle]
      have hnodup' : (settle w [] ++ [a]).Nodup := (hperm.append_right [a]).nodup_iff.mpr hnodup
      have ih := ih (List.Nodup.of_append_left hnodup) 0
      rw [List.rotate_zero] at ih
      rw [hsettle, rotate_concat_iff hnodup' hperm.length_eq, ih, hperm.length_eq,
        List.length_append, List.length_singleton]
      have hgaps : ∀ s, gaps s 0 (w ++ [some a]) = gaps s 0 w := fun s => by
        rw [gaps_append, gaps, gaps, Nat.add_zero]
      simp only [hgaps, ite_self, Nat.add_zero]
      constructor
      · rintro ⟨hk, hall⟩ s hs
        split
        · rename_i heq
          rw [gaps_eq_zero (by omega), Nat.zero_add, heq]
          exact hk
        · exact hall s hs
      · intro hall
        have hzero : gaps ((w.filterMap id).length + 1) 0 w = 0 := gaps_eq_zero (by omega)
        refine ⟨?_, fun s hs => ?_⟩
        · have hk := hall ((w.filterMap id).length + 1) (Nat.succ_pos _)
          rwa [if_pos rfl, hzero, Nat.zero_add] at hk
        · by_cases heq : s = (w.filterMap id).length + 1
          · rw [heq, hzero]
            exact Nat.dvd_zero _
          · have hs' := hall s hs
            rwa [if_neg heq, Nat.add_zero] at hs'

/-- The elements with one key keep their order if and only if, for each `s`, the number of greater
elements that come after exactly `s` of them is a multiple of `s`. -/
theorem filter_sort_eq_iff (hnodup : (l.filter (key · = v)).Nodup) :
    (sort (greater key) l).filter (key · = v) = l.filter (key · = v) ↔
      ∀ s, 0 < s → s ∣ behind key v s 0 l := by
  have helems : (word key v l).filterMap id = l.filter (key · = v) := filterMap_word l
  have h := rotate_settle_iff (word key v l) (helems ▸ hnodup) 0
  rw [List.rotate_zero, helems, ← filter_sort] at h
  simpa only [ite_self, Nat.add_zero, gaps_word] using h

end Key

end ExchangeSort
