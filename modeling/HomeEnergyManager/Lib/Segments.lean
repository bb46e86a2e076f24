import Mathlib.Data.List.Infix

/-! # Segments with hysteresis

In a sequence a segment begins with the first element at which it may begin, goes on over gaps that
are not too long, and ends with the last element that keeps it going. A scanner finds the segments
in one pass: a gap is held back until it is known whether the segment goes on. -/

namespace Segments

variable {α : Type*} (begins keeps : α → Prop) (gap : ℕ)

/-- It begins and ends as it should, and no gap in it is too long. -/
structure IsSegment (seg : List α) : Prop where
  head : ∃ x ∈ seg.head?, begins x
  last : ∃ x ∈ seg.getLast?, keeps x
  gaps : ∀ b, b <:+: seg → (∀ x ∈ b, ¬ keeps x) → b.length ≤ gap

/-- The segments of a sequence, each followed by a gap that is too long, or by what is left of the
sequence if all of that is a gap. -/
inductive Segmented : List α → List (List α) → Prop
  | idle {l : List α} (h : ∀ x ∈ l, ¬ begins x) : Segmented l []
  | segment {pre seg post : List α} {segs : List (List α)} (hpre : ∀ x ∈ pre, ¬ begins x)
    (hseg : IsSegment begins keeps gap seg) (hpost : ∀ x ∈ post.take (gap + 1), ¬ keeps x)
    (hsegs : Segmented post segs) : Segmented (pre ++ seg ++ post) (seg :: segs)

variable {begins keeps gap}

theorem IsSegment.exists_cons {seg : List α} (h : IsSegment begins keeps gap seg) :
    ∃ x l, seg = x :: l ∧ begins x := by
  obtain ⟨x, hx, hbegins⟩ := h.head
  cases seg with
  | nil => exact absurd hx (by simp)
  | cons y l =>
    rw [List.head?_cons, Option.mem_def, Option.some_inj] at hx
    exact ⟨y, l, rfl, hx ▸ hbegins⟩

/-- Segments have places of their own in the sequence. -/
theorem Segmented.flatten_sublist {l : List α} {segs : List (List α)}
    (h : Segmented begins keeps gap l segs) : segs.flatten.Sublist l := by
  induction h with
  | idle _ => exact List.nil_sublist _
  | segment _ _ _ _ ih =>
    rw [List.flatten_cons]
    exact (List.sublist_append_right _ _).append ih

/-- What cannot begin a segment may stand before. -/
theorem Segmented.append_left {l pre : List α} {segs : List (List α)}
    (h : Segmented begins keeps gap l segs) (hpre : ∀ x ∈ pre, ¬ begins x) :
    Segmented begins keeps gap (pre ++ l) segs := by
  cases h with
  | idle h => exact .idle fun x hx => (List.mem_append.mp hx).elim (hpre x) (h x)
  | segment hpre' hseg hpost hsegs =>
    rw [← List.append_assoc, ← List.append_assoc]
    exact .segment (fun x hx => (List.mem_append.mp hx).elim (hpre x) (hpre' x)) hseg hpost hsegs

/-! ## There is one segmentation -/

/-- The first element that may begin a segment is found in one place. -/
theorem prefix_unique {pre pre' l l' : List α} {x x' : α} (hpre : ∀ y ∈ pre, ¬ begins y)
    (hpre' : ∀ y ∈ pre', ¬ begins y) (hx : begins x) (hx' : begins x')
    (h : pre ++ x :: l = pre' ++ x' :: l') : pre = pre' := by
  rcases List.append_eq_append_iff.mp h with ⟨w, hw, hl⟩ | ⟨w, hw, hl⟩
  · cases w with
    | nil => rw [hw, List.append_nil]
    | cons y w =>
      rw [List.cons_append, List.cons.injEq] at hl
      exact absurd hx (hl.1 ▸ hpre' y (hw ▸ List.mem_append_right _ List.mem_cons_self))
  · cases w with
    | nil => rw [hw, List.append_nil]
    | cons y w =>
      rw [List.cons_append, List.cons.injEq] at hl
      exact absurd hx' (hl.1 ▸ hpre y (hw ▸ List.mem_append_right _ List.mem_cons_self))

/-- A segment does not go on past the gap that ends it. -/
theorem IsSegment.eq_nil_of_append {seg w post : List α}
    (h : IsSegment begins keeps gap (seg ++ w))
    (hpost : ∀ x ∈ (w ++ post).take (gap + 1), ¬ keeps x) : w = [] := by
  by_contra hw
  have htake : ∀ x ∈ w.take (gap + 1), ¬ keeps x := fun x hx =>
    hpost x (List.take_append ▸ List.mem_append_left _ hx)
  have hinfix : w.take (gap + 1) <:+: seg ++ w :=
    (List.take_prefix _ _).isInfix.trans (List.suffix_append _ _).isInfix
  have hlength := h.gaps _ hinfix htake
  rw [List.length_take] at hlength
  rw [List.take_of_length_le (by omega)] at htake
  obtain ⟨x, hx, hkeeps⟩ := h.last
  rw [List.getLast?_append_of_ne_nil _ hw] at hx
  exact htake x (List.mem_of_getLast? hx) hkeeps

theorem IsSegment.unique {seg seg' post post' : List α} (h : IsSegment begins keeps gap seg)
    (h' : IsSegment begins keeps gap seg') (hpost : ∀ x ∈ post.take (gap + 1), ¬ keeps x)
    (hpost' : ∀ x ∈ post'.take (gap + 1), ¬ keeps x) (heq : seg ++ post = seg' ++ post') :
    seg = seg' := by
  rcases List.append_eq_append_iff.mp heq with ⟨w, rfl, rfl⟩ | ⟨w, rfl, rfl⟩
  · rw [h'.eq_nil_of_append hpost, List.append_nil]
  · rw [h.eq_nil_of_append hpost', List.append_nil]

theorem Segmented.unique {l : List α} {segs segs' : List (List α)}
    (h : Segmented begins keeps gap l segs) (h' : Segmented begins keeps gap l segs') :
    segs = segs' := by
  induction h generalizing segs' with
  | idle hidle =>
    cases h' with
    | idle _ => rfl
    | segment _ hseg _ _ =>
      obtain ⟨x, l, rfl, hx⟩ := hseg.exists_cons
      exact absurd hx (hidle x (by simp))
  | segment hpre hseg hpost _ ih =>
    generalize hl : (_ ++ _ ++ _ : List α) = l at h'
    cases h' with
    | idle hidle =>
      obtain ⟨x, l, rfl, hx⟩ := hseg.exists_cons
      exact absurd hx (hidle x (by simp [← hl]))
    | segment hpre' hseg' hpost' hsegs' =>
      obtain ⟨x, t, rfl, hx⟩ := hseg.exists_cons
      obtain ⟨x', t', rfl, hx'⟩ := hseg'.exists_cons
      rw [List.append_assoc, List.append_assoc, List.cons_append, List.cons_append] at hl
      obtain rfl := prefix_unique hpre hpre' hx hx' hl
      rw [List.append_cancel_left_eq, ← List.cons_append, ← List.cons_append] at hl
      have hsame := hseg.unique hseg' hpost hpost' hl
      rw [hsame, List.append_cancel_left_eq] at hl
      rw [hsame, ih (hl ▸ hsegs')]

/-! ## How a segment grows -/

/-- A gap does not reach an element that keeps the segment going. -/
theorem infix_of_concat {l b : List α} {x : α} (hb : b <:+: l ++ [x]) (hx : keeps x)
    (hkeeps : ∀ y ∈ b, ¬ keeps y) : b <:+: l := by
  rcases List.infix_concat_iff.mp hb with hb | hb
  · rcases List.suffix_concat_iff.mp hb with rfl | ⟨t, rfl, -⟩
    · exact List.nil_infix
    · exact absurd hx (hkeeps x (List.mem_append_right _ List.mem_cons_self))
  · exact hb

/-- A gap that is not too long is part of the segment if it goes on. -/
theorem IsSegment.resume {seg pend : List α} {x : α} (h : IsSegment begins keeps gap seg)
    (hlength : pend.length ≤ gap) (hx : keeps x) :
    IsSegment begins keeps gap (seg ++ pend ++ [x]) where
  head := by
    obtain ⟨y, l, rfl, hy⟩ := h.exists_cons
    exact ⟨y, rfl, hy⟩
  last := ⟨x, by simp, hx⟩
  gaps b hb hkeeps := by
    rcases List.infix_append_iff.mp (infix_of_concat hb hx hkeeps) with
      hb | hb | ⟨b₁, b₂, rfl, hb₁, hb₂⟩
    · exact h.gaps b hb hkeeps
    · exact hb.length_le.trans hlength
    · -- the part in the segment would end with its last element
      rcases eq_or_ne b₁ [] with rfl | hne
      · exact hb₂.length_le.trans hlength
      · obtain ⟨y, hy, hlast⟩ := h.last
        obtain ⟨t, rfl⟩ := hb₁
        rw [List.getLast?_append_of_ne_nil _ hne] at hy
        exact absurd hlast (hkeeps y (List.mem_append_left _ (List.mem_of_getLast? hy)))

theorem IsSegment.singleton {x : α} (hbegins : begins x) (hkeeps : keeps x) :
    IsSegment begins keeps gap [x] where
  head := ⟨x, rfl, hbegins⟩
  last := ⟨x, rfl, hkeeps⟩
  gaps b hb hlow := by
    have hnil : b <:+: [] := infix_of_concat (show b <:+: [] ++ [x] from hb) hkeeps hlow
    exact hnil.length_le.trans (Nat.zero_le _)

/-! ## The scanner -/

variable (begins keeps gap) [DecidablePred begins] [DecidablePred keeps]

/-- What the scanner has: nothing, or a segment so far and the gap after it. -/
inductive State (α : Type*) where
  | idle
  | running (seg pend : List α)

/-- The segments that the scanner finds from a state. -/
def scan : State α → List α → List (List α)
  | .idle, [] => []
  | .idle, x :: l => if begins x then scan (.running [x] []) l else scan .idle l
  | .running seg _, [] => [seg]
  | .running seg pend, x :: l =>
    if keeps x then scan (.running (seg ++ pend ++ [x]) []) l
    else if gap < pend.length + 1 then seg :: scan .idle l
    else scan (.running seg (pend ++ [x])) l

variable {begins keeps gap}

/-- What the scanner finds from a state: the segment that it is in, ended by a gap, and the segments
of the rest. -/
theorem scan_spec (hbegins : ∀ x, begins x → keeps x) (l : List α) :
    Segmented begins keeps gap l (scan begins keeps gap .idle l) ∧
      ∀ seg pend, IsSegment begins keeps gap seg → (∀ y ∈ pend, ¬ keeps y) → pend.length ≤ gap →
        ∃ seg' post segs, scan begins keeps gap (.running seg pend) l = seg' :: segs ∧
          seg ++ pend ++ l = seg' ++ post ∧ IsSegment begins keeps gap seg' ∧
          (∀ y ∈ post.take (gap + 1), ¬ keeps y) ∧ Segmented begins keeps gap post segs := by
  induction l with
  | nil =>
    refine ⟨.idle (by simp), fun seg pend hseg hpend hlength => ?_⟩
    refine ⟨seg, pend, [], rfl, List.append_nil _, hseg, fun y hy => ?_, .idle fun y hy => ?_⟩
    · exact hpend y (List.mem_of_mem_take hy)
    · exact fun hb => hpend y hy (hbegins y hb)
  | cons x l ih =>
    refine ⟨?_, fun seg pend hseg hpend hlength => ?_⟩
    · rw [scan]
      by_cases hx : begins x
      · obtain ⟨seg', post, segs, hscan, heq, hseg', hpost, hsegs⟩ :=
          ih.2 [x] [] (.singleton hx (hbegins x hx)) (by simp) (Nat.zero_le _)
        rw [if_pos hx, hscan]
        rw [List.append_nil, List.singleton_append] at heq
        rw [heq, ← List.nil_append seg']
        exact .segment (by simp) hseg' hpost hsegs
      · rw [if_neg hx, ← List.singleton_append]
        exact ih.1.append_left (by simpa using hx)
    · rw [scan]
      by_cases hx : keeps x
      · obtain ⟨seg', post, segs, hscan, heq, hrest⟩ :=
          ih.2 (seg ++ pend ++ [x]) [] (hseg.resume hlength hx) (by simp) (Nat.zero_le _)
        rw [if_pos hx]
        refine ⟨seg', post, segs, hscan, ?_, hrest⟩
        rw [← heq, List.append_nil, List.append_assoc _ [x] l, List.singleton_append]
      · have hlow : ∀ y ∈ pend ++ [x], ¬ keeps y := by
          intro y hy
          rcases List.mem_append.mp hy with hy | hy
          · exact hpend y hy
          · exact List.mem_singleton.mp hy ▸ hx
        rw [if_neg hx]
        by_cases hlong : gap < pend.length + 1
        · -- the gap is too long, and nothing in it begins a segment
          rw [if_pos hlong]
          refine ⟨seg, pend ++ [x] ++ l, _, rfl, by simp, hseg, fun y hy => ?_,
            ih.1.append_left fun y hy hb => hlow y hy (hbegins y hb)⟩
          rw [List.take_append_of_le_length (by simp; omega)] at hy
          exact hlow y (List.mem_of_mem_take hy)
        · obtain ⟨seg', post, segs, hscan, heq, hrest⟩ :=
            ih.2 seg (pend ++ [x]) hseg hlow (by simp; omega)
          rw [if_neg hlong]
          exact ⟨seg', post, segs, hscan, by simpa using heq, hrest⟩

/-- The scanner finds the segments, and there are no others. -/
theorem segmented_iff (hbegins : ∀ x, begins x → keeps x) {l : List α} {segs : List (List α)} :
    Segmented begins keeps gap l segs ↔ segs = scan begins keeps gap .idle l :=
  ⟨fun h => h.unique (scan_spec hbegins l).1, fun h => h ▸ (scan_spec hbegins l).1⟩

end Segments
