import Mathlib.Algebra.BigOperators.Group.List.Basic
import Mathlib.Data.List.Induction
import Mathlib.Data.List.Nodup

/-! # Maps that keep the order of insertion

A map is the list of its entries, each key once, in the order in which the keys came first. An
update changes an entry where it stands, or adds one at the end. A loop of updates leaves at a key
what the updates of that key alone make of it. -/

namespace OrderedMap

variable {α β ι : Type*} [DecidableEq α]

/-- The value at a key. -/
def get : List (α × β) → α → Option β
  | [], _ => none
  | (k', v) :: m, k => if k' = k then some v else get m k

/-- The map with `f` applied to what it holds at `k`. -/
def update (k : α) (f : Option β → β) : List (α × β) → List (α × β)
  | [] => [(k, f none)]
  | (k', v) :: m => if k' = k then (k', f (some v)) :: m else (k', v) :: update k f m

@[simp] theorem get_nil (k : α) : get ([] : List (α × β)) k = none := rfl

theorem mem_of_get {m : List (α × β)} {k : α} {v : β} (h : get m k = some v) : (k, v) ∈ m := by
  induction m with
  | nil => exact absurd h (by simp)
  | cons p m ih =>
    obtain ⟨k₀, v₀⟩ := p
    rw [get] at h
    split at h
    · rename_i hk
      rw [← Option.some.inj h, ← hk]
      exact List.mem_cons_self
    · exact List.mem_cons_of_mem _ (ih h)

theorem get_ne_none_of_mem {m : List (α × β)} {p : α × β} (h : p ∈ m) : get m p.1 ≠ none := by
  induction m with
  | nil => exact absurd h List.not_mem_nil
  | cons q m ih =>
    rw [get]
    split
    · exact Option.some_ne_none _
    · rename_i hk
      rcases List.mem_cons.mp h with rfl | h
      · exact absurd rfl hk
      · exact ih h

theorem get_update (k k' : α) (f : Option β → β) (m : List (α × β)) :
    get (update k f m) k' = if k = k' then some (f (get m k)) else get m k' := by
  induction m with
  | nil => simp [update, get]
  | cons p m ih =>
    obtain ⟨k₀, v⟩ := p
    rw [update]
    by_cases hk₀ : k₀ = k
    · subst hk₀
      rw [if_pos rfl]
      by_cases hk : k₀ = k' <;> simp [get, hk]
    · rw [if_neg hk₀]
      simp only [get, if_neg hk₀, ih]
      by_cases hk : k = k'
      · subst hk
        simp [hk₀]
      · simp [hk]

/-- What a loop of updates leaves at a key. -/
theorem get_foldl_update (key : ι → α) (f : ι → Option β → β) (l : List ι) (m : List (α × β))
    (k : α) :
    get (l.foldl (fun m x => update (key x) (f x) m) m) k =
      (l.filter fun x => key x = k).foldl (fun o x => some (f x o)) (get m k) := by
  induction l generalizing m with
  | nil => rfl
  | cons x l ih =>
    rw [List.foldl_cons, ih, get_update]
    by_cases hk : key x = k
    · rw [List.filter_cons_of_pos (by simpa using hk), List.foldl_cons, if_pos hk, hk]
    · rw [List.filter_cons_of_neg (by simpa using hk), if_neg hk]

/-- What a loop over some items leaves in a map, if no two of them have the same key. -/
theorem get_foldl_of_nodup (key : ι → α) (f : ι → Option β) {l : List ι}
    (h : (l.map key).Nodup) (m : List (α × β)) (k : α) :
    get (l.foldl (fun m x => (f x).elim m fun v => update (key x) (fun _ => v) m) m) k =
      ((l.find? (key · = k)).bind f).or (get m k) := by
  induction l generalizing m with
  | nil => exact Option.none_or.symm
  | cons x l ih =>
    rw [List.map_cons, List.nodup_cons] at h
    rw [List.foldl_cons, ih h.2]
    by_cases hx : key x = k
    · have hnone : l.find? (key · = k) = none := by
        rw [List.find?_eq_none]
        intro y hy hk
        exact h.1 (hx ▸ (of_decide_eq_true hk) ▸ List.mem_map_of_mem hy)
      rw [hnone, Option.bind_none, Option.none_or, List.find?_cons_of_pos (by simpa using hx),
        Option.bind_some]
      cases f x with
      | none => rfl
      | some v => rw [Option.elim_some, get_update, if_pos hx, Option.some_or]
    · rw [List.find?_cons_of_neg (by simpa using hx)]
      cases f x with
      | none => rfl
      | some v => rw [Option.elim_some, get_update, if_neg hx]

theorem keys_update (k : α) (f : Option β → β) (m : List (α × β)) :
    (update k f m).map Prod.fst =
      if k ∈ m.map Prod.fst then m.map Prod.fst else m.map Prod.fst ++ [k] := by
  induction m with
  | nil => rfl
  | cons p m ih =>
    obtain ⟨k₀, v⟩ := p
    rw [update]
    by_cases hk₀ : k₀ = k
    · simp [hk₀]
    · rw [if_neg hk₀, List.map_cons, ih, List.map_cons]
      by_cases hk : k ∈ m.map Prod.fst
      · simp [hk]
      · rw [if_neg hk, if_neg]
        · rfl
        · rintro hmem
          exact (List.mem_cons.mp hmem).elim (fun heq => hk₀ heq.symm) hk

theorem get_map_of_mem (v : α → β) {ks : List α} {k : α} (hk : k ∈ ks) :
    get (ks.map fun k => (k, v k)) k = some (v k) := by
  induction ks with
  | nil => exact absurd hk List.not_mem_nil
  | cons k' ks ih =>
    rw [List.map_cons, get]
    split
    · rename_i h
      rw [h]
    · rename_i h
      exact ih ((List.mem_cons.mp hk).resolve_left (Ne.symm h))

theorem get_map_of_notMem (v : α → β) {ks : List α} {k : α} (hk : k ∉ ks) :
    get (ks.map fun k => (k, v k)) k = none := by
  induction ks with
  | nil => rfl
  | cons k' ks ih =>
    rw [List.mem_cons, not_or] at hk
    rw [List.map_cons, get, if_neg (Ne.symm hk.1)]
    exact ih hk.2

theorem update_of_notMem {m : List (α × β)} {k : α} (h : k ∉ m.map Prod.fst) (f : Option β → β) :
    update k f m = m ++ [(k, f none)] := by
  induction m with
  | nil => rfl
  | cons p m ih =>
    rw [List.map_cons, List.mem_cons, not_or] at h
    rw [update, if_neg (Ne.symm h.1), ih h.2]
    rfl

/-- Updates of different keys, all new, add their entries in order. -/
theorem foldl_update_of_nodup (key : ι → α) (f : ι → Option β → β) {l : List ι}
    {m : List (α × β)} (h : (m.map Prod.fst ++ l.map key).Nodup) :
    l.foldl (fun m x => update (key x) (f x) m) m
      = m ++ l.map fun x => (key x, f x none) := by
  induction l generalizing m with
  | nil => simp
  | cons x l ih =>
    have hx : key x ∉ m.map Prod.fst := by
      intro hmem
      exact (List.nodup_append.mp h).2.2 _ hmem _ List.mem_cons_self rfl
    rw [List.foldl_cons, update_of_notMem hx, ih, List.map_cons, List.append_assoc]
    · rfl
    · rw [List.map_append, List.append_assoc]
      exact h

theorem nodup_keys_update {m : List (α × β)} (h : (m.map Prod.fst).Nodup) (k : α)
    (f : Option β → β) : ((update k f m).map Prod.fst).Nodup := by
  rw [keys_update]
  split
  · exact h
  · rename_i hk
    exact List.nodup_append.mpr ⟨h, List.nodup_singleton _, fun a ha b hb heq => by
      rw [List.mem_singleton.mp hb] at heq
      exact hk (heq ▸ ha)⟩

/-- A loop of updates from nothing leaves each key once. -/
theorem nodup_keys_foldl_update (key : ι → α) (f : ι → Option β → β) (l : List ι)
    {m : List (α × β)} (h : (m.map Prod.fst).Nodup) :
    ((l.foldl (fun m x => update (key x) (f x) m) m).map Prod.fst).Nodup := by
  induction l generalizing m with
  | nil => exact h
  | cons x l ih => exact ih (nodup_keys_update h _ _)

/-- The entries of a map are what it holds at its keys. -/
theorem mem_iff_get {m : List (α × β)} (h : (m.map Prod.fst).Nodup) {k : α} {v : β} :
    (k, v) ∈ m ↔ get m k = some v := by
  induction m with
  | nil => simp
  | cons p m ih =>
    obtain ⟨k₀, v₀⟩ := p
    rw [List.map_cons, List.nodup_cons] at h
    rw [List.mem_cons, ih h.2, get]
    by_cases hk : k₀ = k
    · subst hk
      have hnone : get m k₀ ≠ some v := by
        intro hget
        have hmem : (k₀, v) ∈ m := (ih h.2).mpr hget
        exact h.1 (List.mem_map.mpr ⟨(k₀, v), hmem, rfl⟩)
      simp [hnone, eq_comm]
    · rw [if_neg hk]
      simp [Ne.symm hk]

/-- Updates carry over to a map with other values for the same keys. -/
theorem update_map {γ : Type*} (g : β → γ) (k : α) {f : Option β → β} {f' : Option γ → γ}
    (hf : ∀ o : Option β, f' (o.map g) = g (f o)) (m : List (α × β)) :
    update k f' (m.map fun p => (p.1, g p.2)) = (update k f m).map fun p => (p.1, g p.2) := by
  induction m with
  | nil => exact congrArg (fun v => [(k, v)]) (hf none)
  | cons p m ih =>
    obtain ⟨k₀, v⟩ := p
    rw [List.map_cons, update, update]
    split
    · rw [List.map_cons]
      exact congrArg (fun v => (k₀, v) :: _) (hf (some v))
    · rw [List.map_cons, ih]

theorem foldl_update_map {γ κ : Type*} (g : β → γ) (c : ι → κ) {key : ι → α} {key' : κ → α}
    {f : ι → Option β → β} {f' : κ → Option γ → γ} (hkey : ∀ x, key' (c x) = key x)
    (hf : ∀ x o, f' (c x) (o.map g) = g (f x o)) (l : List ι) (m : List (α × β)) :
    (l.map c).foldl (fun m x => update (key' x) (f' x) m) (m.map fun p => (p.1, g p.2)) =
      (l.foldl (fun m x => update (key x) (f x) m) m).map fun p => (p.1, g p.2) := by
  induction l generalizing m with
  | nil => rfl
  | cons x l ih =>
    rw [List.map_cons, List.foldl_cons, List.foldl_cons, hkey, update_map g _ (hf x), ih]

/-! ## Groups -/

section Groups

variable {γ : Type*}

/-- What a function makes of the entries after an update. -/
theorem filterMap_update (φ : α × β → Option γ) {m : List (α × β)} (h : (m.map Prod.fst).Nodup)
    (k : α) (f : Option β → β) :
    (update k f m).filterMap φ =
      if k ∈ m.map Prod.fst then
        m.filterMap fun p => if p.1 = k then φ (k, f (some p.2)) else φ p
      else m.filterMap φ ++ (φ (k, f none)).toList := by
  induction m with
  | nil =>
    simp only [update, List.map_nil, List.not_mem_nil, if_false, List.filterMap_nil,
      List.nil_append]
    cases hφ : φ (k, f none) <;> simp [hφ]
  | cons p m ih =>
    obtain ⟨k₀, v⟩ := p
    rw [List.map_cons, List.nodup_cons] at h
    rw [update]
    by_cases hk : k₀ = k
    · subst hk
      have hrest : m.filterMap (fun p => if p.1 = k₀ then φ (k₀, f (some p.2)) else φ p) =
          m.filterMap φ :=
        List.filterMap_congr fun p hp => if_neg fun heq =>
          h.1 (List.mem_map.mpr ⟨p, hp, heq⟩)
      rw [if_pos rfl, List.map_cons, if_pos List.mem_cons_self, List.filterMap_cons,
        List.filterMap_cons, hrest, if_pos rfl]
    · have hmem : k ∈ (k₀ :: m.map Prod.fst) ↔ k ∈ m.map Prod.fst := by
        simp [List.mem_cons, Ne.symm hk]
      rw [if_neg hk, List.map_cons, if_congr hmem rfl rfl, List.filterMap_cons, ih h.2]
      split <;> split <;> simp [*]

/-- The elements by their keys, each group in their order. -/
def groupBy (key : ι → α) (l : List ι) : List (α × List ι) :=
  l.foldl (fun m x => update (key x) (fun o => o.getD [] ++ [x]) m) []

theorem nodup_groupBy (key : ι → α) (l : List ι) : ((groupBy key l).map Prod.fst).Nodup :=
  nodup_keys_foldl_update key _ l List.nodup_nil

theorem get_groupBy (key : ι → α) (l : List ι) (k : α) :
    get (groupBy key l) k =
      if l.filter (fun x => key x = k) = [] then none else some (l.filter fun x => key x = k) := by
  have hfold (l : List ι) (o : Option (List ι)) :
      l.foldl (fun o x => some (o.getD [] ++ [x])) o =
        if l = [] then o else some (o.getD [] ++ l) := by
    induction l generalizing o with
    | nil => rfl
    | cons x l ih =>
      rw [List.foldl_cons, ih, if_neg (List.cons_ne_nil x l)]
      split
      · rename_i hnil
        rw [hnil]
      · simp
  rw [groupBy, get_foldl_update, get_nil, hfold]
  rfl

theorem mem_keys_groupBy {key : ι → α} {l : List ι} {k : α} :
    k ∈ (groupBy key l).map Prod.fst ↔ l.filter (fun x => key x = k) ≠ [] := by
  constructor
  · intro hk hnil
    obtain ⟨p, hp, rfl⟩ := List.mem_map.mp hk
    apply get_ne_none_of_mem hp
    rw [get_groupBy, if_pos hnil]
  · intro hne
    have hget : get (groupBy key l) k = some (l.filter fun x => key x = k) := by
      rw [get_groupBy, if_neg hne]
    exact List.mem_map.mpr ⟨_, mem_of_get hget, rfl⟩

theorem groupBy_ne_nil {key : ι → α} {l : List ι} {p : α × List ι} (hp : p ∈ groupBy key l) :
    p.2 ≠ [] := by
  have hget : get (groupBy key l) p.1 = some p.2 := (mem_iff_get (nodup_groupBy key l)).mp hp
  rw [get_groupBy] at hget
  split at hget
  · exact absurd hget (by simp)
  · rename_i hne
    exact Option.some.inj hget ▸ hne

/-- What a function makes of the groups of one element each, where it drops the others: in their
order, they are the elements that are alone with their key. -/
theorem filterMap_groupBy [DecidableEq ι] (key : ι → α) {φ : α × List ι → Option γ}
    (hφ : ∀ k xs, xs.length ≠ 1 → φ (k, xs) = none) (l : List ι) :
    (groupBy key l).filterMap φ =
      l.filterMap fun x =>
        if l.filter (fun y => key y = key x) = [x] then φ (key x, [x]) else none := by
  induction l using List.reverseRecOn generalizing φ with
  | nil => rfl
  | append_singleton l y ih =>
    have hsnoc : groupBy key (l ++ [y]) =
        update (key y) (fun o => o.getD [] ++ [y]) (groupBy key l) := by
      rw [groupBy, List.foldl_append]
      rfl
    have hother {x : ι} (hx : key x ≠ key y) :
        (l ++ [y]).filter (fun z => key z = key x) = l.filter fun z => key z = key x := by
      simp [List.filter_append, Ne.symm hx]
    have hsame : (l ++ [y]).filter (fun z => key z = key y) =
        l.filter (fun z => key z = key y) ++ [y] := by
      simp [List.filter_append]
    rw [hsnoc, filterMap_update _ (nodup_groupBy key l), List.filterMap_append]
    split
    · rename_i hold
      have hmany {xs : List ι} (hxs : xs ≠ []) : (xs ++ [y]).length ≠ 1 := by
        have hpos := List.length_pos_of_ne_nil hxs
        rw [List.length_append, List.length_singleton]
        omega
      have halone (x : ι) : l.filter (fun z => key z = key y) ++ [y] ≠ [x] := fun heq =>
        hmany (mem_keys_groupBy.mp hold) (congrArg List.length heq)
      -- whoever had the new one's key is not alone any more
      have hgroups : (groupBy key l).filterMap (fun p =>
          if p.1 = key y then φ (key y, (some p.2).getD [] ++ [y]) else φ p) =
            (groupBy key l).filterMap fun p => if p.1 = key y then none else φ p :=
        List.filterMap_congr fun p hp => by
          rw [Option.getD_some, hφ _ _ (hmany (groupBy_ne_nil hp))]
      have hlast : [y].filterMap (fun x => if (l ++ [y]).filter (fun z => key z = key x) = [x]
          then φ (key x, [x]) else none) = [] := by
        rw [List.filterMap_cons, hsame, if_neg (halone y)]
        rfl
      rw [hgroups, ih fun k xs hxs => by rw [hφ k xs hxs, ite_self], hlast, List.append_nil]
      refine List.filterMap_congr fun x _ => ?_
      by_cases hx : key x = key y
      · rw [hx, hsame, if_neg (halone x), if_pos rfl, ite_self]
      · rw [hother hx, if_neg hx]
    · rename_i hnew
      have hnil := not_not.mp (mt mem_keys_groupBy.mpr hnew)
      have hlast : [y].filterMap (fun x => if (l ++ [y]).filter (fun z => key z = key x) = [x]
          then φ (key x, [x]) else none) = (φ (key y, [y])).toList := by
        rw [List.filterMap_cons, hsame, hnil, List.nil_append, if_pos rfl]
        cases φ (key y, [y]) <;> rfl
      rw [ih hφ, hlast]
      congr 1
      refine List.filterMap_congr fun x hx => ?_
      have hkey : key x ≠ key y := by
        intro heq
        have hmem : x ∈ l.filter fun z => key z = key y :=
          List.mem_filter.mpr ⟨hx, by simpa using heq⟩
        rw [hnil] at hmem
        exact List.not_mem_nil hmem
      rw [hother hkey]

end Groups

/-! ## Sums -/

/-- The values that a map has at some keys, each of them once, are those of its entries. -/
theorem sum_get_eq {β : Type*} [AddCommMonoid β] {m : List (α × β)} (h : (m.map Prod.fst).Nodup)
    {ks : List α} (hks : ks.Nodup) :
    (ks.map fun k => (get m k).getD 0).sum
      = ((m.filter fun p => p.1 ∈ ks).map Prod.snd).sum := by
  induction m with
  | nil =>
    apply List.sum_eq_zero
    intro x hx
    obtain ⟨k, -, rfl⟩ := List.mem_map.mp hx
    rfl
  | cons p m ih =>
    obtain ⟨k₀, v⟩ := p
    rw [List.map_cons, List.nodup_cons] at h
    have hnone : get m k₀ = none := by
      by_contra hsome
      obtain ⟨v', hv'⟩ := Option.ne_none_iff_exists'.mp hsome
      exact h.1 (List.mem_map.mpr ⟨(k₀, v'), mem_of_get hv', rfl⟩)
    have hsplit : ∀ k, (get ((k₀, v) :: m) k).getD 0
        = (if k = k₀ then v else 0) + (get m k).getD 0 := by
      intro k
      rw [get]
      by_cases hk : k₀ = k
      · subst hk
        simp [hnone]
      · simp [hk, Ne.symm hk]
    have hcount : (ks.map fun k => if k = k₀ then v else 0).sum = ks.count k₀ • v := by
      rw [List.sum_map_eq_nsmul_single k₀ _ fun k hk _ => if_neg hk, if_pos rfl]
    simp only [hsplit, List.sum_map_add, ih h.2, hcount]
    rw [List.filter_cons]
    by_cases hk : k₀ ∈ ks
    · rw [if_pos (by simpa using hk), List.map_cons, List.sum_cons,
        List.count_eq_one_of_mem hks hk, one_nsmul]
    · rw [if_neg (by simpa using hk), List.count_eq_zero_of_not_mem hk, zero_nsmul, zero_add]

end OrderedMap
