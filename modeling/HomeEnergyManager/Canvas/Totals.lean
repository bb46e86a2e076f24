import HomeEnergyManager.Canvas.Flows

/-! # The totals of the boards

`totalFor` always returns, whatever the wiring. Without a wiring loop it returns the board's total:
the sum over its circuits, where a circuit that feeds another board counts with that board's total.
So the feeds and the remainders are functions of the edges alone.
-/

namespace HomeEnergyManager.Canvas

open OrderedMap

/-! ## It returns -/

section Returns

variable {edges : List Edge} {subCuIds : List String}

theorem foldlM_isSome {α β : Type*} {f : β → α → Option β} {l : List α}
    (h : ∀ a ∈ l, ∀ b, (f b a).isSome) (b : β) : (l.foldlM f b).isSome := by
  induction l generalizing b with
  | nil => rfl
  | cons a l ih =>
    rw [List.forall_mem_cons] at h
    obtain ⟨b', hb'⟩ := Option.isSome_iff_exists.mp (h.1 b)
    rw [List.foldlM_cons, hb']
    exact ih h.2 b'

/-- A board that is not visited yet leaves fewer to visit. -/
theorem length_filter_lt {visiting : List String} {b : String} (hb : b ∈ subCuIds)
    (hnew : b ∉ visiting) :
    (subCuIds.filter (· ∉ b :: visiting)).length < (subCuIds.filter (· ∉ visiting)).length := by
  have hsub : (subCuIds.filter (· ∉ b :: visiting)) =
      (subCuIds.filter (· ∉ visiting)).filter (· ≠ b) := by
    rw [List.filter_filter]
    refine List.filter_congr fun c _ => ?_
    simp [List.mem_cons]
  rw [hsub]
  apply List.length_filter_lt_length_iff_exists.mpr
  exact ⟨b, List.mem_filter.mpr ⟨hb, by simpa using hnew⟩, by simp⟩

/-- With more fuel than there are boards left to visit, `totalFor` returns. -/
theorem totalFor_isSome {fuel : ℕ} {visiting : List String} {b : String} (hb : b ∈ subCuIds)
    (hfuel : (subCuIds.filter (· ∉ visiting)).length < fuel) (totals : Totals) :
    (totalFor edges subCuIds fuel visiting totals b).isSome := by
  induction fuel generalizing visiting b totals with
  | zero => exact absurd hfuel (Nat.not_lt_zero _)
  | succ fuel ih =>
    rw [totalFor]
    split
    · rfl
    · split
      · rfl
      · rename_i hnew
        rw [Option.isSome_map]
        refine foldlM_isSome (fun e _ acc => ?_) _
        unfold addCircuit
        split
        · rfl
        · split
          · rename_i htarget
            rw [Option.isSome_map]
            have hlt := length_filter_lt hb hnew
            exact ih htarget (by omega) acc.2
          · rfl

theorem totalFor_fuelFor_isSome {b : String} (hb : b ∈ subCuIds) (totals : Totals) :
    (totalFor edges subCuIds (fuelFor subCuIds) [] totals b).isSome := by
  apply totalFor_isSome hb
  exact Nat.lt_succ_of_le (List.length_filter_le _ _)

theorem mapM_isSome {α β : Type*} {f : α → Option β} {l : List α} (h : ∀ a ∈ l, (f a).isSome) :
    (l.mapM f).isSome := by
  induction l with
  | nil => rfl
  | cons a l ih =>
    rw [List.forall_mem_cons] at h
    obtain ⟨b, hb⟩ := Option.isSome_iff_exists.mp h.1
    obtain ⟨bs, hbs⟩ := Option.isSome_iff_exists.mp (ih h.2)
    rw [List.mapM_cons, hb, hbs]
    rfl

theorem foldlM_addFeed_isSome (edges : List Edge) (subCuIds : List String) :
    (edges.foldlM (addFeed edges subCuIds) ([], [])).isSome := by
  refine foldlM_isSome (fun e _ acc => ?_) _
  unfold addFeed
  split
  · rename_i htarget
    rw [Option.isSome_map]
    exact totalFor_fuelFor_isSome htarget _
  · rfl

/-- The feeds are computed on every edge list, with wiring loops or without. -/
theorem withSubCuFeeds_isSome (edges : List Edge) (subCuIds : List String) :
    (withSubCuFeeds edges subCuIds).isSome := by
  unfold withSubCuFeeds
  split
  · rfl
  · obtain ⟨r, hr⟩ := Option.isSome_iff_exists.mp (foldlM_addFeed_isSome edges subCuIds)
    rw [hr, Option.bind_some]
    refine mapM_isSome fun e _ => ?_
    split
    · rename_i htarget
      rw [Option.isSome_map]
      exact totalFor_fuelFor_isSome htarget _
    · rfl

end Returns

/-! ## The total of a board -/

/-- A board feeds another one. -/
def Feeds (edges : List Edge) (subCuIds : List String) (b c : String) : Prop :=
  ∃ e ∈ edges, e.source = b ∧ e.target = c ∧ c ∈ subCuIds

/-- There is no wiring loop. -/
def NoLoop (edges : List Edge) (subCuIds : List String) : Prop :=
  Acyclic.NoCycle (Feeds edges subCuIds)

/-- What a circuit counts for, given the totals of the boards. -/
def Edge.counts (subCuIds : List String) (total : String → Flow) (e : Edge) : Flow :=
  if e.target ∈ subCuIds then total e.target else e.flow

/-- The sum of the circuits of a board. -/
def sumOfCircuits (edges : List Edge) (subCuIds : List String) (total : String → Flow)
    (b : String) : Flow :=
  (edges.filter (·.source = b)).foldl (fun t e => t.add (e.counts subCuIds total)) Flow.zero

/-- The total of a board, down to a depth of nested boards. -/
def totalTo (edges : List Edge) (subCuIds : List String) : ℕ → String → Flow
  | 0 => fun _ => Flow.zero
  | depth + 1 => sumOfCircuits edges subCuIds (totalTo edges subCuIds depth)

/-- The total of a board. -/
def totalOf (edges : List Edge) (subCuIds : List String) : String → Flow :=
  totalTo edges subCuIds (fuelFor subCuIds)

section Totals

variable {edges : List Edge} {subCuIds : List String}

/-- A number for each node that falls along the feeds rules wiring loops out. -/
theorem noLoop_of_rank (rank : String → ℕ)
    (h : ∀ e ∈ edges, e.target ∈ subCuIds → rank e.target < rank e.source) :
    NoLoop edges subCuIds := by
  refine Acyclic.noCycle_of_rank rank fun b c hbc => ?_
  obtain ⟨e, he, rfl, rfl, htarget⟩ := hbc
  exact h e he htarget

theorem sumOfCircuits_congr {t t' : String → Flow} {b : String}
    (h : ∀ c, Feeds edges subCuIds b c → t c = t' c) :
    sumOfCircuits edges subCuIds t b = sumOfCircuits edges subCuIds t' b := by
  unfold sumOfCircuits
  apply List.foldl_ext
  intro acc e he
  have hmem := List.mem_filter.mp he
  congr 1
  unfold Edge.counts
  split
  · rename_i htarget
    exact h e.target ⟨e, hmem.1, by simpa using hmem.2, rfl, htarget⟩
  · rfl

/-- Without a wiring loop a board's total is the sum of its circuits, nested boards with theirs. -/
theorem totalOf_eq (h : NoLoop edges subCuIds) (b : String) :
    totalOf edges subCuIds b = sumOfCircuits edges subCuIds (totalOf edges subCuIds) b := by
  have hids : ∀ a b, Feeds edges subCuIds a b → b ∈ subCuIds := fun a b hab => by
    obtain ⟨-, -, -, -, hb⟩ := hab
    exact hb
  apply sumOfCircuits_congr
  intro c hc
  have hlt := Acyclic.rank_lt h hids hc
  have hle := Acyclic.rank_le (Feeds edges subCuIds) subCuIds b
  refine Acyclic.eq_of_rank_lt h hids (fun n m a ha => sumOfCircuits_congr ha) ?_ ?_
  · omega
  · unfold fuelFor
    omega

/-- `totals` has no wrong total. -/
def Right (edges : List Edge) (subCuIds : List String) (totals : Totals) : Prop :=
  ∀ b t, get totals b = some t → t = totalOf edges subCuIds b

theorem right_nil : Right edges subCuIds [] := fun _ _ ht => absurd ht (by simp)

theorem Right.update {totals : Totals} (h : Right edges subCuIds totals) (b : String) :
    Right edges subCuIds (update b (fun _ => totalOf edges subCuIds b) totals) := by
  intro c t ht
  rw [get_update] at ht
  split at ht
  · rename_i hc
    rw [← Option.some.inj ht, hc]
  · exact h c t ht

/-- The loop over the circuits adds them up, if the totals of the nested boards are right. -/
theorem foldlM_addCircuit {l : List Edge} {b : String}
    {rec : Totals → String → Option (Flow × Totals)}
    (hrec : ∀ totals e r, e ∈ l → e.source = b → e.target ∈ subCuIds →
      Right edges subCuIds totals → rec totals e.target = some r →
        r.1 = totalOf edges subCuIds e.target ∧ Right edges subCuIds r.2)
    {acc r : Flow × Totals} (hacc : Right edges subCuIds acc.2)
    (h : l.foldlM (addCircuit rec subCuIds b) acc = some r) :
    r.1 = (l.filter (·.source = b)).foldl
        (fun t e => t.add (e.counts subCuIds (totalOf edges subCuIds))) acc.1 ∧
      Right edges subCuIds r.2 := by
  induction l generalizing acc with
  | nil =>
    obtain rfl : acc = r := Option.some.inj h
    exact ⟨rfl, hacc⟩
  | cons e l ih =>
    rw [List.foldlM_cons] at h
    obtain ⟨acc', hacc', h⟩ := Option.bind_eq_some_iff.mp h
    have hrest : ∀ totals e' r, e' ∈ l → e'.source = b → e'.target ∈ subCuIds →
        Right edges subCuIds totals → rec totals e'.target = some r →
          r.1 = totalOf edges subCuIds e'.target ∧ Right edges subCuIds r.2 :=
      fun totals e' r he' => hrec totals e' r (List.mem_cons_of_mem e he')
    unfold addCircuit at hacc'
    by_cases hsource : e.source = b
    · rw [if_neg (not_not.mpr hsource)] at hacc'
      rw [List.filter_cons_of_pos (by simpa using hsource), List.foldl_cons, Edge.counts]
      by_cases htarget : e.target ∈ subCuIds
      · rw [if_pos htarget] at hacc' ⊢
        obtain ⟨r', hr', rfl⟩ := Option.map_eq_some_iff.mp hacc'
        obtain ⟨htotal, hright⟩ := hrec acc.2 e r' List.mem_cons_self hsource htarget hacc hr'
        have hnext : Right edges subCuIds (acc.1.add r'.1, r'.2).2 := hright
        rw [← htotal]
        exact ih hrest hnext h
      · rw [if_neg htarget] at hacc' ⊢
        obtain rfl := Option.some.inj hacc'
        have hnext : Right edges subCuIds (acc.1.add e.flow, acc.2).2 := hacc
        exact ih hrest hnext h
    · rw [if_pos hsource] at hacc'
      obtain rfl := Option.some.inj hacc'
      rw [List.filter_cons_of_neg (by simpa using hsource)]
      exact ih hrest hacc h

/-- `totalFor` returns the total of the board, whatever it has noted, if what it is visiting leads
to the board and there is no wiring loop. -/
theorem totalFor_spec (h : NoLoop edges subCuIds) {fuel : ℕ} {visiting : List String}
    {totals : Totals} {b : String} {r : Flow × Totals} (htotals : Right edges subCuIds totals)
    (hvisiting : ∀ v ∈ visiting, Relation.TransGen (Feeds edges subCuIds) v b)
    (hr : totalFor edges subCuIds fuel visiting totals b = some r) :
    r.1 = totalOf edges subCuIds b ∧ Right edges subCuIds r.2 := by
  induction fuel generalizing visiting totals b r with
  | zero => exact absurd hr (by simp [totalFor])
  | succ fuel ih =>
    rw [totalFor] at hr
    split at hr
    · rename_i known hknown
      obtain rfl := Option.some.inj hr
      exact ⟨htotals b known hknown, htotals⟩
    · split at hr
      · rename_i hmem
        exact absurd (hvisiting b hmem) (h b)
      · obtain ⟨r', hr', rfl⟩ := Option.map_eq_some_iff.mp hr
        obtain ⟨htotal, hright⟩ :=
          foldlM_addCircuit (fun totals e r he hsource htarget hright hrec => by
          have hfeeds : Feeds edges subCuIds b e.target := ⟨e, he, hsource, rfl, htarget⟩
          refine ih hright (fun v hv => ?_) hrec
          rcases List.mem_cons.mp hv with rfl | hv
          · exact Relation.TransGen.single hfeeds
          · exact (hvisiting v hv).tail hfeeds) htotals hr'
        have heq : r'.1 = totalOf edges subCuIds b := htotal.trans (totalOf_eq h b).symm
        refine ⟨heq, ?_⟩
        rw [heq]
        exact hright.update b

theorem totalFor_eq (h : NoLoop edges subCuIds) {totals : Totals} {b : String} (hb : b ∈ subCuIds)
    (htotals : Right edges subCuIds totals) :
    ∃ totals', totalFor edges subCuIds (fuelFor subCuIds) [] totals b =
      some (totalOf edges subCuIds b, totals') ∧ Right edges subCuIds totals' := by
  have hreturns : (totalFor edges subCuIds (fuelFor subCuIds) [] totals b).isSome :=
    totalFor_fuelFor_isSome hb totals
  obtain ⟨r, hr⟩ := Option.isSome_iff_exists.mp hreturns
  obtain ⟨htotal, hright⟩ := totalFor_spec h htotals (fun v hv => absurd hv List.not_mem_nil) hr
  refine ⟨r.2, ?_, hright⟩
  rw [hr, ← htotal]

end Totals

/-! ## The result -/

/-- `toSubCus`, from the totals of the boards. -/
def toSubCusOf (edges : List Edge) (subCuIds : List String) : List (String × ℚ) :=
  (edges.filter (·.target ∈ subCuIds)).foldl
    (fun m e => update e.sourceKey (fun o => o.getD 0 - (totalOf edges subCuIds e.target).kw) m) []

/-- What `withSubCuFeeds` makes of an edge. -/
def Edge.fed (edges : List Edge) (subCuIds : List String) (e : Edge) : Edge :=
  if e.target ∈ subCuIds then e.setFlow (totalOf edges subCuIds e.target)
  else e.setRemainder (get (remainderKwOf edges subCuIds (toSubCusOf edges subCuIds)) e.id)

section Result

variable {edges : List Edge} {subCuIds : List String}

theorem foldlM_addFeed (h : NoLoop edges subCuIds) {l : List Edge}
    {acc : List (String × ℚ) × Totals} (hacc : Right edges subCuIds acc.2) :
    ∃ totals, l.foldlM (addFeed edges subCuIds) acc =
      some ((l.filter (·.target ∈ subCuIds)).foldl (fun m e =>
        update e.sourceKey (fun o => o.getD 0 - (totalOf edges subCuIds e.target).kw) m) acc.1,
        totals) ∧ Right edges subCuIds totals := by
  induction l generalizing acc with
  | nil => exact ⟨acc.2, rfl, hacc⟩
  | cons e l ih =>
    rw [List.foldlM_cons, addFeed]
    by_cases htarget : e.target ∈ subCuIds
    · obtain ⟨totals, htotal, hright⟩ := totalFor_eq h htarget hacc
      rw [if_pos htarget, htotal, List.filter_cons_of_pos (by simpa using htarget),
        List.foldl_cons]
      exact ih hright
    · rw [if_neg htarget, List.filter_cons_of_neg (by simpa using htarget)]
      exact ih hacc

theorem mapM_eq_some_map {α β : Type*} {f : α → Option β} {g : α → β} {l : List α}
    (h : ∀ a ∈ l, f a = some (g a)) : l.mapM f = some (l.map g) := by
  induction l with
  | nil => rfl
  | cons a l ih =>
    rw [List.forall_mem_cons] at h
    rw [List.mapM_cons, h.1, ih h.2]
    rfl

/-- Without a wiring loop each feed gets its board's total, and each other edge its remainder, if it
has one. -/
theorem withSubCuFeeds_eq (h : NoLoop edges subCuIds) :
    withSubCuFeeds edges subCuIds = some (edges.map (·.fed edges subCuIds)) := by
  unfold withSubCuFeeds
  split
  · rename_i hnil
    subst hnil
    congr 1
    refine (List.map_id _).symm.trans (List.map_congr_left fun e _ => ?_)
    simp [Edge.fed, toSubCusOf, remainderKwOf, siblingsOf, Edge.setRemainder]
  · have hnil : Right edges subCuIds (([], []) : List (String × ℚ) × Totals).2 := right_nil
    obtain ⟨totals, hfold, hright⟩ := foldlM_addFeed h hnil (l := edges)
    rw [hfold, Option.bind_some]
    refine mapM_eq_some_map fun e _ => ?_
    unfold Edge.fed
    split
    · rename_i htarget
      obtain ⟨totals', htotal, -⟩ := totalFor_eq h htarget hright
      rw [htotal]
      rfl
    · rfl

end Result

end HomeEnergyManager.Canvas
