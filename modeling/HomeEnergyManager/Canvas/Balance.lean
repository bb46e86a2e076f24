import Mathlib.Algebra.BigOperators.Group.List.Basic
import Mathlib.Tactic.Ring
import HomeEnergyManager.Canvas.Totals

/-! # Every board balances

The feeds are summed up before the remainders are written. A remainder on a circuit of the main
consumer unit or of a meter is fine, but one on a circuit of a sub consumer unit changes a board
that was summed up already. The boards balance if and only if the circuits that are rewritten on a
fed board keep their sum, and each edge has one remainder at most, which is its own. -/

namespace HomeEnergyManager.Canvas

open OrderedMap

/-! ## What balance means -/

/-- The feeds that leave from a handle. -/
def feedsOn (edges : List Edge) (subCuIds : List String) (key : String) : List Edge :=
  edges.filter fun e => e.target ∈ subCuIds ∧ e.sourceKey = key

/-- The other edges on a handle, each with the end that is on it. -/
def othersOn (edges : List Edge) (subCuIds : List String) (key : String) : List EdgeEnd :=
  (otherEnds edges subCuIds).filter (·.key = key)

/-- The handle feeds sub consumer units and exactly one other edge, which is metered. -/
structure LoneMetered (edges : List Edge) (subCuIds : List String) (x : EdgeEnd) (metered : ℚ) :
    Prop where
  feeds : feedsOn edges subCuIds x.key ≠ []
  alone : othersOn edges subCuIds x.key = [x]
  metered : x.edge.meteredKw = some metered

/-- An edge but for its data. -/
def Edge.wiring (e : Edge) : Edge := { e with data := none }

section OfWiring

variable {e e' : Edge}

theorem id_of_wiring (h : e.wiring = e'.wiring) : e.id = e'.id := by
  have heq := congrArg Edge.id h
  exact heq

theorem source_of_wiring (h : e.wiring = e'.wiring) : e.source = e'.source := by
  have heq := congrArg Edge.source h
  exact heq

theorem target_of_wiring (h : e.wiring = e'.wiring) : e.target = e'.target := by
  have heq := congrArg Edge.target h
  exact heq

theorem tariff_of_wiring (h : e.wiring = e'.wiring) : isTariffEdge e = isTariffEdge e' := by
  have heq := congrArg isTariffEdge h
  exact heq

theorem key_of_wiring (h : e.wiring = e'.wiring) (atSource : Bool) :
    EdgeEnd.key ⟨e, atSource⟩ = EdgeEnd.key ⟨e', atSource⟩ := by
  have hkey (e : Edge) : EdgeEnd.key ⟨e, atSource⟩ = EdgeEnd.key ⟨e.wiring, atSource⟩ := rfl
  rw [hkey e, h, ← hkey e']

end OfWiring

/-- What a result of `withSubCuFeeds` has to be. -/
structure Balances (edges : List Edge) (subCuIds : List String) (out : List Edge) : Prop where
  /-- The edges are the same, in their order, but for their data. -/
  wiring : out.map Edge.wiring = edges.map Edge.wiring
  /-- An edge into a board carries the sum of the edges that leave the board. -/
  boards : ∀ e ∈ out, e.target ∈ subCuIds →
    e.data.bind (·.kw) = some ((out.filter (·.source = e.target)).map Edge.kw).sum
  /-- The flows away from a metered handle add up to the metered flow. -/
  handles : ∀ x metered, LoneMetered edges subCuIds x metered →
    ∀ p ∈ edges.zip out, p.1 = x.edge →
      x.away p.2.kw + ((feedsOn out subCuIds x.key).map fun f => -f.kw).sum = x.away metered
  /-- Every other edge is unchanged. -/
  others : ∀ p ∈ edges.zip out, p.1.target ∉ subCuIds →
    (∀ x metered, LoneMetered edges subCuIds x metered → x.edge ≠ p.1) → p.2 = p.1

/-! ## The condition -/

/-- The flow from a handle into the boards that it feeds. -/
def feedAway (edges : List Edge) (subCuIds : List String) (key : String) : ℚ :=
  ((feedsOn edges subCuIds key).map fun f => -(totalOf edges subCuIds f.target).kw).sum

/-- What the feeds on its handle leave to an edge. -/
def EdgeEnd.share (edges : List Edge) (subCuIds : List String) (x : EdgeEnd) (metered : ℚ) : ℚ :=
  x.away (x.away metered - feedAway edges subCuIds x.key)

/-- What each edge that is alone with feeds on a metered handle is to carry, by its id. -/
def shares (edges : List Edge) (subCuIds : List String) : List (String × ℚ) :=
  (otherEnds edges subCuIds).filterMap fun x =>
    if feedsOn edges subCuIds x.key ≠ [] ∧ othersOn edges subCuIds x.key = [x] then
      x.edge.meteredKw.map fun metered => (x.edge.id, x.share edges subCuIds metered)
    else none

/-- The circuits of a board that feed no other board. -/
def loadCircuits (edges : List Edge) (subCuIds : List String) (b : String) : List Edge :=
  edges.filter fun c => c.source = b ∧ c.target ∉ subCuIds

/-- The condition. -/
structure Settled (edges : List Edge) (subCuIds : List String) : Prop where
  /-- No two edges of one id, and no two ends of an edge, are to carry different flows. -/
  once : ∀ p ∈ shares edges subCuIds, ∀ q ∈ shares edges subCuIds, p.1 = q.1 → p.2 = q.2
  /-- No other edge has the id of one that is to carry something else. -/
  own : ∀ e ∈ edges, e.target ∉ subCuIds → ∀ p ∈ shares edges subCuIds, p.1 = e.id →
    (∃ x metered, LoneMetered edges subCuIds x metered ∧ x.edge = e) ∨
      e.data.bind (·.kw) = some p.2
  /-- The circuits of a fed board that share a handle with feeds keep their sum. -/
  kept : ∀ e ∈ edges, e.target ∈ subCuIds →
    ((loadCircuits edges subCuIds e.target).map fun c =>
      (get (shares edges subCuIds) c.id).elim 0 (· - c.kw)).sum = 0

instance (edges : List Edge) (subCuIds : List String) (e : Edge) :
    Decidable (∃ x metered, LoneMetered edges subCuIds x metered ∧ x.edge = e) :=
  decidable_of_iff (∃ x ∈ otherEnds edges subCuIds, feedsOn edges subCuIds x.key ≠ [] ∧
      othersOn edges subCuIds x.key = [x] ∧ x.edge.meteredKw.isSome ∧ x.edge = e) <| by
    constructor
    · rintro ⟨x, -, hfeeds, halone, hmetered, heq⟩
      obtain ⟨metered, hmetered⟩ := Option.isSome_iff_exists.mp hmetered
      exact ⟨x, metered, ⟨hfeeds, halone, hmetered⟩, heq⟩
    · rintro ⟨x, metered, h, heq⟩
      have hx : x ∈ othersOn edges subCuIds x.key := by
        rw [h.alone]
        exact List.mem_singleton_self x
      exact ⟨x, (List.mem_filter.mp hx).1, h.feeds, h.alone, by rw [h.metered]; rfl, heq⟩

instance (edges : List Edge) (subCuIds : List String) : Decidable (Settled edges subCuIds) :=
  decidable_of_iff
    ((∀ p ∈ shares edges subCuIds, ∀ q ∈ shares edges subCuIds, p.1 = q.1 → p.2 = q.2) ∧
      (∀ e ∈ edges, e.target ∉ subCuIds → ∀ p ∈ shares edges subCuIds, p.1 = e.id →
        (∃ x metered, LoneMetered edges subCuIds x metered ∧ x.edge = e) ∨
          e.data.bind (·.kw) = some p.2) ∧
      ∀ e ∈ edges, e.target ∈ subCuIds →
        ((loadCircuits edges subCuIds e.target).map fun c =>
          (get (shares edges subCuIds) c.id).elim 0 (· - c.kw)).sum = 0)
    ⟨fun h => ⟨h.1, h.2.1, h.2.2⟩, fun h => ⟨h.once, h.own, h.kept⟩⟩

/-! ## The remainders -/

section Remainders

variable {edges : List Edge} {subCuIds : List String}

theorem foldl_sub_eq {α : Type*} (g : α → ℚ) (l : List α) (o : Option ℚ) :
    l.foldl (fun o a => some (o.getD 0 - g a)) o =
      if l = [] then o else some (o.getD 0 + (l.map fun a => -g a).sum) := by
  induction l generalizing o with
  | nil => rfl
  | cons a l ih =>
    rw [List.foldl_cons, ih, if_neg (List.cons_ne_nil a l), List.map_cons, List.sum_cons]
    split
    · rename_i hnil
      rw [hnil]
      simp [sub_eq_add_neg]
    · congr 1
      dsimp only [Option.getD_some]
      ring

/-- A handle's entry in `toSubCus` is what it feeds. -/
theorem get_toSubCusOf (key : String) :
    get (toSubCusOf edges subCuIds) key =
      if feedsOn edges subCuIds key = [] then none else some (feedAway edges subCuIds key) := by
  have hfilter : (edges.filter (·.target ∈ subCuIds)).filter (fun e => e.sourceKey = key) =
      feedsOn edges subCuIds key := by
    rw [List.filter_filter]
    refine List.filter_congr fun e _ => ?_
    simp [Bool.and_comm]
  unfold toSubCusOf
  rw [get_foldl_update, hfilter, get_nil,
    foldl_sub_eq fun e : Edge => (totalOf edges subCuIds e.target).kw]
  split
  · rfl
  · rw [Option.getD_none, zero_add]
    rfl

theorem mem_shares {p : String × ℚ} :
    p ∈ shares edges subCuIds ↔
      ∃ x metered, LoneMetered edges subCuIds x metered ∧
        p = (x.edge.id, x.share edges subCuIds metered) := by
  unfold shares
  rw [List.mem_filterMap]
  constructor
  · rintro ⟨x, -, hx⟩
    split at hx
    · rename_i h
      obtain ⟨metered, hmetered, rfl⟩ := Option.map_eq_some_iff.mp hx
      exact ⟨x, metered, ⟨h.1, h.2, hmetered⟩, rfl⟩
    · exact absurd hx (by simp)
  · rintro ⟨x, metered, h, rfl⟩
    have hx : x ∈ othersOn edges subCuIds x.key := by
      rw [h.alone]
      exact List.mem_singleton_self x
    refine ⟨x, (List.mem_filter.mp hx).1, ?_⟩
    rw [if_pos ⟨h.feeds, h.alone⟩, h.metered]
    rfl

/-- The remainders, in their order: they belong to the edges alone on a handle with feeds. -/
theorem filterMap_siblingsOf (edges : List Edge) (subCuIds : List String)
    (toSubCus : List (String × ℚ)) :
    (siblingsOf edges subCuIds toSubCus).filterMap (remainderOf toSubCus) =
      (otherEnds edges subCuIds).filterMap fun x =>
        if (get toSubCus x.key).isSome ∧ othersOn edges subCuIds x.key = [x] then
          remainderOf toSubCus (x.key, [x])
        else none := by
  have hmany (key : String) (xs : List EdgeEnd) (hxs : xs.length ≠ 1) :
      remainderOf toSubCus (key, xs) = none := by
    rcases xs with _ | ⟨x, _ | ⟨y, xs⟩⟩
    · rfl
    · exact absurd rfl hxs
    · rfl
  refine (filterMap_groupBy EdgeEnd.key hmany _).trans ?_
  rw [List.filterMap_filter]
  refine List.filterMap_congr fun x _ => ?_
  by_cases hfeeds : (get toSubCus x.key).isSome
  · have hothers : ((otherEnds edges subCuIds).filter fun y =>
        (get toSubCus y.key).isSome).filter (fun y => y.key = x.key) =
          othersOn edges subCuIds x.key := by
      rw [List.filter_filter]
      refine List.filter_congr fun y _ => ?_
      by_cases hy : y.key = x.key
      · rw [hy, hfeeds]
        simp
      · simp [hy]
    rw [hothers, if_pos hfeeds]
    exact if_congr (by simp [hfeeds]) rfl rfl
  · rw [if_neg hfeeds, if_neg fun h => hfeeds h.1]

theorem remainders_eq :
    (siblingsOf edges subCuIds (toSubCusOf edges subCuIds)).filterMap
        (remainderOf (toSubCusOf edges subCuIds)) = shares edges subCuIds := by
  rw [filterMap_siblingsOf]
  refine List.filterMap_congr fun x _ => ?_
  rw [get_toSubCusOf]
  by_cases hfeeds : feedsOn edges subCuIds x.key = []
  · simp [hfeeds]
  · simp only [remainderOf, get_toSubCusOf, hfeeds, if_false, Option.isSome_some, Option.getD_some,
      ne_eq, not_false_eq_true, true_and]
    rfl

/-- The remainder of an id. -/
def remainderAt (edges : List Edge) (subCuIds : List String) (id : String) : Option ℚ :=
  get (remainderKwOf edges subCuIds (toSubCusOf edges subCuIds)) id

theorem foldl_last_eq (l : List (String × ℚ)) (o : Option ℚ) :
    l.foldl (fun _ p => some p.2) o = (l.getLast?.map Prod.snd).or o := by
  induction l generalizing o with
  | nil => rfl
  | cons p l ih =>
    rw [List.foldl_cons, ih, List.getLast?_cons]
    cases l.getLast? <;> rfl

/-- The last share of an id is its remainder. -/
theorem remainderAt_eq (id : String) :
    remainderAt edges subCuIds id =
      ((shares edges subCuIds).filter fun p => p.1 = id).getLast?.map Prod.snd := by
  rw [remainderAt, remainderKwOf, remainders_eq, get_foldl_update, get_nil, foldl_last_eq,
    Option.or_none]

theorem mem_shares_of_remainderAt {id : String} {v : ℚ}
    (h : remainderAt edges subCuIds id = some v) : (id, v) ∈ shares edges subCuIds := by
  rw [remainderAt_eq] at h
  obtain ⟨p, hp, rfl⟩ := Option.map_eq_some_iff.mp h
  obtain ⟨hmem, hid⟩ := List.mem_filter.mp (List.mem_of_getLast? hp)
  obtain rfl : p.1 = id := by simpa using hid
  exact hmem

theorem remainderAt_isSome {p : String × ℚ} (h : p ∈ shares edges subCuIds) :
    (remainderAt edges subCuIds p.1).isSome := by
  have hne : (shares edges subCuIds).filter (fun q => q.1 = p.1) ≠ [] :=
    List.ne_nil_of_mem (List.mem_filter.mpr ⟨h, by simp⟩)
  rw [remainderAt_eq, List.getLast?_eq_some_getLast hne]
  rfl

end Remainders

/-! ## The result -/

section Result

variable {edges : List Edge} {subCuIds : List String}

theorem setFlow_kw (e : Edge) (t : Flow) : (e.setFlow t).data.bind (·.kw) = some t.kw := by
  unfold Edge.setFlow
  split
  · rename_i h
    exact h.1
  · rfl

theorem setFlow_wiring (e : Edge) (t : Flow) : (e.setFlow t).wiring = e.wiring := by
  unfold Edge.setFlow
  split <;> rfl

theorem setRemainder_kw (e : Edge) (v : ℚ) :
    (e.setRemainder (some v)).data.bind (·.kw) = some v := by
  unfold Edge.setRemainder
  dsimp only
  split
  · rename_i h
    exact h
  · rfl

theorem setRemainder_wiring (e : Edge) (o : Option ℚ) :
    (e.setRemainder o).wiring = e.wiring := by
  unfold Edge.setRemainder
  cases o with
  | none => rfl
  | some v =>
    dsimp only
    split <;> rfl

theorem fed_wiring (e : Edge) : (e.fed edges subCuIds).wiring = e.wiring := by
  unfold Edge.fed
  split
  · exact setFlow_wiring _ _
  · exact setRemainder_wiring _ _

@[simp] theorem fed_source (e : Edge) : (e.fed edges subCuIds).source = e.source :=
  source_of_wiring (fed_wiring e)

@[simp] theorem fed_target (e : Edge) : (e.fed edges subCuIds).target = e.target :=
  target_of_wiring (fed_wiring e)

@[simp] theorem fed_sourceKey (e : Edge) : (e.fed edges subCuIds).sourceKey = e.sourceKey :=
  key_of_wiring (fed_wiring e) true

theorem kw_of_data {e : Edge} {v : ℚ} (h : e.data.bind (·.kw) = some v) : e.kw = v := by
  rw [Edge.kw, h, Option.getD_some]

/-- A feed carries the total of its board. -/
theorem fed_kw_of_feed {e : Edge} (h : e.target ∈ subCuIds) :
    (e.fed edges subCuIds).data.bind (·.kw) = some (totalOf edges subCuIds e.target).kw := by
  rw [Edge.fed, if_pos h]
  exact setFlow_kw _ _

theorem fed_of_not_feed {e : Edge} (h : e.target ∉ subCuIds) :
    e.fed edges subCuIds = e.setRemainder (remainderAt edges subCuIds e.id) := by
  rw [Edge.fed, if_neg h]
  rfl

/-- Another edge carries its remainder, or what it carried. -/
theorem fed_kw_of_not_feed {e : Edge} (h : e.target ∉ subCuIds) :
    (e.fed edges subCuIds).kw = (remainderAt edges subCuIds e.id).getD e.kw := by
  rw [fed_of_not_feed h]
  cases remainderAt edges subCuIds e.id with
  | none => rfl
  | some v =>
    rw [Option.getD_some]
    exact kw_of_data (setRemainder_kw e v)

theorem foldl_add_kw (f : Edge → Flow) (l : List Edge) (t : Flow) :
    (l.foldl (fun t e => t.add (f e)) t).kw = t.kw + (l.map fun e => (f e).kw).sum := by
  induction l generalizing t with
  | nil => simp
  | cons e l ih =>
    rw [List.foldl_cons, ih, List.map_cons, List.sum_cons]
    dsimp only [Flow.add]
    ring

/-- The sum over the circuits of a board after the rewriting is its total and what the rewriting
added to it. -/
theorem sum_fed_circuits (h : NoLoop edges subCuIds) (b : String) :
    (((edges.map (·.fed edges subCuIds)).filter (·.source = b)).map Edge.kw).sum =
      (totalOf edges subCuIds b).kw +
        ((loadCircuits edges subCuIds b).map fun c =>
          (remainderAt edges subCuIds c.id).elim 0 (· - c.kw)).sum := by
  have hkw : (Edge.kw ∘ fun c : Edge => c.fed edges subCuIds) = fun c : Edge =>
      (c.counts subCuIds (totalOf edges subCuIds)).kw +
        if c.target ∉ subCuIds then (remainderAt edges subCuIds c.id).elim 0 (· - c.kw) else 0 := by
    funext c
    show (c.fed edges subCuIds).kw = _
    by_cases hc : c.target ∈ subCuIds
    · rw [kw_of_data (fed_kw_of_feed hc), Edge.counts, if_pos hc, if_neg (not_not.mpr hc), add_zero]
    · rw [fed_kw_of_not_feed hc, Edge.counts, if_neg hc, if_pos hc]
      cases remainderAt edges subCuIds c.id with
      | none => exact (add_zero _).symm
      | some v => exact (add_sub_cancel c.kw v).symm
  have hloads : (edges.filter (·.source = b)).filter (fun c => c.target ∉ subCuIds) =
      loadCircuits edges subCuIds b := by
    rw [List.filter_filter]
    refine List.filter_congr fun c _ => ?_
    simp [Bool.and_comm]
  rw [List.filter_map, List.map_map, totalOf_eq h b, sumOfCircuits, foldl_add_kw]
  have hfilter : edges.filter ((fun e : Edge => decide (e.source = b)) ∘
      fun e => e.fed edges subCuIds) = edges.filter (·.source = b) :=
    List.filter_congr fun c _ => by simp
  rw [hfilter, hkw, List.sum_map_add, List.sum_map_ite, hloads]
  simp [Flow.zero]

theorem mem_zip_map {α β : Type*} {l : List α} {f : α → β} {p : α × β} :
    p ∈ l.zip (l.map f) ↔ p.1 ∈ l ∧ p.2 = f p.1 := by
  rw [← List.map_prod_left_eq_zip, List.mem_map]
  constructor
  · rintro ⟨a, ha, rfl⟩
    exact ⟨ha, rfl⟩
  · rintro ⟨ha, hb⟩
    exact ⟨p.1, ha, Prod.ext rfl hb.symm⟩

theorem LoneMetered.mem {x : EdgeEnd} {metered : ℚ} (h : LoneMetered edges subCuIds x metered) :
    x.edge ∈ edges ∧ x.edge.target ∉ subCuIds := by
  have hx : x ∈ othersOn edges subCuIds x.key := by
    rw [h.alone]
    exact List.mem_singleton_self x
  obtain ⟨e, he, hmem⟩ := List.mem_flatMap.mp (List.mem_filter.mp hx).1
  obtain ⟨hedge, htarget⟩ := List.mem_filter.mp he
  have heq : x.edge = e := by
    rcases List.mem_cons.mp hmem with rfl | hmem
    · rfl
    · rw [List.mem_singleton.mp hmem]
  rw [heq]
  exact ⟨hedge, by simpa using htarget⟩

/-- What leaves a handle into its boards, in the result. -/
theorem sum_feedsOn_fed (key : String) :
    ((feedsOn (edges.map (·.fed edges subCuIds)) subCuIds key).map fun f => -f.kw).sum =
      feedAway edges subCuIds key := by
  have hfilter : feedsOn (edges.map (·.fed edges subCuIds)) subCuIds key =
      (feedsOn edges subCuIds key).map (·.fed edges subCuIds) := by
    unfold feedsOn
    rw [List.filter_map]
    congr 1
    exact List.filter_congr fun e _ => by simp
  rw [hfilter, List.map_map]
  unfold feedAway
  congr 1
  refine List.map_congr_left fun f hf => ?_
  have htarget : f.target ∈ subCuIds := by
    have hf := (List.mem_filter.mp hf).2
    simp only [decide_eq_true_eq] at hf
    exact hf.1
  show -(f.fed edges subCuIds).kw = _
  rw [kw_of_data (fed_kw_of_feed htarget)]

theorem away_away (x : EdgeEnd) (v : ℚ) : x.away (x.away v) = v := by
  unfold EdgeEnd.away
  split
  · exact neg_neg v
  · rfl

/-- The flows away from a handle add up to the metered flow if and only if the edge carries its
share. -/
theorem away_add_eq_iff (x : EdgeEnd) (v feeds metered : ℚ) :
    x.away v + feeds = x.away metered ↔ v = x.away (x.away metered - feeds) := by
  rw [← eq_sub_iff_add_eq]
  constructor
  · intro h
    rw [← h, away_away]
  · rintro rfl
    exact away_away _ _

/-- With one remainder for each id, it is the share of that id. -/
theorem remainderAt_eq_get
    (honce : ∀ p ∈ shares edges subCuIds, ∀ q ∈ shares edges subCuIds, p.1 = q.1 → p.2 = q.2)
    (id : String) : remainderAt edges subCuIds id = get (shares edges subCuIds) id := by
  cases hshare : get (shares edges subCuIds) id with
  | none =>
    by_contra hne
    obtain ⟨v, hv⟩ := Option.ne_none_iff_exists'.mp hne
    exact get_ne_none_of_mem (mem_shares_of_remainderAt hv) hshare
  | some v =>
    have hmem : (id, v) ∈ shares edges subCuIds := mem_of_get hshare
    obtain ⟨v', hv'⟩ := Option.isSome_iff_exists.mp (remainderAt_isSome hmem)
    have hvalue : v' = v := honce _ (mem_shares_of_remainderAt hv') _ hmem rfl
    rw [hv', hvalue]

/-- In the result, a lone metered edge balances its handle exactly if it got its own share. -/
theorem handle_balances_iff {x : EdgeEnd} {metered : ℚ}
    (hx : LoneMetered edges subCuIds x metered) :
    x.away (x.edge.fed edges subCuIds).kw +
        ((feedsOn (edges.map (·.fed edges subCuIds)) subCuIds x.key).map fun f => -f.kw).sum =
          x.away metered ↔
      remainderAt edges subCuIds x.edge.id = some (x.share edges subCuIds metered) := by
  have hmem : (x.edge.id, x.share edges subCuIds metered) ∈ shares edges subCuIds :=
    mem_shares.mpr ⟨x, metered, hx, rfl⟩
  obtain ⟨v, hv⟩ := Option.isSome_iff_exists.mp (remainderAt_isSome hmem)
  dsimp only at hv
  rw [sum_feedsOn_fed, away_add_eq_iff, fed_kw_of_not_feed hx.mem.2, hv, Option.getD_some,
    Option.some.injEq]
  rfl

theorem settled_of_balances (h : NoLoop edges subCuIds)
    (hbalances : Balances edges subCuIds (edges.map (·.fed edges subCuIds))) :
    Settled edges subCuIds := by
  have hshare : ∀ x metered, LoneMetered edges subCuIds x metered →
      remainderAt edges subCuIds x.edge.id = some (x.share edges subCuIds metered) :=
    fun x metered hx => (handle_balances_iff hx).mp (hbalances.handles x metered hx
      (x.edge, x.edge.fed edges subCuIds) (mem_zip_map.mpr ⟨hx.mem.1, rfl⟩) rfl)
  have honce : ∀ p ∈ shares edges subCuIds, ∀ q ∈ shares edges subCuIds, p.1 = q.1 →
      p.2 = q.2 := by
    intro p hp q hq hid
    obtain ⟨x, metered, hx, rfl⟩ := mem_shares.mp hp
    obtain ⟨y, metered', hy, rfl⟩ := mem_shares.mp hq
    dsimp only at hid
    have hxid := hshare x metered hx
    rw [hid, hshare y metered' hy] at hxid
    exact (Option.some.inj hxid).symm
  refine ⟨honce, fun e he htarget p hp hid => ?_, fun e he htarget => ?_⟩
  · by_cases hlone : ∃ x metered, LoneMetered edges subCuIds x metered ∧ x.edge = e
    · exact Or.inl hlone
    · right
      have hsame := hbalances.others (e, e.fed edges subCuIds) (mem_zip_map.mpr ⟨he, rfl⟩) htarget
        fun x metered hx heq => hlone ⟨x, metered, hx, heq⟩
      obtain ⟨v, hv⟩ := Option.isSome_iff_exists.mp (remainderAt_isSome hp)
      have hvalue : p.2 = v := honce p hp _ (mem_shares_of_remainderAt hv) rfl
      dsimp only at hsame
      rw [fed_of_not_feed htarget, ← hid, hv] at hsame
      rw [← hsame, hvalue]
      exact setRemainder_kw e v
  · have hboard := hbalances.boards (e.fed edges subCuIds) (List.mem_map_of_mem he)
      (by rwa [fed_target])
    rw [fed_target, fed_kw_of_feed htarget, sum_fed_circuits h] at hboard
    have hsum := Option.some.inj hboard
    rw [left_eq_add] at hsum
    refine Eq.trans ?_ hsum
    congr 1
    refine List.map_congr_left fun c _ => ?_
    rw [remainderAt_eq_get honce]

theorem balances_of_settled (h : NoLoop edges subCuIds) (hsettled : Settled edges subCuIds) :
    Balances edges subCuIds (edges.map (·.fed edges subCuIds)) where
  wiring := by
    rw [List.map_map]
    exact List.map_congr_left fun e _ => fed_wiring e
  boards := by
    intro e' he' htarget
    obtain ⟨e, he, rfl⟩ := List.mem_map.mp he'
    rw [fed_target] at htarget ⊢
    rw [fed_kw_of_feed htarget, sum_fed_circuits h]
    have hkept := hsettled.kept e he htarget
    have hsame : (loadCircuits edges subCuIds e.target).map (fun c =>
        (remainderAt edges subCuIds c.id).elim 0 (· - c.kw)) =
          (loadCircuits edges subCuIds e.target).map fun c =>
            (get (shares edges subCuIds) c.id).elim 0 (· - c.kw) :=
      List.map_congr_left fun c _ => by rw [remainderAt_eq_get hsettled.once]
    rw [hsame, hkept, add_zero]
  handles := by
    rintro x metered hx ⟨e, e'⟩ hp heq
    obtain ⟨-, he'⟩ := mem_zip_map.mp hp
    dsimp only at heq he' ⊢
    rw [he', heq, handle_balances_iff hx, remainderAt_eq_get hsettled.once]
    have hmem : (x.edge.id, x.share edges subCuIds metered) ∈ shares edges subCuIds :=
      mem_shares.mpr ⟨x, metered, hx, rfl⟩
    obtain ⟨v, hv⟩ := Option.ne_none_iff_exists'.mp (get_ne_none_of_mem hmem)
    have hvalue : v = x.share edges subCuIds metered := hsettled.once _ (mem_of_get hv) _ hmem rfl
    rw [hv, hvalue]
  others := by
    rintro ⟨e, e'⟩ hp htarget hother
    obtain ⟨he, he'⟩ := mem_zip_map.mp hp
    dsimp only at he he' htarget hother ⊢
    rw [he', fed_of_not_feed htarget]
    cases hv : remainderAt edges subCuIds e.id with
    | none => rfl
    | some v =>
      rcases hsettled.own e he htarget _ (mem_shares_of_remainderAt hv) rfl with
        ⟨x, metered, hx, heq⟩ | hkw
      · exact absurd heq (hother x metered hx)
      · exact if_pos hkw

end Result

/-- The feeds are computed for every edge list, and where there is no wiring loop the boards balance
if and only if the circuits that are rewritten on a fed board keep their sum and each edge has one
remainder at most, which is its own. -/
theorem boards_balance_iff (edges : List Edge) (subCuIds : List String) :
    ∃ out, withSubCuFeeds edges subCuIds = some out ∧
      (NoLoop edges subCuIds → (Balances edges subCuIds out ↔ Settled edges subCuIds)) := by
  obtain ⟨out, hout⟩ := Option.isSome_iff_exists.mp (withSubCuFeeds_isSome edges subCuIds)
  refine ⟨out, hout, fun h => ?_⟩
  obtain rfl := Option.some.inj (hout.symm.trans (withSubCuFeeds_eq h))
  exact ⟨settled_of_balances h, balances_of_settled h⟩

/-- An edge between two handles, with the flow that its meter reads. -/
def meteredEdge (source sourceHandle target targetHandle : String) (kw : ℚ) : Edge where
  id := source ++ "-" ++ sourceHandle ++ "-" ++ target ++ "-" ++ targetHandle
  source := source
  sourceHandle := some sourceHandle
  target := target
  targetHandle := some targetHandle
  data := some { kw := some kw, meteredKw := some kw, idle := some false }

/-- A grid meter feeds the consumer unit and an annexe, which feeds a shed. -/
def annexe : List Edge :=
  [meteredEdge "meter" "power-out" "consumer_unit" "grid" 5,
    meteredEdge "meter" "power-out" "annexe" "power-in" 0,
    meteredEdge "annexe" "circuit_1" "heater" "power-in" (-3),
    meteredEdge "annexe" "circuit_2" "shed" "power-in" 0,
    meteredEdge "shed" "circuit_1" "lamp" "power-in" (-1)]

theorem boards_balance_annexe :
    ∃ out, withSubCuFeeds annexe ["annexe", "shed"] = some out ∧
      Balances annexe ["annexe", "shed"] out := by
  obtain ⟨out, hout, hiff⟩ := boards_balance_iff annexe ["annexe", "shed"]
  have hloop : NoLoop annexe ["annexe", "shed"] :=
    noLoop_of_rank (fun b => if b = "meter" then 2 else if b = "annexe" then 1 else 0)
      (by decide +kernel)
  exact ⟨out, hout, (hiff hloop).mpr (by decide +kernel)⟩

/-- The shed and the heater share a circuit of the annexe. -/
def sharedCircuit : List Edge :=
  [meteredEdge "consumer_unit" "circuit_1" "annexe" "power-in" 0,
    meteredEdge "annexe" "circuit_1" "heater" "power-in" (-3),
    meteredEdge "annexe" "circuit_1" "shed" "power-in" 0,
    meteredEdge "shed" "circuit_1" "lamp" "power-in" (-1)]

/-- An edge with another flow than its meter reads. -/
def Edge.carrying (e : Edge) (kw : ℚ) : Edge :=
  { e with data := e.data.map fun d => { d with kw := some kw } }

/-- Its flows: 4 kW into the annexe, of which 2 and 1 leave it. -/
def sharedCircuitFed : List Edge :=
  [(meteredEdge "consumer_unit" "circuit_1" "annexe" "power-in" 0).carrying (-4),
    (meteredEdge "annexe" "circuit_1" "heater" "power-in" (-3)).carrying (-2),
    (meteredEdge "annexe" "circuit_1" "shed" "power-in" 0).carrying (-1),
    meteredEdge "shed" "circuit_1" "lamp" "power-in" (-1)]

/-- The annexe was summed up with the reading of the circuit, of which the heater then gets what the
shed leaves. -/
theorem shared_circuit_unbalanced :
    ¬ ∀ (edges : List Edge) (subCuIds : List String), NoLoop edges subCuIds →
      ∃ out, withSubCuFeeds edges subCuIds = some out ∧ Balances edges subCuIds out := by
  intro h
  have hloop : NoLoop sharedCircuit ["annexe", "shed"] :=
    noLoop_of_rank (fun b => if b = "consumer_unit" then 2 else if b = "annexe" then 1 else 0)
      (by decide +kernel)
  obtain ⟨out, hout, hbalances⟩ := h sharedCircuit ["annexe", "shed"] hloop
  have hresult : withSubCuFeeds sharedCircuit ["annexe", "shed"] = some sharedCircuitFed := by
    decide +kernel
  obtain rfl := Option.some.inj (hout.symm.trans hresult)
  have hboard := hbalances.boards _ List.mem_cons_self (by decide)
  exact absurd hboard (by decide +kernel)

end HomeEnergyManager.Canvas
