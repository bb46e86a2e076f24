import HomeEnergyManager.Canvas.Derived

/-! # What the passes read, wiring loops or not

In a wiring loop the totals depend on the board that the sum starts with, and so on the order of the
edges. Still the passes read no more than the feeds in their order, the circuits of each fed board
in their order, and the readings of the edges that are alone with feeds on a handle.

Reference: `withSubCuFeeds` in `firmware/html_app/src/Topology.tsx`.
-/

namespace HomeEnergyManager.Canvas

open OrderedMap

theorem foldlM_congr {α β : Type*} {f g : β → α → Option β} {l : List α}
    (h : ∀ a ∈ l, ∀ b, f b a = g b a) (b : β) : l.foldlM f b = l.foldlM g b := by
  induction l generalizing b with
  | nil => rfl
  | cons a l ih =>
    rw [List.forall_mem_cons] at h
    rw [List.foldlM_cons, List.foldlM_cons, h.1 b]
    exact congrArg _ (funext fun b' => ih h.2 b')

/-! ## The circuits of a board -/

/-- What `totalFor` reads of a circuit. -/
inductive Circuit where
  | feed (target : String)
  | load (flow : Flow)
deriving DecidableEq

/-- An edge as a circuit of its source; a load without flow is as good as idle. -/
def Edge.circuit (subCuIds : List String) (e : Edge) : Circuit :=
  if e.target ∈ subCuIds then .feed e.target else .load (Flow.zero.add e.flow)

def circuitsOf (edges : List Edge) (subCuIds : List String) (b : String) : List Circuit :=
  (edges.filter (·.source = b)).map (·.circuit subCuIds)

/-- `addCircuit` on what it reads. -/
def joinCircuit (totalFor : Totals → String → Option (Flow × Totals)) (acc : Flow × Totals) :
    Circuit → Option (Flow × Totals)
  | .feed target => (totalFor acc.2 target).map fun r => (acc.1.add r.1, r.2)
  | .load flow => some (acc.1.add flow, acc.2)

section Circuits

variable {l m : List Edge} {subCuIds : List String}

theorem add_zero_add (t f : Flow) : t.add (Flow.zero.add f) = t.add f := by
  simp only [Flow.add, Flow.zero, zero_add, Bool.true_and, Flow.mk.injEq, true_and]
  cases t.idle <;> cases f.idle <;> simp

theorem foldlM_addCircuit_eq (rec : Totals → String → Option (Flow × Totals)) (b : String)
    (acc : Flow × Totals) :
    l.foldlM (addCircuit rec subCuIds b) acc =
      (circuitsOf l subCuIds b).foldlM (joinCircuit rec) acc := by
  rw [circuitsOf, List.foldlM_map, List.foldlM_filter]
  refine foldlM_congr (fun e _ acc => ?_) acc
  unfold addCircuit
  by_cases hsource : e.source = b
  · simp only [hsource, ne_eq, not_true_eq_false, if_false, decide_true, if_true, Edge.circuit]
    by_cases htarget : e.target ∈ subCuIds
    · simp only [if_pos htarget, joinCircuit]
    · simp only [if_neg htarget, joinCircuit, add_zero_add]
  · simp only [hsource, ne_eq, not_false_eq_true, if_true, decide_false, Bool.false_eq_true,
      if_false]
    rfl

/-- Some edge leads into the board. -/
def Fed (edges : List Edge) (subCuIds : List String) (b : String) : Prop :=
  b ∈ subCuIds ∧ ∃ e ∈ edges, e.target = b

theorem fed_of_mem_circuitsOf {b c : String} (h : Circuit.feed c ∈ circuitsOf l subCuIds b) :
    Fed l subCuIds c := by
  obtain ⟨e, he, heq⟩ := List.mem_map.mp h
  unfold Edge.circuit at heq
  split at heq
  · rename_i htarget
    obtain rfl := Circuit.feed.inj heq
    exact ⟨htarget, e, (List.mem_filter.mp he).1, rfl⟩
  · exact absurd heq (by simp)

/-- Where the fed boards have the same circuits, `totalFor` does the same. -/
theorem totalFor_congr
    (hsame : ∀ b, Fed l subCuIds b → circuitsOf l subCuIds b = circuitsOf m subCuIds b)
    {b : String} (hb : Fed l subCuIds b) (fuel : ℕ) (visiting : List String) (totals : Totals) :
    totalFor l subCuIds fuel visiting totals b = totalFor m subCuIds fuel visiting totals b := by
  induction fuel generalizing visiting totals b with
  | zero => rfl
  | succ fuel ih =>
    rw [totalFor, totalFor, foldlM_addCircuit_eq, foldlM_addCircuit_eq, ← hsame b hb]
    have hcircuits : (circuitsOf l subCuIds b).foldlM
        (joinCircuit (totalFor l subCuIds fuel (b :: visiting))) (Flow.zero, totals) =
          (circuitsOf l subCuIds b).foldlM
            (joinCircuit (totalFor m subCuIds fuel (b :: visiting))) (Flow.zero, totals) := by
      refine foldlM_congr (fun c hc acc => ?_) _
      cases c with
      | feed target =>
        have htarget := fed_of_mem_circuitsOf hc
        rw [joinCircuit, ih htarget]
        rfl
      | load flow => rfl
    rw [hcircuits]

end Circuits

/-! ## The two passes -/

/-- The first pass: what the handles feed, and the totals. -/
def firstPass (edges : List Edge) (subCuIds : List String) :
    Option (List (String × ℚ) × Totals) :=
  edges.foldlM (addFeed edges subCuIds) ([], [])

/-- A board's total in the second pass. -/
def boardTotal (edges : List Edge) (subCuIds : List String) (totals : Totals) (b : String) : Flow :=
  ((totalFor edges subCuIds (fuelFor subCuIds) [] totals b).map Prod.fst).getD Flow.zero

/-- What the second pass makes of an edge. -/
def Edge.fedBy (edges : List Edge) (subCuIds : List String) (r : List (String × ℚ) × Totals)
    (e : Edge) : Edge :=
  if e.target ∈ subCuIds then e.setFlow (boardTotal edges subCuIds r.2 e.target)
  else e.setRemainder (get (remainderKwOf edges subCuIds r.1) e.id)

section Passes

variable {l m : List Edge} {subCuIds : List String}

theorem firstPass_isSome (edges : List Edge) (subCuIds : List String) :
    (firstPass edges subCuIds).isSome :=
  foldlM_addFeed_isSome edges subCuIds

/-- Without boards the first pass finds nothing. -/
theorem firstPass_nil (edges : List Edge) : firstPass edges [] = some ([], []) := by
  have hskip (l : List Edge) (acc : List (String × ℚ) × Totals) :
      l.foldlM (addFeed edges []) acc = some acc := by
    induction l generalizing acc with
    | nil => rfl
    | cons e l ih =>
      rw [List.foldlM_cons, addFeed, if_neg List.not_mem_nil]
      exact ih acc
  exact hskip edges _

theorem withSubCuFeeds_eq_map (edges : List Edge) (subCuIds : List String) :
    ∃ r, firstPass edges subCuIds = some r ∧
      withSubCuFeeds edges subCuIds = some (edges.map (·.fedBy edges subCuIds r)) := by
  obtain ⟨r, hr⟩ := Option.isSome_iff_exists.mp (firstPass_isSome edges subCuIds)
  refine ⟨r, hr, ?_⟩
  unfold withSubCuFeeds
  split
  · rename_i hnil
    subst hnil
    obtain rfl := Option.some.inj (hr.symm.trans (firstPass_nil edges))
    congr 1
    refine (List.map_id _).symm.trans (List.map_congr_left fun e _ => ?_)
    simp [Edge.fedBy, remainderKwOf, siblingsOf, Edge.setRemainder]
  · have hfold : edges.foldlM (addFeed edges subCuIds) ([], []) = some r := hr
    rw [hfold, Option.bind_some]
    refine mapM_eq_some_map fun e _ => ?_
    unfold Edge.fedBy boardTotal
    split
    · rename_i htarget
      obtain ⟨t, ht⟩ := Option.isSome_iff_exists.mp (totalFor_fuelFor_isSome htarget r.2)
      rw [ht]
      rfl
    · rfl

/-- What the derivation makes of an edge. -/
def Edge.derivedBy (edges : List Edge) (subCuIds : List String)
    (r : List (String × ℚ) × Totals) (e : Edge) : Edge :=
  (e.fedBy edges subCuIds r).setUnallocated (rawKwOf (edges.map (·.fedBy edges subCuIds r)))

theorem withDerivedFlows_eq_map (edges : List Edge) (subCuIds : List String) :
    ∃ r, firstPass edges subCuIds = some r ∧
      withDerivedFlows edges subCuIds = some (edges.map (·.derivedBy edges subCuIds r)) := by
  obtain ⟨r, hr, hfeeds⟩ := withSubCuFeeds_eq_map edges subCuIds
  refine ⟨r, hr, ?_⟩
  rw [withDerivedFlows, hfeeds, Option.map_some, withUnallocated, List.map_map]
  rfl

theorem fedBy_wiring (r : List (String × ℚ) × Totals) (e : Edge) :
    (e.fedBy l subCuIds r).wiring = e.wiring := by
  unfold Edge.fedBy
  split
  · exact setFlow_wiring _ _
  · exact setRemainder_wiring _ _

theorem fedBy_id (r : List (String × ℚ) × Totals) (e : Edge) :
    (e.fedBy l subCuIds r).id = e.id :=
  id_of_wiring (fedBy_wiring r e)

theorem derivedBy_wiring (r : List (String × ℚ) × Totals) (e : Edge) :
    (e.derivedBy l subCuIds r).wiring = e.wiring :=
  (setUnallocated_wiring _ _).trans (fedBy_wiring r e)

/-- The feeds of the edges, in their order. -/
def feedsOf (edges : List Edge) (subCuIds : List String) : List Edge :=
  (edges.filter (·.target ∈ subCuIds)).map Edge.wiring

theorem foldlM_addFeed_eq (acc : List (String × ℚ) × Totals) (rest : List Edge) :
    rest.foldlM (addFeed l subCuIds) acc =
      (feedsOf rest subCuIds).foldlM (addFeed l subCuIds) acc := by
  rw [feedsOf, List.foldlM_map, List.foldlM_filter]
  refine foldlM_congr (fun e _ acc => ?_) acc
  by_cases htarget : e.target ∈ subCuIds
  · rw [if_pos (by simpa using htarget)]
    rfl
  · rw [if_neg (by simpa using htarget), addFeed, if_neg htarget]
    rfl

/-- With the same feeds, and the same circuits of the fed boards, the first pass does the same. -/
theorem firstPass_congr (hfeeds : feedsOf l subCuIds = feedsOf m subCuIds)
    (hsame : ∀ b, Fed l subCuIds b → circuitsOf l subCuIds b = circuitsOf m subCuIds b) :
    firstPass l subCuIds = firstPass m subCuIds := by
  rw [firstPass, firstPass, foldlM_addFeed_eq _ l, foldlM_addFeed_eq _ m, ← hfeeds]
  refine foldlM_congr (fun e he acc => ?_) _
  obtain ⟨e', he', rfl⟩ := List.mem_map.mp he
  obtain ⟨hmem, htarget⟩ := List.mem_filter.mp he'
  have hfed : Fed l subCuIds e'.target := ⟨by simpa using htarget, e', hmem, rfl⟩
  unfold addFeed
  rw [show e'.wiring.target = e'.target from rfl, totalFor_congr hsame hfed]

theorem boardTotal_congr
    (hsame : ∀ b, Fed l subCuIds b → circuitsOf l subCuIds b = circuitsOf m subCuIds b)
    {b : String} (hb : Fed l subCuIds b) (totals : Totals) :
    boardTotal l subCuIds totals b = boardTotal m subCuIds totals b := by
  rw [boardTotal, boardTotal, totalFor_congr hsame hb]

/-- The first pass notes exactly the handles that feeds leave from. -/
theorem firstPass_isSome_iff {r : List (String × ℚ) × Totals} (h : firstPass l subCuIds = some r)
    (key : String) : (get r.1 key).isSome ↔ feedsOn l subCuIds key ≠ [] := by
  have hfold (rest : List Edge) (acc : List (String × ℚ) × Totals)
      (h : rest.foldlM (addFeed l subCuIds) acc = some r) :
      (get r.1 key).isSome ↔ (get acc.1 key).isSome ∨ feedsOn rest subCuIds key ≠ [] := by
    induction rest generalizing acc with
    | nil =>
      obtain rfl : acc = r := Option.some.inj h
      simp [feedsOn]
    | cons e rest ih =>
      rw [List.foldlM_cons] at h
      obtain ⟨acc', hacc', h⟩ := Option.bind_eq_some_iff.mp h
      rw [ih acc' h]
      unfold addFeed at hacc'
      by_cases htarget : e.target ∈ subCuIds
      · rw [if_pos htarget] at hacc'
        obtain ⟨t, -, rfl⟩ := Option.map_eq_some_iff.mp hacc'
        rw [get_update]
        by_cases hkey : e.sourceKey = key
        · have hpos : feedsOn (e :: rest) subCuIds key ≠ [] := by
            rw [feedsOn, List.filter_cons_of_pos (by simp [htarget, hkey])]
            exact List.cons_ne_nil _ _
          rw [if_pos hkey]
          exact iff_of_true (Or.inl rfl) (Or.inr hpos)
        · rw [if_neg hkey, feedsOn, feedsOn, List.filter_cons_of_neg (by simp [hkey])]
      · rw [if_neg htarget] at hacc'
        obtain rfl := Option.some.inj hacc'
        rw [feedsOn, feedsOn, List.filter_cons_of_neg (by simp [htarget])]
  rw [hfold l ([], []) h]
  simp

/-- The edge of an end, changed. -/
def EdgeEnd.map (g : Edge → Edge) (x : EdgeEnd) : EdgeEnd := { x with edge := g x.edge }

theorem otherEnds_map {g : Edge → Edge} (hg : ∀ e, (g e).wiring = e.wiring) (edges : List Edge)
    (subCuIds : List String) :
    otherEnds (edges.map g) subCuIds = (otherEnds edges subCuIds).map (·.map g) := by
  have htarget (e : Edge) : (g e).target = e.target := target_of_wiring (hg e)
  have hfilter : edges.filter ((fun e : Edge => decide (e.target ∉ subCuIds)) ∘ g) =
      edges.filter (·.target ∉ subCuIds) :=
    List.filter_congr fun e _ => by simp [htarget]
  unfold otherEnds
  rw [List.filter_map, hfilter, List.flatMap_map, List.map_flatMap]
  rfl

/-- How many other edges are on a handle does not depend on the order of the edges. -/
theorem length_othersOn_perm (hperm : (l.map Edge.wiring).Perm (m.map Edge.wiring)) (key : String) :
    (othersOn l subCuIds key).length = (othersOn m subCuIds key).length := by
  have hwiring (edges : List Edge) : (othersOn edges subCuIds key).length =
      (othersOn (edges.map Edge.wiring) subCuIds key).length := by
    have hends := otherEnds_map (g := Edge.wiring) (fun e => rfl) edges subCuIds
    rw [othersOn, othersOn, hends, List.filter_map, List.length_map]
    rfl
  rw [hwiring l, hwiring m]
  exact (((hperm.filter _).flatMap_right _).filter _).length_eq

theorem othersOn_eq_iff {x : EdgeEnd} (hx : x ∈ otherEnds l subCuIds) :
    othersOn l subCuIds x.key = [x] ↔ (othersOn l subCuIds x.key).length = 1 := by
  constructor
  · intro h
    rw [h]
    rfl
  · intro h
    obtain ⟨y, hy⟩ := List.length_eq_one_iff.mp h
    have hmem : x ∈ othersOn l subCuIds x.key := List.mem_filter.mpr ⟨hx, by simp⟩
    rw [hy, List.mem_singleton] at hmem
    rw [hy, hmem]

/-- The remainder of an id. -/
def remainderBy (edges : List Edge) (subCuIds : List String) (toSubCus : List (String × ℚ))
    (id : String) : Option ℚ :=
  get (remainderKwOf edges subCuIds toSubCus) id

theorem otherEnds_cons (e : Edge) (edges : List Edge) (subCuIds : List String) :
    otherEnds (e :: edges) subCuIds =
      (if e.target ∈ subCuIds then [] else [⟨e, true⟩, ⟨e, false⟩]) ++
        otherEnds edges subCuIds := by
  unfold otherEnds
  by_cases htarget : e.target ∈ subCuIds
  · rw [List.filter_cons_of_neg (by simpa using htarget), if_pos htarget, List.nil_append]
  · rw [List.filter_cons_of_pos (by simpa using htarget), if_neg htarget, List.flatMap_cons]

theorem otherEnds_filter_id (edges : List Edge) (subCuIds : List String) (id : String) :
    otherEnds (edges.filter (·.id = id)) subCuIds =
      (otherEnds edges subCuIds).filter fun x => x.edge.id = id := by
  induction edges with
  | nil => rfl
  | cons e edges ih =>
    rw [otherEnds_cons, List.filter_append, ← ih]
    by_cases hid : e.id = id
    · rw [List.filter_cons_of_pos (by simpa using hid), otherEnds_cons]
      split <;> simp [hid]
    · rw [List.filter_cons_of_neg (by simpa using hid)]
      split <;> simp [hid]

/-- It comes from the edges of that id. -/
theorem remainderBy_eq (edges : List Edge) (subCuIds : List String)
    (toSubCus : List (String × ℚ)) (id : String) :
    remainderBy edges subCuIds toSubCus id =
      ((otherEnds (edges.filter (·.id = id)) subCuIds).filterMap fun x =>
        if (get toSubCus x.key).isSome ∧ othersOn edges subCuIds x.key = [x] then
          remainderOf toSubCus (x.key, [x])
        else none).getLast?.map Prod.snd := by
  rw [remainderBy, remainderKwOf, filterMap_siblingsOf, get_foldl_update, get_nil, foldl_last_eq,
    Option.or_none, otherEnds_filter_id, List.filterMap_filter, List.filter_filterMap]
  congr 2
  refine List.filterMap_congr fun x _ => ?_
  split
  · cases hmetered : x.edge.meteredKw with
    | none => simp [remainderOf, hmetered]
    | some metered => by_cases hid : x.edge.id = id <;> simp [remainderOf, hmetered, hid]
  · split <;> rfl

/-- The remainder of an id is the same in two lists with the same edges of that id, where the edges
that are alone with feeds have the same reading. -/
theorem remainderBy_congr {toSubCus : List (String × ℚ)} {id : String} {g : Edge → Edge}
    (hg : ∀ e, (g e).wiring = e.wiring) (hperm : (l.map Edge.wiring).Perm (m.map Edge.wiring))
    (hsame : m.filter (·.id = id) = (l.filter (·.id = id)).map g)
    (hmetered : ∀ x ∈ otherEnds l subCuIds, x.edge.id = id → (get toSubCus x.key).isSome →
      othersOn l subCuIds x.key = [x] → (g x.edge).meteredKw = x.edge.meteredKw) :
    remainderBy l subCuIds toSubCus id = remainderBy m subCuIds toSubCus id := by
  rw [remainderBy_eq, remainderBy_eq, hsame, otherEnds_map hg, List.filterMap_map]
  congr 2
  refine List.filterMap_congr fun x hx => ?_
  rw [otherEnds_filter_id] at hx
  obtain ⟨hx, hid⟩ := List.mem_filter.mp hx
  have hid : x.edge.id = id := by simpa using hid
  have hmem : x.map g ∈ otherEnds m subCuIds := by
    have hmem : x.map g ∈ otherEnds (m.filter (·.id = id)) subCuIds := by
      rw [hsame, otherEnds_map hg, otherEnds_filter_id]
      exact List.mem_map_of_mem (List.mem_filter.mpr ⟨hx, by simpa using hid⟩)
    rw [otherEnds_filter_id] at hmem
    exact (List.mem_filter.mp hmem).1
  have hkey : (x.map g).key = x.key := key_of_wiring (hg x.edge) x.atSource
  have halone : othersOn m subCuIds (x.map g).key = [x.map g] ↔
      othersOn l subCuIds x.key = [x] := by
    rw [othersOn_eq_iff hmem, othersOn_eq_iff hx, hkey, length_othersOn_perm hperm]
  dsimp only [Function.comp_apply]
  rw [if_congr (and_congr_right fun _ => halone) rfl rfl, hkey]
  split
  · rename_i h
    have hidg : (g x.edge).id = x.edge.id := id_of_wiring (hg x.edge)
    simp only [remainderOf, EdgeEnd.map, hmetered x hx hid h.1 h.2, hidg]
    rfl
  · rfl

end Passes

end HomeEnergyManager.Canvas
