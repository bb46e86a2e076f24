import Mathlib.Data.Multiset.Bind
import HomeEnergyManager.Lib.Best
import HomeEnergyManager.Tariff.Resolve

/-! # The price in force

`resolve_day` joins the entries of a day, the periods that list them and the components of these
periods. Here the join is stated without an order, over multisets, and the loops are shown to
compute it.

Reference: `firmware/main/tariff.cpp`.
-/

namespace HomeEnergyManager.Tariff

/-! ## What the price should be -/

/-- The priced components of an entry, as often as the periods that list it name them. -/
def pricedComponents (periods : List Period) (components : List Component) (entryId : ℕ) :
    Multiset Component :=
  ((periods : Multiset Period).filter fun p => entryId ∈ p.entryIds).bind fun p =>
    (p.componentIds : Multiset ℕ).bind fun cid =>
      (components : Multiset Component).filter fun c => c.id = cid ∧ c.price.isSome

/-- The price that components make: the sum of those without a threshold, else the price of the one
with the lowest threshold, else none. -/
inductive IsEntryPrice (cs : Multiset Component) : Option ℤ → Prop
  | sum (h : ∃ c ∈ cs, c.threshold = none) :
    IsEntryPrice cs
      (some ((cs.filter fun c => c.threshold = none).map fun c => c.price.getD 0).sum)
  | block (h : ∀ c ∈ cs, c.threshold.isSome) (c : Component) (hc : c ∈ cs)
    (hlowest : ∀ c' ∈ cs, c.threshold.getD 0 ≤ c'.threshold.getD 0) : IsEntryPrice cs c.price
  | none (h : cs = 0) : IsEntryPrice cs none

/-- The day's entry with the latest start not after a minute. -/
structure IsLatest (entries : List DayEntry) (entryIds : List ℕ) (minute : ℤ) (e : DayEntry) :
    Prop where
  mem : e ∈ entries
  day : e.id ∈ entryIds
  started : e.start ≤ minute
  latest : ∀ e' ∈ entries, e'.id ∈ entryIds → e'.start ≤ minute → e'.start ≤ e.start

/-- The price in force at a minute; `none` if no entry has started or its duration has elapsed. -/
inductive InForceAt (entries : List DayEntry) (periods : List Period) (components : List Component)
    (entryIds : List ℕ) (minute : ℤ) : Option ℤ → Prop
  | notStarted (h : ∀ e ∈ entries, e.id ∈ entryIds → minute < e.start) :
    InForceAt entries periods components entryIds minute none
  | elapsed (e : DayEntry) (h : IsLatest entries entryIds minute e) (hduration : 0 ≤ e.duration)
    (helapsed : e.start + e.duration ≤ minute) :
    InForceAt entries periods components entryIds minute none
  | price (e : DayEntry) (h : IsLatest entries entryIds minute e)
    (hrunning : 0 ≤ e.duration → minute < e.start + e.duration) (price : Option ℤ)
    (hprice : IsEntryPrice (pricedComponents periods components e.id) price) :
    InForceAt entries periods components entryIds minute price

/-- No two entries of the day start together, and no two components of one of them have the same
threshold. -/
structure Unambiguous (entries : List DayEntry) (periods : List Period)
    (components : List Component) (entryIds : List ℕ) : Prop where
  starts : ∀ e ∈ entries, ∀ e' ∈ entries, e.id ∈ entryIds → e'.id ∈ entryIds →
    e.start = e'.start → e = e'
  thresholds : ∀ e ∈ entries, e.id ∈ entryIds →
    ∀ c ∈ pricedComponents periods components e.id,
    ∀ c' ∈ pricedComponents periods components e.id,
    c.threshold.isSome → c.threshold = c'.threshold → c = c'

/-! ## The components of an entry -/

/-- The priced components in the order of the loops. -/
def listedComponents (periods : List Period) (components : List Component) (entryId : ℕ) :
    List Component :=
  (periods.filter fun p => entryId ∈ p.entryIds).flatMap fun p =>
    p.componentIds.flatMap fun cid => components.filter fun c => c.id = cid ∧ c.price.isSome

theorem coe_listedComponents (periods : List Period) (components : List Component) (entryId : ℕ) :
    (listedComponents periods components entryId : Multiset Component)
      = pricedComponents periods components entryId := by
  unfold listedComponents pricedComponents
  rw [← Multiset.coe_bind, Multiset.filter_coe]
  refine Multiset.bind_congr fun p _ => ?_
  rw [← Multiset.coe_bind]
  rfl

/-- The innermost pass, for a priced component. -/
def addPriced (st : PriceSum) (c : Component) : PriceSum :=
  match c.threshold with
  | none => { st with total := st.total + c.price.getD 0, found := true }
  | some threshold =>
    { st with block := Best.keep Prod.fst st.block (threshold, c.price.getD 0) }

theorem addComponent_eq (cid : ℕ) (st : PriceSum) (c : Component) :
    addComponent cid st c = if c.id = cid ∧ c.price.isSome then addPriced st c else st := by
  obtain ⟨id, price, threshold⟩ := c
  unfold addComponent addPriced
  dsimp only
  by_cases hid : id = cid
  · rw [if_neg (not_not.mpr hid)]
    cases price with
    | none => rw [if_neg (fun h => Bool.false_ne_true h.2)]
    | some price =>
      rw [if_pos ⟨hid, rfl⟩]
      cases threshold with
      | none => rfl
      | some threshold =>
        dsimp only [Best.keep]
        split <;> rfl
  · rw [if_pos hid, if_neg (fun h => hid h.1)]

/-- The three loops are one loop over the listed components. -/
theorem foldl_listedComponents (periods : List Period) (components : List Component)
    (entryId : ℕ) (st : PriceSum) :
    periods.foldl
      (fun st p =>
        if entryId ∈ p.entryIds then
          p.componentIds.foldl (fun st cid => components.foldl (addComponent cid) st) st
        else st) st
      = (listedComponents periods components entryId).foldl addPriced st := by
  unfold listedComponents
  rw [List.foldl_flatMap, List.foldl_filter]
  congr 1
  funext st p
  simp only [decide_eq_true_eq]
  refine if_congr Iff.rfl ?_ rfl
  rw [List.foldl_flatMap]
  congr 1
  funext st cid
  rw [List.foldl_filter]
  congr 1
  funext st c
  rw [addComponent_eq]
  simp only [decide_eq_true_eq]

/-- The blocks among the components, with their prices. -/
def blocks (l : List Component) : List (ℤ × ℤ) :=
  (l.filter (·.threshold.isSome)).map fun c => (c.threshold.getD 0, c.price.getD 0)

/-- What the loop has found after some components. -/
theorem foldl_addPriced (l : List Component) (st : PriceSum) :
    l.foldl addPriced st =
      { found := st.found || l.any fun c => c.threshold = none
        total := st.total + ((l.filter fun c => c.threshold = none).map fun c => c.price.getD 0).sum
        block := (blocks l).foldl (Best.keep Prod.fst) st.block } := by
  induction l generalizing st with
  | nil => simp [blocks]
  | cons c l ih =>
    rw [List.foldl_cons, ih]
    unfold addPriced blocks
    cases hthreshold : c.threshold with
    | none => simp [hthreshold, add_assoc]
    | some threshold => simp [hthreshold]

/-- `entry_price` is the price that the components make. -/
theorem exists_entryPrice (periods : List Period) (components : List Component) (entryId : ℕ) :
    ∃ price, IsEntryPrice (pricedComponents periods components entryId) price ∧
      entryPrice periods components entryId = price.getD TARIFF_NO_PRICE := by
  have hpriced : ∀ c ∈ listedComponents periods components entryId, c.price.isSome := by
    intro c hc
    obtain ⟨p, -, hc⟩ := List.mem_flatMap.mp hc
    obtain ⟨cid, -, hc⟩ := List.mem_flatMap.mp hc
    exact (of_decide_eq_true (List.mem_filter.mp hc).2).2
  unfold entryPrice
  dsimp only
  rw [foldl_listedComponents, ← coe_listedComponents, foldl_addPriced]
  generalize listedComponents periods components entryId = l at hpriced ⊢
  dsimp only
  rw [Bool.false_or, zero_add]
  by_cases hflat : ∃ c ∈ l, c.threshold = none
  · rw [if_pos (List.any_eq_true.mpr (by simpa using hflat))]
    exact ⟨_, .sum hflat, rfl⟩
  · rw [if_neg (fun h => hflat (by simpa using List.any_eq_true.mp h))]
    have hblocks : ∀ c ∈ l, c.threshold.isSome := fun c hc =>
      Option.isSome_iff_ne_none.mpr fun hnone => hflat ⟨c, hc, hnone⟩
    have hall : blocks l = l.map fun c => (c.threshold.getD 0, c.price.getD 0) := by
      unfold blocks
      rw [List.filter_eq_self.mpr hblocks]
    rw [hall]
    cases hbest : (l.map fun c => (c.threshold.getD 0, c.price.getD 0)).foldl
      (Best.keep Prod.fst) none with
    | none =>
      have hnil : l = [] := List.map_eq_nil_iff.mp (Best.foldl_keep_eq_none_iff.mp hbest)
      exact ⟨none, .none (by rw [hnil]; rfl), rfl⟩
    | some b =>
      obtain ⟨hmem, hle⟩ := Best.isBest_of_foldl_keep hbest
      obtain ⟨c, hc, rfl⟩ := List.mem_map.mp hmem
      refine ⟨c.price, .block hblocks c hc fun c' hc' => ?_, ?_⟩
      · exact hle _ (List.mem_map_of_mem hc')
      · rw [Option.elim_some]
        obtain ⟨price, hprice⟩ := Option.isSome_iff_exists.mp (hpriced c hc)
        rw [hprice]
        rfl

/-- Components with distinct thresholds make one price. -/
theorem IsEntryPrice.unique {cs : Multiset Component}
    (hcs : ∀ c ∈ cs, ∀ c' ∈ cs, c.threshold.isSome → c.threshold = c'.threshold → c = c')
    {price price' : Option ℤ} (h : IsEntryPrice cs price) (h' : IsEntryPrice cs price') :
    price = price' := by
  cases h with
  | sum h =>
    obtain ⟨c, hc, hnone⟩ := h
    cases h' with
    | sum _ => rfl
    | block hblocks _ _ _ => exact absurd (hblocks c hc) (by rw [hnone]; decide)
    | none hempty => exact absurd (hempty ▸ hc) (Multiset.notMem_zero c)
  | block hblocks c hc hlowest =>
    cases h' with
    | sum h' =>
      obtain ⟨c', hc', hnone⟩ := h'
      exact absurd (hblocks c' hc') (by rw [hnone]; decide)
    | block _ c' hc' hlowest' =>
      obtain ⟨t, ht⟩ := Option.isSome_iff_exists.mp (hblocks c hc)
      obtain ⟨t', ht'⟩ := Option.isSome_iff_exists.mp (hblocks c' hc')
      have hle := hlowest c' hc'
      have hge := hlowest' c hc
      rw [ht, ht', Option.getD_some, Option.getD_some] at hle hge
      rw [hcs c hc c' hc' (hblocks c hc) (by rw [ht, ht', le_antisymm hle hge])]
    | none hempty => exact absurd (hempty ▸ hc) (Multiset.notMem_zero c)
  | none hempty =>
    subst hempty
    cases h' with
    | sum h' =>
      obtain ⟨c, hc, -⟩ := h'
      exact absurd hc (Multiset.notMem_zero c)
    | block _ c hc _ => exact absurd hc (Multiset.notMem_zero c)
    | none _ => rfl

/-! ## The entry in force -/

/-- The entries that have started, in the order of the loops. -/
def startedEntries (entries : List DayEntry) (entryIds : List ℕ) (minute : ℤ) : List DayEntry :=
  entryIds.flatMap fun id => entries.filter fun e => e.id = id ∧ e.start ≤ minute

theorem mem_startedEntries {entries : List DayEntry} {entryIds : List ℕ} {minute : ℤ}
    {e : DayEntry} :
    e ∈ startedEntries entries entryIds minute ↔
      e ∈ entries ∧ e.id ∈ entryIds ∧ e.start ≤ minute := by
  unfold startedEntries
  simp only [List.mem_flatMap, List.mem_filter, decide_eq_true_eq]
  constructor
  · rintro ⟨id, hid, he, rfl, hstart⟩
    exact ⟨he, hid, hstart⟩
  · rintro ⟨he, hid, hstart⟩
    exact ⟨e.id, hid, he, rfl, hstart⟩

/-- Both loops look for the latest start. -/
theorem foldl_laterEntry (entries : List DayEntry) (entryIds : List ℕ) (minute : ℤ) :
    entryIds.foldl (fun best id => entries.foldl (laterEntry id minute) best) none
      = (startedEntries entries entryIds minute).foldl (Best.keep fun e => -e.start) none := by
  unfold startedEntries
  rw [List.foldl_flatMap]
  congr 1
  funext best id
  rw [List.foldl_filter]
  congr 1
  funext best e
  unfold laterEntry Best.keep
  simp only [decide_eq_true_eq, neg_lt_neg_iff]
  by_cases h : e.id = id ∧ e.start ≤ minute
  · rw [if_pos h, if_neg (by omega)]
  · rw [if_neg h, if_pos (by omega)]

theorem isLatest_iff {entries : List DayEntry} {entryIds : List ℕ} {minute : ℤ} {e : DayEntry} :
    Best.IsBest (fun e : DayEntry => -e.start) (startedEntries entries entryIds minute) e ↔
      IsLatest entries entryIds minute e := by
  unfold Best.IsBest
  simp only [mem_startedEntries, neg_le_neg_iff]
  constructor
  · rintro ⟨⟨hmem, hday, hstart⟩, hlatest⟩
    exact ⟨hmem, hday, hstart, fun e' he' hday' hstart' => hlatest e' ⟨he', hday', hstart'⟩⟩
  · intro h
    exact ⟨⟨h.mem, h.day, h.started⟩, fun e' he' => h.latest e' he'.1 he'.2.1 he'.2.2⟩

/-- A slot has the price that is in force at its first minute. -/
theorem exists_inForceAt (entries : List DayEntry) (periods : List Period)
    (components : List Component) (day : Day) (slot : Fin TARIFF_SLOTS) :
    ∃ price, InForceAt entries periods components day.entryIds (slot * TARIFF_SLOT_MINUTES) price ∧
      resolveDay entries periods components day slot = price.getD TARIFF_NO_PRICE := by
  unfold resolveDay entryAt
  rw [foldl_laterEntry]
  generalize (slot : ℤ) * TARIFF_SLOT_MINUTES = minute
  cases hbest : (startedEntries entries day.entryIds minute).foldl
    (Best.keep fun e => -e.start) none with
  | none =>
    have hnil := Best.foldl_keep_eq_none_iff.mp hbest
    refine ⟨none, .notStarted fun e he hid => ?_, rfl⟩
    by_contra hstart
    have hmem := mem_startedEntries.mpr ⟨he, hid, not_lt.mp hstart⟩
    rw [hnil] at hmem
    exact absurd hmem List.not_mem_nil
  | some e =>
    have hlatest := isLatest_iff.mp (Best.isBest_of_foldl_keep hbest)
    by_cases helapsed : 0 ≤ e.duration ∧ e.start + e.duration ≤ minute
    · refine ⟨none, .elapsed e hlatest helapsed.1 helapsed.2, ?_⟩
      rw [Option.filter_some_neg (by simpa using helapsed)]
      rfl
    · obtain ⟨price, hprice, heq⟩ := exists_entryPrice periods components e.id
      refine ⟨price, .price e hlatest (fun h => ?_) price hprice, ?_⟩
      · exact not_le.mp fun hle => helapsed ⟨h, hle⟩
      · have hrunning : (!(decide (0 ≤ e.duration) && decide (e.start + e.duration ≤ minute)))
            = true := by
          rw [Bool.not_eq_true', Bool.and_eq_false_iff, decide_eq_false_iff_not,
            decide_eq_false_iff_not]
          exact not_and_or.mp helapsed
        rw [Option.filter_some, if_pos hrunning]
        exact heq

section Order

variable {entries entries' : List DayEntry} {periods periods' : List Period}
  {components components' : List Component} {ids ids' : List ℕ}

/-- Of entries with distinct starts one is the latest. -/
theorem IsLatest.unique (h : Unambiguous entries periods components ids) {minute : ℤ}
    {e e' : DayEntry} (he : IsLatest entries ids minute e) (he' : IsLatest entries ids minute e') :
    e = e' :=
  h.starts e he.mem e' he'.mem he.day he'.day
    (le_antisymm (he'.latest e he.mem he.day he.started) (he.latest e' he'.mem he'.day he'.started))

/-- One price is in force. -/
theorem InForceAt.unique (h : Unambiguous entries periods components ids) {minute : ℤ}
    {price price' : Option ℤ} (hp : InForceAt entries periods components ids minute price)
    (hp' : InForceAt entries periods components ids minute price') : price = price' := by
  cases hp with
  | notStarted hnone =>
    cases hp' with
    | notStarted _ => rfl
    | elapsed e he _ _ => exact absurd (hnone e he.mem he.day) he.started.not_gt
    | price e he _ _ _ => exact absurd (hnone e he.mem he.day) he.started.not_gt
  | elapsed e he hduration helapsed =>
    cases hp' with
    | notStarted _ => rfl
    | elapsed _ _ _ _ => rfl
    | price e' he' hrunning _ _ =>
      obtain rfl := he.unique h he'
      exact absurd (hrunning hduration) helapsed.not_gt
  | price e he hrunning _ hprice =>
    cases hp' with
    | notStarted hnone => exact absurd (hnone e he.mem he.day) he.started.not_gt
    | elapsed e' he' hduration helapsed =>
      obtain rfl := he.unique h he'
      exact absurd (hrunning hduration) helapsed.not_gt
    | price e' he' _ _ hprice' =>
      obtain rfl := he.unique h he'
      exact hprice.unique (h.thresholds e he.mem he.day) hprice'

/-- Two periods that list the same ids, in any order. -/
def Period.Reordered (p p' : Period) : Prop :=
  p.entryIds.Perm p'.entryIds ∧ p.componentIds.Perm p'.componentIds

/-- Periods in any order, with their ids in any order. -/
def PeriodsReordered (periods periods' : List Period) : Prop :=
  ∃ ps, List.Forall₂ Period.Reordered periods ps ∧ ps.Perm periods'

/-- Reordering a period reorders what it lists. -/
theorem pricedComponents_congr (hperiods : PeriodsReordered periods periods')
    (hcomponents : components.Perm components') (entryId : ℕ) :
    pricedComponents periods components entryId
      = pricedComponents periods' components' entryId := by
  obtain ⟨ps, hforall, hperm⟩ := hperiods
  unfold pricedComponents
  rw [← Multiset.coe_eq_coe.mpr hperm, ← Multiset.coe_eq_coe.mpr hcomponents]
  clear hperm
  induction hforall with
  | nil => rfl
  | cons hp _ ih =>
    rename_i p p' _ _ _
    have hids : (p.componentIds : Multiset ℕ) = p'.componentIds := Multiset.coe_eq_coe.mpr hp.2
    have hmem : entryId ∈ p.entryIds ↔ entryId ∈ p'.entryIds := hp.1.mem_iff
    rw [← Multiset.cons_coe, ← Multiset.cons_coe, Multiset.filter_cons, Multiset.filter_cons,
      Multiset.add_bind, Multiset.add_bind, ih]
    congr 1
    by_cases hlisted : entryId ∈ p.entryIds
    · rw [if_pos hlisted, if_pos (hmem.mp hlisted), Multiset.singleton_bind,
        Multiset.singleton_bind, hids]
    · rw [if_neg hlisted, if_neg fun h => hlisted (hmem.mpr h)]

theorem IsLatest.congr (hentries : entries.Perm entries') (hids : ids.Perm ids') {minute : ℤ}
    {e : DayEntry} (h : IsLatest entries ids minute e) : IsLatest entries' ids' minute e where
  mem := hentries.mem_iff.mp h.mem
  day := hids.mem_iff.mp h.day
  started := h.started
  latest e' he' hday := h.latest e' (hentries.mem_iff.mpr he') (hids.mem_iff.mpr hday)

/-- The price in force does not depend on any order. -/
theorem InForceAt.congr (hentries : entries.Perm entries')
    (hperiods : PeriodsReordered periods periods') (hcomponents : components.Perm components')
    (hids : ids.Perm ids') {minute : ℤ} {price : Option ℤ}
    (h : InForceAt entries periods components ids minute price) :
    InForceAt entries' periods' components' ids' minute price := by
  cases h with
  | notStarted h =>
    exact .notStarted fun e he hid => h e (hentries.mem_iff.mpr he) (hids.mem_iff.mpr hid)
  | elapsed e he hduration helapsed =>
    exact .elapsed e (he.congr hentries hids) hduration helapsed
  | price e he hrunning _ hprice =>
    refine .price e (he.congr hentries hids) hrunning price ?_
    rwa [← pricedComponents_congr hperiods hcomponents]

/-- Nor does it matter for what is ambiguous. -/
theorem Unambiguous.congr (hentries : entries.Perm entries')
    (hperiods : PeriodsReordered periods periods') (hcomponents : components.Perm components')
    (hids : ids.Perm ids') (h : Unambiguous entries periods components ids) :
    Unambiguous entries' periods' components' ids' where
  starts e he e' he' hid hid' := h.starts e (hentries.mem_iff.mpr he) e' (hentries.mem_iff.mpr he')
    (hids.mem_iff.mpr hid) (hids.mem_iff.mpr hid')
  thresholds e he hid := by
    rw [← pricedComponents_congr hperiods hcomponents]
    exact h.thresholds e (hentries.mem_iff.mpr he) (hids.mem_iff.mpr hid)

end Order

/-- For every tariff in which no two entries of the day start together and no two components of one
of them have the same threshold: `resolve_day` gives each slot the one price that is in force at its
first minute, and the same prices for any order of any of the lists. -/
theorem resolveDay_correct (entries : List DayEntry) (periods : List Period)
    (components : List Component) (day : Day)
    (h : Unambiguous entries periods components day.entryIds) :
    (∀ slot : Fin TARIFF_SLOTS, ∀ price,
      InForceAt entries periods components day.entryIds (slot * TARIFF_SLOT_MINUTES) price →
        resolveDay entries periods components day slot = price.getD TARIFF_NO_PRICE) ∧
    (∀ slot : Fin TARIFF_SLOTS, ∃! price,
      InForceAt entries periods components day.entryIds (slot * TARIFF_SLOT_MINUTES) price) ∧
    ∀ entries' periods' components' entryIds', entries.Perm entries' →
      PeriodsReordered periods periods' → components.Perm components' →
      day.entryIds.Perm entryIds' →
        resolveDay entries' periods' components' { day with entryIds := entryIds' }
          = resolveDay entries periods components day := by
  refine ⟨fun slot price hprice => ?_, fun slot => ?_, ?_⟩
  · obtain ⟨price', hprice', heq⟩ := exists_inForceAt entries periods components day slot
    rw [heq, hprice'.unique h hprice]
  · obtain ⟨price, hprice, -⟩ := exists_inForceAt entries periods components day slot
    exact ⟨price, hprice, fun price' hprice' => hprice'.unique h hprice⟩
  · intro entries' periods' components' entryIds' hentries hperiods hcomponents hids
    funext slot
    obtain ⟨price, hprice, heq⟩ := exists_inForceAt entries periods components day slot
    obtain ⟨price', hprice', heq'⟩ := exists_inForceAt entries' periods' components'
      { day with entryIds := entryIds' } slot
    have hsame := (hprice.congr hentries hperiods hcomponents hids).unique
      (h.congr hentries hperiods hcomponents hids) hprice'
    rw [heq, heq', hsame]

/-- A night entry from midnight and a day entry from 07:00, each in its own period. -/
def twoRates : List DayEntry × List Period × List Component :=
  ([{ id := 1, start := 0, duration := -1 }, { id := 2, start := 420, duration := -1 }],
    [{ entryIds := [1], componentIds := [10] }, { entryIds := [2], componentIds := [20, 21] }],
    [{ id := 10, price := some 9, threshold := none },
      { id := 20, price := some 30, threshold := none },
      { id := 21, price := some 5, threshold := none }])

/-- In any order of the entries a slot of the day has both components of the day's period. -/
theorem resolveDay_correct_twoRates :
    resolveDay twoRates.1.reverse twoRates.2.1 twoRates.2.2 { entryIds := [1, 2] } ⟨40, by decide⟩
      = 35 := by
  have h : Unambiguous twoRates.1 twoRates.2.1 twoRates.2.2 [1, 2] := by
    constructor
    · decide
    · decide
  rw [(resolveDay_correct twoRates.1 twoRates.2.1 twoRates.2.2 { entryIds := [1, 2] } h).2.2
    twoRates.1.reverse twoRates.2.1 twoRates.2.2 [1, 2] (List.reverse_perm _).symm
    ⟨_, List.forall₂_same.mpr fun _ _ => ⟨.refl _, .refl _⟩, .refl _⟩ (.refl _) (.refl _)]
  decide

end HomeEnergyManager.Tariff
