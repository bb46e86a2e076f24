import HomeEnergyManager.Price.Recorder
import HomeEnergyManager.Tariff.Recorder
import HomeEnergyManager.Topology.Graph

/-! # The tariff source and what it reported

The tariff source is the Matter endpoint of the node that is wired to the consumer unit's `tariff`
handle. The HTTP task reads it off the graph and assigns it in a section of its own; a report is
checked against it in one section and stored in another; the price recorder asks for it only when a
report arrives, and its tick does not ask at all. A witness notes who reported what is stored.

Reference: `firmware/main/tariff.cpp`, `firmware/main/commodity_price.cpp`.
-/

namespace HomeEnergyManager.Tariff

open StepSystem HomeEnergyManager.Topology

/-- A Matter node and endpoint. -/
abbrev Source := ℕ × ℕ

/-! ## The source in the graph -/

/-- What an edge wires to the `tariff` handle of the consumer unit, at either end. -/
def tariffEnd (e : Edge) : Option String :=
  if e.target = some CONSUMER_UNIT_ID ∧ e.source.isSome ∧ e.targetHandle = some "tariff" then
    e.source
  else if e.source = some CONSUMER_UNIT_ID ∧ e.target.isSome ∧ e.sourceHandle = some "tariff" then
    e.target
  else none

/-- The part of `tariff_refresh_source` that reads the graph. -/
def sourceOf (g : Graph) : Option Source :=
  ((g.edges.findSome? tariffEnd).bind (findNode g.nodes)).bind fun n =>
    n.settings.bind fun settings =>
      match settings.nodeId, settings.endpointId with
      | some nid, some eid => some (toUnsigned 64 nid, toUnsigned 16 eid)
      | _, _ => none

/-- The locked section of `tariff_refresh_source`: another source forgets the old tariff. -/
def assignSource (source : Option Source) (s : State) : State :=
  if source = s.source then s else { source, flushArmed := s.flushArmed }

/-! ## The tasks -/

structure System where
  graph : Graph
  tariff : State
  /-- A report that `tariff_on_attribute` has accepted and not stored yet. -/
  accepted : Option (Source × Report)
  /-- What `tariff_refresh_source` has read and not assigned yet. -/
  refresh : Option (Option Source)
  price : CommodityPrice.System

inductive Event where
  /-- The node manager changes the graph. -/
  | edit (g : Graph)
  /-- `tariff_refresh_source` reads the graph, if memory allows. -/
  | refreshRead (parsed : Bool)
  | refreshAssign
  /-- The first section of `tariff_on_attribute`. -/
  | report (nodeId endpointId : ℕ) (r : Report)
  /-- The section that stores the report. -/
  | store
  /-- The locked section of `on_flush_timer`, which only reads. -/
  | flush
  /-- A step of the price recorder. -/
  | price (e : CommodityPrice.Event)

/-- The CHIP task is in no handler of the price recorder. -/
def priceIdle (p : CommodityPrice.System) : Bool :=
  match p.handler with
  | .idle => true
  | _ => false

/-- What the price recorder sees: `tariff_get_source` answers what is assigned. -/
def System.priceView (s : System) : CommodityPrice.System :=
  { s.price with source := s.tariff.source }

/-- The price recorder's steps; its reports wait until the CHIP task is free, and the source is not
its own to change. -/
def stepPrice (s : System) : CommodityPrice.Event → Option CommodityPrice.System
  | .setSource _ => none
  | .report nodeId endpointId r =>
    if s.accepted.isNone then CommodityPrice.step s.priceView (.report nodeId endpointId r)
    else none
  | e => CommodityPrice.step s.priceView e

def step (s : System) : Event → Option System
  | .edit g => some { s with graph := g }
  | .refreshRead parsed =>
    match s.refresh with
    | none => some { s with refresh := some (if parsed then sourceOf s.graph else none) }
    | some _ => none
  | .refreshAssign =>
    s.refresh.map fun source =>
      { s with tariff := assignSource source s.tariff, refresh := none }
  | .report nodeId endpointId r =>
    if s.accepted.isNone && priceIdle s.price then
      some (if accepts s.tariff nodeId endpointId then
        { s with accepted := some ((nodeId, endpointId), r) } else s)
    else none
  | .store =>
    s.accepted.map fun a => { s with tariff := storeReport a.2 s.tariff, accepted := none }
  | .flush =>
    if s.tariff.flushArmed then some { s with tariff := { s.tariff with flushArmed := false } }
    else none
  | .price e => (stepPrice s e).map fun price => { s with price }

/-- `tariff_init` and `commodity_price_init`. -/
def System.boot (g : Graph) (now : ℤ) (files : DateStr → Option TariffDay) : System where
  graph := g
  tariff := { source := sourceOf g }
  accepted := none
  refresh := none
  price := CommodityPrice.System.boot now (sourceOf g) files

/-! ## Who reported what -/

/-- What is stored of a tariff. -/
inductive Field where
  | currency
  | entries
  | periods
  | components
  | currentDay
  | nextDay
deriving DecidableEq

/-- The stored fields. -/
def Field.all : List Field := [currency, entries, periods, components, currentDay, nextDay]

theorem Field.mem_all (f : Field) : f ∈ all := by cases f <;> decide

/-- A report stores the field. -/
def Report.stores : Report → Field → Bool
  | .tariffInfo _, .currency => true
  | .dayEntries _, .entries => true
  | .tariffPeriods _, .periods => true
  | .tariffComponents _, .components => true
  | .currentDay _, .currentDay => true
  | .nextDay _, .nextDay => true
  | _, _ => false

/-- The price that a report carries, as `apply_price` takes it. -/
def reportedPrice : CommodityPrice.Report → Option CommodityPrice.CurrentPrice
  | .currentPrice v => some (CommodityPrice.decodePrice v)
  | .priceChange v => some (CommodityPrice.decodePrice v)
  | _ => none

/-- `apply_price` makes the price the one in force. -/
def takesOver (s : CommodityPrice.State) (p : CommodityPrice.CurrentPrice) : Bool :=
  !s.current.valid || !p.valid || s.current.start ≤ p.start

/-- A slot that the tick stamped: who reported the price, and which source was assigned. -/
structure TickStamp where
  origin : Option Source
  assigned : Option Source

/-- The reporter of each stored field, of the price report at hand and of the price in force, and
the stamps of the tick. -/
structure Origins where
  fields : Field → Option Source := fun _ => none
  reporter : Option Source := none
  current : Option Source := none
  ticks : List TickStamp := []

/-- What the witness notes at a step of the price recorder. -/
def Origins.nextPrice (s : System) (o : Origins) : CommodityPrice.Event → Origins
  | .report nodeId endpointId _ => { o with reporter := some (nodeId, endpointId) }
  | .handle =>
    match s.price.handler with
    | .accepted r =>
      if (reportedPrice r).any (takesOver s.price.price) then { o with current := o.reporter }
      else o
    | _ => o
  | .tick =>
    if CommodityPrice.tickStamps s.price.now s.price.price then
      { o with ticks := o.ticks ++ [{ origin := o.current, assigned := s.tariff.source }] }
    else o
  | _ => o

/-- What the witness notes at a step from `s`. -/
def Origins.next (s : System) (o : Origins) : Event → Origins
  | .refreshAssign =>
    if s.refresh = some s.tariff.source then o else { o with fields := fun _ => none }
  | .store =>
    match s.accepted with
    | some (source, r) =>
      { o with fields := fun f => if r.stores f then some source else o.fields f }
    | none => o
  | .price e => o.nextPrice s e
  | _ => o

/-- The tasks and the witness. -/
structure Tracked where
  sys : System
  origins : Origins := {}

/-- The witness watches and never steers. -/
def Tracked.step (t : Tracked) (e : Event) : Option Tracked :=
  (Tariff.step t.sys e).map fun sys => { sys, origins := t.origins.next t.sys e }

/-- What is stored was reported by the assigned source, and so was what the tick stamped, by the
source of that moment. -/
structure Unmixed (t : Tracked) : Prop where
  fields : ∀ f source, t.origins.fields f = some source → t.sys.tariff.source = some source
  ticks : ∀ k ∈ t.origins.ticks, ∃ source, k.origin = some source ∧ k.assigned = some source

/-- The source that the price recorder last saw. -/
def remembered (s : CommodityPrice.State) : Option Source :=
  if s.hasSource then some (s.nodeId, s.endpointId) else none

/-- A report is stored while its source is the assigned one, and the tick stamps while the price
recorder has seen the assigned source. -/
def InForce (s : System) : Event → Prop
  | .store => ∀ a ∈ s.accepted, (∃ f ∈ Field.all, a.2.stores f = true) →
      s.tariff.source = some a.1
  | .price .tick => CommodityPrice.tickStamps s.price.now s.price.price = true →
      remembered s.price.price = s.tariff.source
  | _ => True

instance (s : System) : ∀ e, Decidable (InForce s e)
  | .store => inferInstanceAs (Decidable (∀ a ∈ s.accepted, _ → _))
  | .price .tick => inferInstanceAs (Decidable (_ → _))
  | .edit _ | .refreshRead _ | .refreshAssign | .report _ _ _ | .flush | .price (.clock _)
  | .price (.setSource _) | .price (.report _ _ _) | .price .fromSource | .price .handle
  | .price .flushSwap | .price (.flushWrite _) => inferInstanceAs (Decidable True)

/-! ## What the price recorder remembers -/

section Price

variable {s : CommodityPrice.State} {source : Option Source} {now : ℤ} {r : CommodityPrice.Report}

/-- After the section of `from_source` it has seen the answer of `tariff_get_source`. -/
theorem remembered_fromSource : remembered (CommodityPrice.fromSource source s) = source := by
  obtain ⟨hasSource, nodeId, endpointId, currency, decimals, unit, current, pending, armed⟩ := s
  simp only [CommodityPrice.fromSource]
  split
  · cases source <;> rfl
  · rename_i hsame
    simp only [ne_eq, not_or, not_not] at hsame
    obtain ⟨hhas, hnode, hendpoint⟩ := hsame
    cases source with
    | none => simp [remembered, ← hhas]
    | some source =>
      obtain ⟨node, endpoint⟩ := source
      simp [remembered, ← hhas, ← hnode, ← hendpoint]

/-- A price that outlasts that section was there before, under the same source. -/
theorem fromSource_of_valid (h : (CommodityPrice.fromSource source s).current.valid = true) :
    CommodityPrice.fromSource source s = s := by
  simp only [CommodityPrice.fromSource] at h ⊢
  split
  · rename_i hchanged
    rw [if_pos hchanged] at h
    exact absurd h (by simp)
  · rfl

theorem remembered_handleReport :
    remembered (CommodityPrice.handleReport now r s) = remembered s := by
  cases r <;> rfl

/-- The price in force after a report is that of the report or the one before. -/
theorem current_handleReport_of_not (now : ℤ) (h : (reportedPrice r).any (takesOver s) = false) :
    (CommodityPrice.handleReport now r s).current = s.current := by
  cases r with
  | currency v => rfl
  | tariffUnit v => rfl
  | currentPrice v => exact if_neg (by simpa [reportedPrice, takesOver] using h)
  | priceChange v => exact if_neg (by simpa [reportedPrice, takesOver] using h)
  | other => rfl

theorem current_onTick : (CommodityPrice.onTick now s).current = s.current := by
  unfold CommodityPrice.onTick
  split <;> rfl

theorem remembered_onTick : remembered (CommodityPrice.onTick now s) = remembered s := by
  unfold CommodityPrice.onTick
  split <;> rfl

end Price

theorem source_storeReport (r : Report) (s : State) : (storeReport r s).source = s.source := by
  cases r <;> rfl

/-! ## The invariant -/

/-- Beside what is wanted: the report at hand and the price in force are from the source that the
price recorder remembers. -/
structure Inv (t : Tracked) : Prop where
  unmixed : Unmixed t
  asked : ∀ nodeId endpointId source r, t.sys.price.handler = .asked nodeId endpointId source r →
    t.origins.reporter = some (nodeId, endpointId)
  accepted : ∀ r, t.sys.price.handler = .accepted r → ∃ source,
    t.origins.reporter = some source ∧ remembered t.sys.price.price = some source
  current : t.sys.price.price.current.valid = true → ∃ source,
    t.origins.current = some source ∧ remembered t.sys.price.price = some source

namespace Inv

variable {t t' : Tracked} {sys' : System} {p : CommodityPrice.System} {e : CommodityPrice.Event}

theorem boot (g : Graph) (now : ℤ) (files : DateStr → Option TariffDay) :
    Inv { sys := System.boot g now files } where
  unmixed := { fields := fun f source h => by simp at h, ticks := fun k hk => by simp at hk }
  asked := fun nodeId endpointId source r h => by cases h
  accepted := fun r h => by cases h
  current := fun h => by cases h

/-- Where the handler, the price in force and the source seen stay, only what is wanted has to be
shown. -/
theorem of_same (h : Inv t) (hhandler : t'.sys.price.handler = t.sys.price.handler)
    (hremembered : remembered t'.sys.price.price = remembered t.sys.price.price)
    (hcurrent : t'.sys.price.price.current = t.sys.price.price.current)
    (hreporter : t'.origins.reporter = t.origins.reporter)
    (horigin : t'.origins.current = t.origins.current) (hunmixed : Unmixed t') : Inv t' where
  unmixed := hunmixed
  asked := by
    rw [hhandler, hreporter]
    exact h.asked
  accepted := by
    rw [hhandler, hreporter, hremembered]
    exact h.accepted
  current := by
    rw [hcurrent, horigin, hremembered]
    exact h.current

/-- A tick that stamps does so with a price of the source that is remembered. -/
theorem unmixed_tick_iff (h : Inv t)
    (hstamps : CommodityPrice.tickStamps t.sys.price.now t.sys.price.price = true) :
    Unmixed { sys := { t.sys with price := p }, origins := t.origins.nextPrice t.sys .tick } ↔
      remembered t.sys.price.price = t.sys.tariff.source := by
  have hvalid : t.sys.price.price.current.valid = true := by
    simp only [CommodityPrice.tickStamps, Bool.and_eq_true] at hstamps
    exact hstamps.1.1
  obtain ⟨source, horigin, hremembered⟩ := h.current hvalid
  rw [Origins.nextPrice, if_pos hstamps]
  constructor
  · rintro ⟨-, hticks⟩
    obtain ⟨source', hk, hassigned⟩ := hticks _ (List.mem_append_right _ List.mem_cons_self)
    dsimp only at hk hassigned
    rw [hassigned, hremembered, ← horigin, hk]
  · intro heq
    refine ⟨h.unmixed.fields, fun k hk => ?_⟩
    rcases List.mem_append.mp hk with hk | hk
    · exact h.unmixed.ticks k hk
    · rw [List.mem_singleton.mp hk]
      exact ⟨source, horigin, heq ▸ hremembered⟩

/-- Storing a report mixes nothing if and only if its source is assigned or it stores nothing. -/
theorem unmixed_store_iff (h : Inv t) {source : Source} {r : Report}
    (haccepted : t.sys.accepted = some (source, r)) :
    Unmixed { sys := { t.sys with tariff := storeReport r t.sys.tariff, accepted := none },
              origins := t.origins.next t.sys .store } ↔
      ((∃ f ∈ Field.all, r.stores f = true) → t.sys.tariff.source = some source) := by
  rw [Origins.next, haccepted]
  constructor
  · rintro ⟨hfields, -⟩ ⟨f, -, hf⟩
    have hsource := hfields f source (if_pos hf)
    dsimp only at hsource
    rw [source_storeReport] at hsource
    exact hsource
  · intro hsource
    refine ⟨fun f source' hf => ?_, h.unmixed.ticks⟩
    dsimp only at hf ⊢
    rw [source_storeReport]
    split at hf
    · rename_i hstores
      rw [hsource ⟨f, f.mem_all, hstores⟩, hf]
    · exact h.unmixed.fields f source' hf

/-- The handler asks where the report is from. -/
theorem price_report (h : Inv t) {nodeId endpointId : ℕ} {r : CommodityPrice.Report}
    (hstep : stepPrice t.sys (.report nodeId endpointId r) = some p) :
    Inv { sys := { t.sys with price := p },
          origins := t.origins.nextPrice t.sys (.report nodeId endpointId r) } := by
  simp only [stepPrice] at hstep
  split at hstep
  · simp only [CommodityPrice.step] at hstep
    split at hstep
    · obtain rfl := Option.some.inj hstep
      refine ⟨⟨h.unmixed.fields, h.unmixed.ticks⟩, ?_, ?_, h.current⟩
      · rintro nodeId' endpointId' source r' heq
        cases heq
        rfl
      · rintro r' heq
        cases heq
    · cases hstep
  · cases hstep

/-- The handler goes on only with a report of the source that it then remembers. -/
theorem price_fromSource (h : Inv t) (hstep : stepPrice t.sys .fromSource = some p) :
    Inv { sys := { t.sys with price := p }, origins := t.origins.nextPrice t.sys .fromSource } := by
  simp only [stepPrice, CommodityPrice.step] at hstep
  split at hstep
  · rename_i nodeId endpointId source r hhandler
    obtain rfl := Option.some.inj hstep
    have hreporter := h.asked nodeId endpointId source r hhandler
    refine ⟨⟨h.unmixed.fields, h.unmixed.ticks⟩, ?_, ?_, ?_⟩
    · intro nodeId' endpointId' source' r' heq
      dsimp only at heq
      split at heq <;> cases heq
    · intro r' heq
      dsimp only at heq
      split at heq
      · rename_i hfrom
        refine ⟨(nodeId, endpointId), hreporter, ?_⟩
        rw [remembered_fromSource]
        cases source with
        | none => cases hfrom
        | some source =>
          obtain ⟨node, endpoint⟩ := source
          simp only [CommodityPrice.isFromSource, Option.isSome_some, Option.getD_some,
            Bool.true_and, Bool.and_eq_true, beq_iff_eq] at hfrom
          rw [hfrom.1, hfrom.2]
      · cases heq
    · intro hvalid
      have hfixed := fromSource_of_valid hvalid
      dsimp only at hfixed hvalid ⊢
      rw [hfixed] at hvalid ⊢
      exact h.current hvalid
  · cases hstep

/-- The price in force comes from the report at hand, or stays. -/
theorem price_handle (h : Inv t) (hstep : stepPrice t.sys .handle = some p) :
    Inv { sys := { t.sys with price := p }, origins := t.origins.nextPrice t.sys .handle } := by
  simp only [stepPrice, CommodityPrice.step] at hstep
  split at hstep
  · rename_i r hhandler
    obtain rfl := Option.some.inj hstep
    have hhandler : t.sys.price.handler = .accepted r := hhandler
    obtain ⟨source, hreporter, hremembered⟩ := h.accepted r hhandler
    rw [Origins.nextPrice, hhandler]
    dsimp only
    have hkeep : remembered (CommodityPrice.handleReport t.sys.price.now r t.sys.price.price) =
        some source := remembered_handleReport.trans hremembered
    cases htakes : (reportedPrice r).any (takesOver t.sys.price.price) with
    | true =>
      rw [if_pos rfl]
      refine ⟨⟨h.unmixed.fields, h.unmixed.ticks⟩, ?_, ?_, fun _ => ⟨source, hreporter, hkeep⟩⟩
      · rintro nodeId endpointId source' r' heq
        cases heq
      · rintro r' heq
        cases heq
    | false =>
      rw [if_neg Bool.false_ne_true]
      refine ⟨⟨h.unmixed.fields, h.unmixed.ticks⟩, ?_, ?_, fun hvalid => ?_⟩
      · rintro nodeId endpointId source' r' heq
        cases heq
      · rintro r' heq
        cases heq
      · have hcurrent := current_handleReport_of_not t.sys.price.now htakes
        dsimp only [System.priceView] at hvalid ⊢
        rw [hcurrent] at hvalid
        rw [remembered_handleReport]
        exact h.current hvalid
  · cases hstep

theorem price_tick (h : Inv t) (hguard : InForce t.sys (.price .tick))
    (hstep : stepPrice t.sys .tick = some p) :
    Inv { sys := { t.sys with price := p }, origins := t.origins.nextPrice t.sys .tick } := by
  simp only [stepPrice, CommodityPrice.step] at hstep
  split at hstep
  · obtain rfl := Option.some.inj hstep
    refine h.of_same rfl remembered_onTick current_onTick ?_ ?_ ?_
    · rw [Origins.nextPrice]
      split <;> rfl
    · rw [Origins.nextPrice]
      split <;> rfl
    · cases hstamps : CommodityPrice.tickStamps t.sys.price.now t.sys.price.price with
      | true => exact (h.unmixed_tick_iff hstamps).mpr (hguard hstamps)
      | false =>
        rw [Origins.nextPrice, hstamps, if_neg Bool.false_ne_true]
        exact ⟨h.unmixed.fields, h.unmixed.ticks⟩
  · cases hstep

theorem price (h : Inv t) (hguard : InForce t.sys (.price e)) (hstep : stepPrice t.sys e = some p) :
    Inv { sys := { t.sys with price := p }, origins := t.origins.nextPrice t.sys e } := by
  have hsame : Unmixed { sys := { t.sys with price := p }, origins := t.origins } :=
    ⟨h.unmixed.fields, h.unmixed.ticks⟩
  cases e with
  | clock now =>
    obtain rfl := Option.some.inj hstep
    exact h.of_same rfl rfl rfl rfl rfl hsame
  | setSource source => cases hstep
  | report nodeId endpointId r => exact h.price_report hstep
  | fromSource => exact h.price_fromSource hstep
  | handle => exact h.price_handle hstep
  | tick => exact h.price_tick hguard hstep
  | flushSwap =>
    simp only [stepPrice, CommodityPrice.step] at hstep
    split at hstep
    · obtain rfl := Option.some.inj hstep
      exact h.of_same rfl rfl rfl rfl rfl hsame
    · cases hstep
  | flushWrite date =>
    simp only [stepPrice, CommodityPrice.step] at hstep
    split at hstep
    · split at hstep
      · obtain rfl := Option.some.inj hstep
        exact h.of_same rfl rfl rfl rfl rfl hsame
      · cases hstep
    · cases hstep

theorem step (h : Inv t) {e : Event} (hguard : InForce t.sys e) (hstep : t.step e = some t') :
    Inv t' := by
  obtain ⟨sys', hsys, rfl⟩ := Option.map_eq_some_iff.mp hstep
  cases e with
  | edit g =>
    obtain rfl := Option.some.inj hsys
    exact h.of_same rfl rfl rfl rfl rfl ⟨h.unmixed.fields, h.unmixed.ticks⟩
  | refreshRead parsed =>
    simp only [Tariff.step] at hsys
    split at hsys
    · obtain rfl := Option.some.inj hsys
      exact h.of_same rfl rfl rfl rfl rfl ⟨h.unmixed.fields, h.unmixed.ticks⟩
    · cases hsys
  | refreshAssign =>
    obtain ⟨source, hrefresh, rfl⟩ := Option.map_eq_some_iff.mp hsys
    simp only [Origins.next, hrefresh, Option.some.injEq, assignSource]
    split
    · exact h.of_same rfl rfl rfl rfl rfl ⟨h.unmixed.fields, h.unmixed.ticks⟩
    · refine h.of_same rfl rfl rfl rfl rfl ⟨fun f source' hf => ?_, h.unmixed.ticks⟩
      exact absurd hf (by simp)
  | report nodeId endpointId r =>
    simp only [Tariff.step] at hsys
    split at hsys
    · obtain rfl := Option.some.inj hsys
      split
      · exact h.of_same rfl rfl rfl rfl rfl ⟨h.unmixed.fields, h.unmixed.ticks⟩
      · exact h
    · cases hsys
  | store =>
    obtain ⟨⟨source, r⟩, haccepted, rfl⟩ := Option.map_eq_some_iff.mp hsys
    have hunmixed := (h.unmixed_store_iff haccepted).mpr (hguard (source, r) haccepted)
    have horigins : (t.origins.next t.sys .store).reporter = t.origins.reporter ∧
        (t.origins.next t.sys .store).current = t.origins.current := by
      rw [Origins.next, haccepted]
      exact ⟨rfl, rfl⟩
    exact h.of_same rfl rfl rfl horigins.1 horigins.2 hunmixed
  | flush =>
    simp only [Tariff.step] at hsys
    split at hsys
    · obtain rfl := Option.some.inj hsys
      exact h.of_same rfl rfl rfl rfl rfl ⟨h.unmixed.fields, h.unmixed.ticks⟩
    · cases hsys
  | price e =>
    obtain ⟨p, hp, rfl⟩ := Option.map_eq_some_iff.mp hsys
    exact h.price hguard hp

/-- A step outside of the condition mixes at once. -/
theorem breaks (h : Inv t) {e : Event} (hguard : ¬ InForce t.sys e) (hstep : t.step e = some t') :
    ¬ Unmixed t' := by
  obtain ⟨sys', hsys, rfl⟩ := Option.map_eq_some_iff.mp hstep
  cases e with
  | store =>
    obtain ⟨⟨source, r⟩, haccepted, rfl⟩ := Option.map_eq_some_iff.mp hsys
    intro hunmixed
    refine hguard fun a ha => ?_
    obtain rfl : (source, r) = a := Option.some.inj (haccepted.symm.trans ha)
    exact (h.unmixed_store_iff haccepted).mp hunmixed
  | price e =>
    obtain ⟨p, hp, rfl⟩ := Option.map_eq_some_iff.mp hsys
    cases e with
    | tick =>
      intro hunmixed
      exact hguard fun hstamps => (h.unmixed_tick_iff hstamps).mp hunmixed
    | clock now => exact absurd trivial hguard
    | setSource source => exact absurd trivial hguard
    | report nodeId endpointId r => exact absurd trivial hguard
    | fromSource => exact absurd trivial hguard
    | handle => exact absurd trivial hguard
    | flushSwap => exact absurd trivial hguard
    | flushWrite date => exact absurd trivial hguard
  | edit g => exact absurd trivial hguard
  | refreshRead parsed => exact absurd trivial hguard
  | refreshAssign => exact absurd trivial hguard
  | report nodeId endpointId r => exact absurd trivial hguard
  | flush => exact absurd trivial hguard

end Inv

/-- Sources are never mixed in a run if and only if every report is stored while its source is the
assigned one, and every tick that stamps does so while the price recorder has seen the assigned
source. -/
theorem unmixed_iff (g : Graph) (now : ℤ) (files : DateStr → Option TariffDay) {es : List Event}
    {t : Tracked} (hrun : run Tracked.step { sys := System.boot g now files } es = some t) :
    Always Tracked.step Unmixed { sys := System.boot g now files } es ↔
      Meets Tracked.step (fun t e => InForce t.sys e) { sys := System.boot g now files } es :=
  always_iff_meets (fun _ h => h.unmixed) (fun _ _ _ h => h.step) (fun _ _ _ h => h.breaks)
    (Inv.boot g now files) hrun

/-- A tariff device is wired to the consumer unit. -/
def tariffGraph (nodeId : ℚ) : Graph where
  nodes := [{ id := some "consumer_unit" },
    { id := some "tariff", settings := some { nodeId := some nodeId, endpointId := some 1 } }]
  edges := [⟨some "tariff", some "consumer_unit", some "tariff-out", some "tariff"⟩]

/-- A report and a price arrive and the tick stamps, then the source changes for good. -/
def changeOfSource : List Event :=
  [.report 10000 1 (.dayEntries [⟨1, 0, -1⟩]), .store, .flush,
    .price (.report 10000 1 (.currentPrice (some ⟨0, none, some 12⟩))), .price .fromSource,
    .price .handle, .price .tick, .edit (tariffGraph 10001), .refreshRead true, .refreshAssign,
    .report 10001 1 (.tariffInfo (some (826, 2))), .store,
    .price (.report 10001 1 (.currentPrice none)), .price .fromSource, .price .handle, .price .tick]

theorem changeOfSource_unmixed :
    Always Tracked.step Unmixed { sys := System.boot (tariffGraph 10000) 946684900 fun _ => none }
      changeOfSource := by
  obtain ⟨t, ht⟩ : ∃ t, run Tracked.step
      { sys := System.boot (tariffGraph 10000) 946684900 fun _ => none } changeOfSource = some t :=
    ⟨_, rfl⟩
  exact (unmixed_iff _ _ _ ht).mpr (by decide)

/-- A report is accepted, its source is replaced, and then it is stored. -/
def lateStore : List Event :=
  [.report 10000 1 (.dayEntries [⟨1, 0, -1⟩]), .edit (tariffGraph 10001), .refreshRead true,
    .refreshAssign, .store]

theorem late_store_mixes : ¬ ∀ (g : Graph) (now : ℤ) (files : DateStr → Option TariffDay)
    (es : List Event) (t : Tracked),
    run Tracked.step { sys := System.boot g now files } es = some t →
    Always Tracked.step Unmixed { sys := System.boot g now files } es := by
  intro h
  have halways := h (tariffGraph 10000) 946684900 (fun _ => none) lateStore _ rfl
  have hunmixed := halways.last rfl
  have hsource := hunmixed.fields .entries (10000, 1) rfl
  exact absurd hsource (by decide)

end HomeEnergyManager.Tariff
