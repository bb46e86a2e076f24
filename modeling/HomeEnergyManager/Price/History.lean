import Mathlib.Data.Rat.Defs
import Mathlib.Tactic.Ring
import Mathlib.Tactic.NormNum
import HomeEnergyManager.Price.Recorder

/-! # What the recorded prices say

Beside the recorder runs a witness of what each slot was stamped with: the price, and the currency
and the decimals that the source had last reported. A day file has one header for all its slots,
that of the flush that wrote it last, so a file says what its slots were stamped with as long as the
header does not change between stamp and flush, nor between two flushes of one day.
-/

namespace HomeEnergyManager.CommodityPrice

abbrev SlotKey := DateStr × Fin TARIFF_SLOTS

/-- What a slot is stamped with. -/
structure Stamp where
  price : ℤ
  currency : ℕ
  decimals : ℕ
deriving DecidableEq, Repr

/-- The stamps of the slots on their way to the day files, and the last one of each slot. -/
structure Stamps where
  pending : SlotKey → Option Stamp
  flushing : SlotKey → Option Stamp
  recorded : SlotKey → Option Stamp
  last : SlotKey → Option Stamp

/-- The slots in `ts` are stamped with `price` under the header of `s`. -/
def Stamps.stamp (ts : List ℤ) (price : ℤ) (s : State) (g : Stamps) : Stamps :=
  let st : Stamp := { price := price, currency := s.currency, decimals := s.decimals }
  { g with
    pending := fun k => if k ∈ ts.map slotKey then some st else g.pending k
    last := fun k => if k ∈ ts.map slotKey then some st else g.last k }

/-- The instants and the price that an accepted report stamps. -/
def Report.stamps (now : ℤ) : Report → List ℤ × ℤ
  | .currentPrice v => (stampedTimes now (decodePrice v), (decodePrice v).price)
  | .priceChange v => (stampedTimes now (decodePrice v), (decodePrice v).price)
  | _ => ([], 0)

/-- What the witness notes at a step from `s`. -/
def Stamps.next (s : System) (g : Stamps) : Event → Stamps
  | .clock _ | .setSource _ | .report _ _ _ | .fromSource => g
  | .handle =>
    match s.handler with
    | .accepted r => g.stamp (r.stamps s.now).1 (r.stamps s.now).2 s.price
    | _ => g
  | .tick =>
    if tickStamps s.now s.price then g.stamp [s.now] s.price.current.price s.price else g
  | .flushSwap => { g with flushing := g.pending, pending := fun _ => none }
  | .flushWrite date =>
    { g with
      flushing := fun k => if k.1 = date then none else g.flushing k
      recorded := fun k => if k.1 = date then (g.flushing k).or (g.recorded k) else g.recorded k }

/-- The recorder and its witness. -/
structure Tracked where
  sys : System
  stamps : Stamps

/-- The witness watches and never steers. -/
def Tracked.step (t : Tracked) (e : Event) : Option Tracked :=
  (CommodityPrice.step t.sys e).map fun s => { sys := s, stamps := t.stamps.next t.sys e }

/-- The stamps that the files of an earlier run are taken to have. -/
def Stamps.ofFiles (files : DateStr → Option TariffDay) : SlotKey → Option Stamp := fun k =>
  match files k.1 with
  | none => none
  | some day =>
    if day.price k.2 = TARIFF_NO_PRICE then none
    else some { price := day.price k.2, currency := day.hdr.currency, decimals := day.hdr.decimals }

def Tracked.boot (now : ℤ) (source : Option (ℕ × ℕ)) (files : DateStr → Option TariffDay) :
    Tracked :=
  { sys := System.boot now source files
    stamps :=
      { pending := fun _ => none
        flushing := fun _ => none
        recorded := Stamps.ofFiles files
        last := Stamps.ofFiles files } }

/-- A slot of a day denotes the amount, and the currency, that it was stamped with. -/
def Denotes (day : TariffDay) (i : Fin TARIFF_SLOTS) (st : Stamp) : Prop :=
  (day.price i : ℚ) / 10 ^ day.hdr.decimals = st.price / 10 ^ st.decimals ∧
    day.hdr.currency = st.currency

/-- Every recorded slot reads back what was stamped: the last stamp, unless a newer one is still on
its way to the file. -/
def Faithful (t : Tracked) : Prop :=
  ∀ (k : SlotKey) (day : TariffDay), loadDay t.sys.files k.1 = some day →
    day.price k.2 ≠ TARIFF_NO_PRICE →
      ∃ st, t.stamps.recorded k = some st ∧ Denotes day k.2 st ∧
        (t.stamps.pending k = none → t.stamps.flushing k = none → t.stamps.last k = some st)

/-- The header gives a stamp the meaning that it had; zero is zero in any number of decimals. -/
def Suits (hdr : FileHeader) (st : Stamp) : Prop :=
  hdr.currency = st.currency ∧ (hdr.decimals = st.decimals ∨ st.price = 0)

instance (hdr : FileHeader) (st : Stamp) : Decidable (Suits hdr st) :=
  inferInstanceAs (Decidable (_ ∧ _))

/-- The header of the flush suits each slot of the day that it writes: the waiting ones, and the
ones that it keeps. -/
def WriteSuits (t : Tracked) (date : DateStr) : Prop :=
  ∀ f ∈ t.sys.flushing, ∀ i : Fin TARIFF_SLOTS,
    ∀ st ∈ (t.stamps.flushing (date, i)).or (t.stamps.recorded (date, i)), Suits f.1 st

/-- A reported price is not the number that marks an untouched slot. -/
def Report.Priced : Report → Prop
  | .currentPrice v => v.bind (·.price) ≠ some TARIFF_NO_PRICE
  | .priceChange v => v.bind (·.price) ≠ some TARIFF_NO_PRICE
  | _ => True

instance : ∀ r : Report, Decidable r.Priced
  | .currentPrice v | .priceChange v =>
    inferInstanceAs (Decidable (v.bind (·.price) ≠ some TARIFF_NO_PRICE))
  | .currency _ | .tariffUnit _ | .other => isTrue trivial

/-- The condition on a step. -/
def StepOk (t : Tracked) : Event → Prop
  | .report _ _ r => r.Priced
  | .flushWrite date => WriteSuits t date
  | _ => True

instance (t : Tracked) (date : DateStr) : Decidable (WriteSuits t date) :=
  inferInstanceAs (Decidable (∀ f ∈ t.sys.flushing, ∀ i : Fin TARIFF_SLOTS,
    ∀ st ∈ (t.stamps.flushing (date, i)).or (t.stamps.recorded (date, i)), Suits f.1 st))

instance (t : Tracked) : ∀ e, Decidable (StepOk t e)
  | .report _ _ r => inferInstanceAs (Decidable r.Priced)
  | .flushWrite date => inferInstanceAs (Decidable (WriteSuits t date))
  | .clock _ | .setSource _ | .fromSource | .handle | .tick | .flushSwap => isTrue trivial

/-! ## The invariant -/

/-- The raw price that a stamp leaves in a slot. -/
def rawPrice (st : Option Stamp) : ℤ := st.elim TARIFF_NO_PRICE (·.price)

/-- The map of slots that a flush has swapped out. -/
def System.swapped (s : System) : Pending := s.flushing.elim ∅ (·.2)

def Handler.report : Handler → Report
  | .idle => .other
  | .asked _ _ _ r => r
  | .accepted r => r

/-- A layer of stamps is what a map of slots holds, and none of its prices marks an untouched
slot. -/
structure Layer (pending : Pending) (stamps : SlotKey → Option Stamp) : Prop where
  slot : ∀ k, pendingSlot pending k = rawPrice (stamps k)
  priced : ∀ k st, stamps k = some st → st.price ≠ TARIFF_NO_PRICE
  dates : ∀ date ∈ pending, validDate date = true

/-- A day file holds its recorded stamps, under a header that suits them. -/
structure DayHolds (day : Option TariffDay) (recorded : Fin TARIFF_SLOTS → Option Stamp) :
    Prop where
  slot : ∀ i, (day.elim Slots.blank (·.price)) i = rawPrice (recorded i)
  priced : ∀ i st, recorded i = some st → st.price ≠ TARIFF_NO_PRICE
  suits : ∀ d, day = some d → ∀ i st, recorded i = some st → Suits d.hdr st

structure Inv (t : Tracked) : Prop where
  pending : Layer t.sys.price.pending t.stamps.pending
  flushing : Layer t.sys.swapped t.stamps.flushing
  files : ∀ date, DayHolds (t.sys.files date) fun i => t.stamps.recorded (date, i)
  last : ∀ k, t.stamps.last k
    = (t.stamps.pending k).or ((t.stamps.flushing k).or (t.stamps.recorded k))
  current : t.sys.price.current.valid = true → t.sys.price.current.price ≠ TARIFF_NO_PRICE
  report : t.sys.handler.report.Priced

/-! ## What one step keeps -/

theorem layer_empty : Layer ∅ fun _ => none where
  slot _ := rfl
  priced _ _ h := nomatch h
  dates _ h := absurd h (AList.notMem_empty _)

/-- Stamping the slots of `ts` keeps the layer, unless it writes the mark of an untouched slot. -/
theorem Layer.stamp {pending : Pending} {stamps : SlotKey → Option Stamp} (h : Layer pending stamps)
    (ts : List ℤ) (st : Stamp) (hst : ts ≠ [] → st.price ≠ TARIFF_NO_PRICE) :
    Layer (ts.foldl (fun pending t => stampSlot t st.price pending) pending)
      fun k => if k ∈ ts.map slotKey then some st else stamps k where
  slot k := by
    rw [pendingSlot_foldl_stampSlot]
    split
    · rfl
    · exact h.slot k
  priced k st' hk := by
    split at hk
    · rename_i hmem
      obtain rfl := Option.some.inj hk
      exact hst fun hnil => by rw [hnil] at hmem; exact List.not_mem_nil hmem
    · exact h.priced k st' hk
  dates := by
    -- only dates of instants are added
    have hdates := h.dates
    clear h hst
    induction ts generalizing pending with
    | nil => exact hdates
    | cons t ts ih =>
      refine ih fun date hdate => ?_
      dsimp only at hdate
      rw [stampSlot_eq, AList.mem_insert] at hdate
      rcases hdate with rfl | hdate
      · exact validDate_dateStr _
      · exact hdates date hdate

/-- An instant that is stamped belongs to a valid price. -/
theorem valid_of_stampedTimes {now : ℤ} {p : CurrentPrice} (h : stampedTimes now p ≠ []) :
    p.valid = true := by
  by_contra hv
  apply h
  rw [stampedTimes, if_pos]
  simpa using hv

/-- A priced report is not decoded to the mark of an untouched slot. -/
theorem decodePrice_priced {v : Option CommodityPriceStruct}
    (h : (Report.currentPrice v).Priced) (hv : (decodePrice v).valid = true) :
    (decodePrice v).price ≠ TARIFF_NO_PRICE := by
  rcases v with - | ⟨periodStart, periodEnd, - | price⟩
  · exact absurd hv (by decide)
  · exact absurd hv Bool.false_ne_true
  · exact fun heq => h (congrArg some heq)

/-- A step that stamps the slots of `ts` and otherwise leaves the pending map alone. -/
theorem Inv.stamp {t : Tracked} (h : Inv t) (ts : List ℤ) (price : ℤ)
    (hprice : ts ≠ [] → price ≠ TARIFF_NO_PRICE) (s : State) (handler : Handler)
    (hpending : s.pending
      = ts.foldl (fun pending t => stampSlot t price pending) t.sys.price.pending)
    (hcurrent : s.current.valid = true → s.current.price ≠ TARIFF_NO_PRICE)
    (hreport : handler.report.Priced) :
    Inv { sys := { t.sys with price := s, handler := handler }
          stamps := t.stamps.stamp ts price t.sys.price } where
  pending := by
    rw [hpending]
    exact h.pending.stamp ts
      { price := price, currency := t.sys.price.currency, decimals := t.sys.price.decimals } hprice
  flushing := h.flushing
  files := h.files
  last k := by
    show (if _ then _ else _) = Option.or (if _ then _ else _) _
    split
    · rfl
    · exact h.last k
  current := hcurrent
  report := hreport

theorem stamp_nil (price : ℤ) (s : State) (g : Stamps) : g.stamp [] price s = g := by
  simp [Stamps.stamp]

/-- A step that stamps nothing. -/
theorem Inv.of_pending_eq {t : Tracked} (h : Inv t) {s : State} {handler : Handler}
    (hpending : s.pending = t.sys.price.pending)
    (hcurrent : s.current.valid = true → s.current.price ≠ TARIFF_NO_PRICE)
    (hreport : handler.report.Priced) :
    Inv { sys := { t.sys with price := s, handler := handler }, stamps := t.stamps } := by
  have := h.stamp [] 0 (fun h => absurd rfl h) s handler hpending hcurrent hreport
  rwa [stamp_nil] at this

theorem applyPrice_current (now : ℤ) (v : Option CommodityPriceStruct) (s : State) :
    (applyPrice now v s).current = decodePrice v ∨ (applyPrice now v s).current = s.current := by
  rw [applyPrice]
  dsimp only
  split
  · exact Or.inl rfl
  · exact Or.inr rfl

theorem Inv.applyPrice {t : Tracked} (h : Inv t) {v : Option CommodityPriceStruct}
    (hv : (Report.currentPrice v).Priced) :
    Inv { sys := { t.sys with
            price := CommodityPrice.applyPrice t.sys.now v t.sys.price, handler := .idle }
          stamps := t.stamps.stamp (stampedTimes t.sys.now (decodePrice v)) (decodePrice v).price
            t.sys.price } := by
  refine h.stamp _ _ (fun hne => decodePrice_priced hv (valid_of_stampedTimes hne)) _ _ rfl ?_
    trivial
  rcases applyPrice_current t.sys.now v t.sys.price with heq | heq
  · rw [heq]
    exact decodePrice_priced hv
  · rw [heq]
    exact h.current

theorem inv_handle {t t' : Tracked} (h : Inv t) (hstep : t.step .handle = some t') : Inv t' := by
  have hreport := h.report
  rw [Tracked.step, CommodityPrice.step, Stamps.next] at hstep
  cases hr : t.sys.handler with
  | idle => simp [hr] at hstep
  | asked nodeId endpointId source r => simp [hr] at hstep
  | accepted r =>
    rw [hr] at hreport hstep
    obtain rfl := Option.some.inj hstep
    dsimp only [Handler.report] at hreport
    cases r with
    | currency v => exact h.stamp [] 0 (absurd rfl) _ _ rfl h.current trivial
    | tariffUnit v => exact h.stamp [] 0 (absurd rfl) _ _ rfl h.current trivial
    | currentPrice v => exact h.applyPrice hreport
    | priceChange v => exact h.applyPrice hreport
    | other => exact h.stamp [] 0 (absurd rfl) _ _ rfl h.current trivial

theorem inv_fromSource {t t' : Tracked} (h : Inv t) (hstep : t.step .fromSource = some t') :
    Inv t' := by
  have hreport := h.report
  rw [Tracked.step, CommodityPrice.step, Stamps.next] at hstep
  cases hr : t.sys.handler with
  | idle => simp [hr] at hstep
  | accepted r => simp [hr] at hstep
  | asked nodeId endpointId source r =>
    rw [hr] at hreport hstep
    obtain rfl := Option.some.inj hstep
    refine h.of_pending_eq ?_ (fun hv => ?_) ?_
    · unfold CommodityPrice.fromSource
      dsimp only
      split <;> rfl
    · unfold CommodityPrice.fromSource at hv ⊢
      dsimp only at hv ⊢
      split at hv
      · exact absurd hv Bool.false_ne_true
      · rename_i hsame
        rw [if_neg hsame]
        exact h.current hv
    · split
      · exact hreport
      · trivial

theorem inv_tick {t t' : Tracked} (h : Inv t) (hstep : t.step .tick = some t') : Inv t' := by
  rw [Tracked.step, CommodityPrice.step, Stamps.next] at hstep
  cases hf : t.sys.flushing with
  | some f => simp [hf] at hstep
  | none =>
    rw [hf] at hstep
    obtain rfl := Option.some.inj hstep
    have hreport := h.report
    unfold onTick
    by_cases htick : tickStamps t.sys.now t.sys.price = true
    · rw [if_pos htick, if_pos htick]
      have hvalid : t.sys.price.current.valid = true := by
        rw [tickStamps, Bool.and_eq_true, Bool.and_eq_true] at htick
        exact htick.1.1
      have := h.stamp [t.sys.now] t.sys.price.current.price (fun _ => h.current hvalid)
        { t.sys.price with
          pending := stampSlot t.sys.now t.sys.price.current.price t.sys.price.pending
          flushArmed := true } t.sys.handler rfl h.current hreport
      rwa [← hf]
    · rw [if_neg htick, if_neg htick, ← hf]
      exact h

/-- What is left of a flush is what its map still holds. -/
theorem swapped_flushRest (hdr : FileHeader) (pending : Pending) :
    (flushRest hdr pending).elim ∅ (·.2) = pending := by
  unfold flushRest
  split
  · rename_i hempty
    exact AList.ext (List.isEmpty_iff.mp hempty).symm
  · rfl

/-- A layer over the empty map has no stamps. -/
theorem Layer.eq_none {stamps : SlotKey → Option Stamp} (h : Layer ∅ stamps) (k : SlotKey) :
    stamps k = none := by
  cases hk : stamps k with
  | none => rfl
  | some st =>
    have hslot := h.slot k
    rw [hk] at hslot
    exact absurd hslot.symm (h.priced k st hk)

theorem inv_flushSwap {t t' : Tracked} (h : Inv t) (hstep : t.step .flushSwap = some t') :
    Inv t' := by
  rw [Tracked.step, CommodityPrice.step, Stamps.next] at hstep
  cases hf : t.sys.flushing with
  | some f => simp [hf] at hstep
  | none =>
    cases ha : t.sys.price.flushArmed with
    | false => simp [hf, ha] at hstep
    | true =>
      rw [hf, ha] at hstep
      obtain rfl := Option.some.inj hstep
      -- the map of the last flush is written, so no stamp is left in it
      have hflushing := h.flushing
      rw [System.swapped, hf] at hflushing
      refine ⟨layer_empty, ?_, h.files, fun k => ?_, h.current, h.report⟩
      · rw [System.swapped]
        dsimp only
        rw [swapped_flushRest]
        exact h.pending
      · rw [h.last k, hflushing.eq_none k]
        rfl

theorem Layer.erase {pending : Pending} {stamps : SlotKey → Option Stamp} (h : Layer pending stamps)
    (date : DateStr) :
    Layer (pending.erase date) fun k => if k.1 = date then none else stamps k where
  slot k := by
    rw [pendingSlot]
    split
    · rename_i hdate
      rw [hdate, AList.lookup_erase]
      rfl
    · rename_i hdate
      rw [AList.lookup_erase_ne hdate]
      exact h.slot k
  priced k st hk := by
    split at hk
    · contradiction
    · exact h.priced k st hk
  dates d hd := h.dates d (AList.mem_erase.mp hd).2

/-- A written day holds the stamps of the flush, and else those that it had. -/
theorem DayHolds.merge {hdr : FileHeader} {slots : Slots} {day : Option TariffDay}
    {flushing recorded : Fin TARIFF_SLOTS → Option Stamp} (h : DayHolds day recorded)
    (hslots : ∀ i, slots i = rawPrice (flushing i))
    (hpriced : ∀ i st, flushing i = some st → st.price ≠ TARIFF_NO_PRICE)
    (hsuits : ∀ i st, (flushing i).or (recorded i) = some st → Suits hdr st) :
    DayHolds (some (mergeDay hdr slots day)) fun i => (flushing i).or (recorded i) where
  slot i := by
    show (if _ then _ else _) = _
    cases hi : flushing i with
    | none =>
      rw [hslots i, hi, if_neg (show ¬ rawPrice none ≠ TARIFF_NO_PRICE from not_not_intro rfl)]
      exact h.slot i
    | some st =>
      rw [hslots i, hi]
      exact if_pos (hpriced i st hi)
  priced i st hst := by
    rcases Option.or_eq_some_iff.mp hst with hi | ⟨-, hi⟩
    · exact hpriced i st hi
    · exact h.priced i st hi
  suits d hd i st hst := by
    obtain rfl := Option.some.inj hd
    exact hsuits i st hst

theorem inv_flushWrite {t t' : Tracked} (h : Inv t) {date : DateStr} (hok : WriteSuits t date)
    (hstep : t.step (.flushWrite date) = some t') : Inv t' := by
  rw [Tracked.step, CommodityPrice.step, Stamps.next] at hstep
  cases hf : t.sys.flushing with
  | none => simp [hf] at hstep
  | some f =>
    obtain ⟨hdr, pending⟩ := f
    cases hl : pending.lookup date with
    | none => simp [hf, hl] at hstep
    | some slots =>
      simp only [hf, hl] at hstep
      obtain rfl := Option.some.inj hstep
      have hflushing := h.flushing
      rw [System.swapped, hf] at hflushing
      have hmem : date ∈ pending := AList.lookup_isSome.mp (by rw [hl]; rfl)
      have hload : loadDay t.sys.files date = t.sys.files date :=
        if_pos (hflushing.dates date hmem)
      refine ⟨h.pending, ?_, fun d => ?_, fun k => ?_, h.current, h.report⟩
      · rw [System.swapped]
        dsimp only
        rw [swapped_flushRest]
        exact hflushing.erase date
      · dsimp only
        -- the day that is written, and the others
        by_cases hd : d = date
        · subst hd
          rw [Function.update_self, hload]
          simp only [if_true]
          refine (h.files d).merge (fun i => ?_) (fun i => hflushing.priced (d, i))
            (hok (hdr, pending) hf)
          have := hflushing.slot (d, i)
          rwa [pendingSlot, Option.elim_some, hl, Option.getD_some] at this
        · rw [Function.update_of_ne hd]
          simp only [hd, if_false]
          exact h.files d
      · rw [h.last k]
        dsimp only
        split
        · rw [Option.none_or]
        · rfl

/-- Every step that meets the condition keeps the invariant. -/
theorem inv_step (t : Tracked) (e : Event) (t' : Tracked) (h : Inv t) (hok : StepOk t e)
    (hstep : t.step e = some t') : Inv t' := by
  cases e with
  | clock now =>
    obtain rfl := Option.some.inj hstep
    exact ⟨h.pending, h.flushing, h.files, h.last, h.current, h.report⟩
  | setSource source =>
    obtain rfl := Option.some.inj hstep
    exact ⟨h.pending, h.flushing, h.files, h.last, h.current, h.report⟩
  | report nodeId endpointId r =>
    rw [Tracked.step, CommodityPrice.step, Stamps.next] at hstep
    cases hr : t.sys.handler with
    | asked _ _ _ _ => simp [hr] at hstep
    | accepted _ => simp [hr] at hstep
    | idle =>
      rw [hr] at hstep
      obtain rfl := Option.some.inj hstep
      exact ⟨h.pending, h.flushing, h.files, h.last, h.current, hok⟩
  | fromSource => exact inv_fromSource h hstep
  | handle => exact inv_handle h hstep
  | tick => exact inv_tick h hstep
  | flushSwap => exact inv_flushSwap h hstep
  | flushWrite date => exact inv_flushWrite h hok hstep

theorem inv_boot (now : ℤ) (source : Option (ℕ × ℕ)) (files : DateStr → Option TariffDay) :
    Inv (Tracked.boot now source files) where
  pending := layer_empty
  flushing := layer_empty
  files date := by
    refine ⟨fun i => ?_, fun i st hst => ?_, fun d hd i st hst => ?_⟩
    all_goals dsimp only [Tracked.boot, System.boot, Stamps.ofFiles] at *
    · cases files date with
      | none => rfl
      | some day =>
        dsimp only [Option.elim_some]
        split
        · rename_i hno
          exact hno
        · rfl
    · cases hf : files date with
      | none => simp [hf] at hst
      | some day =>
        simp only [hf] at hst
        split at hst
        · exact nomatch hst
        · rename_i hno
          obtain rfl := Option.some.inj hst
          exact hno
    · simp only [hd] at hst
      split at hst
      · exact nomatch hst
      · obtain rfl := Option.some.inj hst
        exact ⟨rfl, Or.inl rfl⟩
  last _ := rfl
  current h := absurd h Bool.false_ne_true
  report := trivial

/-! ## Runs -/

/-- A header that suits a stamp gives its price the stamped meaning. -/
theorem Suits.denotes {day : TariffDay} {i : Fin TARIFF_SLOTS} {st : Stamp}
    (h : Suits day.hdr st) (hprice : day.price i = st.price) : Denotes day i st := by
  refine ⟨?_, h.1⟩
  rw [hprice]
  rcases h.2 with heq | hzero
  · rw [heq]
  · rw [hzero, Int.cast_zero, zero_div, zero_div]

theorem Inv.faithful {t : Tracked} (h : Inv t) : Faithful t := by
  intro k day hload hprice
  have hfile : t.sys.files k.1 = some day := by
    unfold loadDay at hload
    split at hload
    · exact hload
    · exact nomatch hload
  have hday := h.files k.1
  have hslot := hday.slot k.2
  rw [hfile, Option.elim_some] at hslot
  -- a slot without a stamp would read back as untouched
  cases hrec : t.stamps.recorded k with
  | none =>
    rw [hrec] at hslot
    exact absurd hslot hprice
  | some st =>
    rw [hrec] at hslot
    refine ⟨st, rfl, (hday.suits day hfile k.2 st hrec).denotes hslot, fun hp hf => ?_⟩
    rw [h.last k, hp, hf, hrec]
    rfl

/-- From a restart on any card, a run whose flushes write headers that suit the slots of each day
leaves every recorded slot with the amount and the currency that it was stamped with. -/
theorem price_history_faithful (now : ℤ) (source : Option (ℕ × ℕ))
    (files : DateStr → Option TariffDay) (es : List Event) (t : Tracked)
    (hrun : StepSystem.run Tracked.step (Tracked.boot now source files) es = some t)
    (hok : StepSystem.Meets Tracked.step StepOk (Tracked.boot now source files) es) :
    Faithful t :=
  (StepSystem.inv_of_run inv_step (inv_boot now source files) hok hrun).faithful

/-- The steps of the CHIP task for one report of the source on endpoint 1 of node 1. -/
def reported (r : Report) : List Event := [.report 1 1 r, .fromSource, .handle]

/-- The debounced flush of 2000-01-01. -/
def flushed : List Event := [.flushSwap, .flushWrite (dateStr 10957)]

/-- 12:00 to 12:15 of 2000-01-01. -/
def noonReport (price : ℤ) : CommodityPriceStruct :=
  { periodStart := 43200, periodEnd := some 44100, price := some price }

/-- 12:15 to 12:30 of 2000-01-01. -/
def quarterPastReport (price : ℤ) : CommodityPriceStruct :=
  { periodStart := 44100, periodEnd := some 45000, price := some price }

/-- Two prices in pounds with five decimals, each followed by a flush. -/
def poundsRun : List Event :=
  reported (.currency (some (826, 5))) ++ reported (.currentPrice (some (noonReport 25000)))
    ++ flushed ++ reported (.currentPrice (some (quarterPastReport 30000))) ++ flushed

theorem price_history_faithful_pounds :
    ∃ t, StepSystem.run Tracked.step (Tracked.boot 946729800 (some (1, 1)) fun _ => none) poundsRun
      = some t ∧ Faithful t := by
  obtain ⟨t, ht⟩ := Option.isSome_iff_exists.mp (show (StepSystem.run Tracked.step
    (Tracked.boot 946729800 (some (1, 1)) fun _ => none) poundsRun).isSome = true by decide +kernel)
  exact ⟨t, ht, price_history_faithful _ _ _ _ t ht (by decide +kernel)⟩

/-- The same two prices, but the source changes to two decimals in between. -/
def decimalsRun : List Event :=
  reported (.currency (some (826, 5))) ++ reported (.currentPrice (some (noonReport 25000)))
    ++ flushed ++ reported (.currency (some (826, 2)))
    ++ reported (.currentPrice (some (quarterPastReport 30))) ++ flushed

/-- The slot of noon, stamped as 0.25, reads back as 250. -/
theorem price_history_not_faithful :
    ¬ ∀ (now : ℤ) (source : Option (ℕ × ℕ)) (files : DateStr → Option TariffDay) (es : List Event)
      (t : Tracked),
      StepSystem.run Tracked.step (Tracked.boot now source files) es = some t → Faithful t := by
  intro h
  set r := StepSystem.run Tracked.step (Tracked.boot 946729800 (some (1, 1)) fun _ => none)
    decimalsRun with hr
  have hday : r.bind (fun t => (loadDay t.sys.files (dateStr 10957)).map fun day =>
      (day.price 48, day.hdr.decimals)) = some (25000, 2) := by decide +kernel
  have hrec : r.bind (fun t => t.stamps.recorded (dateStr 10957, 48))
      = some { price := 25000, currency := 826, decimals := 5 } := by decide +kernel
  obtain ⟨t, ht, hday⟩ := Option.bind_eq_some_iff.mp hday
  obtain ⟨day, hload, hslot⟩ := Option.map_eq_some_iff.mp hday
  rw [ht, Option.bind_some] at hrec
  obtain ⟨hprice, hdecimals⟩ := Prod.mk.inj hslot
  obtain ⟨st, hst, hdenotes, -⟩ := h _ _ _ decimalsRun t ht (dateStr 10957, 48) day hload
    (by rw [hprice]; decide)
  obtain rfl := Option.some.inj (hrec.symm.trans hst)
  -- 25000 in two decimals is not 25000 in five
  have hmoney := hdenotes.1
  rw [hprice, hdecimals] at hmoney
  norm_num at hmoney

end HomeEnergyManager.CommodityPrice
