import Mathlib.Data.List.AList
import Mathlib.Logic.Function.Basic
import Mathlib.Order.Fin.Basic
import HomeEnergyManager.Tariff.Day

/-! # Stamping prices onto slots

The recording half of `commodity_price`: `stamp_slot`, `stamp_period` and `apply_price`, which make
a reported price the one in force and write it to the 15-minute slots that it covers.

Reference: `firmware/main/commodity_price.cpp`.
-/

namespace HomeEnergyManager.CommodityPrice

/-- Any part of a reported period older than this is ignored. -/
def kMaxBackfillS : ℤ := 2 * 24 * 3600

/-- `current_price_t`. -/
structure CurrentPrice where
  valid : Bool := false
  start : ℤ := 0
  hasEnd : Bool := false
  endTime : ℤ := 0
  price : ℤ := 0
deriving DecidableEq, Repr

/-- `CommodityPriceStruct`, as far as it is read. -/
structure CommodityPriceStruct where
  periodStart : ℕ
  periodEnd : Option ℕ
  price : Option ℤ
deriving DecidableEq, Repr

/-- `s_pending`: slots stamped since the last flush, per date. -/
abbrev Pending := AList fun _ : DateStr => Slots

/-- The guarded state of `commodity_price`, and whether the flush timer runs. -/
structure State where
  hasSource : Bool := false
  nodeId : ℕ := 0
  endpointId : ℕ := 0
  currency : ℕ := 0
  decimals : ℕ := 0
  unit : ℕ := 0
  current : CurrentPrice := {}
  pending : Pending := ∅
  flushArmed : Bool := false

/-- Stamp the slot that contains `t`. -/
def stampSlot (t price : ℤ) (pending : Pending) : Pending :=
  let lt := localtime t
  let date := strftimeDate lt
  let slot := (lt.hour * 60 + lt.min) / TARIFF_SLOT_MINUTES
  if h : 0 ≤ slot ∧ slot < TARIFF_SLOTS then
    let it := (pending.lookup date).getD Slots.blank
    pending.insert date (Function.update it ⟨slot.toNat, by omega⟩ price)
  else pending

/-- The start of the next slot. -/
def nextSlot (t : ℤ) : ℤ :=
  let lt := localtime t
  t + ((TARIFF_SLOT_MINUTES - lt.min % TARIFF_SLOT_MINUTES) * 60 - lt.sec)

/-- The cursors of the loop of `stamp_period`, which stops at the first one from `stop` on. -/
def cursors (stop : ℤ) : ℕ → ℤ → List ℤ
  | 0, _ => []
  | n + 1, t => t :: if nextSlot t < stop then cursors stop n (nextSlot t) else []

/-- The loop, with as many passes as it can take: each moves the cursor by a second at least. -/
def loopCursors (t stop : ℤ) : List ℤ := cursors stop ((stop - t).toNat + 1) t

/-- The instants that `stamp_period` stamps; none when it returns false. -/
def stampedTimes (now : ℤ) (p : CurrentPrice) : List ℤ :=
  if !p.valid then []
  else
    let start := if p.start < now - kMaxBackfillS then now - kMaxBackfillS else p.start
    let stop := if p.hasEnd && p.endTime < now then p.endTime else now
    if now < start ∨ (p.hasEnd = true ∧ p.endTime ≤ start) then []
    else loopCursors start stop

def stampPeriod (now : ℤ) (p : CurrentPrice) (pending : Pending) : Pending :=
  (stampedTimes now p).foldl (fun pending t => stampSlot t p.price pending) pending

/-- The price that `apply_price` decodes; a null one, or one without a price, is not valid. -/
def decodePrice : Option CommodityPriceStruct → CurrentPrice
  | some { periodStart, periodEnd, price := some price } =>
    { valid := true
      start := periodStart + kChipEpochSecondsSinceUnixEpoch
      hasEnd := periodEnd.isSome
      endTime := periodEnd.elim 0 fun e => e + kChipEpochSecondsSinceUnixEpoch
      price := price }
  | _ => {}

/-- `apply_price`. A replayed event older than the price in force only records its slots. -/
def applyPrice (now : ℤ) (v : Option CommodityPriceStruct) (s : State) : State :=
  let p := decodePrice v
  { s with
    current := if !s.current.valid || !p.valid || s.current.start ≤ p.start then p else s.current
    pending := stampPeriod now p s.pending
    flushArmed := s.flushArmed || !(stampedTimes now p).isEmpty }

/-! ## The slot of an instant -/

theorem slot_mem (t : ℤ) :
    0 ≤ ((localtime t).hour * 60 + (localtime t).min) / TARIFF_SLOT_MINUTES ∧
      ((localtime t).hour * 60 + (localtime t).min) / TARIFF_SLOT_MINUTES < TARIFF_SLOTS := by
  have hh := localtime_hour t
  have hm := localtime_min t
  unfold TARIFF_SLOT_MINUTES TARIFF_SLOTS
  omega

/-- The date and the slot of an instant. -/
def slotKey (t : ℤ) : DateStr × Fin TARIFF_SLOTS :=
  (dateStr (localDay t),
    ⟨(((localtime t).hour * 60 + (localtime t).min) / TARIFF_SLOT_MINUTES).toNat, by
      have h := slot_mem t
      omega⟩)

/-- What is stamped on a slot and not yet flushed. -/
def pendingSlot (pending : Pending) (k : DateStr × Fin TARIFF_SLOTS) : ℤ :=
  (pending.lookup k.1).getD Slots.blank k.2

theorem stampSlot_eq (t price : ℤ) (pending : Pending) :
    stampSlot t price pending
      = pending.insert (slotKey t).1
          (Function.update ((pending.lookup (slotKey t).1).getD Slots.blank) (slotKey t).2
            price) := by
  unfold stampSlot
  dsimp only
  rw [dif_pos (slot_mem t), strftimeDate_localtime]
  rfl

/-- Stamping a slot changes that slot alone. -/
theorem pendingSlot_stampSlot (t price : ℤ) (pending : Pending) (k : DateStr × Fin TARIFF_SLOTS) :
    pendingSlot (stampSlot t price pending) k
      = if k = slotKey t then price else pendingSlot pending k := by
  rw [stampSlot_eq, pendingSlot]
  -- another slot of the same date keeps its price, another date its slots
  by_cases hdate : k.1 = (slotKey t).1
  · rw [hdate, AList.lookup_insert, Option.getD_some]
    by_cases hslot : k.2 = (slotKey t).2
    · rw [if_pos (Prod.ext hdate hslot), hslot, Function.update_self]
    · rw [if_neg (fun h => hslot (congrArg Prod.snd h)), Function.update_of_ne hslot, pendingSlot,
        hdate]
  · rw [if_neg (fun h => hdate (congrArg Prod.fst h)), AList.lookup_insert_ne hdate, pendingSlot]

/-- The slots that a price covers at `now`. -/
def Covers (now : ℤ) (k : DateStr × Fin TARIFF_SLOTS) (p : CurrentPrice) : Prop :=
  k ∈ (stampedTimes now p).map slotKey

instance (now : ℤ) (k : DateStr × Fin TARIFF_SLOTS) : DecidablePred (Covers now k) :=
  fun _ => inferInstanceAs (Decidable (_ ∈ _))

theorem pendingSlot_foldl_stampSlot (ts : List ℤ) (price : ℤ) (pending : Pending)
    (k : DateStr × Fin TARIFF_SLOTS) :
    pendingSlot (ts.foldl (fun pending t => stampSlot t price pending) pending) k
      = if k ∈ ts.map slotKey then price else pendingSlot pending k := by
  induction ts generalizing pending with
  | nil => rfl
  | cons t ts ih =>
    rw [List.foldl_cons, ih, pendingSlot_stampSlot, List.map_cons]
    by_cases hts : k ∈ ts.map slotKey
    · rw [if_pos hts, if_pos (List.mem_cons_of_mem _ hts)]
    · rw [if_neg hts]
      by_cases ht : k = slotKey t
      · rw [if_pos ht, if_pos (List.mem_cons.mpr (Or.inl ht))]
      · rw [if_neg ht, if_neg fun h => (List.mem_cons.mp h).elim ht hts]

/-- `stamp_period` gives its price to the slots that it covers and leaves the others alone. -/
theorem pendingSlot_stampPeriod (now : ℤ) (p : CurrentPrice) (pending : Pending)
    (k : DateStr × Fin TARIFF_SLOTS) :
    pendingSlot (stampPeriod now p pending) k
      = if Covers now k p then p.price else pendingSlot pending k := by
  rw [stampPeriod, pendingSlot_foldl_stampSlot]
  rfl

/-! ## The loop ends -/

/-- The cursor moves on at every pass, whatever the clock shows. -/
theorem lt_nextSlot (t : ℤ) : t < nextSlot t := by
  have hs := localtime_sec t
  have hm := localtime_min t
  unfold nextSlot TARIFF_SLOT_MINUTES
  dsimp only
  omega

/-- More passes than seconds left change nothing. -/
theorem cursors_eq_of_le {stop : ℤ} {n m : ℕ} {t : ℤ} (hn : stop - t < n) (hm : stop - t < m)
    (hn₀ : 0 < n) (hm₀ : 0 < m) : cursors stop n t = cursors stop m t := by
  induction n generalizing m t with
  | zero => exact absurd hn₀ (lt_irrefl 0)
  | succ n ih =>
    obtain ⟨m, rfl⟩ : ∃ k, m = k + 1 := ⟨m - 1, by omega⟩
    rw [cursors, cursors]
    have hlt := lt_nextSlot t
    split
    · rename_i hstop
      rw [ih (m := m) (by omega) (by omega) (by omega) (by omega)]
    · rfl

/-- The loop as the source has it: stamp, step, and go on while before the end. -/
theorem loopCursors_eq (t stop : ℤ) :
    loopCursors t stop
      = t :: if nextSlot t < stop then loopCursors (nextSlot t) stop else [] := by
  have hlt := lt_nextSlot t
  unfold loopCursors
  rw [cursors]
  split
  · rename_i hstop
    rw [cursors_eq_of_le (n := (stop - t).toNat) (m := (stop - nextSlot t).toNat + 1) (by omega)
      (by omega) (by omega) (by omega)]
  · rfl

end HomeEnergyManager.CommodityPrice
