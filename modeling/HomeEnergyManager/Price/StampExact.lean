import HomeEnergyManager.Price.Stamp

/-! # Exactly the slots of a period

The zone changes its clock on full hours of UTC, so the local slots are the quarters of an hour of
UTC. The cursor of `stamp_period` goes from one to the next and leaves none out, and no slot is
stamped that the period does not meet.

Reference: `firmware/main/commodity_price.cpp`.
-/

namespace HomeEnergyManager.CommodityPrice

/-! ## Local slots are quarters of an hour -/

section Quarter

variable {t t' : ℤ}

/-- The zone does not change within a quarter of an hour. -/
theorem isdst_quarter (h : t / 900 = t' / 900) : isdst t = isdst t' := by
  have hday : t / secPerDay = t' / secPerDay := by
    unfold secPerDay
    omega
  have hyear : utcYear t = utcYear t' := by
    rw [utcYear, utcYear, hday]
  have hstart : dstStart (utcYear t') ≤ t ↔ dstStart (utcYear t') ≤ t' := by
    unfold dstStart secPerDay
    omega
  have hend : t < dstEnd (utcYear t') ↔ t' < dstEnd (utcYear t') := by
    unfold dstEnd secPerDay
    omega
  rw [isdst, isdst, hyear]
  simp only [hstart, hend]

theorem utcOffset_quarter (h : t / 900 = t' / 900) : utcOffset t = utcOffset t' := by
  rw [utcOffset, utcOffset, isdst_quarter h]

/-- The instants of a quarter of an hour lie in one slot. -/
theorem slotKey_quarter (h : t / 900 = t' / 900) : slotKey t = slotKey t' := by
  have hoffset := utcOffset_quarter h
  have hrange := utcOffset_eq t'
  have hday : localDay t = localDay t' := by
    rw [localDay, localDay, hoffset]
    unfold secPerDay
    omega
  have hsec : localSec t / 900 = localSec t' / 900 := by
    rw [localSec, localSec, hoffset]
    unfold secPerDay
    omega
  have hslot : ((localtime t).hour * 60 + (localtime t).min) / TARIFF_SLOT_MINUTES =
      ((localtime t').hour * 60 + (localtime t').min) / TARIFF_SLOT_MINUTES := by
    have hnonneg := localSec_nonneg t
    have hnonneg' := localSec_nonneg t'
    show (localSec t / 3600 * 60 + localSec t / 60 % 60) / 15 =
      (localSec t' / 3600 * 60 + localSec t' / 60 % 60) / 15
    omega
  refine Prod.ext (congrArg dateStr hday) (Fin.ext ?_)
  exact congrArg Int.toNat hslot

/-- The next slot starts with the next quarter of an hour. -/
theorem nextSlot_eq (t : ℤ) : nextSlot t = (t / 900 + 1) * 900 := by
  have hoffset := utcOffset_eq t
  show t + ((15 - localSec t / 60 % 60 % 15) * 60 - localSec t % 60) = (t / 900 + 1) * 900
  unfold localSec secPerDay
  omega

/-- An instant before the next slot is in the slot of the cursor. -/
theorem slotKey_of_lt_nextSlot (hle : t ≤ t') (hlt : t' < nextSlot t) :
    slotKey t' = slotKey t := by
  rw [nextSlot_eq] at hlt
  exact slotKey_quarter (by omega)

end Quarter

/-! ## The loop as a relation -/

/-- The loop of `stamp_period`, pass by pass: stamp the slot of the cursor, move the cursor to the
next slot and, while that is before the end, go on. -/
inductive StampLoop (price stop : ℤ) : ℤ → Pending → Pending → Prop
  | last {t : ℤ} {pending : Pending} : ¬ nextSlot t < stop →
      StampLoop price stop t pending (stampSlot t price pending)
  | next {t : ℤ} {pending result : Pending} : nextSlot t < stop →
      StampLoop price stop (nextSlot t) (stampSlot t price pending) result →
      StampLoop price stop t pending result

section Loop

variable {price stop : ℤ}

/-- From every start the loop ends, with the slots of its cursors stamped in turn. -/
theorem stampLoop_loopCursors (t : ℤ) (pending : Pending) :
    StampLoop price stop t pending
      ((loopCursors t stop).foldl (fun pending t => stampSlot t price pending) pending) := by
  -- the cursor moves towards the end at every pass
  induction hn : (stop - t).toNat using Nat.strongRecOn generalizing t pending with
  | ind n ih =>
    have hlt := lt_nextSlot t
    rw [loopCursors_eq, List.foldl_cons]
    split
    · rename_i hstop
      exact .next hstop (ih (stop - nextSlot t).toNat (by omega) _ _ rfl)
    · rename_i hstop
      exact .last hstop

/-- It does not end in two ways. -/
theorem StampLoop.unique {t : ℤ} {pending result result' : Pending}
    (h : StampLoop price stop t pending result) (h' : StampLoop price stop t pending result') :
    result = result' := by
  induction h with
  | last hstop =>
    cases h' with
    | last _ => rfl
    | next hstop' _ => exact absurd hstop' hstop
  | next hstop _ ih =>
    cases h' with
    | last hstop' => exact absurd hstop hstop'
    | next _ hrest => exact ih hrest

/-- The slots of the cursors are those of the start and of the instants before the end. -/
theorem mem_slots_loopCursors (t : ℤ) (k : DateStr × Fin TARIFF_SLOTS) :
    k ∈ (loopCursors t stop).map slotKey ↔
      k = slotKey t ∨ ∃ u, t ≤ u ∧ u < stop ∧ k = slotKey u := by
  induction hn : (stop - t).toNat using Nat.strongRecOn generalizing t with
  | ind n ih =>
    have hlt := lt_nextSlot t
    rw [loopCursors_eq, List.map_cons, List.mem_cons]
    refine or_congr_right' fun hne => ?_
    split
    · rename_i hstop
      rw [ih (stop - nextSlot t).toNat (by omega) _ rfl]
      constructor
      · rintro (hk | ⟨u, hle, hu, hk⟩)
        · exact ⟨nextSlot t, hlt.le, hstop, hk⟩
        · exact ⟨u, by omega, hu, hk⟩
      · rintro ⟨u, hle, hu, hk⟩
        rcases lt_or_ge u (nextSlot t) with hbefore | hafter
        · exact absurd (hk.trans (slotKey_of_lt_nextSlot hle hbefore)) hne
        · exact Or.inr ⟨u, hafter, hu, hk⟩
    · rename_i hstop
      refine iff_of_false (List.not_mem_nil) ?_
      rintro ⟨u, hle, hu, hk⟩
      exact hne (hk.trans (slotKey_of_lt_nextSlot hle (by omega)))

end Loop

/-! ## The period -/

/-- The start of the period, raised to what is still recorded. -/
def raisedStart (now : ℤ) (p : CurrentPrice) : ℤ := max p.start (now - kMaxBackfillS)

/-- The end of what is stamped: of the period, if it has ended, else now. -/
def stampEnd (now : ℤ) (p : CurrentPrice) : ℤ := if p.hasEnd then min p.endTime now else now

/-- The period has not begun, or is over when the recording starts. -/
def Missed (now : ℤ) (p : CurrentPrice) : Prop :=
  now < raisedStart now p ∨ p.hasEnd = true ∧ p.endTime ≤ raisedStart now p

/-- The slots of the raised start and of the instants up to the earlier of the end and now. -/
def InPeriod (now : ℤ) (p : CurrentPrice) (k : DateStr × Fin TARIFF_SLOTS) : Prop :=
  k = slotKey (raisedStart now p) ∨
    ∃ t, raisedStart now p ≤ t ∧ t < stampEnd now p ∧ k = slotKey t

theorem stampedTimes_eq {now : ℤ} {p : CurrentPrice} (hvalid : p.valid = true) :
    (Missed now p → stampedTimes now p = []) ∧
      (¬ Missed now p → stampedTimes now p = loopCursors (raisedStart now p) (stampEnd now p)) := by
  have hstart : (if p.start < now - kMaxBackfillS then now - kMaxBackfillS else p.start) =
      raisedStart now p := by
    unfold raisedStart
    split <;> omega
  have hstop : (if p.hasEnd && p.endTime < now then p.endTime else now) = stampEnd now p := by
    unfold stampEnd
    by_cases hend : p.hasEnd = true
    · simp only [hend, Bool.true_and, decide_eq_true_eq, if_true]
      split <;> omega
    · simp [hend]
  unfold stampedTimes
  rw [hvalid]
  dsimp only
  rw [hstart, hstop]
  exact ⟨fun h => if_pos h, fun h => if_neg h⟩

theorem stampPeriod_of_not_stamped {now : ℤ} {p : CurrentPrice}
    (h : p.valid = false ∨ Missed now p) (pending : Pending) :
    stampPeriod now p pending = pending := by
  have hnil : stampedTimes now p = [] := by
    by_cases hvalid : p.valid = true
    · exact (stampedTimes_eq hvalid).1 (h.resolve_left (by simp [hvalid]))
    · simp [stampedTimes, hvalid]
  rw [stampPeriod, hnil, List.foldl_nil]

/-- `stamp_period` ends for every period and every time. It stamps nothing if the raised start is
after now or not before the end of the period; otherwise its loop runs to its end and stamps the
slots of the raised start and of the instants up to the earlier of the end and now, and no other. -/
theorem stampPeriod_exact (now : ℤ) (p : CurrentPrice) (pending : Pending) :
    (∀ t, t < nextSlot t) ∧
      (p.valid = false ∨ Missed now p → stampPeriod now p pending = pending) ∧
      (p.valid = true ∧ ¬ Missed now p →
        (∀ result, StampLoop p.price (stampEnd now p) (raisedStart now p) pending result ↔
          result = stampPeriod now p pending) ∧
        ∀ k, (InPeriod now p k → pendingSlot (stampPeriod now p pending) k = p.price) ∧
          (¬ InPeriod now p k →
            pendingSlot (stampPeriod now p pending) k = pendingSlot pending k)) := by
  refine ⟨lt_nextSlot, fun h => stampPeriod_of_not_stamped h pending, ?_⟩
  rintro ⟨hvalid, hmissed⟩
  have htimes := (stampedTimes_eq hvalid).2 hmissed
  have hloop : StampLoop p.price (stampEnd now p) (raisedStart now p) pending
      (stampPeriod now p pending) := by
    rw [stampPeriod, htimes]
    exact stampLoop_loopCursors _ _
  refine ⟨fun result => ⟨fun h => h.unique hloop, fun h => h ▸ hloop⟩, fun k => ?_⟩
  have hcovers : Covers now k p ↔ InPeriod now p k := by
    rw [Covers, htimes]
    exact mem_slots_loopCursors _ _
  rw [pendingSlot_stampPeriod]
  exact ⟨fun h => if_pos (hcovers.mpr h), fun h => if_neg (mt hcovers.mp h)⟩

end HomeEnergyManager.CommodityPrice
