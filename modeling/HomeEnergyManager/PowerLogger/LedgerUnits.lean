import Mathlib.Data.Finset.Insert
import HomeEnergyManager.PowerLogger.Files
import HomeEnergyManager.PowerLogger.LedgerMidnight

/-! # The unit of the battery ledger

`soc` says whether the energy of a ledger is usable charge in half-percent or Wh. The code sets it
from whether the day has a charge file. Here each ledger is traced together with the units of the
amounts that its energy is made up of, and the two are compared: until the first reading of such a
day a ledger in Wh stays one.
-/

namespace HomeEnergyManager.NodePowerLogger

inductive EnergyUnit where
  | wh
  | halfPct
deriving DecidableEq, Repr

/-- The unit that the tag of a ledger names. -/
def BatteryLedger.unit (L : BatteryLedger) : EnergyUnit := if L.soc then .halfPct else .wh

/-- What is held in one unit; an unknown ledger holds nothing. -/
def heldIn (known : Bool) (u : EnergyUnit) : Finset EnergyUnit := if known then {u} else ∅

/-- A ledger and the units of the amounts that its energy is made up of. -/
structure TracedLedger where
  L : BatteryLedger
  units : Finset EnergyUnit
deriving DecidableEq

/-- The energy is in the unit of the tag. -/
def TracedLedger.Truthful (T : TracedLedger) : Prop := T.units = heldIn T.L.known T.L.unit

instance (T : TracedLedger) : Decidable T.Truthful := inferInstanceAs (Decidable (_ = _))

/-! ## Tracing the units -/

/-- The units after `applyReading`, assignment by assignment. -/
def readingUnits (soc : ℤ) (s : LedgerState) (us : Finset EnergyUnit) : Finset EnergyUnit :=
  if usable soc ≤ 0 then ∅
  else if s.rebase && s.L.known then {.halfPct}
  else if s.L.held < usable soc then {.halfPct}
  else if usable soc < s.L.held then {.halfPct}
  else us

/-- The units after `countWh`. -/
def countUnits (m : Minute) (L : BatteryLedger) (us : Finset EnergyUnit) : Finset EnergyUnit :=
  if m.batW < 0 then insert .wh (if L.known then us else ∅)
  else if 0 < m.batW ∧ L.known = true then
    if L.eWh - m.batW / 60 / kBatteryRoundTrip ≤ 0 then ∅ else insert .wh us
  else us

/-- The units after `ledgerMinute`. -/
def unitsMinute (haveSoc : Bool) (m : Minute) (s : LedgerState) (us : Finset EnergyUnit) :
    Finset EnergyUnit :=
  if haveSoc then
    if 0 ≤ m.soc then readingUnits m.soc (addPending m s) us else us
  else countUnits m s.L us

/-- One minute of the ledger, with its units. -/
def tracedMinute (haveSoc : Bool) (t : LedgerState × Finset EnergyUnit) (m : Minute) :
    LedgerState × Finset EnergyUnit :=
  (ledgerMinute haveSoc m t.1, unitsMinute haveSoc m t.1 t.2)

/-- The start of the loop; a ledger whose history is dropped holds nothing. -/
def tracedStart (haveSoc : Bool) (start : TracedLedger) : LedgerState × Finset EnergyUnit :=
  (startState haveSoc start.L, if !haveSoc && start.L.soc then ∅ else start.units)

/-- The ledger after `n` minutes, tagged as the code tags it. -/
def ledgerAt (d : DayArrays) (start : TracedLedger) (n : ℕ) : TracedLedger :=
  let t := (d.minutes.take n).foldl (tracedMinute d.haveSoc) (tracedStart d.haveSoc start)
  { L := { t.1.L with soc := d.haveSoc }, units := t.2 }

/-- The ledger that the next day starts from. -/
def tracedEnd (d : DayArrays) (start : TracedLedger) : TracedLedger :=
  ledgerAt d start d.minutes.length

/-- Every ledger that `compute_day_split` hands out: those of the full hours and that of the end. -/
def handedOut (d : DayArrays) (start : TracedLedger) : List TracedLedger :=
  ((List.range (d.minutes.length / 60)).map fun h => ledgerAt d start (60 * (h + 1)))
    ++ [tracedEnd d start]

theorem foldl_tracedMinute_fst (haveSoc : Bool) (ms : List Minute)
    (t : LedgerState × Finset EnergyUnit) :
    (ms.foldl (tracedMinute haveSoc) t).1 = ledgerLoop haveSoc ms t.1 := by
  induction ms generalizing t with
  | nil => rfl
  | cons m ms ih =>
    rw [List.foldl_cons, ih, ledgerLoop_cons]
    rfl

theorem ledgerAt_L (d : DayArrays) (start : TracedLedger) (n : ℕ) :
    (ledgerAt d start n).L = { (splitAfter d start.L n).ledger.L with soc := d.haveSoc } := by
  unfold ledgerAt
  dsimp only
  rw [foldl_tracedMinute_fst, splitAfter_ledger]
  rfl

theorem tracedEnd_L (d : DayArrays) (start : TracedLedger) :
    (tracedEnd d start).L = (splitDay d start.L).endLedger := by
  rw [tracedEnd, ledgerAt_L, splitAfter, List.take_length]
  rfl

/-- The ledgers of the first `n` minutes are pushed at the end of each full hour. -/
theorem splitAfter_hourly (d : DayArrays) (start : BatteryLedger) {n : ℕ}
    (hn : n ≤ d.minutes.length) :
    (splitAfter d start n).i = n ∧ (splitAfter d start n).hourly =
      (List.range (n / 60)).map fun h =>
        { (splitAfter d start (60 * (h + 1))).ledger.L with soc := d.haveSoc } := by
  induction n with
  | zero => exact ⟨rfl, rfl⟩
  | succ n ih =>
    obtain ⟨hi, hhourly⟩ := ih (Nat.le_of_succ_le hn)
    have hstep : splitAfter d start (n + 1)
        = splitMinute d.haveSoc (splitAfter d start n) d.minutes[n] := by
      unfold splitAfter
      rw [List.take_add_one, List.getElem?_eq_getElem hn, List.foldl_append]
      rfl
    refine ⟨by rw [hstep, splitMinute, hi], ?_⟩
    by_cases hfull : n % 60 = 59
    · have hdiv : (n + 1) / 60 = n / 60 + 1 := by omega
      have hhour : 60 * (n / 60 + 1) = n + 1 := by omega
      rw [hdiv, List.range_succ, List.map_append, List.map_singleton, hhour, ← hhourly, hstep]
      unfold splitMinute
      dsimp only
      rw [hi, if_pos hfull]
    · have hdiv : (n + 1) / 60 = n / 60 := by omega
      rw [hdiv, ← hhourly, hstep]
      unfold splitMinute
      dsimp only
      rw [hi, if_neg hfull]

/-- The traced ledgers are those of the code. -/
theorem handedOut_map_L (d : DayArrays) (start : TracedLedger) :
    (handedOut d start).map (·.L)
      = (splitDay d start.L).hourly ++ [(splitDay d start.L).endLedger] := by
  obtain ⟨-, hhourly⟩ := splitAfter_hourly d start.L le_rfl
  unfold splitAfter at hhourly
  rw [List.take_length] at hhourly
  rw [handedOut, List.map_append, List.map_singleton, tracedEnd_L, List.map_map]
  congr 1
  exact (List.map_congr_left fun h _ => ledgerAt_L d start _).trans hhourly.symm

/-! ## One unit at a time -/

/-- The unit that a ledger of the loop really is in. -/
def LedgerState.unit (haveSoc : Bool) (s : LedgerState) : EnergyUnit :=
  if haveSoc && !s.rebase then .halfPct else .wh

/-- Everything that is held is in that unit. -/
def OneUnit (haveSoc : Bool) (t : LedgerState × Finset EnergyUnit) : Prop :=
  t.2 = heldIn t.1.L.known (t.1.unit haveSoc)

/-- After a reading the ledger is in half-percent. -/
theorem OneUnit.reading {t : LedgerState × Finset EnergyUnit} (h : OneUnit true t) (soc : ℤ) :
    readingUnits soc t.1 t.2 = heldIn (applyReading soc t.1).L.known .halfPct := by
  obtain ⟨s, us⟩ := t
  dsimp only
  unfold readingUnits
  rcases applyReading_cases soc s with ⟨hu, heq⟩ | ⟨hu, hk, hor, heq⟩ | ⟨hu, hor, hlt, heq⟩ |
    ⟨hu, hk, hr, hheld, heq⟩
  · rw [heq, if_pos hu]
    rfl
  · rw [heq, if_neg hu.not_ge]
    dsimp only
    rw [hk, Bool.and_true]
    rcases hor with hr | hgt
    · rw [if_pos hr]
      rfl
    · rw [if_neg hgt.not_gt, if_pos hgt, ite_self]
      rfl
  · rw [heq, if_neg hu.not_ge, if_pos hlt, ite_self]
    rfl
  -- the level stays, so the ledger was in half-percent before
  · have hus : us = heldIn s.L.known (s.unit true) := h
    rw [heq, if_neg hu.not_ge, if_neg hheld.not_gt, if_neg hheld.not_lt, hus, hr]
    unfold LedgerState.unit
    rw [hr]
    rfl

theorem OneUnit.count {t : LedgerState × Finset EnergyUnit} (h : OneUnit false t) (m : Minute) :
    countUnits m t.1.L t.2 = heldIn (countWh m t.1.L).known .wh := by
  obtain ⟨⟨L, pendS, pendG, rebase⟩, us⟩ := t
  have hus : us = heldIn L.known .wh := h
  dsimp only
  unfold countUnits countWh
  split
  · rw [hus]
    cases L.known <;> rfl
  · split
    · rename_i hd
      dsimp only
      split
      · rfl
      · dsimp only
        rw [hus, hd.2]
        rfl
    · exact hus

/-- One minute keeps to one unit. -/
theorem OneUnit.minute {haveSoc : Bool} {t : LedgerState × Finset EnergyUnit}
    (h : OneUnit haveSoc t) (m : Minute) : OneUnit haveSoc (tracedMinute haveSoc t m) := by
  unfold OneUnit tracedMinute unitsMinute ledgerMinute
  dsimp only
  cases haveSoc with
  | false => exact h.count m
  | true =>
    have hpend : OneUnit true (addPending m t.1, t.2) := by
      unfold OneUnit LedgerState.unit
      dsimp only
      rw [addPending_L, addPending_rebase]
      exact h
    rw [if_pos rfl, if_pos rfl]
    split
    · rw [hpend.reading m.soc]
      unfold LedgerState.unit
      rw [applyReading_rebase]
      rfl
    · exact hpend

theorem OneUnit.loop {haveSoc : Bool} (ms : List Minute) {t : LedgerState × Finset EnergyUnit}
    (h : OneUnit haveSoc t) : OneUnit haveSoc (ms.foldl (tracedMinute haveSoc) t) := by
  induction ms generalizing t with
  | nil => exact h
  | cons m ms ih => exact ih (h.minute m)

/-- A truthful tag says in which unit the loop starts. -/
theorem TracedLedger.Truthful.oneUnit {start : TracedLedger} (h : start.Truthful) (haveSoc : Bool) :
    OneUnit haveSoc (tracedStart haveSoc start) := by
  obtain ⟨L, us⟩ := start
  have hus : us = heldIn L.known L.unit := h
  unfold OneUnit tracedStart startState LedgerState.unit
  dsimp only
  rw [hus]
  unfold BatteryLedger.unit
  cases haveSoc <;> cases L.soc <;> rfl

/-! ## The first reading -/

/-- Without a reading a ledger stays as it is and goes on waiting. -/
theorem ledgerLoop_waiting {ms : List Minute} (hms : ∀ m ∈ ms, m.soc < 0) (s : LedgerState) :
    (ledgerLoop true ms s).rebase = s.rebase ∧ (ledgerLoop true ms s).L = s.L := by
  induction ms generalizing s with
  | nil => exact ⟨rfl, rfl⟩
  | cons m ms ih =>
    rw [List.forall_mem_cons] at hms
    have hstep : ledgerMinute true m s = addPending m s := by
      rw [ledgerMinute, if_pos rfl, if_neg hms.1.not_ge]
    rw [ledgerLoop_cons, hstep]
    have hrest := ih hms.2 (addPending m s)
    rwa [addPending_rebase, addPending_L] at hrest

/-- The first reading ends the wait. -/
theorem ledgerLoop_rebase_eq_false {ms : List Minute} {s : LedgerState}
    (h : s.rebase = false ∨ ∃ m ∈ ms, 0 ≤ m.soc) : (ledgerLoop true ms s).rebase = false := by
  induction ms generalizing s with
  | nil => exact h.resolve_right (by simp)
  | cons m ms ih =>
    rw [ledgerLoop_cons]
    by_cases hm : 0 ≤ m.soc
    · apply ih
      rw [ledgerMinute, if_pos rfl, if_pos hm, applyReading_rebase]
      exact Or.inl rfl
    · apply ih
      rw [ledgerMinute, if_pos rfl, if_neg hm, addPending_rebase]
      refine h.imp_right fun hread => ?_
      simpa only [List.exists_mem_cons_iff, hm, false_or] using hread

/-- A ledger in Wh that still waits, or the loop without one. -/
def Waits (d : DayArrays) (start : BatteryLedger) (n : ℕ) : Prop :=
  d.haveSoc = true ∧ start.soc = false ∧ start.known = true ∧ ∀ m ∈ d.minutes.take n, m.soc < 0

/-- On a day with a charge file only a known ledger that waits for its reading is in Wh. -/
theorem heldIn_unit_iff (s : LedgerState) :
    heldIn s.L.known (s.unit true) = heldIn s.L.known .halfPct ↔
      ¬ (s.rebase = true ∧ s.L.known = true) := by
  unfold LedgerState.unit
  cases s.rebase <;> cases s.L.known <;> decide

/-- A ledger is tagged wrongly exactly while it waits. -/
theorem ledgerAt_truthful_iff (d : DayArrays) {start : TracedLedger} (hstart : start.Truthful)
    (n : ℕ) : (ledgerAt d start n).Truthful ↔ ¬ Waits d start.L n := by
  have hunits := (hstart.oneUnit d.haveSoc).loop (d.minutes.take n)
  unfold OneUnit at hunits
  rw [foldl_tracedMinute_fst] at hunits
  unfold TracedLedger.Truthful ledgerAt
  dsimp only
  rw [foldl_tracedMinute_fst]
  refine (Eq.congr_left hunits).trans ?_
  unfold Waits
  cases d.haveSoc with
  | false => exact iff_of_true rfl fun h => Bool.false_ne_true h.1
  | true =>
    refine (heldIn_unit_iff _).trans (not_congr ?_)
    show (ledgerLoop true (d.minutes.take n) (startState true start.L)).rebase = true ∧
      (ledgerLoop true (d.minutes.take n) (startState true start.L)).L.known = true ↔ _
    by_cases hread : ∃ m ∈ d.minutes.take n, 0 ≤ m.soc
    · rw [ledgerLoop_rebase_eq_false (Or.inr hread)]
      refine iff_of_false (fun h => Bool.false_ne_true h.1) fun h => ?_
      obtain ⟨m, hm, hge⟩ := hread
      exact absurd (h.2.2.2 m hm) hge.not_gt
    · have hnone : ∀ m ∈ d.minutes.take n, m.soc < 0 := by
        intro m hm
        by_contra hge
        exact hread ⟨m, hm, not_lt.mp hge⟩
      obtain ⟨hkept, hledger⟩ := ledgerLoop_waiting hnone (startState true start.L)
      rw [hkept, hledger, and_iff_right rfl, ← and_assoc, and_iff_left hnone]
      show (!start.L.soc) = true ∧ start.L.known = true ↔ _
      rw [Bool.not_eq_true']

/-- On a day with a charge file, what a known ledger in Wh needs: a reading in the first hour. -/
def AnchoredInTime (d : DayArrays) (start : BatteryLedger) : Prop :=
  d.haveSoc = true → start.soc = false → start.known = true →
    ∃ m ∈ d.minutes.take 60, 0 ≤ m.soc

/-- The earliest ledger that is handed out decides for the day. -/
theorem handedOut_truthful_iff (d : DayArrays) {start : TracedLedger} (hstart : start.Truthful) :
    (∀ T ∈ handedOut d start, T.Truthful) ↔ AnchoredInTime d start.L := by
  have hearlier : ∀ {n n' : ℕ}, n ≤ n' → Waits d start.L n' → Waits d start.L n :=
    fun hle h => ⟨h.1, h.2.1, h.2.2.1, fun m hm =>
      h.2.2.2 m ((List.take_prefix_take_left hle).subset hm)⟩
  have hall : (∀ T ∈ handedOut d start, T.Truthful) ↔ ¬ Waits d start.L 60 := by
    constructor
    · intro h hwaits
      by_cases hfull : 60 ≤ d.minutes.length
      · have hmem : ledgerAt d start 60 ∈ handedOut d start :=
          List.mem_append_left _ (List.mem_map.mpr ⟨0, List.mem_range.mpr (by omega), rfl⟩)
        exact (ledgerAt_truthful_iff d hstart 60).mp (h _ hmem) hwaits
      · have hend := h (tracedEnd d start) (List.mem_append_right _ (List.mem_singleton_self _))
        exact (ledgerAt_truthful_iff d hstart _).mp hend (hearlier (by omega) hwaits)
    · intro hwaits T hT
      rcases List.mem_append.mp hT with hT | hT
      · obtain ⟨h, -, rfl⟩ := List.mem_map.mp hT
        exact (ledgerAt_truthful_iff d hstart _).mpr fun h' => hwaits (hearlier (by omega) h')
      · rw [List.mem_singleton.mp hT]
        refine (ledgerAt_truthful_iff d hstart _).mpr fun h' => hwaits ⟨h'.1, h'.2.1, h'.2.2.1, ?_⟩
        intro m hm
        have hall := h'.2.2.2
        rw [List.take_length] at hall
        exact hall m (List.mem_of_mem_take hm)
  rw [hall]
  unfold Waits AnchoredInTime
  push Not
  rfl

/-! ## Chains of days -/

/-- The end of a chain of days, with its units. -/
def tracedChain (start : TracedLedger) (days : List DayArrays) : TracedLedger :=
  days.foldl (fun T d => tracedEnd d T) start

theorem tracedChain_L (start : TracedLedger) (days : List DayArrays) :
    (tracedChain start days).L = chainEnd start.L days := by
  induction days generalizing start with
  | nil => rfl
  | cons d days ih =>
    rw [chainEnd_cons, ← tracedEnd_L]
    exact ih (tracedEnd d start)

/-- Each day of a chain is anchored in time, from the ledger that it starts from. -/
def ChainAnchored (start : BatteryLedger) (days : List DayArrays) : Prop :=
  ∀ pre d, pre ++ [d] <+: days → AnchoredInTime d (chainEnd start pre)

theorem tracedChain_truthful {start : TracedLedger} (hstart : start.Truthful)
    {days : List DayArrays} (h : ChainAnchored start.L days) :
    (tracedChain start days).Truthful := by
  induction days generalizing start with
  | nil => exact hstart
  | cons d days ih =>
    have hday := (handedOut_truthful_iff d hstart).mpr
      (h [] d (List.prefix_iff_eq_append.mpr rfl))
    refine ih (hday _ (List.mem_append_right _ (List.mem_singleton_self _))) fun pre d' hpre => ?_
    rw [tracedEnd_L]
    exact h (d :: pre) d' (List.cons_prefix_cons.mpr ⟨rfl, hpre⟩)

/-- For every start ledger with a truthful tag: every ledger that a day hands out is tagged
truthfully exactly if the day has no charge file, or starts from an unknown ledger or from one in
half-percent, or has a reading in its first hour. In a chain of such days every ledger of every day
is tagged truthfully. The traced ledgers are those that the code hands out. -/
theorem unit_tag_truthful_iff (start : TracedLedger) (hstart : start.Truthful) :
    (∀ d, ((∀ T ∈ handedOut d start, T.Truthful) ↔ AnchoredInTime d start.L) ∧
      (handedOut d start).map (·.L)
        = (splitDay d start.L).hourly ++ [(splitDay d start.L).endLedger]) ∧
    ∀ days, ChainAnchored start.L days → ∀ pre d, pre ++ [d] <+: days →
      (∀ T ∈ handedOut d (tracedChain start pre), T.Truthful) ∧
        (handedOut d (tracedChain start pre)).map (·.L)
          = (splitDay d (chainEnd start.L pre)).hourly
            ++ [(splitDay d (chainEnd start.L pre)).endLedger] := by
  refine ⟨fun d => ⟨handedOut_truthful_iff d hstart, handedOut_map_L d start⟩,
    fun days hdays pre d hpre => ?_⟩
  have hbefore : ChainAnchored start.L pre := fun pre' d' h' =>
    hdays pre' d' (h'.trans ((List.prefix_append pre [d]).trans hpre))
  refine ⟨(handedOut_truthful_iff d (tracedChain_truthful hstart hbefore)).mpr ?_, ?_⟩
  · rw [tracedChain_L]
    exact hdays pre d hpre
  · rw [handedOut_map_L, tracedChain_L]

/-- 1 Wh of solar charge, counted as such. -/
def oneWh : TracedLedger :=
  { L := { eWh := 1, f := 1, known := true }, units := {.wh} }

/-- The battery is charged for half an hour, then there is a reading of 25 %. -/
def chargedThenReadDay : DayArrays :=
  { haveSoc := true
    loadIds := []
    minutes := List.replicate 30 { Minute.idle with bat := -60000 } ++
      { Minute.idle with bat := -60000, soc := 50 } ::
        List.replicate (kMaxDayMinutes - 31) Minute.idle }

/-- It is re-based by the reading. -/
theorem unit_tag_truthful_chargedThenReadDay :
    oneWh.Truthful ∧ ∀ T ∈ handedOut chargedThenReadDay oneWh, T.Truthful := by
  refine ⟨by decide, ((unit_tag_truthful_iff oneWh (by decide)).1 chargedThenReadDay).1.mpr ?_⟩
  intro _ _ _
  refine ⟨{ Minute.idle with bat := -60000, soc := 50 }, ?_, by decide⟩
  rw [chargedThenReadDay, List.take_append, List.mem_append]
  exact Or.inr List.mem_cons_self

/-- A day with a charge file that has no reading. -/
def noReadingDay : DayArrays :=
  { haveSoc := true, loadIds := [], minutes := List.replicate kMaxDayMinutes Minute.idle }

/-- After such a day 1 Wh counts as half a percent. -/
theorem unit_tag_wrong :
    ¬ ∀ start : TracedLedger, start.Truthful →
      ∀ d, ∀ T ∈ handedOut d start, T.Truthful := by
  intro h
  obtain ⟨m, hm, hge⟩ :=
    (handedOut_truthful_iff noReadingDay (show oneWh.Truthful by decide)).mp
      (h oneWh (by decide) noReadingDay) rfl rfl rfl
  rw [List.eq_of_mem_replicate (List.mem_of_mem_take hm)] at hge
  exact absurd hge (by decide)

end HomeEnergyManager.NodePowerLogger
