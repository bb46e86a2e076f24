import HomeEnergyManager.PowerLogger.LedgerInvariant

/-! # Carrying the ledger over midnight

`compute_day_split` hands only the ledger to the next day. The charge that still waits for a reading
and the re-base flag are dropped, so a run cut at midnight can end in another mix than an
uninterrupted one. `CarryAgree` says exactly when it does not.
-/

namespace HomeEnergyManager.NodePowerLogger

/-- The minutes of consecutive days in one list, as an uninterrupted pass would see them. -/
def joinMinutes (d : DayArrays) (ds : List DayArrays) : DayArrays :=
  { d with minutes := d.minutes ++ ds.flatMap (·.minutes) }

/-- What the next day keeps of the loop state: the ledger, with nothing pending. -/
def LedgerState.dropCarry (s : LedgerState) : LedgerState :=
  { s with pendS := 0, pendG := 0, rebase := false }

/-- Some reading is at or below the reserve, which empties the ledger. -/
def Drained (ms : List Minute) : Prop :=
  ∃ m ∈ ms, 0 ≤ m.soc ∧ m.soc ≤ kBatteryReserveHalfPct

/-- The mix that the next rise is given; a re-based ledger keeps its own. -/
def LedgerState.nextMix (s : LedgerState) : ℚ :=
  if s.rebase && s.L.known then s.L.f else s.riseMix

/-- Two loop states with one ledger, `A` with the carry and `B` without, come to the same end over
`ms`: the first reading that changes the level is no rise, or gives both the same mix, or a later
reading is down to the reserve. -/
def CarryAgree : LedgerState → LedgerState → List Minute → Prop
  | _, _, [] => True
  | A, B, m :: ms =>
    let A' := addPending m A
    let B' := addPending m B
    if m.soc < 0 then CarryAgree A' B' ms
    else if usable m.soc ≤ 0 ∨ usable m.soc < A'.L.held then True
    else if usable m.soc = A'.L.held then
      CarryAgree (applyReading m.soc A') (applyReading m.soc B') ms
    else A'.nextMix = B'.nextMix ∨ Drained ms

/-- The carry that midnight drops makes no difference to the second day. -/
def MidnightSafe (haveSoc : Bool) (start : BatteryLedger) (ms₁ ms₂ : List Minute) : Prop :=
  haveSoc = true →
    CarryAgree (ledgerLoop true ms₁ (startState true start))
      (ledgerLoop true ms₁ (startState true start)).dropCarry ms₂

instance (ms : List Minute) : Decidable (Drained ms) :=
  inferInstanceAs (Decidable (∃ m ∈ ms, _))

instance decidableCarryAgree (A B : LedgerState) :
    (ms : List Minute) → Decidable (CarryAgree A B ms)
  | [] => isTrue trivial
  | m :: ms =>
    have := decidableCarryAgree (addPending m A) (addPending m B) ms
    have := decidableCarryAgree (applyReading m.soc (addPending m A))
      (applyReading m.soc (addPending m B)) ms
    inferInstanceAs (Decidable
      (if m.soc < 0 then CarryAgree (addPending m A) (addPending m B) ms
      else if usable m.soc ≤ 0 ∨ usable m.soc < (addPending m A).L.held then True
      else if usable m.soc = (addPending m A).L.held then
        CarryAgree (applyReading m.soc (addPending m A)) (applyReading m.soc (addPending m B)) ms
      else (addPending m A).nextMix = (addPending m B).nextMix ∨ Drained ms))

instance (haveSoc : Bool) (start : BatteryLedger) (ms₁ ms₂ : List Minute) :
    Decidable (MidnightSafe haveSoc start ms₁ ms₂) :=
  inferInstanceAs (Decidable (_ → _))

/-! ## The unit tag does not steer the loop -/

/-- A loop state with another unit tag on its ledger. -/
def LedgerState.retag (b : Bool) (s : LedgerState) : LedgerState :=
  { s with L := { s.L with soc := b } }

theorem addPending_retag (m : Minute) (b : Bool) (s : LedgerState) :
    addPending m (s.retag b) = (addPending m s).retag b := by
  unfold addPending LedgerState.retag
  split <;> rfl

theorem applyReading_retag (soc : ℤ) (b : Bool) (s : LedgerState) :
    ∃ b', applyReading soc (s.retag b) = (applyReading soc s).retag b' := by
  by_cases hu : usable soc ≤ 0
  · refine ⟨false, ?_⟩
    unfold applyReading
    rw [if_pos hu, if_pos hu]
    rfl
  · refine ⟨b, ?_⟩
    have hheld : (s.retag b).L.held = s.L.held := rfl
    have hrise : (s.retag b).riseMix = s.riseMix := rfl
    have hknown : ((s.retag b).rebase && (s.retag b).L.known) = (s.rebase && s.L.known) := rfl
    unfold applyReading
    rw [if_neg hu, if_neg hu, hheld, hrise, hknown]
    split_ifs <;> rfl

theorem ledgerLoop_retag (ms : List Minute) (b : Bool) (s : LedgerState) :
    ∃ b', ledgerLoop true ms (s.retag b) = (ledgerLoop true ms s).retag b' := by
  induction ms generalizing b s with
  | nil => exact ⟨b, rfl⟩
  | cons m ms ih =>
    have hminute : ∃ b', ledgerMinute true m (s.retag b) = (ledgerMinute true m s).retag b' := by
      unfold ledgerMinute
      rw [if_pos rfl, if_pos rfl]
      dsimp only
      rw [addPending_retag]
      split
      · exact applyReading_retag _ _ _
      · exact ⟨b, rfl⟩
    obtain ⟨b', hb'⟩ := hminute
    rw [ledgerLoop_cons, ledgerLoop_cons, hb']
    exact ih b' _

theorem applyReading_soc (soc : ℤ) (s : LedgerState) :
    (applyReading soc s).L.soc = if usable soc ≤ 0 then false else s.L.soc := by
  unfold applyReading
  dsimp only
  split_ifs <;> rfl

/-- The readings alone say what becomes of the unit tag. -/
theorem ledgerLoop_soc_congr (ms : List Minute) {A B : LedgerState} (h : A.L.soc = B.L.soc) :
    (ledgerLoop true ms A).L.soc = (ledgerLoop true ms B).L.soc := by
  induction ms generalizing A B with
  | nil => exact h
  | cons m ms ih =>
    rw [ledgerLoop_cons, ledgerLoop_cons]
    apply ih
    rw [ledgerMinute, ledgerMinute, if_pos rfl, if_pos rfl]
    dsimp only
    split
    · rw [applyReading_soc, applyReading_soc, addPending_L, addPending_L, h]
    · rw [addPending_L, addPending_L, h]

/-! ## Two mixes that have come apart stay apart until the ledger is emptied -/

/-- A loop state with another mix. -/
def LedgerState.setMix (s : LedgerState) (g : ℚ) : LedgerState :=
  { s with L := { s.L with f := g } }

theorem addPending_setMix (m : Minute) (s : LedgerState) (g : ℚ) :
    addPending m (s.setMix g) = (addPending m s).setMix g := by
  unfold addPending LedgerState.setMix
  split <;> rfl

theorem drained_cons_of_no_reading {m : Minute} {ms : List Minute} (hm : m.soc < 0) :
    Drained (m :: ms) ↔ Drained ms := by
  simp only [Drained, List.mem_cons, exists_eq_or_imp]
  exact or_iff_right fun h => absurd h.1 (not_le.mpr hm)

theorem drained_cons_of_above {m : Minute} {ms : List Minute} (hm : 0 < usable m.soc) :
    Drained (m :: ms) ↔ Drained ms := by
  rw [usable_pos_iff] at hm
  simp only [Drained, List.mem_cons, exists_eq_or_imp]
  exact or_iff_right fun h => absurd h.2 (not_le.mpr hm)

/-- One reading above the reserve keeps two different mixes different. -/
theorem applyReading_setMix {soc : ℤ} (hu : 0 < usable soc) {s : LedgerState}
    (he : 0 < s.L.eWh) (hk : s.L.known = true) (hreb : s.rebase = false) {g : ℚ}
    (hg : s.L.f ≠ g) :
    0 < (applyReading soc s).L.eWh ∧ (applyReading soc s).L.known = true ∧
      (applyReading soc s).rebase = false ∧
      ∃ g', (applyReading soc s).L.f ≠ g' ∧
        applyReading soc (s.setMix g) = (applyReading soc s).setMix g' := by
  have hheld : (s.setMix g).L.held = s.L.held := rfl
  have hpos : 0 < s.L.held := by rwa [BatteryLedger.held, if_pos hk]
  have hknown : ((s.setMix g).rebase && (s.setMix g).L.known) = (s.rebase && s.L.known) := rfl
  have hrb : ¬ (s.rebase && s.L.known) = true := by
    rw [hreb, Bool.false_and]
    exact Bool.false_ne_true
  unfold applyReading
  rw [if_neg hu.not_ge, if_neg hu.not_ge, hheld, hknown, if_neg hrb, if_neg hrb]
  by_cases hlt : s.L.held < usable soc
  · rw [if_pos hlt, if_pos hlt]
    refine ⟨hu, rfl, rfl, _, ?_, rfl⟩
    dsimp only
    rw [rise_eq_blend, rise_eq_blend]
    have hd : 0 < usable soc - s.L.held := sub_pos.mpr hlt
    have hmix : s.L.mix = s.L.f := if_pos hk
    have hmix' : (s.setMix g).L.mix = g := if_pos hk
    by_cases hpend : 0 < s.pendS + s.pendG
    · have hr : (s.setMix g).riseMix = s.riseMix := by
        unfold LedgerState.riseMix
        rw [if_pos hpend, if_pos (show 0 < (s.setMix g).pendS + (s.setMix g).pendG from hpend)]
        rfl
      rw [hr]
      exact fun heq => hg ((Mix.blend_left_inj hpos (by linarith)).mp heq)
    · have hr : s.riseMix = s.L.f := by
        rw [LedgerState.riseMix, if_neg hpend, hmix]
      have hr' : (s.setMix g).riseMix = g := by
        rw [LedgerState.riseMix,
          if_neg (show ¬ 0 < (s.setMix g).pendS + (s.setMix g).pendG from hpend), hmix']
      rw [hr, hr', Mix.blend_self (by linarith), show (s.setMix g).L.f = g from rfl,
        Mix.blend_self (by linarith)]
      exact hg
  · rw [if_neg hlt, if_neg hlt]
    by_cases hgt : usable soc < s.L.held
    · rw [if_pos hgt, if_pos hgt]
      exact ⟨hu, hk, rfl, g, hg, rfl⟩
    · rw [if_neg hgt, if_neg hgt]
      exact ⟨he, hk, rfl, g, hg, rfl⟩

/-- From two anchored states that differ in the mix alone the ends agree exactly when some reading
is down to the reserve. -/
theorem ledgerLoop_setMix_eq_iff (ms : List Minute) {s : LedgerState} (he : 0 < s.L.eWh)
    (hk : s.L.known = true) (hreb : s.rebase = false) {g : ℚ} (hg : s.L.f ≠ g) :
    (ledgerLoop true ms s).L = (ledgerLoop true ms (s.setMix g)).L ↔ Drained ms := by
  induction ms generalizing s g with
  | nil =>
    refine ⟨fun heq => absurd (congrArg BatteryLedger.f heq) hg, ?_⟩
    rintro ⟨m, hm, -⟩
    exact absurd hm List.not_mem_nil
  | cons m ms ih =>
    have he' : 0 < (addPending m s).L.eWh := by rwa [addPending_L]
    have hk' : (addPending m s).L.known = true := by rwa [addPending_L]
    have hreb' : (addPending m s).rebase = false := by rwa [addPending_rebase]
    have hg' : (addPending m s).L.f ≠ g := by rwa [addPending_L]
    rw [ledgerLoop_cons, ledgerLoop_cons, ledgerMinute, ledgerMinute, if_pos rfl, if_pos rfl,
      addPending_setMix]
    dsimp only
    by_cases hread : 0 ≤ m.soc
    · rw [if_pos hread, if_pos hread]
      rcases le_or_gt (usable m.soc) 0 with hu | hu
      · have hdrain : Drained (m :: ms) :=
          ⟨m, List.mem_cons_self, hread, not_lt.mp fun h => hu.not_gt ((usable_pos_iff _).mpr h)⟩
        unfold applyReading
        rw [if_pos hu, if_pos hu]
        exact iff_of_true rfl hdrain
      · obtain ⟨he₁, hk₁, hreb₁, g', hg₁, heq⟩ := applyReading_setMix hu he' hk' hreb' hg'
        rw [heq, drained_cons_of_above hu]
        exact ih he₁ hk₁ hreb₁ hg₁
    · rw [if_neg hread, if_neg hread, drained_cons_of_no_reading (not_le.mp hread)]
      exact ih he' hk' hreb' hg'

/-! ## One ledger with and without the carry -/

/-- A rise gives the ledger the blend of its mix with the next mix, re-based or not. -/
theorem applyReading_rise {soc : ℤ} {s : LedgerState} (hu : 0 < usable soc)
    (hlt : s.L.held < usable soc) :
    applyReading soc s
      = { L := { s.L with
            f := Mix.blend s.L.held s.L.f (usable soc - s.L.held) s.nextMix
            eWh := usable soc
            known := true },
          pendS := 0, pendG := 0, rebase := false } := by
  unfold applyReading LedgerState.nextMix
  rw [if_neg hu.not_ge]
  by_cases hr : (s.rebase && s.L.known) = true
  · rw [if_pos hr, if_pos hr, Mix.blend_self (by rw [add_sub_cancel]; exact hu.ne')]
    rw [Bool.and_eq_true] at hr
    simp only [hr.2]
  · rw [if_neg hr, if_neg hr, if_pos hlt, rise_eq_blend]

/-- A fall lowers the energy alone, re-based or not. -/
theorem applyReading_fall {soc : ℤ} {s : LedgerState} (hu : 0 < usable soc)
    (hlt : usable soc < s.L.held) :
    applyReading soc s
      = { L := { s.L with eWh := usable soc }, pendS := 0, pendG := 0, rebase := false } := by
  unfold applyReading
  rw [if_neg hu.not_ge, if_neg hlt.not_gt, if_pos hlt]
  split <;> rfl

/-- A reading at the level held leaves the ledger as it is. -/
theorem applyReading_level {soc : ℤ} {s : LedgerState} (hu : 0 < usable soc)
    (heq : usable soc = s.L.held) : (applyReading soc s).L = s.L := by
  have hk : s.L.known = true := by
    by_contra hk
    rw [BatteryLedger.held, if_neg hk] at heq
    exact hu.ne' heq
  have hself : { s.L with eWh := usable soc } = s.L := by
    rw [heq, BatteryLedger.held, if_pos hk]
  unfold applyReading
  rw [if_neg hu.not_ge]
  split
  · exact hself
  · rw [if_neg heq.not_gt, if_neg heq.not_lt]

theorem applyReading_rebase (soc : ℤ) (s : LedgerState) : (applyReading soc s).rebase = false := by
  unfold applyReading
  dsimp only
  split
  · rfl
  · split
    · rfl
    · split
      · rfl
      · split <;> rfl

/-- The ends with and without the carry agree exactly when `CarryAgree` holds. -/
theorem ledgerLoop_eq_iff_carryAgree (ms : List Minute) {A B : LedgerState} (hL : B.L = A.L)
    (hB : B.rebase = false) :
    (ledgerLoop true ms A).L = (ledgerLoop true ms B).L ↔ CarryAgree A B ms := by
  induction ms generalizing A B with
  | nil => exact iff_of_true hL.symm trivial
  | cons m ms ih =>
    have hL' : (addPending m B).L = (addPending m A).L := by rw [addPending_L, addPending_L, hL]
    have hB' : (addPending m B).rebase = false := by rw [addPending_rebase, hB]
    rw [ledgerLoop_cons, ledgerLoop_cons, ledgerMinute, ledgerMinute, if_pos rfl, if_pos rfl,
      CarryAgree]
    dsimp only
    generalize addPending m A = A₁ at hL' ⊢
    generalize addPending m B = B₁ at hL' hB' ⊢
    by_cases hread : m.soc < 0
    · rw [if_pos hread, if_neg (not_le.mpr hread), if_neg (not_le.mpr hread)]
      exact ih hL' hB'
    · rw [if_neg hread, if_pos (not_lt.mp hread), if_pos (not_lt.mp hread)]
      rcases le_or_gt (usable m.soc) 0 with hu | hu
      -- both are emptied
      · rw [if_pos (Or.inl hu)]
        unfold applyReading
        rw [if_pos hu, if_pos hu]
        exact iff_of_true rfl trivial
      · rcases lt_trichotomy (usable m.soc) A₁.L.held with hlt | heq | hgt
        -- a fall: both keep their mix and forget what is pending
        · rw [if_pos (Or.inr hlt)]
          have hltB : usable m.soc < B₁.L.held := by rwa [hL']
          rw [applyReading_fall hu hlt, applyReading_fall hu hltB, hL']
          exact iff_of_true rfl trivial
        -- the level stays
        · rw [if_neg (not_or.mpr ⟨hu.not_ge, heq.not_lt⟩), if_pos heq]
          refine ih ?_ (applyReading_rebase _ _)
          rw [applyReading_level hu heq, applyReading_level hu (by rw [hL']; exact heq), hL']
        -- a rise
        · rw [if_neg (not_or.mpr ⟨hu.not_ge, hgt.not_gt⟩), if_neg hgt.ne']
          have hrise := applyReading_rise hu (s := B₁) (by rw [hL']; exact hgt)
          rw [hL'] at hrise
          rw [applyReading_rise hu hgt, hrise]
          have hd : 0 < usable m.soc - A₁.L.held := sub_pos.mpr hgt
          by_cases hmix : A₁.nextMix = B₁.nextMix
          · rw [hmix]
            exact iff_of_true rfl (Or.inl rfl)
          · rw [or_iff_right hmix]
            refine ledgerLoop_setMix_eq_iff ms hu rfl rfl fun heq => hmix ?_
            exact (Mix.blend_right_inj hd (by rw [add_sub_cancel]; exact hu)).mp heq

/-! ## Day by day and in one pass -/

theorem countWh_soc {m : Minute} {L : BatteryLedger} (h : L.soc = false) :
    (countWh m L).soc = false := by
  rcases countWh_cases m L with ⟨-, heq⟩ | ⟨-, -, heq⟩ | ⟨-, -, e, -, heq⟩ | ⟨-, heq⟩
  · rw [heq]; exact h
  · rw [heq]; rfl
  · rw [heq]; exact h
  · rw [heq]; exact h

/-- On the Wh path the loop carries nothing but a ledger in Wh. -/
theorem ledgerLoop_wh (ms : List Minute) {L : BatteryLedger} (h : L.soc = false) :
    ledgerLoop false ms (startState false L)
      = startState false (ledgerLoop false ms (startState false L)).L ∧
    (ledgerLoop false ms (startState false L)).L.soc = false := by
  suffices hgen : ∀ s : LedgerState, s.L.soc = false → s = startState false s.L →
      ledgerLoop false ms s = startState false (ledgerLoop false ms s).L ∧
        (ledgerLoop false ms s).L.soc = false by
    have hstart : (startState false L).L = L := by simp [startState, h]
    exact hgen _ (by rw [hstart]; exact h) (by rw [hstart])
  induction ms with
  | nil => exact fun s hs heq => ⟨heq, hs⟩
  | cons m ms ih =>
    intro s hs heq
    have hsoc : (countWh m s.L).soc = false := countWh_soc hs
    apply ih (ledgerMinute false m s) hsoc
    rw [heq]
    simp [ledgerMinute, startState, hs, hsoc]

/-- Two days of one kind, day by day and in one pass. -/
theorem endLedger_endLedger_eq_iff (haveSoc : Bool) (ms₁ ms₂ : List Minute)
    (start : BatteryLedger) :
    endLedger haveSoc ms₂ (endLedger haveSoc ms₁ start) = endLedger haveSoc (ms₁ ++ ms₂) start ↔
      MidnightSafe haveSoc start ms₁ ms₂ := by
  cases haveSoc with
  | false =>
    refine iff_of_true ?_ fun h => absurd h (by decide)
    -- `L` is what the loop starts from; it is in Wh either way
    obtain ⟨L, hL, hs⟩ : ∃ L : BatteryLedger, L.soc = false ∧
        startState false start = startState false L := by
      cases hsoc : start.soc with
      | true => exact ⟨.unknown, rfl, by simp [startState, hsoc, BatteryLedger.unknown]⟩
      | false => exact ⟨start, hsoc, rfl⟩
    obtain ⟨hloop, hsoc⟩ := ledgerLoop_wh ms₁ hL
    have hend : endLedger false ms₁ start = (ledgerLoop false ms₁ (startState false L)).L := by
      rw [endLedger, hs]
      generalize (ledgerLoop false ms₁ (startState false L)).L = L₁ at hsoc
      cases L₁
      simp only [BatteryLedger.mk.injEq, true_and]
      exact hsoc.symm
    rw [hend, endLedger, endLedger, ledgerLoop_append, hs, ← hloop]
  | true =>
    have hiff := ledgerLoop_eq_iff_carryAgree ms₂
      (A := ledgerLoop true ms₁ (startState true start))
      (B := (ledgerLoop true ms₁ (startState true start)).dropCarry) rfl rfl
    have hnext : startState true (endLedger true ms₁ start)
        = (ledgerLoop true ms₁ (startState true start)).dropCarry.retag true := rfl
    obtain ⟨b, hb⟩ := ledgerLoop_retag ms₂ true
      (ledgerLoop true ms₁ (startState true start)).dropCarry
    have hsoc := ledgerLoop_soc_congr ms₂
      (A := ledgerLoop true ms₁ (startState true start))
      (B := (ledgerLoop true ms₁ (startState true start)).dropCarry) rfl
    rw [MidnightSafe, imp_iff_right rfl, ← hiff, endLedger, hnext, hb, endLedger,
      ledgerLoop_append]
    generalize (ledgerLoop true ms₂ (ledgerLoop true ms₁ (startState true start))).L = X at hsoc ⊢
    generalize ledgerLoop true ms₂
      (ledgerLoop true ms₁ (startState true start)).dropCarry = Y at hsoc ⊢
    obtain ⟨⟨e, f, k, t⟩, pS, pG, r⟩ := Y
    obtain ⟨e', f', k', t'⟩ := X
    dsimp only at hsoc
    subst hsoc
    simp only [LedgerState.retag, BatteryLedger.mk.injEq, and_true]
    constructor
    · rintro ⟨he, hf, hk⟩
      exact ⟨he.symm, hf.symm, hk.symm⟩
    · rintro ⟨he, hf, hk⟩
      exact ⟨he.symm, hf.symm, hk.symm⟩

theorem joinMinutes_append_singleton (d : DayArrays) (es : List DayArrays) (e : DayArrays) :
    (joinMinutes d (es ++ [e])).minutes = (joinMinutes d es).minutes ++ e.minutes := by
  simp [joinMinutes]

/-- The days after `d`, all of the same kind: day by day and in one pass the ledgers agree at the
end of every day exactly when no midnight loses a carry that matters. -/
theorem chainEnd_eq_onePass_iff (start : BatteryLedger) (d : DayArrays) (ds : List DayArrays)
    (hsoc : ∀ e ∈ ds, e.haveSoc = d.haveSoc) :
    (∀ es, es <+: ds → chainEnd start (d :: es) = (splitDay (joinMinutes d es) start).endLedger) ↔
      ∀ es e, es ++ [e] <+: ds →
        MidnightSafe d.haveSoc start (joinMinutes d es).minutes e.minutes := by
  have hday : ∀ es e, es ++ [e] <+: ds →
      chainEnd start (d :: es) = (splitDay (joinMinutes d es) start).endLedger →
      (chainEnd start (d :: (es ++ [e])) = (splitDay (joinMinutes d (es ++ [e])) start).endLedger ↔
        MidnightSafe d.haveSoc start (joinMinutes d es).minutes e.minutes) := by
    intro es e hpre heq
    have he : e.haveSoc = d.haveSoc := hsoc e (hpre.subset (by simp))
    rw [← List.cons_append, chainEnd_append_singleton, heq, splitDay_endLedger, splitDay_endLedger,
      splitDay_endLedger, he, joinMinutes_append_singleton]
    exact endLedger_endLedger_eq_iff d.haveSoc _ e.minutes start
  constructor
  · intro h es e hpre
    exact (hday es e hpre (h es ((List.prefix_append es [e]).trans hpre))).mp (h _ hpre)
  · intro h es
    induction es using List.reverseRecOn with
    | nil => intro _; simp [joinMinutes]
    | append_singleton es e ih =>
      intro hpre
      exact (hday es e hpre (ih ((List.prefix_append es [e]).trans hpre))).mpr (h es e hpre)

/-- A day that ends with solar charge after its only reading of 30 %. -/
def lateChargeDay : DayArrays :=
  { haveSoc := true
    loadIds := []
    minutes := [{ Minute.idle with soc := 60 }, { Minute.idle with bat := -60000 }] }

/-- A day whose first reading drains the battery, which then charges from the panels to 40 %. -/
def drainedFirstDay : DayArrays :=
  { haveSoc := true
    loadIds := []
    minutes := [{ Minute.idle with soc := 20 }, { Minute.idle with bat := -60000 },
      { Minute.idle with soc := 80 }] }

/-- The carry is lost at midnight, but the drain makes it irrelevant. -/
theorem chainEnd_eq_onePass_iff_drainedFirstDay :
    chainEnd .unknown [lateChargeDay, drainedFirstDay]
      = (splitDay (joinMinutes lateChargeDay [drainedFirstDay]) .unknown).endLedger := by
  refine (chainEnd_eq_onePass_iff .unknown lateChargeDay [drainedFirstDay] (by simp; rfl)).mpr
    ?_ [drainedFirstDay] (List.prefix_refl _)
  intro es e hpre
  cases es with
  | nil =>
    obtain ⟨rfl, -⟩ := List.cons_prefix_cons.mp hpre
    decide +kernel
  | cons x es => simpa using hpre.length_le

/-- The level is seen to rise to 40 % only after midnight. -/
def earlyRiseDay : DayArrays :=
  { haveSoc := true, loadIds := [], minutes := [{ Minute.idle with soc := 80 }] }

/-- The solar charge before midnight is forgotten: the rise is booked with the old mix. -/
theorem chainEnd_ne_onePass :
    ¬ ∀ (start : BatteryLedger) (d : DayArrays) (ds : List DayArrays),
      (∀ e ∈ ds, e.haveSoc = d.haveSoc) →
        chainEnd start (d :: ds) = (splitDay (joinMinutes d ds) start).endLedger := by
  intro h
  have heq := h .unknown lateChargeDay [earlyRiseDay] (by simp; rfl)
  revert heq
  decide +kernel

end HomeEnergyManager.NodePowerLogger
