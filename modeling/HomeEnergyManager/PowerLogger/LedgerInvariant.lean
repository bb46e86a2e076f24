import HomeEnergyManager.PowerLogger.Split

/-! # What every battery ledger satisfies

`BatteryLedger.Inv` is the invariant of the ledger and `LedgerState.Inv` that of the minute loop,
which also has the pending charge. Every branch of the loop keeps them, so they hold at each minute
of each day of a chain. On the state-of-charge path the energy is moreover the last reading less the
reserve.
-/

namespace HomeEnergyManager.NodePowerLogger

/-- The ledger invariant: the mix is a fraction, the energy is not negative, a known ledger holds
something and an unknown one nothing. -/
structure BatteryLedger.Inv (L : BatteryLedger) : Prop where
  f_mem : L.f ∈ Set.Icc 0 1
  eWh_nonneg : 0 ≤ L.eWh
  known_pos : L.known = true → 0 < L.eWh
  unknown_zero : L.known = false → L.eWh = 0 ∧ L.f = 0

/-- The loop invariant: the ledger's, and no pending total is negative. -/
structure LedgerState.Inv (s : LedgerState) : Prop where
  ledger : s.L.Inv
  pendS_nonneg : 0 ≤ s.pendS
  pendG_nonneg : 0 ≤ s.pendG

theorem BatteryLedger.inv_unknown : BatteryLedger.unknown.Inv where
  f_mem := ⟨le_rfl, zero_le_one⟩
  eWh_nonneg := le_rfl
  known_pos h := absurd h (by decide)
  unknown_zero _ := ⟨rfl, rfl⟩

/-- The invariant does not read the unit tag. -/
theorem BatteryLedger.Inv.setSoc {L : BatteryLedger} (h : L.Inv) (b : Bool) :
    { L with soc := b }.Inv :=
  ⟨h.f_mem, h.eWh_nonneg, h.known_pos, h.unknown_zero⟩

/-- A known ledger only needs a fraction and a positive energy. -/
theorem BatteryLedger.Inv.of_known {L : BatteryLedger} (hk : L.known = true)
    (hf : L.f ∈ Set.Icc 0 1) (he : 0 < L.eWh) : L.Inv :=
  ⟨hf, he.le, fun _ => he, fun hn => absurd (hk.symm.trans hn) (by decide)⟩

/-- Changing the energy of a known ledger to another positive one keeps the invariant. -/
theorem BatteryLedger.Inv.setEnergy {L : BatteryLedger} (h : L.Inv) (hk : L.known = true) {e : ℚ}
    (he : 0 < e) : { L with eWh := e }.Inv :=
  .of_known hk h.f_mem he

theorem BatteryLedger.Inv.held_eq {L : BatteryLedger} (h : L.Inv) : L.held = L.eWh := by
  unfold BatteryLedger.held
  split
  · rfl
  · rename_i hk
    exact (h.unknown_zero (Bool.eq_false_iff.mpr hk)).1.symm

theorem BatteryLedger.Inv.mix_eq {L : BatteryLedger} (h : L.Inv) : L.mix = L.f := by
  unfold BatteryLedger.mix
  split
  · rfl
  · rename_i hk
    exact (h.unknown_zero (Bool.eq_false_iff.mpr hk)).2.symm

theorem usable_pos_iff (soc : ℤ) : 0 < usable soc ↔ kBatteryReserveHalfPct < soc := by
  unfold usable
  split
  · rename_i h
    have habove : (0 : ℤ) < soc - kBatteryReserveHalfPct := by omega
    exact ⟨fun _ => h, fun _ => by exact_mod_cast habove⟩
  · rename_i h
    exact ⟨fun h' => absurd h' (lt_irrefl 0), fun h' => absurd h' h⟩

/-! ## The charge of one minute -/

/-- The grid part of a charge is between zero and the whole charge. -/
theorem Minute.chargeGrid_mem {m : Minute} (hm : m.batW < 0) :
    m.chargeGrid ∈ Set.Icc 0 (-m.batW) := by
  have hc : 0 < -m.batW := neg_pos.mpr hm
  unfold Minute.chargeGrid
  split
  · rename_i hinv
    split
    · rename_i hlt
      exact ⟨(neg_pos.mpr hinv).le, hlt.le⟩
    · exact ⟨hc.le, le_rfl⟩
  · exact ⟨le_rfl, hc.le⟩

theorem Minute.chargeSolar_nonneg {m : Minute} (hm : m.batW < 0) : 0 ≤ m.chargeSolar :=
  sub_nonneg.mpr (Minute.chargeGrid_mem hm).2

/-- Without inverter intake no part of the charge comes from the grid. -/
theorem Minute.chargeGrid_eq_zero {m : Minute} (hm : ¬ m.invW < 0) : m.chargeGrid = 0 :=
  if_neg hm

theorem addPending_inv (m : Minute) {s : LedgerState} (h : s.Inv) : (addPending m s).Inv := by
  unfold addPending
  split
  · rename_i hm
    exact ⟨h.ledger, add_nonneg h.pendS_nonneg (Minute.chargeSolar_nonneg hm),
      add_nonneg h.pendG_nonneg (Minute.chargeGrid_mem hm).1⟩
  · exact h

@[simp] theorem addPending_L (m : Minute) (s : LedgerState) : (addPending m s).L = s.L := by
  unfold addPending
  split <;> rfl

@[simp] theorem addPending_rebase (m : Minute) (s : LedgerState) :
    (addPending m s).rebase = s.rebase := by
  unfold addPending
  split <;> rfl

/-! ## One reading -/

/-- The mix of a rise lies between the bounds of the current mix and of the pending charge. -/
theorem LedgerState.riseMix_mem {s : LedgerState} {lo : ℚ} (hL : s.L.mix ∈ Set.Icc lo 1)
    (hpend : 0 < s.pendS + s.pendG → s.pendS / (s.pendS + s.pendG) ∈ Set.Icc lo 1) :
    s.riseMix ∈ Set.Icc lo 1 := by
  unfold LedgerState.riseMix
  split
  · rename_i h
    exact hpend h
  · exact hL

theorem LedgerState.Inv.riseMix_mem {s : LedgerState} (h : s.Inv) : s.riseMix ∈ Set.Icc 0 1 :=
  s.riseMix_mem (h.ledger.mix_eq ▸ h.ledger.f_mem)
    fun hpos => Mix.share_mem_unit h.pendS_nonneg h.pendG_nonneg hpos

/-- The mix after a rise is a blend of the mix held and the mix of the rise. -/
theorem rise_eq_blend (f held r u : ℚ) :
    (f * held + r * (u - held)) / u = Mix.blend held f (u - held) r := by
  rw [Mix.blend, add_sub_cancel]

/-- What a reading can do. Down to the reserve the ledger is emptied; above it the pending charge is
used up and the energy is the usable charge, unless the level stays, which changes nothing but the
re-base flag. Only a rise of an anchored (or unknown) ledger changes the mix. -/
theorem applyReading_cases (soc : ℤ) (s : LedgerState) :
    (usable soc ≤ 0 ∧
      applyReading soc s = { L := .unknown, pendS := 0, pendG := 0, rebase := false }) ∨
    (0 < usable soc ∧ s.L.known = true ∧ (s.rebase = true ∨ usable soc < s.L.held) ∧
      applyReading soc s
        = { L := { s.L with eWh := usable soc }, pendS := 0, pendG := 0, rebase := false }) ∨
    (0 < usable soc ∧ (s.rebase = false ∨ s.L.known = false) ∧ s.L.held < usable soc ∧
      applyReading soc s
        = { L := { s.L with
              f := Mix.blend s.L.held s.L.f (usable soc - s.L.held) s.riseMix
              eWh := usable soc
              known := true },
            pendS := 0, pendG := 0, rebase := false }) ∨
    (0 < usable soc ∧ s.L.known = true ∧ s.rebase = false ∧ usable soc = s.L.held ∧
      applyReading soc s = { s with rebase := false }) := by
  unfold applyReading
  simp only [rise_eq_blend]
  rcases le_or_gt (usable soc) 0 with hu | hu
  · exact Or.inl ⟨hu, by rw [if_pos hu]⟩
  · rw [if_neg hu.not_ge]
    by_cases hr : (s.rebase && s.L.known) = true
    · rw [if_pos hr]
      rw [Bool.and_eq_true] at hr
      exact Or.inr (Or.inl ⟨hu, hr.2, Or.inl hr.1, rfl⟩)
    · rw [if_neg hr]
      have hr' : s.rebase = false ∨ s.L.known = false := by
        rwa [Bool.and_eq_true, not_and_or, Bool.not_eq_true, Bool.not_eq_true] at hr
      -- an unknown ledger holds nothing, so to it a positive level is always a rise
      rcases lt_trichotomy s.L.held (usable soc) with hlt | heq | hgt
      · rw [if_pos hlt]
        exact Or.inr (Or.inr (Or.inl ⟨hu, hr', hlt, rfl⟩))
      · have hk : s.L.known = true := by
          by_contra hk
          rw [BatteryLedger.held, if_neg hk] at heq
          exact hu.ne heq
        have hreb : s.rebase = false := by
          rcases hr' with h | h
          · exact h
          · exact absurd (hk.symm.trans h) (by decide)
        rw [if_neg heq.not_lt, if_neg heq.not_gt]
        exact Or.inr (Or.inr (Or.inr ⟨hu, hk, hreb, heq.symm, rfl⟩))
      · have hk : s.L.known = true := by
          by_contra hk
          rw [BatteryLedger.held, if_neg hk] at hgt
          exact absurd hgt hu.not_gt
        rw [if_neg hgt.not_gt, if_pos hgt]
        exact Or.inr (Or.inl ⟨hu, hk, Or.inr hgt, rfl⟩)

theorem applyReading_inv (soc : ℤ) {s : LedgerState} (h : s.Inv) : (applyReading soc s).Inv := by
  rcases applyReading_cases soc s with ⟨-, heq⟩ | ⟨hu, hk, -, heq⟩ | ⟨hu, -, hlt, heq⟩ |
    ⟨-, -, -, -, heq⟩
  · rw [heq]
    exact ⟨BatteryLedger.inv_unknown, le_rfl, le_rfl⟩
  · rw [heq]
    exact ⟨h.ledger.setEnergy hk hu, le_rfl, le_rfl⟩
  · rw [heq]
    refine ⟨.of_known rfl ?_ hu, le_rfl, le_rfl⟩
    have hheld : 0 ≤ s.L.held := h.ledger.held_eq ▸ h.ledger.eWh_nonneg
    exact Mix.blend_mem_Icc hheld (sub_pos.mpr hlt).le (by rwa [add_sub_cancel])
      h.ledger.f_mem h.riseMix_mem
  · rw [heq]
    exact ⟨h.ledger, h.pendS_nonneg, h.pendG_nonneg⟩

/-- Right after a reading the ledger holds exactly the usable charge. -/
theorem applyReading_anchored (soc : ℤ) (s : LedgerState) :
    ((applyReading soc s).L.known = true ↔ kBatteryReserveHalfPct < soc) ∧
      ((applyReading soc s).L.known = true → (applyReading soc s).L.eWh = usable soc) := by
  rw [← usable_pos_iff]
  rcases applyReading_cases soc s with ⟨hu, heq⟩ | ⟨hu, hk, -, heq⟩ | ⟨hu, -, -, heq⟩ |
    ⟨hu, hk, -, hheld, heq⟩
  · rw [heq]
    exact ⟨⟨fun h => absurd h (by decide), fun h => absurd h hu.not_gt⟩,
      fun h => absurd h (by decide)⟩
  · rw [heq]
    exact ⟨⟨fun _ => hu, fun _ => hk⟩, fun _ => rfl⟩
  · rw [heq]
    exact ⟨⟨fun _ => hu, fun _ => rfl⟩, fun _ => rfl⟩
  · rw [heq]
    refine ⟨⟨fun _ => hu, fun _ => hk⟩, fun _ => ?_⟩
    rw [hheld, BatteryLedger.held, if_pos hk]

/-! ## One minute of Wh counting -/

/-- What counting Wh can do: a charge blends its solar part in, a discharge lowers a known ledger
and empties it when nothing is left. -/
theorem countWh_cases (m : Minute) (L : BatteryLedger) :
    (m.batW < 0 ∧ countWh m L
      = { L with
          f := Mix.blend L.held L.mix (-m.batW / 60) (m.chargeSolar / -m.batW)
          eWh := L.held + -m.batW / 60
          known := true }) ∨
    (¬ m.batW < 0 ∧ L.known = true ∧ countWh m L = .unknown) ∨
    (¬ m.batW < 0 ∧ L.known = true ∧ ∃ e, 0 < e ∧ countWh m L = { L with eWh := e }) ∨
    (¬ m.batW < 0 ∧ countWh m L = L) := by
  unfold countWh
  by_cases hm : m.batW < 0
  · refine Or.inl ⟨hm, ?_⟩
    rw [if_pos hm]
    have hc : -m.batW ≠ 0 := (neg_pos.mpr hm).ne'
    -- the solar fraction of the charge times the charge is its solar part
    have hsolar : m.chargeSolar / -m.batW * (-m.batW / 60) = m.chargeSolar / 60 := by
      rw [div_mul_div_comm, mul_comm (-m.batW), mul_div_mul_right _ _ hc]
    have hheld : (if L.known = true then L.f * L.eWh else 0) = L.mix * L.held := by
      unfold BatteryLedger.mix BatteryLedger.held
      split
      · rfl
      · rw [zero_mul]
    simp only [Mix.blend, hsolar, hheld]
  · rw [if_neg hm]
    right
    by_cases hd : 0 < m.batW ∧ L.known = true
    · rw [if_pos hd]
      dsimp only
      by_cases he : L.eWh - m.batW / 60 / kBatteryRoundTrip ≤ 0
      · rw [if_pos he]
        exact Or.inl ⟨hm, hd.2, rfl⟩
      · rw [if_neg he]
        exact Or.inr (Or.inl ⟨hm, hd.2, _, not_le.mp he, rfl⟩)
    · rw [if_neg hd]
      exact Or.inr (Or.inr ⟨hm, rfl⟩)

/-- The solar fraction of one minute's charge. -/
theorem Minute.solarFraction_mem {m : Minute} (hm : m.batW < 0) :
    m.chargeSolar / -m.batW ∈ Set.Icc 0 1 := by
  have hc : 0 < -m.batW := neg_pos.mpr hm
  refine ⟨div_nonneg (Minute.chargeSolar_nonneg hm) hc.le, (div_le_one hc).mpr ?_⟩
  rw [Minute.chargeSolar]
  linarith [(Minute.chargeGrid_mem hm).1]

theorem countWh_inv (m : Minute) {L : BatteryLedger} (h : L.Inv) : (countWh m L).Inv := by
  rcases countWh_cases m L with ⟨hm, heq⟩ | ⟨-, -, heq⟩ | ⟨-, hk, e, he, heq⟩ | ⟨-, heq⟩
  · rw [heq]
    have hheld : 0 ≤ L.held := h.held_eq ▸ h.eWh_nonneg
    have hadd : 0 < -m.batW / 60 := div_pos (neg_pos.mpr hm) (by norm_num)
    have hpos : 0 < L.held + -m.batW / 60 := by linarith
    refine .of_known rfl ?_ hpos
    exact Mix.blend_mem_Icc hheld hadd.le hpos (h.mix_eq ▸ h.f_mem) (Minute.solarFraction_mem hm)
  · rw [heq]
    exact BatteryLedger.inv_unknown
  · rw [heq]
    exact h.setEnergy hk he
  · rw [heq]
    exact h

/-! ## Minutes, days and chains of days -/

theorem ledgerMinute_inv (haveSoc : Bool) (m : Minute) {s : LedgerState} (h : s.Inv) :
    (ledgerMinute haveSoc m s).Inv := by
  unfold ledgerMinute
  split
  · dsimp only
    split
    · exact applyReading_inv _ (addPending_inv m h)
    · exact addPending_inv m h
  · exact ⟨countWh_inv m h.ledger, h.pendS_nonneg, h.pendG_nonneg⟩

theorem ledgerLoop_inv (haveSoc : Bool) (ms : List Minute) {s : LedgerState} (h : s.Inv) :
    (ledgerLoop haveSoc ms s).Inv := by
  induction ms generalizing s with
  | nil => exact h
  | cons m ms ih => exact ih (ledgerMinute_inv haveSoc m h)

theorem startState_inv (haveSoc : Bool) {start : BatteryLedger} (h : start.Inv) :
    (startState haveSoc start).Inv := by
  refine ⟨?_, le_rfl, le_rfl⟩
  unfold startState
  dsimp only
  split
  · exact BatteryLedger.inv_unknown
  · exact h

theorem endLedger_inv (haveSoc : Bool) (ms : List Minute) {start : BatteryLedger} (h : start.Inv) :
    (endLedger haveSoc ms start).Inv :=
  (ledgerLoop_inv haveSoc ms (startState_inv haveSoc h)).ledger.setSoc haveSoc

/-- While it is unknown it holds nothing, whatever known ledger it started from. -/
theorem endLedger_unknown_zero (haveSoc : Bool) (ms : List Minute) {start : BatteryLedger}
    (h : start.known = false → start.eWh = 0 ∧ start.f = 0) :
    (endLedger haveSoc ms start).known = false →
      (endLedger haveSoc ms start).eWh = 0 ∧ (endLedger haveSoc ms start).f = 0 := by
  have hstart : (startState haveSoc start).L.known = false →
      (startState haveSoc start).L.eWh = 0 ∧ (startState haveSoc start).L.f = 0 := by
    unfold startState
    dsimp only
    split
    · exact fun _ => ⟨rfl, rfl⟩
    · exact h
  show (ledgerLoop haveSoc ms (startState haveSoc start)).L.known = false → _
  unfold endLedger
  dsimp only
  generalize startState haveSoc start = s at hstart ⊢
  -- whatever makes a ledger unknown empties it
  induction ms generalizing s with
  | nil => exact hstart
  | cons m ms ih =>
    apply ih (ledgerMinute haveSoc m s)
    unfold ledgerMinute
    split
    · dsimp only
      split
      · rcases applyReading_cases m.soc (addPending m s) with ⟨-, heq⟩ | ⟨-, hk, -, heq⟩ |
          ⟨-, -, -, heq⟩ | ⟨-, -, -, -, heq⟩
        · rw [heq]
          exact fun _ => ⟨rfl, rfl⟩
        · rw [heq]
          exact fun hn => nomatch hk.symm.trans hn
        · rw [heq]
          exact nofun
        · rw [heq]
          dsimp only
          rwa [addPending_L]
      · rwa [addPending_L]
    · dsimp only
      rcases countWh_cases m s.L with ⟨-, heq⟩ | ⟨-, -, heq⟩ | ⟨-, hk, e, -, heq⟩ | ⟨-, heq⟩
      · rw [heq]
        exact nofun
      · rw [heq]
        exact fun _ => ⟨rfl, rfl⟩
      · rw [heq]
        exact fun hn => nomatch hk.symm.trans hn
      · rwa [heq]

theorem chainEnd_inv {start : BatteryLedger} (h : start.Inv) (days : List DayArrays) :
    (chainEnd start days).Inv := by
  induction days generalizing start with
  | nil => exact h
  | cons d ds ih =>
    rw [chainEnd_cons, splitDay_endLedger]
    exact ih (endLedger_inv d.haveSoc d.minutes h)

/-- One more minute of a day is one more pass of the ledger update. -/
theorem splitAfter_succ_ledger (d : DayArrays) (start : BatteryLedger) {n : ℕ}
    (hn : n < d.minutes.length) :
    (splitAfter d start (n + 1)).ledger
      = ledgerMinute d.haveSoc d.minutes[n] (splitAfter d start n).ledger := by
  rw [splitAfter_ledger, splitAfter_ledger, List.take_add_one, List.getElem?_eq_getElem hn,
    ledgerLoop_append]
  rfl

theorem splitAfter_inv (d : DayArrays) {start : BatteryLedger} (h : start.Inv) (n : ℕ) :
    (splitAfter d start n).ledger.Inv := by
  rw [splitAfter_ledger]
  exact ledgerLoop_inv _ _ (startState_inv _ h)

/-- The ledger invariant at every minute of a day that ends a chain of any number of days, and the
anchoring of the ledger to each state-of-charge reading `r` right after it is applied. -/
theorem battery_ledger_invariant (start : BatteryLedger) (hstart : start.Inv)
    (days : List DayArrays) (d : DayArrays) :
    (chainEnd start days).Inv ∧
    (∀ n, (splitAfter d (chainEnd start days) n).ledger.L.Inv) ∧
    (splitDay d (chainEnd start days)).endLedger.Inv ∧
    ∀ n (hn : n < d.minutes.length), d.haveSoc = true → 0 ≤ d.minutes[n].soc →
      ((splitAfter d (chainEnd start days) (n + 1)).ledger.L.known = true ↔
        kBatteryReserveHalfPct < d.minutes[n].soc) ∧
      ((splitAfter d (chainEnd start days) (n + 1)).ledger.L.known = true →
        (splitAfter d (chainEnd start days) (n + 1)).ledger.L.eWh
          = d.minutes[n].soc - kBatteryReserveHalfPct) := by
  have hchain := chainEnd_inv hstart days
  refine ⟨hchain, fun n => (splitAfter_inv d hchain n).ledger, ?_, ?_⟩
  · rw [splitDay_endLedger]
    exact endLedger_inv d.haveSoc d.minutes hchain
  · intro n hn hsoc hread
    obtain ⟨hiff, henergy⟩ := applyReading_anchored d.minutes[n].soc
      (addPending d.minutes[n] (splitAfter d (chainEnd start days) n).ledger)
    rw [splitAfter_succ_ledger d _ hn, ledgerMinute, if_pos hsoc, if_pos hread]
    refine ⟨hiff, fun hk => ?_⟩
    rw [henergy hk, usable, if_pos (hiff.mp hk)]
    push_cast
    rfl

/-- A day without readings on which the panels charge the battery by 1 Wh. -/
def solarChargeDay : DayArrays :=
  { haveSoc := false, loadIds := [], minutes := [{ Minute.idle with bat := -60000 }] }

/-- A day with one reading of 25 %. -/
def oneReadingDay : DayArrays :=
  { haveSoc := true, loadIds := [], minutes := [{ Minute.idle with soc := 50 }] }

/-- After a Wh day the first reading anchors the ledger at 30 half-percent above the reserve. -/
theorem battery_ledger_invariant_oneReadingDay :
    (splitAfter oneReadingDay (chainEnd .unknown [solarChargeDay]) 1).ledger.L.known = true ∧
    (splitAfter oneReadingDay (chainEnd .unknown [solarChargeDay]) 1).ledger.L.eWh = 30 := by
  obtain ⟨-, -, -, h⟩ :=
    battery_ledger_invariant .unknown BatteryLedger.inv_unknown [solarChargeDay] oneReadingDay
  obtain ⟨hiff, henergy⟩ := h 0 (by decide) rfl (by decide)
  have hk := hiff.mpr (by decide)
  refine ⟨hk, (henergy hk).trans ?_⟩
  norm_num [oneReadingDay, kBatteryReserveHalfPct]

end HomeEnergyManager.NodePowerLogger
