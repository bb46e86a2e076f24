import HomeEnergyManager.PowerLogger.LedgerInvariant

/-! # The direction in which the mix moves

The mix of a known ledger stays between any bounds that hold the mix itself and the solar fraction
of every charge. A run without AC charging has charges of fraction one, so the mix does not fall; a
run without charging has none, so the mix does not change.
-/

namespace HomeEnergyManager.NodePowerLogger

/-- A known ledger whose mix, and that of the charge waiting for the next reading, lies between `lo`
and `hi`. The pending part is stated without a division, so that nothing pending is allowed. -/
structure LedgerState.MixBetween (lo hi : ℚ) (s : LedgerState) : Prop where
  inv : s.Inv
  known : s.L.known = true
  f_mem : s.L.f ∈ Set.Icc lo hi
  pend_low : lo * (s.pendS + s.pendG) ≤ s.pendS
  pend_high : s.pendS ≤ hi * (s.pendS + s.pendG)

/-- If the minute charges the battery, the solar fraction of the charge lies between `lo` and
`hi`. -/
def Minute.ChargeBetween (lo hi : ℚ) (m : Minute) : Prop :=
  m.batW < 0 → lo * -m.batW ≤ m.chargeSolar ∧ m.chargeSolar ≤ hi * -m.batW

/-- With nothing pending only the ledger matters. -/
theorem LedgerState.MixBetween.of_no_pending {lo hi : ℚ} {L : BatteryLedger} (h : L.Inv)
    (hk : L.known = true) (hf : L.f ∈ Set.Icc lo hi) (rebase : Bool) :
    LedgerState.MixBetween lo hi { L := L, pendS := 0, pendG := 0, rebase := rebase } :=
  ⟨⟨h, le_rfl, le_rfl⟩, hk, hf, by simp, by simp⟩

theorem LedgerState.MixBetween.addPending {lo hi : ℚ} {s : LedgerState} (h : s.MixBetween lo hi)
    {m : Minute} (hm : m.ChargeBetween lo hi) :
    (NodePowerLogger.addPending m s).MixBetween lo hi := by
  refine ⟨addPending_inv m h.inv, by rw [addPending_L]; exact h.known,
    by rw [addPending_L]; exact h.f_mem, ?_, ?_⟩
  all_goals
    unfold NodePowerLogger.addPending
    split
  · rename_i hb
    have hlow := (hm hb).1
    have hpend := h.pend_low
    simp only [Minute.chargeSolar] at hlow ⊢
    linarith
  · exact h.pend_low
  · rename_i hb
    have hhigh := (hm hb).2
    have hpend := h.pend_high
    simp only [Minute.chargeSolar] at hhigh ⊢
    linarith
  · exact h.pend_high

/-- The mix of a rise is within the bounds. -/
theorem LedgerState.MixBetween.riseMix_mem {lo hi : ℚ} {s : LedgerState} (h : s.MixBetween lo hi) :
    s.riseMix ∈ Set.Icc lo hi := by
  unfold LedgerState.riseMix
  split
  · rename_i hpos
    exact ⟨(le_div_iff₀ hpos).mpr h.pend_low, (div_le_iff₀ hpos).mpr h.pend_high⟩
  · rw [h.inv.ledger.mix_eq]
    exact h.f_mem

theorem LedgerState.MixBetween.applyReading {lo hi : ℚ} {s : LedgerState} (h : s.MixBetween lo hi)
    {soc : ℤ} (hk : (NodePowerLogger.applyReading soc s).L.known = true) :
    (NodePowerLogger.applyReading soc s).MixBetween lo hi := by
  have hinv := applyReading_inv soc h.inv
  rcases applyReading_cases soc s with ⟨-, heq⟩ | ⟨-, -, -, heq⟩ | ⟨hu, -, hlt, heq⟩ |
    ⟨-, -, -, -, heq⟩
  · rw [heq] at hk
    exact absurd hk (by decide)
  · rw [heq] at hinv ⊢
    exact .of_no_pending hinv.ledger h.known h.f_mem _
  · rw [heq] at hinv ⊢
    refine .of_no_pending hinv.ledger rfl ?_ _
    have hheld : 0 ≤ s.L.held := h.inv.ledger.held_eq ▸ h.inv.ledger.eWh_nonneg
    exact Mix.blend_mem_Icc hheld (sub_pos.mpr hlt).le (by rwa [add_sub_cancel]) h.f_mem
      h.riseMix_mem
  · rw [heq] at hinv ⊢
    exact ⟨hinv, h.known, h.f_mem, h.pend_low, h.pend_high⟩

theorem LedgerState.MixBetween.countWh {lo hi : ℚ} {s : LedgerState} (h : s.MixBetween lo hi)
    {m : Minute} (hm : m.ChargeBetween lo hi)
    (hk : (NodePowerLogger.countWh m s.L).known = true) :
    LedgerState.MixBetween lo hi { s with L := NodePowerLogger.countWh m s.L } := by
  have hinv := countWh_inv m h.inv.ledger
  suffices hf : (NodePowerLogger.countWh m s.L).f ∈ Set.Icc lo hi from
    ⟨⟨hinv, h.inv.pendS_nonneg, h.inv.pendG_nonneg⟩, hk, hf, h.pend_low, h.pend_high⟩
  rcases countWh_cases m s.L with ⟨hb, heq⟩ | ⟨-, -, heq⟩ | ⟨-, -, e, -, heq⟩ | ⟨-, heq⟩
  · rw [heq]
    have hc : 0 < -m.batW := neg_pos.mpr hb
    have hheld : 0 ≤ s.L.held := h.inv.ledger.held_eq ▸ h.inv.ledger.eWh_nonneg
    have hadd : 0 < -m.batW / 60 := div_pos hc (by norm_num)
    obtain ⟨hlow, hhigh⟩ := hm hb
    exact Mix.blend_mem_Icc hheld hadd.le (by linarith) (h.inv.ledger.mix_eq ▸ h.f_mem)
      ⟨(le_div_iff₀ hc).mpr hlow, (div_le_iff₀ hc).mpr hhigh⟩
  · rw [heq] at hk
    exact absurd hk (by decide)
  · rw [heq]
    exact h.f_mem
  · rw [heq]
    exact h.f_mem

/-- A minute that does not reset the ledger and whose charge is within the bounds keeps the mix
within them. -/
theorem LedgerState.MixBetween.ledgerMinute {lo hi : ℚ} {s : LedgerState} (h : s.MixBetween lo hi)
    {haveSoc : Bool} {m : Minute} (hm : m.ChargeBetween lo hi)
    (hk : (NodePowerLogger.ledgerMinute haveSoc m s).L.known = true) :
    (NodePowerLogger.ledgerMinute haveSoc m s).MixBetween lo hi := by
  unfold NodePowerLogger.ledgerMinute at hk ⊢
  by_cases hsoc : haveSoc = true
  · rw [if_pos hsoc] at hk ⊢
    dsimp only at hk ⊢
    by_cases hread : 0 ≤ m.soc
    · rw [if_pos hread] at hk ⊢
      exact (h.addPending hm).applyReading hk
    · rw [if_neg hread]
      exact h.addPending hm
  · rw [if_neg hsoc] at hk ⊢
    exact h.countWh hm hk

/-- The same for a run of minutes during which the ledger stays known. -/
theorem LedgerState.MixBetween.ledgerLoop {lo hi : ℚ} {haveSoc : Bool} {ms : List Minute}
    (hms : ∀ m ∈ ms, m.ChargeBetween lo hi) {s : LedgerState} (h : s.MixBetween lo hi)
    (hk : ∀ n, (NodePowerLogger.ledgerLoop haveSoc (ms.take n) s).L.known = true) (n : ℕ) :
    (NodePowerLogger.ledgerLoop haveSoc (ms.take n) s).MixBetween lo hi := by
  induction ms generalizing s n with
  | nil =>
    rw [List.take_nil]
    exact h
  | cons m ms ih =>
    cases n with
    | zero => exact h
    | succ n =>
      rw [List.take_succ_cons, ledgerLoop_cons]
      refine ih (fun m' hm' => hms m' (List.mem_cons_of_mem m hm')) ?_ ?_ n
      · exact h.ledgerMinute (hms m List.mem_cons_self) (hk 1)
      · intro k
        have hk' := hk (k + 1)
        rwa [List.take_succ_cons, ledgerLoop_cons] at hk'

/-- A charge that takes nothing from the AC side is all solar. -/
theorem Minute.chargeBetween_of_no_ac {m : Minute} (hm : ¬ (m.batW < 0 ∧ m.invW < 0)) {lo : ℚ}
    (hlo : lo ≤ 1) : m.ChargeBetween lo 1 := by
  intro hb
  have hgrid := Minute.chargeGrid_eq_zero fun hinv => hm ⟨hb, hinv⟩
  have hc : 0 ≤ -m.batW := (neg_pos.mpr hb).le
  rw [Minute.chargeSolar, hgrid, sub_zero, one_mul]
  exact ⟨mul_le_of_le_one_left hc hlo, le_rfl⟩

/-- Over a run of minutes that never resets a known ledger with nothing pending, on either path:
without AC charging the solar fraction never falls below its start, and without charging it does
not change. -/
theorem solar_fraction_direction (haveSoc : Bool) (s : LedgerState) (ms : List Minute)
    (hinv : s.L.Inv) (hknown : s.L.known = true) (hpendS : s.pendS = 0) (hpendG : s.pendG = 0)
    (hreset : ∀ n, (ledgerLoop haveSoc (ms.take n) s).L.known = true) :
    ((∀ m ∈ ms, ¬ (m.batW < 0 ∧ m.invW < 0)) →
      ∀ n, s.L.f ≤ (ledgerLoop haveSoc (ms.take n) s).L.f) ∧
    ((∀ m ∈ ms, ¬ m.batW < 0) →
      ∀ n, (ledgerLoop haveSoc (ms.take n) s).L.f = s.L.f) := by
  have hstart : ∀ {lo hi : ℚ}, s.L.f ∈ Set.Icc lo hi → s.MixBetween lo hi := fun hf =>
    ⟨⟨hinv, hpendS.ge, hpendG.ge⟩, hknown, hf, by simp [hpendS, hpendG], by simp [hpendS, hpendG]⟩
  -- the bounds are the start and one, or the start twice
  constructor
  · intro hms n
    have hle := hinv.f_mem.2
    exact ((hstart ⟨le_rfl, hle⟩).ledgerLoop
      (fun m hm => Minute.chargeBetween_of_no_ac (hms m hm) hle) hreset n).f_mem.1
  · intro hms n
    have hmem := ((hstart ⟨le_rfl, le_rfl⟩).ledgerLoop
      (fun m hm hb => absurd hb (hms m hm)) hreset n).f_mem
    exact le_antisymm hmem.2 hmem.1

/-- Half solar, 25 % in the battery. -/
def halfSolar : LedgerState :=
  { L := { eWh := 30, f := 1 / 2, known := true, soc := true }
    pendS := 0, pendG := 0, rebase := false }

/-- A solar charge to 30 % and the discharge that follows. -/
def solarThenDischarge : List Minute :=
  [{ Minute.idle with bat := -60000, soc := 60 }, { Minute.idle with bat := 60000, soc := 55 }]

/-- The charge may raise the fraction; the discharge alone leaves it at one half. -/
theorem solar_fraction_direction_halfSolar :
    1 / 2 ≤ (ledgerLoop true solarThenDischarge halfSolar).L.f ∧
    (ledgerLoop true (solarThenDischarge.drop 1) halfSolar).L.f = 1 / 2 := by
  have hinv : halfSolar.L.Inv :=
    .of_known rfl ⟨by decide +kernel, by decide +kernel⟩ (by decide +kernel)
  refine ⟨(solar_fraction_direction true halfSolar solarThenDischarge hinv rfl rfl rfl ?_).1
      (by decide +kernel) 2,
    (solar_fraction_direction true halfSolar (solarThenDischarge.drop 1) hinv rfl rfl rfl ?_).2
      (by decide +kernel) 1⟩
  · rintro (_ | _ | n)
    · rfl
    · decide +kernel
    · rw [List.take_of_length_le (by simp [solarThenDischarge])]
      decide +kernel
  · rintro (_ | n)
    · rfl
    · rw [List.take_of_length_le (by simp [solarThenDischarge])]
      decide +kernel

end HomeEnergyManager.NodePowerLogger
