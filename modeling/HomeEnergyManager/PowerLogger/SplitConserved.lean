import Mathlib.Algebra.BigOperators.Ring.List
import HomeEnergyManager.Lib.Accumulate
import HomeEnergyManager.Lib.Checked
import HomeEnergyManager.PowerLogger.Files
import HomeEnergyManager.PowerLogger.LedgerInvariant

/-! # The split of a day is conserved

From a start ledger whose mix is a fraction and whose energy is not negative, the solar share of
every minute is a fraction and no division is by zero, the two proved together along the loop. So
the energies of the loads and of the remainder are not negative, and add up to what was drawn.

Reference: `firmware/main/node_power_logger.cpp`.
-/

namespace HomeEnergyManager.NodePowerLogger

/-! ## The minute loop with every division checked -/

def Minute.gridShareChecked (m : Minute) : Option ℚ :=
  (if 0 < m.gridW then Checked.div m.gridW m.total else some 0).map fun g => if 1 < g then 1 else g

def Minute.batteryShareChecked (m : Minute) : Option ℚ :=
  let invPos := if 0 < m.invW then m.invW else 0
  let dis := if 0 < m.batW then m.batW else 0
  if 0 < invPos then Checked.div (if dis < invPos then dis else invPos) invPos else some 0

def Minute.solarShareChecked (m : Minute) (L : BatteryLedger) : Option ℚ :=
  m.gridShareChecked.bind fun g =>
    m.batteryShareChecked.map fun b => (1 - g) * ((1 - b) + b * L.mix)

def shareMinuteChecked (m : Minute) (L : BatteryLedger) (a : Shares) : Option Shares :=
  if 0 < m.total then
    (m.solarShareChecked L).map fun s =>
      let unWh := (m.total - m.loadsSum) / 60
      { loadSolar := addLoads s a.loadSolar m.loads
        loadGrid := addLoads (1 - s) a.loadGrid m.loads
        unSolar := a.unSolar + unWh * s
        unGrid := a.unGrid + unWh * (1 - s) }
  else some a

def LedgerState.riseMixChecked (s : LedgerState) : Option ℚ :=
  if 0 < s.pendS + s.pendG then Checked.div s.pendS (s.pendS + s.pendG) else some s.L.mix

def applyReadingChecked (soc : ℤ) (s : LedgerState) : Option LedgerState :=
  let u := usable soc
  let held := s.L.held
  if u ≤ 0 then some { L := .unknown, pendS := 0, pendG := 0, rebase := false }
  else if s.rebase && s.L.known then
    some { L := { s.L with eWh := u }, pendS := 0, pendG := 0, rebase := false }
  else if held < u then
    s.riseMixChecked.bind fun r =>
      (Checked.div (s.L.f * held + r * (u - held)) u).map fun f =>
        { L := { s.L with f := f, eWh := u, known := true }, pendS := 0, pendG := 0,
          rebase := false }
  else if u < held then
    some { L := { s.L with eWh := u }, pendS := 0, pendG := 0, rebase := false }
  else
    some { s with rebase := false }

def countWhChecked (m : Minute) (L : BatteryLedger) : Option BatteryLedger :=
  if m.batW < 0 then
    let solarHeld := if L.known then L.f * L.eWh else 0
    let eWh := L.held + -m.batW / 60
    (Checked.div (solarHeld + m.chargeSolar / 60) eWh).map fun f =>
      { L with eWh := eWh, f := f, known := true }
  else if 0 < m.batW ∧ L.known = true then
    let eWh := L.eWh - m.batW / 60 / kBatteryRoundTrip
    some (if eWh ≤ 0 then .unknown else { L with eWh := eWh })
  else some L

def ledgerMinuteChecked (haveSoc : Bool) (m : Minute) (s : LedgerState) : Option LedgerState :=
  if haveSoc then
    let s := addPending m s
    if 0 ≤ m.soc then applyReadingChecked m.soc s else some s
  else
    (countWhChecked m s.L).map fun L => { s with L := L }

def splitMinuteChecked (haveSoc : Bool) (st : SplitState) (m : Minute) : Option SplitState :=
  (shareMinuteChecked m st.ledger.L st.shares).bind fun shares =>
    (ledgerMinuteChecked haveSoc m st.ledger).map fun ledger =>
      { ledger := ledger
        shares := shares
        hourly := if st.i % 60 = 59 then st.hourly ++ [{ ledger.L with soc := haveSoc }]
          else st.hourly
        i := st.i + 1 }

/-- `compute_day_split` on loaded arrays, where a division by zero fails. -/
def splitDayChecked (d : DayArrays) (start : BatteryLedger) : Option DaySplit :=
  (d.minutes.foldlM (splitMinuteChecked d.haveSoc) (splitStart d start)).map fun st =>
    { wh := (d.loadIds.zip (st.shares.loadSolar.zip st.shares.loadGrid))
        ++ [(UNMONITORED_KEY, st.shares.unSolar, st.shares.unGrid)]
      endLedger := { st.ledger.L with soc := d.haveSoc }
      hourly := st.hourly }

/-! ## Sound ledgers -/

/-- What the loop needs of its locals: the mix is a fraction and nothing is negative. -/
structure LedgerState.Sound (s : LedgerState) : Prop where
  f_mem : s.L.f ∈ Set.Icc 0 1
  eWh_nonneg : s.L.known = true → 0 ≤ s.L.eWh
  pendS_nonneg : 0 ≤ s.pendS
  pendG_nonneg : 0 ≤ s.pendG

namespace LedgerState.Sound

variable {s : LedgerState}

theorem held_nonneg (h : s.Sound) : 0 ≤ s.L.held := by
  unfold BatteryLedger.held
  split
  · rename_i hk
    exact h.eWh_nonneg hk
  · exact le_rfl

theorem mix_mem (h : s.Sound) : s.L.mix ∈ Set.Icc 0 1 := by
  unfold BatteryLedger.mix
  split
  · exact h.f_mem
  · exact ⟨le_rfl, zero_le_one⟩

theorem riseMix_mem (h : s.Sound) : s.riseMix ∈ Set.Icc 0 1 :=
  s.riseMix_mem h.mix_mem fun hpos => Mix.share_mem_unit h.pendS_nonneg h.pendG_nonneg hpos

/-- A ledger with a fraction and an energy, and nothing pending. -/
theorem of_ledger {L : BatteryLedger} (hf : L.f ∈ Set.Icc 0 1) (he : 0 ≤ L.eWh) (rebase : Bool) :
    Sound { L := L, pendS := 0, pendG := 0, rebase := rebase } :=
  ⟨hf, fun _ => he, le_rfl, le_rfl⟩

theorem addPending (h : s.Sound) (m : Minute) : (addPending m s).Sound := by
  unfold NodePowerLogger.addPending
  split
  · rename_i hm
    exact ⟨h.f_mem, h.eWh_nonneg, add_nonneg h.pendS_nonneg (Minute.chargeSolar_nonneg hm),
      add_nonneg h.pendG_nonneg (Minute.chargeGrid_mem hm).1⟩
  · exact h

theorem applyReading (h : s.Sound) (soc : ℤ) : (applyReading soc s).Sound := by
  -- emptied, re-based or lowered, risen, unchanged
  rcases applyReading_cases soc s with ⟨-, heq⟩ | ⟨hu, -, -, heq⟩ | ⟨hu, -, hlt, heq⟩ |
    ⟨-, -, -, -, heq⟩
  · rw [heq]
    exact of_ledger ⟨le_rfl, zero_le_one⟩ le_rfl false
  · rw [heq]
    exact of_ledger (L := { s.L with eWh := usable soc }) h.f_mem hu.le false
  · rw [heq]
    refine of_ledger ?_ hu.le false
    exact Mix.blend_mem_Icc h.held_nonneg (sub_pos.mpr hlt).le (by rwa [add_sub_cancel])
      h.f_mem h.riseMix_mem
  · rw [heq]
    exact ⟨h.f_mem, h.eWh_nonneg, h.pendS_nonneg, h.pendG_nonneg⟩

/-- What a charge is added to leaves something to divide by. -/
theorem held_add_charge_pos (h : s.Sound) {m : Minute} (hm : m.batW < 0) :
    0 < s.L.held + -m.batW / 60 :=
  add_pos_of_nonneg_of_pos h.held_nonneg (div_pos (neg_pos.mpr hm) (by norm_num))

theorem countWh (h : s.Sound) (m : Minute) : Sound { s with L := countWh m s.L } := by
  rcases countWh_cases m s.L with ⟨hm, heq⟩ | ⟨-, -, heq⟩ | ⟨-, -, e, he, heq⟩ | ⟨-, heq⟩
  · rw [heq]
    have hpos := h.held_add_charge_pos hm
    have hadd : 0 ≤ -m.batW / 60 := (div_pos (neg_pos.mpr hm) (by norm_num)).le
    exact ⟨Mix.blend_mem_Icc h.held_nonneg hadd hpos h.mix_mem (Minute.solarFraction_mem hm),
      fun _ => hpos.le, h.pendS_nonneg, h.pendG_nonneg⟩
  · rw [heq]
    exact ⟨⟨le_rfl, zero_le_one⟩, fun _ => le_rfl, h.pendS_nonneg, h.pendG_nonneg⟩
  · rw [heq]
    exact ⟨h.f_mem, fun _ => he.le, h.pendS_nonneg, h.pendG_nonneg⟩
  · rw [heq]
    exact h

theorem ledgerMinute (h : s.Sound) (haveSoc : Bool) (m : Minute) :
    (ledgerMinute haveSoc m s).Sound := by
  unfold NodePowerLogger.ledgerMinute
  split
  · dsimp only
    split
    · exact (h.addPending m).applyReading _
    · exact h.addPending m
  · exact h.countWh m

theorem start {start : BatteryLedger} (hf : start.f ∈ Set.Icc 0 1)
    (he : start.known = true → 0 ≤ start.eWh) (haveSoc : Bool) :
    (startState haveSoc start).Sound := by
  unfold startState
  split
  · exact of_ledger ⟨le_rfl, zero_le_one⟩ le_rfl _
  · exact ⟨hf, he, le_rfl, le_rfl⟩

end LedgerState.Sound

/-! ## No division by zero -/

theorem Minute.gridShareChecked_eq {m : Minute} (h : 0 < m.total) :
    m.gridShareChecked = some m.gridShare := by
  unfold gridShareChecked gridShare
  rw [Checked.div_of_ne h.ne']
  split <;> rfl

theorem Minute.batteryShareChecked_eq (m : Minute) :
    m.batteryShareChecked = some m.batteryShare := by
  unfold batteryShareChecked batteryShare
  dsimp only
  by_cases hinv : 0 < if 0 < m.invW then m.invW else 0
  · rw [if_pos hinv, if_pos hinv, Checked.div_of_ne hinv.ne']
  · rw [if_neg hinv, if_neg hinv]

theorem shareMinuteChecked_eq (m : Minute) (L : BatteryLedger) (a : Shares) :
    shareMinuteChecked m L a = some (shareMinute m L a) := by
  unfold shareMinuteChecked shareMinute
  by_cases h : 0 < m.total
  · rw [if_pos h, if_pos h, Minute.solarShareChecked, Minute.gridShareChecked_eq h,
      Minute.batteryShareChecked_eq]
    rfl
  · rw [if_neg h, if_neg h]

theorem LedgerState.riseMixChecked_eq (s : LedgerState) :
    s.riseMixChecked = some s.riseMix := by
  unfold riseMixChecked riseMix
  by_cases h : 0 < s.pendS + s.pendG
  · rw [if_pos h, if_pos h, Checked.div_of_ne h.ne']
  · rw [if_neg h, if_neg h]

theorem applyReadingChecked_eq (soc : ℤ) (s : LedgerState) :
    applyReadingChecked soc s = some (applyReading soc s) := by
  unfold applyReadingChecked applyReading
  dsimp only
  by_cases hu : usable soc ≤ 0
  · rw [if_pos hu, if_pos hu]
  · rw [if_neg hu, if_neg hu, LedgerState.riseMixChecked_eq, Option.bind_some,
      Checked.div_of_ne (not_le.mp hu).ne', Option.map_some]
    split_ifs <;> rfl

/-- Only a charge divides, by what the ledger holds after it. -/
theorem LedgerState.Sound.countWhChecked_eq {s : LedgerState} (h : s.Sound) (m : Minute) :
    countWhChecked m s.L = some (NodePowerLogger.countWh m s.L) := by
  unfold countWhChecked NodePowerLogger.countWh
  by_cases hm : m.batW < 0
  · rw [if_pos hm, if_pos hm]
    dsimp only
    rw [Checked.div_of_ne (h.held_add_charge_pos hm).ne', Option.map_some]
  · rw [if_neg hm, if_neg hm]
    split <;> rfl

theorem LedgerState.Sound.ledgerMinuteChecked_eq {s : LedgerState} (h : s.Sound) (haveSoc : Bool)
    (m : Minute) : ledgerMinuteChecked haveSoc m s
      = some (NodePowerLogger.ledgerMinute haveSoc m s) := by
  unfold ledgerMinuteChecked NodePowerLogger.ledgerMinute
  dsimp only
  rw [h.countWhChecked_eq, applyReadingChecked_eq, Option.map_some]
  split_ifs <;> rfl

/-- From a sound ledger no pass of the loop divides by zero. -/
theorem splitDayChecked_eq (d : DayArrays) {start : BatteryLedger} (hf : start.f ∈ Set.Icc 0 1)
    (he : start.known = true → 0 ≤ start.eWh) :
    splitDayChecked d start = some (splitDay d start) := by
  have hloop := Checked.foldlM_eq_some (splitMinuteChecked d.haveSoc) (splitMinute d.haveSoc)
    (fun st => st.ledger.Sound)
    (fun st m h => h.ledgerMinute d.haveSoc m)
    (fun st m h => by
      rw [splitMinuteChecked, shareMinuteChecked_eq, Option.bind_some, h.ledgerMinuteChecked_eq]
      rfl)
    (s := splitStart d start) (LedgerState.Sound.start hf he d.haveSoc) d.minutes
  rw [splitDayChecked, hloop]
  rfl

/-! ## The solar share of a minute -/

theorem Minute.loadsSum_le_total (m : Minute) : m.loadsSum ≤ m.total := by
  unfold total
  split
  · exact le_rfl
  · rename_i h
    exact not_lt.mp h

theorem Minute.gridShare_mem {m : Minute} (h : 0 < m.total) : m.gridShare ∈ Set.Icc 0 1 := by
  have hnonneg : 0 ≤ if 0 < m.gridW then m.gridW / m.total else 0 := by
    split
    · rename_i hgrid
      exact (div_pos hgrid h).le
    · exact le_rfl
  unfold gridShare
  dsimp only
  generalize (if 0 < m.gridW then m.gridW / m.total else 0) = g at hnonneg ⊢
  split
  · exact ⟨zero_le_one, le_rfl⟩
  · rename_i hle
    exact ⟨hnonneg, not_lt.mp hle⟩

theorem Minute.batteryShare_mem (m : Minute) : m.batteryShare ∈ Set.Icc 0 1 := by
  have hdis : 0 ≤ if 0 < m.batW then m.batW else 0 := by
    split
    · rename_i hbat
      exact hbat.le
    · exact le_rfl
  unfold batteryShare
  dsimp only
  split
  · rename_i hinv
    rw [← min_def_lt]
    exact ⟨div_nonneg (le_min hdis hinv.le) hinv.le, (div_le_one hinv).mpr (min_le_right _ _)⟩
  · exact ⟨le_rfl, zero_le_one⟩

/-- The solar share is a fraction, if the ledger's mix is one. -/
theorem Minute.solarShare_mem {m : Minute} (h : 0 < m.total) {L : BatteryLedger}
    (hmix : L.mix ∈ Set.Icc 0 1) : m.solarShare L ∈ Set.Icc 0 1 := by
  obtain ⟨hg₀, hg₁⟩ := m.gridShare_mem h
  obtain ⟨hb₀, hb₁⟩ := m.batteryShare_mem
  obtain ⟨hf₀, hf₁⟩ := hmix
  have hsource : (1 - m.batteryShare) + m.batteryShare * L.mix ∈ Set.Icc 0 1 := by
    constructor
    · exact add_nonneg (sub_nonneg.mpr hb₁) (mul_nonneg hb₀ hf₀)
    · have := mul_le_of_le_one_right hb₀ hf₁
      linarith
  unfold solarShare
  exact ⟨mul_nonneg (sub_nonneg.mpr hg₁) hsource.1,
    mul_le_one₀ (by linarith) hsource.1 hsource.2⟩

/-! ## The energies of a minute -/

/-- What a load draws in a minute, in Wh. -/
def drawnWh (v : ℤ) : ℚ := drawn v / 1000 / 60

theorem drawnWh_nonneg (v : ℤ) : 0 ≤ drawnWh v :=
  div_nonneg (div_nonneg (drawn_nonneg v) (by norm_num)) (by norm_num)

theorem Minute.loadsSum_eq (m : Minute) : m.loadsSum = (m.loads.map drawn).sum / 1000 := by
  have hsum : m.loadsSum = (m.loads.map fun v => drawn v / 1000).sum := by
    unfold loadsSum
    rw [bind_pure_comp, List.map_eq_map, List.map_map]
    congr 1
    apply List.map_congr_left
    intro v _
    simp only [Function.comp_apply, drawn, Int.cast_pos]
    split
    · rfl
    · exact (zero_div _).symm
  simp only [hsum, div_eq_mul_inv]
  exact List.sum_map_mul_right _ _ _

theorem Minute.loadsSum_nonneg (m : Minute) : 0 ≤ m.loadsSum := by
  rw [loadsSum_eq]
  refine div_nonneg (List.sum_nonneg fun x hx => ?_) (by norm_num)
  obtain ⟨v, -, rfl⟩ := List.mem_map.mp hx
  exact drawn_nonneg v

/-- What the remainder takes in a minute, in Wh. -/
def Minute.remainderWh (m : Minute) : ℚ := (m.total - m.loadsSum) / 60

theorem Minute.remainderWh_nonneg (m : Minute) : 0 ≤ m.remainderWh :=
  div_nonneg (sub_nonneg.mpr m.loadsSum_le_total) (by norm_num)

theorem Minute.remainderWh_eq (m : Minute) :
    m.remainderWh
      = max 0 ((m.grid + m.inv : ℚ) - (m.loads.map drawn).sum) / 1000 / 60 := by
  -- the total is raised to the loads, so the difference is cut off at zero
  have htotal : m.total - m.loadsSum = max 0 (m.gridW + m.invW - m.loadsSum) := by
    unfold total
    split
    · rename_i h
      rw [sub_self, max_eq_left (sub_neg.mpr h).le]
    · rename_i h
      rw [max_eq_right (sub_nonneg.mpr (not_lt.mp h))]
  have hmax := max_div_div_right (by norm_num : (0 : ℚ) ≤ 1000) 0
    ((m.grid + m.inv : ℚ) - (m.loads.map drawn).sum)
  rw [zero_div] at hmax
  rw [remainderWh, htotal, loadsSum_eq, gridW, invW, ← add_div, ← sub_div, hmax]

/-- The solar share by which a minute is shared out; without consumption it does not matter. -/
def Minute.mix (m : Minute) (L : BatteryLedger) : ℚ := if 0 < m.total then m.solarShare L else 0

theorem Minute.mix_mem (m : Minute) {L : BatteryLedger} (hmix : L.mix ∈ Set.Icc 0 1) :
    m.mix L ∈ Set.Icc 0 1 := by
  unfold mix
  split
  · rename_i h
    exact m.solarShare_mem h hmix
  · exact ⟨le_rfl, zero_le_one⟩

/-- Without consumption nothing is drawn. -/
theorem Minute.idle_of_total {m : Minute} (h : ¬ 0 < m.total) :
    (∀ v ∈ m.loads, drawnWh v = 0) ∧ m.remainderWh = 0 := by
  -- the loads lie between zero and the total
  have htotal : m.total = 0 :=
    le_antisymm (not_lt.mp h) (m.loadsSum_nonneg.trans m.loadsSum_le_total)
  have hloads : m.loadsSum = 0 :=
    le_antisymm (m.loadsSum_le_total.trans_eq htotal) m.loadsSum_nonneg
  constructor
  · intro v hv
    have hle := List.single_le_sum (l := m.loads.map drawn)
      (fun x hx => by
        obtain ⟨w, -, rfl⟩ := List.mem_map.mp hx
        exact drawn_nonneg w)
      (drawn v) (List.mem_map_of_mem hv)
    rw [loadsSum_eq, div_eq_zero_iff] at hloads
    rw [hloads.resolve_right (by norm_num)] at hle
    rw [drawnWh, le_antisymm hle (drawn_nonneg v), zero_div, zero_div]
  · rw [remainderWh, htotal, hloads, sub_self, zero_div]

section Share

variable {α : Type*} {items : List α} {v : α → ℤ} {m : Minute} (L : BatteryLedger) {a : Shares}
  {f : α → ℚ}

theorem addLoads_map (w : ℚ) :
    addLoads w (items.map f) (items.map v) = items.map fun x => f x + drawnWh (v x) * w := by
  rw [addLoads, List.zipWith_map, List.zipWith_self]
  apply List.map_congr_left
  intro x _
  unfold drawnWh drawn
  split
  · rfl
  · rw [zero_div, zero_div, zero_mul, add_zero]

/-- A minute's solar energy of the loads. -/
theorem shareMinute_loadSolar (hv : m.loads = items.map v) (ha : a.loadSolar = items.map f) :
    (shareMinute m L a).loadSolar = items.map fun x => f x + drawnWh (v x) * m.mix L := by
  unfold shareMinute Minute.mix
  split
  · dsimp only
    rw [ha, hv, addLoads_map]
  · rename_i h
    rw [ha]
    apply List.map_congr_left
    intro x hx
    rw [mul_zero, add_zero]

/-- A minute's grid energy of the loads. -/
theorem shareMinute_loadGrid (hv : m.loads = items.map v) (ha : a.loadGrid = items.map f) :
    (shareMinute m L a).loadGrid = items.map fun x => f x + drawnWh (v x) * (1 - m.mix L) := by
  unfold shareMinute Minute.mix
  split
  · dsimp only
    rw [ha, hv, addLoads_map]
  · rename_i h
    rw [ha]
    apply List.map_congr_left
    intro x hx
    rw [(Minute.idle_of_total h).1 (v x) (hv ▸ List.mem_map_of_mem hx), zero_mul, add_zero]

theorem shareMinute_unSolar (m : Minute) (a : Shares) :
    (shareMinute m L a).unSolar = a.unSolar + m.remainderWh * m.mix L := by
  unfold shareMinute Minute.mix
  split
  · rfl
  · rw [mul_zero, add_zero]

theorem shareMinute_unGrid (m : Minute) (a : Shares) :
    (shareMinute m L a).unGrid = a.unGrid + m.remainderWh * (1 - m.mix L) := by
  unfold shareMinute Minute.mix
  split
  · rfl
  · rename_i h
    rw [(Minute.idle_of_total h).2, zero_mul, add_zero]

end Share

/-! ## The day -/

/-- The ledger is sound in every minute. -/
theorem splitAfter_sound (d : DayArrays) {start : BatteryLedger} (hf : start.f ∈ Set.Icc 0 1)
    (he : start.known = true → 0 ≤ start.eWh) (n : ℕ) : (splitAfter d start n).ledger.Sound := by
  -- one minute keeps the ledger sound, so the loop does
  have hloop : ∀ (ms : List Minute) (s : LedgerState), s.Sound →
      (ledgerLoop d.haveSoc ms s).Sound := by
    intro ms
    induction ms with
    | nil => exact fun s hs => hs
    | cons m ms ih => exact fun s hs => ih _ (hs.ledgerMinute d.haveSoc m)
  rw [splitAfter_ledger]
  exact hloop _ _ (LedgerState.Sound.start hf he d.haveSoc)

section Day

variable (c : Inputs) (date : DateStr) (dayStart : ℤ) (streams : List Stream) (grid : ℕ → ℤ)

/-- The minute `i` of the arrays of a day. -/
def dayMinute (i : ℕ) : Minute :=
  { grid := grid i
    inv := suppliedBy c date dayStart streams .solar i
    bat := suppliedBy c date dayStart streams .battery i
    soc := (socMinutes c date dayStart streams).elim (-1) fun minutes => minutes i
    loads := (loadStreams streams).map fun s => nodeMinutes c date dayStart s i }

/-- One pass of the minute loop over the files of a day. -/
def splitPass (st : SplitState) (i : ℕ) : SplitState :=
  splitMinute (socMinutes c date dayStart streams).isSome st
    (dayMinute c date dayStart streams grid i)

/-- The mix of minute `i`, from the locals before it. -/
def passMix (st : SplitState) (i : ℕ) : ℚ :=
  (dayMinute c date dayStart streams grid i).mix st.ledger.L

/-- What the passes of a day add up to. -/
def dayTotal (start : BatteryLedger) (gain : SplitState → ℕ → ℚ) : ℚ :=
  Accumulate.total (splitPass c date dayStart streams grid) gain
    (splitStart (dayArrays c date dayStart streams grid) start) (List.range kMaxDayMinutes)

variable (start : BatteryLedger)

/-- The energies of a day's split are the totals of the minutes' energies. -/
theorem splitDay_wh :
    (splitDay (dayArrays c date dayStart streams grid) start).wh
      = ((loadStreams streams).map fun s =>
          (s.graphId,
            dayTotal c date dayStart streams grid start (fun st i =>
              drawnWh (nodeMinutes c date dayStart s i)
                * passMix c date dayStart streams grid st i),
            dayTotal c date dayStart streams grid start (fun st i =>
              drawnWh (nodeMinutes c date dayStart s i)
                * (1 - passMix c date dayStart streams grid st i))))
        ++ [(UNMONITORED_KEY,
            dayTotal c date dayStart streams grid start (fun st i =>
              (dayMinute c date dayStart streams grid i).remainderWh
                * passMix c date dayStart streams grid st i),
            dayTotal c date dayStart streams grid start (fun st i =>
              (dayMinute c date dayStart streams grid i).remainderWh
                * (1 - passMix c date dayStart streams grid st i)))] := by
  -- the loop over the minutes of the arrays is the loop over their numbers
  have hfold : (dayArrays c date dayStart streams grid).minutes.foldl
        (splitMinute (dayArrays c date dayStart streams grid).haveSoc)
        (splitStart (dayArrays c date dayStart streams grid) start)
      = (List.range kMaxDayMinutes).foldl (splitPass c date dayStart streams grid)
          (splitStart (dayArrays c date dayStart streams grid) start) := by
    have hminutes : (dayArrays c date dayStart streams grid).minutes
        = (List.range kMaxDayMinutes).map (dayMinute c date dayStart streams grid) := by
      dsimp only [dayArrays]
      exact List.map_congr_left fun i _ => rfl
    rw [hminutes, List.foldl_map]
    rfl
  have hzero : (dayArrays c date dayStart streams grid).loadIds.map (fun _ => (0 : ℚ))
      = (loadStreams streams).map 0 := List.map_map
  -- each accumulator adds up its own energies along the loop
  have hsolar := Accumulate.foldl_row_eq (splitPass c date dayStart streams grid)
    (fun st i s => drawnWh (nodeMinutes c date dayStart s i)
      * passMix c date dayStart streams grid st i)
    (loadStreams streams) (fun st => st.shares.loadSolar)
    (fun st i f hst => shareMinute_loadSolar _ rfl hst)
    (s := splitStart (dayArrays c date dayStart streams grid) start) (f := 0) hzero
    (List.range kMaxDayMinutes)
  have hgrid := Accumulate.foldl_row_eq (splitPass c date dayStart streams grid)
    (fun st i s => drawnWh (nodeMinutes c date dayStart s i)
      * (1 - passMix c date dayStart streams grid st i))
    (loadStreams streams) (fun st => st.shares.loadGrid)
    (fun st i f hst => shareMinute_loadGrid _ rfl hst)
    (s := splitStart (dayArrays c date dayStart streams grid) start) (f := 0) hzero
    (List.range kMaxDayMinutes)
  have hunSolar := Accumulate.foldl_eq_add_total (splitPass c date dayStart streams grid)
    (fun st i => (dayMinute c date dayStart streams grid i).remainderWh
      * passMix c date dayStart streams grid st i)
    (fun st => st.shares.unSolar) (fun st i => shareMinute_unSolar _ _ _)
    (splitStart (dayArrays c date dayStart streams grid) start) (List.range kMaxDayMinutes)
  have hunGrid := Accumulate.foldl_eq_add_total (splitPass c date dayStart streams grid)
    (fun st i => (dayMinute c date dayStart streams grid i).remainderWh
      * (1 - passMix c date dayStart streams grid st i))
    (fun st => st.shares.unGrid) (fun st i => shareMinute_unGrid _ _ _)
    (splitStart (dayArrays c date dayStart streams grid) start) (List.range kMaxDayMinutes)
  unfold splitDay
  dsimp only at hsolar hgrid hunSolar hunGrid ⊢
  rw [hfold, hsolar, hgrid, hunSolar, hunGrid]
  refine congrArg₂ (· ++ ·) ?_ ?_
  · have hids : (dayArrays c date dayStart streams grid).loadIds
        = (loadStreams streams).map (·.graphId) := rfl
    rw [hids, List.zip_map', List.zip_map']
    apply List.map_congr_left
    intro s _
    simp only [Pi.add_apply, Pi.zero_apply, zero_add, Accumulate.total_apply]
    rfl
  · simp only [splitStart, zero_add]
    rfl

variable {start}

/-- What is drawn is drawn from solar and from the grid. -/
theorem dayTotal_add (drawnIn : ℕ → ℚ) :
    dayTotal c date dayStart streams grid start
          (fun st i => drawnIn i * passMix c date dayStart streams grid st i)
        + dayTotal c date dayStart streams grid start
          (fun st i => drawnIn i * (1 - passMix c date dayStart streams grid st i))
      = ((List.range kMaxDayMinutes).map drawnIn).sum := by
  -- the two parts of a minute make up the whole before they are summed
  have hgain : (fun (st : SplitState) (i : ℕ) =>
      drawnIn i * passMix c date dayStart streams grid st i
        + drawnIn i * (1 - passMix c date dayStart streams grid st i)) = fun _ => drawnIn := by
    funext st i
    ring
  rw [dayTotal, dayTotal, Accumulate.total_add, hgain, Accumulate.total_const]

/-- Neither part is negative. -/
theorem dayTotal_nonneg (hf : start.f ∈ Set.Icc 0 1) (he : start.known = true → 0 ≤ start.eWh)
    {drawnIn : ℕ → ℚ} (hdrawn : ∀ i, 0 ≤ drawnIn i) :
    0 ≤ dayTotal c date dayStart streams grid start
          (fun st i => drawnIn i * passMix c date dayStart streams grid st i) ∧
      0 ≤ dayTotal c date dayStart streams grid start
          (fun st i => drawnIn i * (1 - passMix c date dayStart streams grid st i)) := by
  have hmix : ∀ (st : SplitState) (i : ℕ), st.ledger.Sound →
      passMix c date dayStart streams grid st i ∈ Set.Icc 0 1 :=
    fun st i hst => Minute.mix_mem _ hst.mix_mem
  have hstart : (splitStart (dayArrays c date dayStart streams grid) start).ledger.Sound :=
    LedgerState.Sound.start hf he _
  constructor
  · exact Accumulate.total_nonneg (fun st : SplitState => st.ledger.Sound)
      (fun st i hst => hst.ledgerMinute _ _)
      (fun st i hst => mul_nonneg (hdrawn i) (hmix st i hst).1) hstart _
  · exact Accumulate.total_nonneg (fun st : SplitState => st.ledger.Sound)
      (fun st i hst => hst.ledgerMinute _ _)
      (fun st i hst => mul_nonneg (hdrawn i) (sub_nonneg.mpr (hmix st i hst).2)) hstart _

end Day

/-- The split of a day is conserved and well defined, from any ledger whose mix is a fraction and
that does not know of a negative energy. -/
theorem day_split_conserved {c : Inputs} {date : DateStr} (streams : List Stream) {dayStart : ℤ}
    {grid : ℕ → ℤ} (hday : localDayStart date = some dayStart)
    (hgrid : loadMinutes (c.grid date) dayStart 0 = some grid) {start : BatteryLedger}
    (hf : start.f ∈ Set.Icc 0 1) (he : start.known = true → 0 ≤ start.eWh) :
    ∃ (ds : DaySplit) (solarWh gridWh : Stream → ℚ) (unSolar unGrid : ℚ),
      computeDaySplit c date streams start = some ds ∧
      splitDayChecked (dayArrays c date dayStart streams grid) start = some ds ∧
      ds.wh = (loadStreams streams).map (fun s => (s.graphId, solarWh s, gridWh s))
        ++ [(UNMONITORED_KEY, unSolar, unGrid)] ∧
      (∀ s, 0 ≤ solarWh s ∧ 0 ≤ gridWh s ∧
        solarWh s + gridWh s = ((List.range kMaxDayMinutes).map fun i =>
          max (nodeMinutes c date dayStart s i : ℚ) 0 / 1000 / 60).sum) ∧
      (0 ≤ unSolar ∧ 0 ≤ unGrid ∧
        unSolar + unGrid = ((List.range kMaxDayMinutes).map fun i =>
          max 0 ((grid i + suppliedBy c date dayStart streams .solar i : ℚ)
            - ((loadStreams streams).map fun s =>
                max (nodeMinutes c date dayStart s i : ℚ) 0).sum) / 1000 / 60).sum) ∧
      ∀ (n : ℕ) (m : Minute), (dayArrays c date dayStart streams grid).minutes[n]? = some m →
        0 < m.total →
        m.solarShare (splitAfter (dayArrays c date dayStart streams grid) start n).ledger.L
          ∈ Set.Icc 0 1 := by
  refine ⟨_, _, _, _, _, ?_, splitDayChecked_eq _ hf he,
    splitDay_wh c date dayStart streams grid start, fun s => ?_, ?_, fun n m _ hm => ?_⟩
  · rw [computeDaySplit, hday, Option.bind_some, hgrid, Option.map_some]
  · obtain ⟨hsolar, hgrid⟩ := dayTotal_nonneg c date dayStart streams grid hf he
      fun i => drawnWh_nonneg (nodeMinutes c date dayStart s i)
    refine ⟨hsolar, hgrid, (dayTotal_add c date dayStart streams grid _).trans ?_⟩
    refine congrArg List.sum (List.map_congr_left fun i _ => ?_)
    rw [drawnWh, drawn_eq_max]
  · obtain ⟨hsolar, hgrid⟩ := dayTotal_nonneg c date dayStart streams grid hf he
      fun i => (dayMinute c date dayStart streams grid i).remainderWh_nonneg
    refine ⟨hsolar, hgrid, (dayTotal_add c date dayStart streams grid _).trans ?_⟩
    refine congrArg List.sum (List.map_congr_left fun i _ => ?_)
    rw [Minute.remainderWh_eq]
    simp only [dayMinute, List.map_map, Function.comp_def, drawn_eq_max]
  · exact m.solarShare_mem hm (splitAfter_sound _ hf he n).mix_mem

/-- A day with one minute of use: 3 kW of import, 2 kW from the inverter, half of it out of the
battery, and a kettle that draws 4 kW. -/
def kitchenDay : Inputs :=
  { grid := fun _ => some [{ unixMinute := 1704186000, powerMw := 3000000 }]
    node := fun graphId _ => some [{ unixMinute := 1704186000, powerMw :=
      if graphId = "kettle" then 4000000 else if graphId = "inverter" then -2000000 else -1000000 }]
    soc := fun _ _ => none
    tariff := fun _ => none
    price := fun _ => none }

/-- The devices of that day. -/
def kitchenStreams : List Stream :=
  [{ graphId := "kettle", role := .load }, { graphId := "inverter", role := .solar },
    { graphId := "battery", role := .battery }]

/-- A battery with 1 kWh, half of it solar. -/
def halfSolarBattery : BatteryLedger := { eWh := 1000, f := 1 / 2, known := true }

theorem day_split_conserved_kitchenDay :
    ∃ ds, computeDaySplit kitchenDay "2024-01-02".toList kitchenStreams halfSolarBattery = some ds ∧
      ds.wh = [("kettle", 20, 140 / 3), (UNMONITORED_KEY, 5, 35 / 3)] := by
  have hday : localDayStart "2024-01-02".toList = some 1704153600 := by decide
  have hf : halfSolarBattery.f ∈ Set.Icc 0 1 := by norm_num [halfSolarBattery]
  have he : halfSolarBattery.known = true → 0 ≤ halfSolarBattery.eWh := by
    norm_num [halfSolarBattery]
  obtain ⟨ds, -, -, -, -, hds, -⟩ := day_split_conserved (c := kitchenDay) kitchenStreams hday rfl
    hf he
  have hwh : (computeDaySplit kitchenDay "2024-01-02".toList kitchenStreams halfSolarBattery).map
      DaySplit.wh = some [("kettle", 20, 140 / 3), (UNMONITORED_KEY, 5, 35 / 3)] := by
    decide +kernel
  rw [hds] at hwh
  exact ⟨ds, hds, Option.some.inj hwh⟩

/-- A day whose first minute charges the battery by 1 Wh. -/
def chargingDay : Inputs :=
  { grid := fun _ => some []
    node := fun _ _ => some [{ unixMinute := 1704153600, powerMw := 60000 }]
    soc := fun _ _ => none
    tariff := fun _ => none
    price := fun _ => none }

/-- A ledger that says it holds -1 Wh is brought to zero by the charge, which divides by it. -/
theorem split_of_negative_energy :
    ∃ start : BatteryLedger, start.f ∈ Set.Icc 0 1 ∧
      ∃ dayStart grid, localDayStart "2024-01-02".toList = some dayStart ∧
        loadMinutes (chargingDay.grid "2024-01-02".toList) dayStart 0 = some grid ∧
        splitDayChecked (dayArrays chargingDay "2024-01-02".toList dayStart
          [{ graphId := "battery", role := .battery }] grid) start = none := by
  refine ⟨{ eWh := -1, f := 1, known := true }, ⟨zero_le_one, le_rfl⟩, 1704153600, _, by decide,
    rfl, ?_⟩
  decide +kernel

end HomeEnergyManager.NodePowerLogger
