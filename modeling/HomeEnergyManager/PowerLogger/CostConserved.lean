import Mathlib.Algebra.BigOperators.Ring.List
import HomeEnergyManager.Lib.Accumulate
import HomeEnergyManager.PowerLogger.Cost

/-! # The cost of a day is conserved

Each minute adds one rate times its positive power to every load, and what is left of the minute's
cost to the remainder. So the costs of a day add up to the cost of its import.

Reference: `firmware/main/node_power_logger.cpp`.
-/

namespace HomeEnergyManager.NodePowerLogger

/-- The consumption of a minute that its cost is shared out over. -/
def consumption (grid solar : ℤ) (loads : List ℤ) : ℚ :=
  if (grid + solar : ℚ) < (loads.map drawn).sum then (loads.map drawn).sum else grid + solar

theorem sum_drawn_le (grid solar : ℤ) (loads : List ℤ) :
    (loads.map drawn).sum ≤ consumption grid solar loads := by
  unfold consumption
  split
  · exact le_rfl
  · rename_i h
    exact not_lt.mp h

/-! ## One minute -/

/-- The loop sums the readings as reals. -/
theorem sum_casts_eq (loads : List ℤ) :
    (List.map (fun v : ℚ => if 0 < v then v else 0) (do let a ← loads; pure (a : ℚ))).sum
      = (loads.map drawn).sum := by
  rw [bind_pure_comp, List.map_eq_map, List.map_map]
  congr 1
  apply List.map_congr_left
  intro v _
  simp [drawn]

section Share

variable (price grid solar : ℤ)

/-- The cost of a minute's import at a price. -/
def priced : ℚ := grid / 60 / 10 ^ 6 * price

/-- The rate at which a cost is shared out. -/
def shareRate (loads : List ℤ) : ℚ :=
  if consumption grid solar loads ≤ 0 then 0 else priced price grid / consumption grid solar loads

/-- Sharing a cost adds one rate times its power to each load. -/
theorem shareCost_loadCost {α : Type*} {items : List α} {f : α → ℚ} {st : CostState}
    (h : st.loadCost = items.map f) (v : α → ℤ) :
    (shareCost price grid solar (items.map v) st).loadCost
      = items.map fun x => f x + shareRate price grid solar (items.map v) * drawn (v x) := by
  unfold shareCost shareRate
  dsimp only
  rw [sum_casts_eq]
  change CostState.loadCost (if consumption grid solar (items.map v) ≤ 0 then _ else _) = _
  split
  · simp [h]
  · rw [h, List.zipWith_map, List.zipWith_self]
    apply List.map_congr_left
    intro x _
    show (if 0 < v x then f x + priced price grid * (v x / consumption grid solar (items.map v))
      else f x) = _
    unfold drawn
    split
    · rw [mul_div_assoc', div_mul_eq_mul_div]
    · rw [mul_zero, add_zero]

/-- The rest goes to the remainder. -/
theorem shareCost_unmonitoredCost (loads : List ℤ) (st : CostState) :
    (shareCost price grid solar loads st).unmonitoredCost
      = st.unmonitoredCost
        + (priced price grid - shareRate price grid solar loads * (loads.map drawn).sum) := by
  unfold shareCost shareRate
  dsimp only
  rw [sum_casts_eq]
  change CostState.unmonitoredCost (if consumption grid solar loads ≤ 0 then _ else _) = _
  split
  · rw [zero_mul, sub_zero]
    rfl
  · rename_i htotal
    have hne : consumption grid solar loads ≠ 0 := (not_le.mp htotal).ne'
    show st.unmonitoredCost + priced price grid * ((consumption grid solar loads
      - (loads.map drawn).sum) / consumption grid solar loads) = _
    field_simp

end Share

section Minute

variable (tariff : TariffDay) (t grid solar : ℤ)

/-- What a minute's import costs: nothing without import or without a price. -/
def importCost : ℚ :=
  if 0 < grid then (slotPrice tariff (slotOf t)).elim 0 fun price => priced price grid else 0

/-- What a minute costs for each mW drawn. -/
def costRate (loads : List ℤ) : ℚ :=
  if consumption grid solar loads ≤ 0 then 0
  else importCost tariff t grid / consumption grid solar loads

/-- What a minute adds to the remainder. -/
def remainderCost (loads : List ℤ) : ℚ :=
  importCost tariff t grid - costRate tariff t grid solar loads * (loads.map drawn).sum

variable {tariff t grid}

/-- A minute without import or without a price adds nothing to anybody. -/
theorem costMinute_of_free (h : grid ≤ 0 ∨ slotPrice tariff (slotOf t) = none) (loads : List ℤ)
    (st : CostState) : costMinute tariff t grid solar loads st = st := by
  unfold costMinute
  split
  · rfl
  · rename_i hgrid
    rw [h.resolve_left hgrid]

theorem importCost_of_free (h : grid ≤ 0 ∨ slotPrice tariff (slotOf t) = none) :
    importCost tariff t grid = 0 := by
  unfold importCost
  split
  · rename_i hgrid
    rw [h.resolve_left hgrid.not_ge, Option.elim_none]
  · rfl

theorem costRate_of_free (h : grid ≤ 0 ∨ slotPrice tariff (slotOf t) = none) (loads : List ℤ) :
    costRate tariff t grid solar loads = 0 := by
  unfold costRate
  rw [importCost_of_free h, zero_div, ite_self]

/-- A minute is free, or its import has a price and is shared out. -/
theorem free_or_priced (tariff : TariffDay) (t grid : ℤ) :
    (grid ≤ 0 ∨ slotPrice tariff (slotOf t) = none) ∨
      ∃ price, importCost tariff t grid = priced price grid ∧
        slotPrice tariff (slotOf t) = some price ∧
        ∀ solar loads st, costMinute tariff t grid solar loads st
          = shareCost price grid solar loads st := by
  by_cases hgrid : grid ≤ 0
  · exact Or.inl (Or.inl hgrid)
  cases hprice : slotPrice tariff (slotOf t) with
  | none => exact Or.inl (Or.inr rfl)
  | some price =>
    refine Or.inr ⟨price, ?_, rfl, fun solar loads st => ?_⟩
    · rw [importCost, if_pos (not_le.mp hgrid), hprice, Option.elim_some]
    · rw [costMinute, if_neg hgrid, hprice]

/-- A minute adds one rate times its power to each load. -/
theorem costMinute_loadCost {α : Type*} {items : List α} {f : α → ℚ} {st : CostState}
    (h : st.loadCost = items.map f) (v : α → ℤ) :
    (costMinute tariff t grid solar (items.map v) st).loadCost
      = items.map fun x => f x + costRate tariff t grid solar (items.map v) * drawn (v x) := by
  rcases free_or_priced tariff t grid with hfree | ⟨price, hcost, -, hshare⟩
  · rw [costMinute_of_free solar hfree, costRate_of_free solar hfree, h]
    simp
  · rw [hshare, shareCost_loadCost price grid solar h, costRate, hcost]
    rfl

theorem costMinute_unmonitoredCost (loads : List ℤ) (st : CostState) :
    (costMinute tariff t grid solar loads st).unmonitoredCost
      = st.unmonitoredCost + remainderCost tariff t grid solar loads := by
  unfold remainderCost
  rcases free_or_priced tariff t grid with hfree | ⟨price, hcost, -, hshare⟩
  · rw [costMinute_of_free solar hfree, costRate_of_free solar hfree, importCost_of_free hfree,
      zero_mul, sub_zero, add_zero]
  · rw [hshare, shareCost_unmonitoredCost, costRate, hcost]
    rfl

/-- What the loads and the remainder take is what the import costs. -/
theorem sum_shares_add_remainder {α : Type*} (tariff : TariffDay) (t grid solar : ℤ)
    (items : List α) (v : α → ℤ) :
    (items.map fun x => costRate tariff t grid solar (items.map v) * drawn (v x)).sum
        + remainderCost tariff t grid solar (items.map v)
      = importCost tariff t grid := by
  rw [List.sum_map_mul_left, remainderCost, List.map_map]
  exact add_sub_cancel _ _

/-- The price of a slot is one of the day's prices. -/
theorem price_of_slotPrice {slot price : ℤ} (h : slotPrice tariff slot = some price) :
    ∃ i, tariff.price i = price ∧ price ≠ TARIFF_NO_PRICE := by
  unfold slotPrice at h
  split at h
  · dsimp only at h
    split at h
    · exact nomatch h
    · rename_i hne
      obtain rfl := Option.some.inj h
      exact ⟨_, rfl, hne⟩
  · exact nomatch h

/-- At prices that are not negative nobody is credited. -/
theorem importCost_nonneg (h : ∀ slot, tariff.price slot = TARIFF_NO_PRICE ∨ 0 ≤ tariff.price slot)
    (t grid : ℤ) : 0 ≤ importCost tariff t grid := by
  unfold importCost
  split
  · rename_i hgrid
    cases hprice : slotPrice tariff (slotOf t) with
    | none => exact le_rfl
    | some price =>
      obtain ⟨i, rfl, hne⟩ := price_of_slotPrice hprice
      have hpos : 0 ≤ tariff.price i := (h i).resolve_left hne
      have hgrid' : (0 : ℚ) < grid := by exact_mod_cast hgrid
      have hprice' : (0 : ℚ) ≤ tariff.price i := by exact_mod_cast hpos
      rw [Option.elim_some, priced]
      positivity
  · exact le_rfl

theorem costRate_nonneg (h : 0 ≤ importCost tariff t grid) (loads : List ℤ) :
    0 ≤ costRate tariff t grid solar loads := by
  unfold costRate
  split
  · exact le_rfl
  · rename_i htotal
    exact div_nonneg h (not_le.mp htotal).le

theorem remainderCost_nonneg (h : 0 ≤ importCost tariff t grid) (loads : List ℤ) :
    0 ≤ remainderCost tariff t grid solar loads := by
  unfold remainderCost costRate
  split
  · rwa [zero_mul, sub_zero]
  · rename_i htotal
    -- the loads draw no more than the consumption that the cost is shared over
    have hpos := not_le.mp htotal
    rw [div_mul_eq_mul_div, sub_nonneg, div_le_iff₀ hpos]
    exact mul_le_mul_of_nonneg_left (sum_drawn_le grid solar loads) h

end Minute

/-! ## The day -/

section Day

variable (c : Inputs) (date : DateStr) (streams : List Stream) (tariff : TariffDay) (dayStart : ℤ)
  (grid : ℕ → ℤ)

/-- The readings of the loads in a minute. -/
def loadReadings (i : ℕ) : List ℤ :=
  (loadStreams streams).map fun s => nodeMinutes c date dayStart s i

/-- One pass of the minute loop over the files of a day. -/
def costPass (st : CostState) (i : ℕ) : CostState :=
  costMinute tariff (dayStart + i * 60) (grid i) (suppliedBy c date dayStart streams .solar i)
    (loadReadings c date streams dayStart i) st

/-- The totals after the first `n` minutes. -/
def costAfter (n : ℕ) : CostState :=
  (List.range n).foldl (costPass c date streams tariff dayStart grid)
    { loadCost := (loadStreams streams).map fun _ => 0, unmonitoredCost := 0 }

variable {tariff dayStart grid} in
/-- What `compute_day_cost` gives, from the totals of all minutes. -/
theorem computeDayCost_eq (htariff : tariffLoadDay c date = some tariff)
    (hday : localDayStart date = some dayStart)
    (hgrid : loadMinutes (c.grid date) dayStart 0 = some grid) :
    computeDayCost c date streams = some
      { currency := tariff.hdr.currency
        decimals := tariff.hdr.decimals
        cost := (((loadStreams streams).map (·.graphId)).zip
            (costAfter c date streams tariff dayStart grid kMaxDayMinutes).loadCost)
          ++ [(UNMONITORED_KEY,
            (costAfter c date streams tariff dayStart grid kMaxDayMinutes).unmonitoredCost)] } := by
  rw [computeDayCost, htariff, Option.bind_some, hday, Option.bind_some, hgrid]
  rfl

/-- What minute `i` costs the mW of a load. -/
def dayRate (i : ℕ) : ℚ :=
  costRate tariff (dayStart + i * 60) (grid i) (suppliedBy c date dayStart streams .solar i)
    (loadReadings c date streams dayStart i)

theorem costAfter_loadCost (n : ℕ) :
    (costAfter c date streams tariff dayStart grid n).loadCost
      = (loadStreams streams).map fun s => ((List.range n).map fun i =>
          dayRate c date streams tariff dayStart grid i
            * drawn (nodeMinutes c date dayStart s i)).sum := by
  have hrow := Accumulate.foldl_row_eq (costPass c date streams tariff dayStart grid)
    (fun _ i s => dayRate c date streams tariff dayStart grid i
      * drawn (nodeMinutes c date dayStart s i))
    (loadStreams streams) CostState.loadCost (fun st i f hst => costMinute_loadCost _ hst _)
    (s := { loadCost := (loadStreams streams).map fun _ => 0, unmonitoredCost := 0 })
    (f := 0) rfl (List.range n)
  rw [costAfter, hrow]
  apply List.map_congr_left
  intro s _
  rw [zero_add, Accumulate.total_apply, Accumulate.total_const]

theorem costAfter_unmonitoredCost (n : ℕ) :
    (costAfter c date streams tariff dayStart grid n).unmonitoredCost
      = ((List.range n).map fun (i : ℕ) =>
          remainderCost tariff (dayStart + i * 60) (grid i)
            (suppliedBy c date dayStart streams .solar i)
            (loadReadings c date streams dayStart i)).sum := by
  have hacc := Accumulate.foldl_eq_add_total (costPass c date streams tariff dayStart grid)
    (fun _ (i : ℕ) => remainderCost tariff (dayStart + i * 60) (grid i)
      (suppliedBy c date dayStart streams .solar i) (loadReadings c date streams dayStart i))
    CostState.unmonitoredCost (fun st i => costMinute_unmonitoredCost _ _ st)
  rw [costAfter, hacc, Accumulate.total_const, zero_add]

/-- The totals add up to what the import of the minutes costs. -/
theorem sum_costAfter (n : ℕ) :
    (costAfter c date streams tariff dayStart grid n).loadCost.sum
        + (costAfter c date streams tariff dayStart grid n).unmonitoredCost
      = ((List.range n).map fun (i : ℕ) =>
          importCost tariff (dayStart + i * 60) (grid i)).sum := by
  rw [costAfter_loadCost, costAfter_unmonitoredCost]
  induction n with
  | zero => simp
  | succ n ih =>
    simp only [List.range_succ, List.map_append, List.map_singleton, List.sum_append,
      List.sum_singleton, List.sum_map_add]
    -- the shares and the remainder of the last minute make up its import
    have hminute := sum_shares_add_remainder tariff (dayStart + n * 60) (grid n)
      (suppliedBy c date dayStart streams .solar n) (loadStreams streams)
      (fun s => nodeMinutes c date dayStart s n)
    unfold dayRate loadReadings at *
    rw [← ih, ← hminute]
    ring

end Day

/-- A day with one minute of import, at 6 kW, while a kettle draws half of it. -/
def kettleDay : Inputs :=
  { grid := fun _ => some [{ unixMinute := 1704186000, powerMw := 6000000 }]
    node := fun _ _ => some [{ unixMinute := 1704186000, powerMw := 3000000 }]
    soc := fun _ _ => none
    tariff := fun _ => some
      { hdr := { currency := 826, decimals := 2, unit := 0 }, price := fun _ => 20 }
    price := fun _ => none }

end HomeEnergyManager.NodePowerLogger
