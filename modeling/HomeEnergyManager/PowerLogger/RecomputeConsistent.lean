import HomeEnergyManager.PowerLogger.LedgerWalk
import HomeEnergyManager.PowerLogger.Recompute

/-! # Recomputation leaves a consistent chain

A date that is written as the days are named is recomputed together with all days after it, each
from the end ledger of the one before. Any other text that `sscanf` reads as a past date is accepted
too. Then the day itself keeps its caches, and the days after it are rebuilt without it.
-/

namespace HomeEnergyManager.NodePowerLogger

/-- What the caches have to be after the days from `z` on were recomputed. -/
structure Recomputed (streams : List Stream) (now z : ℤ) (c c' : Card) : Prop where
  inputs : c'.toInputs = c.toInputs
  split : ∀ y, z ≤ y → y < localDay now → (c'.grid (dateStr y)).isSome →
    ∃ ds, computeDaySplit c'.toInputs (dateStr y) streams (c'.endLedgerOf (y - 1)) = some ds ∧
      c'.split (dateStr y) = some ds.doc
  cost : ∀ y, z ≤ y → y < localDay now → (c'.grid (dateStr y)).isSome →
    (tariffLoadDay c'.toInputs (dateStr y)).isSome →
    ∃ dc, computeDayCost c'.toInputs (dateStr y) streams = some dc ∧
      c'.cost (dateStr y) = some dc
  earlier : ∀ y < z, Dated y →
    (c.split (dateStr y) ≠ none → c'.split (dateStr y) = c.split (dateStr y)) ∧
      (c.cost (dateStr y) ≠ none → c'.cost (dateStr y) = c.cost (dateStr y))

/-- The files of two cards are the same. -/
def Card.SameFiles (c c' : Card) : Prop := c' = { c with starts := c'.starts }

/-- After a call that does not fail the chain is consistent, and calling again changes no file. -/
def ConsistentAfter (len : TextLength) (streams : List Stream) (now : ℤ) (date : DateStr) (z : ℤ)
    (c : Card) : Prop :=
  let r := recomputeFrom len streams now date c
  0 ≤ r.1 → Recomputed streams now z c r.2 ∧
    r.2.SameFiles (recomputeFrom len streams now date r.2).2

/-! ## What a call does -/

section Call

variable {len : TextLength} {streams : List Stream} {now : ℤ} {date : DateStr} {z : ℤ}

/-- The texts that are not refused. -/
def Accepted (date : DateStr) : Prop := sanitizeToken date = true ∧ date.length = 10

instance (date : DateStr) : Decidable (Accepted date) := inferInstanceAs (Decidable (_ ∧ _))

theorem recomputeFrom_of_accepted (haccept : Accepted date) (hz : dayOf date = some z) (c : Card) :
    recomputeFrom len streams now date c =
      match dropDays (dateStr (localDay now)) kMaxRecomputeDays date c with
      | (none, c) => (-1, c)
      | (some [], c) => (0, c)
      | (some (day :: days), c) =>
        let before := ledgerBefore len streams kLedgerDepth day c
        let st := (day :: days).foldl (recomputeDay len streams)
          { card := before.2, ledger := before.1 }
        (st.done, st.card) := by
  obtain ⟨t, ht, -⟩ := Option.map_eq_some_iff.mp hz
  have hcond : (sanitizeToken date && date.length == 10 && (localDayStart date).isSome) = true := by
    rw [haccept.1, haccept.2, ht]
    rfl
  unfold recomputeFrom
  exact if_pos hcond

/-- A text from today on leaves the card as it is. -/
theorem recomputeFrom_of_not_lt (haccept : Accepted date) (hz : dayOf date = some z)
    (hdate : ¬ date < dateStr (localDay now)) (c : Card) :
    recomputeFrom len streams now date c = (0, c) := by
  rw [recomputeFrom_of_accepted haccept hz, dropDays_of_not_lt hdate]

/-- The days that a text before today names: itself and the days after the one it stands for. -/
def recomputedDays (now z : ℤ) (date : DateStr) : List DateStr :=
  date :: dayTokens (z + 1) (localDay now - (z + 1)).toNat

variable (len streams) in
/-- Too many of them are refused. -/
theorem recomputeFrom_of_many (haccept : Accepted date) (hz : dayOf date = some z)
    (hnow : Dated (localDay now)) (hnext : Dated (z + 1)) (hdate : date < dateStr (localDay now))
    (hmany : 60 < localDay now - z) (c : Card) :
    (recomputeFrom len streams now date c).1 = -1 := by
  have hdays := dropDays_fst (c := c) hnow kMaxRecomputeDays hz hnext hdate
  rw [if_neg (by unfold kMaxRecomputeDays; omega)] at hdays
  rw [recomputeFrom_of_accepted haccept hz]
  generalize dropDays (dateStr (localDay now)) kMaxRecomputeDays date c = r at hdays ⊢
  obtain ⟨days, c'⟩ := r
  obtain rfl : days = none := hdays
  rfl

/-- The days of one call are different texts. -/
theorem recomputedDays_nodup (hz : dayOf date = some z) (hnow : Dated (localDay now))
    (hnext : Dated (z + 1)) : (recomputedDays now z date).Nodup := by
  have hdated : ∀ i < (localDay now - (z + 1)).toNat, Dated (z + 1 + i) := by
    intro i hi
    exact hnext.of_mem hnow (by omega)
  refine List.nodup_cons.mpr ⟨fun hmem => ?_, ?_⟩
  · obtain ⟨y, hle, hlt, rfl⟩ := mem_dayTokens.mp hmem
    have hy : Dated y := hnext.of_mem hnow (by omega)
    rw [dayOf_dateStr hy] at hz
    have := Option.some.inj hz
    omega
  · refine List.Nodup.map_on (fun i hi j hj heq => ?_) List.nodup_range
    rw [List.mem_range] at hi hj
    have := dateStr_injective (hdated i hi) (hdated j hj) heq
    omega

/-- An earlier day is none of them. -/
theorem dateStr_not_mem_recomputedDays (hz : dayOf date = some z) (hnow : Dated (localDay now))
    (hnext : Dated (z + 1)) {y : ℤ} (hy : Dated y) (hlt : y < z) :
    dateStr y ∉ recomputedDays now z date := by
  intro hmem
  rcases List.mem_cons.mp hmem with rfl | hmem'
  · rw [dayOf_dateStr hy] at hz
    have := Option.some.inj hz
    omega
  · obtain ⟨y', hle, hlt', heq⟩ := mem_dayTokens.mp hmem'
    have hy' : Dated y' := hnext.of_mem hnow (by omega)
    have := dateStr_injective hy hy' heq
    omega

/-- The count of the days that were rebuilt does not go down. -/
theorem foldl_recomputeDay_done (days : List DateStr) {st : RecomputeState} (h : 0 ≤ st.done) :
    0 ≤ (days.foldl (recomputeDay len streams) st).done := by
  induction days generalizing st with
  | nil => exact h
  | cons day days ih =>
    apply ih
    unfold recomputeDay
    dsimp only
    split <;> omega

/-- The days around the recomputed ones have years of four digits. -/
theorem dated_of_few (hnow : 0 ≤ now) (hnext : Dated (z + 1))
    (hfew : localDay now - z ≤ 60) : Dated (z - 1 - kLedgerDepth) ∧ Dated (z - 1) := by
  have hzero : Civil.newYear 0 < -70 := by decide
  have hday : 0 ≤ localDay now := by
    unfold localDay secPerDay
    rcases utcOffset_eq now with hoff | hoff <;> omega
  have hlt := hnext.2
  unfold Dated kLedgerDepth
  omega

/-- The card after the days were rebuilt from the ledger `L` on. -/
def rebuilt (streams : List Stream) (days : List DateStr) (L : BatteryLedger) (c : Card)
    (starts : List (DateStr × BatteryLedger)) : Card :=
  { c with
    cost := fun date =>
      if date ∈ days then computeDayCost c.toInputs date streams else c.cost date
    split := chainSplits c.toInputs streams L days c.split
    starts := starts }

/-- The caches of the days go, a walk finds the ledger before them, and they are rebuilt. -/
theorem recomputeFrom_of_few (haccept : Accepted date) (hz : dayOf date = some z)
    (hnow : 0 ≤ now ∧ Dated (localDay now)) (hnext : Dated (z + 1))
    (hdate : date < dateStr (localDay now)) (hfew : localDay now - z ≤ 60) (c : Card) :
    let days := recomputedDays now z date
    0 ≤ (recomputeFrom len streams now date c).1 ∧
    ∃ L c₁ starts, Walk len streams kLedgerDepth z (days.foldl dropDay c) L c₁ ∧
      (recomputeFrom len streams now date c).2 = rebuilt streams days L c₁ starts := by
  dsimp only
  obtain ⟨hfirst, hlast⟩ := dated_of_few hnow.1 hnext hfew
  have hdays := dropDays_fst (c := c) hnow.2 kMaxRecomputeDays hz hnext hdate
  rw [if_pos (by unfold kMaxRecomputeDays; omega)] at hdays
  have hcard := dropDays_snd kMaxRecomputeDays hdays
  have hwalk : Walk len streams kLedgerDepth z ((recomputedDays now z date).foldl dropDay c) _ _ :=
    ledgerBefore_walk kLedgerDepth _ hz hfirst hlast
  rw [recomputeFrom_of_accepted haccept hz]
  generalize dropDays (dateStr (localDay now)) kMaxRecomputeDays date c = r at hdays hcard ⊢
  obtain ⟨days, c'⟩ := r
  obtain rfl : days = some (recomputedDays now z date) := hdays
  obtain rfl : c' = (recomputedDays now z date).foldl dropDay c := hcard
  dsimp only [recomputedDays] at hwalk ⊢
  generalize ledgerBefore len streams kLedgerDepth date _ = before at hwalk ⊢
  obtain ⟨L, c₁⟩ := before
  dsimp only at hwalk ⊢
  refine ⟨foldl_recomputeDay_done _ le_rfl, L, c₁, ?_⟩
  -- the walk does not cache the days that were dropped
  have hnone : ∀ day ∈ recomputedDays now z date, c₁.cost day = none ∧ c₁.split day = none := by
    intro day hday
    have hother : ∀ y < z, Dated y → day ≠ dateStr y := by
      rintro y hy hd rfl
      exact dateStr_not_mem_recomputedDays hz hnow.2 hnext hd hy hday
    obtain ⟨hframe, hsplit⟩ := hwalk.frame
    rw [hsplit day hother, hframe]
    dsimp only
    rw [← recomputedDays, foldl_dropDay]
    exact ⟨if_pos hday, if_pos hday⟩
  obtain ⟨starts, hrest⟩ := recomputeDays_spec len streams (recomputedDays_nodup hz hnow.2 hnext)
    { card := c₁, ledger := L } hnone
  exact ⟨starts, hwalk, hrest⟩

/-! ## The chain -/

variable (streams) in
/-- Each day of a chain is split from the end ledger of the day before, the first one from `L`. -/
theorem chainSplits_dayTokens (c : Inputs) (n : ℕ) {z : ℤ} {L : BatteryLedger}
    (hfirst : 0 < n → Dated z) (hlast : 0 < n → Dated (z + n - 1))
    (hL : L.known = false → L.eWh = 0 ∧ L.f = 0) (split : DateStr → Option SplitDoc) :
    let g := chainSplits c streams L (dayTokens z n) split
    ∀ y, z ≤ y → y < z + n → g (dateStr y) =
      (computeDaySplit c (dateStr y) streams
        (if y = z then L else (g (dateStr (y - 1))).elim .unknown (·.read.endLedger))).map
          (·.doc) := by
  dsimp only
  induction n generalizing z L split with
  | zero => intro y hle hlt; omega
  | succ n ih =>
    intro y hle hlt
    have hz := hfirst n.succ_pos
    have hend : Dated (z + 1 + n - 1) := by
      have := hlast n.succ_pos
      rwa [Nat.cast_succ, add_comm (n : ℤ) 1, ← add_assoc] at this
    have hnext : 0 < n → Dated (z + 1) := fun hn => hz.of_mem hend (by omega)
    rw [dayTokens_succ, chainSplits]
    set ds := computeDaySplit c (dateStr z) streams L with hds
    have hzero : (ds.elim .unknown (·.endLedger)).known = false →
        (ds.elim .unknown (·.endLedger)).eWh = 0 ∧ (ds.elim .unknown (·.endLedger)).f = 0 := by
      cases hcompute : ds with
      | none => exact fun _ => ⟨rfl, rfl⟩
      | some ds' =>
        obtain ⟨d, -, -, rfl⟩ := computeDaySplit_eq_splitDay (hds.symm.trans hcompute)
        rw [Option.elim_some, splitDay_endLedger]
        exact endLedger_unknown_zero _ _ hL
    have hself : ∀ split', chainSplits c streams (ds.elim .unknown (·.endLedger))
        (dayTokens (z + 1) n) (Function.update split' (dateStr z) (ds.map (·.doc))) (dateStr z)
        = ds.map (·.doc) := by
      intro split'
      rw [chainSplits_of_not_mem c
        (dateStr_not_mem_dayTokens hz hnext (fun _ => hend) (Or.inl (lt_add_one z)))]
      exact Function.update_self _ _ _
    by_cases hy : y = z
    · subst hy
      rw [hself, if_pos rfl]
    · rw [ih hnext (fun _ => hend) hzero _ y (by omega) (by omega), if_neg hy]
      -- the second day starts from where the first one ends
      by_cases hsecond : y = z + 1
      · subst hsecond
        rw [if_pos rfl, add_sub_cancel_right, hself]
        cases hcompute : ds with
        | none => rfl
        | some ds' =>
          rw [Option.map_some, Option.elim_some, Option.elim_some,
            endLedger_read_doc_of_compute hL (hds.symm.trans hcompute)]
      · rw [if_neg hsecond]

variable (streams) in
/-- A day with grid data and a tariff has a cost. -/
theorem computeDayCost_isSome {c : Inputs} {y : ℤ} (hy : Dated y)
    (hgrid : (c.grid (dateStr y)).isSome) (htariff : (tariffLoadDay c (dateStr y)).isSome) :
    ∃ dc, computeDayCost c (dateStr y) streams = some dc := by
  obtain ⟨t, ht, -⟩ := Option.map_eq_some_iff.mp (dayOf_dateStr hy)
  obtain ⟨tariff, htariff'⟩ := Option.isSome_iff_exists.mp htariff
  obtain ⟨recs, hrecs⟩ := Option.isSome_iff_exists.mp hgrid
  unfold computeDayCost loadMinutes
  rw [htariff', ht, hrecs]
  exact ⟨_, rfl⟩

/-- The earlier caches do not change when later ones are dropped. -/
theorem EarlierCaches.foldl_dropDay {days : List DateStr} {c : Card} (h : EarlierCaches len z c)
    (hdays : ∀ y < z, Dated y → dateStr y ∉ days) : EarlierCaches len z (days.foldl dropDay c) := by
  rw [NodePowerLogger.foldl_dropDay]
  intro y hy hd doc hdoc
  dsimp only at hdoc
  rw [if_neg (hdays y hy hd)] at hdoc
  exact h y hy hd doc hdoc

/-- Calling again changes no file. -/
theorem recomputeFrom_again (haccept : Accepted date) (hz : dayOf date = some z)
    (hnow : 0 ≤ now ∧ Dated (localDay now)) (hnext : Dated (z + 1))
    (hdate : date < dateStr (localDay now)) (hfew : localDay now - z ≤ 60) (c : Card) :
    let r := recomputeFrom len streams now date c
    r.2.SameFiles (recomputeFrom len streams now date r.2).2 := by
  dsimp only
  obtain ⟨hfirst, hlast⟩ := dated_of_few hnow.1 hnext hfew
  obtain ⟨-, L, c₁, starts, hwalk, hr⟩ := recomputeFrom_of_few haccept hz hnow hnext hdate hfew c
  rw [hr]
  obtain ⟨-, L', c₂, starts', hwalk', hr'⟩ := recomputeFrom_of_few haccept hz hnow hnext hdate hfew
    (rebuilt streams (recomputedDays now z date) L c₁ starts)
  rw [hr']
  have hearlier : ∀ y < z, Dated y → dateStr y ∉ recomputedDays now z date :=
    fun y hy hd => dateStr_not_mem_recomputedDays hz hnow.2 hnext hd hy
  -- the second walk starts from what the first one left
  have hstart : SameBefore z c₁ ((recomputedDays now z date).foldl dropDay
      (rebuilt streams (recomputedDays now z date) L c₁ starts)) := by
    rw [foldl_dropDay]
    refine ⟨rfl, fun y hy hd => ?_⟩
    dsimp only
    rw [if_neg (hearlier y hy hd)]
    exact chainSplits_of_not_mem _ (hearlier y hy hd)
  obtain ⟨rfl, hsame⟩ := hwalk.again hlast hfirst hstart hwalk'
  rw [foldl_dropDay] at hwalk'
  obtain ⟨hframe, hother⟩ := hwalk'.frame
  have hinputs : c₂.toInputs = c₁.toInputs := hwalk'.toInputs
  have hhourly : c₂.gridHourly = c₁.gridHourly ∧ c₂.nodeHourly = c₁.nodeHourly := by
    rw [hframe]
    exact ⟨rfl, rfl⟩
  unfold Card.SameFiles
  rw [rebuilt, hinputs, hhourly.1, hhourly.2]
  dsimp only [rebuilt]
  congr 1
  · funext d
    split
    · rfl
    · rename_i hd
      rw [hframe]
      dsimp only [rebuilt]
      rw [if_neg hd, if_neg hd]
  · funext d
    refine chainSplits_congr _ fun hd => ?_
    by_cases hday : ∃ y < z, Dated y ∧ d = dateStr y
    · obtain ⟨y, hy, hdated, rfl⟩ := hday
      exact hsame.split y hy hdated
    · push Not at hday
      rw [hother d hday]
      dsimp only [rebuilt]
      rw [if_neg hd, chainSplits_of_not_mem _ hd]

/-- A date that is written as its day is named heads the days from it on. -/
theorem recomputedDays_dateStr (hlt : z < localDay now) :
    recomputedDays now z (dateStr z) = dayTokens z (localDay now - z).toNat := by
  rw [show (localDay now - z).toNat = (localDay now - (z + 1)).toNat + 1 by omega, dayTokens_succ]
  rfl

/-- What a call leaves is consistent, if the days from `z` to yesterday are those it names. -/
theorem recomputed_of_few (haccept : Accepted date) (hz : dayOf date = some z)
    (hnow : 0 ≤ now ∧ Dated (localDay now)) (hnext : Dated (z + 1))
    (hdate : date < dateStr (localDay now)) (hfew : localDay now - z ≤ 60)
    (hnamed : z < localDay now → Dated z ∧ date = dateStr z) {c : Card}
    (hc : EarlierCaches len z c) :
    Recomputed streams now z c (recomputeFrom len streams now date c).2 := by
  obtain ⟨-, hlast⟩ := dated_of_few hnow.1 hnext hfew
  obtain ⟨-, L, c₁, starts, hwalk, hr⟩ := recomputeFrom_of_few haccept hz hnow hnext hdate hfew c
  have hearlier : ∀ y < z, Dated y → dateStr y ∉ recomputedDays now z date :=
    fun y hy hd => dateStr_not_mem_recomputedDays hz hnow.2 hnext hd hy
  have hdropped := hc.foldl_dropDay hearlier
  rw [hr]
  have hinputs : c₁.toInputs = c.toInputs := by
    rw [hwalk.toInputs, foldl_dropDay]
  -- the last day before the chain ends with the ledger that the chain starts from
  have hstart :
      L = (rebuilt streams (recomputedDays now z date) L c₁ starts).endLedgerOf (z - 1) := by
    rw [hwalk.ledger_eq hdropped (by decide) hlast]
    unfold Card.endLedgerOf
    dsimp only [rebuilt]
    rw [chainSplits_of_not_mem _ (hearlier (z - 1) (by omega) hlast)]
    rfl
  have hmem : ∀ y, z ≤ y → y < localDay now → Dated y ∧ dateStr y ∈ recomputedDays now z date := by
    intro y hle hlt
    obtain ⟨hdz, rfl⟩ := hnamed (by omega)
    rw [recomputedDays_dateStr (by omega), mem_dayTokens]
    exact ⟨hdz.of_mem hnow.2 (by omega), y, hle, by omega, rfl⟩
  refine ⟨hinputs, fun y hle hlt hgrid => ?_, fun y hle hlt hgrid htariff => ?_,
    fun y hy hd => ⟨fun hsplit => ?_, fun hcost => ?_⟩⟩
  · obtain ⟨hdy, -⟩ := hmem y hle hlt
    obtain ⟨hdz, rfl⟩ := hnamed (by omega)
    have hchain := chainSplits_dayTokens streams c₁.toInputs (localDay now - z).toNat
      (fun _ => hdz) (fun _ => hdz.of_mem hnow.2 (by omega)) hwalk.unknown_zero c₁.split
    dsimp only at hchain
    rw [← recomputedDays_dateStr (by omega)] at hchain
    have hend : (if y = z then L
        else (chainSplits c₁.toInputs streams L (recomputedDays now z (dateStr z)) c₁.split
          (dateStr (y - 1))).elim .unknown (·.read.endLedger))
        = (rebuilt streams (recomputedDays now z (dateStr z)) L c₁ starts).endLedgerOf (y - 1) := by
      by_cases hy : y = z
      · rw [if_pos hy, hy]
        exact hstart
      · rw [if_neg hy]
        unfold Card.endLedgerOf
        dsimp only [rebuilt]
        by_cases hgap : (c₁.grid (dateStr (y - 1))).isSome
        · exact (if_pos hgap).symm
        -- a day without grid data was not split
        · have hprev : Dated (y - 1) := hdz.of_mem hnow.2 (by omega)
          rw [hchain (y - 1) (by omega) (by omega), computeDaySplit_of_gap hprev hgap]
          exact (if_neg hgap).symm
    obtain ⟨ds, hds⟩ : ∃ ds, computeDaySplit c₁.toInputs (dateStr y) streams
        ((rebuilt streams (recomputedDays now z (dateStr z)) L c₁ starts).endLedgerOf (y - 1))
          = some ds := exists_computeDaySplit hdy hgrid _ _
    refine ⟨ds, hds, ?_⟩
    show chainSplits c₁.toInputs streams L (recomputedDays now z (dateStr z)) c₁.split (dateStr y)
      = some ds.doc
    rw [hchain y hle (by omega), hend, hds]
    rfl
  · obtain ⟨hdy, hday⟩ := hmem y hle hlt
    obtain ⟨dc, hdc⟩ := computeDayCost_isSome streams hdy hgrid htariff
    refine ⟨dc, hdc, ?_⟩
    dsimp only [rebuilt] at hdc ⊢
    rw [if_pos hday]
    exact hdc
  · dsimp only [rebuilt]
    have hkept : ((recomputedDays now z date).foldl dropDay c).split (dateStr y)
        = c.split (dateStr y) := by
      rw [foldl_dropDay]
      exact if_neg (hearlier y hy hd)
    rw [chainSplits_of_not_mem _ (hearlier y hy hd),
      hwalk.keeps hdropped hy hd (by rwa [hkept]), hkept]
  · dsimp only [rebuilt]
    rw [if_neg (hearlier y hy hd), hwalk.frame.1, foldl_dropDay]
    exact if_neg (hearlier y hy hd)

/-! ## Texts that name their day otherwise -/

/-- A card with nothing but an empty grid file of one day. -/
def gridOnly (z : ℤ) : Card :=
  { grid := fun date => if date = dateStr z then some [] else none
    node := fun _ _ => none
    soc := fun _ _ => none
    tariff := fun _ => none
    price := fun _ => none }

/-- A past day that the text does not name is not split, though it has grid data. -/
theorem not_consistentAfter (haccept : Accepted date) (hz : dayOf date = some z)
    (hnow : 0 ≤ now ∧ Dated (localDay now)) (hnext : Dated (z + 1))
    (hpast : z < localDay now) (hfew : date < dateStr (localDay now) → localDay now - z ≤ 60)
    (hother : ¬ (Dated z ∧ date = dateStr z)) :
    ¬ ConsistentAfter len streams now date z (gridOnly z) := by
  intro h
  have hgrid : ((gridOnly z).grid (dateStr z)).isSome := by
    unfold gridOnly
    dsimp only
    rw [if_pos rfl]
    rfl
  unfold ConsistentAfter at h
  dsimp only at h
  by_cases hdate : date < dateStr (localDay now)
  · obtain ⟨-, hlast⟩ := dated_of_few hnow.1 hnext (hfew hdate)
    have hdz : Dated z := hlast.of_mem hnext (by omega)
    obtain ⟨hdone, L, c₁, starts, hwalk, hr⟩ :=
      recomputeFrom_of_few haccept hz hnow hnext hdate (hfew hdate) (gridOnly z)
    obtain ⟨hrecomputed, -⟩ := h hdone
    obtain ⟨ds, -, hds⟩ := hrecomputed.split z le_rfl hpast (by rwa [hrecomputed.inputs])
    have hnot : dateStr z ∉ recomputedDays now z date := by
      intro hmem
      rcases List.mem_cons.mp hmem with heq | hmem'
      · exact hother ⟨hdz, heq.symm⟩
      · exact dateStr_not_mem_dayTokens hdz (fun _ => hnext)
          (fun _ => hnext.of_mem hnow.2 (by omega)) (Or.inl (lt_add_one z)) hmem'
    -- neither the walk nor the loop came past the day
    have hwalked := hwalk.frame.2 (dateStr z) fun y hy hd heq => by
      have := dateStr_injective hdz hd heq
      omega
    rw [hr] at hds
    dsimp only [rebuilt] at hds
    rw [chainSplits_of_not_mem _ hnot, hwalked, foldl_dropDay] at hds
    dsimp only at hds
    rw [if_neg hnot] at hds
    exact nomatch hds
  · rw [recomputeFrom_of_not_lt haccept hz hdate] at h
    obtain ⟨hrecomputed, -⟩ := h le_rfl
    obtain ⟨ds, -, hds⟩ := hrecomputed.split z le_rfl hpast hgrid
    exact nomatch hds

end Call

/-- For a clock that shows a year of four digits and a text that is accepted: whatever the day files
and the caches from its day on, with the earlier caches readable and of days with grid data, a call
leaves a consistent chain exactly if the text is the name of its day, is refused for being more than
60 days back, or stands for no past day. -/
theorem recompute_consistent_iff (len : TextLength) (streams : List Stream) {now : ℤ}
    (hnow : 0 ≤ now ∧ Dated (localDay now)) {date : DateStr} (haccept : Accepted date) {z : ℤ}
    (hz : dayOf date = some z) (hnext : Dated (z + 1)) :
    (∀ c, EarlierCaches len z c → ConsistentAfter len streams now date z c) ↔
      (z < localDay now → (date < dateStr (localDay now) → localDay now - z ≤ 60) →
        Dated z ∧ date = dateStr z) := by
  constructor
  · intro h hpast hfew
    by_contra hother
    exact not_consistentAfter haccept hz hnow hnext hpast hfew hother
      (h (gridOnly z) fun y hy hd doc hdoc => nomatch hdoc)
  · intro hnamed c hc
    unfold ConsistentAfter
    dsimp only
    by_cases hdate : date < dateStr (localDay now)
    · rcases le_or_gt (localDay now - z) 60 with hfew | hmany
      · intro _
        exact ⟨recomputed_of_few haccept hz hnow hnext hdate hfew
            (fun hpast => hnamed hpast fun _ => hfew) hc,
          recomputeFrom_again haccept hz hnow hnext hdate hfew c⟩
      · intro hdone
        have hrefused := recomputeFrom_of_many len streams haccept hz hnow.2 hnext hdate hmany c
        omega
    · rw [recomputeFrom_of_not_lt haccept hz hdate]
      intro _
      rw [recomputeFrom_of_not_lt haccept hz hdate]
      have hfuture : localDay now ≤ z := by
        by_contra hpast
        obtain ⟨hdz, rfl⟩ := hnamed (not_le.mp hpast) fun hlt => absurd hlt hdate
        exact hdate ((dateStr_lt_iff hdz hnow.2).mpr (not_le.mp hpast))
      exact ⟨⟨rfl, fun y hle hlt => by omega, fun y hle hlt => by omega,
        fun y hy hd => ⟨fun _ => rfl, fun _ => rfl⟩⟩, rfl⟩

/-- On 5 March 2024, 2 March is recomputed, on a card that has its grid data. -/
theorem recompute_consistent_iff_march :
    ConsistentAfter shortTexts [⟨"heater", .load⟩] 1709640000 "2024-03-02".toList 19784
      (gridOnly 19784) :=
  (recompute_consistent_iff shortTexts [⟨"heater", .load⟩] (by decide +kernel) (by decide)
    (by decide +kernel) (by decide +kernel)).mpr (fun _ _ => by decide +kernel) (gridOnly 19784)
      fun _ _ _ _ hdoc => nomatch hdoc

/-- 31 February 2024 is accepted as 2 March, which is not recomputed. -/
theorem recompute_skips_named_otherwise :
    ¬ ∀ (len : TextLength) (streams : List Stream) (now : ℤ) (date : DateStr) (z : ℤ) (c : Card),
      0 ≤ now ∧ Dated (localDay now) → Accepted date → dayOf date = some z →
        EarlierCaches len z c → ConsistentAfter len streams now date z c := by
  intro h
  have hnow : 0 ≤ (1709640000 : ℤ) ∧ Dated (localDay 1709640000) := by decide +kernel
  have haccept : Accepted "2024-02-31".toList := by decide
  have hz : dayOf "2024-02-31".toList = some 19784 := by decide +kernel
  exact not_consistentAfter haccept hz hnow (by decide +kernel) (by decide +kernel)
    (fun _ => by decide +kernel) (by decide +kernel)
    (h shortTexts [] 1709640000 "2024-02-31".toList 19784 (gridOnly 19784) hnow haccept hz
      fun y hy hd doc hdoc => nomatch hdoc)

end HomeEnergyManager.NodePowerLogger
