import HomeEnergyManager.PowerLogger.StartLedger

/-! # The walk of `ledger_before`

`Walk` has one constructor for each way in which `ledger_before` comes to a ledger. What it leaves
alone, what ledger it finds and that a second walk finds the same are inductions on it.
-/

namespace HomeEnergyManager.NodePowerLogger

section Walk

variable (len : TextLength) (streams : List Stream)

/-- The walk back from day `z` finds the ledger and leaves the card: a cached day ends it, a day out
of reach or without grid data loses the ledger, and any other day is split and cached. -/
inductive Walk : ℕ → ℤ → Card → BatteryLedger → Card → Prop
  | cached {depth : ℕ} {z : ℤ} {c : Card} {ds : DaySplit}
      (hread : readSplitCache len c (dateStr (z - 1)) = some ds) : Walk depth z c ds.endLedger c
  | lost {depth : ℕ} {z : ℤ} {c : Card}
      (hread : readSplitCache len c (dateStr (z - 1)) = none)
      (hgap : depth = 0 ∨ c.grid (dateStr (z - 1)) = none) : Walk depth z c .unknown c
  | split {depth : ℕ} {z : ℤ} {c c' : Card} {L : BatteryLedger} {ds : DaySplit}
      {starts : List (DateStr × BatteryLedger)} (hdated : Dated (z - 1))
      (hread : readSplitCache len c (dateStr (z - 1)) = none)
      (hgrid : (c.grid (dateStr (z - 1))).isSome) (hwalk : Walk depth (z - 1) c L c')
      (hds : computeDaySplit c.toInputs (dateStr (z - 1)) streams L = some ds) :
      Walk (depth + 1) z c ds.endLedger { c' with
        split := Function.update c'.split (dateStr (z - 1)) (some ds.doc)
        starts := starts }

variable {len streams}

/-- `ledger_before` is a walk. -/
theorem ledgerBefore_walk (depth : ℕ) {date : DateStr} {z : ℤ} (c : Card)
    (hz : dayOf date = some z) (hfirst : Dated (z - 1 - depth)) (hlast : Dated (z - 1)) :
    Walk len streams depth z c (ledgerBefore len streams depth date c).1
      (ledgerBefore len streams depth date c).2 := by
  induction depth generalizing date z with
  | zero =>
    cases hread : readSplitCache len c (dateStr (z - 1)) with
    | some ds =>
      rw [ledgerBefore_of_read 0 hz hread]
      exact .cached hread
    | none =>
      rw [ledgerBefore_zero hz hread]
      exact .lost hread (Or.inl rfl)
  | succ depth ih =>
    cases hread : readSplitCache len c (dateStr (z - 1)) with
    | some ds =>
      rw [ledgerBefore_of_read (depth + 1) hz hread]
      exact .cached hread
    | none =>
      rw [ledgerBefore_succ hz hread]
      cases hgrid : c.grid (dateStr (z - 1)) with
      | none =>
        rw [Option.isNone_none, if_pos rfl]
        exact .lost hread (Or.inr hgrid)
      | some recs =>
        rw [Option.isNone_some, if_neg Bool.false_ne_true]
        dsimp only
        obtain ⟨hfirst', hlast'⟩ := Dated.sub_one hfirst hlast
        obtain ⟨hinputs, hsplit⟩ :=
          ledgerBefore_frame len streams c depth (dayOf_dateStr hlast) hfirst' hlast'
        have hwalk := ih (dayOf_dateStr hlast) hfirst' hlast'
        generalize ledgerBefore len streams depth (dateStr (z - 1)) c = before
          at hinputs hsplit hwalk ⊢
        obtain ⟨L, c'⟩ := before
        dsimp only at hinputs hsplit hwalk ⊢
        -- the day is split, as it has grid data, and its cache was not written on the way
        have hread' : readSplitCache len c' (dateStr (z - 1)) = none := by
          unfold readSplitCache
          rw [hsplit _ le_rfl hlast]
          exact hread
        obtain ⟨ds, hds⟩ := exists_computeDaySplit (c := c.toInputs) hlast
          (by rw [hgrid, Option.isSome_some]) streams L
        have hds' : computeDaySplit c'.toInputs (dateStr (z - 1)) streams L = some ds := by
          rw [hinputs]
          exact hds
        unfold daySplit splitFrom
        rw [if_neg Bool.false_ne_true, hread', hds']
        show Walk len streams (depth + 1) z c ds.endLedger { c' with
          split := Function.update c'.split (dateStr (z - 1)) (some ds.doc)
          starts := c'.starts ++ [(dateStr (z - 1), L)] }
        exact .split hlast hread (by rw [hgrid]; rfl) hwalk hds

/-- Two cards with the same records and the same cached splits of the days before `z`. -/
structure SameBefore (z : ℤ) (c c' : Card) : Prop where
  inputs : c'.toInputs = c.toInputs
  split : ∀ y < z, Dated y → c'.split (dateStr y) = c.split (dateStr y)

theorem SameBefore.read {z y : ℤ} {c c' : Card} (h : SameBefore z c c') (hy : y < z)
    (hd : Dated y) :
    readSplitCache len c' (dateStr y) = readSplitCache len c (dateStr y) := by
  unfold readSplitCache
  rw [h.split y hy hd]

/-- The caches of the days before `z` are readable and of days with grid data. -/
def EarlierCaches (len : TextLength) (z : ℤ) (c : Card) : Prop :=
  ∀ y < z, Dated y → ∀ doc, c.split (dateStr y) = some doc →
    readable (len.split doc) = true ∧ (c.grid (dateStr y)).isSome

/-- The end ledger of a day's cached split, unknown if the day has no grid data. -/
def Card.endLedgerOf (c : Card) (y : ℤ) : BatteryLedger :=
  if (c.grid (dateStr y)).isSome then
    (c.split (dateStr y)).elim .unknown (·.read.endLedger)
  else .unknown

variable {depth : ℕ} {z : ℤ} {c c' : Card} {L : BatteryLedger}

/-- A walk writes cached splits of days before `z` only. -/
theorem Walk.frame (h : Walk len streams depth z c L c') :
    c' = { c with split := c'.split, starts := c'.starts } ∧
      ∀ date, (∀ y < z, Dated y → date ≠ dateStr y) → c'.split date = c.split date := by
  induction h with
  | cached hread => exact ⟨rfl, fun _ _ => rfl⟩
  | lost hread hgap => exact ⟨rfl, fun _ _ => rfl⟩
  | split hdated hread hgrid hwalk hds ih =>
    obtain ⟨hcard, hsplit⟩ := ih
    refine ⟨?_, fun date hdate => ?_⟩
    · rw [hcard]
    · dsimp only
      rw [Function.update_of_ne (hdate _ (by omega) hdated)]
      exact hsplit date fun y hy hd => hdate y (by omega) hd

theorem Walk.toInputs (h : Walk len streams depth z c L c') : c'.toInputs = c.toInputs := by
  rw [h.frame.1]

/-- The ledger that is found holds nothing while it is unknown. -/
theorem Walk.unknown_zero (h : Walk len streams depth z c L c') :
    L.known = false → L.eWh = 0 ∧ L.f = 0 := by
  induction h with
  | cached hread =>
    obtain ⟨doc, -, hdoc⟩ := Option.bind_eq_some_iff.mp hread
    split at hdoc
    · rw [← Option.some.inj hdoc]
      unfold SplitDoc.read
      dsimp only
      split
      · rename_i hknown
        exact fun hn => nomatch hknown.symm.trans hn
      · exact fun _ => ⟨rfl, rfl⟩
    · exact nomatch hdoc
  | lost hread hgap => exact fun _ => ⟨rfl, rfl⟩
  | split hdated hread hgrid hwalk hds ih =>
    obtain ⟨d, -, -, rfl⟩ := computeDaySplit_eq_splitDay hds
    rw [splitDay_endLedger]
    exact endLedger_unknown_zero _ _ ih

/-- A split that a walk has computed reads back with its end ledger. -/
theorem endLedger_read_doc_of_compute {c : Inputs} {date : DateStr} {ds : DaySplit}
    (hL : L.known = false → L.eWh = 0 ∧ L.f = 0)
    (hds : computeDaySplit c date streams L = some ds) :
    ds.doc.read.endLedger = ds.endLedger := by
  apply DaySplit.endLedger_read_doc
  obtain ⟨d, -, -, rfl⟩ := computeDaySplit_eq_splitDay hds
  rw [splitDay_endLedger]
  exact endLedger_unknown_zero _ _ hL

/-- Readable caches stay as they are. -/
theorem Walk.keeps (h : Walk len streams depth z c L c') (hc : EarlierCaches len z c) {y : ℤ}
    (hy : y < z) (hd : Dated y) (hcached : c.split (dateStr y) ≠ none) :
    c'.split (dateStr y) = c.split (dateStr y) := by
  induction h with
  | cached hread => rfl
  | lost hread hgap => rfl
  | split hdated hread hgrid hwalk hds ih =>
    rename_i z c _ _ _ _
    have hne : y ≠ z - 1 := by
      rintro rfl
      obtain ⟨doc, hdoc⟩ := Option.ne_none_iff_exists'.mp hcached
      unfold readSplitCache at hread
      rw [hdoc, Option.bind_some, if_pos (hc _ hy hd doc hdoc).1] at hread
      exact nomatch hread
    dsimp only
    rw [Function.update_of_ne fun heq => hne (dateStr_injective hd hdated heq)]
    exact ih (fun y hy => hc y (by omega)) (by omega) hcached

/-- A walk that may split the day before finds its end ledger. -/
theorem Walk.ledger_eq (h : Walk len streams depth z c L c') (hc : EarlierCaches len z c)
    (hdepth : 0 < depth) (hd : Dated (z - 1)) : L = c'.endLedgerOf (z - 1) := by
  unfold Card.endLedgerOf
  cases h with
  | cached hread =>
    obtain ⟨doc, hdoc, hds⟩ := Option.bind_eq_some_iff.mp hread
    split at hds
    · rw [if_pos (hc _ (by omega) hd doc hdoc).2, hdoc, ← Option.some.inj hds]
      rfl
    · exact nomatch hds
  | lost hread hgap =>
    have hnone := hgap.resolve_left hdepth.ne'
    rw [hnone, Option.isSome_none, if_neg Bool.false_ne_true]
  | split hdated hread hgrid hwalk hds =>
    dsimp only
    rw [hwalk.toInputs, if_pos hgrid, Function.update_self, Option.elim_some]
    exact (endLedger_read_doc_of_compute hwalk.unknown_zero hds).symm

/-- A second walk, on a card that the first one could have left, finds the same ledger and leaves
the same caches. -/
theorem Walk.again {b b' : Card} {L' : BatteryLedger} (h : Walk len streams depth z c L c')
    (hd : Dated (z - 1)) (hfirst : Dated (z - 1 - depth)) (hsame : SameBefore z c' b)
    (h' : Walk len streams depth z b L' b') : L' = L ∧ SameBefore z c' b' := by
  induction h generalizing b b' L' with
  | cached hread =>
    have hread' := (hsame.read (by omega) hd).trans hread
    cases h' with
    | cached hread₂ =>
      rw [Option.some.inj (hread₂.symm.trans hread')]
      exact ⟨rfl, hsame⟩
    | lost hread₂ | split _ hread₂ => exact nomatch hread₂.symm.trans hread'
  | lost hread hgap =>
    have hread' := (hsame.read (by omega) hd).trans hread
    cases h' with
    | cached hread₂ => exact nomatch hread₂.symm.trans hread'
    | lost => exact ⟨rfl, hsame⟩
    | split _ _ hgrid₂ =>
      rw [hsame.inputs, hgap.resolve_left (Nat.succ_ne_zero _)] at hgrid₂
      exact nomatch hgrid₂
  | split hdated hread hgrid hwalk hds ih =>
    rename_i depth z c c₁ L ds starts
    have hdoc : b.split (dateStr (z - 1)) = some ds.doc := by
      rw [hsame.split _ (by omega) hd]
      exact Function.update_self _ _ _
    have hinputs : b.toInputs = c.toInputs := hsame.inputs.trans hwalk.toInputs
    cases h' with
    | cached hread₂ =>
      -- the split that the first walk cached
      unfold readSplitCache at hread₂
      rw [hdoc, Option.bind_some] at hread₂
      split at hread₂
      · rw [← Option.some.inj hread₂]
        exact ⟨endLedger_read_doc_of_compute hwalk.unknown_zero hds, hsame⟩
      · exact nomatch hread₂
    | lost _ hgap₂ =>
      rw [hinputs] at hgap₂
      rw [hgap₂.resolve_left (Nat.succ_ne_zero _)] at hgrid
      exact nomatch hgrid
    | split _ _ _ hwalk₂ hds₂ =>
      -- too long to be read back: it is split again from the same ledger
      have hsame₁ : SameBefore (z - 1) c₁ b := by
        refine ⟨hinputs.trans hwalk.toInputs.symm, fun y hy hdy => ?_⟩
        rw [hsame.split y (by omega) hdy]
        dsimp only
        rw [Function.update_of_ne fun heq => hy.ne (dateStr_injective hdy hdated heq)]
      obtain ⟨hfirst', hlast'⟩ := Dated.sub_one hfirst hd
      obtain ⟨rfl, hsame₂⟩ := ih hlast' hfirst' hsame₁ hwalk₂
      rw [hinputs] at hds₂
      obtain rfl := Option.some.inj (hds.symm.trans hds₂)
      refine ⟨rfl, hsame₂.inputs, fun y hy hdy => ?_⟩
      dsimp only
      rw [Function.update_apply, Function.update_apply]
      split
      · rfl
      · rename_i hne
        refine hsame₂.split y ?_ hdy
        have : y ≠ z - 1 := fun heq => hne (heq ▸ rfl)
        omega

end Walk

end HomeEnergyManager.NodePowerLogger
