import HomeEnergyManager.ApplianceProfile.Model
import HomeEnergyManager.Lib.LeastSquares
import HomeEnergyManager.Lib.Segments

/-! # What the training finds

The thresholds come in their order whatever was recorded. The cycles are the segments of the minute
files between the thresholds, and the profile has the mean and the variance of those that are long
enough, as long as the counters of 32 bits do not wrap.

Reference: `appliance_profile_train` in `firmware/main/appliance_profile.c`.
-/

namespace HomeEnergyManager.ApplianceProfile

open LeastSquares
open NodePowerLogger (sanitizeToken)

/-! ## What should be found -/

/-- The cycles of a day. -/
def Cycles (t : Thresholds) (day : List ℤ) (cycles : List (List ℤ)) : Prop :=
  Segments.Segmented (t.on ≤ ·) (t.off ≤ ·) GAP_TOLERANCE_MIN day cycles

/-- The cycles that are long enough. -/
def counted (cycles : List (List ℤ)) : List (List ℤ) :=
  cycles.filter fun c => MIN_CYCLE_MIN ≤ c.length

/-- The mean power of each cycle. -/
def powers (cycles : List (List ℤ)) : List ℚ := cycles.map fun c => c.sum / c.length

def lengths (cycles : List (List ℤ)) : List ℚ := cycles.map fun c => c.length

/-- No counter of 32 bits wraps. -/
def CountersHold (cycles : List (List ℤ)) : Prop :=
  (∀ c ∈ cycles, c.length < 2 ^ 32) ∧ (counted cycles).length < 2 ^ 32

/-- A number of 32 bits with a sign. -/
def IsInt32 (x : ℤ) : Prop := -2 ^ 31 ≤ x ∧ x < 2 ^ 31

/-! ## The thresholds -/

theorem int_32 {x : ℤ} (h : IsInt32 x) : Checked.int 32 x = some x := Checked.int_of_fits h

theorem int_64 {x : ℤ} (h : -2 ^ 63 ≤ x ∧ x < 2 ^ 63) : Checked.int 64 x = some x :=
  Checked.int_of_fits h

theorem standbyOf_spec {modeBin : ℕ} (h : modeBin < STANDBY_NBINS) :
    ∃ s, standbyOf modeBin = some s ∧ 0 ≤ s ∧ s ≤ 1997000 := by
  have hbins : STANDBY_NBINS = 400 := rfl
  unfold standbyOf STANDBY_BIN_W
  by_cases hzero : modeBin = 0
  · exact ⟨0, if_pos hzero, by omega, by omega⟩
  · refine ⟨(modeBin * 5 + 5 / 2) * 1000, ?_, by omega, by omega⟩
    simp only [Option.bind_eq_bind]
    rw [if_neg hzero, int_32 (by unfold IsInt32; omega), Option.bind_some,
      int_32 (by unfold IsInt32; omega), Option.bind_some, int_32 (by unfold IsInt32; omega)]

/-- No operation overflows, and the thresholds come in their order. -/
theorem thresholds_spec {peakMw : ℤ} {modeBin : ℕ} (hpeak : 0 ≤ peakMw ∧ peakMw < 2 ^ 31)
    (hmode : modeBin < STANDBY_NBINS) :
    ∃ t, thresholds peakMw modeBin = some t ∧ 0 ≤ t.standbyMw ∧ t.standbyMw < t.off ∧
      t.off < t.on := by
  obtain ⟨s, hs, hs0, hs1⟩ := standbyOf_spec hmode
  -- how far the division of C is from the exact quotient
  have hquot := Int.mul_tdiv_add_tmod ((peakMw - s) * 3) 10
  have hrem := Int.tmod_lt_of_pos ((peakMw - s) * 3) (show (0 : ℤ) < 10 by decide)
  have hrem' := Int.lt_tmod_of_pos ((peakMw - s) * 3) (show (0 : ℤ) < 10 by decide)
  unfold thresholds ON_REL_NUM ON_REL_DEN ON_MARGIN_MW OFF_MARGIN_MW
  simp only [Option.bind_eq_bind]
  rw [hs, Option.bind_some, int_32 (by unfold IsInt32; omega), Option.bind_some,
    int_64 (by omega), Option.bind_some]
  generalize ((peakMw - s) * 3).tdiv 10 = rel at hquot ⊢
  rw [int_32 (by unfold IsInt32; omega), Option.bind_some]
  generalize hmargin : (if rel < 30 * 1000 then 30 * 1000 else rel) = onMargin
  have hbounds : 30000 ≤ onMargin ∧ (onMargin = 30000 ∨ onMargin = rel) := by
    rw [← hmargin]
    split <;> omega
  rw [int_32 (by unfold IsInt32; omega), Option.bind_some, int_32 (by unfold IsInt32; omega),
    Option.bind_some]
  exact ⟨_, rfl, hs0, by dsimp only; omega, by dsimp only; omega⟩

/-! ## The first pass -/

theorem modeBin_lt (g : Histogram) : g.modeBin < STANDBY_NBINS := by
  have hrun : ∀ (l : List ℕ) (m : ℕ), m < STANDBY_NBINS → (∀ b ∈ l, b < STANDBY_NBINS) →
      l.foldl (fun modeBin b => if g.hist modeBin < g.hist b then b else modeBin) m
        < STANDBY_NBINS := by
    intro l
    induction l with
    | nil => exact fun m hm _ => hm
    | cons b l ih =>
      intro m hm hl
      rw [List.forall_mem_cons] at hl
      rw [List.foldl_cons]
      refine ih _ ?_ hl.2
      split
      · exact hl.1
      · exact hm
  refine hrun _ _ (by decide) fun b hb => ?_
  rw [List.mem_range'_1] at hb
  omega

/-- The peak is between zero and what bounds the samples. -/
theorem peakMw_foldl {M : ℤ} {days : List (List ℤ)} (hdays : ∀ day ∈ days, ∀ p ∈ day, p ≤ M)
    (g : Histogram) (hg : 0 ≤ g.peakMw ∧ g.peakMw ≤ M) :
    0 ≤ (days.foldl (fun g recs => recs.foldl Histogram.add g) g).peakMw ∧
      (days.foldl (fun g recs => recs.foldl Histogram.add g) g).peakMw ≤ M := by
  have hday : ∀ (day : List ℤ) (g : Histogram), (∀ p ∈ day, p ≤ M) →
      0 ≤ g.peakMw ∧ g.peakMw ≤ M →
      0 ≤ (day.foldl Histogram.add g).peakMw ∧ (day.foldl Histogram.add g).peakMw ≤ M := by
    intro day
    induction day with
    | nil => exact fun _ _ hg => hg
    | cons p day ih =>
      intro g hday hg
      rw [List.forall_mem_cons] at hday
      refine ih _ hday.2 ?_
      have hp := hday.1
      unfold Histogram.add
      dsimp only
      split <;> omega
  induction days generalizing g with
  | nil => exact hg
  | cons day days ih =>
    rw [List.forall_mem_cons] at hdays
    exact ih hdays.2 _ (hday day g hdays.1 hg)

theorem learn_spec {days : List (List ℤ)} (hdays : ∀ day ∈ days, ∀ p ∈ day, IsInt32 p) :
    ∃ t, learn days = some t ∧ 0 ≤ t.standbyMw ∧ t.standbyMw < t.off ∧ t.off < t.on := by
  have hmax : ∀ day ∈ days, ∀ p ∈ day, p ≤ 2 ^ 31 - 1 :=
    fun day hday p hp => Int.le_sub_one_of_lt (hdays day hday p hp).2
  have hpeak := peakMw_foldl hmax {} ⟨Int.le_refl 0, by decide⟩
  exact thresholds_spec ⟨hpeak.1, by omega⟩ (modeBin_lt _)

/-! ## The scan of a day -/

/-- A cycle as the variables of `scan_day` hold it. -/
def recordWrapped (st : CycleStats) (c : List ℤ) : CycleStats :=
  recordCycle st (toInt64 c.sum) (c.length % 2 ^ 32)

/-- What `scan_day` has in its variables, for the state of the scanner. -/
def Scan.Holds (s : Scan) : Segments.State ℤ → Prop
  | .idle => s.inCycle = false
  | .running seg pend =>
    s.inCycle = true ∧ s.cycSum = toInt64 seg.sum ∧ s.cycLen = seg.length % 2 ^ 32 ∧
      s.pendSum = toInt64 pend.sum ∧ s.pendLen = pend.length % 2 ^ 32 ∧ s.gap = pend.length

/-- What `scan_day` records at the end of the file. -/
def Scan.finish (s : Scan) : CycleStats :=
  if s.inCycle then recordCycle s.st s.cycSum s.cycLen else s.st

theorem toInt64_eq {x : ℤ} (h : -2 ^ 63 ≤ x ∧ x < 2 ^ 63) : toInt64 x = x :=
  Int.bmod_eq_of_le_mul_two (by omega) (by omega)

/-- A sample that keeps a cycle going takes the gap into it. -/
theorem Scan.Holds.resume {s : Scan} {seg pend : List ℤ} (h : s.Holds (.running seg pend))
    (on : ℤ) {off p : ℤ} (hp : off ≤ p) :
    (s.read on off p).Holds (.running (seg ++ pend ++ [p]) []) ∧ (s.read on off p).st = s.st := by
  obtain ⟨hin, hsum, hlen, hpsum, hplen, -⟩ := h
  unfold Scan.read
  rw [if_neg (by simp [hin]), if_pos hp]
  refine ⟨⟨hin, ?_, ?_, ?_, rfl, rfl⟩, rfl⟩
  · rw [hsum, hpsum, List.sum_append, List.sum_append, List.sum_singleton]
    unfold toInt64
    rw [Int.bmod_add_bmod, ← add_assoc, add_right_comm, Int.add_bmod_bmod, add_right_comm]
  · rw [hlen, hplen, List.length_append, List.length_append, List.length_singleton]
    simp only
    omega
  · rfl

/-- A low sample lengthens a gap that may still be tolerated. -/
theorem Scan.Holds.wait {s : Scan} {seg pend : List ℤ} (h : s.Holds (.running seg pend))
    (on : ℤ) {off p : ℤ} (hp : ¬ off ≤ p) (hgap : ¬ GAP_TOLERANCE_MIN < pend.length + 1) :
    (s.read on off p).Holds (.running seg (pend ++ [p])) ∧ (s.read on off p).st = s.st := by
  obtain ⟨hin, hsum, hlen, hpsum, hplen, hg⟩ := h
  unfold Scan.read
  rw [if_neg (by simp [hin]), if_neg hp, hg, if_neg hgap]
  refine ⟨⟨hin, hsum, hlen, ?_, ?_, ?_⟩, rfl⟩
  · rw [hpsum, List.sum_append, List.sum_singleton]
    unfold toInt64
    rw [Int.bmod_add_bmod]
  · rw [hplen, List.length_append, List.length_singleton]
    simp only
    omega
  · rw [List.length_append, List.length_singleton]

/-- The gap is too long, and the cycle before it is recorded. -/
theorem Scan.Holds.stop {s : Scan} {seg pend : List ℤ} (h : s.Holds (.running seg pend))
    (on : ℤ) {off p : ℤ} (hp : ¬ off ≤ p) (hgap : GAP_TOLERANCE_MIN < pend.length + 1) :
    (s.read on off p).Holds .idle ∧ (s.read on off p).st = recordWrapped s.st seg := by
  obtain ⟨hin, hsum, hlen, -, -, hg⟩ := h
  unfold Scan.read
  rw [if_neg (by simp [hin]), if_neg hp, hg, if_pos hgap, hsum, hlen]
  exact ⟨rfl, rfl⟩

/-- The sums and lengths of `scan_day` follow the scanner, and each of its segments is recorded. -/
theorem finish_foldl (on off : ℤ) {l : List ℤ} (hl : ∀ p ∈ l, IsInt32 p) (s : Scan)
    (state : Segments.State ℤ) (h : s.Holds state) :
    (l.foldl (Scan.read on off) s).finish =
      (Segments.scan (on ≤ ·) (off ≤ ·) GAP_TOLERANCE_MIN state l).foldl recordWrapped s.st := by
  induction l generalizing s state with
  | nil =>
    cases state with
    | idle => exact if_neg (by simp [show s.inCycle = false from h])
    | running seg pend =>
      obtain ⟨hin, hsum, hlen, -⟩ := h
      rw [List.foldl_nil, Scan.finish, if_pos hin, hsum, hlen]
      rfl
  | cons p l ih =>
    rw [List.forall_mem_cons] at hl
    have hp32 : IsInt32 p := hl.1
    rw [List.foldl_cons]
    cases state with
    | idle =>
      have hin : s.inCycle = false := h
      rw [Segments.scan]
      by_cases hp : on ≤ p
      · have hread : s.read on off p =
            { inCycle := true, cycSum := p, cycLen := 1, st := s.st } := by
          unfold Scan.read
          rw [if_pos (by simp [hin]), if_pos hp]
        rw [if_pos hp, hread]
        refine ih hl.2 _ (.running [p] []) ⟨rfl, ?_, rfl, rfl, rfl, rfl⟩
        rw [List.sum_singleton, toInt64_eq (by unfold IsInt32 at hp32; omega)]
      · have hread : s.read on off p = s := by
          unfold Scan.read
          rw [if_pos (by simp [hin]), if_neg hp]
        rw [if_neg hp, hread]
        exact ih hl.2 s .idle h
    | running seg pend =>
      rw [Segments.scan]
      by_cases hp : off ≤ p
      · have hnext := h.resume on hp
        rw [if_pos hp, ih hl.2 _ _ hnext.1, hnext.2]
      · rw [if_neg hp]
        by_cases hgap : GAP_TOLERANCE_MIN < pend.length + 1
        · have hnext := h.stop on hp hgap
          rw [if_pos hgap, ih hl.2 _ _ hnext.1, hnext.2, List.foldl_cons]
        · have hnext := h.wait on hp hgap
          rw [if_neg hgap, ih hl.2 _ _ hnext.1, hnext.2]

/-- `scan_day` records the cycles of the day. -/
theorem scanDay_eq {t : Thresholds} (ht : t.off < t.on) {day : List ℤ}
    (hday : ∀ p ∈ day, IsInt32 p) {cycles : List (List ℤ)} (hcycles : Cycles t day cycles)
    (st : CycleStats) : scanDay t.on t.off st day = cycles.foldl recordWrapped st := by
  rw [(Segments.segmented_iff fun x hx => ht.le.trans hx).mp hcycles]
  exact finish_foldl t.on t.off hday { st := st } .idle rfl

theorem scanDays_eq {t : Thresholds} (ht : t.off < t.on) {days : List (List ℤ)}
    (hdays : ∀ day ∈ days, ∀ p ∈ day, IsInt32 p) {cycles : List (List (List ℤ))}
    (hcycles : List.Forall₂ (Cycles t) days cycles) :
    scanDays t days = cycles.flatten.foldl recordWrapped {} := by
  rw [List.foldl_flatten, scanDays]
  generalize ({} : CycleStats) = st
  induction hcycles generalizing st with
  | nil => rfl
  | cons hday _ ih =>
    rw [List.forall_mem_cons] at hdays
    rw [List.foldl_cons, List.foldl_cons, scanDay_eq ht hdays.1 hday, ih hdays.2]

/-- There are cycles, and only these. -/
theorem exists_cycles {t : Thresholds} (ht : t.off < t.on) (days : List (List ℤ)) :
    ∃ cycles, List.Forall₂ (Cycles t) days cycles ∧
      ∀ cycles', List.Forall₂ (Cycles t) days cycles' → cycles' = cycles := by
  refine ⟨days.map (Segments.scan (t.on ≤ ·) (t.off ≤ ·) GAP_TOLERANCE_MIN .idle), ?_,
    fun cycles' h => ?_⟩
  · rw [List.forall₂_map_right_iff, List.forall₂_same]
    exact fun day _ => (Segments.segmented_iff fun x hx => ht.le.trans hx).mpr rfl
  · induction h with
    | nil => rfl
    | cons hday _ ih =>
      rw [List.map_cons, ih, (Segments.segmented_iff fun x hx => ht.le.trans hx).mp hday]

/-- The cycles of a day have places of their own in its file. -/
theorem Cycles.sublist {t : Thresholds} {day : List ℤ} {cycles : List (List ℤ)}
    (h : Cycles t day cycles) : cycles.flatten.Sublist day := h.flatten_sublist

/-- The cycles of all days have places of their own in the files. -/
theorem flatten_sublist {t : Thresholds} {days : List (List ℤ)} {cycles : List (List (List ℤ))}
    (h : List.Forall₂ (Cycles t) days cycles) :
    cycles.flatten.flatten.Sublist days.flatten := by
  induction h with
  | nil => exact List.Sublist.refl _
  | cons hday _ ih =>
    rw [List.flatten_cons, List.flatten_append, List.flatten_cons]
    exact hday.sublist.append ih

/-- A cycle is no longer than the file of its day. -/
theorem exists_day_of_mem_cycles {t : Thresholds} {days : List (List ℤ)}
    {cycles : List (List (List ℤ))} (h : List.Forall₂ (Cycles t) days cycles) {c : List ℤ}
    (hc : c ∈ cycles.flatten) : ∃ day ∈ days, c.Sublist day := by
  induction h with
  | nil => simp at hc
  | cons hday _ ih =>
    rw [List.flatten_cons, List.mem_append] at hc
    rcases hc with hc | hc
    · exact ⟨_, List.mem_cons_self, (List.sublist_flatten_of_mem hc).trans hday.sublist⟩
    · obtain ⟨day, hmem, hsub⟩ := ih hc
      exact ⟨day, List.mem_cons_of_mem _ hmem, hsub⟩

/-- A sample of a cycle is one of its day. -/
theorem mem_days_of_mem_cycle {t : Thresholds} {days : List (List ℤ)}
    {cycles : List (List (List ℤ))} (h : List.Forall₂ (Cycles t) days cycles) {c : List ℤ}
    (hc : c ∈ cycles.flatten) {p : ℤ} (hp : p ∈ c) : ∃ day ∈ days, p ∈ day := by
  obtain ⟨day, hday, hsub⟩ := exists_day_of_mem_cycles h hc
  exact ⟨day, hday, hsub.subset hp⟩

/-- A cycle counts from five samples on, so there are no more of them than fives of samples. -/
theorem five_mul_length_counted_le {t : Thresholds} {days : List (List ℤ)}
    {cycles : List (List (List ℤ))} (h : List.Forall₂ (Cycles t) days cycles) :
    5 * (counted cycles.flatten).length ≤ days.flatten.length := by
  have hlong : ∀ n ∈ (counted cycles.flatten).map List.length, 5 ≤ n := by
    intro n hn
    obtain ⟨c, hc, rfl⟩ := List.mem_map.mp hn
    exact of_decide_eq_true (List.mem_filter.mp hc).2
  have hsum := List.card_nsmul_le_sum _ _ hlong
  rw [List.length_map, ← List.length_flatten, smul_eq_mul, mul_comm] at hsum
  have hsub : (counted cycles.flatten).flatten.Sublist cycles.flatten.flatten :=
    List.filter_sublist.flatten
  exact hsum.trans (hsub.trans (flatten_sublist h)).length_le

/-! ## The statistics -/

/-- A cycle whose length fits its counter is recorded with its true sum and length. -/
theorem recordWrapped_eq {c : List ℤ} (hc : ∀ p ∈ c, IsInt32 p) (hlength : c.length < 2 ^ 32)
    (st : CycleStats) : recordWrapped st c = recordCycle st c.sum c.length := by
  have hsum : -2 ^ 31 * (c.length : ℤ) ≤ c.sum ∧ c.sum ≤ 2 ^ 31 * c.length := by
    clear hlength
    induction c with
    | nil => simp
    | cons p c ih =>
      rw [List.forall_mem_cons] at hc
      have hp := hc.1
      have hrest := ih hc.2
      unfold IsInt32 at hp
      rw [List.sum_cons, List.length_cons]
      omega
  rw [recordWrapped, Nat.mod_eq_of_lt hlength, toInt64_eq (by omega)]

theorem counted_cons (c : List ℤ) (l : List (List ℤ)) :
    counted (c :: l) = if MIN_CYCLE_MIN ≤ c.length then c :: counted l else counted l := by
  rw [counted, List.filter_cons]
  simp only [decide_eq_true_eq]
  rfl

/-- The sums over some cycles. -/
def statsOf (cycles : List (List ℤ)) : CycleStats where
  count := cycles.length
  sumPow := (powers cycles).sum
  sumsqPow := ((powers cycles).map (· ^ 2)).sum
  sumLen := (lengths cycles).sum
  sumsqLen := ((lengths cycles).map (· ^ 2)).sum

theorem foldl_recordCycle (l : List (List ℤ)) (st : CycleStats) (hst : st.count < 2 ^ 32) :
    l.foldl (fun st c => recordCycle st c.sum c.length) st =
      { count := (st.count + (statsOf (counted l)).count) % 2 ^ 32
        sumPow := st.sumPow + (statsOf (counted l)).sumPow
        sumsqPow := st.sumsqPow + (statsOf (counted l)).sumsqPow
        sumLen := st.sumLen + (statsOf (counted l)).sumLen
        sumsqLen := st.sumsqLen + (statsOf (counted l)).sumsqLen } := by
  induction l generalizing st with
  | nil =>
    have hcount : st.count % 2 ^ 32 = st.count := Nat.mod_eq_of_lt hst
    simp only [counted, statsOf, powers, lengths, List.foldl_nil, List.filter_nil, List.map_nil,
      List.sum_nil, List.length_nil, add_zero, hcount]
  | cons c l ih =>
    rw [List.foldl_cons]
    by_cases hc : MIN_CYCLE_MIN ≤ c.length
    · rw [ih, recordCycle, if_neg (by omega), counted_cons, if_pos hc]
      · simp only [statsOf, powers, lengths, List.map_cons, List.sum_cons, List.length_cons,
          CycleStats.mk.injEq]
        refine ⟨by omega, ?_, ?_, ?_, ?_⟩ <;> ring
      · rw [recordCycle, if_neg (by omega)]
        exact Nat.mod_lt _ (by decide)
    · rw [recordCycle, if_pos (by omega), counted_cons, if_neg hc]
      exact ih st hst

/-- The statistics of the counted cycles, while no counter wraps. -/
theorem foldl_recordWrapped {l : List (List ℤ)} (hl : ∀ c ∈ l, ∀ p ∈ c, IsInt32 p)
    (hcounters : CountersHold l) : l.foldl recordWrapped {} = statsOf (counted l) := by
  have hsame : l.foldl recordWrapped {} =
      l.foldl (fun st c => recordCycle st c.sum c.length) {} :=
    List.foldl_ext _ _ _ fun st c hc => recordWrapped_eq (hl c hc) (hcounters.1 c hc) st
  have hcount : (counted l).length % 2 ^ 32 = (counted l).length :=
    Nat.mod_eq_of_lt hcounters.2
  rw [hsame, foldl_recordCycle l {} (by decide)]
  simp only [zero_add, statsOf, hcount]

/-! ## The profile -/

/-- The variance is not clamped. -/
theorem max_variance (l : List ℚ) :
    (if 0 < (l.map (· ^ 2)).sum / l.length - mean l * mean l then
      (l.map (· ^ 2)).sum / l.length - mean l * mean l else 0) = variance l := by
  have hnonneg := variance_nonneg l
  rw [← variance_eq]
  split
  · rfl
  · linarith

/-- The rounded means and standard deviations of the counted cycles. -/
structure Describes (cycles : List (List ℤ)) (prof : Profile) : Prop where
  avgPower : prof.avgProgramPowerMw = toInt32 (lround (mean (powers cycles)))
  stdPower : prof.stdProgramPowerMw = toInt32 (lroundSqrt (variance (powers cycles)))
  avgLen : prof.avgProgramLenMin = toUint32 (lround (mean (lengths cycles)))
  stdLen : prof.stdProgramLenMin = toUint32 (lroundSqrt (variance (lengths cycles)))

theorem describes_profileOf (now : ℤ) (windowDays : ℕ) (t : Thresholds) (cycles : List (List ℤ))
    (daysWithData : ℕ) :
    Describes cycles (profileOf now windowDays t (statsOf cycles) daysWithData) := by
  have hpowers : (powers cycles).length = (statsOf cycles).count := List.length_map _
  have hlengths : (lengths cycles).length = (statsOf cycles).count := List.length_map _
  have hmeanPow : (statsOf cycles).sumPow / (statsOf cycles).count = mean (powers cycles) := by
    rw [mean, hpowers, statsOf]
  have hmeanLen : (statsOf cycles).sumLen / (statsOf cycles).count = mean (lengths cycles) := by
    rw [mean, hlengths, statsOf]
  have hvarPow := max_variance (powers cycles)
  have hvarLen := max_variance (lengths cycles)
  rw [hpowers] at hvarPow
  rw [hlengths] at hvarLen
  by_cases hcount : 0 < (statsOf cycles).count
  · rw [profileOf, if_pos hcount, hmeanPow, hmeanLen]
    refine ⟨rfl, ?_, rfl, ?_⟩
    · rw [← hvarPow, statsOf]
    · rw [← hvarLen, statsOf]
  · obtain rfl : cycles = [] := List.length_eq_zero_iff.mp (Nat.eq_zero_of_not_pos hcount)
    have hround : lround 0 = 0 := by norm_num [lround]
    have hroot : lroundSqrt 0 = 0 := by norm_num [lroundSqrt]
    rw [profileOf, if_neg hcount]
    refine ⟨?_, ?_, ?_, ?_⟩
    · rw [show powers [] = [] from rfl, mean_nil, hround]
      rfl
    · rw [show powers [] = [] from rfl, variance_nil, hroot]
      rfl
    · rw [show lengths [] = [] from rfl, mean_nil, hround]
      rfl
    · rw [show lengths [] = [] from rfl, variance_nil, hroot]
      rfl

/-! ## The training -/

theorem mem_dayFiles {file : DateStr → Option (List Int32)} {now : ℤ} {windowDays : ℕ}
    {day : List ℤ} (h : day ∈ dayFiles file now windowDays) : ∀ p ∈ day, IsInt32 p := by
  obtain ⟨i, -, hi⟩ := List.mem_filterMap.mp h
  obtain ⟨recs, -, rfl⟩ := Option.map_eq_some_iff.mp hi
  intro p hp
  obtain ⟨x, -, rfl⟩ := List.mem_map.mp hp
  exact ⟨Int32.le_toInt x, Int32.toInt_lt x⟩

/-- What the training of a safe id gives, from the thresholds and the cycles. -/
theorem applianceProfileTrain_eq {file : DateStr → Option (List Int32)} {now : ℤ}
    {windowDays : ℕ} {graphId : List Char} (hid : sanitizeToken graphId = true) {t : Thresholds}
    (ht : t.off < t.on) (hlearn : learn (dayFiles file now windowDays) = some t)
    {cycles : List (List (List ℤ))}
    (hcycles : List.Forall₂ (Cycles t) (dayFiles file now windowDays) cycles) :
    applianceProfileTrain file now windowDays graphId =
      some ((cycles.flatten.foldl recordWrapped {}).count,
        some (profileOf now windowDays t (cycles.flatten.foldl recordWrapped {})
          ((dayFiles file now windowDays).filter (· ≠ [])).length)) := by
  have hscan := scanDays_eq ht (fun day hday => mem_dayFiles hday) hcycles
  rw [applianceProfileTrain, if_neg (by simp [hid]), ← hscan]
  dsimp only
  rw [hlearn, Option.map_some]

/-- What the training should make of the days that have a file. -/
structure Trained (days : List (List ℤ)) (t : Thresholds) (cycles : List (List (List ℤ)))
    (count : ℕ) (prof : Profile) : Prop where
  learned : learn days = some t
  standby : 0 ≤ t.standbyMw
  off : t.standbyMw < t.off
  on : t.off < t.on
  segmented : List.Forall₂ (Cycles t) days cycles
  unique : ∀ cycles', List.Forall₂ (Cycles t) days cycles' → cycles' = cycles
  disjoint : List.Forall₂ (fun day cs => cs.flatten.Sublist day) days cycles
  counts : count = (counted cycles.flatten).length
  described : Describes (counted cycles.flatten) prof
  variances : 0 ≤ variance (powers (counted cycles.flatten)) ∧
    0 ≤ variance (lengths (counted cycles.flatten))

/-- While no counter wraps, the training finds what it should, and what it writes is the profile. -/
theorem exists_trained {file : DateStr → Option (List Int32)} {now : ℤ} {windowDays : ℕ}
    {graphId : List Char} (hid : sanitizeToken graphId = true)
    (hcounters : ∀ t cycles, List.Forall₂ (Cycles t) (dayFiles file now windowDays) cycles →
      CountersHold cycles.flatten) :
    ∃ t cycles count, Trained (dayFiles file now windowDays) t cycles count
        (profileOf now windowDays t (statsOf (counted cycles.flatten))
          ((dayFiles file now windowDays).filter (· ≠ [])).length) ∧
      applianceProfileTrain file now windowDays graphId =
        some (count, some (profileOf now windowDays t (statsOf (counted cycles.flatten))
          ((dayFiles file now windowDays).filter (· ≠ [])).length)) := by
  obtain ⟨t, hlearn, hstandby, hoff, hon⟩ := learn_spec fun day hday => mem_dayFiles hday
  obtain ⟨cycles, hcycles, hunique⟩ := exists_cycles hon (dayFiles file now windowDays)
  have hsamples : ∀ c ∈ cycles.flatten, ∀ p ∈ c, IsInt32 p := by
    intro c hc p hp
    obtain ⟨day, hday, hpd⟩ := mem_days_of_mem_cycle hcycles hc hp
    exact mem_dayFiles hday p hpd
  have htrain := applianceProfileTrain_eq hid hon hlearn hcycles
  rw [foldl_recordWrapped hsamples (hcounters t cycles hcycles)] at htrain
  refine ⟨t, cycles, _, ?_, htrain⟩
  exact
    { learned := hlearn
      standby := hstandby
      off := hoff
      on := hon
      segmented := hcycles
      unique := hunique
      disjoint := hcycles.imp fun _ _ h => h.sublist
      counts := rfl
      described := describes_profileOf _ _ _ _ _
      variances := ⟨variance_nonneg _, variance_nonneg _⟩ }

/-- Fewer than 2^32 samples in all are few enough for the counters. -/
theorem countersHold_of_samples {t : Thresholds} {days : List (List ℤ)}
    {cycles : List (List (List ℤ))} (h : List.Forall₂ (Cycles t) days cycles)
    (hsamples : days.flatten.length < 2 ^ 32) : CountersHold cycles.flatten := by
  have hcounted := five_mul_length_counted_le h
  refine ⟨fun c hc => ?_, by omega⟩
  have hle := ((List.sublist_flatten_of_mem hc).trans (flatten_sublist h)).length_le
  omega

/-- The files of 40 days, of a size that FAT has, are few enough for the counters. -/
theorem countersHold_of_files {t : Thresholds} {days : List (List ℤ)}
    {cycles : List (List (List ℤ))} (h : List.Forall₂ (Cycles t) days cycles)
    (hwindow : days.length ≤ 40) (hsize : ∀ day ∈ days, 8 * day.length < 2 ^ 32) :
    CountersHold cycles.flatten := by
  have hlength : ∀ n ∈ days.map List.length, n ≤ 2 ^ 29 - 1 := by
    intro n hn
    obtain ⟨day, hday, rfl⟩ := List.mem_map.mp hn
    have := hsize day hday
    omega
  have hsum := List.sum_le_card_nsmul _ _ hlength
  rw [List.length_map, ← List.length_flatten, smul_eq_mul] at hsum
  have hcounted := five_mul_length_counted_le h
  refine ⟨fun c hc => ?_, by omega⟩
  obtain ⟨day, hday, hsub⟩ := exists_day_of_mem_cycles h hc
  have hle := hsub.length_le
  have hlt := hsize day hday
  omega

end HomeEnergyManager.ApplianceProfile
