import HomeEnergyManager.Lib.Breaks
import HomeEnergyManager.PowerLogger.Health

/-! # The chart of a day's power

The page draws the records of a minute file as lines that it breaks where minutes are missing, and
marks the missing ones in red.

Reference: `firmware/html_app/src/Power.tsx`, `firmware/main/node_power_logger.cpp`.
-/

namespace HomeEnergyManager.PowerChart

open NodePowerLogger (PowerRecord Inputs sanitizeToken Recorded)
open Breaks (pairs ends split broken_split)

/-- `PowerRecord` of the page. -/
structure ChartRecord where
  minute : ℤ
  powerW : ℚ
deriving DecidableEq, Repr

/-- `node_power_logger_day_json`. -/
def nodePowerLoggerDayJson (c : Inputs) (node date : List Char) : List ChartRecord :=
  if sanitizeToken node && sanitizeToken date then
    ((c.node (String.ofList node) date).getD []).map fun rec =>
      { minute := rec.unixMinute, powerW := (rec.powerMw : ℚ) / 1000 }
  else []

def GAP_THRESHOLD_S : ℤ := 90

/-- Two records with a minute missing between them. -/
def IsApart (a b : ChartRecord) : Prop := GAP_THRESHOLD_S < b.minute - a.minute

instance : DecidableRel IsApart := fun a b =>
  inferInstanceAs (Decidable (GAP_THRESHOLD_S < b.minute - a.minute))

/-- `segments`. -/
def segments (records : List ChartRecord) : List (List ChartRecord) := split IsApart records

/-- An entry of `noData`. -/
structure Span where
  fromT : ℤ
  toT : ℤ
deriving DecidableEq, Repr

/-- `noData`: before the first record, between the segments and after the last record, in the window
from `minT` to `maxT`. -/
def noData (minT maxT : ℤ) (records : List ChartRecord) : List Span :=
  match records.head?, records.getLast? with
  | some first, some last =>
    (if GAP_THRESHOLD_S < first.minute - minT then [⟨minT, first.minute⟩] else [])
      ++ (ends (segments records)).map (fun p => ⟨p.1.minute, p.2.minute⟩)
      ++ if GAP_THRESHOLD_S < maxT - last.minute then [⟨last.minute, maxT⟩] else []
  | _, _ => []

/-- The lines draw every record once, and none of them crosses a missing minute. -/
theorem segments_spec (records : List ChartRecord) :
    (segments records).flatten = records ∧
      ∀ line ∈ segments records, ∀ p ∈ pairs line, p.2.minute - p.1.minute ≤ GAP_THRESHOLD_S := by
  constructor
  · exact (broken_split records).flatten
  · intro line hline p hp
    exact not_lt.mp ((broken_split records).whole line hline p hp)

/-! ## What is marked -/

/-- The window and the minutes of the records. -/
def marks (minT maxT : ℤ) (records : List ChartRecord) : List ℤ :=
  minT :: (records.map (·.minute) ++ [maxT])

theorem pairs_marks {minT maxT : ℤ} {records : List ChartRecord} {first last : ChartRecord}
    (hfirst : records.head? = some first) (hlast : records.getLast? = some last) :
    pairs (marks minT maxT records)
      = (minT, first.minute) :: ((pairs records).map (fun p => (p.1.minute, p.2.minute))
          ++ [(last.minute, maxT)]) := by
  have hconcat : pairs (records.map (·.minute) ++ [maxT])
      = (pairs records).map (fun p => (p.1.minute, p.2.minute)) ++ [(last.minute, maxT)] := by
    obtain ⟨c, rfl⟩ := List.getLast?_eq_some_iff.mp hlast
    rw [List.map_append, List.map_singleton, Breaks.pairs_concat, ← List.map_singleton,
      ← List.map_append, Breaks.pairs_map]
  obtain ⟨rest, rfl⟩ := List.head?_eq_some_iff.mp hfirst
  rw [← hconcat]
  rfl

/-- The red spans are the neighbouring marks that are too far apart. -/
theorem noData_eq {records : List ChartRecord} (hne : records ≠ []) (minT maxT : ℤ) :
    noData minT maxT records
      = ((pairs (marks minT maxT records)).filter fun p => GAP_THRESHOLD_S < p.2 - p.1).map
          fun p => ⟨p.1, p.2⟩ := by
  have hfirst := List.head?_eq_some_head hne
  have hlast := List.getLast?_eq_some_getLast hne
  have hmiddle : (ends (segments records)).map (fun p => (⟨p.1.minute, p.2.minute⟩ : Span))
      = (((pairs records).map fun p => (p.1.minute, p.2.minute)).filter
          fun p => GAP_THRESHOLD_S < p.2 - p.1).map fun p => ⟨p.1, p.2⟩ := by
    rw [segments, (broken_split records).ends, List.filter_map, List.map_map]
    rfl
  have hone : ∀ a b : ℤ, (if GAP_THRESHOLD_S < b - a then [(⟨a, b⟩ : Span)] else [])
      = ([(a, b)].filter fun p => GAP_THRESHOLD_S < p.2 - p.1).map fun p => ⟨p.1, p.2⟩ := by
    intro a b
    by_cases h : GAP_THRESHOLD_S < b - a
    · rw [if_pos h, List.filter_cons_of_pos (by simpa using h)]
      rfl
    · rw [if_neg h, List.filter_cons_of_neg (by simpa using h)]
      rfl
  rw [noData, hfirst, hlast, pairs_marks hfirst hlast]
  dsimp only
  rw [hone, hone, hmiddle, ← List.map_append, ← List.map_append, ← List.filter_append,
    ← List.filter_append]
  rfl

theorem mem_noData {records : List ChartRecord} (hne : records ≠ []) {minT maxT : ℤ} {g : Span} :
    g ∈ noData minT maxT records ↔
      (g.fromT, g.toT) ∈ pairs (marks minT maxT records) ∧ GAP_THRESHOLD_S < g.toT - g.fromT := by
  rw [noData_eq hne, List.mem_map]
  constructor
  · rintro ⟨p, hp, rfl⟩
    simpa using List.mem_filter.mp hp
  · rintro ⟨hp, hgap⟩
    exact ⟨(g.fromT, g.toT), List.mem_filter.mpr ⟨hp, by simpa using hgap⟩, rfl⟩

/-- The minute that begins at `t` is marked in red. -/
def IsMarked (spans : List Span) (t : ℤ) : Prop := ∃ g ∈ spans, g.fromT ≤ t ∧ t + 60 ≤ g.toT

instance (spans : List Span) (t : ℤ) : Decidable (IsMarked spans t) :=
  inferInstanceAs (Decidable (∃ g ∈ spans, g.fromT ≤ t ∧ t + 60 ≤ g.toT))

section Marked

variable {records : List ChartRecord} {minT maxT t : ℤ}

/-- The records are of whole minutes, in order, and none is from before the window. -/
structure InOrder (minT : ℤ) (records : List ChartRecord) : Prop where
  aligned : 60 ∣ minT ∧ ∀ r ∈ records, 60 ∣ r.minute
  sorted : (minT :: records.map (·.minute)).Pairwise (· ≤ ·)

theorem InOrder.dvd_of_mem (h : InOrder minT records) (maxT : ℤ) {a : ℤ}
    (ha : a ∈ marks minT maxT records) : 60 ∣ a ∨ a = maxT := by
  rcases List.mem_cons.mp ha with rfl | hin
  · exact .inl h.aligned.1
  · rcases List.mem_append.mp hin with hrec | hmax
    · obtain ⟨r, hr, rfl⟩ := List.mem_map.mp hrec
      exact .inl (h.aligned.2 r hr)
    · exact .inr (List.mem_singleton.mp hmax)

/-- A missing minute is marked, unless it is the first one and the second is there. -/
theorem isMarked_of_missing (h : InOrder minT records) (ht : 60 ∣ t) (hlow : minT ≤ t)
    (hhigh : t + 60 ≤ maxT) (hne : records ≠ []) (hmissing : ∀ r ∈ records, r.minute ≠ t)
    (hnext : t = minT → ∀ r ∈ records, r.minute ≠ minT + 60) :
    IsMarked (noData minT maxT records) t := by
  obtain ⟨⟨a, b⟩, hp, ha, hb⟩ := Breaks.exists_pair (l := records.map (·.minute) ++ [maxT]) hlow
    ⟨maxT, by simp, by omega⟩
  dsimp only at ha hb
  obtain ⟨hamem, hbmem⟩ := Breaks.mem_of_mem_pairs hp
  have hadvd := (h.dvd_of_mem maxT hamem).resolve_right (by omega)
  have hb60 : t + 60 ≤ b := by
    have := h.dvd_of_mem maxT (List.mem_of_mem_tail hbmem)
    omega
  refine ⟨⟨a, b⟩, (mem_noData hne).mpr ⟨hp, ?_⟩, ha, hb60⟩
  unfold GAP_THRESHOLD_S
  dsimp only
  rcases ha.lt_or_eq with hlt | rfl
  · omega
  · -- only the window can begin where no record is
    rcases Breaks.mem_pairs_cons hp with ⟨b', hb', heq⟩ | hin
    · obtain ⟨rfl, rfl⟩ := Prod.mk.inj heq
      obtain ⟨first, rest, rfl⟩ := List.exists_cons_of_ne_nil hne
      obtain rfl : first.minute = b := Option.some_inj.mp hb'
      have hfirst := h.aligned.2 first List.mem_cons_self
      have hskip := hnext rfl first List.mem_cons_self
      omega
    · rcases List.mem_append.mp (Breaks.mem_of_mem_pairs hin).1 with hrec | hmax
      · obtain ⟨r, hr, hra⟩ := List.mem_map.mp hrec
        exact absurd hra (hmissing r hr)
      · have := List.mem_singleton.mp hmax
        omega

/-- The first minute alone is too short a gap. -/
theorem not_isMarked_first (h : InOrder minT records) (hhigh : minT + 60 ≤ maxT)
    (hmissing : ∀ r ∈ records, r.minute ≠ minT)
    (hnext : ∃ r ∈ records, r.minute = minT + 60) :
    ¬ IsMarked (noData minT maxT records) minT := by
  obtain ⟨r, hr, hrt⟩ := hnext
  rintro ⟨⟨a, b⟩, hg, ha, hb⟩
  obtain ⟨hp, hgap⟩ := (mem_noData (List.ne_nil_of_mem hr)).mp hg
  unfold GAP_THRESHOLD_S at hgap
  dsimp only at ha hb hp hgap
  obtain ⟨hmin, hsorted⟩ := List.pairwise_cons.mp h.sorted
  rcases Breaks.mem_pairs_cons hp with ⟨b', hb', heq⟩ | hin
  · obtain ⟨rfl, rfl⟩ := Prod.mk.inj heq
    obtain ⟨first, rest, rfl⟩ := List.exists_cons_of_ne_nil (List.ne_nil_of_mem hr)
    obtain rfl : first.minute = b := Option.some_inj.mp hb'
    have hle : first.minute ≤ r.minute := by
      rcases List.mem_cons.mp hr with rfl | hrest
      · exact le_rfl
      · exact (List.pairwise_cons.mp hsorted).1 _ (List.mem_map_of_mem hrest)
    omega
  · rcases List.mem_append.mp (Breaks.mem_of_mem_pairs hin).1 with hrec | hmax
    · obtain ⟨r', hr', rfl⟩ := List.mem_map.mp hrec
      have hle := hmin r'.minute hrec
      exact hmissing r' hr' (le_antisymm ha hle)
    · have := List.mem_singleton.mp hmax
      omega

/-- Nothing is red without a minute that is missing. -/
theorem exists_missing (h : InOrder minT records) {g : Span} (hg : g ∈ noData minT maxT records) :
    ∃ t, 60 ∣ t ∧ minT ≤ t ∧ g.fromT ≤ t ∧ t < g.toT ∧ ∀ r ∈ records, r.minute ≠ t := by
  have hne : records ≠ [] := by
    rintro rfl
    exact absurd hg List.not_mem_nil
  obtain ⟨hp, hgap⟩ := (mem_noData hne).mp hg
  unfold GAP_THRESHOLD_S at hgap
  obtain ⟨hfrom, hbetween⟩ := Breaks.le_or_ge_of_mem_pairs_concat h.sorted hp
  have hdvd : 60 ∣ g.fromT := by
    rcases List.mem_cons.mp hfrom with heq | hrec
    · exact heq ▸ h.aligned.1
    · obtain ⟨r, hr, hrt⟩ := List.mem_map.mp hrec
      exact hrt ▸ h.aligned.2 r hr
  have hlow : minT ≤ g.fromT := by
    rcases List.mem_cons.mp hfrom with heq | hrec
    · exact heq.ge
    · exact (List.pairwise_cons.mp h.sorted).1 _ hrec
  by_cases hrec : ∃ r ∈ records, r.minute = g.fromT
  · refine ⟨g.fromT + 60, by omega, by omega, by omega, by omega, ?_⟩
    intro r hr
    have := hbetween r.minute (List.mem_cons_of_mem _ (List.mem_map_of_mem hr))
    omega
  · push Not at hrec
    exact ⟨g.fromT, hdvd, hlow, le_rfl, by omega, hrec⟩

end Marked

/-! ## The chart and the files -/

section File

variable {c : Inputs} {node date : List Char} {dayStart maxT : ℤ}

/-- The chart has a record for a minute exactly when the file has. -/
theorem exists_minute_iff (hnode : sanitizeToken node = true) (hdate : sanitizeToken date = true)
    (h : InOrder dayStart (nodePowerLoggerDayJson c node date)) (i : ℕ) :
    (∃ r ∈ nodePowerLoggerDayJson c node date, r.minute = dayStart + 60 * i) ↔
      Recorded (c.node (String.ofList node) date) dayStart i := by
  have hjson : nodePowerLoggerDayJson c node date
      = ((c.node (String.ofList node) date).getD []).map fun rec =>
          { minute := rec.unixMinute, powerW := (rec.powerMw : ℚ) / 1000 } := by
    rw [nodePowerLoggerDayJson, hnode, hdate]
    rfl
  have hstart : ∀ rec ∈ (c.node (String.ofList node) date).getD [],
      dayStart ≤ rec.unixMinute ∧ (60 : ℤ) ∣ rec.unixMinute := by
    intro rec hrec
    rw [hjson] at h
    have hmem := List.mem_map_of_mem (f := fun rec : PowerRecord =>
      ({ minute := rec.unixMinute, powerW := (rec.powerMw : ℚ) / 1000 } : ChartRecord)) hrec
    exact ⟨(List.pairwise_cons.mp h.sorted).1 _ (List.mem_map_of_mem hmem), h.aligned.2 _ hmem⟩
  have hday := h.aligned.1
  rw [hjson]
  constructor
  · rintro ⟨r, hr, hri⟩
    obtain ⟨rec, hrec, rfl⟩ := List.mem_map.mp hr
    refine ⟨rec, hrec, ?_⟩
    dsimp only at hri
    rw [PowerRecord.index, hri, add_sub_cancel_left, Int.mul_tdiv_cancel_left _ (by decide)]
  · rintro ⟨rec, hrec, hidx⟩
    refine ⟨_, List.mem_map_of_mem hrec, ?_⟩
    obtain ⟨hle, hdvd⟩ := hstart rec hrec
    rw [PowerRecord.index, Int.tdiv_eq_ediv_of_nonneg (by omega)] at hidx
    dsimp only
    omega

/-- Every minute of the day that the file has no record for is marked in the chart, except the first
one when the second one is there; and nothing is marked where no minute is missing. -/
theorem chart_marks_missing (hnode : sanitizeToken node = true) (hdate : sanitizeToken date = true)
    (h : InOrder dayStart (nodePowerLoggerDayJson c node date))
    (hne : nodePowerLoggerDayJson c node date ≠ []) (maxT : ℤ) :
    (∀ i : ℕ, dayStart + 60 * (i + 1) ≤ maxT →
      ¬ Recorded (c.node (String.ofList node) date) dayStart i →
      (IsMarked (noData dayStart maxT (nodePowerLoggerDayJson c node date)) (dayStart + 60 * i) ↔
        ¬ (i = 0 ∧ Recorded (c.node (String.ofList node) date) dayStart 1))) ∧
    ∀ g ∈ noData dayStart maxT (nodePowerLoggerDayJson c node date),
      ∃ i : ℕ, g.fromT ≤ dayStart + 60 * i ∧ dayStart + 60 * i < g.toT ∧
        ¬ Recorded (c.node (String.ofList node) date) dayStart i := by
  have hday := h.aligned.1
  constructor
  · intro i hi hmissing
    rw [← exists_minute_iff hnode hdate h] at hmissing ⊢
    push Not at hmissing
    constructor
    · rintro hmarked ⟨rfl, hnext⟩
      simp only [Nat.cast_zero, mul_zero, add_zero, Nat.cast_one, mul_one] at hmarked hmissing hnext
      exact not_isMarked_first h (by omega) hmissing hnext hmarked
    · intro hnot
      refine isMarked_of_missing h (by omega) (by omega) (by omega) hne hmissing ?_
      intro heq r hr hrt
      obtain rfl : i = 0 := by omega
      exact hnot ⟨rfl, r, hr, by simpa using hrt⟩
  · intro g hg
    obtain ⟨t, hdvd, hlow, hfrom, hto, hmissing⟩ := exists_missing h hg
    obtain ⟨i, rfl⟩ : ∃ i : ℕ, t = dayStart + 60 * i := ⟨((t - dayStart) / 60).toNat, by omega⟩
    refine ⟨i, hfrom, hto, ?_⟩
    rw [← exists_minute_iff hnode hdate h]
    push Not
    exact hmissing

/-- The third minute of the cooker is missing. -/
theorem chart_marks_missing_cooker :
    IsMarked
      (noData 1704153600 1704153960
        (nodePowerLoggerDayJson NodePowerLogger.cookerFile.toInputs "cooker".toList
          "2024-01-02".toList))
      (1704153600 + 60 * (2 : ℕ)) := by
  have horder : InOrder 1704153600 (nodePowerLoggerDayJson NodePowerLogger.cookerFile.toInputs
      "cooker".toList "2024-01-02".toList) := ⟨by decide, by decide⟩
  refine ((chart_marks_missing (by decide) (by decide) horder (fun h => nomatch h)
    1704153960).1 2 (by decide) (by decide)).mpr ?_
  rintro ⟨h, -⟩
  exact absurd h (by decide)

end File

end HomeEnergyManager.PowerChart
