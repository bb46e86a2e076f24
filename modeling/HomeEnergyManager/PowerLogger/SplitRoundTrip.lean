import HomeEnergyManager.PowerLogger.StartLedger

/-! # Cached splits read back

`write_split_cache` prints two objects that list the entries of a split in the same order, and
`read_split_cache` joins them by name. The remainder shares these names with the loads, and only the
reader has a limit on the text.

Reference: `firmware/main/node_power_logger.cpp`.
-/

namespace HomeEnergyManager.NodePowerLogger

/-- Entries of one name have the same grid energy. -/
def GridByName (wh : List (String × ℚ × ℚ)) : Prop :=
  ∀ w ∈ wh, ∀ w' ∈ wh, w.1 = w'.1 → w.2.2 = w'.2.2

instance (wh : List (String × ℚ × ℚ)) : Decidable (GridByName wh) :=
  inferInstanceAs (Decidable (∀ w ∈ wh, ∀ w' ∈ wh, w.1 = w'.1 → w.2.2 = w'.2.2))

/-- The grid energy that an entry reads back with: that of the first entry of its name. -/
def readGrid (wh : List (String × ℚ × ℚ)) (name : String) : ℚ :=
  (wh.find? (·.1 == name)).elim 0 (·.2.2)

theorem readGrid_eq {wh : List (String × ℚ × ℚ)} {w : String × ℚ × ℚ} (hw : w ∈ wh) :
    ∃ v ∈ wh, v.1 = w.1 ∧ readGrid wh w.1 = v.2.2 := by
  unfold readGrid
  cases hfind : wh.find? (·.1 == w.1) with
  | none => exact absurd (beq_self_eq_true w.1) (List.find?_eq_none.mp hfind w hw)
  | some v =>
    have hname := List.find?_some hfind
    exact ⟨v, List.mem_of_find?_eq_some hfind, eq_of_beq hname, rfl⟩

/-- Every entry reads back with its own grid energy exactly if a name has only one. -/
theorem readGrid_own_iff (wh : List (String × ℚ × ℚ)) :
    (∀ w ∈ wh, readGrid wh w.1 = w.2.2) ↔ GridByName wh := by
  constructor
  · intro h w hw w' hw' hname
    rw [← h w hw, ← h w' hw', hname]
  · intro h w hw
    obtain ⟨v, hv, hname, hread⟩ := readGrid_eq hw
    rw [hread]
    exact h v hv w hw hname

/-- Reading scales a printed energy back. -/
theorem DaySplit.doc_read_wh (ds : DaySplit) :
    ds.doc.read.wh = ds.wh.map fun w => (w.1, w.2.1, readGrid ds.wh w.1) := by
  have hscale : ∀ e : ℚ, e / 1000 * 1000 = e := fun e => div_mul_cancel₀ e (by norm_num)
  show List.map _ (List.map _ ds.wh) = _
  rw [List.map_map]
  refine List.map_congr_left fun w _ => ?_
  show (w.1, w.2.1 / 1000 * 1000, (ds.doc.gridKwh.find? (·.1 == w.1)).elim 0 (·.2) * 1000) = _
  rw [hscale]
  refine congrArg (fun g => (w.1, w.2.1, g)) ?_
  unfold DaySplit.doc readGrid
  dsimp only
  rw [List.find?_map]
  show ((ds.wh.find? (·.1 == w.1)).map fun w => (w.1, w.2.2 / 1000)).elim 0 (·.2) * 1000 = _
  cases ds.wh.find? (·.1 == w.1) with
  | none => exact zero_mul 1000
  | some v => exact hscale v.2.2

/-- Without the limit of the reader, a split reads back exactly if no name has two grid energies. -/
theorem DaySplit.read_doc_iff {ds : DaySplit} (hinv : ds.endLedger.Inv) :
    ds.doc.read.core = ds.core ↔ GridByName ds.wh := by
  rw [← readGrid_own_iff]
  have hcore : ds.doc.read.core = ds.core ↔ ds.doc.read.wh = ds.wh := by
    unfold DaySplit.core
    rw [DaySplit.endLedger_read_doc hinv.unknown_zero, Prod.mk.injEq]
    exact and_iff_left rfl
  rw [hcore, DaySplit.doc_read_wh]
  conv_lhs => rhs; rw [← List.map_id ds.wh]
  rw [List.map_inj_left]
  refine forall₂_congr fun w _ => ⟨fun h => ?_, fun h => ?_⟩
  · exact congrArg (fun w : String × ℚ × ℚ => w.2.2) h
  · exact congrArg (fun g => (w.1, w.2.1, g)) h

/-- Of distinct graph ids, only the one that is also the key of the remainder can have two. -/
theorem gridByName_iff {wh : List (String × ℚ × ℚ)} {ids : List String} (hids : ids.Nodup)
    (hwh : wh.map Prod.fst = ids ++ [UNMONITORED_KEY]) :
    GridByName wh ↔ ∀ w ∈ wh, ∀ w' ∈ wh,
      w.1 = UNMONITORED_KEY → w'.1 = UNMONITORED_KEY → w.2.2 = w'.2.2 := by
  constructor
  · intro h w hw w' hw' hname hname'
    exact h w hw w' hw' (hname.trans hname'.symm)
  · intro h w hw w' hw' hname
    by_cases hkey : w.1 = UNMONITORED_KEY
    · exact h w hw w' hw' hkey (hname ▸ hkey)
    -- the other names stand once, and before the last entry
    · obtain ⟨loads, rest, rfl, hloads, hrest⟩ := List.map_eq_append_iff.mp hwh
      have hload : ∀ v ∈ loads ++ rest, v.1 ≠ UNMONITORED_KEY → v ∈ loads := by
        intro v hv hne
        refine (List.mem_append.mp hv).resolve_right fun hv' => hne ?_
        have hmem := List.mem_map_of_mem (f := Prod.fst) hv'
        rwa [hrest, List.mem_singleton] at hmem
      rw [List.inj_on_of_nodup_map (hloads ▸ hids) (hload w hw hkey)
        (hload w' hw' fun h' => hkey (hname.trans h')) hname]

/-- For streams with distinct graph ids and a start ledger that keeps the invariant: a computed
split that is written reads back as the same energies and end ledger exactly if its text fits the
reader and a load that is called like the remainder has the grid energy of the remainder. -/
theorem split_cache_round_trip_iff (len : TextLength) (c : Card) {streams : List Stream}
    (hids : ((loadStreams streams).map (·.graphId)).Nodup) {date : DateStr} {start : BatteryLedger}
    (hstart : start.Inv) {ds : DaySplit}
    (hds : computeDaySplit c.toInputs date streams start = some ds) :
    (readSplitCache len (writeSplitCache date ds c) date).map (·.core) = some ds.core ↔
      readable (len.split ds.doc) = true ∧
        ∀ w ∈ ds.wh, ∀ w' ∈ ds.wh,
          w.1 = UNMONITORED_KEY → w'.1 = UNMONITORED_KEY → w.2.2 = w'.2.2 := by
  obtain ⟨d, hd, hlen, rfl⟩ := computeDaySplit_eq_splitDay hds
  have hinv : (splitDay d start).endLedger.Inv := by
    rw [splitDay_endLedger]
    exact endLedger_inv _ _ hstart
  have hwh : (splitDay d start).wh.map Prod.fst
      = (loadStreams streams).map (·.graphId) ++ [UNMONITORED_KEY] := by
    rw [splitDay_wh_ids hlen, hd]
  rw [← gridByName_iff hids hwh, ← DaySplit.read_doc_iff hinv]
  unfold readSplitCache
  rw [split_writeSplitCache, if_pos rfl, Option.bind_some]
  split
  · rename_i hfits
    rw [Option.map_some, Option.some.injEq]
    exact (and_iff_right hfits).symm
  · rename_i hlong
    exact iff_of_false nofun fun h => hlong h.1

/-- Midnight of 1 January 2024. The grid gives 180 W and a load takes 60 W for a minute. -/
def newYearCard : Card :=
  { grid := fun _ => some [{ unixMinute := 1704067200, powerMw := 180000 }]
    node := fun _ _ => some [{ unixMinute := 1704067200, powerMw := 60000 }]
    soc := fun _ _ => none
    tariff := fun _ => none
    price := fun _ => none }

/-- The split of the day, for a load of the given id. -/
def newYearSplit (id : String) : DaySplit :=
  { wh := [(id, 0, 1), (UNMONITORED_KEY, 0, 2)]
    endLedger := .unknown
    hourly := List.replicate 25 .unknown }

/-- The split with a heater reads back. -/
theorem split_cache_round_trip_heater :
    (readSplitCache shortTexts (writeSplitCache "2024-01-01".toList (newYearSplit "heater")
      newYearCard) "2024-01-01".toList).map (·.core) = some (newYearSplit "heater").core := by
  have hds : computeDaySplit newYearCard.toInputs "2024-01-01".toList [⟨"heater", .load⟩] .unknown
      = some (newYearSplit "heater") := by decide +kernel
  exact (split_cache_round_trip_iff shortTexts newYearCard (by decide) BatteryLedger.inv_unknown
    hds).mpr ⟨by decide, by decide +kernel⟩

/-- A load called like the remainder gives it its own grid energy. -/
theorem split_cache_mixes_up_unmonitored :
    ¬ ∀ (len : TextLength) (c : Card) (streams : List Stream) (date : DateStr)
      (start : BatteryLedger) (ds : DaySplit),
      ((loadStreams streams).map (·.graphId)).Nodup → start.Inv →
      computeDaySplit c.toInputs date streams start = some ds →
        (readSplitCache len (writeSplitCache date ds c) date).map (·.core) = some ds.core := by
  intro h
  have hds : computeDaySplit newYearCard.toInputs "2024-01-01".toList
      [⟨UNMONITORED_KEY, .load⟩] .unknown = some (newYearSplit UNMONITORED_KEY) := by
    decide +kernel
  have hread := h shortTexts newYearCard [⟨UNMONITORED_KEY, .load⟩] "2024-01-01".toList .unknown
    (newYearSplit UNMONITORED_KEY) (by decide) BatteryLedger.inv_unknown hds
  exact absurd hread (by decide +kernel)

end HomeEnergyManager.NodePowerLogger
