import HomeEnergyManager.Lib.LastWrite
import HomeEnergyManager.PowerLogger.Split
import HomeEnergyManager.Price.Recorder
import HomeEnergyManager.Time.MkTime

/-! # The files of a day

The minute files, the tariff file and the price file of a day, and the minute arrays that
`compute_day_split` loads from them. Files are found by the date token in their name.

Reference: `firmware/main/node_power_logger.cpp`.
-/

namespace HomeEnergyManager.NodePowerLogger

/-- `role` of a stream. -/
inductive Role where
  | grid
  | solar
  | battery
  | load
deriving DecidableEq, Repr

/-- `stream_info_t`; `is_grid` says that the role is `grid`. -/
structure Stream where
  graphId : String
  role : Role
deriving DecidableEq, Repr

/-- `power_record_t`. In a `soc` file the value is in half-percent. -/
structure PowerRecord where
  unixMinute : ℕ
  powerMw : ℤ
deriving DecidableEq, Repr

/-- The files that the costs and splits are computed from. -/
structure Inputs where
  /-- `grid-<date>` -/
  grid : DateStr → Option (List PowerRecord)
  /-- `node-<graph id>-<date>` -/
  node : String → DateStr → Option (List PowerRecord)
  /-- `soc-<graph id>-<date>` -/
  soc : String → DateStr → Option (List PowerRecord)
  /-- `tariff-<date>` -/
  tariff : DateStr → Option TariffDay
  /-- `price-<date>` -/
  price : DateStr → Option TariffDay

/-- `kMaxDayMinutes`: a local day has at most 25 hours. -/
def kMaxDayMinutes : ℕ := 1500

/-- `supplied_mw`: what a device supplies, from its reading. -/
def suppliedMw (rawMw : ℤ) : ℤ := -rawMw

/-- What a load draws, from its reading. -/
def drawn (v : ℤ) : ℚ := if 0 < v then v else 0

theorem drawn_nonneg (v : ℤ) : 0 ≤ drawn v := by
  unfold drawn
  split
  · rename_i h
    exact_mod_cast h.le
  · exact le_rfl

theorem drawn_eq_max (v : ℤ) : drawn v = max (v : ℚ) 0 := by
  unfold drawn
  split
  · rename_i h
    exact (max_eq_left (by exact_mod_cast h.le)).symm
  · rename_i h
    exact (max_eq_right (by exact_mod_cast not_lt.mp h)).symm

/-- `idx` in `load_minutes`; the division of C truncates. -/
def PowerRecord.index (dayStart : ℤ) (rec : PowerRecord) : ℤ := (rec.unixMinute - dayStart).tdiv 60

/-- `load_minutes`: the value of each minute of the day, the last record of a minute winning. -/
def loadMinutes (file : Option (List PowerRecord)) (dayStart fill : ℤ) : Option (ℕ → ℤ) :=
  file.map fun recs (i : ℕ) =>
    LastWrite.cell (fun rec : PowerRecord => rec.index dayStart = i) (·.powerMw) recs fill

/-- The minutes of a node, at rest where its file has none. -/
def nodeMinutes (c : Inputs) (date : DateStr) (dayStart : ℤ) (s : Stream) : ℕ → ℤ :=
  (loadMinutes (c.node s.graphId date) dayStart 0).getD fun _ => 0

/-- `soc`: the first charge file that a battery has. -/
def socMinutes (c : Inputs) (date : DateStr) (dayStart : ℤ) (streams : List Stream) :
    Option (ℕ → ℤ) :=
  (streams.filter (·.role = .battery)).findSome? fun s =>
    loadMinutes (c.soc s.graphId date) dayStart (-1)

/-- What the streams of a role supply together. -/
def suppliedBy (c : Inputs) (date : DateStr) (dayStart : ℤ) (streams : List Stream) (role : Role)
    (i : ℕ) : ℤ :=
  ((streams.filter (·.role = role)).map fun s => suppliedMw (nodeMinutes c date dayStart s i)).sum

/-- The streams that a cost or a split is shared out to. -/
def loadStreams (streams : List Stream) : List Stream := streams.filter (·.role = .load)

/-- The minute arrays that `compute_day_split` loads, besides that of the grid. -/
def dayArrays (c : Inputs) (date : DateStr) (dayStart : ℤ) (streams : List Stream) (grid : ℕ → ℤ) :
    DayArrays :=
  let soc := socMinutes c date dayStart streams
  { haveSoc := soc.isSome
    loadIds := (loadStreams streams).map (·.graphId)
    minutes := (List.range kMaxDayMinutes).map fun i =>
      { grid := grid i
        inv := suppliedBy c date dayStart streams .solar i
        bat := suppliedBy c date dayStart streams .battery i
        soc := soc.elim (-1) fun minutes => minutes i
        loads := (loadStreams streams).map fun s => nodeMinutes c date dayStart s i } }

/-- `compute_day_split`; `none` when it returns false. -/
def computeDaySplit (c : Inputs) (date : DateStr) (streams : List Stream) (start : BatteryLedger) :
    Option DaySplit :=
  (localDayStart date).bind fun dayStart =>
    (loadMinutes (c.grid date) dayStart 0).map fun grid =>
      splitDay (dayArrays c date dayStart streams grid) start

/-- A day can be split exactly when it has a grid file. -/
theorem computeDaySplit_isSome {c : Inputs} {z : ℤ} (h : Dated z) (streams : List Stream)
    (start : BatteryLedger) :
    (computeDaySplit c (dateStr z) streams start).isSome = (c.grid (dateStr z)).isSome := by
  obtain ⟨t, ht, -⟩ := Option.map_eq_some_iff.mp (dayOf_dateStr h)
  unfold computeDaySplit loadMinutes
  rw [ht, Option.bind_some, Option.isSome_map, Option.isSome_map]

theorem exists_computeDaySplit {c : Inputs} {z : ℤ} (h : Dated z)
    (hgrid : (c.grid (dateStr z)).isSome) (streams : List Stream) (start : BatteryLedger) :
    ∃ ds, computeDaySplit c (dateStr z) streams start = some ds := by
  rwa [← Option.isSome_iff_exists, computeDaySplit_isSome h]

theorem computeDaySplit_of_gap {c : Inputs} {z : ℤ} (h : Dated z)
    (hgap : ¬ (c.grid (dateStr z)).isSome) (streams : List Stream) (start : BatteryLedger) :
    computeDaySplit c (dateStr z) streams start = none := by
  rw [← Option.isNone_iff_eq_none, ← Option.isSome_eq_false_iff, computeDaySplit_isSome h]
  exact Bool.eq_false_iff.mpr hgap

/-- A computed split is one of minute arrays with one value for each load and minute. -/
theorem computeDaySplit_eq_splitDay {c : Inputs} {date : DateStr} {streams : List Stream}
    {start : BatteryLedger} {ds : DaySplit} (h : computeDaySplit c date streams start = some ds) :
    ∃ d : DayArrays, d.loadIds = (loadStreams streams).map (·.graphId) ∧
      (∀ m ∈ d.minutes, m.loads.length = d.loadIds.length) ∧ ds = splitDay d start := by
  unfold computeDaySplit at h
  obtain ⟨dayStart, -, h⟩ := Option.bind_eq_some_iff.mp h
  obtain ⟨grid, -, rfl⟩ := Option.map_eq_some_iff.mp h
  refine ⟨dayArrays c date dayStart streams grid, rfl, fun m hm => ?_, rfl⟩
  dsimp only [dayArrays] at hm ⊢
  obtain ⟨i, -, rfl⟩ := List.mem_map.mp hm
  rw [List.length_map, List.length_map]

/-- The minute loop keeps one total for each load. -/
theorem foldl_splitMinute_length {haveSoc : Bool} {n : ℕ} {ms : List Minute}
    (hms : ∀ m ∈ ms, m.loads.length = n) {st : SplitState}
    (hst : st.shares.loadSolar.length = n ∧ st.shares.loadGrid.length = n) :
    (ms.foldl (splitMinute haveSoc) st).shares.loadSolar.length = n ∧
      (ms.foldl (splitMinute haveSoc) st).shares.loadGrid.length = n := by
  induction ms generalizing st with
  | nil => exact hst
  | cons m ms ih =>
    rw [List.forall_mem_cons] at hms
    apply ih hms.2
    show (shareMinute m st.ledger.L st.shares).loadSolar.length = n ∧
      (shareMinute m st.ledger.L st.shares).loadGrid.length = n
    unfold shareMinute
    split
    · dsimp only [addLoads]
      rw [List.length_zipWith, List.length_zipWith, hst.1, hst.2, hms.1, Nat.min_self]
      exact ⟨rfl, rfl⟩
    · exact hst

/-- A split names the loads, in their order, and then the remainder. -/
theorem splitDay_wh_ids {d : DayArrays} (hd : ∀ m ∈ d.minutes, m.loads.length = d.loadIds.length)
    (start : BatteryLedger) :
    (splitDay d start).wh.map Prod.fst = d.loadIds ++ [UNMONITORED_KEY] := by
  have hstart : (splitStart d start).shares.loadSolar.length = d.loadIds.length ∧
      (splitStart d start).shares.loadGrid.length = d.loadIds.length :=
    ⟨List.length_map _, List.length_map _⟩
  obtain ⟨hsolar, hgrid⟩ := foldl_splitMinute_length hd hstart
  unfold splitDay
  rw [List.map_append, List.map_fst_zip]
  · rfl
  · rw [List.length_zip, hsolar, hgrid, Nat.min_self]

end HomeEnergyManager.NodePowerLogger
