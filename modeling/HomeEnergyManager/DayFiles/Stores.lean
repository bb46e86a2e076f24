import HomeEnergyManager.DayFiles.Derived

/-! # What is computed and then stored

A file that a task has computed is right as long as what it is made from has not changed. Storing a
file that is right changes derived files only, and leaves them in agreement with what they are made
from.
-/

namespace HomeEnergyManager.DayFiles

open NodePowerLogger

/-! ## A file that is held -/

namespace Target

/-- The file of the day is among those that are held. -/
def Holds : (t : Target) → t.Value → Derived → DateStr → Prop
  | nodeHourly date, files, k, d => (∃ id, k = .nodeHourly id ∧ (files id).isSome) ∧ d = date
  | gridHourly date, _, k, d => k = .gridHourly ∧ d = date
  | cost date, _, k, d => k = .cost ∧ d = date
  | split date _, _, k, d => k = .split ∧ d = date

/-- What is held is what would be computed now. -/
def Right (streams : List Stream) (c : Card) : (t : Target) → t.Value → Prop
  | nodeHourly date, files => ∀ id, ∀ recs ∈ files id, (c.node id date).map rollup = some recs
  | gridHourly date, recs => (c.grid date).map rollup = some recs
  | cost date, dc => computeDayCost c.toInputs date streams = some dc
  | split date start, ds =>
    (date, start) ∈ c.starts ∧ computeDaySplit c.toInputs date streams start = some ds

theorem Holds.date_eq {t : Target} {v : t.Value} {k : Derived} {d : DateStr} (h : t.Holds v k d) :
    d = t.date := by
  cases t <;> exact h.2

theorem note_toInputs (t : Target) (c : Card) : (t.note c).toInputs = c.toInputs := by
  cases t <;> rfl

theorem mem_starts_note {t : Target} {c : Card} {p : DateStr × BatteryLedger} (h : p ∈ c.starts) :
    p ∈ (t.note c).starts := by
  cases t with
  | split date start => exact List.mem_append_left _ h
  | nodeHourly date | gridHourly date | cost date => exact h

theorem sameFile_note (t : Target) (c : Card) (k : Derived) (d : DateStr) :
    k.SameFile c (t.note c) d := by
  cases t <;> cases k <;> rfl

/-- A file of a node that is computed is made from the records of the node. -/
theorem node_of_compute {streams : List Stream} {c : Card} {date : DateStr} {id : String}
    {files : String → Option (List PowerRecord)}
    (h : compute streams c (nodeHourly date) = some files) {recs : List PowerRecord}
    (hrecs : files id = some recs) : (c.node id date).map rollup = some recs := by
  rw [compute] at h
  split at h
  · obtain rfl := Option.some.inj h
    dsimp only at hrecs
    split at hrecs
    · exact hrecs
    · contradiction
  · contradiction

/-- What has just been computed is right. -/
theorem right_of_compute {streams : List Stream} {c : Card} {t : Target} {v : t.Value}
    (h : t.compute streams c = some v) : t.Right streams (t.note c) v := by
  cases t with
  | nodeHourly date => exact fun id recs hrecs => node_of_compute h hrecs
  | gridHourly date | cost date => exact h
  | split date start => exact ⟨List.mem_append_right _ (List.mem_singleton_self _), h⟩

/-- It stays right while what it is made from does not change. -/
theorem Right.congr {streams : List Stream} {c c' : Card} {t : Target} {v : t.Value}
    (h : t.Right streams c v) (hinputs : ∀ k d, t.Holds v k d → k.SameInputs c c' d)
    (hstarts : ∀ p ∈ c.starts, p ∈ c'.starts) : t.Right streams c' v := by
  cases t with
  | nodeHourly date =>
    intro id recs hrecs
    have hheld : (nodeHourly date).Holds v (.nodeHourly id) date :=
      ⟨⟨id, rfl, Option.isSome_iff_exists.mpr ⟨recs, hrecs⟩⟩, rfl⟩
    rw [show c'.node id date = c.node id date from hinputs _ _ hheld]
    exact h id recs hrecs
  | gridHourly date =>
    have hgrid : c'.grid date = c.grid date := hinputs .gridHourly date ⟨rfl, rfl⟩
    rw [Right, hgrid]
    exact h
  | cost date =>
    obtain ⟨hgrid, hnode, htariff, hprice⟩ := hinputs .cost date ⟨rfl, rfl⟩
    rw [Right, computeDayCost_congr hgrid hnode htariff hprice]
    exact h
  | split date start =>
    obtain ⟨hgrid, hnode, hsoc⟩ := hinputs .split date ⟨rfl, rfl⟩
    rw [Right, computeDaySplit_congr hgrid hnode hsoc]
    exact ⟨hstarts _ h.1, h.2⟩

end Target

/-! ## Storing -/

/-- An operation that changes derived files only, those in `may`, and leaves them in agreement with
what they are made from. -/
structure Stores (streams : List Stream) (may : Derived → DateStr → Prop) (c c' : Card) : Prop where
  inputs : c'.toInputs = c.toInputs
  starts : ∀ p ∈ c.starts, p ∈ c'.starts
  files : ∀ k date, k.SameFile c c' date ∨ may k date ∧ k.Agrees streams c' date

theorem Derived.sameFile_refl (c : Card) (date : DateStr) (k : Derived) : k.SameFile c c date := by
  cases k <;> rfl

section Store

variable {streams : List Stream} {c : Card} {date : DateStr}

theorem store_nodeHourly {files : String → Option (List PowerRecord)}
    (h : Target.Right streams c (.nodeHourly date) files) :
    Stores streams (Target.Holds (.nodeHourly date) files) c
      (Target.store (.nodeHourly date) files c) := by
  refine ⟨rfl, fun _ hp => hp, fun k d => ?_⟩
  cases k with
  | gridHourly | cost | split => exact Or.inl rfl
  | nodeHourly id =>
    have hstored : (Target.store (.nodeHourly date) files c).nodeHourly id d =
      if d = date then (files id).or (c.nodeHourly id d) else c.nodeHourly id d := rfl
    by_cases hd : d = date
    · subst hd
      rw [if_pos rfl] at hstored
      cases hfile : files id with
      | none =>
        rw [hfile, Option.none_or] at hstored
        exact Or.inl hstored
      | some recs =>
        rw [hfile, Option.some_or] at hstored
        refine Or.inr ⟨⟨⟨id, rfl, by rw [hfile]; rfl⟩, rfl⟩, fun recs' hrecs' => ?_⟩
        rw [hstored] at hrecs'
        obtain rfl := Option.some.inj hrecs'
        exact h id recs hfile
    · rw [if_neg hd] at hstored
      exact Or.inl hstored

/-- A file is written: those of other days stay, and its own day has it. -/
theorem update_stored {α : Type} (f : DateStr → Option α) (date : DateStr) (a : α) (d : DateStr) :
    Function.update f date (some a) d = f d ∨
      d = date ∧ ∀ b ∈ Function.update f date (some a) d, b = a := by
  by_cases hd : d = date
  · subst hd
    rw [Function.update_self]
    exact Or.inr ⟨rfl, fun b hb => (Option.some.inj hb).symm⟩
  · exact Or.inl (Function.update_of_ne hd _ _)

theorem store_gridHourly {recs : List PowerRecord}
    (h : Target.Right streams c (.gridHourly date) recs) :
    Stores streams (Target.Holds (.gridHourly date) recs) c
      (Target.store (.gridHourly date) recs c) := by
  refine ⟨rfl, fun _ hp => hp, fun k d => ?_⟩
  cases k with
  | nodeHourly id | cost | split => exact Or.inl rfl
  | gridHourly =>
    refine (update_stored c.gridHourly date recs d).imp_right ?_
    rintro ⟨rfl, honly⟩
    refine ⟨⟨rfl, rfl⟩, fun recs' hrecs' => ?_⟩
    obtain rfl := honly recs' hrecs'
    exact h

theorem store_cost {dc : DayCost} (h : Target.Right streams c (.cost date) dc) :
    Stores streams (Target.Holds (.cost date) dc) c (Target.store (.cost date) dc c) := by
  refine ⟨rfl, fun _ hp => hp, fun k d => ?_⟩
  cases k with
  | gridHourly | nodeHourly id | split => exact Or.inl rfl
  | cost =>
    refine (update_stored c.cost date dc d).imp_right ?_
    rintro ⟨rfl, honly⟩
    refine ⟨⟨rfl, rfl⟩, fun dc' hdc' => ?_⟩
    obtain rfl := honly dc' hdc'
    exact h

theorem store_split {start : BatteryLedger} {ds : DaySplit}
    (h : Target.Right streams c (.split date start) ds) :
    Stores streams (Target.Holds (.split date start) ds) c
      (Target.store (.split date start) ds c) := by
  refine ⟨rfl, fun _ hp => hp, fun k d => ?_⟩
  cases k with
  | gridHourly | nodeHourly id | cost => exact Or.inl rfl
  | split =>
    refine (update_stored c.split date ds.doc d).imp_right ?_
    rintro ⟨rfl, honly⟩
    refine ⟨⟨rfl, rfl⟩, fun doc hdoc => ⟨start, h.1, ?_⟩⟩
    obtain rfl := honly doc hdoc
    exact congrArg (Option.map (·.doc)) h.2

/-- Storing a file that is right. -/
theorem store_stores {t : Target} {v : t.Value} (h : t.Right streams c v) :
    Stores streams (t.Holds v) c (t.store v c) := by
  cases t with
  | nodeHourly date => exact store_nodeHourly h
  | gridHourly date => exact store_gridHourly h
  | cost date => exact store_cost h
  | split date start => exact store_split h

end Store

end HomeEnergyManager.DayFiles
