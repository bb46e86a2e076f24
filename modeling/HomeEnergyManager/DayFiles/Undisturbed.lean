import HomeEnergyManager.DayFiles.Waiting

/-! # Steps that leave the derived files in peace

A derived file may be computed once its day is over and nothing waits for what it is made from. From
then on until it is stored, and for good after that, no price may be stamped for its day. What it is
made from then stays as it was when the computation began, whenever the computation reads it.
-/

namespace HomeEnergyManager.DayFiles

open NodePowerLogger

/-- The day is before today. -/
def Finished (now : ℤ) (date : DateStr) : Prop := ∃ z ∈ dayOf date, z < localDay now

instance (now : ℤ) (date : DateStr) : Decidable (Finished now date) :=
  inferInstanceAs (Decidable (∃ _ ∈ _, _))

/-- The day is over and nothing waits for what the derived file is made from. -/
structure System.Quiet (s : System) (k : Derived) (date : DateStr) : Prop where
  finished : Finished s.now date
  samples : ∀ a ∈ s.waiting, k.reads a = true → a.date ≠ date
  prices : k = .cost → date ∉ s.waitingPrices

instance (s : System) (k : Derived) (date : DateStr) : Decidable (s.Quiet k date) :=
  decidable_of_iff
    (Finished s.now date ∧ (∀ a ∈ s.waiting, k.reads a = true → a.date ≠ date) ∧
      (k = .cost → date ∉ s.waitingPrices))
    ⟨fun h => ⟨h.1, h.2.1, h.2.2⟩, fun h => ⟨h.finished, h.samples, h.prices⟩⟩

/-! ## The tasks that derive files -/

/-- The midnight job of the timer task. -/
def TimerTask.job : TimerTask → Option Progress
  | .midnight task => some task
  | _ => none

/-- Where the tasks stand that derive files. -/
def System.tasks (s : System) : List Progress := s.http :: s.timer.job.toList

/-- The file of the day has been computed by the task and is still to be stored. -/
def Progress.Holds : Progress → Derived → DateStr → Prop
  | .running _, _, _ => False
  | .storing t v _, k, date => t.Holds v k date

/-- What the task holds is right. -/
def Progress.Right (streams : List Stream) (c : Card) : Progress → Prop
  | .running _ => True
  | .storing t v _ => t.Right streams c v

/-- The day whose cost the task holds. -/
def Progress.costDate : Progress → Option DateStr
  | .storing (.cost date) _ _ => some date
  | _ => none

theorem Progress.holds_cost {task : Progress} {date : DateStr} (h : task.Holds .cost date) :
    task.costDate = some date := by
  cases task with
  | running job => exact h.elim
  | storing t v rest =>
    cases t with
    | nodeHourly d =>
      obtain ⟨⟨id, hid, -⟩, -⟩ := h
      exact nomatch hid
    | gridHourly d | split d start => exact nomatch h.1
    | cost d => exact congrArg some h.2.symm

/-- The derived file is stored, or a task is about to store it. -/
def System.Fixed (s : System) (k : Derived) (date : DateStr) : Prop :=
  k.stored s.card date = true ∨ ∃ task ∈ s.tasks, task.Holds k date

/-- The cost of the day is neither stored nor about to be. -/
def System.CostOpen (s : System) (date : DateStr) : Prop :=
  (s.card.cost date).isNone ∧ ∀ task ∈ s.tasks, task.costDate ≠ some date

instance (s : System) (date : DateStr) : Decidable (s.CostOpen date) :=
  inferInstanceAs (Decidable (_ ∧ _))

theorem System.CostOpen.not_fixed {s : System} {date : DateStr} (h : s.CostOpen date) :
    ¬ s.Fixed .cost date := by
  rintro (hstored | ⟨task, hmem, hholds⟩)
  · rw [Derived.stored, Option.isNone_iff_eq_none.mp h.1] at hstored
    exact nomatch hstored
  · exact h.2 task hmem (Progress.holds_cost hholds)

/-! ## The condition on a step -/

namespace Target

/-- The files that it has to be computed from are on the card. -/
def derivable (c : Card) : Target → Bool
  | nodeHourly _ => true
  | gridHourly date | split date _ => (c.grid date).isSome
  | cost date => (c.grid date).isSome && (tariffLoadDay c.toInputs date).isSome

/-- It is computed from the file that a reading is appended to. -/
def reads (c : Card) : Target → Append → Bool
  | nodeHourly date, .node id _ => (c.node id date).isSome
  | gridHourly _, .grid _ => true
  | cost _, .grid _ | cost _, .node _ _ => true
  | split _ _, _ => true
  | _, _ => false

/-- It is computed from prices. -/
def priced : Target → Bool
  | cost _ => true
  | _ => false

end Target

/-- The day is over and nothing waits for what the file is computed from. -/
structure System.Ready (s : System) (t : Target) : Prop where
  finished : Finished s.now t.date
  samples : ∀ a ∈ s.waiting, t.reads s.card a = true → a.date ≠ t.date
  prices : t.priced = true → t.date ∉ s.waitingPrices

instance (s : System) (t : Target) : Decidable (s.Ready t) :=
  decidable_of_iff
    (Finished s.now t.date ∧ (∀ a ∈ s.waiting, t.reads s.card a = true → a.date ≠ t.date) ∧
      (t.priced = true → t.date ∉ s.waitingPrices))
    ⟨fun h => ⟨h.1, h.2.1, h.2.2⟩, fun h => ⟨h.finished, h.samples, h.prices⟩⟩

/-- A task computes what it goes on to store only when that is ready. -/
def System.ComputesReady (s : System) : Progress → Prop
  | .running (.make t true _) => t.derivable s.card = true → s.Ready t
  | _ => True

instance (s : System) : DecidablePred s.ComputesReady
  | .running (.make t true _) =>
    inferInstanceAs (Decidable (t.derivable s.card = true → s.Ready t))
  | .running (.make _ false _) | .running .done | .running (.read _) | .storing _ _ _ =>
    isTrue trivial

/-- The condition on a step: the clock goes on, a derived file that is going to be stored is
computed while nothing waits for what it is made from, and no price is stamped or resolved for a day
whose cost is stored or about to be. -/
def Undisturbed (s : System) : Event → Prop
  | .clock now => s.now ≤ now ∧ now < 2 ^ 32
  | .midnightNext => ∀ task ∈ s.timer.job, s.ComputesReady task
  | .httpNext => s.ComputesReady s.http
  | .tariffFlush => ∀ p ∈ s.tariff.pending, s.CostOpen p.1
  | .priceHandle => ∀ date ∈ stampedDates s.now s.price.handler, s.CostOpen date
  | _ => True

instance (s : System) : DecidablePred (Undisturbed s)
  | .clock _ => inferInstanceAs (Decidable (_ ∧ _))
  | .midnightNext => inferInstanceAs (Decidable (∀ task ∈ s.timer.job, s.ComputesReady task))
  | .httpNext => inferInstanceAs (Decidable (s.ComputesReady s.http))
  | .tariffFlush => inferInstanceAs (Decidable (∀ p ∈ s.tariff.pending, s.CostOpen p.1))
  | .priceHandle => inferInstanceAs
      (Decidable (∀ date ∈ stampedDates s.now s.price.handler, s.CostOpen date))
  | .sample _ | .powerFlush | .powerWrite | .refresh | .midnight | .tariffReport _ _ _
  | .tariffStore | .tariffWrite | .priceReport _ _ _ | .priceFromSource | .priceTick
  | .priceFlushSwap | .priceFlushWrite _ | .batterySource | .dailyEnergy _ | .mixTrace _ =>
    isTrue trivial

/-- What can be computed has what it is computed from. -/
theorem derivable_of_compute {streams : List Stream} {c : Card} {t : Target} {v : t.Value}
    (h : t.compute streams c = some v) : t.derivable c = true := by
  cases t with
  | nodeHourly date => rfl
  | gridHourly date =>
    obtain ⟨recs, hrecs, -⟩ := Option.map_eq_some_iff.mp h
    rw [Target.derivable, hrecs]
    rfl
  | cost date =>
    obtain ⟨tariff, htariff, h⟩ := Option.bind_eq_some_iff.mp h
    obtain ⟨dayStart, -, h⟩ := Option.bind_eq_some_iff.mp h
    obtain ⟨grid, hgrid, -⟩ := Option.map_eq_some_iff.mp h
    obtain ⟨recs, hrecs, -⟩ := Option.map_eq_some_iff.mp hgrid
    rw [Target.derivable, hrecs, htariff]
    rfl
  | split date start =>
    obtain ⟨dayStart, -, h⟩ := Option.bind_eq_some_iff.mp h
    obtain ⟨grid, hgrid, -⟩ := Option.map_eq_some_iff.mp h
    obtain ⟨recs, hrecs, -⟩ := Option.map_eq_some_iff.mp hgrid
    rw [Target.derivable, hrecs]
    rfl

/-- What is computed of a day that is ready is quiet. -/
theorem System.Ready.quiet {s : System} {t : Target} (h : s.Ready t) {streams : List Stream}
    {v : t.Value} (hv : t.compute streams s.card = some v) {k : Derived} {date : DateStr}
    (hholds : t.Holds v k date) : s.Quiet k date := by
  obtain rfl := hholds.date_eq
  refine ⟨h.finished, fun a ha hreads => h.samples a ha ?_, fun hk => h.prices ?_⟩
  · cases t with
    | nodeHourly d =>
      obtain ⟨⟨id, rfl, hfile⟩, -⟩ := hholds
      obtain ⟨recs, hrecs⟩ := Option.isSome_iff_exists.mp hfile
      obtain ⟨node, hnode, -⟩ := Option.map_eq_some_iff.mp (Target.node_of_compute hv hrecs)
      cases a with
      | grid r | soc id' r => exact nomatch hreads
      | node id' r =>
        obtain rfl : id = id' := beq_iff_eq.mp hreads
        rw [Target.reads, hnode]
        rfl
    | gridHourly d | cost d | split d start =>
      obtain ⟨rfl, -⟩ := hholds
      cases a <;> exact hreads
  · subst hk
    cases t with
    | nodeHourly d =>
      obtain ⟨⟨id, hid, -⟩, -⟩ := hholds
      exact nomatch hid
    | gridHourly d | split d start => exact nomatch hholds.1
    | cost d => rfl

end HomeEnergyManager.DayFiles
