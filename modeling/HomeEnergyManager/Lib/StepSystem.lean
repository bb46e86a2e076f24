import Mathlib.Logic.Relation

/-! # Runs of a step function

A system is a state type `σ`, an event type `ε` and a step `σ → ε → Option σ`, where `none` means
that the event is not enabled. The rules here lift what one step preserves to whole runs, also when
only the steps that meet a guard preserve it.
-/

namespace StepSystem

variable {σ ε : Type*}

/-- Take the events in order; `none` as soon as one of them is not enabled. -/
def run (step : σ → ε → Option σ) : σ → List ε → Option σ
  | s, [] => some s
  | s, e :: es =>
    match step s e with
    | none => none
    | some s' => run step s' es

/-- Every step that the run of `es` from `s` takes meets `guard`, read at the state before it. -/
def Meets (step : σ → ε → Option σ) (guard : σ → ε → Prop) : σ → List ε → Prop
  | _, [] => True
  | s, e :: es => guard s e ∧ ∀ s', step s e = some s' → Meets step guard s' es

/-- A guard that can be decided can be decided along a run. -/
instance decidableMeets {step : σ → ε → Option σ} {guard : σ → ε → Prop}
    [∀ s e, Decidable (guard s e)] : ∀ s es, Decidable (Meets step guard s es)
  | _, [] => isTrue trivial
  | s, e :: es =>
    match h : step s e with
    | none => decidable_of_iff (guard s e) (by simp [Meets, h])
    | some s' =>
      have : Decidable (Meets step guard s' es) := decidableMeets s' es
      decidable_of_iff (guard s e ∧ Meets step guard s' es) (by simp [Meets, h])

/-- Every run meets the guard that asks for nothing. -/
theorem meets_true (step : σ → ε → Option σ) (s : σ) (es : List ε) :
    Meets step (fun _ _ => True) s es := by
  induction es generalizing s with
  | nil => trivial
  | cons e es ih => exact ⟨trivial, fun s' _ => ih s'⟩

/-- A run of one more event in front takes that event and then the rest. -/
theorem run_cons_eq_some {step : σ → ε → Option σ} {s t : σ} {e : ε} {es : List ε} :
    run step s (e :: es) = some t ↔ ∃ s', step s e = some s' ∧ run step s' es = some t := by
  simp only [run]
  cases h : step s e <;> simp

/-- An invariant kept by every step that meets the guard holds after every run whose steps do. -/
theorem inv_of_run {step : σ → ε → Option σ} {guard : σ → ε → Prop} {inv : σ → Prop}
    (hstep : ∀ s e s', inv s → guard s e → step s e = some s' → inv s') :
    ∀ {es : List ε} {s t : σ}, inv s → Meets step guard s es → run step s es = some t → inv t := by
  intro es
  induction es with
  | nil =>
    intro s t hs _ hrun
    obtain rfl : s = t := Option.some.inj hrun
    exact hs
  | cons e es ih =>
    intro s t hs hmeets hrun
    obtain ⟨s', he, hrun'⟩ := run_cons_eq_some.mp hrun
    exact ih (hstep s e s' hs hmeets.1 he) (hmeets.2 s' he) hrun'

/-- An invariant that every step keeps holds after every run. -/
theorem inv_of_every_run {step : σ → ε → Option σ} {inv : σ → Prop} {es : List ε} {s t : σ}
    (hstep : ∀ s e s', inv s → step s e = some s' → inv s') (hs : inv s)
    (hrun : run step s es = some t) : inv t :=
  inv_of_run (fun s e s' hs (_ : True) => hstep s e s' hs) hs (meets_true step s es) hrun

/-- `P` holds at the start of a run and after each of its steps. -/
def Always (step : σ → ε → Option σ) (P : σ → Prop) : σ → List ε → Prop
  | s, [] => P s
  | s, e :: es => P s ∧ ∀ s', step s e = some s' → Always step P s' es

theorem Always.last {step : σ → ε → Option σ} {P : σ → Prop} {es : List ε} {s t : σ}
    (h : Always step P s es) (hrun : run step s es = some t) : P t := by
  induction es generalizing s with
  | nil =>
    obtain rfl : s = t := Option.some.inj hrun
    exact h
  | cons e es ih =>
    obtain ⟨s', he, hrun'⟩ := run_cons_eq_some.mp hrun
    exact ih (h.2 s' he) hrun'

/-- Two properties that agree wherever an invariant holds always hold in the same runs. -/
theorem always_congr {step : σ → ε → Option σ} {inv P Q : σ → Prop}
    (hstep : ∀ s e s', inv s → step s e = some s' → inv s') (h : ∀ s, inv s → (P s ↔ Q s)) :
    ∀ {es : List ε} {s : σ}, inv s → (Always step P s es ↔ Always step Q s es) := by
  intro es
  induction es with
  | nil => exact fun hs => h _ hs
  | cons e es ih =>
    intro s hs
    exact and_congr (h s hs) (forall₂_congr fun s' he => ih (hstep s e s' hs he))

/-- Where the steps that meet the guard keep an invariant that gives `P`, and each of the others
breaks `P` at once, `P` always holds in a run if and only if all of its steps meet the guard. -/
theorem always_iff_meets {step : σ → ε → Option σ} {guard : σ → ε → Prop} {inv P : σ → Prop}
    (hinv : ∀ s, inv s → P s)
    (hstep : ∀ s e s', inv s → guard s e → step s e = some s' → inv s')
    (hbreak : ∀ s e s', inv s → ¬ guard s e → step s e = some s' → ¬ P s') :
    ∀ {es : List ε} {s t : σ}, inv s → run step s es = some t →
      (Always step P s es ↔ Meets step guard s es) := by
  intro es
  induction es with
  | nil =>
    intro s t hs _
    exact iff_of_true (hinv s hs) trivial
  | cons e es ih =>
    intro s t hs hrun
    obtain ⟨s', he, hrun'⟩ := run_cons_eq_some.mp hrun
    have hnext {Q : σ → Prop} : (∀ s'', step s e = some s'' → Q s'') ↔ Q s' := by
      simp [he]
    rw [Always, Meets, hnext, hnext]
    by_cases hguard : guard s e
    · rw [ih (hstep s e s' hs hguard he) hrun']
      exact and_congr_left fun _ => iff_of_true (hinv s hs) hguard
    · refine iff_of_false (fun h => hbreak s e s' hs hguard he ?_) fun h => hguard h.1
      cases es with
      | nil => exact h.2
      | cons e' es => exact h.2.1

end StepSystem
