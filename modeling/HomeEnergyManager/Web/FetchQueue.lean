import HomeEnergyManager.Lib.OneByOne
import HomeEnergyManager.Lib.StepSystem

/-! # The queue of requests of the web page

`queuedFetch` chains each request to the promise of the one before it: `tail.then(run, run)` calls
`run` when that promise settles, the returned promise takes on what `run` returns, and
`p.catch(() => {})` becomes the next tail. A reaction to a settled promise is a job of the microtask
queue, and so is taking on a promise that a handler returned. The events are calls, aborts, jobs and
answers of the network, in any order.

Reference: `firmware/html_app/src/fetchQueue.ts`.
-/

namespace HomeEnergyManager.FetchQueue

open StepSystem

/-- What the promise of a request settles with. -/
inductive Answer where
  | response
  /-- `fetch` was rejected. -/
  | failed
  /-- `DOMException('Aborted', 'AbortError')` of `run`. -/
  | aborted
deriving DecidableEq, Repr

/-- How far a call has come. -/
inductive Stage where
  /-- `run` is a reaction to the tail before, which is pending. -/
  | registered
  /-- `run` is a job. -/
  | run
  /-- `run` has returned a promise, and calling its `then` is a job. -/
  | adopt
  /-- Its `then` has been called, and it is pending. -/
  | adopting
  /-- Settling the returned promise `p` is a job. -/
  | settle
  /-- The handler of `p.catch` is a job. -/
  | caught
  /-- The tail of the call is settled. -/
  | done
deriving DecidableEq, Repr

structure Call where
  /-- The controller of `init.signal`. -/
  signal : Option ℕ
  stage : Stage
  /-- What the promise that `run` returned is settled with. -/
  answer : Option Answer := none
deriving DecidableEq, Repr

structure State where
  calls : List Call := []
  /-- The controllers that have been aborted. -/
  aborted : List ℕ := []
  /-- The microtask queue; a call has one job at most. -/
  jobs : List ℕ := []
  /-- The calls whose request has been handed to `fetch`, in that order. -/
  sent : List ℕ := []
deriving DecidableEq, Repr

inductive Event where
  /-- `queuedFetch(input, init)` -/
  | call (signal : Option ℕ)
  | abort (controller : ℕ)
  /-- The next job. -/
  | job
  /-- `fetch` settles the promise of a call. -/
  | reply (i : ℕ) (ok : Bool)
deriving DecidableEq, Repr

/-- How `fetch` settles its promise. -/
def answer (ok : Bool) : Answer := if ok then .response else .failed

theorem answer_ne_aborted (ok : Bool) : answer ok ≠ .aborted := by cases ok <;> decide

/-- The promise `tail` is settled. -/
def State.tailSettled (s : State) : Bool := s.calls.getLast?.all (·.stage = .done)

def Call.signalAborted (c : Call) (aborted : List ℕ) : Bool := c.signal.any (· ∈ aborted)

def State.setStage (s : State) (i : ℕ) (stage : Stage) : State :=
  { s with calls := s.calls.modify i fun c => { c with stage := stage } }

/-- The job of call `i`, once it is off the queue. -/
def State.runJob (s : State) (i : ℕ) (c : Call) : State :=
  match c.stage with
  | .run =>
    if c.signalAborted s.aborted then
      -- skipped rather than sent
      { s with
        calls := s.calls.modify i fun c => { c with stage := .adopt, answer := some .aborted }
        jobs := s.jobs ++ [i] }
    else { s.setStage i .adopt with jobs := s.jobs ++ [i], sent := s.sent ++ [i] }
  | .adopt =>
    if c.answer.isSome then { s.setStage i .settle with jobs := s.jobs ++ [i] }
    else s.setStage i .adopting
  | .settle => { s.setStage i .caught with jobs := s.jobs ++ [i] }
  | .caught =>
    let s := s.setStage i .done
    if i + 1 < s.calls.length then { s.setStage (i + 1) .run with jobs := s.jobs ++ [i + 1] } else s
  | .registered | .adopting | .done => s

def step (s : State) : Event → Option State
  | .call signal =>
    if s.tailSettled then
      some { s with
        calls := s.calls ++ [{ signal, stage := .run }]
        jobs := s.jobs ++ [s.calls.length] }
    else some { s with calls := s.calls ++ [{ signal, stage := .registered }] }
  | .abort controller => some { s with aborted := controller :: s.aborted }
  | .job =>
    match s.jobs with
    | [] => none
    | i :: jobs => (s.calls[i]?).map fun c => { s with jobs }.runJob i c
  | .reply i ok =>
    match s.calls[i]? with
    | none => none
    | some c =>
      if i ∈ s.sent ∧ c.answer = none then
        if c.stage = .adopting then
          some { s with
            calls := s.calls.modify i fun c =>
              { c with stage := .settle, answer := some (answer ok) }
            jobs := s.jobs ++ [i] }
        else
          some { s with calls := s.calls.modify i fun c => { c with answer := some (answer ok) } }
      else none

/-- The request has been sent and is not answered yet. -/
def State.inFlight (s : State) (i : ℕ) : Prop :=
  i ∈ s.sent ∧ ∃ c, s.calls[i]? = some c ∧ c.answer = none

/-! ## One at a time -/

/-- The promise that `run` returned is pending until the request is answered. -/
def Call.InTurn (c : Call) : Prop :=
  match c.stage with
  | .registered | .done => False
  | .run | .adopting => c.answer = none
  | .adopt => True
  | .settle | .caught => c.answer.isSome

/-- A call that is over. -/
def Call.Over (c : Call) : Prop := c.stage = .done ∧ c.answer.isSome

/-- A call whose turn is still to come. -/
def Call.Waits (c : Call) : Prop := c.stage = .registered ∧ c.answer = none

/-- Its request has been handed to `fetch`. -/
def Call.Sent (c : Call) : Prop :=
  c.stage ≠ .registered ∧ c.stage ≠ .run ∧ c.answer ≠ some .aborted

/-- It is the turn of call `k`, or of nobody, if there is no such call. -/
structure State.Turn (s : State) (k : ℕ) : Prop where
  line : OneByOne.At Call.Over Call.Waits s.calls k
  le : k ≤ s.calls.length
  /-- The one job is that of the call that has its turn, unless it waits for the network. -/
  jobs : s.jobs = ((s.calls[k]?).filter (·.stage ≠ .adopting)).toList.map fun _ => k
  inTurn : ∀ c, s.calls[k]? = some c → c.InTurn
  sorted : s.sent.Pairwise (· < ·)
  sent : ∀ i, i ∈ s.sent ↔ ∃ c, s.calls[i]? = some c ∧ c.Sent

/-- It is somebody's turn. -/
def State.Serial (s : State) : Prop := ∃ k, s.Turn k

section Step

variable {s s' : State} {k i : ℕ} {c : Call}

theorem State.Turn.eq_of_inFlight (h : s.Turn k) (hi : s.inFlight i) : i = k := by
  obtain ⟨hmem, c, hc, hanswer⟩ := hi
  obtain ⟨d, hd, hsent⟩ := (h.sent i).mp hmem
  obtain rfl : c = d := Option.some.inj (hc.symm.trans hd)
  exact h.line.eq_of_active hc (fun hover => by simp [Call.Over, hanswer] at hover)
    fun hwaits => hsent.1 hwaits.1

theorem turn_start : State.Turn {} 0 :=
  ⟨.nil, Nat.le_refl _, rfl, fun c hc => by simp at hc, List.Pairwise.nil, by simp⟩

/-- What a change of the call that has its turn has to show. -/
theorem State.Turn.modify (h : s.Turn k) {f : Call → Call} {jobs sent : List ℕ}
    (hc : s.calls[k]? = some c) (hjobs : jobs = if (f c).stage = .adopting then [] else [k])
    (hturn : (f c).InTurn) (hsent : sent = s.sent ∧ ((f c).Sent ↔ c.Sent) ∨
      sent = s.sent ++ [k] ∧ (f c).Sent ∧ ¬ c.Sent) :
    State.Turn { s with calls := s.calls.modify k f, jobs := jobs, sent := sent } k := by
  have hk : (s.calls.modify k f)[k]? = some (f c) := by simp [hc]
  refine ⟨h.line.modify, by simpa using h.le, ?_, fun d hd => ?_, ?_, fun i => ?_⟩
  · show jobs = _
    rw [hjobs, hk]
    by_cases hstage : (f c).stage = .adopting <;> simp [Option.filter, hstage]
  · rw [hk] at hd
    exact Option.some.inj hd ▸ hturn
  · rcases hsent with ⟨rfl, -⟩ | ⟨rfl, -, hnot⟩
    · exact h.sorted
    · refine List.pairwise_append.mpr ⟨h.sorted, List.pairwise_singleton _ _, fun i hi j hj => ?_⟩
      obtain rfl := List.mem_singleton.mp hj
      obtain ⟨d, hd, hsentd⟩ := (h.sent i).mp hi
      rcases Nat.lt_trichotomy i j with hlt | rfl | hgt
      · exact hlt
      · rw [hc] at hd
        exact absurd (Option.some.inj hd ▸ hsentd) hnot
      · exact absurd (h.line.after i hgt d hd).1 hsentd.1
  · by_cases hi : k = i
    · subst hi
      have hold : k ∈ s.sent ↔ c.Sent := by
        rw [h.sent k, hc]
        simp
      show k ∈ sent ↔ ∃ d, (s.calls.modify k f)[k]? = some d ∧ d.Sent
      rw [hk]
      rcases hsent with ⟨rfl, hiff⟩ | ⟨rfl, hnew, -⟩
      · simp [hold, hiff]
      · simp [hnew]
    · have hmem : i ∈ sent ↔ i ∈ s.sent := by
        rcases hsent with ⟨rfl, -⟩ | ⟨rfl, -⟩
        · exact Iff.rfl
        · simp [Ne.symm hi]
      show i ∈ sent ↔ ∃ d, (s.calls.modify k f)[i]? = some d ∧ d.Sent
      rw [hmem, h.sent i, List.getElem?_modify_ne _ _ hi]

theorem State.Turn.tailSettled_iff (h : s.Turn k) : s.tailSettled = true ↔ k = s.calls.length := by
  unfold State.tailSettled
  rw [List.getLast?_eq_getElem?]
  rcases Nat.lt_or_eq_of_le h.le with hlt | heq
  · refine iff_of_false ?_ (Nat.ne_of_lt hlt)
    obtain ⟨c, hc⟩ : ∃ c, s.calls[s.calls.length - 1]? = some c :=
      ⟨_, List.getElem?_eq_getElem (by omega)⟩
    rw [hc]
    intro hdone
    have hstage : c.stage = .done := by simpa using hdone
    rcases Nat.lt_or_ge k (s.calls.length - 1) with hbehind | hlast
    · have hwaits : c.stage = .registered := (h.line.after _ hbehind c hc).1
      rw [hstage] at hwaits
      cases hwaits
    · obtain rfl : k = s.calls.length - 1 := by omega
      have hturn := h.inTurn c hc
      simp [Call.InTurn, hstage] at hturn
  · refine iff_of_true ?_ heq
    cases hlast : s.calls[s.calls.length - 1]? with
    | none => rfl
    | some c =>
      have hlt := (List.getElem?_eq_some_iff.mp hlast).1
      have hover := h.line.before _ (by omega) c hlast
      simp [hover.1]

/-- A call gets in line. -/
theorem State.Turn.append (h : s.Turn k) (hnew : if k < s.calls.length then c.Waits
      else c.stage = .run ∧ c.answer = none) :
    State.Turn { s with
      calls := s.calls ++ [c]
      jobs := if k < s.calls.length then s.jobs else s.jobs ++ [s.calls.length] } k := by
  have hnot : ¬ c.Sent := by
    rintro ⟨hregistered, hrun, -⟩
    split_ifs at hnew
    · exact hregistered hnew.1
    · exact hrun hnew.1
  have hsent (i : ℕ) : i ∈ s.sent ↔ ∃ d, (s.calls ++ [c])[i]? = some d ∧ d.Sent := by
    rw [h.sent i]
    rcases Nat.lt_trichotomy i s.calls.length with hlt | rfl | hgt
    · rw [List.getElem?_append_left hlt]
    · rw [List.getElem?_concat_length, List.getElem?_eq_none (Nat.le_refl _)]
      simp [hnot]
    · rw [List.getElem?_eq_none (Nat.le_of_lt hgt), List.getElem?_eq_none]
      rw [List.length_append]
      exact hgt
  refine ⟨h.line.append (fun hlt => by rwa [if_pos hlt] at hnew) h.le, by simp; have := h.le; omega,
    ?_, fun d hd => ?_, h.sorted, hsent⟩
  · rcases Nat.lt_or_eq_of_le h.le with hlt | heq
    · rw [if_pos hlt]
      simpa [List.getElem?_append_left hlt] using h.jobs
    · rw [if_neg (by omega)] at hnew ⊢
      have hjobs := h.jobs
      rw [heq, List.getElem?_eq_none (Nat.le_refl _)] at hjobs
      simp [hjobs, heq, Option.filter, hnew.1]
  · rcases Nat.lt_or_eq_of_le h.le with hlt | heq
    · dsimp only at hd
      rw [List.getElem?_append_left hlt] at hd
      exact h.inTurn d hd
    · rw [if_neg (by omega)] at hnew
      dsimp only at hd
      rw [heq, List.getElem?_concat_length] at hd
      obtain rfl := Option.some.inj hd
      simp [Call.InTurn, hnew.1, hnew.2]

/-- The handler of `p.catch` settles the tail, and the next call has its turn. -/
theorem State.Turn.pass (h : s.Turn k) (hc : s.calls[k]? = some c) (hstage : c.stage = .caught) :
    (State.runJob { s with jobs := [] } k c).Turn (k + 1) := by
  have hlt := (List.getElem?_eq_some_iff.mp hc).1
  have hanswer : c.answer.isSome := by
    have hturn := h.inTurn c hc
    rw [Call.InTurn, hstage] at hturn
    exact hturn
  have hdone : ((s.calls.modify k fun c => { c with stage := .done })[k]?)
      = some { c with stage := .done } := by simp [hc]
  have hline : OneByOne.At Call.Over Call.Waits
      (s.calls.modify k fun c => { c with stage := .done }) (k + 1) := by
    refine h.line.modify.succ fun d hd => ?_
    rw [hdone] at hd
    exact Option.some.inj hd ▸ ⟨rfl, hanswer⟩
  have hsent (i : ℕ) : i ∈ s.sent ↔
      ∃ d, (s.calls.modify k fun c => { c with stage := .done })[i]? = some d ∧ d.Sent := by
    rw [h.sent i]
    by_cases hi : k = i
    · subst hi
      rw [hdone, hc]
      simp [Call.Sent, hstage]
    · rw [List.getElem?_modify_ne _ _ hi]
  unfold State.runJob
  simp only [hstage, State.setStage, List.length_modify]
  split_ifs with hnext
  · obtain ⟨d, hd⟩ : ∃ d, s.calls[k + 1]? = some d := ⟨_, List.getElem?_eq_getElem hnext⟩
    have hwaits := h.line.after (k + 1) (Nat.lt_succ_self k) d hd
    have hne : k ≠ k + 1 := Nat.ne_of_lt (Nat.lt_succ_self k)
    have hrun : (((s.calls.modify k fun c => { c with stage := .done }).modify (k + 1)
        fun c => { c with stage := .run })[k + 1]?) = some { d with stage := .run } := by
      rw [List.getElem?_modify_eq, List.getElem?_modify_ne _ _ hne, hd]
      rfl
    refine ⟨hline.modify, by simpa using Nat.succ_le_of_lt hlt, ?_, fun e he => ?_, h.sorted,
      fun i => ?_⟩
    · rw [hrun]
      rfl
    · rw [hrun] at he
      obtain rfl := Option.some.inj he
      exact hwaits.2
    · rw [hsent i]
      by_cases hi : k + 1 = i
      · subst hi
        dsimp only
        rw [hrun, List.getElem?_modify_ne _ _ hne, hd]
        simp [Call.Sent, hwaits.1]
      · dsimp only
        rw [List.getElem?_modify_ne _ _ hi]
  · refine ⟨hline, by rw [List.length_modify]; exact hlt, ?_, fun d hd => ?_, h.sorted, hsent⟩
    · rw [List.getElem?_eq_none (by simpa using hnext)]
      rfl
    · rw [List.getElem?_eq_none (by simpa using hnext)] at hd
      cases hd

/-- The job of the call that has its turn. -/
theorem State.Turn.runJob (h : s.Turn k) (hc : s.calls[k]? = some c) :
    (State.runJob { s with jobs := [] } k c).Serial := by
  have hturn := h.inTurn c hc
  cases hstage : c.stage with
  | registered | done => simp [Call.InTurn, hstage] at hturn
  | adopting =>
    have hjobs : s.jobs = [] := by simpa [hc, Option.filter, hstage] using h.jobs
    refine ⟨k, ?_⟩
    rw [State.runJob, hstage]
    exact hjobs ▸ h
  | run =>
    rw [Call.InTurn, hstage] at hturn
    refine ⟨k, ?_⟩
    rw [State.runJob, hstage]
    dsimp only
    split_ifs with haborted
    · exact h.modify hc rfl trivial (.inl ⟨rfl, by simp [Call.Sent, hstage]⟩)
    · exact h.modify hc rfl trivial
        (.inr ⟨rfl, by simp [Call.Sent, hturn], by simp [Call.Sent, hstage]⟩)
  | adopt =>
    refine ⟨k, ?_⟩
    rw [State.runJob, hstage]
    dsimp only
    split_ifs with hanswer
    · exact h.modify hc rfl hanswer (.inl ⟨rfl, by simp [Call.Sent, hstage]⟩)
    · exact h.modify hc rfl (by simpa [Call.InTurn] using hanswer)
        (.inl ⟨rfl, by simp [Call.Sent, hstage]⟩)
  | settle =>
    rw [Call.InTurn, hstage] at hturn
    refine ⟨k, ?_⟩
    rw [State.runJob, hstage]
    exact h.modify hc rfl hturn (.inl ⟨rfl, by simp [Call.Sent, hstage]⟩)
  | caught => exact ⟨k + 1, h.pass hc hstage⟩

theorem turn_step {e : Event} (h : s.Turn k) (hstep : step s e = some s') : s'.Serial := by
  cases e with
  | call signal =>
    simp only [step] at hstep
    split_ifs at hstep with hsettled
    · have heq := h.tailSettled_iff.mp hsettled
      have happend := h.append (c := { signal, stage := .run }) <| by
        rw [if_neg (by omega)]
        exact ⟨rfl, rfl⟩
      rw [if_neg (by omega)] at happend
      exact ⟨k, Option.some.inj hstep ▸ happend⟩
    · have hlt : k < s.calls.length := Nat.lt_of_le_of_ne h.le (mt h.tailSettled_iff.mpr hsettled)
      have happend := h.append (c := { signal, stage := .registered }) <| by
        rw [if_pos hlt]
        exact ⟨rfl, rfl⟩
      rw [if_pos hlt] at happend
      exact ⟨k, Option.some.inj hstep ▸ happend⟩
  | abort controller =>
    exact ⟨k, Option.some.inj hstep ▸ ⟨h.line, h.le, h.jobs, h.inTurn, h.sorted, h.sent⟩⟩
  | job =>
    simp only [step] at hstep
    cases hjobs : s.jobs with
    | nil => simp [hjobs] at hstep
    | cons i jobs =>
      -- the one job is that of the call that has its turn
      have hone := h.jobs
      rw [hjobs] at hone
      cases hc : s.calls[k]? with
      | none => simp [hc] at hone
      | some c =>
        rw [hc] at hone
        obtain ⟨rfl, rfl⟩ : i = k ∧ jobs = [] := by
          by_cases hstage : c.stage = .adopting
          · simp [Option.filter, hstage] at hone
          · simpa [Option.filter, hstage] using hone
        simp only [hjobs, hc, Option.map_some] at hstep
        exact Option.some.inj hstep ▸ h.runJob hc
  | reply i ok =>
    simp only [step] at hstep
    cases hc : s.calls[i]? with
    | none => simp [hc] at hstep
    | some c =>
      simp only [hc] at hstep
      split_ifs at hstep with hflight hstage
      all_goals
        obtain ⟨hmem, hanswer⟩ := hflight
        obtain ⟨d, hd, hsent⟩ := (h.sent i).mp hmem
        obtain rfl : c = d := Option.some.inj (hc.symm.trans hd)
        obtain rfl : i = k := h.eq_of_inFlight ⟨hmem, c, hc, hanswer⟩
        have hturn := h.inTurn c hc
        refine ⟨i, Option.some.inj hstep ▸ ?_⟩
      · have hjobs : s.jobs = [] := by simpa [hc, Option.filter, hstage] using h.jobs
        rw [hjobs]
        refine h.modify hc rfl rfl (.inl ⟨rfl, iff_of_true ?_ hsent⟩)
        exact ⟨nofun, nofun, by simp [answer_ne_aborted]⟩
      · have hadopt : c.stage = .adopt := by
          unfold Call.InTurn at hturn
          cases hstage' : c.stage <;> simp_all [Call.Sent]
        have hjobs : s.jobs = [i] := by simpa [hc, Option.filter, hstage] using h.jobs
        rw [hjobs]
        refine h.modify hc (by rw [if_neg hstage]) ?_ (.inl ⟨rfl, iff_of_true ?_ hsent⟩)
        · rw [Call.InTurn, hadopt]
          trivial
        · exact ⟨hsent.1, hsent.2.1, by simp [answer_ne_aborted]⟩

end Step

/-! ## What was aborted -/

/-- A call is answered as aborted only if its signal has been aborted. -/
def AbortsSound (calls : List Call) (aborted : List ℕ) : Prop :=
  ∀ (i : ℕ) (c : Call), calls[i]? = some c → c.answer = some .aborted →
    c.signalAborted aborted = true

section Aborts

variable {calls : List Call} {aborted : List ℕ} {i : ℕ} {s s' : State}

theorem AbortsSound.modify (h : AbortsSound calls aborted) {f : Call → Call}
    (hf : ∀ c, calls[i]? = some c → (f c).answer = some .aborted →
      (f c).signalAborted aborted = true) : AbortsSound (calls.modify i f) aborted := by
  intro j d hd hanswer
  by_cases hij : i = j
  · subst hij
    rw [List.getElem?_modify_eq] at hd
    obtain ⟨c, hc, rfl⟩ := Option.map_eq_some_iff.mp hd
    exact hf c hc hanswer
  · rw [List.getElem?_modify_ne _ _ hij] at hd
    exact h j d hd hanswer

theorem AbortsSound.setStage (h : AbortsSound s.calls s.aborted) (stage : Stage) :
    AbortsSound (s.setStage i stage).calls (s.setStage i stage).aborted :=
  h.modify fun c hc => h i c hc

theorem AbortsSound.append (h : AbortsSound calls aborted) {c : Call} (hc : c.answer = none) :
    AbortsSound (calls ++ [c]) aborted := by
  intro j d hd hanswer
  rcases Nat.lt_or_ge j calls.length with hlt | hge
  · rw [List.getElem?_append_left hlt] at hd
    exact h j d hd hanswer
  · rw [List.getElem?_append_right hge, List.getElem?_singleton] at hd
    split at hd
    · rw [← Option.some.inj hd, hc] at hanswer
      cases hanswer
    · cases hd

theorem AbortsSound.runJob (h : AbortsSound s.calls s.aborted) {c : Call}
    (hc : s.calls[i]? = some c) :
    AbortsSound (s.runJob i c).calls (s.runJob i c).aborted := by
  unfold State.runJob
  cases c.stage with
  | registered | adopting | done => exact h
  | run =>
    dsimp only
    split_ifs with haborted
    · refine h.modify fun d hd _ => ?_
      rw [hc] at hd
      exact Option.some.inj hd ▸ haborted
    · exact h.setStage _
  | adopt =>
    dsimp only
    split_ifs
    · exact h.setStage _
    · exact h.setStage _
  | settle => exact h.setStage _
  | caught =>
    dsimp only
    split_ifs
    · exact AbortsSound.setStage (h.setStage .done) _
    · exact h.setStage _

theorem abortsSound_step {e : Event} (h : AbortsSound s.calls s.aborted)
    (hstep : step s e = some s') : AbortsSound s'.calls s'.aborted := by
  cases e with
  | call signal =>
    simp only [step] at hstep
    split_ifs at hstep
    · exact Option.some.inj hstep ▸ h.append rfl
    · exact Option.some.inj hstep ▸ h.append rfl
  | abort controller =>
    rw [← Option.some.inj hstep]
    intro j c hc hanswer
    -- a controller that has been aborted stays so
    have hold := h j c hc hanswer
    unfold Call.signalAborted at hold ⊢
    cases hsignal : c.signal with
    | none => simp [hsignal] at hold
    | some signal =>
      rw [hsignal, Option.any_some] at hold
      exact decide_eq_true (List.mem_cons_of_mem _ (of_decide_eq_true hold))
  | job =>
    simp only [step] at hstep
    cases hjobs : s.jobs with
    | nil => simp [hjobs] at hstep
    | cons i jobs =>
      simp only [hjobs] at hstep
      obtain ⟨c, hc, rfl⟩ := Option.map_eq_some_iff.mp hstep
      exact AbortsSound.runJob (s := { s with jobs }) h hc
  | reply i ok =>
    simp only [step] at hstep
    cases hc : s.calls[i]? with
    | none => simp [hc] at hstep
    | some c =>
      have hreply : ∀ d : Call, some (answer ok) = some Answer.aborted →
          d.signalAborted s.aborted = true :=
        fun _ hanswer => absurd (Option.some.inj hanswer) (answer_ne_aborted ok)
      simp only [hc] at hstep
      split_ifs at hstep
      · exact Option.some.inj hstep ▸ h.modify fun d _ => hreply d
      · exact Option.some.inj hstep ▸ h.modify fun d _ => hreply d

end Aborts

/-- In every order of calls, aborts, jobs and answers: one request at most is under way; the
requests are sent in the order of the calls and once; a call that is over has been sent unless it
was answered as aborted, which only a call is whose signal has been aborted; and when no job is
left, a call that is not over waits for a request that is under way, so that no answer and no abort
ever stops the queue. -/
theorem queuedFetch_oneAtATime (es : List Event) {s : State} (hrun : run step {} es = some s) :
    (∀ i j, s.inFlight i → s.inFlight j → i = j) ∧ s.sent.Pairwise (· < ·) ∧
      (∀ i c, s.calls[i]? = some c → c.stage = .done →
        c.answer.isSome ∧ (i ∈ s.sent ↔ c.answer ≠ some .aborted)) ∧
      (∀ (i : ℕ) (c : Call), s.calls[i]? = some c → c.answer = some .aborted →
        c.signalAborted s.aborted = true) ∧
      (s.jobs = [] → ∀ i c, s.calls[i]? = some c → c.stage ≠ .done → ∃ j ≤ i, s.inFlight j) := by
  obtain ⟨k, h⟩ : s.Serial :=
    inv_of_every_run (fun _ _ _ ⟨_, h⟩ hstep => turn_step h hstep) ⟨0, turn_start⟩ hrun
  have haborts : AbortsSound s.calls s.aborted :=
    @inv_of_every_run _ _ step (fun s => AbortsSound s.calls s.aborted) _ _ _
      (fun _ _ _ h hstep => abortsSound_step h hstep) (fun i c hc => by simp at hc) hrun
  refine ⟨fun i j hi hj => (h.eq_of_inFlight hi).trans (h.eq_of_inFlight hj).symm, h.sorted,
    fun i c hc hdone => ?_, haborts, fun hjobs i c hc hdone => ?_⟩
  · have hlt : i < k := by
      rcases Nat.lt_trichotomy i k with hlt | rfl | hgt
      · exact hlt
      · have hturn := h.inTurn c hc
        simp [Call.InTurn, hdone] at hturn
      · have hwaits : c.stage = .registered := (h.line.after i hgt c hc).1
        rw [hdone] at hwaits
        cases hwaits
    refine ⟨(h.line.before i hlt c hc).2, ?_⟩
    rw [h.sent i, hc]
    simp [Call.Sent, hdone]
  · -- without a job, the call that has its turn waits for the network
    have hle : k ≤ i := by
      by_contra hlt
      exact hdone (h.line.before i (by omega) c hc).1
    obtain ⟨d, hd⟩ : ∃ d, s.calls[k]? = some d :=
      ⟨_, List.getElem?_eq_getElem (Nat.lt_of_le_of_lt hle (List.getElem?_eq_some_iff.mp hc).1)⟩
    have hadopting : d.stage = .adopting := by
      by_contra hstage
      have hone := h.jobs
      rw [hjobs, hd] at hone
      simp [Option.filter, hstage] at hone
    have hanswer : d.answer = none := by
      have hturn := h.inTurn d hd
      rwa [Call.InTurn, hadopting] at hturn
    exact ⟨k, hle, (h.sent k).mpr ⟨d, hd, by simp [Call.Sent, hadopting, hanswer]⟩, d, hd, hanswer⟩

/-- Three calls, the second aborted while it waits, the first rejected by `fetch`. -/
theorem queuedFetch_oneAtATime_aborted : ∃ s, run step {}
      [.call none, .call (some 7), .call none, .job, .job, .abort 7, .reply 0 false, .job, .job,
        .job, .job, .job, .job, .job, .job] = some s ∧ s.sent.Pairwise (· < ·) ∧ s.sent = [0, 2] :=
  ⟨_, rfl, (queuedFetch_oneAtATime [.call none, .call (some 7), .call none, .job, .job, .abort 7,
    .reply 0 false, .job, .job, .job, .job, .job, .job, .job, .job] rfl).2.1, rfl⟩

end HomeEnergyManager.FetchQueue
