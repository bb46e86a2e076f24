import Mathlib.Order.Nat
import HomeEnergyManager.Controller.CommissioningWindow

/-! # The requests for a commissioning window

A request is held by the call that made it until CHIP has accepted or refused it, then by CHIP until
its callback, then by the callback until the end. Whoever holds it last deletes it.
-/

namespace HomeEnergyManager.CommissioningWindow

variable {P : Type}

/-- The call still has to use its request. -/
def Stage.holdsRequest : Stage → Bool
  | .clear | .drain | .arm | .openWindow | .disarm _ | .deleteRequest _ => true
  | _ => false

/-- The request of the callback that runs. -/
def OnComplete.request : OnComplete P → Option ℕ
  | .idle => none
  | .writeManualCode r _ | .writeQrCode r _ | .writeStatus r _ | .give r | .deleteRequest r =>
    some r

/-- The call that holds the lock still has to use the request. -/
def State.heldByCall (s : State P) (r : ℕ) : Bool :=
  s.call.any fun c => c.request == r && c.stage.holdsRequest

/-- In how many places the request is still to be used. -/
def State.uses (s : State P) (r : ℕ) : ℕ :=
  (s.heldByCall r).toNat + s.accepted.count r + (decide (s.matter.request = some r)).toNat

def State.deletesOf (s : State P) (r : ℕ) : ℕ := (s.requests[r]?.map (·.deletes)).getD 0

/-- What the callback of the request was called with. -/
def State.answerOf (s : State P) (r : ℕ) : Option (ChipError × P) :=
  s.requests[r]?.bind (·.answer)

/-- Each request is still to be used in exactly one place and is not deleted, or is used nowhere any
more and has been deleted once. -/
def DeletedOnce (s : State P) : Prop :=
  ∀ r < s.requests.length, s.deletesOf r + s.uses r = 1

/-- The invariant of the requests: besides, no number without a request is in use, and a request
that CHIP still has to call back, or does not have yet, is not answered. -/
structure RequestsInv (s : State P) : Prop where
  once : DeletedOnce s
  known : ∀ r, 0 < s.uses r → r < s.requests.length
  own : ∀ c ∈ s.call, c.request < s.requests.length
  unanswered : ∀ r, s.heldByCall r = true ∨ r ∈ s.accepted → s.answerOf r = none

section Lists

variable {s : State P} {r r' : ℕ}

theorem getElem?_modify_requests {f : OpenRequest P → OpenRequest P} :
    (s.requests.modify r f)[r']? = s.requests[r']?.map fun q => if r = r' then f q else q := by
  rw [List.getElem?_modify]
  rfl

theorem deletesOf_delete :
    (s.delete r).deletesOf r' =
      s.deletesOf r' + (decide (r = r' ∧ r < s.requests.length)).toNat := by
  unfold State.deletesOf State.delete
  rw [getElem?_modify_requests]
  by_cases hr : r = r'
  · subst hr
    by_cases hlt : r < s.requests.length
    · simp [hlt]
    · simp [hlt]
  · cases s.requests[r']? <;> simp [hr]

theorem answerOf_delete : (s.delete r).answerOf r' = s.answerOf r' := by
  unfold State.answerOf State.delete
  rw [getElem?_modify_requests]
  cases s.requests[r']? with
  | none => rfl
  | some q =>
    rw [Option.map_some, Option.bind_some, Option.bind_some]
    split <;> rfl

theorem length_delete : (s.delete r).requests.length = s.requests.length := List.length_modify ..

end Lists

section Steps

variable {s s' : State P} {c : Call}

theorem heldByCall_of_call {r : ℕ} (hc : s.call = some c) :
    s.heldByCall r = (c.request == r && c.stage.holdsRequest) := by
  rw [State.heldByCall, hc, Option.any_some]

theorem heldByCall_of_none {r : ℕ} (hc : s.call = none) : s.heldByCall r = false := by
  rw [State.heldByCall, hc, Option.any_none]

/-- The requests only change hands. -/
theorem RequestsInv.of_le (h : RequestsInv s) (hlength : s'.requests.length = s.requests.length)
    (huses : ∀ r, s'.uses r ≤ s.uses r)
    (hsum : ∀ r < s.requests.length, s'.deletesOf r + s'.uses r = s.deletesOf r + s.uses r)
    (hown : ∀ c ∈ s'.call, c.request < s.requests.length)
    (hunanswered : ∀ r, s'.heldByCall r = true ∨ r ∈ s'.accepted → s'.answerOf r = none) :
    RequestsInv s' := by
  refine ⟨fun r hr => ?_, fun r hr => ?_, fun c hc => ?_, hunanswered⟩
  · rw [hlength] at hr
    rw [hsum r hr]
    exact h.once r hr
  · rw [hlength]
    exact h.known r (Nat.lt_of_lt_of_le hr (huses r))
  · rw [hlength]
    exact hown c hc

/-- Nobody lets go of a request. -/
theorem RequestsInv.of_eq (h : RequestsInv s) (hrequests : s'.requests = s.requests)
    (haccepted : s'.accepted = s.accepted) (hmatter : s'.matter.request = s.matter.request)
    (hheld : ∀ r, s'.heldByCall r = s.heldByCall r)
    (hown : ∀ c ∈ s'.call, c.request < s.requests.length) : RequestsInv s' := by
  have huses : ∀ r, s'.uses r = s.uses r := by
    intro r
    rw [State.uses, State.uses, hheld, haccepted, hmatter]
  have hdeletes : ∀ r, s'.deletesOf r = s.deletesOf r := by
    intro r
    rw [State.deletesOf, State.deletesOf, hrequests]
  refine h.of_le (by rw [hrequests]) (fun r => Nat.le_of_eq (huses r)) (fun r _ => ?_) hown
    fun r hr => ?_
  · rw [huses, hdeletes]
  · rw [hheld, haccepted] at hr
    rw [State.answerOf, hrequests]
    exact h.unanswered r hr

theorem requestsInv_enter (h : RequestsInv s) (n : ℕ) (entry : Entry) :
    RequestsInv (enter s n entry) := by
  have hrefuse : ∀ returned, RequestsInv { s with returned := returned } :=
    fun _ => h.of_eq rfl rfl rfl (fun _ => rfl) h.own
  unfold enter
  cases entry with
  | notOperational | notInitialised | drbgFailed | noRequest => exact hrefuse _
  | enters =>
    dsimp only
    split
    · exact hrefuse _
    · rename_i hfree
      have hnone : s.call = none := by simpa using hfree
      have hunused : ∀ r, s.requests.length ≤ r → s.accepted.count r = 0 ∧
          decide (s.matter.request = some r) = false := by
        intro r hr
        have hzero : ¬ 0 < s.uses r := fun hpos => absurd (h.known r hpos) (by omega)
        unfold State.uses at hzero
        refine ⟨by omega, ?_⟩
        cases hd : decide (s.matter.request = some r)
        · rfl
        · rw [hd, Bool.toNat_true] at hzero
          omega
      refine ⟨fun r hr => ?_, fun r hr => ?_, fun c hc => ?_, fun r hr => ?_⟩
      · rw [List.length_append, List.length_singleton] at hr
        by_cases hnew : r = s.requests.length
        -- the new request, which only the call knows
        · subst hnew
          obtain ⟨hcount, hmatter⟩ := hunused _ le_rfl
          simp [State.uses, State.deletesOf, State.heldByCall, Stage.holdsRequest, hcount, hmatter]
        · have hlt : r < s.requests.length := by omega
          have hold := h.once r hlt
          unfold State.uses State.deletesOf at hold ⊢
          rw [heldByCall_of_none hnone] at hold
          dsimp only
          rw [List.getElem?_append_left hlt, heldByCall_of_call rfl,
            show (s.requests.length == r) = false from beq_false_of_ne (Ne.symm hnew)]
          exact hold
      · rw [List.length_append, List.length_singleton]
        by_contra hge
        obtain ⟨hcount, hmatter⟩ := hunused r (by omega)
        unfold State.uses at hr
        rw [heldByCall_of_call rfl, show (s.requests.length == r) = false from
          beq_false_of_ne (by omega)] at hr
        dsimp only at hr
        rw [hcount, hmatter] at hr
        exact absurd hr (lt_irrefl 0)
      · obtain rfl := Option.some.inj hc
        rw [List.length_append, List.length_singleton]
        exact Nat.lt_succ_self _
      · by_cases hnew : r = s.requests.length
        · subst hnew
          rw [State.answerOf, List.getElem?_concat_length]
          rfl
        · have hacc : r ∈ s.accepted := by
            refine hr.resolve_left fun hheld => ?_
            rw [heldByCall_of_call rfl, Bool.and_eq_true, beq_iff_eq] at hheld
            exact hnew hheld.1.symm
          have hlt : r < s.requests.length := by
            by_contra hge
            exact absurd (hunused r (by omega)).1 (List.count_pos_iff.mpr hacc).ne'
          rw [State.answerOf, List.getElem?_append_left hlt]
          exact h.unanswered r (Or.inr hacc)

/-- The call goes on, and holds its request as before. -/
theorem RequestsInv.goTo (h : RequestsInv s) (hc : s.call = some c) {stage : Stage}
    (hrequests : s'.requests = s.requests) (haccepted : s'.accepted = s.accepted)
    (hmatter : s'.matter = s.matter) (hstage : stage.holdsRequest = c.stage.holdsRequest) :
    RequestsInv (s'.goTo c stage) := by
  refine h.of_eq hrequests haccepted (congrArg _ hmatter) (fun r => ?_) fun c' hc' => ?_
  · rw [heldByCall_of_call hc, heldByCall_of_call rfl, ← hstage]
  · obtain rfl := Option.some.inj hc'
    exact h.own c hc

/-- A call returns once it has let go of its request. -/
theorem RequestsInv.leave (h : RequestsInv s) (hc : s.call = some c)
    (hstage : c.stage.holdsRequest = false) (err : EspErr) (chipErr : ChipError)
    (out : Option WindowResult) : RequestsInv (s.leave c err chipErr out) := by
  refine h.of_eq rfl rfl rfl (fun r => ?_) fun c' hc' => nomatch hc'
  rw [heldByCall_of_call hc, heldByCall_of_none rfl, hstage, Bool.and_false]

theorem requestsInv_callAct (h : RequestsInv s) (hc : s.call = some c)
    (hact : callAct s c = some s') : RequestsInv s' := by
  unfold callAct at hact
  split at hact
  case h_4 => exact nomatch hact
  case h_6 err hstage =>
    -- the only reference goes with the object
    obtain rfl := Option.some.inj hact
    have hlt := h.own c hc
    have hheld : ∀ r, s.heldByCall r = (c.request == r) := by
      intro r
      rw [heldByCall_of_call hc, hstage, Stage.holdsRequest, Bool.and_true]
    have hheld' : ∀ r, ((s.delete c.request).goTo c (.leaveRefused err)).heldByCall r = false := by
      intro r
      rw [heldByCall_of_call rfl]
      exact Bool.and_false _
    have huses : ∀ r, ((s.delete c.request).goTo c (.leaveRefused err)).uses r
        + (c.request == r).toNat = s.uses r := by
      intro r
      rw [State.uses, State.uses, hheld, hheld', Bool.toNat_false, Nat.zero_add]
      exact (Nat.add_comm _ _).trans (Nat.add_assoc _ _ _).symm
    refine h.of_le length_delete (fun r => ?_) (fun r hr => ?_) (fun c' hc' => ?_) fun r hr => ?_
    · have := huses r
      omega
    · have hdeletes : ((s.delete c.request).goTo c (.leaveRefused err)).deletesOf r
          = s.deletesOf r + (decide (c.request = r ∧ c.request < s.requests.length)).toNat :=
        deletesOf_delete
      have := huses r
      rw [hdeletes]
      by_cases hcr : c.request = r
      · simp only [hcr, hr, and_self, decide_true, Bool.toNat_true, beq_self_eq_true] at *
        omega
      · simp only [hcr, false_and, decide_false, Bool.toNat_false, beq_eq_false_iff_ne.mpr hcr]
          at *
        omega
    · obtain rfl := Option.some.inj hc'
      exact hlt
    · rw [hheld'] at hr
      exact answerOf_delete.trans (h.unanswered r (Or.inr (hr.resolve_left Bool.false_ne_true)))
  case h_7 err hstage | h_10 hstage | h_13 status hstage =>
    obtain rfl := Option.some.inj hact
    exact h.leave hc (by rw [hstage]; rfl) _ _ _
  case h_8 hstage | h_11 hstage =>
    split at hact
    · obtain rfl := Option.some.inj hact
      exact h.goTo hc rfl rfl rfl (by rw [hstage]; rfl)
    · exact nomatch hact
  case h_9 hstage =>
    obtain rfl := Option.some.inj hact
    refine h.goTo hc rfl rfl rfl ?_
    rw [hstage]
    split <;> rfl
  all_goals
    rename_i hstage
    obtain rfl := Option.some.inj hact
    exact h.goTo hc rfl rfl rfl (by rw [hstage]; rfl)

/-- The Matter task goes on with its request, and deletes it in the end. -/
theorem requestsInv_matterAct {gen : Generators P} (h : RequestsInv s)
    (hact : matterAct gen s = some s') : RequestsInv s' := by
  have hgoesOn : ∀ (s' : State P), s'.requests = s.requests → s'.accepted = s.accepted →
      s'.call = s.call → s'.matter.request = s.matter.request → RequestsInv s' := by
    intro s' hrequests haccepted hcall hmatter
    refine h.of_eq hrequests haccepted hmatter (fun r => ?_) (hcall ▸ h.own)
    rw [State.heldByCall, State.heldByCall, hcall]
  unfold matterAct at hact
  split at hact
  · exact nomatch hact
  · rename_i r payload hmatter
    obtain rfl := Option.some.inj hact
    refine hgoesOn _ rfl rfl rfl ?_
    rw [hmatter]
    dsimp only
    split <;> rfl
  · rename_i r payload hmatter
    obtain rfl := Option.some.inj hact
    exact hgoesOn _ rfl rfl rfl (by rw [hmatter]; rfl)
  · rename_i r status hmatter
    obtain rfl := Option.some.inj hact
    exact hgoesOn _ rfl rfl rfl (by rw [hmatter]; rfl)
  · rename_i r hmatter
    obtain rfl := Option.some.inj hact
    exact hgoesOn _ rfl rfl rfl (by rw [hmatter]; rfl)
  · rename_i r hmatter
    obtain rfl := Option.some.inj hact
    have huses : ∀ j, ({ s.delete r with matter := .idle } : State P).uses j
        + (decide (r = j)).toNat = s.uses j := by
      intro j
      have hrequest : decide (s.matter.request = some j) = decide (r = j) := by
        rw [hmatter]
        simp [OnComplete.request]
      rw [State.uses, State.uses, hrequest]
      rfl
    have hlt : r < s.requests.length := by
      apply h.known r
      have := huses r
      rw [decide_eq_true rfl, Bool.toNat_true] at this
      omega
    refine h.of_le length_delete (fun j => ?_) (fun j hj => ?_) h.own fun j hj => ?_
    · have := huses j
      omega
    · have hdeletes : ({ s.delete r with matter := .idle } : State P).deletesOf j
          = s.deletesOf j + (decide (r = j ∧ r < s.requests.length)).toNat := deletesOf_delete
      have hboth : decide (r = j ∧ r < s.requests.length) = decide (r = j) := by simp [hlt]
      have := huses j
      rw [hdeletes, hboth]
      omega
    · exact answerOf_delete.trans (h.unanswered j hj)

theorem requestsInv_opened (h : RequestsInv s) (hc : s.call = some c)
    (hstage : c.stage = .openWindow) :
    RequestsInv ({ s with accepted := s.accepted ++ [c.request] }.goTo c .wait) := by
  have hheld : ∀ r, s.heldByCall r = (c.request == r) := by
    intro r
    rw [heldByCall_of_call hc, hstage, Stage.holdsRequest, Bool.and_true]
  have hheld' : ∀ r, ({ s with accepted := s.accepted ++ [c.request] }.goTo c
      .wait).heldByCall r = false := by
    intro r
    rw [heldByCall_of_call rfl]
    exact Bool.and_false _
  have huses : ∀ r, ({ s with accepted := s.accepted ++ [c.request] }.goTo c .wait).uses r
      = s.uses r := by
    intro r
    rw [State.uses, State.uses, hheld, hheld', State.goTo]
    dsimp only
    rw [List.count_append, List.count_singleton]
    cases c.request == r
    · simp
    · simp [Nat.add_comm]
  refine h.of_le rfl (fun r => Nat.le_of_eq (huses r)) (fun r _ => ?_) (fun c' hc' => ?_)
    fun r hr => ?_
  · rw [huses]
    rfl
  · obtain rfl := Option.some.inj hc'
    exact h.own c hc
  · rw [hheld'] at hr
    rcases List.mem_append.mp (hr.resolve_left Bool.false_ne_true) with hold | hnew
    · exact h.unanswered r (Or.inr hold)
    · refine h.unanswered r (Or.inl ?_)
      rw [hheld, List.mem_singleton.mp hnew, beq_self_eq_true]

theorem requestsInv_callback (h : RequestsInv s) {r : ℕ} (hr : r ∈ s.accepted)
    (hidle : s.matter.request = none) {matter : OnComplete P} (hmatter : matter.request = some r)
    (status : ChipError) (payload : P) :
    RequestsInv { s with
      accepted := s.accepted.erase r
      requests := s.requests.modify r fun q => { q with answer := some (status, payload) }
      waiting := false
      matter := matter } := by
  have hpos := List.count_pos_iff.mpr hr
  have hcount : ∀ j,
      (s.accepted.erase r).count j + (decide (r = j)).toNat = s.accepted.count j := by
    intro j
    by_cases hj : r = j
    · subst hj
      rw [List.count_erase_self, decide_eq_true rfl, Bool.toNat_true]
      omega
    · rw [List.count_erase_of_ne (Ne.symm hj), decide_eq_false hj]
      rfl
  have huses : ∀ j, (s.heldByCall j).toNat + (s.accepted.erase r).count j
      + (decide (matter.request = some j)).toNat = s.uses j := by
    intro j
    have hj := hcount j
    rw [State.uses, hidle, hmatter]
    simp only [Option.some.injEq, reduceCtorEq, decide_false, Bool.toNat_false]
    omega
  have hdeletes : ∀ j, ((s.requests.modify r fun q =>
      { q with answer := some (status, payload) })[j]?.map (·.deletes)).getD 0 = s.deletesOf j := by
    intro j
    rw [getElem?_modify_requests, State.deletesOf]
    cases s.requests[j]? with
    | none => rfl
    | some q =>
      rw [Option.map_some, Option.map_some, Option.map_some]
      split <;> rfl
  refine h.of_le (List.length_modify ..) (fun j => Nat.le_of_eq (huses j)) (fun j _ => ?_) h.own
    fun j hj => ?_
  · exact congrArg₂ (· + ·) (hdeletes j) (huses j)
  -- a request that is called back is used nowhere else
  · have hne : r ≠ j := by
      rintro rfl
      have hle := h.once r (h.known r (by rw [State.uses]; omega))
      have hj' := hcount r
      rw [State.uses] at hle
      rw [decide_eq_true rfl, Bool.toNat_true] at hj'
      rcases hj with hheld | hmem
      · rw [show s.heldByCall r = true from hheld, Bool.toNat_true] at hle
        omega
      · have := List.count_pos_iff.mpr (show r ∈ s.accepted.erase r from hmem)
        omega
    rw [State.answerOf, getElem?_modify_requests]
    have hold : s.answerOf j = none := by
      refine h.unanswered j (hj.imp id fun hmem => List.mem_of_mem_erase hmem)
    rw [State.answerOf] at hold
    cases hq : s.requests[j]? with
    | none => rfl
    | some q =>
      rw [hq] at hold
      simpa [hne] using hold

theorem requestsInv_step (gen : Generators P) (s : State P) (l : Label P) (s' : State P)
    (h : RequestsInv s) (hstep : step gen s l = some s') : RequestsInv s' := by
  cases l with
  | call n entry =>
    obtain rfl := Option.some.inj hstep
    exact requestsInv_enter h n entry
  | act =>
    obtain ⟨c, hc, hact⟩ := Option.bind_eq_some_iff.mp hstep
    exact requestsInv_callAct h hc hact
  | opened err =>
    simp only [step] at hstep
    split at hstep
    · rename_i c hc
      split at hstep
      · rename_i hstage
        split at hstep
        · obtain rfl := Option.some.inj hstep
          exact requestsInv_opened h hc hstage
        · obtain rfl := Option.some.inj hstep
          exact h.goTo hc rfl rfl rfl (by rw [hstage]; rfl)
      · exact nomatch hstep
    · exact nomatch hstep
  | timeout =>
    simp only [step] at hstep
    split at hstep
    · rename_i c hc
      split at hstep
      · rename_i hwait
        obtain rfl := Option.some.inj hstep
        exact h.goTo hc rfl rfl rfl (by rw [hwait.1]; rfl)
      · exact nomatch hstep
    · exact nomatch hstep
  | callback r status payload =>
    simp only [step] at hstep
    split at hstep
    · rename_i hidle
      split at hstep
      · rename_i hr
        obtain rfl := Option.some.inj hstep
        refine requestsInv_callback h hr (by rw [hidle]; rfl) ?_ status payload
        split
        · split <;> rfl
        · rfl
      · exact nomatch hstep
    · exact nomatch hstep
  | matter => exact requestsInv_matterAct h hstep

end Steps

theorem requestsInv_init : RequestsInv ({} : State P) where
  once r hr := absurd hr (Nat.not_lt_zero r)
  known r hr := by
    have hzero : ({} : State P).uses r = 0 := rfl
    rw [hzero] at hr
    exact absurd hr (lt_irrefl 0)
  own c hc := nomatch hc
  unanswered r _ := rfl

end HomeEnergyManager.CommissioningWindow
