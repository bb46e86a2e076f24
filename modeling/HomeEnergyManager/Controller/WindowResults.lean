import HomeEnergyManager.Controller.WindowRequests

/-! # The results of a commissioning window

The waiting flag does not say who waits. A callback that comes late finds the flag of the next call
and hands it the codes of another node. While no callback finds the flag of another call, each call
returns what its own callback was called with.
-/

namespace HomeEnergyManager.CommissioningWindow

variable {P : Type}

def State.nodeOf (s : State P) (r : ℕ) : Option ℕ := s.requests[r]?.map (·.nodeId)

/-- What a call returned is its own: success comes with a result, and a result is what the callback
of the call's own request, one for the call's node, made of its arguments. -/
def Returned.Own (gen : Generators P) (s : State P) (ret : Returned) : Prop :=
  (ret.err = .ok → ret.out.isSome = true) ∧
  ∀ out ∈ ret.out, ∃ r status payload, ret.request = some r ∧ s.nodeOf r = some ret.nodeId ∧
    s.answerOf r = some (status, payload) ∧ (ret.chipErr, out) = complete gen status payload

/-- No call returns the result of another, and each request is deleted once, after its last use. -/
def NeverMixed (gen : Generators P) (s : State P) : Prop :=
  (∀ ret ∈ s.returned, ret.Own gen s) ∧ DeletedOnce s

/-- The condition on a step. A callback finds the flag set only by the call of its own request. -/
def StepOwnClaim (s : State P) : Label P → Prop
  | .callback r _ _ => s.waiting = true → s.call.map (·.request) = some r
  | _ => True

instance (s : State P) : DecidablePred (StepOwnClaim s)
  | .callback _ _ _ => inferInstanceAs (Decidable (_ → _))
  | .call _ _ | .act | .opened _ | .timeout | .matter => isTrue trivial

/-! ## The invariant -/

/-- The flag may be set. -/
def Stage.armed : Stage → Bool
  | .openWindow | .disarm _ | .wait | .giveUp => true
  | _ => false

/-- The call takes the semaphore before it does anything else with the result. -/
def Stage.awaits : Stage → Bool
  | .wait | .giveUp | .waitForClaimed => true
  | _ => false

/-- The callback has claimed the result and not yet given the semaphore. -/
def OnComplete.writes : OnComplete P → Bool
  | .writeManualCode _ _ | .writeQrCode _ _ | .writeStatus _ _ | .give _ => true
  | .idle | .deleteRequest _ => false

/-- The status and the result are what the callback of the request made of its arguments. -/
def State.Filled (gen : Generators P) (s : State P) (r : ℕ) : Prop :=
  ∃ status payload, s.answerOf r = some (status, payload) ∧
    (s.status, s.result) = complete gen status payload

/-- The callback of the request has claimed the result of the call that waits for it. -/
def State.Claimed (s : State P) (r : ℕ) : Prop :=
  s.waiting = false ∧ s.done = false ∧ ∃ c ∈ s.call, c.request = r ∧ c.stage.awaits = true

/-- How far the callback has got with the result. -/
def State.WritesOwn (gen : Generators P) (s : State P) : OnComplete P → Prop
  | .writeManualCode r payload =>
    s.Claimed r ∧ s.answerOf r = some (0, payload) ∧ s.result = {}
  | .writeQrCode r payload =>
    s.Claimed r ∧ s.answerOf r = some (0, payload) ∧ (gen.manualCode payload).1 = 0 ∧
      s.result = { manualCode := (gen.manualCode payload).2 }
  | .writeStatus r written =>
    s.Claimed r ∧ ∃ status payload, s.answerOf r = some (status, payload) ∧
      (written, s.result) = complete gen status payload
  | .give r => s.Claimed r ∧ s.Filled gen r
  | .idle | .deleteRequest _ => True

/-- The invariant: what is written, given and read is the result of the call that waits for it. -/
structure ResultsInv (gen : Generators P) (s : State P) : Prop where
  requests : RequestsInv s
  node : ∀ c ∈ s.call, s.nodeOf c.request = some c.nodeId
  matter : s.WritesOwn gen s.matter
  armed : s.waiting = true → s.result = {} ∧ ∃ c ∈ s.call, c.stage.armed = true
  given : s.done = true → s.matter.writes = false ∧ s.waiting = false ∧
    ∃ c ∈ s.call, c.stage.awaits = true ∧ s.Filled gen c.request
  cleared : ∀ c ∈ s.call, c.stage = .drain ∨ c.stage = .arm → s.result = {}
  reading : ∀ c ∈ s.call, c.stage = .readStatus → s.Filled gen c.request
  read : ∀ c ∈ s.call, ∀ status, c.stage = .readResult status →
    ∃ status' payload, s.answerOf c.request = some (status', payload) ∧
      (status, s.result) = complete gen status' payload
  returned : ∀ ret ∈ s.returned, ret.Own gen s

section Frame

variable {gen : Generators P} {s s' : State P} {c : Call}

/-- The requests keep their nodes and their answers. -/
structure Keeps (s s' : State P) : Prop where
  node : ∀ r n, s.nodeOf r = some n → s'.nodeOf r = some n
  answer : ∀ r x, s.answerOf r = some x → s'.answerOf r = some x

theorem Keeps.of_eq (h : s'.requests = s.requests) : Keeps s s' where
  node r n hn := by rw [State.nodeOf, h]; exact hn
  answer r x hx := by rw [State.answerOf, h]; exact hx

theorem keeps_delete (r : ℕ) : Keeps s (s.delete r) where
  node j n hn := by
    unfold State.nodeOf State.delete at *
    rw [getElem?_modify_requests]
    obtain ⟨q, hq, rfl⟩ := Option.map_eq_some_iff.mp hn
    rw [hq, Option.map_some, Option.map_some]
    split <;> rfl
  answer j x hx := answerOf_delete.trans hx

theorem keeps_append {q : OpenRequest P} (h : s'.requests = s.requests ++ [q]) : Keeps s s' where
  node r n hn := by
    obtain ⟨p, hp, rfl⟩ := Option.map_eq_some_iff.mp hn
    rw [State.nodeOf, h, List.getElem?_append_left (List.getElem?_eq_some_iff.mp hp).1, hp]
    rfl
  answer r x hx := by
    obtain ⟨p, hp, hpx⟩ := Option.bind_eq_some_iff.mp hx
    rw [State.answerOf, h, List.getElem?_append_left (List.getElem?_eq_some_iff.mp hp).1, hp]
    exact hpx

/-- A callback answers a request that was not answered before. -/
theorem keeps_answer {r : ℕ} {x : ChipError × P} (hnone : s.answerOf r = none)
    (h : s'.requests = s.requests.modify r fun q => { q with answer := some x }) : Keeps s s' where
  node j n hn := by
    obtain ⟨p, hp, rfl⟩ := Option.map_eq_some_iff.mp hn
    rw [State.nodeOf, h, getElem?_modify_requests, hp, Option.map_some, Option.map_some]
    split <;> rfl
  answer j y hy := by
    have hne : r ≠ j := by
      rintro rfl
      rw [hnone] at hy
      exact nomatch hy
    rw [State.answerOf, h, List.getElem?_modify_ne _ _ hne]
    exact hy

theorem Returned.Own.keeps {ret : Returned} (h : ret.Own gen s) (hkeeps : Keeps s s') :
    ret.Own gen s' := by
  refine ⟨h.1, fun out hout => ?_⟩
  obtain ⟨r, status, payload, hr, hnode, hanswer, heq⟩ := h.2 out hout
  exact ⟨r, status, payload, hr, hkeeps.node _ _ hnode, hkeeps.answer _ _ hanswer, heq⟩

theorem State.Filled.keeps {r : ℕ} (h : s.Filled gen r) (hkeeps : Keeps s s')
    (hstatus : s'.status = s.status) (hresult : s'.result = s.result) : s'.Filled gen r := by
  obtain ⟨status, payload, hanswer, heq⟩ := h
  refine ⟨status, payload, hkeeps.answer _ _ hanswer, ?_⟩
  rw [hstatus, hresult, heq]

theorem writesOwn_of_not_writes {matter : OnComplete P} (h : matter.writes = false) :
    s.WritesOwn gen matter := by
  cases matter with
  | idle | deleteRequest => trivial
  | writeManualCode | writeQrCode | writeStatus | give => exact nomatch h

/-- What has been written stays while the call waits on. -/
theorem State.WritesOwn.keeps {matter : OnComplete P} (h : s.WritesOwn gen matter)
    (hkeeps : Keeps s s') (hstatus : s'.status = s.status) (hresult : s'.result = s.result)
    (hclaimed : ∀ r, s.Claimed r → s'.Claimed r) : s'.WritesOwn gen matter := by
  cases matter with
  | idle | deleteRequest => trivial
  | writeManualCode r payload =>
    exact ⟨hclaimed r h.1, hkeeps.answer _ _ h.2.1, hresult.trans h.2.2⟩
  | writeQrCode r payload =>
    exact ⟨hclaimed r h.1, hkeeps.answer _ _ h.2.1, h.2.2.1, hresult.trans h.2.2.2⟩
  | writeStatus r written =>
    obtain ⟨hc, status, payload, hanswer, heq⟩ := h
    refine ⟨hclaimed r hc, status, payload, hkeeps.answer _ _ hanswer, ?_⟩
    rw [hresult, heq]
  | give r => exact ⟨hclaimed r h.1, h.2.keeps hkeeps hstatus hresult⟩

/-- Only the result of a call that waits is written. -/
theorem claimed_of_writes (h : s.WritesOwn gen s.matter) (hwrites : s.matter.writes = true) :
    ∃ r, s.Claimed r := by
  generalize s.matter = matter at h hwrites
  cases matter with
  | idle | deleteRequest => exact nomatch hwrites
  | writeManualCode r | writeQrCode r | writeStatus r | give r => exact ⟨r, h.1⟩

/-- While the call does not wait, nothing is written and the semaphore is not given. -/
theorem ResultsInv.quiet (h : ResultsInv gen s) (hc : ∀ c ∈ s.call, c.stage.awaits = false) :
    s.matter.writes = false ∧ s.done = false := by
  constructor
  · cases hwrites : s.matter.writes with
    | false => rfl
    | true =>
      obtain ⟨r, -, -, c, hcall, -, hawaits⟩ := claimed_of_writes h.matter hwrites
      rw [hc c hcall] at hawaits
      exact nomatch hawaits
  · cases hdone : s.done with
    | false => rfl
    | true =>
      obtain ⟨-, -, c, hcall, hawaits, -⟩ := h.given hdone
      rw [hc c hcall] at hawaits
      exact nomatch hawaits

/-- Outside the stages that arm the flag it is not set. -/
theorem ResultsInv.unarmed (h : ResultsInv gen s) (hc : ∀ c ∈ s.call, c.stage.armed = false) :
    s.waiting = false := by
  cases hwaiting : s.waiting with
  | false => rfl
  | true =>
    obtain ⟨-, c, hcall, harmed⟩ := h.armed hwaiting
    rw [hc c hcall] at harmed
    exact nomatch harmed

end Frame

section Call

variable {gen : Generators P} {s s' : State P} {c : Call}

/-- The call goes on while nobody writes its result. -/
theorem ResultsInv.goTo (h : ResultsInv gen s) (hc : s.call = some c) {stage : Stage}
    (hrequests : RequestsInv (s'.goTo c stage)) (hkeeps : Keeps s s')
    (hmatter : s'.matter = s.matter) (hwrites : s.matter.writes = false) (hdone : s'.done = false)
    (hreturned : s'.returned = s.returned)
    (harmed : s'.waiting = true → s'.result = {} ∧ stage.armed = true)
    (hcleared : stage = .drain ∨ stage = .arm → s'.result = {})
    (hreading : stage = .readStatus → s'.Filled gen c.request)
    (hread : ∀ status, stage = .readResult status → ∃ status' payload,
      s'.answerOf c.request = some (status', payload) ∧
        (status, s'.result) = complete gen status' payload) :
    ResultsInv gen (s'.goTo c stage) := by
  have hcall : ∀ c' ∈ (s'.goTo c stage).call, c' = { c with stage := stage } :=
    fun c' hc' => (Option.some.inj hc').symm
  refine ⟨hrequests, fun c' hc' => ?_, writesOwn_of_not_writes (hmatter ▸ hwrites),
    fun hwaiting => ?_, fun hgiven => ?_, fun c' hc' hstage => ?_, fun c' hc' hstage => ?_,
    fun c' hc' status hstage => ?_, fun ret hret => ?_⟩
  · rw [hcall c' hc']
    exact hkeeps.node _ _ (h.node c hc)
  · exact ⟨(harmed hwaiting).1, _, rfl, (harmed hwaiting).2⟩
  · exact absurd (hdone.symm.trans hgiven) Bool.false_ne_true
  · rw [hcall c' hc'] at hstage
    exact hcleared hstage
  · rw [hcall c' hc'] at hstage ⊢
    exact hreading hstage
  · rw [hcall c' hc'] at hstage ⊢
    exact hread status hstage
  · rw [State.goTo, hreturned] at hret
    exact (h.returned ret hret).keeps ⟨hkeeps.node, hkeeps.answer⟩

/-- The call goes on waiting. -/
theorem ResultsInv.waitOn (h : ResultsInv gen s) (hc : s.call = some c) {stage : Stage}
    (hrequests : RequestsInv (s.goTo c stage)) (hstage : stage.awaits = true)
    (harmed : s.waiting = true → stage.armed = true) : ResultsInv gen (s.goTo c stage) := by
  have hcall : ∀ c' ∈ (s.goTo c stage).call, c' = { c with stage := stage } :=
    fun c' hc' => (Option.some.inj hc').symm
  have hkeeps : Keeps s (s.goTo c stage) := .of_eq rfl
  have hclaimed : ∀ r, s.Claimed r → (s.goTo c stage).Claimed r := by
    rintro r ⟨hwaiting, hdone, c', hc', rfl, -⟩
    obtain rfl := Option.some.inj (hc.symm.trans hc')
    exact ⟨hwaiting, hdone, _, rfl, rfl, hstage⟩
  refine ⟨hrequests, fun c' hc' => ?_, h.matter.keeps hkeeps rfl rfl hclaimed, fun hwaiting => ?_,
    fun hgiven => ?_, fun c' hc' hstage' => ?_, fun c' hc' hstage' => ?_,
    fun c' hc' status hstage' => ?_, h.returned⟩
  · rw [hcall c' hc']
    exact h.node c hc
  · exact ⟨(h.armed hwaiting).1, _, rfl, harmed hwaiting⟩
  · obtain ⟨hwrites, hwaiting, c', hc', -, hfilled⟩ := h.given hgiven
    obtain rfl := Option.some.inj (hc.symm.trans hc')
    exact ⟨hwrites, hwaiting, _, rfl, hstage, hfilled⟩
  · rw [hcall c' hc'] at hstage'
    rcases hstage' with rfl | rfl <;> exact nomatch hstage
  · rw [hcall c' hc'] at hstage'
    obtain rfl := hstage'
    exact nomatch hstage
  · rw [hcall c' hc'] at hstage'
    obtain rfl := hstage'
    exact nomatch hstage

/-- A call returns while nobody writes its result. -/
theorem ResultsInv.leave (h : ResultsInv gen s) {err : EspErr} {chipErr : ChipError}
    {out : Option WindowResult} (hrequests : RequestsInv (s.leave c err chipErr out))
    (hwrites : s.matter.writes = false) (hdone : s.done = false) (hwaiting : s.waiting = false)
    (hown : Returned.Own gen s
      { nodeId := c.nodeId, request := some c.request, err := err, chipErr := chipErr,
        out := out }) :
    ResultsInv gen (s.leave c err chipErr out) := by
  have hkeeps : Keeps s (s.leave c err chipErr out) := .of_eq rfl
  refine ⟨hrequests, nofun, writesOwn_of_not_writes hwrites, fun hset => ?_, fun hgiven => ?_,
    nofun, nofun, nofun, fun ret hret => ?_⟩
  · exact absurd (hwaiting.symm.trans hset) Bool.false_ne_true
  · exact absurd (hdone.symm.trans hgiven) Bool.false_ne_true
  · rcases List.mem_append.mp hret with hold | hnew
    · exact (h.returned ret hold).keeps hkeeps
    · rw [List.mem_singleton.mp hnew]
      exact hown.keeps hkeeps

/-- A call that returns no success and no result returns nothing of another. -/
theorem own_of_out_eq_none {ret : Returned} (herr : ret.err ≠ .ok) (hout : ret.out = none) :
    ret.Own gen s := by
  refine ⟨fun hok => absurd hok herr, fun out hmem => ?_⟩
  rw [hout] at hmem
  exact nomatch hmem

/-- A call that is not waiting for its result has nobody writing it. -/
theorem ResultsInv.quiet_of_stage (h : ResultsInv gen s) (hc : s.call = some c)
    (hawaits : c.stage.awaits = false) : s.matter.writes = false ∧ s.done = false := by
  refine h.quiet fun c' hc' => ?_
  obtain rfl := Option.some.inj (hc.symm.trans hc')
  exact hawaits

theorem ResultsInv.unarmed_of_stage (h : ResultsInv gen s) (hc : s.call = some c)
    (harmed : c.stage.armed = false) : s.waiting = false := by
  refine h.unarmed fun c' hc' => ?_
  obtain rfl := Option.some.inj (hc.symm.trans hc')
  exact harmed

/-- What is not set need not be looked after. -/
theorem unset_elim {q : Prop} (hunset : s.waiting = false) (hset : s.waiting = true) : q :=
  absurd (hunset.symm.trans hset) Bool.false_ne_true

/-- The semaphore that a call takes was given for its own result. -/
theorem resultsInv_take (h : ResultsInv gen s) (hc : s.call = some c) (hdone : s.done = true)
    (hrequests : RequestsInv ({ s with done := false }.goTo c .readStatus)) :
    ResultsInv gen ({ s with done := false }.goTo c .readStatus) := by
  obtain ⟨hwrites, hwaiting, c', hc', -, hfilled⟩ := h.given hdone
  obtain rfl := Option.some.inj (hc.symm.trans hc')
  exact h.goTo hc hrequests (.of_eq rfl) rfl hwrites rfl rfl (unset_elim hwaiting) (by simp)
    (fun _ => hfilled.keeps (.of_eq rfl) rfl rfl) nofun

/-- A call that has timed out leaves, or waits for the callback that has claimed its result. -/
theorem resultsInv_giveUp (h : ResultsInv gen s) (hc : s.call = some c)
    (hrequests : RequestsInv ({ s with waiting := false }.goTo c
      (if s.waiting then .leaveTimedOut else .waitForClaimed))) :
    ResultsInv gen ({ s with waiting := false }.goTo c
      (if s.waiting then .leaveTimedOut else .waitForClaimed)) := by
  cases hwaiting : s.waiting with
  | true =>
    rw [hwaiting] at hrequests
    have hwrites : s.matter.writes = false := by
      cases hw : s.matter.writes with
      | false => rfl
      | true =>
        obtain ⟨r, hunset, -⟩ := claimed_of_writes h.matter hw
        exact unset_elim hunset hwaiting
    have hdone : s.done = false := by
      cases hd : s.done with
      | false => rfl
      | true => exact unset_elim (h.given hd).2.1 hwaiting
    exact h.goTo hc hrequests (.of_eq rfl) rfl hwrites hdone rfl nofun (by simp) (by simp)
      (by simp)
  | false =>
    have hsame : { s with waiting := false } = s := by rw [← hwaiting]
    rw [hwaiting, hsame] at hrequests
    rw [hsame]
    exact h.waitOn hc hrequests rfl (unset_elim hwaiting)

/-- A call returns the status that it has read and the result, which are of its own request. -/
theorem resultsInv_readResult (h : ResultsInv gen s) (hc : s.call = some c) {status : ChipError}
    (hstage : c.stage = .readResult status)
    (hrequests : RequestsInv
      (s.leave c (if status = 0 then .ok else .fail) status (some s.result))) :
    ResultsInv gen (s.leave c (if status = 0 then .ok else .fail) status (some s.result)) := by
  obtain ⟨hwrites, hdone⟩ := h.quiet_of_stage hc (by rw [hstage]; rfl)
  have hwaiting := h.unarmed_of_stage hc (by rw [hstage]; rfl)
  refine h.leave hrequests hwrites hdone hwaiting ⟨fun _ => rfl, ?_⟩
  intro out hout
  obtain rfl := Option.some.inj hout
  obtain ⟨status', payload, hanswer, heq⟩ := h.read c hc status hstage
  exact ⟨c.request, status', payload, rfl, h.node c hc, hanswer, heq⟩

theorem resultsInv_callAct (h : ResultsInv gen s) (hc : s.call = some c)
    (hact : callAct s c = some s') : ResultsInv gen s' := by
  have hrequests := requestsInv_callAct h.requests hc hact
  unfold callAct at hact
  split at hact
  case h_1 hstage =>
    obtain rfl := Option.some.inj hact
    obtain ⟨hwrites, hdone⟩ := h.quiet_of_stage hc (by rw [hstage]; rfl)
    have hwaiting := h.unarmed_of_stage hc (by rw [hstage]; rfl)
    exact h.goTo hc hrequests (.of_eq rfl) rfl hwrites hdone rfl (unset_elim hwaiting)
      (fun _ => rfl) nofun nofun
  case h_2 hstage =>
    obtain rfl := Option.some.inj hact
    obtain ⟨hwrites, -⟩ := h.quiet_of_stage hc (by rw [hstage]; rfl)
    have hwaiting := h.unarmed_of_stage hc (by rw [hstage]; rfl)
    exact h.goTo hc hrequests (.of_eq rfl) rfl hwrites rfl rfl (unset_elim hwaiting)
      (fun _ => h.cleared c hc (Or.inl hstage)) nofun nofun
  case h_3 hstage =>
    obtain rfl := Option.some.inj hact
    obtain ⟨hwrites, hdone⟩ := h.quiet_of_stage hc (by rw [hstage]; rfl)
    exact h.goTo hc hrequests (.of_eq rfl) rfl hwrites hdone rfl
      (fun _ => ⟨h.cleared c hc (Or.inr hstage), rfl⟩) (by simp) nofun nofun
  case h_4 => exact nomatch hact
  case h_5 err hstage =>
    obtain rfl := Option.some.inj hact
    obtain ⟨hwrites, hdone⟩ := h.quiet_of_stage hc (by rw [hstage]; rfl)
    exact h.goTo hc hrequests (.of_eq rfl) rfl hwrites hdone rfl nofun (by simp) nofun nofun
  case h_6 err hstage =>
    obtain rfl := Option.some.inj hact
    obtain ⟨hwrites, hdone⟩ := h.quiet_of_stage hc (by rw [hstage]; rfl)
    have hwaiting := h.unarmed_of_stage hc (by rw [hstage]; rfl)
    exact h.goTo hc hrequests (keeps_delete _) rfl hwrites hdone rfl (unset_elim hwaiting)
      (by simp) nofun nofun
  case h_7 err hstage | h_10 hstage =>
    obtain rfl := Option.some.inj hact
    obtain ⟨hwrites, hdone⟩ := h.quiet_of_stage hc (by rw [hstage]; rfl)
    exact h.leave hrequests hwrites hdone (h.unarmed_of_stage hc (by rw [hstage]; rfl))
      (own_of_out_eq_none nofun rfl)
  case h_8 hstage | h_11 hstage =>
    split at hact
    · rename_i hdone
      obtain rfl := Option.some.inj hact
      exact resultsInv_take h hc hdone hrequests
    · exact nomatch hact
  case h_9 hstage =>
    obtain rfl := Option.some.inj hact
    exact resultsInv_giveUp h hc hrequests
  case h_12 hstage =>
    obtain rfl := Option.some.inj hact
    obtain ⟨hwrites, hdone⟩ := h.quiet_of_stage hc (by rw [hstage]; rfl)
    have hwaiting := h.unarmed_of_stage hc (by rw [hstage]; rfl)
    refine h.goTo hc hrequests (.of_eq rfl) rfl hwrites hdone rfl (unset_elim hwaiting) (by simp)
      nofun fun status heq => ?_
    obtain rfl := Stage.readResult.inj heq
    exact h.reading c hc hstage
  case h_13 status hstage =>
    obtain rfl := Option.some.inj hact
    exact resultsInv_readResult h hc hstage hrequests

end Call

section Steps

variable {gen : Generators P} {s s' : State P}

theorem resultsInv_enter (h : ResultsInv gen s) (n : ℕ) (entry : Entry) :
    ResultsInv gen (enter s n entry) := by
  have hrequests := requestsInv_enter h.requests n entry
  have hrefuse : ∀ err : EspErr, err ≠ .ok →
      RequestsInv { s with
        returned := s.returned ++ [{ nodeId := n, request := none, err := err }] } →
      ResultsInv gen { s with
        returned := s.returned ++ [{ nodeId := n, request := none, err := err }] } := by
    intro err herr hrequests'
    refine ⟨hrequests', h.node, ?_, h.armed, h.given, h.cleared, h.reading, h.read,
      fun ret hret => ?_⟩
    · exact h.matter.keeps (.of_eq rfl) rfl rfl fun r hr => hr
    · rcases List.mem_append.mp hret with hold | hnew
      · exact (h.returned ret hold).keeps (.of_eq rfl)
      · rw [List.mem_singleton.mp hnew]
        exact own_of_out_eq_none herr rfl
  unfold enter at hrequests ⊢
  cases entry with
  | notOperational | notInitialised => exact hrefuse _ nofun hrequests
  | drbgFailed | noRequest =>
    refine hrefuse _ ?_ hrequests
    split <;> exact nofun
  | enters =>
    dsimp only at hrequests ⊢
    split at hrequests
    · rename_i hbusy
      rw [if_pos hbusy]
      exact hrefuse _ nofun hrequests
    · rename_i hfree
      rw [if_neg hfree]
      have hnone : s.call = none := by simpa using hfree
      have hcalls : ∀ c, c ∉ s.call := fun c hc => nomatch hnone.symm.trans hc
      obtain ⟨hwrites, hdone⟩ := h.quiet fun c hc => absurd hc (hcalls c)
      have hwaiting := h.unarmed fun c hc => absurd hc (hcalls c)
      refine ⟨hrequests, fun c hc => ?_, writesOwn_of_not_writes hwrites, fun hset => ?_,
        fun hgiven => ?_, fun c hc hstage => ?_, fun c hc hstage => ?_,
        fun c hc status hstage => ?_,
        fun ret hret => (h.returned ret hret).keeps (keeps_append rfl)⟩
      · obtain rfl := Option.some.inj hc
        rw [State.nodeOf, List.getElem?_concat_length]
        rfl
      · exact absurd (hwaiting.symm.trans hset) Bool.false_ne_true
      · exact absurd (hdone.symm.trans hgiven) Bool.false_ne_true
      all_goals
        obtain rfl := Option.some.inj hc
        simp at hstage

/-- A callback that claims the result finds the call of its own request waiting for it. -/
theorem claimed_of_callback (h : ResultsInv gen s) {r : ℕ} (hr : r ∈ s.accepted)
    (hok : s.waiting = true → s.call.map (·.request) = some r) (hwaiting : s.waiting = true) :
    s.done = false ∧ s.result = {} ∧ ∃ c ∈ s.call, c.request = r ∧ c.stage.awaits = true := by
  obtain ⟨hresult, c, hc, harmed⟩ := h.armed hwaiting
  have hown : c.request = r := by
    rw [hc] at hok
    exact Option.some.inj (hok hwaiting)
  have hdone : s.done = false := by
    cases hd : s.done with
    | false => rfl
    | true => exact absurd ((h.given hd).2.1.symm.trans hwaiting) Bool.false_ne_true
  -- the request is with CHIP, so the call has let go of it
  have hheld : s.heldByCall r = false := by
    cases hb : s.heldByCall r with
    | false => rfl
    | true =>
      have hpos := List.count_pos_iff.mpr hr
      have huses : 1 < s.uses r := by
        rw [State.uses, hb, Bool.toNat_true]
        omega
      have hone := h.requests.once r (h.requests.known r (by omega))
      omega
  rw [heldByCall_of_call hc, hown, beq_self_eq_true, Bool.true_and] at hheld
  refine ⟨hdone, hresult, c, hc, hown, ?_⟩
  generalize c.stage = stage at harmed hheld
  cases stage <;> simp [Stage.armed, Stage.holdsRequest, Stage.awaits] at harmed hheld ⊢

theorem resultsInv_callback (h : ResultsInv gen s) {r : ℕ} (hr : r ∈ s.accepted)
    (hok : s.waiting = true → s.call.map (·.request) = some r)
    (status : ChipError) (payload : P)
    (hrequests : RequestsInv { s with
      accepted := s.accepted.erase r
      requests := s.requests.modify r fun q => { q with answer := some (status, payload) }
      waiting := false
      matter := if s.waiting then
          if status = 0 then .writeManualCode r payload else .writeStatus r status
        else .deleteRequest r }) :
    ResultsInv gen { s with
      accepted := s.accepted.erase r
      requests := s.requests.modify r fun q => { q with answer := some (status, payload) }
      waiting := false
      matter := if s.waiting then
          if status = 0 then .writeManualCode r payload else .writeStatus r status
        else .deleteRequest r } := by
  have hkeeps : Keeps s { s with
      accepted := s.accepted.erase r
      requests := s.requests.modify r fun q => { q with answer := some (status, payload) }
      waiting := false
      matter := if s.waiting then
          if status = 0 then .writeManualCode r payload else .writeStatus r status
        else .deleteRequest r } :=
    keeps_answer (h.requests.unanswered r (Or.inr hr)) rfl
  have hanswer : (s.requests.modify r fun q => { q with answer := some (status, payload) })[r]?.bind
      (·.answer) = some (status, payload) := by
    have hlt : r < s.requests.length := by
      apply h.requests.known r
      have := List.count_pos_iff.mpr hr
      rw [State.uses]
      omega
    rw [getElem?_modify_requests, List.getElem?_eq_getElem hlt]
    simp
  refine ⟨hrequests, fun c hc => hkeeps.node _ _ (h.node c hc), ?_, by simp, fun hgiven => ?_,
    h.cleared, fun c hc hstage => (h.reading c hc hstage).keeps hkeeps rfl rfl,
    fun c hc status' hstage => ?_, fun ret hret => (h.returned ret hret).keeps hkeeps⟩
  · dsimp only
    cases hwaiting : s.waiting with
    | false => trivial
    | true =>
      obtain ⟨hdone, hresult, hcall⟩ := claimed_of_callback h hr hok hwaiting
      rw [if_pos rfl]
      split
      · rename_i hstatus
        subst hstatus
        exact ⟨⟨rfl, hdone, hcall⟩, hanswer, hresult⟩
      · rename_i hstatus
        refine ⟨⟨rfl, hdone, hcall⟩, status, payload, hanswer, ?_⟩
        rw [complete, if_neg hstatus]
        exact congrArg _ hresult
  · obtain ⟨-, hwaiting, c, hc, hawaits, hfilled⟩ := h.given hgiven
    refine ⟨?_, rfl, c, hc, hawaits, hfilled.keeps hkeeps rfl rfl⟩
    dsimp only
    rw [hwaiting]
    rfl
  · obtain ⟨status'', payload', hold, heq⟩ := h.read c hc status' hstage
    exact ⟨status'', payload', hkeeps.answer _ _ hold, heq⟩

/-- The Matter task goes on with the result of the call that waits for it. -/
theorem ResultsInv.write (h : ResultsInv gen s) {r : ℕ} (hclaimed : s.Claimed r)
    (hrequests : RequestsInv s') (hkeeps : s'.requests = s.requests) (hcall : s'.call = s.call)
    (hwaiting : s'.waiting = s.waiting) (hreturned : s'.returned = s.returned)
    (hmatter : s'.WritesOwn gen s'.matter)
    (hgiven : s'.done = true → s'.matter.writes = false ∧ s'.Filled gen r) :
    ResultsInv gen s' := by
  obtain ⟨hunset, -, c, hc, rfl, hawaits⟩ := hclaimed
  have hsame : ∀ c' ∈ s'.call, c' = c := by
    intro c' hc'
    rw [hcall, Option.mem_def.mp hc] at hc'
    exact (Option.some.inj hc').symm
  refine ⟨hrequests, fun c' hc' => ?_, hmatter, fun hset => ?_, fun hd => ?_,
    fun c' hc' hstage => ?_, fun c' hc' hstage => ?_, fun c' hc' status hstage => ?_,
    fun ret hret => ?_⟩
  · rw [hsame c' hc']
    exact (Keeps.of_eq hkeeps).node _ _ (h.node c hc)
  · exact absurd ((hwaiting.trans hunset).symm.trans hset) Bool.false_ne_true
  · exact ⟨(hgiven hd).1, hwaiting.trans hunset, c, hcall ▸ hc, hawaits, (hgiven hd).2⟩
  · rw [hsame c' hc'] at hstage
    rcases hstage with hstage | hstage <;> rw [hstage] at hawaits <;> exact nomatch hawaits
  · rw [hsame c' hc'] at hstage
    rw [hstage] at hawaits
    exact nomatch hawaits
  · rw [hsame c' hc'] at hstage
    rw [hstage] at hawaits
    exact nomatch hawaits
  · rw [hreturned] at hret
    exact (h.returned ret hret).keeps (.of_eq hkeeps)

theorem resultsInv_matterAct (h : ResultsInv gen s) (hact : matterAct gen s = some s') :
    ResultsInv gen s' := by
  have hrequests := requestsInv_matterAct h.requests hact
  have hmatter := h.matter
  have hnotDone : ∀ {q : Prop}, s.done = false → s.done = true → q :=
    fun hfalse htrue => absurd (hfalse.symm.trans htrue) Bool.false_ne_true
  unfold matterAct at hact
  split at hact
  · exact nomatch hact
  · rename_i r payload heq
    obtain rfl := Option.some.inj hact
    rw [heq] at hmatter
    obtain ⟨hclaimed, hanswer, hresult⟩ := hmatter
    refine h.write hclaimed hrequests rfl rfl rfl rfl ?_ (hnotDone hclaimed.2.1)
    dsimp only
    split
    · rename_i hcode
      refine ⟨hclaimed, hanswer, hcode, ?_⟩
      dsimp only
      rw [hresult]
    · rename_i hcode
      refine ⟨hclaimed, 0, payload, hanswer, ?_⟩
      dsimp only
      rw [complete, if_pos rfl, hresult]
      dsimp only
      rw [if_neg hcode]
  · rename_i r payload heq
    obtain rfl := Option.some.inj hact
    rw [heq] at hmatter
    obtain ⟨hclaimed, hanswer, hcode, hresult⟩ := hmatter
    refine h.write hclaimed hrequests rfl rfl rfl rfl ?_ (hnotDone hclaimed.2.1)
    refine ⟨hclaimed, 0, payload, hanswer, ?_⟩
    dsimp only
    rw [complete, if_pos rfl, hresult]
    dsimp only
    rw [if_pos hcode]
  · rename_i r written heq
    obtain rfl := Option.some.inj hact
    rw [heq] at hmatter
    obtain ⟨hclaimed, hfilled⟩ := hmatter
    exact h.write hclaimed hrequests rfl rfl rfl rfl ⟨hclaimed, hfilled⟩ (hnotDone hclaimed.2.1)
  · rename_i r heq
    obtain rfl := Option.some.inj hact
    rw [heq] at hmatter
    obtain ⟨hclaimed, hfilled⟩ := hmatter
    exact h.write hclaimed hrequests rfl rfl rfl rfl trivial fun _ => ⟨rfl, hfilled⟩
  · rename_i r heq
    obtain rfl := Option.some.inj hact
    have hkeeps : Keeps s { s.delete r with matter := .idle } :=
      ⟨(keeps_delete r).node, (keeps_delete r).answer⟩
    refine ⟨hrequests, fun c hc => hkeeps.node _ _ (h.node c hc), trivial, h.armed,
      fun hgiven => ?_, h.cleared, fun c hc hstage => (h.reading c hc hstage).keeps hkeeps rfl rfl,
      fun c hc status hstage => ?_, fun ret hret => (h.returned ret hret).keeps hkeeps⟩
    · obtain ⟨-, hwaiting, c, hc, hawaits, hfilled⟩ := h.given hgiven
      exact ⟨rfl, hwaiting, c, hc, hawaits, hfilled.keeps hkeeps rfl rfl⟩
    · obtain ⟨status', payload, hanswer, heq'⟩ := h.read c hc status hstage
      exact ⟨status', payload, hkeeps.answer _ _ hanswer, heq'⟩

theorem resultsInv_step (gen : Generators P) (s : State P) (l : Label P) (s' : State P)
    (h : ResultsInv gen s) (hok : StepOwnClaim s l) (hstep : step gen s l = some s') :
    ResultsInv gen s' := by
  have hrequests := requestsInv_step gen s l s' h.requests hstep
  cases l with
  | call n entry =>
    obtain rfl := Option.some.inj hstep
    exact resultsInv_enter h n entry
  | act =>
    obtain ⟨c, hc, hact⟩ := Option.bind_eq_some_iff.mp hstep
    exact resultsInv_callAct h hc hact
  | opened err =>
    simp only [step] at hstep
    split at hstep
    · rename_i c hc
      split at hstep
      · rename_i hstage
        obtain ⟨hwrites, hdone⟩ := h.quiet fun c' hc' => by
          obtain rfl := Option.some.inj (hc.symm.trans hc')
          rw [hstage]
          rfl
        split at hstep
        · obtain rfl := Option.some.inj hstep
          exact h.goTo hc hrequests (.of_eq rfl) rfl hwrites hdone rfl
            (fun hset => ⟨(h.armed hset).1, rfl⟩) (by simp) (by simp) (by simp)
        · obtain rfl := Option.some.inj hstep
          exact h.goTo hc hrequests (.of_eq rfl) rfl hwrites hdone rfl
            (fun hset => ⟨(h.armed hset).1, rfl⟩) (by simp) (by simp) (by simp)
      · contradiction
    · contradiction
  | timeout =>
    simp only [step] at hstep
    split at hstep
    · rename_i c hc
      split at hstep
      · obtain rfl := Option.some.inj hstep
        exact h.waitOn hc hrequests rfl fun _ => rfl
      · contradiction
    · contradiction
  | callback r status payload =>
    simp only [step] at hstep
    split at hstep
    · split at hstep
      · rename_i hr
        obtain rfl := Option.some.inj hstep
        exact resultsInv_callback h hr hok status payload hrequests
      · contradiction
    · contradiction
  | matter => exact resultsInv_matterAct h hstep

end Steps

theorem resultsInv_init (gen : Generators P) : ResultsInv gen ({} : State P) where
  requests := requestsInv_init
  node := nofun
  matter := trivial
  armed := nofun
  given := nofun
  cleared := nofun
  reading := nofun
  read := nofun
  returned _ hret := absurd hret List.not_mem_nil

/-- In every run in which a callback finds the flag set only by the call of its own request, no call
returns the result of another; and each request is deleted once, after its last use. -/
theorem window_results_never_mixed (gen : Generators P) (ls : List (Label P)) (s : State P)
    (hrun : StepSystem.run (step gen) {} ls = some s)
    (hok : StepSystem.Meets (step gen) StepOwnClaim {} ls) : NeverMixed gen s := by
  have hinv : ResultsInv gen s :=
    StepSystem.inv_of_run (resultsInv_step gen) (resultsInv_init gen) hok hrun
  exact ⟨hinv.returned, hinv.requests.once⟩

/-- Whatever the callbacks find, each request is deleted once, after its last use. -/
theorem deleted_once (gen : Generators P) (ls : List (Label P)) (s : State P)
    (hrun : StepSystem.run (step gen) {} ls = some s) : DeletedOnce s :=
  (StepSystem.inv_of_run (fun s l s' h _ => requestsInv_step gen s l s' h) requestsInv_init
    (StepSystem.meets_true _ _ _) hrun).once

/-- Generators that spell a payload out. -/
def spelled : Generators Text where
  manualCode p := (0, p)
  qrCode p := (0, "MT:".toList ++ p)

/-- A call for a node up to its wait, with its request accepted. -/
def openRun (n : ℕ) : List (Label Text) := [.call n .enters, .act, .act, .act, .opened 0]

/-- The wait times out and the call gives up. -/
def giveUpRun : List (Label Text) := [.timeout, .act, .act]

/-- The callback of a request, from the claim to the end. -/
def answerRun (r : ℕ) (payload : Text) : List (Label Text) :=
  .callback r 0 payload :: List.replicate 5 .matter

/-- The first call gives up; its callback comes when nobody waits, and the second call gets its own
result. -/
def lateCallbackRun : List (Label Text) :=
  openRun 5 ++ giveUpRun ++ [.callback 0 0 "11".toList, .matter] ++ openRun 6
    ++ answerRun 1 "22".toList ++ List.replicate 3 .act

theorem window_results_never_mixed_lateCallback :
    ∃ s, StepSystem.run (step spelled) {} lateCallbackRun = some s ∧
      s.returned.map (·.err) = [.timeout, .ok] ∧ NeverMixed spelled s := by
  have hfinal : (StepSystem.run (step spelled) {} lateCallbackRun).map
      (fun s => s.returned.map (·.err)) = some [.timeout, .ok] := by decide +kernel
  obtain ⟨s, hs, herr⟩ := Option.map_eq_some_iff.mp hfinal
  exact ⟨s, hs, herr, window_results_never_mixed spelled lateCallbackRun s hs (by decide +kernel)⟩

/-- The first call gives up; its callback comes when the second call has just set the flag. -/
def mixedRun : List (Label Text) :=
  openRun 5 ++ giveUpRun ++ [.call 6 .enters, .act, .act, .act] ++ answerRun 0 "11".toList
    ++ [.opened 0] ++ List.replicate 3 .act

/-- The call for node 6 returns the codes of node 5. -/
theorem window_results_mixed :
    ¬ ∀ (gen : Generators Text) (ls : List (Label Text)) (s : State Text),
      StepSystem.run (step gen) {} ls = some s → NeverMixed gen s := by
  intro h
  have hfinal : (StepSystem.run (step spelled) {} mixedRun).map
      (fun s => (s.returned, s.answerOf 1)) = some
        ([{ nodeId := 5, request := some 0, err := .timeout },
          { nodeId := 6, request := some 1, err := .ok,
            out := some { manualCode := "11".toList, qrCode := "MT:11".toList } }], none) := by
    decide +kernel
  obtain ⟨s, hs, hf⟩ := Option.map_eq_some_iff.mp hfinal
  obtain ⟨hreturned, hanswer⟩ := Prod.mk.inj hf
  obtain ⟨-, hown⟩ := (h spelled mixedRun s hs).1 _ (hreturned ▸ List.mem_cons_of_mem _
    (List.mem_singleton_self _))
  obtain ⟨r, status, payload, hr, -, hr', -⟩ := hown _ rfl
  obtain rfl : 1 = r := Option.some.inj hr
  exact nomatch hanswer.symm.trans hr'

end HomeEnergyManager.CommissioningWindow
