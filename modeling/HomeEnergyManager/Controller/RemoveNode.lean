import Mathlib.Data.List.Nodup
import HomeEnergyManager.Lib.StepSystem

/-! # Removing a node

Calls of `matter_controller_remove_node` follow one another and share one semaphore, which is never
deleted. The callback of an unpair request completes the call that waits for the same node id. That
says which node it is about, but not which request: a retry for the same node is completed by the
callback of the call that timed out before it.

Reference: `firmware/main/matter_controller.cpp`.
-/

namespace HomeEnergyManager.RemoveNode

/-- `CHIP_ERROR`; 0 is `CHIP_NO_ERROR`. -/
abbrev ChipError := ℕ

/-- `esp_err_t`; `other` is an error of `unpair`. -/
inductive EspErr where
  | ok
  | fail
  | noMem
  | timeout
  | other (err : ℕ)
deriving DecidableEq, Repr

def kNoRemoveInFlight : ℕ := 0

/-- Where the call stands. -/
inductive Stage where
  | create
  | drain
  | setNodeId
  | setResult
  /-- `unpair`, under the stack lock. -/
  | unpair
  | leaveRefused (err : ℕ)
  | wait
  | leaveTimedOut
  /-- It has taken the semaphore, which the callback of the call `giver` gave. -/
  | readResult (giver : ℕ)
  | leave (giver : ℕ) (result : ChipError)
deriving DecidableEq, Repr

structure Call where
  index : ℕ
  nodeId : ℕ
  stage : Stage := .create
deriving DecidableEq, Repr

/-- What the Matter task does next in `remove_node_cb`, for the request of a call. -/
inductive Callback where
  | idle
  | compare (index : ℕ) (status : ChipError)
  | writeResult (index : ℕ) (status : ChipError)
  | give (index : ℕ)
deriving DecidableEq, Repr

/-- What a call returned; `taken` is who gave the semaphore that it took, and the result it read. -/
structure Returned where
  index : ℕ
  err : EspErr
  taken : Option (ℕ × ChipError) := none
deriving DecidableEq, Repr

/-- A call that was made, with the status that the callback of its request was called with. -/
structure Made where
  nodeId : ℕ
  answer : Option ChipError := none
deriving DecidableEq, Repr

structure State where
  /-- `s_remove_ctx.done` has been created. -/
  created : Bool := false
  /-- Who has given the semaphore, if it is given. -/
  done : Option ℕ := none
  /-- `s_remove_ctx.node_id`. -/
  nodeId : ℕ := kNoRemoveInFlight
  /-- `s_remove_ctx.result`. -/
  result : ChipError := 0
  /-- `HEM_NodeList`. -/
  nodeList : List ℕ := []
  call : Option Call := none
  matter : Callback := .idle
  made : List Made := []
  /-- The calls whose unpair request was accepted and not yet called back. -/
  accepted : List ℕ := []
  returned : List Returned := []
deriving DecidableEq, Repr

inductive Label where
  | call (nodeId : ℕ)
  /-- The call does its next action; `err` is the outcome of what may fail. -/
  | act (err : ℕ)
  | timeout
  /-- `remove_node_cb` is called for the request of a call. -/
  | callback (index : ℕ) (status : ChipError)
  /-- The Matter task does its next action. -/
  | matter
deriving DecidableEq, Repr

def State.goTo (s : State) (c : Call) (stage : Stage) : State :=
  { s with call := some { c with stage := stage } }

def State.leave (s : State) (c : Call) (err : EspErr) (taken : Option (ℕ × ChipError)) : State :=
  { s with
    call := none
    returned := s.returned ++ [{ index := c.index, err := err, taken := taken }] }

def nodeListRemove (n : ℕ) (list : List ℕ) : List ℕ := list.filter (· != n)

/-- The next action of the call; `none` while it is blocked. -/
def callAct (s : State) (c : Call) (err : ℕ) : Option State :=
  match c.stage with
  | .create =>
    if s.created then some (s.goTo c .drain)
    else if err = 0 then some ({ s with created := true }.goTo c .drain)
    else some (s.leave c .noMem none)
  | .drain => some (if s.done.isSome then { s with done := none } else s.goTo c .setNodeId)
  | .setNodeId => some ({ s with nodeId := c.nodeId }.goTo c .setResult)
  | .setResult => some ({ s with result := 0 }.goTo c .unpair)
  | .unpair =>
    match s.matter with
    | .idle =>
      if err = 0 then some ({ s with accepted := s.accepted ++ [c.index] }.goTo c .wait)
      else some (s.goTo c (.leaveRefused err))
    | _ => none
  | .leaveRefused err => some ({ s with nodeId := kNoRemoveInFlight }.leave c (.other err) none)
  | .wait =>
    match s.done with
    | some giver => some ({ s with done := none }.goTo c (.readResult giver))
    | none => none
  | .leaveTimedOut => some ({ s with nodeId := kNoRemoveInFlight }.leave c .timeout none)
  | .readResult giver => some (s.goTo c (.leave giver s.result))
  | .leave giver result =>
    some ({ s with nodeId := kNoRemoveInFlight }.leave c (if result = 0 then .ok else .fail)
      (some (giver, result)))

/-- The node id of a call that was made. -/
def State.nodeOf (s : State) (k : ℕ) : Option ℕ := s.made[k]?.map (·.nodeId)

def step (s : State) : Label → Option State
  | .call n =>
    if s.call.isSome then none
    else some { s with
      call := some { index := s.made.length, nodeId := n }
      made := s.made ++ [{ nodeId := n }] }
  | .act err => s.call.bind fun c => callAct s c err
  | .timeout =>
    match s.call with
    | some c => if c.stage = .wait ∧ s.done = none then some (s.goTo c .leaveTimedOut) else none
    | none => none
  | .callback k status =>
    match s.matter with
    | .idle =>
      if k ∈ s.accepted then
        some { s with
          accepted := s.accepted.erase k
          made := s.made.modify k fun m => { m with answer := some status }
          nodeList :=
            match s.nodeOf k with
            | some n => if status = 0 then nodeListRemove n s.nodeList else s.nodeList
            | none => s.nodeList
          matter := .compare k status }
      else none
    | _ => none
  | .matter =>
    match s.matter with
    | .idle => none
    | .compare k status =>
      some { s with matter := if s.nodeOf k = some s.nodeId then .writeResult k status else .idle }
    | .writeResult k status => some { s with result := status, matter := .give k }
    | .give k => some { s with done := some k, matter := .idle }

/-! ## The results of the calls -/

/-- The status that the callback of the request of a call was called with. -/
def State.answerOf (s : State) (k : ℕ) : Option ChipError := s.made[k]?.bind (·.answer)

/-- What a call returned was delivered by the callback of its own request, or is no result at all.
-/
def Returned.Own (s : State) (ret : Returned) : Prop :=
  match ret.taken with
  | none => ret.err ≠ .ok ∧ ret.err ≠ .fail
  | some (giver, result) => giver = ret.index ∧ s.answerOf ret.index = some result ∧
    ret.err = if result = 0 then .ok else .fail

def OwnResults (s : State) : Prop := ∀ ret ∈ s.returned, ret.Own s

/-- The call has drained the semaphore and has still to take it or to read the result. -/
def Stage.open : Stage → Bool
  | .setNodeId | .setResult | .unpair | .wait | .readResult _ => true
  | _ => false

/-- The call whose callback is past the comparison of the node ids and has not given yet. -/
def Callback.delivers : Callback → Option ℕ
  | .idle | .compare _ _ => none
  | .writeResult k _ | .give k => some k

/-- The condition on a step. When the node id of a callback is the one in the record, no other call
than its own is open, and no call is done draining while a callback delivers. -/
def StepOwnMatch (s : State) : Label → Prop
  | .act _ => ∀ c ∈ s.call, c.stage = .drain → s.done = none → s.matter.delivers = none
  | .matter =>
    match s.matter with
    | .compare k _ => s.nodeOf k = some s.nodeId → ∀ c ∈ s.call, c.stage.open = true → c.index = k
    | _ => True
  | _ => True

instance (s : State) : DecidablePred (StepOwnMatch s)
  | .act _ =>
    decidable_of_iff (∀ c ∈ s.call, c.stage = .drain → s.done = none → s.matter.delivers = none)
      Iff.rfl
  | .matter =>
    match h : s.matter with
    | .compare k _ =>
      decidable_of_iff
        (s.nodeOf k = some s.nodeId → ∀ c ∈ s.call, c.stage.open = true → c.index = k)
        (by simp [StepOwnMatch, h])
    | .idle | .writeResult _ _ | .give _ => isTrue (by simp [StepOwnMatch, h])
  | .call _ | .timeout | .callback _ _ => isTrue trivial

/-- The request of the call is not accepted yet. -/
def Stage.early : Stage → Bool
  | .create | .drain | .setNodeId | .setResult | .unpair => true
  | _ => false

/-- The call has set its result and not yet read it. -/
def Stage.readsResult : Stage → Bool
  | .unpair | .wait | .readResult _ => true
  | _ => false

/-- The call whose callback runs. -/
def Callback.index : Callback → Option ℕ
  | .idle => none
  | .compare k _ | .writeResult k _ | .give k => some k

/-- What the callback carries is its own status, and what it delivers is for its own call. -/
def State.Carries (s : State) : Callback → Prop
  | .idle => True
  | .compare k status => s.answerOf k = some status
  | .writeResult k status => s.answerOf k = some status ∧
    ∀ c ∈ s.call, c.stage.open = true → c.index = k
  | .give k => ∃ status, s.answerOf k = some status ∧
    ∀ c ∈ s.call, c.stage.open = true → c.index = k ∧
      (c.stage.readsResult = true → s.result = status)

/-- What an open call takes, reads and returns is the status of its own callback, which is over. -/
def State.CallOk (s : State) (c : Call) : Prop :=
  (c.stage.open = true → ∀ k ∈ s.done, c.stage = .wait ∧ k = c.index ∧
    s.answerOf k = some s.result ∧ s.matter.index ≠ some k) ∧
  (∀ giver, c.stage = .readResult giver → giver = c.index ∧
    s.answerOf c.index = some s.result ∧ s.matter.index ≠ some c.index) ∧
  ∀ giver result, c.stage = .leave giver result → giver = c.index ∧
    s.answerOf c.index = some result

/-- The invariant: each request is answered once, by its own callback, and only what that callback
delivered reaches the call. -/
structure DeliveryInv (s : State) : Prop where
  returned : OwnResults s
  nodup : s.accepted.Nodup
  unanswered : ∀ k ∈ s.accepted, k < s.made.length ∧ s.answerOf k = none
  known : ∀ c ∈ s.call, c.index < s.made.length
  fresh : ∀ c ∈ s.call, c.stage.early = true → s.answerOf c.index = none ∧ c.index ∉ s.accepted
  carries : s.Carries s.matter
  call : ∀ c ∈ s.call, s.CallOk c

section Step

variable {s s' : State} {c : Call}

/-- Answers are never taken back, so what was a call's own result stays so. -/
theorem Returned.Own.mono {ret : Returned} (h : ret.Own s)
    (hanswer : ∀ k status, s.answerOf k = some status → s'.answerOf k = some status) :
    ret.Own s' := by
  unfold Returned.Own at h ⊢
  split at h
  · exact h
  · obtain ⟨hgiver, hk, herr⟩ := h
    exact ⟨hgiver, hanswer _ _ hk, herr⟩

/-- What is carried has been answered. -/
theorem State.Carries.answered {matter : Callback} (h : s.Carries matter) {k : ℕ}
    (hindex : matter.index = some k) : ∃ status, s.answerOf k = some status := by
  cases matter with
  | idle => exact nomatch hindex
  | compare k' status =>
    obtain rfl := Option.some.inj hindex
    exact ⟨status, h⟩
  | writeResult k' status =>
    obtain rfl := Option.some.inj hindex
    exact ⟨status, h.1⟩
  | give k' =>
    obtain rfl := Option.some.inj hindex
    obtain ⟨status, hk, -⟩ := h
    exact ⟨status, hk⟩

/-- A call that has not sent its request yet is not the one whose callback runs. -/
theorem DeliveryInv.not_carried (h : DeliveryInv s) (hc : s.call = some c)
    (hearly : c.stage.early = true) : s.matter.index ≠ some c.index := by
  intro hindex
  obtain ⟨status, hk⟩ := h.carries.answered hindex
  exact nomatch (h.fresh c hc hearly).1.symm.trans hk

/-- The requests stay where the call goes on. -/
theorem answerOf_goTo {stage : Stage} (hmade : s'.made = s.made) (k : ℕ) :
    (s'.goTo c stage).answerOf k = s.answerOf k := by
  rw [State.answerOf, State.answerOf, State.goTo, hmade]

/-- What is carried stays right while the call goes on: it may not open, or set its result, while
its callback delivers. -/
theorem State.Carries.goTo {matter : Callback} (h : s.Carries matter) (hc : s.call = some c)
    {stage : Stage} (hmade : s'.made = s.made)
    (hopen : stage.open = true → c.stage.open = true ∨ matter.delivers = none)
    (hresult : matter.index = some c.index → stage.readsResult = true →
      c.stage.readsResult = true ∧ s'.result = s.result) :
    (s'.goTo c stage).Carries matter := by
  have hanswer : ∀ k, (s'.goTo c stage).answerOf k = s.answerOf k := answerOf_goTo hmade
  have hcalls : ∀ c' ∈ (s'.goTo c stage).call, c' = { c with stage := stage } :=
    fun c' hc' => (Option.some.inj hc').symm
  cases matter with
  | idle => trivial
  | compare k status => exact (hanswer k).trans h
  | writeResult k status =>
    refine ⟨(hanswer k).trans h.1, fun c' hc' hstage => ?_⟩
    rw [hcalls c' hc'] at hstage ⊢
    rcases hopen hstage with hwas | hnone
    · exact h.2 c hc hwas
    · exact nomatch hnone
  | give k =>
    obtain ⟨status, hk, hown⟩ := h
    refine ⟨status, (hanswer k).trans hk, fun c' hc' hstage => ?_⟩
    rw [hcalls c' hc'] at hstage ⊢
    rcases hopen hstage with hwas | hnone
    · obtain ⟨hindex, hread⟩ := hown c hc hwas
      refine ⟨hindex, fun hreads => ?_⟩
      obtain ⟨hwas', hsame⟩ := hresult (congrArg some hindex.symm) hreads
      exact hsame.trans (hread hwas')
    · exact nomatch hnone

/-- The call goes on, and the requests stay as they are. -/
theorem DeliveryInv.goTo (h : DeliveryInv s) (hc : s.call = some c) {stage : Stage}
    (hmade : s'.made = s.made) (haccepted : s'.accepted = s.accepted)
    (hreturned : s'.returned = s.returned) (hmatter : s'.matter = s.matter)
    (hearly : stage.early = true → c.stage.early = true)
    (hopen : stage.open = true → c.stage.open = true ∨ s.matter.delivers = none)
    (hresult : s.matter.index = some c.index → stage.readsResult = true →
      c.stage.readsResult = true ∧ s'.result = s.result)
    (hcall : (s'.goTo c stage).CallOk { c with stage := stage }) :
    DeliveryInv (s'.goTo c stage) := by
  have hanswer : ∀ k, (s'.goTo c stage).answerOf k = s.answerOf k := answerOf_goTo hmade
  have hcalls : ∀ c' ∈ (s'.goTo c stage).call, c' = { c with stage := stage } :=
    fun c' hc' => (Option.some.inj hc').symm
  refine ⟨fun ret hret => ?_, haccepted ▸ h.nodup, fun k hk => ?_, fun c' hc' => ?_,
    fun c' hc' hstage => ?_, ?_, fun c' hc' => ?_⟩
  · exact (h.returned ret (hreturned ▸ hret)).mono fun k status hk => (hanswer k).trans hk
  · rw [hanswer, State.goTo, hmade]
    exact h.unanswered k (haccepted ▸ hk)
  · rw [hcalls c' hc', State.goTo, hmade]
    exact h.known c hc
  · rw [hcalls c' hc'] at hstage ⊢
    rw [hanswer, State.goTo, haccepted]
    exact h.fresh c hc (hearly hstage)
  · rw [State.goTo, hmatter]
    exact h.carries.goTo hc hmade hopen hresult
  · rw [hcalls c' hc']
    exact hcall

/-- A call that has drained the semaphore goes on up to its wait. Nothing has been given to it, and
no callback is its own. -/
theorem DeliveryInv.advance (h : DeliveryInv s) (hc : s.call = some c) {stage : Stage}
    (hearly : c.stage.early = true) (hopen : c.stage.open = true) (hmade : s'.made = s.made)
    (haccepted : s'.accepted = s.accepted) (hreturned : s'.returned = s.returned)
    (hmatter : s'.matter = s.matter) (hdone : s'.done = s.done)
    (hread : ∀ giver, stage ≠ .readResult giver)
    (hleave : ∀ giver result, stage ≠ .leave giver result) :
    DeliveryInv (s'.goTo c stage) := by
  have hnone : s.done = none := by
    cases hd : s.done with
    | none => rfl
    | some k =>
      have hwait := ((h.call c hc).1 hopen k hd).1
      rw [hwait] at hearly
      exact nomatch hearly
  refine h.goTo hc hmade haccepted hreturned hmatter (fun _ => hearly) (fun _ => .inl hopen)
    (fun hindex => absurd hindex (h.not_carried hc hearly))
    ⟨fun _ k hk => ?_, fun giver heq => absurd heq (hread giver),
      fun giver result heq => absurd heq (hleave giver result)⟩
  exact nomatch (hdone.trans hnone).symm.trans hk

/-- A call returns. -/
theorem DeliveryInv.leave (h : DeliveryInv s) {err : EspErr} {taken : Option (ℕ × ChipError)}
    (hown : Returned.Own s { index := c.index, err := err, taken := taken }) (nodeId : ℕ)
    (created : Bool) :
    DeliveryInv ({ s with nodeId := nodeId, created := created }.leave c err taken) := by
  refine ⟨fun ret hret => ?_, h.nodup, h.unanswered, nofun, nofun, ?_, nofun⟩
  · rcases List.mem_append.mp hret with hold | hnew
    · exact (h.returned ret hold).mono fun k status hk => hk
    · rw [List.mem_singleton.mp hnew]
      exact hown.mono fun k status hk => hk
  · have hcarries := h.carries
    rw [State.leave]
    generalize s.matter = matter at hcarries
    cases matter with
    | idle => trivial
    | compare k status => exact hcarries
    | writeResult k status => exact ⟨hcarries.1, nofun⟩
    | give k =>
      obtain ⟨status, hk, -⟩ := hcarries
      exact ⟨status, hk, nofun⟩

/-- A request is accepted. -/
theorem DeliveryInv.accept (h : DeliveryInv s) {k : ℕ} (hlt : k < s.made.length)
    (hnone : s.answerOf k = none) (hnew : k ∉ s.accepted)
    (hearly : ∀ c ∈ s.call, c.stage.early = false) :
    DeliveryInv { s with accepted := s.accepted ++ [k] } := by
  refine ⟨h.returned, ?_, fun j hj => ?_, h.known, fun c hc hstage => ?_, h.carries, h.call⟩
  · refine List.nodup_append.mpr ⟨h.nodup, List.nodup_singleton k, fun j hj j' hj' hne => ?_⟩
    obtain rfl := List.mem_singleton.mp hj'
    exact hnew (hne ▸ hj)
  · rcases List.mem_append.mp hj with hold | hk
    · exact h.unanswered j hold
    · obtain rfl := List.mem_singleton.mp hk
      exact ⟨hlt, hnone⟩
  · exact absurd (hstage.symm.trans (hearly c hc)) nofun

theorem deliveryInv_callAct {err : ℕ} (h : DeliveryInv s) (hc : s.call = some c)
    (hok : c.stage = .drain → s.done = none → s.matter.delivers = none)
    (hact : callAct s c err = some s') : DeliveryInv s' := by
  have hcall := h.call c hc
  unfold callAct at hact
  split at hact
  case h_1 hstage =>
    have hearly : c.stage.early = true := by rw [hstage]; rfl
    split at hact
    · obtain rfl := Option.some.inj hact
      exact h.goTo hc rfl rfl rfl rfl (fun _ => hearly) nofun nofun ⟨nofun, nofun, nofun⟩
    · split at hact
      · obtain rfl := Option.some.inj hact
        exact h.goTo hc rfl rfl rfl rfl (fun _ => hearly) nofun nofun ⟨nofun, nofun, nofun⟩
      · obtain rfl := Option.some.inj hact
        refine h.leave ?_ s.nodeId s.created
        exact ⟨nofun, nofun⟩
  case h_2 hstage =>
    have hearly : c.stage.early = true := by rw [hstage]; rfl
    obtain rfl := Option.some.inj hact
    split
    · exact ⟨h.returned, h.nodup, h.unanswered, h.known, h.fresh, h.carries,
        fun c' hc' => ⟨fun _ => nofun, (h.call c' hc').2⟩⟩
    · rename_i hd
      have hd' : s.done = none := by simpa using hd
      refine h.goTo hc rfl rfl rfl rfl (fun _ => hearly) (fun _ => .inr (hok hstage hd')) nofun
        ⟨fun _ k hk => ?_, nofun, nofun⟩
      exact nomatch hd'.symm.trans hk
  case h_3 hstage | h_4 hstage =>
    obtain rfl := Option.some.inj hact
    exact h.advance hc (by rw [hstage]; rfl) (by rw [hstage]; rfl) rfl rfl rfl rfl rfl nofun nofun
  case h_5 hstage =>
    have hearly : c.stage.early = true := by rw [hstage]; rfl
    split at hact
    · split at hact
      · obtain rfl := Option.some.inj hact
        obtain ⟨hnew, haccepted⟩ := h.fresh c hc hearly
        have hwait : DeliveryInv (s.goTo c .wait) :=
          h.advance hc hearly (by rw [hstage]; rfl) rfl rfl rfl rfl rfl nofun nofun
        refine hwait.accept (h.known c hc) hnew haccepted fun c' hc' => ?_
        obtain rfl := Option.some.inj hc'
        rfl
      · obtain rfl := Option.some.inj hact
        exact h.goTo hc rfl rfl rfl rfl nofun nofun nofun ⟨nofun, nofun, nofun⟩
    · exact nomatch hact
  case h_6 err hstage | h_8 hstage =>
    obtain rfl := Option.some.inj hact
    refine h.leave ?_ kNoRemoveInFlight s.created
    exact ⟨nofun, nofun⟩
  case h_7 hstage =>
    have hopen : c.stage.open = true := by rw [hstage]; rfl
    split at hact
    · rename_i giver hd
      obtain ⟨-, rfl, hanswer, hindex⟩ := hcall.1 hopen giver hd
      obtain rfl := Option.some.inj hact
      refine h.goTo hc rfl rfl rfl rfl nofun (fun _ => .inl hopen)
        (fun hindex' => absurd hindex' hindex) ⟨fun _ => nofun, fun giver hgiver => ?_, nofun⟩
      obtain rfl := Stage.readResult.inj hgiver
      exact ⟨rfl, hanswer, hindex⟩
    · exact nomatch hact
  case h_9 giver hstage =>
    obtain ⟨rfl, hanswer, -⟩ := hcall.2.1 giver hstage
    obtain rfl := Option.some.inj hact
    refine h.goTo hc rfl rfl rfl rfl nofun nofun nofun ⟨nofun, nofun, fun giver result hleave => ?_⟩
    obtain ⟨rfl, rfl⟩ := Stage.leave.inj hleave
    exact ⟨rfl, hanswer⟩
  case h_10 giver result hstage =>
    obtain ⟨rfl, hanswer⟩ := hcall.2.2 giver result hstage
    obtain rfl := Option.some.inj hact
    refine h.leave ?_ kNoRemoveInFlight s.created
    exact ⟨rfl, hanswer, rfl⟩

/-- The callback of an accepted request begins. -/
theorem deliveryInv_callback {k : ℕ} {status : ChipError} (h : DeliveryInv s)
    (hstep : step s (.callback k status) = some s') : DeliveryInv s' := by
  simp only [step] at hstep
  split at hstep
  · rename_i hidle
    split at hstep
    · rename_i hk
      obtain ⟨hlt, hnone⟩ := h.unanswered k hk
      obtain rfl := Option.some.inj hstep
      generalize hs : ({ s with accepted := _, made := _, nodeList := _, matter := _ } : State) = t
      have hmade : t.made = s.made.modify k fun m => { m with answer := some status } := by
        rw [← hs]
      have hself : t.answerOf k = some status := by
        rw [State.answerOf, hmade, List.getElem?_modify_eq, List.getElem?_eq_getElem hlt]
        rfl
      have hother : ∀ j, j ≠ k → t.answerOf j = s.answerOf j := by
        intro j hj
        rw [State.answerOf, State.answerOf, hmade, List.getElem?_modify_ne _ _ hj.symm]
      have hmono : ∀ j st, s.answerOf j = some st → j ≠ k ∧ t.answerOf j = some st := by
        intro j st hj
        have hne : j ≠ k := by
          rintro rfl
          exact nomatch hnone.symm.trans hj
        exact ⟨hne, (hother j hne).trans hj⟩
      have haccepted : t.accepted = s.accepted.erase k := by rw [← hs]
      have hcall : t.call = s.call := by rw [← hs]
      have hmatter : t.matter = .compare k status := by rw [← hs]
      refine ⟨fun ret hret => ?_, ?_, fun j hj => ?_, fun c hc => ?_, fun c hc hstage => ?_, ?_,
        fun c hc => ?_⟩
      · have hold : ret ∈ s.returned := by rwa [← hs] at hret
        exact (h.returned ret hold).mono fun j st hj => (hmono j st hj).2
      · rw [haccepted]
        exact h.nodup.erase k
      · rw [haccepted] at hj
        obtain ⟨hne, hj'⟩ := h.nodup.mem_erase_iff.mp hj
        rw [hmade, List.length_modify, hother j hne]
        exact h.unanswered j hj'
      · rw [hmade, List.length_modify]
        exact h.known c (hcall ▸ hc)
      · obtain ⟨hfresh, hnew⟩ := h.fresh c (hcall ▸ hc) hstage
        have hne : c.index ≠ k := fun heq => hnew (heq ▸ hk)
        rw [haccepted, hother c.index hne]
        exact ⟨hfresh, fun hmem => hnew (List.mem_of_mem_erase hmem)⟩
      · rw [hmatter]
        exact hself
      · obtain ⟨htake, hread, hleave⟩ := h.call c (hcall ▸ hc)
        have hdone : t.done = s.done := by rw [← hs]
        have hresult : t.result = s.result := by rw [← hs]
        refine ⟨fun hopen j hj => ?_, fun giver hstage => ?_, fun giver result hstage => ?_⟩
        · obtain ⟨hwait, hown, hanswer, -⟩ := htake hopen j (hdone ▸ hj)
          obtain ⟨hne, hanswer'⟩ := hmono j _ hanswer
          rw [hmatter, hresult]
          exact ⟨hwait, hown, hanswer', fun heq => hne (Option.some.inj heq).symm⟩
        · obtain ⟨hown, hanswer, -⟩ := hread giver hstage
          obtain ⟨hne, hanswer'⟩ := hmono _ _ hanswer
          rw [hmatter, hresult]
          exact ⟨hown, hanswer', fun heq => hne (Option.some.inj heq).symm⟩
        · obtain ⟨hown, hanswer⟩ := hleave giver result hstage
          exact ⟨hown, (hmono _ _ hanswer).2⟩
    · exact nomatch hstep
  · exact nomatch hstep

/-- The Matter task goes on with a callback that matches no open call but its own. -/
theorem deliveryInv_matter (h : DeliveryInv s) (hok : StepOwnMatch s .matter)
    (hstep : step s .matter = some s') : DeliveryInv s' := by
  have hcarries := h.carries
  simp only [step] at hstep
  split at hstep
  · exact nomatch hstep
  · rename_i k status hmatter
    rw [hmatter] at hcarries
    simp only [StepOwnMatch, hmatter] at hok
    obtain rfl := Option.some.inj hstep
    refine ⟨h.returned, h.nodup, h.unanswered, h.known, h.fresh, ?_, fun c hc => ?_⟩
    · dsimp only
      split
      · rename_i hnode
        exact ⟨hcarries, hok hnode⟩
      · trivial
    · obtain ⟨htake, hread, hleave⟩ := h.call c hc
      -- the callback that was compared either goes on or is over
      have hindex : ∀ j, s.matter.index ≠ some j → Callback.index
          (if s.nodeOf k = some s.nodeId then .writeResult k status else .idle) ≠ some j := by
        intro j hj
        rw [hmatter] at hj
        split
        · exact hj
        · exact nofun
      refine ⟨fun hopen j hj => ?_, fun giver hstage => ?_, hleave⟩
      · obtain ⟨hwait, hown, hanswer, hover⟩ := htake hopen j hj
        exact ⟨hwait, hown, hanswer, hindex j hover⟩
      · obtain ⟨hown, hanswer, hover⟩ := hread giver hstage
        exact ⟨hown, hanswer, hindex _ hover⟩
  · rename_i k status hmatter
    rw [hmatter] at hcarries
    obtain ⟨hanswer, hopens⟩ := hcarries
    obtain rfl := Option.some.inj hstep
    refine ⟨h.returned, h.nodup, h.unanswered, h.known, h.fresh,
      ⟨status, hanswer, fun c hc hopen => ⟨hopens c hc hopen, fun _ => rfl⟩⟩, fun c hc => ?_⟩
    obtain ⟨htake, hread, hleave⟩ := h.call c hc
    -- what an open call has been given is not overwritten, as its callback is over
    have hover : c.stage.open = true → s.matter.index = some c.index := by
      intro hopen
      rw [hmatter]
      exact congrArg some (hopens c hc hopen).symm
    refine ⟨fun hopen j hj => ?_, fun giver hstage => ?_, hleave⟩
    · obtain ⟨-, rfl, -, hindex⟩ := htake hopen j hj
      exact absurd (hover hopen) hindex
    · have hopen : c.stage.open = true := by rw [hstage]; rfl
      exact absurd (hover hopen) (hread giver hstage).2.2
  · rename_i k hmatter
    rw [hmatter] at hcarries
    obtain ⟨status, hanswer, hopens⟩ := hcarries
    obtain rfl := Option.some.inj hstep
    refine ⟨h.returned, h.nodup, h.unanswered, h.known, h.fresh, trivial, fun c hc => ?_⟩
    obtain ⟨htake, hread, hleave⟩ := h.call c hc
    have hover : c.stage.open = true → s.matter.index = some c.index := by
      intro hopen
      rw [hmatter]
      exact congrArg some (hopens c hc hopen).1.symm
    refine ⟨fun hopen j hj => ?_, fun giver hstage => ?_, hleave⟩
    · obtain rfl := Option.some.inj hj
      obtain ⟨rfl, hresult⟩ := hopens c hc hopen
      -- the call whose callback gives has sent its request and has not taken the semaphore yet
      have hwait : c.stage = .wait := by
        have hlate : c.stage.early ≠ true :=
          fun hearly => h.not_carried hc hearly (hover hopen)
        generalize hstage : c.stage = stage at hopen hlate
        cases stage with
        | wait => rfl
        | readResult giver => exact absurd (hover (hstage ▸ hopen)) (hread giver hstage).2.2
        | leaveRefused | leaveTimedOut | leave => exact nomatch hopen
        | _ => exact absurd rfl hlate
      refine ⟨hwait, rfl, ?_, nofun⟩
      rw [hresult (by rw [hwait]; rfl)]
      exact hanswer
    · have hopen : c.stage.open = true := by rw [hstage]; rfl
      exact absurd (hover hopen) (hread giver hstage).2.2

/-- A new call has no answer and has not sent its request. -/
theorem deliveryInv_call {n : ℕ} (h : DeliveryInv s) (hstep : step s (.call n) = some s') :
    DeliveryInv s' := by
  simp only [step] at hstep
  split at hstep
  · exact nomatch hstep
  · obtain rfl := Option.some.inj hstep
    have hanswer : ∀ k, (s.made ++ [({ nodeId := n } : Made)])[k]?.bind (·.answer)
        = s.answerOf k := by
      intro k
      rw [State.answerOf]
      rcases Nat.lt_or_ge k s.made.length with hlt | hge
      · rw [List.getElem?_append_left hlt]
      · rw [List.getElem?_append_right hge, List.getElem?_eq_none hge]
        cases k - s.made.length <;> rfl
    refine ⟨fun ret hret => ?_, h.nodup, fun k hk => ?_, fun c hc => ?_, fun c hc _ => ?_, ?_,
      fun c hc => ?_⟩
    · exact (h.returned ret hret).mono fun k status hk => (hanswer k).trans hk
    · obtain ⟨hlt, hnone⟩ := h.unanswered k hk
      rw [List.length_append]
      exact ⟨Nat.lt_add_right _ hlt, (hanswer k).trans hnone⟩
    · obtain rfl := Option.some.inj hc
      rw [List.length_append]
      exact Nat.lt_succ_self _
    · obtain rfl := Option.some.inj hc
      refine ⟨(hanswer _).trans ?_, fun hmem => ?_⟩
      · rw [State.answerOf, List.getElem?_eq_none (Nat.le_refl _)]
        rfl
      · exact Nat.lt_irrefl _ (h.unanswered _ hmem).1
    · have hcarries := h.carries
      dsimp only
      generalize s.matter = matter at hcarries
      cases matter with
      | idle => trivial
      | compare k status => exact (hanswer k).trans hcarries
      | writeResult k status =>
        refine ⟨(hanswer k).trans hcarries.1, fun c hc hopen => ?_⟩
        obtain rfl := Option.some.inj hc
        exact nomatch hopen
      | give k =>
        obtain ⟨status, hk, -⟩ := hcarries
        refine ⟨status, (hanswer k).trans hk, fun c hc hopen => ?_⟩
        obtain rfl := Option.some.inj hc
        exact nomatch hopen
    · obtain rfl := Option.some.inj hc
      exact ⟨nofun, nofun, nofun⟩

theorem deliveryInv_step (s : State) (l : Label) (s' : State) (h : DeliveryInv s)
    (hok : StepOwnMatch s l) (hstep : step s l = some s') : DeliveryInv s' := by
  cases l with
  | call n => exact deliveryInv_call h hstep
  | act err =>
    obtain ⟨c, hc, hact⟩ := Option.bind_eq_some_iff.mp hstep
    exact deliveryInv_callAct h hc (hok c hc) hact
  | timeout =>
    simp only [step] at hstep
    split at hstep
    · rename_i c hc
      split at hstep
      · obtain rfl := Option.some.inj hstep
        exact h.goTo hc rfl rfl rfl rfl nofun nofun nofun ⟨nofun, nofun, nofun⟩
      · exact nomatch hstep
    · exact nomatch hstep
  | callback k status => exact deliveryInv_callback h hstep
  | matter => exact deliveryInv_matter h hok hstep

end Step

theorem deliveryInv_boot (nodeList : List ℕ) : DeliveryInv { nodeList := nodeList } where
  returned := nofun
  nodup := List.nodup_nil
  unanswered := nofun
  known := nofun
  fresh := nofun
  carries := trivial
  call := nofun

/-- In every run in which the node id of a callback is never that of another open call, and no call
is done draining while a callback delivers, each result is the one of its own request. -/
theorem remove_node_results_own (nodeList : List ℕ) (ls : List Label) (s : State)
    (hrun : StepSystem.run step { nodeList := nodeList } ls = some s)
    (hok : StepSystem.Meets step StepOwnMatch { nodeList := nodeList } ls) : OwnResults s :=
  (StepSystem.inv_of_run deliveryInv_step (deliveryInv_boot nodeList) hok hrun).returned

/-- The next `k` actions of the call, with nothing failing. -/
def acts (k : ℕ) : List Label := List.replicate k (.act 0)

/-- The removal of node 7 times out, its callback comes late, and node 8 is removed in time. -/
def lateRun : List Label :=
  [.call 7] ++ acts 5 ++ [.timeout] ++ acts 1 ++ [.callback 0 50, .matter, .call 8] ++ acts 5
    ++ [.callback 1 0, .matter, .matter, .matter] ++ acts 3

theorem remove_node_results_own_late :
    ∃ s, StepSystem.run step { nodeList := [7, 8] } lateRun = some s ∧ s.nodeList = [7] ∧
      OwnResults s := by
  have hfinal : (StepSystem.run step { nodeList := [7, 8] } lateRun).map (·.nodeList)
      = some [7] := by decide +kernel
  obtain ⟨s, hs, hlist⟩ := Option.map_eq_some_iff.mp hfinal
  exact ⟨s, hs, hlist, remove_node_results_own [7, 8] lateRun s hs (by decide +kernel)⟩

/-- The removal of node 7 times out and is tried again. The late callback of the first request,
which failed, comes while the second waits. -/
def retryRun : List Label :=
  [.call 7] ++ acts 5 ++ [.timeout] ++ acts 1 ++ [.call 7] ++ acts 5
    ++ [.callback 0 50, .matter, .matter, .matter] ++ acts 3

/-- The retry fails with the result of the first request. -/
theorem retry_returns_first_result :
    ¬ ∀ (nodeList : List ℕ) (ls : List Label) (s : State),
      StepSystem.run step { nodeList := nodeList } ls = some s → OwnResults s := by
  intro h
  have hfinal : (StepSystem.run step { nodeList := [7] } retryRun).map (·.returned)
      = some [⟨0, .timeout, none⟩, ⟨1, .fail, some (0, 50)⟩] := by decide +kernel
  obtain ⟨s, hs, hreturned⟩ := Option.map_eq_some_iff.mp hfinal
  have hown := h [7] retryRun s hs ⟨1, .fail, some (0, 50)⟩ (by rw [hreturned]; simp)
  exact absurd hown.1 Nat.zero_ne_one

end HomeEnergyManager.RemoveNode
