import Mathlib.Data.List.Basic
import HomeEnergyManager.Lib.StepSystem

/-! # Commissioning on the network

Calls of `matter_controller_commission_on_network` follow one another. Each makes a semaphore, waits
for it and deletes it. The callbacks of the commissioner are registered for all of them alike: they
give the semaphore of the moment, whichever device they are about. While a callback comes only as
long as the call that allocated its node id still has its semaphore, the results stay apart.

Reference: `firmware/main/matter_controller.cpp`, `firmware/main/commands/pairing_command.cpp`.
-/

namespace HomeEnergyManager.Commissioning

/-- `CHIP_ERROR`; 0 is `CHIP_NO_ERROR`. -/
abbrev ChipError := ℕ

inductive EspErr where
  | ok
  | fail
  | noMem
  | invalidArg
  | timeout
deriving DecidableEq, Repr

def kMaxNodes : ℕ := 32

def kFirstDeviceNodeId : ℕ := 1

/-- A binary semaphore. `givenBy` is the peer whose callback has given it. -/
structure Semaphore where
  givenBy : Option ℕ := none
  deleted : Bool := false
deriving DecidableEq, Repr

/-- Where the call stands. -/
inductive Stage where
  | create
  | resetResult
  | allocate
  | setCallbacks
  /-- `pairing_on_network`, under the stack lock. -/
  | pair
  | wait
  | deleteTimedOut
  | readResult
  | delete (result : ChipError)
  | finish (result : ChipError)
deriving DecidableEq, Repr

structure Call where
  setupPincode : ℕ
  nodeId : ℕ := 0
  stage : Stage := .create
deriving DecidableEq, Repr

/-- What the Matter task does next in `on_commissioning_success_callback` or
`on_commissioning_failure_callback`, for a peer. -/
inductive Callback where
  | idle
  | writeResult (peer : ℕ) (result : ChipError)
  | give (peer : ℕ)
deriving DecidableEq, Repr

structure State where
  /-- `s_commission_ctx.done`; `none` is a null handle. -/
  done : Option ℕ := none
  /-- `s_commission_ctx.result`. -/
  result : ChipError := 0
  /-- The semaphores that were made. -/
  semaphores : List Semaphore := []
  /-- `HEM_NodeIdCnt`. -/
  nodeIdCounter : Option ℕ := none
  /-- `HEM_NodeList`. -/
  nodeList : List ℕ := []
  /-- The pairing command is the commissioner's pairing delegate. -/
  pairingDelegate : Bool := false
  /-- It is the device discovery delegate. -/
  discoveryDelegate : Bool := false
  callbacksSet : Bool := false
  remoteNodeId : ℕ := 0
  setupPincode : ℕ := 0
  call : Option Call := none
  matter : Callback := .idle
  /-- The node ids under which a device is being paired. -/
  pairing : List ℕ := []
  /-- The node ids under which a device has joined. -/
  joined : List ℕ := []
  /-- The calls that took the semaphore: their node id and the peer whose callback gave it. -/
  completed : List (ℕ × ℕ) := []
  /-- The node ids that a call gave to `node_list_add`. -/
  added : List ℕ := []
  returned : List EspErr := []
  /-- A callback has given a semaphore that was deleted, or a null handle. -/
  gaveDeleted : Bool := false
deriving DecidableEq, Repr

inductive Label where
  /-- A call with the PIN code of its payload, if that could be parsed. -/
  | call (setupPincode : Option ℕ)
  /-- The call does its next action; `ok` is the outcome of what may fail. -/
  | act (ok : Bool)
  | timeout
  | discovered (commissioningMode : ℕ)
  /-- `OnPairingComplete` with an error. -/
  | paseFailed (peer : ℕ)
  | success (peer : ℕ)
  | failure (peer : ℕ) (error : ChipError)
  /-- The Matter task does its next action. -/
  | matter
deriving DecidableEq, Repr

def State.goTo (s : State) (c : Call) (stage : Stage) : State :=
  { s with call := some { c with stage := stage } }

def State.leave (s : State) (err : EspErr) : State :=
  { s with call := none, returned := s.returned ++ [err] }

/-- `vSemaphoreDelete(s_commission_ctx.done)`. -/
def State.deleteDone (s : State) : State :=
  match s.done with
  | some i => { s with semaphores := s.semaphores.modify i fun sem => { sem with deleted := true } }
  | none => s

/-- The semaphore that `s_commission_ctx.done` stands for. -/
def State.semaphore (s : State) : Option Semaphore := s.done.bind (s.semaphores[·]?)

def nodeListAdd (n : ℕ) (list : List ℕ) : List ℕ :=
  if kMaxNodes ≤ list.length then list else list ++ [n]

/-- `pairing_on_network`, whose result is not looked at. If the discovery does not start, the
delegates stay. -/
def pairingOnNetwork (s : State) (n pincode : ℕ) : State :=
  if s.pairingDelegate then s
  else
    { s with
      discoveryDelegate := true
      pairingDelegate := true
      setupPincode := pincode
      remoteNodeId := n }

/-- The next action of the call; `none` while it is blocked. -/
def callAct (s : State) (c : Call) (ok : Bool) : Option State :=
  match c.stage with
  | .create =>
    if ok then
      some ({ s with
        done := some s.semaphores.length
        semaphores := s.semaphores ++ [({ givenBy := none } : Semaphore)] }.goTo c .resetResult)
    else some ({ s with done := none }.goTo c .resetResult)
  | .resetResult =>
    if s.done.isSome then some ({ s with result := 0 }.goTo c .allocate)
    else some ({ s with result := 0 }.leave .noMem)
  | .allocate =>
    let n := s.nodeIdCounter.getD kFirstDeviceNodeId
    some ({ s with nodeIdCounter := if ok then some (n + 1) else s.nodeIdCounter }.goTo
      { c with nodeId := n } .setCallbacks)
  | .setCallbacks => some ({ s with callbacksSet := true }.goTo c .pair)
  | .pair =>
    match s.matter with
    | .idle => some ((pairingOnNetwork s c.nodeId c.setupPincode).goTo c .wait)
    | _ => none
  | .wait =>
    match s.done, s.semaphore with
    | some i, some { givenBy := some peer, deleted := false } =>
      some ({ s with
        semaphores := s.semaphores.modify i fun sem => { sem with givenBy := none }
        completed := s.completed ++ [(c.nodeId, peer)] }.goTo c .readResult)
    | _, _ => none
  | .deleteTimedOut => some (s.deleteDone.leave .timeout)
  | .readResult => some (s.goTo c (.delete s.result))
  | .delete result => some (s.deleteDone.goTo c (.finish result))
  | .finish result =>
    if result = 0 then
      some ({ s with
        nodeList := nodeListAdd c.nodeId s.nodeList
        added := s.added ++ [c.nodeId] }.leave .ok)
    else some (s.leave .fail)

/-- `OnCommissioningSuccess` and `OnCommissioningFailure` up to the registered callback. -/
def onCommissioning (s : State) (peer : ℕ) (result : ChipError) : Option State :=
  match s.matter with
  | .idle =>
    if peer ∈ s.pairing ∧ s.pairingDelegate then
      some { s with
        pairingDelegate := false
        pairing := s.pairing.erase peer
        matter := if s.callbacksSet then .writeResult peer result else .idle }
    else none
  | _ => none

def step (s : State) : Label → Option State
  | .call none => if s.call.isSome then none else some (s.leave .invalidArg)
  | .call (some pincode) =>
    if s.call.isSome then none else some { s with call := some { setupPincode := pincode } }
  | .act ok => s.call.bind fun c => callAct s c ok
  | .timeout =>
    match s.call, s.semaphore with
    | some c, some { givenBy := none, deleted := false } =>
      if c.stage = .wait then some (s.goTo c .deleteTimedOut) else none
    | _, _ => none
  | .discovered commissioningMode =>
    match s.matter with
    | .idle =>
      if s.discoveryDelegate ∧ commissioningMode ≠ 0 then
        some { s with discoveryDelegate := false, pairing := s.pairing ++ [s.remoteNodeId] }
      else none
    | _ => none
  | .paseFailed peer =>
    match s.matter with
    | .idle =>
      if peer ∈ s.pairing ∧ s.pairingDelegate then
        some { s with pairingDelegate := false, pairing := s.pairing.erase peer }
      else none
    | _ => none
  | .success peer => onCommissioning { s with joined := s.joined ++ [peer] } peer 0
  | .failure peer error => if error = 0 then none else onCommissioning s peer error
  | .matter =>
    match s.matter with
    | .idle => none
    | .writeResult peer result => some { s with result := result, matter := .give peer }
    | .give peer =>
      match s.done, s.semaphore with
      | some i, some { givenBy := _, deleted := false } =>
        some { s with
          semaphores := s.semaphores.modify i fun sem => { sem with givenBy := some peer }
          matter := .idle }
      | _, _ => some { s with gaveDeleted := true, matter := .idle }

/-- The state after the start of the firmware. -/
def State.boot (nodeIdCounter : Option ℕ) (nodeList : List ℕ) : State :=
  { nodeIdCounter := nodeIdCounter, nodeList := nodeList }

/-! ## The results of the calls -/

/-- No callback gives a deleted semaphore or completes the call of another node id, and a node id
that a call added is one under which a device joined. -/
structure OwnResults (s : State) : Prop where
  alive : s.gaveDeleted = false
  completed : ∀ p ∈ s.completed, p.1 = p.2
  joined : ∀ n ∈ s.added, n ∈ s.joined

/-- The call has a semaphore that its own callback may give. -/
def Stage.open : Stage → Bool
  | .wait | .deleteTimedOut => true
  | _ => false

/-- The condition on a step. A callback comes only while the call that allocated the node id has its
semaphore, and a call that has timed out deletes it only while no callback runs. -/
def StepInTime (s : State) : Label → Prop
  | .success peer | .failure peer _ => ∃ c ∈ s.call, c.nodeId = peer ∧ c.stage.open = true
  | .act _ => ∀ c ∈ s.call, c.stage = .deleteTimedOut → s.matter = .idle
  | _ => True

instance (s : State) : DecidablePred (StepInTime s)
  | .success peer | .failure peer _ =>
    inferInstanceAs (Decidable (∃ c ∈ s.call, c.nodeId = peer ∧ c.stage.open = true))
  | .act _ => inferInstanceAs (Decidable (∀ c ∈ s.call, _ → _))
  | .call _ | .timeout | .discovered _ | .paseFailed _ | .matter => isTrue trivial

/-- The semaphore of the moment is a new one. -/
def State.Fresh (s : State) : Prop := s.semaphore = some { givenBy := none, deleted := false }

/-- A callback for the peer has begun while the call waits: it has unregistered the delegate, so no
other follows, and `result` says success only if the peer has joined. -/
def State.Begun (s : State) (c : Call) (peer : ℕ) (result : ChipError) : Prop :=
  peer = c.nodeId ∧ s.pairingDelegate = false ∧ (result = 0 → peer ∈ s.joined)

/-- How far the callback has got while the call has its semaphore. -/
def State.Given (s : State) (c : Call) (sem : Semaphore) : Callback → Prop
  | .idle => ∀ peer ∈ sem.givenBy, s.Begun c peer s.result
  | .writeResult peer result => sem.givenBy = none ∧ s.Begun c peer result
  | .give peer => sem.givenBy = none ∧ s.Begun c peer s.result

/-- What holds of the call at each stage. -/
def State.CallOk (s : State) (c : Call) : Stage → Prop
  | .create => s.matter = .idle
  | .resetResult => s.matter = .idle ∧ (s.done.isSome = true → s.Fresh)
  | .allocate | .setCallbacks | .pair => s.matter = .idle ∧ s.Fresh
  | .wait | .deleteTimedOut =>
    ∃ sem, s.semaphore = some sem ∧ sem.deleted = false ∧ s.Given c sem s.matter
  | .readResult => s.matter = .idle ∧ (s.result = 0 → c.nodeId ∈ s.joined)
  | .delete result | .finish result => s.matter = .idle ∧ (result = 0 → c.nodeId ∈ s.joined)

/-- The invariant: a callback runs only for the call that has its semaphore. -/
structure InTimeInv (s : State) : Prop where
  results : OwnResults s
  call : ∀ c ∈ s.call, s.CallOk c c.stage
  between : s.call = none → s.matter = .idle

section Step

variable {s s' : State} {c : Call}

/-- While the call has its semaphore, what holds is how far the callback has got. -/
theorem callOk_iff_of_open {stage : Stage} (hopen : stage.open = true) :
    s.CallOk c stage ↔
      ∃ sem, s.semaphore = some sem ∧ sem.deleted = false ∧ s.Given c sem s.matter := by
  cases stage with
  | wait | deleteTimedOut => exact Iff.rfl
  | _ => exact absurd hopen Bool.false_ne_true

/-- Unregistering the delegate takes nothing away. -/
theorem State.CallOk.unregister {stage : Stage} (h : s.CallOk c stage) (pairing : List ℕ) :
    ({ s with pairingDelegate := false, pairing := pairing } : State).CallOk c stage := by
  cases stage with
  | wait | deleteTimedOut =>
    obtain ⟨sem, hsem, hdeleted, hgiven⟩ := h
    refine ⟨sem, hsem, hdeleted, ?_⟩
    dsimp only
    generalize s.matter = matter at hgiven
    cases matter with
    | idle =>
      intro peer hpeer
      obtain ⟨hc, -, hjoined⟩ := hgiven peer hpeer
      exact ⟨hc, rfl, hjoined⟩
    | writeResult peer result | give peer => exact ⟨hgiven.1, hgiven.2.1, rfl, hgiven.2.2.2⟩
  | _ => exact h

/-- The call goes on with what holds at its next stage. -/
theorem InTimeInv.goTo (c : Call) (stage : Stage) (hresults : OwnResults s')
    (hcall : (s'.goTo c stage).CallOk { c with stage := stage } stage) :
    InTimeInv (s'.goTo c stage) where
  results := ⟨hresults.alive, hresults.completed, hresults.joined⟩
  call c' hc' := by
    obtain rfl := Option.some.inj hc'
    exact hcall
  between hnone := nomatch hnone

theorem InTimeInv.leave (hresults : OwnResults s') (hidle : s'.matter = .idle) (err : EspErr) :
    InTimeInv (s'.leave err) where
  results := ⟨hresults.alive, hresults.completed, hresults.joined⟩
  call _ hc := nomatch hc
  between _ := hidle

theorem deleteDone_frame :
    s.deleteDone.matter = s.matter ∧ s.deleteDone.joined = s.joined ∧
      (OwnResults s → OwnResults s.deleteDone) := by
  unfold State.deleteDone
  split
  · exact ⟨rfl, rfl, fun h => ⟨h.alive, h.completed, h.joined⟩⟩
  · exact ⟨rfl, rfl, id⟩

/-- The call makes its semaphore, or gets none. -/
theorem inTimeInv_create {ok : Bool} (h : InTimeInv s) (hc : s.call = some c)
    (hstage : c.stage = .create) (hact : callAct s c ok = some s') : InTimeInv s' := by
  have hidle := h.call c hc
  have hresults := h.results
  rw [hstage] at hidle
  simp only [callAct, hstage] at hact
  split at hact
  · obtain rfl := Option.some.inj hact
    refine .goTo c .resetResult ⟨hresults.alive, hresults.completed, hresults.joined⟩
      ⟨hidle, fun _ => ?_⟩
    exact List.getElem?_concat_length
  · obtain rfl := Option.some.inj hact
    exact .goTo c .resetResult ⟨hresults.alive, hresults.completed, hresults.joined⟩ ⟨hidle, nofun⟩

/-- The call goes on with the semaphore that it made, or returns. -/
theorem inTimeInv_resetResult {ok : Bool} (h : InTimeInv s) (hc : s.call = some c)
    (hstage : c.stage = .resetResult) (hact : callAct s c ok = some s') : InTimeInv s' := by
  have hok := h.call c hc
  have hresults := h.results
  rw [hstage] at hok
  simp only [callAct, hstage] at hact
  split at hact
  · rename_i hdone
    obtain rfl := Option.some.inj hact
    exact .goTo c .allocate ⟨hresults.alive, hresults.completed, hresults.joined⟩
      ⟨hok.1, hok.2 hdone⟩
  · obtain rfl := Option.some.inj hact
    refine .leave ?_ ?_ _
    · exact ⟨hresults.alive, hresults.completed, hresults.joined⟩
    · exact hok.1

theorem inTimeInv_pair {ok : Bool} (h : InTimeInv s) (hc : s.call = some c)
    (hstage : c.stage = .pair) (hact : callAct s c ok = some s') : InTimeInv s' := by
  have hok := h.call c hc
  have hresults := h.results
  rw [hstage] at hok
  obtain ⟨hidle, hfresh⟩ := hok
  simp only [callAct, hstage, hidle] at hact
  obtain rfl := Option.some.inj hact
  unfold pairingOnNetwork
  split
  · refine .goTo c .wait hresults ⟨_, hfresh, rfl, ?_⟩
    rw [State.goTo, hidle]
    exact nofun
  · refine .goTo c .wait ⟨hresults.alive, hresults.completed, hresults.joined⟩
      ⟨_, hfresh, rfl, ?_⟩
    rw [State.goTo, hidle]
    exact nofun

/-- The call takes the semaphore that the callback for its own node has given. -/
theorem inTimeInv_wait {ok : Bool} (h : InTimeInv s) (hc : s.call = some c)
    (hstage : c.stage = .wait) (hact : callAct s c ok = some s') : InTimeInv s' := by
  have hok := h.call c hc
  have hresults := h.results
  rw [hstage] at hok
  simp only [callAct, hstage] at hact
  split at hact
  · rename_i i peer hdone hsem
    obtain ⟨sem, hsem', -, hgiven⟩ := hok
    obtain rfl := Option.some.inj (hsem.symm.trans hsem')
    obtain rfl := Option.some.inj hact
    -- the callback that gave the semaphore is over
    have hidle : s.matter = .idle := by
      generalize s.matter = matter at hgiven
      cases matter with
      | idle => rfl
      | writeResult | give => exact nomatch hgiven.1
    rw [hidle] at hgiven
    obtain ⟨hpeer, -, hjoined⟩ := hgiven peer rfl
    refine .goTo c .readResult ⟨hresults.alive, fun p hp => ?_, hresults.joined⟩
      ⟨hidle, hpeer ▸ hjoined⟩
    rcases List.mem_append.mp hp with hold | hnew
    · exact hresults.completed p hold
    · rw [List.mem_singleton.mp hnew]
      exact hpeer.symm
  · exact nomatch hact

/-- The call adds its node to the list if its result says success. -/
theorem inTimeInv_finish {ok : Bool} {result : ChipError} (h : InTimeInv s) (hc : s.call = some c)
    (hstage : c.stage = .finish result) (hact : callAct s c ok = some s') : InTimeInv s' := by
  have hok := h.call c hc
  have hresults := h.results
  rw [hstage] at hok
  simp only [callAct, hstage] at hact
  split at hact
  · rename_i hzero
    obtain rfl := Option.some.inj hact
    refine .leave ?_ ?_ _
    · refine ⟨hresults.alive, hresults.completed, fun n hn => ?_⟩
      rcases List.mem_append.mp hn with hold | hnew
      · exact hresults.joined n hold
      · rw [List.mem_singleton.mp hnew]
        exact hok.2 hzero
    · exact hok.1
  · obtain rfl := Option.some.inj hact
    exact .leave hresults hok.1 _

theorem inTimeInv_callAct {ok : Bool} (h : InTimeInv s) (hc : s.call = some c)
    (htime : c.stage = .deleteTimedOut → s.matter = .idle)
    (hact : callAct s c ok = some s') : InTimeInv s' := by
  have hok := h.call c hc
  have hresults := h.results
  cases hstage : c.stage with
  | create => exact inTimeInv_create h hc hstage hact
  | resetResult => exact inTimeInv_resetResult h hc hstage hact
  | allocate | setCallbacks =>
    rw [hstage] at hok
    rw [callAct, hstage] at hact
    obtain rfl := Option.some.inj hact
    exact .goTo _ _ ⟨hresults.alive, hresults.completed, hresults.joined⟩ hok
  | pair => exact inTimeInv_pair h hc hstage hact
  | wait => exact inTimeInv_wait h hc hstage hact
  | deleteTimedOut =>
    rw [callAct, hstage] at hact
    obtain rfl := Option.some.inj hact
    obtain ⟨hmatter, -, hown⟩ := deleteDone_frame (s := s)
    exact .leave (hown hresults) (hmatter.trans (htime hstage)) _
  | readResult =>
    rw [hstage] at hok
    rw [callAct, hstage] at hact
    obtain rfl := Option.some.inj hact
    exact .goTo c (.delete s.result) hresults hok
  | delete result =>
    rw [hstage] at hok
    rw [callAct, hstage] at hact
    obtain rfl := Option.some.inj hact
    obtain ⟨hmatter, hjoined, hown⟩ := deleteDone_frame (s := s)
    refine .goTo c (.finish result) (hown hresults) ⟨hmatter.trans hok.1, fun hzero => ?_⟩
    exact (congrArg (c.nodeId ∈ ·) hjoined).mpr (hok.2 hzero)
  | finish result => exact inTimeInv_finish h hc hstage hact

/-- A callback begins while its call has a semaphore that is not given yet. -/
theorem inTimeInv_onCommissioning {peer : ℕ} {result : ChipError} {joined : List ℕ}
    (h : InTimeInv s) (hin : ∃ c ∈ s.call, c.nodeId = peer ∧ c.stage.open = true)
    (hsub : ∀ n ∈ s.joined, n ∈ joined) (hjoined : result = 0 → peer ∈ joined)
    (hstep : onCommissioning { s with joined := joined } peer result = some s') : InTimeInv s' := by
  obtain ⟨c, hc, rfl, hopen⟩ := hin
  have hok := h.call c hc
  have hresults : ∀ t : State, t.gaveDeleted = s.gaveDeleted → t.completed = s.completed →
      t.added = s.added → t.joined = joined → OwnResults t := by
    intro t hgave hcompleted hadded hjoined'
    refine ⟨hgave.trans h.results.alive, fun p hp => ?_, fun n hn => ?_⟩
    · exact h.results.completed p (hcompleted ▸ hp)
    · rw [hjoined']
      exact hsub n (h.results.joined n (hadded ▸ hn))
  unfold onCommissioning at hstep
  split at hstep
  · rename_i hidle
    split at hstep
    · rename_i hpairing
      obtain rfl := Option.some.inj hstep
      -- the delegate is still registered, so no callback has given the semaphore
      have hwait : ∃ sem, s.semaphore = some sem ∧ sem.deleted = false ∧ sem.givenBy = none := by
        obtain ⟨sem, hsem, hdeleted, hgiven⟩ := (callOk_iff_of_open hopen).mp hok
        refine ⟨sem, hsem, hdeleted, ?_⟩
        rw [show s.matter = .idle from hidle] at hgiven
        cases hby : sem.givenBy with
        | none => rfl
        | some peer =>
          obtain ⟨-, hdelegate, -⟩ := hgiven peer hby
          exact absurd (hdelegate.symm.trans hpairing.2) Bool.false_ne_true
      obtain ⟨sem, hsem, hdeleted, hby⟩ := hwait
      refine ⟨hresults _ rfl rfl rfl rfl, fun c' hc' => ?_, fun hnone => ?_⟩
      · obtain rfl := Option.some.inj (hc.symm.trans hc')
        refine (callOk_iff_of_open hopen).mpr ⟨sem, hsem, hdeleted, ?_⟩
        dsimp only
        split
        · exact ⟨hby, rfl, rfl, hjoined⟩
        · intro peer hpeer
          rw [hby] at hpeer
          exact nomatch hpeer
      · exact nomatch hc.symm.trans hnone
    · exact nomatch hstep
  · exact nomatch hstep

/-- The Matter task goes on with a callback of the call that has its semaphore. -/
theorem inTimeInv_matter (h : InTimeInv s) (hstep : step s .matter = some s') : InTimeInv s' := by
  have hbusy : s.matter ≠ .idle → ∃ c ∈ s.call, c.stage.open = true ∧
      ∃ sem, s.semaphore = some sem ∧ sem.deleted = false ∧ s.Given c sem s.matter := by
    intro hmatter
    cases hc : s.call with
    | none => exact absurd (h.between hc) hmatter
    | some c =>
      have hok := h.call c hc
      cases hopen : c.stage.open with
      | true => exact ⟨c, rfl, hopen, (callOk_iff_of_open hopen).mp hok⟩
      | false =>
        have hidle : s.matter = .idle := by
          generalize c.stage = stage at hok hopen
          cases stage with
          | create => exact hok
          | wait | deleteTimedOut => exact absurd hopen.symm Bool.false_ne_true
          | _ => exact hok.1
        exact absurd hidle hmatter
  simp only [step] at hstep
  split at hstep
  · exact nomatch hstep
  · rename_i peer result hmatter
    obtain rfl := Option.some.inj hstep
    obtain ⟨c, hc, hopen, sem, hsem, hdeleted, hgiven⟩ := hbusy (by rw [hmatter]; exact nofun)
    rw [hmatter] at hgiven
    refine ⟨⟨h.results.alive, h.results.completed, h.results.joined⟩, fun c' hc' => ?_,
      fun hnone => nomatch (Option.mem_def.mp hc).symm.trans hnone⟩
    obtain rfl := Option.some.inj ((Option.mem_def.mp hc).symm.trans hc')
    exact (callOk_iff_of_open hopen).mpr ⟨sem, hsem, hdeleted, hgiven⟩
  · rename_i peer hmatter
    obtain ⟨c, hc, hopen, ⟨givenBy, deleted⟩, hsem, hdeleted, hgiven⟩ :=
      hbusy (by rw [hmatter]; exact nofun)
    obtain rfl : deleted = false := hdeleted
    rw [hmatter] at hgiven
    obtain ⟨i, hdone, hi⟩ := Option.bind_eq_some_iff.mp hsem
    rw [hdone, hsem] at hstep
    obtain rfl := Option.some.inj hstep
    refine ⟨⟨h.results.alive, h.results.completed, h.results.joined⟩, fun c' hc' => ?_,
      fun hnone => nomatch (Option.mem_def.mp hc).symm.trans hnone⟩
    obtain rfl := Option.some.inj ((Option.mem_def.mp hc).symm.trans hc')
    refine (callOk_iff_of_open hopen).mpr
      ⟨{ givenBy := some peer, deleted := false }, ?_, rfl, fun peer' hpeer' => ?_⟩
    · rw [State.semaphore, Option.bind_some, List.getElem?_modify_eq, hi]
      rfl
    · obtain rfl := Option.some.inj hpeer'
      exact hgiven.2

theorem inTimeInv_step (s : State) (l : Label) (s' : State) (h : InTimeInv s)
    (hok : StepInTime s l) (hstep : step s l = some s') : InTimeInv s' := by
  cases l with
  | call pincode =>
    cases pincode with
    | none =>
      simp only [step] at hstep
      split at hstep
      · exact nomatch hstep
      · rename_i hfree
        obtain rfl := Option.some.inj hstep
        exact .leave h.results (h.between (by simpa using hfree)) _
    | some pincode =>
      simp only [step] at hstep
      split at hstep
      · exact nomatch hstep
      · rename_i hfree
        have hidle := h.between (by simpa using hfree)
        obtain rfl := Option.some.inj hstep
        refine ⟨⟨h.results.alive, h.results.completed, h.results.joined⟩, fun c hc => ?_,
          fun _ => hidle⟩
        obtain rfl := Option.some.inj hc
        exact hidle
  | act ok =>
    obtain ⟨c, hc, hact⟩ := Option.bind_eq_some_iff.mp hstep
    exact inTimeInv_callAct h hc (hok c hc) hact
  | timeout =>
    simp only [step] at hstep
    split at hstep
    · rename_i c hc hsem
      split at hstep
      · rename_i hstage
        obtain rfl := Option.some.inj hstep
        have hwait := h.call c hc
        rw [hstage] at hwait
        exact .goTo c .deleteTimedOut h.results hwait
      · exact nomatch hstep
    · exact nomatch hstep
  | discovered commissioningMode =>
    simp only [step] at hstep
    split at hstep
    · split at hstep
      · obtain rfl := Option.some.inj hstep
        exact ⟨⟨h.results.alive, h.results.completed, h.results.joined⟩, h.call, h.between⟩
      · exact nomatch hstep
    · exact nomatch hstep
  | paseFailed peer =>
    simp only [step] at hstep
    split at hstep
    · split at hstep
      · obtain rfl := Option.some.inj hstep
        exact ⟨⟨h.results.alive, h.results.completed, h.results.joined⟩,
          fun c hc => (h.call c hc).unregister _, h.between⟩
      · exact nomatch hstep
    · exact nomatch hstep
  | success peer =>
    refine inTimeInv_onCommissioning h hok (fun n hn => List.mem_append_left _ hn) (fun _ => ?_)
      hstep
    exact List.mem_append_right _ (List.mem_singleton_self _)
  | failure peer error =>
    simp only [step] at hstep
    split at hstep
    · exact nomatch hstep
    · rename_i herror
      exact inTimeInv_onCommissioning h hok (fun _ => id) (fun hzero => absurd hzero herror) hstep
  | matter => exact inTimeInv_matter h hstep

end Step

theorem inTimeInv_boot (nodeIdCounter : Option ℕ) (nodeList : List ℕ) :
    InTimeInv (.boot nodeIdCounter nodeList) where
  results := ⟨rfl, nofun, nofun⟩
  call := nofun
  between _ := rfl

/-- The next `k` actions of the call, with nothing failing. -/
def acts (k : ℕ) : List Label := List.replicate k (.act true)

/-- One device is discovered, joins and is added. -/
def joinRun : List Label :=
  [.call (some 20202021)] ++ acts 5 ++ [.discovered 2, .success 1, .matter, .matter] ++ acts 4

/-- The call for node 1 times out while the device is being paired. The pairing for node 2 is
refused without notice, and then the device joins as node 1. -/
def lateSuccessRun : List Label :=
  [.call (some 20202021)] ++ acts 5 ++ [.discovered 2, .timeout] ++ acts 1
    ++ [.call (some 20202021)] ++ acts 5 ++ [.success 1, .matter, .matter] ++ acts 4

end HomeEnergyManager.Commissioning
