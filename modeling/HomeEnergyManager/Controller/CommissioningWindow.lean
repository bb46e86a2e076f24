import Mathlib.Data.List.Basic
import HomeEnergyManager.Lib.StepSystem

/-! # Opening a commissioning window

A call of `open_commissioning_window` and the callback on the Matter task share one waiting flag,
one semaphore and one result. An action is one access to one of these. Calls exclude each other by a
lock that they only try, and a call that gives up leaves its request to the callback.

Reference: `firmware/main/commands/commissioning_window_command.cpp`.
-/

namespace HomeEnergyManager.CommissioningWindow

/-- `CHIP_ERROR`; 0 is `CHIP_NO_ERROR`. -/
abbrev ChipError := ℕ

inductive EspErr where
  | ok
  | fail
  | noMem
  | invalidArg
  | invalidState
  | timeout
deriving DecidableEq, Repr

abbrev Text := List Char

def COMMISSIONING_WINDOW_TIMEOUT_S : ℕ := 900

/-- `commissioning_window_result_t`. -/
structure WindowResult where
  manualCode : Text := []
  qrCode : Text := []
  timeoutS : ℕ := COMMISSIONING_WINDOW_TIMEOUT_S
deriving DecidableEq, Repr

/-- The setup payload generators: the error, and what stands in the buffer afterwards. -/
structure Generators (P : Type) where
  manualCode : P → ChipError × Text
  qrCode : P → ChipError × Text

/-- `open_request_t`. `answer` is what its callback was called with and `deletes` how often it was
deleted; no code reads these. -/
structure OpenRequest (P : Type) where
  nodeId : ℕ
  answer : Option (ChipError × P) := none
  deletes : ℕ := 0
deriving DecidableEq, Repr

/-- Where the call that holds `s_lock` stands. -/
inductive Stage where
  /-- Clears `s_result`. -/
  | clear
  | drain
  | arm
  | openWindow
  | disarm (err : ChipError)
  | deleteRequest (err : ChipError)
  | leaveRefused (err : ChipError)
  /-- The first `xSemaphoreTake` on `s_done`. -/
  | wait
  /-- It has timed out; `s_waiting.exchange` follows. -/
  | giveUp
  | leaveTimedOut
  /-- The `xSemaphoreTake` without timeout. -/
  | waitForClaimed
  | readStatus
  | readResult (status : ChipError)
deriving DecidableEq, Repr

structure Call where
  nodeId : ℕ
  request : ℕ
  stage : Stage
deriving DecidableEq, Repr

/-- What the Matter task does next in `on_complete`. -/
inductive OnComplete (P : Type) where
  | idle
  | writeManualCode (request : ℕ) (payload : P)
  | writeQrCode (request : ℕ) (payload : P)
  | writeStatus (request : ℕ) (status : ChipError)
  | give (request : ℕ)
  | deleteRequest (request : ℕ)
deriving DecidableEq, Repr

/-- What a call returned, with its request; `out` is what it copied from `s_result`, if it did. -/
structure Returned where
  nodeId : ℕ
  request : Option ℕ
  err : EspErr
  chipErr : ChipError := 0
  out : Option WindowResult := none
deriving DecidableEq, Repr

structure State (P : Type) where
  /-- The call that holds `s_lock`. -/
  call : Option Call := none
  /-- `s_done`. -/
  done : Bool := false
  /-- `s_waiting`. -/
  waiting : Bool := false
  /-- `s_status`. -/
  status : ChipError := 0
  /-- `s_result`. -/
  result : WindowResult := {}
  matter : OnComplete P := .idle
  requests : List (OpenRequest P) := []
  /-- The requests that CHIP has accepted and not yet called back. -/
  accepted : List ℕ := []
  returned : List Returned := []
deriving DecidableEq, Repr

variable {P : Type}

/-- How a call gets on before it starts waiting. -/
inductive Entry where
  | notOperational
  | notInitialised
  | drbgFailed
  | noRequest
  | enters
deriving DecidableEq, Repr

inductive Label (P : Type) where
  /-- A call for a node, as far as the allocation of its request. -/
  | call (nodeId : ℕ) (entry : Entry)
  /-- The call that holds the lock does its next action. -/
  | act
  /-- `OpenCommissioningWindow` returns. -/
  | opened (err : ChipError)
  /-- The first wait times out. -/
  | timeout
  /-- CHIP calls the callback of a request, which claims the result if somebody waits. -/
  | callback (request : ℕ) (status : ChipError) (payload : P)
  /-- The Matter task does its next action. -/
  | matter
deriving DecidableEq, Repr

def State.goTo (s : State P) (c : Call) (stage : Stage) : State P :=
  { s with call := some { c with stage := stage } }

/-- The call returns, and with it the lock. -/
def State.leave (s : State P) (c : Call) (err : EspErr) (chipErr : ChipError)
    (out : Option WindowResult) : State P :=
  { s with
    call := none
    returned := s.returned ++
      [{ nodeId := c.nodeId, request := some c.request, err := err, chipErr := chipErr,
         out := out }] }

def State.delete (s : State P) (r : ℕ) : State P :=
  { s with requests := s.requests.modify r fun q => { q with deletes := q.deletes + 1 } }

/-- `open_commissioning_window` until the request is allocated. -/
def enter (s : State P) (n : ℕ) (entry : Entry) : State P :=
  let refuse (err : EspErr) : State P :=
    { s with returned := s.returned ++ [{ nodeId := n, request := none, err := err }] }
  match entry with
  | .notOperational => refuse .invalidArg
  | .notInitialised => refuse .noMem
  | .drbgFailed => refuse (if s.call.isSome then .invalidState else .fail)
  | .noRequest => refuse (if s.call.isSome then .invalidState else .noMem)
  | .enters =>
    if s.call.isSome then refuse .invalidState
    else
      { s with
        call := some { nodeId := n, request := s.requests.length, stage := .clear }
        requests := s.requests ++ [{ nodeId := n }] }

/-- The next action of the call `c`; `none` while it is blocked. -/
def callAct (s : State P) (c : Call) : Option (State P) :=
  match c.stage with
  | .clear => some ({ s with result := {} }.goTo c .drain)
  | .drain => some ({ s with done := false }.goTo c .arm)
  | .arm => some ({ s with waiting := true }.goTo c .openWindow)
  | .openWindow => none
  | .disarm err => some ({ s with waiting := false }.goTo c (.deleteRequest err))
  | .deleteRequest err => some ((s.delete c.request).goTo c (.leaveRefused err))
  | .leaveRefused err => some (s.leave c .fail err none)
  | .wait => if s.done then some ({ s with done := false }.goTo c .readStatus) else none
  | .giveUp =>
    some ({ s with waiting := false }.goTo c
      (if s.waiting then .leaveTimedOut else .waitForClaimed))
  | .leaveTimedOut => some (s.leave c .timeout 0 none)
  | .waitForClaimed =>
    if s.done then some ({ s with done := false }.goTo c .readStatus) else none
  | .readStatus => some (s.goTo c (.readResult s.status))
  | .readResult status =>
    some (s.leave c (if status = 0 then .ok else .fail) status (some s.result))

/-- `on_complete` from the claim on. -/
def matterAct (gen : Generators P) (s : State P) : Option (State P) :=
  match s.matter with
  | .idle => none
  | .writeManualCode r payload =>
    let code := gen.manualCode payload
    some { s with
      result := { s.result with manualCode := code.2 }
      matter := if code.1 = 0 then .writeQrCode r payload else .writeStatus r code.1 }
  | .writeQrCode r payload =>
    let code := gen.qrCode payload
    some { s with
      result := { s.result with qrCode := code.2 }
      matter := .writeStatus r code.1 }
  | .writeStatus r status => some { s with status := status, matter := .give r }
  | .give r => some { s with done := true, matter := .deleteRequest r }
  | .deleteRequest r => some { s.delete r with matter := .idle }

def step (gen : Generators P) (s : State P) : Label P → Option (State P)
  | .call n entry => some (enter s n entry)
  | .act => s.call.bind (callAct s)
  | .opened err =>
    match s.call with
    | some c =>
      if c.stage = .openWindow then
        if err = 0 then some ({ s with accepted := s.accepted ++ [c.request] }.goTo c .wait)
        else some (s.goTo c (.disarm err))
      else none
    | none => none
  | .timeout =>
    match s.call with
    | some c => if c.stage = .wait ∧ s.done = false then some (s.goTo c .giveUp) else none
    | none => none
  | .callback r status payload =>
    match s.matter with
    | .idle =>
      if r ∈ s.accepted then
        some { s with
          accepted := s.accepted.erase r
          requests := s.requests.modify r fun q => { q with answer := some (status, payload) }
          waiting := false
          matter :=
            if s.waiting then
              if status = 0 then .writeManualCode r payload else .writeStatus r status
            else .deleteRequest r }
      else none
    | _ => none
  | .matter => matterAct gen s

/-- What `on_complete` makes of what it is called with: the status and the result. -/
def complete (gen : Generators P) (status : ChipError) (payload : P) : ChipError × WindowResult :=
  if status = 0 then
    let manual := gen.manualCode payload
    if manual.1 = 0 then
      let qr := gen.qrCode payload
      (qr.1, { manualCode := manual.2, qrCode := qr.2 })
    else (manual.1, { manualCode := manual.2 })
  else (status, {})

end HomeEnergyManager.CommissioningWindow
