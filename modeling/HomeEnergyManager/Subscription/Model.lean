import Mathlib.Algebra.Group.Nat.Defs
import Mathlib.Data.List.AList
import Mathlib.Logic.Function.Basic
import HomeEnergyManager.Lib.StepSystem

/-! # The subscription manager as a step system

Four tasks run at once: the CHIP task with the callbacks and `send_subscription`, the worker, the
HTTP server and the main task. Each of them has a list of actions still to do. An action is one
section under a mutex, one queue operation or one read, and doing it may put further actions in
front. The number 0, which marks an unused table entry and a free slot in the source, is no node id.

Reference: `firmware/main/managers/subscription_manager.cpp`.
-/

namespace HomeEnergyManager.SubscriptionManager

def SUBSCRIPTION_QUEUE_DEPTH : ℕ := 16

def SWEEP_INTERVAL_MS : ℕ := 60000

abbrev MAX_ATTEMPTS_IN_FLIGHT : ℕ := 4

def ATTEMPT_TIMEOUT_MS : ℕ := 90000

def MAX_NODES : ℕ := 32

/-- `pdMS_TO_TICKS` at 100 ticks a second. -/
def pdMS_TO_TICKS (ms : ℕ) : ℕ := ms * 100 / 1000

/-- `node_state_t`, without the node id that it is found by. -/
structure NodeState where
  hasSubscription : Bool := false
  isSubscriptionPending : Bool := false
  subscriptionId : ℕ := 0
  isIcd : Bool := false
deriving DecidableEq, Repr

/-- `s_nodes`: the used entries. An entry is never released. -/
abbrev Nodes := AList fun _ : ℕ => NodeState

/-- `attempt_slot_t`. The attempt that claimed the slot is a witness that no code reads. -/
structure AttemptSlot where
  nodeId : ℕ
  started : ℕ
  attempt : ℕ
deriving DecidableEq, Repr

/-- What became of an attempt: `dropped` was never sent, `answered` has had a callback. -/
inductive Phase where
  | claimed
  | sent
  | answered
  | dropped
deriving DecidableEq, Repr

/-- One attempt to subscribe, from the claim of its slot on, with the tariff endpoint whose paths
were requested. -/
structure Attempt where
  nodeId : ℕ
  started : ℕ
  phase : Phase
  tariffEndpoint : Option ℕ := none
deriving DecidableEq, Repr

inductive Task where
  | chip
  | worker
  | http
  | main
deriving DecidableEq, Repr

/-- What a task does in one go. -/
inductive Act where
  /-- The locked section of `mark_node_has_subscription`. -/
  | markHas (n sid : ℕ)
  /-- `device_manager_mark_subscribed` or `device_manager_mark_unsubscribed`. -/
  | deviceMark (n : ℕ) (subscribed : Bool)
  /-- The locked section of `mark_node_has_no_subscription`. -/
  | markNo (n sid : ℕ)
  /-- The same section in `node_subscription_terminated_cb`, which goes on with its result. -/
  | terminated (n sid : ℕ)
  /-- `subscription_attempt_finished`. -/
  | finished (n : ℕ)
  | refreshIcdFlag (n : ℕ)
  /-- The end of `node_subscribe_failed_cb`. -/
  | retryUnlessIcd (n : ℕ)
  /-- The test in `on_icd_checkin_callback`. -/
  | checkinIfWanted (n : ℕ)
  /-- The locked section of `enqueue_subscription`. -/
  | enqueue (n : ℕ)
  /-- The `xQueueSend` of `enqueue_subscription`. -/
  | queueSend (n : ℕ)
  /-- `sweep_for_unsubscribed_nodes`. -/
  | sweep
  | sweepNode (n : ℕ)
  | sweepDone
  /-- The tests of `subscription_task` on a received request. -/
  | dropUnlessWanted (n : ℕ)
  | skipIfSubscribed (n : ℕ)
  /-- `claim_slot` takes `s_slots_mutex` and reads the clock. -/
  | lockSlots (n : ℕ)
  /-- The test of slot `i` in `reclaim_expired_slots_locked`. -/
  | reclaim (n now i : ℕ)
  | freeSlot (i : Fin MAX_ATTEMPTS_IN_FLIGHT)
  /-- `claim_slot` claims a free slot and releases the mutex, or waits and tries again. -/
  | takeSlot (n : ℕ)
  /-- `ScheduleWork`. -/
  | schedule (n k : ℕ)
  /-- The `tariff_get_source` of `send_subscription`. -/
  | getSource (n k : ℕ)
  /-- The end of `send_subscription`, with what it read of the tariff source before. -/
  | sendCommand (n k : ℕ) (tariffEndpoint : Option ℕ)
deriving DecidableEq, Repr

/-- Everything but the tasks. -/
structure Shared where
  /-- Ticks since the start. -/
  tick : ℕ := 0
  nodes : Nodes := ∅
  /-- `s_queue`. -/
  queue : List ℕ := []
  /-- `s_slots`; a free slot is `none`. -/
  slots : Fin MAX_ATTEMPTS_IN_FLIGHT → Option AttemptSlot := fun _ => none
  /-- The worker holds `s_slots_mutex`. -/
  slotsLocked : Bool := false
  /-- The calls of `send_subscription` that the CHIP task has still to run, with their attempts. -/
  work : List (ℕ × ℕ) := []
  lastSweep : ℕ := 0
  /-- The node of each endpoint with an electrical sensor, in the order of the device store. -/
  sensorEndpoints : List ℕ := []
  /-- What `tariff_get_source` answers. -/
  tariffSource : Option (ℕ × ℕ) := none
  /-- The nodes in the ICD client storage. -/
  registeredIcds : List ℕ := []
  /-- The known devices with their `has_subscription`. -/
  devices : ℕ → Option Bool := fun _ => none
  attempts : List Attempt := []

structure State extends Shared where
  acts : Task → List Act := fun _ => []

/-! ## The node table -/

/-- `find_node_locked`: the table, with a new entry if one is made, and the entry. -/
def findNode (nodes : Nodes) (n : ℕ) (create : Bool) : Option (Nodes × NodeState) :=
  match nodes.lookup n with
  | some node => some (nodes, node)
  | none =>
    if create && nodes.entries.length < MAX_NODES then some (nodes.insert n {}, {}) else none

def markNodeHasSubscription (n sid : ℕ) (nodes : Nodes) : Nodes :=
  match findNode nodes n true with
  | some (nodes, node) =>
    nodes.insert n
      { node with hasSubscription := true, isSubscriptionPending := false, subscriptionId := sid }
  | none => nodes

/-- The table and whether a new subscription should be established. -/
def markNodeHasNoSubscription (n sid : ℕ) (nodes : Nodes) : Nodes × Bool :=
  match findNode nodes n false with
  | some (nodes, node) =>
    if node.subscriptionId = sid ∨ sid = 0 then
      (nodes.insert n
        { node with hasSubscription := false, isSubscriptionPending := false, subscriptionId := 0 },
        true)
    else (nodes, false)
  | none => (nodes, false)

def refreshIcdFlag (n : ℕ) (icd : Bool) (nodes : Nodes) : Nodes :=
  match findNode nodes n true with
  | some (nodes, node) => nodes.insert n { node with isIcd := icd }
  | none => nodes

def nodeIsIcd (n : ℕ) (nodes : Nodes) : Bool :=
  match findNode nodes n false with
  | some (_, node) => node.isIcd
  | none => false

/-- `subscribed` in `subscription_task`. -/
def nodeIsSubscribed (n : ℕ) (nodes : Nodes) : Bool :=
  match findNode nodes n false with
  | some (_, node) => node.hasSubscription
  | none => false

/-- The locked section of `enqueue_subscription`: the table and whether the request is queued. -/
def markPending (n : ℕ) (nodes : Nodes) : Nodes × Bool :=
  match findNode nodes n true with
  | some (nodes, node) =>
    (nodes.insert n { node with isSubscriptionPending := true }, !node.isSubscriptionPending)
  | none => (nodes, false)

/-- The locked section of the sweep: the table and whether the node needs a subscription. -/
def sweepCheck (n : ℕ) (nodes : Nodes) : Nodes × Bool :=
  match findNode nodes n true with
  | some (nodes, node) =>
    (nodes, !node.isIcd && !node.hasSubscription && !node.isSubscriptionPending)
  | none => (nodes, false)

/-! ## The wanted nodes -/

/-- The lambda `add` of `wanted_nodes`. -/
def addNode (out : List ℕ) (id : ℕ) : List ℕ :=
  if id ∈ out then out else if out.length < MAX_NODES then out ++ [id] else out

/-- `wanted_nodes`: the nodes with an electrical sensor and the tariff source. -/
def Shared.wantedNodes (s : Shared) : List ℕ :=
  let out := (s.sensorEndpoints.take MAX_NODES).foldl addNode []
  match s.tariffSource with
  | some (tariffNode, _) => addNode out tariffNode
  | none => out

/-! ## The slots -/

/-- `xTaskGetTickCount`. -/
def Shared.tickCount (s : Shared) : ℕ := s.tick % 2 ^ 32

/-- `now - started` in `TickType_t`. -/
def elapsed (now started : ℕ) : ℕ := (now + 2 ^ 32 - started) % 2 ^ 32

/-- The test of `reclaim_expired_slots_locked`. -/
def AttemptSlot.expired (slot : AttemptSlot) (now : ℕ) : Bool :=
  pdMS_TO_TICKS ATTEMPT_TIMEOUT_MS < elapsed now slot.started

/-- The first slot that satisfies a test. -/
def Shared.firstSlot (s : Shared) (p : Option AttemptSlot → Bool) :
    Option (Fin MAX_ATTEMPTS_IN_FLIGHT) :=
  (List.finRange MAX_ATTEMPTS_IN_FLIGHT).find? fun i => p (s.slots i)

/-- The slot that `subscription_attempt_finished` frees. -/
def Shared.slotOf (s : Shared) (n : ℕ) : Option (Fin MAX_ATTEMPTS_IN_FLIGHT) :=
  s.firstSlot fun slot => slot.any (·.nodeId == n)

def Shared.free (s : Shared) (i : Fin MAX_ATTEMPTS_IN_FLIGHT) : Shared :=
  { s with slots := Function.update s.slots i none }

/-- An attempt goes on to another phase. -/
def Shared.setPhase (s : Shared) (k : ℕ) (phase : Phase) : Shared :=
  { s with attempts := s.attempts.modify k fun a => { a with phase := phase } }

/-! ## The actions -/

/-- The endpoint of `wants_tariff`. -/
def Shared.wantsTariff (s : Shared) (n : ℕ) : Option ℕ :=
  match s.tariffSource with
  | some (tariffNode, tariffEndpoint) => if tariffNode = n then some tariffEndpoint else none
  | none => none

/-- Do an action. `ok` is the outcome of what may fail: scheduling work, and the allocations and
`send_command` of `send_subscription`. The result is `none` while the action is blocked, else the
new state and what the task has to do next. -/
def exec (s : Shared) (ok : Bool) : Act → Option (Shared × List Act)
  | .markHas n sid =>
    some ({ s with nodes := markNodeHasSubscription n sid s.nodes }, [.deviceMark n true])
  | .deviceMark n subscribed =>
    some ({ s with
      devices := Function.update s.devices n ((s.devices n).map fun _ => subscribed) }, [])
  | .markNo n sid =>
    let r := markNodeHasNoSubscription n sid s.nodes
    some ({ s with nodes := r.1 }, if r.2 then [.deviceMark n false] else [])
  | .terminated n sid =>
    let r := markNodeHasNoSubscription n sid s.nodes
    some ({ s with nodes := r.1 },
      if r.2 then [.deviceMark n false, .finished n, .enqueue n] else [.finished n])
  | .finished n =>
    if s.slotsLocked then none
    else
      match s.slotOf n with
      | some i => some (s.free i, [])
      | none => some (s, [])
  | .refreshIcdFlag n =>
    some ({ s with nodes := refreshIcdFlag n (decide (n ∈ s.registeredIcds)) s.nodes }, [])
  | .retryUnlessIcd n => some (s, if nodeIsIcd n s.nodes then [] else [.enqueue n])
  | .checkinIfWanted n =>
    some (s, if n ∈ s.wantedNodes then [.refreshIcdFlag n, .markNo n 0, .enqueue n] else [])
  | .enqueue n =>
    -- the flag is set first, and the request queued after the mutex is released
    let r := markPending n s.nodes
    some ({ s with nodes := r.1 }, if r.2 then [.queueSend n] else [])
  | .queueSend n =>
    if s.queue.length < SUBSCRIPTION_QUEUE_DEPTH then some ({ s with queue := s.queue ++ [n] }, [])
    -- a request that the full queue refuses gives the flag back
    else some (s, [.markNo n 0])
  | .sweep => some (s, s.wantedNodes.map .sweepNode)
  | .sweepNode n =>
    let r := sweepCheck n s.nodes
    some ({ s with nodes := r.1 }, if r.2 then [.enqueue n] else [])
  | .sweepDone => some ({ s with lastSweep := s.tickCount }, [])
  | .dropUnlessWanted n =>
    some (s, if n ∈ s.wantedNodes then [.skipIfSubscribed n] else [.markNo n 0])
  | .skipIfSubscribed n => some (s, if nodeIsSubscribed n s.nodes then [] else [.lockSlots n])
  | .lockSlots n =>
    if s.slotsLocked then none
    else some ({ s with slotsLocked := true }, [.reclaim n s.tickCount 0])
  | .reclaim n now i =>
    if h : i < MAX_ATTEMPTS_IN_FLIGHT then
      match s.slots ⟨i, h⟩ with
      | some slot =>
        if slot.expired now then
          -- the node is marked while the slots stay locked, and then the slot is freed
          some (s, [.markNo slot.nodeId 0, .freeSlot ⟨i, h⟩, .reclaim n now (i + 1)])
        else some (s, [.reclaim n now (i + 1)])
      | none => some (s, [.reclaim n now (i + 1)])
    else some (s, [.takeSlot n])
  | .freeSlot i => some (s.free i, [])
  | .takeSlot n =>
    match s.firstSlot Option.isNone with
    | some i =>
      some ({ s with
        slots := Function.update s.slots i
          (some { nodeId := n, started := s.tickCount, attempt := s.attempts.length })
        slotsLocked := false
        attempts := s.attempts ++ [{ nodeId := n, started := s.tick, phase := .claimed }] },
        [.schedule n s.attempts.length])
    -- all slots are in use: the worker sleeps and tries again
    | none => some ({ s with slotsLocked := false }, [.lockSlots n])
  | .schedule n k =>
    if ok then some ({ s with work := s.work ++ [(n, k)] }, [])
    else some (s.setPhase k .dropped, [.markNo n 0, .finished n])
  -- the paths are laid out from here on, and the source may change before they are sent
  | .getSource n k => some (s, [.sendCommand n k (s.wantsTariff n)])
  | .sendCommand n k tariffEndpoint =>
    if ok then
      some ({ s with
        attempts := s.attempts.modify k fun a =>
          { a with phase := .sent, tariffEndpoint := tariffEndpoint } }, [])
    else some (s.setPhase k .dropped, [.markNo n 0, .finished n])

/-! ## The system -/

/-- What can happen next. A callback belongs to an attempt that was sent; it may be late, or one of
several. -/
inductive Label where
  /-- Time passes. -/
  | advance (ticks : ℕ)
  /-- The device store, the tariff source or the ICD storage changes. -/
  | world (sensorEndpoints : List ℕ) (tariffSource : Option (ℕ × ℕ)) (registeredIcds : List ℕ)
  | deviceAdded (n : ℕ)
  | deviceRemoved (n : ℕ)
  | established (k sid : ℕ)
  | terminated (k sid : ℕ)
  | failed (k : ℕ)
  | checkin (n : ℕ)
  /-- `on_interrogation_done`. -/
  | interrogated (n : ℕ)
  /-- The CHIP task runs the next `send_subscription`. -/
  | runWork
  /-- `on_topology_changed` asks for the tariff source. -/
  | topologyChanged (n : ℕ)
  /-- `subscription_task` starts a sweep. -/
  | sweepDue
  /-- `subscription_task` receives a request. -/
  | receive
  /-- A task does its next action. -/
  | act (t : Task) (ok : Bool)
deriving DecidableEq, Repr

/-- An idle task starts on something. -/
def State.start (s : State) (t : Task) (acts : List Act) : Option State :=
  if s.acts t = [] then some { s with acts := Function.update s.acts t acts } else none

/-- The node of an attempt that was sent; a callback of it answers the attempt. -/
def State.answer (s : State) (k : ℕ) : Option (ℕ × State) :=
  match s.attempts[k]? with
  | some a =>
    if a.phase = .sent ∨ a.phase = .answered then
      some (a.nodeId, { s with toShared := s.toShared.setPhase k .answered })
    else none
  | none => none

/-- The next action of a task. -/
def State.perform (s : State) (t : Task) (ok : Bool) : Option State :=
  match s.acts t with
  | [] => none
  | a :: rest =>
    match exec s.toShared ok a with
    | some (shared, acts) =>
      some { toShared := shared, acts := Function.update s.acts t (acts ++ rest) }
    | none => none

def step (s : State) : Label → Option State
  | .advance ticks => some { s with tick := s.tick + ticks }
  | .world sensorEndpoints tariffSource registeredIcds =>
    some { s with
      sensorEndpoints := sensorEndpoints
      tariffSource := tariffSource
      registeredIcds := registeredIcds }
  | .deviceAdded n =>
    some { s with devices := Function.update s.devices n (some ((s.devices n).getD false)) }
  | .deviceRemoved n => some { s with devices := Function.update s.devices n none }
  | .established k sid =>
    match s.answer k with
    | some (n, s) => s.start .chip [.markHas n sid, .finished n]
    | none => none
  | .terminated k sid =>
    match s.answer k with
    | some (n, s) => s.start .chip [.terminated n sid]
    | none => none
  | .failed k =>
    match s.answer k with
    | some (n, s) =>
      s.start .chip [.markNo n 0, .finished n, .refreshIcdFlag n, .retryUnlessIcd n]
    | none => none
  | .checkin n => s.start .chip [.checkinIfWanted n]
  | .interrogated n => s.start .chip [.enqueue n]
  | .runWork =>
    match s.work with
    | (n, k) :: work => { s with work := work }.start .chip [.refreshIcdFlag n, .getSource n k]
    | [] => none
  | .topologyChanged n => s.start .http [.enqueue n]
  | .sweepDue =>
    if pdMS_TO_TICKS SWEEP_INTERVAL_MS ≤ elapsed s.tickCount s.lastSweep then
      s.start .worker [.sweep, .sweepDone]
    else none
  | .receive =>
    match s.queue with
    | n :: queue => { s with queue := queue }.start .worker [.dropUnlessWanted n]
    | [] => none
  | .act t ok => s.perform t ok

/-- `subscription_manager_start` has made the queue and the worker and goes on with a sweep. -/
def State.boot (sensorEndpoints : List ℕ) (tariffSource : Option (ℕ × ℕ))
    (registeredIcds : List ℕ) (devices : ℕ → Option Bool) (tick : ℕ) : State :=
  { tick := tick
    lastSweep := tick % 2 ^ 32
    sensorEndpoints := sensorEndpoints
    tariffSource := tariffSource
    registeredIcds := registeredIcds
    devices := devices
    acts := fun t => if t = .main then [.sweep] else [] }

end HomeEnergyManager.SubscriptionManager
