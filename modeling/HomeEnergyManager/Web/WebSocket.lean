import Mathlib.Algebra.Ring.Nat
import Mathlib.Data.List.Basic
import HomeEnergyManager.Lib.StepSystem

/-! # The websocket of a page

`useWebSocket` opens a socket when the component is mounted, and another one some time after the
socket has closed. The delay doubles each time up to a maximum and starts again with a socket that
opens. The cleanup clears the timer and closes the socket, whose close event then comes later. The
events are those of the browser: a socket opens, fails or closes, a timer fires.

Reference: `firmware/html_app/src/useWebSocket.ts`.
-/

namespace HomeEnergyManager.WebSocket

open StepSystem

def BASE_RETRY_MS : ℕ := 1000
def MAX_RETRY_MS : ℕ := 30000

/-- `WsReadyState` -/
inductive ReadyState where
  | connecting
  | open
  | closed
deriving DecidableEq, Repr

/-- `ws.readyState` -/
inductive Socket where
  | connecting
  | open
  | closing
  | closed
deriving DecidableEq, Repr

/-- The effect has run, and its cleanup. A witness notes whether a timer was pending then. -/
inductive Mount where
  | no
  | yes
  | cleanedUp (waiting : Bool)
deriving DecidableEq, Repr

/-- A timeout; it is pending until it fires or is cleared. -/
structure Timer where
  delay : ℕ
  pending : Bool
deriving DecidableEq, Repr

structure State where
  readyState : ReadyState := .connecting
  retryMs : ℕ := BASE_RETRY_MS
  /-- Every socket that was opened; `wsRef.current` is the last one. -/
  sockets : List Socket := []
  /-- Every timeout that was set. -/
  timers : List Timer := []
  /-- `retryTimer.current` -/
  retryTimer : Option ℕ := none
  mount : Mount := .no
  /-- The attempts since a socket was open, or since the start. -/
  attempts : ℕ := 0
deriving DecidableEq, Repr

inductive Event where
  | mount
  | cleanup
  | opened (i : ℕ)
  | failed (i : ℕ)
  | closed (i : ℕ)
  | timer (i : ℕ)
deriving DecidableEq, Repr

/-- `connect` -/
def State.connect (s : State) : State := { s with sockets := s.sockets ++ [.connecting] }

/-- `ws.close()` -/
def Socket.close : Socket → Socket
  | .closed => .closed
  | _ => .closing

/-- `ws.onopen` -/
def State.onopen (s : State) : State :=
  { s with readyState := .open, retryMs := BASE_RETRY_MS, attempts := 0 }

/-- `ws.onclose` -/
def State.onclose (s : State) : State :=
  { s with
    readyState := .closed
    timers := s.timers ++ [{ delay := s.retryMs, pending := true }]
    retryTimer := some s.timers.length }

/-- The callback of the timeout. -/
def State.onRetry (s : State) : State :=
  State.connect { s with
    retryMs := min (s.retryMs * 2) MAX_RETRY_MS
    readyState := .connecting
    attempts := s.attempts + 1 }

/-- `clearTimeout(retryTimer.current)` -/
def State.clearRetry (s : State) : State :=
  match s.retryTimer with
  | none => s
  | some i => { s with timers := s.timers.modify i fun t => { t with pending := false } }

def step (s : State) : Event → Option State
  | .mount => if s.mount = .no then some { s.connect with mount := .yes } else none
  | .cleanup =>
    if s.mount = .yes then
      some { s.clearRetry with
        sockets := s.sockets.modify (s.sockets.length - 1) Socket.close
        mount := .cleanedUp (s.timers.any (·.pending)) }
    else none
  | .opened i =>
    if s.sockets[i]? = some .connecting then
      some (State.onopen { s with sockets := s.sockets.set i .open })
    else none
  | .failed i =>
    match s.sockets[i]? with
    -- `ws.onerror`
    | some socket =>
      if socket = .closed then none else some { s with sockets := s.sockets.set i socket.close }
    | none => none
  | .closed i =>
    match s.sockets[i]? with
    | some socket =>
      if socket = .closed then none
      else some (State.onclose { s with sockets := s.sockets.set i .closed })
    | none => none
  | .timer i =>
    match s.timers[i]? with
    | some timer =>
      if timer.pending then
        some (State.onRetry { s with timers := s.timers.set i { timer with pending := false } })
      else none
    | none => none

/-! ## What is alive -/

/-- The sockets that have not closed. -/
def State.live (s : State) : ℕ := s.sockets.countP (· ≠ .closed)

/-- The timeouts that have not fired. -/
def State.pending (s : State) : ℕ := s.timers.countP (·.pending)

/-- The hook has begun, and its cleanup did not come while it waited for the next attempt. -/
def Mount.alive : Mount → Bool
  | .no => false
  | .yes => true
  | .cleanedUp waiting => !waiting

/-- The delay after so many attempts. -/
def delayAfter (attempts : ℕ) : ℕ := min (BASE_RETRY_MS * 2 ^ attempts) MAX_RETRY_MS

/-- One thing is alive, or none. -/
structure State.Sound (s : State) : Prop where
  one : s.live + s.pending = if s.mount.alive then 1 else 0
  started : s.mount = .no → s.sockets = [] ∧ s.timers = [] ∧ s.readyState ≠ .closed
  /-- The timeout that is pending is that of `retryTimer`, with the present delay. -/
  timer : ∀ i t, s.timers[i]? = some t → t.pending = true →
    s.retryTimer = some i ∧ t.delay = s.retryMs
  retryMs : s.retryMs = delayAfter s.attempts
  waiting : s.mount = .yes → (s.readyState = .closed ↔ s.pending = 1)
  opened : s.mount = .yes → Socket.open ∈ s.sockets → s.readyState = .open

section Step

variable {s s' : State} {i : ℕ}

theorem countP_set_add {α : Type*} {p : α → Bool} {l : List α} {a b : α} (h : l[i]? = some b) :
    (l.set i a).countP p + (if p b then 1 else 0) = l.countP p + if p a then 1 else 0 := by
  obtain ⟨hlt, rfl⟩ := List.getElem?_eq_some_iff.mp h
  have hpos : p l[i] = true → 0 < l.countP p := fun hp =>
    List.countP_pos_iff.mpr ⟨_, List.getElem_mem hlt, hp⟩
  rw [List.countP_set hlt]
  by_cases hp : p l[i] = true
  · have hpos' := hpos hp
    simp only [hp, if_true]
    omega
  · simp only [hp, Bool.false_eq_true, if_false]
    omega

theorem live_pos {socket : Socket} (h : s.sockets[i]? = some socket) (hne : socket ≠ .closed) :
    0 < s.live :=
  List.countP_pos_iff.mpr ⟨socket, List.mem_of_getElem? h, by simpa using hne⟩

theorem pending_pos {t : Timer} (h : s.timers[i]? = some t) (ht : t.pending = true) :
    0 < s.pending :=
  List.countP_pos_iff.mpr ⟨t, List.mem_of_getElem? h, ht⟩

theorem not_pending (h : s.pending = 0) {t : Timer} (ht : s.timers[i]? = some t) :
    t.pending = false :=
  Bool.eq_false_iff.mpr (List.countP_eq_zero.mp h t (List.mem_of_getElem? ht))

theorem State.Sound.alive (h : s.Sound) (hpos : 0 < s.live + s.pending) :
    s.live + s.pending = 1 ∧ s.mount.alive = true ∧ s.mount ≠ .no := by
  have hone := h.one
  split_ifs at hone with halive
  · refine ⟨hone, halive, fun hno => ?_⟩
    rw [hno] at halive
    cases halive
  · omega

theorem delayAfter_succ (n : ℕ) : delayAfter (n + 1) = min (delayAfter n * 2) MAX_RETRY_MS := by
  unfold delayAfter BASE_RETRY_MS MAX_RETRY_MS
  rw [Nat.pow_succ]
  omega

/-- The delays are from one second to half a minute. -/
theorem delayAfter_bounds (n : ℕ) : BASE_RETRY_MS ≤ delayAfter n ∧ delayAfter n ≤ MAX_RETRY_MS := by
  have hpos := Nat.two_pow_pos n
  unfold delayAfter BASE_RETRY_MS MAX_RETRY_MS
  omega

theorem sound_opened (h : s.Sound) (hi : s.sockets[i]? = some .connecting) :
    (State.onopen { s with sockets := s.sockets.set i .open }).Sound := by
  have hpos := live_pos hi (by decide)
  obtain ⟨hone, halive, hmount⟩ := h.alive (by omega)
  have hcount := countP_set_add (p := (· ≠ .closed)) (a := Socket.open) hi
  have hlive : State.live (State.onopen { s with sockets := s.sockets.set i .open }) = s.live := by
    simpa [State.live, State.onopen] using hcount
  have hnone : s.pending = 0 := by omega
  refine ⟨?_, fun hno => absurd hno hmount, fun j t ht hp => ?_, rfl, fun _ => ?_, fun _ _ => rfl⟩
  · rw [hlive]
    exact h.one
  · rw [not_pending hnone ht] at hp
    cases hp
  · refine iff_of_false nofun fun hpending => ?_
    change s.pending = 1 at hpending
    omega

theorem sound_failed (h : s.Sound) {socket : Socket} (hi : s.sockets[i]? = some socket)
    (hne : socket ≠ .closed) : State.Sound { s with sockets := s.sockets.set i socket.close } := by
  have hpos := live_pos hi hne
  obtain ⟨hone, halive, hmount⟩ := h.alive (by omega)
  have hclosing : socket.close = .closing := by cases socket <;> first | rfl | exact absurd rfl hne
  have hcount := countP_set_add (p := (· ≠ .closed)) (a := socket.close) hi
  have hlive : State.live { s with sockets := s.sockets.set i socket.close } = s.live := by
    simpa [State.live, hclosing, hne] using hcount
  refine ⟨?_, fun hno => absurd hno hmount, h.timer, h.retryMs, h.waiting, fun hyes hopen => ?_⟩
  · rw [hlive]
    exact h.one
  · rcases List.mem_or_eq_of_mem_set hopen with hold | heq
    · exact h.opened hyes hold
    · rw [hclosing] at heq
      cases heq

theorem sound_closed (h : s.Sound) {socket : Socket} (hi : s.sockets[i]? = some socket)
    (hne : socket ≠ .closed) :
    (State.onclose { s with sockets := s.sockets.set i .closed }).Sound := by
  have hpos := live_pos hi hne
  obtain ⟨hone, halive, hmount⟩ := h.alive (by omega)
  have hcount := countP_set_add (p := (· ≠ .closed)) (a := Socket.closed) hi
  have hzero : (s.sockets.set i .closed).countP (· ≠ .closed) = 0 := by
    have hlive : s.sockets.countP (· ≠ .closed) = s.live := rfl
    simp only [ne_eq, hne, not_false_eq_true, decide_true, if_true, not_true_eq_false, decide_false,
      Bool.false_eq_true, if_false] at hcount hlive ⊢
    omega
  have hnone : s.pending = 0 := by omega
  have hpending : (s.timers ++ [Timer.mk s.retryMs true]).countP (·.pending) = 1 := by
    rw [List.countP_append, List.countP_singleton]
    change s.pending + 1 = 1
    omega
  refine ⟨?_, fun hno => absurd hno hmount, fun j t ht hp => ?_, h.retryMs, fun _ => ?_,
    fun _ hopen => ?_⟩
  · change _ = if s.mount.alive = true then 1 else 0
    rw [if_pos halive]
    exact congrArg₂ (· + ·) hzero hpending
  · change (s.timers ++ [_])[j]? = some t at ht
    rcases Nat.lt_or_ge j s.timers.length with hlt | hge
    · rw [List.getElem?_append_left hlt] at ht
      rw [not_pending hnone ht] at hp
      cases hp
    · rw [List.getElem?_append_right hge] at ht
      obtain ⟨hindex, rfl⟩ : j - s.timers.length = 0 ∧ Timer.mk s.retryMs true = t := by
        cases hj : j - s.timers.length with
        | zero => simpa [hj] using ht
        | succ n => simp [hj] at ht
      obtain rfl : j = s.timers.length := by omega
      exact ⟨rfl, rfl⟩
  · exact iff_of_true rfl hpending
  · have hclosed := List.countP_eq_zero.mp hzero _ hopen
    simp at hclosed

theorem sound_timer (h : s.Sound) {timer : Timer} (hi : s.timers[i]? = some timer)
    (hp : timer.pending = true) :
    (State.onRetry { s with timers := s.timers.set i { timer with pending := false } }).Sound := by
  have hpos := pending_pos hi hp
  obtain ⟨hone, halive, hmount⟩ := h.alive (by omega)
  have hcount := countP_set_add (p := (·.pending)) (a := { timer with pending := false }) hi
  have hzero : (s.timers.set i { timer with pending := false }).countP (·.pending) = 0 := by
    have hpending : s.timers.countP (·.pending) = s.pending := rfl
    simp only [hp, if_true, Bool.false_eq_true, if_false] at hcount
    omega
  have hnone : s.live = 0 := by omega
  have hlive : (s.sockets ++ [Socket.connecting]).countP (· ≠ .closed) = 1 := by
    rw [List.countP_append, List.countP_singleton]
    change s.live + 1 = 1
    omega
  refine ⟨?_, fun hno => absurd hno hmount, fun j t ht hpending => ?_, ?_, fun _ => ?_,
    fun _ hopen => ?_⟩
  · change _ = if s.mount.alive = true then 1 else 0
    rw [if_pos halive]
    exact congrArg₂ (· + ·) hlive hzero
  · exact absurd hpending (List.countP_eq_zero.mp hzero t (List.mem_of_getElem? ht))
  · show min (s.retryMs * 2) MAX_RETRY_MS = delayAfter (s.attempts + 1)
    rw [h.retryMs, delayAfter_succ]
  · refine iff_of_false nofun fun hpending => ?_
    change (s.timers.set i _).countP (·.pending) = 1 at hpending
    omega
  · rcases List.mem_append.mp hopen with hold | hnew
    · have hclosed := List.countP_eq_zero.mp hnone _ hold
      simp at hclosed
    · simp at hnew

theorem sound_mount (h : s.Sound) (hno : s.mount = .no) :
    State.Sound { s.connect with mount := .yes } := by
  obtain ⟨hsockets, htimers, hready⟩ := h.started hno
  refine ⟨?_, nofun, fun i t ht => ?_, h.retryMs, fun _ => ?_, fun _ hopen => ?_⟩
  · simp [State.live, State.pending, State.connect, hsockets, htimers, Mount.alive]
  · simp [State.connect, htimers] at ht
  · refine iff_of_false hready ?_
    simp [State.pending, State.connect, htimers]
  · simp [State.connect, hsockets] at hopen

theorem countP_modify_of_eq {α : Type*} {p : α → Bool} {f : α → α} (hf : ∀ a, p (f a) = p a)
    (l : List α) (k : ℕ) : (l.modify k f).countP p = l.countP p := by
  induction l generalizing k with
  | nil => simp
  | cons a l ih => cases k <;> simp [List.countP_cons, hf, ih]

/-- `clearTimeout` leaves no timeout that is pending. -/
theorem pending_clearRetry (h : s.Sound) : s.clearRetry.pending = 0 := by
  refine List.countP_eq_zero.mpr fun t ht hp => ?_
  obtain ⟨j, hj⟩ := List.mem_iff_getElem?.mp ht
  unfold State.clearRetry at hj
  cases hretry : s.retryTimer with
  | none =>
    rw [hretry] at hj
    have href := (h.timer j t hj hp).1
    rw [hretry] at href
    cases href
  | some i =>
    simp only [hretry] at hj
    by_cases hi : i = j
    · subst hi
      rw [List.getElem?_modify_eq] at hj
      obtain ⟨t', -, rfl⟩ := Option.map_eq_some_iff.mp hj
      cases hp
    · rw [List.getElem?_modify_ne _ _ hi] at hj
      have href := (h.timer j t hj hp).1
      rw [hretry] at href
      exact hi (Option.some.inj href)

theorem sound_cleanup (h : s.Sound) (hyes : s.mount = .yes) :
    State.Sound { s.clearRetry with
      sockets := s.sockets.modify (s.sockets.length - 1) Socket.close
      mount := .cleanedUp (s.timers.any (·.pending)) } := by
  have hnone := pending_clearRetry h
  have hlive : (s.sockets.modify (s.sockets.length - 1) Socket.close).countP (· ≠ .closed)
      = s.live :=
    countP_modify_of_eq (fun socket => by cases socket <;> rfl) _ _
  have hone := h.one
  rw [hyes, Mount.alive, if_pos rfl] at hone
  have hretry : s.clearRetry.retryMs = s.retryMs ∧ s.clearRetry.attempts = s.attempts := by
    unfold State.clearRetry
    cases s.retryTimer <;> exact ⟨rfl, rfl⟩
  refine ⟨?_, nofun, fun j t ht hp => ?_, ?_, nofun, nofun⟩
  · change _ + s.clearRetry.pending = if (Mount.cleanedUp _).alive = true then 1 else 0
    rw [hnone]
    change List.countP _ _ + 0 = _
    rw [hlive, Mount.alive]
    by_cases hwaiting : s.timers.any (·.pending) = true
    · have hpending : 0 < s.pending := by
        obtain ⟨t, ht, hp⟩ := List.any_eq_true.mp hwaiting
        exact List.countP_pos_iff.mpr ⟨t, ht, hp⟩
      simp only [hwaiting, Bool.not_true, Bool.false_eq_true, if_false]
      omega
    · have hpending : s.pending = 0 := by
        refine List.countP_eq_zero.mpr fun t ht hp => hwaiting ?_
        exact List.any_eq_true.mpr ⟨t, ht, hp⟩
      simp only [Bool.not_eq_true] at hwaiting
      simp only [hwaiting, Bool.not_false, if_true]
      omega
  · rw [not_pending hnone ht] at hp
    cases hp
  · exact hretry.1.trans (h.retryMs.trans (congrArg delayAfter hretry.2.symm))

theorem sound_step {e : Event} (h : s.Sound) (hstep : step s e = some s') : s'.Sound := by
  cases e with
  | mount =>
    simp only [step] at hstep
    split_ifs at hstep with hno
    exact Option.some.inj hstep ▸ sound_mount h hno
  | cleanup =>
    simp only [step] at hstep
    split_ifs at hstep with hyes
    exact Option.some.inj hstep ▸ sound_cleanup h hyes
  | opened i =>
    simp only [step] at hstep
    split_ifs at hstep with hi
    exact Option.some.inj hstep ▸ sound_opened h hi
  | failed i =>
    simp only [step] at hstep
    cases hi : s.sockets[i]? with
    | none => simp [hi] at hstep
    | some socket =>
      simp only [hi] at hstep
      split_ifs at hstep with hclosed
      exact Option.some.inj hstep ▸ sound_failed h hi hclosed
  | closed i =>
    simp only [step] at hstep
    cases hi : s.sockets[i]? with
    | none => simp [hi] at hstep
    | some socket =>
      simp only [hi] at hstep
      split_ifs at hstep with hclosed
      exact Option.some.inj hstep ▸ sound_closed h hi hclosed
  | timer i =>
    simp only [step] at hstep
    cases hi : s.timers[i]? with
    | none => simp [hi] at hstep
    | some timer =>
      simp only [hi] at hstep
      split_ifs at hstep with hp
      exact Option.some.inj hstep ▸ sound_timer h hi hp

theorem sound_start : State.Sound {} :=
  ⟨rfl, fun _ => ⟨rfl, rfl, nofun⟩, fun i t ht => by simp at ht, rfl, nofun, nofun⟩

end Step

/-- In every order of the browser's events: a mounted hook has one socket or waits for one attempt,
never both and never neither, and shows `closed` exactly while it waits; the attempt comes after
`delayAfter` the attempts since a socket was open; and a hook that was cleaned up while it had a
socket keeps connecting for good, for the close event comes after the cleanup. -/
theorem useWebSocket_oneConnection (es : List Event) {s : State} (hrun : run step {} es = some s) :
    (s.mount = .yes → s.live + s.pending = 1 ∧ (s.readyState = .closed ↔ s.pending = 1) ∧
      (Socket.open ∈ s.sockets → s.readyState = .open)) ∧
    (∀ t ∈ s.timers, t.pending = true →
      t.delay = delayAfter s.attempts ∧ BASE_RETRY_MS ≤ t.delay ∧ t.delay ≤ MAX_RETRY_MS) ∧
    (∀ waiting, s.mount = .cleanedUp waiting →
      s.live + s.pending = if waiting then 0 else 1) := by
  have h : s.Sound := inv_of_every_run (fun _ _ _ h hstep => sound_step h hstep) sound_start hrun
  refine ⟨fun hyes => ⟨?_, h.waiting hyes, h.opened hyes⟩, fun t ht hp => ?_,
    fun waiting hdone => ?_⟩
  · have hone := h.one
    rwa [hyes, Mount.alive, if_pos rfl] at hone
  · obtain ⟨i, hi⟩ := List.mem_iff_getElem?.mp ht
    have hdelay := (h.timer i t hi hp).2.trans h.retryMs
    exact ⟨hdelay, hdelay ▸ delayAfter_bounds s.attempts⟩
  · have hone := h.one
    rw [hdone, Mount.alive] at hone
    cases waiting <;> exact hone

/-- Two attempts that fail, and a cleanup while the third is under way: its timer is set later. -/
theorem useWebSocket_oneConnection_leak : ∃ s, run step {}
      [.mount, .failed 0, .closed 0, .timer 0, .closed 1, .timer 1, .cleanup, .closed 2] = some s ∧
      s.pending = 1 ∧ s.live + s.pending = 1 :=
  ⟨_, rfl, rfl, (useWebSocket_oneConnection
    [.mount, .failed 0, .closed 0, .timer 0, .closed 1, .timer 1, .cleanup, .closed 2] rfl).2.2
    false rfl⟩

end HomeEnergyManager.WebSocket
