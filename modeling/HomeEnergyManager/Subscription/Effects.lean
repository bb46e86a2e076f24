import Mathlib.Data.List.Count
import Mathlib.Data.Fintype.Basic
import HomeEnergyManager.Lib.Tally
import HomeEnergyManager.Subscription.Branches

/-! # What the actions do

For each part of the state, what one action of a task can do to it: to the flags of the node table,
to the requests that are waiting, and to the slots. The invariants of the manager are built on these
alone.
-/

namespace HomeEnergyManager.SubscriptionManager

instance : Fintype Task where
  elems := {.chip, .worker, .http, .main}
  complete t := by cases t <;> decide

/-! ## The flags of the node table -/

/-- A flag of a node; one without an entry has none set. -/
def flag (g : NodeState → Bool) (nodes : Nodes) (n : ℕ) : Bool := (nodes.lookup n).any g

/-- `is_subscription_pending`. -/
def Shared.pending (s : Shared) (n : ℕ) : Bool := flag (·.isSubscriptionPending) s.nodes n

/-- `has_subscription`. -/
def Shared.subscribed (s : Shared) (n : ℕ) : Bool := flag (·.hasSubscription) s.nodes n

theorem flag_insert (g : NodeState → Bool) (nodes : Nodes) (n m : ℕ) (node : NodeState) :
    flag g (nodes.insert n node) m = if m = n then g node else flag g nodes m := by
  unfold flag
  by_cases h : m = n
  · rw [if_pos h, h, AList.lookup_insert, Option.any_some]
  · rw [if_neg h, AList.lookup_insert_ne h]

/-- Looking a node up, or making its entry, changes no flag. -/
theorem flag_findNode {g : NodeState → Bool} (hg : g {} = false) {nodes nodes' : Nodes} {n : ℕ}
    {create : Bool} {node : NodeState} (h : findNode nodes n create = some (nodes', node)) :
    (∀ m, flag g nodes' m = flag g nodes m) ∧ g node = flag g nodes n := by
  unfold findNode at h
  cases hl : nodes.lookup n with
  | some node' =>
    rw [hl] at h
    obtain ⟨rfl, rfl⟩ := Prod.mk.inj (Option.some.inj h)
    exact ⟨fun _ => rfl, by rw [flag, hl, Option.any_some]⟩
  | none =>
    have hn : flag g nodes n = false := by rw [flag, hl, Option.any_none]
    rw [hl] at h
    dsimp only at h
    split at h
    · obtain ⟨rfl, rfl⟩ := Prod.mk.inj (Option.some.inj h)
      refine ⟨fun m => ?_, by rw [hg, hn]⟩
      rw [flag_insert]
      split
      · rename_i hm
        rw [hg, hm, hn]
      · rfl
    · exact nomatch h

/-- A node without an entry has no flag set. -/
theorem flag_of_findNode_eq_none {g : NodeState → Bool} {nodes : Nodes} {n : ℕ} {create : Bool}
    (h : findNode nodes n create = none) : flag g nodes n = false := by
  unfold findNode at h
  cases hl : nodes.lookup n with
  | some node => rw [hl] at h; exact nomatch h
  | none => rw [flag, hl, Option.any_none]

/-- `mark_node_has_subscription` clears the pending flag of its node. -/
theorem pending_markNodeHasSubscription (n sid : ℕ) (nodes : Nodes) (m : ℕ) :
    flag (·.isSubscriptionPending) (markNodeHasSubscription n sid nodes) m
      = if m = n then false else flag (·.isSubscriptionPending) nodes m := by
  unfold markNodeHasSubscription
  split
  · rename_i nodes' node h
    rw [flag_insert, (flag_findNode rfl h).1]
  · rename_i h
    split
    · rename_i hm
      rw [hm, flag_of_findNode_eq_none h]
    · rfl

theorem flag_markNodeHasSubscription_of_ne {g : NodeState → Bool} (hg : g {} = false) {n m : ℕ}
    (hm : m ≠ n) (sid : ℕ) (nodes : Nodes) :
    flag g (markNodeHasSubscription n sid nodes) m = flag g nodes m := by
  unfold markNodeHasSubscription
  split
  · rename_i nodes' node h
    rw [flag_insert, if_neg hm, (flag_findNode hg h).1]
  · rfl

/-- `mark_node_has_no_subscription` clears both flags of its node, or leaves the table alone. -/
theorem flag_markNodeHasNoSubscription {g : NodeState → Bool} (hg : g {} = false)
    (hclear : ∀ node : NodeState, g { node with
      hasSubscription := false, isSubscriptionPending := false, subscriptionId := 0 } = false)
    (n sid : ℕ) (nodes : Nodes) (m : ℕ) :
    flag g (markNodeHasNoSubscription n sid nodes).1 m
      = if m = n ∧ (markNodeHasNoSubscription n sid nodes).2 = true then false
        else flag g nodes m := by
  unfold markNodeHasNoSubscription
  split
  · rename_i nodes' node h
    split
    · rw [flag_insert, (flag_findNode hg h).1, hclear]
      simp
    · rw [(flag_findNode hg h).1]
      simp
  · simp

/-- With id 0 the pending flag is clear afterwards, whatever the table held. -/
theorem pending_markNodeHasNoSubscription_zero (n : ℕ) (nodes : Nodes) :
    flag (·.isSubscriptionPending) (markNodeHasNoSubscription n 0 nodes).1 n = false := by
  unfold markNodeHasNoSubscription
  split
  · rename_i nodes' node h
    rw [if_pos (Or.inr rfl), flag_insert, if_pos rfl]
  · rename_i h
    exact flag_of_findNode_eq_none h

/-- `enqueue_subscription` goes on exactly when it has set the pending flag itself. -/
theorem pending_markPending (n : ℕ) (nodes : Nodes) (m : ℕ) :
    flag (·.isSubscriptionPending) (markPending n nodes).1 m
      = (flag (·.isSubscriptionPending) nodes m ||
        (decide (m = n) && (markPending n nodes).2)) := by
  unfold markPending
  split
  · rename_i nodes' node h
    obtain ⟨hall, hnode⟩ := flag_findNode (g := (·.isSubscriptionPending)) rfl h
    dsimp only at hnode ⊢
    rw [flag_insert, hall]
    by_cases hm : m = n
    · rw [if_pos hm, hm, hnode]
      simp
    · rw [if_neg hm]
      simp [hm]
  · simp

theorem markPending_snd {n : ℕ} {nodes : Nodes} (h : (markPending n nodes).2 = true) :
    flag (·.isSubscriptionPending) nodes n = false := by
  unfold markPending at h
  split at h
  · rename_i nodes' node hf
    rw [← (flag_findNode rfl hf).2]
    simpa using h
  · exact absurd h Bool.false_ne_true

/-- `enqueue_subscription` sets no other flag. -/
theorem flag_markPending {g : NodeState → Bool} (hg : g {} = false)
    (hpending : ∀ (node : NodeState) b, g { node with isSubscriptionPending := b } = g node) (n : ℕ)
    (nodes : Nodes) (m : ℕ) : flag g (markPending n nodes).1 m = flag g nodes m := by
  unfold markPending
  split
  · rename_i nodes' node h
    obtain ⟨hall, hnode⟩ := flag_findNode hg h
    rw [flag_insert, hall, hpending]
    split
    · rename_i hm
      rw [hm, ← hnode]
    · rfl
  · rfl

/-- The ICD flag is no flag that the invariants read. -/
theorem flag_refreshIcdFlag {g : NodeState → Bool} (hg : g {} = false)
    (hicd : ∀ (node : NodeState) b, g { node with isIcd := b } = g node) (n : ℕ) (icd : Bool)
    (nodes : Nodes) (m : ℕ) : flag g (refreshIcdFlag n icd nodes) m = flag g nodes m := by
  unfold refreshIcdFlag
  split
  · rename_i nodes' node h
    obtain ⟨hall, hnode⟩ := flag_findNode hg h
    rw [flag_insert, hall, hicd]
    split
    · rename_i hm
      rw [hm, ← hnode]
    · rfl
  · rfl

theorem flag_sweepCheck {g : NodeState → Bool} (hg : g {} = false) (n : ℕ) (nodes : Nodes) (m : ℕ) :
    flag g (sweepCheck n nodes).1 m = flag g nodes m := by
  unfold sweepCheck
  split
  · rename_i nodes' node h
    exact (flag_findNode hg h).1 m
  · rfl

/-! ## The requests that wait -/

/-- The request that an action stands for: on its way to the queue, or in the worker's hand. -/
def Act.request : Act → Option ℕ
  | .queueSend n | .dropUnlessWanted n | .skipIfSubscribed n | .lockSlots n | .reclaim n _ _
  | .takeSlot n => some n
  | _ => none

/-- The item that the worker has popped and not yet given a slot. -/
def Act.item : Act → Option ℕ
  | .dropUnlessWanted n | .skipIfSubscribed n | .lockSlots n | .reclaim n _ _
  | .takeSlot n => some n
  | _ => none

def requests (acts : List Act) : List ℕ := acts.filterMap Act.request

@[simp] theorem requests_append (l l' : List Act) :
    requests (l ++ l') = requests l ++ requests l' :=
  List.filterMap_append

/-- The requests for a node in the queue, in the worker's hand or on their way to the queue. -/
def State.waiting (s : State) (n : ℕ) : ℕ :=
  s.queue.count n + Tally.tally (fun acts => (requests acts).count n) s.acts

def slotWeight (n : ℕ) (slot : Option AttemptSlot) : ℕ := if slot.any (·.nodeId == n) then 1 else 0

/-- The slots that a node occupies. -/
def Shared.slotCount (s : Shared) (n : ℕ) : ℕ := Tally.tally (slotWeight n) s.slots

/-- The nodes that the sweep looks at are not yet requests. -/
theorem requests_map_sweepNode (l : List ℕ) : requests (l.map .sweepNode) = [] := by
  induction l with
  | nil => rfl
  | cons n l ih => exact ih

theorem count_le_of_no_request {q q' : List ℕ} {new : List Act} {n k l : ℕ} (hq : q' = q)
    (hnew : requests new = []) : q'.count n + (requests new).count n ≤ q.count n + k + l := by
  rw [hq, hnew, List.count_nil]
  omega

theorem count_le_of_same_request {q q' : List ℕ} {new old : List Act} {n l : ℕ} (hq : q' = q)
    (hnew : requests new = requests old) :
    q'.count n + (requests new).count n ≤ q.count n + (requests old).count n + l := by
  rw [hq, hnew]
  omega

/-- An action neither makes nor duplicates a request, except that `enqueue_subscription` makes one
when it has set the pending flag. -/
theorem exec_waiting {s s' : Shared} {ok : Bool} {a : Act} {new : List Act}
    (h : exec s ok a = some (s', new)) (n : ℕ) :
    s'.queue.count n + (requests new).count n
      ≤ s.queue.count n + (requests [a]).count n
        + (if a = .enqueue n ∧ new = [.queueSend n] then 1 else 0) := by
  cases does_of_exec h with
  | @enqueue m _ =>
    by_cases hm : m = n
    · rw [if_pos ⟨by rw [hm], by rw [hm]⟩]
      have : (requests [.queueSend m]).count n ≤ 1 := List.count_le_length
      dsimp only
      omega
    · have : (requests [.queueSend m]).count n = 0 :=
        List.count_eq_zero.mpr fun h => hm (List.mem_singleton.mp h).symm
      rw [this]
      dsimp only
      omega
  | queueSend =>
    -- the request moves into the queue
    rw [List.count_append]
    exact Nat.le_add_right _ _
  | sweep => exact count_le_of_no_request rfl (requests_map_sweepNode _)
  | keepWanted | keepUnsubscribed | lockSlots | reclaimExpired | reclaimKeep | reclaimEnd
  | takeSlotLater => exact count_le_of_same_request rfl rfl
  | _ => exact count_le_of_no_request rfl rfl

/-- What an action can do to the slots: leave them alone, free one, or claim a free one for the
request in the worker's hand. -/
theorem exec_slots {s s' : Shared} {ok : Bool} {a : Act} {new : List Act}
    (h : exec s ok a = some (s', new)) :
    s'.slots = s.slots ∨
    (∃ i, s' = s.free i ∧ new = [] ∧
      (a = .freeSlot i ∨ ∃ n, a = .finished n ∧ s.slotOf n = some i)) ∨
    (∃ n i, a = .takeSlot n ∧ s.slots i = none ∧ s'.queue = s.queue ∧ s'.nodes = s.nodes ∧
      new = [.schedule n s.attempts.length] ∧
      s'.slots = Function.update s.slots i
        (some { nodeId := n, started := s.tickCount, attempt := s.attempts.length })) := by
  cases does_of_exec h with
  | finished _ hslot => exact Or.inr (Or.inl ⟨_, rfl, rfl, Or.inr ⟨_, rfl, hslot⟩⟩)
  | freeSlot => exact Or.inr (Or.inl ⟨_, rfl, rfl, Or.inl rfl⟩)
  | takeSlot hfree => exact Or.inr (Or.inr ⟨_, _, rfl, hfree, rfl, rfl, rfl, rfl⟩)
  | _ => exact Or.inl rfl

/-! ## The flags after an action -/

/-- The action clears the pending flag of `n`, if it is set. -/
def Act.Clears (s : Shared) (n : ℕ) : Act → Prop
  | .markHas m _ => m = n
  | .markNo m sid | .terminated m sid =>
    m = n ∧ (markNodeHasNoSubscription m sid s.nodes).2 = true
  | _ => False

instance (s : Shared) (n : ℕ) : DecidablePred (Act.Clears s n)
  | .markHas m _ => inferInstanceAs (Decidable (m = n))
  | .markNo _ _ | .terminated _ _ => inferInstanceAs (Decidable (_ ∧ _))
  | .deviceMark _ _ | .finished _ | .refreshIcdFlag _ | .retryUnlessIcd _ | .checkinIfWanted _
  | .enqueue _ | .queueSend _ | .sweep | .sweepNode _ | .sweepDone | .dropUnlessWanted _
  | .skipIfSubscribed _ | .lockSlots _ | .reclaim _ _ _ | .freeSlot _ | .takeSlot _
  | .schedule _ _ | .getSource _ _ | .sendCommand _ _ _ => isFalse id

/-- Most actions leave the node table alone. -/
theorem exec_nodes {s s' : Shared} {ok : Bool} {a : Act} {new : List Act}
    (h : exec s ok a = some (s', new)) :
    (s'.nodes = s.nodes ∧ (∀ n, ¬ a.Clears s n) ∧ ∀ n, a ≠ .enqueue n) ∨
    (∃ n sid, a = .markHas n sid ∧ s'.nodes = markNodeHasSubscription n sid s.nodes) ∨
    (∃ n sid, (a = .markNo n sid ∨ a = .terminated n sid) ∧
      s'.nodes = (markNodeHasNoSubscription n sid s.nodes).1) ∨
    (∃ n icd, a = .refreshIcdFlag n ∧ s'.nodes = refreshIcdFlag n icd s.nodes) ∨
    (∃ n, a = .enqueue n ∧ s'.nodes = (markPending n s.nodes).1 ∧
      new = if (markPending n s.nodes).2 then [.queueSend n] else []) ∨
    (∃ n, a = .sweepNode n ∧ s'.nodes = (sweepCheck n s.nodes).1) := by
  cases does_of_exec h with
  | markHas => exact Or.inr (Or.inl ⟨_, _, rfl, rfl⟩)
  | markNo | markNoOther => exact Or.inr (Or.inr (Or.inl ⟨_, _, Or.inl rfl, rfl⟩))
  | terminated | terminatedOther => exact Or.inr (Or.inr (Or.inl ⟨_, _, Or.inr rfl, rfl⟩))
  | refreshIcdFlag => exact Or.inr (Or.inr (Or.inr (Or.inl ⟨_, _, rfl, rfl⟩)))
  | enqueue hr =>
    exact Or.inr (Or.inr (Or.inr (Or.inr (Or.inl ⟨_, rfl, rfl, (if_pos hr).symm⟩))))
  | enqueuePending hr =>
    refine Or.inr (Or.inr (Or.inr (Or.inr (Or.inl ⟨_, rfl, rfl, (if_neg ?_).symm⟩))))
    rw [hr]
    exact Bool.false_ne_true
  | sweepNode | sweepNodeSkip => exact Or.inr (Or.inr (Or.inr (Or.inr (Or.inr ⟨_, rfl, rfl⟩))))
  | _ => exact Or.inl ⟨rfl, fun _ => id, fun _ => nofun⟩

/-- `markNo` and `terminated` clear the pending flag of the same nodes. -/
theorem clears_markNo_iff {s : Shared} {a : Act} {m sid : ℕ}
    (ha : a = .markNo m sid ∨ a = .terminated m sid) (n : ℕ) :
    a.Clears s n ↔ m = n ∧ (markNodeHasNoSubscription m sid s.nodes).2 = true := by
  rcases ha with rfl | rfl <;> exact Iff.rfl

/-- After an action the pending flag of a node is set if it was and the action did not clear it, or
if the action has just made a request for the node. -/
theorem exec_pending {s s' : Shared} {ok : Bool} {a : Act} {new : List Act}
    (h : exec s ok a = some (s', new)) (n : ℕ) :
    s'.pending n = true ↔
      (s.pending n = true ∧ ¬ a.Clears s n) ∨ (a = .enqueue n ∧ new = [.queueSend n]) := by
  unfold Shared.pending
  rcases exec_nodes h with ⟨heq, hclears, hne⟩ | ⟨m, sid, rfl, heq⟩ | ⟨m, sid, ha, heq⟩ |
    ⟨m, icd, rfl, heq⟩ | ⟨m, rfl, heq, hnew⟩ | ⟨m, rfl, heq⟩
  · rw [heq]
    simp [hclears n, hne n]
  · rw [heq, pending_markNodeHasSubscription]
    by_cases hm : m = n
    · rw [if_pos hm.symm]
      simp [Act.Clears, hm]
    · rw [if_neg (Ne.symm hm)]
      simp [Act.Clears, hm]
  · have hne : a ≠ .enqueue n := by rcases ha with rfl | rfl <;> exact nofun
    rw [heq, flag_markNodeHasNoSubscription rfl (fun _ => rfl), clears_markNo_iff ha]
    by_cases hm : m = n ∧ (markNodeHasNoSubscription m sid s.nodes).2 = true
    · obtain ⟨rfl, hr⟩ := hm
      rw [if_pos ⟨rfl, hr⟩]
      simp [hr, hne]
    · rw [if_neg fun hm' => hm ⟨hm'.1.symm, hm'.2⟩]
      simp [hm, hne]
  · rw [heq, flag_refreshIcdFlag rfl fun _ _ => rfl]
    simp [Act.Clears]
  · rw [heq, pending_markPending, hnew]
    by_cases hm : m = n
    · subst hm
      by_cases hr : (markPending m s.nodes).2 = true <;> simp [hr, Act.Clears]
    · by_cases hr : (markPending m s.nodes).2 = true <;> simp [hr, Act.Clears, hm, Ne.symm hm]
  · rw [heq, flag_sweepCheck rfl]
    simp [Act.Clears]

/-- A flag about the subscription goes only where the pending flag goes too. -/
theorem exec_flag {g : NodeState → Bool} (hg : g {} = false)
    (hpending : ∀ (node : NodeState) b, g { node with isSubscriptionPending := b } = g node)
    (hicd : ∀ (node : NodeState) b, g { node with isIcd := b } = g node)
    (hclear : ∀ node : NodeState, g { node with
      hasSubscription := false, isSubscriptionPending := false, subscriptionId := 0 } = false)
    {s s' : Shared} {ok : Bool} {a : Act} {new : List Act} (h : exec s ok a = some (s', new))
    {n : ℕ} (hclears : ¬ a.Clears s n) : flag g s'.nodes n = flag g s.nodes n := by
  rcases exec_nodes h with ⟨heq, -, -⟩ | ⟨m, sid, rfl, heq⟩ | ⟨m, sid, ha, heq⟩ |
    ⟨m, icd, rfl, heq⟩ | ⟨m, rfl, heq, hnew⟩ | ⟨m, rfl, heq⟩
  · rw [heq]
  · rw [heq, flag_markNodeHasSubscription_of_ne hg fun hm => hclears hm.symm]
  · rw [clears_markNo_iff ha] at hclears
    rw [heq, flag_markNodeHasNoSubscription hg hclear, if_neg fun hm => hclears ⟨hm.1.symm, hm.2⟩]
  · rw [heq, flag_refreshIcdFlag hg hicd]
  · rw [heq, flag_markPending hg hpending]
  · rw [heq, flag_sweepCheck hg]

theorem exec_subscribed {s s' : Shared} {ok : Bool} {a : Act} {new : List Act}
    (h : exec s ok a = some (s', new)) {n : ℕ} (hclears : ¬ a.Clears s n) :
    s'.subscribed n = s.subscribed n :=
  exec_flag rfl (fun _ _ => rfl) (fun _ _ => rfl) (fun _ => rfl) h hclears

/-- A request is made only for a node whose pending flag was clear. -/
theorem pending_of_exec_enqueue {s s' : Shared} {ok : Bool} {n : ℕ}
    (h : exec s ok (.enqueue n) = some (s', [.queueSend n])) : s.pending n = false := by
  obtain ⟨-, hnew⟩ := Prod.mk.inj (Option.some.inj h)
  apply markPending_snd
  by_contra hr
  rw [if_neg hr] at hnew
  exact nomatch hnew

/-! ## The slots after an action -/

theorem slotWeight_none (n : ℕ) : slotWeight n none = 0 := rfl

theorem slotWeight_pos_iff (n : ℕ) (slot : Option AttemptSlot) :
    0 < slotWeight n slot ↔ slot.any (·.nodeId == n) = true := by
  unfold slotWeight
  split
  · rename_i h
    exact iff_of_true Nat.one_pos h
  · rename_i h
    exact iff_of_false (lt_irrefl 0) h

theorem slots_free_of_ne {s : Shared} {i j : Fin MAX_ATTEMPTS_IN_FLIGHT} (h : i ≠ j) :
    (s.free j).slots i = s.slots i :=
  Function.update_of_ne h _ _

theorem slotCount_free (s : Shared) (i : Fin MAX_ATTEMPTS_IN_FLIGHT) (n : ℕ) :
    (s.free i).slotCount n + slotWeight n (s.slots i) = s.slotCount n :=
  Tally.tally_update_add (slotWeight n) s.slots i none

/-- The slot that `subscription_attempt_finished` frees is one of the node. -/
theorem slotOf_eq_some {s : Shared} {n : ℕ} {i : Fin MAX_ATTEMPTS_IN_FLIGHT}
    (h : s.slotOf n = some i) : slotWeight n (s.slots i) = 1 :=
  if_pos (List.find?_some h)

/-- It finds one if there is one. -/
theorem slotOf_eq_none {s : Shared} {n : ℕ} (h : s.slotOf n = none) : s.slotCount n = 0 := by
  rw [Shared.slotCount, Tally.tally_eq_zero_iff]
  intro i
  have := List.find?_eq_none.mp h i (List.mem_finRange i)
  exact if_neg this

/-! ## Steps of the system -/

theorem perform_cases {s s' : State} {t : Task} {ok : Bool} (h : s.perform t ok = some s') :
    ∃ a rest new, s.acts t = a :: rest ∧ exec s.toShared ok a = some (s'.toShared, new) ∧
      s'.acts = Function.update s.acts t (new ++ rest) := by
  unfold State.perform at h
  split at h
  · exact nomatch h
  · rename_i a rest hacts
    split at h
    · rename_i shared new hexec
      obtain rfl := Option.some.inj h
      exact ⟨a, rest, new, hacts, hexec, rfl⟩
    · exact nomatch h

theorem start_cases {s s' : State} {t : Task} {acts : List Act} (h : s.start t acts = some s') :
    s.acts t = [] ∧ s' = { s with acts := Function.update s.acts t acts } := by
  unfold State.start at h
  split at h
  · rename_i hidle
    exact ⟨hidle, (Option.some.inj h).symm⟩
  · exact nomatch h

theorem answer_cases {s s' : State} {k n : ℕ} (h : s.answer k = some (n, s')) :
    ∃ a, s.attempts[k]? = some a ∧ a.nodeId = n ∧ (a.phase = .sent ∨ a.phase = .answered) ∧
      s' = { s with toShared := s.toShared.setPhase k .answered } := by
  unfold State.answer at h
  split at h
  · rename_i a ha
    split at h
    · rename_i hphase
      obtain ⟨rfl, rfl⟩ := Prod.mk.inj (Option.some.inj h)
      exact ⟨a, ha, rfl, hphase, rfl⟩
    · exact nomatch h
  · exact nomatch h

/-- What starts on an idle task is no request, except that the worker receives one. -/
inductive Starts (s : State) : Task → List Act → List ℕ → Prop where
  | callback {acts : List Act} (hrequests : requests acts = [])
      (hfree : ∀ i, .freeSlot i ∉ acts) (t : Task) : Starts s t acts s.queue
  | receive {n : ℕ} {queue : List ℕ} (hqueue : s.queue = n :: queue) :
      Starts s .worker [.dropUnlessWanted n] queue

/-- A step is an action of a task, or an idle task starts on something, or only the surroundings
change. The last two leave the node table and the slots alone. -/
theorem step_cases {s s' : State} {l : Label} (h : step s l = some s') :
    (∃ t ok, l = .act t ok ∧ s.perform t ok = some s') ∨
    (s'.nodes = s.nodes ∧ s'.slots = s.slots ∧ s'.slotsLocked = s.slotsLocked ∧
      ((∃ t acts, s.acts t = [] ∧ s'.acts = Function.update s.acts t acts ∧
        Starts s t acts s'.queue) ∨ (s'.acts = s.acts ∧ s'.queue = s.queue))) := by
  cases l with
  | act t ok => exact Or.inl ⟨t, ok, rfl, h⟩
  | advance | world | deviceAdded | deviceRemoved =>
    obtain rfl := Option.some.inj h
    exact Or.inr ⟨rfl, rfl, rfl, Or.inr ⟨rfl, rfl⟩⟩
  | established k sid | terminated k sid | failed k =>
    simp only [step] at h
    split at h
    · rename_i n s₁ hanswer
      obtain ⟨-, -, -, -, rfl⟩ := answer_cases hanswer
      obtain ⟨hidle, rfl⟩ := start_cases h
      exact Or.inr ⟨rfl, rfl, rfl, Or.inl ⟨_, _, hidle, rfl, .callback rfl (by simp) _⟩⟩
    · exact nomatch h
  | checkin n | interrogated n | topologyChanged n =>
    obtain ⟨hidle, rfl⟩ := start_cases h
    exact Or.inr ⟨rfl, rfl, rfl, Or.inl ⟨_, _, hidle, rfl, .callback rfl (by simp) _⟩⟩
  | sweepDue =>
    simp only [step] at h
    split at h
    · obtain ⟨hidle, rfl⟩ := start_cases h
      exact Or.inr ⟨rfl, rfl, rfl, Or.inl ⟨_, _, hidle, rfl, .callback rfl (by simp) _⟩⟩
    · exact nomatch h
  | runWork =>
    simp only [step] at h
    split at h
    · obtain ⟨hidle, rfl⟩ := start_cases h
      exact Or.inr ⟨rfl, rfl, rfl, Or.inl ⟨_, _, hidle, rfl, .callback rfl (by simp) _⟩⟩
    · exact nomatch h
  | receive =>
    simp only [step] at h
    split at h
    · rename_i n queue hqueue
      obtain ⟨hidle, rfl⟩ := start_cases h
      exact Or.inr ⟨rfl, rfl, rfl, Or.inl ⟨_, _, hidle, rfl, .receive hqueue⟩⟩
    · exact nomatch h

section Perform

variable {s s' : State} {t : Task} {a : Act} {rest new : List Act}

/-- What an action leads to is next. -/
theorem mem_acts_of_new (hacts' : s'.acts = Function.update s.acts t (new ++ rest)) {b : Act}
    (hb : b ∈ new) : b ∈ s'.acts t := by
  rw [hacts', Function.update_self]
  exact List.mem_append_left _ hb

/-- An action other than the one done is still to do. -/
theorem mem_acts_of_ne (hacts : s.acts t = a :: rest)
    (hacts' : s'.acts = Function.update s.acts t (new ++ rest)) {t' : Task} {b : Act}
    (hb : b ∈ s.acts t') (hne : ¬ (t' = t ∧ b = a)) : b ∈ s'.acts t' := by
  rw [hacts']
  by_cases ht : t' = t
  · subst ht
    rw [hacts] at hb
    rw [Function.update_self]
    exact List.mem_append_right _ ((List.mem_cons.mp hb).resolve_left fun heq => hne ⟨rfl, heq⟩)
  · rwa [Function.update_of_ne ht]

/-- What there is to do after an action is what it leads to, or was there before. -/
theorem mem_new_or_mem_acts (hacts : s.acts t = a :: rest)
    (hacts' : s'.acts = Function.update s.acts t (new ++ rest)) {t' : Task} {b : Act}
    (hb : b ∈ s'.acts t') : (t' = t ∧ b ∈ new) ∨ b ∈ s.acts t' := by
  rw [hacts'] at hb
  by_cases ht : t' = t
  · subst ht
    rw [Function.update_self] at hb
    rcases List.mem_append.mp hb with hn | hr
    · exact Or.inl ⟨rfl, hn⟩
    · exact Or.inr (hacts ▸ List.mem_cons_of_mem a hr)
  · rw [Function.update_of_ne ht] at hb
    exact Or.inr hb

/-- A start takes nothing away that was to do. -/
theorem mem_acts_of_start (hidle : s.acts t = []) (hacts' : s'.acts = Function.update s.acts t new)
    {t' : Task} {b : Act} (hb : b ∈ s.acts t') : b ∈ s'.acts t' := by
  have ht : t' ≠ t := by
    rintro rfl
    rw [hidle] at hb
    exact List.not_mem_nil hb
  rwa [hacts', Function.update_of_ne ht]

theorem mem_start_or_mem_acts (hacts' : s'.acts = Function.update s.acts t new) {t' : Task}
    {b : Act} (hb : b ∈ s'.acts t') : (t' = t ∧ b ∈ new) ∨ b ∈ s.acts t' := by
  rw [hacts'] at hb
  by_cases ht : t' = t
  · subst ht
    rw [Function.update_self] at hb
    exact Or.inl ⟨rfl, hb⟩
  · rw [Function.update_of_ne ht] at hb
    exact Or.inr hb

end Perform

/-- An action trades its own request for those of the actions that it leads to. -/
theorem perform_waiting_eq {s s' : State} {t : Task} {a : Act} {rest new : List Act}
    (hacts : s.acts t = a :: rest) (hacts' : s'.acts = Function.update s.acts t (new ++ rest))
    (n : ℕ) :
    s'.waiting n + (s.queue.count n + (requests [a]).count n)
      = s.waiting n + (s'.queue.count n + (requests new).count n) := by
  have htally := Tally.tally_update_add (fun acts => (requests acts).count n) s.acts t (new ++ rest)
  have hcons : requests (a :: rest) = requests [a] ++ requests rest := requests_append [a] rest
  rw [hacts, hcons, requests_append, List.count_append, List.count_append] at htally
  unfold State.waiting
  rw [hacts']
  omega

/-- An action adds no request, except that an `enqueue_subscription` makes one when it has set the
pending flag. -/
theorem perform_waiting {s s' : State} {t : Task} {ok : Bool} {a : Act} {rest new : List Act}
    (hacts : s.acts t = a :: rest) (hexec : exec s.toShared ok a = some (s'.toShared, new))
    (hacts' : s'.acts = Function.update s.acts t (new ++ rest)) (n : ℕ) :
    s'.waiting n ≤ s.waiting n + (if a = .enqueue n ∧ new = [.queueSend n] then 1 else 0) := by
  have hle := exec_waiting hexec n
  have heq := perform_waiting_eq hacts hacts' n
  omega

theorem start_waiting {s s' : State} {t : Task} {acts : List Act} (hidle : s.acts t = [])
    (hacts' : s'.acts = Function.update s.acts t acts) (hstarts : Starts s t acts s'.queue)
    (n : ℕ) : s'.waiting n = s.waiting n := by
  have htally := Tally.tally_update_add (fun acts => (requests acts).count n) s.acts t acts
  rw [hidle, show (requests []).count n = 0 from rfl] at htally
  unfold State.waiting
  rw [hacts']
  generalize hq : s'.queue = queue at hstarts
  cases hstarts with
  | callback hrequests _ _ =>
    rw [hrequests, List.count_nil] at htally
    omega
  | @receive m _ hqueue =>
    have hcount : (requests [.dropUnlessWanted m]).count n = [m].count n := rfl
    rw [hcount] at htally
    rw [hqueue, List.count_cons]
    rw [List.count_singleton] at htally
    omega

end HomeEnergyManager.SubscriptionManager
