import HomeEnergyManager.Subscription.Effects

/-! # The nodes with an entry

`enqueue_subscription` asks only for a node that has an entry in the table, and no entry is ever
released. So every node that is asked for, and every node that an attempt is made for, has one, and
`mark_node_has_subscription` always finds it.
-/

namespace HomeEnergyManager.SubscriptionManager

/-- The node has an entry in the table. -/
def Known (nodes : Nodes) (n : ℕ) : Prop := (nodes.lookup n).isSome = true

section Table

variable {nodes nodes' : Nodes} {n m : ℕ} {node : NodeState} {create : Bool}

theorem Known.insert (h : Known nodes m) : Known (nodes.insert n node) m := by
  unfold Known at h ⊢
  by_cases hm : m = n
  · rw [hm, AList.lookup_insert, Option.isSome_some]
  · rwa [AList.lookup_insert_ne hm]

theorem known_insert_self : Known (nodes.insert n node) n := by
  rw [Known, AList.lookup_insert, Option.isSome_some]

theorem Known.findNode (h : Known nodes m)
    (hfind : findNode nodes n create = some (nodes', node)) : Known nodes' m := by
  unfold SubscriptionManager.findNode at hfind
  cases hl : nodes.lookup n with
  | some node' =>
    rw [hl] at hfind
    obtain ⟨rfl, -⟩ := Prod.mk.inj (Option.some.inj hfind)
    exact h
  | none =>
    rw [hl] at hfind
    dsimp only at hfind
    split at hfind
    · obtain ⟨rfl, -⟩ := Prod.mk.inj (Option.some.inj hfind)
      exact h.insert
    · exact nomatch hfind

/-- An entry is found. -/
theorem Known.findNode_eq (h : Known nodes n) (create : Bool) :
    ∃ node, SubscriptionManager.findNode nodes n create = some (nodes, node) := by
  obtain ⟨node, hl⟩ := Option.isSome_iff_exists.mp h
  refine ⟨node, ?_⟩
  rw [SubscriptionManager.findNode, hl]

/-- A node that is asked for has an entry. -/
theorem known_of_markPending (h : (markPending n nodes).2 = true) :
    Known (markPending n nodes).1 n := by
  unfold markPending at h ⊢
  split at h
  · exact known_insert_self
  · exact absurd h Bool.false_ne_true

end Table

/-! ## What is to be done for a node with an entry -/

/-- The node that an action needs the entry of. -/
def Act.tracks : Act → Option ℕ
  | .markHas n _ | .queueSend n | .dropUnlessWanted n | .skipIfSubscribed n | .lockSlots n
  | .reclaim n _ _ | .takeSlot n | .schedule n _ | .getSource n _ | .sendCommand n _ _ => some n
  | _ => none

/-- The node and the attempt that an action schedules or sends. -/
def Act.attempt : Act → Option (ℕ × ℕ)
  | .schedule n k | .getSource n k | .sendCommand n k _ => some (n, k)
  | _ => none

/-- The node of an attempt. -/
def Shared.attemptNode (s : Shared) (k : ℕ) : Option ℕ := s.attempts[k]?.map (·.nodeId)

/-- An attempt that goes on is one for the same node. -/
theorem attemptNode_modify {s s' : Shared} {k : ℕ} {f : Attempt → Attempt}
    (h : s'.attempts = s.attempts.modify k f) (hf : ∀ x, (f x).nodeId = x.nodeId) :
    s'.attemptNode = s.attemptNode := by
  funext k'
  rw [Shared.attemptNode, Shared.attemptNode, h, List.getElem?_modify]
  cases s.attempts[k']? with
  | none => rfl
  | some x =>
    split
    · exact congrArg some (hf x)
    · rfl

theorem attemptNode_setPhase (s : Shared) (k : ℕ) (phase : Phase) :
    (s.setPhase k phase).attemptNode = s.attemptNode :=
  attemptNode_modify rfl fun _ => rfl

section Exec

variable {s s' : Shared} {ok : Bool} {a : Act} {new : List Act}

/-- No action releases an entry. -/
theorem exec_known (h : exec s ok a = some (s', new)) {m : ℕ} (hm : Known s.nodes m) :
    Known s'.nodes m := by
  rcases exec_nodes h with ⟨heq, -, -⟩ | ⟨n, sid, -, heq⟩ | ⟨n, sid, -, heq⟩ | ⟨n, icd, -, heq⟩ |
    ⟨n, -, heq, -⟩ | ⟨n, -, heq⟩
  · rwa [heq]
  · rw [heq, markNodeHasSubscription]
    split
    · rename_i hfind
      exact (hm.findNode hfind).insert
    · exact hm
  · rw [heq, markNodeHasNoSubscription]
    split
    · rename_i hfind
      split
      · exact (hm.findNode hfind).insert
      · exact hm.findNode hfind
    · exact hm
  · rw [heq, refreshIcdFlag]
    split
    · rename_i hfind
      exact (hm.findNode hfind).insert
    · exact hm
  · rw [heq, markPending]
    split
    · rename_i hfind
      exact (hm.findNode hfind).insert
    · exact hm
  · rw [heq, sweepCheck]
    split
    · rename_i hfind
      exact hm.findNode hfind
    · exact hm

/-- What an action leads to is for its own node, or for one that was just asked for. -/
theorem exec_tracks (h : exec s ok a = some (s', new)) :
    ∀ b ∈ new, ∀ n, b.tracks = some n → a.tracks = some n ∨ Known s'.nodes n := by
  cases does_of_exec h with
  | enqueue hr =>
    intro b hb n hn
    obtain rfl := List.mem_singleton.mp hb
    obtain rfl := Option.some.inj hn
    exact Or.inr (known_of_markPending hr)
  | keepWanted | keepUnsubscribed | lockSlots | reclaimKeep | reclaimEnd | takeSlot
  | takeSlotLater =>
    intro b hb n hn
    obtain rfl := List.mem_singleton.mp hb
    exact Or.inl hn
  | sweep =>
    intro b hb n hn
    obtain ⟨m, -, rfl⟩ := List.mem_map.mp hb
    exact nomatch hn
  | _ => simp +contextual [Act.tracks]

/-- What gets into the queue was on the way to it. -/
theorem exec_queue_mem (h : exec s ok a = some (s', new)) :
    ∀ n ∈ s'.queue, n ∈ s.queue ∨ a.tracks = some n := by
  cases does_of_exec h with
  | queueSend =>
    intro n hn
    rcases List.mem_append.mp hn with hold | hnew
    · exact Or.inl hold
    · rw [List.mem_singleton.mp hnew]
      exact Or.inr rfl
  | _ => exact fun n hn => Or.inl hn

/-- The attempts stay those of their nodes; a new one is for the node of the action. -/
theorem exec_attemptNode (h : exec s ok a = some (s', new)) :
    s'.attemptNode = s.attemptNode ∨
      ∃ n, a.tracks = some n ∧ new = [.schedule n s.attempts.length] ∧
        ∀ k, s'.attemptNode k = if k = s.attempts.length then some n else s.attemptNode k := by
  cases does_of_exec h with
  | @takeSlot n i hfree =>
    refine Or.inr ⟨n, rfl, rfl, fun k => ?_⟩
    unfold Shared.attemptNode
    split
    · rename_i hk
      rw [hk, List.getElem?_concat_length, Option.map_some]
    · rename_i hk
      rw [List.getElem?_append]
      split
      · rfl
      · rename_i hlt
        rw [List.getElem?_eq_none (not_lt.mp hlt), List.getElem?_eq_none]
        rw [List.length_singleton]
        omega
  | scheduleFailed | sendCommandFailed => exact Or.inl (attemptNode_setPhase _ _ _)
  | sendCommand => exact Or.inl (attemptNode_modify rfl fun _ => rfl)
  | _ => exact Or.inl rfl

/-- What an action schedules or sends is its own attempt, or the one that it has just made. -/
theorem exec_sends (h : exec s ok a = some (s', new)) :
    (∀ w ∈ s'.work, w ∈ s.work ∨ a.attempt = some w) ∧
    ∀ b ∈ new, ∀ w ∈ b.attempt, s'.attemptNode w.2 = some w.1 ∨ a.attempt = some w := by
  cases does_of_exec h with
  | schedule =>
    refine ⟨fun w hw => ?_, by simp⟩
    rcases List.mem_append.mp hw with hold | hnew
    · exact Or.inl hold
    · rw [List.mem_singleton.mp hnew]
      exact Or.inr rfl
  | takeSlot =>
    refine ⟨fun w hw => Or.inl hw, fun b hb w hw => Or.inl ?_⟩
    obtain rfl := List.mem_singleton.mp hb
    obtain rfl := Option.some.inj hw
    rw [Shared.attemptNode, List.getElem?_concat_length, Option.map_some]
  | getSource =>
    refine ⟨fun w hw => Or.inl hw, fun b hb w hw => Or.inr ?_⟩
    obtain rfl := List.mem_singleton.mp hb
    exact hw
  | sweep =>
    refine ⟨fun w hw => Or.inl hw, fun b hb w hw => ?_⟩
    obtain ⟨m, -, rfl⟩ := List.mem_map.mp hb
    exact nomatch hw
  | _ => exact ⟨fun w hw => Or.inl hw, by simp [Act.attempt]⟩

end Exec

/-! ## Every run -/

/-- Whatever is asked for, attempted or called back has an entry, and what is scheduled or sent for
a node is an attempt of it. -/
structure KnownInv (s : State) : Prop where
  acts : ∀ t, ∀ a ∈ s.acts t, ∀ n, a.tracks = some n → Known s.nodes n
  queue : ∀ n ∈ s.queue, Known s.nodes n
  attempts : ∀ k n, s.attemptNode k = some n → Known s.nodes n
  sends : ∀ t, ∀ a ∈ s.acts t, ∀ w ∈ a.attempt, s.attemptNode w.2 = some w.1
  work : ∀ w ∈ s.work, s.attemptNode w.2 = some w.1

theorem KnownInv.perform {s s' : State} {t : Task} {ok : Bool} {a : Act} {rest new : List Act}
    (h : KnownInv s) (hacts : s.acts t = a :: rest)
    (hexec : exec s.toShared ok a = some (s'.toShared, new))
    (hacts' : s'.acts = Function.update s.acts t (new ++ rest)) : KnownInv s' := by
  have hhead : a ∈ s.acts t := hacts ▸ List.mem_cons_self
  have hown : ∀ n, a.tracks = some n → Known s'.nodes n :=
    fun n hn => exec_known hexec (h.acts t a hhead n hn)
  have hnode : ∀ k n, s.attemptNode k = some n → s'.attemptNode k = some n := by
    intro k n hk
    rcases exec_attemptNode hexec with heq | ⟨m, -, -, heq⟩
    · rw [heq, hk]
    · rw [heq, if_neg, hk]
      rintro rfl
      rw [Shared.attemptNode, List.getElem?_eq_none le_rfl] at hk
      exact nomatch hk
  obtain ⟨hwork, hnew⟩ := exec_sends hexec
  refine ⟨fun t' b hb n hn => ?_, fun n hn => ?_, fun k n hk => ?_, fun t' b hb w hw => ?_,
    fun w hw => ?_⟩
  · rcases mem_new_or_mem_acts hacts hacts' hb with ⟨-, hb⟩ | hb
    · exact (exec_tracks hexec b hb n hn).elim (hown n) id
    · exact exec_known hexec (h.acts t' b hb n hn)
  · exact (exec_queue_mem hexec n hn).elim (fun hold => exec_known hexec (h.queue n hold)) (hown n)
  · rcases exec_attemptNode hexec with heq | ⟨m, hm, -, heq⟩
    · exact exec_known hexec (h.attempts k n (heq ▸ hk))
    · rw [heq] at hk
      split at hk
      · exact hown n (Option.some.inj hk ▸ hm)
      · exact exec_known hexec (h.attempts k n hk)
  · rcases mem_new_or_mem_acts hacts hacts' hb with ⟨-, hb⟩ | hb
    · exact (hnew b hb w hw).elim id fun hown => hnode _ _ (h.sends t a hhead w hown)
    · exact hnode _ _ (h.sends t' b hb w hw)
  · rcases hwork w hw with hold | hown
    · exact hnode _ _ (h.work w hold)
    · exact hnode _ _ (h.sends t a hhead w hown)

/-- A task starts on something that is for nodes with an entry. -/
theorem KnownInv.start {s s' : State} {t : Task} {acts : List Act} (h : KnownInv s)
    (hacts' : s'.acts = Function.update s.acts t acts) (hnodes : s'.nodes = s.nodes)
    (hattempts : s'.attemptNode = s.attemptNode) (hqueue : ∀ n ∈ s'.queue, n ∈ s.queue)
    (hwork : ∀ w ∈ s'.work, w ∈ s.work)
    (htracks : ∀ a ∈ acts, ∀ n, a.tracks = some n → Known s.nodes n)
    (hsends : ∀ a ∈ acts, ∀ w ∈ a.attempt, s.attemptNode w.2 = some w.1) :
    KnownInv s' := by
  refine ⟨fun t' b hb n hn => ?_, fun n hn => ?_, fun k n hk => ?_, fun t' b hb w hw => ?_,
    fun w hw => ?_⟩
  · rw [hnodes]
    rcases mem_start_or_mem_acts hacts' hb with ⟨-, hb⟩ | hb
    · exact htracks b hb n hn
    · exact h.acts t' b hb n hn
  · rw [hnodes]
    exact h.queue n (hqueue n hn)
  · rw [hnodes]
    exact h.attempts k n (hattempts ▸ hk)
  · rw [hattempts]
    rcases mem_start_or_mem_acts hacts' hb with ⟨-, hb⟩ | hb
    · exact hsends b hb w hw
    · exact h.sends t' b hb w hw
  · rw [hattempts]
    exact h.work w (hwork w hw)

/-- A callback is for a node with an entry. -/
theorem KnownInv.answered {s s' : State} {k n : ℕ} (h : KnownInv s)
    (hanswer : s.answer k = some (n, s')) :
    Known s.nodes n ∧ s'.nodes = s.nodes ∧ s'.attemptNode = s.attemptNode := by
  obtain ⟨a, ha, rfl, -, rfl⟩ := answer_cases hanswer
  refine ⟨h.attempts k a.nodeId ?_, rfl, attemptNode_setPhase _ _ _⟩
  rw [Shared.attemptNode, ha, Option.map_some]

theorem knownInv_step (s : State) (l : Label) (s' : State) (h : KnownInv s)
    (hstep : step s l = some s') : KnownInv s' := by
  cases l with
  | act t ok =>
    obtain ⟨a, rest, new, hacts, hexec, hacts'⟩ := perform_cases hstep
    exact h.perform hacts hexec hacts'
  | advance | world | deviceAdded | deviceRemoved =>
    obtain rfl := Option.some.inj hstep
    exact ⟨h.acts, h.queue, h.attempts, h.sends, h.work⟩
  | established k sid | terminated k sid | failed k =>
    simp only [step] at hstep
    split at hstep
    · rename_i n s₁ hanswer
      obtain ⟨hknown, hnodes, hattempts⟩ := h.answered hanswer
      obtain ⟨-, -, -, -, rfl⟩ := answer_cases hanswer
      obtain ⟨-, rfl⟩ := start_cases hstep
      refine h.start rfl hnodes hattempts (fun _ => id) (fun _ => id) ?_ (by simp [Act.attempt])
      intro a ha m hm
      simp only [List.mem_cons, List.not_mem_nil, or_false] at ha
      -- of what a callback leads to, only `markHas` needs the entry
      rcases ha with rfl | rfl | rfl | rfl <;> cases hm <;> exact hknown
    · contradiction
  | checkin n | interrogated n | topologyChanged n =>
    obtain ⟨-, rfl⟩ := start_cases hstep
    exact h.start rfl rfl rfl (fun _ => id) (fun _ => id) (by simp [Act.tracks])
      (by simp [Act.attempt])
  | sweepDue =>
    simp only [step] at hstep
    split at hstep
    · obtain ⟨-, rfl⟩ := start_cases hstep
      exact h.start rfl rfl rfl (fun _ => id) (fun _ => id) (by simp [Act.tracks])
        (by simp [Act.attempt])
    · contradiction
  | runWork =>
    simp only [step] at hstep
    split at hstep
    · rename_i n k work hwork
      have hnode : s.attemptNode k = some n := h.work (n, k) (hwork ▸ List.mem_cons_self)
      obtain ⟨-, rfl⟩ := start_cases hstep
      refine h.start rfl rfl rfl (fun _ => id) (fun w hw => hwork ▸ List.mem_cons_of_mem _ hw) ?_ ?_
      · simp only [List.mem_cons, List.not_mem_nil, or_false, forall_eq_or_imp, forall_eq,
          Act.tracks, reduceCtorEq, false_implies, implies_true, true_and, Option.some.injEq]
        rintro m rfl
        exact h.attempts k n hnode
      · intro a ha w hw
        simp only [List.mem_cons, List.not_mem_nil, or_false] at ha
        rcases ha with rfl | rfl
        · contradiction
        · obtain rfl := Option.some.inj hw
          exact hnode
    · contradiction
  | receive =>
    simp only [step] at hstep
    split at hstep
    · rename_i n queue hqueue
      obtain ⟨-, rfl⟩ := start_cases hstep
      refine h.start rfl rfl rfl (fun m hm => hqueue ▸ List.mem_cons_of_mem _ hm) (fun _ => id) ?_
        (by simp [Act.attempt])
      intro a ha m hm
      obtain rfl := List.mem_singleton.mp ha
      obtain rfl := Option.some.inj hm
      exact h.queue n (hqueue ▸ List.mem_cons_self)
    · contradiction

/-- Right after the start nothing is asked for. -/
theorem knownInv_boot (sensorEndpoints : List ℕ) (tariffSource : Option (ℕ × ℕ))
    (registeredIcds : List ℕ) (devices : ℕ → Option Bool) (tick : ℕ) :
    KnownInv (.boot sensorEndpoints tariffSource registeredIcds devices tick) where
  acts t a ha n hn := by
    cases t
    case main =>
      obtain rfl := List.mem_singleton.mp ha
      exact nomatch hn
    all_goals exact absurd ha List.not_mem_nil
  queue n hn := absurd hn List.not_mem_nil
  attempts k n hk := by simp [Shared.attemptNode, State.boot] at hk
  sends t a ha w hw := by
    cases t
    case main =>
      obtain rfl := List.mem_singleton.mp ha
      exact nomatch hw
    all_goals exact absurd ha List.not_mem_nil
  work w hw := absurd hw List.not_mem_nil

end HomeEnergyManager.SubscriptionManager
