import HomeEnergyManager.Lib.FirstSeen
import HomeEnergyManager.Subscription.Known
import HomeEnergyManager.Subscription.NoDuplicate

/-! # Room in the node table

`find_node_locked` claims an entry for every node that it is asked for, and no entry is released. So
the table holds the first `MAX_NODES` nodes that were ever asked for, whether they are wanted or
not. An entry with the id 0 is unused, as no node has that id. -/

namespace HomeEnergyManager.SubscriptionManager

/-- The node that an action asks an entry for. -/
def Act.asksFor : Act → Option ℕ
  | .markHas n _ | .refreshIcdFlag n | .enqueue n | .sweepNode n => some n
  | _ => none

/-- A state of a run, with the nodes that an entry was asked for, in the order of the first time. No
code reads them. -/
structure AskedState where
  state : State
  asked : List ℕ := []

/-- The nodes asked for after a step. -/
def AskedState.askedAfter (t : AskedState) : Label → List ℕ
  | .act task _ =>
    ((t.state.acts task).head?.bind Act.asksFor).elim t.asked (FirstSeen.insertNew t.asked)
  | _ => t.asked

def askedStep (t : AskedState) (l : Label) : Option AskedState :=
  (step t.state l).map fun s => { state := s, asked := t.askedAfter l }

/-- A node has an entry, or gets one when `enqueue_subscription` or the sweep asks for it. -/
def HasOrGets (nodes : Nodes) (n : ℕ) : Prop :=
  Known nodes n ∨ Known (markPending n nodes).1 n ∧ Known (sweepCheck n nodes).1 n

/-- Every wanted node does. -/
def WantedTracked (t : AskedState) : Prop :=
  ∀ n ∈ t.state.wantedNodes, HasOrGets t.state.nodes n

/-- Every wanted node is among the first `MAX_NODES` nodes that were asked for, or there were fewer.
-/
def WantedInTime (t : AskedState) : Prop :=
  ∀ n ∈ t.state.wantedNodes, n ∈ t.asked.take MAX_NODES ∨ t.asked.length < MAX_NODES

/-! ## The table as a set of nodes -/

section Table

variable {nodes nodes' : Nodes} {n m : ℕ} {node : NodeState} {asked : List ℕ}

theorem known_iff_mem_keys : Known nodes n ↔ n ∈ nodes.keys := by
  rw [Known, AList.lookup_isSome]
  rfl

theorem known_insert_iff : Known (nodes.insert n node) m ↔ Known nodes m ∨ m = n := by
  rw [known_iff_mem_keys, known_iff_mem_keys, ← AList.mem_keys, ← AList.mem_keys, AList.mem_insert]
  exact or_comm

theorem length_of_known_iff (hnodup : asked.Nodup) (h : ∀ m, Known nodes m ↔ m ∈ asked) :
    nodes.entries.length = asked.length := by
  have hperm : nodes.keys.Perm asked :=
    (List.perm_ext_iff_of_nodup nodes.keys_nodup hnodup).mpr fun m =>
      known_iff_mem_keys.symm.trans (h m)
  rw [← hperm.length_eq, AList.keys, List.keys, List.length_map]

/-- Asking for a node adds it while there is room. -/
def Adds (nodes : Nodes) (n : ℕ) (nodes' : Nodes) : Prop :=
  ∀ m, Known nodes' m ↔ Known nodes m ∨ m = n ∧ nodes.entries.length < MAX_NODES

theorem adds_findNode (hfind : findNode nodes n true = some (nodes', node)) :
    Adds nodes n nodes' ∧ Known nodes' n := by
  unfold findNode at hfind
  cases hlookup : nodes.lookup n with
  | some node' =>
    rw [hlookup] at hfind
    obtain ⟨rfl, -⟩ := Prod.mk.inj (Option.some.inj hfind)
    have hknown : Known nodes n := by rw [Known, hlookup, Option.isSome_some]
    refine ⟨fun m => ⟨Or.inl, ?_⟩, hknown⟩
    rintro (h | ⟨rfl, -⟩)
    · exact h
    · exact hknown
  | none =>
    rw [hlookup] at hfind
    dsimp only at hfind
    split at hfind
    · rename_i hroom
      obtain ⟨rfl, -⟩ := Prod.mk.inj (Option.some.inj hfind)
      rw [Bool.true_and, decide_eq_true_eq] at hroom
      refine ⟨fun m => ?_, known_insert_self⟩
      rw [known_insert_iff, and_iff_left hroom]
    · cases hfind

/-- Without an entry and without room nothing is added. -/
theorem adds_of_findNode_eq_none (hfind : findNode nodes n true = none) : Adds nodes n nodes := by
  unfold findNode at hfind
  cases hlookup : nodes.lookup n with
  | some node' =>
    rw [hlookup] at hfind
    cases hfind
  | none =>
    rw [hlookup] at hfind
    dsimp only at hfind
    split at hfind
    · cases hfind
    · rename_i hfull
      rw [Bool.true_and, decide_eq_true_eq] at hfull
      exact fun m => (or_iff_left fun h => hfull h.2).symm

/-- Writing to the entry adds nothing more. -/
theorem Adds.insert (h : Adds nodes n nodes') (hn : Known nodes' n) (node : NodeState) :
    Adds nodes n (nodes'.insert n node) := by
  intro m
  rw [known_insert_iff, ← h m]
  exact or_iff_left_of_imp fun hm => hm ▸ hn

theorem adds_markNodeHasSubscription (n sid : ℕ) (nodes : Nodes) :
    Adds nodes n (markNodeHasSubscription n sid nodes) := by
  unfold markNodeHasSubscription
  split
  · rename_i hfind
    obtain ⟨hadds, hn⟩ := adds_findNode hfind
    exact hadds.insert hn _
  · rename_i hfind
    exact adds_of_findNode_eq_none hfind

theorem adds_refreshIcdFlag (n : ℕ) (icd : Bool) (nodes : Nodes) :
    Adds nodes n (refreshIcdFlag n icd nodes) := by
  unfold refreshIcdFlag
  split
  · rename_i hfind
    obtain ⟨hadds, hn⟩ := adds_findNode hfind
    exact hadds.insert hn _
  · rename_i hfind
    exact adds_of_findNode_eq_none hfind

theorem adds_markPending (n : ℕ) (nodes : Nodes) : Adds nodes n (markPending n nodes).1 := by
  unfold markPending
  split
  · rename_i hfind
    obtain ⟨hadds, hn⟩ := adds_findNode hfind
    exact hadds.insert hn _
  · rename_i hfind
    exact adds_of_findNode_eq_none hfind

theorem adds_sweepCheck (n : ℕ) (nodes : Nodes) : Adds nodes n (sweepCheck n nodes).1 := by
  unfold sweepCheck
  split
  · rename_i hfind
    exact (adds_findNode hfind).1
  · rename_i hfind
    exact adds_of_findNode_eq_none hfind

/-- `mark_node_has_no_subscription` makes no entry. -/
theorem known_markNodeHasNoSubscription (n sid : ℕ) (nodes : Nodes) (m : ℕ) :
    Known (markNodeHasNoSubscription n sid nodes).1 m ↔ Known nodes m := by
  unfold markNodeHasNoSubscription findNode
  cases hlookup : nodes.lookup n with
  | none => exact Iff.rfl
  | some node =>
    dsimp only
    split
    · rw [known_insert_iff]
      refine or_iff_left_of_imp fun hm => ?_
      rw [hm, Known, hlookup, Option.isSome_some]
    · exact Iff.rfl

/-- A node has an entry or gets one exactly if it is in the table or there is room. -/
theorem hasOrGets_iff :
    HasOrGets nodes n ↔ Known nodes n ∨ nodes.entries.length < MAX_NODES := by
  unfold HasOrGets
  rw [adds_markPending n nodes n, adds_sweepCheck n nodes n, and_self, ← or_assoc, or_self,
    and_iff_right rfl]

end Table

/-! ## The first nodes that were asked for -/

section Asked

/-- The table is the list of the first nodes that were asked for. -/
structure AskedInv (t : AskedState) : Prop where
  nodup : t.asked.Nodup
  known : ∀ m, Known t.state.nodes m ↔ m ∈ t.asked.take MAX_NODES

theorem AskedInv.length {t : AskedState} (h : AskedInv t) :
    t.state.nodes.entries.length = (t.asked.take MAX_NODES).length :=
  length_of_known_iff ((List.take_sublist _ _).nodup h.nodup) h.known

/-- What an action does to the nodes of the table. -/
theorem known_of_exec {s s' : Shared} {ok : Bool} {a : Act} {new : List Act}
    (h : exec s ok a = some (s', new)) :
    a.asksFor.elim (∀ m, Known s'.nodes m ↔ Known s.nodes m) fun n => Adds s.nodes n s'.nodes := by
  cases does_of_exec h with
  | markHas => exact adds_markNodeHasSubscription _ _ _
  | refreshIcdFlag => exact adds_refreshIcdFlag _ _ _
  | enqueue | enqueuePending => exact adds_markPending _ _
  | sweepNode | sweepNodeSkip => exact adds_sweepCheck _ _
  | markNo | markNoOther | terminated | terminatedOther =>
    exact known_markNodeHasNoSubscription _ _ _
  | _ => exact fun _ => Iff.rfl

theorem askedInv_step (t : AskedState) (l : Label) (t' : AskedState) (h : AskedInv t)
    (hstep : askedStep t l = some t') : AskedInv t' := by
  obtain ⟨s, hs, rfl⟩ := Option.map_eq_some_iff.mp hstep
  cases l with
  | act task ok =>
    obtain ⟨a, rest, new, hacts, hexec, -⟩ := perform_cases hs
    have hknown := known_of_exec hexec
    have hasked : t.askedAfter (.act task ok) =
        a.asksFor.elim t.asked (FirstSeen.insertNew t.asked) := by
      rw [AskedState.askedAfter, hacts]
      rfl
    rw [hasked]
    cases hask : a.asksFor with
    | none =>
      rw [hask] at hknown
      exact ⟨h.nodup, fun m => (hknown m).trans (h.known m)⟩
    | some n =>
      rw [hask] at hknown
      refine ⟨FirstSeen.nodup_insertNew h.nodup n, fun m => (hknown m).trans ?_⟩
      show _ ↔ m ∈ (FirstSeen.insertNew t.asked n).take MAX_NODES
      rw [FirstSeen.mem_take_insertNew, h.known, h.length]
  | _ =>
    rcases step_cases hs with ⟨task, ok, heq, -⟩ | ⟨hnodes, -⟩
    · cases heq
    · exact ⟨h.nodup, fun m => hnodes ▸ h.known m⟩

/-- With the table as it is, the two properties say the same. -/
theorem AskedInv.wantedTracked_iff {t : AskedState} (h : AskedInv t) :
    WantedTracked t ↔ WantedInTime t := by
  refine forall₂_congr fun n _ => ?_
  rw [hasOrGets_iff, h.known, h.length, List.length_take]
  exact or_congr_right (by omega)

end Asked

/-- The start of the manager, before any node was asked for. -/
def AskedState.boot (sensorEndpoints : List ℕ) (tariffSource : Option (ℕ × ℕ))
    (registeredIcds : List ℕ) (devices : ℕ → Option Bool) (tick : ℕ) : AskedState :=
  { state := .boot sensorEndpoints tariffSource registeredIcds devices tick }

theorem askedInv_boot (sensorEndpoints : List ℕ) (tariffSource : Option (ℕ × ℕ))
    (registeredIcds : List ℕ) (devices : ℕ → Option Bool) (tick : ℕ) :
    AskedInv (.boot sensorEndpoints tariffSource registeredIcds devices tick) :=
  ⟨List.nodup_nil, fun _ => iff_of_false nofun List.not_mem_nil⟩

/-- In every run: all along it every wanted node has an entry, or gets one when it is asked for,
exactly if all along it every wanted node is among the first `MAX_NODES` nodes that were asked for
since the start, or fewer were. -/
theorem wanted_tracked_iff (sensorEndpoints : List ℕ) (tariffSource : Option (ℕ × ℕ))
    (registeredIcds : List ℕ) (devices : ℕ → Option Bool) (tick : ℕ) (ls : List Label) :
    StepSystem.Always askedStep WantedTracked
        (.boot sensorEndpoints tariffSource registeredIcds devices tick) ls ↔
      StepSystem.Always askedStep WantedInTime
        (.boot sensorEndpoints tariffSource registeredIcds devices tick) ls :=
  StepSystem.always_congr askedInv_step (fun _ h => h.wantedTracked_iff)
    (askedInv_boot sensorEndpoints tariffSource registeredIcds devices tick)

/-- A device without a sensor is commissioned, and its request is dropped. -/
def unwantedRun (n : ℕ) : List Label :=
  [.interrogated n] ++ acts .chip 2 ++ [.receive] ++ acts .worker 3

/-- 32 such devices are commissioned, and then a meter. -/
def crowdedRun : List Label :=
  acts .main 1 ++ (List.range 32).flatMap (fun i => unwantedRun (10000 + i))
    ++ [.world [10032] none []]

/-- The meter gets no entry. -/
theorem node_table_crowds_out :
    ¬ ∀ (sensorEndpoints : List ℕ) (tariffSource : Option (ℕ × ℕ)) (registeredIcds : List ℕ)
      (devices : ℕ → Option Bool) (tick : ℕ) (ls : List Label),
      StepSystem.Always askedStep WantedTracked
        (.boot sensorEndpoints tariffSource registeredIcds devices tick) ls := by
  intro h
  have hfinal : (StepSystem.run askedStep (.boot [] none [] (fun _ => none) 0) crowdedRun).map
      (fun t => (t.state.wantedNodes, t.asked))
        = some ([10032], (List.range 32).map (10000 + ·)) := by
    decide +kernel
  obtain ⟨t, hrun, ht⟩ := Option.map_eq_some_iff.mp hfinal
  obtain ⟨hwanted, hasked⟩ := Prod.mk.inj ht
  have hinv : AskedInv t := StepSystem.inv_of_run (fun s l s' hs _ => askedInv_step s l s' hs)
    (askedInv_boot [] none [] (fun _ => none) 0) (StepSystem.meets_true askedStep _ crowdedRun) hrun
  have hin := hinv.wantedTracked_iff.mp ((h _ _ _ _ _ crowdedRun).last hrun) 10032
    (hwanted ▸ List.mem_singleton_self _)
  rw [hasked] at hin
  exact absurd hin (by decide)

end HomeEnergyManager.SubscriptionManager
