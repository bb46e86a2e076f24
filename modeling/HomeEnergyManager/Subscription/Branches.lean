import HomeEnergyManager.Subscription.Model

/-! # The branches of the actions

Each action takes one of a few branches. What holds of the actions is shown branch by branch.
-/

namespace HomeEnergyManager.SubscriptionManager

/-- What an action does, branch by branch: the state after it and what the task has to do next. -/
inductive Does (s : Shared) : Act → Shared → List Act → Prop where
  | markHas {n sid : ℕ} :
    Does s (.markHas n sid) { s with nodes := markNodeHasSubscription n sid s.nodes }
      [.deviceMark n true]
  | deviceMark {n : ℕ} {subscribed : Bool} :
    Does s (.deviceMark n subscribed)
      { s with devices := Function.update s.devices n ((s.devices n).map fun _ => subscribed) } []
  | markNo {n sid : ℕ} (hr : (markNodeHasNoSubscription n sid s.nodes).2 = true) :
    Does s (.markNo n sid) { s with nodes := (markNodeHasNoSubscription n sid s.nodes).1 }
      [.deviceMark n false]
  | markNoOther {n sid : ℕ} (hr : (markNodeHasNoSubscription n sid s.nodes).2 = false) :
    Does s (.markNo n sid) { s with nodes := (markNodeHasNoSubscription n sid s.nodes).1 } []
  | terminated {n sid : ℕ} (hr : (markNodeHasNoSubscription n sid s.nodes).2 = true) :
    Does s (.terminated n sid) { s with nodes := (markNodeHasNoSubscription n sid s.nodes).1 }
      [.deviceMark n false, .finished n, .enqueue n]
  | terminatedOther {n sid : ℕ} (hr : (markNodeHasNoSubscription n sid s.nodes).2 = false) :
    Does s (.terminated n sid) { s with nodes := (markNodeHasNoSubscription n sid s.nodes).1 }
      [.finished n]
  | finished {n : ℕ} {i : Fin MAX_ATTEMPTS_IN_FLIGHT} (hlock : s.slotsLocked = false)
      (hslot : s.slotOf n = some i) : Does s (.finished n) (s.free i) []
  | finishedNone {n : ℕ} (hlock : s.slotsLocked = false) (hslot : s.slotOf n = none) :
    Does s (.finished n) s []
  | refreshIcdFlag {n : ℕ} :
    Does s (.refreshIcdFlag n)
      { s with nodes := refreshIcdFlag n (decide (n ∈ s.registeredIcds)) s.nodes } []
  | retryIcd {n : ℕ} (hicd : nodeIsIcd n s.nodes = true) : Does s (.retryUnlessIcd n) s []
  | retry {n : ℕ} (hicd : nodeIsIcd n s.nodes = false) : Does s (.retryUnlessIcd n) s [.enqueue n]
  | checkin {n : ℕ} (hwanted : n ∈ s.wantedNodes) :
    Does s (.checkinIfWanted n) s [.refreshIcdFlag n, .markNo n 0, .enqueue n]
  | checkinUnwanted {n : ℕ} (hwanted : n ∉ s.wantedNodes) : Does s (.checkinIfWanted n) s []
  | enqueue {n : ℕ} (hr : (markPending n s.nodes).2 = true) :
    Does s (.enqueue n) { s with nodes := (markPending n s.nodes).1 } [.queueSend n]
  | enqueuePending {n : ℕ} (hr : (markPending n s.nodes).2 = false) :
    Does s (.enqueue n) { s with nodes := (markPending n s.nodes).1 } []
  | queueSend {n : ℕ} (hroom : s.queue.length < SUBSCRIPTION_QUEUE_DEPTH) :
    Does s (.queueSend n) { s with queue := s.queue ++ [n] } []
  | queueFull {n : ℕ} (hroom : ¬ s.queue.length < SUBSCRIPTION_QUEUE_DEPTH) :
    Does s (.queueSend n) s [.markNo n 0]
  | sweep : Does s .sweep s (s.wantedNodes.map .sweepNode)
  | sweepNode {n : ℕ} (hr : (sweepCheck n s.nodes).2 = true) :
    Does s (.sweepNode n) { s with nodes := (sweepCheck n s.nodes).1 } [.enqueue n]
  | sweepNodeSkip {n : ℕ} (hr : (sweepCheck n s.nodes).2 = false) :
    Does s (.sweepNode n) { s with nodes := (sweepCheck n s.nodes).1 } []
  | sweepDone : Does s .sweepDone { s with lastSweep := s.tickCount } []
  | keepWanted {n : ℕ} (hwanted : n ∈ s.wantedNodes) :
    Does s (.dropUnlessWanted n) s [.skipIfSubscribed n]
  | dropUnwanted {n : ℕ} (hwanted : n ∉ s.wantedNodes) :
    Does s (.dropUnlessWanted n) s [.markNo n 0]
  | skipSubscribed {n : ℕ} (hsub : nodeIsSubscribed n s.nodes = true) :
    Does s (.skipIfSubscribed n) s []
  | keepUnsubscribed {n : ℕ} (hsub : nodeIsSubscribed n s.nodes = false) :
    Does s (.skipIfSubscribed n) s [.lockSlots n]
  | lockSlots {n : ℕ} (hlock : s.slotsLocked = false) :
    Does s (.lockSlots n) { s with slotsLocked := true } [.reclaim n s.tickCount 0]
  | reclaimExpired {n now : ℕ} {i : Fin MAX_ATTEMPTS_IN_FLIGHT} {slot : AttemptSlot}
      (hslot : s.slots i = some slot) (hexpired : slot.expired now = true) :
    Does s (.reclaim n now i) s
      [.markNo slot.nodeId 0, .freeSlot i, .reclaim n now (i + 1)]
  | reclaimKeep {n now i : ℕ} : Does s (.reclaim n now i) s [.reclaim n now (i + 1)]
  | reclaimEnd {n now i : ℕ} : Does s (.reclaim n now i) s [.takeSlot n]
  | freeSlot {i : Fin MAX_ATTEMPTS_IN_FLIGHT} : Does s (.freeSlot i) (s.free i) []
  | takeSlot {n : ℕ} {i : Fin MAX_ATTEMPTS_IN_FLIGHT} (hfree : s.slots i = none) :
    Does s (.takeSlot n)
      { s with
        slots := Function.update s.slots i
          (some { nodeId := n, started := s.tickCount, attempt := s.attempts.length })
        slotsLocked := false
        attempts := s.attempts ++ [{ nodeId := n, started := s.tick, phase := .claimed }] }
      [.schedule n s.attempts.length]
  | takeSlotLater {n : ℕ} : Does s (.takeSlot n) { s with slotsLocked := false } [.lockSlots n]
  | schedule {n k : ℕ} : Does s (.schedule n k) { s with work := s.work ++ [(n, k)] } []
  | scheduleFailed {n k : ℕ} :
    Does s (.schedule n k) (s.setPhase k .dropped) [.markNo n 0, .finished n]
  | getSource {n k : ℕ} : Does s (.getSource n k) s [.sendCommand n k (s.wantsTariff n)]
  | sendCommand {n k : ℕ} {tariffEndpoint : Option ℕ} :
    Does s (.sendCommand n k tariffEndpoint)
      { s with attempts := s.attempts.modify k fun a =>
          { a with phase := .sent, tariffEndpoint := tariffEndpoint } } []
  | sendCommandFailed {n k : ℕ} {tariffEndpoint : Option ℕ} :
    Does s (.sendCommand n k tariffEndpoint) (s.setPhase k .dropped) [.markNo n 0, .finished n]

/-- An action does what one of its branches says. -/
theorem does_of_exec {s s' : Shared} {ok : Bool} {a : Act} {new : List Act}
    (h : exec s ok a = some (s', new)) : Does s a s' new := by
  cases a <;> simp only [exec] at h
  case finished =>
    split at h
    · exact nomatch h
    · rename_i hlock
      split at h <;> obtain ⟨rfl, rfl⟩ := Prod.mk.inj (Option.some.inj h)
      · exact .finished (Bool.eq_false_iff.mpr hlock) ‹_›
      · exact .finishedNone (Bool.eq_false_iff.mpr hlock) ‹_›
  case lockSlots =>
    split at h
    · exact nomatch h
    · rename_i hlock
      obtain ⟨rfl, rfl⟩ := Prod.mk.inj (Option.some.inj h)
      exact .lockSlots (Bool.eq_false_iff.mpr hlock)
  case queueSend =>
    split at h <;> obtain ⟨rfl, rfl⟩ := Prod.mk.inj (Option.some.inj h)
    · exact .queueSend ‹_›
    · exact .queueFull ‹_›
  case takeSlot =>
    split at h <;> obtain ⟨rfl, rfl⟩ := Prod.mk.inj (Option.some.inj h)
    · rename_i i hi
      have hfree := List.find?_some hi
      exact .takeSlot (Option.isNone_iff_eq_none.mp hfree)
    · exact .takeSlotLater
  case schedule =>
    split at h <;> obtain ⟨rfl, rfl⟩ := Prod.mk.inj (Option.some.inj h)
    · exact .schedule
    · exact .scheduleFailed
  case sendCommand =>
    split at h <;> obtain ⟨rfl, rfl⟩ := Prod.mk.inj (Option.some.inj h)
    · exact .sendCommand
    · exact .sendCommandFailed
  case reclaim n now i =>
    split at h
    · rename_i hi
      split at h
      · split at h <;> obtain ⟨rfl, rfl⟩ := Prod.mk.inj (Option.some.inj h)
        · exact Does.reclaimExpired (i := ⟨i, hi⟩) ‹_› ‹_›
        · exact .reclaimKeep
      · obtain ⟨rfl, rfl⟩ := Prod.mk.inj (Option.some.inj h)
        exact .reclaimKeep
    · obtain ⟨rfl, rfl⟩ := Prod.mk.inj (Option.some.inj h)
      exact .reclaimEnd
  all_goals obtain ⟨rfl, rfl⟩ := Prod.mk.inj (Option.some.inj h)
  case markHas => exact .markHas
  case deviceMark => exact .deviceMark
  case refreshIcdFlag => exact .refreshIcdFlag
  case sweep => exact .sweep
  case sweepDone => exact .sweepDone
  case freeSlot => exact .freeSlot
  case getSource => exact .getSource
  all_goals split
  case markNo.isTrue hr => exact .markNo hr
  case markNo.isFalse hr => exact .markNoOther (Bool.eq_false_iff.mpr hr)
  case terminated.isTrue hr => exact .terminated hr
  case terminated.isFalse hr => exact .terminatedOther (Bool.eq_false_iff.mpr hr)
  case retryUnlessIcd.isTrue hr => exact .retryIcd hr
  case retryUnlessIcd.isFalse hr => exact .retry (Bool.eq_false_iff.mpr hr)
  case checkinIfWanted.isTrue hr => exact .checkin hr
  case checkinIfWanted.isFalse hr => exact .checkinUnwanted hr
  case enqueue.isTrue hr => exact .enqueue hr
  case enqueue.isFalse hr => exact .enqueuePending (Bool.eq_false_iff.mpr hr)
  case sweepNode.isTrue hr => exact .sweepNode hr
  case sweepNode.isFalse hr => exact .sweepNodeSkip (Bool.eq_false_iff.mpr hr)
  case dropUnlessWanted.isTrue hr => exact .keepWanted hr
  case dropUnlessWanted.isFalse hr => exact .dropUnwanted hr
  case skipIfSubscribed.isTrue hr => exact .skipSubscribed hr
  case skipIfSubscribed.isFalse hr => exact .keepUnsubscribed (Bool.eq_false_iff.mpr hr)

end HomeEnergyManager.SubscriptionManager
