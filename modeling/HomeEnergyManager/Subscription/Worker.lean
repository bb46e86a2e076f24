import HomeEnergyManager.Subscription.Effects

/-! # The worker's hand

Only the worker has an item in its hand, and the item is the last thing that it has to do: no slot
is reclaimed between the moment the worker claims a slot and the next request.
-/

namespace HomeEnergyManager.SubscriptionManager

/-- Actions that only the worker does: those with an item, and the release of an expired slot. -/
def Act.workerOnly : Act → Bool
  | .dropUnlessWanted _ | .skipIfSubscribed _ | .lockSlots _ | .reclaim _ _ _ | .takeSlot _
  | .freeSlot _ => true
  | _ => false

/-- An item is the last thing that the worker has to do. -/
def ItemLast : List Act → Prop
  | [] => True
  | a :: rest => (a.item.isSome → rest = []) ∧ ItemLast rest

theorem itemLast_append {l l' : List Act} (hl : ∀ a ∈ l, a.item = none) (hl' : ItemLast l') :
    ItemLast (l ++ l') := by
  induction l with
  | nil => exact hl'
  | cons a l ih =>
    rw [List.forall_mem_cons] at hl
    refine ⟨fun ha => ?_, ih hl.2⟩
    rw [hl.1] at ha
    exact absurd ha Bool.false_ne_true

theorem item_eq_none_of_workerOnly {a : Act} (h : a.workerOnly = false) : a.item = none := by
  cases a <;> first | rfl | exact nomatch h

/-- An action that any task may do leads to such actions only. -/
theorem exec_workerOnly {s s' : Shared} {ok : Bool} {a : Act} {new : List Act}
    (h : exec s ok a = some (s', new)) (ha : a.workerOnly = false) :
    ∀ b ∈ new, b.workerOnly = false := by
  cases does_of_exec h with
  | keepWanted | dropUnwanted | skipSubscribed | keepUnsubscribed | lockSlots | reclaimExpired
  | reclaimKeep | reclaimEnd | freeSlot | takeSlot | takeSlotLater => exact nomatch ha
  | _ => simp [Act.workerOnly]

/-- Only the worker's item leads to an item. -/
theorem exec_item {s s' : Shared} {ok : Bool} {a : Act} {new : List Act}
    (h : exec s ok a = some (s', new)) (ha : a.item = none) : ∀ b ∈ new, b.item = none := by
  cases hw : a.workerOnly with
  | false => exact fun b hb => item_eq_none_of_workerOnly (exec_workerOnly h hw b hb)
  | true =>
    cases a with
    | freeSlot i =>
      obtain ⟨-, rfl⟩ := Prod.mk.inj (Option.some.inj h)
      exact fun b hb => absurd hb List.not_mem_nil
    | dropUnlessWanted | skipIfSubscribed | lockSlots | reclaim | takeSlot => exact nomatch ha
    | _ => exact nomatch hw

/-- An item stays the last thing to do. -/
theorem exec_itemLast {s s' : Shared} {ok : Bool} {a : Act} {new : List Act}
    (h : exec s ok a = some (s', new)) (ha : a.item.isSome) : ItemLast new := by
  cases does_of_exec h with
  | keepWanted | dropUnwanted | skipSubscribed | keepUnsubscribed | lockSlots | reclaimExpired
  | reclaimKeep | reclaimEnd | takeSlot | takeSlotLater => simp [ItemLast, Act.item]
  | _ => exact nomatch ha

/-- What a callback starts with is nothing that only the worker does. -/
theorem workerOnly_of_requests {acts : List Act} (hrequests : requests acts = [])
    (hfree : ∀ i, .freeSlot i ∉ acts) : ∀ a ∈ acts, a.workerOnly = false := by
  intro a ha
  have hnone : a.request = none := by
    cases hr : a.request with
    | none => rfl
    | some n =>
      have hmem : n ∈ requests acts := List.mem_filterMap.mpr ⟨a, ha, hr⟩
      rw [hrequests] at hmem
      exact absurd hmem List.not_mem_nil
  cases a with
  | freeSlot i => exact absurd ha (hfree i)
  | dropUnlessWanted | skipIfSubscribed | lockSlots | reclaim | takeSlot => exact nomatch hnone
  | _ => rfl

theorem itemLast_of_workerOnly {acts : List Act} (h : ∀ a ∈ acts, a.workerOnly = false) :
    ItemLast acts := by
  have hnil : ItemLast [] := trivial
  have := itemLast_append (fun a ha => item_eq_none_of_workerOnly (h a ha)) hnil
  rwa [List.append_nil] at this

/-- What only the worker does is only with the worker, and its item comes last. -/
structure WorkerInv (s : State) : Prop where
  worker : ∀ t, t ≠ .worker → ∀ a ∈ s.acts t, a.workerOnly = false
  item : ItemLast (s.acts .worker)

/-- An item in the hand is in the worker's, which has nothing else to do. -/
theorem WorkerInv.head {s : State} (h : WorkerInv s) {t : Task} {a : Act} {rest : List Act}
    (hacts : s.acts t = a :: rest) (ha : a.item.isSome) : t = .worker ∧ rest = [] := by
  have ht : t = .worker := by
    by_contra ht
    have hw := h.worker t ht a (hacts ▸ List.mem_cons_self)
    rw [item_eq_none_of_workerOnly hw] at ha
    exact nomatch ha
  refine ⟨ht, ?_⟩
  have hlast := h.item
  rw [← ht, hacts] at hlast
  exact hlast.1 ha

theorem WorkerInv.of_acts_eq {s s' : State} (h : WorkerInv s) (hacts : s'.acts = s.acts) :
    WorkerInv s' := by
  refine ⟨?_, ?_⟩
  · rw [hacts]
    exact h.worker
  · rw [hacts]
    exact h.item

theorem WorkerInv.perform {s s' : State} {t : Task} {ok : Bool} {a : Act} {rest new : List Act}
    (h : WorkerInv s) (hacts : s.acts t = a :: rest)
    (hexec : exec s.toShared ok a = some (s'.toShared, new))
    (hacts' : s'.acts = Function.update s.acts t (new ++ rest)) : WorkerInv s' := by
  refine ⟨fun t' ht' b hb => ?_, ?_⟩
  · rcases mem_new_or_mem_acts hacts hacts' hb with ⟨rfl, hn⟩ | hr
    · exact exec_workerOnly hexec (h.worker t' ht' a (hacts ▸ List.mem_cons_self)) b hn
    · exact h.worker t' ht' b hr
  · rw [hacts']
    by_cases ht : t = .worker
    · subst ht
      have hlast := h.item
      rw [hacts] at hlast
      rw [Function.update_self]
      by_cases hitem : a.item.isSome
      · rw [hlast.1 hitem, List.append_nil]
        exact exec_itemLast hexec hitem
      · refine itemLast_append (exec_item hexec ?_) hlast.2
        cases hnone : a.item with
        | none => rfl
        | some n => rw [hnone] at hitem; exact absurd rfl hitem
    · rw [Function.update_of_ne (Ne.symm ht)]
      exact h.item

theorem WorkerInv.start {s s' : State} {t : Task} {acts : List Act} (h : WorkerInv s)
    (hacts' : s'.acts = Function.update s.acts t acts) (hstarts : Starts s t acts s'.queue) :
    WorkerInv s' := by
  generalize s'.queue = queue at hstarts
  refine ⟨fun t' ht' b hb => ?_, ?_⟩
  · rcases mem_start_or_mem_acts hacts' hb with ⟨rfl, hn⟩ | hr
    · cases hstarts with
      | callback hrequests hfree _ => exact workerOnly_of_requests hrequests hfree b hn
      | receive _ => exact absurd rfl ht'
    · exact h.worker t' ht' b hr
  · rw [hacts']
    by_cases ht : t = .worker
    · subst ht
      rw [Function.update_self]
      cases hstarts with
      | callback hrequests hfree _ =>
        exact itemLast_of_workerOnly (workerOnly_of_requests hrequests hfree)
      | receive _ => exact ⟨fun _ => rfl, trivial⟩
    · rw [Function.update_of_ne (Ne.symm ht)]
      exact h.item

theorem workerInv_boot (sensorEndpoints : List ℕ) (tariffSource : Option (ℕ × ℕ))
    (registeredIcds : List ℕ) (devices : ℕ → Option Bool) (tick : ℕ) :
    WorkerInv (.boot sensorEndpoints tariffSource registeredIcds devices tick) where
  worker t _ a ha := by
    cases t with
    | main =>
      obtain rfl := List.mem_singleton.mp ha
      rfl
    | chip | worker | http => exact absurd ha List.not_mem_nil
  item := trivial

end HomeEnergyManager.SubscriptionManager
