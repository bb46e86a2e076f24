import HomeEnergyManager.Subscription.Attempts
import HomeEnergyManager.Subscription.Live

/-! # The paths of the tariff source

`send_subscription` asks for the tariff clusters when the node is the tariff source at the moment
when it looks. A node that is assigned later, while the command is prepared, in flight or
established, is only enqueued, and the worker drops the request of a node that is subscribed
already, so its subscription keeps the paths that were laid out at that moment.
-/

namespace HomeEnergyManager.SubscriptionManager

inductive Cluster where
  | electricalPowerMeasurement
  | powerSource
  | commodityTariff
  | commodityPrice
deriving DecidableEq, Repr

inductive Attribute where
  | voltage
  | activeCurrent
  | activePower
  | batPercentRemaining
deriving DecidableEq, Repr

/-- `AttributePathParams`; an endpoint or attribute that is left out is a wildcard. -/
structure AttributePath where
  endpointId : Option ℕ := none
  clusterId : Cluster
  attributeId : Option Attribute := none
deriving DecidableEq, Repr

/-- `attr_paths` in `send_subscription`, with the tariff endpoint if the node is the source. -/
def attrPaths (tariffEndpoint : Option ℕ) : List AttributePath :=
  [{ clusterId := .electricalPowerMeasurement, attributeId := some .voltage },
    { clusterId := .electricalPowerMeasurement, attributeId := some .activeCurrent },
    { clusterId := .electricalPowerMeasurement, attributeId := some .activePower },
    { clusterId := .powerSource, attributeId := some .batPercentRemaining }] ++
  match tariffEndpoint with
  | some ep =>
    [{ endpointId := some ep, clusterId := .commodityTariff },
      { endpointId := some ep, clusterId := .commodityPrice }]
  | none => []

/-- The paths that an attempt was sent with. -/
def Attempt.attrPaths (a : Attempt) : List AttributePath :=
  SubscriptionManager.attrPaths a.tariffEndpoint

/-- A request for the node is queued, held by the worker or in flight. -/
def State.Requested (s : State) (n : ℕ) : Prop :=
  0 < s.waiting n ∨ ∃ a ∈ s.attempts, a.nodeId = n ∧ (a.phase = .claimed ∨ a.phase = .sent)

/-- The tariff source, once subscribed and asked for no more, has a live subscription that was sent
with the tariff paths of its endpoint. -/
def TariffSubscribed (t : Tracked) : Prop :=
  ∀ n ep, t.state.tariffSource = some (n, ep) → t.state.subscribed n = true →
    ¬ t.state.Requested n → ∃ k sid, t.live n = some (k, sid) ∧ ∃ a ∈ t.state.attempts[k]?,
      { endpointId := some ep, clusterId := .commodityTariff } ∈ a.attrPaths ∧
      { endpointId := some ep, clusterId := .commodityPrice } ∈ a.attrPaths

/-- The node that an action marks as subscribed. -/
def Act.marks : Act → Option ℕ
  | .markHas n _ => some n
  | _ => none

/-- The node and the tariff endpoint that an action is about to send for. -/
def Act.sendsFor : Act → Option (ℕ × Option ℕ)
  | .sendCommand n _ tariffEndpoint => some (n, tariffEndpoint)
  | _ => none

/-- The live subscription of the node is that of the attempt, or is about to be. -/
def Tracked.Holder (t : Tracked) (n k : ℕ) : Prop :=
  (t.live n).map Prod.fst = some k ∨ (k = t.current ∧ ∃ b ∈ t.state.acts .chip, b.marks = some n)

instance (t : Tracked) (n k : ℕ) : Decidable (t.Holder n k) :=
  inferInstanceAs (Decidable (_ ∨ _ ∧ ∃ b ∈ t.state.acts .chip, _))

/-- Each attempt of the node for which `send_subscription` has looked at the source, as long as it
holds the live subscription or may still come to, has the tariff paths of the endpoint: those that
were sent, and the one that is about to be. -/
structure Tracked.SentFor (t : Tracked) (n ep : ℕ) : Prop where
  sent : ∀ p ∈ t.state.attempts.zipIdx,
    (p.1.nodeId = n ∧ p.1.phase = .sent) ∨ t.Holder n p.2 → p.1.tariffEndpoint = some ep
  sending : ∀ b ∈ t.state.acts .chip, ∀ p ∈ b.sendsFor, p.1 = n → p.2 = some ep

instance (t : Tracked) (n ep : ℕ) : Decidable (t.SentFor n ep) :=
  decidable_of_iff
    ((∀ p ∈ t.state.attempts.zipIdx,
        (p.1.nodeId = n ∧ p.1.phase = .sent) ∨ t.Holder n p.2 → p.1.tariffEndpoint = some ep) ∧
      ∀ b ∈ t.state.acts .chip, ∀ p ∈ b.sendsFor, p.1 = n → p.2 = some ep)
    ⟨fun h => ⟨h.1, h.2⟩, fun h => ⟨h.sent, h.sending⟩⟩

/-- The condition on a step. The source becomes a node only while every attempt that holds its live
subscription, or may still come to, has the tariff paths of the new endpoint or has yet to look at
the source; and an attempt is established only before any other callback of it. -/
def StepSentFor (t : Tracked) : Label → Prop
  | .world _ tariffSource _ => ∀ p ∈ tariffSource, t.SentFor p.1 p.2
  | .established k _ => ∀ a ∈ t.state.attempts[k]?, a.phase = .sent
  | _ => True

instance (t : Tracked) : DecidablePred (StepSentFor t)
  | .world _ tariffSource _ =>
    inferInstanceAs (Decidable (∀ p ∈ tariffSource, t.SentFor p.1 p.2))
  | .established k _ => inferInstanceAs (Decidable (∀ a ∈ t.state.attempts[k]?, _))
  | .act _ _ | .advance _ | .deviceAdded _ | .deviceRemoved _ | .terminated _ _ | .failed _
  | .checkin _ | .interrogated _ | .runWork | .topologyChanged _ | .sweepDue | .receive =>
    isTrue trivial

theorem Tracked.SentFor.of_getElem? {t : Tracked} {n ep : ℕ}
    (hsent : ∀ k, ∀ a ∈ t.state.attempts[k]?,
      (a.nodeId = n ∧ a.phase = .sent) ∨ t.Holder n k → a.tariffEndpoint = some ep)
    (hsending : ∀ b ∈ t.state.acts .chip, ∀ p ∈ b.sendsFor, p.1 = n → p.2 = some ep) :
    t.SentFor n ep :=
  ⟨fun p hp => hsent p.2 p.1 (List.mem_zipIdx_iff_getElem?.mp hp), hsending⟩

theorem Tracked.SentFor.endpoint {t : Tracked} {n ep k : ℕ} (h : t.SentFor n ep) {a : Attempt}
    (ha : t.state.attempts[k]? = some a)
    (hcase : (a.nodeId = n ∧ a.phase = .sent) ∨ t.Holder n k) : a.tariffEndpoint = some ep :=
  h.sent (a, k) (List.mem_zipIdx_iff_getElem?.mpr ha) hcase

/-! ## What the actions do to the attempts -/

section Exec

variable {s s' : Shared} {ok : Bool} {a : Act} {new : List Act}

theorem exec_tariffSource (h : exec s ok a = some (s', new)) :
    s'.tariffSource = s.tariffSource := by
  cases does_of_exec h <;> rfl

/-- No action leads to a mark; only a callback starts with one. And only a look at the source leads
to a sending, with the endpoint that it has seen. -/
theorem exec_marks (h : exec s ok a = some (s', new)) :
    ∀ b ∈ new, b.marks = none ∧
      ∀ p ∈ b.sendsFor, (∃ k, a = .getSource p.1 k) ∧ p.2 = s.wantsTariff p.1 := by
  cases does_of_exec h with
  | sweep =>
    intro b hb
    obtain ⟨m, -, rfl⟩ := List.mem_map.mp hb
    exact ⟨rfl, nofun⟩
  | getSource =>
    intro b hb
    obtain rfl := List.mem_singleton.mp hb
    refine ⟨rfl, fun p hp => ?_⟩
    obtain rfl := Option.some.inj hp
    exact ⟨⟨_, rfl⟩, rfl⟩
  | _ => simp [Act.marks, Act.sendsFor]

/-- Only the CHIP task marks nodes as subscribed and sends. -/
def Act.chipOnly : Act → Bool
  | .markHas _ _ | .getSource _ _ | .sendCommand _ _ _ => true
  | _ => false

theorem exec_chipOnly (h : exec s ok a = some (s', new)) :
    ∀ b ∈ new, b.chipOnly = true → a.chipOnly = true := by
  cases does_of_exec h with
  | sweep =>
    intro b hb hchip
    obtain ⟨m, -, rfl⟩ := List.mem_map.mp hb
    exact nomatch hchip
  | getSource => exact fun _ _ _ => rfl
  | _ => simp [Act.chipOnly]

theorem chipOnly_of_marks {n : ℕ} (h : a.marks = some n) : a.chipOnly = true := by
  cases a with
  | markHas => rfl
  | _ => exact nomatch h

theorem getElem?_modify_eq_some {α : Type*} {l : List α} {f : α → α} {m k : ℕ} {x' : α}
    (h : (l.modify m f)[k]? = some x') :
    (k ≠ m ∧ l[k]? = some x') ∨ (k = m ∧ ∃ x, l[k]? = some x ∧ x' = f x) := by
  rw [List.getElem?_modify] at h
  obtain ⟨x, hx, rfl⟩ := Option.map_eq_some_iff.mp h
  by_cases hk : m = k
  · exact Or.inr ⟨hk.symm, x, hx, if_pos hk⟩
  · refine Or.inl ⟨Ne.symm hk, ?_⟩
    rw [hx, if_neg hk]

/-- An attempt that is in flight after an action was so before, with the same paths, or the action
has just sent it. -/
theorem exec_sent (h : exec s ok a = some (s', new)) {k : ℕ} {x' : Attempt}
    (hx' : s'.attempts[k]? = some x') (hsent : x'.phase = .sent) :
    s.attempts[k]? = some x' ∨
      ∃ n, a = .sendCommand n k x'.tariffEndpoint ∧ s'.attemptNode k = s.attemptNode k := by
  cases does_of_exec h with
  | takeSlot =>
    rw [List.getElem?_append] at hx'
    split at hx'
    · exact Or.inl hx'
    · rw [List.mem_singleton.mp (List.mem_of_getElem? hx')] at hsent
      exact nomatch hsent
  | scheduleFailed | sendCommandFailed =>
    rcases getElem?_modify_eq_some hx' with ⟨-, hx⟩ | ⟨-, x, -, rfl⟩
    · exact Or.inl hx
    · exact nomatch hsent
  | sendCommand =>
    rcases getElem?_modify_eq_some hx' with ⟨-, hx⟩ | ⟨rfl, x, -, rfl⟩
    · exact Or.inl hx
    · rcases exec_attemptNode h with heq | ⟨m, -, hnew, -⟩
      · exact Or.inr ⟨_, rfl, congrFun heq _⟩
      · exact nomatch hnew
  | _ => exact Or.inl hx'

/-- An attempt that was answered stays as it is. -/
theorem exec_answered {t : State} (hcarried : CarriedInv t) {task : Task} {rest : List Act}
    (hacts : t.acts task = a :: rest) (h : exec t.toShared ok a = some (s', new)) {k : ℕ}
    {x : Attempt} (hx : t.attempts[k]? = some x) (hanswered : x.phase = .answered) :
    s'.attempts[k]? = some x := by
  rcases exec_attempts h with ⟨hattempts, -⟩ | ⟨n, i, -, -, -, -, hattempts, -⟩ |
    ⟨m, f, hm, -, -, -, hattempts, -⟩
  · rw [hattempts, hx]
  · rw [hattempts, List.getElem?_append_left (List.getElem?_eq_some_iff.mp hx).1, hx]
  -- the attempt that the action carries is still claimed
  · have hk : m ≠ k := by
      rintro rfl
      obtain ⟨y, hy, hclaimed⟩ := hcarried.claimed m (carriedCount_pos hacts hm)
      obtain rfl := Option.some.inj (hy.symm.trans hx)
      rw [hanswered] at hclaimed
      exact nomatch hclaimed
    rw [hattempts, List.getElem?_modify_ne f t.attempts hk, hx]

end Exec

/-- The live subscription of a node is replaced only by the one of the callback that runs. -/
theorem track_attempt {a : Act} {current n k : ℕ} {live : ℕ → Option (ℕ × ℕ)}
    (h : (a.track current live n).map Prod.fst = some k) :
    (live n).map Prod.fst = some k ∨ (k = current ∧ a.marks = some n) := by
  cases a with
  | markHas m sid =>
    by_cases hm : n = m
    · subst hm
      rw [track_markHas_self] at h
      exact Or.inr ⟨(Option.some.inj h).symm, rfl⟩
    · rw [Act.track, Function.update_of_ne hm] at h
      exact Or.inl h
  | terminated m sid =>
    by_cases hm : n = m
    · subst hm
      rw [track_terminated_self] at h
      obtain ⟨x, hx, rfl⟩ := Option.map_eq_some_iff.mp h
      rw [(Option.filter_eq_some_iff.mp hx).1]
      exact Or.inl rfl
    · rw [Act.track, Function.update_of_ne hm] at h
      exact Or.inl h
  | _ => exact Or.inl h

/-! ## Every run -/

/-- The invariant: the attempts that hold a subscription are answered, and those that hold the
subscription of the tariff source, or may still come to, were sent for its endpoint. -/
structure PathsInv (t : Tracked) : Prop where
  known : KnownInv t.state
  carried : CarriedInv t.state
  only : OnlyLive t
  chip : ∀ task, ∀ b ∈ t.state.acts task, b.chipOnly = true → task = .chip
  holder : ∀ n k, t.Holder n k → ∃ a ∈ t.state.attempts[k]?, a.nodeId = n ∧ a.phase = .answered
  paths : ∀ n ep, t.state.tariffSource = some (n, ep) → t.SentFor n ep

section Step

variable {t t' : Tracked}

theorem PathsInv.perform (h : PathsInv t) {task : Task} {ok : Bool} {a : Act} {rest new : List Act}
    (hknown : KnownInv t'.state) (hcarried : CarriedInv t'.state) (honly : OnlyLive t')
    (hacts : t.state.acts task = a :: rest)
    (hexec : exec t.state.toShared ok a = some (t'.state.toShared, new))
    (hacts' : t'.state.acts = Function.update t.state.acts task (new ++ rest))
    (hcurrent : t'.current = t.current) (hlive : t'.live = a.track t.current t.live) :
    PathsInv t' := by
  have hhead : a ∈ t.state.acts task := hacts ▸ List.mem_cons_self
  -- who may hold the subscription now could hold it before the action
  have hold : ∀ n k, t'.Holder n k → t.Holder n k := by
    rintro n k (hk | ⟨rfl, b, hb, hmarks⟩)
    · rw [hlive] at hk
      rcases track_attempt hk with hk | ⟨rfl, hmarks⟩
      · exact Or.inl hk
      · obtain rfl := h.chip task a hhead (chipOnly_of_marks hmarks)
        exact Or.inr ⟨rfl, a, hhead, hmarks⟩
    · rcases mem_new_or_mem_acts hacts hacts' hb with ⟨-, hb⟩ | hb
      · rw [(exec_marks hexec b hb).1] at hmarks
        exact nomatch hmarks
      · exact Or.inr ⟨hcurrent, b, hb, hmarks⟩
  -- holders were answered, and no action touches an attempt that was
  have hstays : ∀ n k, t'.Holder n k → ∃ x, t.state.attempts[k]? = some x ∧
      t'.state.attempts[k]? = some x ∧ x.nodeId = n ∧ x.phase = .answered := by
    intro n k hk
    obtain ⟨x, hx, hn, hphase⟩ := h.holder n k (hold n k hk)
    exact ⟨x, hx, exec_answered h.carried hacts hexec hx hphase, hn, hphase⟩
  refine ⟨hknown, hcarried, honly, fun task' b hb hchip => ?_, fun n k hk => ?_,
    fun n ep hsource => ?_⟩
  · rcases mem_new_or_mem_acts hacts hacts' hb with ⟨rfl, hb⟩ | hb
    · exact h.chip _ a hhead (exec_chipOnly hexec b hb hchip)
    · exact h.chip task' b hb hchip
  · obtain ⟨x, -, hx', hn, hphase⟩ := hstays n k hk
    exact ⟨x, hx', hn, hphase⟩
  rw [exec_tariffSource hexec] at hsource
  have hpaths := h.paths n ep hsource
  refine .of_getElem? (fun k x' hx' hcase => ?_) fun b hb p hp hn => ?_
  · rcases hcase with ⟨hn, hsent⟩ | hk
    · rcases exec_sent hexec hx' hsent with hx | ⟨m, rfl, hnode⟩
      · exact hpaths.endpoint hx (Or.inl ⟨hn, hsent⟩)
      -- sent just now, with what was read of the source before
      · obtain rfl := h.chip task _ hhead rfl
        rw [h.known.sends .chip _ hhead (m, k) rfl, Shared.attemptNode, hx', Option.map_some,
          hn] at hnode
        exact hpaths.sending _ hhead _ rfl (Option.some.inj hnode).symm
    · obtain ⟨x, hx, hxx', -⟩ := hstays n k hk
      obtain rfl := Option.some.inj (hxx'.symm.trans hx')
      exact hpaths.endpoint hx (Or.inr (hold n k hk))
  · rcases mem_new_or_mem_acts hacts hacts' hb with ⟨-, hb⟩ | hb
    -- the source is read just now
    · rw [((exec_marks hexec b hb).2 p hp).2, Shared.wantsTariff, hsource]
      exact if_pos hn.symm
    · exact hpaths.sending b hb p hp hn

/-- A step that answers no attempt, marks no node and sends nothing. -/
theorem PathsInv.idle (h : PathsInv t) (hknown : KnownInv t'.state)
    (hcarried : CarriedInv t'.state) (honly : OnlyLive t')
    (hchip : ∀ task, ∀ b ∈ t'.state.acts task, b.chipOnly = true → task = .chip)
    (hacts : ∀ b ∈ t'.state.acts .chip, b ∈ t.state.acts .chip ∨ b.marks = none ∧ b.sendsFor = none)
    (hcurrent : t'.current = t.current) (hlive : t'.live = t.live)
    (hattempts : t'.state.attempts = t.state.attempts)
    (hsource : ∀ n ep, t'.state.tariffSource = some (n, ep) → t.SentFor n ep) : PathsInv t' := by
  have hold : ∀ n k, t'.Holder n k → t.Holder n k := by
    rintro n k (hk | ⟨rfl, b, hb, hn⟩)
    · exact Or.inl (hlive ▸ hk)
    · rcases hacts b hb with hb | ⟨hnone, -⟩
      · exact Or.inr ⟨hcurrent, b, hb, hn⟩
      · rw [hnone] at hn
        exact nomatch hn
  refine ⟨hknown, hcarried, honly, hchip, fun n k hk => ?_, fun n ep hep =>
    .of_getElem? (fun k x hx hcase => ?_) fun b hb p hp hn => ?_⟩
  · rw [hattempts]
    exact h.holder n k (hold n k hk)
  · rw [hattempts] at hx
    exact (hsource n ep hep).endpoint hx (hcase.imp id (hold n k))
  · rcases hacts b hb with hb | ⟨-, hnone⟩
    · exact (hsource n ep hep).sending b hb p hp hn
    · rw [hnone] at hp
      exact nomatch hp

/-- A task starts on something that marks no node and does not send yet. -/
theorem PathsInv.start (h : PathsInv t) {task : Task} {acts : List Act}
    (hknown : KnownInv t'.state) (hcarried : CarriedInv t'.state) (honly : OnlyLive t')
    (hacts' : t'.state.acts = Function.update t.state.acts task acts)
    (hchip : ∀ b ∈ acts, b.chipOnly = true → task = .chip)
    (hplain : ∀ b ∈ acts, b.marks = none ∧ b.sendsFor = none) (hcurrent : t'.current = t.current)
    (hlive : t'.live = t.live) (hattempts : t'.state.attempts = t.state.attempts)
    (hsource : t'.state.tariffSource = t.state.tariffSource) : PathsInv t' := by
  refine h.idle hknown hcarried honly (fun task' b hb hb' => ?_) (fun b hb => ?_) hcurrent hlive
    hattempts fun n ep hep => h.paths n ep (hsource ▸ hep)
  · rcases mem_start_or_mem_acts hacts' hb with ⟨rfl, hb⟩ | hb
    · exact hchip b hb hb'
    · exact h.chip task' b hb hb'
  · rcases mem_start_or_mem_acts hacts' hb with ⟨-, hb⟩ | hb
    · exact Or.inr (hplain b hb)
    · exact Or.inl hb

/-- A callback answers its attempt; one that marks the node is the first of the attempt. -/
theorem PathsInv.callback (h : PathsInv t) {k n : ℕ} {s : State} {acts : List Act}
    (hknown : KnownInv t'.state) (hcarried : CarriedInv t'.state) (honly : OnlyLive t')
    (hanswer : t.state.answer k = some (n, s)) (hstart : s.start .chip acts = some t'.state)
    (hmarks : ∀ b ∈ acts, ∀ m, b.marks = some m →
      m = n ∧ ∀ a ∈ t.state.attempts[k]?, a.phase = .sent)
    (hsends : ∀ b ∈ acts, b.sendsFor = none) (hcurrent : t'.current = k)
    (hlive : t'.live = t.live) : PathsInv t' := by
  obtain ⟨a, ha, rfl, hphase, rfl⟩ := answer_cases hanswer
  obtain ⟨hidle, heq⟩ := start_cases hstart
  have hacts' : t'.state.acts = Function.update t.state.acts .chip acts := by rw [heq]
  have hattempts : t'.state.attempts = t.state.attempts.modify k fun x =>
      { x with phase := .answered } := by rw [heq]; rfl
  have hsource : t'.state.tariffSource = t.state.tariffSource := by rw [heq]; rfl
  have hthis : t'.state.attempts[k]? = some { a with phase := .answered } := by
    rw [hattempts, List.getElem?_modify_eq, ha]
    rfl
  have hold : ∀ m j, t'.Holder m j →
      t.Holder m j ∨ (j = k ∧ m = a.nodeId ∧ a.phase = .sent) := by
    rintro m j (hj | ⟨hj, b, hb, hm⟩)
    · exact Or.inl (Or.inl (hlive ▸ hj))
    · rw [hacts', Function.update_self] at hb
      obtain ⟨hma, hsent⟩ := hmarks b hb m hm
      exact Or.inr ⟨hj.trans hcurrent, hma, hsent a ha⟩
  refine ⟨hknown, hcarried, honly, fun task b hb hchip => ?_, fun m j hj => ?_,
    fun m ep hep => .of_getElem? (fun j x' hx' hcase => ?_) fun b hb p hp hm => ?_⟩
  · rcases mem_start_or_mem_acts hacts' hb with ⟨htask, -⟩ | hb
    · exact htask
    · exact h.chip task b hb hchip
  · rcases hold m j hj with hj | ⟨rfl, rfl, -⟩
    · obtain ⟨x, hx, hm, hanswered⟩ := h.holder m j hj
      by_cases hjk : j = k
      · subst hjk
        obtain rfl := Option.some.inj (ha.symm.trans hx)
        exact ⟨_, hthis, hm, rfl⟩
      · refine ⟨x, ?_, hm, hanswered⟩
        rw [hattempts, List.getElem?_modify_ne _ _ (Ne.symm hjk)]
        exact hx
    · exact ⟨_, hthis, rfl, rfl⟩
  · have hpaths := h.paths m ep (hsource ▸ hep)
    rw [hattempts] at hx'
    rcases getElem?_modify_eq_some hx' with ⟨hjk, hx⟩ | ⟨rfl, x, hx, rfl⟩
    · refine hpaths.endpoint hx (hcase.imp id fun hj => ?_)
      exact (hold m j hj).resolve_right fun hnew => hjk hnew.1
    -- in flight until this callback, or a holder already
    · rcases hcase with ⟨-, hsent⟩ | hj
      · exact nomatch hsent
      · obtain rfl := Option.some.inj (ha.symm.trans hx)
        rcases hold m j hj with hj | ⟨-, rfl, hsent⟩
        · exact hpaths.endpoint (a := a) hx (Or.inr hj)
        · exact hpaths.endpoint (a := a) hx (Or.inl ⟨rfl, hsent⟩)
  -- the callback starts on an idle task and sends nothing
  · rw [hacts', Function.update_self] at hb
    rw [hsends b hb] at hp
    exact nomatch hp

theorem pathsInv_step (t : Tracked) (l : Label) (t' : Tracked) (h : PathsInv t)
    (hok : StepSentFor t l) (hstep : trackedStep t l = some t') : PathsInv t' := by
  have honly := onlyLive_step h.only h.known hstep
  obtain ⟨hs, hcurrent, hlive⟩ := trackedStep_cases hstep
  have hknown := knownInv_step _ l _ h.known hs
  have hcarried := carriedInv_step _ l _ h.carried hs
  have hsame : ∀ n ep, t.state.tariffSource = some (n, ep) → t.SentFor n ep := h.paths
  cases l with
  | act task ok =>
    obtain ⟨a, rest, new, hacts, hexec, hacts'⟩ := perform_cases hs
    simp only [Tracked.liveAfter, hacts] at hlive
    exact h.perform hknown hcarried honly hacts hexec hacts' hcurrent hlive
  | advance | deviceAdded | deviceRemoved =>
    have heq := Option.some.inj hs
    refine h.idle hknown hcarried honly (fun task b hb hb' => ?_) (fun b hb => Or.inl ?_) hcurrent
      hlive ?_ ?_
    · rw [← heq] at hb
      exact h.chip task b hb hb'
    all_goals rw [← heq] at *
    all_goals assumption
  | world sensorEndpoints tariffSource registeredIcds =>
    have heq := Option.some.inj hs
    refine h.idle hknown hcarried honly (fun task b hb hb' => ?_) (fun b hb => Or.inl ?_) hcurrent
      hlive ?_ ?_
    · rw [← heq] at hb
      exact h.chip task b hb hb'
    · rw [← heq] at hb
      exact hb
    · rw [← heq]
    · intro n ep hsource
      rw [← heq] at hsource
      exact hok (n, ep) hsource
  | established k sid =>
    simp only [step] at hs
    split at hs
    · rename_i n s₁ hanswer
      refine h.callback hknown hcarried honly hanswer hs (fun b hb m hm => ?_)
        (by simp [Act.sendsFor]) hcurrent hlive
      simp only [List.mem_cons, List.not_mem_nil, or_false] at hb
      rcases hb with rfl | rfl
      · exact ⟨(Option.some.inj hm).symm, hok⟩
      · contradiction
    · contradiction
  | terminated k sid | failed k =>
    simp only [step] at hs
    split at hs
    · rename_i n s₁ hanswer
      exact h.callback hknown hcarried honly hanswer hs (by simp [Act.marks])
        (by simp [Act.sendsFor]) hcurrent hlive
    · contradiction
  | checkin n | interrogated n | topologyChanged n =>
    obtain ⟨-, heq⟩ := start_cases hs
    exact h.start hknown hcarried honly (by rw [heq]) (by simp [Act.chipOnly])
      (by simp [Act.marks, Act.sendsFor]) hcurrent hlive (by rw [heq]) (by rw [heq])
  | sweepDue =>
    simp only [step] at hs
    split at hs
    · obtain ⟨-, heq⟩ := start_cases hs
      exact h.start hknown hcarried honly (by rw [heq]) (by simp [Act.chipOnly])
        (by simp [Act.marks, Act.sendsFor]) hcurrent hlive (by rw [heq]) (by rw [heq])
    · contradiction
  | runWork | receive =>
    simp only [step] at hs
    split at hs
    · obtain ⟨-, heq⟩ := start_cases hs
      exact h.start hknown hcarried honly (by rw [heq]) (by simp [Act.chipOnly])
        (by simp [Act.marks, Act.sendsFor]) hcurrent hlive (by rw [heq]) (by rw [heq])
    · contradiction

end Step

theorem pathsInv_boot (sensorEndpoints : List ℕ) (tariffSource : Option (ℕ × ℕ))
    (registeredIcds : List ℕ) (devices : ℕ → Option Bool) (tick : ℕ) :
    PathsInv (.boot sensorEndpoints tariffSource registeredIcds devices tick) where
  known := knownInv_boot sensorEndpoints tariffSource registeredIcds devices tick
  carried := carriedInv_boot sensorEndpoints tariffSource registeredIcds devices tick
  only := onlyLive_boot sensorEndpoints tariffSource registeredIcds devices tick
  chip task b hb hchip := by
    cases task with
    | main =>
      obtain rfl := List.mem_singleton.mp hb
      exact nomatch hchip
    | chip | worker | http => exact absurd hb List.not_mem_nil
  holder n k hk := by
    rcases hk with hk | ⟨-, b, hb, -⟩
    · exact nomatch hk
    · exact absurd hb List.not_mem_nil
  paths _ _ _ := ⟨fun _ hp => absurd hp List.not_mem_nil, fun _ hb => absurd hb List.not_mem_nil⟩

/-- What holds the subscription of the source was sent with the tariff paths of its endpoint. -/
theorem PathsInv.tariffSubscribed {t : Tracked} (h : PathsInv t) : TariffSubscribed t := by
  intro n ep hsource hsub _
  obtain ⟨k, sid, hk, -⟩ := h.only n hsub
  have hholder : t.Holder n k := Or.inl (by rw [hk, Option.map_some])
  obtain ⟨a, ha, -, -⟩ := h.holder n k hholder
  have hep := (h.paths n ep hsource).endpoint ha (Or.inr hholder)
  refine ⟨k, sid, hk, a, ha, ?_⟩
  rw [Attempt.attrPaths, hep]
  simp [attrPaths]

/-- The tariff source is assigned to a node that was not known before, and its subscription is
established. -/
def assignedRun : List Label :=
  [.act .main true, .world [] (some (10000, 3)) [], .topologyChanged 10000] ++ acts .http 2
    ++ [.receive] ++ acts .worker 10 ++ [.runWork] ++ acts .chip 3
    ++ [.established 0 7] ++ acts .chip 3

/-- A metered node that is subscribed already is assigned as the tariff source; the worker drops the
request of `on_topology_changed`. -/
def assignedLateRun : List Label :=
  subscribeRun ++ [.world [10000] (some (10000, 3)) [], .topologyChanged 10000] ++ acts .http 2
    ++ [.receive] ++ acts .worker 2

end HomeEnergyManager.SubscriptionManager
