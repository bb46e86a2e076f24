import HomeEnergyManager.DayFiles.Undisturbed

/-! # Derived files are final

A reading waits in an accumulator, and then with the flush, before it reaches its file; a price
waits to be flushed. A derived file that is computed while nothing waits for what it is made from
goes on agreeing with it, if no price is stamped for its day before it is stored or after: readings
that arrive later belong to a later day. The midnight job does not wait for the flush, so a derived
file can be computed too early, and it is stored for good.
-/

namespace HomeEnergyManager.DayFiles

open NodePowerLogger

/-! ## The invariant -/

/-- The derived files agree, and so does what the tasks hold; and nothing waits for what they are
made from. -/
structure Inv (streams : List Stream) (s : System) : Prop where
  topology : snapshotStreams s.streams = streams
  time : 0 ≤ s.now ∧ s.now < 2 ^ 32
  agrees : ∀ k date, Derived.Agrees streams s.card date k
  right : ∀ task ∈ s.tasks, task.Right streams s.card
  quiet : ∀ k date, s.Fixed k date → s.Quiet k date

/-! ## What keeps the invariant -/

section

variable {streams : List Stream} {s s' : System}

theorem Finished.mono {now now' : ℤ} (h : now ≤ now') {date : DateStr} (hd : Finished now date) :
    Finished now' date := by
  obtain ⟨z, hz, hlt⟩ := hd
  exact ⟨z, hz, hlt.trans_le (localDay_mono h)⟩

/-- No reading of today is read for a day that is over. -/
theorem Finished.ne_today {now : ℤ} {date : DateStr} (h : Finished now date)
    (htoday : dayOf date = some (localDay now)) : False := by
  obtain ⟨z, hz, hlt⟩ := h
  obtain rfl := Option.some.inj ((Option.mem_def.mp hz).symm.trans htoday)
  exact lt_irrefl _ hlt

theorem System.Quiet.next {k : Derived} {date : DateStr} (h : s.Quiet k date)
    (hnow : s.now ≤ s'.now)
    (hwait : ∀ a ∈ s'.waiting, Succeeds s a ∨ dayOf a.date = some (localDay s.now))
    (hprices : k = .cost → date ∈ s'.waitingPrices → date ∈ s.waitingPrices) : s'.Quiet k date where
  finished := h.finished.mono hnow
  samples a ha hreads := by
    rintro rfl
    rcases hwait a ha with ⟨a', ha', hdate, hreads'⟩ | htoday
    · exact h.samples a' ha' (hreads' k hreads) hdate
    · exact h.finished.ne_today htoday
  prices hk hmem := h.prices hk (hprices hk hmem)

/-- A derived file that is not there agrees with anything. -/
theorem Derived.agrees_of_not_stored {c : Card} {date : DateStr} {k : Derived}
    (h : ¬ k.stored c date = true) : k.Agrees streams c date := by
  have hnone : ∀ {α : Type} {o : Option α}, ¬ o.isSome = true → ∀ a, a ∉ o := by
    rintro α o ho a rfl
    exact ho rfl
  cases k with
  | gridHourly | nodeHourly id | cost => exact fun a ha => absurd ha (hnone h a)
  | split => exact fun a ha => absurd ha (hnone h a)

/-- What every step does: the invariant goes on, and what a derived file is made from stays as it is
once the file is stored or about to be. -/
def Keeps (streams : List Stream) (s s' : System) : Prop :=
  Inv streams s' ∧ ∀ k date, s.Fixed k date → Derived.SameInputs s.card s'.card date k

/-- A step that computes and stores nothing, and writes no file that a derived one is made from. -/
theorem Inv.keeps_of_inputs (h : Inv streams s)
    (htopology : snapshotStreams s'.streams = snapshotStreams s.streams)
    (hnow : s.now ≤ s'.now ∧ s'.now < 2 ^ 32)
    (hwait : ∀ a ∈ s'.waiting, Succeeds s a ∨ dayOf a.date = some (localDay s.now))
    (hprices : ∀ date ∈ s'.waitingPrices, date ∈ s.waitingPrices ∨ ¬ s.Fixed .cost date)
    (hfiles : ∀ k date, Derived.SameFile s.card s'.card date k)
    (hstarts : ∀ p ∈ s.card.starts, p ∈ s'.card.starts)
    (hinputs : ∀ k date, s.Fixed k date → Derived.SameInputs s.card s'.card date k)
    (htasks : ∀ task ∈ s'.tasks, task ∈ s.tasks ∨ ∃ job, task = .running job) :
    Keeps streams s s' := by
  refine ⟨⟨htopology.trans h.topology, ⟨h.time.1.trans hnow.1, hnow.2⟩, fun k date => ?_,
    fun task hmem => ?_, fun k date hfixed => ?_⟩, hinputs⟩
  · by_cases hstored : k.stored s.card date = true
    · exact (h.agrees k date).congr (hfiles k date) (hinputs k date (Or.inl hstored)) hstarts
    · apply Derived.agrees_of_not_stored
      rwa [(hfiles k date).stored]
  · rcases htasks task hmem with hold | ⟨job, rfl⟩
    · cases task with
      | running job => trivial
      | storing t v rest =>
        exact Target.Right.congr (h.right _ hold)
          (fun k date hholds => hinputs k date (Or.inr ⟨_, hold, hholds⟩)) hstarts
    · trivial
  · have hold : s.Fixed k date := by
      rcases hfixed with hstored | ⟨task, hmem, hholds⟩
      · rw [(hfiles k date).stored] at hstored
        exact Or.inl hstored
      · rcases htasks task hmem with hold | ⟨job, rfl⟩
        · exact Or.inr ⟨task, hold, hholds⟩
        · exact hholds.elim
    refine (h.quiet k date hold).next hnow.1 hwait fun hk hmem => ?_
    subst hk
    exact (hprices date hmem).resolve_right fun hopen => hopen hold

/-- A step of a task that computes or stores: what it stores and what it holds then is quiet. -/
theorem Inv.keeps_of_stores (h : Inv streams s) {may : Derived → DateStr → Prop}
    (hstores : Stores streams may s.card s'.card)
    (hmay : ∀ k date, may k date → s.Quiet k date)
    (htasks : ∀ task ∈ s'.tasks, task ∈ s.tasks ∨
      task.Right streams s'.card ∧ ∀ k date, task.Holds k date → s.Quiet k date)
    (htopology : s'.streams = s.streams) (hnow : s'.now = s.now)
    (hwait : ∀ a ∈ s'.waiting, a ∈ s.waiting)
    (hprices : ∀ date ∈ s'.waitingPrices, date ∈ s.waitingPrices) :
    Keeps streams s s' := by
  have hsame : ∀ k date, Derived.SameInputs s.card s'.card date k :=
    fun k date => Derived.sameInputs_of_eq hstores.inputs date k
  refine ⟨⟨?_, ?_, fun k date => ?_, fun task hmem => ?_, fun k date hfixed => ?_⟩,
    fun k date _ => hsame k date⟩
  · rw [htopology]
    exact h.topology
  · rw [hnow]
    exact h.time
  · rcases hstores.files k date with hfile | ⟨-, hagrees⟩
    · exact (h.agrees k date).congr hfile (hsame k date) hstores.starts
    · exact hagrees
  · rcases htasks task hmem with hold | ⟨hright, -⟩
    · cases task with
      | running job => trivial
      | storing t v rest =>
        exact Target.Right.congr (h.right _ hold) (fun k date _ => hsame k date) hstores.starts
    · exact hright
  · have hquiet : s.Quiet k date := by
      rcases hfixed with hstored | ⟨task, hmem, hholds⟩
      · rcases hstores.files k date with hfile | ⟨hk, -⟩
        · rw [hfile.stored] at hstored
          exact h.quiet k date (Or.inl hstored)
        · exact hmay k date hk
      · rcases htasks task hmem with hold | ⟨-, hquiet⟩
        · exact h.quiet k date (Or.inr ⟨task, hold, hholds⟩)
        · exact hquiet k date hholds
    exact hquiet.next hnow.ge (fun a ha => Or.inl (succeeds_of_mem (hwait a ha)))
      fun _ hmem => hprices date hmem

/-- A task takes its next step. -/
theorem Inv.keeps_of_task (h : Inv streams s) {task task' : Progress} (hmem : task ∈ s.tasks)
    (hready : s.ComputesReady task) (hstep : task.step streams s.card = some (task', s'.card))
    (htasks : ∀ p ∈ s'.tasks, p ∈ s.tasks ∨ p = task') (htopology : s'.streams = s.streams)
    (hnow : s'.now = s.now) (hwait : ∀ a ∈ s'.waiting, a ∈ s.waiting)
    (hprices : ∀ date ∈ s'.waitingPrices, date ∈ s.waitingPrices) : Keeps streams s s' := by
  have hidle : (∃ job, task' = .running job) → ∀ p ∈ s'.tasks, p ∈ s.tasks ∨
      p.Right streams s'.card ∧ ∀ k date, p.Holds k date → s.Quiet k date := by
    rintro ⟨job, rfl⟩ p hp
    rcases htasks p hp with hold | rfl
    · exact Or.inl hold
    · exact Or.inr ⟨trivial, fun k date hholds => hholds.elim⟩
  cases task with
  | storing t v rest =>
    obtain ⟨htask', hcard⟩ := Prod.mk.inj (Option.some.inj hstep)
    have hstores : Stores streams (t.Holds v) s.card s'.card :=
      hcard ▸ store_stores (h.right _ hmem)
    exact h.keeps_of_stores hstores (fun k date hholds => h.quiet k date (Or.inr ⟨_, hmem, hholds⟩))
      (hidle ⟨rest, htask'.symm⟩) htopology hnow hwait hprices
  | running job =>
    cases job with
    | done => exact nomatch hstep
    | read next =>
      obtain ⟨htask', hcard⟩ := Prod.mk.inj (Option.some.inj hstep)
      have hstores : Stores streams (fun _ _ => False) s.card s'.card :=
        hcard ▸ ⟨rfl, fun _ hp => hp, fun k date => Or.inl (k.sameFile_refl _ _)⟩
      exact h.keeps_of_stores hstores (fun _ _ hk => hk.elim) (hidle ⟨_, htask'.symm⟩) htopology
        hnow hwait hprices
    | make t kept next =>
      have hnote : s'.card = t.note s.card := by
        rw [Progress.step] at hstep
        split at hstep <;> exact (Prod.mk.inj (Option.some.inj hstep)).2.symm
      have hstores : Stores streams (fun _ _ => False) s.card s'.card :=
        hnote ▸ ⟨t.note_toInputs s.card, fun _ hp => Target.mem_starts_note hp,
          fun k date => Or.inl (t.sameFile_note s.card k date)⟩
      refine h.keeps_of_stores hstores (fun _ _ hk => hk.elim) ?_ htopology hnow hwait hprices
      rw [Progress.step] at hstep
      split at hstep
      · rename_i v hv
        obtain ⟨htask', -⟩ := Prod.mk.inj (Option.some.inj hstep)
        cases kept with
        | false => exact hidle ⟨_, htask'.symm⟩
        -- the file is held from now on
        | true =>
          rintro p hp
          rcases htasks p hp with hold | rfl
          · exact Or.inl hold
          · rw [← htask', hnote]
            refine Or.inr ⟨Target.right_of_compute hv, fun k date hholds => ?_⟩
            exact (hready (derivable_of_compute hv)).quiet hv hholds
      · obtain ⟨htask', -⟩ := Prod.mk.inj (Option.some.inj hstep)
        exact hidle ⟨_, htask'.symm⟩

/-- An append changes nothing that is made from other files. -/
theorem append_sameInputs {a : Append} {k : Derived} {date : DateStr}
    (h : k.reads a = true → a.date ≠ date) (c : Card) : k.SameInputs c (a.run c) date := by
  have hday : ∀ (f : DateStr → Option (List PowerRecord)) v, a.date ≠ date →
      Function.update f a.date v date = f date :=
    fun f v hne => Function.update_of_ne hne.symm _ _
  -- the files of a node change on one day only
  have hnode : ∀ (f : String → DateStr → Option (List PowerRecord)) id v id', a.date ≠ date →
      Function.update f id (Function.update (f id) a.date v) id' date = f id' date := by
    intro f id v id' hne
    by_cases hid : id' = id
    · rw [hid, Function.update_self, hday _ _ hne]
    · rw [Function.update_of_ne hid]
  cases a with
  | grid record =>
    cases k with
    | gridHourly => exact hday _ _ (h rfl)
    | nodeHourly id => exact rfl
    | cost => exact ⟨hday _ _ (h rfl), fun _ => rfl, rfl, rfl⟩
    | split => exact ⟨hday _ _ (h rfl), fun _ => rfl, fun _ => rfl⟩
  | node id record =>
    cases k with
    | gridHourly => exact rfl
    | nodeHourly id' =>
      by_cases hid : id' = id
      · exact hnode _ _ _ _ (h (beq_iff_eq.mpr hid))
      · exact congrFun (Function.update_of_ne hid _ _) date
    | cost => exact ⟨rfl, fun id' => hnode _ _ _ _ (h rfl), rfl, rfl⟩
    | split => exact ⟨rfl, fun id' => hnode _ _ _ _ (h rfl), fun _ => rfl⟩
  | soc id record =>
    cases k with
    | gridHourly | nodeHourly id' => exact rfl
    | cost => exact ⟨rfl, fun _ => rfl, rfl, rfl⟩
    | split => exact ⟨rfl, fun _ => rfl, fun id' => hnode _ _ _ _ (h rfl)⟩

theorem append_sameFile (a : Append) (k : Derived) (c : Card) (date : DateStr) :
    k.SameFile c (a.run c) date := by
  cases a <;> cases k <;> rfl

/-! ## The steps -/

variable {len : TextLength}

theorem snapshotStreams_map {l : List SampledStream} {f : SampledStream → SampledStream}
    (h : ∀ s, (f s).toStream = s.toStream) : snapshotStreams (l.map f) = snapshotStreams l := by
  unfold snapshotStreams
  rw [List.map_map]
  exact List.map_congr_left fun s _ => h s

theorem toStream_drain (s : SampledStream) : s.drain.toStream = s.toStream := by
  unfold SampledStream.drain
  split <;> rfl

/-- A timer callback that derives nothing leaves the HTTP task where it is. -/
theorem tasks_of_job_eq_none (hhttp : s'.http = s.http) (hjob : s'.timer.job = none) :
    ∀ task ∈ s'.tasks, task ∈ s.tasks ∨ ∃ job, task = .running job := by
  intro task hmem
  rw [System.tasks, hhttp, hjob] at hmem
  exact Or.inl (List.mem_cons.mpr (Or.inl (List.mem_singleton.mp hmem)))

/-- A step that leaves the card and what waits alone. -/
theorem Inv.keeps_of_card_eq (h : Inv streams s)
    (htopology : snapshotStreams s'.streams = snapshotStreams s.streams)
    (hnow : s.now ≤ s'.now ∧ s'.now < 2 ^ 32)
    (hwait : ∀ a ∈ s'.waiting, Succeeds s a ∨ dayOf a.date = some (localDay s.now))
    (hprices : ∀ date ∈ s'.waitingPrices, date ∈ s.waitingPrices ∨ ¬ s.Fixed .cost date)
    (hcard : s'.card = s.card)
    (htasks : ∀ task ∈ s'.tasks, task ∈ s.tasks ∨ ∃ job, task = .running job) :
    Keeps streams s s' := by
  refine h.keeps_of_inputs htopology hnow hwait hprices (fun k date => ?_) (fun p hp => ?_)
    (fun k date _ => ?_) htasks
  · rw [hcard]
    exact k.sameFile_refl s.card date
  · rwa [hcard]
  · rw [hcard]
    exact Derived.sameInputs_of_eq rfl date k

theorem keeps_clock (h : Inv streams s) {now : ℤ} (hok : Undisturbed s (.clock now))
    (hstep : step len s (.clock now) = some s') : Keeps streams s s' := by
  obtain rfl := Option.some.inj hstep
  exact h.keeps_of_card_eq rfl hok (fun a ha => Or.inl (succeeds_of_mem ha))
    (fun _ hd => Or.inl hd) rfl fun _ hmem => Or.inl hmem

theorem keeps_sample (h : Inv streams s) {snap : List ValueCacheEntry}
    (hstep : step len s (.sample snap) = some s') : Keeps streams s s' := by
  rw [step] at hstep
  split at hstep
  · obtain rfl := Option.some.inj hstep
    refine h.keeps_of_card_eq (snapshotStreams_map fun stream => ?_) ⟨le_rfl, h.time.2⟩
      (fun a ha => ?_) (fun _ hd => Or.inl hd) rfl fun _ hmem => Or.inl hmem
    · exact (stream.sample_spec _ _).1
    · rcases waiting_sample ha with hold | hminute
      · exact Or.inl hold
      · rw [hminute, dateFromUnix_minuteStart h.time, dayOf_dateStr (dated_of_clock h.time)]
        exact Or.inr rfl
  · contradiction

theorem keeps_powerFlush (h : Inv streams s) (hstep : step len s .powerFlush = some s') :
    Keeps streams s s' := by
  rw [step] at hstep
  split at hstep
  · rename_i hfree
    obtain rfl := Option.some.inj hstep
    refine h.keeps_of_card_eq (snapshotStreams_map toStream_drain) ⟨le_rfl, h.time.2⟩
      (fun a ha => ?_) (fun date hd => ?_) rfl (tasks_of_job_eq_none rfl rfl)
    -- what the accumulators held is what the flush has to write
    · rw [System.waiting] at ha
      dsimp only at ha
      rw [flatMap_appends_eq_nil SampledStream.appends_drain, List.nil_append] at ha
      exact Or.inl (succeeds_of_mem (List.mem_append_left _ ha))
    · rw [System.waitingPrices, List.mem_append] at hd ⊢
      rcases hd with hd | hd
      · exact Or.inl (Or.inl hd)
      · exact absurd hd List.not_mem_nil
  · contradiction

theorem keeps_powerWrite (h : Inv streams s) (hstep : step len s .powerWrite = some s') :
    Keeps streams s s' := by
  rw [step] at hstep
  split at hstep
  · rename_i a todo htimer
    obtain rfl := Option.some.inj hstep
    have hmem : a ∈ s.waiting := by
      rw [System.waiting, htimer]
      exact List.mem_append_right _ List.mem_cons_self
    refine h.keeps_of_inputs rfl ⟨le_rfl, h.time.2⟩ (fun a' ha' => ?_) (fun date hd => ?_)
      (fun k date => append_sameFile a k s.card date) (fun p hp => ?_) (fun k date hfixed => ?_)
      (tasks_of_job_eq_none rfl rfl)
    · refine Or.inl (succeeds_of_mem ?_)
      rw [System.waiting, htimer]
      rcases List.mem_append.mp ha' with hstream | htodo
      · exact List.mem_append_left _ hstream
      · exact List.mem_append_right _ (List.mem_cons_of_mem _ htodo)
    · rw [System.waitingPrices, htimer]
      exact Or.inl hd
    · cases a <;> exact hp
    · exact append_sameInputs ((h.quiet k date hfixed).samples a hmem) s.card
  · contradiction

theorem keeps_refresh (h : Inv streams s) (hstep : step len s .refresh = some s') :
    Keeps streams s s' := by
  rw [step] at hstep
  split at hstep
  · rename_i htimer
    obtain rfl := Option.some.inj hstep
    refine h.keeps_of_card_eq (snapshotStreams_map fun _ => rfl) ⟨le_rfl, h.time.2⟩
      (fun a ha => ?_) (fun date hd => ?_) rfl (tasks_of_job_eq_none rfl rfl)
    · rw [System.waiting] at ha
      dsimp only at ha
      rw [flatMap_appends_eq_nil fun _ => rfl] at ha
      exact absurd ha List.not_mem_nil
    · rw [System.waitingPrices, htimer]
      exact Or.inl hd
  · contradiction

theorem keeps_midnight (h : Inv streams s) (hstep : step len s .midnight = some s') :
    Keeps streams s s' := by
  rw [step] at hstep
  split at hstep
  · obtain rfl := Option.some.inj hstep
    refine h.keeps_of_card_eq rfl ⟨le_rfl, h.time.2⟩ (fun a ha => ?_) (fun date hd => ?_) rfl
      (fun task hmem => ?_)
    · refine Or.inl (succeeds_of_mem (List.mem_append_left _ ?_))
      exact (List.mem_append.mp ha).resolve_right List.not_mem_nil
    · refine Or.inl (List.mem_append_left _ ?_)
      exact (List.mem_append.mp hd).resolve_right List.not_mem_nil
    · rcases List.mem_cons.mp hmem with rfl | hjob
      · exact Or.inl List.mem_cons_self
      · exact Or.inr ⟨_, List.mem_singleton.mp hjob⟩
  · contradiction

/-- What is left of the midnight job is all that the timer task has to do. -/
theorem ofMidnight_spec (task : Progress) :
    (TimerTask.ofMidnight task).appends = [] ∧ (TimerTask.ofMidnight task).tariffDates = [] ∧
      ∀ p ∈ (TimerTask.ofMidnight task).job, p = task := by
  unfold TimerTask.ofMidnight
  split
  · exact ⟨rfl, rfl, fun _ hp => nomatch hp⟩
  · exact ⟨rfl, rfl, fun _ hp => (Option.some.inj hp).symm⟩

theorem keeps_midnightNext (h : Inv streams s) (hok : Undisturbed s .midnightNext)
    (hstep : step len s .midnightNext = some s') : Keeps streams s s' := by
  rw [step] at hstep
  split at hstep
  · rename_i task htimer
    obtain ⟨⟨task', c'⟩, htask, rfl⟩ := Option.map_eq_some_iff.mp hstep
    obtain ⟨happends, hdates, hjob⟩ := ofMidnight_spec task'
    have hhead : task ∈ s.timer.job := by
      rw [htimer]
      rfl
    have hmem : task ∈ s.tasks := List.mem_cons_of_mem _ (Option.mem_toList.mpr hhead)
    obtain rfl := h.topology
    refine h.keeps_of_task hmem (hok task hhead) htask (fun p hp => ?_) rfl rfl (fun a ha => ?_)
      (fun d hd => ?_)
    · rcases List.mem_cons.mp hp with rfl | hp
      · exact Or.inl List.mem_cons_self
      · exact Or.inr (hjob p (Option.mem_toList.mp hp))
    · rw [System.waiting, happends, List.append_nil] at ha
      exact List.mem_append_left _ ha
    · rw [System.waitingPrices, hdates, List.append_nil] at hd
      exact List.mem_append_left _ hd
  · contradiction

theorem keeps_httpNext (h : Inv streams s) (hok : Undisturbed s .httpNext)
    (hstep : step len s .httpNext = some s') : Keeps streams s s' := by
  obtain ⟨⟨task', c'⟩, htask, rfl⟩ := Option.map_eq_some_iff.mp hstep
  obtain rfl := h.topology
  refine h.keeps_of_task List.mem_cons_self hok htask (fun p hp => ?_) rfl rfl (fun _ ha => ha)
    (fun _ hd => hd)
  rcases List.mem_cons.mp hp with rfl | hp
  · exact Or.inr rfl
  · exact Or.inl (List.mem_cons_of_mem _ hp)

theorem keeps_tariffReport (h : Inv streams s) {nodeId endpointId : ℕ} {r : Tariff.Report}
    (hstep : step len s (.tariffReport nodeId endpointId r) = some s') : Keeps streams s s' := by
  have hself : ∀ handler, Keeps streams s { s with tariffHandler := handler } := fun handler =>
    h.keeps_of_card_eq rfl ⟨le_rfl, h.time.2⟩ (fun a ha => Or.inl (succeeds_of_mem ha))
      (fun _ hd => Or.inl hd) rfl fun _ hmem => Or.inl hmem
  rw [step] at hstep
  split at hstep
  · split at hstep
    · obtain rfl := Option.some.inj hstep
      exact hself _
    · obtain rfl := Option.some.inj hstep
      exact hself s.tariffHandler
  · contradiction

theorem keeps_tariffStore (h : Inv streams s) (hstep : step len s .tariffStore = some s') :
    Keeps streams s s' := by
  rw [step] at hstep
  split at hstep
  · contradiction
  · obtain rfl := Option.some.inj hstep
    exact h.keeps_of_card_eq rfl ⟨le_rfl, h.time.2⟩ (fun a ha => Or.inl (succeeds_of_mem ha))
      (fun _ hd => Or.inl hd) rfl fun _ hmem => Or.inl hmem

theorem ofTariff_spec (todo : List (DateStr × TariffDay)) :
    (TimerTask.ofTariff todo).appends = [] ∧
      (TimerTask.ofTariff todo).tariffDates = todo.map (·.1) ∧
      (TimerTask.ofTariff todo).job = none := by
  cases todo <;> exact ⟨rfl, rfl, rfl⟩

theorem keeps_tariffFlush (h : Inv streams s) (hok : Undisturbed s .tariffFlush)
    (hstep : step len s .tariffFlush = some s') : Keeps streams s s' := by
  rw [step] at hstep
  split at hstep
  · obtain rfl := Option.some.inj hstep
    obtain ⟨happends, hdates, hjob⟩ := ofTariff_spec s.tariff.pending
    refine h.keeps_of_card_eq rfl ⟨le_rfl, h.time.2⟩ (fun a ha => ?_) (fun date hd => ?_) rfl
      (tasks_of_job_eq_none rfl hjob)
    · rw [System.waiting, happends, List.append_nil] at ha
      exact Or.inl (succeeds_of_mem (List.mem_append_left _ ha))
    · rw [System.waitingPrices, hdates] at hd
      rcases List.mem_append.mp hd with hprice | htariff
      · exact Or.inl (List.mem_append_left _ hprice)
      · obtain ⟨p, hp, rfl⟩ := List.mem_map.mp htariff
        exact Or.inr (hok p hp).not_fixed
  · contradiction

theorem keeps_tariffWrite (h : Inv streams s) (hstep : step len s .tariffWrite = some s') :
    Keeps streams s s' := by
  rw [step] at hstep
  split at hstep
  · rename_i date day todo htimer
    obtain rfl := Option.some.inj hstep
    obtain ⟨happends, hdates, hjob⟩ := ofTariff_spec todo
    have hmem : date ∈ s.waitingPrices := by
      rw [System.waitingPrices, htimer]
      exact List.mem_append_right _ List.mem_cons_self
    refine h.keeps_of_inputs rfl ⟨le_rfl, h.time.2⟩ (fun a ha => ?_) (fun d hd => ?_)
      (fun k d => by cases k <;> rfl) (fun _ hp => hp) (fun k d hfixed => ?_)
      (tasks_of_job_eq_none rfl hjob)
    · rw [System.waiting, happends, List.append_nil] at ha
      exact Or.inl (succeeds_of_mem (List.mem_append_left _ ha))
    · rw [System.waitingPrices, hdates] at hd
      rw [System.waitingPrices, htimer]
      rcases List.mem_append.mp hd with hprice | htariff
      · exact Or.inl (List.mem_append_left _ hprice)
      · exact Or.inl (List.mem_append_right _ (List.mem_cons_of_mem _ htariff))
    · cases k with
      | gridHourly | nodeHourly id => exact rfl
      | split => exact ⟨rfl, fun _ => rfl, fun _ => rfl⟩
      | cost =>
        have hne : d ≠ date := by
          rintro rfl
          exact (h.quiet .cost d hfixed).prices rfl hmem
        exact ⟨rfl, fun _ => rfl, Function.update_of_ne hne _ _, rfl⟩
  · contradiction

theorem keeps_price (h : Inv streams s) {e : Event} {pe : CommodityPrice.Event}
    (hok : Undisturbed s e) (hprice : e.price = some pe)
    (hstep : (e.price.bind (CommodityPrice.step s.priceView)).map s.setPrice = some s') :
    Keeps streams s s' := by
  rw [hprice, Option.bind_some] at hstep
  obtain ⟨p, hp, rfl⟩ := Option.map_eq_some_iff.mp hstep
  refine h.keeps_of_inputs rfl ⟨le_rfl, h.time.2⟩ (fun a ha => Or.inl (succeeds_of_mem ha))
    (fun date hd => ?_) (fun k date => by cases k <;> rfl) (fun _ hp => hp)
    (fun k date hfixed => ?_) (fun _ hmem => Or.inl hmem)
  · rcases List.mem_append.mp hd with hd | htariff
    · rcases priceDates_of_step hp hd with hold | ⟨rfl, hstamped⟩ | ⟨rfl, htoday⟩
      · exact Or.inl (List.mem_append_left _ hold)
      -- a report stamps days whose cost is open
      · cases e with
        | priceHandle => exact Or.inr (hok date hstamped).not_fixed
        | _ => exact nomatch hprice
      -- the tick stamps today, which has no cost yet
      · refine Or.inr fun hfixed => ?_
        apply (h.quiet .cost date hfixed).finished.ne_today
        rw [htoday]
        exact dayOf_dateStr (dated_of_clock h.time)
    · exact Or.inl (List.mem_append_right _ htariff)
  · cases k with
    | gridHourly | nodeHourly id => exact rfl
    | split => exact ⟨rfl, fun _ => rfl, fun _ => rfl⟩
    | cost =>
      refine ⟨rfl, fun _ => rfl, rfl, ?_⟩
      rcases files_of_step hp date with hsame | hwaits
      · exact hsame
      · exact absurd (List.mem_append_left _ hwaits) ((h.quiet .cost date hfixed).prices rfl)

/-- A query begins. -/
theorem keeps_query (h : Inv streams s) {e : Event}
    (hstep : (match s.http with
      | .running .done => (e.query s.now).map fun q => { s with http := .running (queryJob len q) }
      | _ => none) = some s') : Keeps streams s s' := by
  split at hstep
  · obtain ⟨q, -, rfl⟩ := Option.map_eq_some_iff.mp hstep
    refine h.keeps_of_card_eq rfl ⟨le_rfl, h.time.2⟩ (fun a ha => Or.inl (succeeds_of_mem ha))
      (fun _ hd => Or.inl hd) rfl fun task hmem => ?_
    rcases List.mem_cons.mp hmem with rfl | hjob
    · exact Or.inr ⟨_, rfl⟩
    · exact Or.inl (List.mem_cons_of_mem _ hjob)
  · contradiction

/-- Every step that is undisturbed keeps what is stored in agreement. -/
theorem keeps_step (h : Inv streams s) {e : Event} (hok : Undisturbed s e)
    (hstep : step len s e = some s') : Keeps streams s s' := by
  cases e with
  | clock now => exact keeps_clock h hok hstep
  | sample snap => exact keeps_sample h hstep
  | powerFlush => exact keeps_powerFlush h hstep
  | powerWrite => exact keeps_powerWrite h hstep
  | refresh => exact keeps_refresh h hstep
  | midnight => exact keeps_midnight h hstep
  | midnightNext => exact keeps_midnightNext h hok hstep
  | tariffReport nodeId endpointId r => exact keeps_tariffReport h hstep
  | tariffStore => exact keeps_tariffStore h hstep
  | tariffFlush => exact keeps_tariffFlush h hok hstep
  | tariffWrite => exact keeps_tariffWrite h hstep
  | priceTick | priceFlushSwap =>
    rw [step] at hstep
    split at hstep
    · exact keeps_price h hok rfl hstep
    · contradiction
  | priceReport _ _ _ | priceFromSource | priceHandle | priceFlushWrite _ =>
    exact keeps_price h hok rfl hstep
  | batterySource | dailyEnergy _ | mixTrace _ => exact keeps_query h hstep
  | httpNext => exact keeps_httpNext h hok hstep

end

/-! ## Every run -/

theorem inv_boot {now : ℤ} {streams : List SampledStream} {source : Option (ℕ × ℕ)} {c : Card}
    (hnow : 0 ≤ now ∧ now < 2 ^ 32)
    (hagrees : ∀ k date, Derived.Agrees (snapshotStreams streams) c date k)
    (hover : ∀ k date, Derived.stored c date k = true → Finished now date) :
    Inv (snapshotStreams streams) (System.boot now streams source c) where
  topology := snapshotStreams_map fun _ => rfl
  time := hnow
  agrees := hagrees
  right task hmem := by
    obtain rfl := List.mem_singleton.mp hmem
    trivial
  quiet k date hfixed := by
    refine ⟨?_, fun a ha => ?_, fun _ hmem => absurd hmem List.not_mem_nil⟩
    · rcases hfixed with hstored | ⟨task, hmem, hholds⟩
      · exact hover k date hstored
      · obtain rfl := List.mem_singleton.mp hmem
        exact hholds.elim
    · rw [System.waiting, System.boot] at ha
      dsimp only at ha
      rw [flatMap_appends_eq_nil fun _ => rfl] at ha
      exact absurd ha List.not_mem_nil

/-- In a run whose steps are all undisturbed, every derived file agrees at all times with the files
that it is made from, and none of these changes once it is stored. -/
theorem derived_files_final {len : TextLength} {now : ℤ} {streams : List SampledStream}
    {source : Option (ℕ × ℕ)} {c : Card} (hnow : 0 ≤ now ∧ now < 2 ^ 32)
    (hagrees : ∀ k date, Derived.Agrees (snapshotStreams streams) c date k)
    (hover : ∀ k date, Derived.stored c date k = true → Finished now date) {es : List Event}
    {s : System}
    (hmeets : StepSystem.Meets (step len) Undisturbed (System.boot now streams source c) es)
    (hrun : StepSystem.run (step len) (System.boot now streams source c) es = some s) :
    (∀ k date, Derived.Agrees (snapshotStreams streams) s.card date k) ∧
      ∀ e s', Undisturbed s e → step len s e = some s' →
        ∀ k date, Derived.stored s.card date k = true →
          Derived.SameInputs s.card s'.card date k := by
  have hinv : Inv (snapshotStreams streams) s :=
    StepSystem.inv_of_run (fun _ _ _ h hok hstep => (keeps_step h hok hstep).1)
      (inv_boot hnow hagrees hover) hmeets hrun
  exact ⟨hinv.agrees, fun e s' hok hstep k date hstored =>
    (keeps_step hinv hok hstep).2 k date (Or.inl hstored)⟩

/-! ## A midnight in time and one too early -/

def meteredStreams : List SampledStream :=
  [{ graphId := "grid_meter", role := .grid, nodeId := 1, endpointId := 1 },
    { graphId := "kettle", role := .load, nodeId := 2, endpointId := 1 }]

/-- Both streams report the same power. -/
def bothReport (mw : ℤ) : List ValueCacheEntry :=
  [{ valid := true, nodeId := 1, endpointId := 1, clusterId := EPM_CLUSTER_ID,
     attributeId := EPM_ACTIVE_POWER_ATTR, value := mw },
    { valid := true, nodeId := 2, endpointId := 1, clusterId := EPM_CLUSTER_ID,
      attributeId := EPM_ACTIVE_POWER_ATTR, value := mw }]

def emptyCard : Card :=
  { grid := fun _ => none
    node := fun _ _ => none
    soc := fun _ _ => none
    tariff := fun _ => none
    price := fun _ => none }

/-- A card with the prices of 2 January 2024. -/
def pricedCard : Card :=
  { emptyCard with
    price := Function.update (fun _ => none) (dateStr 19724)
      (some { hdr := ⟨826, 2, 0⟩, price := fun _ => 30 }) }

/-- A reading at 23:58:45 on 2 January 2024 reaches its files, then comes midnight, and a query
between whose steps the readings of the next minute are flushed. -/
def midnightInTime : List Event :=
  [.sample (bothReport 1000000), .powerFlush, .powerWrite, .powerWrite, .refresh,
    .clock 1704240000, .midnight] ++ List.replicate 12 .midnightNext ++
    [.sample (bothReport 2000000), .dailyEnergy 2, .httpNext, .powerFlush, .httpNext, .powerWrite,
      .httpNext, .powerWrite, .httpNext, .refresh] ++ List.replicate 4 .httpNext

/-- Between the two, a reading at 23:59:45 waits in the accumulators past midnight. -/
def midnightTooEarly : List Event :=
  [.sample (bothReport 1000000), .powerFlush, .powerWrite, .powerWrite, .refresh,
    .clock 1704239985, .sample (bothReport 3000000), .clock 1704240000, .midnight] ++
    List.replicate 11 .midnightNext ++ [.powerFlush, .powerWrite, .powerWrite]

/-- A card without derived files. -/
theorem agrees_of_no_stored {c : Card} (h : ∀ k date, Derived.stored c date k = false)
    (streams : List Stream) (k : Derived) (date : DateStr) : k.Agrees streams c date :=
  Derived.agrees_of_not_stored (by rw [h k date]; exact Bool.false_ne_true)

theorem stored_pricedCard (k : Derived) (date : DateStr) : k.stored pricedCard date = false := by
  cases k <;> rfl

theorem derived_files_final_midnightInTime :
    ∃ s, StepSystem.run (step shortTexts) (System.boot 1704239925 meteredStreams none pricedCard)
        midnightInTime = some s ∧
      (s.card.cost (dateStr 19724)).isSome = true ∧
      (s.card.split (dateStr 19724)).isSome = true ∧
      (∀ k date, Derived.Agrees (snapshotStreams meteredStreams) s.card date k) ∧
      ∀ e s', Undisturbed s e → step shortTexts s e = some s' →
        ∀ k date, Derived.stored s.card date k = true →
          Derived.SameInputs s.card s'.card date k := by
  have hrun : (StepSystem.run (step shortTexts)
      (System.boot 1704239925 meteredStreams none pricedCard) midnightInTime).map (fun s =>
        ((s.card.cost (dateStr 19724)).isSome, (s.card.split (dateStr 19724)).isSome))
      = some (true, true) := by decide +kernel
  obtain ⟨s, hs, hfiles⟩ := Option.map_eq_some_iff.mp hrun
  obtain ⟨hcost, hsplit⟩ := Prod.mk.inj hfiles
  refine ⟨s, hs, hcost, hsplit, derived_files_final (by decide)
    (fun k date => agrees_of_no_stored stored_pricedCard _ k date) (fun k date h => ?_)
    (by decide +kernel) hs⟩
  rw [stored_pricedCard] at h
  exact nomatch h

/-- The hourly file of 2 January has the reading of 23:58 only, for good. -/
theorem midnight_too_early :
    ∃ s, StepSystem.run (step shortTexts) (System.boot 1704239925 meteredStreams none emptyCard)
        midnightTooEarly = some s ∧
      s.card.gridHourly (dateStr 19724) = some [{ unixMinute := 1704236400, powerMw := 1000000 }] ∧
      (s.card.grid (dateStr 19724)).map rollup
        = some [{ unixMinute := 1704236400, powerMw := 2000000 }] ∧
      ¬ Derived.Agrees (snapshotStreams meteredStreams) s.card (dateStr 19724) .gridHourly := by
  have hrun : (StepSystem.run (step shortTexts)
      (System.boot 1704239925 meteredStreams none emptyCard)
      midnightTooEarly).map (fun s => (s.card.gridHourly (dateStr 19724),
        (s.card.grid (dateStr 19724)).map rollup))
      = some (some [{ unixMinute := 1704236400, powerMw := 1000000 }],
        some [{ unixMinute := 1704236400, powerMw := 2000000 }]) := by
    decide +kernel
  obtain ⟨s, hs, hfiles⟩ := Option.map_eq_some_iff.mp hrun
  obtain ⟨hhourly, hrollup⟩ := Prod.mk.inj hfiles
  refine ⟨s, hs, hhourly, hrollup, fun hagrees => ?_⟩
  have heq := hagrees _ hhourly
  rw [hrollup] at heq
  exact absurd heq (by decide)

end HomeEnergyManager.DayFiles
