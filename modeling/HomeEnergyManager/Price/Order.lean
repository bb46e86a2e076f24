import Mathlib.Data.Finset.Max
import HomeEnergyManager.Lib.LastWrite
import HomeEnergyManager.Price.Stamp

/-! # Prices in any order

Events are replayed when a subscription is set up again and may arrive before or after the
attribute. The price in force does not depend on the order: the latest start wins. A slot takes the
price that is processed last of those that cover it, so the order shows wherever two of them differ.
-/

namespace HomeEnergyManager.CommodityPrice

/-- `apply_price` on one report after the other, all at the same time. -/
def applyPrices (now : ℤ) (ps : List CommodityPriceStruct) (s : State) : State :=
  ps.foldl (fun s p => applyPrice now (some p) s) s

@[simp] theorem applyPrices_cons (now : ℤ) (p : CommodityPriceStruct)
    (ps : List CommodityPriceStruct) (s : State) :
    applyPrices now (p :: ps) s = applyPrices now ps (applyPrice now (some p) s) := rfl

theorem applyPrices_append_singleton (now : ℤ) (p : CommodityPriceStruct)
    (ps : List CommodityPriceStruct) (s : State) :
    applyPrices now (ps ++ [p]) s = applyPrice now (some p) (applyPrices now ps s) := by
  rw [applyPrices, List.foldl_append]
  rfl

/-- A report with a price is decoded to a valid price. -/
theorem decodePrice_of_isSome {p : CommodityPriceStruct} (hp : p.price.isSome) :
    (decodePrice (some p)).valid = true ∧
      (decodePrice (some p)).start = p.periodStart + kChipEpochSecondsSinceUnixEpoch ∧
      p.price = some (decodePrice (some p)).price := by
  obtain ⟨periodStart, periodEnd, price⟩ := p
  obtain ⟨x, rfl⟩ := Option.isSome_iff_exists.mp hp
  exact ⟨rfl, rfl, rfl⟩

/-! ## The price in force -/

/-- Once the latest price `p` is in force it stays, and it comes into force when its turn comes. -/
theorem applyPrices_current (now : ℤ) {p : CommodityPriceStruct} (hp : p.price.isSome)
    (qs : List CommodityPriceStruct) (s : State)
    (hqs : ∀ q ∈ qs, q.price.isSome ∧ (q.periodStart < p.periodStart ∨ q = p))
    (hs : s.current = decodePrice (some p) ∨
      p ∈ qs ∧ (s.current.valid = true → s.current.start ≤ (decodePrice (some p)).start)) :
    (applyPrices now qs s).current = decodePrice (some p) := by
  induction qs generalizing s with
  | nil =>
    rcases hs with hs | ⟨hmem, -⟩
    · exact hs
    · exact absurd hmem List.not_mem_nil
  | cons q qs ih =>
    rw [List.forall_mem_cons] at hqs
    obtain ⟨hvalid, hstart, -⟩ := decodePrice_of_isSome hp
    obtain ⟨hqvalid, hqstart, -⟩ := decodePrice_of_isSome hqs.1.1
    rw [applyPrices_cons]
    apply ih _ hqs.2
    by_cases hqp : q = p
    -- the turn of `p`
    · left
      have hlate : (!s.current.valid || !(decodePrice (some p)).valid
          || decide (s.current.start ≤ (decodePrice (some p)).start)) = true := by
        rcases hs with hs | ⟨-, hle⟩
        · rw [hs]
          simp
        · cases hv : s.current.valid with
          | false => rfl
          | true => simp [hle hv]
      rw [hqp]
      exact if_pos hlate
    · have hlt : (decodePrice (some q)).start < (decodePrice (some p)).start := by
        have := hqs.1.2.resolve_right hqp
        omega
      rcases hs with hs | ⟨hmem, hle⟩
      -- `q` is older than the price in force
      · left
        rw [applyPrice, hs]
        apply if_neg
        rw [hvalid, hqvalid]
        simpa using hlt
      · right
        refine ⟨(List.mem_cons.mp hmem).resolve_left fun h => hqp h.symm, fun _ => ?_⟩
        rw [applyPrice]
        dsimp only
        split
        · exact hlt.le
        · rename_i hkeep
          apply hle
          cases hv : s.current.valid with
          | true => rfl
          | false => exact absurd (by simp [hv]) hkeep

/-! ## The price of a slot -/

/-- The slots are cells, and the reports their writers. -/
theorem pendingSlot_applyPrices (now : ℤ) (ps : List CommodityPriceStruct) (s : State)
    (k : DateStr × Fin TARIFF_SLOTS) :
    pendingSlot (applyPrices now ps s).pending k
      = LastWrite.cell (fun p => Covers now k (decodePrice (some p)))
          (fun p => (decodePrice (some p)).price) ps (pendingSlot s.pending k) := by
  induction ps generalizing s with
  | nil => rfl
  | cons p ps ih =>
    rw [applyPrices_cons, ih, LastWrite.cell_cons, applyPrice]
    dsimp only
    rw [pendingSlot_stampPeriod]

/-- What is left of a set of prices processed in any order: the latest start is in force, each slot
has the price of the latest-starting period that covers it, and a redelivery changes nothing. -/
structure OrderFree (now : ℤ) (ps : List CommodityPriceStruct) (s s' : State) : Prop where
  current : ∀ p ∈ ps, (∀ q ∈ ps, q.periodStart ≤ p.periodStart) →
    s'.current = decodePrice (some p)
  covered : ∀ k, ∀ p ∈ ps, Covers now k (decodePrice (some p)) →
    (∀ q ∈ ps, Covers now k (decodePrice (some q)) → q.periodStart ≤ p.periodStart) →
    pendingSlot s'.pending k = (decodePrice (some p)).price
  uncovered : ∀ k, (∀ p ∈ ps, ¬ Covers now k (decodePrice (some p))) →
    pendingSlot s'.pending k = pendingSlot s.pending k
  redelivery : ∀ p ∈ ps, (applyPrice now (some p) s').current = s'.current ∧
    ∀ k, pendingSlot (applyPrice now (some p) s').pending k = pendingSlot s'.pending k

/-- A latest element of a nonempty set of reports. -/
theorem exists_latest {P : CommodityPriceStruct → Prop} {ps : List CommodityPriceStruct}
    (h : ∃ p ∈ ps, P p) : ∃ p ∈ ps, P p ∧ ∀ q ∈ ps, P q → q.periodStart ≤ p.periodStart := by
  classical
  obtain ⟨p, hp, hP⟩ := h
  obtain ⟨m, hm, hmax⟩ := (ps.toFinset.filter P).exists_max_image (·.periodStart)
    ⟨p, Finset.mem_filter.mpr ⟨List.mem_toFinset.mpr hp, hP⟩⟩
  rw [Finset.mem_filter, List.mem_toFinset] at hm
  exact ⟨m, hm.1, hm.2, fun q hq hPq =>
    hmax q (Finset.mem_filter.mpr ⟨List.mem_toFinset.mpr hq, hPq⟩)⟩

/-- Two prices decode to the same price exactly when they carry the same one. -/
theorem decodePrice_price_inj {p q : CommodityPriceStruct} (hp : p.price.isSome)
    (hq : q.price.isSome) :
    (decodePrice (some p)).price = (decodePrice (some q)).price ↔ p.price = q.price := by
  rw [(decodePrice_of_isSome hp).2.2, (decodePrice_of_isSome hq).2.2]
  exact Option.some_inj.symm

section Latest

variable {now : ℤ} {ps : List CommodityPriceStruct} {s : State}

/-- The latest of the prices is in force after any sequence of them that it occurs in. -/
theorem applyPrices_current_of_latest (hprice : ∀ p ∈ ps, p.price.isSome)
    (hdistinct : (ps.map (·.periodStart)).Nodup)
    (hs : s.current.valid = true →
      ∃ p ∈ ps, s.current.start ≤ p.periodStart + kChipEpochSecondsSinceUnixEpoch)
    {p : CommodityPriceStruct} (hp : p ∈ ps) (hmax : ∀ q ∈ ps, q.periodStart ≤ p.periodStart)
    {rs : List CommodityPriceStruct} (hrs : ∀ r ∈ rs, r ∈ ps) (hmem : p ∈ rs) :
    (applyPrices now rs s).current = decodePrice (some p) := by
  refine applyPrices_current now (hprice p hp) rs s (fun r hr => ⟨hprice r (hrs r hr), ?_⟩)
    (Or.inr ⟨hmem, fun hv => ?_⟩)
  · rcases (hmax r (hrs r hr)).lt_or_eq with hlt | heq
    · exact Or.inl hlt
    · exact Or.inr (List.inj_on_of_nodup_map hdistinct (hrs r hr) hp heq)
  · obtain ⟨q, hq, hle⟩ := hs hv
    rw [(decodePrice_of_isSome (hprice p hp)).2.1]
    have := hmax q hq
    omega

/-- While the prices that cover a slot agree, it holds their price after any order of them. -/
theorem pendingSlot_of_agree (hprice : ∀ p ∈ ps, p.price.isSome)
    (hagree : ∀ p ∈ ps, ∀ q ∈ ps, ∀ k, Covers now k (decodePrice (some p)) →
      Covers now k (decodePrice (some q)) → p.price = q.price)
    {qs : List CommodityPriceStruct} (hqs : qs.Perm ps) {k : DateStr × Fin TARIFF_SLOTS}
    {p : CommodityPriceStruct}
    (hp : p ∈ ps) (hpk : Covers now k (decodePrice (some p))) :
    pendingSlot (applyPrices now qs s).pending k = (decodePrice (some p)).price := by
  rw [pendingSlot_applyPrices]
  refine LastWrite.cell_of_agree_of_mem (fun q hq hqk => ?_) ⟨p, hqs.mem_iff.mpr hp, hpk⟩ _
  have hq' := hqs.mem_iff.mp hq
  rw [decodePrice_price_inj (hprice q hq') (hprice p hp)]
  exact hagree q hq' p hp k hqk hpk

end Latest

/-- Prices with distinct starts commute exactly when those that cover a common slot are equal. The
price in force before is none, or no later than all of them. -/
theorem prices_commute_iff (now : ℤ) (ps : List CommodityPriceStruct) (s : State)
    (hprice : ∀ p ∈ ps, p.price.isSome) (hdistinct : (ps.map (·.periodStart)).Nodup)
    (hs : s.current.valid = true →
      ∃ p ∈ ps, s.current.start ≤ p.periodStart + kChipEpochSecondsSinceUnixEpoch) :
    (∀ qs, qs.Perm ps → OrderFree now ps s (applyPrices now qs s)) ↔
      ∀ p ∈ ps, ∀ q ∈ ps, ∀ k, Covers now k (decodePrice (some p)) →
        Covers now k (decodePrice (some q)) → p.price = q.price := by
  constructor
  · intro h p hp q hq k hpk hqk
    obtain ⟨m, hm, hmk, hmax⟩ :=
      exists_latest (P := fun p => Covers now k (decodePrice (some p))) ⟨p, hp, hpk⟩
    -- each order leaves the slot at the price of the latest that covers it
    have hlatest : ∀ qs, qs.Perm ps →
        LastWrite.cell (fun p => Covers now k (decodePrice (some p)))
          (fun p => (decodePrice (some p)).price) qs (pendingSlot s.pending k)
            = (decodePrice (some m)).price := by
      intro qs hqs
      rw [← pendingSlot_applyPrices]
      exact (h qs hqs).covered k m hm hmk hmax
    have hall := (LastWrite.forall_perm_cell_eq_iff ⟨m, hm, hmk⟩ _ _).mp hlatest
    rw [← decodePrice_price_inj (hprice p hp) (hprice q hq), hall p hp hpk, hall q hq hqk]
  · intro hagree qs hqs
    have hcovered : ∀ k, ∀ p ∈ ps, Covers now k (decodePrice (some p)) →
        pendingSlot (applyPrices now qs s).pending k = (decodePrice (some p)).price :=
      fun k p hp hpk => pendingSlot_of_agree hprice hagree hqs hp hpk
    refine ⟨fun p hp hmax => ?_, fun k p hp hpk _ => hcovered k p hp hpk, fun k hk => ?_,
      fun p hp => ⟨?_, fun k => ?_⟩⟩
    · exact applyPrices_current_of_latest hprice hdistinct hs hp hmax
        (fun q hq => hqs.mem_iff.mp hq) (hqs.mem_iff.mpr hp)
    · rw [pendingSlot_applyPrices]
      exact LastWrite.cell_of_forall_not (fun q hq => hk q (hqs.mem_iff.mp hq)) _
    · obtain ⟨m, hm, -, hmax⟩ := exists_latest (P := fun _ => True) ⟨p, hp, trivial⟩
      have hmax' : ∀ q ∈ ps, q.periodStart ≤ m.periodStart := fun q hq => hmax q hq trivial
      rw [← applyPrices_append_singleton,
        applyPrices_current_of_latest hprice hdistinct hs hm hmax'
          (fun q hq => hqs.mem_iff.mp hq) (hqs.mem_iff.mpr hm)]
      refine applyPrices_current_of_latest hprice hdistinct hs hm hmax' (fun r hr => ?_)
        (List.mem_append_left _ (hqs.mem_iff.mpr hm))
      rcases List.mem_append.mp hr with h | h
      · exact hqs.mem_iff.mp h
      · rwa [List.mem_singleton.mp h]
    · rw [applyPrice]
      dsimp only
      rw [pendingSlot_stampPeriod]
      split
      · rename_i hpk
        exact (hcovered k p hp hpk).symm
      · rfl

/-- 2000-01-01 12:00 to 12:15 UTC. -/
def noonPrice : CommodityPriceStruct :=
  { periodStart := 43200, periodEnd := some 44100, price := some 100 }

/-- From 2000-01-01 12:15 UTC on. -/
def quarterPastPrice : CommodityPriceStruct :=
  { periodStart := 44100, periodEnd := none, price := some 200 }

/-- At 12:20 UTC the two cover one slot each, so a replay of the older one is harmless. -/
theorem prices_commute_iff_adjacent :
    OrderFree 946729200 [noonPrice, quarterPastPrice] {}
      (applyPrices 946729200 [quarterPastPrice, noonPrice] {}) := by
  have hnoon : (stampedTimes 946729200 (decodePrice (some noonPrice))).map slotKey
      = [(dateStr 10957, 48)] := by decide +kernel
  have hquarter : (stampedTimes 946729200 (decodePrice (some quarterPastPrice))).map slotKey
      = [(dateStr 10957, 49)] := by decide +kernel
  refine (prices_commute_iff 946729200 [noonPrice, quarterPastPrice] {} (by decide) (by decide)
    (by decide)).mpr ?_ _ (List.Perm.swap _ _ _)
  have hapart : ∀ k, Covers 946729200 k (decodePrice (some noonPrice)) →
      ¬ Covers 946729200 k (decodePrice (some quarterPastPrice)) := by
    intro k hn hq
    rw [Covers, hnoon, List.mem_singleton] at hn
    rw [Covers, hquarter, List.mem_singleton, hn] at hq
    exact absurd (congrArg Prod.snd hq) (by decide)
  intro p hp q hq k hpk hqk
  simp only [List.mem_cons, List.not_mem_nil, or_false] at hp hq
  rcases hp with rfl | rfl <;> rcases hq with rfl | rfl
  · rfl
  · exact absurd hqk (hapart k hpk)
  · exact absurd hpk (hapart k hqk)
  · rfl

/-- From 2000-01-01 12:00 UTC on, as it was reported before 12:15. -/
def openNoonPrice : CommodityPriceStruct := { noonPrice with periodEnd := none }

/-- A replay of the open price of noon takes the slot of 12:15 back from the newer one. -/
theorem replay_overrides_newer :
    ¬ ∀ (now : ℤ) (ps : List CommodityPriceStruct) (s : State),
      (∀ p ∈ ps, p.price.isSome) → (ps.map (·.periodStart)).Nodup → s.current.valid = false →
        ∀ qs, qs.Perm ps → OrderFree now ps s (applyPrices now qs s) := by
  intro h
  have hfree := h 946729200 [openNoonPrice, quarterPastPrice] {} (by decide) (by decide) rfl _
    (List.Perm.swap _ _ _)
  have hcovered := hfree.covered (dateStr 10957, 49) quarterPastPrice (by decide)
    (by decide +kernel) (by decide)
  revert hcovered
  decide +kernel

end HomeEnergyManager.CommodityPrice
