import HomeEnergyManager.NodeManager.Graph

/-! # What a deletion removes

`node_manager_delete` refuses a locked node, and it takes the children of a node along: what hangs
off the `dc_in` and `battery` handles of an inverter. The lock of a child is not looked at, so a
battery edge that was drawn to the consumer unit takes the consumer unit along.
-/

namespace HomeEnergyManager.NodeManager

open Json

/-- The ids that go with a node: its own, the sources of its `dc_in` edges and the targets of its
`battery` edges. -/
def Removed (g : Graph) (id x : String) : Prop :=
  x = id ∨ (∃ e ∈ g.edges, e.target = id ∧ e.targetHandle = "dc_in" ∧ e.source = x) ∨
    ∃ e ∈ g.edges, e.source = id ∧ e.sourceHandle = "battery" ∧ e.target = x

instance (g : Graph) (id x : String) : Decidable (Removed g id x) :=
  inferInstanceAs (Decidable (_ ∨ _ ∨ _))

/-- Every edge joins two nodes. -/
def Graph.Closed (g : Graph) : Prop :=
  ∀ e ∈ g.edges, (∃ n ∈ g.nodes, n.id = e.source) ∧ ∃ n ∈ g.nodes, n.id = e.target

/-- The graph after a call, whether or not it returns an error. -/
def Graph.after (g : Graph) (op : Op) : Graph :=
  match op.apply g with
  | .ok g' => g'
  | .error _ => g

/-- `g'` is what the deletion of a node should leave of `g`. -/
structure DeletesExactly (g g' : Graph) (id : String) : Prop where
  refuses : g.locked id = true → g' = g
  nodes : g.locked id = false → g'.nodes = g.nodes.filter fun n => ¬ Removed g id n.id
  edges : g.locked id = false →
    g'.edges = g.edges.filter fun e => ¬ Removed g id e.source ∧ ¬ Removed g id e.target
  keepsLocked : g.locked id = false → ∀ n ∈ g.nodes, Removed g id n.id → n.locked = false
  closed : g.Closed → g'.Closed

/-- No locked node has the id, feeds its `dc_in` handle or hangs off its `battery` handle. -/
def ChildrenUnlocked (g : Graph) (id : String) : Prop :=
  ∀ n ∈ g.nodes, n.locked = true → n.id ≠ id ∧
    ∀ e ∈ g.edges, ¬ (e.target = id ∧ e.targetHandle = "dc_in" ∧ e.source = n.id) ∧
      ¬ (e.source = id ∧ e.sourceHandle = "battery" ∧ e.target = n.id)

section Delete

variable {g : Graph} {id x : String}

theorem mem_childrenOf {e : EdgeConfig} :
    x ∈ childrenOf id e ↔ (e.target = id ∧ e.targetHandle = "dc_in" ∧ e.source = x) ∨
      e.source = id ∧ e.sourceHandle = "battery" ∧ e.target = x := by
  unfold childrenOf
  rw [List.mem_append]
  apply or_congr <;> split <;> rename_i h
  · simp [h.1, h.2, eq_comm]
  · simp only [List.not_mem_nil, false_iff]
    exact fun hx => h ⟨hx.1, hx.2.1⟩
  · simp [h.1, h.2, eq_comm]
  · simp only [List.not_mem_nil, false_iff]
    exact fun hx => h ⟨hx.1, hx.2.1⟩

theorem mem_removedIds : x ∈ removedIds id g.edges ↔ Removed g id x := by
  simp only [removedIds, List.mem_cons, List.mem_flatMap, mem_childrenOf, Removed]
  apply or_congr_right
  constructor
  · rintro ⟨e, he, h | h⟩
    · exact Or.inl ⟨e, he, h⟩
    · exact Or.inr ⟨e, he, h⟩
  · rintro (⟨e, he, h⟩ | ⟨e, he, h⟩)
    · exact ⟨e, he, Or.inl h⟩
    · exact ⟨e, he, Or.inr h⟩

theorem touches_eq_false {e : EdgeConfig} {ids : List String} :
    e.touches ids = false ↔ e.source ∉ ids ∧ e.target ∉ ids := by
  simp [EdgeConfig.touches]

theorem after_delete_of_locked (h : g.locked id = true) : g.after (.delete id) = g := by
  rw [Graph.after, Op.apply, delete, if_pos h]

theorem after_delete (h : g.locked id = false) :
    g.after (.delete id) = g.erase (removedIds id g.edges) := by
  rw [Graph.after, Op.apply, delete, if_neg (Bool.eq_false_iff.mp h)]

/-- What an edge that remains joins remains too. -/
theorem Graph.Closed.erase (h : g.Closed) (ids : List String) : (g.erase ids).Closed := by
  intro e he
  obtain ⟨he, htouches⟩ := List.mem_filter.mp he
  obtain ⟨hsource, htarget⟩ := touches_eq_false.mp (by simpa using htouches)
  obtain ⟨⟨n, hn, hns⟩, m, hm, hmt⟩ := h e he
  refine ⟨⟨n, ?_, hns⟩, m, ?_, hmt⟩
  · exact List.mem_filter.mpr ⟨hn, by simpa [hns] using hsource⟩
  · exact List.mem_filter.mpr ⟨hm, by simpa [hmt] using htarget⟩

theorem childrenUnlocked_iff :
    ChildrenUnlocked g id ↔ ∀ n ∈ g.nodes, Removed g id n.id → n.locked = false := by
  constructor
  · intro h n hn hremoved
    by_contra hlocked
    obtain ⟨hid, hedges⟩ := h n hn (Bool.eq_true_of_not_eq_false hlocked)
    rcases hremoved with rfl | ⟨e, he, hchild⟩ | ⟨e, he, hchild⟩
    · exact hid rfl
    · exact (hedges e he).1 hchild
    · exact (hedges e he).2 hchild
  · intro h n hn hlocked
    have hkept : ¬ Removed g id n.id := fun hremoved => by simp [h n hn hremoved] at hlocked
    exact ⟨fun hid => hkept (Or.inl hid), fun e he =>
      ⟨fun hchild => hkept (Or.inr (Or.inl ⟨e, he, hchild⟩)),
        fun hchild => hkept (Or.inr (Or.inr ⟨e, he, hchild⟩))⟩⟩

end Delete

/-- A deletion removes exactly what it should if and only if the node is locked or takes no locked
node along. -/
theorem node_delete_exact_iff (g : Graph) (id : String) :
    DeletesExactly g (g.after (.delete id)) id ↔ (g.locked id = true ∨ ChildrenUnlocked g id) := by
  cases hlocked : g.locked id with
  | true =>
    have hnot : g.locked id ≠ false := by simp [hlocked]
    rw [after_delete_of_locked hlocked]
    exact iff_of_true ⟨fun _ => rfl, fun h => absurd h hnot, fun h => absurd h hnot,
      fun h => absurd h hnot, fun h => h⟩ (Or.inl rfl)
  | false =>
    have hafter := after_delete hlocked
    rw [childrenUnlocked_iff]
    constructor
    · intro h
      exact Or.inr (h.keepsLocked hlocked)
    · rintro (h | h)
      · exact absurd h Bool.false_ne_true
      refine ⟨fun h => absurd (hlocked.symm.trans h) Bool.false_ne_true, fun _ => ?_, fun _ => ?_,
        fun _ => h, fun hclosed => hafter ▸ hclosed.erase _⟩
      · rw [hafter, Graph.erase]
        apply List.filter_congr
        intro n _
        simp [mem_removedIds]
      · rw [hafter, Graph.erase]
        apply List.filter_congr
        intro e _
        simp [EdgeConfig.touches, mem_removedIds]

/-- The battery handle of the inverter is wired to the consumer unit. -/
def batteryToBoard : Graph :=
  { nodes := [{ id := "consumer_unit", settings := .obj [("deletable", .bool false)] },
      { id := "solar_inverter" }]
    edges := [{ id := "solar_inverter-battery-consumer_unit-solar_input"
                source := "solar_inverter"
                target := "consumer_unit"
                sourceHandle := "battery"
                targetHandle := "solar_input" }] }

/-- The deletion of the inverter takes the locked consumer unit along. -/
theorem node_delete_removes_locked :
    ¬ ∀ (g : Graph) (id : String), DeletesExactly g (g.after (.delete id)) id := by
  intro h
  have hunlocked := (h batteryToBoard "solar_inverter").keepsLocked (by decide)
    { id := "consumer_unit", settings := .obj [("deletable", .bool false)] }
    List.mem_cons_self (by decide)
  exact absurd hunlocked (by decide)

end HomeEnergyManager.NodeManager
