import Mathlib.Tactic.MkIffOfInductiveProp
import HomeEnergyManager.Canvas.Readings
import HomeEnergyManager.Canvas.Reload

/-! # A session on the canvas

A page loads what the firmware serves. From then on frames come and edges are drawn, and the
firmware keeps what is reported and drawn. The canvas shows what a reload would, as long as no flow
that was derived is taken for a reading and no edge is drawn that the canvas does not know the
reading of.

Reference: `firmware/html_app/src/Topology.tsx`.
-/

namespace HomeEnergyManager.Canvas

open OrderedMap

/-! ## The page and its steps -/

/-- The reports of a frame. -/
def WsMessage.entries : WsMessage → List AttrEntry
  | .deviceCommissioned => []
  | .attributeBatch entries => entries
  | .attributeUpdate entry => [entry]

def Edge.saved (e : Edge) : SavedEdge where
  id := e.id
  source := e.source
  target := e.target
  sourceHandle := e.sourceHandle
  targetHandle := e.targetHandle

/-- `POST /api/edges`: the firmware replaces the edge of that id, or adds it. -/
def SavedTopology.upsertEdge (t : SavedTopology) (e : SavedEdge) : SavedTopology :=
  { t with
    edges := match t.edges.find? (·.id = e.id) with
      | some _ => t.edges.modify (t.edges.findIdx (·.id = e.id)) fun _ => e
      | none => t.edges ++ [e] }

/-- The canvas, and what a reload would be served. -/
structure Page where
  served : SavedTopology
  edges : List Edge
  /-- An edge was drawn since the flows were derived. -/
  drawn : Bool := false

inductive Event where
  | message (msg : WsMessage)
  | connect (c : Connection)

/-- The frame has the power of some node. -/
def SavedTopology.Stamps (t : SavedTopology) (entries : List AttrEntry) : Prop :=
  powerByRfId (restoredNodes t.nodes) (powerByKey entries) ≠ []

instance (t : SavedTopology) (entries : List AttrEntry) : Decidable (t.Stamps entries) :=
  inferInstanceAs (Decidable (_ ≠ _))

def Page.step (lib : AddEdge) (p : Page) : Event → Option Page
  | .message msg =>
    (handleWsMessage (restoredNodes p.served.nodes) (standbyMapOf p.served.profiles) msg
      p.edges).map fun edges =>
        { served := p.served.report msg.entries
          edges := edges
          drawn := p.drawn && !decide (p.served.Stamps msg.entries) }
  | .connect c => some
    { served := p.served.upsertEdge c.newEdge.saved
      edges := onConnect lib p.edges c
      drawn := true }

/-- `onInit`. -/
def Page.load (t : SavedTopology) : Option Page :=
  (onInit t).map fun edges => { served := t, edges := edges }

/-- The flows are those of a reload. -/
def Page.LikeReload (p : Page) : Prop :=
  ∃ reloaded, onInit p.served = some reloaded ∧ flowsOf p.edges = flowsOf reloaded

/-! ## The condition on a step -/

/-- The edge carries a remainder instead of its reading. -/
def Edge.CarriesRemainder (subCuIds : List String) (e : Edge) : Prop :=
  e.isMetered subCuIds ∧ e.meteredKw ≠ none ∧ e.data.bind (·.kw) ≠ e.meteredKw

/-- The edge is alone with feeds on one of its handles. -/
def Edge.IsAlone (edges : List Edge) (subCuIds : List String) (e : Edge) : Prop :=
  ∃ x ∈ otherEnds edges subCuIds, x.edge = e ∧ x.isAlone edges subCuIds

/-- The frame has the power that the edge is metered by. -/
def SavedTopology.Reports (t : SavedTopology) (entries : List AttrEntry) (e : Edge) : Prop :=
  (t.reported entries (edgePowerNodeId e)).isSome

/-- The condition on a frame. -/
@[mk_iff] structure Page.FrameOk (p : Page) (entries : List AttrEntry) : Prop where
  /-- If it has no power, no edge was drawn since the flows were derived. -/
  stamps : p.served.Stamps entries ∨ p.drawn = false
  /-- An edge without a reading since it was drawn has one in the frame, or there is none to restore
  and the edge is not alone with feeds. -/
  unread : p.served.Stamps entries → ∀ e ∈ p.edges, e.isMetered p.served.subCuIds →
    e.meteredKw = none → p.served.Reports entries e ∨
      p.served.reading (edgePowerNodeId e) = none ∧ ¬ e.IsAlone p.edges p.served.subCuIds
  /-- A circuit of a fed board that carries a remainder has a reading in the frame. -/
  circuits : p.served.Stamps entries → ∀ c ∈ p.edges, Fed p.edges p.served.subCuIds c.source →
    c.CarriesRemainder p.served.subCuIds → p.served.Reports entries c
  /-- A tariff edge that leaves a fed board is not metered. -/
  tariff : p.served.Stamps entries → ∀ c ∈ p.edges, Fed p.edges p.served.subCuIds c.source →
    c.target ∉ p.served.subCuIds → isTariffEdge c →
      (p.served.report entries).reading (edgePowerNodeId c) = none

/-- The condition on a drawn edge: it is refused as one that is saved already; or it is added, its
id is new, and every edge with a remainder is still alone with feeds. Where one is not, its
remainder is stale, if not for longer than until the next frame. -/
def Page.DrawOk (lib : AddEdge) (p : Page) (c : Connection) : Prop :=
  onConnect lib p.edges c = p.edges ∧
    p.served.edges.find? (·.id = c.edgeId) = some c.newEdge.saved ∨
  onConnect lib p.edges c = p.edges ++ [c.newEdge] ∧
    (∀ e ∈ p.edges, e.id ≠ c.edgeId) ∧
    ∀ e ∈ p.edges, e.CarriesRemainder p.served.subCuIds →
      e.IsAlone (p.edges ++ [c.newEdge]) p.served.subCuIds

def Page.StepOk (lib : AddEdge) (p : Page) : Event → Prop
  | .message msg => p.FrameOk msg.entries
  | .connect c => p.DrawOk lib c

section Decidable

variable {edges : List Edge} {subCuIds : List String} {e : Edge} {t : SavedTopology} {p : Page}
  {entries : List AttrEntry}

instance {b : String} : Decidable (Fed edges subCuIds b) :=
  inferInstanceAs (Decidable (_ ∧ ∃ e ∈ edges, e.target = b))

instance : Decidable (e.CarriesRemainder subCuIds) :=
  inferInstanceAs (Decidable (_ ∧ _ ≠ _ ∧ _ ≠ _))

instance : Decidable (e.IsAlone edges subCuIds) :=
  inferInstanceAs (Decidable (∃ x ∈ otherEnds edges subCuIds, x.edge = e ∧ _))

instance : Decidable (t.Reports entries e) := inferInstanceAs (Decidable (_ = true))

instance : Decidable (p.FrameOk entries) :=
  decidable_of_iff' _ (Page.frameOk_iff p entries)

instance {lib : AddEdge} {c : Connection} : Decidable (p.DrawOk lib c) :=
  inferInstanceAs (Decidable (_ ∧ _ ∨ _ ∧ (∀ e ∈ p.edges, _) ∧ ∀ e ∈ p.edges, _ → _))

instance {lib : AddEdge} : ∀ ev, Decidable (p.StepOk lib ev)
  | .message msg => decidable_of_iff (p.FrameOk msg.entries) Iff.rfl
  | .connect c => decidable_of_iff (p.DrawOk lib c) Iff.rfl

end Decidable

/-! ## What a reload makes of an edge -/

theorem saved_restoreEdge (powerByNode : List (String × PowerMeasurement))
    (standbyMap : List (String × ℚ)) (e : SavedEdge) :
    (restoreEdge powerByNode standbyMap e).saved = e := by
  unfold restoreEdge
  dsimp only
  split <;> rfl

theorem id_restoreEdge (powerByNode : List (String × PowerMeasurement))
    (standbyMap : List (String × ℚ)) (e : SavedEdge) :
    (restoreEdge powerByNode standbyMap e).id = e.id :=
  congrArg SavedEdge.id (saved_restoreEdge powerByNode standbyMap e)

/-- The edge as a reload restores it. -/
def SavedTopology.restore (t : SavedTopology) (e : Edge) : Edge :=
  restoreEdge (powerByNode t.nodes) (standbyMapOf t.profiles) e.saved

section Restore

variable {t t' : SavedTopology} {e : Edge} {entries : List AttrEntry}

theorem restore_wiring (t : SavedTopology) (e : Edge) : (t.restore e).wiring = e.wiring := by
  unfold SavedTopology.restore restoreEdge
  dsimp only [Edge.saved]
  split <;> rfl

theorem restore_of_tariff (h : isTariffEdge e = true) : t.restore e = e.wiring :=
  if_pos h

/-- The data of an edge with a reading. -/
def readData (standbyMap : List (String × ℚ)) (e : Edge) (power : Option ℚ) : FlowData :=
  let meteredId := edgePowerNodeId e
  let status := (get standbyMap meteredId).bind (loadStatus power)
  let kw := power.elim 0 (edgeKw e meteredId)
  { kw := some kw
    meteredKw := some kw
    idle := some (status.isSome && status != some .running) }

theorem restore_data (h : isTariffEdge e = false) : (t.restore e).data =
    some (readData (standbyMapOf t.profiles) e (t.reading (edgePowerNodeId e))) := by
  have hnot : ¬ isTariffEdge e.wiring = true := by
    show ¬ isTariffEdge e = true
    rw [h]
    exact Bool.false_ne_true
  exact congrArg Edge.data (if_neg hnot)

/-- An edge is its wiring and its data. -/
theorem eq_of_wiring {e e' : Edge} (hwiring : e.wiring = e'.wiring) (hdata : e.data = e'.data) :
    e = e' := by
  have hself (e : Edge) : e = { e.wiring with data := e.data } := rfl
  rw [hself e, hself e', hwiring, hdata]

/-- Edges with the same reading are restored alike. -/
theorem restore_congr (hprofiles : t'.profiles = t.profiles)
    (hreading : t'.reading (edgePowerNodeId e) = t.reading (edgePowerNodeId e)) :
    t'.restore e = t.restore e := by
  cases h : isTariffEdge e with
  | true => rw [restore_of_tariff h, restore_of_tariff h]
  | false =>
    have hdata : (t'.restore e).data = (t.restore e).data := by
      rw [restore_data h, restore_data h, hprofiles, hreading]
    exact eq_of_wiring ((restore_wiring t' e).trans (restore_wiring t e).symm) hdata

theorem restore_kw (h : isTariffEdge e = false) :
    (t.restore e).data.bind (·.kw) = (t.restore e).meteredKw := by
  rw [Edge.meteredKw, restore_data h]
  rfl

theorem restore_metered_ne_none (h : isTariffEdge e = false) : (t.restore e).meteredKw ≠ none := by
  rw [Edge.meteredKw, restore_data h]
  exact Option.some_ne_none _

/-- What is restored without a reading. -/
theorem restore_unread (h : isTariffEdge e = false) (hnone : t.reading (edgePowerNodeId e) = none) :
    (t.restore e).data.bind (·.kw) = some 0 ∧ (t.restore e).idle = false := by
  rw [Edge.idle, restore_data h, hnone]
  refine ⟨rfl, ?_⟩
  show ((some _ : Option Bool) == some true) = false
  cases get (standbyMapOf t.profiles) (edgePowerNodeId e) <;> rfl

/-- The stamp of a frame. -/
def SavedTopology.stamp (t : SavedTopology) (entries : List AttrEntry) (e : Edge) : Edge :=
  e.stamp (standbyMapOf t.profiles) t.subCuIds
    (powerByRfId (restoredNodes t.nodes) (powerByKey entries))

theorem stamp_wiring (t : SavedTopology) (entries : List AttrEntry) (e : Edge) :
    (t.stamp entries e).wiring = e.wiring := by
  unfold SavedTopology.stamp Edge.stamp
  split
  · rfl
  · dsimp only
    split <;> rfl

/-- The stamp of a power is what a reload would restore of it. -/
theorem stamp_of_reported (htarget : e.target ∉ t.subCuIds) {power : ℚ}
    (h : t.reported entries (edgePowerNodeId e) = some power) :
    (t.stamp entries e).data.bind (·.kw) =
        (readData (standbyMapOf t.profiles) e (some power)).kw ∧
      (t.stamp entries e).meteredKw =
        (readData (standbyMapOf t.profiles) e (some power)).meteredKw ∧
      (t.stamp entries e).data.bind (·.idle) =
        (readData (standbyMapOf t.profiles) e (some power)).idle := by
  have hget : (get (powerByRfId (restoredNodes t.nodes) (powerByKey entries))
      (edgePowerNodeId e)).bind (·.power) = some power := h
  unfold SavedTopology.stamp Edge.stamp
  simp only [if_neg htarget, hget]
  refine ⟨rfl, rfl, ?_⟩
  unfold readData
  dsimp only
  cases get (standbyMapOf t.profiles) (edgePowerNodeId e) with
  | none => rfl
  | some standbyW => rfl

theorem stamp_of_not_reported (h : t.reported entries (edgePowerNodeId e) = none) :
    t.stamp entries e = e := by
  have hget : (get (powerByRfId (restoredNodes t.nodes) (powerByKey entries))
      (edgePowerNodeId e)).bind (·.power) = none := h
  unfold SavedTopology.stamp Edge.stamp
  simp only [hget, ite_self]

end Restore

end HomeEnergyManager.Canvas
