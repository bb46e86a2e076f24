import Mathlib.Algebra.BigOperators.Group.Finset.Basic
import Mathlib.Data.Fintype.Card
import Mathlib.Data.List.FinRange
import Mathlib.Algebra.BigOperators.Pi
import Mathlib.Algebra.Order.BigOperators.Group.Finset

/-! # Tallies over finitely many places

A tally adds up what the places of a system hold. One place changes at a time. Entries of a list
that each have a place of their own are no more than the places.
-/

namespace Tally

variable {ι α : Type*} [Fintype ι]

/-- The sum of the weights of all places. -/
def tally (w : α → ℕ) (f : ι → α) : ℕ := ∑ i, w (f i)

/-- A place weighs no more than all of them. -/
theorem le_tally (w : α → ℕ) (f : ι → α) (i : ι) : w (f i) ≤ tally w f :=
  Finset.single_le_sum (f := fun j => w (f j)) (fun _ _ => Nat.zero_le _) (Finset.mem_univ i)

theorem tally_eq_zero_iff (w : α → ℕ) (f : ι → α) : tally w f = 0 ↔ ∀ i, w (f i) = 0 := by
  simp [tally]

/-- The entries that satisfy `p` are no more than the places, if each has one and no place has
two. -/
theorem countP_le_card {p : α → Bool} {l : List α} (has : ι → ℕ → Prop)
    (hunique : ∀ i k k', has i k → has i k' → k = k')
    (hplace : ∀ k a, l[k]? = some a → p a = true → ∃ i, has i k) :
    l.countP p ≤ Fintype.card ι := by
  have hchoose : ∀ k : { k : Fin l.length // p (l.get k) = true }, ∃ i, has i k.1 := fun k =>
    hplace k.1 (l.get k.1) (List.getElem?_eq_getElem k.1.isLt) k.2
  have hcount : l.countP p = Fintype.card { k : Fin l.length // p (l.get k) = true } := by
    have hnodup := (List.nodup_finRange l.length).filter fun k => p (l.get k)
    conv_lhs => rw [← List.map_get_finRange l]
    rw [List.countP_map, List.countP_eq_length_filter, Fintype.card_subtype]
    refine (List.toFinset_card_of_nodup hnodup).symm.trans (congrArg Finset.card ?_)
    ext k
    simp
  choose f hf using hchoose
  rw [hcount]
  refine Fintype.card_le_of_injective f fun k k' heq => ?_
  have h := hf k
  rw [heq] at h
  exact Subtype.ext (Fin.ext (hunique _ _ _ h (hf k')))

variable [DecidableEq ι]

/-- Changing one place trades its old weight for its new one. -/
theorem tally_update_add (w : α → ℕ) (f : ι → α) (i : ι) (a : α) :
    tally w (Function.update f i a) + w (f i) = tally w f + w a := by
  have hcomp : ∀ j, w (Function.update f i a j) = Function.update (fun j => w (f j)) i (w a) j :=
    fun j => Function.apply_update (fun _ => w) f i a j
  have hold := Finset.sum_update_of_mem (Finset.mem_univ i) (fun j => w (f j)) (w (f i))
  rw [Function.update_eq_self] at hold
  unfold tally
  rw [Finset.sum_congr rfl fun j _ => hcomp j, Finset.sum_update_of_mem (Finset.mem_univ i), hold]
  omega

end Tally
