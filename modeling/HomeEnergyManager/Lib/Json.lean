import Mathlib.Algebra.Order.BigOperators.Group.List
import Mathlib.Algebra.Order.Ring.Rat
import Mathlib.Data.Rat.Cast.Order
import Mathlib.Tactic.Linarith

/-! # JSON values

The values of JSON documents, how a reader finds its way in them, and how many bytes a document
takes when it is printed without blanks. A member of an object is found by its name, the first one
of several; what is no object has no members.
-/

namespace Json

inductive Value where
  | null
  | bool (b : Bool)
  | num (x : ℚ)
  | str (s : String)
  | arr (items : List Value)
  | obj (members : List (String × Value))

/-! ## Reading -/

def Value.member (key : String) : Value → Option Value
  | .obj members => (members.find? (·.1 = key)).map (·.2)
  | _ => none

/-- What a loop over the children of a value visits. -/
def Value.items : Value → List Value
  | .arr items => items
  | .obj members => members.map (·.2)
  | _ => []

def Value.asStr : Value → Option String
  | .str s => some s
  | _ => none

def Value.asNum : Value → Option ℚ
  | .num x => some x
  | _ => none

/-- The whole number that a reader keeps beside a number: what is outside of the range of `int` goes
to its end, a fraction is cut off. -/
def intOf (x : ℚ) : ℤ :=
  if 2147483647 ≤ x then 2147483647
  else if x ≤ -2147483648 then -2147483648
  else x.num.tdiv x.den

def Value.isTrue : Value → Bool
  | .bool b => b
  | _ => false

def Value.isFalse : Value → Bool
  | .bool b => !b
  | _ => false

/-- A text member, empty if there is none. -/
def Value.textAt (v : Value) (key : String) : String := ((v.member key).bind Value.asStr).getD ""

/-- What a loop over a member visits. -/
def Value.itemsAt (v : Value) (key : String) : List Value :=
  ((v.member key).map Value.items).getD []

@[simp] theorem Value.asStr_str (s : String) : (Value.str s).asStr = some s := rfl

@[simp] theorem Value.asNum_num (x : ℚ) : (Value.num x).asNum = some x := rfl

@[simp] theorem Value.isTrue_bool (b : Bool) : (Value.bool b).isTrue = b := rfl

@[simp] theorem Value.items_arr (items : List Value) : (Value.arr items).items = items := rfl

@[simp] theorem Value.member_obj_nil (key : String) : (Value.obj []).member key = none := rfl

@[simp] theorem Value.member_obj_cons (key name : String) (v : Value)
    (members : List (String × Value)) :
    (Value.obj ((name, v) :: members)).member key =
      if name = key then some v else (Value.obj members).member key := by
  by_cases h : name = key <;> simp [Value.member, h]

theorem intOf_natCast (n : ℕ) : intOf n = min n 2147483647 := by
  rw [intOf]
  split
  · rename_i h
    have h : 2147483647 ≤ n := by exact_mod_cast h
    omega
  · rename_i h
    have h : ¬ 2147483647 ≤ n := by exact_mod_cast h
    have hlow : ¬ (n : ℚ) ≤ -2147483648 := by
      have hnonneg : (0 : ℚ) ≤ n := Nat.cast_nonneg n
      intro hle
      linarith
    rw [if_neg hlow, Rat.num_natCast, Rat.den_natCast]
    simp
    omega

/-! ## The size of the text -/

/-- The bytes of a character in a string; what cannot stand there itself is escaped. -/
def charSize (c : Char) : ℕ :=
  if c = '"' ∨ c = '\\' ∨ c = '\n' ∨ c = '\r' ∨ c = '\t' ∨ c.toNat = 8 ∨ c.toNat = 12 then 2
  else if c.toNat < 32 then 6
  else c.utf8Size

def strSize (s : String) : ℕ := 2 + (s.toList.map charSize).sum

mutual

/-- The size of the text of a value, from that of its numbers. -/
def Value.size (numSize : ℚ → ℕ) : Value → ℕ
  | .null => 4
  | .bool b => if b then 4 else 5
  | .num x => numSize x
  | .str s => strSize s
  | .arr items => 2 + (items.length - 1) + itemsSize numSize items
  | .obj members => 2 + (members.length - 1) + membersSize numSize members

def itemsSize (numSize : ℚ → ℕ) : List Value → ℕ
  | [] => 0
  | v :: vs => v.size numSize + itemsSize numSize vs

def membersSize (numSize : ℚ → ℕ) : List (String × Value) → ℕ
  | [] => 0
  | (name, v) :: ms => strSize name + 1 + v.size numSize + membersSize numSize ms

end

theorem itemsSize_eq (numSize : ℚ → ℕ) (vs : List Value) :
    itemsSize numSize vs = (vs.map (·.size numSize)).sum := by
  induction vs with
  | nil => rfl
  | cons v vs ih => rw [itemsSize, ih, List.map_cons, List.sum_cons]

/-- The text of an object holds those of its members. -/
theorem Value.size_le_of_mem {numSize : ℚ → ℕ} {name : String} {v : Value}
    {members : List (String × Value)} (h : (name, v) ∈ members) :
    v.size numSize ≤ (Value.obj members).size numSize := by
  have hsum : v.size numSize ≤ membersSize numSize members := by
    induction members with
    | nil => exact absurd h List.not_mem_nil
    | cons m members ih =>
      obtain ⟨name', v'⟩ := m
      rw [membersSize]
      rcases List.mem_cons.mp h with heq | h
      · obtain ⟨-, rfl⟩ := Prod.mk.inj heq
        omega
      · have := ih h
        omega
  rw [Value.size]
  omega

end Json
