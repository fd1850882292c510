import Mathlib

/-!
# The last value given

A sequence of operations some of which give a register a value and some of which clear it. `lastGiven`
reads the register off the sequence: the last value given since the register was last cleared.
-/

namespace Register

universe u v
variable {Op : Type u} {α : Type v} (gives : Op → Option α) (clears : Op → Bool)

/-- The last value given since the last operation that clears. -/
def lastGiven (ops : List Op) : Option α :=
  (ops.reverse.takeWhile fun op => !clears op).findSome? gives

/-- One more operation clears the register, gives it a value or leaves it as it is. -/
theorem lastGiven_concat (ops : List Op) (op : Op) : lastGiven gives clears (ops ++ [op]) =
    if clears op then none else (gives op).or (lastGiven gives clears ops) := by
  rw [lastGiven, List.reverse_concat, List.takeWhile_cons]
  cases clears op with
  | true => rfl
  | false =>
    rw [Bool.not_false, if_pos rfl, List.findSome?_cons]
    cases gives op <;> rfl

variable {gives clears}

/-- The value of a register was given. -/
theorem exists_of_lastGiven {ops : List Op} {v : α} (h : lastGiven gives clears ops = some v) :
    ∃ op ∈ ops, gives op = some v := by
  obtain ⟨op, hop, hv⟩ := List.exists_of_findSome?_eq_some h
  exact ⟨op, List.mem_reverse.1 ((List.takeWhile_prefix _).subset hop), hv⟩

/-- A register that is given a value only together with another is empty when the other is. -/
theorem lastGiven_eq_none {β : Type*} {gives' : Op → Option β} {ops : List Op}
    (h : ∀ op, gives op = none → gives' op = none) (hnone : lastGiven gives clears ops = none) :
    lastGiven gives' clears ops = none := by
  rw [lastGiven, List.findSome?_eq_none_iff] at hnone ⊢
  exact fun op hop => h op (hnone op hop)

end Register
