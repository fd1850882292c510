import Mathlib
import Borsa.Lib.OrdMap

/-!
# JSON values

The values that configurations are written to and read from, with the accessors a reader uses. An object
is its fields, whose names are distinct.
-/

/-- A JSON value. -/
inductive Json where
  | null
  | bool (b : Bool)
  /-- A number that is a `u64`. -/
  | num (n : UInt64)
  /-- Any other number, as its text. -/
  | otherNum (text : String)
  | str (s : String)
  | arr (items : List Json)
  | obj (fields : List (String × Json))

namespace Json

/-- The field of an object. -/
def get (j : Json) (name : String) : Option Json :=
  match j with
  | .obj fields => (fields.find? fun field => field.1 = name).map Prod.snd
  | _ => none

/-- `as_u64`. -/
def asU64 : Json → Option UInt64
  | .num n => some n
  | _ => none

/-- `as_str`. -/
def asStr : Json → Option String
  | .str s => some s
  | _ => none

/-- `as_object`. -/
def asObject : Json → Option (List (String × Json))
  | .obj fields => some fields
  | _ => none

/-- A map of numbers as an object. -/
def ofMap (m : OrdMap String UInt64) : Json := .obj (m.entries.map fun x => (x.1, .num x.2))

/-- The numbers among the fields of an object. -/
def toMap (fields : List (String × Json)) : OrdMap String UInt64 :=
  .ofList (fields.filterMap fun x => x.2.asU64.map fun n => (x.1, n))

@[simp] theorem asU64_num (n : UInt64) : (num n).asU64 = some n := rfl

@[simp] theorem asStr_str (s : String) : (str s).asStr = some s := rfl

@[simp] theorem asObject_ofMap (m : OrdMap String UInt64) :
    (ofMap m).asObject = some (m.entries.map fun x => (x.1, .num x.2)) := rfl

theorem get_cons_self (name : String) (v : Json) (fields : List (String × Json)) :
    (obj ((name, v) :: fields)).get name = some v := by
  simp [get]

theorem get_cons_of_ne {name name' : String} (h : name' ≠ name) (v : Json)
    (fields : List (String × Json)) :
    (obj ((name', v) :: fields)).get name = (obj fields).get name := by
  simp [get, h]

/-- A map is read back as it was written. -/
theorem toMap_ofMap (m : OrdMap String UInt64) :
    toMap (m.entries.map fun x => (x.1, .num x.2)) = m := by
  rw [toMap, List.filterMap_map]
  have hentries : m.entries.filterMap ((fun x : String × Json => x.2.asU64.map fun n => (x.1, n)) ∘
      fun x => (x.1, .num x.2)) = m.entries := List.filterMap_some
  rw [hentries, OrdMap.ofList_entries]

end Json
