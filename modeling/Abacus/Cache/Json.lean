import Abacus.Number.Text

/-!
# JSON values

Stored trees are JSON values.  A number is an integer or a binary64 number, and
its value as a binary64 number is finite.  The members of an object stand in
some order, and each key counts once.
-/

namespace Abacus

/-- A number as JSON text gives it: without or with a fraction or an exponent. -/
inductive JsonNumber where
  | integer (i : Int)
  | float (x : Binary64)
  deriving DecidableEq

namespace JsonNumber

/-- The value of a number. -/
def value : JsonNumber → Binary64
  | .integer i => .ofInt i
  | .float x => x

/-- An integer, which counts as a float if it fits neither a signed nor an
unsigned word of 64 bits. -/
def ofInt (i : Int) : JsonNumber :=
  if -0x8000000000000000 ≤ i ∧ i < 0x10000000000000000 then .integer i else .float (.ofInt i)

end JsonNumber

/-- A JSON value. -/
inductive Json where
  | null
  | bool (b : Bool)
  | number (n : JsonNumber) (finite : n.value.isFinite = true)
  | string (s : String)
  | array (items : List Json)
  | object (members : List (String × Json))

namespace Json

instance : Inhabited Json := ⟨.null⟩

/-- The JSON value of a number, if it is finite. -/
def ofNumber? (n : JsonNumber) : Option Json :=
  if finite : n.value.isFinite = true then some (.number n finite) else none

/-- The JSON value for a binary64 number.  JSON has none for NaN and the
infinities, which become `null`. -/
def ofBinary64 (x : Binary64) : Json := (ofNumber? (.float x)).getD .null

/-- Whether a value is `null`. -/
def isNull : Json → Bool
  | .null => true
  | _ => false

/-- The value of a key of an object. -/
def member? (members : List (String × Json)) (key : String) : Option Json :=
  (members.find? fun m => m.1 == key).map Prod.snd

theorem sizeOf_lt_of_member? {members : List (String × Json)} {key : String} {v : Json}
    (found : member? members key = some v) : sizeOf v < sizeOf (Json.object members) := by
  obtain ⟨m, hm, rfl⟩ := Option.map_eq_some_iff.1 found
  have smaller := List.sizeOf_lt_of_mem (List.mem_of_find?_eq_some hm)
  obtain ⟨k, v⟩ := m
  simp at smaller ⊢
  omega

theorem sizeOf_lt_of_getElem? {items : List Json} {i : Nat} {v : Json}
    (found : items[i]? = some v) : sizeOf v < sizeOf (Json.array items) := by
  have smaller := List.sizeOf_lt_of_mem (List.mem_of_getElem? found)
  simp
  omega

/-- Numbers in error messages.  Of two equally near decimals the even one is
written, and an exponent always has a sign. -/
def numberStyle : NumberStyle :=
  { nan := "NaN", infinity := "inf", low := -5, high := 16, tie := .even, plus := "+" }

end Json

end Abacus
