/-
  JSON values, and their text.

  A number is an integer or a float; which of the two it is depends on how it was written, and the
  difference is kept. The fields of an object are kept in ascending order of their keys, by code
  point: `Json.insert` is the only way fields are added, and it keeps the order. So the text of a
  value is determined by the value (`render`), without blanks and with keys in order.

  Values are kept and written by a library.  It is ASSUMED of it that an object keeps its keys in
  this order, that the later of two fields of one name counts, and that a float is written with the
  fewest digits that are read back to it.
-/
import Stache.Text.Quoted
import Stache.Decimal.Shortest

namespace Stache

/-- A value. -/
inductive Json where
  | null
  | bool (value : Bool)
  | integer (value : Int)
  | float (value : Float)
  | string (value : String)
  | array (items : List Json)
  | object (fields : List (String × Json))

/-- The fields of an object, keys ascending. -/
abbrev Json.Fields := List (String × Json)

namespace Json

/-! ## Fields -/

/-- Adds a field at its place. A field of that name gives way. -/
def insert {α : Type} (key : String) (value : α) : List (String × α) → List (String × α)
  | [] => [(key, value)]
  | field :: rest =>
    if key < field.1 then (key, value) :: field :: rest
    else if key = field.1 then (key, value) :: rest
    else field :: insert key value rest

/-- The fields without those of this key. -/
def erase {α : Type} (key : String) (fields : List (String × α)) : List (String × α) :=
  fields.filter fun field => field.1 ≠ key

/-! ## Equality -/

mutual

/-- Equality of values. Floats are compared as floats, and an integer is never one. -/
def beq : Json → Json → Bool
  | .null, .null => true
  | .bool a, .bool b => a == b
  | .integer a, .integer b => a == b
  | .float a, .float b => a == b
  | .string a, .string b => a == b
  | .array a, .array b => beqItems a b
  | .object a, .object b => beqFields a b
  | _, _ => false

/-- Equality of lists of values. -/
def beqItems : List Json → List Json → Bool
  | [], [] => true
  | a :: as, b :: bs => beq a b && beqItems as bs
  | _, _ => false

/-- Equality of lists of fields. -/
def beqFields : List (String × Json) → List (String × Json) → Bool
  | [], [] => true
  | (k, a) :: as, (l, b) :: bs => k == l && beq a b && beqFields as bs
  | _, _ => false

end

instance : BEq Json := ⟨beq⟩

instance : Inhabited Json := ⟨.null⟩

/-! ## Text -/

/-- A float is written positionally while its point stands within sixteen places of its first digit,
    or its first digit within five places of the point; else with an exponent. -/
def renderFloat (x : Float) : String :=
  let d := Decimal.ofFloat x
  let places := d.exponent + (Nat.toDigits 10 d.digits).length
  Decimal.signed x (if -5 < places && places ≤ 16 then d.positional else d.scientific)

mutual

/-- The text of a value. -/
def render : Json → String
  | .null => "null"
  | .bool true => "true"
  | .bool false => "false"
  | .integer n => toString n
  | .float x => renderFloat x
  | .string s => Text.jsonQuoted s
  | .array items => "[" ++ renderItems items ++ "]"
  | .object fields => "\x7b" ++ renderFields fields ++ "\x7d"

/-- The texts of values, with commas between them. -/
def renderItems : List Json → String
  | [] => ""
  | [v] => v.render
  | v :: w :: rest => v.render ++ "," ++ renderItems (w :: rest)

/-- The texts of fields, with commas between them. -/
def renderFields : List (String × Json) → String
  | [] => ""
  | [(k, v)] => Text.jsonQuoted k ++ ":" ++ v.render
  | (k, v) :: w :: rest => Text.jsonQuoted k ++ ":" ++ v.render ++ "," ++ renderFields (w :: rest)

end

end Json

end Stache
