/-
  Reading JSON text.

  A reader takes the text from some place on and answers a value and what is left, which is shorter
  (`Shorter`), or a fault. It goes from left to right and stops at the first fault, of which there
  are three sorts: the text is no JSON, the text ends too early, or a value is not of the type
  wanted at its place. So a value of the wrong type is noticed where it begins, before any fault
  further on; only a scalar is read to its end first (`mistyped`).

    1. texts, with their escapes. Surrogates must come in pairs;
    2. numbers;
    3. the two frames, `elements` and `fields`, over a reader of what is inside;
    4. values. A value may be nested `maxDepth` deep, and the depth is what the recursion is on;
    5. values of a wanted type, and whole texts.

  Values that nobody looks at are read too, with less care (`Care.skim`): a surrogate may stand
  alone in them, and a number may have any size.

  What JSON is leaves some of this open, and there it is ASSUMED of the library that reads the
  settings and the maps: the order in which faults are found and their three sorts, the depth, what
  is read with less care, and which numbers are integers and which are floats.
-/
import Stache.Decimal.Numeral
import Stache.Json.Basic

namespace Stache.Json

/-- What can be wrong with a text. -/
inductive Fault where
  /-- The text is no JSON. -/
  | syntactic
  /-- The text ends inside a value. -/
  | truncated
  /-- A value is of another type than the one wanted, is missing, or is given twice. -/
  | mistyped
deriving DecidableEq, Repr

/-- How a value is read: to be kept, or to be passed over. -/
inductive Care where
  | keep
  | skim
deriving DecidableEq, Repr

/-- What is left of `s` after something has been read. -/
abbrev Shorter (s : List Char) := { rest : List Char // rest.length < s.length }

/-- Reads a value of type `α` from the front of a text. -/
abbrev Reader (α : Type) := (s : List Char) → Except Fault (α × Shorter s)

/-- What is left counts as what is left of a longer text. -/
def Shorter.widen {s t : List Char} (rest : Shorter s) (h : s.length ≤ t.length) : Shorter t :=
  ⟨rest.1, Nat.lt_of_lt_of_le rest.2 h⟩

/-- The same, for a text that is longer by one character at least. -/
def Shorter.cons {s : List Char} {c : Char} (rest : Shorter s) : Shorter (c :: s) :=
  rest.widen (Nat.le_succ _)

/-! ## Blanks -/

/-- The blanks between the parts of a value. -/
def isSpace (c : Char) : Bool := c = ' ' || c = '\n' || c = '\t' || c = '\r'

/-- What is left behind blanks, -/
def skipSpace (s : List Char) : List Char := s.dropWhile isSpace

/-- which is no more than there was. -/
theorem length_skipSpace_le (s : List Char) : (skipSpace s).length ≤ s.length :=
  (List.dropWhile_suffix _).length_le

/-- Reads after blanks. -/
def spaced {α : Type} (read : Reader α) : Reader α := fun s => do
  let (value, rest) ← read (skipSpace s)
  return (value, rest.widen (length_skipSpace_le s))

/-! ## Texts -/

/-- The value of a hexadecimal digit. -/
def hexValue (c : Char) : Option Nat :=
  if '0' ≤ c && c ≤ '9' then some (c.toNat - 48)
  else if 'a' ≤ c && c ≤ 'f' then some (c.toNat - 87)
  else if 'A' ≤ c && c ≤ 'F' then some (c.toNat - 55)
  else none

/-- Reads four hexadecimal digits. A text with less than four bytes left ends too early, whatever
    they are. -/
def readUnit : Reader Nat := fun s =>
  match s with
  | a :: b :: c :: d :: rest =>
    match hexValue a, hexValue b, hexValue c, hexValue d with
    | some a', some b', some c', some d' =>
      .ok (((a' * 16 + b') * 16 + c') * 16 + d', ⟨rest, by simp only [List.length_cons]; omega⟩)
    | _, _, _, _ => .error .syntactic
  | s => .error (if (String.ofList s).utf8ByteSize < 4 then .truncated else .syntactic)

/-- A unit that comes first in a pair. -/
def isLeadSurrogate (n : Nat) : Bool := 0xd800 ≤ n && n ≤ 0xdbff

/-- A unit that comes second. -/
def isTrailSurrogate (n : Nat) : Bool := 0xdc00 ≤ n && n ≤ 0xdfff

/-- Reads the character that one or two escapes by code stand for, after the first `\u`. -/
def readCode (care : Care) : Reader Char := fun s => do
  let (lead, rest) ← readUnit s
  if care = .skim then return (Char.ofNat lead, rest)
  else if isTrailSurrogate lead then .error .syntactic
  else if !isLeadSurrogate lead then return (Char.ofNat lead, rest)
  else
    match rest with
    | ⟨[], _⟩ => .error .truncated
    | ⟨['\\'], _⟩ => .error .truncated
    | ⟨'\\' :: 'u' :: more, h⟩ => do
      let (trail, rest') ← readUnit more
      if isTrailSurrogate trail then
        return (Char.ofNat ((lead - 0xd800) * 0x400 + (trail - 0xdc00) + 0x10000),
          rest'.widen (by simp only [List.length_cons] at h; omega))
      else .error .syntactic
    | _ => .error .syntactic

/-- The character that `c` stands for after a backslash. -/
def simpleEscape (c : Char) : Option Char :=
  if c = '"' || c = '\\' || c = '/' then some c
  else if c = 'b' then some '\x08'
  else if c = 'f' then some '\x0c'
  else if c = 'n' then some '\n'
  else if c = 'r' then some '\r'
  else if c = 't' then some '\t'
  else none

/-- Reads a text after its opening quote, up to and including the closing one. -/
def readText (care : Care) (s : List Char) : Except Fault (List Char × Shorter s) :=
  match s with
  | [] => .error .truncated
  | ['\\'] => .error .truncated
  | '\\' :: 'u' :: t => do
    let (c, rest) ← readCode care t
    let (text, rest') ← readText care rest.1
    return (c :: text, (rest'.widen (Nat.le_of_lt rest.2)).cons.cons)
  | '\\' :: d :: t =>
    match simpleEscape d with
    | none => .error .syntactic
    | some c => do
      let (text, rest) ← readText care t
      return (c :: text, rest.cons.cons)
  | c :: t =>
    if c = '"' then .ok ([], ⟨t, Nat.lt_succ_self _⟩)
    -- control characters are only allowed as escapes
    else if c.toNat < 0x20 then .error .syntactic
    else do
      let (text, rest) ← readText care t
      return (c :: text, rest.cons)
termination_by s.length
decreasing_by
  all_goals (simp only [List.length_cons]; omega)

/-! ## Numbers -/

/-- The fault where a digit is missing. -/
def missingDigit (care : Care) : List Char → Fault
  | [] => if care = .keep then .truncated else .syntactic
  | _ => .syntactic

/-- A number as written: its sign, the digits before and after the point, and the exponent. -/
structure Numeral where
  negative : Bool
  whole : List Char
  fraction : List Char
  exponent : Option Int

/-- The digits that `s` begins with, and the rest. -/
def digitsOf (s : List Char) : List Char × List Char := s.span Char.isDigit

/-- Digits of an integer: a zero may only stand alone. -/
def wholeOf (care : Care) (s : List Char) : Except Fault (List Char × List Char) :=
  let (digits, rest) := digitsOf s
  match digits with
  | [] => .error (missingDigit care rest)
  | '0' :: _ :: _ => .error .syntactic
  | digits => .ok (digits, rest)

/-- The digits after a point, if a point comes first. -/
def fractionOf (care : Care) : List Char → Except Fault (List Char × List Char)
  | '.' :: s =>
    let (digits, rest) := digitsOf s
    if digits.isEmpty then .error (missingDigit care rest) else .ok (digits, rest)
  | s => .ok ([], s)

/-- The exponent, if its mark comes first. -/
def exponentOf (care : Care) : List Char → Except Fault (Option Int × List Char)
  | [] => .ok (none, [])
  | c :: s =>
    if c = 'e' || c = 'E' then
      let (negative, t) := match s with
        | '-' :: t => (true, t)
        | '+' :: t => (false, t)
        | t => (false, t)
      let (digits, rest) := digitsOf t
      if digits.isEmpty then .error (missingDigit care rest)
      else
        let n : Int := Decimal.natOfDigits digits
        .ok (some (if negative then -n else n), rest)
    else .ok (none, c :: s)

/-- Reads the parts of a number, in order. -/
def numeralOf (care : Care) (s : List Char) : Except Fault (Numeral × List Char) := do
  let (negative, s) := match s with
    | '-' :: t => (true, t)
    | t => (false, t)
  let (whole, s) ← wholeOf care s
  let (fraction, s) ← fractionOf care s
  let (exponent, s) ← exponentOf care s
  return (⟨negative, whole, fraction, exponent⟩, s)

/-- The largest significand that is taken exactly. -/
def maxSignificand : Nat := Nat.pow 2 64 - 1

/-- Takes the digits before the point into the significand. Once one does not fit, that one and all
    after it only count for the exponent. -/
def takeWhole (significand : Nat) : List Char → Nat × Int
  | [] => (significand, 0)
  | c :: s =>
    let more := significand * 10 + (c.toNat - 48)
    if more ≤ maxSignificand then takeWhole more s else (significand, (c :: s).length)

/-- Takes the digits after the point into the significand, as long as they fit. -/
def takeFraction (significand : Nat) (exponent : Int) : List Char → Nat × Int
  | [] => (significand, exponent)
  | c :: s =>
    let more := significand * 10 + (c.toNat - 48)
    if more ≤ maxSignificand then takeFraction more (exponent - 1) s else (significand, exponent)

/-- The float `x * 10 ^ e`, by one rounding for each factor of at most `10 ^ 308`. There is none
    beyond the largest float. -/
def scale (x : Float) (e : Int) : Option Float :=
  if e.natAbs ≤ 308 then
    let power := Float.ofScientific 1 false e.natAbs
    let y := if 0 ≤ e then x * power else x / power
    if y.isInf then none else some y
  else if x == 0 then some x
  else if 0 ≤ e then none
  else scale (x / Float.ofScientific 1 false 308) (e + 308)
termination_by e.natAbs
decreasing_by omega

/-- The value of a number: an integer if it is written as one and has at most 64 bits, else a
    float. -/
def Numeral.value (n : Numeral) : Except Fault Json :=
  let (significand, beyond) := takeWhole 0 n.whole
  let integral := n.fraction.isEmpty && n.exponent.isNone && beyond = 0
  if integral && !n.negative then .ok (.integer significand)
  else if integral && 0 < significand && significand ≤ Nat.pow 2 63 then
    .ok (.integer (-significand))
  else
    let (significand, e) := takeFraction significand beyond n.fraction
    match scale (Float.ofNat significand) (e + n.exponent.getD 0) with
    | none => .error .syntactic
    | some x => .ok (.float (if n.negative then -x else x))

/-- Whether a number begins with `c`. -/
def startsNumber (c : Char) : Bool := c = '-' || c.isDigit

/-- Reads a number. Where nobody looks at it, it is not worked out, and may have any size. -/
def readNumber (care : Care) : Reader Json := fun s => do
  let (numeral, rest) ← numeralOf care s
  let value ← if care = .keep then numeral.value else .ok .null
  -- the parts have taken something, or one of them has failed
  if h : rest.length < s.length then return (value, ⟨rest, h⟩) else .error .syntactic

/-! ## Words -/

/-- Reads the word `word`. -/
def readWord (word : List Char) : Reader Unit := fun s =>
  match word, s with
  | [], _ => .error .syntactic
  | c :: [], d :: t => if c = d then .ok ((), ⟨t, Nat.lt_succ_self _⟩) else .error .syntactic
  | c :: word, d :: t =>
    if c = d then do
      let ((), rest) ← readWord word t
      return ((), rest.cons)
    else .error .syntactic
  | _, [] => .error .truncated

/-! ## Frames -/

/-- Reads the rest of an array, after its first element or its opening bracket. -/
def moreElements {α : Type} (read : Reader α) (first : Bool) (s : List Char) :
    Except Fault (List α × Shorter s) :=
  match _h : skipSpace s with
  | [] => .error .truncated
  | c :: t =>
    have hs : t.length < s.length := by
      have := length_skipSpace_le s; rw [_h, List.length_cons] at this; omega
    if c = ']' then .ok ([], ⟨t, hs⟩)
    -- a comma is due, but for the first element
    else if !first && c ≠ ',' then .error .syntactic
    else
      let u := skipSpace (if first then c :: t else t)
      have hu : u.length ≤ s.length := by
        have h1 := length_skipSpace_le (if first then c :: t else t)
        have h2 := length_skipSpace_le s
        rw [_h, List.length_cons] at h2
        have h3 : (if first then c :: t else t).length ≤ t.length + 1 := by split <;> simp
        exact Nat.le_trans h1 (Nat.le_trans h3 h2)
      match u with
      | [] => .error .truncated
      | d :: u' =>
        -- nothing comes between a comma and the end
        if d = ']' then .error .syntactic
        else do
          let (value, rest) ← read (d :: u')
          let (values, rest') ← moreElements read false rest.1
          return (value :: values, rest'.widen (by omega))
termination_by s.length
decreasing_by omega

/-- Reads an array after its opening bracket. -/
def elements {α : Type} (read : Reader α) : Reader (List α) := moreElements read true

/-- Reads a key. -/
def readKey (care : Care) : Reader String := fun s =>
  match s with
  | [] => .error .truncated
  | c :: t =>
    if c = '"' then do
      let (key, rest) ← readText care t
      return (String.ofList key, rest.cons)
    else .error .syntactic

/-- Reads a colon, and then what `read` reads. -/
def afterColon {α : Type} (read : Reader α) : Reader α :=
  spaced fun s =>
    match s with
    | [] => .error .truncated
    | c :: t =>
      if c = ':' then do
        let (value, rest) ← spaced read t
        return (value, rest.cons)
      else .error .syntactic

/-- Reads the rest of an object, after its first field or its opening brace. `read` is given what
    the fields so far amount to and the key of the next one, and may refuse the key. -/
def moreFields {σ : Type} (care : Care) (read : σ → String → Except Fault (Reader σ)) (first : Bool)
    (state : σ) (s : List Char) : Except Fault (σ × Shorter s) :=
  match _h : skipSpace s with
  | [] => .error .truncated
  | c :: t =>
    have hs : t.length < s.length := by
      have := length_skipSpace_le s; rw [_h, List.length_cons] at this; omega
    if c = '}' then .ok (state, ⟨t, hs⟩)
    else if !first && c ≠ ',' then .error .syntactic
    else
      -- the comma is skipped, which the first field has none of
      let u := skipSpace (if first then c :: t else t)
      have hu : u.length ≤ s.length := by
        have h1 := length_skipSpace_le (if first then c :: t else t)
        have h2 := length_skipSpace_le s
        rw [_h, List.length_cons] at h2
        have h3 : (if first then c :: t else t).length ≤ t.length + 1 := by split <;> simp
        exact Nat.le_trans h1 (Nat.le_trans h3 h2)
      do
        let (key, rest) ← readKey care u
        let step ← read state key
        let (state', rest') ← afterColon step rest.1
        let (final, rest'') ← moreFields care read false state' rest'.1
        return (final, rest''.widen (by omega))
termination_by s.length
decreasing_by omega

/-! ## Values -/

/-- How deep values may be nested. -/
def maxDepth : Nat := 127

/-- Reads a value that is nested at most `depth` deep. -/
def readValue (care : Care) : (depth : Nat) → Reader Json
  | depth, s =>
    match s with
    | [] => .error .truncated
    | c :: t =>
      if c = 'n' then do
        let ((), rest) ← readWord "ull".toList t
        return (.null, rest.cons)
      else if c = 't' then do
        let ((), rest) ← readWord "rue".toList t
        return (.bool true, rest.cons)
      else if c = 'f' then do
        let ((), rest) ← readWord "alse".toList t
        return (.bool false, rest.cons)
      else if startsNumber c then readNumber care (c :: t)
      else if c = '"' then do
        let (text, rest) ← readText care t
        return (.string (String.ofList text), rest.cons)
      else if c = '[' then
        -- values inside are nested one deeper
        match depth with
        | 0 => .error .syntactic
        | depth + 1 => do
          let (items, rest) ← elements (readValue care depth) t
          return (.array items, rest.cons)
      else if c = '{' then
        match depth with
        | 0 => .error .syntactic
        | depth + 1 => do
          let read (fields : Fields) (key : String) : Except Fault (Reader Fields) :=
            .ok fun s => do
            let (value, rest) ← readValue care depth s
            return (insert key value fields, rest)
          let (fields, rest) ← moreFields care read true [] t
          return (.object fields, rest.cons)
      else .error .syntactic

/-- Reads past a value, however deep. -/
def skipValue : Reader Unit := fun s => do
  let (_, rest) ← readValue .skim s.length s
  return ((), rest)

/-! ## Values of a wanted type -/

/-- The fault of a value that begins in front of `s` and is not of the wanted type. -/
def mistyped {α : Type} (s : List Char) : Except Fault α :=
  match s with
  | '[' :: _ | '{' :: _ => .error .mistyped
  | s =>
    match readValue .keep 0 s with
    | .error fault => .error fault
    | .ok _ => .error .mistyped

/-- Reads a text, where a text is wanted. -/
def readString : Reader String := fun s =>
  match s with
  | '"' :: t => do
    let (text, rest) ← readText .keep t
    return (String.ofList text, rest.cons)
  | s => mistyped s

/-- Reads a natural number below `bound`. -/
def readNat (bound : Nat) : Reader Nat := fun s =>
  match s with
  | c :: t =>
    if startsNumber c then do
      let (value, rest) ← readNumber .keep (c :: t)
      match value with
      | .integer (.ofNat n) => if n < bound then return (n, rest) else .error .mistyped
      | _ => .error .mistyped
    else mistyped (c :: t)
  | s => mistyped s

/-- Reads an array of values that `read` reads. -/
def readList {α : Type} (read : Reader α) : Reader (List α) := fun s =>
  match s with
  | '[' :: t => do
    let (items, rest) ← elements read t
    return (items, rest.cons)
  | s => mistyped s

/-- Reads an object, from the state before its first field. -/
def readObject {σ : Type} (read : σ → String → Except Fault (Reader σ)) (start : σ) : Reader σ :=
  fun s =>
    match s with
    | '{' :: t => do
      let (state, rest) ← moreFields .keep read true start t
      return (state, rest.cons)
    | s => mistyped s

/-- Reads `null`, or what `read` reads. -/
def readOption {α : Type} (read : Reader α) : Reader (Option α) := fun s =>
  match s with
  | 'n' :: t => do
    let ((), rest) ← readWord "ull".toList t
    return (none, rest.cons)
  | s => do
    let (value, rest) ← read s
    return (some value, rest)

/-- Reads the fields of any object, nested at most `depth` deep. -/
def readFields (depth : Nat) : Reader Fields :=
  readObject (fun fields key => .ok fun s => do
    let (value, rest) ← readValue .keep depth s
    return (insert key value fields, rest)) []

/-- Reads a whole text: one value, with nothing but blanks around it. -/
def readAll {α : Type} (read : Reader α) (text : String) : Except Fault α := do
  let (value, rest) ← spaced read text.toList
  if (skipSpace rest.1).isEmpty then return value else .error .syntactic

/-- The value of a JSON text. -/
def parse (text : String) : Except Fault Json := readAll (readValue .keep maxDepth) text

end Stache.Json
