/-
  Patterns for paths.

  1. **Pieces** — a pattern is read into a list of pieces: `?` stands for a character, `*` for any
     part of a component, `[ab]`, `[a-z]` and `[!a]` for a character of a class, and `**` for whole
     components, any number of them. Neither of these takes a slash, but for `**`; a slash is only
     matched by a slash. `**` has to stand alone between slashes or at an end of the pattern; with a
     slash behind it, it takes the slash along.

  2. **Matching** — each piece takes a part off the front of the text, and several parts may do. So
     a piece is described by what may be left over (`Piece.rests`), and a pattern matches if some
     way leaves nothing.

  3. **Escaping** — a character that means something in a pattern is written as a class of its own,
     so that any text can be made into a pattern for it alone.

  This is the syntax of a library for patterns, with its faults and their words.  That its matcher
  answers what `Piece.rests` says is ASSUMED of it: it tries the ways one by one, and may give up
  early where the pattern does not match.
-/

namespace Stache.Glob

/-! ## Pieces -/

/-- The characters from `first` to `last`. -/
structure Range where
  first : Char
  last : Char
deriving DecidableEq, Repr

/-- A part of a pattern that takes a part of the text. -/
inductive Piece where
  /-- The character itself. -/
  | char (c : Char)
  /-- `?`. -/
  | any
  /-- A class in brackets. -/
  | oneOf (ranges : List Range)
  /-- A class in brackets that begins with `!`. -/
  | noneOf (ranges : List Range)
  /-- `*`. -/
  | run
  /-- `**`, with the slash behind it. -/
  | components
deriving DecidableEq, Repr

/-- Pieces, from left to right. -/
abbrev Pattern := List Piece

/-- What a pattern may have wrong. -/
inductive Reason where
  /-- Three or more asterisks in a row. -/
  | asterisks
  /-- `**` next to something other than a slash. -/
  | component
  /-- A class that is empty or does not end. -/
  | range
deriving DecidableEq, Repr

/-- A mistake in a pattern, with the number of characters in front of it. -/
structure Fault where
  position : Nat
  reason : Reason
deriving DecidableEq, Repr

/-- The ranges of a class: three characters with a dash in the middle are a range, any other
    character stands for itself. -/
def ranges : List Char → List Range
  | [] => []
  | a :: '-' :: b :: s => ⟨a, b⟩ :: ranges s
  | c :: s => ⟨c, c⟩ :: ranges s

/-- Reads a class behind its opening bracket. The first character belongs to the class even if it is
    a closing bracket. -/
def readClass (s : List Char) : Option (Piece × List Char) :=
  let close (make : List Range → Piece) (c : Char) (t : List Char) : Option (Piece × List Char) :=
    match t.dropWhile (· ≠ ']') with
    | [] => none
    | _ :: rest => some (make (ranges (c :: t.takeWhile (· ≠ ']'))), rest)
  match s with
  | ['!'] => none
  | '!' :: c :: t => close .noneOf c t
  | c :: t => close .oneOf c t
  | [] => none

/-- A class ends at its bracket, so that less is left than there was. -/
theorem length_readClass_lt {s rest : List Char} {piece : Piece}
    (h : readClass s = some (piece, rest)) : rest.length < s.length := by
  -- what is behind the closing bracket is shorter, however the class was begun
  have key : ∀ (make : List Range → Piece) (c : Char) (t : List Char),
      (match t.dropWhile (· ≠ ']') with
        | [] => none
        | _ :: rest => some (make (ranges (c :: t.takeWhile (· ≠ ']'))), rest)) =
          some (piece, rest) →
        rest.length < t.length := by
    intro make c t ht
    split at ht
    · simp at ht
    · rename_i d more hd
      have hrest : more = rest := congrArg Prod.snd (Option.some.inj ht)
      subst hrest
      have := (List.dropWhile_sublist (· ≠ ']') (l := t)).length_le
      rw [hd, List.length_cons] at this
      omega
  unfold readClass at h
  split at h
  · simp at h
  · have := key _ _ _ h
    simp only [List.length_cons]; omega
  · have := key _ _ _ h
    simp only [List.length_cons]; omega
  · simp at h

/-- Reads a pattern from `position` on. `fresh` tells whether a component begins here. -/
def readPieces (position : Nat) (fresh : Bool) (s : List Char) : Except Fault Pattern :=
  match s with
  | [] => .ok []
  | '*' :: '*' :: '*' :: _ => .error ⟨position + 2, .asterisks⟩
  | '*' :: '*' :: t =>
    if fresh then
      match t with
      | [] => .ok [.components]
      | '/' :: u => (readPieces (position + 3) true u).map (.components :: ·)
      | _ => .error ⟨position + 2, .component⟩
    else .error ⟨position - 1, .component⟩
  | '*' :: t => (readPieces (position + 1) false t).map (.run :: ·)
  | '?' :: t => (readPieces (position + 1) false t).map (.any :: ·)
  | '[' :: t =>
    match h : readClass t with
    | none => .error ⟨position, .range⟩
    | some (piece, u) =>
      have := length_readClass_lt h
      (readPieces (position + 1 + (t.length - u.length)) false u).map (piece :: ·)
  | c :: t => (readPieces (position + 1) (c = '/') t).map (.char c :: ·)
termination_by s.length

/-- The pattern that a text stands for. -/
def Pattern.parse (text : String) : Except Fault Pattern := readPieces 0 true text.toList

/-! ## Matching -/

/-- The character is in the range, ends included. -/
def Range.has (r : Range) (c : Char) : Bool := r.first ≤ c && c ≤ r.last

/-- The tails of `s` that begin within its first component or right at its end. -/
def tailsInComponent : List Char → List (List Char)
  | [] => [[]]
  | c :: s => (c :: s) :: if c = '/' then [] else tailsInComponent s

/-- The tails of `s` that begin behind a slash, and the empty one. -/
def tailsBelow : List Char → List (List Char)
  | [] => [[]]
  | c :: s => if c = '/' then s :: tailsBelow s else tailsBelow s

/-- A piece that takes a single character: does it take this one? -/
def Piece.takes : Piece → Char → Bool
  | .char d, c => c = d
  | .any, c => c ≠ '/'
  | .oneOf ranges, c => c ≠ '/' && ranges.any (·.has c)
  | .noneOf ranges, c => c ≠ '/' && !ranges.any (·.has c)
  | .run, _ => false
  | .components, _ => false

/-- What may be left of `s` when the piece has taken its part off the front. -/
def Piece.rests (piece : Piece) (s : List Char) : List (List Char) :=
  match piece with
  | .run => tailsInComponent s
  | .components => s :: tailsBelow s
  | single =>
    match s with
    | [] => []
    | c :: t => if single.takes c then [t] else []

/-- Each of `tails` once. Different tails of one text differ in length, so lengths are compared
    first. -/
def distinct (tails : List (List Char)) : List (List Char) :=
  ((tails.map fun tail => (tail.length, tail)).eraseDups).map (·.2)

/-- What may be left of `s` when all pieces have taken their parts, each remainder once. -/
def Pattern.rests (pattern : Pattern) (s : List Char) : List (List Char) :=
  pattern.foldl (fun tails piece => distinct (tails.flatMap piece.rests)) [s]

/-- Does the pattern match all of `s`? -/
def Pattern.matches (pattern : Pattern) (s : List Char) : Bool := (pattern.rests s).contains []

/-! ## Escaping -/

/-- Does `c` mean something in a pattern? -/
def isSpecial (c : Char) : Bool := c = '?' || c = '*' || c = '[' || c = ']'

/-- The text of a pattern that matches `s` and nothing else. -/
def escape (s : List Char) : List Char :=
  s.flatMap fun c => if isSpecial c then ['[', c, ']'] else [c]

/-! ## Messages -/

/-- The words of the library for a fault. -/
def Reason.describe : Reason → String
  | .asterisks => "wildcards are either regular \x60*\x60 or recursive \x60**\x60"
  | .component => "recursive wildcards must form a single path component"
  | .range => "invalid range pattern"

/-- The same with the place of the fault in front. -/
def Fault.message (fault : Fault) : String :=
  "Pattern syntax error near position " ++ toString fault.position ++ ": " ++ fault.reason.describe

end Stache.Glob
