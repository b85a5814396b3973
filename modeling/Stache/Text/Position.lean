/-
  Positions in a text, as editors and source maps count them: lines from 1, columns from 0, a column
  being a count of UTF-16 units. Only a line feed starts a new line.

  A position is moved along a text by `Position.advance`, a left fold. So no table of line starts is
  kept, and the position after `s ++ t` is the position after `t`, counted from the one after `s`
  (`advance_append`).

  Counting is exact. A position is REPORTED with 32 bits for either count, which is how it stands in
  a tree that is handed out, in messages, in code and in source maps (`Position.reported`). Where
  both counts fit into 32 bits this is the position itself (`reported_of_fits`); elsewhere it is
  not, as counts then start over from zero.
-/

namespace Stache

/-- The number of UTF-16 units that write `c`. -/
def units16 (c : Char) : Nat := if c.toNat < 0x10000 then 1 else 2

/-- A place between two characters of a text. -/
structure Position where
  line : Nat
  column : Nat
deriving DecidableEq, Repr

namespace Position

/-- Where every text begins. -/
def origin : Position := ⟨1, 0⟩

/-- The position just after `c`, when `c` stands at `p`. -/
def next (p : Position) (c : Char) : Position :=
  if c = '\n' then ⟨p.line + 1, 0⟩ else ⟨p.line, p.column + units16 c⟩

/-- The position just after `s`, when `s` begins at `p`. -/
def advance (p : Position) (s : List Char) : Position := s.foldl next p

@[simp] theorem advance_nil (p : Position) : p.advance [] = p := rfl

@[simp] theorem advance_cons (p : Position) (c : Char) (s : List Char) :
    p.advance (c :: s) = (p.next c).advance s := rfl

theorem advance_append (p : Position) (s t : List Char) :
    p.advance (s ++ t) = (p.advance s).advance t := List.foldl_append

/-- The position as it is reported: of either count the low 32 bits are kept. -/
def reported (p : Position) : Position := ⟨p.line.toUInt32.toNat, p.column.toUInt32.toNat⟩

/-- Both counts fit into 32 bits. -/
def Fits (p : Position) : Prop := p.line < UInt32.size ∧ p.column < UInt32.size

instance (p : Position) : Decidable p.Fits :=
  inferInstanceAs (Decidable (p.line < UInt32.size ∧ p.column < UInt32.size))

/-- A position is reported as it is if it fits. -/
theorem reported_of_fits {p : Position} (h : p.Fits) : p.reported = p := by
  have hkept {n : Nat} (hn : n < UInt32.size) : n.toUInt32.toNat = n := UInt32.toNat_ofNat_of_lt' hn
  rw [reported, hkept h.1, hkept h.2]

end Position

/-- A stretch of text, from `start` up to but not including `stop`. -/
structure Span where
  start : Position
  stop : Position
deriving DecidableEq, Repr

end Stache
