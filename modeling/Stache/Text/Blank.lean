/-
  Blank characters and blank lines.

  A character is BLANK when it has the Unicode property White_Space; templates use the property in
  two ways, and the two halves of this file follow them:

    1. trimming at an end of a text: of every blank (`dropBlankStart`, `dropBlankEnd`), or of no
       more than one line's worth (`dropLineStart`, `dropIndentEnd`);
    2. asking whether a text begins (`startsLine`) or ends (`endsLine`) a line, which is a question
       about its outermost run of blanks alone: does that run hold a line feed?

  Everything is stated over `List Char`, so that each cut is a `takeWhile` or a `dropWhile` and the
  library's lemmas on those two apply.
-/

namespace Stache.Text

/-! ## The property -/

/-- The code points with the Unicode property White_Space, as closed ranges in ascending order. -/
def blankRanges : List (Nat × Nat) :=
  [(0x09, 0x0d), (0x20, 0x20), (0x85, 0x85), (0xa0, 0xa0), (0x1680, 0x1680), (0x2000, 0x200a),
   (0x2028, 0x2029), (0x202f, 0x202f), (0x205f, 0x205f), (0x3000, 0x3000)]

/-- Whether `c` lies in one of `ranges`. -/
def inRanges (ranges : List (Nat × Nat)) (c : Char) : Bool :=
  ranges.any fun range => range.1 ≤ c.toNat && c.toNat ≤ range.2

/-- The character is blank. -/
def isBlank (c : Char) : Bool := inRanges blankRanges c

/-- The blanks that indent a line: space and tab. -/
def isIndent (c : Char) : Bool := c = ' ' || c = '\t'

theorem isBlank_of_isIndent {c : Char} (h : isIndent c = true) : isBlank c = true := by
  simp only [isIndent, Bool.or_eq_true, decide_eq_true_eq] at h
  rcases h with rfl | rfl <;> decide

/-! ## Trimming -/

/-- The longest end of `s` whose characters all satisfy `p`. -/
def takeEndWhile (p : Char → Bool) (s : List Char) : List Char := (s.reverse.takeWhile p).reverse

/-- `s` without the longest end whose characters all satisfy `p`. -/
def dropEndWhile (p : Char → Bool) (s : List Char) : List Char := (s.reverse.dropWhile p).reverse

theorem dropEndWhile_append_takeEndWhile (p : Char → Bool) (s : List Char) :
    dropEndWhile p s ++ takeEndWhile p s = s := by
  rw [dropEndWhile, takeEndWhile, ← List.reverse_append, List.takeWhile_append_dropWhile,
    List.reverse_reverse]

/-- The text without the blanks at its start. -/
def dropBlankStart (s : List Char) : List Char := s.dropWhile isBlank

/-- The text without the blanks at its end. -/
def dropBlankEnd (s : List Char) : List Char := dropEndWhile isBlank s

/-- `s` without `c`, should it stand first. -/
def dropOne (c : Char) : List Char → List Char
  | [] => []
  | d :: s => if d = c then s else d :: s

/-- Removes what is left of an otherwise empty line: its indentation and one line break. -/
def dropLineStart (s : List Char) : List Char := dropOne '\n' (dropOne '\r' (s.dropWhile isIndent))

/-- The indentation at the end of `s`. -/
def indentEnd (s : List Char) : List Char := takeEndWhile isIndent s

/-- The text without the indentation that it ends with. -/
def dropIndentEnd (s : List Char) : List Char := dropEndWhile isIndent s

/-! ## Lines -/

/-- Whether the blanks that end `s` hold a line feed. With `atTop`, where the text before `s` is
    the start of the file, a text of blanks alone ends a line as well. -/
def endsLine (atTop : Bool) (s : List Char) : Bool :=
  (takeEndWhile isBlank s).contains '\n' || (atTop && s.all isBlank)

/-- Whether the blanks that begin `s` hold a line feed. With `atTop`, where the text after `s` is
    the end of the file, a text of blanks alone begins a line as well. -/
def startsLine (atTop : Bool) (s : List Char) : Bool :=
  (s.takeWhile isBlank).contains '\n' || (atTop && s.all isBlank)

end Stache.Text
