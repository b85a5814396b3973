/-
  The two edges of a text are cut independently.

  A trim at the start of a text and one at its end may be done in either order, whichever blanks
  they look for (`dropBlankStart_dropBlankEnd`, `dropLineStart_dropIndentEnd`).  Both facts rest on
  one equation, which builds a text from its front and tells what a cut at its END does meanwhile:
  nothing is kept as long as nothing is kept so far and the new character is to go too
  (`dropEndWhile_cons`).
-/
import Mathlib.Data.List.DropRight
import Stache.Text.Blank

namespace Stache.Text

/-! ## A cut at the end, from the front -/

/-- What a cut at the end makes of a text, from its front. -/
theorem dropEndWhile_cons (p : Char → Bool) (c : Char) (s : List Char) :
    dropEndWhile p (c :: s)
      = if p c = true ∧ dropEndWhile p s = [] then [] else c :: dropEndWhile p s := by
  simp only [dropEndWhile, List.reverse_cons, List.dropWhile_append, List.reverse_eq_nil_iff,
    List.isEmpty_iff]
  by_cases hs : s.reverse.dropWhile p = []
  · by_cases hc : p c = true
    · simp [hs, hc]
    · simp [hs, hc]
  · simp [hs]

/-- A text keeps something as soon as one of its characters is to stay. -/
theorem dropEndWhile_cons_of_neg {p : Char → Bool} {c : Char} (h : ¬ p c = true) (s : List Char) :
    dropEndWhile p (c :: s) = c :: dropEndWhile p s := by
  rw [dropEndWhile_cons, if_neg fun hc => h hc.1]

theorem dropEndWhile_idem (p : Char → Bool) (s : List Char) :
    dropEndWhile p (dropEndWhile p s) = dropEndWhile p s :=
  List.rdropWhile_idempotent p s

/-- A cut at the start may be done before a cut at the end, or after it. -/
theorem dropWhile_dropEndWhile (p : Char → Bool) (s : List Char) :
    (dropEndWhile p s).dropWhile p = dropEndWhile p (s.dropWhile p) := by
  induction s with
  | nil => rfl
  | cons c s ih =>
    by_cases hc : p c = true
    · rw [dropEndWhile_cons, List.dropWhile_cons_of_pos hc, ← ih]
      split
      · rename_i h
        rw [h.2]
      · rw [List.dropWhile_cons_of_pos hc]
    · rw [dropEndWhile_cons_of_neg hc, List.dropWhile_cons_of_neg hc, List.dropWhile_cons_of_neg hc,
        dropEndWhile_cons_of_neg hc]

theorem dropBlankStart_idem (s : List Char) :
    dropBlankStart (dropBlankStart s) = dropBlankStart s :=
  List.dropWhile_idempotent isBlank s

theorem dropBlankEnd_idem (s : List Char) : dropBlankEnd (dropBlankEnd s) = dropBlankEnd s :=
  dropEndWhile_idem isBlank s

/-- **Blanks at the two edges** may be cut in either order, -/
theorem dropBlankStart_dropBlankEnd (s : List Char) :
    dropBlankStart (dropBlankEnd s) = dropBlankEnd (dropBlankStart s) :=
  dropWhile_dropEndWhile isBlank s

/-! ## One line's worth -/

/-- A cut at the end leaves a first character that stays where it is. -/
theorem dropOne_dropEndWhile {p : Char → Bool} {c : Char} (hc : ¬ p c = true) (s : List Char) :
    dropOne c (dropEndWhile p s) = dropEndWhile p (dropOne c s) := by
  cases s with
  | nil => rfl
  | cons d s =>
    by_cases hd : d = c
    · subst hd
      rw [dropEndWhile_cons_of_neg hc, dropOne, dropOne, if_pos rfl, if_pos rfl]
    · rw [dropOne, if_neg hd, dropEndWhile_cons]
      split
      · rfl
      · rw [dropOne, if_neg hd]

theorem dropLineStart_dropIndentEnd (s : List Char) :
    dropLineStart (dropIndentEnd s) = dropIndentEnd (dropLineStart s) := by
  rw [dropLineStart, dropLineStart, dropIndentEnd, dropIndentEnd, dropWhile_dropEndWhile,
    dropOne_dropEndWhile (by decide), dropOne_dropEndWhile (by decide)]

theorem dropIndentEnd_idem (s : List Char) : dropIndentEnd (dropIndentEnd s) = dropIndentEnd s :=
  dropEndWhile_idem isIndent s

/-! ## Both edges -/

/-- The text `s` without the blanks at the edges that are to lose them. -/
def trimBlanks (atStart atEnd : Bool) (s : List Char) : List Char :=
  let s := if atStart then dropBlankStart s else s
  if atEnd then dropBlankEnd s else s

/-- Both edges may be cut one at a time: blanks at the start first, -/
theorem trimBlanks_dropBlankStart (atStart atEnd : Bool) (s : List Char) :
    trimBlanks atStart atEnd (dropBlankStart s) = trimBlanks true atEnd s := by
  cases atStart <;> simp [trimBlanks, dropBlankStart_idem]

/-- or at the end; -/
theorem trimBlanks_dropBlankEnd (atStart atEnd : Bool) (s : List Char) :
    trimBlanks atStart atEnd (dropBlankEnd s) = trimBlanks atStart true s := by
  cases atStart <;> cases atEnd <;>
    simp [trimBlanks, dropBlankEnd_idem, dropBlankStart_dropBlankEnd]

/-- The text `s` without one line's worth at the edges that are to lose it. -/
def trimLine (atStart atEnd : Bool) (s : List Char) : List Char :=
  let s := if atStart then dropLineStart s else s
  if atEnd then dropIndentEnd s else s

theorem trimLine_start (atEnd : Bool) (s : List Char) :
    dropLineStart (trimLine false atEnd s) = trimLine true atEnd s := by
  cases atEnd <;> simp [trimLine, dropLineStart_dropIndentEnd]

theorem trimLine_end (atStart atEnd : Bool) (s : List Char) :
    dropIndentEnd (trimLine atStart atEnd s) = trimLine atStart true s := by
  cases atEnd <;> simp [trimLine, dropIndentEnd_idem]

end Stache.Text
