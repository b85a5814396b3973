/-
  Lines of a file, and lines as the standalone rule sees them.

  Whether a tag has a line to itself is a question about the file: do only spaces and tabs stand
  between the tag and the line feeds around it (`blankBefore`, `blankAfter`)?  The standalone rule
  never looks at the file, but only at the one content next to the tag, and asks whether its
  outermost run of blanks holds a line feed (`endsLine`, `startsLine`).  The two questions have the
  same answer (`blankBefore_append`, `blankAfter_append`) under two conditions, each of which the
  rule does without:

    * the only blanks are spaces, tabs and line feeds (`PlainBlanks`);
    * on the far side of the content stands the end of the file, or a character that is not blank.
-/
import Stache.Proofs.Text.Edges

namespace Stache.Text

/-- The only blanks in `s` are spaces, tabs and line feeds. -/
def PlainBlanks (s : List Char) : Prop := ∀ c ∈ s, isBlank c = true → isIndent c = true ∨ c = '\n'

instance (s : List Char) : Decidable (PlainBlanks s) :=
  decidable_of_iff (s.all fun c => !isBlank c || isIndent c || c == '\n') <| by
    simp [PlainBlanks, or_assoc, imp_iff_not_or]

theorem PlainBlanks.subset {s t : List Char} (h : PlainBlanks t) (hs : s ⊆ t) : PlainBlanks s :=
  fun c hc => h c (hs hc)

/-- Only spaces and tabs stand before the first line feed of `s`, or before its end. -/
def blankAfter (s : List Char) : Bool := (s.takeWhile (· ≠ '\n')).all isIndent

/-- Only spaces and tabs stand after the last line feed of `s`, or in `s` if there is none. -/
def blankBefore (s : List Char) : Bool := (takeEndWhile (· ≠ '\n') s).all isIndent

theorem isIndent_linefeed : isIndent '\n' = false := by decide

theorem isBlank_linefeed : isBlank '\n' = true := by decide

/-! ## One line -/

theorem blankAfter_linefeed (s : List Char) : blankAfter ('\n' :: s) = true := rfl

theorem blankAfter_cons {c : Char} (h : c ≠ '\n') (s : List Char) :
    blankAfter (c :: s) = (isIndent c && blankAfter s) := by
  simp [blankAfter, h]

/-- A character that is not blank ends the line. -/
theorem blankAfter_of_not_isBlank {c : Char} (h : isBlank c = false) (s : List Char) :
    blankAfter (c :: s) = false := by
  have hne : c ≠ '\n' := by
    rintro rfl
    rw [isBlank_linefeed] at h
    cases h
  have hindent : isIndent c = false := by
    by_contra hc
    rw [isBlank_of_isIndent (Bool.not_eq_false _ ▸ hc)] at h
    cases h
  rw [blankAfter_cons hne, hindent, Bool.false_and]

/-- A text starts a line with its first line feed, if nothing but blanks is in front. -/
theorem startsLine_cons (atTop : Bool) (c : Char) (s : List Char) :
    startsLine atTop (c :: s) = (isBlank c && (c == '\n' || startsLine atTop s)) := by
  rw [startsLine, startsLine, List.takeWhile_cons]
  cases hc : isBlank c with
  | false => simp [hc]
  | true =>
    rw [if_pos rfl, List.contains_cons, List.all_cons, hc, Bool.true_and, Bool.true_and,
      Bool.or_assoc, BEq.comm]

/-- **The line after a tag.**  Let `s` be the content after a tag and `t` what follows the content.
    -/
theorem blankAfter_append {s t : List Char} (hs : PlainBlanks s) {atEnd : Bool}
    (hend : atEnd = true → t = [])
    (hmore : atEnd = false → ∃ c u, t = c :: u ∧ isBlank c = false) :
    blankAfter (s ++ t) = startsLine atEnd s := by
  induction s with
  | nil =>
    cases atEnd with
    | true =>
      rw [hend rfl]
      rfl
    | false =>
      obtain ⟨c, u, rfl, hc⟩ := hmore rfl
      exact blankAfter_of_not_isBlank hc u
  | cons c s ih =>
    have ih := ih (hs.subset (List.subset_cons_self c s))
    rw [List.cons_append, startsLine_cons]
    by_cases hfeed : c = '\n'
    · subst hfeed
      rw [blankAfter_linefeed, isBlank_linefeed]
      rfl
    · rw [blankAfter_cons hfeed, ih]
      -- but for the line feed, what is blank here is indentation
      have hblank : isBlank c = isIndent c := by
        cases hc : isBlank c with
        | false =>
          by_contra hne
          rw [isBlank_of_isIndent (by simpa using Ne.symm hne)] at hc
          cases hc
        | true =>
          exact ((hs c (List.mem_cons_self ..) hc).resolve_right hfeed).symm
      rw [hblank, beq_eq_false_iff_ne.2 hfeed, Bool.false_or]

/-! ## The same from the other side -/

theorem PlainBlanks.reverse {s : List Char} (h : PlainBlanks s) : PlainBlanks s.reverse :=
  fun c hc => h c (List.mem_reverse.1 hc)

theorem blankBefore_eq_reverse (s : List Char) : blankBefore s = blankAfter s.reverse := by
  rw [blankBefore, blankAfter, takeEndWhile, List.all_reverse]

theorem endsLine_eq_reverse (atTop : Bool) (s : List Char) :
    endsLine atTop s = startsLine atTop s.reverse := by
  rw [endsLine, startsLine, takeEndWhile, List.all_reverse, List.contains_reverse]

/-- **The line before a tag.**  Let `s` be the content before a tag and `t` what precedes it. -/
theorem blankBefore_append {s t : List Char} (hs : PlainBlanks s) {atTop : Bool}
    (htop : atTop = true → t = [])
    (hmore : atTop = false → ∃ u c, t = u ++ [c] ∧ isBlank c = false) :
    blankBefore (t ++ s) = endsLine atTop s := by
  rw [blankBefore_eq_reverse, endsLine_eq_reverse, List.reverse_append]
  apply blankAfter_append hs.reverse
  · intro h
    rw [htop h, List.reverse_nil]
  · intro h
    obtain ⟨u, c, rfl, hc⟩ := hmore h
    exact ⟨c, u.reverse, by simp, hc⟩

theorem blankBefore_of_not_isBlank {c : Char} (h : isBlank c = false) (s : List Char) :
    blankBefore (s ++ [c]) = false := by
  rw [blankBefore_eq_reverse, List.reverse_concat]
  exact blankAfter_of_not_isBlank h _

/-! ## Indentation -/

theorem mem_of_mem_takeEndWhile {p : Char → Bool} {s : List Char} {c : Char}
    (h : c ∈ takeEndWhile p s) : c ∈ s :=
  List.mem_reverse.1 ((List.takeWhile_prefix p).subset (List.mem_reverse.1 h))

/-- What ends in no blank does not prolong the indentation after it. -/
theorem indentEnd_append {s t : List Char} (ht : t = [] ∨ ∃ u c, t = u ++ [c] ∧ isBlank c = false) :
    indentEnd (t ++ s) = indentEnd s := by
  rcases ht with rfl | ⟨u, c, rfl, hc⟩
  · rfl
  · have hindent : ¬ isIndent c = true := by
      intro h
      rw [isBlank_of_isIndent h] at hc
      cases hc
    simp only [indentEnd, takeEndWhile, List.reverse_append, List.takeWhile_append]
    split
    · rename_i hall
      simp [hindent, List.IsPrefix.eq_of_length (List.takeWhile_prefix _) hall]
    · rfl

/-- A text that ends in indentation ends with a space or a tab. -/
theorem getLast?_of_indentEnd_ne_nil {s : List Char} (h : indentEnd s ≠ []) :
    ∃ c, s.getLast? = some c ∧ isIndent c = true := by
  rw [indentEnd, takeEndWhile, ne_eq, List.reverse_eq_nil_iff] at h
  cases hs : s.reverse with
  | nil => rw [hs] at h; exact (h rfl).elim
  | cons c r =>
    rw [hs, List.takeWhile_cons] at h
    refine ⟨c, ?_, ?_⟩
    · rw [← List.head?_reverse, hs]
      rfl
    · by_contra hc
      rw [if_neg hc] at h
      exact h rfl

/-- A text that ends in an indentation loses something to a cut at the end. -/
theorem dropIndentEnd_ne_self {s : List Char} {c : Char} (hlast : s.getLast? = some c)
    (hc : isIndent c = true) : dropIndentEnd s ≠ s := by
  intro h
  have hne : s ≠ [] := by
    rintro rfl
    cases hlast
  refine (List.rdropWhile_eq_self_iff.1 h) hne ?_
  rw [List.getLast?_eq_getLast_of_ne_nil hne, Option.some.injEq] at hlast
  rw [hlast]
  exact hc

/-- One character is dropped at most, -/
theorem dropOne_suffix (c : Char) (s : List Char) : dropOne c s <:+ s := by
  cases s with
  | nil => exact List.suffix_refl _
  | cons d s =>
    rw [dropOne]
    split
    · exact List.suffix_cons d s
    · exact List.suffix_refl _

/-- and one line. -/
theorem dropLineStart_suffix (s : List Char) : dropLineStart s <:+ s :=
  ((dropOne_suffix _ _).trans (dropOne_suffix _ _)).trans (List.dropWhile_suffix _)

/-- Where a cut at the start leaves something, the end stays as it is. -/
theorem getLast?_dropLineStart {s : List Char} (h : dropLineStart s ≠ []) :
    (dropLineStart s).getLast? = s.getLast? := by
  obtain ⟨u, hu⟩ := dropLineStart_suffix s
  conv_rhs => rw [← hu]
  rw [List.getLast?_append_of_ne_nil _ h]

/-- One line's worth at the start is not everything, if an indentation stands after a line feed. -/
theorem dropLineStart_ne_nil {s : List Char} {c : Char} (hfeed : '\n' ∈ s)
    (hlast : s.getLast? = some c) (hc : isIndent c = true) : dropLineStart s ≠ [] := by
  intro hnil
  -- What follows the indentation at the start is a line break, or nothing.
  have hrest : s.dropWhile isIndent = [] ∨ ∃ u d, s.dropWhile isIndent = u ++ [d] ∧ ¬ isIndent d := by
    rw [dropLineStart] at hnil
    generalize s.dropWhile isIndent = r at hnil
    rcases r with _ | ⟨d, _ | ⟨d', r⟩⟩
    · exact Or.inl rfl
    · right
      refine ⟨[], d, rfl, ?_⟩
      by_cases hr : d = '\r'
      · subst hr
        decide
      · rw [dropOne, if_neg hr, dropOne] at hnil
        split at hnil
        · rename_i hd
          subst hd
          decide
        · cases hnil
    · right
      by_cases hr : d = '\r'
      · rw [dropOne, if_pos hr, dropOne] at hnil
        split at hnil
        · rename_i hd
          subst hd hnil
          exact ⟨[d], '\n', rfl, by decide⟩
        · cases hnil
      · rw [dropOne, if_neg hr, dropOne] at hnil
        split at hnil <;> cases hnil
  rcases hrest with hnone | ⟨u, d, hd, hindent⟩
  · have hall := List.dropWhile_eq_nil_iff.1 hnone '\n' hfeed
    rw [isIndent_linefeed] at hall
    cases hall
  · obtain ⟨v, hv⟩ := List.dropWhile_suffix (p := isIndent) (l := s)
    rw [hd] at hv
    rw [← hv, ← List.append_assoc, List.getLast?_concat, Option.some.injEq] at hlast
    exact hindent (hlast ▸ hc)

end Stache.Text
