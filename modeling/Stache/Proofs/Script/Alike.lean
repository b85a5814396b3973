/-
  Texts of code that are alike.

  Code says in its `loc` fields where a call stands in the template, and nothing else in it depends
  on positions.  Two texts of code are ALIKE (`Alike`) if they are put together from the same pieces
  but for `loc` fields: fixed texts, literals, numbers, and the hook for missing helpers.  They are
  alike in the STRICT sense if the hook is no piece of them.

  The relation serves two ends at once.  Texts that are alike differ in `loc` fields only
  (`Alike.sameButLocs`); and if they are so in the strict sense, neither mentions the hook
  (`Alike.hookless`), which is looked for by a search of its own (`hookSearch`).  For that, no fixed
  text may have the hook in it, or end in a part of it that what comes next could go on with.
-/
import Mathlib.Data.List.Forall2
import Stache.Proofs.Script.Search

namespace Stache.Script

open Text (scriptQuoted joined braces brackets field)

/-! ## The hook for missing helpers -/

/-- The hook, letter by letter. -/
def hookWord : List Char :=
  ['c', 'o', 'n', 't', 'a', 'i', 'n', 'e', 'r', '.', 'h', 'o', 'o', 'k', 's', '.',
    'h', 'e', 'l', 'p', 'e', 'r', 'M', 'i', 's', 's', 'i', 'n', 'g']

/-- The search for the hook.  A literal that is not closed counts like the hook. -/
def hookSearch : Search Unit where
  words := [hookWord]
  look s := if hookWord.isPrefixOf s then some () else none
  unclosed := [()]
  look_eq_none s h := by
    have hword := h hookWord (List.mem_singleton_self _)
    rw [← List.isPrefixOf_iff_prefix] at hword
    exact if_neg hword

/-- Whether the hook is nowhere outside of literals, and each literal is closed, for a reader that
    is outside of them, or in one. -/
def hookless (phase : Option Phase) (s : List Char) : Bool := (hookSearch.run phase s).isEmpty

/-! ## Texts that are alike -/

/-- The same but for the positions in `loc` fields. -/
inductive SameButLocs : String → String → Prop where
  | text (s : String) : SameButLocs s s
  | loc (a b : Span) : SameButLocs (field "loc" (writeSpan a)) (field "loc" (writeSpan b))
  | append {a a' b b' : String} (h : SameButLocs a a') (hmore : SameButLocs b b') :
      SameButLocs (a ++ b) (a' ++ b')

/-- Put together from the same pieces, but for `loc` fields.  In the strict sense, the hook for
    missing helpers is no piece, and numbers are made of number characters. -/
inductive Alike (strict : Bool) : String → String → Prop where
  | fixed {s : List Char} (h : hookSearch.quiet none s = true) :
      Alike strict (String.ofList s) (String.ofList s)
  | literal {s : List Char} {units : List Nat}
      (h : Phase.plain.over '"' s = some (.plain, units)) :
      Alike strict (String.ofList ('"' :: (s ++ ['"']))) (String.ofList ('"' :: (s ++ ['"'])))
  | number {s : String} (h : strict = true → Numeric s.toList) : Alike strict s s
  | hook (h : strict = false) : Alike strict (String.ofList hookWord) (String.ofList hookWord)
  | loc (a b : Span) : Alike strict (field "loc" (writeSpan a)) (field "loc" (writeSpan b))
  | append {a a' b b' : String} (h : Alike strict a a') (hmore : Alike strict b b') :
      Alike strict (a ++ b) (a' ++ b')

section Alike

variable {strict : Bool} {a a' b b' : String}

/-- **Texts that are alike differ in `loc` fields only.** -/
theorem Alike.sameButLocs (h : Alike strict a a') : SameButLocs a a' := by
  induction h with
  | fixed | literal | number | hook => exact .text _
  | loc a b => exact .loc a b
  | append _ _ ih ih' => exact ih.append ih'

/-- Quoted texts are alike if they are the same, -/
theorem alike_quoted (s : String) : Alike strict (scriptQuoted s) (scriptQuoted s) := by
  have htext : scriptQuoted s
      = String.ofList ('"' :: (s.toList.flatMap Text.scriptEscape ++ ['"'])) := by
    rw [← toList_scriptQuoted, String.ofList_toList]
  rw [htext]
  exact .literal (over_flatMap_scriptEscape s.toList)

/-- and so are numbers, -/
theorem alike_numeral (n : Nat) : Alike strict (numeral n) (numeral n) := by
  refine .number fun _ c hc => ?_
  rw [isNumberChar, isDigit_of_mem_numeral hc]
  rfl

/-- and names between quotes. -/
theorem alike_name {name : String} (h : ∀ c ∈ name.toList, isNameChar c = true) :
    Alike strict ("\"" ++ name ++ "\"") ("\"" ++ name ++ "\"") := by
  have htext : "\"" ++ name ++ "\"" = String.ofList ('"' :: (name.toList ++ ['"'])) := by
    rw [← toList_name, String.ofList_toList]
  rw [htext]
  exact .literal (over_name h)

/-! ## Rows -/

/-- Texts that are alike, one by one. -/
abbrev RowAlike (strict : Bool) (texts texts' : List String) : Prop :=
  List.Forall₂ (Alike strict) texts texts'

theorem rowAlike_self {texts : List String} (h : ∀ text ∈ texts, Alike strict text text) :
    RowAlike strict texts texts :=
  List.forall₂_same.2 h

/-- Rows that are alike, with separators between them, -/
theorem RowAlike.joined {separator : String} (hseparator : Alike strict separator separator)
    {texts texts' : List String} (h : RowAlike strict texts texts') :
    Alike strict (joined separator texts) (joined separator texts') := by
  induction h with
  | nil => exact .fixed (s := []) rfl
  | cons h hmore ih =>
    cases hmore with
    | nil => exact h
    | cons => exact (h.append hseparator).append ih

/-- between braces, -/
theorem RowAlike.braces {texts texts' : List String} (h : RowAlike strict texts texts') :
    Alike strict (braces texts) (braces texts') := by
  have hopen : Alike strict "\x7b" "\x7b" := .fixed (by decide)
  have hcomma : Alike strict "," "," := .fixed (by decide)
  have hclose : Alike strict "\x7d" "\x7d" := .fixed (by decide)
  exact (hopen.append (h.joined hcomma)).append hclose

/-- or between brackets. -/
theorem RowAlike.brackets {texts texts' : List String} (h : RowAlike strict texts texts') :
    Alike strict (brackets texts) (brackets texts') := by
  have hopen : Alike strict "[" "[" := .fixed (by decide)
  have hcomma : Alike strict "," "," := .fixed (by decide)
  have hclose : Alike strict "]" "]" := .fixed (by decide)
  exact (hopen.append (h.joined hcomma)).append hclose

theorem alike_field {name value value' : String} (h : ∀ c ∈ name.toList, isNameChar c = true)
    (hvalue : Alike strict value value') : Alike strict (field name value) (field name value') := by
  have hcolon : Alike strict ":" ":" := .fixed (by decide)
  rw [field_eq, field_eq]
  exact ((alike_name h).append hcolon).append hvalue

/-! ## Forms -/

/-- Whether none of the fixed texts of a form has the hook in it, or may begin it. -/
def Form.isHookless (form : Form) : Bool :=
  (form.first :: form.rest).all fun fixed => hookSearch.quiet none fixed.chars

/-- **A form with texts in it that are alike.** -/
theorem Alike.fill {form : Form} {holes holes' : List String} (hform : form.isHookless = true)
    (h : RowAlike strict holes holes') : Alike strict (form.fill holes) (form.fill holes') := by
  -- the fixed texts of the form mention nothing,
  have hfixed (fixed : Fixed) (hquiet : hookSearch.quiet none fixed.chars = true) :
      Alike strict fixed.text fixed.text := by
    rw [fixed.spelled]
    exact .fixed hquiet
  have hnothing : Alike strict "" "" := .fixed (s := []) rfl
  -- and each hole is followed by one
  have hbehind (rest : List Fixed)
      (hrest : rest.all fun fixed => hookSearch.quiet none fixed.chars) :
      ∀ (text text' : String) (holes holes' : List String), Alike strict text text' →
        RowAlike strict holes holes' →
        Alike strict (fillBehind text rest holes) (fillBehind text' rest holes') := by
    induction rest with
    | nil => exact fun _ _ _ _ htext _ => htext
    | cons fixed rest ih =>
      rw [List.all_cons, Bool.and_eq_true] at hrest
      intro text text' holes holes' htext hholes
      cases hholes with
      | nil => exact ih hrest.2 _ _ _ _ ((htext.append hnothing).append (hfixed _ hrest.1)) .nil
      | cons hhole hmore =>
        exact ih hrest.2 _ _ _ _ ((htext.append hhole).append (hfixed _ hrest.1)) hmore
  rw [Form.isHookless, List.all_cons, Bool.and_eq_true] at hform
  exact hbehind form.rest hform.2 _ _ holes holes' (hfixed form.first hform.1) h

/-! ## Texts without the hook -/

/-- The hook is not found in a number, -/
theorem silent_numeral (n : Nat) : hookSearch.Silent (numeral n) :=
  Search.silent_numeric (by decide) (numeric_numeral n)

/-- nor in a field, but in its value, -/
theorem silent_field {name : String} (h : ∀ c ∈ name.toList, isNameChar c = true)
    (ha : hookSearch.Silent a) : hookSearch.Silent (field name a) := by
  have hcolon : hookSearch.Silent ":" := Search.silent_of_quiet (by decide)
  rw [field_eq]
  exact ((Search.silent_name h).append hcolon).append ha

/-- nor in an object of two such fields. -/
theorem silent_braces (ha : hookSearch.Silent a) (hb : hookSearch.Silent b) :
    hookSearch.Silent (braces [a, b]) := by
  have hopen : hookSearch.Silent "\x7b" := Search.silent_of_quiet (by decide)
  have hcomma : hookSearch.Silent "," := Search.silent_of_quiet (by decide)
  have hclose : hookSearch.Silent "\x7d" := Search.silent_of_quiet (by decide)
  exact (hopen.append ((ha.append hcomma).append hb)).append hclose

/-- A `loc` field is made of names and numbers. -/
theorem silent_loc (s : Span) : hookSearch.Silent (field "loc" (writeSpan s)) := by
  have hposition (p : Position) : hookSearch.Silent (writePosition p) :=
    silent_braces (silent_field (named_of_all rfl) (silent_numeral _))
      (silent_field (named_of_all rfl) (silent_numeral _))
  exact silent_field (named_of_all rfl) (silent_braces
    (silent_field (named_of_all rfl) (hposition _)) (silent_field (named_of_all rfl) (hposition _)))

/-- In the strict sense, each piece of a text is silent. -/
theorem Alike.silent (h : Alike true a a') : hookSearch.Silent a := by
  induction h with
  | fixed h => exact Search.silent_of_quiet h
  | literal h => exact Search.silent_literal h
  | number h => exact Search.silent_numeric (by decide) (h rfl)
  | hook h => cases h
  | loc a b => exact silent_loc a
  | append _ _ ih ih' => exact ih.append ih'

/-- **Where the hook is not allowed**, it stands nowhere in the text. -/
theorem Alike.hookless (h : Alike true a a') : hookless none a.toList = true := by
  have hall := h.silent []
  rw [List.append_nil] at hall
  rw [Script.hookless, hall]
  rfl

end Alike

end Stache.Script
