/-
  Searching code.

  Words are looked for in code outside of its literals (`Search.run`).  The reader knows literals
  and nothing else, and what it looks for is left open: the hook for missing helpers in
  `Script.Alike`, variables and numbered programs in `Script.Mentions`.

  A text is SILENT if nothing is found in it, wherever it stands (`Search.Silent`).

  1. **Fixed texts** — that a text holds no word is not enough, since it may end in a part of one
     that what comes next could go on with.  This is looked at character by character
     (`Search.quiet`, `Search.run_of_quiet`).

  2. **Literals and numbers** are silent whatever is in them: words are not looked for in literals
     (`Search.run_over`), and no word begins with a character of a number (`Search.silent_numeric`).

  3. **Texts laid end to end** are silent if each of them is (`Search.Silent.append`).
-/
import Stache.Proofs.Items.Numbers
import Stache.Proofs.Script.Forms

namespace Stache.Script

/-- What is looked for in code. -/
structure Search (α : Type) where
  words : List (List Char)
  /-- What is found at the beginning of a text. -/
  look : List Char → Option α
  /-- What a literal comes to that is not closed. -/
  unclosed : List α
  /-- Where no word begins, there is nothing. -/
  look_eq_none : ∀ s, (∀ word ∈ words, ¬ word <+: s) → look s = none

namespace Search

variable {α : Type} (search : Search α)

/-- What is found in a text, by a reader that is outside of literals, or in one. -/
def run : Option Phase → List Char → List α
  | none, [] => []
  | some _, [] => search.unclosed
  | none, c :: s =>
    if c = '"' then run (some .plain) s else (search.look (c :: s)).toList ++ run none s
  | some phase, c :: s =>
    match phase.next '"' c with
    | none => search.unclosed
    | some .close => run none s
    | some (.go phase' _) => run (some phase') s

/-! ## Fixed texts -/

/-- Whether one of the words begins `s`, or is begun by all of it. -/
def mayBegin (s : List Char) : Bool :=
  search.words.any fun word => word.isPrefixOf s || s.isPrefixOf word

/-- Whether a text is silent, for a reader that is outside of literals, or in one. -/
def quiet : Option Phase → List Char → Bool
  | none, [] => true
  | some _, [] => false
  | none, c :: s =>
    if c = '"' then quiet (some .plain) s else !search.mayBegin (c :: s) && quiet none s
  | some phase, c :: s =>
    match phase.next '"' c with
    | none => false
    | some .close => quiet none s
    | some (.go phase' _) => quiet (some phase') s

variable {search}

/-- Where no word may begin, there is nothing to find, whatever comes after. -/
theorem look_of_not_mayBegin {s : List Char} (h : search.mayBegin s = false) (rest : List Char) :
    search.look (s ++ rest) = none := by
  refine search.look_eq_none _ fun word hword hprefix => ?_
  have hnone := List.any_eq_false.1 h word hword
  rw [Bool.or_eq_true, List.isPrefixOf_iff_prefix, List.isPrefixOf_iff_prefix] at hnone
  exact hnone (List.prefix_or_prefix_of_prefix hprefix (List.prefix_append s rest))

/-- **A quiet text** is read as if it were not there. -/
theorem run_of_quiet {phase : Option Phase} {s : List Char} (h : search.quiet phase s = true)
    (rest : List Char) : search.run phase (s ++ rest) = search.run none rest := by
  -- the induction follows the reader: the end of the text, a quote, other code, and in a literal
  -- what is no part of it, its end, and what is
  fun_induction search.quiet phase s with
  | case1 => rfl
  | case2 => cases h
  | case3 s ih => exact ih h
  | case4 c s hc ih =>
    rw [Bool.and_eq_true, Bool.not_eq_true'] at h
    have hnone := look_of_not_mayBegin h.1 rest
    rw [List.cons_append] at hnone
    rw [List.cons_append, run, if_neg hc, hnone, ih h.2]
    rfl
  | case5 => cases h
  | case6 phase c s hnext ih =>
    rw [List.cons_append, run, hnext]
    exact ih h
  | case7 phase c s phase' units hnext ih =>
    rw [List.cons_append, run, hnext]
    exact ih h

/-! ## Literals -/

/-- Inside a literal, nothing is looked for. -/
theorem run_over {phase phase' : Phase} {s : List Char} {units : List Nat}
    (h : phase.over '"' s = some (phase', units)) (rest : List Char) :
    search.run (some phase) (s ++ rest) = search.run (some phase') rest := by
  induction s generalizing phase units with
  | nil =>
    cases h
    rfl
  | cons c s ih =>
    obtain ⟨next, added, more, hnext, hmore, -⟩ := Phase.exists_of_over_cons h
    rw [List.cons_append, run, hnext]
    exact ih hmore

/-! ## Silent texts -/

variable (search) in
/-- What comes after the text is read as if the text were not there. -/
def Silent (a : String) : Prop :=
  ∀ rest, search.run none (a.toList ++ rest) = search.run none rest

theorem Silent.append {a b : String} (ha : search.Silent a) (hb : search.Silent b) :
    search.Silent (a ++ b) := by
  intro rest
  rw [String.toList_append, List.append_assoc, ha, hb]

/-- A quiet text is silent, -/
theorem silent_of_quiet {s : List Char} (h : search.quiet none s = true) :
    search.Silent (String.ofList s) := by
  intro rest
  rw [String.toList_ofList, run_of_quiet h]

/-- Fixed texts, one after another. -/
theorem silent_fill_nil {form : Form}
    (h : (form.first :: form.rest).all (fun fixed => search.quiet none fixed.chars) = true) :
    search.Silent (form.fill []) := by
  have hfixed (fixed : Fixed) (hquiet : search.quiet none fixed.chars = true) :
      search.Silent fixed.text := by
    rw [fixed.spelled]
    exact silent_of_quiet hquiet
  have hrow (rest : List Fixed) (hrest : rest.all fun fixed => search.quiet none fixed.chars) :
      ∀ text, search.Silent text →
        search.Silent (rest.foldl (fun text fixed => text ++ fixed.text) text) := by
    induction rest with
    | nil => exact fun _ htext => htext
    | cons fixed rest ih =>
      rw [List.all_cons, Bool.and_eq_true] at hrest
      exact fun text htext => ih hrest.2 _ (htext.append (hfixed fixed hrest.1))
  rw [List.all_cons, Bool.and_eq_true] at h
  rw [Form.fill, fillBehind_nil]
  exact hrow form.rest h.2 _ (hfixed form.first h.1)

/-- A literal, from quote to quote. -/
theorem silent_literal {s : List Char} {units : List Nat}
    (h : Phase.plain.over '"' s = some (.plain, units)) :
    search.Silent (String.ofList ('"' :: (s ++ ['"']))) := by
  intro rest
  rw [String.toList_ofList, List.cons_append, run, if_pos rfl, List.append_assoc, run_over h]
  rfl

/-- and so is a quoted one, -/
theorem silent_scriptQuoted (s : String) : search.Silent (Text.scriptQuoted s) := by
  rw [← String.ofList_toList (s := Text.scriptQuoted s), toList_scriptQuoted]
  exact silent_literal (over_flatMap_scriptEscape s.toList)

/-- a name, -/
theorem silent_name {name : String} (h : ∀ c ∈ name.toList, isNameChar c = true) :
    search.Silent ("\"" ++ name ++ "\"") := by
  rw [← String.ofList_toList (s := "\"" ++ name ++ "\""), toList_name]
  exact silent_literal (over_name h)

variable (search) in
/-- Neither a word nor a literal begins with this character. -/
def isHarmless (c : Char) : Bool :=
  c ≠ '"' && search.words.all fun word => word.head?.any (· ≠ c)

/-- Where no character begins a word, nothing is found. -/
theorem silent_of_harmless {a : String} (h : ∀ c ∈ a.toList, search.isHarmless c = true) :
    search.Silent a := by
  intro rest
  generalize a.toList = s at h
  induction s with
  | nil => rfl
  | cons c s ih =>
    have hc := h c (List.mem_cons_self ..)
    rw [isHarmless, Bool.and_eq_true, decide_eq_true_eq, List.all_eq_true] at hc
    have hnone : search.look (c :: (s ++ rest)) = none := by
      refine search.look_eq_none _ fun word hword hprefix => ?_
      have hhead := hc.2 word hword
      cases word with
      | nil => cases hhead
      | cons d word =>
        obtain ⟨rfl, -⟩ := List.cons_prefix_cons.1 hprefix
        simp at hhead
    rw [List.cons_append, run, if_neg hc.1, hnone]
    exact ih fun d hd => h d (List.mem_cons_of_mem _ hd)

/-- A number is silent, if no word begins with a character of numbers. -/
theorem silent_numeric {a : String} (hwords : ∀ word ∈ search.words,
    word.head?.any (fun c => !isNumberChar c) = true) (h : Numeric a.toList) : search.Silent a := by
  refine silent_of_harmless fun c hc => ?_
  have hne {d : Char} (hd : isNumberChar d = false) : c ≠ d := by
    rintro rfl
    rw [h c hc] at hd
    cases hd
  rw [isHarmless, Bool.and_eq_true, decide_eq_true_eq, List.all_eq_true]
  refine ⟨hne (by decide), fun word hword => ?_⟩
  have hhead := hwords word hword
  cases word with
  | nil => cases hhead
  | cons d word => simpa using Ne.symm (hne (by simpa using hhead))

end Search

theorem numeric_numeral (n : Nat) : Numeric (numeral n).toList := by
  intro c hc
  rw [isNumberChar, isDigit_of_mem_numeral hc]
  rfl

end Stache.Script
