/-
  Code, read from left to right.

  A reader of code is outside of literals or in one, and it has to remember which brackets are open
  (`Cursor`).  Only literals in double quotes are known to it: the characters that would begin
  another kind of literal, a comment or an escape are no code.  In a literal no line may end, not
  even by one of the separators that newer versions of the language allow there.

  1. **Turns** (`Turns`): a text that leads from some open brackets to others.  Texts laid end to
     end make their turns one after another, so the pieces of a template of code can be looked at
     one by one.

  2. **Balance** (`Balanced`): a text that closes what it opens, wherever it stands.  Quoted texts
     are balanced whatever is in them, and balance is passed on by all that code is put together
     with: rows, braces, brackets, fields.

  3. **Form** (`WellFormed`): code whose first brace is closed by its last character only.
-/
import Stache.Proofs.Script.Literal
import Stache.Script.Write

namespace Stache.Script

open Text (scriptQuoted joined braces brackets field)

/-! ## The reader -/

/-- The bracket that closes what `c` opens, if that is a bracket. -/
def closerOf (c : Char) : Option Char :=
  if c = '(' then some ')'
  else if c = '[' then some ']'
  else if c = '{' then some '}'
  else none

/-- A bracket that closes. -/
def isCloser (c : Char) : Bool := c = ')' || c = ']' || c = '}'

/-- Whether `c` begins something else than the code that is read here. -/
def isForeign (c : Char) : Bool := c = '\'' || c = '\x60' || c = '/' || c = '\\'

/-- Where a reader is.  The brackets that are to close what is open come innermost first. -/
inductive Cursor where
  | code (closers : List Char)
  | literal (closers : List Char) (phase : Phase)
deriving DecidableEq, Repr

/-- The brackets that are open, each by the one that closes it, the innermost first. -/
def Cursor.closers : Cursor → List Char
  | .code closers | .literal closers _ => closers

/-- A closing bracket, which has to be the one that is due. -/
def closeBy (c : Char) : List Char → Option Cursor
  | [] => none
  | due :: closers => if c = due then some (.code closers) else none

/-- What one character leads to, if it may stand there. -/
def Cursor.next : Cursor → Char → Option Cursor
  | .code closers, c =>
    if c = '"' then some (.literal closers .plain)
    else if isCloser c then closeBy c closers
    else if isForeign c then none
    else some (.code ((closerOf c).toList ++ closers))
  | .literal closers phase, c =>
    if isLineTerminator c then none
    else
      match phase.next '"' c with
      | none => none
      | some .close => some (.code closers)
      | some (.go phase' _) => some (.literal closers phase')

/-- What a text leads to. -/
def Cursor.read : Cursor → List Char → Option Cursor
  | cursor, [] => some cursor
  | cursor, c :: s =>
    match cursor.next c with
    | none => none
    | some cursor' => cursor'.read s

/-- Texts are read one behind the other. -/
theorem Cursor.read_append (cursor : Cursor) (s t : List Char) :
    cursor.read (s ++ t) = (cursor.read s).bind fun cursor' => cursor'.read t := by
  induction s generalizing cursor with
  | nil => rfl
  | cons c s ih =>
    rw [List.cons_append, Cursor.read, Cursor.read]
    cases cursor.next c with
    | none => rfl
    | some cursor' => exact ih cursor'

/-! ## More brackets around -/

/-- The same place, with more brackets open outside. -/
def Cursor.inside (outer : List Char) : Cursor → Cursor
  | .code closers => .code (closers ++ outer)
  | .literal closers phase => .literal (closers ++ outer) phase

/-- More brackets around are open as well, -/
theorem Cursor.closers_inside (outer : List Char) (cursor : Cursor) :
    (cursor.inside outer).closers = cursor.closers ++ outer := by
  cases cursor <;> rfl

/-- and do not get in the way. -/
theorem Cursor.next_inside {outer : List Char} {cursor cursor' : Cursor} {c : Char}
    (h : cursor.next c = some cursor') :
    (cursor.inside outer).next c = some (cursor'.inside outer) := by
  cases cursor with
  | code closers =>
    rw [Cursor.next] at h
    rw [Cursor.inside, Cursor.next]
    split
    · rw [if_pos ‹_›] at h
      cases h
      rfl
    rw [if_neg ‹_›] at h
    split
    · rw [if_pos ‹_›] at h
      -- The bracket that is due inside stays the one that is due.
      cases closers with
      | nil => cases h
      | cons due closers =>
        rw [closeBy] at h
        rw [List.cons_append, closeBy]
        split at h
        · cases h
          rw [if_pos ‹_›]
          rfl
        · cases h
    rw [if_neg ‹_›] at h
    split
    · rw [if_pos ‹_›] at h
      cases h
    · rw [if_neg ‹_›] at h
      cases h
      rw [Cursor.inside, List.append_assoc]
  | literal closers phase =>
    rw [Cursor.next] at h
    rw [Cursor.inside, Cursor.next]
    split
    · rw [if_pos ‹_›] at h
      cases h
    rw [if_neg ‹_›] at h
    split at h <;> cases h <;> simp only [*, Cursor.inside]

/-- Brackets that are open outside change nothing. -/
theorem Cursor.read_inside {outer s : List Char} {cursor cursor' : Cursor}
    (h : cursor.read s = some cursor') :
    (cursor.inside outer).read s = some (cursor'.inside outer) := by
  induction s generalizing cursor with
  | nil =>
    cases h
    rfl
  | cons c s ih =>
    rw [Cursor.read] at h
    rw [Cursor.read]
    cases hnext : cursor.next c with
    | none =>
      rw [hnext] at h
      cases h
    | some next =>
      rw [hnext] at h
      simp only [Cursor.next_inside hnext]
      exact ih h

/-! ## Turns -/

/-- Outside of literals, reading the text leads from the brackets that are due at first to those
    that are due at last. -/
def Turns (before : List Char) (text : String) (after : List Char) : Prop :=
  (Cursor.code before).read text.toList = some (.code after)

section Turns

variable {x y z : List Char} {a b : String}

theorem Turns.append (ha : Turns x a y) (hb : Turns y b z) : Turns x (a ++ b) z := by
  rw [Turns, String.toList_append, Cursor.read_append, ha]
  exact hb

/-- A text that is written out.  Its characters are read one by one, whatever else is due. -/
theorem Turns.of_read {s : List Char} (h : (Cursor.code x).read s = some (.code y)) :
    Turns x (String.ofList s) y := by
  rw [Turns, String.toList_ofList]
  exact h

end Turns

/-! ## Balance -/

/-- The text closes what it opens, and no more. -/
def Balanced (text : String) : Prop := ∀ closers, Turns closers text closers

section Balanced

variable {a b : String} {texts : List String}

theorem Balanced.append (ha : Balanced a) (hb : Balanced b) : Balanced (a ++ b) :=
  fun closers => (ha closers).append (hb closers)

theorem balanced_empty : Balanced "" := fun _ => .of_read rfl

theorem Balanced.parens (h : Balanced a) : Balanced ("(" ++ a ++ ")") := by
  intro closers
  have hopen : Turns closers "(" (')' :: closers) := .of_read rfl
  have hclose : Turns (')' :: closers) ")" closers := .of_read rfl
  exact (hopen.append (h _)).append hclose

/-- Characters that are neither quotes nor brackets, and begin nothing else. -/
def isNeutral (c : Char) : Bool :=
  !(c = '"' || isCloser c || isForeign c || (closerOf c).isSome)

/-- Most characters open and close nothing, -/
theorem Cursor.next_neutral {c : Char} (h : isNeutral c = true) (closers : List Char) :
    (Cursor.code closers).next c = some (.code closers) := by
  simp only [isNeutral, Bool.not_eq_true', Bool.or_eq_false_iff, decide_eq_false_iff_not,
    Option.isSome_eq_false_iff, Option.isNone_iff_eq_none] at h
  obtain ⟨⟨⟨hquote, hcloser⟩, hforeign⟩, hopener⟩ := h
  simp [Cursor.next, hquote, hcloser, hforeign, hopener]

/-- so a text of these is balanced. -/
theorem balanced_of_neutral {text : String} (h : ∀ c ∈ text.toList, isNeutral c = true) :
    Balanced text := by
  have hread (s : List Char) (closers : List Char) (h : ∀ c ∈ s, isNeutral c = true) :
      (Cursor.code closers).read s = some (.code closers) := by
    induction s with
    | nil => rfl
    | cons c s ih =>
      rw [Cursor.read]
      simp only [Cursor.next_neutral (h c (List.mem_cons_self ..))]
      exact ih fun d hd => h d (List.mem_cons_of_mem _ hd)
  exact fun closers => hread text.toList closers h

/-- A character inside a literal leads to the next phase there. -/
theorem Cursor.next_literal {closers : List Char} {phase next : Phase} {added : List Nat} {c : Char}
    (hnext : phase.next '"' c = some (.go next added)) (hline : isLineTerminator c = false) :
    (Cursor.literal closers phase).next c = some (.literal closers next) := by
  rw [Cursor.next, hline]
  simp only [Bool.false_eq_true, if_false, hnext]

/-- What stands inside a literal leads from phase to phase there. -/
theorem Cursor.read_literal {closers s : List Char} {phase phase' : Phase} {units : List Nat}
    (h : phase.over '"' s = some (phase', units)) (hline : ∀ c ∈ s, isLineTerminator c = false) :
    (Cursor.literal closers phase).read s = some (.literal closers phase') := by
  induction s generalizing phase units with
  | nil =>
    cases h
    rfl
  | cons c s ih =>
    obtain ⟨next, added, more, hnext, hmore, -⟩ := Phase.exists_of_over_cons h
    rw [Cursor.read]
    simp only [Cursor.next_literal hnext (hline c (List.mem_cons_self ..))]
    exact ih hmore fun d hd => hline d (List.mem_cons_of_mem _ hd)

/-- A literal, from quote to quote. -/
theorem balanced_literal {s : List Char} {units : List Nat}
    (h : Phase.plain.over '"' s = some (.plain, units))
    (hline : ∀ c ∈ s, isLineTerminator c = false) :
    Balanced (String.ofList ('"' :: (s ++ ['"']))) := by
  intro closers
  refine Turns.of_read ?_
  have hopen : (Cursor.code closers).next '"' = some (.literal closers .plain) := rfl
  rw [Cursor.read]
  simp only [hopen]
  rw [Cursor.read_append, Cursor.read_literal h hline]
  rfl

/-- **A quoted text is balanced**, whatever it is. -/
theorem balanced_scriptQuoted (s : String) : Balanced (scriptQuoted s) := by
  have hquoted : scriptQuoted s
      = String.ofList ('"' :: (s.toList.flatMap Text.scriptEscape ++ ['"'])) := by
    rw [← toList_scriptQuoted, String.ofList_toList]
  rw [hquoted]
  refine balanced_literal (over_flatMap_scriptEscape s.toList) fun c hc => ?_
  obtain ⟨d, -, hc⟩ := List.mem_flatMap.1 hc
  exact isLineTerminator_scriptEscape d c hc

/-- A row of balanced texts, -/
theorem balanced_joined {separator : String} (hseparator : Balanced separator)
    (h : ∀ text ∈ texts, Balanced text) : Balanced (joined separator texts) := by
  fun_induction joined separator texts with
  | case1 => exact balanced_empty
  | case2 text => exact h text (List.mem_singleton_self text)
  | case3 text more hmore ih =>
    have hfirst := h text (List.mem_cons_self ..)
    exact (hfirst.append hseparator).append (ih fun other hother =>
      h other (List.mem_cons_of_mem _ hother))

/-- with commas, -/
theorem balanced_row (h : ∀ text ∈ texts, Balanced text) : Balanced (joined "," texts) :=
  balanced_joined (fun _ => .of_read rfl) h

/-- between braces, -/
theorem balanced_braces (h : ∀ text ∈ texts, Balanced text) : Balanced (braces texts) := by
  intro closers
  have hopen : Turns closers "\x7b" ('}' :: closers) := .of_read rfl
  have hclose : Turns ('}' :: closers) "\x7d" closers := .of_read rfl
  exact (hopen.append (balanced_row h _)).append hclose

/-- or between brackets. -/
theorem balanced_brackets (h : ∀ text ∈ texts, Balanced text) : Balanced (brackets texts) := by
  intro closers
  have hopen : Turns closers "[" (']' :: closers) := .of_read rfl
  have hclose : Turns (']' :: closers) "]" closers := .of_read rfl
  exact (hopen.append (balanced_row h _)).append hclose

/-- The characters of names that are written without escapes. -/
def isNameChar (c : Char) : Bool := c.isAlphanum || c = '_'

/-- A name that is written out. -/
theorem named_of_all {name : List Char} (h : name.all isNameChar = true) :
    ∀ c ∈ (String.ofList name).toList, isNameChar c = true := by
  rw [String.toList_ofList]
  exact List.all_eq_true.1 h

theorem ne_of_isNameChar {c d : Char} (hc : isNameChar c = true) (hd : isNameChar d = false) :
    c ≠ d := by
  rintro rfl
  rw [hc] at hd
  cases hd

/-- In a literal, a name stands for itself. -/
theorem over_name {s : List Char} (h : ∀ c ∈ s, isNameChar c = true) :
    Phase.plain.over '"' s = some (.plain, utf16 s) := by
  induction s with
  | nil => rfl
  | cons c s ih =>
    have hne {d : Char} := ne_of_isNameChar (d := d) (h c (List.mem_cons_self ..))
    exact over_append (over_self (hne (by decide)) (hne (by decide)) (hne (by decide))
      (hne (by decide))) (ih fun d hd => h d (List.mem_cons_of_mem _ hd))

theorem toList_name (name : String) :
    ("\"" ++ name ++ "\"").toList = '"' :: (name.toList ++ ['"']) := by
  simp

theorem isLineTerminator_of_isNameChar {c : Char} (h : isNameChar c = true) :
    isLineTerminator c = false := by
  have hne {d : Char} := ne_of_isNameChar (d := d) h
  simp [isLineTerminator, hne (by decide : isNameChar '\n' = false),
    hne (by decide : isNameChar '\r' = false), hne (by decide : isNameChar '\u2028' = false),
    hne (by decide : isNameChar '\u2029' = false)]

/-- A name in double quotes needs no escapes. -/
theorem balanced_name {name : String} (h : ∀ c ∈ name.toList, isNameChar c = true) :
    Balanced ("\"" ++ name ++ "\"") := by
  rw [← String.ofList_toList (s := "\"" ++ name ++ "\""), toList_name]
  exact balanced_literal (over_name h) fun c hc => isLineTerminator_of_isNameChar (h c hc)

/-- A field is a name, a colon and a value. -/
theorem field_eq (name value : String) :
    field name value = "\"" ++ name ++ "\"" ++ ":" ++ value :=
  String.toList_inj.1 (by simp [field])

theorem balanced_field {name value : String} (h : ∀ c ∈ name.toList, isNameChar c = true)
    (hvalue : Balanced value) : Balanced (field name value) := by
  have hcolon : Balanced ":" := fun _ => .of_read rfl
  rw [field_eq]
  exact ((balanced_name h).append hcolon).append hvalue

/-- A number is its digits, -/
theorem toList_numeral (n : Nat) : (numeral n).toList = Nat.toDigits 10 n := by
  rw [numeral, Nat.toString_eq_repr, Nat.toList_repr]

/-- and nothing else, -/
theorem isDigit_of_mem_numeral {n : Nat} {c : Char} (h : c ∈ (numeral n).toList) :
    c.isDigit = true := by
  rw [toList_numeral] at h
  exact Nat.isDigit_of_mem_toDigits (by decide) (by decide) h

/-- which are neutral, -/
theorem isNeutral_of_isDigit {c : Char} (h : c.isDigit = true) : isNeutral c = true := by
  have hne (d : Char) (hd : d.isDigit = false) : c ≠ d := by
    rintro rfl
    rw [h] at hd
    cases hd
  simp [isNeutral, isCloser, isForeign, closerOf, hne '"' (by decide), hne ')' (by decide),
    hne ']' (by decide), hne '}' (by decide), hne '\'' (by decide), hne '\x60' (by decide),
    hne '/' (by decide), hne '\\' (by decide), hne '(' (by decide), hne '[' (by decide),
    hne '{' (by decide)]

/-- so it is balanced. -/
theorem balanced_numeral (n : Nat) : Balanced (numeral n) :=
  balanced_of_neutral fun _ hc => isNeutral_of_isDigit (isDigit_of_mem_numeral hc)

end Balanced

/-! ## Form -/

/-- Code that is read to its end, outside of literals, with its brackets nested, and whose first
    brace is closed by the last character only: up to there, its closing brace is due last. -/
structure WellFormed (code : List Char) : Prop where
  reads : (Cursor.code []).read code = some (.code [])
  enclosed : ∃ inner, code = '{' :: (inner ++ ['}']) ∧ ∀ s, s <+: inner →
    ∃ cursor, (Cursor.code []).read ('{' :: s) = some cursor ∧ cursor.closers.getLast? = some '}'

/-- Balanced code in braces is well formed. -/
theorem Balanced.wellFormed {inner code : String} (h : Balanced inner)
    (hcode : code.toList = '{' :: (inner.toList ++ ['}'])) : WellFormed code.toList := by
  have hopen (s : List Char) : (Cursor.code []).read ('{' :: s) = (Cursor.code ['}']).read s := rfl
  rw [hcode]
  constructor
  · rw [hopen, Cursor.read_append, h ['}']]
    rfl
  · refine ⟨inner.toList, rfl, fun s hs => ?_⟩
    obtain ⟨t, ht⟩ := hs
    have hinner := h []
    rw [Turns, ← ht, Cursor.read_append] at hinner
    obtain ⟨cursor, hcursor, -⟩ := Option.bind_eq_some_iff.1 hinner
    refine ⟨cursor.inside ['}'], ?_, ?_⟩
    · have hinside : ((Cursor.code []).inside ['}']).read s = some (cursor.inside ['}']) :=
        Cursor.read_inside hcursor
      rwa [hopen]
    · rw [Cursor.closers_inside, List.getLast?_append]
      rfl

end Stache.Script
