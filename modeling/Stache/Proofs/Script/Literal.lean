/-
  String literals of scripts, read as the language reads them.

  A script is made of UTF-16 units, and so is the value of a literal in it.  The reader goes through
  a literal character by character; what it has to remember is its PHASE, and each character either
  closes the literal or leads to a phase and adds some units to the value (`Phase.next`).  The rules
  are those of strict code, which all modules are: escapes of one letter, by number and by code
  point, line breaks behind a backslash, and no octal escapes.

  1. **Between double quotes**, escaped, a text is denoted by its literal
     (`readString_scriptQuoted`), since no character of it can leave the phase that the next one
     needs (`over_scriptEscape`).
  2. **Between single quotes**, as it is, a text is denoted by its literal EXACTLY when it has no
     quote, no backslash and no line break in it (`readString_singleQuoted_iff`): a quote ends the
     literal, and a backslash leaves too little for the value, since no character adds more to it
     than it takes up itself (`Phase.length_le_of_next`).
-/
import Stache.Bundle.Module
import Stache.Proofs.Json.Text

namespace Stache.Script

/-! ## Units -/

/-- The UTF-16 units of a code point. -/
def unitsOf (code : Nat) : List Nat :=
  if code < 0x10000 then [code]
  else [0xd800 + (code - 0x10000) / 0x400, 0xdc00 + (code - 0x10000) % 0x400]

/-- The UTF-16 units of a text. -/
def utf16 (text : List Char) : List Nat := text.flatMap fun c => unitsOf c.toNat

theorem one_le_length_unitsOf (code : Nat) : 1 ≤ (unitsOf code).length := by
  unfold unitsOf
  split <;> simp

theorem length_unitsOf_le (code : Nat) : (unitsOf code).length ≤ 2 := by
  unfold unitsOf
  split <;> simp

/-- Units are counted character by character, -/
theorem length_utf16_cons (c : Char) (s : List Char) :
    (utf16 (c :: s)).length = (unitsOf c.toNat).length + (utf16 s).length := by
  rw [utf16, List.flatMap_cons, List.length_append]
  rfl

/-- Characters are no surrogates. -/
theorem toNat_char (c : Char) :
    c.toNat < 0xd800 ∨ 0xdfff < c.toNat ∧ c.toNat < 0x110000 := c.valid

/-- The first unit tells how many units write a character, and they tell which it is. -/
theorem eq_of_unitsOf_append {c d : Char} {s t : List Nat}
    (h : unitsOf c.toNat ++ s = unitsOf d.toNat ++ t) : c = d ∧ s = t := by
  have hc := toNat_char c
  have hd := toNat_char d
  unfold unitsOf at h
  have hcode : c.toNat = d.toNat ∧ s = t := by
    split at h <;> split at h <;>
      simp only [List.cons_append, List.nil_append, List.cons.injEq] at h
    · exact h
    · omega
    · omega
    · obtain ⟨hlead, htrail, hrest⟩ := h
      exact ⟨by omega, hrest⟩
  exact ⟨Char.toNat_inj.1 hcode.1, hcode.2⟩

theorem utf16_cons_ne_nil (c : Char) (s : List Char) : utf16 (c :: s) ≠ [] := by
  intro h
  have hlength := length_utf16_cons c s
  have hc := one_le_length_unitsOf c.toNat
  rw [h, List.length_nil] at hlength
  omega

/-- A text can be told from its units. -/
theorem utf16_injective {s t : List Char} (h : utf16 s = utf16 t) : s = t := by
  induction s generalizing t with
  | nil =>
    cases t with
    | nil => rfl
    | cons d t => exact absurd h.symm (utf16_cons_ne_nil d t)
  | cons c s ih =>
    cases t with
    | nil => exact absurd h (utf16_cons_ne_nil c s)
    | cons d t =>
      obtain ⟨rfl, hmore⟩ := eq_of_unitsOf_append h
      rw [ih hmore]

/-! ## The reader -/

/-- How far a reader has come inside a literal. -/
inductive Phase where
  /-- Behind a character that is complete. -/
  | plain
  /-- Behind a backslash. -/
  | escaped
  /-- Behind the letter of an escape by code point. -/
  | unicode
  /-- In an escape by number that goes on for one digit, and then `more`. -/
  | digits (more value : Nat)
  /-- In an escape by code point in braces, if there is a digit yet. -/
  | braced (value : Option Nat)
  /-- Behind the escape of NUL, where no digit may follow. -/
  | nul
  /-- Behind an escaped carriage return, which is one line break with a line feed. -/
  | carriage
deriving DecidableEq, Repr

/-- What the next character does. -/
inductive Step where
  | close
  /-- The value has these units next. -/
  | go (phase : Phase) (units : List Nat)
deriving DecidableEq, Repr

/-- The character that an escape of one letter stands for. -/
def letterEscape (c : Char) : Char :=
  if c = 'b' then '\x08'
  else if c = 't' then '\t'
  else if c = 'n' then '\n'
  else if c = 'v' then '\x0b'
  else if c = 'f' then '\x0c'
  else if c = 'r' then '\r'
  else c

/-- A character where no escape is under way. -/
def plainStep (quote c : Char) : Option Step :=
  if c = quote then some .close
  else if c = '\\' then some (.go .escaped [])
  else if c = '\n' || c = '\r' then none
  else some (.go .plain (unitsOf c.toNat))

/-- A character behind a backslash. -/
def escapedStep (c : Char) : Option Step :=
  if c = 'u' then some (.go .unicode [])
  else if c = 'x' then some (.go (.digits 1 0) [])
  else if c = '0' then some (.go .nul [0])
  else if c.isDigit then none
  else if c = '\r' then some (.go .carriage [])
  else if c = '\n' || c = '\u2028' || c = '\u2029' then some (.go .plain [])
  else some (.go .plain (unitsOf (letterEscape c).toNat))

/-- A digit of an escape by number, with `more` to come. -/
def digitStep (more value : Nat) (c : Char) : Option Step :=
  (Json.hexValue c).map fun digit =>
    match more with
    | 0 => .go .plain [value * 16 + digit]
    | more + 1 => .go (.digits more (value * 16 + digit)) []

/-- What one character of a literal leads to. -/
def Phase.next (quote : Char) : Phase → Char → Option Step
  | .plain, c => plainStep quote c
  | .escaped, c => escapedStep c
  | .unicode, c => if c = '{' then some (.go (.braced none) []) else digitStep 3 0 c
  | .digits more value, c => digitStep more value c
  | .braced value, c =>
    if c = '}' then value.map fun code => .go .plain (unitsOf code)
    else
      (Json.hexValue c).bind fun digit =>
        let code := value.getD 0 * 16 + digit
        if code ≤ 0x10ffff then some (.go (.braced (some code)) []) else none
  | .nul, c => if c.isDigit then none else plainStep quote c
  | .carriage, c => if c = '\n' then some (.go .plain []) else plainStep quote c

/-- Reads up to the closing quote: the units of the value, and what comes after the quote. -/
def readLiteral (quote : Char) : Phase → List Char → Option (List Nat × List Char)
  | _, [] => none
  | phase, c :: s =>
    match phase.next quote c with
    | none => none
    | some .close => some ([], s)
    | some (.go phase' units) =>
      (readLiteral quote phase' s).map fun read => (units ++ read.1, read.2)

/-- Reads a literal from its opening quote on. -/
def readString : List Char → Option (List Nat × List Char)
  | '"' :: s => readLiteral '"' .plain s
  | '\'' :: s => readLiteral '\'' .plain s
  | _ => none

/-! ## Inside a literal -/

/-- The phase and the units after `s`, if the literal goes on after it. -/
def Phase.over (quote : Char) : Phase → List Char → Option (Phase × List Nat)
  | phase, [] => some (phase, [])
  | phase, c :: s =>
    match phase.next quote c with
    | some (.go phase' units) =>
      (phase'.over quote s).map fun result => (result.1, units ++ result.2)
    | _ => none

section Over

variable {quote : Char} {phase phase' : Phase} {units : List Nat} {s : List Char}

/-- A literal that goes on after more text goes on after its first character, from another phase. -/
theorem Phase.exists_of_over_cons {c : Char} (h : phase.over quote (c :: s) = some (phase', units)) :
    ∃ next added more, phase.next quote c = some (.go next added)
      ∧ next.over quote s = some (phase', more) ∧ units = added ++ more := by
  rw [Phase.over] at h
  split at h
  · rename_i next added hnext
    obtain ⟨⟨reached, more⟩, hmore, hresult⟩ := Option.map_eq_some_iff.1 h
    obtain ⟨rfl, rfl⟩ := Prod.mk.inj hresult
    exact ⟨next, added, more, hnext, hmore, rfl⟩
  · cases h

/-- A literal is read on from the phase that its first part leads to. -/
theorem readLiteral_append (h : phase.over quote s = some (phase', units)) (rest : List Char) :
    readLiteral quote phase (s ++ rest)
      = (readLiteral quote phase' rest).map fun read => (units ++ read.1, read.2) := by
  induction s generalizing phase units with
  | nil =>
    cases h
    simp
  | cons c s ih =>
    obtain ⟨next, added, more, hnext, hmore, rfl⟩ := Phase.exists_of_over_cons h
    rw [List.cons_append, readLiteral]
    simp only [hnext, ih hmore, Option.map_map, Function.comp_def, List.append_assoc]

/-- A character that goes from the plain phase back to it, with `units`, and then more text. -/
theorem over_append {t : List Char} {more : List Nat}
    (hs : phase.over quote s = some (.plain, units))
    (ht : Phase.plain.over quote t = some (phase', more)) :
    phase.over quote (s ++ t) = some (phase', units ++ more) := by
  induction s generalizing phase units with
  | nil =>
    cases hs
    exact ht
  | cons c s ih =>
    obtain ⟨next, added, rest, hnext, hrest, rfl⟩ := Phase.exists_of_over_cons hs
    rw [List.cons_append, Phase.over]
    simp only [hnext, ih hrest, Option.map_some, List.append_assoc]

end Over

/-! ## Between double quotes -/

/-- A character that stands for itself. -/
theorem over_self {quote c : Char} (hquote : c ≠ quote) (hslash : c ≠ '\\') (hfeed : c ≠ '\n')
    (hreturn : c ≠ '\r') : Phase.plain.over quote [c] = some (.plain, unitsOf c.toNat) := by
  simp [Phase.over, Phase.next, plainStep, hquote, hslash, hfeed, hreturn]

/-- A character that is escaped by its code. -/
theorem over_unicodeEscape {c : Char} (h : c.toNat < 0x10000) :
    Phase.plain.over '"' (Text.unicodeEscape c) = some (.plain, unitsOf c.toNat) := by
  have hdigit (m : Nat) : Json.hexValue (Text.hexDigit (m % 16)) = some (m % 16) :=
    Json.hexValue_hexDigit (Nat.mod_lt m (by decide))
  -- A digit is no brace, so the escape goes on for four digits.
  have hbrace : Text.hexDigit (c.toNat / 16 / 16 / 16 % 16) ≠ '{' := by
    intro hbrace
    have hvalue := hdigit (c.toNat / 16 / 16 / 16)
    rw [hbrace] at hvalue
    cases hvalue
  have hvalue : ((c.toNat / 16 / 16 / 16 % 16 * 16 + c.toNat / 16 / 16 % 16) * 16
      + c.toNat / 16 % 16) * 16 + c.toNat % 16 = c.toNat := by omega
  have hunits : unitsOf c.toNat = [c.toNat] := if_pos h
  have hescape : Text.unicodeEscape c = ['\\', 'u', Text.hexDigit (c.toNat / 16 / 16 / 16 % 16),
    Text.hexDigit (c.toNat / 16 / 16 % 16), Text.hexDigit (c.toNat / 16 % 16),
    Text.hexDigit (c.toNat % 16)] := rfl
  rw [hescape, hunits]
  simp [Phase.over, Phase.next, plainStep, escapedStep, digitStep, hbrace, hdigit, hvalue]

/-- A control character is not one that is printed. -/
theorem ne_of_printed {c d : Char} (hprinted : 0x20 ≤ c.toNat) (hd : d.toNat < 0x20) : c ≠ d := by
  rintro rfl
  omega

/-- What is written for a character stands for it, whichever way it is written. -/
theorem over_escaped {c : Char} {escape : List Char} (h : Text.Escaped c escape) :
    Phase.plain.over '"' escape = some (.plain, unitsOf c.toNat) := by
  cases h with
  | byLetter hletter =>
    have hall : ∀ e ∈ Text.letterEscapes,
        Phase.plain.over '"' ['\\', e.2] = some (.plain, unitsOf e.1.toNat) := by decide
    exact hall _ hletter
  | byCode hcode => exact over_unicodeEscape (by omega)
  | asItIs hquote hslash hprinted =>
    exact over_self hquote hslash (ne_of_printed hprinted (by decide))
      (ne_of_printed hprinted (by decide))

/-- **The escape of a character** leaves no escape under way and stands for the character. -/
theorem over_scriptEscape (c : Char) :
    Phase.plain.over '"' (Text.scriptEscape c) = some (.plain, unitsOf c.toNat) := by
  unfold Text.scriptEscape
  split
  case isTrue hseparator =>
    refine over_unicodeEscape ?_
    obtain rfl | rfl : c = '\u2028' ∨ c = '\u2029' := by simpa using hseparator
    all_goals decide
  case isFalse => exact over_escaped (Text.escaped_jsonEscape c)

/-- Whether a line ends with the character, wherever it stands. -/
def isLineTerminator (c : Char) : Bool := c = '\n' || c = '\r' || c = '\u2028' || c = '\u2029'

/-- No line ends in an escape by number. -/
theorem isLineTerminator_unicodeEscape (c : Char) :
    ∀ d ∈ Text.unicodeEscape c, isLineTerminator d = false := by
  have hhex (n : Nat) : isLineTerminator (Text.hexDigit (n % 16)) = false := by
    have hall : ∀ m : Fin 16, isLineTerminator (Text.hexDigit m.val) = false := by decide
    exact hall ⟨n % 16, Nat.mod_lt n (by decide)⟩
  intro d hd
  simp only [Text.unicodeEscape, Text.hexDigits, List.nil_append, List.cons_append,
    List.mem_cons, List.not_mem_nil, or_false] at hd
  obtain rfl | rfl | rfl | rfl | rfl | rfl := hd
  · decide
  · decide
  all_goals exact hhex _

/-- Between double quotes only the two separators would end a line, -/
theorem isLineTerminator_escaped {c : Char} {escape : List Char} (h : Text.Escaped c escape)
    (hseparator : ¬ (c = '\u2028' ∨ c = '\u2029')) : ∀ d ∈ escape, isLineTerminator d = false := by
  cases h with
  | byLetter hletter =>
    have hall : ∀ e ∈ Text.letterEscapes, isLineTerminator e.2 = false := by decide
    exact List.forall_mem_cons.2 ⟨by decide, List.forall_mem_singleton.2 (hall _ hletter)⟩
  | byCode => exact isLineTerminator_unicodeEscape c
  | asItIs _ _ hprinted =>
    have hfeed : c ≠ '\n' := ne_of_printed hprinted (by decide)
    have hreturn : c ≠ '\r' := ne_of_printed hprinted (by decide)
    rw [not_or] at hseparator
    exact List.forall_mem_singleton.2 (by simp [isLineTerminator, hfeed, hreturn, hseparator])

/-- and scripts escape these.  No line ends inside the escape of a character. -/
theorem isLineTerminator_scriptEscape (c : Char) :
    ∀ d ∈ Text.scriptEscape c, isLineTerminator d = false := by
  unfold Text.scriptEscape
  split
  case isTrue => exact isLineTerminator_unicodeEscape c
  case isFalse hseparator =>
    exact isLineTerminator_escaped (Text.escaped_jsonEscape c) (by simpa using hseparator)

theorem over_flatMap_scriptEscape (text : List Char) :
    Phase.plain.over '"' (text.flatMap Text.scriptEscape) = some (.plain, utf16 text) := by
  induction text with
  | nil => rfl
  | cons c text ih => exact over_append (over_scriptEscape c) ih

theorem toList_scriptQuoted (s : String) :
    (Text.scriptQuoted s).toList = '"' :: (s.toList.flatMap Text.scriptEscape ++ ['"']) := by
  simp [Text.scriptQuoted, Text.quoted]

/-- **A quoted text is read back**, whatever comes after it. -/
theorem readString_scriptQuoted (s : String) (rest : List Char) :
    readString ((Text.scriptQuoted s).toList ++ rest) = some (utf16 s.toList, rest) := by
  rw [toList_scriptQuoted, List.cons_append, List.append_assoc, readString,
    readLiteral_append (over_flatMap_scriptEscape s.toList)]
  simp [readLiteral, Phase.next, plainStep]

/-! ## Between single quotes -/

/-- What a reader may owe: an escape by code point in braces can stand for two units, and its
    closing brace is only one. -/
def Phase.credit : Phase → Nat
  | .braced _ => 1
  | _ => 0

/-- An escape of one letter has no more units than its letter. -/
theorem length_letterEscape_le (c : Char) :
    (unitsOf (letterEscape c).toNat).length ≤ (unitsOf c.toNat).length := by
  by_cases h : c ∈ ['b', 't', 'n', 'v', 'f', 'r']
  · have hall : ['b', 't', 'n', 'v', 'f', 'r'].all
        fun d => (unitsOf (letterEscape d).toNat).length ≤ 1 := by decide
    have hone := of_decide_eq_true (List.all_eq_true.1 hall c h)
    exact Nat.le_trans hone (one_le_length_unitsOf c.toNat)
  · -- any other character stands for itself
    simp only [List.mem_cons, List.not_mem_nil, or_false, not_or] at h
    simp [letterEscape, h]

/-- No character adds more to the value than it takes up in the script. -/
theorem Phase.length_le_of_next {quote c : Char} {phase phase' : Phase} {units : List Nat}
    (h : phase.next quote c = some (.go phase' units)) :
    units.length + phase'.credit ≤ (unitsOf c.toNat).length + phase.credit := by
  have hc := one_le_length_unitsOf c.toNat
  -- in a plain text, a character stands for itself or opens an escape,
  have hplain (h : plainStep quote c = some (.go phase' units)) :
      units.length + phase'.credit ≤ (unitsOf c.toNat).length := by
    unfold plainStep at h
    split at h
    · cases h
    split at h
    · cases h
      exact Nat.zero_le _
    split at h
    · cases h
    · cases h
      exact Nat.le_refl _
  -- and a digit of an escape adds nothing until the last
  have hdigit {more value : Nat} (h : digitStep more value c = some (.go phase' units)) :
      units.length + phase'.credit ≤ (unitsOf c.toNat).length := by
    obtain ⟨digit, -, h⟩ := Option.map_eq_some_iff.1 h
    cases more with
    | zero =>
      cases h
      exact hc
    | succ more =>
      cases h
      exact Nat.zero_le _
  cases phase with
  | plain => exact hplain h
  | escaped =>
    rw [Phase.next, escapedStep] at h
    have hletter := length_letterEscape_le c
    repeat' split at h
    all_goals cases h
    · exact Nat.zero_le _
    · exact Nat.zero_le _
    · exact hc
    · exact Nat.zero_le _
    · exact Nat.zero_le _
    · exact hletter
  | unicode =>
    rw [Phase.next] at h
    split at h
    · cases h
      exact hc
    · exact hdigit h
  | digits more value => exact hdigit h
  | braced value =>
    rw [Phase.next] at h
    split at h
    · obtain ⟨code, -, h⟩ := Option.map_eq_some_iff.1 h
      cases h
      exact Nat.le_trans (length_unitsOf_le code) (Nat.succ_le_succ hc)
    · obtain ⟨digit, -, h⟩ := Option.bind_eq_some_iff.1 h
      dsimp only at h
      split at h
      · cases h
        exact Nat.le_add_left _ _
      · cases h
  | nul =>
    rw [Phase.next] at h
    split at h
    · cases h
    · exact hplain h
  | carriage =>
    rw [Phase.next] at h
    split at h
    · cases h
      exact Nat.zero_le _
    · exact hplain h

/-- A literal is longer than its value. -/
theorem readLiteral_length_lt {quote : Char} {phase : Phase} {s rest : List Char}
    {units : List Nat} (h : readLiteral quote phase s = some (units, rest)) :
    units.length + (utf16 rest).length < (utf16 s).length + phase.credit := by
  -- on the text, with the credit of the phase for what is read but not given yet
  induction s generalizing phase units with
  | nil => cases h
  | cons c s ih =>
    rw [readLiteral] at h
    rw [length_utf16_cons]
    split at h
    · cases h
    · cases h
      have hc := one_le_length_unitsOf c.toNat
      simp only [List.length_nil]
      omega
    · rename_i phase' added hnext
      obtain ⟨⟨more, left⟩, hread, hresult⟩ := Option.map_eq_some_iff.1 h
      obtain ⟨rfl, rfl⟩ := Prod.mk.inj hresult
      have hadded := Phase.length_le_of_next hnext
      have hmore : more.length + (utf16 left).length < (utf16 s).length + phase'.credit := ih hread
      show (added ++ more).length + (utf16 left).length < _
      rw [List.length_append]
      omega

/-- A text may stand in single quotes as it is: no quote, backslash or line break is in it. -/
def Bare (text : List Char) : Prop := ∀ c ∈ text, c ≠ '\'' ∧ c ≠ '\\' ∧ c ≠ '\n' ∧ c ≠ '\r'

/-- A bare text stands for itself, -/
theorem over_of_bare {text : List Char} (h : Bare text) :
    Phase.plain.over '\'' text = some (.plain, utf16 text) := by
  induction text with
  | nil => rfl
  | cons c text ih =>
    obtain ⟨hquote, hslash, hfeed, hreturn⟩ := h c (List.mem_cons_self ..)
    exact over_append (over_self hquote hslash hfeed hreturn)
      (ih fun d hd => h d (List.mem_cons_of_mem _ hd))

/-- and one that stands for itself is bare. -/
theorem bare_of_readLiteral {text rest : List Char}
    (h : readLiteral '\'' .plain (text ++ '\'' :: rest) = some (utf16 text, rest)) : Bare text := by
  -- the first character that is not bare costs a unit, which nothing behind it makes up for
  induction text with
  | nil => exact List.forall_mem_nil _
  | cons c text ih =>
    rw [List.cons_append, readLiteral, Phase.next, plainStep] at h
    by_cases hquote : c = '\''
    -- The literal ends too early.
    · simp only [if_pos hquote] at h
      have hempty : [] = utf16 (c :: text) := congrArg Prod.fst (Option.some.inj h)
      exact absurd hempty.symm (utf16_cons_ne_nil c text)
    rw [if_neg hquote] at h
    by_cases hslash : c = '\\'
    -- What is left is one unit short of the value.
    · simp only [if_pos hslash] at h
      obtain ⟨⟨units, left⟩, hread, hresult⟩ := Option.map_eq_some_iff.1 h
      obtain ⟨hunits, rfl⟩ := Prod.mk.inj hresult
      have hvalue : units = utf16 (c :: text) := hunits
      have hlength := length_utf16_cons c text
      have hc := one_le_length_unitsOf c.toNat
      have hshort : units.length + (utf16 left).length < (utf16 (text ++ '\'' :: left)).length :=
        readLiteral_length_lt hread
      have hquoted : (utf16 (text ++ '\'' :: left)).length
          = (utf16 text).length + ((utf16 left).length + 1) := by
        simp [utf16, unitsOf, Nat.add_comm]
      rw [hvalue, hquoted] at hshort
      omega
    rw [if_neg hslash] at h
    by_cases hbreak : (c = '\n' || c = '\r') = true
    · simp only [if_pos hbreak] at h
      cases h
    simp only [if_neg hbreak] at h
    obtain ⟨⟨units, left⟩, hread, hresult⟩ := Option.map_eq_some_iff.1 h
    obtain ⟨hunits, rfl⟩ := Prod.mk.inj hresult
    have hmore : units = utf16 text := List.append_cancel_left hunits
    simp only [Bool.or_eq_true, decide_eq_true_eq, not_or] at hbreak
    intro d hd
    obtain rfl | hd := List.mem_cons.1 hd
    · exact ⟨hquote, hslash, hbreak⟩
    · exact ih (by rw [hread, hmore]) d hd

/-- **A text in single quotes** is denoted by them EXACTLY when it may stand there as it is. -/
theorem readString_singleQuoted_iff {text : String} {rest : List Char} :
    readString ((Bundle.singleQuoted text).toList ++ rest) = some (utf16 text.toList, rest)
      ↔ Bare text.toList := by
  have hread : readString ((Bundle.singleQuoted text).toList ++ rest)
      = readLiteral '\'' .plain (text.toList ++ '\'' :: rest) := by
    simp [Bundle.singleQuoted, readString]
  rw [hread]
  refine ⟨bare_of_readLiteral, fun h => ?_⟩
  rw [readLiteral_append (over_of_bare h)]
  simp [readLiteral, Phase.next, plainStep]

end Stache.Script
