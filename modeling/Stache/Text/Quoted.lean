/-
  Quoted texts.

  A text is quoted between double quotes, with an escape for whatever may not stand there. Two forms
  are in use, and they differ in the characters that need an escape: JSON's, and that of string
  literals in scripts, where the two Unicode line separators would end a line as well.
-/

namespace Stache.Text

/-- The digit with value `n` below sixteen, in lower case. -/
def hexDigit (n : Nat) : Char := if n < 10 then Char.ofNat (48 + n) else Char.ofNat (87 + n)

/-- The lowest `width` hexadecimal digits of `n`. -/
def hexDigits : (width n : Nat) → List Char
  | 0, _ => []
  | width + 1, n => hexDigits width (n / 16) ++ [hexDigit (n % 16)]

/-- The escape of `c` by its code point, which has at most four hexadecimal digits. -/
def unicodeEscape (c : Char) : List Char := '\\' :: 'u' :: hexDigits 4 c.toNat

/-- The form of `c` inside a JSON string. -/
def jsonEscape (c : Char) : List Char :=
  if c = '"' then ['\\', '"']
  else if c = '\\' then ['\\', '\\']
  else if c = '\x08' then ['\\', 'b']
  else if c = '\x0c' then ['\\', 'f']
  else if c = '\n' then ['\\', 'n']
  else if c = '\r' then ['\\', 'r']
  else if c = '\t' then ['\\', 't']
  else if c.toNat < 0x20 then unicodeEscape c
  else [c]

/-- The characters that are escaped by a letter, each with its letter. -/
def letterEscapes : List (Char × Char) :=
  [('"', '"'), ('\\', '\\'), ('\x08', 'b'), ('\x0c', 'f'), ('\n', 'n'), ('\r', 'r'), ('\t', 't')]

/-- The ways to write a character between double quotes. -/
inductive Escaped (c : Char) : List Char → Prop where
  /-- A backslash and a letter. -/
  | byLetter {letter : Char} (h : (c, letter) ∈ letterEscapes) : Escaped c ['\\', letter]
  /-- The code of a control character, in four digits. -/
  | byCode (h : c.toNat < 0x20) : Escaped c (unicodeEscape c)
  /-- The character itself. -/
  | asItIs (hquote : c ≠ '"') (hslash : c ≠ '\\') (hprinted : 0x20 ≤ c.toNat) : Escaped c [c]

/-- Whatever reads literals has to read these three. -/
theorem escaped_jsonEscape (c : Char) : Escaped c (jsonEscape c) := by
  by_cases hletter : ∃ letter, (c, letter) ∈ letterEscapes
  · obtain ⟨letter, h⟩ := hletter
    have hall : ∀ e ∈ letterEscapes, jsonEscape e.1 = ['\\', e.2] := by decide
    rw [show jsonEscape c = ['\\', letter] from hall _ h]
    exact .byLetter h
  · have hne {d : Char} (letter : Char) (h : (d, letter) ∈ letterEscapes) : c ≠ d := by
      rintro rfl
      exact hletter ⟨letter, h⟩
    have hquote : c ≠ '"' := hne '"' (by decide)
    have hslash : c ≠ '\\' := hne '\\' (by decide)
    rw [jsonEscape, if_neg hquote, if_neg hslash, if_neg (hne 'b' (by decide)),
      if_neg (hne 'f' (by decide)), if_neg (hne 'n' (by decide)),
      if_neg (hne 'r' (by decide)), if_neg (hne 't' (by decide))]
    split
    · exact .byCode ‹_›
    · exact .asItIs hquote hslash (Nat.le_of_not_lt ‹_›)

/-- The form of `c` inside a string literal of a script. -/
def scriptEscape (c : Char) : List Char :=
  if c = '\u2028' || c = '\u2029' then unicodeEscape c else jsonEscape c

/-- The text `s` between double quotes, each character in the form that `escape` gives it. -/
def quoted (escape : Char → List Char) (s : String) : String :=
  "\"" ++ String.ofList (s.toList.flatMap escape) ++ "\""

/-- A JSON string. -/
def jsonQuoted (s : String) : String := quoted jsonEscape s

/-- A string literal of a script. -/
def scriptQuoted (s : String) : String := quoted scriptEscape s

/-- `texts` with `separator` between each two of them. -/
def joined (separator : String) : List String → String
  | [] => ""
  | [text] => text
  | text :: more => text ++ separator ++ joined separator more

/-- After the first text, each comes with a separator in front. -/
theorem toList_joined (separator text : String) (more : List String) :
    (joined separator (text :: more)).toList
      = text.toList ++ more.flatMap fun next => separator.toList ++ next.toList := by
  induction more generalizing text with
  | nil => simp [joined]
  | cons next more ih =>
    show (text ++ separator ++ joined separator (next :: more)).toList = _
    rw [String.toList_append, String.toList_append, ih next, List.flatMap_cons, List.append_assoc,
      List.append_assoc]

/-- Any text of a row can be taken as the one without a separator of its own. -/
theorem toList_joined_append (separator : String) (before : List String) (text : String)
    (after : List String) :
    (joined separator (before ++ text :: after)).toList
      = (before.flatMap fun next => next.toList ++ separator.toList) ++ text.toList
        ++ after.flatMap fun next => separator.toList ++ next.toList := by
  induction before with
  | nil => exact toList_joined separator text after
  | cons first before ih =>
    have hsplit : (joined separator (first :: (before ++ text :: after))).toList
        = first.toList ++ separator.toList
          ++ (joined separator (before ++ text :: after)).toList := by
      -- something follows the first text, so a separator stands behind it
      cases hrow : before ++ text :: after with
      | nil => simp at hrow
      | cons next more =>
        show (first ++ separator ++ joined separator (next :: more)).toList = _
        rw [String.toList_append, String.toList_append]
    rw [List.cons_append, hsplit, ih, List.flatMap_cons]
    simp only [List.append_assoc]

/-- An object with the fields given. -/
def braces (fields : List String) : String := "\x7b" ++ joined "," fields ++ "\x7d"

/-- An array of the elements given. -/
def brackets (elements : List String) : String := "[" ++ joined "," elements ++ "]"

/-- A field whose name needs no escapes. -/
def field (name value : String) : String := "\"" ++ name ++ "\":" ++ value

end Stache.Text
