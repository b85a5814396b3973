/-
  JSON texts, read back.

  A reader is a function on what is left of a text, and says how it went on by a value and by what
  is left then.  That it YIELDS a value is the form in which all facts about readers are stated
  (`Yields`): the proof that the rest is shorter is of no interest to anybody.

  A quoted text is read back whole, whatever comes after it (`readString_jsonQuoted`).  Character by
  character, the three forms that a character can have are read by three clauses of the reader: most
  stand for themselves, a few have an escape of one letter, and the other control characters one of
  four digits.
-/
import Stache.Json.Record

namespace Stache.Json

variable {α β : Type}

/-! ## Yielding -/

/-- The reader reads `value` from the front of `s`, and leaves `rest`. -/
def Yields (read : Reader α) (s : List Char) (value : α) (rest : List Char) : Prop :=
  ∃ h, read s = .ok (value, ⟨rest, h⟩)

section Yields

variable {read : Reader α} {next : Reader β} {f : α → β} {s : List Char} {value : α}
  {rest : List Char}

/-- A reader that makes something else of the value. -/
theorem Yields.map (h : Yields read s value rest)
    (hnext : next s = (read s).map fun result => (f result.1, result.2)) :
    Yields next s (f value) rest := by
  obtain ⟨hshort, hread⟩ := h
  refine ⟨hshort, ?_⟩
  rw [hnext, hread]
  rfl

/-- A reader that passes over a character first. -/
theorem Yields.behind {c : Char} (h : Yields read s value rest)
    (hnext : next (c :: s) = (read s).map fun result => (f result.1, result.2.cons)) :
    Yields next (c :: s) (f value) rest := by
  obtain ⟨hshort, hread⟩ := h
  refine ⟨Nat.lt_succ_of_lt hshort, ?_⟩
  rw [hnext, hread]
  rfl

end Yields

/-! ## Digits -/

theorem hexValue_hexDigit {n : Nat} (h : n < 16) : hexValue (Text.hexDigit n) = some n := by
  have hall : ∀ n : Fin 16, hexValue (Text.hexDigit n) = some n.val := by decide
  exact hall ⟨n, h⟩

/-- Four digits are read as the number they write. -/
theorem readUnit_hexDigits {n : Nat} (h : n < 0x10000) (rest : List Char) :
    Yields readUnit (Text.hexDigits 4 n ++ rest) n rest := by
  have hdigits : Text.hexDigits 4 n ++ rest
      = Text.hexDigit (n / 16 / 16 / 16 % 16) :: Text.hexDigit (n / 16 / 16 % 16)
        :: Text.hexDigit (n / 16 % 16) :: Text.hexDigit (n % 16) :: rest := rfl
  have hvalue : ((n / 16 / 16 / 16 % 16 * 16 + n / 16 / 16 % 16) * 16 + n / 16 % 16) * 16 + n % 16
      = n := by omega
  have hdigit (m : Nat) : hexValue (Text.hexDigit (m % 16)) = some (m % 16) :=
    hexValue_hexDigit (Nat.mod_lt m (by decide))
  rw [hdigits]
  refine ⟨by simp only [List.length_cons]; omega, ?_⟩
  rw [readUnit]
  simp only [hdigit, hvalue]

/-! ## Characters -/

section Characters

variable {care : Care} {s text rest : List Char}

/-- A quoted text ends at its quote. -/
theorem readText_quote : Yields (readText care) ('"' :: rest) [] rest := by
  refine ⟨Nat.lt_succ_self _, ?_⟩
  rw [readText]
  · rfl
  -- A quote is no backslash, whatever comes after it.
  · simp
  · simp
  · simp

/-- A character that stands for itself. -/
theorem readText_plain {c : Char} (hquote : c ≠ '"') (hslash : c ≠ '\\')
    (hcontrol : ¬ c.toNat < 0x20) (h : Yields (readText care) s text rest) :
    Yields (readText care) (c :: s) (c :: text) rest := by
  obtain ⟨hshort, hread⟩ := h
  refine ⟨Nat.lt_succ_of_lt hshort, ?_⟩
  rw [readText, if_neg hquote, if_neg hcontrol, hread]
  · rfl
  · exact fun hc _ => hslash hc
  · exact fun _ hc _ => hslash hc
  · exact fun _ _ hc _ => hslash hc

/-- An escape of one letter. -/
theorem readText_simple {c d : Char} (hd : simpleEscape d = some c)
    (h : Yields (readText care) s text rest) :
    Yields (readText care) ('\\' :: d :: s) (c :: text) rest := by
  obtain ⟨hshort, hread⟩ := h
  refine ⟨by simp only [List.length_cons]; omega, ?_⟩
  rw [readText, hd]
  · simp only [hread]
    rfl
  · rintro rfl
    cases hd

/-- An escape by code, of a character that is no surrogate. -/
theorem readText_unicodeEscape {c : Char} (hc : c.toNat < 0xd800)
    (h : Yields (readText care) s text rest) :
    Yields (readText care) (Text.unicodeEscape c ++ s) (c :: text) rest := by
  obtain ⟨hunit, hlead⟩ := readUnit_hexDigits (n := c.toNat) (by omega) s
  obtain ⟨hshort, hread⟩ := h
  have hcode : readCode care (Text.hexDigits 4 c.toNat ++ s) = .ok (c, ⟨s, hunit⟩) := by
    have htrail : isTrailSurrogate c.toNat = false := by simp [isTrailSurrogate]; omega
    have hpair : isLeadSurrogate c.toNat = false := by simp [isLeadSurrogate]; omega
    rw [readCode, hlead]
    show (if care = .skim then _ else _) = _
    rw [htrail, hpair, Char.ofNat_toNat]
    cases care <;> rfl
  refine ⟨?_, ?_⟩
  · show rest.length < (Text.hexDigits 4 c.toNat ++ s).length + 1 + 1
    omega
  · show readText care ('\\' :: 'u' :: (Text.hexDigits 4 c.toNat ++ s)) = _
    rw [readText, hcode]
    simp only [bind, Except.bind, hread]
    rfl

/-- What is written for a character is read as the character, whichever way it is written. -/
theorem readText_escaped {c : Char} {escape : List Char} (hescape : Text.Escaped c escape)
    (h : Yields (readText care) s text rest) :
    Yields (readText care) (escape ++ s) (c :: text) rest := by
  cases hescape with
  | byLetter hletter =>
    have hsimple : ∀ e ∈ Text.letterEscapes, simpleEscape e.2 = some e.1 := by decide
    exact readText_simple (hsimple _ hletter) h
  | byCode hcode => exact readText_unicodeEscape (by omega) h
  | asItIs hquote hslash hprinted => exact readText_plain hquote hslash (Nat.not_lt.2 hprinted) h

end Characters

/-! ## Texts -/

/-- **A text is read back** up to its closing quote, whatever comes after it. -/
theorem readText_flatMap (care : Care) (text rest : List Char) :
    Yields (readText care) (text.flatMap Text.jsonEscape ++ '"' :: rest) text rest := by
  induction text with
  | nil => exact readText_quote
  | cons c text ih =>
    rw [List.flatMap_cons, List.append_assoc]
    exact readText_escaped (Text.escaped_jsonEscape c) ih

theorem toList_jsonQuoted (s : String) :
    (Text.jsonQuoted s).toList = '"' :: (s.toList.flatMap Text.jsonEscape ++ ['"']) := by
  simp [Text.jsonQuoted, Text.quoted]

/-- **A quoted text is read back**, whatever stands behind it. -/
theorem readString_jsonQuoted (s : String) (rest : List Char) :
    Yields readString ((Text.jsonQuoted s).toList ++ rest) s rest := by
  have htext : Yields readString ('"' :: (s.toList.flatMap Text.jsonEscape ++ '"' :: rest))
      (String.ofList s.toList) rest := (readText_flatMap .keep s.toList rest).behind rfl
  rw [String.ofList_toList] at htext
  rw [toList_jsonQuoted, List.cons_append, List.append_assoc]
  exact htext

/-- A key is read like any other text. -/
theorem readKey_jsonQuoted (care : Care) (s : String) (rest : List Char) :
    Yields (readKey care) ((Text.jsonQuoted s).toList ++ rest) s rest := by
  have htext : Yields (readKey care) ('"' :: (s.toList.flatMap Text.jsonEscape ++ '"' :: rest))
      (String.ofList s.toList) rest := (readText_flatMap care s.toList rest).behind rfl
  rw [String.ofList_toList] at htext
  rw [toList_jsonQuoted, List.cons_append, List.append_assoc]
  exact htext

end Stache.Json
