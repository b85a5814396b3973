/-
  The numbers of tags, as they are written.

  A token that is a number is a numeral: an optional minus sign, digits, and a fraction or none
  (`numberOf_isNumeral`).  A point belongs to the number only with a digit behind it, so digits
  stand on both sides of it.
-/
import Stache.Proofs.Grammar.Arguments
import Stache.Proofs.Items.Tokens

namespace Stache

/-! ## Numerals -/

/-- Digits, and at least one. -/
def Digits (s : List Char) : Prop := s ≠ [] ∧ ∀ c ∈ s, c.isDigit = true

/-- Digits, and a point with more digits or none. -/
def IsUnsigned (s : List Char) : Prop :=
  Digits s ∨ ∃ whole fraction, s = whole ++ '.' :: fraction ∧ Digits whole ∧ Digits fraction

/-- The numeral has this sign and these digits. -/
structure IsNumeral (s sign unsigned : List Char) : Prop where
  eq : s = sign ++ unsigned
  sign : sign = [] ∨ sign = ['-']
  unsigned : IsUnsigned unsigned

theorem digits_takeWhile_isDigit {s : List Char} (h : (s.takeWhile Char.isDigit).isEmpty = false) :
    Digits (s.takeWhile Char.isDigit) :=
  ⟨List.isEmpty_eq_false_iff.1 h, fun _ hc => List.all_eq_true.1 List.all_takeWhile _ hc⟩

/-- A fraction is empty or begins with a point. -/
theorem fractionOf_eq (s : List Char) :
    fractionOf s = [] ∨ ∃ fraction, fractionOf s = '.' :: fraction ∧ Digits fraction := by
  unfold fractionOf
  split
  · split
    · exact .inl rfl
    · rename_i hdigits
      exact .inr ⟨_, rfl, digits_takeWhile_isDigit (Bool.eq_false_iff.2 hdigits)⟩
  · exact .inl rfl

/-- A fraction has digits on both sides of its point. -/
theorem unsignedOf_isUnsigned {s : List Char} (h : unsignedOf s ≠ []) :
    IsUnsigned (unsignedOf s) := by
  unfold unsignedOf at h ⊢
  dsimp only at h ⊢
  split at h
  · exact (h rfl).elim
  · rename_i hwhole
    rw [if_neg hwhole]
    have hdigits := digits_takeWhile_isDigit (Bool.eq_false_iff.2 hwhole)
    rcases fractionOf_eq (s.dropWhile Char.isDigit) with hnone | ⟨fraction, hsome, hfraction⟩
    · rw [hnone, List.append_nil]
      exact .inl hdigits
    · rw [hsome]
      exact .inr ⟨_, _, rfl, hdigits, hfraction⟩

/-- **A number that is read is a numeral.** -/
theorem numberOf_isNumeral {s : List Char} (h : numberOf s ≠ []) :
    ∃ sign unsigned, IsNumeral (numberOf s) sign unsigned := by
  unfold numberOf at h
  split at h
  · rename_i t
    split at h
    · exact (h rfl).elim
    · rename_i hne
      have hminus : numberOf ('-' :: t) = '-' :: unsignedOf t := if_neg hne
      rw [hminus]
      exact ⟨['-'], _, rfl, .inr rfl,
        unsignedOf_isUnsigned fun hnil => hne (List.isEmpty_iff.2 hnil)⟩
  · rename_i hminus
    rw [numberOf]
    · exact ⟨[], _, rfl, .inl rfl, unsignedOf_isUnsigned h⟩
    · exact hminus

/-! ## Tokens -/

/-- So a token is one that says it is a number. -/
theorem TokenKind.read_isNumeral {c : Char} {s : List Char} {r : Reading TokenKind}
    (h : TokenKind.read c s = .ok r) (hkind : r.value = .number) :
    ∃ sign unsigned, IsNumeral r.lexeme sign unsigned := by
  obtain ⟨hlexeme, hne⟩ := read_number h hkind
  rw [hlexeme] at hne ⊢
  exact numberOf_isNumeral hne

/-- **A number in an argument** of a template that is parsed is the numeral that is written there. -/
theorem Template.parse_number {text : String} {source : Option String} {standalone : Bool}
    {t : Template} (h : Template.parse text source standalone = .ok t) {p : Program}
    (hp : p ∈ t.root.family) {written : String} {span : Span}
    (he : .number written span ∈ p.arguments) :
    span.Covers text.toList written.toList
      ∧ ∃ sign unsigned, IsNumeral written.toList sign unsigned := by
  obtain ⟨items, hscan, harguments⟩ := Template.parse_arguments h
  obtain ⟨item, hitem, tag, hshape, hderived⟩ := harguments p hp _ he
  obtain ⟨token, htoken, hliteral⟩ := hderived.exists_literal (fun _ => nofun) (fun _ _ => nofun)
  have hread := hscan.readIn hitem hshape token htoken
  unfold Grammar.literal? at hliteral
  split at hliteral <;> cases hliteral
  rename_i hkind
  refine ⟨hread.covers, ?_⟩
  obtain ⟨before, c, rest, r, -, hread, rfl⟩ := hread
  rw [String.toList_ofList]
  exact TokenKind.read_isNumeral hread hkind

end Stache
