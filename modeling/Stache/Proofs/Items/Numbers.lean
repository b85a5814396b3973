/-
  Numbers in tags.

  A number is kept as it is written, and nothing but digits, a minus sign and a point can be in what
  is written: the reader of words sees to it (`numberOf_numeric`), and so each token of a number is
  of that kind (`readTag_numeric`).
-/
import Stache.Proofs.Items.Scan
import Stache.Proofs.Runs

namespace Stache

/-! ## Tokens -/

/-- The characters that write numbers. -/
def isNumberChar (c : Char) : Bool := c.isDigit || c = '-' || c = '.'

/-- Digits, minus signs and points, and nothing else. -/
def Numeric (s : List Char) : Prop := ∀ c ∈ s, isNumberChar c = true

/-- Digits are, -/
theorem numeric_takeWhile_isDigit (s : List Char) : Numeric (s.takeWhile Char.isDigit) := by
  intro c hc
  have hdigit : c.isDigit = true := List.all_eq_true.1 List.all_takeWhile c hc
  simp [isNumberChar, hdigit]

/-- a point with digits behind it is, -/
theorem fractionOf_numeric (s : List Char) : Numeric (fractionOf s) := by
  unfold fractionOf
  split
  · split
    · exact List.forall_mem_nil _
    · exact List.forall_mem_cons.2 ⟨rfl, numeric_takeWhile_isDigit _⟩
  · exact List.forall_mem_nil _

/-- so is a number, -/
theorem unsignedOf_numeric (s : List Char) : Numeric (unsignedOf s) := by
  unfold unsignedOf
  dsimp only
  split
  · exact List.forall_mem_nil _
  · exact List.forall_mem_append.2 ⟨numeric_takeWhile_isDigit s, fractionOf_numeric _⟩

/-- and one with a sign. -/
theorem numberOf_numeric (s : List Char) : Numeric (numberOf s) := by
  unfold numberOf
  split
  · split
    · exact List.forall_mem_nil _
    · exact List.forall_mem_cons.2 ⟨rfl, unsignedOf_numeric _⟩
  · exact unsignedOf_numeric s

/-- A word that is a number is all of the number that the text begins with. -/
theorem readWord_number {c : Char} {s : List Char} {r : Reading TokenKind}
    (h : readWord c s = .ok r) (hkind : r.value = .number) :
    r.lexeme = numberOf (c :: s) ∧ r.lexeme ≠ [] := by
  have hword (word : List Char) (atEnd : Bool) : wordKind word atEnd ≠ .number := by
    unfold wordKind
    repeat' split
    all_goals exact fun h => nomatch h
  have hne := readWord_ne_nil h
  unfold readWord at h
  dsimp only at h
  split at h
  · cases h
    exact ⟨rfl, hne⟩
  · split at h
    · cases h
      cases hkind
    · split at h
      · cases h
      · cases h
        exact absurd hkind (hword _ _)

/-- A token that is a number has all of the number, and it is not empty. -/
theorem TokenKind.read_number {c : Char} {s : List Char} {r : Reading TokenKind}
    (h : TokenKind.read c s = .ok r) (hkind : r.value = .number) :
    r.lexeme = numberOf (c :: s) ∧ r.lexeme ≠ [] := by
  unfold TokenKind.read at h
  -- Only words may be numbers, and these come last.
  split at h
  iterate 6
    cases h
    cases hkind
  · split at h
    · cases h
      cases hkind
    · cases h
      dsimp only at hkind
      split at hkind <;> cases hkind
  · dsimp only at h
    split at h
    · cases h
    · cases h
      cases hkind
  iterate 2
    split at h
    · cases h
    · cases h
      cases hkind
  · exact readWord_number h hkind

theorem TokenKind.read_numeric {c : Char} {s : List Char} {r : Reading TokenKind}
    (h : TokenKind.read c s = .ok r) (hkind : r.value = .number) : Numeric r.lexeme := by
  rw [(read_number h hkind).1]
  exact numberOf_numeric (c :: s)

/-- A token that is a number is written as one. -/
def Token.IsNumeric (t : Token) : Prop := t.kind = .number → Numeric t.lexeme.toList

/-- So are those in a body, -/
theorem readBody_numeric {closing : Closing} {p : Position} {s : List Char} {r : Reading TagBody}
    (h : readBody closing p s = .ok r) : ∀ t ∈ r.value.tokens, t.IsNumeric := by
  fun_induction readBody closing p s generalizing r
  · cases h
  iterate 2
    cases h
    exact List.forall_mem_nil _
  · cases h
  · rename_i r' hr ih
    obtain ⟨more, hmore, h⟩ := exists_of_bind_ok h
    cases h
    refine List.forall_mem_cons.2 ⟨fun hkind => ?_, ih hmore⟩
    rw [String.toList_ofList]
    exact TokenKind.read_numeric hr hkind

/-- and those of a tag. -/
theorem readTag_numeric {p : Position} {s : List Char} {r : Reading ItemShape}
    (h : readTag p s = .ok r) {tag : Tag} (htag : r.value = .tag tag) :
    ∀ t ∈ tag.tokens, t.IsNumeric := by
  cases readTag_of h with
  | comment => cases htag
  | tag _ _ _ hbody =>
    cases htag
    exact readBody_numeric hbody

/-- The tokens of the items of a text. -/
theorem Item.Scan.numeric {p : Position} {s : List Char} {items : List Item}
    (h : Item.Scan p s items) {item : Item} (hitem : item ∈ items) {tag : Tag}
    (htag : item.shape = .tag tag) : ∀ t ∈ tag.tokens, t.IsNumeric := by
  cases h.readAs hitem with
  | tag hread => exact readTag_numeric hread htag
  | content => cases htag

end Stache
