/-
  Tokens, and where they are read.

  A token of a tag is what one call of the reader of tokens makes of the text at the place where the
  token begins (`Token.ReadIn`): nothing that stands before decides what the token is.  This holds of
  every token of every tag in a text (`Item.Scan.readIn`), whatever the tag is, so a fact about that
  reader is one about all tokens; and since positions name the places of a text, a token is known by
  the position where it begins (`Token.ReadIn.eq_of_start_eq`).
-/
import Stache.Proofs.Items.Edges
import Stache.Proofs.Items.Tiling
import Stache.Proofs.Runs

namespace Stache

open Position

/-- The token is read in the text `s`, which begins at `p`, at the place where it begins. -/
def Token.ReadIn (p : Position) (s : List Char) (t : Token) : Prop :=
  ∃ before c rest r, s = before ++ c :: rest ∧ TokenKind.read c rest = .ok r
    ∧ t = ⟨r.value, String.ofList r.lexeme, p.advance before⟩

namespace Token.ReadIn

variable {p : Position} {s u : List Char} {t t' : Token}

/-- More text in front. -/
theorem behind (h : t.ReadIn (p.advance u) s) : t.ReadIn p (u ++ s) := by
  obtain ⟨before, c, rest, r, rfl, hread, rfl⟩ := h
  exact ⟨u ++ before, c, rest, r, (List.append_assoc ..).symm, hread, by rw [advance_append]⟩

/-- A position names a token. -/
theorem eq_of_start_eq (h : t.ReadIn origin s) (h' : t'.ReadIn origin s)
    (hstart : t.start = t'.start) : t = t' := by
  obtain ⟨before, c, rest, r, htext, hread, rfl⟩ := h
  obtain ⟨before', c', rest', r', htext', hread', rfl⟩ := h'
  have hbefore : before = before' :=
    eq_of_advance_eq ⟨_, htext.symm⟩ ⟨_, htext'.symm⟩ hstart
  subst hbefore
  cases List.append_cancel_left (htext.symm.trans htext')
  cases hread.symm.trans hread'
  rfl

/-- A token that is read behind `u` begins behind `u`. -/
theorem exists_rest {b c : List Char} (h : t.ReadIn (p.advance u) s) (hs : u ++ s = b ++ c)
    (hstart : t.start = p.advance b) : ∃ b', b = u ++ b' ∧ s = b' ++ c := by
  obtain ⟨before, d, rest, r, rfl, -, rfl⟩ := h
  have hbefore : p.advance (u ++ before) = p.advance b := by
    rw [advance_append]
    exact hstart
  have hu : u ++ before <+: b ++ c := ⟨d :: rest, by rw [← hs, List.append_assoc]⟩
  obtain rfl : u ++ before = b := eq_of_advance_eq hu (List.prefix_append b c) hbefore
  rw [List.append_assoc] at hs
  exact ⟨before, rfl, List.append_cancel_left hs⟩

/-- A token covers its own lexeme. -/
theorem covers (h : t.ReadIn origin s) : t.span.Covers s t.lexeme.toList := by
  obtain ⟨before, c, rest, r, rfl, hread, rfl⟩ := h
  rw [← TokenKind.read_append hread]
  refine ⟨before, r.rest, ?_, ?_⟩
  · rw [String.toList_ofList, List.append_assoc]
  · rw [Token.span, Token.stop, String.toList_ofList, advance_append]

end Token.ReadIn

/-! ## Tags -/

/-- The tokens of a body are read where they stand, -/
theorem readBody_readIn {closing : Closing} {p : Position} {s : List Char} {r : Reading TagBody}
    (h : readBody closing p s = .ok r) : ∀ t ∈ r.value.tokens, t.ReadIn p s := by
  have split_eq (s : List Char) := List.takeWhile_append_dropWhile (p := Text.isBlank) (l := s)
  fun_induction readBody closing p s generalizing r
  · cases h
  iterate 2
    cases h
    exact List.forall_mem_nil _
  · cases h
  · rename_i p s gap q c u hu _ _ r' hr ih
    obtain ⟨more, hmore, h⟩ := exists_of_bind_ok h
    cases h
    have hs : s = gap ++ c :: u := by rw [← hu, split_eq]
    refine List.forall_mem_cons.2 ⟨⟨gap, c, u, r', hs, hr, rfl⟩, ?_⟩
    -- The other tokens are read behind this one.
    intro t ht
    rw [hs, ← TokenKind.read_append hr]
    exact (ih hmore t ht).behind.behind

/-- and so are those of a tag. -/
theorem readTag_readIn {p : Position} {s : List Char} {r : Reading ItemShape}
    (h : readTag p s = .ok r) {tag : Tag} (htag : r.value = .tag tag) :
    ∀ t ∈ tag.tokens, t.ReadIn p ('{' :: '{' :: s) := by
  cases readTag_of h with
  | comment => cases htag
  | tag _ hs _ hbody =>
    cases htag
    intro t ht
    have hbehind := (readBody_readIn hbody t ht).behind
    rwa [List.append_assoc, readMark_append, List.cons_append, List.cons_append, hs] at hbehind

/-- **Every token of a text** is read where it stands. -/
theorem Item.Scan.readIn {p : Position} {s : List Char} {items : List Item}
    (h : Item.Scan p s items) {item : Item} (hitem : item ∈ items) {tag : Tag}
    (htag : item.shape = .tag tag) : ∀ t ∈ tag.tokens, t.ReadIn p s := by
  induction h with
  | nil p => cases hitem
  | tag hread hmore ih =>
    rcases List.mem_cons.1 hitem with rfl | hitem
    · exact readTag_readIn hread htag
    · intro t ht
      rw [← readTag_append hread]
      exact (ih hitem t ht).behind
  | @content p c s items hopen hmore ih =>
    rcases List.mem_cons.1 hitem with rfl | hitem
    · cases htag
    · intro t ht
      rw [← readContent_append (c :: s)]
      exact (ih hitem t ht).behind

end Stache
