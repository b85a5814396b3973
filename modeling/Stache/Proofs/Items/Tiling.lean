/-
  Items and the stretches of text that they stand for.

  A span COVERS the part of a text that stands between its two positions (`Span.Covers`), and no
  other part (`Span.Covers.unique`), since positions tell the places of a text apart.

  What is known of the items of a text:

    * each covers its own lexeme (`Item.Scan.covers`);
    * they lie end to end (`Item.EndToEnd`), and none is empty, so the positions of a row of items
      come in the order of the text;
    * the text of a comment is part of what is written (`Item.Scan.comment_infix`).
-/
import Stache.Proofs.Items.Scan

namespace Stache

open Position

/-! ## Covering -/

/-- `part` is what stands in the text from the start of the span to its end. -/
def Span.Covers (text : List Char) (span : Span) (part : List Char) : Prop :=
  ∃ before after, text = before ++ part ++ after
    ∧ span = ⟨origin.advance before, origin.advance (before ++ part)⟩

/-- Two places of a text that have the same position are one. -/
theorem eq_of_advance_eq {p : Position} {text a b : List Char} (ha : a <+: text) (hb : b <+: text)
    (h : p.advance a = p.advance b) : a = b := by
  rcases List.prefix_or_prefix_of_prefix ha hb with ⟨more, rfl⟩ | ⟨more, rfl⟩
  · rw [advance_append] at h
    rw [advance_eq_self_iff.1 h.symm, List.append_nil]
  · rw [advance_append] at h
    rw [advance_eq_self_iff.1 h, List.append_nil]

/-- A span covers one part of a text only. -/
theorem Span.Covers.unique {text : List Char} {span : Span} {part part' : List Char}
    (h : span.Covers text part) (h' : span.Covers text part') : part = part' := by
  obtain ⟨before, after, htext, hspan⟩ := h
  obtain ⟨before', after', htext', hspan'⟩ := h'
  obtain ⟨hstart, hstop⟩ := Span.mk.inj (hspan.symm.trans hspan')
  have hprefix : before ++ part <+: text := ⟨after, htext.symm⟩
  have hprefix' : before' ++ part' <+: text := ⟨after', htext'.symm⟩
  have hbefore : before = before' :=
    eq_of_advance_eq ((List.prefix_append ..).trans hprefix)
      ((List.prefix_append ..).trans hprefix') hstart
  have hboth := eq_of_advance_eq hprefix hprefix' hstop
  rw [hbefore] at hboth
  exact List.append_cancel_left hboth

/-! ## End to end -/

/-- The items lie end to end from one position to the other, and none of them is empty. -/
inductive Item.EndToEnd : Position → List Item → Position → Prop where
  | nil (p : Position) : Item.EndToEnd p [] p
  | cons {item : Item} {items : List Item} {q : Position} (hne : item.start.Before item.stop)
      (hrest : Item.EndToEnd item.stop items q) : Item.EndToEnd item.start (item :: items) q

namespace Item.EndToEnd

variable {p q : Position} {items more : List Item} {item : Item}

/-- A row of items that is cut in two. -/
theorem split (h : Item.EndToEnd p (items ++ more) q) :
    ∃ m, Item.EndToEnd p items m ∧ Item.EndToEnd m more q := by
  induction items generalizing p with
  | nil => exact ⟨p, .nil p, h⟩
  | cons item items ih =>
    cases h with
    | cons hne hrest =>
      obtain ⟨m, hitems, hmore⟩ := ih hrest
      exact ⟨m, .cons hne hitems, hmore⟩

theorem start_eq (h : Item.EndToEnd p (item :: items) q) : item.start = p := by
  cases h
  rfl

theorem before (h : Item.EndToEnd p (item :: items) q) : item.start.Before item.stop := by
  cases h
  assumption

theorem tail (h : Item.EndToEnd p (item :: items) q) : Item.EndToEnd item.stop items q := by
  cases h
  assumption

/-- The items at one item of a row. -/
theorem split_at (h : Item.EndToEnd p (items ++ item :: more) q) :
    Item.EndToEnd p items item.start ∧ item.start.Before item.stop
      ∧ Item.EndToEnd item.stop more q := by
  obtain ⟨m, hitems, hmore⟩ := h.split
  exact ⟨hmore.start_eq ▸ hitems, hmore.before, hmore.tail⟩

theorem upTo (h : Item.EndToEnd p items q) : p.UpTo q := by
  induction h with
  | nil p => exact .refl p
  | cons hne hrest ih => exact hne.upTo.trans ih

end Item.EndToEnd

/-! ## The items of a text -/

/-- The text of a comment is what comes first in it. -/
theorem readComment_prefix {dashes s : List Char} {r : Reading (List Char × Bool)}
    (h : readComment dashes s = some r) : r.value.1 <+: r.lexeme := by
  fun_induction readComment dashes s generalizing r with
  | case1 => cases h
  | case2 c s hp => cases h; exact List.nil_prefix
  | case3 c s _ hp => cases h; exact List.nil_prefix
  | case4 c s _ _ ih =>
    obtain ⟨r', hr', rfl⟩ := Option.map_eq_some_iff.1 h
    exact List.cons_prefix_cons.2 ⟨rfl, ih hr'⟩

/-- The text of a comment stands between its marks. -/
theorem readTag_comment_infix {p : Position} {s : List Char} {r : Reading ItemShape}
    {text : String} {strip : Strip} (h : readTag p s = .ok r) (hr : r.value = .comment text strip) :
    text.toList <:+: r.lexeme := by
  cases readTag_of h with
  | @comment tilde dashes _ _ _ _ _ _ _ hread =>
    cases hr
    obtain ⟨closing, hclosing⟩ := readComment_prefix hread
    refine ⟨'{' :: '{' :: (tilde ++ '!' :: dashes), closing, ?_⟩
    simp [← hclosing]
  | tag => cases hr

namespace Item.Scan

variable {p : Position} {s text : List Char} {items : List Item}

/-- An item in front of others, which go on where it ends. -/
theorem endToEnd_cons (shape : ItemShape) {lexeme rest : List Char} (hne : lexeme ≠ [])
    (h : Item.EndToEnd (p.advance lexeme) items ((p.advance lexeme).advance rest)) :
    Item.EndToEnd p (⟨shape, String.ofList lexeme, p⟩ :: items) (p.advance (lexeme ++ rest)) := by
  let item : Item := ⟨shape, String.ofList lexeme, p⟩
  have hstop : item.stop = p.advance lexeme := by rw [Item.stop, String.toList_ofList]
  have hitem : item.start.Before item.stop := by
    rw [hstop]
    exact before_advance hne p
  rw [advance_append]
  exact .cons hitem (by rwa [hstop])

/-- The items of a text lie end to end, from where the text begins to where it ends. -/
theorem endToEnd (h : Item.Scan p s items) : Item.EndToEnd p items (p.advance s) := by
  induction h with
  | nil p => exact .nil p
  | tag hread hmore ih =>
    rw [← readTag_append hread]
    exact endToEnd_cons _ (readTag_ne_nil hread) ih
  | @content p c s items hopen hmore ih =>
    have := endToEnd_cons (.content (String.ofList (readContent (c :: s)).value))
      (readContent_ne_nil hopen) ih
    rwa [readContent_append] at this

/-- Every item covers what is written there. -/
theorem covers (h : Item.Scan .origin text items) {item : Item} (hitem : item ∈ items) :
    item.span.Covers text item.lexeme.toList := by
  obtain ⟨pre, post, hitems⟩ := List.append_of_mem hitem
  refine ⟨textOf pre, textOf post, ?_, ?_⟩
  · rw [← h.text_eq, hitems, textOf_append, textOf_cons, List.append_assoc]
  · rw [Item.span, Item.stop, h.start_eq hitems, advance_append]

/-- **A comment's text** is part of what is written. -/
theorem comment_infix (h : Item.Scan p s items) {item : Item} (hitem : item ∈ items)
    {comment : String} {strip : Strip} (hshape : item.shape = .comment comment strip) :
    comment.toList <:+: item.lexeme.toList := by
  cases h.readAs hitem with
  | tag hread =>
    rw [String.toList_ofList]
    exact readTag_comment_infix hread hshape
  | content => cases hshape

end Item.Scan

end Stache
