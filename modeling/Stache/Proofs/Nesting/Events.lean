/-
  A tree, written out again as the row of items that it was read from.

  What an item stands for, apart from its place in the file, is an EVENT: a content, a comment, a
  tag that is a statement of its own, or a mark of nesting, with its call and its marks of
  whitespace control.  Of a close tag only the name that it bears is kept, not how the name is
  written there.  A tree has its events as well (`Statement.events`), and in the order of the file:

    * a block is an opening, the events of its sections, and a closing;
    * the section that stands first in the file comes first, so of two sections the one whose span
      begins later is the else section, whether it is the inverse one or not;
    * in front of an else section there is an else mark, unless it is chained: then the block in it
      is opened as a chain, and has no closing of its own.

  NOTHING IS LOST BY NESTING: a row of items that lie end to end has the events of its tree, one
  event for each item (`Outline.events_eq`, by induction on the outline).  With the grammar of what
  is accepted and the faults of what is not, that is all there is to say of the machine
  (`Program.ofItems_spec`).
-/
import Stache.Proofs.Nesting.Tiling
import Stache.Proofs.Nesting.WellNested

namespace Stache

/-! ## The events of items -/

/-- What an item stands for. -/
inductive Event where
  | content (value written : String)
  | comment (text : String) (strip : Strip)
  | mustache (call : Call) (escaped : Bool) (strip : Strip)
  | partialCall (call : Call) (strip : Strip)
  | decorator (call : Call) (strip : Strip)
  /-- A block is opened, as a chain or with a tag of its own. -/
  | opening (kind : OpeningKind) (chained : Bool) (call : Call) (params : List String)
      (strip : Strip)
  | elseMark (strip : Strip)
  | closing (name : String) (strip : Strip)

/-- The event of a tag, if its tokens form what they should. -/
def Tag.event? (tag : Tag) : Option Event :=
  let opening (kind : OpeningKind) (chained : Bool)
      (opener : Except Misfit (Call × List String)) : Option Event :=
    opener.toOption.map fun (call, params) => .opening kind chained call params tag.strip
  match tag.kind with
  | .mustache form =>
    (Call.ofTokens tag.tokens).toOption.map fun call => .mustache call form.escaped tag.strip
  | .partialCall =>
    (Call.partialOfTokens tag.tokens).toOption.map fun call => .partialCall call tag.strip
  | .decorator => (Call.ofTokens tag.tokens).toOption.map fun call => .decorator call tag.strip
  | .openBlock => opening .block false (Call.openerOfTokens tag.tokens)
  | .openInverse => opening .inverse false (Call.openerOfTokens tag.tokens)
  | .openPartialBlock => opening .partialBlock false (Call.partialOpenerOfTokens tag.tokens)
  | .openDecoratorBlock => opening .decoratorBlock false (Call.openerOfTokens tag.tokens)
  | .elseMark => some (.elseMark tag.strip)
  | .elseChain => opening .block true (Call.openerOfTokens tag.tokens)
  | .closeMark =>
    (Expression.nameOfTokens tag.tokens).toOption.map fun name => .closing name.label tag.strip

/-- The event of an item, unless its tokens are no tag. -/
def Item.event? (item : Item) : Option Event :=
  match item.shape with
  | .content value => some (.content value item.lexeme)
  | .comment text strip => some (.comment text strip)
  | .tag tag => tag.event?

/-- The items that stand for something are those whose tags read for themselves. -/
theorem Item.reads_iff {item : Item} : item.Reads ↔ item.event?.isSome = true := by
  have hread {α : Type} {read : Except Misfit α} {make : α → Event} :
      (∃ a, read = .ok a) ↔ (read.toOption.map make).isSome = true := by
    cases read <;> simp [Except.toOption]
  unfold Item.Reads Item.event?
  cases item.shape with
  | content | comment => simp
  | tag tag =>
    dsimp only [Tag.event?]
    cases tag.kind
    case elseMark => exact iff_of_true trivial rfl
    all_goals exact hread

instance (item : Item) : Decidable item.Reads := decidable_of_iff _ Item.reads_iff.symm

/-! ## The events of a tree -/

instance (p q : Position) : Decidable (p.Before q) :=
  inferInstanceAs (Decidable (p.line < q.line ∨ p.line = q.line ∧ p.column < q.column))

/-- The inverse section of a block stands first in the file. -/
def inverseFirst : (main inverse : Option Program) → Bool
  | none, _ => true
  | some _, none => false
  | some main, some inverse => inverse.span.start.Before main.span.start

/-- The parameters that a block declares for its first section. -/
def paramsOf : Option Program → List String
  | none => []
  | some p => p.blockParams

mutual

/-- The events of a statement, which may be the block of a chain. -/
def Statement.events (chained : Bool) : Statement → List Event
  | .content c => [.content c.value c.written]
  | .comment text strip _ => [.comment text strip]
  | .mustache call escaped strip _ => [.mustache call escaped strip]
  | .partialCall call _ strip _ => [.partialCall call strip]
  | .decorator call strip _ => [.decorator call strip]
  | .block call main inverse strip _ =>
    (if inverseFirst main inverse then
      .opening .inverse chained call (paramsOf inverse) strip.opening
        :: (sectionEvents inverse ++ elseEvents strip.inverse main)
    else
      .opening .block chained call (paramsOf main) strip.opening
        :: (sectionEvents main ++ elseEvents strip.inverse inverse))
    ++ if chained then [] else [.closing call.label strip.closing]
  | .partialBlock call body opening closing _ =>
    .opening .partialBlock chained call body.blockParams opening
      :: (body.events ++ [.closing call.label closing])
  | .decoratorBlock call body opening closing _ =>
    .opening .decoratorBlock chained call body.blockParams opening
      :: (body.events ++ [.closing call.label closing])

/-- The events of a program are those of its statements; -/
def Program.events : Program → List Event
  | ⟨body, _, _, _⟩ => bodyEvents false body

/-- a section that is not there has none, -/
def sectionEvents : Option Program → List Event
  | none => []
  | some p => p.events

/-- The events of an else section, with its mark. -/
def elseEvents (strip : Strip) : Option Program → List Event
  | none => []
  | some ⟨body, _, chained, _⟩ =>
    (if chained then [] else [.elseMark strip]) ++ bodyEvents chained body

/-- and only the first statement of a body may be a chain. -/
def bodyEvents (chained : Bool) : List Statement → List Event
  | [] => []
  | s :: rest => s.events chained ++ bodyEvents chained rest

end

/-! ## Single items -/

section Items

variable {item : Item}

/-- A statement of its own has the event of its item. -/
theorem Item.Forms.events_eq {s : Statement} (h : item.Forms s) :
    (s.events false).map some = [item.event?] := by
  cases h with
  | content h | comment h =>
    rw [Item.event?, h]
    rfl
  | mustache h hkind hcall | partialCall h hkind hcall | decorator h hkind hcall =>
    rw [Item.event?, h]
    simp only [Tag.event?, hkind, hcall]
    rfl

/-- The event of an opening, -/
theorem Item.Opens.event?_eq {chained : Bool} {o : Opening} (h : item.Opens chained o) :
    item.event? = some (.opening o.kind chained o.call o.blockParams o.strip) := by
  obtain ⟨tag, hshape, hkind, hstrip, -, hread⟩ := h
  rw [Item.event?, hshape, hstrip]
  simp only [Tag.event?]
  cases htag : tag.kind with
  | openBlock | openInverse | openPartialBlock | openDecoratorBlock | elseChain =>
    rw [htag] at hkind
    obtain ⟨hk, hc⟩ := Prod.mk.inj (Option.some.inj hkind)
    rw [← hk] at hread ⊢
    subst hc
    simp only [reduceCtorEq, if_false, if_true] at hread
    simp only [hread]
    rfl
  | mustache | partialCall | decorator | elseMark | closeMark =>
    rw [htag] at hkind
    simp [TagRole.opens] at hkind

/-- of an else mark, -/
theorem Item.IsElse.event?_eq (h : item.IsElse) : item.event? = some (.elseMark item.strip) := by
  obtain ⟨tag, hshape, hkind⟩ := h
  rw [Item.event?, Item.strip, hshape]
  simp only [Tag.event?, hkind]

/-- and of a close tag. -/
theorem Item.Closes.event?_eq {name : String} (h : item.Closes name) :
    item.event? = some (.closing name item.strip) := by
  obtain ⟨tag, e, hshape, hkind, hread, rfl⟩ := h
  rw [Item.event?, Item.strip, hshape]
  simp only [Tag.event?, hkind, hread]
  rfl

end Items

/-! ## Blocks -/

/-- The opening of a block. -/
def Opening.event (o : Opening) (chained : Bool) : Event :=
  .opening o.kind chained o.call o.blockParams o.strip

/-- The close tag, which a chain does not have. -/
def closingEvents (chained : Bool) (name : String) (strip : Strip) : List Event :=
  if chained then [] else [.closing name strip]

/-- A chain is a block proper. -/
theorem Item.Opens.chained_or_hasElse {item : Item} {chained : Bool} {o : Opening}
    (h : item.Opens chained o) : chained = false ∨ o.kind.hasElse := by
  cases chained with
  | false => exact .inl rfl
  | true => exact .inr (.inl h.kind_eq_of_chained)

/-- A block without an else. -/
theorem Opening.events_wrap_one {o : Opening} {chained : Bool} {first : Program}
    {strip : BlockStrip} {stop : Position} (hchained : chained = false ∨ o.kind.hasElse)
    (hparams : first.blockParams = o.blockParams) (hstrip : strip.opening = o.strip) :
    (o.wrap first none strip stop).events chained
      = o.event chained :: (first.events ++ closingEvents chained o.call.label strip.closing) := by
  obtain ⟨kind, call, params, ostrip, span⟩ := o
  dsimp only at hparams hstrip hchained
  subst hparams hstrip
  cases kind with
  | block | inverse =>
    simp [Opening.wrap, Statement.events, inverseFirst, sectionEvents, elseEvents, paramsOf,
      Opening.event, closingEvents]
  | partialBlock | decoratorBlock =>
    obtain rfl : chained = false := hchained.resolve_right (by simp [OpeningKind.hasElse])
    rfl

/-- A block with an else, where the sections stand in the file as they are named. -/
theorem Opening.events_wrap_two {o : Opening} {chained : Bool} {first second : Program}
    {strip : BlockStrip} {stop : Position} (helse : o.kind.hasElse)
    (hparams : first.blockParams = o.blockParams) (hstrip : strip.opening = o.strip)
    (horder : first.span.start.Before second.span.start) :
    (o.wrap first (some second) strip stop).events chained
      = o.event chained :: (first.events ++ (elseEvents strip.inverse (some second)
        ++ closingEvents chained o.call.label strip.closing)) := by
  obtain ⟨kind, call, params, ostrip, span⟩ := o
  dsimp only at hparams hstrip helse
  subst hparams hstrip
  have hnot : ¬ second.span.start.Before first.span.start :=
    fun h => Position.Before.irrefl _ (horder.trans h)
  rcases helse with rfl | rfl
  · simp [Opening.wrap, Statement.events, inverseFirst, sectionEvents, paramsOf, hnot,
      Opening.event, closingEvents]
  · simp [Opening.wrap, Statement.events, inverseFirst, sectionEvents, paramsOf, horder,
      Opening.event, closingEvents]

/-! ## Outlines -/

mutual

/-- **A row of items has the events of its statements.** -/
theorem Outline.events_eq {o : Outline} (h : o.Valid) {p q : Position}
    (hitems : Item.EndToEnd p o.items q) :
    (bodyEvents false o.statements).map some = o.items.map Item.event? := by
  match o, h with
  | .nil, _ => rfl
  | .bare item s rest, ⟨hform, hrest⟩ =>
    rw [Outline.statements, bodyEvents, List.map_append, hform.events_eq,
      Outline.events_eq hrest hitems.tail]
    rfl
  | .block branch close rest, ⟨hbranch, hclose, hrest⟩ =>
    rw [Outline.items] at hitems
    obtain ⟨hbefore, hne, hafter⟩ := hitems.split_at
    rw [Outline.statements, bodyEvents, List.map_append, Branch.events_eq hbranch hbefore close,
      Outline.events_eq hrest hafter, Outline.items, List.map_append, List.map_cons,
      hclose.event?_eq, closingEvents]
    simp

/-- The items of a branch have the events of its statement, up to the closing. -/
theorem Branch.events_eq {b : Branch} {chained : Bool} (h : b.Valid chained) {p q : Position}
    (hitems : Item.EndToEnd p b.items q) (close : Item) :
    ((b.statement close).events chained).map some
      = b.items.map Item.event?
        ++ (closingEvents chained b.opening.call.label close.strip).map some := by
  match b, h with
  | .plain item o body, ⟨hopen, hbody⟩ =>
    have hevent : item.event? = some (o.event chained) := hopen.event?_eq
    have hfirst := Outline.events_eq hbody hitems.tail
    rw [Branch.statement, Opening.events_wrap_one hopen.chained_or_hasElse rfl rfl, List.map_cons,
      List.map_append]
    show some (o.event chained) :: ((bodyEvents false body.statements).map some ++ _) = _
    rw [hfirst, ← hevent]
    rfl
  | .withElse item o body mark inverse, ⟨hopen, helse, hbody, hmark, hinverse⟩ =>
    have hevent : item.event? = some (o.event chained) := hopen.event?_eq
    obtain ⟨hbefore, hne, hafter⟩ := hitems.tail.split_at
    have hfirst := Outline.events_eq hbody hbefore
    have hsecond := Outline.events_eq hinverse hafter
    -- the second section begins behind the first, which tells the two apart
    have horder : o.span.stop.Before mark.stop := by
      rw [hopen.span_eq]
      exact hbefore.upTo.trans_before hne
    rw [Branch.statement, Opening.events_wrap_two helse rfl rfl horder, List.map_cons,
      List.map_append, List.map_append]
    show some (o.event chained) :: ((bodyEvents false body.statements).map some
      ++ ((Event.elseMark mark.strip :: bodyEvents false inverse.statements).map some ++ _)) = _
    rw [hfirst, ← hevent, List.map_cons, hsecond, ← hmark.event?_eq, Branch.items]
    simp [Branch.opening]
  | .chain item o body next, ⟨hopen, helse, hbody, hnext⟩ =>
    have hevent : item.event? = some (o.event chained) := hopen.event?_eq
    obtain ⟨m, hbefore, hafter⟩ := hitems.tail.split
    have hfirst := Outline.events_eq hbody hbefore
    have hsecond := Branch.events_eq hnext hafter close
    have horder : o.span.stop.Before next.item.stop := by
      obtain ⟨more, hmore⟩ := List.head?_eq_some_iff.1 next.head?_items
      rw [hmore] at hafter
      rw [hopen.span_eq]
      exact hbefore.upTo.trans_before (hafter.start_eq ▸ hafter.before)
    rw [Branch.statement, Opening.events_wrap_two helse rfl rfl horder, List.map_cons,
      List.map_append, List.map_append]
    show some (o.event chained) :: ((bodyEvents false body.statements).map some
      ++ (((next.statement close).events true ++ []).map some ++ _)) = _
    rw [hfirst, ← hevent, List.append_nil, hsecond, Branch.items]
    simp [Branch.opening, closingEvents]

end

/-! ## Files -/

/-- **What nesting does**, for every row of items whose tags read for themselves.  It forms a tree
    exactly if it is well nested, and is refused for its nesting otherwise; and the tree of items
    that lie end to end has their events, in their order and each once. -/
theorem Program.ofItems_spec (items : List Item) (stop : Position)
    (hitems : ∀ item ∈ items, item.Reads) :
    ((∃ p, Program.ofItems items stop = .ok p) ↔ WellNested items)
      ∧ (¬ WellNested items → ∃ e, Program.ofItems items stop = .error e ∧ e.fault.OfNesting)
      ∧ ∀ p, Program.ofItems items stop = .ok p →
        ∀ first last, Item.EndToEnd first items last →
          items.map Item.event? = p.events.map some := by
  refine ⟨Program.exists_ofItems_iff, fun h => ?refused, fun p hp first last hrow => ?events⟩
  case refused =>
    have hrefused : ¬ ∃ p, Program.ofItems items stop = .ok p :=
      fun hp => h (Program.exists_ofItems_iff.1 hp)
    cases hrun : Program.ofItems items stop with
    | ok p => exact (hrefused ⟨p, hrun⟩).elim
    | error e => exact ⟨e, rfl, Program.ofItems_fault hitems hrun⟩
  case events =>
    obtain ⟨hp', o, ho⟩ := Program.ofItems_outlined hp
    have hevents := Outline.events_eq ho.valid (ho.items_eq ▸ hrow)
    rw [ho.items_eq, ho.statements_eq] at hevents
    rw [← hevents, hp']
    rfl

/-- A chain with a final else, and a block that begins with its inverse section. -/
theorem Program.ofItems_spec_at_chain :
    let text := "a\x7b\x7b#if b\x7d\x7dc\x7b\x7belse if d\x7d\x7de\x7b\x7b^\x7d\x7df"
      ++ "\x7b\x7b/\"if\"\x7d\x7d\x7b\x7b^g\x7d\x7dh\x7b\x7belse\x7d\x7di\x7b\x7b/g\x7d\x7d"
    ∃ items p, Item.readAll .origin text.toList = .ok items ∧ (∀ item ∈ items, item.Reads)
      ∧ Program.ofItems items (Position.origin.advance text.toList) = .ok p ∧ WellNested items
      ∧ items.map Item.event? = p.events.map some := by
  intro text
  obtain ⟨items, hitems, hreads⟩ := exists_ok (P := fun items => ∀ item ∈ items, item.Reads)
    (e := Item.readAll .origin text.toList) (by decide +kernel)
  obtain ⟨p, hp⟩ := exists_of_isOk (e := Program.ofText text.toList) (by decide +kernel)
  rw [Program.ofText, hitems] at hp
  obtain ⟨hiff, -, hevents⟩ := Program.ofItems_spec items _ hreads
  exact ⟨items, p, hitems, hreads, hp, hiff.1 ⟨p, hp⟩,
    hevents p hp _ _ (Item.Scan.of_readAll hitems).endToEnd⟩

end Stache
