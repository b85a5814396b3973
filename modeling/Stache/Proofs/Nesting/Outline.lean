/-
  Outlines: rows of items as they nest, in the order of the file.

  A tree of statements no longer tells everything about the file it came from: a block that begins
  with its inverse section keeps its sections in the other order, and an else tag with a call of its
  own is gone, since it has become the opening of a block inside the else section.  An OUTLINE keeps
  the items themselves:

    * a row is a list of bare items and of blocks with their close tags (`Outline`);
    * a block without its close tag is a BRANCH: its open tag and its sections, divided by an else
      tag, or by the opening of a branch that is chained to it and shares its close tag (`Branch`).

  From an outline one can read off both sides: the items it was made of, laid end to end (`items`),
  and the statements it stands for (`statements`, `Branch.statement`).  `Valid` says that every item
  is what its place in the outline makes of it: the tokens of a tag form the call that its statement
  has, only blocks have an else section, and a close tag bears the name of the block it closes.

  That outlines are the right notion is `Program.ofItems_outlined`, in the module after this one:
  the items of every tree that is read form a valid outline of that tree.
-/
import Stache.Template.Nesting

namespace Stache

/-! ## What an item may be -/

/-- The marks of whitespace control on an item.  Content has none. -/
def Item.strip (item : Item) : Strip :=
  match item.shape with
  | .content _ => .none
  | .comment _ strip => strip
  | .tag tag => tag.strip

/-- The statement that an item forms on its own. -/
inductive Item.Forms (item : Item) : Statement → Prop where
  | content {value : String} (h : item.shape = .content value) :
      Item.Forms item (.content ⟨value, item.lexeme, false, false, item.span⟩)
  | comment {text : String} {strip : Strip} (h : item.shape = .comment text strip) :
      Item.Forms item (.comment text strip item.span)
  | mustache {tag : Tag} {form : MustacheForm} {call : Call} (h : item.shape = .tag tag)
      (hkind : tag.kind = .mustache form) (hcall : Call.ofTokens tag.tokens = .ok call) :
      Item.Forms item (.mustache call form.escaped tag.strip item.span)
  | partialCall {tag : Tag} {call : Call} (h : item.shape = .tag tag)
      (hkind : tag.kind = .partialCall) (hcall : Call.partialOfTokens tag.tokens = .ok call) :
      Item.Forms item (.partialCall call "" tag.strip item.span)
  | decorator {tag : Tag} {call : Call} (h : item.shape = .tag tag)
      (hkind : tag.kind = .decorator) (hcall : Call.ofTokens tag.tokens = .ok call) :
      Item.Forms item (.decorator call tag.strip item.span)

/-- The kind of block that a tag opens, and whether the block is chained. -/
def TagRole.opens : TagRole → Option (OpeningKind × Bool)
  | .openBlock => some (.block, false)
  | .openInverse => some (.inverse, false)
  | .openPartialBlock => some (.partialBlock, false)
  | .openDecoratorBlock => some (.decoratorBlock, false)
  | .elseChain => some (.block, true)
  | _ => none

/-- The item is the tag of this opening. -/
def Item.Opens (item : Item) (chained : Bool) (o : Opening) : Prop :=
  ∃ tag, item.shape = .tag tag ∧ tag.kind.opens = some (o.kind, chained) ∧ o.strip = tag.strip
    ∧ o.span = item.span
    ∧ (if o.kind = .partialBlock then Call.partialOpenerOfTokens tag.tokens
        else Call.openerOfTokens tag.tokens) = .ok (o.call, o.blockParams)

/-- The item is an else tag without a call. -/
def Item.IsElse (item : Item) : Prop := ∃ tag, item.shape = .tag tag ∧ tag.kind = .elseMark

/-- The item is the close tag of blocks called `name`. -/
def Item.Closes (item : Item) (name : String) : Prop :=
  ∃ tag e, item.shape = .tag tag ∧ tag.kind = .closeMark
    ∧ Expression.nameOfTokens tag.tokens = .ok e ∧ e.label = name

/-- Only blocks proper have an else section. -/
def OpeningKind.hasElse (kind : OpeningKind) : Prop := kind = .block ∨ kind = .inverse

theorem Item.Opens.strip_eq {item : Item} {chained : Bool} {o : Opening}
    (h : item.Opens chained o) : o.strip = item.strip := by
  obtain ⟨tag, hshape, -, hstrip, -⟩ := h
  rw [hstrip, Item.strip, hshape]

theorem Item.Opens.span_eq {item : Item} {chained : Bool} {o : Opening}
    (h : item.Opens chained o) : o.span = item.span := by
  obtain ⟨tag, -, -, -, hspan, -⟩ := h
  exact hspan

/-- The blocks that an else tag opens are blocks proper, with the main section in front. -/
theorem Item.Opens.kind_eq_of_chained {item : Item} {o : Opening} (h : item.Opens true o) :
    o.kind = .block := by
  obtain ⟨tag, -, hkind, -⟩ := h
  cases htag : tag.kind <;> rw [htag] at hkind <;> simp_all [TagRole.opens]

/-! ## Rows and branches -/

mutual

/-- A row of items. -/
inductive Outline where
  | nil
  /-- An item that is a statement of its own. -/
  | bare (item : Item) (statement : Statement) (rest : Outline)
  /-- A block, with its close tag. -/
  | block (branch : Branch) (close : Item) (rest : Outline)

/-- A block from its open tag up to its close tag. -/
inductive Branch where
  | plain (item : Item) (opening : Opening) (body : Outline)
  | withElse (item : Item) (opening : Opening) (body : Outline) (mark : Item) (inverse : Outline)
  /-- The else section is the branch `next`, which ends with the same close tag. -/
  | chain (item : Item) (opening : Opening) (body : Outline) (next : Branch)

end

/-- The open tag of a branch. -/
def Branch.item : Branch → Item
  | .plain item _ _ | .withElse item _ _ _ _ | .chain item _ _ _ => item

/-- What the branch opens. -/
def Branch.opening : Branch → Opening
  | .plain _ o _ | .withElse _ o _ _ _ | .chain _ o _ _ => o

/-- The row after the open tag of a branch. -/
def Branch.body : Branch → Outline
  | .plain _ _ body | .withElse _ _ body _ _ | .chain _ _ body _ => body

/-! ## The items of an outline -/

mutual

/-- The items of a row, end to end, -/
def Outline.items : Outline → List Item
  | .nil => []
  | .bare item _ rest => item :: rest.items
  | .block branch close rest => branch.items ++ close :: rest.items

/-- and those of a branch. -/
def Branch.items : Branch → List Item
  | .plain item _ body => item :: body.items
  | .withElse item _ body mark inverse => item :: (body.items ++ mark :: inverse.items)
  | .chain item _ body next => item :: (body.items ++ next.items)

end

/-- The open tag of a block is its first item. -/
@[simp] theorem Branch.head?_items (b : Branch) : b.items.head? = some b.item := by
  cases b <;> rfl

theorem Branch.item_mem_items (b : Branch) : b.item ∈ b.items :=
  List.mem_of_mem_head? b.head?_items

/-! ## The statements of an outline -/

/-- The statement of a block with these sections, the first one being the one that stands first. -/
def Opening.wrap (o : Opening) (first : Program) (second : Option Program) (strip : BlockStrip)
    (stop : Position) : Statement :=
  let span : Span := ⟨o.span.start, stop⟩
  match o.kind with
  | .block => .block o.call (some first) second strip span
  | .inverse => .block o.call second (some first) strip span
  | .partialBlock => .partialBlock o.call first strip.opening strip.closing span
  | .decoratorBlock => .decoratorBlock o.call first strip.opening strip.closing span

/-- The section after an open tag, up to `stop`. -/
def Opening.firstSection (o : Opening) (body : List Statement) (stop : Position) : Program :=
  ⟨body, o.blockParams, false, ⟨o.span.stop, stop⟩⟩

/-- The section after an else tag, up to `stop`. -/
def Item.elseSection (mark : Item) (chained : Bool) (body : List Statement) (stop : Position) :
    Program :=
  ⟨body, [], chained, ⟨mark.stop, stop⟩⟩

mutual

/-- The statements that a row stands for. -/
def Outline.statements : Outline → List Statement
  | .nil => []
  | .bare _ s rest => s :: rest.statements
  | .block branch close rest => branch.statement close :: rest.statements

/-- The statement of a block that ends with the tag `close`. -/
def Branch.statement (close : Item) : Branch → Statement
  | .plain _ o body =>
    o.wrap (o.firstSection body.statements close.start) none ⟨o.strip, .none, close.strip⟩
      close.stop
  | .withElse _ o body mark inverse =>
    o.wrap (o.firstSection body.statements mark.start)
      (some (mark.elseSection false inverse.statements close.start))
      ⟨o.strip, mark.strip, close.strip⟩ close.stop
  | .chain _ o body next =>
    o.wrap (o.firstSection body.statements next.item.start)
      (some (next.item.elseSection true [next.statement close] close.start))
      ⟨o.strip, next.item.strip, close.strip⟩ close.stop

end

/-! ## Validity -/

mutual

/-- Each item of a row is what its place makes of it, -/
def Outline.Valid : Outline → Prop
  | .nil => True
  | .bare item s rest => item.Forms s ∧ rest.Valid
  | .block branch close rest =>
    branch.Valid false ∧ close.Closes branch.opening.call.label ∧ rest.Valid

/-- and so is each item of a branch. -/
def Branch.Valid (chained : Bool) : Branch → Prop
  | .plain item o body => item.Opens chained o ∧ body.Valid
  | .withElse item o body mark inverse =>
    item.Opens chained o ∧ o.kind.hasElse ∧ body.Valid ∧ mark.IsElse ∧ inverse.Valid
  | .chain item o body next =>
    item.Opens chained o ∧ o.kind.hasElse ∧ body.Valid ∧ next.Valid true

end

theorem Branch.Valid.opens {chained : Bool} {b : Branch} (h : b.Valid chained) :
    b.item.Opens chained b.opening := by
  cases b <;> exact h.1

/-- What an outline of some items has to be, for a tree with this root. -/
structure Outline.Of (o : Outline) (items : List Item) (root : List Statement) : Prop where
  valid : o.Valid
  items_eq : o.items = items
  statements_eq : o.statements = root

/-! ## Rows end to end -/

namespace Outline

/-- One row behind another. -/
def append : Outline → Outline → Outline
  | .nil, more => more
  | .bare item s rest, more => .bare item s (rest.append more)
  | .block branch close rest, more => .block branch close (rest.append more)

/-- Its items are those of both, -/
theorem items_append (row more : Outline) : (row.append more).items = row.items ++ more.items := by
  match row with
  | .nil => rfl
  | .bare item s rest => simp only [append, items, items_append rest more, List.cons_append]
  | .block branch close rest =>
    simp only [append, items, items_append rest more, List.append_assoc, List.cons_append]

/-- and so are its statements. -/
theorem statements_append (row more : Outline) :
    (row.append more).statements = row.statements ++ more.statements := by
  match row with
  | .nil => rfl
  | .bare item s rest =>
    simp only [append, statements, statements_append rest more, List.cons_append]
  | .block branch close rest =>
    simp only [append, statements, statements_append rest more, List.cons_append]

theorem Valid.append {row more : Outline} (h : row.Valid) (hmore : more.Valid) :
    (row.append more).Valid := by
  match row, h with
  | .nil, _ => exact hmore
  | .bare item s rest, h => exact ⟨h.1, Valid.append h.2 hmore⟩
  | .block branch close rest, h => exact ⟨h.1, h.2.1, Valid.append h.2.2 hmore⟩

end Outline

end Stache
