/-
  Spots: every content of an outline, with the cuts that whitespace control makes to it.

  The pass over a tree goes from the leaves up, and a content is cut on behalf of tags at several
  levels of the tree.  An outline allows the same to be told from the top DOWN: whoever comes to a
  row knows already which cuts its two ends are to undergo (`RowContext`, `BlockContext`).  So the
  whole effect of the pass is a list of SPOTS in the order of the tree (`Outline.spots`), each with
  the items before and after it; that this is the effect is the theorem of the module `Settling`.

  Of the statements before a row only what a tag can see of them is known (`Left`).  For a block,
  two lists of cuts arrive from outside, since the tags around a block cut its first and its last
  section.
-/
import Stache.Proofs.Items.Scan
import Stache.Proofs.Nesting.Outline
import Stache.Proofs.Whitespace.Granting

namespace Stache

/-! ## Leaves of a tree -/

/-- The parts of a tree that whitespace control can change. -/
inductive Leaf where
  | content (content : Content)
  | partialCall (indent : String) (span : Span)
deriving DecidableEq, Repr

/-- A leaf after cuts. -/
def Leaf.cut (cuts : List Cut) : Leaf → Leaf
  | .content c => .content (c.cutAll cuts)
  | .partialCall indent span => .partialCall indent span

mutual

/-- The leaves of a statement, anywhere in it. -/
def Statement.leaves : Statement → List Leaf
  | .content c => [.content c]
  | .partialCall _ indent _ span => [.partialCall indent span]
  | .block _ main inverse _ _ => sectionLeaves main ++ sectionLeaves inverse
  | .partialBlock _ body _ _ _ | .decoratorBlock _ body _ _ _ => body.leaves
  | .comment .. | .mustache .. | .decorator .. => []

/-- The leaves of a program, -/
def Program.leaves : Program → List Leaf
  | ⟨body, _, _, _⟩ => bodyLeaves body

/-- of a section, -/
def sectionLeaves : Option Program → List Leaf
  | none => []
  | some p => p.leaves

/-- and of a body. -/
def bodyLeaves : List Statement → List Leaf
  | [] => []
  | s :: rest => s.leaves ++ bodyLeaves rest

end

/-- The contents of a tree, at any depth. -/
def Program.contents (p : Program) : List Content :=
  p.leaves.filterMap fun
    | .content c => some c
    | .partialCall _ _ => none

/-- The contents of a tree are among its leaves. -/
theorem Program.mem_contents {p : Program} {c : Content} :
    c ∈ p.contents ↔ .content c ∈ p.leaves := by
  rw [contents, List.mem_filterMap]
  constructor
  · rintro ⟨leaf, hleaf, hc⟩
    cases leaf with
    | content c' =>
      obtain rfl := Option.some.inj hc
      exact hleaf
    | partialCall indent span => cases hc
  · intro h
    exact ⟨_, h, rfl⟩

/-! ## What a tag sees of the statements before it -/

/-- What a tag can see: only the statement that stands right before it counts. -/
inductive Left where
  /-- The row begins here. -/
  | edge
  /-- Content, which may itself begin the row. -/
  | content (content : Content) (first : Bool)
  | other

namespace Left

/-- What is seen of the statements `before`, given latest first. -/
def of : List Statement → Left
  | [] => edge
  | .content c :: more => content c more.isEmpty
  | _ => other

/-- No statement is in front of the tag. -/
def isEdge : Left → Bool
  | edge => true
  | _ => false

/-- Whether the tag comes at the start of a line, blanks apart. -/
def atLineStart (atTop : Bool) : Left → Bool
  | edge => atTop
  | content c first => Text.endsLine (atTop && first) c.written.toList
  | other => false

/-- The indentation before a tag, which may have a tilde on this side. -/
def indent (tilde : Bool) : Left → String
  | content c _ => (c.cutAll (cutIf tilde (.stop .all))).indent
  | _ => ""

/-- What the statement after `s` sees, where `s` itself undergoes the cuts `carried` on arrival. -/
def next (left : Left) (carried : List Cut) : Statement → Left
  | .content c => content (c.cutAll carried) left.isEdge
  | _ => other

theorem atLineStart_of (atTop : Bool) (before : List Statement) :
    (of before).atLineStart atTop = rowEndsLine atTop before := by
  match before with
  | [] => rfl
  | s :: before => cases s <;> rfl

theorem indent_of (tilde : Bool) (before : List Statement) :
    (of before).indent tilde
      = latestIndent (trimLatestAll (if tilde then [.all] else []) before) := by
  match before with
  | [] => cases tilde <;> rfl
  | s :: before => cases tilde <;> cases s <;> rfl

theorem of_cons_of_not_content {s : Statement} (hs : ¬ s.IsContent) (before : List Statement) :
    of (s :: before) = other := by
  cases s with
  | content c => exact (hs trivial).elim
  | _ => rfl

theorem of_content (carried : List Cut) (c : Content) (before : List Statement) :
    of (.content (c.cutAll carried) :: before) = (of before).next carried (.content c) := by
  match before with
  | [] => rfl
  | s :: before => cases s <;> rfl

theorem next_of_not_content {s : Statement} (hs : ¬ s.IsContent) (left : Left)
    (carried : List Cut) : left.next carried s = other := by
  cases s with
  | content c => exact (hs trivial).elim
  | _ => rfl

end Left

/-! ## Demands of an outline -/

/-- The item is a tag without a body that may have a line to itself. -/
def Item.ownsLine (item : Item) : Bool :=
  match item.shape with
  | .content _ => false
  | .comment _ _ => true
  | .tag tag => tag.kind = .partialCall

/-- The demand of an item that is a statement of its own. -/
def Item.demand (item : Item) : Demand := ⟨item.strip, item.ownsLine, false, false⟩

/-- A statement of one item has nothing in it to settle. -/
theorem Item.Forms.settle_eq {item : Item} {s : Statement} (h : item.Forms s)
    (standalone : Bool) : s.settle standalone = (s, item.demand) := by
  cases h with
  | content h => rw [Item.demand, Item.strip, Item.ownsLine, h]; rfl
  | comment h => rw [Item.demand, Item.strip, Item.ownsLine, h]; rfl
  | mustache h hkind hcall | partialCall h hkind hcall | decorator h hkind hcall =>
    rw [Item.demand, Item.strip, Item.ownsLine, h]
    simp only [hkind]
    rfl

/-- The section that the open tag of a block looks at: the main one. -/
def Branch.leading (close : Item) : Branch → List Statement
  | .plain _ _ body => body.statements
  | .withElse _ o body _ inverse =>
    if o.kind = .inverse then inverse.statements else body.statements
  | .chain _ o body next =>
    if o.kind = .inverse then [next.statement close] else body.statements

/-- The section that the close tag looks at: the first one after the first else tag.  For a block
    that begins with its inverse section, that is taken to be the section in front. -/
def Branch.trailing : Branch → List Statement
  | .plain _ _ body => body.statements
  | .withElse _ o body _ inverse =>
    if o.kind = .inverse then body.statements else inverse.statements
  | .chain _ o body next =>
    if o.kind = .inverse then body.statements else next.body.statements

/-- What the block of a branch demands. -/
def Branch.demand (close : Item) (b : Branch) : Demand :=
  .ofBlock ⟨b.opening.strip, .none, close.strip⟩ (b.leading close) b.trailing

/-! ## Spots -/

/-- A leaf of an outline in its place, and its cuts. -/
structure Spot extends Place where
  found : Leaf
  cuts : List Cut

/-- What is left of the spot. -/
def Spot.leaf (spot : Spot) : Leaf := spot.found.cut spot.cuts

/-- What whoever comes to a row knows of the rest of the file. -/
structure RowContext where
  /-- The row is the top of the file. -/
  atTop : Bool
  /-- The items before the row and after it. -/
  pre : List Item
  post : List Item
  /-- What the first tag of the row sees of the statements before. -/
  left : Left
  /-- The cuts of the first statement of the row. -/
  carried : List Cut
  /-- The cuts of the two ends of the row, besides. -/
  cuts : List Cut

/-- What whoever comes to a block knows: the items around it, the cuts of its main section, besides
    those of the block's own tags, and the cuts of the section before its close tag. -/
structure BlockContext where
  pre : List Item
  /-- From the close tag on. -/
  post : List Item
  close : Item
  lead : List Cut
  trail : List Cut

namespace RowContext

/-- A section of a block, between these items. -/
def inside (pre post : List Item) (cuts : List Cut) : RowContext :=
  ⟨false, pre, post, .edge, [], cuts⟩

/-- Which tags of a statement with this demand stand on lines of their own, when `rest` follows. -/
def standing (x : RowContext) (standalone : Bool) (d : Demand) (rest : Outline) : Standing :=
  d.standing standalone (x.left.atLineStart x.atTop) (rowStartsLine x.atTop rest.statements)

/-- The row after a statement that is an item of its own. -/
def afterBare (x : RowContext) (standalone : Bool) (item : Item) (s : Statement) (rest : Outline) :
    RowContext :=
  { x with
    pre := x.pre ++ [item]
    left := x.left.next x.carried s
    carried := (item.demand.carries (x.standing standalone item.demand rest)).map .start
    cuts := x.cuts.filter Cut.isStop }

/-- A block in the row. -/
def atBlock (x : RowContext) (standalone : Bool) (b : Branch) (close : Item) (rest : Outline) :
    BlockContext :=
  let w := x.standing standalone (b.demand close) rest
  ⟨x.pre, close :: (rest.items ++ x.post), close, cutIf w.openLine (.start .line),
    cutIf w.closeLine (.stop .line)⟩

/-- The row after a block. -/
def afterBlock (x : RowContext) (standalone : Bool) (b : Branch) (close : Item) (rest : Outline) :
    RowContext :=
  { x with
    pre := x.pre ++ b.items ++ [close]
    left := .other
    carried := ((b.demand close).carries (x.standing standalone (b.demand close) rest)).map .start
    cuts := x.cuts.filter Cut.isStop }

end RowContext

namespace BlockContext

/-- The marks on the tags of a block with this opening and this tag before the other section. -/
def strip (x : BlockContext) (o : Opening) (divider : Strip) : BlockStrip :=
  ⟨o.strip, divider, x.close.strip⟩

/-- The only section of a block. -/
def only (x : BlockContext) (item : Item) (o : Opening) : RowContext :=
  .inside (x.pre ++ [item]) x.post ((x.strip o .none).aroundOne ++ x.lead ++ x.trail)

/-- The section in front of an else tag.  The items from that tag on are `after`, and `other` is the
    section that the tag looks at on its other side. -/
def first (x : BlockContext) (standalone : Bool) (item : Item) (o : Opening) (body : Outline)
    (divider : Strip) (after : List Item) (other : List Statement) : RowContext :=
  .inside (x.pre ++ [item]) after
    (if o.kind = .inverse then
      (x.strip o divider).aroundInverse (elseAlone standalone other body.statements) ++ x.trail
    else (x.strip o divider).aroundMain (elseAlone standalone body.statements other) ++ x.lead)

/-- The section after an else tag that has no call. -/
def second (x : BlockContext) (standalone : Bool) (item : Item) (o : Opening) (body : Outline)
    (mark : Item) (inverse : Outline) : RowContext :=
  .inside (x.pre ++ item :: body.items ++ [mark]) x.post
    (if o.kind = .inverse then
      (x.strip o mark.strip).aroundMain (elseAlone standalone inverse.statements body.statements)
        ++ x.lead
    else
      (x.strip o mark.strip).aroundInverse (elseAlone standalone body.statements inverse.statements)
        ++ x.trail)

/-- The block that an else tag opens.  Its main section is what the block around it takes for the
    section before the close tag, unless that block begins with its inverse section. -/
def chained (x : BlockContext) (standalone : Bool) (item : Item) (o : Opening) (body : Outline)
    (next : Branch) : BlockContext :=
  ⟨x.pre ++ item :: body.items, x.post, x.close,
    if o.kind = .inverse then []
    else (x.strip o next.item.strip).aroundInverse
      (elseAlone standalone body.statements next.body.statements), []⟩

end BlockContext

/-- What an else tag looks at after it, when it opens the block `next`.  In a block that begins with
    its inverse section it looks at that block from outside. -/
def Branch.beyond (next : Branch) (o : Opening) (close : Item) : List Statement :=
  if o.kind = .inverse then [next.statement close] else next.body.statements

/-- The cuts that the first statement of a row asks of the content before the row. -/
def Outline.asks (standalone atTop : Bool) (left : Left) : Outline → List Extent
  | .nil => []
  | .bare item _ rest =>
    item.demand.asks (item.demand.standing standalone (left.atLineStart atTop)
      (rowStartsLine atTop rest.statements))
  | .block b close rest =>
    (b.demand close).asks ((b.demand close).standing standalone (left.atLineStart atTop)
      (rowStartsLine atTop rest.statements))

namespace RowContext

/-- The spots of a statement that is an item of its own. -/
def bareSpots (x : RowContext) (standalone : Bool) (item : Item) (s : Statement) (rest : Outline) :
    List Spot :=
  let w := x.standing standalone item.demand rest
  let asked := (rest.asks standalone x.atTop (x.left.next x.carried s)).map Cut.stop
  let own := if rest.statements.isEmpty then x.cuts else x.cuts.filter Cut.isStart
  (s.indented w.ownLine (x.left.indent item.strip.opening)).leaves.map fun leaf =>
    ⟨⟨x.pre, item, rest.items ++ x.post⟩, leaf, x.carried ++ asked ++ own⟩

end RowContext

mutual

/-- The spots of a row. -/
def Outline.spots (standalone : Bool) (x : RowContext) : Outline → List Spot
  | .nil => []
  | .bare item s rest =>
    x.bareSpots standalone item s rest ++ rest.spots standalone (x.afterBare standalone item s rest)
  | .block b close rest =>
    b.spots standalone (x.atBlock standalone b close rest)
      ++ rest.spots standalone (x.afterBlock standalone b close rest)

/-- The spots of a block, those of its main section first. -/
def Branch.spots (standalone : Bool) (x : BlockContext) : Branch → List Spot
  | .plain item o body => body.spots standalone (x.only item o)
  | .withElse item o body mark inverse =>
    let first := body.spots standalone
      (x.first standalone item o body mark.strip (mark :: (inverse.items ++ x.post))
        inverse.statements)
    let second := inverse.spots standalone (x.second standalone item o body mark inverse)
    if o.kind = .inverse then second ++ first else first ++ second
  | .chain item o body next =>
    let first := body.spots standalone
      (x.first standalone item o body next.item.strip (next.items ++ x.post) (next.beyond o x.close))
    let second := next.spots standalone (x.chained standalone item o body next)
    if o.kind = .inverse then second ++ first else first ++ second

end

/-- The context of a whole file. -/
def RowContext.top : RowContext := ⟨true, [], [], .edge, [], []⟩

end Stache
