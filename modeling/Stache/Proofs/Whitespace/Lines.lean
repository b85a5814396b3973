/-
  Tags with a line to themselves: does whitespace control follow the lines of the file?

  It should: a tag of a block, a comment or a partial stands ALONE when only spaces and tabs share
  its line with it (`Place.standsAlone`).  A content loses one line's worth at the start when the
  tag before it stands alone, and the indentation at the end when the tag after it does
  (`Program.FollowsLines`); a partial that stands alone remembers the indentation before it
  (`Program.IndentsPartials`).  All this is about files whose only blanks are spaces, tabs and line
  feeds, and whose tags have no tildes.

    1. The indentation of partials is right in ALL of these files (`Outline.spots_indent`).
    2. The contents are right where the sections of every block agree with what the pass takes them
       for (`Outline.LinesAgree`).  The two shapes of blocks that may fail are those of the module
       `Tildes`: an inverse block with an else, whose sections are taken for one another, and an
       else section that opens a block of its own, where the section before the close tag is looked
       for behind the first else tag only, and is not cut at all.
    3. For every file, the rule holds exactly when each spot loses the same by its own cuts as by
       the lines around it (`Template.parse_followsLines_iff`).
-/
import Stache.Proofs.Runs
import Stache.Proofs.Whitespace.Neighbours
import Stache.Proofs.Whitespace.Rule

namespace Stache

/-! ## The rule -/

/-- The tags of blocks, comments and partials. -/
def Item.mayStandAlone (item : Item) : Bool :=
  match item.shape with
  | .content _ => false
  | .comment _ _ => true
  | .tag tag =>
    match tag.kind with
    | .mustache _ | .decorator => false
    | _ => true

/-- Nothing but spaces and tabs shares a line with the tag. -/
def Place.standsAlone (place : Place) : Bool :=
  place.item.mayStandAlone && Text.blankBefore (textOf place.pre)
    && Text.blankAfter (textOf place.post)

/-- The items `pre` end with a tag that stands alone, where `post` comes after it. -/
def aloneBefore (pre post : List Item) : Bool :=
  pre.getLast?.any fun item => Place.standsAlone ⟨pre.dropLast, item, post⟩

/-- The items `post` begin with a tag that stands alone, where `pre` comes before it. -/
def aloneAfter (pre post : List Item) : Bool :=
  post.head?.any fun item => Place.standsAlone ⟨pre, item, post.tail⟩

/-- What is left of a text when a tag before it takes its line break along, and when a tag after it
    takes its indentation along. -/
def Text.trimOwnLines (before after : Bool) (s : List Char) : List Char :=
  let s := if before then dropOne '\n' (s.dropWhile isIndent) else s
  if after then dropEndWhile isIndent s else s

/-- What is left of a content when the tags next to it stand alone or not. -/
def Place.trimLines (place : Place) (s : List Char) : List Char :=
  Text.trimOwnLines (aloneBefore place.pre (place.item :: place.post))
    (aloneAfter (place.pre ++ [place.item]) place.post) s

/-- Every content of the tree, at any depth, follows the lines of the file. -/
def Program.FollowsLines (items : List Item) (p : Program) : Prop :=
  p.Follows Place.trimLines items

instance (items : List Item) (p : Program) : Decidable (p.FollowsLines items) :=
  inferInstanceAs (Decidable (p.Follows Place.trimLines items))

/-- Every partial of the tree, at any depth, has the indentation before it if it stands alone, and
    none otherwise. -/
def Program.IndentsPartials (items : List Item) (p : Program) : Prop :=
  ∀ indent span, .partialCall indent span ∈ p.leaves →
    ∃ place ∈ places items, (∃ tag, place.item.shape = .tag tag ∧ tag.kind = .partialCall)
      ∧ span = place.item.span
      ∧ indent.toList = if place.standsAlone then Text.indentEnd (textOf place.pre) else []

/-- The cuts of a spot take as much as the lines around it. -/
def Spot.FollowsLines (spot : Spot) : Prop :=
  ∀ c, spot.found = .content c →
    Text.trimOwnLines (spot.cuts.any Cut.isStart) (spot.cuts.any Cut.isStop) c.value.toList
      = spot.trimLines c.value.toList

/-- A partial is indented as in the file. -/
def Spot.IndentsPartial (spot : Spot) : Prop :=
  ∀ indent span, spot.found = .partialCall indent span →
    span = spot.item.span
      ∧ indent.toList
        = if spot.toPlace.standsAlone then Text.indentEnd (textOf spot.pre) else []

@[simp] theorem aloneBefore_concat (pre post : List Item) (item : Item) :
    aloneBefore (pre ++ [item]) post = Place.standsAlone ⟨pre, item, post⟩ := by
  simp [aloneBefore]

@[simp] theorem aloneAfter_cons (pre post : List Item) (item : Item) :
    aloneAfter pre (item :: post) = Place.standsAlone ⟨pre, item, post⟩ := rfl

/-! ## Which tags may stand alone -/

/-- A statement may stand alone if its item owns its line. -/
theorem Item.Forms.mayStandAlone_eq {item : Item} {s : Statement} (h : item.Forms s) :
    item.mayStandAlone = item.ownsLine := by
  cases h with
  | content h | comment h => rw [Item.mayStandAlone, Item.ownsLine, h]
  | mustache h hkind | partialCall h hkind | decorator h hkind =>
    rw [Item.mayStandAlone, Item.ownsLine, h]
    simp [hkind]

theorem Item.Opens.mayStandAlone {item : Item} {chained : Bool} {o : Opening}
    (h : item.Opens chained o) : item.mayStandAlone = true := by
  obtain ⟨tag, hshape, hkind, -⟩ := h
  rw [Item.mayStandAlone, hshape]
  cases htag : tag.kind <;> rw [htag] at hkind <;> simp_all [TagRole.opens]

theorem Item.IsElse.mayStandAlone {item : Item} (h : item.IsElse) : item.mayStandAlone = true := by
  obtain ⟨tag, hshape, hkind⟩ := h
  simp only [Item.mayStandAlone, hshape, hkind]

theorem Item.Closes.mayStandAlone {item : Item} {name : String} (h : item.Closes name) :
    item.mayStandAlone = true := by
  obtain ⟨tag, e, hshape, hkind, -⟩ := h
  simp only [Item.mayStandAlone, hshape, hkind]

/-- What stands alone does so on both sides. -/
theorem Place.standsAlone_of_mayStandAlone {place : Place} (h : place.item.mayStandAlone = true) :
    place.standsAlone
      = (Text.blankBefore (textOf place.pre) && Text.blankAfter (textOf place.post)) := by
  rw [standsAlone, h, Bool.true_and]

/-! ## Statements that are items of their own -/

section File

variable {p : Position} {text : List Char} {items : List Item} (hscan : Item.Scan p text items)
  (hplain : Text.PlainBlanks text) (hmarks : ∀ item ∈ items, item.strip = .none)

include hscan hplain hmarks

/-- The pass takes a comment or a partial to stand alone when it does. -/
theorem RowContext.InFile.ownLine_eq {x : RowContext} {item : Item} {s : Statement} {rest : Outline}
    (h : x.InFile items (.bare item s rest)) :
    (x.standing true item.demand rest).ownLine
      = Place.standsAlone ⟨x.pre, item, rest.items ++ x.post⟩ := by
  have hafter := (h.afterBare hscan hmarks).rowStartsLine_eq hscan hplain
  show (true && item.ownsLine && x.left.atLineStart x.atTop
    && rowStartsLine x.atTop rest.statements) = _
  rw [h.atLineStart_eq hscan hplain, Bool.true_and, ← h.holds.2.1.mayStandAlone_eq]
  exact congrArg _ hafter

/-- In a row of the file, the partials are indented as in the file. -/
theorem RowContext.InFile.indentsPartial {x : RowContext} {item : Item} {s : Statement}
    {rest : Outline} (h : x.InFile items (.bare item s rest)) :
    ∀ spot ∈ x.bareSpots true item s rest, spot.IndentsPartial := by
  intro spot hspot
  obtain ⟨leaf, hleaf, rfl⟩ := List.mem_map.1 hspot
  intro indent span hfound
  have hfound : leaf = .partialCall indent span := hfound
  subst hfound
  have hmark : item.strip = .none := hmarks item (by simp [← h.holds.1, Outline.items])
  -- a partial is indented if it stands alone on its line
  have hown := h.ownLine_eq hscan hplain hmarks
  show span = item.span ∧ indent.toList = if Place.standsAlone ⟨x.pre, item, rest.items ++ x.post⟩
    then Text.indentEnd (textOf x.pre) else []
  rw [← hown]
  cases hw : (x.standing true item.demand rest).ownLine with
  | true =>
    have hend : x.left.atLineStart x.atTop = true := by
      simp only [RowContext.standing, Demand.standing, Bool.and_eq_true] at hw
      exact hw.1.2
    rw [hw, hmark] at hleaf
    rw [if_pos rfl, ← h.indent_eq hscan hend]
    cases h.holds.2.1 <;> simp_all [Statement.indented, Statement.withIndent, Statement.leaves]
    rfl
  | false =>
    rw [hw] at hleaf
    rw [if_neg Bool.false_ne_true]
    cases h.holds.2.1 <;> simp_all [Statement.indented, Statement.leaves]

/-- Indentation is right at each spot, from the top of a file down. -/
theorem indents_descent :
    Descent true Spot.IndentsPartial (RowContext.InFile items) (BlockContext.InFile items) where
  bare h := ⟨h.indentsPartial hscan hplain hmarks, h.afterBare hscan hmarks⟩
  block h := ⟨h.atBlock, h.afterBlock hmarks⟩
  plain h := h.only
  withElse h := h.withElse
  chain h := h.chain

/-- Every partial of a file is indented as in the file. -/
theorem Outline.spots_indent {o : Outline} (ho : o.Valid) (hitems : o.items = items) :
    ∀ spot ∈ o.spots true .top, spot.IndentsPartial :=
  (indents_descent hscan hplain hmarks).row (.top ho hitems)

end File

/-! ## Sections that agree -/

/-- The section before the close tag of a block. -/
def Branch.last : Branch → List Statement
  | .plain _ _ body => body.statements
  | .withElse _ _ _ _ inverse => inverse.statements
  | .chain _ _ _ next => next.last

/-- A section with something on its first line and on its last line. -/
def Inline (body : List Statement) : Prop :=
  rowStartsLine false body = false ∧ rowEndsLine false body.reverse = false

mutual

/-- In every block of a row, the sections that the pass may take for one another neither begin nor
    end a line, so that it finds no tag alone by mistake.  These are both sections of an inverse
    block with an else.  When an else section opens a block of its own, they are the section before
    the close tag and the one behind the first else tag, or before it if the outer block is inverse.
    -/
def Outline.LinesAgree : Outline → Prop
  | .nil => True
  | .bare _ _ rest => rest.LinesAgree
  | .block b _ rest => b.LinesAgree ∧ rest.LinesAgree

/-- So it is with the sections of a branch. -/
def Branch.LinesAgree : Branch → Prop
  | .plain _ _ body => body.LinesAgree
  | .withElse _ o body _ inverse =>
    body.LinesAgree ∧ inverse.LinesAgree
      ∧ (o.kind = .inverse → Inline body.statements ∧ Inline inverse.statements)
  | .chain _ o body next =>
    body.LinesAgree ∧ next.LinesAgree ∧ rowEndsLine false next.last.reverse = false
      ∧ if o.kind = .inverse then Inline body.statements
        else rowEndsLine false next.body.statements.reverse = false

end

/-- A row that is a block neither begins nor ends a line. -/
theorem Branch.rowStartsLine_statement (b : Branch) (close : Item) :
    rowStartsLine false [b.statement close] = false
      ∧ rowEndsLine false [b.statement close] = false := by
  rw [rowStartsLine_cons, rowEndsLine_cons, b.written?_statement]
  exact ⟨rfl, rfl⟩

/-- The open tag of such a block looks at a section that begins like the first one. -/
theorem Branch.LinesAgree.rowStartsLine_leading {b : Branch} (h : b.LinesAgree) (close : Item) :
    rowStartsLine false (b.leading close) = rowStartsLine false b.body.statements := by
  match b, h with
  | .plain item o body, _ => rfl
  | .withElse item o body mark inverse, ⟨_, _, hinline⟩ =>
    rw [Branch.leading]
    split
    · rename_i hkind
      rw [(hinline hkind).2.1]
      exact (hinline hkind).1.1.symm
    · rfl
  | .chain item o body next, ⟨_, _, _, hinline⟩ =>
    rw [Branch.leading]
    split
    · rename_i hkind
      rw [if_pos hkind] at hinline
      rw [(next.rowStartsLine_statement close).1]
      exact hinline.1.symm
    · rfl

/-- Its close tag looks at a section that ends like the last one. -/
theorem Branch.LinesAgree.rowEndsLine_trailing {b : Branch} (h : b.LinesAgree) :
    rowEndsLine false b.trailing.reverse = rowEndsLine false b.last.reverse := by
  match b, h with
  | .plain item o body, _ => rfl
  | .withElse item o body mark inverse, ⟨_, _, hinline⟩ =>
    rw [Branch.trailing]
    split
    · rename_i hkind
      rw [(hinline hkind).1.2]
      exact (hinline hkind).2.2.symm
    · rfl
  | .chain item o body next, ⟨_, _, hlast, hinline⟩ =>
    rw [Branch.trailing, Branch.last, hlast]
    split
    · rename_i hkind
      rw [if_pos hkind] at hinline
      exact hinline.2
    · rename_i hkind
      rw [if_neg hkind] at hinline
      exact hinline

/-! ## Blocks in the file -/

section File

variable {p : Position} {text : List Char} {items : List Item} (hscan : Item.Scan p text items)
  (hplain : Text.PlainBlanks text)

include hscan hplain

namespace BlockContext.InFile

/-- The first section of a block begins as it does in the file. -/
theorem rowStartsLine_body {x : BlockContext} {b : Branch} (h : x.InFile items b) :
    rowStartsLine false b.body.statements = Text.blankAfter (textOf (b.items.tail ++ x.post)) := by
  match b, h with
  | .plain item o body, h => exact h.only.rowStartsLine_eq hscan hplain
  | .withElse item o body mark inverse, h =>
    refine (h.withElse.1.rowStartsLine_eq hscan hplain).trans ?_
    simp [Branch.items, BlockContext.first, RowContext.inside]
  | .chain item o body next, h =>
    refine (h.chain.1.rowStartsLine_eq hscan hplain).trans ?_
    simp [Branch.items, BlockContext.first, RowContext.inside]

/-- Its last section ends as it does in the file. -/
theorem rowEndsLine_last {x : BlockContext} {b : Branch} (h : x.InFile items b) :
    rowEndsLine false b.last.reverse = Text.blankBefore (textOf (x.pre ++ b.items)) := by
  match b, h with
  | .plain item o body, h =>
    refine (h.only.rowEndsLine_inside hscan hplain).trans ?_
    simp [Branch.items]
  | .withElse item o body mark inverse, h =>
    refine (h.withElse.2.rowEndsLine_inside hscan hplain).trans ?_
    simp [Branch.items]
  | .chain item o body next, h =>
    refine (rowEndsLine_last h.chain.2).trans ?_
    simp [Branch.items, BlockContext.chained]

/-- The open tag stands alone when something blank is before it and its first section begins so. -/
theorem standsAlone_open {x : BlockContext} {b : Branch} (h : x.InFile items b) :
    Place.standsAlone ⟨x.pre, b.item, b.items.tail ++ x.post⟩
      = (Text.blankBefore (textOf x.pre) && rowStartsLine false b.body.statements) := by
  obtain ⟨chained, hb⟩ := h.1.2.2
  rw [Place.standsAlone_of_mayStandAlone hb.opens.mayStandAlone, h.rowStartsLine_body hscan hplain]

/-- The close tag does not stand alone when the last section has something on its last line. -/
theorem not_aloneAfter {x : BlockContext} {b : Branch} (h : x.InFile items b)
    (hlast : rowEndsLine false b.last.reverse = false) :
    aloneAfter (x.pre ++ b.items) x.post = false := by
  obtain ⟨after, hafter⟩ := h.1.2.1
  rw [hafter, aloneAfter_cons, Place.standsAlone, ← h.rowEndsLine_last hscan hplain, hlast,
    Bool.and_false, Bool.false_and]

/-- An else tag without a call stands alone when the sections around it say so. -/
theorem standsAlone_else {x : BlockContext} {item mark : Item} {o : Opening}
    {body inverse : Outline} (h : x.InFile items (.withElse item o body mark inverse)) :
    Place.standsAlone ⟨x.pre ++ item :: body.items, mark, inverse.items ++ x.post⟩
      = elseAlone true body.statements inverse.statements := by
  obtain ⟨chained, hb⟩ := h.1.2.2
  have hends := h.withElse.1.rowEndsLine_inside hscan hplain
  have hstarts := h.withElse.2.rowStartsLine_eq hscan hplain
  rw [Place.standsAlone_of_mayStandAlone hb.2.2.2.1.mayStandAlone, elseAlone, hends, Bool.true_and,
    List.append_assoc]
  exact congrArg _ hstarts.symm

/-- So does one with a call. -/
theorem standsAlone_chain {x : BlockContext} {item : Item} {o : Opening} {body : Outline}
    {next : Branch} (h : x.InFile items (.chain item o body next)) :
    Place.standsAlone ⟨x.pre ++ item :: body.items, next.item, next.items.tail ++ x.post⟩
      = elseAlone true body.statements next.body.statements := by
  have hends := h.chain.1.rowEndsLine_inside hscan hplain
  rw [elseAlone, hends, Bool.true_and, List.append_assoc]
  exact h.chain.2.standsAlone_open hscan hplain

end BlockContext.InFile

/-- The pass takes the open tag of a block to stand alone when it does. -/
theorem RowContext.InFile.openLine_eq {x : RowContext} {b : Branch} {close : Item} {rest : Outline}
    (h : x.InFile items (.block b close rest)) (hagree : b.LinesAgree) :
    (x.standing true (b.demand close) rest).openLine
      = Place.standsAlone ⟨x.pre, b.item, b.items.tail ++ close :: (rest.items ++ x.post)⟩ := by
  refine Eq.trans ?_ (h.atBlock.standsAlone_open hscan hplain).symm
  show (true && rowStartsLine false (b.leading close) && x.left.atLineStart x.atTop) = _
  rw [Bool.true_and, Bool.and_comm, h.atLineStart_eq hscan hplain, hagree.rowStartsLine_leading]
  rfl

/-- So with the close tag. -/
theorem RowContext.InFile.closeLine_eq (hmarks : ∀ item ∈ items, item.strip = .none)
    {x : RowContext} {b : Branch} {close : Item} {rest : Outline}
    (h : x.InFile items (.block b close rest)) (hagree : b.LinesAgree) :
    (x.standing true (b.demand close) rest).closeLine
      = Place.standsAlone ⟨x.pre ++ b.items, close, rest.items ++ x.post⟩ := by
  have hafter := (h.afterBlock hmarks).rowStartsLine_eq hscan hplain
  rw [Place.standsAlone_of_mayStandAlone h.holds.2.2.1.mayStandAlone]
  show (true && rowEndsLine false b.trailing.reverse && rowStartsLine x.atTop rest.statements) = _
  rw [Bool.true_and, hagree.rowEndsLine_trailing, h.atBlock.rowEndsLine_last hscan hplain]
  exact congrArg _ hafter

/-! ## Cuts where the lines are -/

/-- The cuts of a spot reach the edges that have a line break to lose. -/
def Spot.CutByLines (spot : Spot) : Prop :=
  spot.cuts.any Cut.isStart = aloneBefore spot.pre (spot.item :: spot.post)
    ∧ spot.cuts.any Cut.isStop = aloneAfter (spot.pre ++ [spot.item]) spot.post

omit hscan hplain in
theorem Spot.CutByLines.followsLines {spot : Spot} (h : spot.CutByLines) : spot.FollowsLines := by
  intro c _
  rw [h.1, h.2]
  rfl

/-- A row in the file whose ends are cut by the tags around it that stand alone. -/
structure RowContext.CutByLines (items : List Item) (x : RowContext) (o : Outline) : Prop where
  inFile : x.InFile items o
  agree : o.LinesAgree
  starts : (x.carried ++ x.cuts).any Cut.isStart = aloneBefore x.pre (o.items ++ x.post)
  stops : x.cuts.any Cut.isStop = aloneAfter (x.pre ++ o.items) x.post

/-- A block in the file that is cut from outside where its own tags stand alone. -/
structure BlockContext.CutByLines (items : List Item) (x : BlockContext) (b : Branch) : Prop where
  inFile : x.InFile items b
  agree : b.LinesAgree
  lead_starts : x.lead.any Cut.isStart
    = Place.standsAlone ⟨x.pre, b.item, b.items.tail ++ x.post⟩
  lead_stops : x.lead.any Cut.isStop = false
  trail_starts : x.trail.any Cut.isStart = false
  trail_stops : x.trail.any Cut.isStop = aloneAfter (x.pre ++ b.items) x.post

omit hscan hplain in
theorem RowContext.InFile.carried_stops {x : RowContext} {o : Outline} (h : x.InFile items o) :
    x.carried.any Cut.isStop = false := by
  obtain ⟨w, hw, -⟩ := h.carried
  rw [hw, any_isStop_cutIf_start]

/-- What a row asks of the content before it: what its first tag asks, or whatever follows the row
    if it is empty. -/
theorem RowContext.InFile.aloneAfter_items (hmarks : ∀ item ∈ items, item.strip = .none)
    {x : RowContext} {o : Outline} (h : x.InFile items o) (hagree : o.LinesAgree) :
    aloneAfter x.pre (o.items ++ x.post)
      = (!(o.asks true x.atTop x.left).isEmpty
          || (o.statements.isEmpty && aloneAfter x.pre x.post)) := by
  -- the next item decides, which a block begins with its opening tag
  match o, h, hagree with
  | .nil, h, _ => rfl
  | .bare item s rest, h, _ =>
    have hmark : item.demand.strip = .none := hmarks item (by simp [← h.holds.1, Outline.items])
    have hown := h.ownLine_eq hscan hplain hmarks
    rw [Outline.items, List.cons_append, aloneAfter_cons, ← hown, Outline.asks,
      Demand.isEmpty_asks, hmark]
    simp [RowContext.standing, Demand.standing, Item.demand, Outline.statements, Strip.none]
  | .block b close rest, h, ⟨hagree, _⟩ =>
    have hmark : b.opening.strip = .none :=
      h.holds.2.1.opens.strip_eq.trans
        (hmarks _ (by simp [← h.holds.1, Outline.items, b.item_mem_items]))
    have hopen := h.openLine_eq hscan hplain hagree
    obtain ⟨more, hmore⟩ := List.head?_eq_some_iff.1 b.head?_items
    rw [hmore, List.tail_cons] at hopen
    have hitems : (Outline.block b close rest).items ++ x.post
        = b.item :: (more ++ close :: (rest.items ++ x.post)) := by
      rw [Outline.items, hmore]
      simp
    rw [hitems, aloneAfter_cons, ← hopen, Outline.asks, Demand.isEmpty_asks]
    simp [RowContext.standing, Demand.standing, Branch.demand, Demand.ofBlock, Outline.statements,
      hmark, Strip.none]

variable (hmarks : ∀ item ∈ items, item.strip = .none)

include hmarks

/-- A statement that is an item of its own, and the row after it. -/
theorem RowContext.CutByLines.bare {x : RowContext} {item : Item} {s : Statement} {rest : Outline}
    (h : x.CutByLines items (.bare item s rest)) :
    (∀ spot ∈ x.bareSpots true item s rest, spot.CutByLines)
      ∧ (x.afterBare true item s rest).CutByLines items rest := by
  obtain ⟨hfile, hagree, hstarts, hstops⟩ := h
  have hafter := hfile.afterBare hscan hmarks
  have hmark : item.demand.strip = .none :=
    hmarks item (by simp [← hfile.holds.1, Outline.items])
  -- the item itself, and what is carried to both ends of the rest
  refine ⟨?_, hafter, hagree, ?_, ?_⟩
  · intro spot hspot
    obtain ⟨leaf, -, rfl⟩ := List.mem_map.1 hspot
    refine ⟨?_, ?_⟩
    · refine Eq.trans ?_ hstarts
      show (x.carried ++ _ ++ _).any Cut.isStart = _
      rw [List.any_append, List.any_append, List.any_append, any_isStart_map_stop, Bool.or_false]
      split
      · rfl
      · rw [any_isStart_filter_isStart]
    · refine Eq.trans ?_ (hafter.aloneAfter_items hscan hplain hmarks hagree).symm
      show (x.carried ++ _ ++ _).any Cut.isStop = _
      rw [List.any_append, List.any_append, any_isStop_map_stop, hfile.carried_stops,
        Bool.false_or]
      refine congrArg _ ?_
      split
      · rename_i hempty
        rw [hempty, Bool.true_and, hstops, Outline.items,
          Outline.items_eq_nil_iff.2 (List.isEmpty_iff.1 hempty)]
        rfl
      · rename_i hempty
        rw [any_isStop_filter_isStart, Bool.eq_false_iff.2 hempty, Bool.false_and]
  · show ((item.demand.carries _).map Cut.start ++ x.cuts.filter Cut.isStop).any Cut.isStart
      = aloneBefore (x.pre ++ [item]) (rest.items ++ x.post)
    rw [List.any_append, any_isStart_map_start, any_isStart_filter_isStop, Demand.isEmpty_carries,
      aloneBefore_concat, ← hfile.ownLine_eq hscan hplain hmarks, hmark]
    simp [RowContext.standing, Demand.standing, Item.demand, Strip.none]
  · refine (any_isStop_filter_isStop _).trans (hstops.trans ?_)
    simp [RowContext.afterBare, Outline.items]

/-- A block, and the row after it. -/
theorem RowContext.CutByLines.block {x : RowContext} {b : Branch} {close : Item} {rest : Outline}
    (h : x.CutByLines items (.block b close rest)) :
    (x.atBlock true b close rest).CutByLines items b
      ∧ (x.afterBlock true b close rest).CutByLines items rest := by
  obtain ⟨hfile, ⟨hagree, hrest⟩, hstarts, hstops⟩ := h
  have hmark : (b.demand close).strip.closing = false := by
    show close.strip.closing = false
    rw [hmarks close (by simp [← hfile.holds.1, Outline.items])]
    rfl
  refine ⟨⟨hfile.atBlock, hagree, ?_, ?_, ?_, ?_⟩, hfile.afterBlock hmarks, hrest, ?_, ?_⟩
  · exact (any_isStart_cutIf_start ..).trans (hfile.openLine_eq hscan hplain hagree)
  · exact any_isStop_cutIf_start ..
  · exact any_isStart_cutIf_stop ..
  · exact (any_isStop_cutIf_stop ..).trans (hfile.closeLine_eq hscan hplain hmarks hagree)
  · show (((b.demand close).carries _).map Cut.start ++ x.cuts.filter Cut.isStop).any Cut.isStart
      = aloneBefore (x.pre ++ b.items ++ [close]) (rest.items ++ x.post)
    rw [List.any_append, any_isStart_map_start, any_isStart_filter_isStop, Demand.isEmpty_carries,
      aloneBefore_concat, ← hfile.closeLine_eq hscan hplain hmarks hagree, hmark]
    simp [RowContext.standing, Demand.standing, Branch.demand, Demand.ofBlock]
  · refine (any_isStop_filter_isStop _).trans (hstops.trans ?_)
    simp [RowContext.afterBlock, Outline.items]

omit hscan hplain in
/-- The marks on the tags of a block. -/
theorem BlockContext.InFile.close_strip {x : BlockContext} {b : Branch} (h : x.InFile items b) :
    x.close.strip = .none := by
  obtain ⟨⟨hitems, ⟨after, hafter⟩, -⟩, -⟩ := h
  exact hmarks x.close (by simp [← hitems, hafter])

omit hscan hplain in
theorem BlockContext.InFile.item_strip {x : BlockContext} {b : Branch} (h : x.InFile items b) :
    b.item.strip = .none :=
  hmarks b.item (by simp [← h.1.1, b.item_mem_items])

omit hscan hplain in
theorem BlockContext.InFile.open_strip {x : BlockContext} {b : Branch} (h : x.InFile items b) :
    b.opening.strip = .none := by
  obtain ⟨chained, hb⟩ := h.1.2.2
  rw [hb.opens.strip_eq, h.item_strip hmarks]

omit hscan hplain in
/-- The section of a block that has only one. -/
theorem BlockContext.CutByLines.only {x : BlockContext} {item : Item} {o : Opening} {body : Outline}
    (h : x.CutByLines items (.plain item o body)) : (x.only item o).CutByLines items body := by
  obtain ⟨hfile, hagree, hstarts, hleads, htrails, hstops⟩ := h
  have hopen : o.strip = .none := hfile.open_strip hmarks
  refine ⟨hfile.only, hagree, ?_, ?_⟩
  · show (((x.strip o .none).aroundOne ++ x.lead ++ x.trail)).any Cut.isStart
      = aloneBefore (x.pre ++ [item]) (body.items ++ x.post)
    rw [List.any_append, List.any_append, BlockStrip.any_isStart_aroundOne, hstarts, htrails,
      aloneBefore_concat, BlockContext.strip, hopen]
    simp [Strip.none, Branch.item, Branch.items]
  · show (((x.strip o .none).aroundOne ++ x.lead ++ x.trail)).any Cut.isStop
      = aloneAfter (x.pre ++ [item] ++ body.items) x.post
    rw [List.any_append, List.any_append, BlockStrip.any_isStop_aroundOne, hleads, hstops,
      BlockContext.strip, hfile.close_strip hmarks]
    simp [Strip.none, Branch.items]

/-- The sections on both sides of an else tag without a call. -/
theorem BlockContext.CutByLines.withElse {x : BlockContext} {item mark : Item} {o : Opening}
    {body inverse : Outline} (h : x.CutByLines items (.withElse item o body mark inverse)) :
    (x.first true item o body mark.strip (mark :: (inverse.items ++ x.post))
        inverse.statements).CutByLines items body
      ∧ (x.second true item o body mark inverse).CutByLines items inverse := by
  obtain ⟨hfile, ⟨hbody, hinverse, hinline⟩, hstarts, hleads, htrails, hstops⟩ := h
  obtain ⟨hfirst, hsecond⟩ := hfile.withElse
  have hopen : o.strip = .none := hfile.open_strip hmarks
  have hclose := hfile.close_strip hmarks
  have hmark : mark.strip = .none := hmarks mark (by simp [← hfile.1.1, Branch.items])
  have helse := hfile.standsAlone_else hscan hplain
  -- What the two sections are to lose.
  have hfirstStart : aloneBefore (x.pre ++ [item]) (body.items ++ mark :: (inverse.items ++ x.post))
      = x.lead.any Cut.isStart := by
    rw [aloneBefore_concat, hstarts]
    simp [Branch.item, Branch.items]
  have hfirstStop : aloneAfter (x.pre ++ [item] ++ body.items) (mark :: (inverse.items ++ x.post))
      = elseAlone true body.statements inverse.statements := by
    rw [aloneAfter_cons, ← helse, List.append_assoc]
    rfl
  have hsecondStart : aloneBefore (x.pre ++ item :: body.items ++ [mark]) (inverse.items ++ x.post)
      = elseAlone true body.statements inverse.statements := by
    rw [aloneBefore_concat, helse]
  have hsecondStop : aloneAfter (x.pre ++ item :: body.items ++ [mark] ++ inverse.items) x.post
      = x.trail.any Cut.isStop := by
    rw [hstops]
    simp [Branch.items]
  by_cases hkind : o.kind = .inverse
  · -- Nothing stands alone, so it does no harm that the cuts of the two sections are exchanged.
    obtain ⟨⟨hbegin, hend⟩, hbegin', hend'⟩ := hinline hkind
    have hlead : x.lead.any Cut.isStart = false := by
      rw [hstarts, hfile.standsAlone_open hscan hplain]
      exact Bool.and_eq_false_imp.2 fun _ => hbegin
    have htrail : x.trail.any Cut.isStop = false :=
      hstops.trans (hfile.not_aloneAfter hscan hplain hend')
    simp only [BlockContext.first, BlockContext.second, if_pos hkind] at hfirst hsecond ⊢
    refine ⟨⟨hfirst, hbody, ?_, ?_⟩, hsecond, hinverse, ?_, ?_⟩
    · refine Eq.trans ?_ hfirstStart.symm
      simp [RowContext.inside, BlockContext.strip, hmark, htrails, hlead, elseAlone, hbegin,
        Strip.none]
    · refine Eq.trans ?_ hfirstStop.symm
      simp [RowContext.inside, BlockContext.strip, hclose, htrail, elseAlone, hend, Strip.none]
    · refine Eq.trans ?_ hsecondStart.symm
      simp [RowContext.inside, BlockContext.strip, hopen, hlead, elseAlone, hend, Strip.none]
    · refine Eq.trans ?_ hsecondStop.symm
      simp [RowContext.inside, BlockContext.strip, hmark, hleads, htrail, elseAlone, hbegin,
        Strip.none]
  · simp only [BlockContext.first, BlockContext.second, if_neg hkind] at hfirst hsecond ⊢
    refine ⟨⟨hfirst, hbody, ?_, ?_⟩, hsecond, hinverse, ?_, ?_⟩
    · refine Eq.trans ?_ hfirstStart.symm
      simp [RowContext.inside, BlockContext.strip, hopen, Strip.none]
    · refine Eq.trans ?_ hfirstStop.symm
      simp [RowContext.inside, BlockContext.strip, hmark, hleads, Strip.none]
    · refine Eq.trans ?_ hsecondStart.symm
      simp [RowContext.inside, BlockContext.strip, hmark, htrails, Strip.none]
    · refine Eq.trans ?_ hsecondStop.symm
      simp [RowContext.inside, BlockContext.strip, hclose, Strip.none]

/-- The section before an else tag with a call, and the block that the tag opens. -/
theorem BlockContext.CutByLines.chain {x : BlockContext} {item : Item} {o : Opening} {body : Outline}
    {next : Branch} (h : x.CutByLines items (.chain item o body next)) :
    (x.first true item o body next.item.strip (next.items ++ x.post)
        (next.beyond o x.close)).CutByLines items body
      ∧ (x.chained true item o body next).CutByLines items next := by
  obtain ⟨hfile, ⟨hbody, hnext, hlast, hinline⟩, hstarts, hleads, htrails, hstops⟩ := h
  obtain ⟨hfirst, hchained⟩ := hfile.chain
  have hopen : o.strip = .none := hfile.open_strip hmarks
  have hclose := hfile.close_strip hmarks
  have hmark : next.item.strip = .none := hchained.item_strip hmarks
  have helse := hfile.standsAlone_chain hscan hplain
  obtain ⟨more, hmore⟩ := List.head?_eq_some_iff.1 next.head?_items
  -- What the section and the block are to lose.
  have hfirstStart : aloneBefore (x.pre ++ [item]) (body.items ++ (next.items ++ x.post))
      = x.lead.any Cut.isStart := by
    rw [aloneBefore_concat, hstarts]
    simp [Branch.item, Branch.items]
  have hfirstStop : aloneAfter (x.pre ++ [item] ++ body.items) (next.items ++ x.post)
      = elseAlone true body.statements next.body.statements := by
    rw [← helse, hmore, List.cons_append, aloneAfter_cons, List.append_assoc]
    rfl
  have hchainedStop : aloneAfter (x.pre ++ item :: body.items ++ next.items) x.post = false :=
    hchained.not_aloneAfter hscan hplain hlast
  by_cases hkind : o.kind = .inverse
  · rw [if_pos hkind] at hinline
    obtain ⟨hbegin, hend⟩ := hinline
    have hlead : x.lead.any Cut.isStart = false := by
      rw [hstarts, hfile.standsAlone_open hscan hplain]
      exact Bool.and_eq_false_imp.2 fun _ => hbegin
    have htrail : x.trail.any Cut.isStop = false :=
      hstops.trans (hfile.not_aloneAfter hscan hplain hlast)
    simp only [BlockContext.first, BlockContext.chained, if_pos hkind] at hfirst hchained ⊢
    refine ⟨⟨hfirst, hbody, ?_, ?_⟩, hchained, hnext, ?_, rfl, rfl, ?_⟩
    · refine Eq.trans ?_ hfirstStart.symm
      simp [RowContext.inside, BlockContext.strip, hmark, htrails, hlead, elseAlone, hbegin,
        Strip.none]
    · refine Eq.trans ?_ hfirstStop.symm
      simp [RowContext.inside, BlockContext.strip, hclose, htrail, elseAlone, hend, Strip.none]
    · refine Eq.trans ?_ helse.symm
      simp [elseAlone, hend]
    · exact hchainedStop.symm
  · simp only [BlockContext.first, BlockContext.chained, if_neg hkind, Branch.beyond]
      at hfirst hchained ⊢
    refine ⟨⟨hfirst, hbody, ?_, ?_⟩, hchained, hnext, ?_, ?_, rfl, ?_⟩
    · refine Eq.trans ?_ hfirstStart.symm
      simp [RowContext.inside, BlockContext.strip, hopen, Strip.none]
    · refine Eq.trans ?_ hfirstStop.symm
      simp [RowContext.inside, BlockContext.strip, hmark, hleads, Strip.none]
    · refine Eq.trans ?_ helse.symm
      simp [BlockContext.strip, hmark, Strip.none]
    · simp [BlockContext.strip, hclose, Strip.none]
    · exact hchainedStop.symm

/-- That cuts are where the lines are goes down to all spots. -/
theorem cutByLines_descent :
    Descent true Spot.CutByLines (RowContext.CutByLines items) (BlockContext.CutByLines items) where
  bare h := h.bare hscan hplain hmarks
  block h := h.block hscan hplain hmarks
  plain h := h.only hmarks
  withElse h := h.withElse hscan hplain hmarks
  chain h := h.chain hscan hplain hmarks

/-- Where the sections agree, every spot is cut where the lines are. -/
theorem Outline.LinesAgree.followsLines {o : Outline} (ho : o.Valid) (hitems : o.items = items)
    (h : o.LinesAgree) : ∀ spot ∈ o.spots true .top, spot.FollowsLines := fun spot hspot =>
  ((cutByLines_descent hscan hplain hmarks).row ⟨.top ho hitems, h, rfl, rfl⟩ spot
    hspot).followsLines

end File

/-! ## What the pass does, where it is the rule -/

/-- Without carriage returns, one line's worth ends with a line feed. -/
theorem Text.trimLine_eq {s : List Char} (h : '\r' ∉ s) (before after : Bool) :
    trimLine before after s = trimOwnLines before after s := by
  have hdrop : dropOne '\r' (s.dropWhile isIndent) = s.dropWhile isIndent := by
    have hmem : '\r' ∉ s.dropWhile isIndent := fun hc => h ((List.dropWhile_suffix _).subset hc)
    match hs : s.dropWhile isIndent with
    | [] => rfl
    | c :: rest =>
      rw [hs] at hmem
      rw [dropOne, if_neg fun hc => hmem (by rw [hc]; exact List.mem_cons_self ..)]
  rw [trimLine, trimOwnLines, dropLineStart, hdrop, dropIndentEnd]

/-- The rule holds of a tree when it holds of the spots. -/
theorem Program.followsLines_iff {text : List Char} {items : List Item} {o : Outline} {p : Program}
    (hscan : Item.Scan .origin text items) (hplain : Text.PlainBlanks text)
    (hmarks : ∀ item ∈ items, item.strip = .none) (ho : o.Valid) (hitems : o.items = items)
    (hleaves : p.leaves = (o.spots true .top).map Spot.leaf) :
    p.FollowsLines items ↔ ∀ spot ∈ o.spots true .top, spot.FollowsLines := by
  have hplace := hitems ▸ o.spots_place ho true
  have hall : ∀ spot ∈ o.spots true .top, CutsWithin (· = .line) spot.cuts :=
    Outline.spots_within ho (fun _ => rfl) fun item hitem hne =>
      (hne (hmarks item (hitems ▸ hitem))).elim
  refine (Program.follows_iff hscan ho hitems hleaves).trans ?_
  refine forall₂_congr fun spot hspot => forall₂_congr fun c hc => ?_
  obtain ⟨hmem, hform⟩ := hplace spot hspot
  rw [hc] at hform
  obtain ⟨hstart, hend⟩ := Item.fresh_of_scanned hform.scanned_eq
  have hitem : spot.item ∈ items := Place.item_mem hmem
  have hreturn : '\r' ∉ c.value.toList := by
    intro h
    have h := (hscan.scanned_value hitem hform.scanned_eq).2.2 _ h
    exact absurd (plainBlanks_lexeme hscan hplain hitem _ h (by decide)) (by decide)
  rw [Content.cutAll_line_value hstart hend (hall spot hspot), Text.trimLine_eq hreturn]

/-- The rule for partials holds of a tree when it holds of the spots. -/
theorem Program.indentsPartials_of_spots {items : List Item} {o : Outline} {p : Program}
    (ho : o.Valid) (hitems : o.items = items)
    (hleaves : p.leaves = (o.spots true .top).map Spot.leaf)
    (h : ∀ spot ∈ o.spots true .top, spot.IndentsPartial) : p.IndentsPartials items := by
  intro indent span hleaf
  rw [hleaves] at hleaf
  obtain ⟨spot, hspot, hleaf⟩ := List.mem_map.1 hleaf
  obtain ⟨hmem, hform⟩ := o.spots_place ho true spot hspot
  match hfound : spot.found with
  | .content c =>
    rw [Spot.leaf, hfound] at hleaf
    cases hleaf
  | .partialCall indent' span' =>
    rw [Spot.leaf, hfound] at hleaf
    cases hleaf
    rw [hfound] at hform
    obtain ⟨hspan, hindent⟩ := h spot hspot indent span hfound
    refine ⟨spot.toPlace, hitems ▸ hmem, ?_, hspan, hindent⟩
    cases hform with
    | partialCall hshape hkind => exact ⟨_, hshape, hkind⟩

/-- **When whitespace control follows the lines.**  In a file that is parsed with the standalone
    rule on, whose only blanks are spaces, tabs and line feeds, and whose tags have no tildes, every
    partial is indented as in the file.  Every content is what the scanner made of it, less what the
    tags next to it take when they stand alone, EXACTLY when every spot loses as much by its own
    cuts.  That is so, whatever else the texts are, if the sections of every block agree with what
    the pass takes them for. -/
theorem Template.parse_followsLines_iff {text : String} {source : Option String} {t : Template}
    {items : List Item} (h : Template.parse text source true = .ok t)
    (hitems : Item.readAll .origin text.toList = .ok items)
    (hplain : Text.PlainBlanks text.toList) (hmarks : ∀ item ∈ items, item.strip = .none) :
    ∃ (p : Program) (o : Outline),
      Program.ofText text.toList = .ok p ∧ o.Of items p.body
        ∧ t.root.IndentsPartials items
        ∧ (t.root.FollowsLines items ↔ ∀ spot ∈ o.spots true .top, spot.FollowsLines)
        ∧ (o.LinesAgree → t.root.FollowsLines items) := by
  obtain ⟨items', p, o, hitems', hp, ho, hleaves⟩ := Template.parse_spots h
  obtain rfl : items = items' := Except.ok.inj (hitems.symm.trans hitems')
  have hscan := Item.Scan.of_readAll hitems
  have hiff := Program.followsLines_iff hscan hplain hmarks ho.valid ho.items_eq hleaves
  have hindent := Outline.spots_indent hscan hplain hmarks ho.valid ho.items_eq
  exact ⟨p, o, hp, ho, Program.indentsPartials_of_spots ho.valid ho.items_eq hleaves hindent, hiff,
    fun hagree => hiff.2 (hagree.followsLines hscan hplain hmarks ho.valid ho.items_eq)⟩

/-- The theorem at a block on lines of its own, with an indented partial and a chain in it. -/
theorem Template.parse_followsLines_at_block :
    let text := "\x7b\x7b#p\x7d\x7d\n  \x7b\x7b> x\x7d\x7d\n\x7b\x7b#a\x7d\x7d 1 "
      ++ "\x7b\x7belse b\x7d\x7d 2 \x7b\x7b/a\x7d\x7d\n\x7b\x7b/p\x7d\x7d"
    ∃ t items, Template.parse text none true = .ok t
      ∧ Item.readAll .origin text.toList = .ok items
      ∧ Text.PlainBlanks text.toList ∧ (∀ item ∈ items, item.strip = .none)
      ∧ ∃ (p : Program) (o : Outline), Program.ofText text.toList = .ok p ∧ o.Of items p.body
        ∧ t.root.IndentsPartials items
        ∧ (t.root.FollowsLines items ↔ ∀ spot ∈ o.spots true .top, spot.FollowsLines)
        ∧ (o.LinesAgree → t.root.FollowsLines items) := by
  intro text
  obtain ⟨t, items, ht, hitems, hmarks⟩ := exists_ok₂ (e := Template.parse text none true)
    (f := Item.readAll .origin text.toList)
    (P := fun _ items => ∀ item ∈ items, item.strip = .none) (by decide +kernel)
  have hplain : Text.PlainBlanks text.toList := by decide +kernel
  exact ⟨t, items, ht, hitems, hplain, hmarks,
    Template.parse_followsLines_iff ht hitems hplain hmarks⟩

/-- The section `B` of a chain keeps the indentation of the close tag. -/
theorem Template.not_followsLines_of_chain :
    let text := "\x7b\x7b#if a\x7d\x7d\nA\n\x7b\x7belse if b\x7d\x7d\nB\n  \x7b\x7b/if\x7d\x7d\n"
    Text.PlainBlanks text.toList ∧ ∃ items t, Item.readAll .origin text.toList = .ok items
      ∧ Template.parse text none true = .ok t ∧ (∀ item ∈ items, item.strip = .none)
      ∧ ¬ t.root.FollowsLines items := by
  refine ⟨?_, exists_ok₂ (by decide +kernel)⟩
  decide +kernel

end Stache
