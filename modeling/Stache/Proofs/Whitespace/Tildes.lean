/-
  Tildes: does whitespace control follow the marks next to each content?

  It should: a content loses its blanks at the start when the tag before it closes with a tilde, and
  those at the end when the tag after it opens with one (`Program.FollowsTildes`).  The pass looks
  for the neighbours of a tag in the tree, though, and in two shapes of blocks the tree has them
  somewhere else than the file:

    * `{{^x}}A{{else}}E{{/x}}`.  The section in front is the INVERSE one, and the pass takes the
      main one, `E`, to come first.  So `A` is cut by the marks around `E`, and `E` by those around
      `A`;
    * `{{#a}}A{{else b}}B{{else}}C{{/a}}`.  The pass looks for the section before the close tag
      behind the first else tag only.  So `B`, too, is cut by the mark of the close tag.

  The rule holds of a file exactly when these cuts make no difference to it
  (`Template.parse_followsTildes_iff`): each spot loses the same by its own cuts as by the marks
  beside it.  In particular it holds of every file whose marks agree at the sections in question
  (`Outline.TildesAgree`), hence of every file without these two shapes, and of every file whose
  else and close tags have no marks.
-/
import Stache.Proofs.Runs
import Stache.Proofs.Whitespace.Rule
import Stache.Proofs.Whitespace.Settling

namespace Stache

/-! ## The rule -/

/-- The items before a content end with a tag that closes with a tilde. -/
def trimsAfter (pre : List Item) : Bool := pre.getLast?.any (·.strip.closing)

/-- The items after a content begin with a tag that opens with a tilde. -/
def trimsBefore (post : List Item) : Bool := post.head?.any (·.strip.opening)

/-- What is left of a content when the tags next to it take the blanks that their marks tell them
    to. -/
def Place.trimTildes (place : Place) (s : List Char) : List Char :=
  Text.trimBlanks (trimsAfter place.pre) (trimsBefore place.post) s

/-- Every content of the tree, at any depth, follows the marks next to it. -/
def Program.FollowsTildes (items : List Item) (p : Program) : Prop :=
  p.Follows Place.trimTildes items

instance (items : List Item) (p : Program) : Decidable (p.FollowsTildes items) :=
  inferInstanceAs (Decidable (p.Follows Place.trimTildes items))

/-- The cuts of a spot take as much as the marks beside it. -/
def Spot.FollowsTildes (spot : Spot) : Prop :=
  ∀ c, spot.found = .content c →
    Text.trimBlanks (spot.cuts.any Cut.isStart) (spot.cuts.any Cut.isStop) c.value.toList
      = Text.trimBlanks (trimsAfter spot.pre) (trimsBefore spot.post) c.value.toList

@[simp] theorem trimsAfter_concat (pre : List Item) (item : Item) :
    trimsAfter (pre ++ [item]) = item.strip.closing := by
  simp [trimsAfter]

@[simp] theorem trimsBefore_cons (item : Item) (post : List Item) :
    trimsBefore (item :: post) = item.strip.opening := rfl

/-! ## What the pass does, where it is the rule -/

/-- The rule holds of a tree when it holds of the spots. -/
theorem Program.followsTildes_iff {text : List Char} {items : List Item} {o : Outline} {p : Program}
    (hscan : Item.Scan .origin text items) (ho : o.Valid) (hitems : o.items = items)
    (hleaves : p.leaves = (o.spots false .top).map Spot.leaf) :
    p.FollowsTildes items ↔ ∀ spot ∈ o.spots false .top, spot.FollowsTildes := by
  have hall : ∀ spot ∈ o.spots false .top, CutsWithin (· = .all) spot.cuts :=
    Outline.spots_within ho (fun h => by cases h) (fun _ _ _ => rfl)
  refine (Program.follows_iff hscan ho hitems hleaves).trans ?_
  refine forall₂_congr fun spot hspot => forall₂_congr fun c _ => ?_
  rw [Content.cutAll_value c (hall spot hspot)]
  rfl

/-! ## Marks that agree -/

mutual

/-- The marks of every block in a row agree where the pass takes one for the other. -/
def Outline.TildesAgree : Outline → Prop
  | .nil => True
  | .bare _ _ rest => rest.TildesAgree
  | .block b close rest => b.TildesAgree close false ∧ rest.TildesAgree

/-- The same for a block with this close tag.  A block that is `inner` has its main section cut by
    the mark of the close tag, whatever follows the section. -/
def Branch.TildesAgree (close : Item) (inner : Bool) : Branch → Prop
  | .plain _ _ body => body.TildesAgree
  | .withElse _ o body mark inverse =>
    body.TildesAgree ∧ inverse.TildesAgree
      ∧ if o.kind = .inverse then
          o.strip.closing = mark.strip.closing ∧ mark.strip.opening = close.strip.opening
        else inner = true → close.strip.opening = true → mark.strip.opening = true
  | .chain _ o body next =>
    body.TildesAgree
      ∧ if o.kind = .inverse then
          o.strip.closing = next.item.strip.closing
            ∧ next.item.strip.opening = close.strip.opening ∧ next.TildesAgree close false
        else (inner = true → close.strip.opening = true → next.item.strip.opening = true)
          ∧ next.TildesAgree close true

end

/-- The cuts of a spot reach the edges that the marks beside it reach. -/
def Spot.CutByNeighbours (spot : Spot) : Prop :=
  spot.cuts.any Cut.isStart = trimsAfter spot.pre
    ∧ spot.cuts.any Cut.isStop = trimsBefore spot.post

theorem Spot.CutByNeighbours.followsTildes {spot : Spot} (h : spot.CutByNeighbours) :
    spot.FollowsTildes := by
  intro c _
  rw [h.1, h.2]

/-- What a row asks of the content before it, when the standalone rule is off: what its first tag
    asks, or whatever follows the row if it is empty. -/
theorem Outline.trimsBefore_items {rest : Outline} (h : rest.Valid) (atTop : Bool) (left : Left)
    (post : List Item) :
    trimsBefore (rest.items ++ post)
      = (!(rest.asks false atTop left).isEmpty || (rest.statements.isEmpty && trimsBefore post)) := by
  match rest, h with
  | .nil, _ => rfl
  | .bare item s rest, _ =>
    rw [Outline.asks, Demand.isEmpty_asks, Demand.standing_off, Outline.items, List.cons_append,
      trimsBefore_cons]
    simp [Item.demand, Outline.statements]
  | .block b close rest, ⟨hb, _, _⟩ =>
    have hhead : trimsBefore ((Outline.block b close rest).items ++ post)
        = b.opening.strip.opening := by
      rw [Outline.items, List.append_assoc, trimsBefore, List.head?_append, b.head?_items,
        hb.opens.strip_eq]
      rfl
    rw [hhead, Outline.asks, Demand.isEmpty_asks, Demand.standing_off]
    simp [Branch.demand, Demand.ofBlock, Outline.statements]

/-- A row whose first statement is cut by the mark before it, and whose end by the mark after it. -/
def RowContext.CutByNeighbours (items : List Item) (x : RowContext) (o : Outline) : Prop :=
  x.Holds items o ∧ o.TildesAgree
    ∧ (x.carried ++ x.cuts).any Cut.isStart = trimsAfter x.pre
    ∧ x.carried.any Cut.isStop = false ∧ x.cuts.any Cut.isStop = trimsBefore x.post

/-- A block that is cut from outside only where its own marks cut it too.  An inner one is cut by
    the mark of the close tag besides. -/
def BlockContext.CutByNeighbours (items : List Item) (x : BlockContext) (b : Branch) : Prop :=
  x.Holds items b ∧ x.trail = []
    ∧ (x.lead.any Cut.isStart = true → b.opening.strip.closing = true)
    ∧ ∃ inner, b.TildesAgree x.close inner
      ∧ (x.lead.any Cut.isStop = true → inner = true ∧ x.close.strip.opening = true)

/-! ## Going down -/

section Steps

variable {items : List Item}

/-- A statement that is an item of its own, and what is behind it. -/
theorem RowContext.CutByNeighbours.bare {x : RowContext} {item : Item} {s : Statement}
    {rest : Outline} (h : x.CutByNeighbours items (.bare item s rest)) :
    (∀ spot ∈ x.bareSpots false item s rest, spot.CutByNeighbours)
      ∧ (x.afterBare false item s rest).CutByNeighbours items rest := by
  obtain ⟨hx, hagree, hstart, hcarried, hstop⟩ := h
  have hnext := ((holds_descent false items).bare hx).2
  rw [List.any_append] at hstart
  refine ⟨fun spot hspot => ⟨?start, ?stop⟩, hnext, hagree, ?carries, any_isStop_map_start _,
    (any_isStop_filter_isStop _).trans hstop⟩
  case start =>
    obtain ⟨leaf, -, rfl⟩ := List.mem_map.1 hspot
    show (x.carried ++ _ ++ _).any Cut.isStart = trimsAfter x.pre
    rw [List.any_append, List.any_append, any_isStart_map_stop, Bool.or_false, ← hstart]
    split
    · rfl
    · rw [any_isStart_filter_isStart]
  case stop =>
    obtain ⟨leaf, -, rfl⟩ := List.mem_map.1 hspot
    show (x.carried ++ _ ++ _).any Cut.isStop = trimsBefore (rest.items ++ x.post)
    rw [List.any_append, List.any_append, any_isStop_map_stop, hcarried, Bool.false_or,
      Outline.trimsBefore_items hx.2.2 x.atTop (x.left.next x.carried s), ← hstop]
    -- only the last statement of a row is reached by the cuts at the end of the row
    split
    · rename_i hempty
      rw [hempty, Bool.true_and]
    · rename_i hempty
      rw [any_isStop_filter_isStart, Bool.eq_false_iff.2 hempty, Bool.false_and]
  case carries =>
    show ((item.demand.carries _).map Cut.start ++ x.cuts.filter Cut.isStop).any Cut.isStart
      = trimsAfter (x.pre ++ [item])
    rw [List.any_append, any_isStart_map_start, any_isStart_filter_isStop, Demand.isEmpty_carries,
      RowContext.standing, Demand.standing_off, trimsAfter_concat]
    simp [Item.demand]

/-- What is behind a block. -/
theorem RowContext.CutByNeighbours.afterBlock {x : RowContext} {b : Branch} {close : Item}
    {rest : Outline} (h : x.CutByNeighbours items (.block b close rest)) :
    (x.afterBlock false b close rest).CutByNeighbours items rest := by
  obtain ⟨hx, hagree, -, -, hstop⟩ := h
  have hnext := ((holds_descent false items).block hx).2
  refine ⟨hnext, hagree.2, ?_, any_isStop_map_start _, (any_isStop_filter_isStop _).trans hstop⟩
  show (((b.demand close).carries _).map Cut.start ++ x.cuts.filter Cut.isStop).any Cut.isStart
    = trimsAfter (x.pre ++ b.items ++ [close])
  rw [List.any_append, any_isStart_map_start, any_isStart_filter_isStop, Demand.isEmpty_carries,
    RowContext.standing, Demand.standing_off, trimsAfter_concat]
  simp [Branch.demand, Demand.ofBlock]

/-- With the standalone rule off, nothing outside of a block cuts into it. -/
theorem RowContext.CutByNeighbours.atBlock {x : RowContext} {b : Branch} {close : Item}
    {rest : Outline} (h : x.CutByNeighbours items (.block b close rest)) :
    (x.atBlock false b close rest).CutByNeighbours items b := by
  have hblock := ((holds_descent false items).block h.1).1
  exact ⟨hblock, rfl, fun hcut => (by cases hcut), false, h.2.1.1, fun hcut => (by cases hcut)⟩

/-- A section of a block, between two tags. -/
theorem RowContext.CutByNeighbours.inside {pre post : List Item} {cuts : List Cut} {o : Outline}
    (hx : (RowContext.inside pre post cuts).Holds items o) (hagree : o.TildesAgree)
    (h : cuts.any Cut.isStart = trimsAfter pre ∧ cuts.any Cut.isStop = trimsBefore post) :
    (RowContext.inside pre post cuts).CutByNeighbours items o :=
  ⟨hx, hagree, h.1, rfl, h.2⟩

/-- The marks of a block agree where the pass takes one for another.  The block has the opening `o`,
    and the tag before its other section has the marks `divider`. -/
structure BlockContext.Agrees (x : BlockContext) (item : Item) (o : Opening) (divider : Strip) :
    Prop where
  trail : x.trail = []
  opens : o.strip = item.strip
  closes : trimsBefore x.post = x.close.strip.opening
  leadStart : x.lead.any Cut.isStart = true → o.strip.closing = true
  leadStop : x.lead.any Cut.isStop = true → divider.opening = true
  /-- Where the sections are exchanged, they have the same marks around them. -/
  exchanged : o.kind = .inverse →
    o.strip.closing = divider.closing ∧ divider.opening = x.close.strip.opening

section Agrees

variable {x : BlockContext} {item : Item} {o : Opening} {divider : Strip}

/-- When the marks at the first section of two agree with those beside it. -/
theorem BlockContext.Agrees.of_marks {inner : Bool} (htrail : x.trail = [])
    (hopens : o.strip = item.strip) (hclose : ∃ after, x.post = x.close :: after)
    (hlead : x.lead.any Cut.isStart = true → o.strip.closing = true)
    (hinner : x.lead.any Cut.isStop = true → inner = true ∧ x.close.strip.opening = true)
    (hmarks : if o.kind = .inverse then
        o.strip.closing = divider.closing ∧ divider.opening = x.close.strip.opening
      else inner = true → x.close.strip.opening = true → divider.opening = true) :
    x.Agrees item o divider := by
  obtain ⟨after, hafter⟩ := hclose
  refine ⟨htrail, hopens, by rw [hafter, trimsBefore_cons], hlead, fun hstop => ?_, fun hkind => ?_⟩
  · obtain ⟨hin, hclose⟩ := hinner hstop
    split at hmarks
    · exact hmarks.2.trans hclose
    · exact hmarks hin hclose
  · rwa [if_pos hkind] at hmarks

/-- The cuts of the main section reach as far as the opening tag and the divider tell them to. -/
theorem BlockContext.Agrees.aroundMain (h : x.Agrees item o divider) (main other : List Statement) :
    ((x.strip o divider).aroundMain (elseAlone false main other) ++ x.lead).any Cut.isStart
        = o.strip.closing
      ∧ ((x.strip o divider).aroundMain (elseAlone false main other) ++ x.lead).any Cut.isStop
        = divider.opening := by
  rw [List.any_append, List.any_append, BlockStrip.any_isStart_aroundMain,
    BlockStrip.any_isStop_aroundMain]
  refine ⟨Bool.or_eq_left_iff_imp.2 h.leadStart, ?_⟩
  exact (Bool.or_assoc ..).trans (Bool.or_eq_left_iff_imp.2 h.leadStop)

/-- Those of the inverse section do what the divider and the close tag tell them to. -/
theorem BlockContext.Agrees.aroundInverse (h : x.Agrees item o divider)
    (main other : List Statement) :
    ((x.strip o divider).aroundInverse (elseAlone false main other) ++ x.trail).any Cut.isStart
        = divider.closing
      ∧ ((x.strip o divider).aroundInverse (elseAlone false main other) ++ x.trail).any Cut.isStop
        = x.close.strip.opening := by
  rw [h.trail, List.append_nil, BlockStrip.any_isStart_aroundInverse,
    BlockStrip.any_isStop_aroundInverse]
  exact ⟨Bool.or_false _, rfl⟩

/-- The section in front of the divider, whichever of the two it is. -/
theorem BlockContext.Agrees.first {body : Outline} {after : List Item} {other : List Statement}
    (h : x.Agrees item o divider) (hafter : trimsBefore after = divider.opening)
    (hx : (x.first false item o body divider after other).Holds items body)
    (hbody : body.TildesAgree) :
    (x.first false item o body divider after other).CutByNeighbours items body := by
  refine .inside hx hbody ?_
  rw [trimsAfter_concat, ← h.opens, hafter]
  split
  case isTrue hkind =>
    obtain ⟨hclosing, hopening⟩ := h.exchanged hkind
    rw [hclosing, hopening]
    exact h.aroundInverse ..
  case isFalse => exact h.aroundMain ..

/-- The section behind an else tag without a call. -/
theorem BlockContext.Agrees.second {mark : Item} {body inverse : Outline}
    (h : x.Agrees item o mark.strip)
    (hx : (x.second false item o body mark inverse).Holds items inverse)
    (hinverse : inverse.TildesAgree) :
    (x.second false item o body mark inverse).CutByNeighbours items inverse := by
  refine .inside hx hinverse ?_
  rw [trimsAfter_concat, h.closes]
  split
  case isTrue hkind =>
    obtain ⟨hclosing, hopening⟩ := h.exchanged hkind
    rw [← hclosing, ← hopening]
    exact h.aroundMain ..
  case isFalse => exact h.aroundInverse ..

end Agrees

/-- The only section of a block. -/
theorem BlockContext.CutByNeighbours.only {x : BlockContext} {item : Item} {o : Opening}
    {body : Outline} (h : x.CutByNeighbours items (.plain item o body)) :
    (x.only item o).CutByNeighbours items body := by
  obtain ⟨hx, htrail, hlead, inner, hagree, hinner⟩ := h
  have hbody := (holds_descent false items).plain hx
  obtain ⟨-, ⟨after, hafter⟩, chained, hb⟩ := hx
  refine .inside hbody hagree ?_
  rw [htrail, List.append_nil, List.any_append, List.any_append, BlockStrip.any_isStart_aroundOne,
    BlockStrip.any_isStop_aroundOne, trimsAfter_concat, ← hb.1.strip_eq, hafter, trimsBefore_cons]
  exact ⟨Bool.or_eq_left_iff_imp.2 hlead, Bool.or_eq_left_iff_imp.2 fun hstop => (hinner hstop).2⟩

/-- The sections on both sides of an else tag without a call. -/
theorem BlockContext.CutByNeighbours.withElse {x : BlockContext} {item mark : Item} {o : Opening}
    {body inverse : Outline} (h : x.CutByNeighbours items (.withElse item o body mark inverse)) :
    (x.first false item o body mark.strip (mark :: (inverse.items ++ x.post))
        inverse.statements).CutByNeighbours items body
      ∧ (x.second false item o body mark inverse).CutByNeighbours items inverse := by
  obtain ⟨hx, htrail, hlead, inner, ⟨hbody, hinverse, hmarks⟩, hinner⟩ := h
  obtain ⟨hfirst, hsecond⟩ := (holds_descent false items).withElse hx
  obtain ⟨-, hclose, chained, hb⟩ := hx
  have hagrees : x.Agrees item o mark.strip :=
    .of_marks htrail hb.1.strip_eq hclose hlead hinner hmarks
  exact ⟨hagrees.first rfl hfirst hbody, hagrees.second hsecond hinverse⟩

/-- The section before an else tag with a call, and the block that the tag opens. -/
theorem BlockContext.CutByNeighbours.chain {x : BlockContext} {item : Item} {o : Opening}
    {body : Outline} {next : Branch} (h : x.CutByNeighbours items (.chain item o body next)) :
    (x.first false item o body next.item.strip (next.items ++ x.post)
        (next.beyond o x.close)).CutByNeighbours items body
      ∧ (x.chained false item o body next).CutByNeighbours items next := by
  obtain ⟨hx, htrail, hlead, inner, ⟨hbody, hmarks⟩, hinner⟩ := h
  obtain ⟨hfirst, hnext⟩ := (holds_descent false items).chain hx
  obtain ⟨-, hclose, chained, hb⟩ := hx
  have hagrees : x.Agrees item o next.item.strip := by
    refine .of_marks htrail hb.1.strip_eq hclose hlead hinner ?_
    by_cases hkind : o.kind = .inverse
    · rw [if_pos hkind] at hmarks ⊢
      exact ⟨hmarks.1, hmarks.2.1⟩
    · rw [if_neg hkind] at hmarks ⊢
      exact hmarks.1
  have hbefore : trimsBefore (next.items ++ x.post) = next.item.strip.opening := by
    rw [trimsBefore, List.head?_append, next.head?_items]
    rfl
  refine ⟨hagrees.first hbefore hfirst hbody, hnext, rfl, ?_⟩
  -- a block that begins with its main section cuts into the one that is chained on to it
  by_cases hkind : o.kind = .inverse
  · rw [if_pos hkind] at hmarks
    simp only [BlockContext.chained, if_pos hkind]
    exact ⟨fun hcut => (by cases hcut), false, hmarks.2.2, fun hcut => (by cases hcut)⟩
  · rw [if_neg hkind] at hmarks
    simp only [BlockContext.chained, if_neg hkind, BlockStrip.any_isStart_aroundInverse,
      BlockStrip.any_isStop_aroundInverse]
    refine ⟨fun hcut => ?_, true, hmarks.2, fun hcut => ⟨rfl, hcut⟩⟩
    rw [hb.2.2.2.opens.strip_eq]
    exact (Bool.or_false _).symm.trans hcut

end Steps

/-- That cuts are those of the neighbours goes down to all spots. -/
theorem cutByNeighbours_descent (items : List Item) :
    Descent false Spot.CutByNeighbours (RowContext.CutByNeighbours items)
      (BlockContext.CutByNeighbours items) where
  bare := RowContext.CutByNeighbours.bare
  block h := ⟨h.atBlock, h.afterBlock⟩
  plain := BlockContext.CutByNeighbours.only
  withElse := BlockContext.CutByNeighbours.withElse
  chain := BlockContext.CutByNeighbours.chain

/-- Where the marks agree, every spot is cut by its neighbours. -/
theorem Outline.TildesAgree.followsTildes {o : Outline} (ho : o.Valid) (h : o.TildesAgree) :
    ∀ spot ∈ o.spots false .top, spot.FollowsTildes := fun spot hspot =>
  ((cutByNeighbours_descent o.items).row
    ⟨⟨by simp [RowContext.top], ho⟩, h, rfl, rfl, rfl⟩ spot hspot).followsTildes

/-- **When whitespace control follows the tildes.**  In a file that is parsed with the standalone
    rule off, every content at any depth is what the scanner made of it, less the blanks that the
    tags next to it take, EXACTLY when every spot loses as much by its own cuts as by the marks
    beside it.  That is so, whatever the texts, if the marks agree at inverse blocks with an else
    and at else sections that are chained on. -/
theorem Template.parse_followsTildes_iff {text : String} {source : Option String} {t : Template}
    (h : Template.parse text source false = .ok t) :
    ∃ (items : List Item) (p : Program) (o : Outline),
      Item.readAll .origin text.toList = .ok items ∧ Program.ofText text.toList = .ok p
        ∧ o.Of items p.body
        ∧ (t.root.FollowsTildes items ↔ ∀ spot ∈ o.spots false .top, spot.FollowsTildes)
        ∧ (o.TildesAgree → t.root.FollowsTildes items) := by
  obtain ⟨items, p, o, hitems, hp, ho, hleaves⟩ := Template.parse_spots h
  have hiff := Program.followsTildes_iff (Item.Scan.of_readAll hitems) ho.valid ho.items_eq hleaves
  exact ⟨items, p, o, hitems, hp, ho, hiff,
    fun hagree => hiff.2 (hagree.followsTildes ho.valid)⟩

/-- The theorem at a chain of else tags without marks, inside a block with marks. -/
theorem Template.parse_followsTildes_at_chain :
    let text := "\x7b\x7b#p~\x7d\x7d 1 \x7b\x7b#a\x7d\x7d 2 \x7b\x7belse b\x7d\x7d 3 "
      ++ "\x7b\x7belse\x7d\x7d 4 \x7b\x7b/a\x7d\x7d \x7b\x7b~/p\x7d\x7d"
    ∃ t, Template.parse text none false = .ok t
      ∧ ∃ (items : List Item) (p : Program) (o : Outline),
        Item.readAll .origin text.toList = .ok items ∧ Program.ofText text.toList = .ok p
          ∧ o.Of items p.body
          ∧ (t.root.FollowsTildes items ↔ ∀ spot ∈ o.spots false .top, spot.FollowsTildes)
          ∧ (o.TildesAgree → t.root.FollowsTildes items) := by
  intro text
  obtain ⟨t, ht, -⟩ := exists_ok (e := Template.parse text none false) (P := fun _ => True)
    (by decide +kernel)
  exact ⟨t, ht, Template.parse_followsTildes_iff ht⟩

/-- The section `B ` of a chain that goes on loses its blank to the close tag. -/
theorem Template.not_followsTildes_of_chain :
    let text := "\x7b\x7b#if a\x7d\x7dA\x7b\x7belse if b\x7d\x7dB "
      ++ "\x7b\x7belse\x7d\x7dC\x7b\x7b~/if\x7d\x7d"
    ∃ items t, Item.readAll .origin text.toList = .ok items
      ∧ Template.parse text none false = .ok t ∧ ¬ t.root.FollowsTildes items :=
  exists_ok₂ (by decide +kernel)

end Stache
