/-
  What holds of every spot of an outline.

  A property of all spots is shown by going down through the outline, the way the spots are defined:
  some invariant holds at the top, passes from each row and each block to what is inside it and
  after it, and gives the property where there is a spot.  `Descent` is the list of these
  obligations, and `Descent.row` the induction, which is done here once.  Two descents that need
  nothing else:

    * every spot is at a place of the file, and is what the item there forms
    (`Outline.spots_place`);
    * cuts of all blanks occur only if some tag has a tilde, those of one line's worth only if the
      standalone rule is on (`Outline.spots_within`).
-/
import Stache.Proofs.Whitespace.Spots

namespace Stache

/-! ## Going down -/

/-- A property of spots that holds all over an outline because something else holds wherever one
    comes on the way down: at each row, and at each block. -/
structure Descent (standalone : Bool) (P : Spot → Prop) (Row : RowContext → Outline → Prop)
    (Block : BlockContext → Branch → Prop) : Prop where
  bare : ∀ {x : RowContext} {item : Item} {s : Statement} {rest : Outline},
    Row x (.bare item s rest) → (∀ spot ∈ x.bareSpots standalone item s rest, P spot)
      ∧ Row (x.afterBare standalone item s rest) rest
  block : ∀ {x : RowContext} {b : Branch} {close : Item} {rest : Outline},
    Row x (.block b close rest) → Block (x.atBlock standalone b close rest) b
      ∧ Row (x.afterBlock standalone b close rest) rest
  plain : ∀ {x : BlockContext} {item : Item} {o : Opening} {body : Outline},
    Block x (.plain item o body) → Row (x.only item o) body
  withElse : ∀ {x : BlockContext} {item mark : Item} {o : Opening} {body inverse : Outline},
    Block x (.withElse item o body mark inverse)
      → Row (x.first standalone item o body mark.strip (mark :: (inverse.items ++ x.post))
          inverse.statements) body
        ∧ Row (x.second standalone item o body mark inverse) inverse
  chain : ∀ {x : BlockContext} {item : Item} {o : Opening} {body : Outline} {next : Branch},
    Block x (.chain item o body next)
      → Row (x.first standalone item o body next.item.strip (next.items ++ x.post)
          (next.beyond o x.close)) body
        ∧ Block (x.chained standalone item o body next) next

namespace Descent

variable {standalone : Bool} {P : Spot → Prop} {Row : RowContext → Outline → Prop}
  {Block : BlockContext → Branch → Prop}

mutual

/-- **What holds of the context of a row** gives the property at all of its spots, -/
theorem row (d : Descent standalone P Row Block) {x : RowContext} {o : Outline} (h : Row x o) :
    ∀ spot ∈ o.spots standalone x, P spot := by
  match o, h with
  | .nil, _ => simp [Outline.spots]
  | .bare item s rest, h =>
    obtain ⟨hspots, hrest⟩ := d.bare h
    intro spot hspot
    rcases List.mem_append.1 hspot with hspot | hspot
    · exact hspots spot hspot
    · exact d.row hrest spot hspot
  | .block b close rest, h =>
    obtain ⟨hblock, hrest⟩ := d.block h
    intro spot hspot
    rcases List.mem_append.1 hspot with hspot | hspot
    · exact d.branch hblock spot hspot
    · exact d.row hrest spot hspot

/-- and so it is with a branch. -/
theorem branch (d : Descent standalone P Row Block) {x : BlockContext} {b : Branch}
    (h : Block x b) : ∀ spot ∈ b.spots standalone x, P spot := by
  match b, h with
  | .plain item o body, h => exact d.row (d.plain h)
  | .withElse item o body mark inverse, h =>
    obtain ⟨hfirst, hsecond⟩ := d.withElse h
    intro spot hspot
    rw [Branch.spots] at hspot
    -- the sections may stand in either order
    split at hspot
    all_goals
      rcases List.mem_append.1 hspot with hspot | hspot
      · first | exact d.row hfirst spot hspot | exact d.row hsecond spot hspot
      · first | exact d.row hfirst spot hspot | exact d.row hsecond spot hspot
  | .chain item o body next, h =>
    obtain ⟨hfirst, hsecond⟩ := d.chain h
    intro spot hspot
    rw [Branch.spots] at hspot
    split at hspot
    all_goals
      rcases List.mem_append.1 hspot with hspot | hspot
      · first | exact d.row hfirst spot hspot | exact d.branch hsecond spot hspot
      · first | exact d.row hfirst spot hspot | exact d.branch hsecond spot hspot

end

end Descent

/-! ## Every spot is what its item makes of it -/

/-- The leaf that an item forms, before any cut.  A partial may have an indentation. -/
inductive Item.FormsLeaf (item : Item) : Leaf → Prop where
  | content {value : String} (h : item.shape = .content value) :
      Item.FormsLeaf item (.content ⟨value, item.lexeme, false, false, item.span⟩)
  | partialCall {tag : Tag} {indent : String} (h : item.shape = .tag tag)
      (hkind : tag.kind = .partialCall) : Item.FormsLeaf item (.partialCall indent item.span)

/-- The leaves of a statement are what its item makes of them. -/
theorem Item.Forms.formsLeaf {item : Item} {s : Statement} (h : item.Forms s) {ownLine : Bool}
    {indent : String} {leaf : Leaf} (hleaf : leaf ∈ (s.indented ownLine indent).leaves) :
    item.FormsLeaf leaf := by
  cases h with
  | content h =>
    cases ownLine <;>
      (obtain rfl := List.mem_singleton.1 hleaf
       exact .content h)
  | partialCall h hkind hcall =>
    cases ownLine <;>
      (obtain rfl := List.mem_singleton.1 hleaf
       exact .partialCall h hkind)
  | comment h | mustache h hkind hcall | decorator h hkind hcall =>
    cases ownLine <;> cases hleaf

/-- A row stands where its context says. -/
def RowContext.Holds (items : List Item) (x : RowContext) (o : Outline) : Prop :=
  x.pre ++ o.items ++ x.post = items ∧ o.Valid

/-- A block stands where its context says. -/
def BlockContext.Holds (items : List Item) (x : BlockContext) (b : Branch) : Prop :=
  x.pre ++ b.items ++ x.post = items ∧ (∃ after, x.post = x.close :: after)
    ∧ ∃ chained, b.Valid chained

/-- So it is with all spots of an outline. -/
theorem holds_descent (standalone : Bool) (items : List Item) :
    Descent standalone
      (fun spot => spot.toPlace ∈ places items ∧ spot.item.FormsLeaf spot.found)
      (RowContext.Holds items) (BlockContext.Holds items) where
  -- everywhere, the items before, in and behind the row are those of the file
  bare := by
    rintro x item s rest ⟨hitems, hform, hrest⟩
    simp only [Outline.items] at hitems
    refine ⟨?_, ?_, hrest⟩
    · intro spot hspot
      obtain ⟨leaf, hleaf, rfl⟩ := List.mem_map.1 hspot
      refine ⟨mem_places.2 ?_, hform.formsLeaf hleaf⟩
      simp [Place.items, ← hitems]
    · simp [RowContext.afterBare, ← hitems]
  block := by
    rintro x b close rest ⟨hitems, hb, -, hrest⟩
    simp only [Outline.items] at hitems
    refine ⟨⟨?_, ⟨_, rfl⟩, false, hb⟩, ?_, hrest⟩
    · simp [RowContext.atBlock, ← hitems]
    · simp [RowContext.afterBlock, ← hitems]
  plain := by
    rintro x item o body ⟨hitems, -, chained, hb⟩
    simp only [Branch.items] at hitems
    refine ⟨?_, hb.2⟩
    simp [BlockContext.only, RowContext.inside, ← hitems]
  withElse := by
    rintro x item mark o body inverse ⟨hitems, -, chained, hb⟩
    simp only [Branch.items] at hitems
    refine ⟨⟨?_, hb.2.2.1⟩, ?_, hb.2.2.2.2⟩
    · simp [BlockContext.first, RowContext.inside, ← hitems]
    · simp [BlockContext.second, RowContext.inside, ← hitems]
  chain := by
    rintro x item o body next ⟨hitems, hclose, chained, hb⟩
    simp only [Branch.items] at hitems
    refine ⟨⟨?_, hb.2.2.1⟩, ?_, hclose, true, hb.2.2.2⟩
    · simp [BlockContext.first, RowContext.inside, ← hitems]
    · simp [BlockContext.chained, ← hitems]

/-- Every spot of a file is at a place of the file, and is what the item there forms. -/
theorem Outline.spots_place {o : Outline} (h : o.Valid) (standalone : Bool) :
    ∀ spot ∈ o.spots standalone .top,
      spot.toPlace ∈ places o.items ∧ spot.item.FormsLeaf spot.found :=
  (holds_descent standalone o.items).row ⟨by simp [RowContext.top], h⟩

/-! ## Which cuts occur -/

/-- Every cut in the list reaches as far as one of the extents in question. -/
def CutsWithin (Q : Extent → Prop) (cuts : List Cut) : Prop := ∀ cut ∈ cuts, Q cut.extent

section Within

variable {Q : Extent → Prop}

/-- Two rows of cuts within bounds, -/
theorem CutsWithin.append {cuts more : List Cut} (h : CutsWithin Q cuts)
    (hmore : CutsWithin Q more) : CutsWithin Q (cuts ++ more) := by
  intro cut hcut
  rcases List.mem_append.1 hcut with hcut | hcut
  · exact h cut hcut
  · exact hmore cut hcut

/-- some of them, -/
theorem CutsWithin.filter {cuts : List Cut} (h : CutsWithin Q cuts) (p : Cut → Bool) :
    CutsWithin Q (cuts.filter p) :=
  fun cut hcut => h cut (List.mem_of_mem_filter hcut)

/-- none of them, -/
theorem cutsWithin_nil : CutsWithin Q [] := fun _ h => by cases h

/-- or one that may be wanted. -/
theorem cutsWithin_cutIf {wanted : Bool} {cut : Cut} (h : wanted = true → Q cut.extent) :
    CutsWithin Q (cutIf wanted cut) := by
  intro cut' hcut
  cases wanted with
  | false => cases hcut
  | true =>
    obtain rfl := List.mem_singleton.1 hcut
    exact h rfl

variable {standalone : Bool}

theorem Strip.ne_none_of_opening {strip : Strip} (h : strip.opening = true) : strip ≠ .none := by
  rintro rfl
  cases h

theorem Strip.ne_none_of_closing {strip : Strip} (h : strip.closing = true) : strip ≠ .none := by
  rintro rfl
  cases h

/-- The trims that a demand leads to, on either side. -/
theorem Demand.extents_within {d : Demand} (hline : standalone = true → Q .line)
    (hopening : d.strip.opening = true → Q .all) (hclosing : d.strip.closing = true → Q .all)
    {ended started : Bool} {e : Extent}
    (he : e ∈ d.asks (d.standing standalone ended started)
      ∨ e ∈ d.carries (d.standing standalone ended started)) : Q e := by
  simp only [Demand.asks, Demand.carries, Demand.standing, List.mem_append, List.mem_ite_nil_right,
    List.mem_singleton, Bool.and_eq_true] at he
  rcases he with ((⟨h, rfl⟩ | ⟨h, rfl⟩) | ⟨h, rfl⟩) | ((⟨h, rfl⟩ | ⟨h, rfl⟩) | ⟨h, rfl⟩)
  · exact hopening h
  · exact hline h.1.1.1
  · exact hline h.1.1
  · exact hclosing h
  · exact hline h.1.1.1
  · exact hline h.1.1

/-- The trims of a block, given what its two outer tags may ask for. -/
theorem Branch.extents_within {b : Branch} {chained : Bool} {close : Item} (hb : b.Valid chained)
    (hline : standalone = true → Q .line) (hitem : b.item.strip ≠ .none → Q .all)
    (hclose : close.strip ≠ .none → Q .all) {ended started : Bool} {e : Extent}
    (he : e ∈ (b.demand close).asks ((b.demand close).standing standalone ended started)
      ∨ e ∈ (b.demand close).carries ((b.demand close).standing standalone ended started)) :
    Q e := by
  refine Demand.extents_within hline ?_ ?_ he
  · intro h
    have h : b.opening.strip.opening = true := h
    rw [hb.opens.strip_eq] at h
    exact hitem (Strip.ne_none_of_opening h)
  · intro h
    exact hclose (Strip.ne_none_of_closing h)

variable {items : List Item}

/-- What the first statement of a row asks. -/
theorem Outline.asks_within {rest : Outline} (hrest : rest.Valid) (hmem : rest.items ⊆ items)
    (hline : standalone = true → Q .line) (hall : ∀ item ∈ items, item.strip ≠ .none → Q .all)
    (atTop : Bool) (left : Left) : ∀ e ∈ rest.asks standalone atTop left, Q e := by
  intro e he
  match rest, hrest with
  | .nil, _ => cases he
  | .bare item s rest, _ =>
    have hitem := hall item (hmem (List.mem_cons_self ..))
    exact Demand.extents_within hline (fun h => hitem (Strip.ne_none_of_opening h))
      (fun h => hitem (Strip.ne_none_of_closing h)) (Or.inl he)
  | .block b close rest, ⟨hb, _, _⟩ =>
    simp only [Outline.items] at hmem
    have hitem : b.item ∈ items := hmem (by simp [b.item_mem_items])
    have hclose : close ∈ items := hmem (by simp)
    exact Branch.extents_within hb hline (hall _ hitem) (hall _ hclose) (Or.inl he)

/-- The cuts of the sections of a block, given what its tags may ask for. -/
theorem BlockStrip.cutsWithin (strip : BlockStrip) (hline : standalone = true → Q .line)
    (hopening : strip.opening ≠ .none → Q .all) (hinverse : strip.inverse ≠ .none → Q .all)
    (hclosing : strip.closing ≠ .none → Q .all) (main other : List Statement) :
    CutsWithin Q strip.aroundOne ∧ CutsWithin Q (strip.aroundMain (elseAlone standalone main other))
      ∧ CutsWithin Q (strip.aroundInverse (elseAlone standalone main other)) := by
  -- a line is cut only for an else alone on it, and all blanks only at a mark
  have halone (side : Extent → Cut) (hside : (side .line).extent = .line) :
      CutsWithin Q (cutIf (elseAlone standalone main other) (side .line)) := by
    apply cutsWithin_cutIf
    intro h
    simp only [elseAlone, Bool.and_eq_true] at h
    rw [hside]
    exact hline h.1.1
  have hstart {strip : Strip} (h : strip ≠ .none → Q .all) :
      CutsWithin Q (cutIf strip.closing (.start .all)) :=
    cutsWithin_cutIf fun hmark => h (Strip.ne_none_of_closing hmark)
  have hstop {strip : Strip} (h : strip ≠ .none → Q .all) :
      CutsWithin Q (cutIf strip.opening (.stop .all)) :=
    cutsWithin_cutIf fun hmark => h (Strip.ne_none_of_opening hmark)
  refine ⟨?_, ?_, ?_⟩
  · exact (hstart hopening).append (hstop hclosing)
  · exact ((hstart hopening).append (hstop hinverse)).append (halone .stop rfl)
  · exact ((hstart hinverse).append (hstop hclosing)).append (halone .start rfl)

/-- The cuts that a demand leads to are within bounds if the extents are, on whichever side. -/
theorem cutsWithin_map {extents : List Extent} (side : Extent → Cut)
    (hside : ∀ e, (side e).extent = e) (h : ∀ e ∈ extents, Q e) :
    CutsWithin Q (extents.map side) := by
  intro cut hcut
  obtain ⟨e, he, rfl⟩ := List.mem_map.1 hcut
  exact (hside e).symm ▸ h e he

/-- A row that is cut within bounds from outside. -/
structure RowContext.CutWithin (Q : Extent → Prop) (items : List Item) (x : RowContext)
    (o : Outline) : Prop where
  holds : x.Holds items o
  carried : CutsWithin Q x.carried
  cuts : CutsWithin Q x.cuts

/-- A block whose sections are cut within bounds from outside of it. -/
structure BlockContext.CutWithin (Q : Extent → Prop) (items : List Item) (x : BlockContext)
    (b : Branch) : Prop where
  holds : x.Holds items b
  lead : CutsWithin Q x.lead
  trail : CutsWithin Q x.trail

section Steps

variable (hline : standalone = true → Q .line)

include hline

/-- A line is granted to the section behind the opening tag, and to the one before the closing. -/
theorem RowContext.CutWithin.atBlock {x : RowContext} {b : Branch} {close : Item} {rest : Outline}
    (h : x.CutWithin Q items (.block b close rest)) :
    (x.atBlock standalone b close rest).CutWithin Q items b := by
  have hblock := ((holds_descent standalone items).block h.holds).1
  refine ⟨hblock, cutsWithin_cutIf fun hopen => ?_, cutsWithin_cutIf fun hclose => ?_⟩
  · simp only [RowContext.standing, Demand.standing, Bool.and_eq_true] at hopen
    exact hline hopen.1.1
  · simp only [RowContext.standing, Demand.standing, Bool.and_eq_true] at hclose
    exact hline hclose.1.1

variable (hall : ∀ item ∈ items, item.strip ≠ .none → Q .all)

include hall

/-- The spots of an item that is a statement, and what is behind it. -/
theorem RowContext.CutWithin.bare {x : RowContext} {item : Item} {s : Statement} {rest : Outline}
    (h : x.CutWithin Q items (.bare item s rest)) :
    (∀ spot ∈ x.bareSpots standalone item s rest, CutsWithin Q spot.cuts)
      ∧ (x.afterBare standalone item s rest).CutWithin Q items rest := by
  obtain ⟨hx, hcarried, hcuts⟩ := h
  have hnext := ((holds_descent standalone items).bare hx).2
  have hitem : item.strip ≠ .none → Q .all := hall item (by simp [← hx.1, Outline.items])
  have hmem : rest.items ⊆ items := by
    intro item hitem
    simp [← hx.1, Outline.items, hitem]
  refine ⟨?spots, hnext, ?carries, hcuts.filter _⟩
  case spots =>
    intro spot hspot
    obtain ⟨leaf, -, rfl⟩ := List.mem_map.1 hspot
    have hasks := cutsWithin_map .stop (fun _ => rfl)
      (Outline.asks_within hx.2.2 hmem hline hall x.atTop (x.left.next x.carried s))
    refine (hcarried.append hasks).append ?_
    split
    · exact hcuts
    · exact hcuts.filter _
  case carries =>
    exact cutsWithin_map _ (fun _ => rfl) fun e he =>
      Demand.extents_within hline (fun h => hitem (Strip.ne_none_of_opening h))
        (fun h => hitem (Strip.ne_none_of_closing h)) (Or.inr he)

/-- What is behind a block. -/
theorem RowContext.CutWithin.afterBlock {x : RowContext} {b : Branch} {close : Item}
    {rest : Outline} (h : x.CutWithin Q items (.block b close rest)) :
    (x.afterBlock standalone b close rest).CutWithin Q items rest := by
  obtain ⟨hx, -, hcuts⟩ := h
  have hnext := ((holds_descent standalone items).block hx).2
  have hitem : b.item.strip ≠ .none → Q .all :=
    hall _ (by simp [← hx.1, Outline.items, b.item_mem_items])
  have hclose : close.strip ≠ .none → Q .all := hall _ (by simp [← hx.1, Outline.items])
  exact ⟨hnext, cutsWithin_map _ (fun _ => rfl) fun e he =>
    Branch.extents_within hx.2.1 hline hitem hclose (Or.inr he), hcuts.filter _⟩

/-- The only section of a block. -/
theorem BlockContext.CutWithin.only {x : BlockContext} {item : Item} {o : Opening} {body : Outline}
    (h : x.CutWithin Q items (.plain item o body)) : (x.only item o).CutWithin Q items body := by
  obtain ⟨hx, hlead, htrail⟩ := h
  have hbody := (holds_descent standalone items).plain hx
  obtain ⟨hitems, ⟨after, hafter⟩, chained, hb⟩ := hx
  have hopen : o.strip ≠ .none → Q .all :=
    hb.1.strip_eq ▸ hall item (by simp [← hitems, Branch.items])
  obtain ⟨hone, -, -⟩ := (x.strip o .none).cutsWithin hline hopen (fun h => (h rfl).elim)
    (hall x.close (by simp [← hitems, hafter])) [] []
  exact ⟨hbody, cutsWithin_nil, (hone.append hlead).append htrail⟩

/-- The cuts of the two sections of a block with an else tag, the tags of which are in the file. -/
theorem BlockContext.CutWithin.around {x : BlockContext} {b : Branch} {item : Item} {o : Opening}
    (h : x.CutWithin Q items b) (hopens : o.strip = item.strip) (hitem : item ∈ b.items)
    (divider : Item) (hdivider : divider ∈ b.items) (main other : List Statement) :
    CutsWithin Q
        ((x.strip o divider.strip).aroundMain (elseAlone standalone main other) ++ x.lead)
      ∧ CutsWithin Q
        ((x.strip o divider.strip).aroundInverse (elseAlone standalone main other) ++ x.trail)
      ∧ CutsWithin Q
        ((x.strip o divider.strip).aroundInverse (elseAlone standalone main other)) := by
  obtain ⟨⟨hitems, ⟨after, hafter⟩, -⟩, hlead, htrail⟩ := h
  have hmem : ∀ item ∈ b.items, item ∈ items := by
    intro item hitem
    simp [← hitems, hitem]
  have hopen : o.strip ≠ .none → Q .all := hopens ▸ hall item (hmem item hitem)
  obtain ⟨-, hmain, hinverse⟩ := (x.strip o divider.strip).cutsWithin hline hopen
    (hall divider (hmem divider hdivider)) (hall x.close (by simp [← hitems, hafter])) main other
  exact ⟨hmain.append hlead, hinverse.append htrail, hinverse⟩

/-- The sections on both sides of an else tag without a call. -/
theorem BlockContext.CutWithin.withElse {x : BlockContext} {item mark : Item} {o : Opening}
    {body inverse : Outline} (h : x.CutWithin Q items (.withElse item o body mark inverse)) :
    (x.first standalone item o body mark.strip (mark :: (inverse.items ++ x.post))
        inverse.statements).CutWithin Q items body
      ∧ (x.second standalone item o body mark inverse).CutWithin Q items inverse := by
  obtain ⟨hfirst, hsecond⟩ := (holds_descent standalone items).withElse h.holds
  obtain ⟨-, -, chained, hb⟩ := h.holds
  have haround := h.around hline hall hb.1.strip_eq (by simp [Branch.items]) mark
    (by simp [Branch.items])
  refine ⟨⟨hfirst, cutsWithin_nil, ?_⟩, hsecond, cutsWithin_nil, ?_⟩
  · rw [BlockContext.first, RowContext.inside]
    split
    · exact (haround _ _).2.1
    · exact (haround _ _).1
  · rw [BlockContext.second, RowContext.inside]
    split
    · exact (haround _ _).1
    · exact (haround _ _).2.1

/-- The section before an else tag with a call, and the block that the tag opens. -/
theorem BlockContext.CutWithin.chain {x : BlockContext} {item : Item} {o : Opening} {body : Outline}
    {next : Branch} (h : x.CutWithin Q items (.chain item o body next)) :
    (x.first standalone item o body next.item.strip (next.items ++ x.post)
        (next.beyond o x.close)).CutWithin Q items body
      ∧ (x.chained standalone item o body next).CutWithin Q items next := by
  obtain ⟨hfirst, hnext⟩ := (holds_descent standalone items).chain h.holds
  obtain ⟨-, -, chained, hb⟩ := h.holds
  have haround := h.around hline hall hb.1.strip_eq (by simp [Branch.items]) next.item
    (by simp [Branch.items, next.item_mem_items])
  refine ⟨⟨hfirst, cutsWithin_nil, ?_⟩, hnext, ?_, cutsWithin_nil⟩
  · rw [BlockContext.first, RowContext.inside]
    split
    · exact (haround _ _).2.1
    · exact (haround _ _).1
  · rw [BlockContext.chained]
    split
    · exact cutsWithin_nil
    · exact (haround _ _).2.2

/-- **Which cuts occur.**  Cuts of all blanks occur only if some tag has a tilde, those of one
    line's worth only if the standalone rule is on. -/
theorem within_descent :
    Descent standalone (fun spot => CutsWithin Q spot.cuts) (RowContext.CutWithin Q items)
      (BlockContext.CutWithin Q items) where
  bare := RowContext.CutWithin.bare hline hall
  block h := ⟨h.atBlock hline, h.afterBlock hline hall⟩
  plain := BlockContext.CutWithin.only hline hall
  withElse := BlockContext.CutWithin.withElse hline hall
  chain := BlockContext.CutWithin.chain hline hall

end Steps

/-- The cuts of a whole file. -/
theorem Outline.spots_within {o : Outline} (h : o.Valid) (hline : standalone = true → Q .line)
    (hall : ∀ item ∈ o.items, item.strip ≠ .none → Q .all) :
    ∀ spot ∈ o.spots standalone .top, CutsWithin Q spot.cuts :=
  (within_descent hline hall).row ⟨⟨by simp [RowContext.top], h⟩, cutsWithin_nil, cutsWithin_nil⟩

end Within

end Stache
