/-
  What the pass finds next to a tag, and what stands there in the file.

  The standalone rule never looks at the file.  On either side of a tag it asks the statement next
  to it in the tree, which may be a content that has lost something already.  In files whose only
  blanks are spaces, tabs and line feeds, and whose tags have no tildes, the answer is right,
  wherever a row of statements stands next to the tag:

    * after a tag, by the first statement of the row and what follows the row
      (`Outline.rowStartsLine_eq`);
    * before a tag, by the last statement of the row (`Outline.rowEndsLine_eq`), or by what the row
      so far leaves for the next tag to see (`RowContext.InFile.atLineStart_eq`).

  `RowContext.InFile` is the invariant: what the context of a row says of the statements before the
  row is true of the items before it.  It passes from each row and each block to what is inside it
  and after it.
-/
import Stache.Proofs.Items.Edges
import Stache.Proofs.Text.Lines
import Stache.Proofs.Whitespace.Descent
import Stache.Proofs.Whitespace.Settling

namespace Stache

/-! ## Where tags stand -/

/-- The items end with a tag or a comment. -/
def EndsWithTag (items : List Item) : Prop :=
  ∃ before tag, items = before ++ [tag] ∧ tag.scanned = none

/-- The items begin with a tag or a comment. -/
def BeginsWithTag (items : List Item) : Prop :=
  ∃ tag after, items = tag :: after ∧ tag.scanned = none

theorem Item.Forms.written?_eq {item : Item} {s : Statement} (h : item.Forms s) :
    s.written? = item.scanned.map (·.written) := by
  cases h with
  | content h => rw [Item.scanned, h]; rfl
  | comment h => rw [Item.scanned, h]; rfl
  | mustache h | partialCall h | decorator h => rw [Item.scanned, h]; rfl

theorem Item.Forms.eq_content {item : Item} {s : Statement} (h : item.Forms s) {c : Content}
    (hc : item.scanned = some c) : s = .content c := by
  cases h with
  | content h => rw [Item.scanned, h] at hc; cases hc; rfl
  | comment h => rw [Item.scanned, h] at hc; cases hc
  | mustache h | partialCall h | decorator h => rw [Item.scanned, h] at hc; cases hc

theorem Item.Opens.scanned_eq_none {item : Item} {chained : Bool} {o : Opening}
    (h : item.Opens chained o) : item.scanned = none := by
  obtain ⟨tag, hshape, -⟩ := h
  rw [Item.scanned, hshape]

theorem Item.Closes.scanned_eq_none {item : Item} {name : String} (h : item.Closes name) :
    item.scanned = none := by
  obtain ⟨tag, e, hshape, -⟩ := h
  rw [Item.scanned, hshape]

theorem Item.IsElse.scanned_eq_none {item : Item} (h : item.IsElse) : item.scanned = none := by
  obtain ⟨tag, hshape, -⟩ := h
  rw [Item.scanned, hshape]

/-! ## The two ends of a row -/

theorem Branch.written?_statement (b : Branch) (close : Item) :
    (b.statement close).written? = none :=
  Statement.not_isContent_iff.1 (b.statement_not_isContent close)

theorem Outline.items_eq_nil_iff {o : Outline} : o.items = [] ↔ o.statements = [] := by
  cases o with
  | nil => simp [items, statements]
  | bare item s rest => simp [items, statements]
  | block b close rest => simp [items, statements]

/-- The first statement of a row and its first item. -/
theorem Outline.exists_first {o : Outline} (ho : o.Valid) (hne : o.statements ≠ []) :
    ∃ s rest first more, o.statements = s :: rest ∧ o.items = first :: more
      ∧ s.written? = first.scanned.map (·.written)
      ∧ (first.scanned ≠ none → (more = [] ↔ rest = [])) := by
  match o, ho with
  | .nil, _ => exact (hne rfl).elim
  | .bare item s rest, ⟨hform, _⟩ =>
    exact ⟨s, rest.statements, item, rest.items, rfl, rfl, hform.written?_eq,
      fun _ => Outline.items_eq_nil_iff⟩
  | .block b close rest, ⟨hb, _, _⟩ =>
    have hnone := hb.opens.scanned_eq_none
    obtain ⟨more, hmore⟩ := List.head?_eq_some_iff.1 b.head?_items
    refine ⟨b.statement close, rest.statements, b.item, more ++ close :: rest.items, rfl, ?_, ?_,
      fun h => (h hnone).elim⟩
    · rw [Outline.items, hmore, List.cons_append]
    · rw [hnone, Branch.written?_statement]
      rfl

/-- The last statement of a row and its last item. -/
theorem Outline.exists_last {o : Outline} (ho : o.Valid) (hne : o.statements ≠ []) :
    ∃ init s before last, o.statements = init ++ [s] ∧ o.items = before ++ [last]
      ∧ s.written? = last.scanned.map (·.written) := by
  -- the last statement is what the last item wrote, or a block that it closed
  match o, ho with
  | .nil, _ => exact (hne rfl).elim
  | .bare item s rest, ⟨hform, hrest⟩ =>
    by_cases hmore : rest.statements = []
    · refine ⟨[], s, [], item, ?_, ?_, hform.written?_eq⟩
      · rw [Outline.statements, hmore, List.nil_append]
      · rw [Outline.items, Outline.items_eq_nil_iff.2 hmore, List.nil_append]
    · obtain ⟨init, s', before, last, hs, hitems, hwritten⟩ := Outline.exists_last hrest hmore
      exact ⟨s :: init, s', item :: before, last, by rw [Outline.statements, hs, List.cons_append],
        by rw [Outline.items, hitems, List.cons_append], hwritten⟩
  | .block b close rest, ⟨_, hclose, hrest⟩ =>
    by_cases hmore : rest.statements = []
    · refine ⟨[], b.statement close, b.items, close, ?_, ?_, ?_⟩
      · rw [Outline.statements, hmore, List.nil_append]
      · rw [Outline.items, Outline.items_eq_nil_iff.2 hmore]
      · rw [hclose.scanned_eq_none, Branch.written?_statement]
        rfl
    · obtain ⟨init, s', before, last, hs, hitems, hwritten⟩ := Outline.exists_last hrest hmore
      exact ⟨b.statement close :: init, s', b.items ++ close :: before, last,
        by rw [Outline.statements, hs, List.cons_append],
        by rw [Outline.items, hitems, List.append_assoc, List.cons_append], hwritten⟩

/-! ## What the standalone rule sees, and what stands in the file -/

section File

variable {p : Position} {text : List Char} {items : List Item} (hscan : Item.Scan p text items)
  (hplain : Text.PlainBlanks text)

include hscan

/-- Where the items end with a tag, the text ends with a brace. -/
theorem EndsWithTag.textOf_eq {pre post : List Item} (h : EndsWithTag pre)
    (hitems : pre ++ post = items) :
    ∃ u c, textOf pre = u ++ [c] ∧ Text.isBlank c = false := by
  obtain ⟨before, tag, rfl, htag⟩ := h
  have hmem : tag ∈ items := by simp [← hitems]
  obtain ⟨u, hu⟩ := List.getLast?_eq_some_iff.1 (hscan.braces hmem htag).2
  refine ⟨textOf before ++ u, '}', ?_, by decide⟩
  rw [textOf_append, textOf_cons, hu, textOf_nil, List.append_nil, List.append_assoc]

/-- A tag begins with a character that is not blank, -/
theorem BeginsWithTag.textOf_eq {pre post : List Item} (h : BeginsWithTag post)
    (hitems : pre ++ post = items) :
    ∃ c u, textOf post = c :: u ∧ Text.isBlank c = false := by
  obtain ⟨tag, after, rfl, htag⟩ := h
  have hmem : tag ∈ items := by simp [← hitems]
  obtain ⟨u, hu⟩ := List.head?_eq_some_iff.1 (hscan.braces hmem htag).1
  refine ⟨'{', u ++ textOf after, ?_, by decide⟩
  rw [textOf_cons, hu, List.cons_append]

/-- so no line is blank behind a tag, -/
theorem EndsWithTag.blankBefore {pre post : List Item} (h : EndsWithTag pre)
    (hitems : pre ++ post = items) : Text.blankBefore (textOf pre) = false := by
  obtain ⟨u, c, hu, hc⟩ := h.textOf_eq hscan hitems
  rw [hu]
  exact Text.blankBefore_of_not_isBlank hc u

/-- or in front of one. -/
theorem BeginsWithTag.blankAfter {pre post : List Item} (h : BeginsWithTag post)
    (hitems : pre ++ post = items) : Text.blankAfter (textOf post) = false := by
  obtain ⟨c, u, hu, hc⟩ := h.textOf_eq hscan hitems
  rw [hu]
  exact Text.blankAfter_of_not_isBlank hc u

/-- Before a content stands a tag, or nothing. -/
theorem endsWithTag_of_content {pre post : List Item} {item : Item} {c : Content}
    (hitems : pre ++ item :: post = items) (hc : item.scanned = some c) (hpre : pre ≠ []) :
    EndsWithTag pre := by
  obtain ⟨before, last, rfl⟩ : ∃ before last, pre = before ++ [last] :=
    ⟨pre.dropLast, pre.getLast hpre, (List.dropLast_append_getLast hpre).symm⟩
  refine ⟨before, last, rfl, ?_⟩
  have hitems' : items = before ++ last :: item :: post := by
    rw [← hitems, List.append_assoc]
    rfl
  rcases hscan.content_isolated hitems' with hlast | hitem
  · exact hlast
  · rw [hitem] at hc
    cases hc

include hplain

theorem plainBlanks_lexeme {item : Item} (hitem : item ∈ items) :
    Text.PlainBlanks item.lexeme.toList :=
  hplain.subset fun _ hc => hscan.mem_text hitem hc

/-- After a tag, a row begins with the end of a line in the tree when it does so in the file. -/
theorem Outline.rowStartsLine_eq {o : Outline} (ho : o.Valid) {pre post : List Item}
    (hitems : pre ++ (o.items ++ post) = items) {atTop : Bool} (htop : atTop = true → post = [])
    (htag : atTop = false → BeginsWithTag post) :
    rowStartsLine atTop o.statements = Text.blankAfter (textOf (o.items ++ post)) := by
  by_cases hne : o.statements = []
  · have hnone : o.items = [] := Outline.items_eq_nil_iff.2 hne
    rw [hne]
    cases atTop with
    | true => rw [hnone, htop rfl]; rfl
    | false =>
      have hbegins : BeginsWithTag (o.items ++ post) := by
        rw [hnone]
        exact htag rfl
      exact (hbegins.blankAfter hscan hitems).symm
  · obtain ⟨s, rest, first, more, hs, hfirst, hwritten, hmore⟩ := Outline.exists_first ho hne
    rw [hs, rowStartsLine_cons, hwritten]
    -- a tag is not blank, and content is read up to the next tag
    match hscanned : first.scanned with
    | none =>
      have hbegins : BeginsWithTag (o.items ++ post) :=
        ⟨first, more ++ post, by rw [hfirst, List.cons_append], hscanned⟩
      exact (hbegins.blankAfter hscan hitems).symm
    | some c =>
      have hmore := hmore (by rw [hscanned]; exact Option.some_ne_none c)
      have hmem : first ∈ items := by simp [← hitems, hfirst]
      rw [hfirst, List.cons_append, textOf_cons]
      show Text.startsLine _ c.written.toList = _
      rw [Item.written_eq_of_scanned hscanned]
      refine (Text.blankAfter_append (plainBlanks_lexeme hscan hplain hmem) ?_ ?_).symm
      · intro hend
        rw [Bool.and_eq_true, List.isEmpty_iff] at hend
        rw [hmore.2 hend.2, htop hend.1]
        rfl
      · intro hend
        have hbegin : BeginsWithTag (more ++ post) := by
          match more, hmore with
          | [], hmore =>
            rw [hmore.1 rfl, List.isEmpty_nil, Bool.and_true] at hend
            exact htag hend
          | next :: more, _ =>
            refine ⟨next, more ++ post, rfl, ?_⟩
            have hitems' : items = pre ++ first :: next :: (more ++ post) := by
              rw [← hitems, hfirst]
              simp
            exact (hscan.content_isolated hitems').resolve_left (by rw [hscanned]; simp)
        have hitems' : (pre ++ [first]) ++ (more ++ post) = items := by
          rw [← hitems, hfirst]
          simp
        exact hbegin.textOf_eq hscan hitems'

/-- Before a tag, a row ends with the end of a line in the tree when it does so in the file. -/
theorem Outline.rowEndsLine_eq {o : Outline} (ho : o.Valid) {pre post : List Item}
    (hitems : pre ++ o.items ++ post = items) (hpre : EndsWithTag pre) :
    rowEndsLine false o.statements.reverse = Text.blankBefore (textOf (pre ++ o.items)) := by
  by_cases hne : o.statements = []
  · rw [hne, Outline.items_eq_nil_iff.2 hne, List.append_nil]
    rw [Outline.items_eq_nil_iff.2 hne, List.append_nil] at hitems
    exact (hpre.blankBefore hscan hitems).symm
  · obtain ⟨init, s, before, last, hs, hlast, hwritten⟩ := Outline.exists_last ho hne
    rw [hs, List.reverse_append, List.reverse_singleton, List.singleton_append, rowEndsLine_cons,
      hwritten, hlast]
    rw [hlast] at hitems
    -- a tag is not blank, and content is read back to the tag before it
    match hscanned : last.scanned with
    | none =>
      have hends : EndsWithTag (pre ++ (before ++ [last])) :=
        ⟨pre ++ before, last, by rw [List.append_assoc], hscanned⟩
      exact (hends.blankBefore hscan hitems).symm
    | some c =>
      have hmem : last ∈ items := by simp [← hitems]
      have hne : pre ++ before ≠ [] := by
        obtain ⟨u, tag, rfl, -⟩ := hpre
        simp
      have hitems' : (pre ++ before) ++ last :: post = items := by
        rw [← hitems]
        simp
      have hend := endsWithTag_of_content hscan hitems' hscanned hne
      rw [← List.append_assoc, textOf_append, textOf_cons, textOf_nil, List.append_nil]
      show Text.endsLine false c.written.toList = _
      rw [Item.written_eq_of_scanned hscanned]
      exact (Text.blankBefore_append (plainBlanks_lexeme hscan hplain hmem) (fun h => by cases h)
        fun _ => hend.textOf_eq hscan hitems').symm

/-! ## Rows in the file -/

omit hscan hplain

/-- What a tag sees of the statements before it is what stands before it in the file.  A content
    there has been cut at its start at most, and not even that where it begins the row. -/
def RowContext.LeftInFile (x : RowContext) : Prop :=
  match x.left with
  | .edge => (x.atTop = true → x.pre = []) ∧ (x.atTop = false → EndsWithTag x.pre)
  | .content c first => ∃ before item scanned w, x.pre = before ++ [item]
      ∧ item.scanned = some scanned ∧ c = scanned.cutAll (cutIf w (.start .line))
      ∧ (first = true → w = false) ∧ ((x.atTop && first) = true → before = [])
      ∧ ((x.atTop && first) = false → EndsWithTag before)
  | .other => EndsWithTag x.pre

/-- A row, and what its context says of the file around it. -/
structure RowContext.InFile (items : List Item) (x : RowContext) (o : Outline) : Prop where
  holds : x.Holds items o
  post_top : x.atTop = true → x.post = []
  post_tag : x.atTop = false → BeginsWithTag x.post
  left : x.LeftInFile
  carried : ∃ w, x.carried = cutIf w (.start .line) ∧ (x.left = .edge → w = false)

/-- What is in front of the row, the row, and what is behind it make up the file. -/
theorem RowContext.InFile.items_eq {items : List Item} {x : RowContext} {o : Outline}
    (h : x.InFile items o) : x.pre ++ (o.items ++ x.post) = items := by
  rw [← List.append_assoc]
  exact h.holds.1

/-- A block, and what its context says of the file around it. -/
def BlockContext.InFile (items : List Item) (x : BlockContext) (b : Branch) : Prop :=
  x.Holds items b ∧ x.close.scanned = none

theorem BlockContext.InFile.begins {x : BlockContext} {b : Branch} (h : x.InFile items b) :
    BeginsWithTag x.post := by
  obtain ⟨⟨-, ⟨after, hafter⟩, -⟩, hclose⟩ := h
  exact ⟨x.close, after, hafter, hclose⟩

/-- The whole file. -/
theorem RowContext.InFile.top {o : Outline} (ho : o.Valid) (hitems : o.items = items) :
    RowContext.top.InFile items o :=
  ⟨⟨by simp [RowContext.top, hitems], ho⟩, fun _ => rfl, fun h => (by cases h),
    ⟨fun _ => rfl, fun h => (by cases h)⟩, ⟨false, rfl, fun _ => rfl⟩⟩

/-- A section of a block, between two tags. -/
theorem RowContext.InFile.inside {pre post : List Item} {cuts : List Cut} {o : Outline}
    (hx : (RowContext.inside pre post cuts).Holds items o) (hpre : EndsWithTag pre)
    (hpost : BeginsWithTag post) : (RowContext.inside pre post cuts).InFile items o :=
  ⟨hx, fun h => (by cases h), fun _ => hpost, ⟨fun h => (by cases h), fun _ => hpre⟩,
    ⟨false, rfl, fun _ => rfl⟩⟩

theorem Demand.carries_of_ownLine {d : Demand} (hmark : d.strip.closing = false) {w : Standing}
    (hclose : w.closeLine = false) : (d.carries w).map Cut.start = cutIf w.ownLine (.start .line) := by
  simp only [Demand.carries, hmark, hclose, Bool.false_eq_true, if_false, List.nil_append,
    List.append_nil]
  cases w.ownLine <;> rfl

theorem Demand.carries_of_closeLine {d : Demand} (hmark : d.strip.closing = false) {w : Standing}
    (hown : w.ownLine = false) : (d.carries w).map Cut.start = cutIf w.closeLine (.start .line) := by
  simp only [Demand.carries, hmark, hown, Bool.false_eq_true, if_false, List.nil_append]
  cases w.closeLine <;> rfl

theorem Left.next_ne_edge (left : Left) (carried : List Cut) (s : Statement) :
    left.next carried s ≠ .edge := by
  cases s <;> simp [Left.next]

/-- What stands before the row that follows an item. -/
theorem RowContext.InFile.afterBare (hscan : Item.Scan p text items)
    (hmarks : ∀ item ∈ items, item.strip = .none) {x : RowContext} {item : Item} {s : Statement}
    {rest : Outline} (h : x.InFile items (.bare item s rest)) :
    (x.afterBare true item s rest).InFile items rest := by
  obtain ⟨hx, hpostTop, hpostTag, hleft, w, hcarried, hedge⟩ := h
  have hnext := ((holds_descent true items).bare hx).2
  have hitems : x.pre ++ item :: (rest.items ++ x.post) = items := by
    rw [← hx.1]
    simp [Outline.items]
  have hmark : item.demand.strip.closing = false := by
    rw [show item.demand.strip = .none from hmarks item (by simp [← hitems])]
    rfl
  have hclose : (x.standing true item.demand rest).closeLine = false := by
    simp [RowContext.standing, Demand.standing, Item.demand]
  refine ⟨hnext, hpostTop, hpostTag, ?_, _, Demand.carries_of_ownLine hmark hclose, ?_⟩
  -- to the left of the rest stands a tag, or the content that was read
  · cases hscanned : item.scanned with
    | none =>
      have hs : ¬ s.IsContent := by
        rw [Statement.not_isContent_iff, hx.2.1.written?_eq, hscanned]
        rfl
      rw [RowContext.LeftInFile]
      simp only [RowContext.afterBare, Left.next_of_not_content hs]
      exact ⟨x.pre, item, rfl, hscanned⟩
    | some c =>
      obtain rfl : s = .content c := hx.2.1.eq_content hscanned
      have hfirst : x.left.isEdge = true → x.left = .edge := by
        cases x.left <;> simp [Left.isEdge]
      refine ⟨x.pre, item, c, w, rfl, hscanned, by rw [hcarried], fun h => hedge (hfirst h), ?_, ?_⟩
      · intro h
        obtain ⟨htop, h⟩ := Bool.and_eq_true_iff.1 h
        rw [RowContext.LeftInFile, hfirst h] at hleft
        exact hleft.1 htop
      · intro h
        cases hedge' : x.left with
        | edge =>
          rw [RowContext.LeftInFile, hedge'] at hleft
          rw [hedge', Left.isEdge, Bool.and_true] at h
          exact hleft.2 h
        | content c' first =>
          rw [RowContext.LeftInFile, hedge'] at hleft
          obtain ⟨before, item', _, _, hpre, -⟩ := hleft
          exact endsWithTag_of_content hscan hitems hscanned (by rw [hpre]; simp)
        | other =>
          rw [RowContext.LeftInFile, hedge'] at hleft
          exact hleft
  · intro h
    exact (Left.next_ne_edge _ _ _ h).elim

/-- What stands before the row that follows a block. -/
theorem RowContext.InFile.afterBlock (hmarks : ∀ item ∈ items, item.strip = .none) {x : RowContext}
    {b : Branch} {close : Item} {rest : Outline} (h : x.InFile items (.block b close rest)) :
    (x.afterBlock true b close rest).InFile items rest := by
  obtain ⟨hx, hpostTop, hpostTag, hleft, w, hcarried, hedge⟩ := h
  have hnext := ((holds_descent true items).block hx).2
  have hmark : (b.demand close).strip.closing = false := by
    show close.strip.closing = false
    rw [hmarks close (by simp [← hx.1, Outline.items])]
    rfl
  have hown : (x.standing true (b.demand close) rest).ownLine = false := by
    simp [RowContext.standing, Demand.standing, Branch.demand, Demand.ofBlock]
  refine ⟨hnext, hpostTop, hpostTag, ?_, _, Demand.carries_of_closeLine hmark hown, ?_⟩
  · exact ⟨x.pre ++ b.items, close, rfl, hx.2.2.1.scanned_eq_none⟩
  · intro h
    cases h

/-- The block itself. -/
theorem RowContext.InFile.atBlock {x : RowContext} {b : Branch} {close : Item} {rest : Outline}
    (h : x.InFile items (.block b close rest)) :
    (x.atBlock true b close rest).InFile items b :=
  ⟨((holds_descent true items).block h.holds).1, h.holds.2.2.1.scanned_eq_none⟩

/-- The only section of a block. -/
theorem BlockContext.InFile.only {x : BlockContext} {item : Item} {o : Opening} {body : Outline}
    (h : x.InFile items (.plain item o body)) : (x.only item o).InFile items body := by
  have hx := (holds_descent true items).plain h.1
  obtain ⟨-, -, chained, hb⟩ := h.1
  exact .inside hx ⟨x.pre, item, rfl, hb.1.scanned_eq_none⟩ h.begins

/-- The sections on both sides of an else tag without a call. -/
theorem BlockContext.InFile.withElse {x : BlockContext} {item mark : Item} {o : Opening}
    {body inverse : Outline} (h : x.InFile items (.withElse item o body mark inverse)) :
    (x.first true item o body mark.strip (mark :: (inverse.items ++ x.post))
        inverse.statements).InFile items body
      ∧ (x.second true item o body mark inverse).InFile items inverse := by
  obtain ⟨hfirst, hsecond⟩ := (holds_descent true items).withElse h.1
  obtain ⟨-, -, chained, hb⟩ := h.1
  have hmark := hb.2.2.2.1.scanned_eq_none
  exact ⟨.inside hfirst ⟨x.pre, item, rfl, hb.1.scanned_eq_none⟩ ⟨mark, _, rfl, hmark⟩,
    .inside hsecond ⟨_, mark, rfl, hmark⟩ h.begins⟩

/-- The section before an else tag with a call, and the block that the tag opens. -/
theorem BlockContext.InFile.chain {x : BlockContext} {item : Item} {o : Opening} {body : Outline}
    {next : Branch} (h : x.InFile items (.chain item o body next)) :
    (x.first true item o body next.item.strip (next.items ++ x.post)
        (next.beyond o x.close)).InFile items body
      ∧ (x.chained true item o body next).InFile items next := by
  obtain ⟨hfirst, hnext⟩ := (holds_descent true items).chain h.1
  obtain ⟨-, -, chained, hb⟩ := h.1
  obtain ⟨more, hmore⟩ := List.head?_eq_some_iff.1 next.head?_items
  refine ⟨.inside hfirst ⟨x.pre, item, rfl, hb.1.scanned_eq_none⟩ ?_, hnext, h.2⟩
  refine ⟨next.item, more ++ x.post, ?_, hb.2.2.2.opens.scanned_eq_none⟩
  rw [hmore, List.cons_append]

/-! ## Indentation -/

theorem Content.endTrimmed_trimStart (c : Content) (e : Extent) :
    (c.trimStart e).endTrimmed = c.endTrimmed := by
  simp only [Content.trimStart]
  split <;> rfl

/-- The indentation of a content that is written with one, and still ends with one. -/
theorem Content.indent_eq {c : Content} (hfresh : c.endTrimmed = false)
    (hlast : Text.indentEnd c.written.toList ≠ [] →
      ∃ d, c.value.toList.getLast? = some d ∧ Text.isIndent d = true) :
    c.indent.toList = Text.indentEnd c.written.toList := by
  rw [Content.indent]
  by_cases hindent : Text.indentEnd c.written.toList = []
  · rw [hindent]
    split <;> rfl
  · obtain ⟨d, hd, hdindent⟩ := hlast hindent
    have hcut : (c.trimEnd .line).endTrimmed = true := by
      rw [Content.trimEnd, if_neg (by simp [hfresh])]
      refine decide_eq_true fun hsame => ?_
      have hsame := congrArg String.toList hsame
      rw [String.toList_ofList] at hsame
      exact Text.dropIndentEnd_ne_self hd hdindent hsame
    rw [if_pos (by rw [hfresh, hcut]; rfl), String.toList_ofList]

include hscan hplain

/-- Before a tag, the row so far ends with the end of a line in the tree when it does so in the
    file. -/
theorem RowContext.InFile.atLineStart_eq {x : RowContext} {o : Outline} (h : x.InFile items o) :
    x.left.atLineStart x.atTop = Text.blankBefore (textOf x.pre) := by
  have hitems := h.items_eq
  have hleft := h.left
  rw [RowContext.LeftInFile] at hleft
  -- nothing, a tag, or content stands to the left
  match hl : x.left with
  | .edge =>
    rw [hl] at hleft
    rw [Left.atLineStart]
    match htop : x.atTop with
    | true =>
      rw [hleft.1 htop]
      rfl
    | false => exact ((hleft.2 htop).blankBefore hscan hitems).symm
  | .other =>
    rw [hl] at hleft
    exact (hleft.blankBefore hscan hitems).symm
  | .content c first =>
    rw [hl] at hleft
    obtain ⟨before, item, scanned, w, hpre, hscanned, rfl, -, htop, htag⟩ := hleft
    rw [hpre] at hitems ⊢
    have hmem : item ∈ items := by simp [← hitems]
    rw [Left.atLineStart, Content.cutAll_written, Item.written_eq_of_scanned hscanned, textOf_append,
      textOf_cons, textOf_nil, List.append_nil]
    refine (Text.blankBefore_append (plainBlanks_lexeme hscan hplain hmem) ?_ ?_).symm
    · intro h
      rw [htop h]
      rfl
    · intro h
      rw [List.append_assoc] at hitems
      exact (htag h).textOf_eq hscan hitems

/-- After a row of a file comes what the pass finds there. -/
theorem RowContext.InFile.rowStartsLine_eq {x : RowContext} {o : Outline} (h : x.InFile items o) :
    rowStartsLine x.atTop o.statements = Text.blankAfter (textOf (o.items ++ x.post)) := by
  have hitems := h.items_eq
  exact Outline.rowStartsLine_eq hscan hplain h.holds.2 hitems h.post_top h.post_tag

/-- A section of a block ends as it does in the file. -/
theorem RowContext.InFile.rowEndsLine_inside {pre post : List Item} {cuts : List Cut} {o : Outline}
    (h : (RowContext.inside pre post cuts).InFile items o) :
    rowEndsLine false o.statements.reverse = Text.blankBefore (textOf (pre ++ o.items)) :=
  Outline.rowEndsLine_eq hscan hplain h.holds.2 h.holds.1 (h.left.2 rfl)

omit hplain in
/-- The indentation that a partial remembers is the one before it in the file. -/
theorem RowContext.InFile.indent_eq {x : RowContext} {o : Outline} (h : x.InFile items o)
    (hend : x.left.atLineStart x.atTop = true) :
    (x.left.indent false).toList = Text.indentEnd (textOf x.pre) := by
  have hitems := h.items_eq
  have hleft := h.left
  rw [RowContext.LeftInFile] at hleft
  match hl : x.left with
  | .other =>
    rw [hl] at hend
    cases hend
  | .edge =>
    rw [hl] at hleft hend
    rw [hleft.1 hend]
    rfl
  | .content c first =>
    rw [hl] at hleft hend
    obtain ⟨before, item, scanned, w, hpre, hscanned, rfl, hfirst, htop, htag⟩ := hleft
    rw [hpre] at hitems ⊢
    have hmem : item ∈ items := by simp [← hitems]
    obtain ⟨hlast, hdrop, -⟩ := hscan.scanned_value hmem hscanned
    have hbefore : textOf before = [] ∨ ∃ u c, textOf before = u ++ [c] ∧ Text.isBlank c = false := by
      match hcase : (x.atTop && first) with
      | true => rw [htop hcase]; exact Or.inl rfl
      | false =>
        rw [List.append_assoc] at hitems
        exact Or.inr ((htag hcase).textOf_eq hscan hitems)
    obtain ⟨hstart, hfresh⟩ := Item.fresh_of_scanned hscanned
    have hwritten : (scanned.cutAll (cutIf w (.start .line))).written = item.lexeme := by
      rw [Content.cutAll_written, Item.written_eq_of_scanned hscanned]
    rw [textOf_append, textOf_cons, textOf_nil, List.append_nil, Text.indentEnd_append hbefore,
      ← hwritten]
    show (scanned.cutAll (cutIf w (.start .line))).indent.toList = _
    apply Content.indent_eq
    · cases w with
      | false => exact hfresh
      | true => exact (Content.endTrimmed_trimStart scanned .line).trans hfresh
    · rw [hwritten]
      intro hindent
      obtain ⟨d, hd, hdindent⟩ := Text.getLast?_of_indentEnd_ne_nil hindent
      refine ⟨d, ?_, hdindent⟩
      cases w with
      | false => exact hlast.trans hd
      | true =>
        -- A content that does not begin its row ends a line by a line feed of its own.
        have hnot : first = false := by
          cases first with
          | false => rfl
          | true => cases hfirst rfl
        have hfeed : '\n' ∈ scanned.value.toList := by
          apply hdrop '\n' (by decide)
          rw [Left.atLineStart, hwritten, hnot, Bool.and_false, Text.endsLine, Bool.false_and,
            Bool.or_false] at hend
          exact Text.mem_of_mem_takeEndWhile (List.contains_iff_mem.1 hend)
        have hcut : (scanned.cutAll (cutIf true (.start .line))).value.toList
            = Text.dropLineStart scanned.value.toList := by
          rw [Content.cutAll_line_value hstart hfresh (by simp [cutIf, Cut.extent])]
          rfl
        rw [hcut, Text.getLast?_dropLineStart
          (Text.dropLineStart_ne_nil hfeed (hlast.trans hd) hdindent)]
        exact hlast.trans hd

end File

end Stache
