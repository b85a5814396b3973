/-
  What the pass over a tree does, from the top down.

  The model settles a tree from the leaves up: a section is settled first, then cut by the tags of
  its block, and then once more from outside.  Here it is shown that all of it amounts to the cuts
  of the spots (`Outline.leaves_trimmed`).

  It is one induction over outlines, for rows and branches together (`Outline.settlesTo`,
  `Branch.settles`).  For a ROW, the statements before it are any list whatever, and the row is
  followed for all cuts of its two ends at once: they come from outside, when the row is settled
  already.  For a BLOCK, the cuts from outside are those of its first and its last section
  (`Statement.grant`), again all of them at once.
-/
import Stache.Proofs.Nesting.Reading
import Stache.Proofs.Whitespace.Spots

namespace Stache

/-! ## Rows -/

/-- A statement of its own is never cut inside. -/
theorem Item.Forms.map_leaves {item : Item} {s : Statement} (h : item.Forms s)
    (hs : ¬ s.IsContent) (ownLine : Bool) (indent : String) (spot : Leaf → Spot)
    (hspot : ∀ leaf, (spot leaf).found = leaf) :
    ((s.indented ownLine indent).leaves.map spot).map Spot.leaf
      = (s.indented ownLine indent).leaves := by
  cases h with
  | content h => exact (hs trivial).elim
  | partialCall h hkind hcall =>
    cases ownLine <;>
      simp [Statement.indented, Statement.withIndent, Statement.leaves, Spot.leaf, hspot, Leaf.cut]
  | comment h => cases ownLine <;> rfl
  | mustache h hkind hcall => cases ownLine <;> rfl
  | decorator h hkind hcall => cases ownLine <;> rfl

theorem Statement.not_isContent_iff {s : Statement} : ¬ s.IsContent ↔ s.written? = none := by
  cases s <;> simp [IsContent, written?]

/-- One step of the pass, over a statement that is not content. -/
theorem settleBody_of_not_content {standalone atTop : Bool} {before rest : List Statement}
    {carried : List Extent} {s s' : Statement} {d : Demand} (hs : ¬ s.IsContent)
    (hsettle : s.settle standalone = (s', d)) :
    let w := d.standing standalone (rowEndsLine atTop before) (rowStartsLine atTop rest)
    settleBody standalone atTop before carried (s :: rest)
      = settleBody standalone atTop
          ((s'.indented w.ownLine ((Left.of before).indent d.strip.opening)).grant
              (cutIf w.openLine (.start .line)) (cutIf w.closeLine (.stop .line))
            :: trimLatestAll (d.asks w) before)
          (d.carries w) rest := by
  intro w
  rw [settleBody]
  · simp only [hsettle, place_eq, Left.indent_of]
    rfl
  · intro c hc
    exact hs (hc ▸ trivial)

/-- What the pass makes of a row: it cuts the content before the row as the row asks, and appends
    the settled row. -/
def Outline.SettlesTo (o : Outline) (standalone atTop : Bool) (before : List Statement)
    (carried : List Extent) (body : List Statement) : Prop :=
  settleBody standalone atTop before carried o.statements
      = (trimLatestAll (o.asks standalone atTop (Left.of before)) before).reverse ++ body
    ∧ body.isEmpty = o.statements.isEmpty
    ∧ ∀ pre post cuts, bodyLeaves (cutBody cuts body)
        = (o.spots standalone ⟨atTop, pre, post, Left.of before, carried.map .start, cuts⟩).map
            Spot.leaf

/-- A row that begins with content. -/
theorem Outline.SettlesTo.content {standalone atTop : Bool} {before : List Statement}
    {carried : List Extent} {body : List Statement} {item : Item} {c : Content} {rest : Outline}
    (hform : item.Forms (.content c))
    (h : rest.SettlesTo standalone atTop (.content (c.cutAll (carried.map .start)) :: before) []
      body) :
    ∃ body', (Outline.bare item (.content c) rest).SettlesTo standalone atTop before carried
      body' := by
  obtain ⟨hbody, hempty, hleaves⟩ := h
  have hcarried : carried.foldl Content.trimStart c = c.cutAll (carried.map .start) := by
    rw [Content.cutAll, List.foldl_map]
    rfl
  have hdemand : item.demand = .ofStrip .none := by
    have := hform.settle_eq standalone
    rw [Statement.settle] at this
    exact (Prod.mk.inj this).2.symm
  -- content is no tag that could stand alone, and asks for nothing
  have hown (ownLine : Bool) (indent : String) :
      (Statement.content c).indented ownLine indent = .content c := by
    cases ownLine <;> rfl
  rw [Left.of_content] at hbody hleaves
  generalize hasks : rest.asks standalone atTop ((Left.of before).next (carried.map .start)
    (.content c)) = asks at hbody
  refine ⟨.content ((c.cutAll (carried.map .start)).cutAll (asks.map .stop)) :: body, ?_, rfl, ?_⟩
  · show settleBody standalone atTop before carried (.content c :: rest.statements) = _
    rw [settleBody, hcarried, hbody, trimLatestAll_content, Outline.asks, hdemand,
      Demand.asks_none]
    simp
  · intro pre post cuts
    rw [cutBody_content, Outline.spots, bodyLeaves, hleaves (pre ++ [item]) post, hempty,
      RowContext.bareSpots, RowContext.afterBare, hown, hdemand, RowContext.standing,
      Demand.carries_none, hasks]
    simp only [Statement.leaves, List.map_cons, List.map_nil, List.map_append, Spot.leaf, Leaf.cut,
      Content.cutAll_append]

/-- A statement that is not content, in front of a row. -/
theorem Outline.settleBody_cons {standalone atTop : Bool} {s s' : Statement} {d : Demand}
    {rest : Outline} (hs : ¬ s.IsContent) (hsettle : s.settle standalone = (s', d))
    (h : ∀ before carried, ∃ body, rest.SettlesTo standalone atTop before carried body)
    (before : List Statement) (carried : List Extent) :
    let w := d.standing standalone ((Left.of before).atLineStart atTop)
      (rowStartsLine atTop rest.statements)
    let placed := (s'.indented w.ownLine ((Left.of before).indent d.strip.opening)).grant
      (cutIf w.openLine (.start .line)) (cutIf w.closeLine (.stop .line))
    ∃ body,
      settleBody standalone atTop before carried (s :: rest.statements)
          = (trimLatestAll (d.asks w) before).reverse ++ (placed :: body)
      ∧ ∀ pre post cuts, bodyLeaves (cutBody cuts (placed :: body))
          = placed.leaves ++ (rest.spots standalone ⟨atTop, pre, post, .other,
              (d.carries w).map .start, cuts.filter Cut.isStop⟩).map Spot.leaf := by
  intro w placed
  -- a tag stays a tag, so what comes before is cut no further
  have hplaced : ¬ placed.IsContent := by
    rw [Statement.not_isContent_iff] at hs ⊢
    rw [written?_grant, written?_indented, ← hs, ← written?_settle standalone s, hsettle]
  obtain ⟨body, hbody, -, hleaves⟩ := h (placed :: trimLatestAll (d.asks w) before) (d.carries w)
  rw [Left.of_cons_of_not_content hplaced] at hbody hleaves
  refine ⟨body, ?_, ?_⟩
  · rw [settleBody_of_not_content hs hsettle, ← Left.atLineStart_of, hbody,
      trimLatestAll_of_not_content _ hplaced]
    simp
  · intro pre post cuts
    rw [cutBody_of_not_content _ hplaced, bodyLeaves, hleaves pre post]

/-- The leaves of a section, where the pass begins afresh. -/
theorem Outline.SettlesTo.section_leaves {o : Outline} {standalone atTop : Bool}
    (h : ∃ body, o.SettlesTo standalone atTop [] [] body) (pre post : List Item) (cuts : List Cut) :
    bodyLeaves (cutBody cuts (settleBody standalone atTop [] [] o.statements))
      = (o.spots standalone { RowContext.inside pre post cuts with atTop }).map Spot.leaf := by
  obtain ⟨body, hbody, -, hleaves⟩ := h
  rw [hbody, trimLatestAll_empty]
  exact hleaves pre post cuts

/-- What the pass makes of a block: the block has the demand that its outline says, and its sections
    are cut as the outline says. -/
structure Branch.Settles (b : Branch) (standalone : Bool) (close : Item) : Prop where
  demand_eq : ((b.statement close).settle standalone).2 = b.demand close
  leaves_eq : ∀ pre post lead trail,
    (((b.statement close).settle standalone).1.grant lead trail).leaves
      = (b.spots standalone ⟨pre, post, close, lead, trail⟩).map Spot.leaf
  /-- A block whose main section is in front keeps that section in front. -/
  eq_block : b.opening.kind = .block → ∃ inner inverse strip span,
    ((b.statement close).settle standalone).1 = .block b.opening.call (some inner) inverse strip span
      ∧ skeleton inner.body = skeleton b.body.statements

theorem Opening.wrap_not_isContent (o : Opening) (first : Program) (second : Option Program)
    (strip : BlockStrip) (stop : Position) : ¬ (o.wrap first second strip stop).IsContent := by
  cases hkind : o.kind <;> simp [wrap, hkind, Statement.IsContent]

theorem Branch.statement_not_isContent (b : Branch) (close : Item) :
    ¬ (b.statement close).IsContent := by
  cases b <;> apply Opening.wrap_not_isContent

/-- A block with one section, -/
theorem Branch.settles_plain {item close : Item} {o : Opening} {body : Outline} {standalone : Bool}
    (h : ∃ settled, body.SettlesTo standalone false [] [] settled) :
    (Branch.plain item o body).Settles standalone close := by
  refine ⟨?_, ?_, ?_⟩
  · rw [Branch.statement, Opening.settle_wrap_one]
    rfl
  · intro pre post lead trail
    -- whichever kind of block, its leaves are those of its body
    have hleaves (body : List Statement) (stop : Position) (strip : BlockStrip)
        (stop' : Position) :
        (o.wrap (o.firstSection body stop) none strip stop').leaves = bodyLeaves body := by
      cases hkind : o.kind <;>
        simp [Opening.wrap, hkind, Opening.firstSection, Statement.leaves, sectionLeaves,
          Program.leaves]
    rw [Branch.statement, Opening.settle_wrap_one, Opening.grant_wrap_one, hleaves,
      ← cutBody_append, Branch.spots, ← List.append_assoc]
    exact Outline.SettlesTo.section_leaves h _ _ _
  · intro hkind
    replace hkind : o.kind = .block := hkind
    rw [Branch.statement, Opening.settle_wrap_one]
    simp only [Opening.wrap, hkind]
    refine ⟨_, _, _, _, rfl, ?_⟩
    rw [Opening.firstSection, skeleton_cutBody, skeleton_section]
    rfl

/-- The leaves of a block with two sections, each cut from outside. -/
theorem Statement.leaves_grant_block (call : Call) (main other : List Statement)
    (params params' : List String) (chained chained' : Bool) (around around' : Span)
    (strip : BlockStrip) (span : Span) (lead trail : List Cut) :
    ((Statement.block call (some ⟨main, params, chained, around⟩)
        (some ⟨other, params', chained', around'⟩) strip span).grant lead trail).leaves
      = bodyLeaves (cutBody lead main) ++ bodyLeaves (cutBody trail other) := by
  simp only [grant, onLeading, onTrailing, Program.onBody, leaves, sectionLeaves, Program.leaves]

/-- one with two, -/
theorem Branch.settles_withElse {item mark close : Item} {o : Opening} {body inverse : Outline}
    {standalone : Bool} (ho : o.kind.hasElse)
    (h : ∃ settled, body.SettlesTo standalone false [] [] settled)
    (h' : ∃ settled, inverse.SettlesTo standalone false [] [] settled) :
    (Branch.withElse item o body mark inverse).Settles standalone close := by
  rcases ho with hkind | hkind
  -- an opening `{{#` has its first section for main,
  · have hne : ¬ o.kind = .inverse := by simp [hkind]
    have hstatement : (Branch.withElse item o body mark inverse).statement close
        = .block o.call (some (o.firstSection body.statements mark.start))
            (some (mark.elseSection false inverse.statements close.start))
            ⟨o.strip, mark.strip, close.strip⟩ ⟨o.span.start, close.stop⟩ := by
      simp only [Branch.statement, Opening.wrap, hkind]
    rw [Opening.firstSection, Item.elseSection] at hstatement
    refine ⟨?_, ?_, ?_⟩
    · rw [hstatement, Statement.settle_else, Branch.demand, Branch.leading, Branch.trailing,
        if_neg hne, if_neg hne]
      rfl
    · intro pre post lead trail
      rw [hstatement, Statement.settle_else, Statement.leaves_grant_block, ← cutBody_append,
        ← cutBody_append, Branch.spots, if_neg hne, List.map_append, BlockContext.first,
        BlockContext.second, if_neg hne, if_neg hne]
      exact congrArg₂ _ (Outline.SettlesTo.section_leaves h _ _ _)
        (Outline.SettlesTo.section_leaves h' _ _ _)
    · intro _
      rw [hstatement, Statement.settle_else]
      refine ⟨_, _, _, _, rfl, ?_⟩
      rw [skeleton_cutBody, skeleton_section]
      rfl
  -- and `{{^` the one behind the else
  · have hstatement : (Branch.withElse item o body mark inverse).statement close
        = .block o.call (some (mark.elseSection false inverse.statements close.start))
            (some (o.firstSection body.statements mark.start))
            ⟨o.strip, mark.strip, close.strip⟩ ⟨o.span.start, close.stop⟩ := by
      simp only [Branch.statement, Opening.wrap, hkind]
    rw [Opening.firstSection, Item.elseSection] at hstatement
    refine ⟨?_, ?_, ?_⟩
    · rw [hstatement, Statement.settle_else, Branch.demand, Branch.leading, Branch.trailing,
        if_pos hkind, if_pos hkind]
      rfl
    · intro pre post lead trail
      rw [hstatement, Statement.settle_else, Statement.leaves_grant_block, ← cutBody_append,
        ← cutBody_append, Branch.spots, if_pos hkind, List.map_append, BlockContext.first,
        BlockContext.second, if_pos hkind, if_pos hkind]
      exact congrArg₂ _ (Outline.SettlesTo.section_leaves h' _ _ _)
        (Outline.SettlesTo.section_leaves h _ _ _)
    · intro hblock
      cases hkind.symm.trans hblock

/-- Nothing around a block in a row of its own is cut, and no cut of the row reaches the block. -/
theorem bodyLeaves_cutBody_singleton {s : Statement} (hs : ¬ s.IsContent) (cuts : List Cut) :
    bodyLeaves (cutBody cuts [s]) = s.leaves := by
  rw [cutBody_of_not_content cuts hs, cutBody_empty, bodyLeaves, bodyLeaves, List.append_nil]

theorem Statement.settle_not_isContent {s : Statement} (hs : ¬ s.IsContent) (standalone : Bool) :
    ¬ (s.settle standalone).1.IsContent := by
  rw [not_isContent_iff] at hs ⊢
  rw [written?_settle, hs]

theorem Statement.grant_not_isContent {s : Statement} (hs : ¬ s.IsContent)
    (lead trail : List Cut) : ¬ (s.grant lead trail).IsContent := by
  rw [not_isContent_iff] at hs ⊢
  rw [written?_grant, hs]

/-- A block with a chain behind its first section. -/
theorem Branch.settles_chain {item close : Item} {o : Opening} {body : Outline} {next : Branch}
    {standalone : Bool} (ho : o.kind.hasElse) (hnext : next.opening.kind = .block)
    (h : ∃ settled, body.SettlesTo standalone false [] [] settled)
    (h' : next.Settles standalone close) :
    (Branch.chain item o body next).Settles standalone close := by
  have hs := next.statement_not_isContent close
  have hs' := Statement.settle_not_isContent hs standalone
  rcases ho with hkind | hkind
  -- the rest of the chain is a block in the else of the first arm,
  · have hne : ¬ o.kind = .inverse := by simp [hkind]
    have hstatement : (Branch.chain item o body next).statement close
        = .block o.call (some (o.firstSection body.statements next.item.start))
            (some (next.item.elseSection true [next.statement close] close.start))
            ⟨o.strip, next.item.strip, close.strip⟩ ⟨o.span.start, close.stop⟩ := by
      simp only [Branch.statement, Opening.wrap, hkind]
    rw [Opening.firstSection, Item.elseSection] at hstatement
    obtain ⟨inner, inverse, strip, span, hinner, hskeleton⟩ := h'.eq_block hnext
    have hsettle : (next.statement close).settle standalone = (_, next.demand close) :=
      Prod.ext hinner h'.demand_eq
    refine ⟨?_, ?_, ?_⟩
    · rw [hstatement, Statement.settle_chain _ _ _ _ _ _ _ _ _ _ _ _ _ _ _ _ _ hs hsettle,
        Branch.demand, Branch.leading, Branch.trailing, if_neg hne, if_neg hne]
      exact Demand.ofBlock_congr _ rfl hskeleton
    · intro pre post lead trail
      rw [hstatement, Statement.settle_chain _ _ _ _ _ _ _ _ _ _ _ _ _ _ _ _ _ hs hsettle,
        Statement.leaves_grant_block, ← cutBody_append,
        bodyLeaves_cutBody_singleton (Statement.grant_not_isContent hs' _ _), Branch.spots,
        if_neg hne, List.map_append, BlockContext.first, BlockContext.chained, if_neg hne,
        if_neg hne, Branch.beyond, if_neg hne, elseAlone_congr standalone rfl hskeleton]
      exact congrArg₂ _ (Outline.SettlesTo.section_leaves h _ _ _) (h'.leaves_eq _ _ _ _)
    · intro _
      rw [hstatement, Statement.settle_chain _ _ _ _ _ _ _ _ _ _ _ _ _ _ _ _ _ hs hsettle]
      refine ⟨_, _, _, _, rfl, ?_⟩
      rw [skeleton_cutBody, skeleton_section]
      rfl
  -- or in its main section, behind `{{^`
  · have hstatement : (Branch.chain item o body next).statement close
        = .block o.call (some (next.item.elseSection true [next.statement close] close.start))
            (some (o.firstSection body.statements next.item.start))
            ⟨o.strip, next.item.strip, close.strip⟩ ⟨o.span.start, close.stop⟩ := by
      simp only [Branch.statement, Opening.wrap, hkind]
    rw [Opening.firstSection, Item.elseSection] at hstatement
    refine ⟨?_, ?_, ?_⟩
    · rw [hstatement, Statement.settle_else, Branch.demand, Branch.leading, Branch.trailing,
        if_pos hkind, if_pos hkind]
      rfl
    · intro pre post lead trail
      rw [hstatement, Statement.settle_else, Statement.leaves_grant_block, ← cutBody_append,
        ← cutBody_append, settleBody_singleton hs rfl, bodyLeaves_cutBody_singleton hs',
        Branch.spots, if_pos hkind, List.map_append, BlockContext.first, BlockContext.chained,
        if_pos hkind, if_pos hkind, Branch.beyond, if_pos hkind, ← h'.leaves_eq,
        Statement.grant_nil]
      exact congrArg _ (Outline.SettlesTo.section_leaves h _ _ _)
    · intro hblock
      cases hkind.symm.trans hblock

/-! ## All outlines -/

mutual

/-- **What the pass makes of a row.** -/
theorem Outline.settlesTo {o : Outline} (h : o.Valid) (standalone atTop : Bool)
    (before : List Statement) (carried : List Extent) :
    ∃ body, o.SettlesTo standalone atTop before carried body := by
  match o, h with
  | .nil, _ =>
    refine ⟨[], ?_, rfl, ?_⟩
    · simp [Outline.statements, Outline.asks, settleBody]
    · intro pre post cuts
      rw [cutBody_empty]
      rfl
  | .bare item s rest, ⟨hform, hrest⟩ =>
    by_cases hs : s.IsContent
    · match s, hform with
      | .content c, hform =>
        obtain ⟨body, hbody⟩ := Outline.settlesTo hrest standalone atTop
          (.content (c.cutAll (carried.map .start)) :: before) []
        exact hbody.content hform
    · obtain ⟨body, hbody, hleaves⟩ := Outline.settleBody_cons hs (hform.settle_eq standalone)
        (Outline.settlesTo hrest standalone atTop) before carried
      refine ⟨_, hbody, rfl, ?_⟩
      intro pre post cuts
      rw [hleaves (pre ++ [item]) post, Outline.spots, List.map_append, RowContext.bareSpots,
        hform.map_leaves hs _ _ _ fun _ => rfl, RowContext.afterBare, Left.next_of_not_content hs]
      congr 1
      simp [RowContext.standing, Demand.standing, Item.demand, cutIf, Statement.grant_nil]
  | .block b close rest, ⟨hb, _, hrest⟩ =>
    have hblock := Branch.settles hb standalone close
    have hsettle : (b.statement close).settle standalone
        = (((b.statement close).settle standalone).1, b.demand close) :=
      Prod.ext rfl hblock.demand_eq
    obtain ⟨body, hbody, hleaves⟩ := Outline.settleBody_cons (b.statement_not_isContent close)
      hsettle (Outline.settlesTo hrest standalone atTop) before carried
    refine ⟨_, hbody, rfl, ?_⟩
    intro pre post cuts
    -- A block is no partial call, so it has no indentation of its own.
    have hown (indent : String) :
        Statement.indented ((b.demand close).standing standalone ((Left.of before).atLineStart atTop)
          (rowStartsLine atTop rest.statements)).ownLine indent
          ((b.statement close).settle standalone).1 = ((b.statement close).settle standalone).1 := by
      simp [Demand.standing, Branch.demand, Demand.ofBlock, Statement.indented]
    rw [hleaves (pre ++ b.items ++ [close]) post, hown, Outline.spots, List.map_append,
      hblock.leaves_eq pre (close :: (rest.items ++ post))]
    rfl

/-- **What the pass makes of a block.** -/
theorem Branch.settles {b : Branch} {chained : Bool} (h : b.Valid chained) (standalone : Bool)
    (close : Item) : b.Settles standalone close := by
  match b, h with
  | .plain item o body, ⟨_, hbody⟩ =>
    exact Branch.settles_plain (Outline.settlesTo hbody standalone false [] [])
  | .withElse item o body mark inverse, ⟨_, ho, hbody, _, hinverse⟩ =>
    exact Branch.settles_withElse ho (Outline.settlesTo hbody standalone false [] [])
      (Outline.settlesTo hinverse standalone false [] [])
  | .chain item o body next, ⟨_, ho, hbody, hnext⟩ =>
    exact Branch.settles_chain ho hnext.opens.kind_eq_of_chained
      (Outline.settlesTo hbody standalone false [] []) (Branch.settles hnext standalone close)

end

/-- **The whole effect of whitespace control.**  Let the items of a file form the outline `o`.  What
    is left of the tree, content by content and partial by partial, is what the cuts leave of the
    spots of `o`. -/
theorem Outline.leaves_trimmed {o : Outline} (h : o.Valid) (standalone : Bool)
    (params : List String) (span : Span) :
    ((⟨o.statements, params, false, span⟩ : Program).trimmed standalone).leaves
      = (o.spots standalone .top).map Spot.leaf := by
  rw [Program.trimmed, Program.settle, Program.leaves]
  exact Outline.SettlesTo.section_leaves (Outline.settlesTo h standalone true [] []) [] [] []

/-- What parsing a text amounts to: its items form an outline, and what is left of the tree are the
    spots of the outline after their cuts. -/
theorem Template.parse_spots {text : String} {source : Option String} {standalone : Bool}
    {t : Template} (h : Template.parse text source standalone = .ok t) :
    ∃ (items : List Item) (p : Program) (o : Outline),
      Item.readAll .origin text.toList = .ok items ∧ Program.ofText text.toList = .ok p
        ∧ o.Of items p.body ∧ t.root.leaves = (o.spots standalone .top).map Spot.leaf := by
  obtain ⟨items, p, o, hitems, hp, rfl, hroot, ho⟩ := Template.parse_outlined h
  refine ⟨items, p, o, hitems, hp, ho, ?_⟩
  show (p.trimmed standalone).leaves = _
  rw [hroot]
  exact Outline.leaves_trimmed ho.valid standalone _ _

end Stache
