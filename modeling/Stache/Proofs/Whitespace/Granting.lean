/-
  What a tag is granted, as cuts.

  A settled statement is put in its place in two steps: it is decided what stands on a line of its
  own (`Demand.standing`), and then trims are made on both sides and inside.  Here both steps are
  written with the cuts of the module `Cut`:

    * `place_eq`: the neighbour to the left is cut now, the one to the right later, and the sections
      at the two ends of a block are cut from outside (`Statement.grant`);
    * `settleSections_one`, `settleSections_else`, `settleSections_chain`: the sections of a block
      are cut by the block's own tags.
-/
import Stache.Proofs.Nesting.Outline
import Stache.Proofs.Whitespace.Skeleton

namespace Stache

/-! ## Decisions -/

/-- Which tags of a statement stand on a line of their own: the tag of a statement without a body,
    the open tag of a block, its close tag. -/
structure Standing where
  ownLine : Bool
  openLine : Bool
  closeLine : Bool

/-- The decision on a statement with this demand, where `ended` says that a line ends before it and
    `started` that one begins after it. -/
def Demand.standing (d : Demand) (standalone ended started : Bool) : Standing :=
  ⟨standalone && d.ownLine && ended && started, standalone && d.openLine && ended,
    standalone && d.closeLine && started⟩

/-- The trims of what stands before the statement. -/
def Demand.asks (d : Demand) (w : Standing) : List Extent :=
  (if d.strip.opening then [.all] else []) ++ (if w.ownLine then [.line] else [])
    ++ (if w.openLine then [.line] else [])

/-- The trims of what stands after it. -/
def Demand.carries (d : Demand) (w : Standing) : List Extent :=
  (if d.strip.closing then [.all] else []) ++ (if w.ownLine then [.line] else [])
    ++ (if w.closeLine then [.line] else [])

theorem Demand.isEmpty_asks (d : Demand) (w : Standing) :
    (d.asks w).isEmpty = !(d.strip.opening || w.ownLine || w.openLine) := by
  obtain ⟨⟨opening, closing⟩, own, openLine, closeLine⟩ := d
  obtain ⟨ownLine, openLine', closeLine'⟩ := w
  cases opening <;> cases ownLine <;> cases openLine' <;> rfl

theorem Demand.isEmpty_carries (d : Demand) (w : Standing) :
    (d.carries w).isEmpty = !(d.strip.closing || w.ownLine || w.closeLine) := by
  obtain ⟨⟨opening, closing⟩, own, openLine, closeLine⟩ := d
  obtain ⟨ownLine, openLine', closeLine'⟩ := w
  cases closing <;> cases ownLine <;> cases closeLine' <;> rfl

/-- Nothing stands on a line of its own while the standalone rule is off. -/
@[simp] theorem Demand.standing_off (d : Demand) (ended started : Bool) :
    d.standing false ended started = ⟨false, false, false⟩ := rfl

/-- A tag without marks that is never standalone asks nothing of the statements around it. -/
theorem Demand.asks_none (standalone ended started : Bool) :
    (ofStrip .none).asks ((ofStrip .none).standing standalone ended started) = [] := by
  simp [asks, standing, ofStrip, Strip.none]

theorem Demand.carries_none (standalone ended started : Bool) :
    (ofStrip .none).carries ((ofStrip .none).standing standalone ended started) = [] := by
  simp [carries, standing, ofStrip, Strip.none]

/-! ## The statements before -/

/-- Trims the content that ends the statements `before`, again and again. -/
def trimLatestAll (extents : List Extent) (before : List Statement) : List Statement :=
  extents.foldl (fun before e => trimLatest e before) before

@[simp] theorem trimLatestAll_nil (before : List Statement) : trimLatestAll [] before = before := rfl

@[simp] theorem trimLatestAll_empty (extents : List Extent) : trimLatestAll extents [] = [] := by
  induction extents with
  | nil => rfl
  | cons e extents ih => exact ih

theorem trimLatestAll_append (extents more : List Extent) (before : List Statement) :
    trimLatestAll (extents ++ more) before = trimLatestAll more (trimLatestAll extents before) :=
  List.foldl_append

/-- They reach the latest statement if it is content, -/
theorem trimLatestAll_content (extents : List Extent) (c : Content) (before : List Statement) :
    trimLatestAll extents (.content c :: before)
      = .content (c.cutAll (extents.map .stop)) :: before := by
  induction extents generalizing c with
  | nil => rfl
  | cons e extents ih => exact ih _

/-- and nothing else. -/
theorem trimLatestAll_of_not_content (extents : List Extent) {s : Statement} (hs : ¬ s.IsContent)
    (before : List Statement) : trimLatestAll extents (s :: before) = s :: before := by
  induction extents with
  | nil => rfl
  | cons e extents ih =>
    show trimLatestAll extents (trimLatest e (s :: before)) = _
    have hstay : trimLatest e (s :: before) = s :: before := by
      cases s with
      | content c => exact (hs trivial).elim
      | _ => rfl
    rw [hstay, ih]

/-! ## Statements -/

/-- Cuts the sections of a block from outside: the one after its open tag by `lead`, and then the
    one before its close tag by `trail`. -/
def Statement.grant (lead trail : List Cut) (s : Statement) : Statement :=
  (s.onLeading (cutBody lead)).onTrailing (cutBody trail)

/-- What changes no body changes no program, -/
theorem Program.onBody_id (p : Program) : p.onBody (fun body => body) = p := by
  cases p
  rfl

/-- none by its face, -/
theorem Program.onFace_id (p : Program) : p.onFace (fun body => body) = p := by
  obtain ⟨body, params, chained, span⟩ := p
  cases chained with
  | false => rfl
  | true =>
    cases body with
    | nil => rfl
    | cons s rest =>
      cases s with
      | block call main inverse strip span =>
        cases main with
        | none => rfl
        | some main =>
          obtain ⟨inner, params', chained', around⟩ := main
          rfl
      | _ => rfl

/-- and no statement by its sections: -/
theorem Statement.onLeading_id (s : Statement) : s.onLeading (fun body => body) = s := by
  cases s with
  | block call main inverse strip span =>
    cases main <;> cases inverse <;> simp [onLeading, Program.onBody_id]
  | partialBlock | decoratorBlock => simp [onLeading, Program.onBody_id]
  | _ => rfl

/-- neither the first nor the last. -/
theorem Statement.onTrailing_id (s : Statement) : s.onTrailing (fun body => body) = s := by
  cases s with
  | block call main inverse strip span =>
    cases main <;> cases inverse <;> simp [onTrailing, Program.onBody_id]
  | partialBlock | decoratorBlock => simp [onTrailing, Program.onBody_id]
  | _ => rfl

theorem Statement.grant_nil (s : Statement) : s.grant [] [] = s := by
  show (s.onLeading fun body => body).onTrailing (fun body => body) = s
  rw [onLeading_id, onTrailing_id]

/-- A partial call with the indentation before it, if it stands on a line of its own. -/
def Statement.indented (ownLine : Bool) (indent : String) (s : Statement) : Statement :=
  if ownLine then s.withIndent indent else s

theorem written?_grant (lead trail : List Cut) (s : Statement) :
    (s.grant lead trail).written? = s.written? := by
  rw [Statement.grant, written?_onTrailing, written?_onLeading]

theorem written?_indented (ownLine : Bool) (indent : String) (s : Statement) :
    (s.indented ownLine indent).written? = s.written? := by
  rw [Statement.indented]
  split
  · exact written?_withIndent indent s
  · rfl

/-- Putting a statement in its place, as cuts. -/
theorem place_eq (standalone atTop : Bool) (before after : List Statement) (s : Statement)
    (d : Demand) :
    let w := d.standing standalone (rowEndsLine atTop before) (rowStartsLine atTop after)
    place standalone atTop before after s d
      = ⟨trimLatestAll (d.asks w) before,
          (s.indented w.ownLine
            (latestIndent (trimLatestAll (if d.strip.opening then [.all] else []) before))).grant
              (cutIf w.openLine (.start .line)) (cutIf w.closeLine (.stop .line)),
          d.carries w⟩ := by
  -- each step that may be taken is a list of cuts that may be empty
  have honLeading (b : Bool) (s : Statement) :
      (if b then s.onLeading (trimFirst .line) else s)
        = s.onLeading (cutBody (cutIf b (.start .line))) := by
    cases b with
    | true => rfl
    | false => exact s.onLeading_id.symm
  have honTrailing (b : Bool) (s : Statement) :
      (if b then s.onTrailing (trimLast .line) else s)
        = s.onTrailing (cutBody (cutIf b (.stop .line))) := by
    cases b with
    | true => rfl
    | false => exact s.onTrailing_id.symm
  have htrim (b : Bool) (e : Extent) (before : List Statement) :
      (if b then trimLatest e before else before)
        = trimLatestAll (if b then [e] else []) before := by
    cases b <;> rfl
  simp only [place, htrim, honLeading, honTrailing, Demand.asks, Demand.carries, Demand.standing,
    Statement.grant, Statement.indented, trimLatestAll_append]
  rfl

/-! ## Sections -/

/-- The demand of a block whose first section, after its open tag, is `leading` and whose last one,
    before its close tag, is `trailing`. -/
def Demand.ofBlock (strip : BlockStrip) (leading trailing : List Statement) : Demand :=
  ⟨⟨strip.opening.opening, strip.closing.closing⟩, false, rowStartsLine false leading,
    rowEndsLine false trailing.reverse⟩

theorem Demand.ofBlock_congr (strip : BlockStrip)
    {leading leading' trailing trailing' : List Statement}
    (hlead : skeleton leading = skeleton leading') (htrail : skeleton trailing = skeleton trailing') :
    Demand.ofBlock strip leading trailing = Demand.ofBlock strip leading' trailing' := by
  have hrev : skeleton trailing.reverse = skeleton trailing'.reverse := by
    rw [skeleton_reverse, skeleton_reverse, htrail]
  rw [Demand.ofBlock, Demand.ofBlock, rowStartsLine_congr hlead, rowEndsLine_congr hrev]

/-- The cuts of the only section of a block. -/
def BlockStrip.aroundOne (strip : BlockStrip) : List Cut :=
  cutIf strip.opening.closing (.start .all) ++ cutIf strip.closing.opening (.stop .all)

/-- The cuts of the main section of a block with an else. -/
def BlockStrip.aroundMain (strip : BlockStrip) (alone : Bool) : List Cut :=
  cutIf strip.opening.closing (.start .all) ++ cutIf strip.inverse.opening (.stop .all)
    ++ cutIf alone (.stop .line)

/-- The cuts of the other section of such a block. -/
def BlockStrip.aroundInverse (strip : BlockStrip) (alone : Bool) : List Cut :=
  cutIf strip.inverse.closing (.start .all) ++ cutIf strip.closing.opening (.stop .all)
    ++ cutIf alone (.start .line)

namespace BlockStrip

variable (strip : BlockStrip) (alone : Bool)

@[simp] theorem any_isStart_aroundOne :
    strip.aroundOne.any Cut.isStart = strip.opening.closing := by
  simp [aroundOne]

@[simp] theorem any_isStop_aroundOne :
    strip.aroundOne.any Cut.isStop = strip.closing.opening := by
  simp [aroundOne]

@[simp] theorem any_isStart_aroundMain :
    (strip.aroundMain alone).any Cut.isStart = strip.opening.closing := by
  simp [aroundMain]

@[simp] theorem any_isStop_aroundMain :
    (strip.aroundMain alone).any Cut.isStop = (strip.inverse.opening || alone) := by
  simp [aroundMain]

@[simp] theorem any_isStart_aroundInverse :
    (strip.aroundInverse alone).any Cut.isStart = (strip.inverse.closing || alone) := by
  simp [aroundInverse]

@[simp] theorem any_isStop_aroundInverse :
    (strip.aroundInverse alone).any Cut.isStop = strip.closing.opening := by
  simp [aroundInverse]

end BlockStrip

/-- The else tag stands on a line of its own, between these two bodies. -/
def elseAlone (standalone : Bool) (main other : List Statement) : Bool :=
  standalone && rowEndsLine false main.reverse && rowStartsLine false other

theorem elseAlone_congr (standalone : Bool) {main main' other other' : List Statement}
    (hmain : skeleton main = skeleton main') (hother : skeleton other = skeleton other') :
    elseAlone standalone main other = elseAlone standalone main' other' := by
  have hrev : skeleton main.reverse = skeleton main'.reverse := by
    rw [skeleton_reverse, skeleton_reverse, hmain]
  rw [elseAlone, elseAlone, rowEndsLine_congr hrev, rowStartsLine_congr hother]

theorem ite_trimFirst (wanted : Bool) (e : Extent) :
    (fun body => if wanted then trimFirst e body else body) = cutBody (cutIf wanted (.start e)) := by
  cases wanted <;> rfl

theorem ite_trimLast (wanted : Bool) (e : Extent) :
    (fun body => if wanted then trimLast e body else body) = cutBody (cutIf wanted (.stop e)) := by
  cases wanted <;> rfl

theorem Program.onBody_cutBody (cuts more : List Cut) (p : Program) :
    (p.onBody (cutBody cuts)).onBody (cutBody more) = p.onBody (cutBody (cuts ++ more)) := by
  simp only [Program.onBody, cutBody_append]

/-- The sections of a block with one section. -/
theorem settleSections_one (standalone : Bool) (strip : BlockStrip) (main : Program) :
    settleSections standalone strip main none
      = (main.onBody (cutBody strip.aroundOne), none, .ofBlock strip main.body main.body) := by
  simp only [settleSections, ite_trimFirst, ite_trimLast, Program.onBody_cutBody]
  rfl

/-- The sections of a block with an else tag that has no call. -/
theorem settleSections_else (standalone : Bool) (strip : BlockStrip) (main : Program)
    (body : List Statement) (params : List String) (span : Span) :
    let alone := elseAlone standalone main.body body
    settleSections standalone strip main (some ⟨body, params, false, span⟩)
      = (main.onBody (cutBody (strip.aroundMain alone)),
          some ⟨cutBody (strip.aroundInverse alone) body, params, false, span⟩,
          .ofBlock strip main.body body) := by
  simp only [settleSections, ite_trimFirst, ite_trimLast, Program.onBody_cutBody,
    BlockStrip.aroundInverse, cutBody_append]
  rfl

/-- The sections of a block whose else section is a chained block: that block's own main section is
    the one that is cut. -/
theorem settleSections_chain (standalone : Bool) (strip : BlockStrip) (main : Program) (call : Call)
    (inner : Program) (inverse : Option Program) (strips : BlockStrip) (span : Span)
    (params : List String) (around : Span) :
    let s : Statement := .block call (some inner) inverse strips span
    let alone := elseAlone standalone main.body inner.body
    settleSections standalone strip main (some ⟨[s], params, true, around⟩)
      = (main.onBody (cutBody (strip.aroundMain alone)),
          some ⟨[s.grant (strip.aroundInverse alone) []], params, true, around⟩,
          .ofBlock strip main.body inner.body) := by
  -- The three trims reach the inner main section one after another.
  have hgrant (a b c : List Cut) :
      (Statement.block call (some inner) inverse strips span).grant (a ++ b ++ c) []
        = .block call (some (((inner.onBody (cutBody a)).onBody (cutBody b)).onBody (cutBody c)))
            inverse strips span := by
    rw [Program.onBody_cutBody, Program.onBody_cutBody, ← List.append_assoc]
    exact Statement.onTrailing_id _
  simp only [settleSections, ite_trimFirst, ite_trimLast, Program.onBody_cutBody]
  rw [BlockStrip.aroundInverse, hgrant]
  rfl

/-! ## Blocks, settled -/

theorem skeleton_section (standalone : Bool) (body : List Statement) :
    skeleton (settleBody standalone false [] [] body) = skeleton body :=
  skeleton_settleBody standalone false [] [] body

/-- A block with one section. -/
theorem Opening.settle_wrap_one (o : Opening) (body : List Statement) (stop : Position)
    (strip : BlockStrip) (stop' : Position) (standalone : Bool) :
    (o.wrap (o.firstSection body stop) none strip stop').settle standalone
      = (o.wrap (o.firstSection
            (cutBody strip.aroundOne (settleBody standalone false [] [] body)) stop) none strip stop',
          .ofBlock strip body body) := by
  have hdemand := Demand.ofBlock_congr strip (skeleton_section standalone body)
    (skeleton_section standalone body)
  cases hkind : o.kind <;>
    simp only [wrap, hkind, firstSection, Statement.settle, Program.settle, settleSection,
      settleSections_one, Program.onBody, ← hdemand] <;> rfl

theorem Opening.grant_wrap_one (o : Opening) (body : List Statement) (stop : Position)
    (strip : BlockStrip) (stop' : Position) (lead trail : List Cut) :
    (o.wrap (o.firstSection body stop) none strip stop').grant lead trail
      = o.wrap (o.firstSection (cutBody (lead ++ trail) body) stop) none strip stop' := by
  rw [cutBody_append]
  cases hkind : o.kind <;> simp only [wrap, hkind, firstSection] <;> rfl

/-- A block with an else tag that has no call. -/
theorem Statement.settle_else (call : Call) (main other : List Statement)
    (params params' : List String) (chained : Bool) (around around' : Span) (strip : BlockStrip)
    (span : Span) (standalone : Bool) :
    let alone := elseAlone standalone main other
    (Statement.block call (some ⟨main, params, chained, around⟩)
        (some ⟨other, params', false, around'⟩) strip span).settle standalone
      = (.block call
          (some ⟨cutBody (strip.aroundMain alone) (settleBody standalone false [] [] main), params,
            chained, around⟩)
          (some ⟨cutBody (strip.aroundInverse alone) (settleBody standalone false [] [] other),
            params', false, around'⟩) strip span,
          .ofBlock strip main other) := by
  have hdemand := Demand.ofBlock_congr strip (skeleton_section standalone main)
    (skeleton_section standalone other)
  have halone := elseAlone_congr standalone (skeleton_section standalone main)
    (skeleton_section standalone other)
  simp only [settle, Program.settle, settleSection, settleSections_else, Program.onBody, hdemand,
    halone]

/-- A row of one statement that is not content. -/
theorem settleBody_singleton {s s' : Statement} {d : Demand} {standalone : Bool} (hs : ¬ s.IsContent)
    (h : s.settle standalone = (s', d)) : settleBody standalone false [] [] [s] = [s'] := by
  rw [settleBody]
  · -- Nothing stands around the statement, so none of its tags is on a line of its own.
    simp [h, place_eq, settleBody, Demand.standing, rowEndsLine, rowStartsLine, cutIf,
      Statement.indented,
      Statement.grant_nil]
  · intro c hc
    exact hs (hc ▸ trivial)

/-- A block whose else section is a chained block. -/
theorem Statement.settle_chain (call : Call) (main : List Statement) (s : Statement) (d : Demand)
    (params params' : List String) (chained : Bool) (around around' : Span) (strip : BlockStrip)
    (span : Span) (standalone : Bool) (call' : Call) (inner : Program) (inverse : Option Program)
    (strip' : BlockStrip) (span' : Span) (hs : ¬ s.IsContent)
    (h : s.settle standalone = (.block call' (some inner) inverse strip' span', d)) :
    let alone := elseAlone standalone main inner.body
    (Statement.block call (some ⟨main, params, chained, around⟩)
        (some ⟨[s], params', true, around'⟩) strip span).settle standalone
      = (.block call
          (some ⟨cutBody (strip.aroundMain alone) (settleBody standalone false [] [] main), params,
            chained, around⟩)
          (some ⟨[(s.settle standalone).1.grant (strip.aroundInverse alone) []], params', true,
            around'⟩) strip span,
          .ofBlock strip main inner.body) := by
  have hdemand := Demand.ofBlock_congr strip (skeleton_section standalone main)
    (rfl : skeleton inner.body = skeleton inner.body)
  have halone := elseAlone_congr standalone (skeleton_section standalone main)
    (rfl : skeleton inner.body = skeleton inner.body)
  simp only [settle, Program.settle, settleSection, settleBody_singleton hs h,
    settleSections_chain, Program.onBody, hdemand, halone, h]

end Stache
