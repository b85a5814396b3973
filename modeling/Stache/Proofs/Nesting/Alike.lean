/-
  Trees that are alike.

  Two trees are ALIKE if they differ in spans only, and in what compiling does not look at: marks of
  whitespace control, comments, what contents were like before they were trimmed, and whether an
  else section is chained.  In the STRICT sense, numbers are made of number characters as well.
-/
import Stache.Proofs.Items.Numbers

namespace Stache

/-! ## Calls that are alike -/

/-- The same path in another place. -/
def Path.Alike (p p' : Path) : Prop := ∃ span, p' = { p with span }

mutual

/-- Two expressions are alike, -/
inductive Expression.Alike (strict : Bool) : Expression → Expression → Prop where
  | path {p p' : Path} (h : p.Alike p') : Expression.Alike strict (.path p) (.path p')
  | subexpression {call call' : Call} {span span' : Span} (h : call.Alike strict call') :
      Expression.Alike strict (.subexpression call span) (.subexpression call' span')
  | string {value written written' : String} {span span' : Span} :
      Expression.Alike strict (.string value written span) (.string value written' span')
  | number {written : String} {span span' : Span}
      (h : strict = true → Numeric written.toList) :
      Expression.Alike strict (.number written span) (.number written span')
  | boolean (value : Bool) {span span' : Span} :
      Expression.Alike strict (.boolean value span) (.boolean value span')
  | undefined {span span' : Span} : Expression.Alike strict (.undefined span) (.undefined span')
  | null {span span' : Span} : Expression.Alike strict (.null span) (.null span')

/-- Calls with the same parts, but for spans. -/
inductive Call.Alike (strict : Bool) : Call → Call → Prop where
  | mk {callee callee' : Expression} {params params' : List Expression}
      {hash hash' : Option Hash} (hcallee : callee.Alike strict callee')
      (hparams : ParamsAlike strict params params') (hhash : HashAlike strict hash hash') :
      Call.Alike strict ⟨callee, params, hash⟩ ⟨callee', params', hash'⟩

/-- so are two rows of parameters, -/
inductive ParamsAlike (strict : Bool) : List Expression → List Expression → Prop where
  | nil : ParamsAlike strict [] []
  | cons {e e' : Expression} {rest rest' : List Expression} (h : e.Alike strict e')
      (hrest : ParamsAlike strict rest rest') : ParamsAlike strict (e :: rest) (e' :: rest')

/-- two hashes, -/
inductive HashAlike (strict : Bool) : Option Hash → Option Hash → Prop where
  | none : HashAlike strict none none
  | some {pairs pairs' : List Pair} {span span' : Span} (h : PairsAlike strict pairs pairs') :
      HashAlike strict (some ⟨pairs, span⟩) (some ⟨pairs', span'⟩)

/-- and two rows of pairs, with the same keys. -/
inductive PairsAlike (strict : Bool) : List Pair → List Pair → Prop where
  | nil : PairsAlike strict [] []
  | cons (key : String) {value value' : Expression} {span span' : Span} {rest rest' : List Pair}
      (h : value.Alike strict value') (hrest : PairsAlike strict rest rest') :
      PairsAlike strict (⟨key, value, span⟩ :: rest) (⟨key, value', span'⟩ :: rest')

end

/-- As many parameters. -/
theorem ParamsAlike.length_eq {strict : Bool} {params params' : List Expression}
    (h : ParamsAlike strict params params') : params.length = params'.length := by
  induction params generalizing params' with
  | nil =>
    cases h
    rfl
  | cons e rest ih =>
    cases h with
    | cons _ hrest => rw [List.length_cons, List.length_cons, ih hrest]

/-- Calls that are alike call what is alike, -/
theorem Call.Alike.callee {strict : Bool} {c c' : Call} (h : c.Alike strict c') :
    c.callee.Alike strict c'.callee := by
  cases h with
  | mk hcallee _ _ => exact hcallee

mutual

/-- An expression goes by the same name in another place. -/
theorem Expression.Alike.label_eq {strict : Bool} {e e' : Expression} (h : e.Alike strict e') :
    e.label = e'.label := by
  match h with
  | .path ⟨span, hp⟩ => rw [hp, Expression.label, Expression.label]
  | .subexpression h =>
    rw [Expression.label, Expression.label]
    exact h.label_eq
  | .string | .number _ | .boolean _ | .undefined | .null => rfl
termination_by structural h

theorem Call.Alike.label_eq {strict : Bool} {c c' : Call} (h : c.Alike strict c') :
    c.label = c'.label := by
  match h with
  | .mk hcallee _ _ =>
    rw [Call.label, Call.label]
    exact hcallee.label_eq
termination_by structural h

end

/-! ## Statements that are alike -/

mutual

/-- Two statements are alike, -/
inductive Statement.Alike (strict : Bool) : Statement → Statement → Prop where
  | content {c c' : Content} (h : c.value = c'.value) :
      Statement.Alike strict (.content c) (.content c')
  | comment {text text' : String} {strip strip' : Strip} {span span' : Span} :
      Statement.Alike strict (.comment text strip span) (.comment text' strip' span')
  | mustache {call call' : Call} {escaped : Bool} {strip strip' : Strip} {span span' : Span}
      (h : call.Alike strict call') :
      Statement.Alike strict (.mustache call escaped strip span)
        (.mustache call' escaped strip' span')
  | partialCall (indent : String) {call call' : Call} {strip strip' : Strip} {span span' : Span}
      (h : call.Alike strict call') :
      Statement.Alike strict (.partialCall call indent strip span)
        (.partialCall call' indent strip' span')
  | decorator {call call' : Call} {strip strip' : Strip} {span span' : Span}
      (h : call.Alike strict call') :
      Statement.Alike strict (.decorator call strip span) (.decorator call' strip' span')
  | block {call call' : Call} {main main' inverse inverse' : Option Program}
      {strip strip' : BlockStrip} {span span' : Span} (h : call.Alike strict call')
      (hmain : SectionAlike strict main main') (hinverse : SectionAlike strict inverse inverse') :
      Statement.Alike strict (.block call main inverse strip span)
        (.block call' main' inverse' strip' span')
  | partialBlock {call call' : Call} {body body' : Program}
      {opening opening' closing closing' : Strip} {span span' : Span} (h : call.Alike strict call')
      (hbody : body.Alike strict body') :
      Statement.Alike strict (.partialBlock call body opening closing span)
        (.partialBlock call' body' opening' closing' span')
  | decoratorBlock {call call' : Call} {body body' : Program}
      {opening opening' closing closing' : Strip} {span span' : Span} (h : call.Alike strict call')
      (hbody : body.Alike strict body') :
      Statement.Alike strict (.decoratorBlock call body opening closing span)
        (.decoratorBlock call' body' opening' closing' span')

/-- Programs with the same parameters and statements that are alike. -/
inductive Program.Alike (strict : Bool) : Program → Program → Prop where
  | mk (params : List String) {body body' : List Statement} {chained chained' : Bool}
      {span span' : Span} (h : BodyAlike strict body body') :
      Program.Alike strict ⟨body, params, chained, span⟩ ⟨body', params, chained', span'⟩

/-- so are two sections, if there are any, -/
inductive SectionAlike (strict : Bool) : Option Program → Option Program → Prop where
  | none : SectionAlike strict none none
  | some {p p' : Program} (h : p.Alike strict p') : SectionAlike strict (some p) (some p')

/-- and two bodies, statement by statement. -/
inductive BodyAlike (strict : Bool) : List Statement → List Statement → Prop where
  | nil : BodyAlike strict [] []
  | cons {s s' : Statement} {rest rest' : List Statement} (h : s.Alike strict s')
      (hrest : BodyAlike strict rest rest') : BodyAlike strict (s :: rest) (s' :: rest')

end

end Stache
