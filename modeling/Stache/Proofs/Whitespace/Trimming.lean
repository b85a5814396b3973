/-
  Whitespace control trims, and does nothing else.

  Two trees are compared node by node.  One is the other TRIMMED (`Program.TrimmedTo`) if it has the
  same nodes, but each content may have lost blanks at its two ends, and each partial call may have
  been given an indentation: spaces and tabs in which the content right before it ends, as that
  content was written.

  A trimmed tree may be trimmed again (`Program.TrimmedTo.trans`).  So the pass has to be followed
  only step by step, whatever the order of the steps is: each trim of a body, each place where one
  is made, and each statement that is put in its place gives a trimmed tree, and so does the pass as
  a whole (`Program.trimmedTo_trimmed`).
-/
import Stache.Proofs.Text.Lines
import Stache.Proofs.Whitespace.Skeleton

namespace Stache

/-! ## Texts -/

namespace Text

/-- `t` is `s` without some blanks in front and at the end. -/
def Trimmed (s t : List Char) : Prop :=
  ∃ front back, s = front ++ (t ++ back) ∧ (∀ c ∈ front, isBlank c = true)
    ∧ ∀ c ∈ back, isBlank c = true

variable {s t u : List Char}

theorem Trimmed.refl (s : List Char) : Trimmed s s :=
  ⟨[], [], by simp, by simp, by simp⟩

theorem Trimmed.trans (h : Trimmed s t) (h' : Trimmed t u) : Trimmed s u := by
  obtain ⟨front, back, rfl, hfront, hback⟩ := h
  obtain ⟨front', back', rfl, hfront', hback'⟩ := h'
  exact ⟨front ++ front', back' ++ back, by simp, List.forall_mem_append.2 ⟨hfront, hfront'⟩,
    List.forall_mem_append.2 ⟨hback', hback⟩⟩

/-- Blanks that are dropped at the start, -/
theorem trimmed_dropWhile {p : Char → Bool} (hp : ∀ c, p c = true → isBlank c = true)
    (s : List Char) : Trimmed s (s.dropWhile p) :=
  ⟨s.takeWhile p, [], by simp, fun c hc => hp c (List.mem_takeWhile_imp hc), by simp⟩

/-- at the end, -/
theorem trimmed_dropEndWhile {p : Char → Bool} (hp : ∀ c, p c = true → isBlank c = true)
    (s : List Char) : Trimmed s (dropEndWhile p s) :=
  ⟨[], takeEndWhile p s, by simp [dropEndWhile_append_takeEndWhile], by simp,
    fun c hc => hp c (List.mem_takeWhile_imp (List.mem_reverse.1 hc))⟩

/-- or one of them, -/
theorem trimmed_dropOne {c : Char} (hc : isBlank c = true) (s : List Char) :
    Trimmed s (dropOne c s) := by
  cases s with
  | nil => exact .refl []
  | cons d s =>
    rw [dropOne]
    split
    · rename_i hd
      exact ⟨[d], [], by simp, by simpa [hd] using hc, by simp⟩
    · exact .refl _

/-- with the line that they end. -/
theorem trimmed_dropLineStart (s : List Char) : Trimmed s (dropLineStart s) :=
  (trimmed_dropWhile (fun _ => isBlank_of_isIndent) s).trans <|
    (trimmed_dropOne (by decide) _).trans (trimmed_dropOne (by decide) _)

/-- Only blanks are lost. -/
theorem Trimmed.filter_eq (h : Trimmed s t) :
    s.filter (fun c => !isBlank c) = t.filter (fun c => !isBlank c) := by
  obtain ⟨front, back, rfl, hfront, hback⟩ := h
  have hnone {blanks : List Char} (h : ∀ c ∈ blanks, isBlank c = true) :
      blanks.filter (fun c => !isBlank c) = [] :=
    List.filter_eq_nil_iff.2 fun c hc => by simp [h c hc]
  rw [List.filter_append, List.filter_append, hnone hfront, hnone hback, List.nil_append,
    List.append_nil]

/-- The indentation at the end of a text is in its end. -/
theorem indentEnd_suffix (s : List Char) : indentEnd s <:+ s :=
  ⟨dropIndentEnd s, dropEndWhile_append_takeEndWhile isIndent s⟩

theorem isIndent_of_mem_indentEnd {c : Char} (h : c ∈ indentEnd s) : isIndent c = true :=
  List.mem_takeWhile_imp (List.mem_reverse.1 h)

end Text

/-! ## Trees -/

/-- Of a content, blanks at the two ends of its value may go. -/
structure Content.TrimmedTo (c c' : Content) : Prop where
  value : Text.Trimmed c.value.toList c'.value.toList
  written_eq : c'.written = c.written
  span_eq : c'.span = c.span

/-- What may stand before a partial, if what is before it is a content that is written `before`:
    some of the spaces and tabs in which that content ends. -/
def Indents (before : Option String) (indent : String) : Prop :=
  (∀ c ∈ indent.toList, Text.isIndent c = true) ∧ indent.toList <:+ (before.getD "").toList

mutual

/-- The second statement is the first one trimmed. The statement before it in its body is written
    `before`, if it is content. -/
inductive Statement.TrimmedTo : (before : Option String) → Statement → Statement → Prop where
  | content {before : Option String} {c c' : Content} (h : c.TrimmedTo c') :
      Statement.TrimmedTo before (.content c) (.content c')
  | comment {before : Option String} (text : String) (strip : Strip) (span : Span) :
      Statement.TrimmedTo before (.comment text strip span) (.comment text strip span)
  | mustache {before : Option String} (call : Call) (escaped : Bool) (strip : Strip) (span : Span) :
      Statement.TrimmedTo before (.mustache call escaped strip span)
        (.mustache call escaped strip span)
  | partialCall {before : Option String} {indent indent' : String} (call : Call) (strip : Strip)
      (span : Span) (h : indent' = indent ∨ Indents before indent') :
      Statement.TrimmedTo before (.partialCall call indent strip span)
        (.partialCall call indent' strip span)
  | decorator {before : Option String} (call : Call) (strip : Strip) (span : Span) :
      Statement.TrimmedTo before (.decorator call strip span) (.decorator call strip span)
  | block {before : Option String} {main main' inverse inverse' : Option Program} (call : Call)
      (strip : BlockStrip) (span : Span) (hmain : SectionTrimmedTo main main')
      (hinverse : SectionTrimmedTo inverse inverse') :
      Statement.TrimmedTo before (.block call main inverse strip span)
        (.block call main' inverse' strip span)
  | partialBlock {before : Option String} {body body' : Program} (call : Call)
      (opening closing : Strip) (span : Span) (h : Program.TrimmedTo body body') :
      Statement.TrimmedTo before (.partialBlock call body opening closing span)
        (.partialBlock call body' opening closing span)
  | decoratorBlock {before : Option String} {body body' : Program} (call : Call)
      (opening closing : Strip) (span : Span) (h : Program.TrimmedTo body body') :
      Statement.TrimmedTo before (.decoratorBlock call body opening closing span)
        (.decoratorBlock call body' opening closing span)

/-- A program is trimmed if its body is. -/
inductive Program.TrimmedTo : Program → Program → Prop where
  | mk {body body' : List Statement} (params : List String) (chained : Bool) (span : Span)
      (h : BodyTrimmedTo none body body') :
      Program.TrimmedTo ⟨body, params, chained, span⟩ ⟨body', params, chained, span⟩

/-- The same for sections that may be missing. -/
inductive SectionTrimmedTo : Option Program → Option Program → Prop where
  | none : SectionTrimmedTo none none
  | some {p p' : Program} (h : Program.TrimmedTo p p') : SectionTrimmedTo (some p) (some p')

/-- The same for the statements of a body, of which the first comes after `before`. -/
inductive BodyTrimmedTo : (before : Option String) → List Statement → List Statement → Prop where
  | nil {before : Option String} : BodyTrimmedTo before [] []
  | cons {before : Option String} {s s' : Statement} {rest rest' : List Statement}
      (h : Statement.TrimmedTo before s s') (hrest : BodyTrimmedTo s.written? rest rest') :
      BodyTrimmedTo before (s :: rest) (s' :: rest')

end

theorem Statement.TrimmedTo.written?_eq {before : Option String} {s s' : Statement}
    (h : s.TrimmedTo before s') : s'.written? = s.written? := by
  cases h with
  | content h => exact congrArg some h.written_eq
  | _ => rfl

/-! ## Trimming twice -/

theorem Content.TrimmedTo.refl (c : Content) : c.TrimmedTo c := ⟨.refl _, rfl, rfl⟩

theorem Content.TrimmedTo.trans {c c' c'' : Content} (h : c.TrimmedTo c') (h' : c'.TrimmedTo c'') :
    c.TrimmedTo c'' :=
  ⟨h.value.trans h'.value, h'.written_eq.trans h.written_eq, h'.span_eq.trans h.span_eq⟩

mutual

/-- What is left as it is counts as trimmed: a statement, -/
theorem Statement.TrimmedTo.refl (before : Option String) (s : Statement) :
    s.TrimmedTo before s := by
  match s with
  | .content c => exact .content (.refl c)
  | .comment .. => exact .comment ..
  | .mustache .. => exact .mustache ..
  | .partialCall .. => exact .partialCall _ _ _ (.inl rfl)
  | .decorator .. => exact .decorator ..
  | .block _ main inverse _ _ =>
    exact .block _ _ _ (SectionTrimmedTo.refl main) (SectionTrimmedTo.refl inverse)
  | .partialBlock _ body _ _ _ => exact .partialBlock _ _ _ _ (Program.TrimmedTo.refl body)
  | .decoratorBlock _ body _ _ _ => exact .decoratorBlock _ _ _ _ (Program.TrimmedTo.refl body)

/-- a program, -/
theorem Program.TrimmedTo.refl (p : Program) : p.TrimmedTo p := by
  match p with
  | ⟨body, _, _, _⟩ => exact .mk _ _ _ (BodyTrimmedTo.refl none body)

/-- a section, -/
theorem SectionTrimmedTo.refl (p : Option Program) : SectionTrimmedTo p p := by
  match p with
  | none => exact .none
  | some p => exact .some (Program.TrimmedTo.refl p)

/-- and a body. -/
theorem BodyTrimmedTo.refl (before : Option String) (body : List Statement) :
    BodyTrimmedTo before body body := by
  match body with
  | [] => exact .nil
  | s :: rest => exact .cons (Statement.TrimmedTo.refl before s) (BodyTrimmedTo.refl _ rest)

end

mutual

/-- **What is trimmed twice is trimmed**: a statement, -/
theorem Statement.TrimmedTo.trans {before : Option String} {s s' s'' : Statement}
    (h : s.TrimmedTo before s') (h' : s'.TrimmedTo before s'') : s.TrimmedTo before s'' := by
  match h, h' with
  | .content h, .content h' => exact .content (h.trans h')
  | .comment .., .comment .. => exact .comment ..
  | .mustache .., .mustache .. => exact .mustache ..
  | .decorator .., .decorator .. => exact .decorator ..
  | .partialCall _ _ _ h, .partialCall _ _ _ h' =>
    refine .partialCall _ _ _ ?_
    rcases h' with rfl | h'
    · exact h
    · exact .inr h'
  | .block _ _ _ h₁ h₂, .block _ _ _ h₁' h₂' => exact .block _ _ _ (h₁.trans h₁') (h₂.trans h₂')
  | .partialBlock _ _ _ _ h, .partialBlock _ _ _ _ h' => exact .partialBlock _ _ _ _ (h.trans h')
  | .decoratorBlock _ _ _ _ h, .decoratorBlock _ _ _ _ h' =>
    exact .decoratorBlock _ _ _ _ (h.trans h')
termination_by structural h

/-- a program, -/
theorem Program.TrimmedTo.trans {p p' p'' : Program} (h : p.TrimmedTo p') (h' : p'.TrimmedTo p'') :
    p.TrimmedTo p'' := by
  match h, h' with
  | .mk _ _ _ h, .mk _ _ _ h' => exact .mk _ _ _ (h.trans h')
termination_by structural h

/-- a section, -/
theorem SectionTrimmedTo.trans {p p' p'' : Option Program} (h : SectionTrimmedTo p p')
    (h' : SectionTrimmedTo p' p'') : SectionTrimmedTo p p'' := by
  match h, h' with
  | .none, .none => exact .none
  | .some h, .some h' => exact .some (h.trans h')
termination_by structural h

/-- and a body. -/
theorem BodyTrimmedTo.trans {before : Option String} {body body' body'' : List Statement}
    (h : BodyTrimmedTo before body body') (h' : BodyTrimmedTo before body' body'') :
    BodyTrimmedTo before body body'' := by
  match h, h' with
  | .nil, .nil => exact .nil
  | .cons h hrest, .cons h' hrest' =>
    -- What comes next is compared with how the statement was written, which trims leave alone.
    exact .cons (h.trans h') (hrest.trans (h.written?_eq ▸ hrest'))
termination_by structural h

end

/-! ## Trims -/

/-- A content is trimmed at the start, -/
theorem Content.trimmedTo_trimStart (e : Extent) (c : Content) : c.TrimmedTo (c.trimStart e) := by
  simp only [trimStart]
  split
  · exact .refl c
  · refine ⟨?_, rfl, rfl⟩
    rw [String.toList_ofList]
    cases e with
    | all => exact Text.trimmed_dropWhile (fun _ h => h) _
    | line => exact Text.trimmed_dropLineStart _

/-- at the end, -/
theorem Content.trimmedTo_trimEnd (e : Extent) (c : Content) : c.TrimmedTo (c.trimEnd e) := by
  simp only [trimEnd]
  split
  · exact .refl c
  · refine ⟨?_, rfl, rfl⟩
    rw [String.toList_ofList]
    cases e with
    | all => exact Text.trimmed_dropEndWhile (fun _ h => h) _
    | line => exact Text.trimmed_dropEndWhile (fun _ => Text.isBlank_of_isIndent) _

/-- and many times. -/
theorem Content.trimmedTo_foldl_trimStart (extents : List Extent) (c : Content) :
    c.TrimmedTo (extents.foldl trimStart c) := by
  induction extents generalizing c with
  | nil => exact .refl c
  | cons e extents ih => exact (c.trimmedTo_trimStart e).trans (ih _)

/-- A change of bodies that only trims. -/
def Trims (f : List Statement → List Statement) : Prop :=
  ∀ before body, BodyTrimmedTo before body (f body)

/-- The first content of a body is trimmed, -/
theorem trims_trimFirst (e : Extent) : Trims (trimFirst e) := by
  intro before body
  match body with
  | [] => exact .nil
  | s :: rest =>
    cases s with
    | content c => exact .cons (.content (c.trimmedTo_trimStart e)) (.refl _ rest)
    | _ => exact .refl before _

/-- and the last. -/
theorem trims_trimLast (e : Extent) : Trims (trimLast e) := by
  intro before body
  induction body generalizing before with
  | nil => exact .nil
  | cons s rest ih =>
    by_cases hrest : rest = []
    · subst hrest
      cases s with
      | content c => exact .cons (.content (c.trimmedTo_trimEnd e)) .nil
      | _ => exact .refl before _
    · rw [trimLast_cons e s hrest]
      exact .cons (.refl before s) (ih _)

section Trims

variable {f : List Statement → List Statement} (hf : Trims f)

include hf

/-- A trim may be made or not, -/
theorem Trims.ite (wanted : Bool) : Trims fun body => if wanted then f body else body := by
  intro before body
  cases wanted with
  | true => exact hf before body
  | false => exact .refl before body

/-- to the body of a program, -/
theorem Trims.onBody (p : Program) : p.TrimmedTo (p.onBody f) := by
  obtain ⟨body, params, chained, span⟩ := p
  exact .mk _ _ _ (hf none body)

/-- to that of a section, -/
theorem Trims.onSection (p : Option Program) : SectionTrimmedTo p (p.map (Program.onBody f)) := by
  cases p with
  | none => exact .none
  | some p => exact .some (hf.onBody p)

/-- to the body that a chain shows, -/
theorem Trims.onFace (p : Program) : p.TrimmedTo (p.onFace f) := by
  rw [Program.onFace]
  split
  · rename_i call main inverse strip span rest hchained hbody
    obtain ⟨body, params, chained, around⟩ := p
    simp only at hbody
    subst hbody
    exact .mk _ _ _ (.cons (.block _ _ _ (.some (hf.onBody main)) (.refl inverse)) (.refl _ rest))
  · exact hf.onBody p

/-- to the first section of a statement, -/
theorem Trims.onLeading (before : Option String) (s : Statement) :
    s.TrimmedTo before (s.onLeading f) := by
  cases s with
  | block call main inverse strip span =>
    cases main with
    | some main => exact .block _ _ _ (.some (hf.onBody main)) (.refl inverse)
    | none => exact .block _ _ _ .none (hf.onSection inverse)
  | partialBlock call body opening closing span => exact .partialBlock _ _ _ _ (hf.onBody body)
  | decoratorBlock call body opening closing span => exact .decoratorBlock _ _ _ _ (hf.onBody body)
  | _ => exact .refl before _

/-- and to the last one. -/
theorem Trims.onTrailing (before : Option String) (s : Statement) :
    s.TrimmedTo before (s.onTrailing f) := by
  cases s with
  | block call main inverse strip span =>
    cases inverse with
    | some inverse => exact .block _ _ _ (.refl main) (.some (hf.onBody inverse))
    | none => exact .block _ _ _ (hf.onSection main) .none
  | partialBlock call body opening closing span => exact .partialBlock _ _ _ _ (hf.onBody body)
  | decoratorBlock call body opening closing span => exact .decoratorBlock _ _ _ _ (hf.onBody body)
  | _ => exact .refl before _

end Trims

/-! ## The statements before a place -/

/-- How the last statement of a body is written, if it is content; of an empty body, `before`. -/
def lastWritten (before : Option String) (body : List Statement) : Option String :=
  body.foldl (fun _ s => s.written?) before

theorem lastWritten_cons (before : Option String) (s : Statement) (body : List Statement) :
    lastWritten before (s :: body) = lastWritten s.written? body := rfl

theorem lastWritten_reverse_cons (before : Option String) (s : Statement) (body : List Statement) :
    lastWritten before (s :: body).reverse = s.written? := by
  rw [lastWritten, List.reverse_cons, List.foldl_append]
  rfl

/-- It is written as it was. -/
theorem BodyTrimmedTo.lastWritten_eq {before : Option String} {body body' : List Statement}
    (h : BodyTrimmedTo before body body') : lastWritten before body' = lastWritten before body := by
  induction body generalizing before body' with
  | nil =>
    cases h
    rfl
  | cons s rest ih =>
    obtain _ | ⟨h, hrest⟩ := h
    rw [lastWritten_cons, lastWritten_cons, h.written?_eq, ih hrest]

/-- A statement after a body. -/
theorem BodyTrimmedTo.concat {before : Option String} {body body' : List Statement}
    {s s' : Statement} (h : BodyTrimmedTo before body body')
    (hs : s.TrimmedTo (lastWritten before body) s') :
    BodyTrimmedTo before (body ++ [s]) (body' ++ [s']) := by
  induction body generalizing before body' with
  | nil =>
    cases h
    exact .cons hs .nil
  | cons s rest ih =>
    obtain _ | ⟨h, hrest⟩ := h
    exact .cons h (ih hrest hs)

/-- The indentation before a statement is one that a partial may be given there. -/
theorem indents_latestIndent (before : Option String) (body : List Statement) :
    Indents (lastWritten before body.reverse) (latestIndent body) := by
  have hnone (w : Option String) : Indents w "" := ⟨by simp, List.nil_suffix⟩
  match body with
  | [] => exact hnone _
  | s :: more =>
    rw [lastWritten_reverse_cons]
    cases s with
    | content c =>
      show Indents (some c.written) c.indent
      rw [Content.indent]
      split
      · refine ⟨fun c hc => ?_, ?_⟩
        · rw [String.toList_ofList] at hc
          exact Text.isIndent_of_mem_indentEnd hc
        · rw [String.toList_ofList]
          exact Text.indentEnd_suffix _
      · exact hnone _
    | _ => exact hnone _

/-! ## The pass -/

/-- The sections of a block. -/
theorem trimmedTo_settleSections (standalone : Bool) (strip : BlockStrip) (main : Program)
    (inverse : Option Program) :
    main.TrimmedTo (settleSections standalone strip main inverse).1
      ∧ SectionTrimmedTo inverse (settleSections standalone strip main inverse).2.1 := by
  have hfirst (e : Extent) (wanted : Bool) := (trims_trimFirst e).ite wanted
  have hlast (e : Extent) (wanted : Bool) := (trims_trimLast e).ite wanted
  cases inverse with
  | none => exact ⟨((hfirst _ _).onBody main).trans ((hlast _ _).onBody _), .none⟩
  | some inverse =>
    exact ⟨((hfirst _ _).onBody main).trans (((hlast _ _).onBody _).trans ((hlast _ _).onBody _)),
      .some (((hfirst _ _).onFace inverse).trans
        (((hlast _ _).onFace _).trans ((hfirst _ _).onFace _)))⟩

/-- The statements before a place, given latest first. -/
theorem trimmedTo_trimLatest (e : Extent) (before : List Statement) :
    BodyTrimmedTo none before.reverse (trimLatest e before).reverse := by
  have h := trims_trimLast e none before.reverse
  rwa [trimLast, List.reverse_reverse] at h

theorem Statement.TrimmedTo.ite {before : Option String} {s s' : Statement}
    (h : s.TrimmedTo before s') (wanted : Bool) :
    s.TrimmedTo before (if wanted then s' else s) := by
  cases wanted with
  | true => exact h
  | false => exact .refl before s

theorem Statement.trimmedTo_withIndent {before : Option String} {indent : String} (s : Statement)
    (h : Indents before indent) : s.TrimmedTo before (s.withIndent indent) := by
  cases s with
  | partialCall call old strip span => exact .partialCall _ _ _ (.inr h)
  | _ => exact .refl before _

/-- A statement in its place, and those before it. -/
theorem trimmedTo_place (standalone atTop : Bool) (before after : List Statement) (s : Statement)
    (d : Demand) :
    s.TrimmedTo (lastWritten none before.reverse)
        (place standalone atTop before after s d).statement
      ∧ BodyTrimmedTo none before.reverse
        (place standalone atTop before after s d).before.reverse := by
  have htrim (wanted : Bool) (e : Extent) (before : List Statement) :
      BodyTrimmedTo none before.reverse
        (if wanted then trimLatest e before else before).reverse := by
    cases wanted with
    | true => exact trimmedTo_trimLatest e before
    | false => exact .refl none _
  -- The indentation is taken when blanks before the tag may be gone already, but it is compared
  -- with how the content was written.
  have hindent := indents_latestIndent none
    (if d.strip.opening then trimLatest .all before else before)
  rw [(htrim d.strip.opening .all before).lastWritten_eq] at hindent
  constructor
  · exact ((s.trimmedTo_withIndent hindent).ite _).trans <|
      (((trims_trimFirst .line).onLeading _ _).ite _).trans
        (((trims_trimLast .line).onTrailing _ _).ite _)
  · exact (htrim _ _ before).trans ((htrim _ _ _).trans (htrim _ _ _))

/-- One step of the pass, over a statement that is not content. -/
theorem settleBody_cons_of_not_content {s : Statement} (hs : ¬ s.IsContent)
    (standalone atTop : Bool) (before rest : List Statement) (carried : List Extent) :
    settleBody standalone atTop before carried (s :: rest)
      = let placed := place standalone atTop before rest (s.settle standalone).1
          (s.settle standalone).2
        settleBody standalone atTop (placed.statement :: placed.before) placed.carried rest := by
  rw [settleBody]
  exact fun c hc => hs (hc ▸ trivial)

/-- A statement that is settled and put in its place after a body. -/
theorem BodyTrimmedTo.place {done before : List Statement} {s s' : Statement} {d : Demand}
    (hdone : BodyTrimmedTo none done before.reverse) (standalone atTop : Bool)
    (after : List Statement) (hs : ∀ before, s.TrimmedTo before s') :
    let placed := place standalone atTop before after s' d
    BodyTrimmedTo none (done ++ [s]) (placed.statement :: placed.before).reverse := by
  obtain ⟨hplaced, hbefore⟩ := trimmedTo_place standalone atTop before after s' d
  rw [hdone.lastWritten_eq] at hplaced
  intro placed
  rw [List.reverse_cons]
  exact (hdone.trans hbefore).concat ((hs _).trans hplaced)

mutual

/-- **Settling trims** a statement, -/
theorem Statement.trimmedTo_settle (standalone : Bool) (before : Option String) (s : Statement) :
    s.TrimmedTo before (s.settle standalone).1 := by
  -- the recursion is that of settling, for statements, programs, sections and bodies
  match s with
  | .content _ | .comment .. | .mustache .. | .partialCall .. | .decorator .. =>
    exact .refl before _
  | .block call (some main) inverse strip span =>
    obtain ⟨hmain, hinverse⟩ := trimmedTo_settleSections standalone strip
      (main.settle standalone false) (settleSection standalone inverse)
    exact .block _ _ _ (.some ((Program.trimmedTo_settle standalone false main).trans hmain))
      ((trimmedTo_settleSection standalone inverse).trans hinverse)
  | .block call none (some inverse) strip span =>
    have hinverse := trimmedTo_settleSections standalone strip
      (inverse.settle standalone false) none
    exact .block _ _ _ .none
      (.some ((Program.trimmedTo_settle standalone false inverse).trans hinverse.1))
  | .block call none none strip span => exact .refl before _
  | .partialBlock call body opening closing span =>
    have hbody := trimmedTo_settleSections standalone ⟨opening, .none, closing⟩
      (body.settle standalone false) none
    exact .partialBlock _ _ _ _ ((Program.trimmedTo_settle standalone false body).trans hbody.1)
  | .decoratorBlock call body opening closing span =>
    have hbody := trimmedTo_settleSections standalone ⟨opening, .none, closing⟩
      (body.settle standalone false) none
    exact .decoratorBlock _ _ _ _ ((Program.trimmedTo_settle standalone false body).trans hbody.1)

/-- a program, -/
theorem Program.trimmedTo_settle (standalone atTop : Bool) (p : Program) :
    p.TrimmedTo (p.settle standalone atTop) := by
  match p with
  | ⟨body, params, chained, span⟩ =>
    have hnone : BodyTrimmedTo none [] [].reverse := .refl none []
    have hbody := trimmedTo_settleBody standalone atTop hnone [] body
    exact .mk _ _ _ hbody

/-- and a section. -/
theorem trimmedTo_settleSection (standalone : Bool) (p : Option Program) :
    SectionTrimmedTo p (settleSection standalone p) := by
  match p with
  | none => exact .none
  | some p => exact .some (Program.trimmedTo_settle standalone false p)

/-- The statements that the pass has been over are those that were there, trimmed; the others are
    still to come. -/
theorem trimmedTo_settleBody (standalone atTop : Bool) {done before : List Statement}
    (hdone : BodyTrimmedTo none done before.reverse) (carried : List Extent)
    (body : List Statement) :
    BodyTrimmedTo none (done ++ body) (settleBody standalone atTop before carried body) := by
  match body with
  | [] =>
    rw [List.append_nil]
    exact hdone
  | s :: rest =>
    have hs := fun before => Statement.trimmedTo_settle standalone before s
    rw [List.append_cons]
    by_cases hcontent : s.IsContent
    · match s, hcontent with
      | .content c, _ =>
        rw [settleBody]
        have hnext := hdone.concat (.content (c.trimmedTo_foldl_trimStart carried))
        rw [← List.reverse_cons] at hnext
        exact trimmedTo_settleBody standalone atTop hnext [] rest
    · rw [settleBody_cons_of_not_content hcontent]
      exact trimmedTo_settleBody standalone atTop (hdone.place standalone atTop rest hs) _ rest

end

/-- **Whitespace control trims**, and does nothing else. -/
theorem Program.trimmedTo_trimmed (standalone : Bool) (p : Program) :
    p.TrimmedTo (p.trimmed standalone) :=
  p.trimmedTo_settle standalone true

end Stache
