/-
  Trees that are alike are compiled alike.

  Compiling goes through two trees that are alike (`Program.Alike`) in step.  Either both are
  refused, for the same reason, or both succeed and the results are alike (`Both`); that is so for
  each function of the compiler, since what it does next never depends on a position.

  In the STRICT sense, all helpers have to be known.  A helper that is not known is an error then,
  and no value is looked up as a helper or else a place, so the hook for missing helpers is nowhere
  in the result.
-/
import Stache.Proofs.Nesting.Alike
import Stache.Proofs.Script.Likeness

namespace Stache

/-! ## Trees are like themselves -/

mutual

/-- An expression is like itself, in the strict sense if its numbers are, -/
theorem Expression.alike_self {strict : Bool} {e : Expression}
    (h : strict = true → e.IsNumeric) : e.Alike strict e := by
  match e with
  | .path p => exact .path ⟨p.span, rfl⟩
  | .subexpression call span => exact .subexpression (Call.alike_self h)
  | .number written span => exact .number h
  | .string _ _ _ => exact .string
  | .boolean value _ => exact .boolean value
  | .undefined _ => exact .undefined
  | .null _ => exact .null

/-- so is a call, -/
theorem Call.alike_self {strict : Bool} {c : Call} (h : strict = true → c.IsNumeric) :
    c.Alike strict c := by
  match c with
  | ⟨callee, params, hash⟩ =>
    exact .mk (Expression.alike_self fun hs => (h hs).1) (paramsAlike_self fun hs => (h hs).2.1)
      (hashAlike_self fun hs => (h hs).2.2)

/-- rows of parameters, -/
theorem paramsAlike_self {strict : Bool} {params : List Expression}
    (h : strict = true → paramsNumeric params) : ParamsAlike strict params params := by
  match params with
  | [] => exact .nil
  | e :: rest =>
    exact .cons (Expression.alike_self fun hs => (h hs).1) (paramsAlike_self fun hs => (h hs).2)

/-- hashes, -/
theorem hashAlike_self {strict : Bool} {hash : Option Hash}
    (h : strict = true → hashNumeric hash) : HashAlike strict hash hash := by
  match hash with
  | none => exact .none
  | some ⟨pairs, span⟩ => exact .some (pairsAlike_self h)

/-- and their pairs. -/
theorem pairsAlike_self {strict : Bool} {pairs : List Pair}
    (h : strict = true → pairsNumeric pairs) : PairsAlike strict pairs pairs := by
  match pairs with
  | [] => exact .nil
  | ⟨key, value, span⟩ :: rest =>
    exact .cons key (Expression.alike_self fun hs => (h hs).1) (pairsAlike_self fun hs => (h hs).2)

end

/-- The numbers in the call of a statement are written as numbers. -/
def Statement.IsNumeric (s : Statement) : Prop := ∀ call, s.call? = some call → call.IsNumeric

mutual

/-- A statement is like itself, -/
theorem Statement.alike_self {strict : Bool} {s : Statement} (hs : s.IsNumeric)
    (hinside : ∀ q ∈ s.programs, ∀ s ∈ q.body, s.IsNumeric) : s.Alike strict s := by
  match s with
  | .content c => exact .content rfl
  | .comment _ _ _ => exact .comment
  | .mustache call _ _ _ => exact .mustache (Call.alike_self fun _ => hs call rfl)
  | .partialCall call indent _ _ => exact .partialCall indent (Call.alike_self fun _ => hs call rfl)
  | .decorator call _ _ => exact .decorator (Call.alike_self fun _ => hs call rfl)
  | .block call main inverse _ _ =>
    obtain ⟨hmain, hinverse⟩ := List.forall_mem_append.1 hinside
    exact .block (Call.alike_self fun _ => hs call rfl) (sectionAlike_self hmain)
      (sectionAlike_self hinverse)
  | .partialBlock call body _ _ _ =>
    exact .partialBlock (Call.alike_self fun _ => hs call rfl) (Program.alike_self hinside)
  | .decoratorBlock call body _ _ _ =>
    exact .decoratorBlock (Call.alike_self fun _ => hs call rfl) (Program.alike_self hinside)

/-- **A tree is like itself**, even in the strict sense if its numbers are written as numbers. -/
theorem Program.alike_self {strict : Bool} {p : Program}
    (h : ∀ q ∈ p.family, ∀ s ∈ q.body, s.IsNumeric) : p.Alike strict p := by
  match p with
  | ⟨body, params, chained, span⟩ => exact .mk params (bodyAlike_self (forall_family_iff.1 h))

/-- a section, -/
theorem sectionAlike_self {strict : Bool} {p : Option Program}
    (h : ∀ q ∈ sectionPrograms p, ∀ s ∈ q.body, s.IsNumeric) : SectionAlike strict p p := by
  match p with
  | none => exact .none
  | some p => exact .some (Program.alike_self h)

/-- and a body. -/
theorem bodyAlike_self {strict : Bool} {body : List Statement}
    (h : RowForall Statement.IsNumeric body) : BodyAlike strict body body := by
  match body with
  | [] => exact .nil
  | s :: rest =>
    obtain ⟨⟨hs, hinside⟩, hrest⟩ := rowForall_cons.1 h
    exact .cons (Statement.alike_self hs hinside) (bodyAlike_self hrest)

end

/-! ## Two runs -/

/-- Failures for the same reason.  Where a call stands in the template is left out. -/
def CompileFailure.SameKind : CompileFailure → CompileFailure → Prop
  | .unknownHelper name _, .unknownHelper name' _ => name = name'
  | .partialArguments count _, .partialArguments count' _ => count = count'
  | .computedHelper _, .computedHelper _ => True
  | _, _ => False

namespace Script

/-- Both runs fail for the same reason, or both succeed with results that belong together. -/
inductive Both {α β : Type} (R : α → β → Prop) :
    Except CompileFailure α → Except CompileFailure β → Prop where
  | ok {a : α} {b : β} (h : R a b) : Both R (.ok a) (.ok b)
  | error {failure failure' : CompileFailure} (h : failure.SameKind failure') :
      Both R (.error failure) (.error failure')

section Both

variable {α β α' β' : Type} {R : α → β → Prop} {S : α' → β' → Prop}
  {x : Except CompileFailure α} {y : Except CompileFailure β}

theorem Both.bind {f : α → Except CompileFailure α'} {g : β → Except CompileFailure β'}
    (h : Both R x y) (hnext : ∀ a b, R a b → Both S (f a) (g b)) :
    Both S (x >>= f) (y >>= g) := by
  cases h with
  | ok h => exact hnext _ _ h
  | error h => exact .error h

theorem Both.map {f : α → α'} {g : β → β'} (h : Both R x y) (hnext : ∀ a b, R a b → S (f a) (g b)) :
    Both S (x >>= fun a => .ok (f a)) (y >>= fun b => .ok (g b)) :=
  h.bind fun a b hab => .ok (hnext a b hab)

theorem Both.mapped {f : α → α'} {g : β → β'} (h : Both R x y)
    (hnext : ∀ a b, R a b → S (f a) (g b)) : Both S (x.map f) (y.map g) := by
  cases h with
  | ok h => exact .ok (hnext _ _ h)
  | error h => exact .error h

end Both

section

variable {strict : Bool} {scope : Scope}

/-- All helpers have to be known, in the strict sense. -/
def Scope.Suits (strict : Bool) (scope : Scope) : Prop :=
  strict = true → scope.options.knownHelpersOnly = true

/-! ## Callees -/

/-- Where a path is looked up does not depend on its span, -/
theorem Scope.resolve_alike {p p' : Path} (h : p.Alike p') :
    scope.resolve p = scope.resolve p' := by
  obtain ⟨span, rfl⟩ := h
  rfl

/-- A name is called by the same path. -/
theorem calleePath_alike {e e' : Expression} (h : e.Alike strict e') :
    Both Path.Alike (calleePath e) (calleePath e') := by
  cases h with
  | path h => exact .ok h
  | subexpression h => exact .error trivial
  | string | number | boolean | undefined | null => exact .ok ⟨_, rfl⟩

/-- and so what is called. -/
theorem calleeOf_alike (hscope : scope.Suits strict) {p p' : Path} (h : p.Alike p')
    (span span' : Span) :
    Both (fun callee callee' => callee = callee' ∧ callee.Hooked strict)
      (scope.calleeOf p span) (scope.calleeOf p' span') := by
  obtain ⟨_, rfl⟩ := h
  unfold Scope.calleeOf
  show Both _ (if (p.isSimple && scope.knows p.head) = true then _ else _)
    (if (p.isSimple && scope.knows p.head) = true then _ else _)
  split
  · exact .ok ⟨rfl, trivial⟩
  · split
    · exact .error rfl
    · rename_i honly
      refine .ok ⟨rfl, Bool.eq_false_iff.2 fun hstrict => honly (hscope hstrict)⟩

/-! ## Arguments -/

/-- Parts of a call of a helper that are alike. -/
structure CallAlike (strict : Bool) (f : Features) (r r' : Callee × List Code × Options) :
    Prop where
  callee : r.1 = r'.1
  hooked : r.1.Hooked strict
  args : RowAlike strict (writeArgs f r.2.1) (writeArgs f r'.2.1)
  options : Alike strict (r.2.2.write f) (r'.2.2.write f)

mutual

/-- **Arguments that are alike are compiled alike**, -/
theorem compileArgument_alike (hscope : scope.Suits strict) (f : Features) {e e' : Expression}
    (h : e.Alike strict e') :
    Both (fun code code' => Alike strict (code.write f) (code'.write f))
      (compileArgument scope e) (compileArgument scope e') := by
  match h with
  | .path h =>
    rw [compileArgument, compileArgument, Scope.resolve_alike h]
    exact .ok (Place.alike_write _)
  | .subexpression h =>
    rw [compileArgument, compileArgument]
    have hcallee := h.callee
    refine (calleePath_alike hcallee).bind fun path path' hpath => ?_
    refine (compileCall_alike hscope f h hpath none _ _).map ?_
    rintro ⟨callee, args, options⟩ ⟨_, args', options'⟩ ⟨rfl, hhooked, hargs, hoptions⟩
    exact alike_helper hhooked hargs hoptions
  | .string =>
    rw [compileArgument, compileArgument]
    exact .ok (alike_quoted _)
  | .number h =>
    rw [compileArgument, compileArgument]
    exact .ok (.number h)
  | .boolean true =>
    rw [compileArgument, compileArgument]
    exact .ok (.fixed (by decide))
  | .boolean false =>
    rw [compileArgument, compileArgument]
    exact .ok (.fixed (by decide))
  | .undefined | .null =>
    rw [compileArgument, compileArgument]
    exact .ok (.fixed (by decide))
termination_by structural h

/-- calls are, -/
theorem compileCall_alike (hscope : scope.Suits strict) (f : Features) {call call' : Call}
    (h : call.Alike strict call') {path path' : Path} (hpath : path.Alike path')
    (sections : Option Sections) (span span' : Span) :
    Both (CallAlike strict f) (compileCall scope path sections span call)
      (compileCall scope path' sections span' call') := by
  match h with
  | .mk _ hparams hhash =>
    rw [compileCall, compileCall]
    refine (calleeOf_alike hscope hpath span span').bind ?_
    rintro callee _ ⟨rfl, hhooked⟩
    refine (compileArguments_alike hscope f hparams).bind fun args args' hargs => ?_
    refine (compileHash_alike hscope f hhash).map fun entries entries' hentries => ?_
    obtain ⟨_, rfl⟩ := hpath
    exact ⟨rfl, hhooked, hargs, alike_options hentries⟩
termination_by structural h

/-- rows of parameters, -/
theorem compileArguments_alike (hscope : scope.Suits strict) (f : Features)
    {params params' : List Expression} (h : ParamsAlike strict params params') :
    Both (fun args args' => RowAlike strict (writeArgs f args) (writeArgs f args'))
      (compileArguments scope params) (compileArguments scope params') := by
  match h with
  | .nil =>
    rw [compileArguments]
    exact .ok .nil
  | .cons h hrest =>
    rw [compileArguments, compileArguments]
    refine (compileArgument_alike hscope f h).bind fun code code' hcode => ?_
    exact (compileArguments_alike hscope f hrest).map fun args args' hargs => .cons hcode hargs
termination_by structural h

/-- and hashes. -/
theorem compileHash_alike (hscope : scope.Suits strict) (f : Features)
    {hash hash' : Option Hash} (h : HashAlike strict hash hash') :
    Both (fun entries entries' => RowAlike strict (writeEntries f entries)
        (writeEntries f entries'))
      (compileHash scope hash) (compileHash scope hash') := by
  match h with
  | .none =>
    rw [compileHash]
    exact .ok .nil
  | .some h =>
    rw [compileHash, compileHash]
    exact compilePairs_alike hscope f h
termination_by structural h

theorem compilePairs_alike (hscope : scope.Suits strict) (f : Features)
    {pairs pairs' : List Pair} (h : PairsAlike strict pairs pairs') :
    Both (fun entries entries' => RowAlike strict (writeEntries f entries)
        (writeEntries f entries'))
      (compilePairs scope pairs) (compilePairs scope pairs') := by
  match h with
  | .nil =>
    rw [compilePairs]
    exact .ok .nil
  | .cons key h hrest =>
    have hcolon : Alike strict ":" ":" := .fixed (by decide)
    rw [compilePairs, compilePairs]
    refine (compileArgument_alike hscope f h).bind fun code code' hcode => ?_
    exact (compilePairs_alike hscope f hrest).map fun entries entries' hentries =>
      .cons (((alike_quoted key).append hcolon).append hcode) hentries
termination_by structural h

end

/-! ## Tags -/

theorem hasArguments_alike {call call' : Call} (h : call.Alike strict call') :
    call.hasArguments = call'.hasArguments := by
  cases h with
  | mk _ hparams hhash => cases hparams <;> cases hhash <;> rfl

theorem kindOf_either (hscope : scope.Suits strict) {p : Path} {hasArguments : Bool}
    (h : scope.kindOf p hasArguments = .either) : strict = false := by
  rw [Bool.eq_false_iff]
  intro hstrict
  rw [Scope.kindOf, hscope hstrict] at h
  repeat' split at h
  all_goals simp_all

theorem compileInvocation_alike (hscope : scope.Suits strict) (f : Features)
    (sections : Option Sections) (span span' : Span) {call call' : Call}
    (h : call.Alike strict call') :
    Both (Invocation.Alike strict f) (compileInvocation scope sections span call)
      (compileInvocation scope sections span' call') := by
  rw [compileInvocation, compileInvocation, ← hasArguments_alike h]
  refine (calleePath_alike h.callee).bind fun path path' hpath => ?_
  have hcall := compileCall_alike hscope f h hpath sections span span'
  obtain ⟨elsewhere, rfl⟩ := hpath
  have hkinds : scope.kindOf { path with span := elsewhere } call.hasArguments
      = scope.kindOf path call.hasArguments := rfl
  rw [hkinds]
  cases hkind : scope.kindOf path call.hasArguments with
  | helper =>
    refine hcall.map ?_
    rintro ⟨callee, args, options⟩ ⟨_, args', options'⟩ ⟨rfl, hhooked, hargs, hoptions⟩
    exact .helper hhooked hargs hoptions
  | either => exact .ok (.either (kindOf_either hscope hkind) rfl (alike_options .nil))
  | plain => exact .ok (.plain (alike_options .nil))

/-- Targets that are written alike and have the same name. -/
structure Target.Alike (strict : Bool) (f : Features) (target target' : Target) : Prop where
  write : Script.Alike strict (target.write f) (target'.write f)
  name : target.name? = target'.name?

theorem Target.alike_self {target : Target} (f : Features) (h : ∀ code, target ≠ .computed code) :
    target.Alike strict f target := by
  cases target with
  | named name =>
    have h₁ : Script.Alike strict "lookupProperty(partials," _ := .fixed (by decide)
    have h₂ : Script.Alike strict ")" ")" := .fixed (by decide)
    exact ⟨(h₁.append (alike_quoted name)).append h₂, rfl⟩
  | enclosing => exact ⟨.fixed (by decide), rfl⟩
  | computed code => exact (h code rfl).elim

theorem compileTarget_alike (hscope : scope.Suits strict) (f : Features) {e e' : Expression}
    (h : e.Alike strict e') :
    Both (Target.Alike strict f) (compileTarget scope e) (compileTarget scope e') := by
  cases h with
  | path h =>
    obtain ⟨_, rfl⟩ := h
    refine .ok (Target.alike_self f fun code => ?_)
    split <;> exact Target.noConfusion
  | subexpression h =>
    rw [compileTarget, compileTarget]
    exact (compileArgument_alike hscope f (.subexpression h)).mapped fun _ _ hcode => ⟨hcode, rfl⟩
  | string | number | boolean | undefined | null =>
    exact .ok (Target.alike_self f fun _ => Target.noConfusion)

/-- So are calls of partials, -/
theorem compilePartial_alike (hscope : scope.Suits strict) (f : Features) (indent : String)
    (span span' : Span) {call call' : Call} (h : call.Alike strict call') :
    Both (PartialCall.Alike strict f) (compilePartial scope indent span call)
      (compilePartial scope indent span' call') := by
  obtain @⟨callee, callee', params, params', hash, hash', hcallee, hparams, hhash⟩ := h
  have hlength : params.length = params'.length := hparams.length_eq
  rw [compilePartial, compilePartial]
  show Both _ (if 1 < params.length then _ else _) (if 1 < params'.length then _ else _)
  rw [← hlength]
  by_cases hcount : 1 < params.length
  · rw [if_pos hcount, if_pos hcount]
    exact .error rfl
  rw [if_neg hcount, if_neg hcount]
  refine (compileTarget_alike hscope f hcallee).bind fun target target' htarget => ?_
  have hentries := compileHash_alike hscope f hhash
  -- what is made of alike parts is alike
  have hmake {context context' : Code} {entries entries' : List Entry}
      (hcontext : Alike strict (context.write f) (context'.write f))
      (hrow : RowAlike strict (writeEntries f entries) (writeEntries f entries')) :
      PartialCall.Alike strict f ⟨target, context, hash.map fun _ => entries, none, indent⟩
        ⟨target', context', hash'.map fun _ => entries', none, indent⟩ := by
    refine ⟨htarget.write, htarget.name, hcontext, ?_, rfl, rfl⟩
    cases hhash with
    | none => exact .nil
    | some => exact .cons (RowAlike.braces hrow) .nil
  cases hparams with
  | nil =>
    exact hentries.map fun entries entries' hentries =>
      hmake (Place.alike_write ⟨.context, []⟩) hentries
  | cons h hrest =>
    refine (compileArgument_alike hscope f h).bind fun context context' hcontext => ?_
    exact hentries.map fun entries entries' hentries => hmake hcontext hentries

/-- and decorators. -/
theorem compileDecorator_alike (hscope : scope.Suits strict) (f : Features) (body : Option Child)
    (span span' : Span) {call call' : Call} (h : call.Alike strict call') {path path' : Path}
    (hpath : path.Alike path') :
    Both (Decorator.Alike strict f) (compileDecorator scope path body span call)
      (compileDecorator scope path' body span' call') := by
  obtain ⟨-, hparams, hhash⟩ := h
  obtain ⟨_, rfl⟩ := hpath
  rw [compileDecorator, compileDecorator]
  refine (compileHash_alike hscope f hhash).bind fun entries entries' hentries => ?_
  exact (compileArguments_alike hscope f hparams).map fun args args' hargs =>
    ⟨rfl, hentries, rfl, hargs⟩

/-! ## Programs -/

/-- Pieces that are alike, one by one. -/
structure Pieces.Alike (strict : Bool) (f : Features) (pieces pieces' : Pieces) : Prop where
  operands : List.Forall₂ (fun o o' => o.value.Alike strict f o'.value) pieces.operands
    pieces'.operands
  decorators : List.Forall₂ (fun d d' => d.value.Alike strict f d'.value) pieces.decorators
    pieces'.decorators
  programs : List.Forall₂ (Function.Alike strict f) pieces.programs pieces'.programs

theorem Pieces.Alike.append {pieces pieces' more more' : Pieces} {f : Features}
    (h : pieces.Alike strict f pieces') (hmore : more.Alike strict f more') :
    (pieces.append more).Alike strict f (pieces'.append more') :=
  ⟨List.rel_append h.operands hmore.operands, List.rel_append h.decorators hmore.decorators,
    List.rel_append h.programs hmore.programs⟩

/-- The same program, with functions that are alike. -/
def ChildAlike (strict : Bool) (f : Features) (r r' : Child × List Function) : Prop :=
  r.1 = r'.1 ∧ List.Forall₂ (Function.Alike strict f) r.2 r'.2

/-- As many block parameters. -/
theorem params_alike {p p' : Option Program} (h : SectionAlike strict p p') :
    (p.map (·.blockParams.length)).getD 0 = (p'.map (·.blockParams.length)).getD 0 := by
  cases h with
  | none => rfl
  | some h =>
    cases h
    rfl

mutual

/-- **Statements that are alike are compiled alike**, -/
theorem compileStatement_alike {scope : Scope} (hscope : scope.Suits strict) (f : Features)
    (next : Nat) {s s' : Statement} (h : s.Alike strict s') :
    Both (Pieces.Alike strict f) (compileStatement scope next s)
      (compileStatement scope next s') := by
  match h with
  | .content hvalue =>
    rw [compileStatement, compileStatement, ← hvalue]
    refine .ok ⟨?_, .nil, .nil⟩
    dsimp only
    split
    · exact .nil
    · exact .cons (.text _) .nil
  | .comment =>
    rw [compileStatement, compileStatement]
    exact .ok ⟨.nil, .nil, .nil⟩
  | .mustache h =>
    rw [compileStatement, compileStatement]
    exact (compileInvocation_alike hscope f none _ _ h).map fun i i' hi =>
      ⟨.cons (.mustache _ hi) .nil, .nil, .nil⟩
  | .partialCall indent h =>
    rw [compileStatement, compileStatement]
    refine (compilePartial_alike hscope f _ _ _ h).map fun p p' hp => ?_
    refine ⟨List.rel_append ?_ (.cons (.partialCall hp) .nil), .nil, .nil⟩
    -- The indentation comes first, where it is an operand of its own.
    unfold indentOperand
    repeat' split
    · exact .nil
    · exact .cons (.text indent) .nil
    · exact .nil
  | .decorator h =>
    rw [compileStatement, compileStatement]
    refine (calleePath_alike h.callee).bind fun path path' hpath => ?_
    exact (compileDecorator_alike hscope f none _ _ h hpath).map fun d d' hd =>
      ⟨.nil, .cons hd .nil, .nil⟩
  | .block h hmain hinverse =>
    rw [compileStatement, compileStatement]
    refine (calleePath_alike h.callee).bind fun _ _ _ => ?_
    refine (compileSection_alike hscope f next hmain).bind ?_
    rintro ⟨first, inside⟩ ⟨_, inside'⟩ ⟨rfl, hinside⟩
    dsimp only at hinside ⊢
    rw [← hinside.length_eq]
    refine (compileSection_alike hscope f _ hinverse).bind ?_
    rintro ⟨second, more⟩ ⟨_, more'⟩ ⟨rfl, hmore⟩
    rw [← params_alike hmain]
    exact (compileInvocation_alike hscope f _ _ _ h).map fun i i' hi =>
      ⟨.cons (.block hi) .nil, .nil, List.rel_append hinside hmore⟩
  | .partialBlock h hbody =>
    rw [compileStatement, compileStatement]
    refine (compilePartial_alike hscope f _ _ _ h).bind fun p p' hp => ?_
    refine (compileChild_alike hscope f next hbody).map ?_
    rintro ⟨child, inside⟩ ⟨_, inside'⟩ ⟨rfl, hinside⟩
    exact ⟨.cons (.partialCall ⟨hp.target, hp.name, hp.context, hp.hash, rfl, hp.indent⟩) .nil,
      .nil, hinside⟩
  | .decoratorBlock h hbody =>
    rw [compileStatement, compileStatement]
    refine (calleePath_alike h.callee).bind fun path path' hpath => ?_
    refine (compileChild_alike hscope f next hbody).bind ?_
    rintro ⟨child, inside⟩ ⟨_, inside'⟩ ⟨rfl, hinside⟩
    exact (compileDecorator_alike hscope f (some child) _ _ h hpath).map fun d d' hd =>
      ⟨.nil, .cons hd .nil, hinside⟩
termination_by structural h

/-- programs are, -/
theorem compileChild_alike {scope : Scope} (hscope : scope.Suits strict) (f : Features)
    (next : Nat) {p p' : Program} (h : p.Alike strict p') :
    Both (ChildAlike strict f) (compileChild scope next p) (compileChild scope next p') := by
  match h with
  | .mk params h =>
    have hinner : (scope.enter params).Suits strict := hscope
    rw [compileChild, compileChild]
    exact (compileStatements_alike hinner f (next + 1) h).map fun pieces pieces' hpieces =>
      ⟨rfl, .cons ⟨hpieces.operands, hpieces.decorators⟩ hpieces.programs⟩
termination_by structural h

/-- sections, -/
theorem compileSection_alike {scope : Scope} (hscope : scope.Suits strict) (f : Features)
    (next : Nat) {p p' : Option Program} (h : SectionAlike strict p p') :
    Both (ChildAlike strict f) (compileSection scope next p) (compileSection scope next p') := by
  match h with
  | .none =>
    rw [compileSection]
    exact .ok ⟨rfl, .nil⟩
  | .some h =>
    rw [compileSection, compileSection]
    exact compileChild_alike hscope f next h
termination_by structural h

/-- and bodies. -/
theorem compileStatements_alike {scope : Scope} (hscope : scope.Suits strict) (f : Features)
    (next : Nat) {body body' : List Statement} (h : BodyAlike strict body body') :
    Both (Pieces.Alike strict f) (compileStatements scope next body)
      (compileStatements scope next body') := by
  match h with
  | .nil =>
    rw [compileStatements]
    exact .ok ⟨.nil, .nil, .nil⟩
  | .cons h hrest =>
    rw [compileStatements, compileStatements]
    refine (compileStatement_alike hscope f next h).bind fun first first' hfirst => ?_
    rw [← hfirst.programs.length_eq]
    exact (compileStatements_alike hscope f _ hrest).map fun more more' hmore =>
      hfirst.append hmore
termination_by structural h

end

end

/-! ## Features -/

variable {strict : Bool}

mutual

/-- Expressions that are alike go outwards together, -/
theorem climbsExpression_alike {e e' : Expression} (h : e.Alike strict e') :
    climbsExpression e = climbsExpression e' := by
  match h with
  | .path ⟨_, heq⟩ =>
    subst heq
    rfl
  | .subexpression h => exact climbsCall_alike h
  | .string | .number _ | .boolean _ | .undefined | .null => rfl
termination_by structural h

/-- and so do calls, -/
theorem climbsCall_alike {call call' : Call} (h : call.Alike strict call') :
    climbsCall call = climbsCall call' := by
  match h with
  | .mk hcallee hparams hhash =>
    rw [climbsCall, climbsCall, climbsExpression_alike hcallee, climbsParams_alike hparams,
      climbsHash_alike hhash]
termination_by structural h

/-- parameters, -/
theorem climbsParams_alike {params params' : List Expression}
    (h : ParamsAlike strict params params') : climbsParams params = climbsParams params' := by
  match h with
  | .nil => rfl
  | .cons h hrest =>
    rw [climbsParams, climbsParams, climbsExpression_alike h, climbsParams_alike hrest]
termination_by structural h

/-- hashes, -/
theorem climbsHash_alike {hash hash' : Option Hash} (h : HashAlike strict hash hash') :
    climbsHash hash = climbsHash hash' := by
  match h with
  | .none => rfl
  | .some h => exact climbsPairs_alike h
termination_by structural h

/-- and pairs. -/
theorem climbsPairs_alike {pairs pairs' : List Pair} (h : PairsAlike strict pairs pairs') :
    climbsPairs pairs = climbsPairs pairs' := by
  match h with
  | .nil => rfl
  | .cons _ h hrest =>
    rw [climbsPairs, climbsPairs, climbsExpression_alike h, climbsPairs_alike hrest]
termination_by structural h

end

section

variable {inCall : Call → Bool} {inProgram : List String → Bool}

mutual

/-- A walk finds what it looks for in both or in neither: in a statement, -/
theorem someStatement_alike (hcall : ∀ call call', Call.Alike strict call call' →
    inCall call = inCall call') {s s' : Statement} (h : s.Alike strict s') :
    someStatement inCall inProgram s = someStatement inCall inProgram s' := by
  match h with
  | .content _ | .comment => rfl
  | .mustache h | .partialCall _ h | .decorator h => exact hcall _ _ h
  | .block h hmain hinverse =>
    rw [someStatement, someStatement, hcall _ _ h, someSection_alike hcall hmain,
      someSection_alike hcall hinverse]
  | .partialBlock h hbody | .decoratorBlock h hbody =>
    rw [someStatement, someStatement, hcall _ _ h, someProgram_alike hcall hbody]
termination_by structural h

/-- in a program, -/
theorem someProgram_alike (hcall : ∀ call call', Call.Alike strict call call' →
    inCall call = inCall call') {p p' : Program} (h : p.Alike strict p') :
    someProgram inCall inProgram p = someProgram inCall inProgram p' := by
  match h with
  | .mk _ h => rw [someProgram, someProgram, someBody_alike hcall h]
termination_by structural h

/-- in a section, -/
theorem someSection_alike (hcall : ∀ call call', Call.Alike strict call call' →
    inCall call = inCall call') {p p' : Option Program} (h : SectionAlike strict p p') :
    someSection inCall inProgram p = someSection inCall inProgram p' := by
  match h with
  | .none => rfl
  | .some h => exact someProgram_alike hcall h
termination_by structural h

/-- and in a body. -/
theorem someBody_alike (hcall : ∀ call call', Call.Alike strict call call' →
    inCall call = inCall call') {body body' : List Statement} (h : BodyAlike strict body body') :
    someBody inCall inProgram body = someBody inCall inProgram body' := by
  match h with
  | .nil => rfl
  | .cons h hrest =>
    rw [someBody, someBody, someStatement_alike hcall h, someBody_alike hcall hrest]
termination_by structural h

end

end

theorem Features.ofProgram_alike (options : CompilerOptions) {p p' : Program}
    (h : p.Alike strict p') : Features.ofProgram options p = Features.ofProgram options p' := by
  rw [ofProgram, ofProgram, someProgram_alike (fun _ _ => climbsCall_alike) h,
    someProgram_alike (fun _ _ _ => rfl) h]

/-! ## Specifications -/

/-- **Trees that are alike are compiled alike**: both are refused for the same reason, or the
    specifications are alike. -/
theorem Specification.ofProgram_alike {options : CompilerOptions}
    (hstrict : strict = true → options.knownHelpersOnly = true) {p p' : Program}
    (h : p.Alike strict p') :
    Both (Specification.Alike strict) (Specification.ofProgram options p)
      (Specification.ofProgram options p') := by
  have hfeatures := Features.ofProgram_alike options h
  obtain ⟨params, hbody⟩ := h
  have hscope : Scope.Suits strict ((⟨options, []⟩ : Scope).enter params) := hstrict
  rw [ofProgram, ofProgram]
  exact (compileStatements_alike hscope _ 1 hbody).map fun pieces pieces' hpieces =>
    ⟨hfeatures, hpieces.programs, ⟨hpieces.operands, hpieces.decorators⟩⟩

end Script

end Stache
