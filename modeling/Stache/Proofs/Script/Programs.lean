/-
  Functions, and the programs that they are compiled from.

  1. **Statements.**  What a statement is compiled to is said once, as a relation with one rule for
     each kind of statement (`Compiles`); whatever holds of compiled statements is read off from its
     rules, and carried to bodies by one induction (`compileStatements_induction`).

  2. **Functions.**  The functions of a specification are the programs of the tree, compiled one for
     one (`Specification.ofProgram_compiledFrom`): each in a scope of its own, but all with the same
     options.  A fact about the statements of one body is thereby one about all of the code
     (`Specification.flatMap_operands`, `Specification.made_of`).

  3. **Calls.**  What the code of a call is made of is said once as well, part by part
     (`compileCall_parts`, `Invocation.Of`, `PartialCall.Of`), for the recursions over calls.
-/
import Mathlib.Data.List.Forall2
import Stache.Proofs.Runs
import Stache.Template.Compile

namespace Stache

/-! ## Programs of a tree -/

mutual

/-- The programs in a statement, the main section of a block first, and each before those in it. -/
def Statement.programs : Statement → List Program
  | .block _ main inverse _ _ => sectionPrograms main ++ sectionPrograms inverse
  | .partialBlock _ body _ _ _ | .decoratorBlock _ body _ _ _ => body.family
  | .content _ | .comment _ _ _ | .mustache _ _ _ _ | .partialCall _ _ _ _ | .decorator _ _ _ => []

/-- A program and those in it. -/
def Program.family : Program → List Program
  | ⟨body, params, chained, span⟩ => ⟨body, params, chained, span⟩ :: bodyPrograms body

/-- The programs in a section, itself first, -/
def sectionPrograms : Option Program → List Program
  | none => []
  | some p => p.family

/-- and those in a body, in order. -/
def bodyPrograms : List Statement → List Program
  | [] => []
  | s :: rest => s.programs ++ bodyPrograms rest

end

theorem Program.family_eq (p : Program) : p.family = p :: bodyPrograms p.body := by
  obtain ⟨body, params, chained, span⟩ := p
  rw [Program.family]

/-- The root comes last where functions do, and first in its family. -/
theorem Program.mem_family {p q : Program} (h : q ∈ bodyPrograms p.body ++ [p]) :
    q ∈ p.family := by
  rw [p.family_eq]
  obtain h | h := List.mem_append.1 h
  · exact List.mem_cons_of_mem _ h
  · exact List.mem_singleton.1 h ▸ List.mem_cons_self ..

/-- The programs that a statement directly contains. -/
def Statement.sections : Statement → List Program
  | .block _ main inverse _ _ => main.toList ++ inverse.toList
  | .partialBlock _ body _ _ _ | .decoratorBlock _ body _ _ _ => [body]
  | .content _ | .comment _ _ _ | .mustache _ _ _ _ | .partialCall _ _ _ _ | .decorator _ _ _ => []

/-- The call that a statement makes, with the name it is made by. -/
def Statement.call? : Statement → Option Call
  | .content _ | .comment _ _ _ => none
  | .mustache call _ _ _ | .partialCall call _ _ _ | .decorator call _ _ | .block call _ _ _ _
  | .partialBlock call _ _ _ _ | .decoratorBlock call _ _ _ _ => some call

namespace Script

/-! ## Statements -/

/-- A statement, and what it is compiled to. -/
inductive Compiles (scope : Scope) (next : Nat) : Statement → Pieces → Prop where
  | content (c : Content) :
      Compiles scope next (.content c)
        ⟨if c.value.isEmpty then [] else [⟨.text c.value, c.span.start⟩], [], []⟩
  | comment (text : String) (strip : Strip) (span : Span) :
      Compiles scope next (.comment text strip span) .none
  | mustache {call : Call} {escaped : Bool} {strip : Strip} {span : Span} {i : Invocation}
      (h : compileInvocation scope none span call = .ok i) :
      Compiles scope next (.mustache call escaped strip span)
        ⟨[⟨.mustache (escaped && !scope.options.noEscape) i, span.start⟩], [], []⟩
  | block {call : Call} {main inverse : Option Program} {strip : BlockStrip} {span : Span}
      {first second : Child} {inside inside' : List Function} {i : Invocation}
      (hmain : compileSection scope next main = .ok (first, inside))
      (hinverse : compileSection scope (next + inside.length) inverse = .ok (second, inside'))
      (h : compileInvocation scope
        (some ⟨first, second, (main.map (·.blockParams.length)).getD 0⟩) span call = .ok i) :
      Compiles scope next (.block call main inverse strip span)
        ⟨[⟨.block i, span.start⟩], [], inside ++ inside'⟩
  | partialCall {call : Call} {indent : String} {strip : Strip} {span : Span} {p : PartialCall}
      (h : compilePartial scope (if scope.options.preventIndent then "" else indent) span call
        = .ok p) :
      Compiles scope next (.partialCall call indent strip span)
        ⟨(if scope.options.preventIndent then indentOperand indent span.start else [])
          ++ [⟨.partialCall p, span.start⟩], [], []⟩
  | partialBlock {call : Call} {body : Program} {opening closing : Strip} {span : Span}
      {p : PartialCall} {child : Child} {inside : List Function}
      (h : compilePartial scope "" span call = .ok p)
      (hbody : compileChild scope next body = .ok (child, inside)) :
      Compiles scope next (.partialBlock call body opening closing span)
        ⟨[⟨.partialCall { p with body := some child }, span.start⟩], [], inside⟩
  | decorator {call : Call} {strip : Strip} {span : Span} {path : Path} {d : Decorator}
      (hpath : calleePath call.callee = .ok path)
      (h : compileDecorator scope path none span call = .ok d) :
      Compiles scope next (.decorator call strip span) ⟨[], [⟨d, span.start⟩], []⟩
  | decoratorBlock {call : Call} {body : Program} {opening closing : Strip} {span : Span}
      {path : Path} {d : Decorator} {child : Child} {inside : List Function}
      (hpath : calleePath call.callee = .ok path)
      (hbody : compileChild scope next body = .ok (child, inside))
      (h : compileDecorator scope path (some child) span call = .ok d) :
      Compiles scope next (.decoratorBlock call body opening closing span)
        ⟨[], [⟨d, span.start⟩], inside⟩

/-- Whatever a statement is compiled to has its rule. -/
theorem compileStatement_compiles {scope : Scope} {next : Nat} {s : Statement} {pieces : Pieces}
    (h : compileStatement scope next s = .ok pieces) : Compiles scope next s pieces := by
  -- each rule asks for the parts that were compiled, in the order they are numbered
  cases s with
  | content c =>
    rw [compileStatement] at h
    cases h
    exact .content c
  | comment text strip span =>
    rw [compileStatement] at h
    cases h
    exact .comment text strip span
  | mustache call escaped strip span =>
    rw [compileStatement] at h
    obtain ⟨i, hi, h⟩ := exists_of_bind_ok h
    cases h
    exact .mustache hi
  | block call main inverse strip span =>
    rw [compileStatement] at h
    obtain ⟨path, -, h⟩ := exists_of_bind_ok h
    obtain ⟨⟨first, inside⟩, hmain, h⟩ := exists_of_bind_ok h
    obtain ⟨⟨second, inside'⟩, hinverse, h⟩ := exists_of_bind_ok h
    obtain ⟨i, hi, h⟩ := exists_of_bind_ok h
    cases h
    exact .block hmain hinverse hi
  | partialCall call indent strip span =>
    rw [compileStatement] at h
    obtain ⟨p, hp, h⟩ := exists_of_bind_ok h
    cases h
    exact .partialCall hp
  | partialBlock call body opening closing span =>
    rw [compileStatement] at h
    obtain ⟨p, hp, h⟩ := exists_of_bind_ok h
    obtain ⟨⟨child, inside⟩, hbody, h⟩ := exists_of_bind_ok h
    cases h
    exact .partialBlock hp hbody
  | decorator call strip span =>
    rw [compileStatement] at h
    obtain ⟨path, hpath, h⟩ := exists_of_bind_ok h
    obtain ⟨d, hd, h⟩ := exists_of_bind_ok h
    cases h
    exact .decorator hpath hd
  | decoratorBlock call body opening closing span =>
    rw [compileStatement] at h
    obtain ⟨path, hpath, h⟩ := exists_of_bind_ok h
    obtain ⟨⟨child, inside⟩, hbody, h⟩ := exists_of_bind_ok h
    obtain ⟨d, hd, h⟩ := exists_of_bind_ok h
    cases h
    exact .decoratorBlock hpath hbody hd

/-- A body is compiled statement by statement, the numbers going on. -/
theorem compileStatements_cons {scope : Scope} {next : Nat} {s : Statement} {rest : List Statement}
    {pieces : Pieces} (h : compileStatements scope next (s :: rest) = .ok pieces) :
    ∃ first more, compileStatement scope next s = .ok first
      ∧ compileStatements scope (next + first.programs.length) rest = .ok more
      ∧ pieces = first.append more := by
  rw [compileStatements] at h
  obtain ⟨first, hfirst, h⟩ := exists_of_bind_ok h
  obtain ⟨more, hmore, h⟩ := exists_of_bind_ok h
  cases h
  exact ⟨first, more, hfirst, hmore, rfl⟩

/-- A section is compiled to its own function and those of the sections in it. -/
theorem compileChild_parts {scope : Scope} {next : Nat} {body : List Statement}
    {params : List String} {chained : Bool} {span : Span} {child : Child}
    {functions : List Function}
    (h : compileChild scope next ⟨body, params, chained, span⟩ = .ok (child, functions)) :
    ∃ pieces, compileStatements (scope.enter params) (next + 1) body = .ok pieces
      ∧ child = .program next params.length
      ∧ functions = pieces.function span :: pieces.programs := by
  rw [compileChild] at h
  obtain ⟨pieces, hpieces, h⟩ := exists_of_bind_ok h
  cases h
  exact ⟨pieces, hpieces, rfl, rfl⟩

/-- The statements of a body are compiled one by one. -/
theorem compileStatements_induction {scope : Scope} {P : List Statement → Pieces → Prop}
    (hnone : P [] .none)
    (hcons : ∀ {next s rest first more}, Compiles scope next s first → P rest more →
      P (s :: rest) (first.append more))
    {next : Nat} {body : List Statement} {pieces : Pieces}
    (h : compileStatements scope next body = .ok pieces) : P body pieces := by
  induction body generalizing next pieces with
  | nil =>
    rw [compileStatements] at h
    cases h
    exact hnone
  | cons s rest ih =>
    obtain ⟨first, more, hfirst, hmore, rfl⟩ := compileStatements_cons h
    exact hcons (compileStatement_compiles hfirst) (ih hmore)

/-! ## Functions -/

/-- The function is what the program is compiled to, in some scope with these options. -/
def Function.CompiledFrom (options : CompilerOptions) (fn : Function) (p : Program) : Prop :=
  ∃ scope next pieces, scope.options = options
    ∧ compileStatements scope next p.body = .ok pieces ∧ fn = pieces.function p.span

/-- The same, in a scope of which all lists of parameters have a property. -/
def Function.CompiledWithin (options : CompilerOptions) (P : List String → Prop) (fn : Function)
    (p : Program) : Prop :=
  ∃ scope next pieces, scope.options = options ∧ (∀ names ∈ scope.params, P names)
    ∧ compileStatements scope next p.body = .ok pieces ∧ fn = pieces.function p.span

theorem Function.CompiledWithin.compiledFrom {options : CompilerOptions}
    {P : List String → Prop} {fn : Function} {p : Program} (h : fn.CompiledWithin options P p) :
    fn.CompiledFrom options p := by
  obtain ⟨scope, next, pieces, hoptions, -, hpieces, hfn⟩ := h
  exact ⟨scope, next, pieces, hoptions, hpieces, hfn⟩

section Within

/-! A property that the parameters around a place have, and those of the programs inside, is one of
all parameters that come into a scope. -/

variable {P : List String → Prop}

mutual

/-- So it is with the programs in a statement, -/
theorem compileStatement_compiledWithin {scope : Scope} (hscope : ∀ names ∈ scope.params, P names)
    {next : Nat} {s : Statement} {pieces : Pieces} (hs : ∀ q ∈ s.programs, P q.blockParams)
    (h : compileStatement scope next s = .ok pieces) :
    List.Forall₂ (Function.CompiledWithin scope.options P) pieces.programs s.programs := by
  match s, compileStatement_compiles h with
  | .content _, .content _ | .comment _ _ _, .comment _ _ _ | .mustache _ _ _ _, .mustache _
  | .partialCall _ _ _ _, .partialCall _ | .decorator _ _ _, .decorator _ _ => exact .nil
  | .block _ main inverse _ _, .block hmain hinverse _ =>
    exact List.rel_append
      (compileSection_compiledWithin hscope (fun q hq => hs q (List.mem_append_left _ hq)) hmain)
      (compileSection_compiledWithin hscope (fun q hq => hs q (List.mem_append_right _ hq))
        hinverse)
  | .partialBlock _ body _ _ _, .partialBlock _ hbody
  | .decoratorBlock _ body _ _ _, .decoratorBlock _ hbody _ =>
    exact compileChild_compiledWithin hscope hs hbody

/-- with a program and those in it, -/
theorem compileChild_compiledWithin {scope : Scope} (hscope : ∀ names ∈ scope.params, P names)
    {next : Nat} {p : Program} {child : Child} {functions : List Function}
    (hp : ∀ q ∈ p.family, P q.blockParams)
    (h : compileChild scope next p = .ok (child, functions)) :
    List.Forall₂ (Function.CompiledWithin scope.options P) functions p.family := by
  match p with
  | ⟨body, params, chained, span⟩ =>
    obtain ⟨hparams, hbody⟩ := List.forall_mem_cons.1 hp
    have hinner : ∀ names ∈ (scope.enter params).params, P names :=
      List.forall_mem_cons.2 ⟨hparams, hscope⟩
    obtain ⟨pieces, hpieces, rfl, rfl⟩ := compileChild_parts h
    have hinside := compileStatements_compiledWithin hinner hbody hpieces
    exact .cons ⟨scope.enter params, next + 1, pieces, rfl, hinner, hpieces, rfl⟩ hinside

/-- with those in a section, -/
theorem compileSection_compiledWithin {scope : Scope} (hscope : ∀ names ∈ scope.params, P names)
    {next : Nat} {p : Option Program} {child : Child} {functions : List Function}
    (hp : ∀ q ∈ sectionPrograms p, P q.blockParams)
    (h : compileSection scope next p = .ok (child, functions)) :
    List.Forall₂ (Function.CompiledWithin scope.options P) functions (sectionPrograms p) := by
  match p with
  | none =>
    rw [compileSection] at h
    cases h
    exact .nil
  | some p =>
    rw [compileSection] at h
    exact compileChild_compiledWithin hscope hp h

/-- and with those in a body. -/
theorem compileStatements_compiledWithin {scope : Scope}
    (hscope : ∀ names ∈ scope.params, P names) {next : Nat} {body : List Statement}
    {pieces : Pieces} (hbody : ∀ q ∈ bodyPrograms body, P q.blockParams)
    (h : compileStatements scope next body = .ok pieces) :
    List.Forall₂ (Function.CompiledWithin scope.options P) pieces.programs
      (bodyPrograms body) := by
  match body with
  | [] =>
    rw [compileStatements] at h
    cases h
    exact .nil
  | s :: rest =>
    obtain ⟨first, more, hfirst, hmore, rfl⟩ := compileStatements_cons h
    exact List.rel_append
      (compileStatement_compiledWithin hscope (fun q hq => hbody q (List.mem_append_left _ hq))
        hfirst)
      (compileStatements_compiledWithin hscope
        (fun q hq => hbody q (List.mem_append_right _ hq)) hmore)

end

end Within

theorem compileStatements_compiledFrom {scope : Scope} {next : Nat} {body : List Statement}
    {pieces : Pieces} (h : compileStatements scope next body = .ok pieces) :
    List.Forall₂ (Function.CompiledFrom scope.options) pieces.programs (bodyPrograms body) :=
  (compileStatements_compiledWithin (P := fun _ => True) (fun _ _ => trivial)
    (fun _ _ => trivial) h).imp fun _ _ hfn => Function.CompiledWithin.compiledFrom hfn

/-- What a specification is put together from. -/
theorem Specification.ofProgram_ok {options : CompilerOptions} {p : Program} {s : Specification}
    (h : Specification.ofProgram options p = .ok s) :
    ∃ pieces, compileStatements ((⟨options, []⟩ : Scope).enter p.blockParams) 1 p.body = .ok pieces
      ∧ s = ⟨Features.ofProgram options p, pieces.programs, pieces.function p.span⟩ := by
  rw [ofProgram] at h
  obtain ⟨pieces, hpieces, h⟩ := exists_of_bind_ok h
  cases h
  exact ⟨pieces, hpieces, rfl⟩

theorem Specification.features_ofProgram {options : CompilerOptions} {p : Program}
    {s : Specification} (h : Specification.ofProgram options p = .ok s) :
    s.features = Features.ofProgram options p := by
  obtain ⟨pieces, -, rfl⟩ := ofProgram_ok h
  rfl

/-- **The functions of a specification** are compiled from the programs of the tree, in scopes of
    their parameters. -/
theorem Specification.ofProgram_compiledWithin {P : List String → Prop}
    {options : CompilerOptions} {p : Program} {s : Specification}
    (hp : ∀ q ∈ p.family, P q.blockParams) (h : Specification.ofProgram options p = .ok s) :
    List.Forall₂ (Function.CompiledWithin options P) s.functions (bodyPrograms p.body ++ [p]) := by
  obtain ⟨body, params, chained, span⟩ := p
  obtain ⟨hparams, hbody⟩ := List.forall_mem_cons.1 hp
  have hscope : ∀ names ∈ ((⟨options, []⟩ : Scope).enter params).params, P names :=
    List.forall_mem_singleton.2 hparams
  obtain ⟨pieces, hpieces, rfl⟩ := ofProgram_ok h
  have hinside := compileStatements_compiledWithin hscope hbody hpieces
  exact List.rel_append hinside (.cons ⟨_, 1, pieces, rfl, hscope, hpieces, rfl⟩ .nil)

/-- **The functions of a specification are the programs of the tree.** -/
theorem Specification.ofProgram_compiledFrom {options : CompilerOptions} {p : Program}
    {s : Specification} (h : Specification.ofProgram options p = .ok s) :
    List.Forall₂ (Function.CompiledFrom options) s.functions (bodyPrograms p.body ++ [p]) :=
  (ofProgram_compiledWithin (P := fun _ => True) (fun _ _ => trivial) h).imp
    fun _ _ hfn => Function.CompiledWithin.compiledFrom hfn

/-! ## Operands -/

/-- What an operand is compiled from, in a scope: a text, or a call. -/
inductive Operand.Of (scope : Scope) : Option Call → Operand → Prop where
  | text (call : Option Call) (value : String) : Of scope call (.text value)
  | mustache {call : Call} {sections : Option Sections} {span : Span} {invocation : Invocation}
      (escaped : Bool) (h : compileInvocation scope sections span call = .ok invocation) :
      Of scope (some call) (.mustache escaped invocation)
  | block {call : Call} {sections : Option Sections} {span : Span} {invocation : Invocation}
      (h : compileInvocation scope sections span call = .ok invocation) :
      Of scope (some call) (.block invocation)
  | partialCall {call : Call} {indent : String} {span : Span} {compiled : PartialCall}
      (body : Option Child) (h : compilePartial scope indent span call = .ok compiled) :
      Of scope (some call) (.partialCall { compiled with body := body })

/-- What a decorator is compiled from, in a scope. -/
def Decorator.Of (scope : Scope) (call : Option Call) (d : Decorator) : Prop :=
  ∃ source path body span, call = some source
    ∧ compileDecorator scope path body span source = .ok d

/-- The operands and the decorators of a statement are compiled from its call. -/
structure Pieces.Of (scope : Scope) (call : Option Call) (pieces : Pieces) : Prop where
  operands : ∀ o ∈ pieces.operands, o.value.Of scope call
  decorators : ∀ d ∈ pieces.decorators, d.value.Of scope call

/-- The indentation of a partial, if it is an operand of its own, is a text. -/
theorem exists_text_of_mem_indent {apart : Bool} {indent : String} {origin : Position}
    {o : Traced Operand} (h : o ∈ if apart then indentOperand indent origin else []) :
    ∃ text, o.value = .text text := by
  split at h
  · rw [indentOperand] at h
    split at h
    · cases h
    · exact ⟨indent, List.mem_singleton.1 h ▸ rfl⟩
  · cases h

/-- What a statement is compiled to is made of its call. -/
theorem Compiles.of {scope : Scope} {next : Nat} {s : Statement} {pieces : Pieces}
    (h : Compiles scope next s pieces) : pieces.Of scope s.call? := by
  cases h with
  | content c =>
    refine ⟨?_, List.forall_mem_nil _⟩
    dsimp only
    split
    · exact List.forall_mem_nil _
    · exact List.forall_mem_singleton.2 (.text ..)
  | comment => exact ⟨List.forall_mem_nil _, List.forall_mem_nil _⟩
  | mustache hi => exact ⟨List.forall_mem_singleton.2 (.mustache _ hi), List.forall_mem_nil _⟩
  | block hmain hinverse hi =>
    exact ⟨List.forall_mem_singleton.2 (.block hi), List.forall_mem_nil _⟩
  | partialCall hp =>
    rename_i call indent strip span p
    -- the indent before a partial is a text, which no call made
    have hindent : ∀ o ∈ (if scope.options.preventIndent then indentOperand indent span.start
        else []), o.value.Of scope (some call) := by
      intro o ho
      obtain ⟨text, htext⟩ := exists_text_of_mem_indent ho
      exact htext ▸ .text ..
    have hcall : (Operand.partialCall p).Of scope (some call) := .partialCall p.body hp
    exact ⟨List.forall_mem_append.2 ⟨hindent, List.forall_mem_singleton.2 hcall⟩,
      List.forall_mem_nil _⟩
  | partialBlock hp hbody =>
    exact ⟨List.forall_mem_singleton.2 (.partialCall _ hp), List.forall_mem_nil _⟩
  | decorator hpath hd =>
    exact ⟨List.forall_mem_nil _, List.forall_mem_singleton.2 ⟨_, _, _, _, rfl, hd⟩⟩
  | decoratorBlock hpath hbody hd =>
    exact ⟨List.forall_mem_nil _, List.forall_mem_singleton.2 ⟨_, _, _, _, rfl, hd⟩⟩

/-! ## Calls -/

section

variable {scope : Scope} {sections : Option Sections} {span : Span} {call : Call}

/-- A call in parentheses is compiled to one of a helper. -/
theorem compileArgument_subexpression {code : Code}
    (h : compileArgument scope (.subexpression call span) = .ok code) :
    ∃ path callee args options, calleePath call.callee = .ok path
      ∧ compileCall scope path none span call = .ok (callee, args, options)
      ∧ code = .helper callee args options := by
  rw [compileArgument] at h
  obtain ⟨path, hpath, h⟩ := exists_of_bind_ok h
  obtain ⟨⟨callee, args, options⟩, hcall, h⟩ := exists_of_bind_ok h
  cases h
  exact ⟨path, callee, args, options, hpath, hcall, rfl⟩

/-- The parts of a call are compiled one by one. -/
theorem compileCall_parts {path : Path} {callee : Callee} {args : List Code} {options : Options}
    (h : compileCall scope path sections span call = .ok (callee, args, options)) :
    scope.calleeOf path span = .ok callee ∧ compileArguments scope call.params = .ok args
      ∧ ∃ entries, compileHash scope call.hash = .ok entries
        ∧ options = ⟨path.written, entries, sections, span⟩ := by
  obtain ⟨name, params, hash⟩ := call
  rw [compileCall] at h
  obtain ⟨callee, hcallee, h⟩ := exists_of_bind_ok h
  obtain ⟨args, hargs, h⟩ := exists_of_bind_ok h
  obtain ⟨entries, hentries, h⟩ := exists_of_bind_ok h
  cases h
  exact ⟨hcallee, hargs, entries, hentries, rfl⟩

/-- Parameters are compiled one by one, -/
theorem compileArguments_cons {e : Expression} {rest : List Expression} {args : List Code}
    (h : compileArguments scope (e :: rest) = .ok args) :
    ∃ code codes, compileArgument scope e = .ok code ∧ compileArguments scope rest = .ok codes
      ∧ args = code :: codes := by
  rw [compileArguments] at h
  obtain ⟨code, hcode, h⟩ := exists_of_bind_ok h
  obtain ⟨codes, hcodes, h⟩ := exists_of_bind_ok h
  cases h
  exact ⟨code, codes, hcode, hcodes, rfl⟩

/-- and so are pairs. -/
theorem compilePairs_cons {key : String} {value : Expression} {rest : List Pair}
    {entries : List Entry} (h : compilePairs scope (⟨key, value, span⟩ :: rest) = .ok entries) :
    ∃ code more, compileArgument scope value = .ok code ∧ compilePairs scope rest = .ok more
      ∧ entries = ⟨key, code⟩ :: more := by
  rw [compilePairs] at h
  obtain ⟨code, hcode, h⟩ := exists_of_bind_ok h
  obtain ⟨more, hmore, h⟩ := exists_of_bind_ok h
  cases h
  exact ⟨code, more, hcode, hmore, rfl⟩

/-- What is found of a mustache or a block, by what its callee may be. -/
inductive Invocation.Of (scope : Scope) (sections : Option Sections) (span : Span) (call : Call) :
    Invocation → Prop where
  | helper {path : Path} {callee : Callee} {args : List Code} {options : Options}
      (hpath : calleePath call.callee = .ok path)
      (hcall : compileCall scope path sections span call = .ok (callee, args, options)) :
      Of scope sections span call ⟨.helper callee args, options⟩
  | either {path : Path} (hpath : calleePath call.callee = .ok path) :
      Of scope sections span call
        ⟨.either (scope.resolve path), ⟨path.head, [], sections, span⟩⟩
  | plain {path : Path} (hpath : calleePath call.callee = .ok path) :
      Of scope sections span call
        ⟨.plain (scope.resolve path), ⟨path.written, [], sections, span⟩⟩

/-- A call with its options, part by part. -/
theorem compileInvocation_of {i : Invocation}
    (h : compileInvocation scope sections span call = .ok i) : i.Of scope sections span call := by
  rw [compileInvocation] at h
  obtain ⟨path, hpath, h⟩ := exists_of_bind_ok h
  dsimp only at h
  split at h
  · obtain ⟨⟨callee, args, options⟩, hcall, h⟩ := exists_of_bind_ok h
    cases h
    exact .helper hpath hcall
  · cases h
    exact .either hpath
  · cases h
    exact .plain hpath

/-- A decorator, part by part. -/
theorem compileDecorator_parts {path : Path} {body : Option Child} {d : Decorator}
    (h : compileDecorator scope path body span call = .ok d) :
    ∃ entries args, compileHash scope call.hash = .ok entries
      ∧ compileArguments scope call.params = .ok args
      ∧ d = ⟨path.written, entries, body, args, span⟩ := by
  rw [compileDecorator] at h
  obtain ⟨entries, hentries, h⟩ := exists_of_bind_ok h
  obtain ⟨args, hargs, h⟩ := exists_of_bind_ok h
  cases h
  exact ⟨entries, args, hentries, hargs, rfl⟩

/-! ## Sections -/

/-- The sections are handed through, -/
theorem compileCall_sections {path : Path} {callee : Callee} {args : List Code} {options : Options}
    (h : compileCall scope path sections span call = .ok (callee, args, options)) :
    options.sections = sections := by
  obtain ⟨-, -, entries, -, rfl⟩ := compileCall_parts h
  rfl

/-- A call is given the sections that it is compiled with, whatever it calls. -/
theorem compileInvocation_sections {i : Invocation}
    (h : compileInvocation scope sections span call = .ok i) : i.options.sections = sections := by
  cases compileInvocation_of h with
  | helper hpath hcall => exact compileCall_sections hcall
  | either | plain => rfl

theorem compileDecorator_body {path : Path} {body : Option Child} {d : Decorator}
    (h : compileDecorator scope path body span call = .ok d) : d.body = body := by
  obtain ⟨entries, args, -, -, rfl⟩ := compileDecorator_parts h
  rfl

end

/-! ## Calls of partials -/

/-- Which partial an expression names, in a scope. -/
inductive Target.Of (scope : Scope) : Expression → Target → Prop where
  | enclosing {p : Path} (h : p.written = Path.enclosingBlock) : Of scope (.path p) .enclosing
  | path {p : Path} (h : p.written ≠ Path.enclosingBlock) : Of scope (.path p) (.named p.written)
  | computed {call : Call} {span : Span} {code : Code}
      (h : compileArgument scope (.subexpression call span) = .ok code) :
      Of scope (.subexpression call span) (.computed code)
  | literal {e : Expression} (hpath : ∀ p, e ≠ .path p)
      (hcall : ∀ call span, e ≠ .subexpression call span) : Of scope e (.named e.label)

/-- The target of a partial is made of its callee, -/
theorem compileTarget_of {scope : Scope} {e : Expression} {target : Target}
    (h : compileTarget scope e = .ok target) : target.Of scope e := by
  cases e with
  | path p =>
    cases h
    split
    · exact .enclosing ‹_›
    · exact .path ‹_›
  | subexpression call span =>
    rw [compileTarget] at h
    cases hcode : compileArgument scope (.subexpression call span) with
    | error failure =>
      rw [hcode] at h
      cases h
    | ok code =>
      rw [hcode] at h
      cases h
      exact .computed hcode
  | string | number | boolean | undefined | null =>
    cases h
    exact .literal (fun _ => nofun) (fun _ _ => nofun)

/-- What the call of a partial is compiled from, in a scope. -/
structure PartialCall.Of (scope : Scope) (indent : String) (call : Call) (p : PartialCall) :
    Prop where
  target : p.target.Of scope call.callee
  /-- There is one parameter at most. -/
  context : call.params = [] ∧ p.context = .place ⟨.context, []⟩
    ∨ ∃ param, call.params = [param] ∧ compileArgument scope param = .ok p.context
  hash : ∃ entries, compileHash scope call.hash = .ok entries
    ∧ p.hash = call.hash.map fun _ => entries
  body : p.body = none
  indent : p.indent = indent

/-- and the call of a partial of its parts. -/
theorem compilePartial_of {scope : Scope} {indent : String} {span : Span} {call : Call}
    {p : PartialCall} (h : compilePartial scope indent span call = .ok p) :
    p.Of scope indent call := by
  obtain ⟨callee, params, hash⟩ := call
  rw [compilePartial] at h
  split at h
  · cases h
  rename_i hcount
  obtain ⟨-, -, h⟩ := exists_of_bind_ok h
  obtain ⟨target, htarget, h⟩ := exists_of_bind_ok h
  cases params with
  | nil =>
    obtain ⟨context, hcontext, h⟩ := exists_of_bind_ok h
    obtain ⟨entries, hentries, h⟩ := exists_of_bind_ok h
    cases hcontext
    cases h
    exact ⟨compileTarget_of htarget, .inl ⟨rfl, rfl⟩, ⟨entries, hentries, rfl⟩, rfl, rfl⟩
  | cons param more =>
    obtain ⟨context, hcontext, h⟩ := exists_of_bind_ok h
    obtain ⟨entries, hentries, h⟩ := exists_of_bind_ok h
    cases h
    -- more than one argument was refused above
    have hmore : more = [] := by
      cases more with
      | nil => rfl
      | cons => simp at hcount
    exact ⟨compileTarget_of htarget, .inr ⟨param, congrArg _ hmore, hcontext⟩,
      ⟨entries, hentries, rfl⟩, rfl, rfl⟩

/-! ## Bodies -/

/-- What is made of the operands of all the code comes from the statements, if it does for each. -/
theorem Specification.flatMap_operands {α : Type} {options : CompilerOptions} {p : Program}
    {s : Specification} (h : Specification.ofProgram options p = .ok s)
    (make : Operand → List α) {wanted : Statement → List α}
    (hone : ∀ scope next s pieces, Compiles scope next s pieces →
      pieces.operands.flatMap (fun o => make o.value) = wanted s) :
    s.functions.flatMap (fun fn => fn.operands.flatMap fun o => make o.value)
      = (bodyPrograms p.body ++ [p]).flatMap fun q => q.body.flatMap wanted := by
  -- statement by statement, and then program by program
  have hbody (scope : Scope) {next : Nat} {body : List Statement} {pieces : Pieces}
      (h : compileStatements scope next body = .ok pieces) :
      pieces.operands.flatMap (fun o => make o.value) = body.flatMap wanted := by
    refine compileStatements_induction (P := fun body pieces =>
      pieces.operands.flatMap (fun o => make o.value) = body.flatMap wanted) rfl ?_ h
    intro next s rest first more hfirst ih
    rw [Pieces.append, List.flatMap_append, List.flatMap_cons, hone _ _ _ _ hfirst, ih]
  have hrow {functions : List Function} {programs : List Program}
      (h : List.Forall₂ (Function.CompiledFrom options) functions programs) :
      functions.flatMap (fun fn => fn.operands.flatMap fun o => make o.value)
        = programs.flatMap fun q => q.body.flatMap wanted := by
    induction h with
    | nil => rfl
    | cons hfirst _ ih =>
      obtain ⟨scope, next, pieces, -, hpieces, rfl⟩ := hfirst
      rw [List.flatMap_cons, List.flatMap_cons, ih]
      exact congrArg (· ++ _) (hbody scope hpieces)
  exact hrow (ofProgram_compiledFrom h)

/-- The pieces of a body are compiled from the calls of its statements. -/
theorem compileStatements_of {scope : Scope} {next : Nat} {body : List Statement}
    {pieces : Pieces} (h : compileStatements scope next body = .ok pieces) :
    (∀ o ∈ pieces.operands, ∃ s ∈ body, o.value.Of scope s.call?)
      ∧ ∀ d ∈ pieces.decorators, ∃ s ∈ body, d.value.Of scope s.call? := by
  refine compileStatements_induction (P := fun body pieces =>
    (∀ o ∈ pieces.operands, ∃ s ∈ body, o.value.Of scope s.call?)
      ∧ ∀ d ∈ pieces.decorators, ∃ s ∈ body, d.value.Of scope s.call?)
    ⟨List.forall_mem_nil _, List.forall_mem_nil _⟩ ?_ h
  intro next s rest first more hfirst ih
  constructor
  · intro o ho
    obtain ho | ho := List.mem_append.1 ho
    · exact ⟨s, List.mem_cons_self .., hfirst.of.operands o ho⟩
    · obtain ⟨t, ht, hmade⟩ := ih.1 o ho
      exact ⟨t, List.mem_cons_of_mem _ ht, hmade⟩
  · intro d hd
    obtain hd | hd := List.mem_append.1 hd
    · exact ⟨s, List.mem_cons_self .., hfirst.of.decorators d hd⟩
    · obtain ⟨t, ht, hmade⟩ := ih.2 d hd
      exact ⟨t, List.mem_cons_of_mem _ ht, hmade⟩

/-- What an element of one row stands for in the other. -/
theorem exists_of_mem_forall₂ {α β : Type} {R : α → β → Prop} {as : List α} {bs : List β}
    (h : List.Forall₂ R as bs) {a : α} (ha : a ∈ as) : ∃ b ∈ bs, R a b := by
  induction h with
  | nil => cases ha
  | cons hab _ ih =>
    rcases List.mem_cons.1 ha with rfl | ha
    · exact ⟨_, List.mem_cons_self .., hab⟩
    · obtain ⟨b, hb, hR⟩ := ih ha
      exact ⟨b, List.mem_cons_of_mem _ hb, hR⟩

/-- A function of a specification is compiled from a program of the tree. -/
theorem Specification.exists_program {options : CompilerOptions} {p : Program}
    {s : Specification} (h : Specification.ofProgram options p = .ok s) {fn : Function}
    (hfn : fn ∈ s.functions) : ∃ q ∈ p.family, fn.CompiledFrom options q := by
  obtain ⟨q, hq, hfrom⟩ := exists_of_mem_forall₂ (ofProgram_compiledFrom h) hfn
  exact ⟨q, Program.mem_family hq, hfrom⟩

/-- **The code of a specification** is compiled from the calls in the tree. -/
theorem Specification.made_of {options : CompilerOptions} {p : Program} {s : Specification}
    (h : Specification.ofProgram options p = .ok s) {fn : Function} (hfn : fn ∈ s.functions) :
    (∀ o ∈ fn.operands, ∃ q ∈ p.family, ∃ st ∈ q.body, ∃ scope, scope.options = options
        ∧ o.value.Of scope st.call?)
      ∧ ∀ d ∈ fn.decorators, ∃ q ∈ p.family, ∃ st ∈ q.body, ∃ scope, scope.options = options
        ∧ d.value.Of scope st.call? := by
  obtain ⟨q, hq, scope, next, pieces, hscope, hpieces, rfl⟩ := exists_program h hfn
  obtain ⟨hoperands, hdecorators⟩ := compileStatements_of hpieces
  constructor
  · intro o ho
    obtain ⟨st, hst, hmade⟩ := hoperands o ho
    exact ⟨q, hq, st, hst, scope, hscope, hmade⟩
  · intro d hd
    obtain ⟨st, hst, hmade⟩ := hdecorators d hd
    exact ⟨q, hq, st, hst, scope, hscope, hmade⟩

end Script

/-! ## Templates -/

/-- A tree that is parsed, whatever the options. -/
theorem Compiler.parse_standard {text : String} {fields : Json.Fields} {t : Template}
    (h : Compiler.standard.parse text fields = .ok t) :
    ∃ source standalone, Template.parse text source standalone = .ok t := by
  obtain ⟨options, -, h⟩ := exists_of_bind_ok h
  exact ⟨_, _, of_mapError_ok h⟩

/-- What compiled code is made of. -/
theorem Template.compileUnder_ok {t : Template} {options : CompilerOptions} {compiled : Compiled}
    (h : t.compileUnder options = .ok compiled) :
    ∃ s, Script.Specification.ofProgram options t.root = .ok s
      ∧ compiled.code = Script.textOf s.chunks
      ∧ compiled.map = options.sourceName.map (Mapping.render · options.destName s.chunks) := by
  obtain ⟨s, hs, h⟩ := exists_of_bind_ok h
  have hcompiled := Except.ok.inj h
  exact ⟨s, hs, hcompiled ▸ rfl, hcompiled ▸ rfl⟩

end Stache
