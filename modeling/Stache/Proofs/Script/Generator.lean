/-
  A generator with a stack.

  The compiler hands scopes down as arguments.  The same work can be done by a generator that keeps
  one STACK of block parameters for the programs that are being compiled: it pushes those of a
  program before its body and pops them behind it, whether the body could be compiled or not.  The
  generator also keeps the list of numbered programs, where a program takes its place, and so its
  number, before those inside it do.

  Run from any state, the generator does what the compiler does in the scope of that state
  (`Follows`): it answers the same or fails in the same way, adds the same programs to its list, and
  leaves the stack as it was, in both cases.  Sections come before the arguments of their block, so
  a stack left changed by a section would show in what the arguments refer to; it is not.
-/
import Stache.Proofs.Runs
import Stache.Script.Compile

namespace Stache.Script

/-! ## States -/

/-- What the generator keeps. -/
structure Generator where
  /-- The parameters of the programs that are being compiled, outermost first. -/
  stack : List (List String)
  /-- The numbered programs.  One that is being compiled has its place already. -/
  children : List (Option Function)

namespace Generator

/-- The scope of a state has the innermost parameters first. -/
def scope (options : CompilerOptions) (g : Generator) : Scope := ⟨options, g.stack.reverse⟩

/-- To enter a program, -/
def push (names : List String) (g : Generator) : Generator :=
  { g with stack := g.stack ++ [names] }

/-- and to leave it. -/
def pop (g : Generator) : Generator := { g with stack := g.stack.dropLast }

/-- A place for one more program. -/
def reserve (g : Generator) : Generator := { g with children := g.children ++ [none] }

/-- The function of a program is put into its place. -/
def fill (index : Nat) (fn : Function) (g : Generator) : Generator :=
  { g with children := g.children.set index (some fn) }

/-- One more program for each of the functions. -/
def extend (functions : List Function) (g : Generator) : Generator :=
  { g with children := g.children ++ functions.map some }

theorem scope_push (options : CompilerOptions) (names : List String) (g : Generator) :
    (g.push names).scope options = (g.scope options).enter names := by
  simp [scope, push, Scope.enter]

@[simp] theorem extend_nil (g : Generator) : g.extend [] = g := by
  simp [extend]

@[simp] theorem extend_extend (first more : List Function) (g : Generator) :
    (g.extend first).extend more = g.extend (first ++ more) := by
  simp [extend, List.append_assoc]

theorem pop_extend_push (names : List String) (fs : List Function) (g : Generator) :
    ((g.push names).extend fs).pop = g.extend fs := by
  simp [push, extend, pop]

/-- The place that is reserved comes before those of the programs inside. -/
theorem fill_reserve (fn : Function) (inside : List Function) (g : Generator) :
    (g.reserve.extend inside).fill g.children.length fn = g.extend (fn :: inside) := by
  simp [fill, reserve, extend]

end Generator

/-- A computation that changes the state, and keeps what it has done if it fails. -/
def Generate (α : Type) : Type := Generator → Except CompileFailure α × Generator

namespace Generate

variable {α β : Type}

instance : Monad Generate where
  pure a := fun g => (.ok a, g)
  bind m f := fun g =>
    match m g with
    | (.ok a, g') => f a g'
    | (.error failure, g') => (.error failure, g')

/-- What the compiler does in the scope of the state. -/
def inScope (options : CompilerOptions) (run : Scope → Except CompileFailure α) : Generate α :=
  fun g => (run (g.scope options), g)

/-- What is done between pushing the parameters of a program and popping them. -/
def within (names : List String) (m : Generate α) : Generate α := fun g =>
  let (result, g') := m (g.push names)
  (result, g'.pop)

/-- Compiles a program with these parameters, whose place in the list is taken before. -/
def asChild (params : Nat) (m : Generate Function) : Generate Child := fun g =>
  let index := g.children.length
  match m g.reserve with
  | (.ok fn, g') => (.ok (.program (index + 1) params), g'.fill index fn)
  | (.error failure, g') => (.error failure, g')

end Generate

/-! ## The generator -/

/-- The operands and the decorators of some statements. -/
structure Output where
  operands : List (Traced Operand)
  decorators : List (Traced Decorator)

/-- No output. -/
def Output.none : Output := ⟨[], []⟩

/-- Output behind other output. -/
def Output.append (a b : Output) : Output :=
  ⟨a.operands ++ b.operands, a.decorators ++ b.decorators⟩

/-- The function of a program with this output. -/
def Output.function (output : Output) (span : Span) : Function :=
  ⟨span.start, output.operands, output.decorators⟩

/-- The output among the pieces that the compiler makes. -/
def Pieces.output (pieces : Pieces) : Output := ⟨pieces.operands, pieces.decorators⟩

open Generate in
mutual

/-- A statement: its sections first, then its call. -/
def generateStatement (options : CompilerOptions) : Statement → Generate Output
  | .content c =>
    return ⟨if c.value.isEmpty then [] else [⟨.text c.value, c.span.start⟩], []⟩
  | .comment _ _ _ => return .none
  | .mustache call escaped _ span => do
    let invocation ← inScope options fun scope => compileInvocation scope none span call
    return ⟨[⟨.mustache (escaped && !options.noEscape) invocation, span.start⟩], []⟩
  | .block call main inverse _ span => do
    -- the name is looked at before the sections, so its error comes first
    let _ ← inScope options fun _ => calleePath call.callee
    let main' ← generateSection options main
    let inverse' ← generateSection options inverse
    let params := (main.map (·.blockParams.length)).getD 0
    let invocation ← inScope options fun scope =>
      compileInvocation scope (some ⟨main', inverse', params⟩) span call
    return ⟨[⟨.block invocation, span.start⟩], []⟩
  | .partialCall call indent _ span => do
    -- the indent is an operand of its own, or goes into the call
    let apart := options.preventIndent
    let compiled ← inScope options fun scope =>
      compilePartial scope (if apart then "" else indent) span call
    let before := if apart then indentOperand indent span.start else []
    return ⟨before ++ [⟨.partialCall compiled, span.start⟩], []⟩
  | .partialBlock call body _ _ span => do
    let compiled ← inScope options fun scope => compilePartial scope "" span call
    let child ← generateChild options body
    return ⟨[⟨.partialCall { compiled with body := some child }, span.start⟩], []⟩
  | .decorator call _ span => do
    let path ← inScope options fun _ => calleePath call.callee
    let decorator ← inScope options fun scope => compileDecorator scope path none span call
    return ⟨[], [⟨decorator, span.start⟩]⟩
  | .decoratorBlock call body _ _ span => do
    let path ← inScope options fun _ => calleePath call.callee
    let child ← generateChild options body
    let decorator ← inScope options fun scope =>
      compileDecorator scope path (some child) span call
    return ⟨[], [⟨decorator, span.start⟩]⟩

/-- Compiles a program, with its parameters on the stack for as long as that takes. -/
def generateProgram (options : CompilerOptions) : Program → Generate Function
  | ⟨body, params, _, span⟩ => do
    let output ← within params (generateBody options body)
    return output.function span

/-- Compiles a program as a numbered one. -/
def generateChild (options : CompilerOptions) : Program → Generate Child
  | ⟨body, params, _, span⟩ => asChild params.length do
    let output ← within params (generateBody options body)
    return output.function span

/-- A section that is not there does nothing. -/
def generateSection (options : CompilerOptions) : Option Program → Generate Child
  | none => return .noop
  | some p => generateChild options p

/-- The statements of a body, one after another. -/
def generateBody (options : CompilerOptions) : List Statement → Generate Output
  | [] => return .none
  | s :: rest => do
    let first ← generateStatement options s
    let more ← generateBody options rest
    return first.append more

end

/-- The state that a template is compiled from. -/
def Generator.start : Generator := ⟨[], []⟩

/-! ## One step after another -/

/-- From the state `g`, where the programs of `before` have been added to those of `start`, the
    generator comes to what the compiler comes to: it answers `value` of that and has added its
    `programs` to those of `start`, or it fails in the same way.  The stack is that of `g` again. -/
def Follows {α β : Type} (start : Generator) (m : Generate α) (g : Generator)
    (run : Except CompileFailure β) (value : β → α) (programs : β → List Function) : Prop :=
  match run with
  | .ok b => m g = (.ok (value b), start.extend (programs b))
  | .error failure => ∃ children, m g = (.error failure, ⟨start.stack, children⟩)

variable {g : Generator}

section Follows

variable {α β α' β' : Type} {start : Generator} {m : Generate α} {run : Except CompileFailure β}
  {value : β → α} {programs : β → List Function}

/-- If one step follows, and the next one does from there, both do. -/
theorem Follows.bind (h : Follows start m g run value programs) {next : α → Generate α'}
    {next' : β → Except CompileFailure β'} {value' : β' → α'} {programs' : β' → List Function}
    (hnext : ∀ b, run = .ok b →
      Follows start (next (value b)) (start.extend (programs b)) (next' b) value' programs') :
    Follows start (m >>= next) g (run >>= next') value' programs' := by
  -- either the run goes on with its result, or both stop there
  cases run with
  | ok b =>
    have hm : m g = _ := h
    have hb := hnext b rfl
    show Follows start (m >>= next) g (next' b) value' programs'
    unfold Follows at hb ⊢
    show match next' b with
      | .ok b => (match m g with
          | (.ok a, g') => next a g'
          | (.error failure, g') => (.error failure, g')) = _
      | .error failure => ∃ children, (match m g with
          | (.ok a, g') => next a g'
          | (.error failure, g') => (.error failure, g')) = _
    rw [hm]
    exact hb
  | error failure =>
    obtain ⟨children, hm⟩ := h
    refine ⟨children, ?_⟩
    show (match m g with
      | (.ok a, g') => next a g'
      | (.error failure, g') => (.error failure, g')) = _
    rw [hm]

theorem Follows.pure {a : α} {b : β} (ha : a = value b) (hg : g = start.extend (programs b)) :
    Follows start (pure a : Generate α) g (.ok b) value programs := by
  subst ha hg
  rfl

theorem Follows.map (h : Follows start m g run value programs) (f : α → α') :
    Follows start (m >>= fun a => Pure.pure (f a)) g run (fun b => f (value b)) programs := by
  have hall : Follows start (m >>= fun a => Pure.pure (f a)) g (run >>= Pure.pure)
      (fun b => f (value b)) programs := h.bind fun _ _ => .pure rfl rfl
  rwa [bind_pure] at hall

/-- The stack is kept, also if nothing comes of it. -/
theorem Follows.stack (h : Follows start m g run value programs) :
    (m g).2.stack = start.stack := by
  cases run with
  | ok b =>
    have hm : m g = _ := h
    rw [hm]
    rfl
  | error failure =>
    obtain ⟨children, hm⟩ := h
    rw [hm]

/-- What is done in the scope of the state changes nothing. -/
theorem Follows.inScope {options : CompilerOptions} {run : Scope → Except CompileFailure α}
    {fs : List Function} (hg : g = start.extend fs) :
    Follows start (Generate.inScope options run) g (run (start.scope options)) id fun _ => fs := by
  subst hg
  cases hrun : run (start.scope options) with
  | ok a => exact congrArg (·, start.extend fs) hrun
  | error failure => exact ⟨_, congrArg (·, start.extend fs) hrun⟩

/-- Programs that have been added before. -/
theorem Follows.after {fs : List Function}
    (h : Follows (start.extend fs) m (start.extend fs) run value programs) :
    Follows start m (start.extend fs) run value fun b => fs ++ programs b := by
  cases run with
  | ok b =>
    show m (start.extend fs) = (_, start.extend (fs ++ programs b))
    rw [← Generator.extend_extend]
    exact h
  | error failure => exact h

end Follows

/-- The number of the next program. -/
def Generator.next (g : Generator) : Nat := g.children.length + 1

@[simp] theorem Generator.next_extend (g : Generator) (fs : List Function) :
    (g.extend fs).next = g.next + fs.length := by
  simp [next, extend]
  omega

@[simp] theorem Generator.next_push (names : List String) (g : Generator) :
    (g.push names).next = g.next := rfl

@[simp] theorem Generator.next_reserve (g : Generator) : g.reserve.next = g.next + 1 := by
  simp [next, reserve]

/-! ## The generator follows the compiler -/

/-- A body inside its program. -/
theorem Follows.within {options : CompilerOptions} {names : List String} {m : Generate Output}
    {next : Nat} {body : List Statement}
    (h : Follows (g.push names) m (g.push names)
      (compileStatements ((g.scope options).enter names) next body) Pieces.output Pieces.programs) :
    Follows g (Generate.within names m) g
      (compileStatements ((g.scope options).enter names) next body) Pieces.output
      Pieces.programs := by
  -- the parameters are popped in both cases
  cases hrun : compileStatements ((g.scope options).enter names) next body with
  | ok pieces =>
    rw [hrun] at h
    have hm : m (g.push names) = _ := h
    show ((m (g.push names)).1, (m (g.push names)).2.pop) = _
    rw [hm, Generator.pop_extend_push]
  | error failure =>
    rw [hrun] at h
    obtain ⟨children, hm⟩ := h
    refine ⟨children, ?_⟩
    show ((m (g.push names)).1, (m (g.push names)).2.pop) = _
    rw [hm]
    exact congrArg (fun stack => (_, (⟨stack, children⟩ : Generator))) List.dropLast_concat

/-- A program in its place. -/
theorem Follows.asChild {params : Nat} {m : Generate Function}
    {run : Except CompileFailure Pieces} {span : Span}
    (h : Follows g.reserve m g.reserve run (Pieces.function · span) Pieces.programs) :
    Follows g (Generate.asChild params m) g
      (run >>= fun pieces => .ok (Child.program g.next params, pieces.function span
        :: pieces.programs)) Prod.fst Prod.snd := by
  -- the place that was kept free is filled, or stays empty after a failure
  cases run with
  | ok pieces =>
    have hm : m g.reserve = _ := h
    show (match m g.reserve with
      | (.ok fn, g') => (Except.ok (Child.program g.next params), g'.fill g.children.length fn)
      | (.error failure, g') => (Except.error failure, g')) = _
    rw [hm]
    exact congrArg (Except.ok _, ·) (g.fill_reserve _ _)
  | error failure =>
    obtain ⟨children, hm⟩ := h
    refine ⟨children, ?_⟩
    show (match m g.reserve with
      | (.ok fn, g') => (Except.ok (Child.program g.next params), g'.fill g.children.length fn)
      | (.error failure, g') => (Except.error failure, g')) = _
    rw [hm]
    rfl

mutual

/-- **The generator follows** the compiler through a statement, -/
theorem generateStatement_follows (options : CompilerOptions) (g : Generator) (s : Statement) :
    Follows g (generateStatement options s) g
      (compileStatement (g.scope options) g.next s) Pieces.output Pieces.programs := by
  -- the recursion is on the tree; each kind of statement is its steps, one after another
  match s with
  | .content c =>
    rw [generateStatement, compileStatement]
    exact .pure rfl g.extend_nil.symm
  | .comment _ _ _ =>
    rw [generateStatement, compileStatement]
    exact .pure rfl g.extend_nil.symm
  | .mustache call escaped _ span =>
    rw [generateStatement, compileStatement]
    exact (Follows.inScope g.extend_nil.symm).bind fun i _ => .pure rfl rfl
  | .block call main inverse _ span =>
    rw [generateStatement, compileStatement]
    refine (Follows.inScope g.extend_nil.symm).bind fun _ _ => ?_
    rw [Generator.extend_nil]
    refine (generateSection_follows options g main).bind ?_
    rintro ⟨first, inside⟩ -
    have hsecond := (generateSection_follows options (g.extend inside) inverse).after
    rw [Generator.next_extend] at hsecond
    refine hsecond.bind ?_
    rintro ⟨second, more⟩ -
    exact (Follows.inScope rfl).bind fun i _ => .pure rfl rfl
  | .partialCall call indent _ span =>
    rw [generateStatement, compileStatement]
    exact (Follows.inScope g.extend_nil.symm).bind fun compiled _ => .pure rfl rfl
  | .partialBlock call body _ _ span =>
    rw [generateStatement, compileStatement]
    refine (Follows.inScope g.extend_nil.symm).bind fun compiled _ => ?_
    rw [Generator.extend_nil]
    exact (generateChild_follows options g body).bind fun child _ => .pure rfl rfl
  | .decorator call _ span =>
    rw [generateStatement, compileStatement]
    refine (Follows.inScope g.extend_nil.symm).bind fun path _ => ?_
    exact (Follows.inScope rfl).bind fun d _ => .pure rfl rfl
  | .decoratorBlock call body _ _ span =>
    rw [generateStatement, compileStatement]
    refine (Follows.inScope g.extend_nil.symm).bind fun path _ => ?_
    rw [Generator.extend_nil]
    refine (generateChild_follows options g body).bind fun child _ => ?_
    exact (Follows.inScope rfl).bind fun d _ => .pure rfl rfl

/-- a program, -/
theorem generateChild_follows (options : CompilerOptions) (g : Generator) (p : Program) :
    Follows g (generateChild options p) g (compileChild (g.scope options) g.next p) Prod.fst
      Prod.snd := by
  match p with
  | ⟨body, params, chained, span⟩ =>
    rw [generateChild, compileChild]
    have hbody := generateBody_follows options (g.reserve.push params) body
    rw [Generator.scope_push, Generator.next_push, Generator.next_reserve] at hbody
    exact (hbody.within.map (Output.function · span)).asChild

/-- a section, -/
theorem generateSection_follows (options : CompilerOptions) (g : Generator) (p : Option Program) :
    Follows g (generateSection options p) g (compileSection (g.scope options) g.next p) Prod.fst
      Prod.snd := by
  match p with
  | none =>
    rw [generateSection, compileSection]
    exact .pure rfl g.extend_nil.symm
  | some p =>
    rw [generateSection, compileSection]
    exact generateChild_follows options g p

/-- and a body. -/
theorem generateBody_follows (options : CompilerOptions) (g : Generator) (body : List Statement) :
    Follows g (generateBody options body) g
      (compileStatements (g.scope options) g.next body) Pieces.output Pieces.programs := by
  match body with
  | [] =>
    rw [generateBody, compileStatements]
    exact .pure rfl g.extend_nil.symm
  | s :: rest =>
    rw [generateBody, compileStatements]
    refine (generateStatement_follows options g s).bind fun first _ => ?_
    have hrest := (generateBody_follows options (g.extend first.programs) rest).after
    rw [Generator.next_extend] at hrest
    exact hrest.bind fun more _ => .pure rfl rfl

end

/-- So it does with the body of a whole program. -/
theorem generateProgram_follows (options : CompilerOptions) (g : Generator) (p : Program) :
    Follows g (generateProgram options p) g
      (compileStatements ((g.scope options).enter p.blockParams) g.next p.body)
      (Pieces.function · p.span) Pieces.programs := by
  obtain ⟨body, params, chained, span⟩ := p
  have hbody := generateBody_follows options (g.push params) body
  rw [Generator.scope_push, Generator.next_push] at hbody
  rw [generateProgram]
  exact hbody.within.map (Output.function · span)

/-- **The generator follows the compiler** on a whole tree. -/
theorem Specification.ofProgram_followed (options : CompilerOptions) (p : Program) :
    Follows .start (generateProgram options p) .start (Specification.ofProgram options p)
      Specification.main Specification.programs := by
  have hfollows := generateProgram_follows options .start p
  rw [ofProgram]
  change Follows _ _ _ (compileStatements ((⟨options, []⟩ : Scope).enter p.blockParams) 1 p.body)
    _ _ at hfollows
  cases hrun : compileStatements ((⟨options, []⟩ : Scope).enter p.blockParams) 1 p.body with
  | ok pieces =>
    rw [hrun] at hfollows
    exact hfollows
  | error failure =>
    rw [hrun] at hfollows
    exact hfollows

/-- **The stack is kept** by compiling a program, whether it can be compiled or not. -/
theorem generateProgram_stack (options : CompilerOptions) (g : Generator) (p : Program) :
    (generateProgram options p g).2.stack = g.stack :=
  (generateProgram_follows options g p).stack

end Stache.Script
