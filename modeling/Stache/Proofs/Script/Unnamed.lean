/-
  The name of the file does not get into the code.

  The options of the compiler name the file of the template, and the name goes with them into every
  scope; but a scope is only asked for the helpers that are known and for the parameters around, so
  compiling WITHOUT THE NAME gives the same code.  It also fails in the same way, but for the name
  in a parse error (`CompileFailure.unnamed`).

  Both halves are one equation, that compiling without the name is compiling with it and leaving the
  name out of the failure; it is proved for each function in turn, by recursion over the tree.
-/
import Stache.Proofs.Runs
import Stache.Script.Compile

namespace Stache

/-- The options, but for the name of the file. -/
def CompilerOptions.unnamed (o : CompilerOptions) : CompilerOptions := { o with sourceName := none }

/-- The failure, but for the name of the file. -/
def CompileFailure.unnamed : CompileFailure → CompileFailure
  | .parse _ error => .parse none error
  | failure => failure

namespace Script

open CompileFailure

/-- A scope without the name. -/
def Scope.unnamed (scope : Scope) : Scope := { scope with options := scope.options.unnamed }

/-! ## Calls -/

/-- Paths do not ask for the name, -/
theorem calleePath_unnamed (e : Expression) :
    calleePath e = (calleePath e).mapError unnamed := by
  cases e <;> rfl

/-- nor does what is called, -/
theorem calleeOf_unnamed (scope : Scope) (p : Path) (span : Span) :
    scope.unnamed.calleeOf p span = (scope.calleeOf p span).mapError unnamed := by
  show scope.calleeOf p span = _
  unfold Scope.calleeOf
  split
  · rfl
  · split <;> rfl

mutual

/-- an argument, -/
theorem compileArgument_unnamed (scope : Scope) (e : Expression) :
    compileArgument scope.unnamed e = (compileArgument scope e).mapError unnamed := by
  match e with
  | .path p => rfl
  | .subexpression call span =>
    simp only [compileArgument, mapError_bind, ← calleePath_unnamed, compileCall_unnamed scope call]
    rfl
  | .string .. | .number .. | .boolean .. | .undefined _ | .null _ => rfl

/-- a call, -/
theorem compileCall_unnamed (scope : Scope) (call : Call) (path : Path)
    (sections : Option Sections) (span : Span) :
    compileCall scope.unnamed path sections span call
      = (compileCall scope path sections span call).mapError unnamed := by
  match call with
  | ⟨_, params, hash⟩ =>
    simp only [compileCall, mapError_bind, calleeOf_unnamed, compileArguments_unnamed scope params,
      compileHash_unnamed scope hash]
    rfl

/-- parameters, -/
theorem compileArguments_unnamed (scope : Scope) (params : List Expression) :
    compileArguments scope.unnamed params = (compileArguments scope params).mapError unnamed := by
  match params with
  | [] => rfl
  | e :: rest =>
    simp only [compileArguments, mapError_bind, compileArgument_unnamed scope e,
      compileArguments_unnamed scope rest]
    rfl

/-- a hash, -/
theorem compileHash_unnamed (scope : Scope) (hash : Option Hash) :
    compileHash scope.unnamed hash = (compileHash scope hash).mapError unnamed := by
  match hash with
  | none => rfl
  | some ⟨pairs, _⟩ => exact compilePairs_unnamed scope pairs

/-- or its pairs, -/
theorem compilePairs_unnamed (scope : Scope) (pairs : List Pair) :
    compilePairs scope.unnamed pairs = (compilePairs scope pairs).mapError unnamed := by
  match pairs with
  | [] => rfl
  | ⟨key, value, _⟩ :: rest =>
    simp only [compilePairs, mapError_bind, compileArgument_unnamed scope value,
      compilePairs_unnamed scope rest]
    rfl

end

/-- and so no mustache or block. -/
theorem compileInvocation_unnamed (scope : Scope) (sections : Option Sections) (span : Span)
    (call : Call) :
    compileInvocation scope.unnamed sections span call
      = (compileInvocation scope sections span call).mapError unnamed := by
  have hkind (p : Path) (hasArguments : Bool) :
      scope.unnamed.kindOf p hasArguments = scope.kindOf p hasArguments := rfl
  simp only [compileInvocation, mapError_bind, ← calleePath_unnamed, hkind]
  refine congrArg _ (funext fun path => ?_)
  cases scope.kindOf path call.hasArguments with
  | helper =>
    simp only [compileCall_unnamed, mapError_bind]
    rfl
  | either | plain => rfl

/-! ## Partials and decorators -/

/-- Nor does the name of a partial, -/
theorem compileTarget_unnamed (scope : Scope) (e : Expression) :
    compileTarget scope.unnamed e = (compileTarget scope e).mapError unnamed := by
  cases e with
  | subexpression call span =>
    simp only [compileTarget, compileArgument_unnamed, mapError_map]
  | _ => rfl

/-- its call, -/
theorem compilePartial_unnamed (scope : Scope) (indent : String) (span : Span) (call : Call) :
    compilePartial scope.unnamed indent span call
      = (compilePartial scope indent span call).mapError unnamed := by
  obtain ⟨callee, params, hash⟩ := call
  match params with
  | [] =>
    have hfew : ¬ 1 < ([] : List Expression).length := by decide
    simp only [compilePartial, if_neg hfew, mapError_bind, compileTarget_unnamed,
      compileHash_unnamed]
    rfl
  | [param] =>
    have hfew : ¬ 1 < [param].length := Nat.lt_irrefl 1
    simp only [compilePartial, if_neg hfew, mapError_bind, compileTarget_unnamed,
      compileArgument_unnamed, compileHash_unnamed]
    rfl
  | first :: second :: rest =>
    have hmany : 1 < (first :: second :: rest).length := by simp
    simp only [compilePartial, if_pos hmany]
    rfl

/-- or a decorator. -/
theorem compileDecorator_unnamed (scope : Scope) (path : Path) (body : Option Child) (span : Span)
    (call : Call) :
    compileDecorator scope.unnamed path body span call
      = (compileDecorator scope path body span call).mapError unnamed := by
  simp only [compileDecorator, mapError_bind, compileHash_unnamed, compileArguments_unnamed]
  rfl

/-! ## Programs -/

mutual

/-- **Statements are compiled without the name**, -/
theorem compileStatement_unnamed (scope : Scope) (s : Statement) (next : Nat) :
    compileStatement scope.unnamed next s
      = (compileStatement scope next s).mapError unnamed := by
  -- the file is named in errors only, which `mapError` takes it out of
  match s with
  | .content _ | .comment .. => rfl
  | .mustache call escaped _ span =>
    simp only [compileStatement, mapError_bind, compileInvocation_unnamed]
    rfl
  | .block call main inverse _ span =>
    simp only [compileStatement, mapError_bind, ← calleePath_unnamed, compileInvocation_unnamed,
      compileSection_unnamed scope main, compileSection_unnamed scope inverse]
    rfl
  | .partialCall call indent _ span =>
    simp only [compileStatement, mapError_bind, compilePartial_unnamed]
    rfl
  | .partialBlock call body _ _ span =>
    simp only [compileStatement, mapError_bind, compilePartial_unnamed,
      compileChild_unnamed scope body]
    rfl
  | .decorator call _ span =>
    simp only [compileStatement, mapError_bind, ← calleePath_unnamed, compileDecorator_unnamed]
    rfl
  | .decoratorBlock call body _ _ span =>
    simp only [compileStatement, mapError_bind, ← calleePath_unnamed, compileDecorator_unnamed,
      compileChild_unnamed scope body]
    rfl

/-- programs are, -/
theorem compileChild_unnamed (scope : Scope) (p : Program) (next : Nat) :
    compileChild scope.unnamed next p = (compileChild scope next p).mapError unnamed := by
  match p with
  | ⟨body, blockParams, _, span⟩ =>
    have hinside := compileStatements_unnamed (scope.enter blockParams) body (next + 1)
    simp only [compileChild, mapError_bind, ← hinside]
    rfl

/-- sections, -/
theorem compileSection_unnamed (scope : Scope) (p : Option Program) (next : Nat) :
    compileSection scope.unnamed next p = (compileSection scope next p).mapError unnamed := by
  match p with
  | none => rfl
  | some p => exact compileChild_unnamed scope p next

/-- and bodies. -/
theorem compileStatements_unnamed (scope : Scope) (body : List Statement) (next : Nat) :
    compileStatements scope.unnamed next body
      = (compileStatements scope next body).mapError unnamed := by
  match body with
  | [] => rfl
  | s :: rest =>
    simp only [compileStatements, mapError_bind, compileStatement_unnamed scope s,
      compileStatements_unnamed scope rest]
    rfl

end

/-- **The name of the file does not get into the code**, nor into what is wrong with a tree. -/
theorem Specification.ofProgram_unnamed (options : CompilerOptions) (p : Program) :
    Specification.ofProgram options.unnamed p
      = (Specification.ofProgram options p).mapError unnamed := by
  have hpieces := compileStatements_unnamed ((⟨options, []⟩ : Scope).enter p.blockParams) p.body 1
  simp only [Specification.ofProgram, mapError_bind, ← hpieces]
  rfl

end Script

end Stache
