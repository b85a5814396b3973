/-
  From a template to a specification.

  1. A path is resolved against the block parameters in scope, innermost program first; a name that
     no program declares is a property of the context.
  2. A call is compiled by what its callee may be: a helper if it has arguments or is known, a
     helper or a value if it is a single name, else a value.
  3. Programs are numbered in preorder, a block's main section before its inverse one. The number of
     a section is therefore known in advance, as `next`, and the programs inside it follow at once:
     compiling a section answers its own function and then theirs.

  A scope is the argument of the functions below and never a state, so nothing can leave it changed.
-/
import Stache.Settings.Compiler
import Stache.Template.Fault
import Stache.Script.Code

namespace Stache

/-! ## Errors -/

/-- Why a template is not compiled. -/
inductive CompileFailure where
  | parse (source : Option String) (error : ParseError)
  /-- A helper that is not known, where all have to be. -/
  | unknownHelper (name : String) (position : Position)
  | partialArguments (count : Nat) (position : Position)
  /-- A call in parentheses in the place of a helper's name. -/
  | computedHelper (position : Position)
  | options (error : CompilerOptions.Mistyped)

/-- A position, as messages end in it. -/
def Position.inMessage (p : Position) : String :=
  " (line " ++ toString p.reported.line ++ ", column " ++ toString p.reported.column ++ ")"

/-- What a user is told of a failure, with the place of it in the template. -/
def CompileFailure.message : CompileFailure → String
  | .parse source error =>
    "Parse error" ++ (source.map (" in " ++ ·)).getD "" ++ " on line "
      ++ toString error.position.reported.line ++ ", column "
      ++ toString error.position.reported.column ++ ": " ++ error.fault.message
  | .unknownHelper name position =>
    "You specified knownHelpersOnly, but used the unknown helper " ++ name ++ position.inMessage
  | .partialArguments count position =>
    "Unsupported number of partial arguments: " ++ toString count ++ position.inMessage
  | .computedHelper position =>
    "A sub-expression cannot name a helper" ++ position.inMessage
  | .options error => "Invalid compiler options: " ++ error.message

namespace Script

/-! ## Scopes -/

/-- Helpers that are always there. -/
def standardHelpers : List String :=
  ["blockHelperMissing", "each", "helperMissing", "if", "log", "lookup", "unless", "with"]

/-- What the compilation of an expression depends on. -/
structure Scope where
  options : CompilerOptions
  /-- The block parameters of the programs around a place, innermost first. -/
  params : List (List String)

/-- The scope inside a program that declares `names`. -/
def Scope.enter (scope : Scope) (names : List String) : Scope :=
  { scope with params := names :: scope.params }

/-- Where a block parameter is declared: how many programs outwards, and its place there. -/
def findParam (name : String) : List (List String) → Option (Nat × Nat)
  | [] => none
  | names :: outer =>
    match names.findIdx? (· = name) with
    | some index => some (0, index)
    | none => (findParam name outer).map fun found => (found.1 + 1, found.2)

/-- Whether a helper of that name is known to be there. -/
def Scope.knows (scope : Scope) (name : String) : Bool :=
  ((scope.options.knownHelpers.find? fun known => known.1 = name).map (·.2)).getD
    (standardHelpers.contains name)

/-- The block parameter that a path begins with. -/
def Scope.paramOf (scope : Scope) (p : Path) : Option (Nat × Nat) :=
  match p.parts with
  | [] => none
  | first :: _ =>
    if p.data || 0 < p.depth || p.thisScoped then none else findParam first scope.params

/-- The place that a path stands for. -/
def Scope.resolve (scope : Scope) (p : Path) : Place :=
  if p.data then ⟨.data p.depth, p.parts⟩
  -- a path that climbs is never a block parameter
  else if 0 < p.depth then ⟨.ancestor p.depth, p.parts⟩
  else
    match scope.paramOf p with
    | some (depth, index) => ⟨.blockParam depth index, p.parts.drop 1⟩
    | none => ⟨.context, p.parts⟩

/-! ## Calls -/

/-- The path by which a call names its helper. A literal is taken for a name. -/
def calleePath : Expression → Except CompileFailure Path
  | .path p => .ok p
  | .subexpression _ span => .error (.computedHelper span.start)
  | e => .ok ⟨false, 0, [e.label], e.label, false, e.span⟩

/-- What the callee of a call may be. -/
inductive CalleeKind where
  | helper
  | either
  | plain
deriving DecidableEq, Repr

/-- A block parameter hides a helper, arguments ask for one. -/
def Scope.kindOf (scope : Scope) (p : Path) (hasArguments : Bool) : CalleeKind :=
  if p.isSimple && !p.data && (findParam p.head scope.params).isSome then .plain
  else if hasArguments || (p.isSimple && scope.knows p.head) then .helper
  else if p.isSimple && !scope.options.knownHelpersOnly then .either
  else .plain

/-- The helper that a path names, or an error if it has to be known and is not. -/
def Scope.calleeOf (scope : Scope) (p : Path) (span : Span) : Except CompileFailure Callee :=
  if p.isSimple && scope.knows p.head then .ok (.known p.head)
  else if scope.options.knownHelpersOnly then .error (.unknownHelper p.written span.start)
  else .ok (.unknown (if p.isSimple then some p.head else none) (scope.resolve p))

mutual

/-- An argument by position. -/
def compileArgument (scope : Scope) : Expression → Except CompileFailure Code
  | .path p => .ok (.place (scope.resolve p))
  | .subexpression call span => do
    let path ← calleePath call.callee
    let (callee, args, options) ← compileCall scope path none span call
    return .helper callee args options
  | .string value _ _ => .ok (.string value)
  | .number written _ => .ok (.number written)
  | .boolean value _ => .ok (.boolean value)
  | .undefined _ => .ok .undefined
  | .null _ => .ok .null

/-- Compiles a call of the helper that `path` names. -/
def compileCall (scope : Scope) (path : Path) (sections : Option Sections) (span : Span) :
    Call → Except CompileFailure (Callee × List Code × Options)
  | ⟨_, params, hash⟩ => do
    let callee ← scope.calleeOf path span
    let args ← compileArguments scope params
    let entries ← compileHash scope hash
    return (callee, args, ⟨path.written, entries, sections, span⟩)

/-- A row of them, in order. -/
def compileArguments (scope : Scope) : List Expression → Except CompileFailure (List Code)
  | [] => .ok []
  | e :: rest => do
    let code ← compileArgument scope e
    let codes ← compileArguments scope rest
    return code :: codes

/-- The entries of a hash that may be missing. -/
def compileHash (scope : Scope) : Option Hash → Except CompileFailure (List Entry)
  | none => .ok []
  | some ⟨pairs, _⟩ => compilePairs scope pairs

/-- The entries that pairs become. -/
def compilePairs (scope : Scope) : List Pair → Except CompileFailure (List Entry)
  | [] => .ok []
  | ⟨key, value, _⟩ :: rest => do
    let code ← compileArgument scope value
    let entries ← compilePairs scope rest
    return ⟨key, code⟩ :: entries

end

/-- How the value of a mustache or a block is found. The options of a call without arguments bear
    the bare name where a helper may be meant, and the path as written elsewhere. -/
def compileInvocation (scope : Scope) (sections : Option Sections) (span : Span) (call : Call) :
    Except CompileFailure Invocation := do
  let path ← calleePath call.callee
  match scope.kindOf path call.hasArguments with
  | .helper =>
    let (callee, args, options) ← compileCall scope path sections span call
    return ⟨.helper callee args, options⟩
  | .either => return ⟨.either (scope.resolve path), ⟨path.head, [], sections, span⟩⟩
  | .plain => return ⟨.plain (scope.resolve path), ⟨path.written, [], sections, span⟩⟩

/-! ## Partials and decorators -/

/-- Which partial a callee names. -/
def compileTarget (scope : Scope) : Expression → Except CompileFailure Target
  | .path p => .ok (if p.written = Path.enclosingBlock then .enclosing else .named p.written)
  | .subexpression call span => (compileArgument scope (.subexpression call span)).map .computed
  | e => .ok (.named e.label)

/-- Compiles the call of a partial, but for its section. -/
def compilePartial (scope : Scope) (indent : String) (span : Span) (call : Call) :
    Except CompileFailure PartialCall := do
  if 1 < call.params.length then throw (.partialArguments call.params.length span.start)
  let target ← compileTarget scope call.callee
  let context ← match call.params with
    | [] => .ok (Code.place ⟨.context, []⟩)
    | param :: _ => compileArgument scope param
  let entries ← compileHash scope call.hash
  return ⟨target, context, call.hash.map fun _ => entries, none, indent⟩

/-- Compiles a decorator with the section it is given, whose callee is `path`. -/
def compileDecorator (scope : Scope) (path : Path) (body : Option Child) (span : Span)
    (call : Call) : Except CompileFailure Decorator := do
  let entries ← compileHash scope call.hash
  let args ← compileArguments scope call.params
  return ⟨path.written, entries, body, args, span⟩

/-! ## Programs -/

/-- What some statements of a body become. -/
structure Pieces where
  operands : List (Traced Operand)
  decorators : List (Traced Decorator)
  /-- The numbered programs in the statements. -/
  programs : List Function

/-- What a comment compiles to. -/
def Pieces.none : Pieces := ⟨[], [], []⟩

/-- What two statements compile to, one after another. -/
def Pieces.append (a b : Pieces) : Pieces :=
  ⟨a.operands ++ b.operands, a.decorators ++ b.decorators, a.programs ++ b.programs⟩

/-- The function of a program with these pieces. -/
def Pieces.function (pieces : Pieces) (span : Span) : Function :=
  ⟨span.start, pieces.operands, pieces.decorators⟩

/-- The indentation in front of a partial, as an operand of its own. -/
def indentOperand (indent : String) (origin : Position) : List (Traced Operand) :=
  if indent.isEmpty then [] else [⟨.text indent, origin⟩]

mutual

/-- Compiles a statement. The first program in it gets the number `next`. -/
def compileStatement (scope : Scope) (next : Nat) : Statement → Except CompileFailure Pieces
  | .content c =>
    .ok { Pieces.none with
      operands := if c.value.isEmpty then [] else [⟨.text c.value, c.span.start⟩] }
  | .comment _ _ _ => .ok .none
  | .mustache call escaped _ span => do
    let invocation ← compileInvocation scope none span call
    let operand := Operand.mustache (escaped && !scope.options.noEscape) invocation
    return { Pieces.none with operands := [⟨operand, span.start⟩] }
  | .block call main inverse _ span => do
    let _ ← calleePath call.callee
    let (main', inside) ← compileSection scope next main
    -- the numbers go on behind those of the main section
    let (inverse', inside') ← compileSection scope (next + inside.length) inverse
    let params := (main.map (·.blockParams.length)).getD 0
    let invocation ← compileInvocation scope (some ⟨main', inverse', params⟩) span call
    return ⟨[⟨.block invocation, span.start⟩], [], inside ++ inside'⟩
  | .partialCall call indent _ span => do
    -- an indentation may be an operand of its own, in front of the call
    let apart := scope.options.preventIndent
    let compiled ← compilePartial scope (if apart then "" else indent) span call
    let before := if apart then indentOperand indent span.start else []
    return { Pieces.none with operands := before ++ [⟨.partialCall compiled, span.start⟩] }
  | .partialBlock call body _ _ span => do
    let compiled ← compilePartial scope "" span call
    let (child, inside) ← compileChild scope next body
    let operand := Operand.partialCall { compiled with body := some child }
    return ⟨[⟨operand, span.start⟩], [], inside⟩
  | .decorator call _ span => do
    let path ← calleePath call.callee
    let decorator ← compileDecorator scope path none span call
    return { Pieces.none with decorators := [⟨decorator, span.start⟩] }
  | .decoratorBlock call body _ _ span => do
    let path ← calleePath call.callee
    let (child, inside) ← compileChild scope next body
    let decorator ← compileDecorator scope path (some child) span call
    return ⟨[], [⟨decorator, span.start⟩], inside⟩

/-- Compiles a program as a numbered one: the value that stands for it, its function, and those of
    the programs in it. -/
def compileChild (scope : Scope) (next : Nat) :
    Program → Except CompileFailure (Child × List Function)
  | ⟨body, blockParams, _, span⟩ => do
    let pieces ← compileStatements (scope.enter blockParams) (next + 1) body
    return (.program next blockParams.length, pieces.function span :: pieces.programs)

/-- Compiles a section that may be missing. -/
def compileSection (scope : Scope) (next : Nat) :
    Option Program → Except CompileFailure (Child × List Function)
  | none => .ok (.noop, [])
  | some p => compileChild scope next p

/-- Compiles statements one after another. -/
def compileStatements (scope : Scope) (next : Nat) :
    List Statement → Except CompileFailure Pieces
  | [] => .ok .none
  | s :: rest => do
    let first ← compileStatement scope next s
    let more ← compileStatements scope (next + first.programs.length) rest
    return first.append more

end

/-! ## Features -/

mutual

/-- Whether some path in an expression goes outwards. -/
def climbsExpression : Expression → Bool
  | .path p => 0 < p.depth
  | .subexpression call _ => climbsCall call
  | _ => false

/-- The same for a call. -/
def climbsCall : Call → Bool
  | ⟨callee, params, hash⟩ => climbsExpression callee || climbsParams params || climbsHash hash

/-- The same for parameters. -/
def climbsParams : List Expression → Bool
  | [] => false
  | e :: rest => climbsExpression e || climbsParams rest

/-- The same for a hash that may be missing. -/
def climbsHash : Option Hash → Bool
  | none => false
  | some ⟨pairs, _⟩ => climbsPairs pairs

/-- The same for the pairs of a hash. -/
def climbsPairs : List Pair → Bool
  | [] => false
  | ⟨_, value, _⟩ :: rest => climbsExpression value || climbsPairs rest

end

mutual

/-- Whether `inCall` holds of a call, or `inProgram` of the parameters of a program, somewhere in a
    statement. -/
def someStatement (inCall : Call → Bool) (inProgram : List String → Bool) : Statement → Bool
  | .content _ | .comment _ _ _ => false
  | .mustache call _ _ _ | .partialCall call _ _ _ | .decorator call _ _ => inCall call
  | .block call main inverse _ _ =>
    inCall call || someSection inCall inProgram main || someSection inCall inProgram inverse
  | .partialBlock call body _ _ _ | .decoratorBlock call body _ _ _ =>
    inCall call || someProgram inCall inProgram body

/-- The same for a program. -/
def someProgram (inCall : Call → Bool) (inProgram : List String → Bool) : Program → Bool
  | ⟨body, blockParams, _, _⟩ => inProgram blockParams || someBody inCall inProgram body

/-- The same for a section that may be missing. -/
def someSection (inCall : Call → Bool) (inProgram : List String → Bool) : Option Program → Bool
  | none => false
  | some p => someProgram inCall inProgram p

/-- The same for the statements of a body. -/
def someBody (inCall : Call → Bool) (inProgram : List String → Bool) : List Statement → Bool
  | [] => false
  | s :: rest => someStatement inCall inProgram s || someBody inCall inProgram rest

end

/-- What the functions of a program have to be given. -/
def Features.ofProgram (options : CompilerOptions) (p : Program) : Features :=
  ⟨options.data.getD true, someProgram climbsCall (fun _ => false) p,
    someProgram (fun _ => false) (fun names => !names.isEmpty) p⟩

/-! ## Templates -/

/-- Compiles the tree of a whole template. -/
def Specification.ofProgram (options : CompilerOptions) (p : Program) :
    Except CompileFailure Specification := do
  let pieces ← compileStatements ((⟨options, []⟩ : Scope).enter p.blockParams) 1 p.body
  return ⟨Features.ofProgram options p, pieces.programs, pieces.function p.span⟩

end Script

end Stache
