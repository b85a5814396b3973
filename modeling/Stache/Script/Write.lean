/-
  Writing code down.

  Each constructor of the code language has one template of text, given here. A text that comes from
  a template of the user's appears in it only quoted (`Text.scriptQuoted`), apart from the digits of
  numbers. A specification is written as a row of CHUNKS; some of them carry the position that they
  come from, and the code itself is the chunks laid end to end.
-/
import Stache.Text.Quoted
import Stache.Script.Code

namespace Stache.Script

open Text (scriptQuoted joined braces brackets field)

/-- A number in code. -/
def numeral (n : Nat) : String := toString n

/-! ## Places -/

/-- The text of a base. -/
def Base.write : Base → String
  | .context => "depth0"
  | .data 0 => "data"
  | .data up => "container.data(data, " ++ numeral up ++ ")"
  | .ancestor up => "depths[" ++ numeral up ++ "]"
  | .blockParam depth index => "blockParams[" ++ numeral depth ++ "][" ++ numeral index ++ "]"

/-- The property `part` of a base, which may be missing. -/
def writeFirst (base part : String) : String :=
  "(" ++ base ++ " != null ? lookupProperty(" ++ base ++ "," ++ scriptQuoted part ++ ") : " ++ base
    ++ ")"

/-- The property `part` of any value. -/
def writeNext (value part : String) : String :=
  "((stack1 = " ++ value ++ ") != null ? lookupProperty(stack1," ++ scriptQuoted part
    ++ ") : stack1)"

/-- The text of a place: its base, and one property after another. -/
def Place.write (p : Place) : String :=
  match p.parts with
  | [] => p.base.write
  | first :: more => more.foldl writeNext (writeFirst p.base.write first)

/-! ## Expressions -/

/-- The arguments that tell a program of the programs around it. -/
def Features.scopeArguments (f : Features) : List String :=
  (if f.blockParams || f.depths then ["blockParams"] else [])
    ++ (if f.depths then ["depths"] else [])

/-- The text of a section. -/
def Child.write (f : Features) : Child → String
  | .noop => "container.noop"
  | .program number params =>
    "container.program("
      ++ joined ", " ([numeral number, "data", numeral params] ++ f.scopeArguments)
      ++ ")"

/-- The helper of a given name. -/
def writeHelper (name : String) : String := "lookupProperty(helpers," ++ scriptQuoted name ++ ")"

/-- The text of a callee. An unknown one falls back on a hook. -/
def Callee.write : Callee → String
  | .known name => writeHelper name
  | .unknown name place =>
    "(" ++ joined " || "
        ((name.map writeHelper).toList ++ [place.write, "container.hooks.helperMissing"])
      ++ ")"

/-- A position, with 32 bits for either count. -/
def writePosition (p : Position) : String :=
  braces [field "line" (numeral p.reported.line), field "column" (numeral p.reported.column)]

/-- The text of a span. -/
def writeSpan (s : Span) : String :=
  braces [field "start" (writePosition s.start), field "end" (writePosition s.stop)]

/-- The field that hands private data on. -/
def Features.dataField (f : Features) : List String := if f.data then [field "data" "data"] else []

/-- The fields of options after the name and the hash. -/
def writeRest (f : Features) (sections : Option Sections) (span : Span) : List String :=
  (match sections with
    | none => []
    | some s => [field "fn" (s.main.write f), field "inverse" (s.inverse.write f)])
  ++ f.dataField
  ++ (match sections with
    | none => []
    | some s => if 0 < s.params then [field "blockParams" (numeral s.params)] else [])
  ++ [field "loc" (writeSpan span)]

mutual

/-- The text of an expression. -/
def Code.write (f : Features) : Code → String
  | .string value => scriptQuoted value
  | .number written => written
  | .boolean value => if value then "true" else "false"
  | .undefined => "undefined"
  | .null => "null"
  | .place place => place.write
  | .helper callee args options =>
    callee.write ++ ".call("
      ++ joined "," ("alias1" :: writeArgs f args ++ [options.write f]) ++ ")"

/-- The text of the options of a call. -/
def Options.write (f : Features) : Options → String
  | ⟨name, hash, sections, span⟩ =>
    braces ([field "name" (scriptQuoted name), field "hash" (braces (writeEntries f hash))]
      ++ writeRest f sections span)

/-- The texts of arguments. -/
def writeArgs (f : Features) : List Code → List String
  | [] => []
  | code :: rest => code.write f :: writeArgs f rest

/-- The texts of the entries of a hash. -/
def writeEntries (f : Features) : List Entry → List String
  | [] => []
  | ⟨key, value⟩ :: rest => (scriptQuoted key ++ ":" ++ value.write f) :: writeEntries f rest

end

/-- The text of a hash. -/
def writeHash (f : Features) (hash : List Entry) : String := braces (writeEntries f hash)

/-- The call of a helper with its options. -/
def writeCall (f : Features) (callee : Callee) (args : List Code) (options : Options) : String :=
  (Code.helper callee args options).write f

/-! ## Operands -/

/-- A value, with the empty text in place of a missing one. -/
def orEmpty (value : String) : String := "((stack1 = " ++ value ++ ") != null ? stack1 : \"\")"

/-- The helper of that name, or the value at a place, or the hook for missing helpers. -/
def writeEither (name : String) (place : Place) : String :=
  "(helper = (helper = " ++ writeHelper name ++ " || " ++ place.write
    ++ ") != null ? helper : container.hooks.helperMissing)"

/-- What was found, called if it is a function. -/
def writeIfFunction (options : String) : String :=
  "(typeof helper === \"function\" ? helper.call(alias1," ++ options ++ ") : helper)"

/-- The value at a place, called if it is a function. -/
def writeLambda (place : Place) : String := "container.lambda(" ++ place.write ++ ", depth0)"

/-- The text of a call in a mustache. -/
def Invocation.writeMustache (f : Features) (i : Invocation) : String :=
  match i.mode with
  | .helper callee args => writeCall f callee args i.options
  | .either place =>
    "(" ++ writeEither i.options.name place ++ "," ++ writeIfFunction (i.options.write f) ++ ")"
  | .plain place => writeLambda place

/-- The text of a call in a block. -/
def Invocation.writeBlock (f : Features) (i : Invocation) : String :=
  match i.mode with
  | .helper callee args => orEmpty (writeCall f callee args i.options)
  | .either place =>
    "(stack1 = (" ++ writeEither i.options.name place ++ ",(options=" ++ i.options.write f ++ "),"
      ++ writeIfFunction "options" ++ "),(!" ++ writeHelper i.options.name
      ++ " ? (stack1 = container.hooks.blockHelperMissing.call(depth0,stack1,options)) : stack1),"
      ++ "(stack1 != null ? stack1 : \"\"))"
  | .plain place =>
    orEmpty ("container.hooks.blockHelperMissing.call(depth0," ++ writeLambda place ++ ","
      ++ i.options.write f ++ ")")

/-- The text of what a partial call names. -/
def Target.write (f : Features) : Target → String
  | .named name => "lookupProperty(partials," ++ scriptQuoted name ++ ")"
  | .enclosing => "undefined"
  | .computed name => name.write f

/-- The name of a partial, as far as it is known. -/
def Target.name? : Target → Option String
  | .named name => some name
  | .enclosing => some Path.enclosingBlock
  | .computed _ => none

/-- The options of a partial call, as fields. -/
def PartialCall.fields (f : Features) (p : PartialCall) : List String :=
  (p.target.name?.map fun name => field "name" (scriptQuoted name)).toList
  ++ (p.hash.map fun hash => field "hash" (writeHash f hash)).toList
  ++ (match p.body with
    | none => []
    | some child => [field "fn" (child.write f), field "inverse" (Child.noop.write f)])
  ++ f.dataField
  ++ (if p.indent.isEmpty then [] else [field "indent" (scriptQuoted p.indent)])
  ++ [field "helpers" "helpers", field "partials" "partials",
    field "decorators" "container.decorators"]

/-- The text of a partial call. -/
def PartialCall.write (f : Features) (p : PartialCall) : String :=
  orEmpty ("container.invokePartial(" ++ p.target.write f ++ "," ++ p.context.write f ++ ","
    ++ braces (p.fields f) ++ ")")

/-- The text of an operand. -/
def Operand.write (f : Features) : Operand → String
  | .text value => scriptQuoted value
  | .mustache true invocation =>
    "container.escapeExpression(" ++ invocation.writeMustache f ++ ")"
  | .mustache false invocation => orEmpty (invocation.writeMustache f)
  | .block invocation => invocation.writeBlock f
  | .partialCall call => call.write f

/-- The text of the run of a decorator. -/
def Decorator.write (f : Features) (d : Decorator) : String :=
  let sections := match d.body with
    | none => []
    | some child => [field "fn" (child.write f), field "inverse" (Child.noop.write f)]
  "lookupProperty(decorators," ++ scriptQuoted d.name ++ ")(fn,props,container,"
    ++ braces ([field "name" (scriptQuoted d.name), field "hash" (writeHash f d.hash)] ++ sections
      ++ [field "args" (brackets (writeArgs f d.args))] ++ f.dataField
      ++ [field "loc" (writeSpan d.span)]) ++ ")"

/-! ## Functions -/

/-- A piece of the output, and the position it comes from if it is to be traced. -/
structure Chunk where
  text : String
  origin : Option Position

/-- A chunk that is not traced. -/
def Chunk.plain (text : String) : Chunk := ⟨text, none⟩

/-- A chunk that is traced to `origin`. -/
def Chunk.traced (text : String) (origin : Position) : Chunk := ⟨text, some origin⟩

/-- The variables that every function declares last. -/
def sharedVariables : String :=
  "stack1, helper, options, alias1=depth0 != null ? depth0 : (container.nullContext || \x7b\x7d), "
    ++ "lookupProperty = container.lookupProperty || function(parent, propertyName) \x7b\n"
    ++ "        if (Object.prototype.hasOwnProperty.call(parent, propertyName)) \x7b\n"
    ++ "          return parent[propertyName];\n"
    ++ "        \x7d\n"
    ++ "        return undefined\n"
    ++ "    \x7d;\n\n"

/-- The parameters of a function. -/
def Features.parameters (f : Features) : String :=
  joined "," (["container", "depth0", "helpers", "partials", "data"] ++ f.scopeArguments)

/-- The operands of a function, with plus signs between them. -/
def writeOperands (f : Features) : List (Traced Operand) → List Chunk
  | [] => [.plain "\"\""]
  | [operand] => [.traced (operand.value.write f) operand.origin]
  | operand :: next :: rest =>
    .traced (operand.value.write f) operand.origin :: .plain "\n    + "
      :: writeOperands f (next :: rest)

/-- A first function, which outputs the sum of its operands. -/
def Function.write (f : Features) (fn : Function) : List Chunk :=
  [.traced ("function(" ++ f.parameters ++ ") \x7b\n") fn.origin,
    .plain ("    var " ++ sharedVariables ++ "  return ")]
  ++ writeOperands f fn.operands ++ [.plain ";\n\x7d"]

/-- The function that runs the decorators of `fn`. -/
def Function.writeDecorators (f : Features) (fn : Function) : List Chunk :=
  [.traced "function(fn, props, container, depth0, data, blockParams, depths) \x7b\n" fn.origin,
    .plain ("    var decorators = container.decorators, helpers = container.helpers, "
      ++ sharedVariables)]
  ++ (fn.decorators.flatMap fun d =>
    [.plain "  fn = ", .traced (d.value.write f) d.origin, .plain " || fn;\n"])
  ++ [.plain "  return fn;\n\x7d"]

/-! ## Specifications -/

/-- Things with the numbers of the programs they belong to. -/
def numbered (programs : List Function) : List (Nat × Function) :=
  (List.range programs.length).map (· + 1) |>.zip programs

/-- The flags that a specification sets, in the order they are written. -/
def Specification.flags (s : Specification) : List String :=
  [("useDecorators", s.usesDecorators), ("usePartial", s.usesPartials),
    ("useData", s.features.data), ("useDepths", s.features.depths),
    ("useBlockParams", s.features.blockParams)].filterMap
    fun flag => if flag.2 then some flag.1 else none

/-- The chunks of a specification: the numbered functions, the main one, and what runs their
    decorators. -/
def Specification.chunks (s : Specification) : List Chunk :=
  let decorated (key : String) (fn : Function) : List Chunk :=
    if fn.decorators.isEmpty then []
    else .plain (",\"" ++ key ++ "\":") :: fn.writeDecorators s.features
  [.plain "\x7b"]
  ++ ((numbered s.programs).flatMap fun (n, fn) =>
    .plain ("\"" ++ numeral n ++ "\":") :: fn.write s.features ++ [.plain ","])
  ++ [.plain "\"compiler\":[8,\">= 4.3.0\"],\"main\":"] ++ s.main.write s.features
  ++ decorated "main_d" s.main
  ++ ((numbered s.programs).flatMap fun (n, fn) => decorated (numeral n ++ "_d") fn)
  ++ (s.flags.map fun flag => .plain (",\"" ++ flag ++ "\":true"))
  ++ [.plain "\x7d"]

/-- The text of chunks laid end to end. -/
def textOf (chunks : List Chunk) : String := String.join (chunks.map Chunk.text)

/-- The code of a specification. -/
def Specification.code (s : Specification) : String := textOf s.chunks

end Stache.Script
