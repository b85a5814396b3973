/-
  The forms of generated code.

  Code is written by FORMS: texts that stand in any case, with something filled in between them.
  Each writer of `Script.Write` is given here as a form and what it is filled with, by one equation
  apiece.  Whatever is proved by walking over the texts of code asks a question of the fixed texts
  of a form, which is decided, and goes on with what is filled in.  So the fixed texts stand in
  `Script.Write` and here, and no walk repeats them.

  1. **Filling** (`Form.fill`).

  2. **Brackets in forms** — where all that is filled in is balanced, a form opens and closes what
     its fixed texts do, read one after another (`Turns.fill`, `Balanced.fill`).  The other walks
     have a lemma like it beside their own notions.

  3. **The forms**, in the order of the writers.
-/
import Mathlib.Data.List.Basic
import Stache.Proofs.Script.Cursor
import Stache.Proofs.Script.Fragments

namespace Stache.Script

open Text (scriptQuoted joined braces brackets field)

/-! ## Filling -/

/-- A text that stands in code in any case, letter by letter. -/
structure Fixed where
  text : String
  chars : List Char
  spelled : text = String.ofList chars

/-- The fixed texts of code: one in front, and one behind each text that is filled in. -/
structure Form where
  first : Fixed
  rest : List Fixed

/-- Puts texts, in turn, in front of fixed texts; where they run out, nothing is put there. -/
def fillBehind (text : String) : List Fixed → List String → String
  | [], _ => text
  | fixed :: rest, holes => fillBehind (text ++ holes.headD "" ++ fixed.text) rest holes.tail

/-- The form, with texts filled in. -/
def Form.fill (form : Form) (holes : List String) : String :=
  fillBehind form.first.text form.rest holes

/-- A form with nothing in it is its fixed texts, one after another. -/
theorem fillBehind_nil (text : String) (rest : List Fixed) :
    fillBehind text rest [] = rest.foldl (fun text fixed => text ++ fixed.text) text := by
  induction rest generalizing text with
  | nil => rfl
  | cons fixed rest ih =>
    rw [fillBehind, List.headD_nil, String.append_empty]
    exact ih _

/-! ## Balanced forms -/

/-- The brackets that are due when a fixed text has been read, if it ends outside of literals. -/
def Fixed.closersBehind (closers : List Char) (fixed : Fixed) : Option (List Char) :=
  match (Cursor.code closers).read fixed.chars with
  | some (.code after) => some after
  | _ => none

/-- The same for the fixed texts of a form, one after another. -/
def Form.closersBehind (form : Form) (closers : List Char) : Option (List Char) :=
  (form.first :: form.rest).foldlM Fixed.closersBehind closers

/-- A fixed text makes the turns that are read from it. -/
theorem Fixed.turns {before after : List Char} {fixed : Fixed}
    (h : fixed.closersBehind before = some after) (outer : List Char) :
    Turns (before ++ outer) fixed.text (after ++ outer) := by
  rw [closersBehind] at h
  rw [fixed.spelled]
  split at h
  · rename_i hread
    cases h
    have hinside : ((Cursor.code before).inside outer).read fixed.chars
        = some ((Cursor.code after).inside outer) := Cursor.read_inside hread
    exact .of_read hinside
  · cases h

/-- **A form with balanced texts in it** makes the turns of its fixed texts. -/
theorem Turns.fill {form : Form} {holes : List String} {before after : List Char}
    (hform : form.closersBehind before = some after) (h : holes.Forall Balanced)
    (outer : List Char) : Turns (before ++ outer) (form.fill holes) (after ++ outer) := by
  -- what is due in the middle of the form is what its own texts have left open
  have hbehind (rest : List Fixed) : ∀ (text : String) (holes : List String)
      (between : List Char), (∀ hole ∈ holes, Balanced hole) →
      rest.foldlM Fixed.closersBehind between = some after →
      Turns (before ++ outer) text (between ++ outer) →
      Turns (before ++ outer) (fillBehind text rest holes) (after ++ outer) := by
    induction rest with
    | nil =>
      intro text holes between hholes hrest htext
      cases hrest
      exact htext
    | cons fixed rest ih =>
      intro text holes between hholes hrest htext
      obtain ⟨next, hfixed, hrest⟩ := Option.bind_eq_some_iff.1 hrest
      refine ih _ _ _ (fun hole hhole => hholes hole (List.mem_of_mem_tail hhole)) hrest ?_
      have hhole : Balanced (holes.headD "") := by
        cases holes with
        | nil => exact balanced_empty
        | cons hole holes => exact hholes hole (List.mem_cons_self ..)
      exact (htext.append (hhole _)).append (Fixed.turns hfixed outer)
  obtain ⟨between, hfirst, hrest⟩ := Option.bind_eq_some_iff.1 hform
  exact hbehind form.rest form.first.text holes between (List.forall_iff_forall_mem.1 h) hrest
    (Fixed.turns hfirst outer)

/-- Whether the fixed texts of a form close what they open, and no more. -/
def Form.isBalanced (form : Form) : Bool := form.closersBehind [] = some []

/-- **A balanced form** is balanced with balanced texts in it. -/
theorem Balanced.fill {form : Form} {holes : List String} (hform : form.isBalanced = true)
    (h : holes.Forall Balanced) : Balanced (form.fill holes) :=
  fun closers => Turns.fill (of_decide_eq_true hform) h closers

/-- Two forms, the second of which closes what the first has left open. -/
theorem Balanced.fill₂ {first second : Form} {holes more : List String} {due : List Char}
    (hfirst : first.closersBehind [] = some due) (hsecond : second.closersBehind due = some [])
    (h : holes.Forall Balanced) (hmore : more.Forall Balanced) :
    Balanced (first.fill holes ++ second.fill more) :=
  fun closers => (Turns.fill hfirst h closers).append (Turns.fill hsecond hmore closers)

/-! ## Places -/

/-- Data of programs around, -/
def dataForm : Form := ⟨⟨"container.data(data, ", _, rfl⟩, [⟨")", _, rfl⟩]⟩

/-- contexts of these, -/
def ancestorForm : Form := ⟨⟨"depths[", _, rfl⟩, [⟨"]", _, rfl⟩]⟩

/-- and block parameters. -/
def blockParamForm : Form := ⟨⟨"blockParams[", _, rfl⟩, [⟨"][", _, rfl⟩, ⟨"]", _, rfl⟩]⟩

theorem Base.write_data (up : Nat) :
    (Base.data (up + 1)).write = dataForm.fill [numeral (up + 1)] := rfl

theorem Base.write_ancestor (up : Nat) :
    (Base.ancestor up).write = ancestorForm.fill [numeral up] := rfl

theorem Base.write_blockParam (depth index : Nat) :
    (Base.blockParam depth index).write = blockParamForm.fill [numeral depth, numeral index] := rfl

/-- The first property of a place. -/
def firstForm : Form :=
  ⟨⟨"(", _, rfl⟩,
    [⟨" != null ? lookupProperty(", _, rfl⟩, ⟨",", _, rfl⟩, ⟨") : ", _, rfl⟩, ⟨")", _, rfl⟩]⟩

/-- The first property of a base, -/
theorem writeFirst_eq (base part : String) :
    writeFirst base part = firstForm.fill [base, base, scriptQuoted part, base] := rfl

/-- A further property of a place. -/
def nextForm : Form :=
  ⟨⟨"((stack1 = ", _, rfl⟩,
    [⟨") != null ? lookupProperty(stack1,", _, rfl⟩, ⟨") : stack1)", _, rfl⟩]⟩

theorem writeNext_eq (value part : String) :
    writeNext value part = nextForm.fill [value, scriptQuoted part] := rfl

/-! ## Expressions -/

/-- Something in parentheses. -/
def parensForm : Form := ⟨⟨"(", _, rfl⟩, [⟨")", _, rfl⟩]⟩

/-- A numbered program. -/
def programForm : Form := ⟨⟨"container.program(", _, rfl⟩, [⟨")", _, rfl⟩]⟩

theorem Child.write_program (f : Features) (number params : Nat) :
    (Child.program number params).write f
      = programForm.fill [joined ", " ([numeral number, "data", numeral params]
        ++ f.scopeArguments)] := rfl

/-- A helper that is looked up, -/
def helperForm : Form := ⟨⟨"lookupProperty(helpers,", _, rfl⟩, [⟨")", _, rfl⟩]⟩

/-- by its name. -/
theorem writeHelper_eq (name : String) : writeHelper name = helperForm.fill [scriptQuoted name] :=
  rfl

/-- The hook for missing helpers. -/
def missingHelper : String := "container.hooks.helperMissing"

/-- The helper `name` that may be given, the value at a place, or else the hook. -/
theorem Callee.write_unknown (name : Option String) (place : Place) :
    (Callee.unknown name place).write = parensForm.fill [joined " || "
      ((name.map writeHelper).toList ++ [place.write, missingHelper])] := rfl

/-- A call, behind its callee. -/
def callForm : Form := ⟨⟨".call(", _, rfl⟩, [⟨")", _, rfl⟩]⟩

theorem Code.write_helper (f : Features) (callee : Callee) (args : List Code) (options : Options) :
    (Code.helper callee args options).write f = callee.write
      ++ callForm.fill [joined "," ("alias1" :: writeArgs f args ++ [options.write f])] := by
  rw [Code.write]
  simp only [callForm, Form.fill, fillBehind, List.headD, String.append_assoc]

/-! ## Operands -/

/-- A value that may be missing, -/
def orEmptyForm : Form := ⟨⟨"((stack1 = ", _, rfl⟩, [⟨") != null ? stack1 : \"\")", _, rfl⟩]⟩

/-- for which the empty text stands then. -/
theorem orEmpty_eq (value : String) : orEmpty value = orEmptyForm.fill [value] := rfl

/-- A value that may be a helper or not, -/
def eitherForm : Form :=
  ⟨⟨"(helper = (helper = ", _, rfl⟩,
    [⟨" || ", _, rfl⟩, ⟨") != null ? helper : ", _, rfl⟩, ⟨")", _, rfl⟩]⟩

/-- with the hook for missing helpers. -/
theorem writeEither_eq (name : String) (place : Place) :
    writeEither name place = eitherForm.fill [writeHelper name, place.write, missingHelper] := by
  have hlast : ") != null ? helper : container.hooks.helperMissing)"
      = ") != null ? helper : " ++ missingHelper ++ ")" := by decide
  have htext : writeEither name place = "(helper = (helper = " ++ writeHelper name ++ " || "
      ++ place.write ++ (") != null ? helper : " ++ missingHelper ++ ")") :=
    congrArg (_ ++ ·) hlast
  rw [htext]
  simp only [eitherForm, Form.fill, fillBehind, List.headD, List.tail_cons, String.append_assoc]

/-- The call of a value, if it is a function, -/
def ifFunctionForm : Form :=
  ⟨⟨"(typeof helper === \"function\" ? helper.call(alias1,", _, rfl⟩,
    [⟨") : helper)", _, rfl⟩]⟩

/-- with its options. -/
theorem writeIfFunction_eq (options : String) :
    writeIfFunction options = ifFunctionForm.fill [options] := rfl

/-- The value at a place, called if it is a function. -/
def lambdaForm : Form := ⟨⟨"container.lambda(", _, rfl⟩, [⟨", depth0)", _, rfl⟩]⟩

theorem writeLambda_eq (place : Place) : writeLambda place = lambdaForm.fill [place.write] := rfl

/-- A mustache that may have a helper for its callee. -/
def mustacheForm : Form := ⟨⟨"(", _, rfl⟩, [⟨",", _, rfl⟩, ⟨")", _, rfl⟩]⟩

theorem Invocation.writeMustache_either (f : Features) (place : Place) (options : Options) :
    (⟨.either place, options⟩ : Invocation).writeMustache f
      = mustacheForm.fill [writeEither options.name place, writeIfFunction (options.write f)] := rfl

/-- What stands in the parentheses around a block that may have a helper for its callee. -/
def eitherBlockForm : Form :=
  ⟨⟨"stack1 = (", _, rfl⟩,
    [⟨",(options=", _, rfl⟩, ⟨"),", _, rfl⟩, ⟨"),(!", _, rfl⟩,
      ⟨" ? (stack1 = container.hooks.blockHelperMissing.call(depth0,stack1,options)) : stack1),",
        _, rfl⟩,
      ⟨"(stack1 != null ? stack1 : \"\")", _, rfl⟩]⟩

/-- The same, with its parts. -/
def eitherBlock (name : String) (place : Place) (options : String) : String :=
  eitherBlockForm.fill
    [writeEither name place, options, writeIfFunction "options", writeHelper name]

/-- A block that may be, -/
theorem Invocation.writeBlock_either (f : Features) (place : Place) (options : Options) :
    (⟨.either place, options⟩ : Invocation).writeBlock f
      = parensForm.fill [eitherBlock options.name place (options.write f)] := by
  have hfirst : "(stack1 = (" = "(" ++ "stack1 = (" := by decide
  have hlast : "(stack1 != null ? stack1 : \"\"))" = "(stack1 != null ? stack1 : \"\")" ++ ")" := by
    decide
  rw [writeBlock, hfirst, hlast]
  simp only [parensForm, eitherBlock, eitherBlockForm, Form.fill, fillBehind, List.headD,
    List.tail_cons, String.append_empty, String.append_assoc]

/-- The hook for blocks whose callee is no helper. -/
def missingBlockForm : Form :=
  ⟨⟨"container.hooks.blockHelperMissing.call(depth0,", _, rfl⟩,
    [⟨",", _, rfl⟩, ⟨")", _, rfl⟩]⟩

theorem Invocation.writeBlock_plain (f : Features) (place : Place) (options : Options) :
    (⟨.plain place, options⟩ : Invocation).writeBlock f
      = orEmpty (missingBlockForm.fill [writeLambda place, options.write f]) := rfl

/-- A partial that is looked up, -/
def namedForm : Form := ⟨⟨"lookupProperty(partials,", _, rfl⟩, [⟨")", _, rfl⟩]⟩

/-- by its name. -/
theorem Target.write_named (f : Features) (name : String) :
    (Target.named name).write f = namedForm.fill [scriptQuoted name] := rfl

/-- The fields for the section that a partial or a decorator is given. -/
def bodyFields (f : Features) : Option Child → List String
  | none => []
  | some child => [field "fn" (child.write f), field "inverse" (Child.noop.write f)]

/-- The fields of a call of a partial, one group behind the other. -/
theorem PartialCall.fields_eq (f : Features) (p : PartialCall) :
    p.fields f = (p.target.name?.map fun name => field "name" (scriptQuoted name)).toList
      ++ (p.hash.map (writeHash f)).toList.map (field "hash") ++ bodyFields f p.body ++ f.dataField
      ++ (if p.indent.isEmpty then [] else [field "indent" (scriptQuoted p.indent)])
      ++ [field "helpers" "helpers", field "partials" "partials",
        field "decorators" "container.decorators"] := by
  obtain ⟨target, context, hash, body, indent⟩ := p
  cases hash <;> cases body <;> rfl

/-- The call of a partial, -/
def invokeForm : Form :=
  ⟨⟨"container.invokePartial(", _, rfl⟩,
    [⟨",", _, rfl⟩, ⟨",", _, rfl⟩, ⟨")", _, rfl⟩]⟩

/-- A partial is invoked with its name, its context, and its options. -/
def PartialCall.invocation (f : Features) (p : PartialCall) : String :=
  invokeForm.fill [p.target.write f, p.context.write f, braces (p.fields f)]

theorem PartialCall.write_eq (f : Features) (p : PartialCall) :
    p.write f = orEmpty (p.invocation f) := rfl

/-- An operand that is escaped. -/
def escapeForm : Form := ⟨⟨"container.escapeExpression(", _, rfl⟩, [⟨")", _, rfl⟩]⟩

theorem Operand.write_escaped (f : Features) (i : Invocation) :
    (Operand.mustache true i).write f = escapeForm.fill [i.writeMustache f] := rfl

/-- The options of a decorator, as fields. -/
def Decorator.fields (f : Features) (d : Decorator) : List String :=
  [field "name" (scriptQuoted d.name), field "hash" (writeHash f d.hash)] ++ bodyFields f d.body
  ++ [field "args" (brackets (writeArgs f d.args))] ++ f.dataField
  ++ [field "loc" (writeSpan d.span)]

/-- The call of a decorator, -/
def decoratorForm : Form :=
  ⟨⟨"lookupProperty(decorators,", _, rfl⟩,
    [⟨")(fn,props,container,", _, rfl⟩, ⟨")", _, rfl⟩]⟩

/-- with its name and its fields. -/
theorem Decorator.write_eq (f : Features) (d : Decorator) :
    d.write f = decoratorForm.fill [scriptQuoted d.name, braces (d.fields f)] := by
  obtain ⟨name, hash, body, args, span⟩ := d
  cases body <;> rfl

/-! ## Functions -/

/-- The parameters of a function behind the first one. -/
def Features.moreParameters (f : Features) : List String :=
  ["depth0", "helpers", "partials", "data"] ++ f.scopeArguments

/-- The beginning of a function, with its first parameter, which could begin the use of a program or
    a hook if it were not for the comma behind it. -/
def headerForm : Form := ⟨⟨"function(container,", _, rfl⟩, [⟨") \x7b\n", _, rfl⟩]⟩

/-- What a function begins with. -/
theorem Features.header_eq (f : Features) :
    "function(" ++ f.parameters ++ ") \x7b\n" = headerForm.fill [joined "," f.moreParameters] := by
  have hparameters : f.parameters = "container" ++ "," ++ joined "," f.moreParameters := rfl
  have hfirst : "function(container," = "function(" ++ ("container" ++ ",") := by decide
  have hform : headerForm.fill [joined "," f.moreParameters]
      = "function(container," ++ joined "," f.moreParameters ++ ") \x7b\n" := rfl
  rw [hparameters, hform, hfirst]
  simp only [String.append_assoc]

/-- The variables that every function declares, line by line.  Nothing is filled in. -/
def sharedForm : Form :=
  ⟨⟨"stack1, helper, options, alias1=depth0 != null ? depth0 : (container.nullContext || \x7b\x7d), ",
      _, rfl⟩,
    [⟨"lookupProperty = container.lookupProperty || function(parent, propertyName) \x7b\n", _, rfl⟩,
      ⟨"        if (Object.prototype.hasOwnProperty.call(parent, propertyName)) \x7b\n", _, rfl⟩,
      ⟨"          return parent[propertyName];\n", _, rfl⟩,
      ⟨"        \x7d\n", _, rfl⟩,
      ⟨"        return undefined\n", _, rfl⟩,
      ⟨"    \x7d;\n\n", _, rfl⟩]⟩

theorem sharedVariables_eq : sharedVariables = sharedForm.fill [] := by
  rw [Form.fill, fillBehind_nil]
  rfl

/-- The body of a function, around its variables and its operands. -/
def bodyForm : Form := ⟨⟨"    var ", _, rfl⟩, [⟨"  return ", _, rfl⟩, ⟨";\n\x7d", _, rfl⟩]⟩

/-- The chunks of a function behind its header. -/
def Function.bodyChunks (f : Features) (fn : Function) : List Chunk :=
  .plain ("    var " ++ sharedVariables ++ "  return ")
    :: (writeOperands f fn.operands ++ [.plain ";\n\x7d"])

theorem Function.textOf_bodyChunks (f : Features) (fn : Function) :
    textOf (fn.bodyChunks f)
      = bodyForm.fill [sharedVariables, textOf (writeOperands f fn.operands)] := by
  rw [bodyChunks, textOf_cons, textOf_append, textOf_cons, textOf_nil, String.append_empty,
    ← String.append_assoc]
  rfl

theorem Function.textOf_write (f : Features) (fn : Function) :
    textOf (fn.write f)
      = headerForm.fill [joined "," f.moreParameters] ++ textOf (fn.bodyChunks f) := by
  rw [← f.header_eq]
  exact textOf_cons _ _

/-- The call of a decorator. -/
def callChunkForm : Form := ⟨⟨"  fn = ", _, rfl⟩, [⟨" || fn;\n", _, rfl⟩]⟩

/-- The calls of decorators, one after another. -/
def callChunks (f : Features) (decorators : List (Traced Decorator)) : List Chunk :=
  decorators.flatMap fun d =>
    [.plain "  fn = ", .traced (d.value.write f) d.origin, .plain " || fn;\n"]

/-- Decorators are called one after another, -/
theorem textOf_callChunks_cons (f : Features) (d : Traced Decorator)
    (more : List (Traced Decorator)) :
    textOf (callChunks f (d :: more))
      = callChunkForm.fill [d.value.write f] ++ textOf (callChunks f more) := by
  rw [callChunks, List.flatMap_cons, textOf_append, textOf_cons, textOf_cons, textOf_cons,
    textOf_nil, String.append_empty, ← String.append_assoc]
  rfl

/-- The beginning of the second function of a program. -/
def secondHeaderForm : Form :=
  ⟨⟨"function(fn, props, container, depth0, data, blockParams, depths) \x7b\n", _, rfl⟩,
    []⟩

/-- The body of the second function, around its variables and the calls of the decorators. -/
def decoratorBodyForm : Form :=
  ⟨⟨"    var decorators = container.decorators, helpers = container.helpers, ", _, rfl⟩,
    [⟨"  return fn;\n\x7d", _, rfl⟩]⟩

/-- The chunks of the second function of a program behind its header. -/
def Function.decoratorChunks (f : Features) (fn : Function) : List Chunk :=
  .plain ("    var decorators = container.decorators, helpers = container.helpers, "
      ++ sharedVariables) :: (callChunks f fn.decorators ++ [.plain "  return fn;\n\x7d"])

theorem Function.textOf_decoratorChunks (f : Features) (fn : Function) :
    textOf (fn.decoratorChunks f)
      = decoratorBodyForm.fill [sharedVariables ++ textOf (callChunks f fn.decorators)] := by
  rw [decoratorChunks, textOf_cons, textOf_append, textOf_cons, textOf_nil, String.append_empty]
  simp only [decoratorBodyForm, Form.fill, fillBehind, List.headD, Chunk.plain,
    String.append_assoc]

theorem Function.textOf_writeDecorators (f : Features) (fn : Function) :
    textOf (fn.writeDecorators f) = secondHeaderForm.fill [] ++ textOf (fn.decoratorChunks f) :=
  textOf_cons _ _

/-! ## Specifications -/

/-- The key of a field that comes first. -/
theorem firstKey_eq (key : String) : "\"" ++ key ++ "\":" = "\"" ++ key ++ "\"" ++ ":" :=
  String.toList_inj.1 (by simp)

/-- The key of a field behind others. -/
theorem nextKey_eq (key : String) : ",\"" ++ key ++ "\":" = "," ++ ("\"" ++ key ++ "\":") :=
  String.toList_inj.1 (by simp)

/-- The flag of a specification. -/
theorem flag_eq (flag : String) : ",\"" ++ flag ++ "\":true" = ",\"" ++ flag ++ "\":" ++ "true" :=
  String.toList_inj.1 (by simp)

/-- What stands between the numbered functions and the main one. -/
def versionText : String := "\"compiler\":[8,\">= 4.3.0\"],\"main\":"

/-- The numbered functions, each with its key. -/
def Specification.programChunks (s : Specification) : List Chunk :=
  (numbered s.programs).flatMap fun (n, fn) =>
    .plain ("\"" ++ numeral n ++ "\":") :: fn.write s.features ++ [.plain ","]

/-- What stands between the first and the last chunk. -/
def Specification.innerChunks (s : Specification) : List Chunk :=
  s.programChunks ++ [.plain versionText] ++ s.main.write s.features
    ++ s.main.decoratedChunks s.features "main_d"
    ++ ((numbered s.programs).flatMap fun (n, fn) =>
      fn.decoratedChunks s.features (numeral n ++ "_d"))
    ++ s.flags.map fun flag => .plain (",\"" ++ flag ++ "\":true")

theorem Specification.chunks_eq (s : Specification) :
    s.chunks = .plain "\x7b" :: (s.innerChunks ++ [.plain "\x7d"]) := rfl

end Stache.Script
