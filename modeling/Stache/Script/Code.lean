/-
  Code for templates: what is generated, before it is written down.

  A template becomes a SPECIFICATION: one function for the whole template and one for each section
  in it, the sections being numbered. A function outputs a row of OPERANDS, one after another, and
  may have DECORATORS that are run on it beforehand. Operands are made of a small language of
  expressions, which this file defines; it is all that generated code can say, and every text from a
  template that ends up in code does so as the argument of one constructor.
-/
import Stache.Template.Syntax

namespace Stache.Script

/-! ## Places -/

/-- Where the look-up of a path starts. -/
inductive Base where
  /-- The context in hand. -/
  | context
  /-- Private data, `up` levels outwards. -/
  | data (up : Nat)
  /-- The context `up` levels outwards. -/
  | ancestor (up : Nat)
  /-- A block parameter: how many programs outwards it is declared, and its place in the list. -/
  | blockParam (depth index : Nat)
deriving DecidableEq, Repr

/-- A base, and the properties to follow from there. -/
structure Place where
  base : Base
  parts : List String
deriving DecidableEq, Repr

/-! ## Expressions -/

/-- A section as a value: nothing, or a numbered program with its count of parameters. -/
inductive Child where
  | noop
  | program (number params : Nat)
deriving DecidableEq, Repr

/-- The sections that a block hands to its helper. -/
structure Sections where
  main : Child
  inverse : Child
  /-- The count of the block's own parameters. -/
  params : Nat
deriving DecidableEq, Repr

/-- The function that a helper call calls. -/
inductive Callee where
  /-- A helper that is known to be there. -/
  | known (name : String)
  /-- The helper of that name if there is one, else the value at a place, else the hook for missing
      helpers. A path that is no single name names no helper. -/
  | unknown (name : Option String) (place : Place)
deriving DecidableEq, Repr

mutual

/-- An expression. Each has one form of text. -/
inductive Code where
  | string (value : String)
  | number (written : String)
  | boolean (value : Bool)
  | undefined
  | null
  | place (place : Place)
  | helper (callee : Callee) (args : List Code) (options : Options)

/-- The last argument of every helper call. -/
structure Options where
  name : String
  hash : List Entry
  sections : Option Sections
  span : Span

/-- An argument by name, for the hash of a call. -/
structure Entry where
  key : String
  value : Code

end

/-- How the value of a mustache or a block is found. -/
inductive Mode where
  /-- By calling a helper. -/
  | helper (callee : Callee) (args : List Code)
  /-- By calling the helper that has the name of the place, if there is one. -/
  | either (place : Place)
  /-- By looking at a place. -/
  | plain (place : Place)

/-- A call, by what its callee may be, with its options. -/
structure Invocation where
  mode : Mode
  options : Options

/-! ## Operands -/

/-- Which partial is called. -/
inductive Target where
  | named (name : String)
  /-- The block that the template itself was called with. -/
  | enclosing
  | computed (name : Code)

/-- The call of a partial. -/
structure PartialCall where
  target : Target
  context : Code
  hash : Option (List Entry)
  /-- The section handed to the partial, if it is called as a block. -/
  body : Option Child
  indent : String

/-- A part of what a function outputs. -/
inductive Operand where
  | text (value : String)
  | mustache (escaped : Bool) (invocation : Invocation)
  | block (invocation : Invocation)
  | partialCall (call : PartialCall)

/-- The run of a decorator. -/
structure Decorator where
  name : String
  hash : List Entry
  body : Option Child
  args : List Code
  span : Span

/-! ## Specifications -/

/-- A thing together with the position in the template that it comes from. -/
structure Traced (α : Type) where
  value : α
  origin : Position

/-- A function of the specification, and the place it comes from. -/
structure Function where
  origin : Position
  operands : List (Traced Operand)
  decorators : List (Traced Decorator)

/-- Features of a template as a whole that show in all of its code. -/
structure Features where
  /-- Private data is handed to helpers. -/
  data : Bool
  /-- Some path goes outwards. -/
  depths : Bool
  /-- Some block has parameters. -/
  blockParams : Bool
deriving DecidableEq, Repr

/-- What a template is compiled to. -/
structure Specification where
  features : Features
  /-- The numbered programs, from number one on. -/
  programs : List Function
  main : Function

/-- The operand calls a partial. -/
def Operand.isPartial : Operand → Bool
  | .partialCall _ => true
  | _ => false

/-- All functions, the main one last. -/
def Specification.functions (s : Specification) : List Function := s.programs ++ [s.main]

/-- Some function has a decorator to run. -/
def Specification.usesDecorators (s : Specification) : Bool :=
  s.functions.any fun f => !f.decorators.isEmpty

/-- Some function calls a partial. -/
def Specification.usesPartials (s : Specification) : Bool :=
  s.functions.any fun f => f.operands.any fun operand => operand.value.isPartial

end Stache.Script
