/-
  Where generated code comes from.

  The functions of a specification stand for the programs of the tree, one for one: the numbered
  ones for the programs inside, each before those inside of it, and the main one for the root
  (`Specification.ofProgram_standsFor`).  A function that stands for a program begins where the
  program does, has the operands that the statements of the program ask for, each from where its
  statement begins, and a decorator for each statement that is one.
-/
import Stache.Proofs.Script.Programs

namespace Stache.Script

/-! ## Standing for a program -/

/-- What an operand is there for. -/
inductive OperandSort where
  | text (value : String)
  | mustache (escaped : Bool)
  | block
  | partialCall
deriving DecidableEq, Repr

/-- Of which sort an operand is, -/
def Operand.sort : Operand → OperandSort
  | .text value => .text value
  | .mustache escaped _ => .mustache escaped
  | .block _ => .block
  | .partialCall _ => .partialCall

/-- with where it comes from. -/
def sortOf (operand : Traced Operand) : Traced OperandSort := ⟨operand.value.sort, operand.origin⟩

/-- The operands that a statement asks for.  Content that is empty asks for none, and the
    indentation of a partial is a text of its own if partials are not to be indented. -/
def wantedOperands (options : CompilerOptions) : Statement → List (Traced OperandSort)
  | .content c => if c.value.isEmpty then [] else [⟨.text c.value, c.span.start⟩]
  | .comment _ _ _ | .decorator _ _ _ | .decoratorBlock _ _ _ _ _ => []
  | .mustache _ escaped _ span => [⟨.mustache (escaped && !options.noEscape), span.start⟩]
  | .block _ _ _ _ span => [⟨.block, span.start⟩]
  | .partialCall _ indent _ span =>
    (if options.preventIndent && !indent.isEmpty then [⟨.text indent, span.start⟩] else [])
      ++ [⟨.partialCall, span.start⟩]
  | .partialBlock _ _ _ _ span => [⟨.partialCall, span.start⟩]

/-- The origin of the decorator that a statement is. -/
def decoratorOrigins : Statement → List Position
  | .decorator _ _ span | .decoratorBlock _ _ _ _ span => [span.start]
  | _ => []

/-- The function stands for the program. -/
structure Function.StandsFor (options : CompilerOptions) (fn : Function) (p : Program) : Prop where
  origin : fn.origin = p.span.start
  operands : fn.operands.map sortOf = p.body.flatMap (wantedOperands options)
  decorators : fn.decorators.map (·.origin) = p.body.flatMap decoratorOrigins

/-! ## Compiling -/

/-- A statement is compiled to the operands it asks for, -/
theorem Compiles.operands {scope : Scope} {next : Nat} {s : Statement} {pieces : Pieces}
    (h : Compiles scope next s pieces) :
    pieces.operands.map sortOf = wantedOperands scope.options s := by
  cases h with
  | content c =>
    show List.map _ (if c.value.isEmpty then [] else _) = if c.value.isEmpty then [] else _
    split <;> rfl
  | partialCall hp =>
    rename_i call indent strip span p
    -- The indentation is an operand of its own, or it is not written.
    show List.map _ (_ ++ _) = _ ++ _
    rw [List.map_append]
    refine congrArg (· ++ _) ?_
    cases scope.options.preventIndent <;> cases hindent : indent.isEmpty <;>
      simp [indentOperand, hindent, sortOf, Operand.sort]
  | comment | mustache | block | partialBlock | decorator | decoratorBlock => rfl

/-- and to its decorators. -/
theorem Compiles.decorators {scope : Scope} {next : Nat} {s : Statement} {pieces : Pieces}
    (h : Compiles scope next s pieces) :
    pieces.decorators.map (·.origin) = decoratorOrigins s := by
  cases h <;> rfl

/-- A function stands for the program that it is compiled from. -/
theorem Function.CompiledFrom.standsFor {options : CompilerOptions} {fn : Function} {p : Program}
    (h : fn.CompiledFrom options p) : fn.StandsFor options p := by
  obtain ⟨scope, next, pieces, rfl, hpieces, rfl⟩ := h
  refine ⟨rfl, ?operands, ?decorators⟩
  case operands =>
    refine compileStatements_induction (P := fun body pieces =>
      pieces.operands.map sortOf = body.flatMap (wantedOperands scope.options)) rfl ?_ hpieces
    intro next s rest first more hfirst ih
    rw [Pieces.append, List.map_append, List.flatMap_cons, hfirst.operands, ih]
  case decorators =>
    refine compileStatements_induction (P := fun body pieces =>
      pieces.decorators.map (·.origin) = body.flatMap decoratorOrigins) rfl ?_ hpieces
    intro next s rest first more hfirst ih
    rw [Pieces.append, List.map_append, List.flatMap_cons, hfirst.decorators, ih]

end Stache.Script
