/-
  The template compiler as one thing: a template's text and the fields of an options object in, code
  and a source map out.

  Both halves read the options on their own, so that a tree may be compiled more than once, and with
  other options than it was parsed with. Options are looked at before the template is. Compilation
  makes a source map when the options name the template's file.
-/
import Stache.Template.Parse
import Stache.Script.Compile
import Stache.Mapping.Trace

namespace Stache

/-- Generated code, and the text of its source map if one is made. -/
structure Compiled where
  code : String
  map : Option String
deriving DecidableEq, Repr

/-- A compiler for templates. `parse` and `compile` both get the fields of the options object. -/
structure Compiler where
  parse : String → Json.Fields → Except CompileFailure Template
  compile : Template → Json.Fields → Except CompileFailure Compiled

/-- The compiler options in the fields of an object. -/
def CompilerOptions.read (fields : Json.Fields) : Except CompileFailure CompilerOptions :=
  (CompilerOptions.ofFields fields).mapError .options

/-- Parses a template as its compiler options ask. -/
def Template.parseUnder (text : String) (options : CompilerOptions) :
    Except CompileFailure Template :=
  (Template.parse text options.sourceName !options.ignoreStandalone).mapError
    (.parse options.sourceName)

/-- Compiles a template as the compiler options ask. -/
def Template.compileUnder (t : Template) (options : CompilerOptions) :
    Except CompileFailure Compiled := do
  let chunks := (← Script.Specification.ofProgram options t.root).chunks
  return ⟨Script.textOf chunks,
    options.sourceName.map fun source => Mapping.render source options.destName chunks⟩

/-- The compiler that this library is about. -/
def Compiler.standard : Compiler where
  parse text fields := do Template.parseUnder text (← CompilerOptions.read fields)
  compile template fields := do template.compileUnder (← CompilerOptions.read fields)

end Stache
