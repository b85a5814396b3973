/-
  What a bundler plugin is to do, worked out from its settings once and for all.

  1. **Selections** — the patterns, with the standard ones for those that are missing or are one
     empty text, relative to the base directory.

  2. **Compiler options** — those of the settings, but for the names of the files, which are the
     plugin's own affair: with source maps, the name of the template is that of its file, and there
     is no other.

  3. **Source maps** — the compiler's map of the template, moved down past the lines that stand in
     front of the template in its module. Without source maps, it is the map of nothing.
-/
import Stache.Bundle.Naming
import Stache.Bundle.Settings
import Stache.Glob.Selection
import Stache.Mapping.SourceMap
import Stache.Template.Compile

namespace Stache.Bundle

/-- What may go wrong in a plugin. -/
inductive Failure where
  | compile (error : CompileFailure)
  | pattern (bad : Glob.BadPattern)
  /-- The naming of partials failed, with this text. -/
  | naming (text : String)
  /-- The compiler made no source map for the file `id`. -/
  | missingMap (id : String)
  /-- The compiler made a source map that cannot be read. -/
  | unreadableMap (fault : Json.Fault)

/-- What a user is told of a failure. -/
def Failure.message : Failure → String
  | .compile error => error.message
  | .pattern bad => bad.message
  | .naming text => text
  | .missingMap id => "Compiler returned no source map for \x60" ++ id ++ "\x60"
  | .unreadableMap _ => "Malformed source map"

/-- All that is decided before the first file is looked at. -/
structure Plan where
  helpers : List String
  templates : Glob.Selection
  partials : Glob.Selection
  naming : Naming
  /-- The settings of the template compiler, without names of files. -/
  compiler : Json.Fields
  hasMaps : Bool

/-! ## From settings -/

/-- The patterns given, or the `standard` ones. -/
def Patterns.resolve (standard : List String) : Option Patterns → List String
  | none => standard
  | some (.one pattern) => if pattern.isEmpty then standard else [pattern]
  | some (.many patterns) => patterns

/-- Is this how source maps are turned off? -/
def isOff : Option Json → Bool
  | some (.bool false) => true
  | _ => false

namespace Plan

/-- What counts as a template when nothing is said about it. -/
def standardIncluded : List String := ["**/*.hbs", "**/*.handlebars", "**/*.mustache"]

/-- What does not, although it looks like one. -/
def standardExcluded : List String := ["node_modules/**"]

/-- Partials are told by the first character of their file's name. -/
def standardPartials : List String := ["**/_*"]

/-- The plan for some settings. `here` is the base directory if the settings name none. -/
def ofSettings (settings : Settings) (naming : Naming) (here : String) :
    Except Glob.BadPattern Plan := do
  let base := settings.base.getD here
  let templates ← Glob.Selection.of (Patterns.resolve standardIncluded settings.included)
    (Patterns.resolve standardExcluded settings.excluded) base
  let partials ← Glob.Selection.of (Patterns.resolve standardPartials settings.partials) [] base
  return {
    helpers := settings.helpers
    templates, partials, naming
    compiler := Json.erase "srcName" (Json.erase "destName" settings.compiler)
    hasMaps := !(isOff settings.sourceMap || isOff settings.sourcemap) }

/-! ## Decisions -/

/-- Whether the module of this id is a template. -/
def isTemplate (plan : Plan) (id : String) : Bool := plan.templates.has id

/-- Whether the template of this id is registered as a partial, too. -/
def isPartial (plan : Plan) (id : String) : Bool := plan.partials.has id

/-- The name of the partial in the file `id`. -/
def nameOf (plan : Plan) (id : String) : Except Failure String :=
  (plan.naming.name id).mapError .naming

/-- The path by which the file `importer` imports a partial. -/
def pathOf (plan : Plan) (name importer : String) : Except Failure String :=
  (plan.naming.path name importer).mapError .naming

/-- The settings of the template compiler for the file `id`. -/
def compilerFor (plan : Plan) (id : String) : Json.Fields :=
  if plan.hasMaps then Json.insert "srcName" (.string id) plan.compiler else plan.compiler

/-- The map of the module of the file `id`, whose template begins `lines` lines down, from what the
    compiler made. -/
def mapOf (plan : Plan) (made : Option String) (id : String) (lines : Nat) :
    Except Failure SourceMap :=
  if !plan.hasMaps then .ok SourceMap.empty
  else
    match made with
    | none => .error (.missingMap id)
    | some text =>
      match SourceMap.parse text with
      | .error fault => .error (.unreadableMap fault)
      | .ok map => .ok (map.moveDown lines)

end Plan

end Stache.Bundle
