/-
  The plugin: what a bundler calls.

  A bundler asks three things of it: whether it knows a module by some name, what the text of a
  module is, and what to make of the text of a file. The first two are about the helpers module,
  which is no file; the third is about templates, and other files are left alone.
-/
import Stache.Bundle.Module
import Stache.Bundle.Plan
import Stache.Template.PartialNames

namespace Stache.Bundle

/-- A module made from a template, with its source map. -/
structure Bundled where
  code : String
  map : SourceMap

namespace Plan

/-- Compiles the template `source` of the file `id` into a module. -/
def bundle (plan : Plan) (compiler : Compiler) (source id : String) :
    Except Failure Bundled := do
  let options := plan.compilerFor id
  let template ← (compiler.parse source options).mapError .compile
  let compiled ← (compiler.compile template options).mapError .compile
  let imports ← template.partialNames.mapM fun name => plan.pathOf name id
  let name ← if plan.isPartial id then (plan.nameOf id).map some else .ok none
  let result : TemplateModule := ⟨imports, compiled.code, name⟩
  let map ← plan.mapOf compiled.map id result.opening.length
  return ⟨result.render, map⟩

end Plan

/-- A plan, and the compiler that templates are handed to. -/
structure Plugin where
  plan : Plan
  compiler : Compiler

namespace Plugin

/-- What a bundler calls the plugin in its reports. -/
def name : String := "handlebars-precompiler"

/-- The plugin for some settings, with the compiler of this library. -/
def ofSettings (settings : Settings) (naming : Naming) (here : String) : Except Failure Plugin := do
  let plan ← (Plan.ofSettings settings naming here).mapError .pattern
  return ⟨plan, Compiler.standard⟩

/-- The full name of the module called `id`, if it is the plugin's. -/
def resolveId (id : String) : Option String := if id = helpersId then some helpersId else none

/-- The text of the module `id`, if it is the plugin's. -/
def load (plugin : Plugin) (id : String) : Option String :=
  if id = helpersId then some (renderHelpers plugin.plan.helpers) else none

/-- The module made of the file `id` with the text `source`, if it is a template. -/
def transform (plugin : Plugin) (source id : String) : Except Failure (Option Bundled) :=
  if plugin.plan.isTemplate id then (plugin.plan.bundle plugin.compiler source id).map some
  else .ok none

end Plugin

end Stache.Bundle
