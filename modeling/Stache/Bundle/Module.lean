/-
  The modules a plugin makes.

  1. **Template modules** — a line each for the runtime, the helpers module and every partial, all
     of which are imported; then the template, between the two halves of a call that stand on lines
     of their own; then the export. The module of a partial also registers it.

  2. **The helpers module** — all template modules import it. It registers the helpers, and makes of
     a template a function that gives a piece of a document.
-/
import Stache.Text.Quoted

namespace Stache.Bundle

/-- The name that template modules import the helpers module by. The NUL in front keeps it apart
    from the names of files. -/
def helpersId : String := "\x00handlebars-precompiler"

/-- A text as it is, between single quotes. -/
def singleQuoted (text : String) : String := "'" ++ text ++ "'"

/-- The first line of every module. -/
def importRuntime : String :=
  "import Handlebars from " ++ singleQuoted "handlebars/lib/handlebars.runtime"

/-! ## Template modules -/

/-- What a template module is made of. -/
structure TemplateModule where
  /-- The paths of the partials, in the order in which they are called. -/
  imports : List String
  /-- The code of the template. -/
  template : String
  /-- The name of the partial that the template is. -/
  name : Option String
deriving DecidableEq, Repr

namespace TemplateModule

/-- The lines before the template. -/
def opening (m : TemplateModule) : List String :=
  [importRuntime, "import Render from " ++ singleQuoted helpersId]
    ++ m.imports.map (fun path => "import " ++ singleQuoted path)
    ++ ["export const RawTemplate = Handlebars.template("]

/-- The lines after the template. -/
def closing (m : TemplateModule) : List String :=
  [")", "export default Render(RawTemplate)"]
    ++ m.name.toList.map fun name =>
      "Handlebars.registerPartial(" ++ singleQuoted name ++ ", RawTemplate)"

/-- The text of the module. The template stands between the halves of its call, line by line. -/
def render (m : TemplateModule) : String :=
  Text.joined "\n" (m.opening ++ m.template :: m.closing)

end TemplateModule

/-! ## The helpers module -/

/-- What makes a template give a piece of a document. -/
def wrapper : List String :=
  ["export default (rawTemplate) => ((context, options) => \x7b",
    "  const t = document.createElement('template')",
    "  t.innerHTML = rawTemplate(context, options)",
    "  return t.content",
    "\x7d)"]

/-- The name of the function that the helpers of file number `i` are registered by. -/
def registration (i : Nat) : String := "registerHelpers" ++ toString i

/-- The helpers module for these files of helpers. -/
def renderHelpers (helpers : List String) : String :=
  let imports := helpers.zipIdx.map fun helper =>
    "import " ++ registration helper.2 ++ " from " ++ singleQuoted ("./" ++ helper.1)
  let calls := helpers.zipIdx.map fun helper => registration helper.2 ++ "(Handlebars)"
  Text.joined "\n" (importRuntime :: imports ++ calls ++ wrapper)

end Stache.Bundle
