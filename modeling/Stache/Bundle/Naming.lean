/-
  Names of partials and the files they are in.

  1. **From a file to a name** — the file of a partial registers it under a name.
  2. **From a name to a file** — a template that calls a partial imports the file it is in.

  Both directions may be chosen, and a choice may fail with a text. The standard naming writes the
  partial `nav` as a file `_nav.hbs` beside the template, with whatever extension the template has.
-/
import Stache.Text.Slash

namespace Stache.Bundle

/-- A way from files to names, and one back. -/
structure Naming where
  /-- The name of the partial in a file. -/
  name : (file : String) → Except String String
  /-- The path of the file a partial is in, as the file `importer` imports it. -/
  path : (name importer : String) → Except String String

namespace Naming

/-- The last component of a path. -/
def base (file : String) : List Char := Text.afterLast '/' (Text.slashed file).toList

/-- The base of the file without its extension, from the first ASCII letter or digit on. -/
def standardName (file : String) : String :=
  String.ofList ((Text.beforeLast '.' (base file)).dropWhile fun c => !c.isAlphanum)

/-- A file beside the importer, whose extension it shares. An importer without a dot lends its whole
    path. -/
def standardPath (name importer : String) : String :=
  "./_" ++ name ++ "." ++ String.ofList (Text.afterLast '.' importer.toList)

/-- The naming that is used unless another is chosen. It never fails. -/
def standard : Naming where
  name file := .ok (standardName file)
  path name importer := .ok (standardPath name importer)

end Naming

end Stache.Bundle
