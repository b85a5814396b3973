/-
  Source maps as documents.

  A source map is a JSON object of which this library knows seven fields; the others are kept as
  they are. Only `mappings` has to be there. The text of a map has the known fields first, in a
  fixed order, and then the others, keys ascending; an optional field that is missing and an empty
  list of sources or names are left out.

  Each semicolon in `mappings` begins a new line of the output, and columns start over on each line,
  so a map is moved down by semicolons in front (`moveDown`).
-/
import Stache.Json.Record

namespace Stache

/-- A source map, with whatever other fields it came with. -/
structure SourceMap where
  version : Option Nat
  file : Option String
  sourceRoot : Option String
  sources : List String
  sourcesContent : Option (List (Option String))
  names : List String
  mappings : String
  extra : Json.Fields
deriving BEq

namespace SourceMap

/-- The map that maps nothing. -/
def empty : SourceMap := ⟨none, none, none, [], none, [], "", []⟩

/-- Moves a map down by `lines` lines. -/
def moveDown (m : SourceMap) (lines : Nat) : SourceMap :=
  { m with mappings := String.ofList (List.replicate lines ';') ++ m.mappings }

/-! ## Text -/

/-- An array of texts. -/
def renderTexts (texts : List String) : String := Text.brackets (texts.map Text.jsonQuoted)

/-- An array of texts some of which may be missing. -/
def renderContents (texts : List (Option String)) : String :=
  Text.brackets (texts.map fun text => (text.map Text.jsonQuoted).getD "null")

/-- A list, or nothing if it is empty. -/
def nonempty (texts : List String) : Option (List String) :=
  if texts.isEmpty then none else some texts

/-- The text of a map. -/
def render (m : SourceMap) : String :=
  let known (key : String) (value : Option String) : List String :=
    (value.map (Text.field key)).toList
  Text.braces
    (known "version" (m.version.map toString)
      ++ known "file" (m.file.map Text.jsonQuoted)
      ++ known "sourceRoot" (m.sourceRoot.map Text.jsonQuoted)
      ++ known "sources" ((nonempty m.sources).map renderTexts)
      ++ known "sourcesContent" (m.sourcesContent.map renderContents)
      ++ known "names" ((nonempty m.names).map renderTexts)
      ++ known "mappings" (some (Text.jsonQuoted m.mappings))
      ++ m.extra.map fun field => Text.jsonQuoted field.1 ++ ":" ++ field.2.render)

/-! ## Reading -/

open Json in
/-- The fields of a map that is being read. Whether `mappings` has been there is kept beside it. -/
def fields : List (Json.Field (SourceMap × Bool)) :=
  [.of "version" (readOption (readNat (Nat.pow 2 32))) fun m version => ({ m.1 with version }, m.2),
    .of "file" (readOption readString) fun m file => ({ m.1 with file }, m.2),
    .of "sourceRoot" (readOption readString) fun m sourceRoot => ({ m.1 with sourceRoot }, m.2),
    .of "sources" (readList readString) fun m sources => ({ m.1 with sources }, m.2),
    .of "sourcesContent" (readOption (readList (readOption readString))) fun m sourcesContent =>
      ({ m.1 with sourcesContent }, m.2),
    .of "names" (readList readString) fun m names => ({ m.1 with names }, m.2),
    .of "mappings" readString fun m mappings => ({ m.1 with mappings }, true)]

/-- Keeps a field that is not known. -/
def keepField (key : String) (m : SourceMap × Bool) : Json.Reader (SourceMap × Bool) := fun s => do
  let (value, rest) ← Json.readValue .keep (Json.maxDepth - 1) s
  return (({ m.1 with extra := Json.insert key value m.1.extra }, m.2), rest)

/-- Reads an object in which `mappings` has to be there. -/
def read : Json.Reader SourceMap := fun s => do
  let ((m, hasMappings), rest) ← Json.readRecord fields keepField (empty, false) s
  -- all other fields may be missing
  if hasMappings then return (m, rest) else .error .mistyped

/-- The source map that a JSON text holds. -/
def parse (text : String) : Except Json.Fault SourceMap := Json.readAll read text

end SourceMap

end Stache
