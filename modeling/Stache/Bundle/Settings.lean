/-
  The settings of the bundler plugin, as a user writes them in JSON.

  All of them may be missing. A setting that is not known is passed over. Patterns are given as one
  text or as a list of texts.
-/
import Stache.Json.Record

namespace Stache.Bundle

/-- One pattern or several. -/
inductive Patterns where
  | one (pattern : String)
  | many (patterns : List String)
deriving DecidableEq, Repr

/-- The settings as they are given, before anything is made of them. -/
structure Settings where
  /-- The files of helpers, in the order in which they are registered. -/
  helpers : List String
  /-- What counts as a template. -/
  included : Option Patterns
  /-- What does not, although it is included. -/
  excluded : Option Patterns
  /-- Which templates are partials. -/
  partials : Option Patterns
  /-- The settings of the template compiler. -/
  compiler : Json.Fields
  /-- Source maps are off if this is `false`, under either spelling. -/
  sourceMap : Option Json
  sourcemap : Option Json
  /-- The directory that relative patterns start from. -/
  base : Option String

namespace Settings

/-- The settings of a user who gives none. -/
def default : Settings := ⟨[], none, none, none, [], none, none, none⟩

/-! ## Reading -/

/-- The text that a value is. -/
def textOf : Json → Option String
  | .string text => some text
  | _ => none

/-- The patterns that a value stands for. -/
def patternsOf : Json → Option Patterns
  | .string pattern => some (.one pattern)
  | .array items => (items.mapM textOf).map .many
  | _ => none

/-- How deep the value of a setting may be nested. -/
def maxDepth : Nat := Json.maxDepth - 1

/-- Reads one text, or a list of texts. -/
def readPatterns : Json.Reader Patterns := fun s => do
  let (value, rest) ← Json.readValue .keep maxDepth s
  match patternsOf value with
  | some patterns => return (patterns, rest)
  | none => .error .mistyped

open Json in
/-- The settings, in the order in which they come in an array. -/
def fields : List (Json.Field Settings) :=
  [.of "helpers" (readList readString) fun o helpers => { o with helpers },
    .of "include" (readOption readPatterns) fun o included => { o with included },
    .of "exclude" (readOption readPatterns) fun o excluded => { o with excluded },
    .of "partials" (readOption readPatterns) fun o partials => { o with partials },
    .of "compiler" (readFields (maxDepth - 1)) fun o compiler => { o with compiler },
    .of "sourceMap" (readOption (readValue .keep maxDepth)) fun o sourceMap =>
      { o with sourceMap },
    .of "sourcemap" (readOption (readValue .keep maxDepth)) fun o sourcemap =>
      { o with sourcemap },
    .of "resolutionBase" (readOption readString) fun o base => { o with base }]

/-- The settings that a JSON text holds. -/
def parse (text : String) : Except Json.Fault Settings :=
  Json.readAll (Json.readEither fields default) text

end Settings

end Stache.Bundle
