/-
  The settings of the template compiler.

  They come as the fields of a JSON object, and are taken in the order of the keys. A key that is
  not known is passed over; a known key with a value of the wrong type is an error, and the first
  such key is the one reported. The names and `data` may also be `null`, which is the same as
  absent.
-/
import Stache.Json.Basic
import Stache.Text.Message

namespace Stache

/-- What a template is compiled with. -/
structure CompilerOptions where
  /-- The name of the template's file. With a name, a source map is made. -/
  sourceName : Option String
  /-- The name of the file to be generated, as the source map gives it. -/
  destName : Option String
  /-- Hand private data on to helpers; unless told otherwise, they get it. -/
  data : Option Bool
  noEscape : Bool
  /-- Helpers that are known to exist, or known not to, apart from the built-in ones. -/
  knownHelpers : List (String × Bool)
  knownHelpersOnly : Bool
  /-- Tags on a line of their own leave their line in place. -/
  ignoreStandalone : Bool
  /-- The indentation of a partial is output once and not handed to the partial. -/
  preventIndent : Bool
deriving DecidableEq, Repr

namespace CompilerOptions

/-- What holds for a user who sets nothing. -/
def default : CompilerOptions := ⟨none, none, none, false, [], false, false, false⟩

/-- What a setting has to be. -/
inductive Wanted where
  | bool
  | string
  | map
deriving DecidableEq, Repr

/-- A setting of the wrong type. -/
structure Mistyped where
  found : Json
  wanted : Wanted

/-- Takes `true` and `false` and nothing else. -/
def readBool : Json → Except Mistyped Bool
  | .bool b => .ok b
  | found => .error ⟨found, .bool⟩

/-- Takes a text and nothing else. -/
def readString : Json → Except Mistyped String
  | .string s => .ok s
  | found => .error ⟨found, .string⟩

/-- `null`, or what `read` reads. -/
def readOption {α : Type} (read : Json → Except Mistyped α) : Json → Except Mistyped (Option α)
  | .null => .ok none
  | value => (read value).map some

/-- Takes an object whose values are all truth values, in the order of its keys. -/
def readBools : Json → Except Mistyped (List (String × Bool))
  | .object fields => fields.mapM fun field => (readBool field.2).map fun b => (field.1, b)
  | found => .error ⟨found, .map⟩

/-- The settings `o` with one more field of the object. -/
def take (o : CompilerOptions) (field : String × Json) : Except Mistyped CompilerOptions :=
  let (key, value) := field
  if key = "srcName" then
    (readOption readString value).map fun sourceName => { o with sourceName }
  else if key = "destName" then
    (readOption readString value).map fun destName => { o with destName }
  else if key = "data" then (readOption readBool value).map fun data => { o with data }
  else if key = "noEscape" then (readBool value).map fun noEscape => { o with noEscape }
  else if key = "knownHelpers" then
    (readBools value).map fun knownHelpers => { o with knownHelpers }
  else if key = "knownHelpersOnly" then
    (readBool value).map fun knownHelpersOnly => { o with knownHelpersOnly }
  else if key = "ignoreStandalone" then
    (readBool value).map fun ignoreStandalone => { o with ignoreStandalone }
  else if key = "preventIndent" then
    (readBool value).map fun preventIndent => { o with preventIndent }
  else .ok o

/-- The options, key by key. The first value of a wrong type ends it. -/
def ofFields (fields : Json.Fields) : Except Mistyped CompilerOptions := fields.foldlM take default

/-! ## Messages -/

/-- The words for what was expected, -/
def Wanted.describe : Wanted → String
  | .bool => "a boolean"
  | .string => "a string"
  | .map => "a map"

/-- How messages speak of a value of the wrong type. -/
def describe : Json → String
  | .null => "null"
  | .bool b => "boolean \x60" ++ (if b then "true" else "false") ++ "\x60"
  | .integer n => "integer \x60" ++ toString n ++ "\x60"
  | .float x => "floating point \x60" ++ Json.renderFloat x ++ "\x60"
  | .string s => "string " ++ Text.messageQuoted s
  | .array _ => "sequence"
  | .object _ => "map"

/-- and those for what was found in its place. -/
def Mistyped.message (m : Mistyped) : String :=
  "invalid type: " ++ describe m.found ++ ", expected " ++ m.wanted.describe

end CompilerOptions

end Stache
