/-
  Selections of files: patterns for what belongs to a selection and for what does not.

  A pattern that begins with `**` or with a slash is taken as it is. Any other is meant relative to
  a base directory, whose path is put in front of it, escaped, so that the directory stands for
  itself whatever its name.

  A name with a NUL character is not the name of a file, and is never selected.
-/
import Stache.Glob.Pattern
import Stache.Text.Slash

namespace Stache.Glob

/-- Files that match one of `included` and none of `excluded`. Without patterns in `included`, all
    files are. -/
structure Selection where
  included : List Pattern
  excluded : List Pattern
deriving Repr

/-- A pattern that cannot be read, in full. -/
structure BadPattern where
  pattern : String
  fault : Fault
deriving DecidableEq, Repr

/-- `s` without one `./` in front. -/
def withoutHere : List Char → List Char
  | '.' :: '/' :: s => s
  | s => s

/-- Is the pattern taken as it is, whatever the base? -/
def isRooted : List Char → Bool
  | '*' :: '*' :: _ => true
  | '/' :: _ => true
  | _ => false

/-- The text of the pattern in full, for the base directory `base`. -/
def resolve (base pattern : String) : String :=
  let pattern := (Text.slashed pattern).toList
  String.ofList <|
    if isRooted pattern then pattern
    else escape (Text.withoutSlashes (Text.slashed base).toList) ++ '/' :: withoutHere pattern

/-- The pattern that a text stands for, with the base directory `base`. -/
def Pattern.resolved (base text : String) : Except BadPattern Pattern :=
  (Pattern.parse (resolve base text)).mapError fun fault => ⟨resolve base text, fault⟩

/-- The selection with these patterns; the first bad one is reported. -/
def Selection.of (included excluded : List String) (base : String) :
    Except BadPattern Selection := do
  let included ← included.mapM (Pattern.resolved base)
  let excluded ← excluded.mapM (Pattern.resolved base)
  return ⟨included, excluded⟩

/-- Does the file of that name belong to the selection? -/
def Selection.has (selection : Selection) (name : String) : Bool :=
  let path := (Text.slashed name).toList
  !path.contains '\x00' && !selection.excluded.any (·.matches path)
    && (selection.included.isEmpty || selection.included.any (·.matches path))

/-- What a user is told of a pattern that cannot be read. -/
def BadPattern.message (bad : BadPattern) : String :=
  "Invalid filter pattern \x60" ++ bad.pattern ++ "\x60: " ++ bad.fault.message

end Stache.Glob
