/-
  What can be wrong with the text of a template, and where.

  A fault is a cause; its wording is the one function `ParseFault.message`. A `ParseError` is a
  fault together with the position it is reported at.
-/
import Stache.Template.Token.Basic

namespace Stache

/-- What the grammar of a tag would have accepted at some token. -/
inductive Expected where
  | name
  | nameOrPipe
  | closeParen
  | close
deriving DecidableEq, Repr

/-- The names that users know the tokens by. -/
def Expected.describe : Expected → String
  | .name => "'ID'"
  | .nameOrPipe => "'ID' or '|'"
  | .closeParen => "')'"
  | .close => "'CLOSE'"

/-- A cause. Whatever the message names is kept with it. -/
inductive ParseFault where
  | unterminatedComment
  | unterminatedString
  | unterminatedSegment
  /-- A character that begins no token. -/
  | invalidCharacter (c : Char)
  /-- The text ends inside a tag. -/
  | unclosedTag
  /-- A token out of place, or `none` where the tag closes too early. -/
  | unexpected (expected : Expected) (found : Option TokenKind)
  /-- One of `..`, `.` and `this` after a part of another kind. -/
  | invalidPath (written : String)
  | unclosedBlock (name : String)
  | unexpectedElse
  | unexpectedClose (name : String)
  | mismatchedClose (opened closed : String)
deriving DecidableEq, Repr

/-- What a user is told of a cause. -/
def ParseFault.message : ParseFault → String
  | .unterminatedComment => "Unterminated comment"
  | .unterminatedString => "Unterminated string literal"
  | .unterminatedSegment => "Unterminated literal segment"
  | .invalidCharacter c => "Invalid character '" ++ c.toString ++ "' in expression"
  | .unclosedTag => "Expecting 'CLOSE', got 'EOF'"
  | .unexpected expected found =>
    "Expecting " ++ expected.describe ++ ", got " ++ (found.map TokenKind.describe).getD "'CLOSE'"
  | .invalidPath written => "Invalid path: " ++ written
  | .unclosedBlock name => "Unclosed block " ++ name
  | .unexpectedElse => "Unexpected \x7b\x7belse\x7d\x7d"
  | .unexpectedClose name => "Unexpected close block " ++ name
  | .mismatchedClose opened closed => opened ++ " doesn't match " ++ closed

/-- A cause, and where it is. -/
structure ParseError where
  fault : ParseFault
  position : Position
deriving DecidableEq, Repr

end Stache
