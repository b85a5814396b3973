/-
  The tokens of a tag.

  A token is a kind, the characters that write it, and the position where they begin. `lexeme` is
  never redundant: a quoted text and a number are later shown as they were written, and the end of a
  token is the position after its lexeme.
-/
import Stache.Text.Position

namespace Stache

/-- What a token is. -/
inductive TokenKind where
  /-- A path segment, a key or a parameter name; `bracketed` when written `[like this]`. -/
  | name (name : String) (bracketed : Bool)
  /-- A dot or a slash between two segments. -/
  | separator (mark : Char)
  /-- The at sign in front of a data path. -/
  | atSign
  | string (value : String)
  | number
  | boolean (value : Bool)
  | undefined
  | null
  | openParen
  | closeParen
  | equals
  /-- The words `as |` that open a list of block parameters. -/
  | asPipe
  | pipe
deriving DecidableEq, Repr

/-- How messages speak of a token. -/
def TokenKind.describe : TokenKind → String
  | .name text _ => "'" ++ text ++ "'"
  | .separator mark => "'" ++ mark.toString ++ "'"
  | .atSign => "'@'"
  | .string _ => "STRING"
  | .number => "NUMBER"
  | .boolean _ => "BOOLEAN"
  | .undefined => "UNDEFINED"
  | .null => "NULL"
  | .openParen => "'('"
  | .closeParen => "')'"
  | .equals => "'='"
  | .asPipe => "'as |'"
  | .pipe => "'|'"

/-- A token, with the text that writes it and the place where it begins. -/
structure Token where
  kind : TokenKind
  lexeme : String
  start : Position
deriving DecidableEq, Repr

/-- The position just after a token. -/
def Token.stop (t : Token) : Position := t.start.advance t.lexeme.toList

/-- Where a token stands. -/
def Token.span (t : Token) : Span := ⟨t.start, t.stop⟩

end Stache
