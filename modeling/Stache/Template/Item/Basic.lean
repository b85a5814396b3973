/-
  The items of a template: what its text consists of before any nesting is seen.

  A text is content, comments and tags, one after another. Each item keeps the characters that write
  it, so that the items of a text, laid end to end, are that text again. A tag is already cut into
  tokens.
-/
import Stache.Template.Syntax
import Stache.Template.Token.Basic

namespace Stache

/-- How a mustache is written: plainly, with an ampersand, or in triple braces. -/
inductive MustacheForm where
  | plain
  | ampersand
  | triple
deriving DecidableEq, Repr

/-- Only a plain mustache escapes what it outputs. -/
def MustacheForm.escaped : MustacheForm → Bool
  | .plain => true
  | .ampersand | .triple => false

/-- What a tag does. -/
inductive TagRole where
  | mustache (form : MustacheForm)
  | partialCall
  | decorator
  | openBlock
  /-- The caret that opens a block with its inverse section in front. -/
  | openInverse
  | openPartialBlock
  | openDecoratorBlock
  | elseMark
  /-- An else tag with a call of its own, which opens a block inside the else section. -/
  | elseChain
  | closeMark
deriving DecidableEq, Repr

/-- A tag, by what is between its braces. -/
structure Tag where
  kind : TagRole
  tokens : List Token
  /-- Where the closing braces begin, or the tilde in front of them. -/
  bodyEnd : Position
  strip : Strip
deriving DecidableEq, Repr

/-- What an item is. -/
inductive ItemShape where
  /-- Content, with its escapes resolved. -/
  | content (value : String)
  | comment (text : String) (strip : Strip)
  | tag (tag : Tag)
deriving DecidableEq, Repr

/-- An item, with the text that writes it and the place where it begins. -/
structure Item where
  shape : ItemShape
  lexeme : String
  start : Position
deriving DecidableEq, Repr

/-- An item ends behind its text. -/
def Item.stop (item : Item) : Position := item.start.advance item.lexeme.toList

/-- Where an item stands. -/
def Item.span (item : Item) : Span := ⟨item.start, item.stop⟩

end Stache
