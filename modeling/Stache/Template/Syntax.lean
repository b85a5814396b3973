/-
  The syntax tree of a template.

  A template is a PROGRAM: a list of statements. Some statements are bare (a run of content, a
  comment, a mustache, a partial call, a decorator), others hold programs of their own (a block, a
  partial block, a decorator block). What stands between the braces of a tag is a CALL: a callee,
  positional parameters, and a hash of named ones, all of them EXPRESSIONS; a call in parentheses is
  an expression again, which is why the four types are declared together.

  Every node carries its span, in exact positions (see `Position.reported` for those that are shown).
  The name of the file is the same for all of them and is kept once, in `Template`.
-/
import Stache.Text.Position

namespace Stache

/-- The two marks of whitespace control on a tag: a tilde inside the opening braces, and one inside
    the closing braces. -/
structure Strip where
  opening : Bool
  closing : Bool
deriving DecidableEq, Repr

/-- The marks of a tag without tildes. -/
def Strip.none : Strip := ⟨false, false⟩

/-! ## Expressions -/

/-- A path such as `@../a/b` or `this.[two words]`. The segments `..`, `.` and `this` in front are
    folded into `depth` and `thisScoped`; the others are its `parts`. -/
structure Path where
  /-- Written with a leading at sign. -/
  data : Bool
  /-- The number of leading `..` segments. -/
  depth : Nat
  parts : List String
  /-- The path as written, less the brackets of literal segments. -/
  written : String
  /-- Some leading segment is `this` or `.`. -/
  thisScoped : Bool
  span : Span
deriving DecidableEq, Repr

/-- A simple path is a single name. -/
def Path.isSimple (p : Path) : Bool := p.parts.length == 1 && !p.thisScoped && p.depth == 0

/-- The first part of a path, or the empty text if it has none. -/
def Path.head (p : Path) : String := p.parts.headD ""

/-- The path by which a partial calls the block it was called with. -/
def Path.enclosingBlock : String := "@partial-block"

mutual

/-- What may stand for a value in a tag. -/
inductive Expression where
  | path (path : Path)
  | subexpression (call : Call) (span : Span)
  /-- A quoted text, with the text as written. -/
  | string (value written : String) (span : Span)
  /-- A number is kept as its written digits. -/
  | number (written : String) (span : Span)
  | boolean (value : Bool) (span : Span)
  | undefined (span : Span)
  | null (span : Span)

/-- A callee with its arguments. -/
structure Call where
  callee : Expression
  params : List Expression
  hash : Option Hash

/-- The named arguments of a call, in the order in which they are written. -/
structure Hash where
  pairs : List Pair
  span : Span

/-- A named argument. -/
structure Pair where
  key : String
  value : Expression
  span : Span

end

/-- Where an expression stands. -/
def Expression.span : Expression → Span
  | .path p => p.span
  | .subexpression _ span | .string _ _ span | .number _ span | .boolean _ span | .undefined span
  | .null span => span

/-- Whether anything is passed besides the callee. -/
def Call.hasArguments (c : Call) : Bool := !c.params.isEmpty || c.hash.isSome

/-- The pairs of an optional hash, none for a missing one. -/
def Call.pairs (c : Call) : List Pair :=
  match c.hash with
  | none => []
  | some hash => hash.pairs

mutual

/-- The text by which an expression names something: a helper, a partial, or the block that a close
    tag closes. A sub-expression goes by its callee. -/
def Expression.label : Expression → String
  | .path p => p.written
  | .subexpression call _ => call.label
  | .string value _ _ => value
  | .number written _ => written
  | .boolean value _ => if value then "true" else "false"
  | .undefined _ => "undefined"
  | .null _ => "null"

/-- The label of a call is that of its callee. -/
def Call.label : Call → String
  | ⟨callee, _, _⟩ => callee.label

end

/-! ## Statements -/

/-- A run of text between tags. `written` is the text as it stands in the file; `value` is what
    is left to output, after escapes and whitespace control. -/
structure Content where
  value : String
  written : String
  /-- Set when the last trim at the start of `value` removed something. -/
  startTrimmed : Bool
  /-- Set when the last trim at the end of `value` removed something. -/
  endTrimmed : Bool
  span : Span
deriving DecidableEq, Repr

/-- The marks on the tags of a block: its open tag, its else tag and its close tag. -/
structure BlockStrip where
  opening : Strip
  inverse : Strip
  closing : Strip
deriving DecidableEq, Repr

mutual

/-- A part of a program. -/
inductive Statement where
  | content (content : Content)
  | comment (text : String) (strip : Strip) (span : Span)
  | mustache (call : Call) (escaped : Bool) (strip : Strip) (span : Span)
  /-- The indent is what stands before a partial that has a line to itself. -/
  | partialCall (call : Call) (indent : String) (strip : Strip) (span : Span)
  | decorator (call : Call) (strip : Strip) (span : Span)
  /-- A block has a main section, run when its condition holds, and an inverse one. -/
  | block (call : Call) (main inverse : Option Program) (strip : BlockStrip) (span : Span)
  | partialBlock (call : Call) (body : Program) (opening closing : Strip) (span : Span)
  | decoratorBlock (call : Call) (body : Program) (opening closing : Strip) (span : Span)

/-- A section of a template. It is `chained` when it is the else section that an else tag with a
    call of its own opens. -/
structure Program where
  body : List Statement
  blockParams : List String
  chained : Bool
  span : Span

end

/-- Where a statement stands. -/
def Statement.span : Statement → Span
  | .content c => c.span
  | .comment _ _ span | .mustache _ _ _ span | .partialCall _ _ _ span | .decorator _ _ span
  | .block _ _ _ _ span | .partialBlock _ _ _ _ span | .decoratorBlock _ _ _ _ span => span

/-- A parsed file: its tree, and the name that the tree's positions refer to. -/
structure Template where
  source : Option String
  root : Program

end Stache
