/-
  From a row of items to a tree.

  The items are taken one by one, and the state between two of them is a NESTING: the statements at
  the top level so far, and one FRAME for each block that is still open, innermost first. A frame
  always has an open tag, so the top level can never be closed; it is not a frame.

    1. content, comments and closed tags are pushed onto the section in hand;
    2. an open tag adds a frame;
    3. an else tag begins the inverse section of the innermost frame, once, and only of a block.
       With a call of its own it also adds a frame, marked `chained`;
    4. a close tag ends the innermost frame that is not chained, together with the chained ones
       inside it. All of them share the close tag, and the name on it must be that of the frame that
       is not chained.

  Statements are kept latest first while a section grows, and turned around when it is done.
-/
import Stache.Template.Item.Basic
import Stache.Template.Call

namespace Stache

/-! ## Frames -/

/-- What an open tag opens. -/
inductive OpeningKind where
  | block
  /-- A block whose first section is the inverse one. -/
  | inverse
  | partialBlock
  | decoratorBlock
deriving DecidableEq, Repr

/-- An open tag. -/
structure Opening where
  kind : OpeningKind
  call : Call
  blockParams : List String
  strip : Strip
  span : Span

/-- The section after an else tag. -/
structure ElseSection where
  span : Span
  strip : Strip
  chained : Bool
  /-- Latest first. -/
  body : List Statement

/-- A block that is still open. -/
structure Frame where
  opening : Opening
  /-- Latest first. -/
  body : List Statement
  elseSection : Option ElseSection
  /-- Opened by an else tag, and closed with the block around it. -/
  chained : Bool

/-- Adds a statement to the section in hand. -/
def Frame.push (f : Frame) (s : Statement) : Frame :=
  match f.elseSection with
  | none => { f with body := s :: f.body }
  | some e => { f with elseSection := some { e with body := s :: e.body } }

/-- The section after the open tag, when the close tag stands at `stop`. -/
def Frame.firstSection (f : Frame) (stop : Position) : Program :=
  let stop := (f.elseSection.map (·.span.start)).getD stop
  ⟨f.body.reverse, f.opening.blockParams, false, ⟨f.opening.span.stop, stop⟩⟩

/-- The section after the else tag, when the close tag stands at `stop`. -/
def Frame.secondSection (f : Frame) (stop : Position) : Option Program :=
  f.elseSection.map fun e => ⟨e.body.reverse, [], e.chained, ⟨e.span.stop, stop⟩⟩

/-- The statement that a frame becomes once its close tag is read. -/
def Frame.close (f : Frame) (tag : Span) (strip : Strip) : Statement :=
  let first := f.firstSection tag.start
  let second := f.secondSection tag.start
  let span : Span := ⟨f.opening.span.start, tag.stop⟩
  let strips : BlockStrip :=
    ⟨f.opening.strip, (f.elseSection.map (·.strip)).getD Strip.none, strip⟩
  match f.opening.kind with
  | .block => .block f.opening.call (some first) second strips span
  | .inverse => .block f.opening.call second (some first) strips span
  | .partialBlock => .partialBlock f.opening.call first f.opening.strip strip span
  | .decoratorBlock => .decoratorBlock f.opening.call first f.opening.strip strip span

/-! ## Nestings -/

/-- What has been read so far. -/
structure Nesting where
  /-- Latest first. -/
  root : List Statement
  frames : List Frame

namespace Nesting

/-- Nothing has been read. -/
def empty : Nesting := ⟨[], []⟩

/-- Adds a statement to the innermost section. -/
def push (n : Nesting) (s : Statement) : Nesting :=
  match n.frames with
  | [] => { n with root := s :: n.root }
  | f :: fs => { n with frames := f.push s :: fs }

/-- Adds a frame for an open tag. -/
def enter (n : Nesting) (opening : Opening) (chained : Bool) : Nesting :=
  { n with frames := ⟨opening, [], none, chained⟩ :: n.frames }

/-- Begins the inverse section of the innermost frame. -/
def beginElse (n : Nesting) (tag : Span) (strip : Strip) (chained : Bool) :
    Except ParseError Nesting :=
  match n.frames with
  | [] => .error ⟨.unexpectedElse, tag.start⟩
  | f :: fs =>
    let isBlock := f.opening.kind = .block || f.opening.kind = .inverse
    if isBlock && f.elseSection.isNone then
      .ok { n with frames := { f with elseSection := some ⟨tag, strip, chained, []⟩ } :: fs }
    else .error ⟨.unexpectedElse, tag.start⟩

/-- Closes frames up to the first that is not chained. A frame closed on the way is handed on as
    `inner` and pushed onto the next one. -/
def closeFrames (name : String) (tag : Span) (strip : Strip) (root : List Statement) :
    Option Statement → List Frame → Except ParseError Nesting
  | _, [] => .error ⟨.unexpectedClose name, tag.start⟩
  | inner, f :: fs =>
    let closed := ((inner.map f.push).getD f).close tag strip
    if f.chained then closeFrames name tag strip root (some closed) fs
    else if f.opening.call.label = name then .ok ((⟨root, fs⟩ : Nesting).push closed)
    else .error ⟨.mismatchedClose f.opening.call.label name, tag.start⟩

/-- The error of a tag whose tokens do not fit the grammar. -/
def located {α : Type} (tag : Tag) (result : Except Misfit α) : Except ParseError α :=
  result.mapError (Misfit.locate tag.bodyEnd)

/-- Reads the call of an open tag and adds a frame for it. -/
def openTag (n : Nesting) (kind : OpeningKind) (chained : Bool) (span : Span) (tag : Tag) :
    Except ParseError Nesting := do
  let (call, params) ← located tag <|
    if kind = .partialBlock then Call.partialOpenerOfTokens tag.tokens
    else Call.openerOfTokens tag.tokens
  return n.enter ⟨kind, call, params, tag.strip, span⟩ chained

/-- Takes a tag, by its kind. -/
def takeTag (n : Nesting) (span : Span) (tag : Tag) : Except ParseError Nesting :=
  match tag.kind with
  | .mustache form => do
    let call ← located tag (Call.ofTokens tag.tokens)
    return n.push (.mustache call form.escaped tag.strip span)
  | .partialCall => do
    let call ← located tag (Call.partialOfTokens tag.tokens)
    return n.push (.partialCall call "" tag.strip span)
  | .decorator => do
    let call ← located tag (Call.ofTokens tag.tokens)
    return n.push (.decorator call tag.strip span)
  | .openBlock => n.openTag .block false span tag
  | .openInverse => n.openTag .inverse false span tag
  | .openPartialBlock => n.openTag .partialBlock false span tag
  | .openDecoratorBlock => n.openTag .decoratorBlock false span tag
  | .elseMark => n.beginElse span tag.strip false
  | .elseChain => do
    -- the tag counts twice: as an else tag, and as an open tag inside the new section
    let n ← n.beginElse span tag.strip true
    n.openTag .block true span tag
  | .closeMark => do
    let name ← located tag (Expression.nameOfTokens tag.tokens)
    closeFrames name.label span tag.strip n.root none n.frames

/-- Takes an item of any kind. -/
def take (n : Nesting) (item : Item) : Except ParseError Nesting :=
  match item.shape with
  | .content value => .ok (n.push (.content ⟨value, item.lexeme, false, false, item.span⟩))
  | .comment text strip => .ok (n.push (.comment text strip item.span))
  | .tag tag => n.takeTag item.span tag

/-- The tree of a text that ends at `stop`, once no block is open any more. -/
def finish (n : Nesting) (stop : Position) : Except ParseError Program :=
  match n.frames with
  | [] => .ok ⟨n.root.reverse, [], false, ⟨.origin, stop⟩⟩
  | f :: _ => .error ⟨.unclosedBlock f.opening.call.label, f.opening.span.start⟩

end Nesting

/-- The tree that `items` form, before whitespace control. -/
def Program.ofItems (items : List Item) (stop : Position) : Except ParseError Program := do
  let nesting ← items.foldlM Nesting.take .empty
  nesting.finish stop

end Stache
