/-
  Whitespace control.

  Two rules take blanks away from content, each on behalf of a tag beside it.

    * A tilde on a tag takes every blank on its side of the tag.
    * With the standalone rule on, a block tag, an else tag, a comment or a partial that has a line
      to itself takes the indentation before it and the line break after it. A partial keeps the
      indentation, as what its own lines are to be indented with.

  The tree is settled from the leaves up. A statement is settled first, and by then knows what it
  asks of its two neighbours (`Demand`); the body around it then grants that, going through the
  statements from left to right. What is asked of the statement to the left is granted at once, what
  is asked of the one to the right is carried along as a list of trims and granted on arrival, so
  every body is passed over once (`settleBody`).

  Whether a tag has a line to itself is a question about the file as it stands, hence about
  `written`; only `value` is trimmed. Three of the bodies next to a block tag are not those of the
  block itself: the section after an else tag with a call of its own starts inside the chained
  block. That section is the FACE of the else section.
-/
import Stache.Text.Blank
import Stache.Template.Syntax

namespace Stache

/-- How far a trim reaches: over every blank, or over one line's worth. -/
inductive Extent where
  | all
  | line
deriving DecidableEq, Repr

namespace Content

/-- Trims the start of the value. One line's worth is not taken after another trim that took
    something. -/
def trimStart (c : Content) (extent : Extent) : Content :=
  let value := String.ofList <| match extent with
    | .all => Text.dropBlankStart c.value.toList
    | .line => Text.dropLineStart c.value.toList
  if extent = .line && c.startTrimmed then c
  else { c with value, startTrimmed := value ≠ c.value }

/-- Trims the end of the value, by the same rule. -/
def trimEnd (c : Content) (extent : Extent) : Content :=
  let value := String.ofList <| match extent with
    | .all => Text.dropBlankEnd c.value.toList
    | .line => Text.dropIndentEnd c.value.toList
  if extent = .line && c.endTrimmed then c
  else { c with value, endTrimmed := value ≠ c.value }

/-- The indentation that a trim of one line's worth at the end takes away, as it was written, or the
    empty text if the trim takes nothing. -/
def indent (c : Content) : String :=
  if !c.endTrimmed && (c.trimEnd .line).endTrimmed then
    String.ofList (Text.indentEnd c.written.toList)
  else ""

end Content

/-! ## Bodies -/

/-- Trims the content that begins a body, if content does. -/
def trimFirst (extent : Extent) : List Statement → List Statement
  | .content c :: rest => .content (c.trimStart extent) :: rest
  | body => body

/-- Trims the content that ends the statements `before`, which are given latest first. -/
def trimLatest (extent : Extent) : List Statement → List Statement
  | .content c :: more => .content (c.trimEnd extent) :: more
  | before => before

/-- Trims the content that ends a body, if content does. -/
def trimLast (extent : Extent) (body : List Statement) : List Statement :=
  (trimLatest extent body.reverse).reverse

/-- Whether the statements `before`, given latest first, end a line. At the top of a file so does
    the beginning of the file. -/
def rowEndsLine (atTop : Bool) : List Statement → Bool
  | [] => atTop
  | .content c :: more => Text.endsLine (atTop && more.isEmpty) c.written.toList
  | _ => false

/-- Whether the statements `after` begin with the end of a line. -/
def rowStartsLine (atTop : Bool) : List Statement → Bool
  | [] => atTop
  | .content c :: more => Text.startsLine (atTop && more.isEmpty) c.written.toList
  | _ => false

/-- The indentation before a statement, when the statements `before` end in content. -/
def latestIndent : List Statement → String
  | .content c :: _ => c.indent
  | _ => ""

/-! ## Sections -/

/-- Changes the body of a program and nothing else. -/
def Program.onBody (f : List Statement → List Statement) (p : Program) : Program :=
  { p with body := f p.body }

/-- The body that begins right after an else tag. -/
def Program.face (p : Program) : List Statement :=
  match p.chained, p.body with
  | true, .block _ (some main) _ _ _ :: _ => main.body
  | _, body => body

/-- Changes the body that begins right after an else tag. -/
def Program.onFace (f : List Statement → List Statement) (p : Program) : Program :=
  match p.chained, p.body with
  | true, .block call (some main) inverse strip span :: rest =>
    { p with body := .block call (some (main.onBody f)) inverse strip span :: rest }
  | _, _ => p.onBody f

/-- The section that follows a block's open tag. -/
def Statement.onLeading (f : List Statement → List Statement) : Statement → Statement
  | .block call (some main) inverse strip span =>
    .block call (some (main.onBody f)) inverse strip span
  | .block call none inverse strip span =>
    .block call none (inverse.map (Program.onBody f)) strip span
  | .partialBlock call body opening closing span =>
    .partialBlock call (body.onBody f) opening closing span
  | .decoratorBlock call body opening closing span =>
    .decoratorBlock call (body.onBody f) opening closing span
  | s => s

/-- The section that precedes a block's close tag. -/
def Statement.onTrailing (f : List Statement → List Statement) : Statement → Statement
  | .block call main (some inverse) strip span =>
    .block call main (some (inverse.onBody f)) strip span
  | .block call main none strip span => .block call (main.map (Program.onBody f)) none strip span
  | .partialBlock call body opening closing span =>
    .partialBlock call (body.onBody f) opening closing span
  | .decoratorBlock call body opening closing span =>
    .decoratorBlock call (body.onBody f) opening closing span
  | s => s

/-- A partial call remembers the indentation before it. -/
def Statement.withIndent (indent : String) : Statement → Statement
  | .partialCall call _ strip span => .partialCall call indent strip span
  | s => s

/-! ## Demands -/

/-- What a statement asks of its neighbours. -/
structure Demand where
  /-- A tilde towards the statement before, and one towards the statement after. -/
  strip : Strip
  /-- A tag without a body, to be taken as standalone if its line allows. -/
  ownLine : Bool
  /-- Nothing follows the open tag on its line. -/
  openLine : Bool
  /-- Nothing precedes the close tag on its line. -/
  closeLine : Bool

/-- The demand of a tag that is never standalone. -/
def Demand.ofStrip (strip : Strip) : Demand := ⟨strip, false, false, false⟩

/-- The sections of a block after the trims that its own tags ask for, and the demand of the block.
    The sections are settled already. -/
def settleSections (standalone : Bool) (strip : BlockStrip) (main : Program)
    (inverse : Option Program) : Program × Option Program × Demand :=
  let trimIf (wanted : Bool) (f : List Statement → List Statement) (body : List Statement) :=
    if wanted then f body else body
  let demand (last : List Statement) : Demand :=
    ⟨⟨strip.opening.opening, strip.closing.closing⟩, false, rowStartsLine false main.body,
      rowEndsLine false last.reverse⟩
  let opened := main.onBody (trimIf strip.opening.closing (trimFirst .all))
  match inverse with
  | none =>
    (opened.onBody (trimIf strip.closing.opening (trimLast .all)), none, demand main.body)
  | some section₂ =>
    -- an else tag has a line to itself, or shares it with a tag
    let alone := standalone && rowEndsLine false main.body.reverse
      && rowStartsLine false section₂.face
    -- the tilde of the tag before a section comes first, then that of the tag behind it
    let first := opened
      |>.onBody (trimIf strip.inverse.opening (trimLast .all))
      |>.onBody (trimIf alone (trimLast .line))
    let second := section₂
      |>.onFace (trimIf strip.inverse.closing (trimFirst .all))
      |>.onFace (trimIf strip.closing.opening (trimLast .all))
      |>.onFace (trimIf alone (trimFirst .line))
    (first, some second, demand section₂.face)

/-- A statement among its neighbours, in the middle of a pass: those before it, latest first, the
    statement itself, and the trims that the next one is to undergo. -/
structure Placed where
  before : List Statement
  statement : Statement
  carried : List Extent

/-- Grants what a statement asks for, apart from the trims it carries on to the next one. -/
def place (standalone atTop : Bool) (before after : List Statement) (s : Statement)
    (demand : Demand) : Placed :=
  let trimIf (wanted : Bool) (extent : Extent) (before : List Statement) :=
    if wanted then trimLatest extent before else before
  let ended := rowEndsLine atTop before
  let started := rowStartsLine atTop after
  let ownLine := standalone && demand.ownLine && ended && started
  let openLine := standalone && demand.openLine && ended
  let closeLine := standalone && demand.closeLine && started
  let before₁ := trimIf demand.strip.opening .all before
  let before₂ := trimIf ownLine .line before₁
  let before₃ := trimIf openLine .line before₂
  let s₁ := if ownLine then s.withIndent (latestIndent before₁) else s
  let s₂ := if openLine then s₁.onLeading (trimFirst .line) else s₁
  let s₃ := if closeLine then s₂.onTrailing (trimLast .line) else s₂
  ⟨before₃, s₃, (if demand.strip.closing then [.all] else []) ++
    (if ownLine then [.line] else []) ++ (if closeLine then [.line] else [])⟩

/-! ## Settling -/

mutual

/-- Settles the sections of a statement, and tells its demand. -/
def Statement.settle (standalone : Bool) : Statement → Statement × Demand
  | .content c => (.content c, .ofStrip .none)
  | .comment text strip span => (.comment text strip span, ⟨strip, true, false, false⟩)
  | .mustache call escaped strip span => (.mustache call escaped strip span, .ofStrip strip)
  | .partialCall call indent strip span =>
    (.partialCall call indent strip span, ⟨strip, true, false, false⟩)
  | .decorator call strip span => (.decorator call strip span, .ofStrip strip)
  | .block call (some main) inverse strip span =>
    let (main', inverse', demand) :=
      settleSections standalone strip (main.settle standalone false)
        (settleSection standalone inverse)
    (.block call (some main') inverse' strip span, demand)
  -- a block with one section has no else tag, so the section is settled as the main one
  | .block call none (some inverse) strip span =>
    let (inverse', _, demand) :=
      settleSections standalone strip (inverse.settle standalone false) none
    (.block call none (some inverse') strip span, demand)
  | .block call none none strip span =>
    (.block call none none strip span, .ofStrip ⟨strip.opening.opening, strip.closing.closing⟩)
  | .partialBlock call body opening closing span =>
    let (body', _, demand) :=
      settleSections standalone ⟨opening, .none, closing⟩ (body.settle standalone false) none
    (.partialBlock call body' opening closing span, demand)
  | .decoratorBlock call body opening closing span =>
    let (body', _, demand) :=
      settleSections standalone ⟨opening, .none, closing⟩ (body.settle standalone false) none
    (.decoratorBlock call body' opening closing span, demand)

/-- Settles all bodies of a program. At the top, the ends of the file count as ends of a line. -/
def Program.settle (standalone atTop : Bool) : Program → Program
  | ⟨body, blockParams, chained, span⟩ =>
    ⟨settleBody standalone atTop [] [] body, blockParams, chained, span⟩

/-- Settles a section that may be missing. -/
def settleSection (standalone : Bool) : Option Program → Option Program
  | none => none
  | some p => some (p.settle standalone false)

/-- Settles the statements of a body after those `before` them, which are given latest first. The
    first is to undergo the trims `carried`. -/
def settleBody (standalone atTop : Bool) (before : List Statement) (carried : List Extent) :
    List Statement → List Statement
  | [] => before.reverse
  | .content c :: rest =>
    settleBody standalone atTop (.content (carried.foldl Content.trimStart c) :: before) [] rest
  | s :: rest =>
    let (s', demand) := s.settle standalone
    let placed := place standalone atTop before rest s' demand
    settleBody standalone atTop (placed.statement :: placed.before) placed.carried rest

end

/-- The tree of a whole file after whitespace control. -/
def Program.trimmed (standalone : Bool) (p : Program) : Program := p.settle standalone true

end Stache
