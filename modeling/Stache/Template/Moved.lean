/-
  Trees with their positions taken to other ones.

  Nothing in this library looks at a position in a tree but to put it into a span or to report it.
  So a tree may be built with the positions of its text as they are counted, and these be taken to
  other ones in one go (`Program.moved`): to where they come to stand when the text stands behind
  another one, or to what is reported of them.

  The latter is the tree that is HANDED OUT (`Template.reported`). The same holds of an error in a
  text (`ParseError.reported`).
-/
import Stache.Template.Syntax
import Stache.Template.Fault

namespace Stache

/-- Both ends of a span, taken to other positions. -/
def Span.moved (f : Position → Position) (span : Span) : Span := ⟨f span.start, f span.stop⟩

/-- The path, with its span taken to another one. -/
def Path.moved (f : Position → Position) (p : Path) : Path := { p with span := p.span.moved f }

mutual

/-- The expression with its positions taken to other ones. -/
def Expression.moved (f : Position → Position) : Expression → Expression
  | .path p => .path (p.moved f)
  | .subexpression call span => .subexpression (call.moved f) (span.moved f)
  | .string value written span => .string value written (span.moved f)
  | .number written span => .number written (span.moved f)
  | .boolean value span => .boolean value (span.moved f)
  | .undefined span => .undefined (span.moved f)
  | .null span => .null (span.moved f)

/-- The call with its positions taken to other ones. -/
def Call.moved (f : Position → Position) : Call → Call
  | ⟨callee, params, hash⟩ => ⟨callee.moved f, movedParams f params, movedHash f hash⟩

/-- Each of the parameters, moved. -/
def movedParams (f : Position → Position) : List Expression → List Expression
  | [] => []
  | e :: rest => e.moved f :: movedParams f rest

/-- The hash of a call, if it has one, moved. -/
def movedHash (f : Position → Position) : Option Hash → Option Hash
  | none => none
  | some ⟨pairs, span⟩ => some ⟨movedPairs f pairs, span.moved f⟩

/-- The pair with its positions taken to other ones. -/
def Pair.moved (f : Position → Position) : Pair → Pair
  | ⟨key, value, span⟩ => ⟨key, value.moved f, span.moved f⟩

/-- Each of the pairs, moved. -/
def movedPairs (f : Position → Position) : List Pair → List Pair
  | [] => []
  | p :: rest => p.moved f :: movedPairs f rest

end

/-- The content with its span taken to another one. -/
def Content.moved (f : Position → Position) (c : Content) : Content :=
  { c with span := c.span.moved f }

mutual

/-- The statement with its positions taken to other ones. -/
def Statement.moved (f : Position → Position) : Statement → Statement
  | .content c => .content (c.moved f)
  | .comment text strip span => .comment text strip (span.moved f)
  | .mustache call escaped strip span => .mustache (call.moved f) escaped strip (span.moved f)
  | .partialCall call indent strip span => .partialCall (call.moved f) indent strip (span.moved f)
  | .decorator call strip span => .decorator (call.moved f) strip (span.moved f)
  | .block call main inverse strip span =>
    .block (call.moved f) (movedSection f main) (movedSection f inverse) strip (span.moved f)
  | .partialBlock call body opening closing span =>
    .partialBlock (call.moved f) (body.moved f) opening closing (span.moved f)
  | .decoratorBlock call body opening closing span =>
    .decoratorBlock (call.moved f) (body.moved f) opening closing (span.moved f)

/-- The program with its positions taken to other ones. -/
def Program.moved (f : Position → Position) : Program → Program
  | ⟨body, params, chained, span⟩ => ⟨movedBody f body, params, chained, span.moved f⟩

/-- A section of a block, if it has one, moved. -/
def movedSection (f : Position → Position) : Option Program → Option Program
  | none => none
  | some p => some (p.moved f)

/-- Each of the statements, moved. -/
def movedBody (f : Position → Position) : List Statement → List Statement
  | [] => []
  | s :: rest => s.moved f :: movedBody f rest

end

/-- The template as it is handed out, with what is reported of its positions. -/
def Template.reported (t : Template) : Template :=
  { t with root := t.root.moved Position.reported }

/-- The error as it is handed out. -/
def ParseError.reported (e : ParseError) : ParseError := { e with position := e.position.reported }

end Stache
