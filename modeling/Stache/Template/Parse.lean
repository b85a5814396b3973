/-
  Parsing a template: items, then nesting, then whitespace control.

  The three stages are kept apart. `Program.ofText` is the tree before whitespace control;
  `Template.parse` settles it, and the standalone rule may be switched off. Faults of the items come
  before faults of the nesting, since all of the text is cut into items first.

  Positions in the tree are exact, so that places can be compared.  Where the tree is handed out they
  are cut to 32 bits, all in one step (`Template.reported`, in `Template.Moved`).
-/
import Stache.Template.Item.Read
import Stache.Template.Nesting
import Stache.Template.Trim

namespace Stache

/-- The tree of a text before whitespace control. -/
def Program.ofText (text : List Char) : Except ParseError Program := do
  let items ← Item.readAll .origin text
  Program.ofItems items (Position.origin.advance text)

namespace Template

/-- Parses `text`, the contents of the file `source`. -/
def parse (text : String) (source : Option String) (standalone : Bool) :
    Except ParseError Template := do
  let program ← Program.ofText text.toList
  return ⟨source, program.trimmed standalone⟩

end Template

end Stache
