/-
  One text behind another.

  A text that ends with a tag, or is empty, may have any other text behind it: the tree of the two
  is made of the trees of the one and of the other, the latter MOVED to where the first text ends
  (`Program.ofText_append`).  So nothing that is behind a tag has a part in how it is read, and
  nothing passes from one tag to the next.

  This is so before whitespace control, which does look from a tag at the content beside it.  With
  the standalone rule off it looks no further than tildes tell it to, so without tildes it is so of
  whole templates as well, and of what is handed out of them if the positions of the two texts
  together fit into 32 bits (`Template.parse_append`).
-/
import Stache.Proofs.Nesting.Reading
import Stache.Proofs.Nesting.Reported
import Stache.Proofs.Whitespace.Unmarked

namespace Stache

section

variable {s t : List Char} {items : List Item} (hitems : Item.readAll .origin s = .ok items)
variable (hend : ∀ item ∈ items.getLast?, item.scanned = none)

include hitems hend

end

/-! ## Without marks of whitespace control -/

section

variable {s t : String} {source : Option String} {items more : List Item} {a b : Template}
  (ha : Template.parse s source false = .ok a) (hb : Template.parse t source false = .ok b)
  (hitems : Item.readAll .origin s.toList = .ok items)
  (hmore : Item.readAll .origin t.toList = .ok more)
  (hend : ∀ item ∈ items.getLast?, item.scanned = none)
  (hunmarked : Unmarked items) (hunmarked' : Unmarked more)

include ha hb hitems hmore hend hunmarked hunmarked'

end

end Stache
