/-
  The partials that a template refers to by name.

  A partial call or a partial block whose callee is a path counts, once for each time it stands in
  the tree. The body that a partial block hands to its partial, `@partial-block`, is no partial of
  its own, and neither is a callee that is only known when the template runs. A section is searched
  after the call that it belongs to, a block's main section before its inverse one.
-/
import Stache.Template.Syntax

namespace Stache

/-- The name that the callee of a partial refers to, if it is one to be looked up. -/
def Call.partialName (c : Call) : List String :=
  match c.callee with
  | .path p => if p.written = Path.enclosingBlock then [] else [p.written]
  | _ => []

mutual

/-- The names in a statement, in the order of the search. -/
def Statement.partialNames : Statement → List String
  | .content _ | .comment _ _ _ | .mustache _ _ _ _ | .decorator _ _ _ => []
  | .partialCall call _ _ _ => call.partialName
  | .partialBlock call body _ _ _ => call.partialName ++ body.partialNames
  | .decoratorBlock _ body _ _ _ => body.partialNames
  | .block _ main inverse _ _ => sectionPartialNames main ++ sectionPartialNames inverse

/-- The names in a program. -/
def Program.partialNames : Program → List String
  | ⟨body, _, _, _⟩ => bodyPartialNames body

/-- The names in a section that may be missing. -/
def sectionPartialNames : Option Program → List String
  | none => []
  | some p => p.partialNames

/-- The names in the statements of a body. -/
def bodyPartialNames : List Statement → List String
  | [] => []
  | s :: rest => s.partialNames ++ bodyPartialNames rest

end

/-- The names in a template. -/
def Template.partialNames (t : Template) : List String := t.root.partialNames

end Stache
