/-
  What whitespace control leaves as it is.

  Of a tree it may change the texts of contents, with their marks, and the indentation of partials.
  A tree without these is ERASED (`Program.erased`).  A tree and the same tree trimmed are equal
  once they are erased, so the pass as a whole leaves the erased tree as it is
  (`Program.erased_trimmed`).
-/
import Stache.Proofs.Whitespace.Trimming

namespace Stache

/-! ## Erasing -/

mutual

/-- The statement without what whitespace control may change. -/
def Statement.erased : Statement → Statement
  | .content c => .content { c with value := "", startTrimmed := false, endTrimmed := false }
  | .comment text strip span => .comment text strip span
  | .mustache call escaped strip span => .mustache call escaped strip span
  | .partialCall call _ strip span => .partialCall call "" strip span
  | .decorator call strip span => .decorator call strip span
  | .block call main inverse strip span =>
    .block call (erasedSection main) (erasedSection inverse) strip span
  | .partialBlock call body opening closing span =>
    .partialBlock call body.erased opening closing span
  | .decoratorBlock call body opening closing span =>
    .decoratorBlock call body.erased opening closing span

/-- A program without what whitespace control may change, -/
def Program.erased : Program → Program
  | ⟨body, params, chained, span⟩ => ⟨erasedBody body, params, chained, span⟩

/-- and so a section, -/
def erasedSection : Option Program → Option Program
  | none => none
  | some p => some p.erased

/-- and a body. -/
def erasedBody : List Statement → List Statement
  | [] => []
  | s :: rest => s.erased :: erasedBody rest

end

theorem erasedBody_eq_map (body : List Statement) :
    erasedBody body = body.map Statement.erased := by
  induction body with
  | nil => rfl
  | cons s body ih => rw [erasedBody, ih, List.map_cons]

/-! ## Trimming -/

mutual

/-- A statement that is trimmed is the same once erased, -/
theorem Statement.TrimmedTo.erased_eq {before : Option String} {s s' : Statement}
    (h : s.TrimmedTo before s') : s'.erased = s.erased := by
  match h with
  | .content ⟨_, hwritten, hspan⟩ =>
    simp only [Statement.erased, hwritten, hspan]
  | .comment .. | .mustache .. | .partialCall .. | .decorator .. => rfl
  | .block _ _ _ hmain hinverse =>
    simp only [Statement.erased, hmain.erased_eq, hinverse.erased_eq]
  | .partialBlock _ _ _ _ h | .decoratorBlock _ _ _ _ h =>
    simp only [Statement.erased, h.erased_eq]
termination_by structural h

/-- and so is a program, -/
theorem Program.TrimmedTo.erased_eq {p p' : Program} (h : p.TrimmedTo p') :
    p'.erased = p.erased := by
  match h with
  | .mk _ _ _ h => simp only [Program.erased, h.erased_eq]
termination_by structural h

/-- a section, -/
theorem SectionTrimmedTo.erased_eq {p p' : Option Program} (h : SectionTrimmedTo p p') :
    erasedSection p' = erasedSection p := by
  match h with
  | .none => rfl
  | .some h => simp only [erasedSection, h.erased_eq]
termination_by structural h

/-- and a body. -/
theorem BodyTrimmedTo.erased_eq {before : Option String} {body body' : List Statement}
    (h : BodyTrimmedTo before body body') : erasedBody body' = erasedBody body := by
  match h with
  | .nil => rfl
  | .cons h hrest => simp only [erasedBody, h.erased_eq, hrest.erased_eq]
termination_by structural h

end

/-- **Whitespace control changes whitespace only**: the erased tree stays as it is. -/
theorem Program.erased_trimmed (standalone : Bool) (p : Program) :
    (p.trimmed standalone).erased = p.erased :=
  (p.trimmedTo_trimmed standalone).erased_eq

end Stache
