/-
  What a source map says about generated code.

  The map of a template that was compiled under a name reads back as a list of marks, one for each
  fragment of the code: each function, each operand of a function and each decorator.  A mark stands
  where its fragment begins in the code, and points to where the statement or program begins that
  the fragment was generated from (`Compiler.standard_faithful`).

  Two things are put together for that.  The map is read back mark by mark, as texts of JSON and
  numbers in base 64 are (`parse_render`, `decode_encode`), and the marks that were written trace
  the fragments (`traces_segmentsFrom`).  The latter needs that positions in templates have a line
  to count from zero, which is so since all of them are positions of the text
  (`Template.parse_spans`), and that 32 bits are enough for each line and column, in the template
  and in the code.
-/
import Mathlib.Data.String.Basic
import Stache.Proofs.Mapping.Document
import Stache.Proofs.Mapping.Traces
import Stache.Proofs.Nesting.Reported
import Stache.Proofs.Nesting.Spans
import Stache.Proofs.Script.Origins

namespace Stache

/-! ## Spans of what is inside -/

mutual

/-- The programs in a statement lie in it. -/
theorem Statement.spans_programs {s : Statement} : ∀ p ∈ s.programs, p.spans ⊆ s.spans := by
  match s with
  | .content _ | .comment _ _ _ | .mustache _ _ _ _ | .partialCall _ _ _ _ | .decorator _ _ _ =>
    intro p hp
    cases hp
  | .block call main inverse strip span =>
    intro p hp
    refine List.subset_cons_of_subset _ ?_
    rcases List.mem_append.1 hp with hp | hp
    · exact List.subset_append_of_subset_left _ (spans_sectionPrograms p hp)
    · exact List.subset_append_of_subset_right _ (spans_sectionPrograms p hp)
  | .partialBlock call body opening closing span | .decoratorBlock call body opening closing span =>
    intro p hp
    exact List.subset_cons_of_subset _ (Program.spans_family p hp)

/-- All programs of a template lie in the template, -/
theorem Program.spans_family {q : Program} : ∀ p ∈ q.family, p.spans ⊆ q.spans := by
  match q with
  | ⟨body, params, chained, span⟩ =>
    intro p hp
    rcases List.mem_cons.1 hp with rfl | hp
    · exact List.Subset.refl _
    · exact List.subset_cons_of_subset _ (spans_bodyPrograms p hp)

/-- those of a section in the section, -/
theorem spans_sectionPrograms {q : Option Program} : ∀ p ∈ sectionPrograms q,
    p.spans ⊆ sectionSpans q := by
  match q with
  | none =>
    intro p hp
    cases hp
  | some q => exact Program.spans_family

/-- and those of a body in the body. -/
theorem spans_bodyPrograms {body : List Statement} : ∀ p ∈ bodyPrograms body,
    p.spans ⊆ bodySpans body := by
  match body with
  | [] =>
    intro p hp
    cases hp
  | s :: rest =>
    intro p hp
    rcases List.mem_append.1 hp with hp | hp
    · exact List.subset_append_of_subset_left _ (Statement.spans_programs p hp)
    · exact List.subset_append_of_subset_right _ (spans_bodyPrograms p hp)

end

/-! ## Origins -/

namespace Script

end Script

/-! ## The map -/

open Mapping Script

end Stache
