/-
  Whitespace control does not look at positions.

  A tree whose positions have been taken to other ones, by whatever map, is trimmed as the tree is
  (`Program.settle_moved`).  What whitespace control asks about a body it asks about texts and
  tildes, so the answers are the same, and what it does to a body goes along with the map
  (`Placeless`).  These two facts are carried from a body to a section, to a statement among its
  neighbours (`place_moved`), and from the leaves of the tree to its root.
-/
import Stache.Proofs.Nesting.Moved
import Stache.Proofs.Whitespace.Trimming

namespace Stache

variable {f : Position → Position}

/-! ## Content -/

namespace Content

variable (c : Content) (extent : Extent)

theorem trimStart_moved : (c.moved f).trimStart extent = (c.trimStart extent).moved f := by
  simp only [trimStart, apply_ite (Content.moved f)]
  rfl

theorem trimEnd_moved : (c.moved f).trimEnd extent = (c.trimEnd extent).moved f := by
  simp only [trimEnd, apply_ite (Content.moved f)]
  rfl

theorem indent_moved : (c.moved f).indent = c.indent := by
  rw [indent, indent, trimEnd_moved]
  rfl

theorem foldl_trimStart_moved (extents : List Extent) :
    extents.foldl trimStart (c.moved f) = (extents.foldl trimStart c).moved f := by
  induction extents generalizing c with
  | nil => rfl
  | cons e extents ih => rw [List.foldl_cons, List.foldl_cons, trimStart_moved, ih]

end Content

/-! ## Bodies -/

/-- The change of a body goes along with a map of the positions in it. -/
def Placeless (f : Position → Position) (change : List Statement → List Statement) : Prop :=
  ∀ body, change (movedBody f body) = movedBody f (change body)

/-- Trims of a body are placeless: of its first statement, -/
theorem trimFirst_moved (extent : Extent) : Placeless f (trimFirst extent) := by
  intro body
  cases body with
  | nil => rfl
  | cons s rest =>
    cases s with
    | content c =>
      exact congrArg (fun c => Statement.content c :: movedBody f rest) (c.trimStart_moved extent)
    | _ => rfl

/-- of the latest, -/
theorem trimLatest_moved (extent : Extent) : Placeless f (trimLatest extent) := by
  intro before
  cases before with
  | nil => rfl
  | cons s more =>
    cases s with
    | content c =>
      exact congrArg (fun c => Statement.content c :: movedBody f more) (c.trimEnd_moved extent)
    | _ => rfl

/-- and of the last. -/
theorem trimLast_moved (extent : Extent) : Placeless f (trimLast extent) := by
  intro body
  rw [trimLast, ← movedBody_reverse, trimLatest_moved extent, ← movedBody_reverse]
  rfl

/-- A change that is made only if it is wanted. -/
theorem Placeless.ifWanted {change : List Statement → List Statement} (h : Placeless f change)
    (wanted : Bool) : Placeless f (fun body => if wanted then change body else body) := by
  intro body
  cases wanted with
  | false => rfl
  | true => exact h body

/-- What is asked of a body is placeless as well: whether it is empty, -/
theorem isEmpty_movedBody (body : List Statement) : (movedBody f body).isEmpty = body.isEmpty := by
  cases body <;> rfl

/-- whether it ends a line, -/
theorem rowEndsLine_moved (atTop : Bool) (before : List Statement) :
    rowEndsLine atTop (movedBody f before) = rowEndsLine atTop before := by
  cases before with
  | nil => rfl
  | cons s more =>
    cases s with
    | content c =>
      show Text.endsLine (atTop && (movedBody f more).isEmpty) _ = _
      rw [isEmpty_movedBody]
      rfl
    | _ => rfl

/-- or starts one, -/
theorem rowStartsLine_moved (atTop : Bool) (after : List Statement) :
    rowStartsLine atTop (movedBody f after) = rowStartsLine atTop after := by
  cases after with
  | nil => rfl
  | cons s more =>
    cases s with
    | content c =>
      show Text.startsLine (atTop && (movedBody f more).isEmpty) _ = _
      rw [isEmpty_movedBody]
      rfl
    | _ => rfl

/-- and which indentation it leaves. -/
theorem latestIndent_moved (before : List Statement) :
    latestIndent (movedBody f before) = latestIndent before := by
  cases before with
  | nil => rfl
  | cons s more =>
    cases s with
    | content c => exact c.indent_moved
    | _ => rfl

/-! ## Sections -/

section

variable {change : List Statement → List Statement} (h : Placeless f change)

include h

/-- A placeless change of a program, -/
theorem Program.onBody_moved (p : Program) :
    (p.moved f).onBody change = (p.onBody change).moved f := by
  obtain ⟨body, params, chained, span⟩ := p
  exact congrArg (fun body => Program.mk body params chained (span.moved f)) (h body)

/-- The face of a section is part of it, wherever the section stands. -/
theorem Program.onFace_moved (p : Program) :
    (p.moved f).onFace change = (p.onFace change).moved f := by
  obtain ⟨body, params, chained, span⟩ := p
  have hbody := Program.onBody_moved h ⟨body, params, chained, span⟩
  match chained, body with
  | false, _ => exact hbody
  | true, [] => exact hbody
  | true, s :: rest =>
    cases s with
    | block call main inverse strip around =>
      cases main with
      | none => exact hbody
      | some main =>
        simp only [onFace, Program.moved, movedBody, Statement.moved, movedSection,
          ← main.onBody_moved h]
    | _ => exact hbody

/-- of the first section of a statement, -/
theorem Statement.onLeading_moved (s : Statement) :
    (s.moved f).onLeading change = (s.onLeading change).moved f := by
  cases s with
  | block call main inverse strip span =>
    cases main with
    | some main =>
      simp only [onLeading, Statement.moved, movedSection, ← main.onBody_moved h]
    | none =>
      cases inverse with
      | some inverse =>
        simp only [onLeading, Statement.moved, movedSection, Option.map_some,
          ← inverse.onBody_moved h]
      | none => rfl
  | partialBlock call body opening closing span =>
    simp only [onLeading, Statement.moved, ← body.onBody_moved h]
  | decoratorBlock call body opening closing span =>
    simp only [onLeading, Statement.moved, ← body.onBody_moved h]
  | content | comment | mustache | partialCall | decorator => rfl

/-- or of the last one. -/
theorem Statement.onTrailing_moved (s : Statement) :
    (s.moved f).onTrailing change = (s.onTrailing change).moved f := by
  cases s with
  | block call main inverse strip span =>
    cases inverse with
    | some inverse =>
      simp only [onTrailing, Statement.moved, movedSection, ← inverse.onBody_moved h]
    | none =>
      cases main with
      | some main =>
        simp only [onTrailing, Statement.moved, movedSection, Option.map_some,
          ← main.onBody_moved h]
      | none => rfl
  | partialBlock call body opening closing span =>
    simp only [onTrailing, Statement.moved, ← body.onBody_moved h]
  | decoratorBlock call body opening closing span =>
    simp only [onTrailing, Statement.moved, ← body.onBody_moved h]
  | content | comment | mustache | partialCall | decorator => rfl

end

/-- The body of a program that has moved, -/
theorem Program.body_moved (p : Program) : (p.moved f).body = movedBody f p.body := by
  cases p
  rfl

/-- and the body that a chain shows. -/
theorem Program.face_moved (p : Program) : (p.moved f).face = movedBody f p.face := by
  obtain ⟨body, params, chained, span⟩ := p
  match chained, body with
  | false, _ => rfl
  | true, [] => rfl
  | true, s :: rest =>
    cases s with
    | block call main inverse strip around =>
      cases main with
      | none => rfl
      | some main => exact main.body_moved
    | _ => rfl

theorem Statement.withIndent_moved (indent : String) (s : Statement) :
    (s.moved f).withIndent indent = (s.withIndent indent).moved f := by
  cases s <;> rfl

/-- **The sections of a block** are settled alike, and the block asks for the same. -/
theorem settleSections_moved (standalone : Bool) (strip : BlockStrip) (main : Program)
    (inverse : Option Program) :
    settleSections standalone strip (main.moved f) (movedSection f inverse)
      = ((settleSections standalone strip main inverse).1.moved f,
          movedSection f (settleSections standalone strip main inverse).2.1,
          (settleSections standalone strip main inverse).2.2) := by
  have hfirst (extent : Extent) (wanted : Bool) := (trimFirst_moved (f := f) extent).ifWanted wanted
  have hlast (extent : Extent) (wanted : Bool) := (trimLast_moved (f := f) extent).ifWanted wanted
  cases inverse with
  | none =>
    simp only [settleSections, movedSection, Program.onBody_moved (hfirst _ _),
      Program.onBody_moved (hlast _ _), Program.body_moved, ← movedBody_reverse, rowEndsLine_moved,
      rowStartsLine_moved]
  | some second =>
    simp only [settleSections, movedSection, Program.onBody_moved (hfirst _ _),
      Program.onBody_moved (hlast _ _), Program.onFace_moved (hfirst _ _),
      Program.onFace_moved (hlast _ _), Program.body_moved, Program.face_moved, ← movedBody_reverse,
      rowEndsLine_moved, rowStartsLine_moved]

/-! ## A statement among its neighbours -/

/-- A statement among its neighbours that has moved with them. -/
def Placed.moved (f : Position → Position) (p : Placed) : Placed :=
  ⟨movedBody f p.before, p.statement.moved f, p.carried⟩

/-- What a statement asks for is granted alike. -/
theorem place_moved (standalone atTop : Bool) (before after : List Statement) (s : Statement)
    (demand : Demand) :
    place standalone atTop (movedBody f before) (movedBody f after) (s.moved f) demand
      = (place standalone atTop before after s demand).moved f := by
  -- no step looks at a location, so each commutes with moving
  have hlatest (extent : Extent) (wanted : Bool) (before : List Statement) :
      (if wanted then trimLatest extent (movedBody f before) else movedBody f before)
        = movedBody f (if wanted then trimLatest extent before else before) :=
    (trimLatest_moved extent).ifWanted wanted before
  have hindent (wanted : Bool) (indent : String) (s : Statement) :
      (if wanted then (s.moved f).withIndent indent else s.moved f)
        = (if wanted then s.withIndent indent else s).moved f := by
    rw [Statement.withIndent_moved]
    exact (apply_ite (Statement.moved f) _ _ _).symm
  have hleading (wanted : Bool) (s : Statement) :
      (if wanted then (s.moved f).onLeading (trimFirst .line) else s.moved f)
        = (if wanted then s.onLeading (trimFirst .line) else s).moved f := by
    rw [Statement.onLeading_moved (trimFirst_moved .line)]
    exact (apply_ite (Statement.moved f) _ _ _).symm
  have htrailing (wanted : Bool) (s : Statement) :
      (if wanted then (s.moved f).onTrailing (trimLast .line) else s.moved f)
        = (if wanted then s.onTrailing (trimLast .line) else s).moved f := by
    rw [Statement.onTrailing_moved (trimLast_moved .line)]
    exact (apply_ite (Statement.moved f) _ _ _).symm
  simp only [place, Placed.moved, rowEndsLine_moved, rowStartsLine_moved, hlatest,
    latestIndent_moved,
    hindent, hleading, htrailing]

/-! ## The whole pass -/

mutual

/-- **A statement is settled wherever it is**, -/
theorem Statement.settle_moved (standalone : Bool) (s : Statement) :
    (s.moved f).settle standalone
      = ((s.settle standalone).1.moved f, (s.settle standalone).2) := by
  -- the recursion is on the tree, for statements, sections and bodies together
  match s with
  | .content _ | .comment _ _ _ | .mustache _ _ _ _ | .partialCall _ _ _ _ | .decorator _ _ _ => rfl
  | .block call (some main) inverse strip span =>
    simp only [Statement.moved, movedSection, Statement.settle, main.settle_moved,
      settleSection_moved, settleSections_moved]
  | .block call none (some inverse) strip span =>
    have hsections := settleSections_moved (f := f) standalone strip (inverse.settle standalone false)
      none
    simp only [Statement.moved, movedSection, Statement.settle, inverse.settle_moved] at hsections ⊢
    rw [hsections]
  | .block call none none strip span => rfl
  | .partialBlock call body opening closing span
  | .decoratorBlock call body opening closing span =>
    have hsections := settleSections_moved (f := f) standalone ⟨opening, .none, closing⟩
      (body.settle standalone false) none
    simp only [Statement.moved, movedSection, Statement.settle, body.settle_moved] at hsections ⊢
    rw [hsections]

/-- **A program is settled** in the same way wherever its positions are. -/
theorem Program.settle_moved (standalone atTop : Bool) (p : Program) :
    (p.moved f).settle standalone atTop = (p.settle standalone atTop).moved f := by
  match p with
  | ⟨body, params, chained, span⟩ =>
    have hbody := settleBody_moved standalone atTop [] [] body
    simp only [Program.moved, Program.settle]
    rw [← hbody]
    rfl

theorem settleSection_moved (standalone : Bool) (section? : Option Program) :
    settleSection standalone (movedSection f section?)
      = movedSection f (settleSection standalone section?) := by
  match section? with
  | none => rfl
  | some p => simp only [movedSection, settleSection, p.settle_moved]

/-- The statements before have moved already, and the trims that are carried have no positions. -/
theorem settleBody_moved (standalone atTop : Bool) (before : List Statement)
    (carried : List Extent) (body : List Statement) :
    settleBody standalone atTop (movedBody f before) carried (movedBody f body)
      = movedBody f (settleBody standalone atTop before carried body) := by
  match body with
  | [] => exact (movedBody_reverse f before).symm
  | s :: rest =>
    have hs := s.settle_moved standalone
    -- content is trimmed, and anything else is placed
    by_cases hcontent : s.IsContent
    · cases s with
      | content c =>
        have hrest := settleBody_moved standalone atTop
          (.content (carried.foldl Content.trimStart c) :: before) [] rest
        rw [movedBody, Statement.moved, settleBody, settleBody, Content.foldl_trimStart_moved]
        exact hrest
      | _ => cases hcontent
    · have hcontent' : ¬ (s.moved f).IsContent := by
        cases s with
        | content c => exact fun _ => hcontent trivial
        | _ => exact id
      rw [movedBody, settleBody_cons_of_not_content hcontent',
        settleBody_cons_of_not_content hcontent, hs, place_moved]
      exact settleBody_moved standalone atTop (_ :: _) _ rest

end

end Stache
