/-
  Whitespace control in place.

  The sections of a block are settled first, each by the loop of the module before this one, and
  then trimmed on behalf of the tags between them.  For an else section that is chained, what stands
  next to those tags is inside the block that it holds:

    1. behind the else tag, it is the main section of the first statement (`firstInverse`);
    2. before the close tag, it is the main section of the last statement, and so on for as long as
       the section found is chained itself (`onLastInverse`).

  Either way the statement is looked at twice, first to see whether it is such a block and then to
  get its section, and the second time nothing else may turn up.  Whether the walk in (2) ends with
  the section in (1), as a pass that takes the tree apart has it, depends on the tree: a chained
  section must hold nothing but that block (`Program.Links`).

  Blocks are entered no deeper than the tree is (`Program.depth`).
-/
import Stache.Proofs.Checked.Bodies
import Stache.Proofs.Nesting.Statements
import Stache.Proofs.Whitespace.Granting

namespace Stache

/-! ## Depth -/

mutual

/-- How deep the programs in a statement are nested. -/
def Statement.depth : Statement → Nat
  | .block _ main inverse _ _ => max (sectionDepth main) (sectionDepth inverse)
  | .partialBlock _ body _ _ _ | .decoratorBlock _ body _ _ _ => body.depth
  | .content _ | .comment _ _ _ | .mustache _ _ _ _ | .partialCall _ _ _ _ | .decorator _ _ _ => 0

/-- How deep programs are nested. -/
def Program.depth : Program → Nat
  | ⟨body, _, _, _⟩ => bodyDepth body + 1

/-- The same in a section that may be missing, -/
def sectionDepth : Option Program → Nat
  | none => 0
  | some p => p.depth

/-- and in a row. -/
def bodyDepth : List Statement → Nat
  | [] => 0
  | s :: rest => max s.depth (bodyDepth rest)

end

/-- A section is less deep than the statement with it. -/
theorem depth_le_of_mem_sections {s : Statement} {p : Program} (h : p ∈ s.sections) :
    p.depth ≤ s.depth := by
  have hsection : ∀ section? : Option Program, p ∈ section?.toList →
      p.depth ≤ sectionDepth section? := by
    intro section? hp
    obtain rfl := Option.mem_toList.mp hp
    exact Nat.le_refl _
  cases s with
  | block call main inverse strip span =>
    rw [Statement.depth]
    rcases List.mem_append.mp h with h | h
    · have := hsection main h
      omega
    · have := hsection inverse h
      omega
  | partialBlock call body opening closing span | decoratorBlock call body opening closing span =>
    obtain rfl := List.mem_singleton.mp h
    exact Nat.le_refl _
  | content | comment | mustache | partialCall | decorator => cases h

/-- A statement is no deeper than the row that it is in. -/
theorem depth_le_of_mem {s : Statement} {body : List Statement} (h : s ∈ body) :
    s.depth ≤ bodyDepth body := by
  induction body with
  | nil => cases h
  | cons t body ih =>
    rw [bodyDepth]
    rcases List.mem_cons.mp h with rfl | h
    · omega
    · have := ih h
      omega

/-- The programs of a section are among those of the statement, -/
theorem family_subset_of_mem_sections {s : Statement} {p : Program} (h : p ∈ s.sections) :
    p.family ⊆ s.programs := by
  have hsection : ∀ section? : Option Program, p ∈ section?.toList →
      p.family ⊆ sectionPrograms section? := by
    intro section? hp
    obtain rfl := Option.mem_toList.mp hp
    exact List.Subset.refl _
  cases s with
  | block call main inverse strip span =>
    rw [Statement.programs]
    rcases List.mem_append.mp h with h | h
    · exact List.subset_append_of_subset_left _ (hsection main h)
    · exact List.subset_append_of_subset_right _ (hsection inverse h)
  | partialBlock call body opening closing span | decoratorBlock call body opening closing span =>
    obtain rfl := List.mem_singleton.mp h
    exact List.Subset.refl _
  | content | comment | mustache | partialCall | decorator => cases h

/-- and those among the programs of the row. -/
theorem mem_bodyPrograms {s : Statement} {body : List Statement} {p : Program} (hs : s ∈ body)
    (hp : p ∈ s.programs) : p ∈ bodyPrograms body := by
  induction body with
  | nil => cases hs
  | cons t body ih =>
    rw [bodyPrograms, List.mem_append]
    rcases List.mem_cons.mp hs with rfl | hs
    · exact .inl hp
    · exact .inr (ih hs)

/-! ## The shape of a tree -/

/-- What a statement of a tree is before whitespace control. -/
def Statement.Fits : Statement → Prop
  | .partialCall _ indent _ _ => indent = ""
  | .block _ (some _) (some inverse) _ _ => inverse.Links
  | _ => True

namespace Program.Links

variable {p : Program}

/-- A chained section stays linked when its face is trimmed. -/
theorem onFace (h : p.Links) (f : List Statement → List Statement) : (p.onFace f).Links := by
  obtain ⟨body, params, chained, span⟩ := p
  intro hchained
  cases chained with
  | false => cases hchained
  | true =>
    obtain ⟨call, main, inverse, strip, around, hbody, hmain⟩ := h rfl
    obtain rfl : body = _ := hbody
    exact ⟨call, main.onBody f, inverse, strip, around, rfl, hmain⟩

/-- What is done to the body right after the else tag is done to it and to nothing else. -/
theorem face_onFace (h : p.Links) (f : List Statement → List Statement) :
    (p.onFace f).face = f p.face := by
  obtain ⟨body, params, chained, span⟩ := p
  cases chained with
  | false => rfl
  | true =>
    obtain ⟨call, main, inverse, strip, around, hbody, hmain⟩ := h rfl
    obtain rfl : body = _ := hbody
    rfl

/-- A section that is trimmed stays one of that shape. -/
theorem trimmedTo {p' : Program} (h : p.Links) (htrim : p.TrimmedTo p') : p'.Links := by
  obtain ⟨params, chained, span, hbody'⟩ := htrim
  intro hchained
  obtain ⟨call, main, inverse, strip, around, hbody, hmain⟩ := h hchained
  obtain rfl : _ = [_] := hbody
  cases hbody' with
  | cons hs hrest =>
    cases hrest
    cases hs with
    | block call strip around hsection hsection' =>
      cases hsection with
      | some htrim =>
        obtain ⟨params', chained', span', hinner⟩ := htrim
        exact ⟨call, _, _, strip, around, rfl, hmain⟩

end Program.Links

namespace Checked

/-! ## Chains -/

/-- Whether a section is that of an else tag with a call of its own, and has the block of that call
    at one of its ends. -/
def continuesChain (p : Program) (last : Bool) : Bool :=
  p.chained && match (if last then p.body.getLast? else p.body.head?) with
    | some (.block _ (some _) _ _ _) => true
    | _ => false

/-- The body that begins right after an else tag. -/
def firstInverse (p : Program) : Checked (List Statement) :=
  if continuesChain p false then
    match p.body.head? with
    | some (.block _ (some main) _ _ _) => return main.body
    | _ => stuck .unreachable
  else return p.body

/-- Changes the body that begins right after an else tag. -/
def onFirstInverse (f : List Statement → List Statement) (p : Program) : Checked Program :=
  if continuesChain p false then
    match p.body with
    | .block call (some main) inverse strip span :: rest =>
      return { p with body := .block call (some (main.onBody f)) inverse strip span :: rest }
    | _ => stuck .unreachable
  else return p.onBody f

/-- Changes the body that ends right before the close tag of a chain. -/
def onLastInverse (f : List Statement → List Statement) (p : Program) : Checked Program :=
  if continuesChain p true then
    match _hlast : p.body.getLast? with
    | some (.block call (some main) inverse strip span) => do
      let main ← onLastInverse f main
      return { p with body := p.body.dropLast ++ [.block call (some main) inverse strip span] }
    | _ => stuck .unreachable
  else return p.onBody f
termination_by sizeOf p
decreasing_by
  have hmem := List.sizeOf_lt_of_mem (List.mem_of_getLast? _hlast)
  obtain ⟨body, params, chained, around⟩ := p
  simp only [Statement.block.sizeOf_spec, Option.some.sizeOf_spec] at hmem
  simp only [Program.mk.sizeOf_spec]
  omega

/-! ## Sections -/

section Settle

variable (standalone : Bool)

/-- What a block asks for whose first section is `first` and whose last one is `last`. -/
def blockDemand (strip : BlockStrip) (first last : List Statement) : Demand :=
  ⟨⟨strip.opening.opening, strip.closing.closing⟩, false, startsLineAt false 0 first,
    endsLineBefore false last.length last⟩

/-- A trim that may not be wanted. -/
def whenever (wanted : Bool) (f : List Statement → List Statement) (p : Program) : Program :=
  if wanted then p.onBody f else p

/-- Settles the only section of a block. -/
def trimOne (settle : Program → Checked Program) (strip : BlockStrip) (main : Program) :
    Checked (Program × Demand) := do
  let main ← settle main
  let demand := blockDemand strip main.body main.body
  let main := whenever strip.opening.closing (trimAt .all 0) main
  return (whenever strip.closing.opening (trimEndOf .all) main, demand)

/-- Settles the two sections of a block. -/
def trimBoth (settle : Program → Checked Program) (strip : BlockStrip) (main inverse : Program) :
    Checked (Program × Program × Demand) := do
  let main ← settle main
  let inverse ← settle inverse
  let first ← firstInverse inverse
  let demand := blockDemand strip main.body first
  let main := whenever strip.opening.closing (trimAt .all 0) main
  let main := whenever strip.inverse.opening (trimEndOf .all) main
  let inverse ← granted strip.inverse.closing (onFirstInverse (trimAt .all 0)) inverse
  let inverse ← granted strip.closing.opening (onLastInverse (trimEndOf .all)) inverse
  let first ← firstInverse inverse
  let alone := standalone && endsLineBefore false main.body.length main.body
    && startsLineAt false 0 first
  let inverse ← granted alone (onFirstInverse (trimAt .line 0)) inverse
  return (whenever alone (trimEndOf .line) main, inverse, demand)

/-- Settles a statement.  Content asks for nothing. -/
def trimStatement (settle : Program → Checked Program) :
    Statement → Checked (Statement × Option Demand)
  | .content c => return (.content c, none)
  | .comment text strip span => return (.comment text strip span, some ⟨strip, true, false, false⟩)
  | .mustache call escaped strip span =>
    return (.mustache call escaped strip span, some (.ofStrip strip))
  | .partialCall call indent strip span =>
    return (.partialCall call indent strip span, some ⟨strip, true, false, false⟩)
  | .decorator call strip span => return (.decorator call strip span, some (.ofStrip strip))
  -- only here two sections have a tag between them
  | .block call (some main) (some inverse) strip span => do
    let (main, inverse, demand) ← trimBoth standalone settle strip main inverse
    return (.block call (some main) (some inverse) strip span, some demand)
  | .block call (some main) none strip span => do
    let (main, demand) ← trimOne settle strip main
    return (.block call (some main) none strip span, some demand)
  | .block call none (some inverse) strip span => do
    let (inverse, demand) ← trimOne settle strip inverse
    return (.block call none (some inverse) strip span, some demand)
  | .block call none none strip span =>
    return (.block call none none strip span,
      some (.ofStrip ⟨strip.opening.opening, strip.closing.closing⟩))
  | .partialBlock call body opening closing span => do
    let (body, demand) ← trimOne settle ⟨opening, .none, closing⟩ body
    return (.partialBlock call body opening closing span, some demand)
  | .decoratorBlock call body opening closing span => do
    let (body, demand) ← trimOne settle ⟨opening, .none, closing⟩ body
    return (.decoratorBlock call body opening closing span, some demand)

/-- Settles a program that is nested no deeper than `depth`. -/
def trimProgram : Nat → Bool → Program → Checked Program
  | 0, _, _ => stuck .standstill
  | depth + 1, atTop, p => do
    let settle := trimStatement standalone (trimProgram depth false)
    let body ← (List.range p.body.length).foldlM (turn standalone atTop settle) p.body
    return { p with body }

end Settle

/-! ## The same chains -/

/-- What comes behind the else tag is the face of the section. -/
theorem firstInverse_eq (p : Program) : firstInverse p = .ok p.face := by
  obtain ⟨body, params, chained, span⟩ := p
  cases chained with
  | false => rfl
  | true =>
    cases body with
    | nil => rfl
    | cons s rest =>
      cases s with
      | block call main inverse strip span => cases main <;> rfl
      | _ => rfl

/-- So that is trimmed there. -/
theorem onFirstInverse_eq (f : List Statement → List Statement) (p : Program) :
    onFirstInverse f p = .ok (p.onFace f) := by
  obtain ⟨body, params, chained, span⟩ := p
  cases chained with
  | false => rfl
  | true =>
    cases body with
    | nil => rfl
    | cons s rest =>
      cases s with
      | block call main inverse strip span => cases main <;> rfl
      | _ => rfl

/-- **The walk ends where the else section begins**, if its blocks are linked. -/
theorem onLastInverse_eq (f : List Statement → List Statement) {p : Program} (h : p.Links) :
    onLastInverse f p = .ok (p.onFace f) := by
  obtain ⟨body, params, chained, span⟩ := p
  cases chained with
  | false =>
    rw [onLastInverse]
    rfl
  | true =>
    -- the block is the only statement of the section, hence the last one, and its section is not
    -- chained
    obtain ⟨call, main, inverse, strip, around, hbody, hmain⟩ := h rfl
    obtain rfl : body = _ := hbody
    obtain ⟨inner, params', chained', span'⟩ := main
    obtain rfl : chained' = false := hmain
    have hinner : onLastInverse f ⟨inner, params', false, span'⟩
        = .ok (Program.onBody f ⟨inner, params', false, span'⟩) := by
      rw [onLastInverse]
      rfl
    rw [onLastInverse]
    refine Eq.trans (if_pos rfl) ?_
    split
    · rename_i hlast
      cases hlast
      rw [hinner]
      rfl
    · rename_i hother
      exact (hother _ _ _ _ _ rfl).elim

/-! ## The same sections -/

theorem whenever_eq (wanted : Bool) (f : List Statement → List Statement) (p : Program) :
    whenever wanted f p = p.onBody (fun body => if wanted then f body else body) := by
  cases wanted with
  | false => exact (Program.onBody_id p).symm
  | true => rfl

/-- The same behind the else tag, -/
theorem granted_onFirstInverse (wanted : Bool) (f : List Statement → List Statement) (p : Program) :
    granted wanted (onFirstInverse f) p
      = .ok (p.onFace fun body => if wanted then f body else body) := by
  cases wanted with
  | false => exact congrArg Except.ok (Program.onFace_id p).symm
  | true => exact onFirstInverse_eq f p

/-- and before the close tag. -/
theorem granted_onLastInverse (wanted : Bool) (f : List Statement → List Statement) {p : Program}
    (h : p.Links) :
    granted wanted (onLastInverse f) p
      = .ok (p.onFace fun body => if wanted then f body else body) := by
  cases wanted with
  | false => exact congrArg Except.ok (Program.onFace_id p).symm
  | true => exact onLastInverse_eq f h

section Sections

variable {standalone : Bool} {settle : Program → Checked Program} {strip : BlockStrip}
  {main main' inverse inverse' : Program}

theorem blockDemand_eq (strip : BlockStrip) (first last : List Statement) :
    blockDemand strip first last
      = ⟨⟨strip.opening.opening, strip.closing.closing⟩, false, rowStartsLine false first,
          rowEndsLine false last.reverse⟩ := by
  rw [blockDemand, startsLineAt_zero, endsLineBefore_length]

/-- **One section is settled alike.** -/
theorem trimOne_eq (standalone : Bool) (hmain : settle main = .ok main') :
    trimOne settle strip main
      = .ok ((settleSections standalone strip main' none).1,
          (settleSections standalone strip main' none).2.2) := by
  rw [trimOne, hmain, ok_bind]
  simp only [blockDemand_eq, whenever_eq, trimAt_zero, trimEndOf_eq]
  rfl

/-- **Two sections**, of which the second is a chain of blocks or no chain at all. -/
theorem trimBoth_eq (hmain : settle main = .ok main') (hinverse : settle inverse = .ok inverse')
    (hlinks : inverse'.Links) :
    ∃ second, (settleSections standalone strip main' (some inverse')).2.1 = some second
      ∧ trimBoth standalone settle strip main inverse
        = .ok ((settleSections standalone strip main' (some inverse')).1, second,
            (settleSections standalone strip main' (some inverse')).2.2) := by
  refine ⟨_, rfl, ?_⟩
  -- The tildes are granted first, but what ends or begins a line is seen all the same.
  have hended : ∀ cuts cuts', rowEndsLine false
      ((main'.onBody (cutBody cuts)).onBody (cutBody cuts')).body.reverse
      = rowEndsLine false main'.body.reverse := by
    intro cuts cuts'
    refine rowEndsLine_congr ?_ false
    simp [Program.onBody]
  have hstarted : ∀ cuts cuts', rowStartsLine false (cutBody cuts' (cutBody cuts inverse'.face))
      = rowStartsLine false inverse'.face := by
    intro cuts cuts'
    refine rowStartsLine_congr ?_ false
    simp
  rw [trimBoth, hmain, ok_bind, hinverse, ok_bind, firstInverse_eq, ok_bind]
  simp only [blockDemand_eq, whenever_eq, trimAt_zero, trimEndOf_eq, granted_onFirstInverse, ok_bind,
    granted_onLastInverse _ _ (hlinks.onFace _), firstInverse_eq, endsLineBefore_length,
    startsLineAt_zero, (hlinks.onFace _).face_onFace, hlinks.face_onFace, ite_trimFirst, ite_trimLast,
    hended, hstarted, settleSections]
  rfl

end Sections

/-! ## The same statements and programs -/

section Programs

variable {standalone : Bool} {settle : Program → Checked Program} {s : Statement}

/-- A statement is settled the same if its sections are. -/
theorem trimStatement_eq (hs : ¬ s.IsContent) (hfits : s.Fits)
    (hsettle : ∀ p ∈ s.sections, settle p = .ok (p.settle standalone false)) :
    trimStatement standalone settle s
      = .ok ((s.settle standalone).1, some (s.settle standalone).2) := by
  cases s with
  | content c => exact (hs trivial).elim
  | comment | mustache | partialCall | decorator => rfl
  | block call main inverse strip span =>
    cases main with
    | some main =>
      have hmain := hsettle main (by simp [Statement.sections])
      cases inverse with
      | some inverse =>
        have hinverse := hsettle inverse (by simp [Statement.sections])
        -- whitespace control keeps the links of a chained section
        have hlinks : (inverse.settle standalone false).Links :=
          Program.Links.trimmedTo hfits (Program.trimmedTo_settle standalone false inverse)
        obtain ⟨second, hsecond, hboth⟩ := trimBoth_eq hmain hinverse hlinks
        rw [trimStatement, hboth, ok_bind, Statement.settle, settleSection]
        dsimp only
        rw [hsecond]
        rfl
      | none =>
        rw [trimStatement, trimOne_eq standalone hmain, ok_bind]
        rfl
    | none =>
      cases inverse with
      | some inverse =>
        rw [trimStatement, trimOne_eq standalone (hsettle inverse (by simp [Statement.sections])),
          ok_bind]
        rfl
      | none => rfl
  | partialBlock call body opening closing span =>
    rw [trimStatement, trimOne_eq standalone (hsettle body (List.mem_singleton_self body)), ok_bind]
    rfl
  | decoratorBlock call body opening closing span =>
    rw [trimStatement, trimOne_eq standalone (hsettle body (List.mem_singleton_self body)), ok_bind]
    rfl

/-- Being settled tells no statement of an indentation. -/
theorem unindented_settle (h : s.Fits) : (s.settle standalone).1.Unindented := by
  cases s with
  | partialCall call indent strip span =>
    obtain rfl : indent = "" := h
    rfl
  | block call main inverse strip span => cases main <;> cases inverse <;> rfl
  | content | comment | mustache | decorator | partialBlock | decoratorBlock => rfl

/-- **The loop over a body.**  The statements before the index are settled, and the next one has
    undergone the trims that were carried to it. -/
theorem foldlM_turn (atTop : Bool) {before rest : List Statement} {carried : List Extent}
    (hrest : ∀ s ∈ rest, s.Fits ∧ ∀ p ∈ s.sections, settle p = .ok (p.settle standalone false)) :
    (List.range' before.length rest.length).foldlM
        (turn standalone atTop (trimStatement standalone settle))
        (before.reverse ++ carry carried rest)
      = .ok (settleBody standalone atTop before carried rest) := by
  induction rest generalizing before carried with
  | nil =>
    rw [carry_empty, settleBody, List.append_nil]
    rfl
  | cons s rest ih =>
    obtain ⟨⟨hfits, hsettle⟩, hmore⟩ := List.forall_mem_cons.mp hrest
    rw [List.length_cons, List.range'_succ, List.foldlM_cons]
    -- content only undergoes what the statements before it have asked
    by_cases hs : s.IsContent
    · cases s with
      | content c =>
        have hnext := @ih (.content (carried.foldl Content.trimStart c) :: before) [] hmore
        rw [List.reverse_cons, List.append_assoc] at hnext
        rw [carry_content, turn_none standalone atTop rfl rfl, ok_bind, settleBody]
        exact hnext
      | _ => cases hs
    · rw [carry_of_not_content carried hs,
        turn_some standalone atTop (trimStatement_eq hs hfits hsettle) (unindented_settle hfits) rfl,
        ok_bind, settleBody_cons_of_not_content hs]
      obtain ⟨placed, hplaced⟩ : ∃ placed, place standalone atTop before rest (s.settle standalone).1
          (s.settle standalone).2 = placed := ⟨_, rfl⟩
      -- the next index is right, since no statement was added or taken away
      have hlength : placed.before.length = before.length := by
        rw [← hplaced]
        exact length_eq_of_skeleton_eq (skeleton_place ..)
      have hnext := @ih (placed.statement :: placed.before) placed.carried hmore
      rw [List.reverse_cons, List.append_assoc, List.length_cons, hlength] at hnext
      rw [hplaced]
      exact hnext

/-- **A program is settled in place as it is statement by statement**, if its statements have the
    shape that a tree is read in. -/
theorem trimProgram_eq {depth : Nat} {p : Program} (atTop : Bool) (hdepth : p.depth ≤ depth)
    (hfits : RowForall Statement.Fits p.body) :
    trimProgram standalone depth atTop p = .ok (p.settle standalone atTop) := by
  -- the depth goes down by one with every section entered
  induction depth generalizing p atTop with
  | zero =>
    obtain ⟨body, params, chained, span⟩ := p
    rw [Program.depth] at hdepth
    omega
  | succ depth ih =>
    obtain ⟨body, params, chained, span⟩ := p
    have hbody : bodyDepth body ≤ depth := by
      rw [Program.depth] at hdepth
      omega
    have hrest : ∀ s ∈ body, s.Fits ∧ ∀ p ∈ s.sections,
        trimProgram standalone depth false p = .ok (p.settle standalone false) := by
      intro s hs
      refine ⟨hfits.statements s hs, ?_⟩
      intro p hp
      refine ih false ?_ ?_
      · have := depth_le_of_mem_sections hp
        have := depth_le_of_mem hs
        omega
      · refine forall_family_iff.mp fun q hq => ?_
        exact hfits.programs q (mem_bodyPrograms hs (family_subset_of_mem_sections hp hq))
    have hloop := @foldlM_turn standalone (trimProgram standalone depth false) atTop [] body [] hrest
    rw [trimProgram, List.range_eq_range', Program.settle]
    exact congrArg (· >>= _) hloop

end Programs

end Checked

end Stache
