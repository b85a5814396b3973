/-
  Templates without marks of whitespace control.

  With the standalone rule off, only a tilde takes blanks away.  So if no tag has one, settling
  leaves the tree as it is (`Outline.Valid.settleBody_eq`, by recursion on the outline): no
  statement asks anything of its neighbours, and no block trims its own sections.
-/
import Stache.Proofs.Nesting.Elsewhere
import Stache.Proofs.Whitespace.Granting

namespace Stache

/-- No item has a mark of whitespace control. -/
def Unmarked (items : List Item) : Prop := ∀ item ∈ items, item.strip = .none

instance : DecidablePred Unmarked := fun items =>
  inferInstanceAs (Decidable (∀ item ∈ items, item.strip = .none))

theorem unmarked_cons {item : Item} {items : List Item} :
    Unmarked (item :: items) ↔ item.strip = .none ∧ Unmarked items := List.forall_mem_cons

/-- So it is for two rows in one, -/
theorem unmarked_append {items more : List Item} :
    Unmarked (items ++ more) ↔ Unmarked items ∧ Unmarked more := List.forall_mem_append

/-- and in any place. -/
theorem unmarked_elsewhere {items items' : List Item} (h : SameItems items items')
    (hitems : Unmarked items) : Unmarked items' := by
  intro item' hitem'
  have hmem := List.mem_map_of_mem (f := Item.unplaced) hitem'
  rw [h] at hmem
  obtain ⟨item, hitem, heq⟩ := List.mem_map.1 hmem
  rw [Item.strip_eq_of_unplaced heq.symm, hitems item hitem]

/-! ## Without marks -/

/-- A statement that asks for nothing is put where it is. -/
theorem place_of_strip_none (atTop : Bool) (before after : List Statement) (s : Statement)
    {d : Demand} (hd : d.strip = .none) : place false atTop before after s d = ⟨before, s, []⟩ := by
  simp [place, hd, Strip.none]

/-- The marks of a block without tildes. -/
def BlockStrip.none : BlockStrip := ⟨.none, .none, .none⟩

/-- A block without marks asks nothing of its sections. -/
theorem settleSections_unmarked (main : Program) (inverse : Option Program) :
    ∃ d : Demand, d.strip = .none
      ∧ settleSections false .none main inverse = (main, inverse, d) := by
  have hbody := main.onBody_id
  cases inverse with
  | none =>
    refine ⟨⟨.none, false, rowStartsLine false main.body, rowEndsLine false main.body.reverse⟩,
      rfl, ?_⟩
    simp [settleSections, BlockStrip.none, Strip.none, hbody]
  | some inverse =>
    have hface := inverse.onFace_id
    refine ⟨⟨.none, false, rowStartsLine false main.body, rowEndsLine false inverse.face.reverse⟩,
      rfl, ?_⟩
    simp [settleSections, BlockStrip.none, Strip.none, hbody, hface]

/-- A statement that is settled already, and asks for nothing. -/
def Statement.Settled (s : Statement) : Prop :=
  ∃ d : Demand, d.strip = .none ∧ s.settle false = (s, d)

/-- A statement of one item without a mark is settled, -/
theorem Item.Forms.settled {item : Item} {s : Statement} (h : item.Forms s)
    (hstrip : item.strip = .none) : s.Settled := by
  cases h with
  | content h => exact ⟨_, rfl, rfl⟩
  | comment h | mustache h | partialCall h | decorator h =>
    rw [Item.strip, h] at hstrip
    exact ⟨_, hstrip, rfl⟩

/-- and so is a block whose sections are. -/
theorem Opening.settled_wrap (o : Opening) {first : Program} {second : Option Program}
    (hfirst : first.settle false false = first) (hsecond : settleSection false second = second)
    {strip : BlockStrip} (hstrip : strip = .none) (stop : Position) :
    (o.wrap first second strip stop).Settled := by
  subst hstrip
  rw [wrap]
  -- with no tilde and no line to give, no section is cut
  cases o.kind with
  | block =>
    obtain ⟨d, hd, hsections⟩ := settleSections_unmarked first second
    exact ⟨d, hd, by simp only [Statement.settle, hfirst, hsecond, hsections]⟩
  | inverse =>
    cases second with
    | none =>
      obtain ⟨d, hd, hsections⟩ := settleSections_unmarked first none
      exact ⟨d, hd, by simp only [Statement.settle, hfirst, hsections]⟩
    | some second =>
      obtain ⟨d, hd, hsections⟩ := settleSections_unmarked second (some first)
      rw [settleSection, Option.some.injEq] at hsecond
      exact ⟨d, hd, by simp only [Statement.settle, settleSection, hfirst, hsecond, hsections]⟩
  | partialBlock | decoratorBlock =>
    obtain ⟨d, hd, hsections⟩ := settleSections_unmarked first none
    rw [BlockStrip.none] at hsections
    exact ⟨d, hd, by simp only [Statement.settle, BlockStrip.none, hfirst, hsections]⟩

/-! ## Bodies -/

/-- It changes nothing around it. -/
theorem settleBody_cons_settled {s : Statement} (hs : s.Settled) (atTop : Bool)
    (before rest : List Statement) :
    settleBody false atTop before [] (s :: rest)
      = settleBody false atTop (s :: before) [] rest := by
  obtain ⟨d, hd, hsettle⟩ := hs
  cases s with
  | content c => rw [settleBody]; rfl
  | _ =>
    rw [settleBody]
    · simp only [hsettle, place_of_strip_none _ _ _ _ hd]
    · exact nofun

theorem Opening.settle_firstSection (o : Opening) {body : List Statement}
    (hbody : settleBody false false [] [] body = body) (stop : Position) :
    (o.firstSection body stop).settle false false = o.firstSection body stop := by
  rw [firstSection, Program.settle, hbody]

theorem Item.settle_elseSection (mark : Item) (chained : Bool) {body : List Statement}
    (hbody : settleBody false false [] [] body = body) (stop : Position) :
    settleSection false (some (mark.elseSection chained body stop))
      = some (mark.elseSection chained body stop) := by
  rw [elseSection, settleSection, Program.settle, hbody]

mutual

/-- **Without marks** a row of statements is left as it is. -/
theorem Outline.Valid.settleBody_eq {o : Outline} (h : o.Valid) (hitems : Unmarked o.items)
    (atTop : Bool) (before : List Statement) :
    settleBody false atTop before [] o.statements = before.reverse ++ o.statements := by
  match o, h with
  | .nil, _ => rw [Outline.statements, settleBody, List.append_nil]
  | .bare item s rest, ⟨hform, hrest⟩ =>
    obtain ⟨hitem, hitems⟩ := unmarked_cons.1 hitems
    rw [Outline.statements, settleBody_cons_settled (hform.settled hitem),
      hrest.settleBody_eq hitems, List.reverse_cons, List.append_assoc]
    rfl
  | .block branch close rest, ⟨hbranch, hclose, hrest⟩ =>
    obtain ⟨hinside, hafter⟩ := unmarked_append.1 hitems
    obtain ⟨hitem, hafter⟩ := unmarked_cons.1 hafter
    rw [Outline.statements, settleBody_cons_settled (hbranch.settled hinside hitem),
      hrest.settleBody_eq hafter, List.reverse_cons, List.append_assoc]
    rfl

/-- A block without marks is settled. -/
theorem Branch.Valid.settled {b : Branch} {chained : Bool} (h : b.Valid chained)
    (hitems : Unmarked b.items) {close : Item} (hclose : close.strip = .none) :
    (b.statement close).Settled := by
  -- the tags of the branch have no marks, and neither have its sections
  match b, h with
  | .plain item o body, ⟨hopen, hbody⟩ =>
    obtain ⟨hitem, hinside⟩ := unmarked_cons.1 hitems
    rw [Branch.statement]
    refine o.settled_wrap (o.settle_firstSection (hbody.settleBody_eq hinside false []) _) rfl ?_ _
    rw [hopen.strip_eq, hitem, hclose]
    rfl
  | .withElse item o body mark inverse, ⟨hopen, _, hbody, _, hinverse⟩ =>
    obtain ⟨hitem, hinside⟩ := unmarked_cons.1 hitems
    obtain ⟨hfirst, hbehind⟩ := unmarked_append.1 hinside
    obtain ⟨hmark, hsecond⟩ := unmarked_cons.1 hbehind
    rw [Branch.statement]
    refine o.settled_wrap (o.settle_firstSection (hbody.settleBody_eq hfirst false []) _)
      (mark.settle_elseSection false (hinverse.settleBody_eq hsecond false []) _) ?_ _
    rw [hopen.strip_eq, hitem, hmark, hclose]
    rfl
  | .chain item o body next, ⟨hopen, _, hbody, hnext⟩ =>
    obtain ⟨hitem, hinside⟩ := unmarked_cons.1 hitems
    obtain ⟨hfirst, hsecond⟩ := unmarked_append.1 hinside
    have hmark := hsecond _ next.item_mem_items
    have hsettled := hnext.settled hsecond hclose
    rw [Branch.statement]
    refine o.settled_wrap (o.settle_firstSection (hbody.settleBody_eq hfirst false []) _)
      (next.item.settle_elseSection true ?_ _) ?_ _
    · rw [settleBody_cons_settled hsettled, settleBody]
      rfl
    · rw [hopen.strip_eq, hitem, hmark, hclose]
      rfl

end

/-- The tree of a template without marks. -/
theorem Outline.Valid.trimmed_eq {o : Outline} (h : o.Valid) (hitems : Unmarked o.items)
    (blockParams : List String) (chained : Bool) (span : Span) :
    Program.trimmed false ⟨o.statements, blockParams, chained, span⟩
      = ⟨o.statements, blockParams, chained, span⟩ := by
  rw [Program.trimmed, Program.settle, h.settleBody_eq hitems]
  rfl

end Stache
