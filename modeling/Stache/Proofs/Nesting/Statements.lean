/-
  Where the statements of a tree come from.

  Each statement of a tree is formed by an item of its own, or it is a block, put together by the
  opening of an item around its sections.  So whatever holds of both holds of every statement of a
  valid outline, however deep (`Outline.forall_linked`); it is one induction over outlines, for rows
  and branches together.  Of the sections of a block it may be used that a chained one holds nothing
  but the next block of the chain (`Program.Links`).
-/
import Stache.Proofs.Nesting.Tiling

namespace Stache

/-- `P` holds of the statements of a row, those inside its blocks included. -/
structure RowForall (P : Statement → Prop) (body : List Statement) : Prop where
  statements : ∀ s ∈ body, P s
  programs : ∀ p ∈ bodyPrograms body, ∀ s ∈ p.body, P s

/-- A chained section holds nothing but the block of its else tag, and the main section of that is
    not chained itself. -/
def Program.Links (p : Program) : Prop :=
  p.chained = true → ∃ call main inverse strip span,
    p.body = [.block call (some main) inverse strip span] ∧ main.chained = false

/-- What is known of the sections of a block: the first one, after the open tag, has the parameters
    of the tag, and the second one has none. -/
structure Opening.Encloses (o : Opening) (first : Program) (second : Option Program) : Prop where
  blockParams : first.blockParams = o.blockParams
  start : first.span.start = o.span.stop
  chained : first.chained = false
  second : ∀ p, second = some p → p.blockParams = [] ∧ p.Links

theorem Opening.wrap_of_block {o : Opening} (h : o.kind = .block) (first : Program)
    (second : Option Program) (strip : BlockStrip) (stop : Position) :
    o.wrap first second strip stop
      = .block o.call (some first) second strip ⟨o.span.start, stop⟩ := by
  rw [Opening.wrap, h]

/-- The next block of a chain is all that its else section holds. -/
theorem Branch.Valid.links {next : Branch} (h : next.Valid true) (close mark : Item)
    (stop : Position) : (mark.elseSection true [next.statement close] stop).Links := by
  intro _
  have hkind : next.opening.kind = .block := h.opens.kind_eq_of_chained
  cases next with
  | plain item o body | withElse item o body mark inverse | chain item o body next =>
    have hkind : o.kind = .block := hkind
    exact ⟨_, _, _, _, _, congrArg (fun s => [s]) (Opening.wrap_of_block hkind _ _ _ _), rfl⟩

section

variable {P : Statement → Prop}

theorem RowForall.nil : RowForall P [] := ⟨List.forall_mem_nil _, List.forall_mem_nil _⟩

theorem RowForall.cons {s : Statement} {rest : List Statement} (hs : P s)
    (hprograms : ∀ p ∈ s.programs, ∀ s ∈ p.body, P s) (hrest : RowForall P rest) :
    RowForall P (s :: rest) :=
  ⟨List.forall_mem_cons.2 ⟨hs, hrest.statements⟩,
    List.forall_mem_append.2 ⟨hprograms, hrest.programs⟩⟩

/-- It is as much as that. -/
theorem rowForall_cons {s : Statement} {rest : List Statement} :
    RowForall P (s :: rest)
      ↔ (P s ∧ ∀ p ∈ s.programs, ∀ s ∈ p.body, P s) ∧ RowForall P rest := by
  constructor
  · rintro ⟨hstatements, hprograms⟩
    rw [List.forall_mem_cons] at hstatements
    rw [bodyPrograms, List.forall_mem_append] at hprograms
    exact ⟨⟨hstatements.1, hprograms.1⟩, hstatements.2, hprograms.2⟩
  · rintro ⟨hs, hrest⟩
    exact .cons hs.1 hs.2 hrest

theorem forall_family_iff {p : Program} :
    (∀ q ∈ p.family, ∀ s ∈ q.body, P s) ↔ RowForall P p.body := by
  rw [p.family_eq, List.forall_mem_cons]
  exact ⟨fun h => ⟨h.1, h.2⟩, fun h => ⟨h.statements, h.programs⟩⟩

theorem RowForall.family {body : List Statement} {params : List String} {chained : Bool}
    {span : Span} (h : RowForall P body) :
    ∀ p ∈ Program.family ⟨body, params, chained, span⟩, ∀ s ∈ p.body, P s :=
  List.forall_mem_cons.2 ⟨h.statements, h.programs⟩

/-! ## Outlines -/

/-- `P` holds of whatever the items make: a statement that one of them forms, and a block that one
    of them opens. -/
structure ItemsForall (P : Statement → Prop) (items : List Item) : Prop where
  forms : ∀ item ∈ items, ∀ s, item.Forms s → P s
  opens : ∀ item ∈ items, ∀ chained o, item.Opens chained o →
    ∀ first second strip stop, P (o.wrap first second strip stop)

/-- The same, where it may be relied upon what is known of the sections of a block. -/
structure LinkedForall (P : Statement → Prop) (items : List Item) : Prop where
  forms : ∀ item ∈ items, ∀ s, item.Forms s → P s
  opens : ∀ item ∈ items, ∀ chained o, item.Opens chained o → ∀ first second strip stop,
    o.Encloses first second → P (o.wrap first second strip stop)

theorem ItemsForall.linked {items : List Item} (h : ItemsForall P items) :
    LinkedForall P items := by
  refine ⟨h.forms, ?_⟩
  intro item hitem chained o hopen first second strip stop _
  exact h.opens item hitem chained o hopen first second strip stop

section Linked

variable {items : List Item} (hP : LinkedForall P items)

include hP

mutual

/-- **The statements of an outline**, whose items are among `items`. -/
theorem Outline.forall_linked {o : Outline} (ho : o.Valid) (hitems : o.items ⊆ items) :
    RowForall P o.statements := by
  match o, ho with
  | .nil, _ => exact .nil
  | .bare item s rest, ⟨hform, hrest⟩ =>
    rw [Outline.items, List.cons_subset] at hitems
    refine .cons (hP.forms item hitems.1 s hform) (fun p hp => ?_)
      (Outline.forall_linked hrest hitems.2)
    rw [hform.programs_eq] at hp
    cases hp
  | .block branch close rest, ⟨hbranch, _, hrest⟩ =>
    rw [Outline.items, List.append_subset, List.cons_subset] at hitems
    obtain ⟨hs, hprograms⟩ := Branch.forall_linked hbranch hitems.1 close
    exact .cons hs hprograms (Outline.forall_linked hrest hitems.2.2)

/-- So it is with a branch and the close tag behind it. -/
theorem Branch.forall_linked {b : Branch} {chained : Bool} (hb : b.Valid chained)
    (hitems : b.items ⊆ items) (close : Item) :
    P (b.statement close) ∧ ∀ p ∈ (b.statement close).programs, ∀ s ∈ p.body, P s := by
  match b, hb with
  | .plain item o body, ⟨hopen, hbody⟩ =>
    rw [Branch.items, List.cons_subset] at hitems
    have hfirst := Outline.forall_linked hbody hitems.2
    rw [Branch.statement]
    refine ⟨hP.opens item hitems.1 _ _ hopen _ _ _ _ ⟨rfl, rfl, rfl, nofun⟩, fun p hp => ?_⟩
    obtain hp | hp := Opening.mem_programs_wrap hp
    · exact hfirst.family p hp
    · cases hp
  | .withElse item o body mark inverse, ⟨hopen, _, hbody, _, hinverse⟩ =>
    rw [Branch.items, List.cons_subset, List.append_subset, List.cons_subset] at hitems
    have hfirst := Outline.forall_linked hbody hitems.2.1
    have hsecond := Outline.forall_linked hinverse hitems.2.2.2
    rw [Branch.statement]
    refine ⟨hP.opens item hitems.1 _ _ hopen _ _ _ _ ⟨rfl, rfl, rfl, ?_⟩, fun p hp => ?_⟩
    · rintro p ⟨⟩
      exact ⟨rfl, nofun⟩
    · obtain hp | hp := Opening.mem_programs_wrap hp
      · exact hfirst.family p hp
      · exact hsecond.family p hp
  | .chain item o body next, ⟨hopen, _, hbody, hnext⟩ =>
    rw [Branch.items, List.cons_subset, List.append_subset] at hitems
    have hfirst := Outline.forall_linked hbody hitems.2.1
    obtain ⟨hs, hprograms⟩ := Branch.forall_linked hnext hitems.2.2 close
    -- The next block of the chain is all that its else section holds.
    have hsecond : RowForall P [next.statement close] := .cons hs hprograms .nil
    rw [Branch.statement]
    refine ⟨hP.opens item hitems.1 _ _ hopen _ _ _ _ ⟨rfl, rfl, rfl, ?_⟩, fun p hp => ?_⟩
    · rintro p ⟨⟩
      exact ⟨rfl, hnext.links close _ _⟩
    · obtain hp | hp := Opening.mem_programs_wrap hp
      · exact hfirst.family p hp
      · exact hsecond.family p hp

end

/-- The statements of a file, before whitespace control. -/
theorem Program.ofItems_forall_linked {stop : Position} {p : Program}
    (h : Program.ofItems items stop = .ok p) : ∀ q ∈ p.family, ∀ s ∈ q.body, P s := by
  obtain ⟨hp, o, ho⟩ := Program.ofItems_outlined h
  have hrow := Outline.forall_linked hP ho.valid (ho.items_eq ▸ List.Subset.refl _)
  rw [ho.statements_eq] at hrow
  rw [hp]
  exact hrow.family

end Linked

/-- The same for what holds of every block. -/
theorem Program.ofItems_forall_statements {items : List Item} (hP : ItemsForall P items)
    {stop : Position} {p : Program} (h : Program.ofItems items stop = .ok p) :
    ∀ q ∈ p.family, ∀ s ∈ q.body, P s :=
  Program.ofItems_forall_linked hP.linked h

end

/-! ## Files -/

/-- **The statements of a template that is parsed** have whatever holds of those that its items
    make, if whitespace control keeps it. -/
theorem Template.parse_forall {P : List Item → Statement → Prop}
    (hP : ∀ items, LinkedForall (P items) items)
    (herased : ∀ items s, P items s.erased ↔ P items s) {text : String} {source : Option String}
    {standalone : Bool} {t : Template} (h : Template.parse text source standalone = .ok t) :
    ∃ items, Item.readAll .origin text.toList = .ok items
      ∧ ∀ p ∈ t.root.family, ∀ s ∈ p.body, P items s := by
  obtain ⟨items, p, o, hitems, -, rfl, hroot, ho⟩ := Template.parse_outlined h
  have hrow := Outline.forall_linked (hP items) ho.valid (ho.items_eq ▸ List.Subset.refl _)
  refine ⟨items, hitems, Program.forall_family_trimmed (P := fun p => ∀ s ∈ p.body, P items s)
    (fun p => ?_) (hroot ▸ hrow.family)⟩
  obtain ⟨body, params, chained, span⟩ := p
  show (∀ s ∈ erasedBody body, P items s) ↔ ∀ s ∈ body, P items s
  rw [erasedBody_eq_map, List.forall_mem_map]
  exact forall₂_congr fun s _ => herased items s

end Stache
