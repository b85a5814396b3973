/-
  The order in which partials are found.

  The walk over a tree lists the names of partials section by section, the main section of a block
  before its inverse one.  A file may have the two the other way round: a block that is opened with
  a caret begins with its inverse section.  Here each name is followed together with the PLACE at
  which its call begins (`Program.partialEntries`), and the two orders are compared:

    * the file has the entries of its items in ascending order, since items lie end to end
      (`Item.EndToEnd.ordered`);
    * the walk finds these very entries, each once (`Outline.partialEntries_perm`);
    * it finds them in that order EXACTLY when no block is TURNED: a turned block begins with its
      inverse section, and there are names in both of its sections (`Outline.ordered_iff`).

  A turned block exists, so the names may come in another order than in the file
  (`not_ordered_of_caret`).
-/
import Stache.Proofs.Nesting.Statements
import Stache.Template.PartialNames

namespace Stache

/-! ## Entries -/

/-- The name of a partial, and where its call begins. -/
abbrev PartialEntry := Position × String

/-- The entries come in the order of the file. -/
def Ordered (entries : List PartialEntry) : Prop := entries.Pairwise fun a b => a.1.Before b.1

/-- The name that a call has for a partial, if any, with the place. -/
def Call.partialEntries (call : Call) (start : Position) : List PartialEntry :=
  call.partialName.map fun name => (start, name)

mutual

/-- The entries in a statement, in the order of the walk. -/
def Statement.partialEntries : Statement → List PartialEntry
  | .content _ | .comment _ _ _ | .mustache _ _ _ _ | .decorator _ _ _ => []
  | .partialCall call _ _ span => call.partialEntries span.start
  | .partialBlock call body _ _ span => call.partialEntries span.start ++ body.partialEntries
  | .decoratorBlock _ body _ _ _ => body.partialEntries
  | .block _ main inverse _ _ => sectionPartialEntries main ++ sectionPartialEntries inverse

/-- The entries of a program are those of its statements; -/
def Program.partialEntries : Program → List PartialEntry
  | ⟨body, _, _, _⟩ => bodyPartialEntries body

/-- a section that is not there has none, -/
def sectionPartialEntries : Option Program → List PartialEntry
  | none => []
  | some p => p.partialEntries

/-- and a body has them statement by statement. -/
def bodyPartialEntries : List Statement → List PartialEntry
  | [] => []
  | s :: rest => s.partialEntries ++ bodyPartialEntries rest

end

/-- Without places, entries are names: those of a call, -/
theorem Call.map_snd_partialEntries (call : Call) (start : Position) :
    (call.partialEntries start).map Prod.snd = call.partialName := by
  rw [Call.partialEntries, List.map_map]
  exact List.map_id _

mutual

/-- The walk lists the names of the entries. -/
theorem Statement.map_snd_partialEntries (s : Statement) :
    s.partialEntries.map Prod.snd = s.partialNames := by
  match s with
  | .content _ | .comment _ _ _ | .mustache _ _ _ _ | .decorator _ _ _ => rfl
  | .partialCall call _ _ span => exact call.map_snd_partialEntries span.start
  | .partialBlock call body _ _ span =>
    rw [Statement.partialEntries, Statement.partialNames, List.map_append,
      Call.map_snd_partialEntries, Program.map_snd_partialEntries body]
  | .decoratorBlock _ body _ _ _ => exact Program.map_snd_partialEntries body
  | .block _ main inverse _ _ =>
    rw [Statement.partialEntries, Statement.partialNames, List.map_append,
      map_snd_sectionPartialEntries main, map_snd_sectionPartialEntries inverse]

/-- of a program, -/
theorem Program.map_snd_partialEntries (p : Program) :
    p.partialEntries.map Prod.snd = p.partialNames := by
  match p with
  | ⟨body, _, _, _⟩ => exact map_snd_bodyPartialEntries body

/-- of a section, -/
theorem map_snd_sectionPartialEntries (p : Option Program) :
    (sectionPartialEntries p).map Prod.snd = sectionPartialNames p := by
  match p with
  | none => rfl
  | some p => exact Program.map_snd_partialEntries p

/-- and of a body. -/
theorem map_snd_bodyPartialEntries (body : List Statement) :
    (bodyPartialEntries body).map Prod.snd = bodyPartialNames body := by
  match body with
  | [] => rfl
  | s :: rest =>
    rw [bodyPartialEntries, bodyPartialNames, List.map_append, Statement.map_snd_partialEntries s,
      map_snd_bodyPartialEntries rest]

end

theorem Program.partialNames_eq_nil {p : Program} : p.partialNames = [] ↔ p.partialEntries = [] := by
  rw [← p.map_snd_partialEntries, List.map_eq_nil_iff]

mutual

/-- Whitespace control changes no entries: neither those of a statement, -/
theorem Statement.partialEntries_erased (s : Statement) :
    s.erased.partialEntries = s.partialEntries := by
  match s with
  | .content _ | .comment _ _ _ | .mustache _ _ _ _ | .decorator _ _ _ | .partialCall _ _ _ _ => rfl
  | .partialBlock call body _ _ span =>
    rw [Statement.erased, Statement.partialEntries, Statement.partialEntries,
      Program.partialEntries_erased body]
  | .decoratorBlock _ body _ _ _ => exact Program.partialEntries_erased body
  | .block _ main inverse _ _ =>
    rw [Statement.erased, Statement.partialEntries, Statement.partialEntries,
      sectionPartialEntries_erased main, sectionPartialEntries_erased inverse]

/-- nor those of a program, -/
theorem Program.partialEntries_erased (p : Program) :
    p.erased.partialEntries = p.partialEntries := by
  match p with
  | ⟨body, _, _, _⟩ => exact bodyPartialEntries_erased body

/-- a section, -/
theorem sectionPartialEntries_erased (p : Option Program) :
    sectionPartialEntries (erasedSection p) = sectionPartialEntries p := by
  match p with
  | none => rfl
  | some p => exact Program.partialEntries_erased p

/-- or a body. -/
theorem bodyPartialEntries_erased (body : List Statement) :
    bodyPartialEntries (erasedBody body) = bodyPartialEntries body := by
  match body with
  | [] => rfl
  | s :: rest =>
    rw [erasedBody, bodyPartialEntries, bodyPartialEntries, Statement.partialEntries_erased s,
      bodyPartialEntries_erased rest]

end

/-! ## The entries of items -/

/-- The call of a partial that a tag makes. -/
def Tag.partialCall? (tag : Tag) : Option Call :=
  match tag.kind with
  | .partialCall => (Call.partialOfTokens tag.tokens).toOption
  | .openPartialBlock => ((Call.partialOpenerOfTokens tag.tokens).map Prod.fst).toOption
  | _ => none

/-- The entry of an item, if its tag calls a partial by name. -/
def Item.partialEntries (item : Item) : List PartialEntry :=
  match item.shape with
  | .tag tag => tag.partialCall?.toList.flatMap fun call => call.partialEntries item.start
  | .content _ | .comment _ _ => []

theorem Item.partialEntries_of_tag {item : Item} {tag : Tag} (h : item.shape = .tag tag)
    (hcall : tag.partialCall? = none) : item.partialEntries = [] := by
  rw [Item.partialEntries, h]
  simp only [hcall]
  rfl

/-- A statement has the entries of its item. -/
theorem Item.Forms.partialEntries_eq {item : Item} {s : Statement} (h : item.Forms s) :
    s.partialEntries = item.partialEntries := by
  cases h with
  | content h | comment h =>
    rw [Item.partialEntries, h]
    rfl
  | mustache h hkind | decorator h hkind =>
    rw [Item.partialEntries_of_tag h (by rw [Tag.partialCall?, hkind])]
    rfl
  | partialCall h hkind hcall =>
    rw [Item.partialEntries, h]
    simp only [Tag.partialCall?, hkind, hcall]
    exact (List.flatMap_singleton ..).symm

theorem Item.IsElse.partialEntries_eq {item : Item} (h : item.IsElse) :
    item.partialEntries = [] := by
  obtain ⟨tag, hshape, hkind⟩ := h
  exact Item.partialEntries_of_tag hshape (by rw [Tag.partialCall?, hkind])

theorem Item.Closes.partialEntries_eq {item : Item} {name : String} (h : item.Closes name) :
    item.partialEntries = [] := by
  obtain ⟨tag, e, hshape, hkind, -⟩ := h
  exact Item.partialEntries_of_tag hshape (by rw [Tag.partialCall?, hkind])

/-- Of the tags that open something, only those of partial blocks have an entry. -/
theorem Item.Opens.partialEntries_eq {item : Item} {chained : Bool} {o : Opening}
    (h : item.Opens chained o) :
    item.partialEntries
      = if o.kind = .partialBlock then o.call.partialEntries o.span.start else [] := by
  have hspan := h.span_eq
  obtain ⟨tag, hshape, hkind, -, -, hcall⟩ := h
  split
  · rename_i hpartial
    rw [if_pos hpartial] at hcall
    have htag : tag.kind = .openPartialBlock := by
      cases htag : tag.kind <;> rw [htag] at hkind <;> simp_all [TagRole.opens]
    rw [Item.partialEntries, hshape]
    simp only [Tag.partialCall?, htag, hcall, hspan]
    exact List.flatMap_singleton ..
  · rename_i hpartial
    refine Item.partialEntries_of_tag hshape ?_
    cases htag : tag.kind <;> rw [htag] at hkind <;> simp_all [TagRole.opens, Tag.partialCall?]

/-- An entry stands where its item begins. -/
theorem Item.start_of_mem_partialEntries {item : Item} {e : PartialEntry}
    (h : e ∈ item.partialEntries) : e.1 = item.start := by
  rw [Item.partialEntries] at h
  split at h
  · obtain ⟨call, -, h⟩ := List.mem_flatMap.1 h
    obtain ⟨name, -, rfl⟩ := List.mem_map.1 h
    rfl
  · cases h
  · cases h

/-- A call has one entry at most. -/
theorem Call.ordered_partialEntries (call : Call) (start : Position) :
    Ordered (call.partialEntries start) := by
  rw [Call.partialEntries, Call.partialName]
  split
  · split
    · exact List.Pairwise.nil
    · exact List.pairwise_singleton ..
  · exact List.Pairwise.nil

/-- One item has one entry at most. -/
theorem Item.ordered_partialEntries (item : Item) : Ordered item.partialEntries := by
  rw [Item.partialEntries]
  split
  · rename_i tag _
    cases tag.partialCall? with
    | none => exact List.Pairwise.nil
    | some call =>
      rw [Option.toList_some, List.flatMap_singleton]
      exact call.ordered_partialEntries item.start
  · exact List.Pairwise.nil
  · exact List.Pairwise.nil

/-- The entries of a row of items. -/
def entriesOf (items : List Item) : List PartialEntry := items.flatMap Item.partialEntries

theorem entriesOf_append (items more : List Item) :
    entriesOf (items ++ more) = entriesOf items ++ entriesOf more := List.flatMap_append ..

/-! ## Order -/

/-- What stands in front of a place is in order with what stands behind it. -/
theorem ordered_append_iff {xs ys : List PartialEntry} {m : Position}
    (hxs : ∀ e ∈ xs, e.1.Before m) (hys : ∀ e ∈ ys, m.UpTo e.1) :
    Ordered (xs ++ ys) ↔ Ordered xs ∧ Ordered ys := by
  have hcross : ∀ a ∈ xs, ∀ b ∈ ys, a.1.Before b.1 :=
    fun a ha b hb => (hxs a ha).trans_upTo (hys b hb)
  rw [Ordered, List.pairwise_append]
  exact ⟨fun h => ⟨h.1, h.2.1⟩, fun h => ⟨h.1, h.2, hcross⟩⟩

/-- The other way round, they are in order only if there is nothing on one side. -/
theorem ordered_append_swap_iff {xs ys : List PartialEntry} {m : Position}
    (hxs : ∀ e ∈ xs, e.1.Before m) (hys : ∀ e ∈ ys, m.UpTo e.1) :
    Ordered (ys ++ xs) ↔ (xs = [] ∨ ys = []) ∧ Ordered xs ∧ Ordered ys := by
  rw [Ordered, List.pairwise_append]
  constructor
  · rintro ⟨hys', hxs', hcross⟩
    refine ⟨?_, hxs', hys'⟩
    by_contra hboth
    rw [not_or] at hboth
    obtain ⟨x, hx⟩ := List.exists_mem_of_ne_nil xs hboth.1
    obtain ⟨y, hy⟩ := List.exists_mem_of_ne_nil ys hboth.2
    have hxy := (hxs x hx).trans_upTo (hys y hy)
    exact Position.Before.irrefl _ (hxy.trans (hcross y hy x hx))
  · rintro ⟨hnil, hxs', hys'⟩
    refine ⟨hys', hxs', ?_⟩
    rcases hnil with rfl | rfl
    · exact fun _ _ b hb => absurd hb List.not_mem_nil
    · exact fun a ha => absurd ha List.not_mem_nil

section EndToEnd

variable {p q : Position} {items : List Item}

/-- The entries of items that lie between two places lie there too. -/
theorem Item.EndToEnd.within (h : Item.EndToEnd p items q) :
    ∀ e ∈ entriesOf items, p.UpTo e.1 ∧ e.1.Before q := by
  intro e he
  obtain ⟨item, hitem, he⟩ := List.mem_flatMap.1 he
  rw [Item.start_of_mem_partialEntries he]
  obtain ⟨pre, post, rfl⟩ := List.append_of_mem hitem
  obtain ⟨hpre, hne, hpost⟩ := h.split_at
  exact ⟨hpre.upTo, hne.trans_upTo hpost.upTo⟩

/-- **The file has its entries in order.** -/
theorem Item.EndToEnd.ordered (h : Item.EndToEnd p items q) : Ordered (entriesOf items) := by
  induction h with
  | nil p => exact List.Pairwise.nil
  | @cons item items q hne hrest ih =>
    have hitem : ∀ e ∈ item.partialEntries, e.1.Before item.stop := by
      intro e he
      rw [Item.start_of_mem_partialEntries he]
      exact hne
    exact (ordered_append_iff hitem fun e he => (hrest.within e he).1).2
      ⟨item.ordered_partialEntries, ih⟩

end EndToEnd

/-! ## Turned blocks -/

/-- A block that begins with its inverse section, with names of partials in both sections. -/
def Statement.Turned : Statement → Prop
  | .block _ (some main) (some inverse) _ _ =>
    inverse.span.start.Before main.span.start ∧ main.partialNames ≠ [] ∧ inverse.partialNames ≠ []
  | _ => False

theorem Item.Forms.not_turned {item : Item} {s : Statement} (h : item.Forms s) : ¬ s.Turned := by
  cases h <;> exact not_false

/-- There is no turned block among the statements of a row and those inside of them. -/
abbrev Straight (body : List Statement) : Prop := RowForall (fun s => ¬ s.Turned) body

/-- The same for one statement. -/
def Statement.Straight (s : Statement) : Prop :=
  ¬ s.Turned ∧ ∀ p ∈ s.programs, ∀ s ∈ p.body, ¬ s.Turned

theorem straight_cons {s : Statement} {rest : List Statement} :
    Straight (s :: rest) ↔ s.Straight ∧ Straight rest := rowForall_cons

/-- The programs of a block are those of its two sections. -/
theorem Opening.forall_programs_wrap {o : Opening} {first : Program} {second : Option Program}
    {strip : BlockStrip} {stop : Position} {P : Program → Prop}
    (hsecond : o.kind.hasElse ∨ second = none) :
    (∀ p ∈ (o.wrap first second strip stop).programs, P p)
      ↔ (∀ p ∈ first.family, P p) ∧ ∀ p ∈ sectionPrograms second, P p := by
  unfold Opening.wrap
  cases hkind : o.kind with
  | block =>
    rw [Statement.programs, List.forall_mem_append]
    rfl
  | inverse =>
    rw [Statement.programs, List.forall_mem_append]
    exact and_comm
  | partialBlock | decoratorBlock =>
    have hnone : second = none := by simpa [OpeningKind.hasElse, hkind] using hsecond
    subst hnone
    simp [Statement.programs, sectionPrograms]

section Wrap

variable {o : Opening} {first : Program} {second : Option Program} {strip : BlockStrip}
  {stop m : Position}

/-- A block that begins with its main section is not turned. -/
theorem not_turned_of_main {call : Call} {span : Span}
    (hspan : ∀ p, second = some p → first.span.start.Before p.span.start) :
    ¬ (Statement.block call (some first) second strip span).Turned := by
  cases second with
  | none => exact not_false
  | some p =>
    rintro ⟨hbefore, -⟩
    exact Position.Before.irrefl _ (hbefore.trans (hspan p rfl))

/-- One that begins with its inverse section is not turned if a section is without names. -/
theorem not_turned_of_inverse {call : Call} {span : Span}
    (hspan : ∀ p, second = some p → first.span.start.Before p.span.start) :
    ¬ (Statement.block call second (some first) strip span).Turned
      ↔ first.partialEntries = [] ∨ sectionPartialEntries second = [] := by
  cases second with
  | none => exact iff_of_true not_false (.inr rfl)
  | some p =>
    show ¬ (_ ∧ p.partialNames ≠ [] ∧ first.partialNames ≠ []) ↔ _ ∨ p.partialEntries = []
    have hbefore := hspan p rfl
    rw [ne_eq, ne_eq, Program.partialNames_eq_nil, Program.partialNames_eq_nil]
    tauto

/-- **One block.**  The entries of its sections, the first of which ends where the second begins,
    are in order exactly if those of each section are and the block is not turned. -/
theorem Opening.ordered_wrap (hsecond : o.kind.hasElse ∨ second = none)
    (hstart : ∀ e ∈ first.partialEntries, o.span.stop.UpTo e.1)
    (hspans : o.span.start.Before o.span.stop)
    (hfirst : ∀ e ∈ first.partialEntries, e.1.Before m)
    (hlater : ∀ e ∈ sectionPartialEntries second, m.UpTo e.1)
    (hspan : ∀ p, second = some p → first.span.start.Before p.span.start) :
    Ordered (o.wrap first second strip stop).partialEntries
      ↔ ¬ (o.wrap first second strip stop).Turned ∧ Ordered first.partialEntries
        ∧ Ordered (sectionPartialEntries second) := by
  unfold Opening.wrap
  -- sections are walked in the order of their fields, which `{{^` turns around
  cases hkind : o.kind with
  | block =>
    rw [Statement.partialEntries, iff_true_intro (not_turned_of_main hspan), true_and]
    exact ordered_append_iff hfirst hlater
  | inverse =>
    rw [Statement.partialEntries, not_turned_of_inverse hspan]
    exact ordered_append_swap_iff hfirst hlater
  | partialBlock =>
    obtain rfl : second = none := by simpa [OpeningKind.hasElse, hkind] using hsecond
    have hcall : ∀ e ∈ o.call.partialEntries o.span.start, e.1.Before o.span.stop := by
      intro e he
      obtain ⟨name, -, rfl⟩ := List.mem_map.1 he
      exact hspans
    rw [Statement.partialEntries, ordered_append_iff hcall hstart]
    exact ⟨fun h => ⟨not_false, h.2, List.Pairwise.nil⟩,
      fun h => ⟨o.call.ordered_partialEntries _, h.2.1⟩⟩
  | decoratorBlock =>
    obtain rfl : second = none := by simpa [OpeningKind.hasElse, hkind] using hsecond
    exact ⟨fun h => ⟨not_false, h, List.Pairwise.nil⟩, fun h => h.2.1⟩

/-- The entries of a block are those of its open tag and of its sections. -/
theorem Opening.partialEntries_wrap (hsecond : o.kind.hasElse ∨ second = none) {item : Item}
    {chained : Bool} (hopen : item.Opens chained o) :
    (o.wrap first second strip stop).partialEntries.Perm
      (item.partialEntries ++ (first.partialEntries ++ sectionPartialEntries second)) := by
  rw [hopen.partialEntries_eq]
  unfold Opening.wrap
  cases hkind : o.kind with
  | block => exact .refl _
  | inverse => exact List.perm_append_comm
  | partialBlock =>
    obtain rfl : second = none := by simpa [OpeningKind.hasElse, hkind] using hsecond
    simp [Statement.partialEntries, sectionPartialEntries]
  | decoratorBlock =>
    obtain rfl : second = none := by simpa [OpeningKind.hasElse, hkind] using hsecond
    simp [Statement.partialEntries, sectionPartialEntries]

end Wrap

/-! ## Outlines -/

mutual

/-- **The walk finds the entries of the items**, each as often as it is there. -/
theorem Outline.partialEntries_perm {o : Outline} (ho : o.Valid) :
    (bodyPartialEntries o.statements).Perm (entriesOf o.items) := by
  match o, ho with
  | .nil, _ => exact .nil
  | .bare item s rest, ⟨hform, hrest⟩ =>
    rw [Outline.statements, bodyPartialEntries, hform.partialEntries_eq]
    exact (Outline.partialEntries_perm hrest).append_left _
  | .block b close rest, ⟨hb, hclose, hrest⟩ =>
    rw [Outline.statements, bodyPartialEntries, Outline.items, entriesOf_append]
    have hcloses : entriesOf (close :: rest.items) = entriesOf rest.items := by
      rw [entriesOf, List.flatMap_cons, hclose.partialEntries_eq]
      rfl
    rw [hcloses]
    exact (Branch.partialEntries_perm hb close).append (Outline.partialEntries_perm hrest)

/-- The walk finds the entries of a branch, each once. -/
theorem Branch.partialEntries_perm {b : Branch} {chained : Bool} (hb : b.Valid chained)
    (close : Item) : (b.statement close).partialEntries.Perm (entriesOf b.items) := by
  -- the tag that opens it, and then its parts
  match b, hb with
  | .plain item o body, ⟨hopen, hbody⟩ =>
    refine (Opening.partialEntries_wrap (.inr rfl) hopen).trans (.append_left _ ?_)
    rw [sectionPartialEntries, List.append_nil]
    exact Outline.partialEntries_perm hbody
  | .withElse item o body mark inverse, ⟨hopen, helse, hbody, hmark, hinverse⟩ =>
    have hmarks : entriesOf (mark :: inverse.items) = entriesOf inverse.items := by
      rw [entriesOf, List.flatMap_cons, hmark.partialEntries_eq]
      rfl
    refine (Opening.partialEntries_wrap (.inl helse) hopen).trans (.append_left _ ?_)
    show (bodyPartialEntries body.statements ++ bodyPartialEntries inverse.statements).Perm
      (entriesOf (body.items ++ mark :: inverse.items))
    rw [entriesOf_append, hmarks]
    exact (Outline.partialEntries_perm hbody).append (Outline.partialEntries_perm hinverse)
  | .chain item o body next, ⟨hopen, helse, hbody, hnext⟩ =>
    refine (Opening.partialEntries_wrap (.inl helse) hopen).trans (.append_left _ ?_)
    show (bodyPartialEntries body.statements ++ ((next.statement close).partialEntries ++ [])).Perm
      (entriesOf (body.items ++ next.items))
    rw [entriesOf_append, List.append_nil]
    exact (Outline.partialEntries_perm hbody).append (Branch.partialEntries_perm hnext close)

end

theorem Outline.within {o : Outline} (ho : o.Valid) {p q : Position}
    (hrow : Item.EndToEnd p o.items q) :
    ∀ e ∈ bodyPartialEntries o.statements, p.UpTo e.1 ∧ e.1.Before q :=
  fun e he => hrow.within e ((Outline.partialEntries_perm ho).mem_iff.1 he)

theorem Branch.within {b : Branch} {chained : Bool} (hb : b.Valid chained) (close : Item)
    {p q : Position} (hrow : Item.EndToEnd p b.items q) :
    ∀ e ∈ (b.statement close).partialEntries, p.UpTo e.1 ∧ e.1.Before q :=
  fun e he => hrow.within e ((Branch.partialEntries_perm hb close).mem_iff.1 he)

/-- The sections of a block are straight if the rows in them are. -/
theorem straight_wrap {o : Opening} {first : Program} {second : Option Program}
    {strip : BlockStrip} {stop : Position} (hsecond : o.kind.hasElse ∨ second = none) :
    (o.wrap first second strip stop).Straight
      ↔ ¬ (o.wrap first second strip stop).Turned ∧ Straight first.body
        ∧ ∀ p, second = some p → Straight p.body := by
  rw [Statement.Straight, Opening.forall_programs_wrap hsecond, forall_family_iff]
  refine and_congr_right fun _ => and_congr_right fun _ => ?_
  cases second with
  | none => simp [sectionPrograms]
  | some p =>
    rw [sectionPrograms, forall_family_iff]
    simp

mutual

/-- **A row is in order** exactly if none of its blocks is turned. -/
theorem Outline.ordered_iff {o : Outline} (ho : o.Valid) {p q : Position}
    (hrow : Item.EndToEnd p o.items q) :
    Ordered (bodyPartialEntries o.statements) ↔ Straight o.statements := by
  match o, ho with
  | .nil, _ => exact iff_of_true List.Pairwise.nil .nil
  | .bare item s rest, ⟨hform, hrest⟩ =>
    -- the names of an item lie before its end, and those of the rest behind it
    have hitem : ∀ e ∈ s.partialEntries, e.1.Before item.stop := by
      intro e he
      rw [hform.partialEntries_eq] at he
      rw [Item.start_of_mem_partialEntries he]
      exact hrow.before
    have hlater := fun e he => (Outline.within hrest hrow.tail e he).1
    have hs : s.Straight := ⟨hform.not_turned, by simp [hform.programs_eq]⟩
    have hordered : Ordered s.partialEntries := hform.partialEntries_eq ▸ item.ordered_partialEntries
    rw [Outline.statements, bodyPartialEntries, ordered_append_iff hitem hlater, straight_cons,
      Outline.ordered_iff hrest hrow.tail, iff_true_intro hordered, iff_true_intro hs]
  | .block b close rest, ⟨hb, hclose, hrest⟩ =>
    obtain ⟨hbranch, hne, hmore⟩ := hrow.split_at
    have hblock := fun e he => (Branch.within hb close hbranch e he).2
    have hlater := fun e he => hne.upTo.trans (Outline.within hrest hmore e he).1
    rw [Outline.statements, bodyPartialEntries, ordered_append_iff hblock hlater, straight_cons,
      Branch.ordered_iff hb hbranch, Outline.ordered_iff hrest hmore]

/-- Of a branch, the entries are in order if it is straight. -/
theorem Branch.ordered_iff {b : Branch} {chained : Bool} {close : Item} (hb : b.Valid chained)
    {p : Position} (hrow : Item.EndToEnd p b.items close.start) :
    Ordered (b.statement close).partialEntries ↔ (b.statement close).Straight := by
  -- one section, two with an else mark between them, or a chain
  match b, hb with
  | .plain item o body, ⟨hopen, hbody⟩ =>
    have hwithin := Outline.within hbody hrow.tail
    rw [Branch.statement, straight_wrap (.inr rfl)]
    refine (Opening.ordered_wrap (m := close.start) (.inr rfl) ?_ ?_ ?_ nofun nofun).trans ?_
    · rw [hopen.span_eq]
      exact fun e he => (hwithin e he).1
    · rw [hopen.span_eq]
      exact hrow.before
    · exact fun e he => (hwithin e he).2
    · refine and_congr_right fun _ => and_congr (Outline.ordered_iff hbody hrow.tail) ?_
      exact iff_of_true List.Pairwise.nil nofun
  | .withElse item o body mark inverse, ⟨hopen, helse, hbody, hmark, hinverse⟩ =>
    obtain ⟨hfirst, hmarkNe, hsecond⟩ := hrow.tail.split_at
    have hwithin := Outline.within hbody hfirst
    have hwithin' := Outline.within hinverse hsecond
    rw [Branch.statement, straight_wrap (.inl helse)]
    refine (Opening.ordered_wrap (m := mark.start) (.inl helse) ?_ ?_ ?_ ?_ ?_).trans ?_
    · rw [hopen.span_eq]
      exact fun e he => (hwithin e he).1
    · rw [hopen.span_eq]
      exact hrow.before
    · exact fun e he => (hwithin e he).2
    · exact fun e he => hmarkNe.upTo.trans (hwithin' e he).1
    · rintro _ ⟨⟩
      rw [Opening.firstSection, hopen.span_eq]
      exact hfirst.upTo.trans_before hmarkNe
    · refine and_congr_right fun _ => and_congr (Outline.ordered_iff hbody hfirst) ?_
      simp only [Option.some.injEq, forall_eq']
      exact Outline.ordered_iff hinverse hsecond
  | .chain item o body next, ⟨hopen, helse, hbody, hnext⟩ =>
    obtain ⟨m, hfirst, hsecond⟩ := hrow.tail.split
    obtain ⟨rest, hrest⟩ := next.items_eq
    have hmark := hrest ▸ hsecond
    -- The open tag of the chained block is the else tag of this one.
    obtain rfl := hmark.start_eq
    have hwithin := Outline.within hbody hfirst
    have hwithin' := Branch.within hnext close hsecond
    have hsection : bodyPartialEntries [next.statement close]
        = (next.statement close).partialEntries := List.append_nil _
    rw [Branch.statement, straight_wrap (.inl helse)]
    refine (Opening.ordered_wrap (m := next.item.start) (.inl helse) ?_ ?_ ?_ ?_ ?_).trans ?_
    · rw [hopen.span_eq]
      exact fun e he => (hwithin e he).1
    · rw [hopen.span_eq]
      exact hrow.before
    · exact fun e he => (hwithin e he).2
    · exact fun e he => (hwithin' e (hsection ▸ he)).1
    · rintro _ ⟨⟩
      rw [Opening.firstSection, hopen.span_eq]
      exact hfirst.upTo.trans_before hmark.before
    · refine and_congr_right fun _ => and_congr (Outline.ordered_iff hbody hfirst) ?_
      simp only [Option.some.injEq, forall_eq']
      show Ordered (bodyPartialEntries [next.statement close]) ↔ Straight [next.statement close]
      rw [hsection, straight_cons, Branch.ordered_iff hnext hsecond, and_iff_left .nil]

end

/-! ## Whitespace control -/

/-- Whitespace control changes no names, -/
theorem Program.partialNames_erased (p : Program) : p.erased.partialNames = p.partialNames := by
  rw [← Program.map_snd_partialEntries, Program.partialEntries_erased,
    Program.map_snd_partialEntries]

/-- and turns no block. -/
theorem Statement.turned_erased (s : Statement) : s.erased.Turned ↔ s.Turned := by
  cases s with
  | block call main inverse strip span =>
    cases main with
    | none => exact Iff.rfl
    | some main =>
      cases inverse with
      | none => exact Iff.rfl
      | some inverse =>
        show (_ ∧ main.erased.partialNames ≠ [] ∧ inverse.erased.partialNames ≠ []) ↔ _
        rw [main.span_erased, inverse.span_erased, main.partialNames_erased,
          inverse.partialNames_erased]
        rfl
  | content | comment | mustache | partialCall | decorator | partialBlock | decoratorBlock =>
    exact Iff.rfl

/-- Trees that are the same but for whitespace have turned blocks together. -/
theorem straight_of_erased_eq {p p' : Program} (heq : p'.erased = p.erased)
    (h : ∀ q ∈ p.family, ∀ s ∈ q.body, ¬ s.Turned) : ∀ q ∈ p'.family, ∀ s ∈ q.body, ¬ s.Turned := by
  have herased (q : Program) : (∀ s ∈ q.erased.body, ¬ s.Turned) ↔ ∀ s ∈ q.body, ¬ s.Turned := by
    obtain ⟨body, params, chained, span⟩ := q
    rw [Program.erased, erasedBody_eq_map, List.forall_mem_map]
    exact forall₂_congr fun s _ => not_congr s.turned_erased
  have hfamily : p'.family.map Program.erased = p.family.map Program.erased := by
    rw [← Program.family_erased, heq, Program.family_erased]
  intro q hq
  have hmem : q.erased ∈ p.family.map Program.erased := hfamily ▸ List.mem_map_of_mem hq
  obtain ⟨q', hq', heq'⟩ := List.mem_map.1 hmem
  rw [← herased, ← heq', herased]
  exact h q' hq'

/-! ## Files -/

/-- **The order of the names.**  The names that are found in a file are those of its tags, each as
    often as it is there.  They are found in the order of the file exactly if no block of the tree
    is turned. -/
theorem Template.partialNames_ordered_iff {text : String} {source : Option String}
    {standalone : Bool} {t : Template} (h : Template.parse text source standalone = .ok t) :
    t.partialNames = t.root.partialEntries.map Prod.snd
      ∧ (∃ items, Item.readAll .origin text.toList = .ok items ∧ Ordered (entriesOf items)
        ∧ t.root.partialEntries.Perm (entriesOf items))
      ∧ (Ordered t.root.partialEntries ↔ ∀ p ∈ t.root.family, ∀ s ∈ p.body, ¬ s.Turned) := by
  obtain ⟨items, p, o, hitems, -, rfl, hroot, ho⟩ := Template.parse_outlined h
  have hrow := (Item.Scan.of_readAll hitems).endToEnd
  have hentries : (p.trimmed standalone).partialEntries = bodyPartialEntries o.statements := by
    rw [← Program.partialEntries_erased, Program.erased_trimmed, Program.partialEntries_erased,
      hroot]
    rfl
  refine ⟨(Program.map_snd_partialEntries _).symm, ⟨items, hitems, hrow.ordered, ?_⟩, ?_⟩
  · rw [hentries, ← ho.items_eq]
    exact Outline.partialEntries_perm ho.valid
  · have hstraight : Straight o.statements ↔ ∀ q ∈ p.family, ∀ s ∈ q.body, ¬ s.Turned := by
      rw [hroot, forall_family_iff]
    rw [hentries, Outline.ordered_iff ho.valid (ho.items_eq ▸ hrow), hstraight]
    exact ⟨straight_of_erased_eq (p.erased_trimmed standalone),
      straight_of_erased_eq (p.erased_trimmed standalone).symm⟩

/-- A chain of blocks, with a partial block in its last link. -/
theorem Template.partialNames_ordered_iff_at_chain :
    let text := "\x7b\x7b#x\x7d\x7d\x7b\x7b> a\x7d\x7d\x7b\x7belse y\x7d\x7d"
      ++ "\x7b\x7b#> b\x7d\x7d\x7b\x7b/b\x7d\x7d\x7b\x7b/x\x7d\x7d"
    ∃ t, Template.parse text none true = .ok t ∧ t.partialNames = ["a", "b"]
      ∧ t.partialNames = t.root.partialEntries.map Prod.snd
      ∧ (∃ items, Item.readAll .origin text.toList = .ok items ∧ Ordered (entriesOf items)
        ∧ t.root.partialEntries.Perm (entriesOf items))
      ∧ (Ordered t.root.partialEntries ↔ ∀ p ∈ t.root.family, ∀ s ∈ p.body, ¬ s.Turned) := by
  intro text
  obtain ⟨t, ht, hnames⟩ := exists_ok (e := Template.parse text none true)
    (P := fun t => t.partialNames = ["a", "b"]) (by decide +kernel)
  exact ⟨t, ht, hnames, Template.partialNames_ordered_iff ht⟩

/-- Of a block that begins with its inverse section, the names in the other section come first:
    `a` stands in front of `b` in the file, and behind it in the list. -/
theorem Template.not_ordered_of_caret :
    ∃ t, Template.parse ("\x7b\x7b^x\x7d\x7d\x7b\x7b> a\x7d\x7d\x7b\x7belse\x7d\x7d"
        ++ "\x7b\x7b> b\x7d\x7d\x7b\x7b/x\x7d\x7d") none true = .ok t
      ∧ t.partialNames = ["b", "a"] ∧ t.root.partialEntries = [(⟨1, 21⟩, "b"), (⟨1, 6⟩, "a")]
      ∧ ¬ Ordered t.root.partialEntries := by
  obtain ⟨t, ht, hnames, hentries⟩ := exists_ok
    (e := Template.parse ("\x7b\x7b^x\x7d\x7d\x7b\x7b> a\x7d\x7d\x7b\x7belse\x7d\x7d"
      ++ "\x7b\x7b> b\x7d\x7d\x7b\x7b/x\x7d\x7d") none true)
    (P := fun t => t.partialNames = ["b", "a"]
      ∧ t.root.partialEntries = [(⟨1, 21⟩, "b"), (⟨1, 6⟩, "a")]) (by decide +kernel)
  refine ⟨t, ht, hnames, hentries, ?_⟩
  rw [hentries]
  intro hordered
  rcases List.rel_of_pairwise_cons hordered (List.mem_singleton_self _) with h | ⟨-, h⟩
  · exact absurd h (by decide)
  · exact absurd h (by decide)

end Stache
