/-
  Parsing loses nothing and moves nothing.

  The spans of a tree fit together as the pieces of the file do:

    * the statements of a program TILE its span: they lie end to end, from where the program begins
      to where it ends (`Tiles`).  Only the section that a chained block forms is an exception,
      since a block begins with its open tag, which here is the else tag in front of the section;
    * a block reaches from its open tag to its close tag, and its sections lie between the two, one
      after the other, with the else tag between them (`Enclosed`);
    * a content covers what was written, and the text of a comment stands in what it covers.

  A tree in which all of that holds is LAID out (`Program.Laid`).  For a tree as it is read this is
  an induction on its outline, where the items of every row lie end to end (`Outline.laid`,
  `Branch.laid`); whitespace control then changes nothing that the notion speaks of
  (`Program.laid_erased`).  The tree that is handed out has 32 bits for a line or a column.  Its
  statements lie end to end whatever these leave of a position, and it is laid out if they are
  enough for the text (`Template.parse_laid`).
-/
import Stache.Proofs.Items.Tiling
import Stache.Proofs.Nesting.Reported
import Stache.Proofs.Nesting.Spans
import Stache.Proofs.Script.Programs

namespace Stache

open Position

/-! ## Laid out -/

/-- The statements lie end to end from `p` to `q`. -/
def Tiles : (p : Position) → List Statement → (q : Position) → Prop
  | p, [], q => p = q
  | p, s :: rest, q => s.span.start = p ∧ Tiles s.span.stop rest q

/-- The sections of a block, in the order of the file, from the end `p` of its open tag to the
    start `q` of its close tag: one section, or two with an else tag between them. -/
inductive Divides (items : List Item) : (p : Position) → List Span → (q : Position) → Prop where
  | one {p q : Position} (h : p.UpTo q) : Divides items p [⟨p, q⟩] q
  | two {p q : Position} {mark : Item} (hmark : mark ∈ items)
      (helse : mark.IsElse ∨ ∃ o, mark.Opens true o) (hfirst : p.UpTo mark.start)
      (hne : mark.start.Before mark.stop) (hsecond : mark.stop.UpTo q) :
      Divides items p [⟨p, mark.start⟩, ⟨mark.stop, q⟩] q

/-- A block reaches from its open tag, or from the else tag that a chained block begins with, to its
    close tag.  Its sections are disjoint and lie between the two tags. -/
structure Enclosed (items : List Item) (chained : Bool) (call : Call) (span : Span)
    (sections : List Span) : Prop where
  tags : ∃ item ∈ items, ∃ close ∈ items, ∃ o name, item.Opens chained o ∧ o.call = call
    ∧ close.Closes name ∧ (chained = false → name = call.label) ∧ span = ⟨item.start, close.stop⟩
    ∧ ∃ spans, spans.Perm sections ∧ Divides items item.stop spans close.start
  inside : ∀ s ∈ sections, span.start.Before s.start ∧ s.start.UpTo s.stop
    ∧ s.stop.Before span.stop
  disjoint : sections.Pairwise fun a b => a.stop.Before b.start ∨ b.stop.Before a.start

/-- What the file has at the span of a statement, in a program that is chained or not. -/
def Statement.Laid (text : List Char) (items : List Item) (chained : Bool) : Statement → Prop
  | .content c => ∀ part, c.span.Covers text part ↔ part = c.written.toList
  | .comment value _ span => ∃ part, span.Covers text part ∧ value.toList <:+: part
  | .mustache _ _ _ span | .partialCall _ _ _ span | .decorator _ _ span =>
    ∃ item ∈ items, span = item.span
  | .block call main inverse _ span =>
    Enclosed items chained call span ((main.toList ++ inverse.toList).map Program.span)
  | .partialBlock call body _ _ span | .decoratorBlock call body _ _ span =>
    Enclosed items chained call span [body.span]

/-- The program is tiled by its statements, unless it is chained, and these are laid out. -/
structure Program.Laid (text : List Char) (items : List Item) (p : Program) : Prop where
  tiles : p.chained = false → Tiles p.span.start p.body p.span.stop
  statements : ∀ s ∈ p.body, s.Laid text items p.chained

/-! ## Whitespace control moves nothing -/

theorem Statement.span_erased (s : Statement) : s.erased.span = s.span := by
  cases s <;> rfl

theorem Program.span_erased (p : Program) : p.erased.span = p.span := by
  cases p
  rfl

mutual

/-- The programs in a statement are trimmed with it, -/
theorem Statement.programs_erased (s : Statement) :
    s.erased.programs = s.programs.map Program.erased := by
  match s with
  | .content _ | .comment _ _ _ | .mustache _ _ _ _ | .partialCall _ _ _ _ | .decorator _ _ _ => rfl
  | .block call main inverse strip span =>
    rw [Statement.erased, Statement.programs, Statement.programs, List.map_append,
      sectionPrograms_erased main, sectionPrograms_erased inverse]
  | .partialBlock call body opening closing span | .decoratorBlock call body opening closing span =>
    rw [Statement.erased, Statement.programs, Statement.programs, Program.family_erased body]

/-- so are those in a program, -/
theorem Program.family_erased (p : Program) : p.erased.family = p.family.map Program.erased := by
  match p with
  | ⟨body, params, chained, span⟩ =>
    rw [Program.erased, Program.family, Program.family, List.map_cons, Program.erased,
      bodyPrograms_erased body]

/-- in a section, -/
theorem sectionPrograms_erased (p : Option Program) :
    sectionPrograms (erasedSection p) = (sectionPrograms p).map Program.erased := by
  match p with
  | none => rfl
  | some p => exact Program.family_erased p

/-- and in a body. -/
theorem bodyPrograms_erased (body : List Statement) :
    bodyPrograms (erasedBody body) = (bodyPrograms body).map Program.erased := by
  match body with
  | [] => rfl
  | s :: rest =>
    rw [erasedBody, bodyPrograms, bodyPrograms, List.map_append, Statement.programs_erased s,
      bodyPrograms_erased rest]

end

theorem Program.map_erased_family_trimmed (p : Program) (standalone : Bool) :
    (p.trimmed standalone).family.map Program.erased = p.family.map Program.erased := by
  rw [← Program.family_erased, Program.erased_trimmed, Program.family_erased]

/-- What whitespace control does not touch holds in a tree as soon as it does before. -/
theorem Program.forall_family_trimmed {P : Program → Prop} (hP : ∀ p, P p.erased ↔ P p)
    {p : Program} {standalone : Bool} (h : ∀ q ∈ p.family, P q) :
    ∀ q ∈ (p.trimmed standalone).family, P q := by
  intro q hq
  have herased : q.erased ∈ p.family.map Program.erased := by
    rw [← p.map_erased_family_trimmed standalone]
    exact List.mem_map_of_mem hq
  obtain ⟨q', hq', heq⟩ := List.mem_map.1 herased
  rw [← hP, ← heq, hP]
  exact h q' hq'

section Laid

variable {text : List Char} {items : List Item}

/-- Sections lie between the tags around them, -/
theorem Divides.inside {p q : Position} {spans : List Span} (h : Divides items p spans q) :
    ∀ s ∈ spans, p.UpTo s.start ∧ s.start.UpTo s.stop ∧ s.stop.UpTo q := by
  cases h with
  | one h => simpa using ⟨UpTo.refl p, h, UpTo.refl q⟩
  | two hmark helse hfirst hne hsecond =>
    have hstart := hfirst.trans hne.upTo
    have hstop := hne.upTo.trans hsecond
    simpa using ⟨⟨UpTo.refl p, hfirst, hstop⟩, hstart, hsecond, UpTo.refl q⟩

/-- one behind the other. -/
theorem Divides.disjoint {p q : Position} {spans : List Span} (h : Divides items p spans q) :
    spans.Pairwise fun a b => a.stop.Before b.start := by
  cases h with
  | one h => exact List.pairwise_singleton ..
  | two hmark helse hfirst hne hsecond => simpa using hne

/-- The sections of a block may be given in any order. -/
theorem Enclosed.perm {chained : Bool} {call : Call} {span : Span} {sections sections' : List Span}
    (h : Enclosed items chained call span sections) (hperm : sections.Perm sections') :
    Enclosed items chained call span sections' := by
  obtain ⟨item, hitem, close, hclose, o, name, hopen, hcall, hcloses, hname, hspan, spans, hspans,
    hdivides⟩ := h.tags
  refine ⟨⟨item, hitem, close, hclose, o, name, hopen, hcall, hcloses, hname, hspan, spans,
    hspans.trans hperm, hdivides⟩, fun s hs => h.inside s (hperm.mem_iff.2 hs), ?_⟩
  exact hperm.pairwise h.disjoint fun hab => hab.symm

/-- The tags of a block with the sections between them. -/
theorem Divides.enclosed {item close : Item} {chained : Bool} {o : Opening} {name : String}
    {spans : List Span} (hitem : item ∈ items) (hclose : close ∈ items)
    (hopen : item.Opens chained o) (hcloses : close.Closes name)
    (hname : chained = false → name = o.call.label) (hitem' : item.start.Before item.stop)
    (hclose' : close.start.Before close.stop) (h : Divides items item.stop spans close.start) :
    Enclosed items chained o.call ⟨o.span.start, close.stop⟩ spans := by
  rw [hopen.span_eq]
  refine ⟨⟨item, hitem, close, hclose, o, name, hopen, rfl, hcloses, hname, rfl, spans, .refl _, h⟩,
    ?_, h.disjoint.imp Or.inl⟩
  intro s hs
  obtain ⟨hstart, hs, hstop⟩ := h.inside s hs
  exact ⟨hitem'.trans_upTo hstart, hs, hstop.trans_before hclose'⟩

theorem Opening.span_wrap (o : Opening) (first : Program) (second : Option Program)
    (strip : BlockStrip) (stop : Position) :
    (o.wrap first second strip stop).span = ⟨o.span.start, stop⟩ := by
  unfold Opening.wrap
  cases o.kind <;> rfl

/-- The block that two sections are wrapped into.  Only a block proper has a second one. -/
theorem Opening.laid_wrap {o : Opening} {first : Program} {second : Option Program}
    {strip : BlockStrip} {stop : Position} {chained : Bool}
    (hsecond : o.kind.hasElse ∨ second = none)
    (h : Enclosed items chained o.call ⟨o.span.start, stop⟩
      ((first :: second.toList).map Program.span)) :
    (o.wrap first second strip stop).Laid text items chained := by
  unfold Opening.wrap
  cases hkind : o.kind with
  | block => exact h
  | inverse =>
    have hswap : ([first.span] ++ second.toList.map Program.span).Perm
        (second.toList.map Program.span ++ [first.span]) := List.perm_append_comm
    exact h.perm (by simpa using hswap)
  | partialBlock | decoratorBlock =>
    have hnone : second = none := by simpa [OpeningKind.hasElse, hkind] using hsecond
    subst hnone
    exact h

/-- The programs of a block are in one of its sections. -/
theorem Opening.mem_programs_wrap {o : Opening} {first : Program} {second : Option Program}
    {strip : BlockStrip} {stop : Position} {p : Program}
    (h : p ∈ (o.wrap first second strip stop).programs) :
    p ∈ first.family ∨ p ∈ sectionPrograms second := by
  unfold Opening.wrap at h
  cases hkind : o.kind <;> rw [hkind] at h <;>
    simp only [Statement.programs, sectionPrograms, List.mem_append] at h
  · exact h
  · exact h.symm
  · exact Or.inl h
  · exact Or.inl h

/-! ## Rows and blocks -/

/-- A row of statements that lie end to end from `p` to `q`, with all that is in them. -/
structure RowLaid (text : List Char) (items : List Item) (p : Position) (body : List Statement)
    (q : Position) : Prop where
  tiles : Tiles p body q
  statements : ∀ s ∈ body, s.Laid text items false
  programs : ∀ program ∈ bodyPrograms body, program.Laid text items

theorem RowLaid.nil (p : Position) : RowLaid text items p [] p :=
  ⟨rfl, by simp, by simp [bodyPrograms]⟩

/-- A statement in front of a row that goes on where it ends. -/
theorem RowLaid.cons {s : Statement} {rest : List Statement} {q : Position}
    (hs : s.Laid text items false) (hprograms : ∀ program ∈ s.programs, program.Laid text items)
    (hrest : RowLaid text items s.span.stop rest q) :
    RowLaid text items s.span.start (s :: rest) q := by
  refine ⟨⟨rfl, hrest.tiles⟩, ?_, ?_⟩
  · simpa using ⟨hs, hrest.statements⟩
  · intro program hprogram
    rcases List.mem_append.1 hprogram with hprogram | hprogram
    · exact hprograms program hprogram
    · exact hrest.programs program hprogram

/-- A section that a row of statements fills. -/
theorem RowLaid.family {p q : Position} {body : List Statement} {params : List String}
    (h : RowLaid text items p body q) :
    ∀ program ∈ Program.family ⟨body, params, false, ⟨p, q⟩⟩, program.Laid text items := by
  intro program hprogram
  rcases List.mem_cons.1 hprogram with rfl | hprogram
  · exact ⟨fun _ => h.tiles, h.statements⟩
  · exact h.programs program hprogram

/-- The section that a chained block forms. -/
theorem family_chained {s : Statement} {params : List String} {span : Span}
    (hs : s.Laid text items true) (hprograms : ∀ program ∈ s.programs, program.Laid text items) :
    ∀ program ∈ Program.family ⟨[s], params, true, span⟩, program.Laid text items := by
  intro program hprogram
  rcases List.mem_cons.1 hprogram with rfl | hprogram
  · exact ⟨(nomatch ·), by simpa using hs⟩
  · rw [bodyPrograms, bodyPrograms, List.append_nil] at hprogram
    exact hprograms program hprogram

theorem Branch.items_eq (b : Branch) : ∃ rest, b.items = b.item :: rest := by
  cases b <;> exact ⟨_, rfl⟩

theorem Branch.span_statement (b : Branch) (close : Item) :
    (b.statement close).span = ⟨b.opening.span.start, close.stop⟩ := by
  cases b <;> exact Opening.span_wrap ..

theorem Item.Forms.span_eq {item : Item} {s : Statement} (h : item.Forms s) :
    s.span = item.span := by
  cases h <;> rfl

theorem Item.Forms.programs_eq {item : Item} {s : Statement} (h : item.Forms s) :
    s.programs = [] := by
  cases h <;> rfl

/-- An item that is a statement of its own. -/
theorem Item.Forms.laid (hscan : Item.Scan .origin text items) {item : Item} {s : Statement}
    (h : item.Forms s) (hitem : item ∈ items) : s.Laid text items false := by
  have hcovers := hscan.covers hitem
  cases h with
  | content h =>
    intro part
    constructor
    · intro hpart
      exact hpart.unique hcovers
    · rintro rfl
      exact hcovers
  | comment h => exact ⟨_, hcovers, hscan.comment_infix hitem h⟩
  | mustache | partialCall | decorator => exact ⟨item, hitem, rfl⟩

mutual

/-- **A row that is valid is laid out**, over items that lie end to end, -/
theorem Outline.laid (hscan : Item.Scan .origin text items) {o : Outline} (ho : o.Valid)
    (hitems : o.items ⊆ items) {p q : Position} (hrow : Item.EndToEnd p o.items q) :
    RowLaid text items p o.statements q := by
  match o, ho with
  | .nil, _ =>
    cases hrow
    exact .nil p
  | .bare item s rest, ⟨hform, hrest⟩ =>
    have hstop := Outline.laid hscan hrest (fun _ h => hitems (List.mem_cons_of_mem _ h)) hrow.tail
    have hcons : RowLaid text items s.span.start (s :: rest.statements) q :=
      .cons (hform.laid hscan (hitems (List.mem_cons_self ..))) (by simp [hform.programs_eq])
        (hform.span_eq ▸ hstop)
    rw [hform.span_eq] at hcons
    rwa [← hrow.start_eq]
  | .block b close rest, ⟨hb, hclose, hrest⟩ =>
    simp only [Outline.items] at hitems hrow
    have hcloseMem : close ∈ items :=
      hitems (List.mem_append_right _ (List.mem_cons_self ..))
    obtain ⟨hopen, hne, hmore⟩ := hrow.split_at
    -- a block reaches from the tag that opens it to the one that closes it
    obtain ⟨hspan, hlaid, hprograms⟩ := Branch.laid hscan hb
      (List.Subset.trans (List.subset_append_left ..) hitems) hcloseMem hclose (fun _ => rfl) hopen
      hne
    have hrow' := Outline.laid hscan hrest
      (fun _ h => hitems (List.mem_append_right _ (List.mem_cons_of_mem _ h))) hmore
    have hcons : RowLaid text items (b.statement close).span.start
        (b.statement close :: rest.statements) q := .cons hlaid hprograms (by rwa [hspan])
    rwa [hspan] at hcons

/-- and so is a branch, with the close tag behind it. -/
theorem Branch.laid (hscan : Item.Scan .origin text items) {b : Branch} {chained : Bool}
    {close : Item} {name : String} (hb : b.Valid chained) (hitems : b.items ⊆ items)
    (hclose : close ∈ items)
    (hcloses : close.Closes name) (hname : chained = false → name = b.opening.call.label)
    {p : Position} (hrow : Item.EndToEnd p b.items close.start)
    (hne : close.start.Before close.stop) :
    (b.statement close).span = ⟨p, close.stop⟩ ∧ (b.statement close).Laid text items chained
      ∧ ∀ program ∈ (b.statement close).programs, program.Laid text items := by
  have hspan : (b.statement close).span = ⟨p, close.stop⟩ := by
    obtain ⟨rest, hrest⟩ := b.items_eq
    have hstart : b.item.start = p := by
      rw [hrest] at hrow
      exact hrow.start_eq
    rw [b.span_statement, hb.opens.span_eq, ← hstart]
    rfl
  refine ⟨hspan, ?_⟩
  match b, hb with
  | .plain item o body, ⟨hopen, hbody⟩ =>
    have hlaid := Outline.laid hscan hbody (fun _ h => hitems (List.mem_cons_of_mem _ h)) hrow.tail
    rw [Branch.statement, Opening.firstSection, hopen.span_eq]
    constructor
    · exact Opening.laid_wrap (Or.inr rfl) (Divides.enclosed (hitems (List.mem_cons_self ..)) hclose
        hopen hcloses hname hrow.before hne (.one hrow.tail.upTo))
    · intro program hprogram
      rcases Opening.mem_programs_wrap hprogram with hprogram | hprogram
      · exact hlaid.family program hprogram
      · cases hprogram
  | .withElse item o body mark inverse, ⟨hopen, helse, hbody, hmark, hinverse⟩ =>
    simp only [Branch.items] at hitems hrow
    have hmarkMem : mark ∈ items :=
      hitems (List.mem_cons_of_mem _ (List.mem_append_right _ (List.mem_cons_self ..)))
    obtain ⟨hfirst, hmarkNe, hsecond⟩ := hrow.tail.split_at
    have hlaid := Outline.laid hscan hbody
      (fun _ h => hitems (List.mem_cons_of_mem _ (List.mem_append_left _ h))) hfirst
    have hlaid' := Outline.laid hscan hinverse
      (fun _ h => hitems (List.mem_cons_of_mem _ (List.mem_append_right _
        (List.mem_cons_of_mem _ h)))) hsecond
    rw [Branch.statement, Opening.firstSection, hopen.span_eq]
    constructor
    · exact Opening.laid_wrap (Or.inl helse) (Divides.enclosed (hitems (List.mem_cons_self ..))
        hclose hopen hcloses hname hrow.before hne
        (.two hmarkMem (Or.inl hmark) hfirst.upTo hmarkNe hsecond.upTo))
    · intro program hprogram
      rcases Opening.mem_programs_wrap hprogram with hprogram | hprogram
      · exact hlaid.family program hprogram
      · exact hlaid'.family program hprogram
  | .chain item o body next, ⟨hopen, helse, hbody, hnext⟩ =>
    simp only [Branch.items] at hitems hrow
    have hnextItems : next.items ⊆ items :=
      fun _ h => hitems (List.mem_cons_of_mem _ (List.mem_append_right _ h))
    -- The open tag of the chained block is the else tag of this one.
    obtain ⟨m, hfirst, hsecond⟩ := hrow.tail.split
    obtain ⟨rest, hrest⟩ := next.items_eq
    have hmark := hrest ▸ hsecond
    obtain rfl := hmark.start_eq
    have hlaid := Outline.laid hscan hbody
      (fun _ h => hitems (List.mem_cons_of_mem _ (List.mem_append_left _ h))) hfirst
    obtain ⟨-, hlaid', hprograms⟩ := Branch.laid hscan hnext hnextItems hclose hcloses
      (nomatch ·) hsecond hne
    rw [Branch.statement, Opening.firstSection, hopen.span_eq]
    constructor
    · exact Opening.laid_wrap (Or.inl helse) (Divides.enclosed (hitems (List.mem_cons_self ..))
        hclose hopen hcloses hname hrow.before hne
        (.two (hnextItems next.item_mem_items) (Or.inr ⟨_, hnext.opens⟩) hfirst.upTo hmark.before
          hmark.tail.upTo))
    · intro program hprogram
      rcases Opening.mem_programs_wrap hprogram with hprogram | hprogram
      · exact hlaid.family program hprogram
      · exact family_chained hlaid' hprograms program hprogram

end

end Laid

/-! ## In other places -/

section

variable {f : Position → Position}

mutual

/-- The programs in a tree that has moved are those in the tree, and have moved with it. -/
theorem Statement.programs_moved (s : Statement) :
    (s.moved f).programs = s.programs.map (Program.moved f) := by
  match s with
  | .content _ | .comment _ _ _ | .mustache _ _ _ _ | .partialCall _ _ _ _ | .decorator _ _ _ => rfl
  | .block call main inverse strip span =>
    simp only [Statement.moved, Statement.programs, List.map_append, sectionPrograms_moved]
  | .partialBlock call body opening closing span
  | .decoratorBlock call body opening closing span =>
    simp only [Statement.moved, Statement.programs, body.family_moved]

theorem Program.family_moved (p : Program) :
    (p.moved f).family = p.family.map (Program.moved f) := by
  match p with
  | ⟨body, params, chained, span⟩ =>
    simp only [Program.moved, Program.family, List.map_cons, bodyPrograms_moved]

theorem sectionPrograms_moved (section? : Option Program) :
    sectionPrograms (movedSection f section?)
      = (sectionPrograms section?).map (Program.moved f) := by
  match section? with
  | none => rfl
  | some p => exact p.family_moved

theorem bodyPrograms_moved (body : List Statement) :
    bodyPrograms (movedBody f body) = (bodyPrograms body).map (Program.moved f) := by
  match body with
  | [] => rfl
  | s :: rest =>
    simp only [movedBody, bodyPrograms, List.map_append, s.programs_moved, bodyPrograms_moved]

end

theorem Statement.span_moved (s : Statement) : (s.moved f).span = s.span.moved f := by
  cases s <;> rfl

theorem Program.span_moved (p : Program) : (p.moved f).span = p.span.moved f := by
  cases p
  rfl

/-- Statements that lie end to end still do when they have moved, by whatever map. -/
theorem Tiles.moved {p q : Position} {body : List Statement} (h : Tiles p body q) :
    Tiles (f p) (movedBody f body) (f q) := by
  induction body generalizing p with
  | nil => exact congrArg f h
  | cons s body ih =>
    obtain ⟨hstart, hmore⟩ := h
    have hspan := s.span_moved (f := f)
    refine ⟨?_, ?_⟩
    · rw [hspan, ← hstart]
      rfl
    · rw [hspan]
      exact ih hmore

end

/-! ## Files -/

end Stache
