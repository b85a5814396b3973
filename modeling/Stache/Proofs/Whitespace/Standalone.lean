/-
  Without the standalone rule more text is kept.

  The rule may be switched off.  Then the pass makes the cuts that tildes ask for and no others;
  with the rule on it makes these, and cuts of one line's worth among them.  So there are two RUNS
  over one tree, and they are compared as follows.

    1. TEXTS.  A cut of all blanks takes no less from a text because the text has been trimmed
       before: after it the one text is still the other one trimmed
       (`Text.Trimmed.dropBlankStart`, `dropBlankEnd`).  Hence a content keeps more if the cuts that
       it undergoes are all of this kind and a sublist of those of the other run
       (`Content.TrimmedTo.cutAll`).

    2. SPOTS.  The spots of the two runs correspond, and the cuts of each spot in the run without
       the rule are a sublist of its cuts in the other run (`Outline.spots_off`).

  Together: of each content the run without the rule keeps what the other run keeps, and maybe some
  blanks around it (`Template.parse_without_rule`).
-/
import Stache.Proofs.Whitespace.Frame
import Stache.Proofs.Whitespace.Settling
import Stache.Proofs.Whitespace.Descent

namespace Stache

/-! ## Texts -/

namespace Text

variable {s t : List Char}

theorem Trimmed.reverse (h : Trimmed s t) : Trimmed s.reverse t.reverse := by
  obtain ⟨front, back, rfl, hfront, hback⟩ := h
  exact ⟨back.reverse, front.reverse, by simp, by simpa using hback, by simpa using hfront⟩

/-- Blanks at the start, taken from both texts. -/
theorem Trimmed.dropBlankStart (h : Trimmed s t) :
    Trimmed (Text.dropBlankStart s) (Text.dropBlankStart t) := by
  obtain ⟨front, back, rfl, hfront, hback⟩ := h
  rw [Text.dropBlankStart, Text.dropBlankStart, List.dropWhile_append_of_pos hfront,
    List.dropWhile_append]
  split
  · -- Nothing but blanks is left, so the blanks behind go as well.
    rename_i hnone
    rw [List.isEmpty_iff.1 hnone, List.dropWhile_eq_nil_iff.2 hback]
    exact .refl []
  · exact ⟨[], back, rfl, by simp, hback⟩

/-- Blanks at the end, taken from both texts. -/
theorem Trimmed.dropBlankEnd (h : Trimmed s t) :
    Trimmed (Text.dropBlankEnd s) (Text.dropBlankEnd t) :=
  h.reverse.dropBlankStart.reverse

end Text

/-! ## Contents -/

theorem Content.trimmedTo_ofContent (cut : Cut) (c : Content) : c.TrimmedTo (cut.ofContent c) := by
  cases cut with
  | start e => exact c.trimmedTo_trimStart e
  | stop e => exact c.trimmedTo_trimEnd e

section TrimmedTo

variable {c c' : Content}

/-- A cut of all blanks, made to both contents. -/
theorem Content.TrimmedTo.ofContent (h : c.TrimmedTo c') {cut : Cut} (hcut : cut.extent = .all) :
    (cut.ofContent c).TrimmedTo (cut.ofContent c') := by
  cases cut with
  | start e =>
    obtain rfl : e = .all := hcut
    refine ⟨?_, h.written_eq, h.span_eq⟩
    simpa [Cut.ofContent, Content.trimStart] using h.value.dropBlankStart
  | stop e =>
    obtain rfl : e = .all := hcut
    refine ⟨?_, h.written_eq, h.span_eq⟩
    simpa [Cut.ofContent, Content.trimEnd] using h.value.dropBlankEnd

/-- **More cuts leave less**, if the fewer ones take all blanks. -/
theorem Content.TrimmedTo.cutAll {cuts cuts' : List Cut} (hcuts : cuts.Sublist cuts')
    (hall : CutsWithin (· = .all) cuts) (h : c.TrimmedTo c') :
    (c.cutAll cuts).TrimmedTo (c'.cutAll cuts') := by
  induction hcuts generalizing c c' with
  | slnil => exact h
  | cons cut _ ih => exact ih hall (h.trans (c'.trimmedTo_ofContent cut))
  | cons_cons cut _ ih =>
    have hcut := hall cut (List.mem_cons_self ..)
    exact ih (fun cut hmem => hall cut (List.mem_cons_of_mem _ hmem)) (h.ofContent hcut)

end TrimmedTo

/-! ## Cuts of the two runs

Nothing stands on a line of its own in the run without the rule, so a tag asks there only what its
tildes ask. -/

theorem Demand.asks_off (d : Demand) (w : Standing) :
    (d.asks ⟨false, false, false⟩).Sublist (d.asks w) := by
  simp [asks, List.append_assoc]

theorem Demand.carries_off (d : Demand) (w : Standing) :
    (d.carries ⟨false, false, false⟩).Sublist (d.carries w) := by
  simp [carries, List.append_assoc]

theorem Outline.asks_off (o : Outline) (standalone atTop atTop' : Bool) (left left' : Left) :
    (o.asks false atTop left).Sublist (o.asks standalone atTop' left') := by
  cases o with
  | nil => exact .refl _
  | bare item s rest => exact item.demand.asks_off _
  | block b close rest => exact (b.demand close).asks_off _

theorem BlockStrip.aroundMain_off (strip : BlockStrip) (alone : Bool) :
    (strip.aroundMain false).Sublist (strip.aroundMain alone) := by
  simp [aroundMain, cutIf]

theorem BlockStrip.aroundInverse_off (strip : BlockStrip) (alone : Bool) :
    (strip.aroundInverse false).Sublist (strip.aroundInverse alone) := by
  simp [aroundInverse, cutIf]

/-! ## Spots of the two runs -/

/-- A leaf of the run without the rule, and the same leaf of the other run, before any cut. -/
inductive Leaf.Beside : Leaf → Leaf → Prop where
  | content (c : Content) : Leaf.Beside (.content c) (.content c)
  | partialCall (indent : String) (span : Span) :
      Leaf.Beside (.partialCall "" span) (.partialCall indent span)

/-- A spot of the run without the rule, and the same spot of the other run. -/
structure Spot.Beside (spot spot' : Spot) : Prop where
  found : spot.found.Beside spot'.found
  cuts : spot.cuts.Sublist spot'.cuts

/-- What whoever comes to a row knows in the run without the rule, and in the other run. -/
structure RowContext.Beside (x x' : RowContext) : Prop where
  carried : x.carried.Sublist x'.carried
  cuts : x.cuts.Sublist x'.cuts

/-- What whoever comes to a block knows in the two runs. -/
structure BlockContext.Beside (x x' : BlockContext) : Prop where
  close_eq : x.close = x'.close
  lead : x.lead.Sublist x'.lead
  trail : x.trail.Sublist x'.trail

/-- A statement of one item has the same leaves in both runs, but for indentation. -/
theorem Item.Forms.beside {item : Item} {s : Statement} (h : item.Forms s) (ownLine : Bool)
    (indent : String) :
    List.Forall₂ Leaf.Beside s.leaves (s.indented ownLine indent).leaves := by
  cases h with
  | content h => cases ownLine <;> exact .cons (.content _) .nil
  | partialCall h hkind hcall => cases ownLine <;> exact .cons (.partialCall _ _) .nil
  | comment h | mustache h hkind hcall | decorator h hkind hcall => cases ownLine <;> exact .nil

section Beside

variable {standalone : Bool}

section Row

variable {x x' : RowContext} (hx : x.Beside x')

include hx

/-- The spots of one item correspond, -/
theorem RowContext.Beside.bareSpots {item : Item} {s : Statement} (hform : item.Forms s)
    (rest : Outline) :
    List.Forall₂ Spot.Beside (x.bareSpots false item s rest)
      (x'.bareSpots standalone item s rest) := by
  have hleaves := hform.beside (x'.standing standalone item.demand rest).ownLine
    (x'.left.indent item.strip.opening)
  refine List.rel_map (fun leaf leaf' hleaf => ⟨hleaf, ?_⟩) hleaves
  refine (hx.carried.append ((rest.asks_off ..).map _)).append ?_
  split
  · exact hx.cuts
  · exact hx.cuts.filter _

/-- and so does what comes behind it, -/
theorem RowContext.Beside.afterBare (item : Item) (s : Statement) (rest : Outline) :
    (x.afterBare false item s rest).Beside (x'.afterBare standalone item s rest) :=
  ⟨(item.demand.carries_off _).map _, hx.cuts.filter _⟩

/-- or behind a block. -/
theorem RowContext.Beside.afterBlock (b : Branch) (close : Item) (rest : Outline) :
    (x.afterBlock false b close rest).Beside (x'.afterBlock standalone b close rest) :=
  ⟨((b.demand close).carries_off _).map _, hx.cuts.filter _⟩

omit hx in
theorem RowContext.beside_atBlock (b : Branch) (close : Item) (rest : Outline) :
    (x.atBlock false b close rest).Beside (x'.atBlock standalone b close rest) :=
  ⟨rfl, List.nil_sublist _, List.nil_sublist _⟩

end Row

section Block

variable {x x' : BlockContext} (hx : x.Beside x') (standalone)

include hx

/-- The marks around its sections are the same, -/
theorem BlockContext.Beside.strip_eq (o : Opening) (divider : Strip) :
    x.strip o divider = x'.strip o divider := by
  rw [strip, strip, hx.close_eq]

/-- with one section, -/
theorem BlockContext.Beside.only (item : Item) (o : Opening) :
    (x.only item o).Beside (x'.only item o) := by
  refine ⟨List.nil_sublist _, ?_⟩
  show (_ ++ x.lead ++ x.trail).Sublist (_ ++ x'.lead ++ x'.trail)
  rw [hx.strip_eq]
  exact ((List.Sublist.refl _).append hx.lead).append hx.trail

/-- with two, for the first, -/
theorem BlockContext.Beside.first (item : Item) (o : Opening) (body : Outline) (divider : Strip)
    (after after' : List Item) (other other' : List Statement) :
    (x.first false item o body divider after other).Beside
      (x'.first standalone item o body divider after' other') := by
  refine ⟨List.nil_sublist _, ?_⟩
  simp only [BlockContext.first, RowContext.inside, hx.strip_eq]
  split
  · exact (BlockStrip.aroundInverse_off _ _).append hx.trail
  · exact (BlockStrip.aroundMain_off _ _).append hx.lead

/-- and the second, -/
theorem BlockContext.Beside.second (item : Item) (o : Opening) (body : Outline) (mark : Item)
    (inverse : Outline) :
    (x.second false item o body mark inverse).Beside
      (x'.second standalone item o body mark inverse) := by
  refine ⟨List.nil_sublist _, ?_⟩
  simp only [BlockContext.second, RowContext.inside, hx.strip_eq]
  split
  · exact (BlockStrip.aroundMain_off _ _).append hx.lead
  · exact (BlockStrip.aroundInverse_off _ _).append hx.trail

/-- and in a chain. -/
theorem BlockContext.Beside.chained (item : Item) (o : Opening) (body : Outline) (next : Branch) :
    (x.chained false item o body next).Beside (x'.chained standalone item o body next) := by
  refine ⟨hx.close_eq, ?_, List.nil_sublist _⟩
  simp only [BlockContext.chained, hx.strip_eq]
  split
  · exact .refl _
  · exact BlockStrip.aroundInverse_off _ _

end Block

mutual

/-- **The spots of a row** in the two runs: there are as many, and with the rule off the cuts of
    each are a sublist. -/
theorem Outline.spots_off {o : Outline} (h : o.Valid) {x x' : RowContext} (hx : x.Beside x') :
    List.Forall₂ Spot.Beside (o.spots false x) (o.spots standalone x') := by
  match o, h with
  | .nil, _ => exact .nil
  | .bare item s rest, ⟨hform, hrest⟩ =>
    exact List.rel_append (hx.bareSpots hform rest) (Outline.spots_off hrest (hx.afterBare ..))
  | .block b close rest, ⟨hb, _, hrest⟩ =>
    exact List.rel_append (Branch.spots_off hb (RowContext.beside_atBlock ..))
      (Outline.spots_off hrest (hx.afterBlock ..))

/-- So it is with a branch. -/
theorem Branch.spots_off {b : Branch} {chained : Bool} (h : b.Valid chained) {x x' : BlockContext}
    (hx : x.Beside x') :
    List.Forall₂ Spot.Beside (b.spots false x) (b.spots standalone x') := by
  -- both runs walk the sections in the same order
  match b, h with
  | .plain item o body, ⟨_, hbody⟩ => exact Outline.spots_off hbody (hx.only item o)
  | .withElse item o body mark inverse, ⟨_, _, hbody, _, hinverse⟩ =>
    have hfirst := Outline.spots_off hbody (hx.first standalone item o body mark.strip
      (mark :: (inverse.items ++ x.post)) (mark :: (inverse.items ++ x'.post))
      inverse.statements inverse.statements)
    have hsecond := Outline.spots_off hinverse (hx.second standalone item o body mark inverse)
    rw [Branch.spots, Branch.spots]
    split
    · exact List.rel_append hsecond hfirst
    · exact List.rel_append hfirst hsecond
  | .chain item o body next, ⟨_, _, hbody, hnext⟩ =>
    have hfirst := Outline.spots_off hbody (hx.first standalone item o body next.item.strip
      (next.items ++ x.post) (next.items ++ x'.post) (next.beyond o x.close)
      (next.beyond o x'.close))
    have hsecond := Branch.spots_off hnext (hx.chained standalone item o body next)
    rw [Branch.spots, Branch.spots]
    split
    · exact List.rel_append hsecond hfirst
    · exact List.rel_append hfirst hsecond

end

end Beside

/-! ## Leaves of the two runs -/

/-- A leaf as the run without the rule leaves it, and as the other run does. -/
inductive Leaf.KeptBeside : Leaf → Leaf → Prop where
  | content {c c' : Content} (h : c.TrimmedTo c') : Leaf.KeptBeside (.content c) (.content c')
  | partialCall (indent : String) (span : Span) :
      Leaf.KeptBeside (.partialCall "" span) (.partialCall indent span)

/-- Of a spot with fewer cuts more is kept, -/
theorem Spot.Beside.leaf {spot spot' : Spot} (h : spot.Beside spot')
    (hall : CutsWithin (· = .all) spot.cuts) : spot.leaf.KeptBeside spot'.leaf := by
  obtain ⟨place, found, cuts⟩ := spot
  obtain ⟨place', found', cuts'⟩ := spot'
  obtain ⟨hfound, hcuts⟩ := h
  cases hfound with
  | content c => exact .content ((Content.TrimmedTo.refl c).cutAll hcuts hall)
  | partialCall indent span => exact .partialCall indent span

/-- so it is with all leaves, -/
theorem Outline.leaves_off {o : Outline} (h : o.Valid) (standalone : Bool) :
    List.Forall₂ Leaf.KeptBeside ((o.spots false .top).map Spot.leaf)
      ((o.spots standalone .top).map Spot.leaf) := by
  have hspots : List.Forall₂ Spot.Beside (o.spots false .top) (o.spots standalone .top) :=
    Outline.spots_off h ⟨.refl _, .refl _⟩
  -- Without the rule a cut of one line's worth is not made at all.
  have hall : ∀ spot ∈ o.spots false .top, CutsWithin (· = .all) spot.cuts :=
    Outline.spots_within h (fun hon => Bool.noConfusion hon) (fun _ _ _ => rfl)
  rw [List.forall₂_map_left_iff, List.forall₂_map_right_iff]
  exact ((List.forall₂_and_left _ _).2 ⟨hall, hspots⟩).imp fun _ _ h => h.2.leaf h.1

/-! ## Trees of the two runs -/

/-- The first tree is the second one, but keeps more text. -/
structure Program.KeepsMore (p p' : Program) : Prop where
  /-- The trees have the same shape. -/
  erased_eq : p.erased = p'.erased
  /-- A content of the second tree is the one of the first without some blanks at its ends. -/
  contents : List.Forall₂ Content.TrimmedTo p.contents p'.contents
  /-- No partial of the first tree is indented. -/
  unindented : ∀ indent span, .partialCall indent span ∈ p.leaves → indent = ""

/-- and with the tree. -/
theorem Program.keepsMore_of_leaves {p p' : Program} (herased : p.erased = p'.erased)
    (h : List.Forall₂ Leaf.KeptBeside p.leaves p'.leaves) : p.KeepsMore p' := by
  refine ⟨herased, List.rel_filterMap ?_ h, ?_⟩
  · rintro _ _ (hc | _)
    · exact .some hc
    · exact .none
  · intro indent span hleaf
    obtain ⟨_, -, hkept⟩ := Script.exists_of_mem_forall₂ h hleaf
    cases hkept
    rfl

/-- **Without the standalone rule more text is kept.**  Whatever template can be parsed, with the
    rule or without it, can be parsed both ways.  The two trees have the same shape, the one with
    the rule has only lost blanks at the ends of its contents, and in the other one no partial is
    indented. -/
theorem Template.parse_without_rule {text : String} {source : Option String} {standalone : Bool}
    {t : Template} (h : Template.parse text source standalone = .ok t) :
    ∃ on off : Template, Template.parse text source true = .ok on
      ∧ Template.parse text source false = .ok off ∧ off.root.KeepsMore on.root := by
  obtain ⟨_, p, o, -, hp, -, hroot, ho⟩ := Template.parse_outlined h
  have hparse (standalone : Bool) :
      Template.parse text source standalone = .ok ⟨source, p.trimmed standalone⟩ := by
    rw [Template.parse, hp]
    rfl
  refine ⟨_, _, hparse true, hparse false, Program.keepsMore_of_leaves ?_ ?_⟩
  · exact (p.erased_trimmed false).trans (p.erased_trimmed true).symm
  · show List.Forall₂ _ (p.trimmed false).leaves (p.trimmed true).leaves
    rw [hroot, Outline.leaves_trimmed ho.valid, Outline.leaves_trimmed ho.valid]
    exact Outline.leaves_off ho.valid true

/-- Tildes among tags that have a line to themselves, in a chained section and around a partial. -/
theorem Template.parse_without_rule_at_chain :
    let text := "a \n\x7b\x7b#if b ~\x7d\x7d \n c\n \x7b\x7belse if d\x7d\x7d \n"
      ++ " \x7b\x7b> e\x7d\x7d\n\n\x7b\x7b~/if\x7d\x7d \nf"
    ∃ t, Template.parse text none true = .ok t ∧ ∃ on off : Template,
      Template.parse text none true = .ok on ∧ Template.parse text none false = .ok off
        ∧ off.root.KeepsMore on.root := by
  intro text
  obtain ⟨t, ht⟩ := exists_of_isOk (e := Template.parse text none true) (by decide +kernel)
  exact ⟨t, ht, Template.parse_without_rule ht⟩

end Stache
