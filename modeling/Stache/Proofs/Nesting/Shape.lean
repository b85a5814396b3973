/-
  The shape of a tree.

  Not every tree of statements is that of a file.  Whatever is done with a tree after it is read
  relies on it having the SHAPE of one (`Program.WellShaped`), in four respects.

    1. CALLS.  What is called is a name, a path leads somewhere, and a hash that is there holds a
       pair.  The grammar sees to it: it holds of all that is derived (`CallTree.complete`).
    2. STATEMENTS.  A content is written with some characters and a block has a section.  Each item
       forms such statements, and opens such blocks (`Item.Forms.wellShaped`,
       `Item.Opens.wellShaped_wrap`).
    3. ROWS.  No content stands beside another one, since among the items none does
       (`Outline.isolated`).
    4. SECTIONS.  A chained section holds the block of its else tag and nothing else.  The sections
       of an outline are rows, or chained (`Outline.forall_programs`).

  Whitespace control keeps all four, so the trees of files have this shape before it and after it
  (`Template.parse_wellShaped`).
-/
import Mathlib.Data.List.Chain
import Stache.Proofs.Grammar.Callees
import Stache.Proofs.Items.Edges
import Stache.Proofs.Whitespace.Settling

namespace Stache

/-! ## Calls -/

/-- A path has a part, unless it leads to the context itself or to one around it. -/
def Path.Leads (p : Path) : Prop := p.parts = [] → p.thisScoped = true ∨ 0 < p.depth

mutual

/-- Nothing in the expression is missing: its paths lead somewhere, and its hashes hold pairs. -/
def Expression.Complete : Expression → Prop
  | .path p => p.Leads
  | .subexpression call _ => call.Complete
  | .string _ _ _ | .number _ _ | .boolean _ _ | .undefined _ | .null _ => True

/-- A call is complete if its callee is, -/
def Call.Complete : Call → Prop
  | ⟨callee, params, hash⟩ => callee.Complete ∧ paramsComplete params ∧ hashComplete hash

/-- all its parameters are, -/
def paramsComplete : List Expression → Prop
  | [] => True
  | e :: rest => e.Complete ∧ paramsComplete rest

/-- its hash holds a pair, -/
def hashComplete : Option Hash → Prop
  | none => True
  | some ⟨pairs, _⟩ => pairs ≠ [] ∧ pairsComplete pairs

/-- and all values are. -/
def pairsComplete : List Pair → Prop
  | [] => True
  | ⟨_, value, _⟩ :: rest => value.Complete ∧ pairsComplete rest

end

theorem hashComplete_ofPairs {pairs : List Pair} (h : pairsComplete pairs) :
    hashComplete (Hash.ofPairs pairs) := by
  cases pairs with
  | nil => trivial
  | cons pair rest => exact ⟨List.cons_ne_nil _ _, h⟩

namespace Grammar

/-- A path without parts consists of steps, the first of which leads somewhere. -/
theorem PathTree.leads (p : PathTree) (data : Bool) (start : Position) :
    (p.path data start).Leads := by
  intro hparts
  have hsteps : ∀ s ∈ p.segments, s.isStep = true := by
    simpa [path] using hparts
  obtain ⟨first, rest, hsegments⟩ : ∃ first rest, p.segments = first :: rest := ⟨_, _, rfl⟩
  have hfirst : first ∈ p.segments := hsegments ▸ List.mem_cons_self ..
  by_cases hup : first.name = ".."
  · right
    exact List.countP_pos_iff.2 ⟨first, hfirst, by simp [hsteps first hfirst, hup]⟩
  · left
    exact List.any_eq_true.2 ⟨first, hfirst, by simp [hsteps first hfirst, hup]⟩

/-- Names are complete, -/
theorem NameTree.complete (n : NameTree) : n.expression.Complete := by
  cases n with
  | path p | data at' p => exact p.leads _ _
  | literal t e h =>
    show e.Complete
    unfold literal? at h
    split at h <;> cases h <;> trivial

mutual

/-- parameters are, -/
theorem ParamTree.complete (p : ParamTree) : p.expression.Complete := by
  match p with
  | .name n => exact n.complete
  | .parens _ call _ => exact call.complete

/-- **In a call that is derived nothing is missing**, all the way down. -/
theorem CallTree.complete (c : CallTree) : c.call.Complete := by
  match c with
  | ⟨callee, params, pairs⟩ =>
    exact ⟨callee.complete, paramsComplete_expressions params,
      hashComplete_ofPairs (pairsComplete_of pairs)⟩

theorem paramsComplete_expressions (params : List ParamTree) :
    paramsComplete (paramsExpressions params) := by
  match params with
  | [] => trivial
  | p :: rest => exact ⟨p.complete, paramsComplete_expressions rest⟩

theorem pairsComplete_of (pairs : List PairTree) : pairsComplete (pairsOf pairs) := by
  match pairs with
  | [] => trivial
  | ⟨_, _, value⟩ :: rest => exact ⟨value.complete, pairsComplete_of rest⟩

end

theorem PartialTree.complete (d : PartialTree) : d.call.Complete :=
  ⟨d.callee.complete, paramsComplete_expressions d.params,
    hashComplete_ofPairs (pairsComplete_of d.pairs)⟩

end Grammar

/-- The call of a tag. -/
theorem Call.ReadFrom.complete {ts : List Token} {call : Call} (h : call.ReadFrom ts) :
    call.Complete := by
  obtain ⟨d, -, rfl⟩ | ⟨d, -, rfl⟩ := h.exists_tree
  · exact d.complete
  · exact d.complete

/-! ## Statements -/

/-- A block has a main section or an inverse one. -/
def Statement.HasSection : Statement → Prop
  | .block _ main inverse _ _ => main.isSome = true ∨ inverse.isSome = true
  | _ => True

/-- A statement as a file may have it, its sections apart. -/
structure Statement.WellShaped (s : Statement) : Prop where
  /-- A content is written with some characters. -/
  written : ∀ w, s.written? = some w → w ≠ ""
  hasSection : s.HasSection
  /-- Only the name of a partial may be computed. -/
  proper : s.Proper
  complete : ∀ call, s.call? = some call → call.Complete

/-- Whitespace control leaves a statement in its shape. -/
theorem Statement.wellShaped_erased (s : Statement) : s.erased.WellShaped ↔ s.WellShaped := by
  have hwritten : s.erased.written? = s.written? := by cases s <;> rfl
  have hsection : s.erased.HasSection ↔ s.HasSection := by
    cases s with
    | block call main inverse strip span => cases main <;> cases inverse <;> rfl
    | _ => exact Iff.rfl
  constructor
  · rintro ⟨h₁, h₂, h₃, h₄⟩
    exact ⟨hwritten ▸ h₁, hsection.1 h₂, s.proper_erased.1 h₃, s.call?_erased ▸ h₄⟩
  · rintro ⟨h₁, h₂, h₃, h₄⟩
    exact ⟨hwritten ▸ h₁, hsection.2 h₂, s.proper_erased.2 h₃, s.call?_erased ▸ h₄⟩

section

variable {items : List Item}

theorem Statement.ReadFrom.complete {s : Statement} (h : s.ReadFrom items) :
    ∀ call, s.call? = some call → call.Complete := by
  intro call hcall
  obtain ⟨_, _, _, _, hread⟩ := h call hcall
  exact hread.complete

/-- A statement of one item is well shaped, -/
theorem Item.Forms.wellShaped {item : Item} {s : Statement} (h : item.Forms s)
    (hitem : item.lexeme.toList ≠ []) : s.WellShaped := by
  refine ⟨?_, ?_, h.proper, (h.readFrom (List.mem_singleton_self item)).complete⟩
  · intro w hw hempty
    cases h with
    | content h =>
      obtain rfl := Option.some.inj hw
      exact hitem (String.toList_eq_nil_iff.2 hempty)
    | _ => cases hw
  · cases h <;> trivial

/-- and so is a block, since it has a section. -/
theorem Item.Opens.wellShaped_wrap {item : Item} {chained : Bool} {o : Opening}
    (h : item.Opens chained o) (first : Program) (second : Option Program) (strip : BlockStrip)
    (stop : Position) : (o.wrap first second strip stop).WellShaped := by
  refine ⟨?_, ?_, h.proper_wrap first second strip stop,
    (h.readFrom_wrap (List.mem_singleton_self item)).complete⟩
  · intro w hw
    have hnone := Statement.not_isContent_iff.1 (o.wrap_not_isContent first second strip stop)
    rw [hnone] at hw
    cases hw
  · unfold Opening.wrap
    cases o.kind with
    | block => exact .inl rfl
    | inverse => exact .inr rfl
    | partialBlock | decoratorBlock => trivial

end

/-! ## Rows -/

/-- No content stands beside another one. -/
def Isolated (body : List Statement) : Prop :=
  body.IsChain fun s s' => ¬ (s.IsContent ∧ s'.IsContent)

/-- The same of items. -/
def ItemsIsolated (items : List Item) : Prop :=
  items.IsChain fun a b => a.scanned = none ∨ b.scanned = none

theorem Item.Forms.scanned_ne_none {item : Item} {s : Statement} (h : item.Forms s)
    (hs : s.IsContent) : item.scanned ≠ none := by
  cases h with
  | content h => simp [Item.scanned, h]
  | _ => cases hs

/-- If a row begins with content, so do its items. -/
theorem Outline.head_scanned {o : Outline} (ho : o.Valid) {s : Statement}
    (hs : s ∈ o.statements.head?) (hcontent : s.IsContent) :
    ∃ item ∈ o.items.head?, item.scanned ≠ none := by
  match o, ho with
  | .nil, _ => cases hs
  | .bare item s' rest, ⟨hform, _⟩ =>
    obtain rfl := Option.some.inj hs
    exact ⟨item, rfl, hform.scanned_ne_none hcontent⟩
  | .block b close rest, _ =>
    obtain rfl := Option.some.inj hs
    exact (b.statement_not_isContent close hcontent).elim

/-- **No content of a row stands beside another one**, if that is so among its items. -/
theorem Outline.isolated {o : Outline} (ho : o.Valid) (h : ItemsIsolated o.items) :
    Isolated o.statements := by
  match o, ho with
  | .nil, _ => exact .nil
  | .bare item s rest, ⟨hform, hrest⟩ =>
    obtain ⟨hitem, hitems⟩ := List.isChain_cons.1 h
    refine List.isChain_cons.2 ⟨?_, Outline.isolated hrest hitems⟩
    rintro s' hs' ⟨hs, hs''⟩
    obtain ⟨next, hnext, hscanned⟩ := Outline.head_scanned hrest hs' hs''
    rcases hitem next hnext with hnone | hnone
    · exact hform.scanned_ne_none hs hnone
    · exact hscanned hnone
  | .block b close rest, ⟨_, _, hrest⟩ =>
    have hitems : ItemsIsolated rest.items := (List.isChain_append.1 h).2.1.tail
    refine List.isChain_cons.2 ⟨?_, Outline.isolated hrest hitems⟩
    rintro s' - ⟨hs, -⟩
    exact b.statement_not_isContent close hs

/-! ## Sections -/

/-- `P` holds of every section that the items fill: of the rows, whose items stand together, and of
    the chained sections. -/
structure SectionsForall (P : Program → Prop) (items : List Item) : Prop where
  row : ∀ o : Outline, o.Valid → o.items <:+: items → ∀ params span,
    P ⟨o.statements, params, false, span⟩
  chained : ∀ b : Branch, b.Valid true → ∀ (close mark : Item) (stop : Position),
    P (mark.elseSection true [b.statement close] stop)

section Sections

variable {P : Program → Prop} {items : List Item}

mutual

/-- **The sections in a row**, however deep. -/
theorem Outline.forall_programs (hP : SectionsForall P items) {o : Outline} (ho : o.Valid)
    (hitems : o.items <:+: items) : ∀ p ∈ bodyPrograms o.statements, P p := by
  match o, ho with
  | .nil, _ => exact List.forall_mem_nil _
  | .bare item s rest, ⟨hform, hrest⟩ =>
    have hrest := Outline.forall_programs hP hrest ((List.suffix_cons _ _).isInfix.trans hitems)
    rw [Outline.statements, bodyPrograms, hform.programs_eq]
    exact hrest
  | .block b close rest, ⟨hb, _, hrest⟩ =>
    have hblock := Branch.forall_programs hP hb ((List.prefix_append _ _).isInfix.trans hitems)
      close
    have hrest := Outline.forall_programs hP hrest
      ((List.suffix_cons _ _).isInfix.trans ((List.suffix_append _ _).isInfix.trans hitems))
    exact List.forall_mem_append.2 ⟨hblock, hrest⟩

/-- So it is with a branch and the close tag behind it. -/
theorem Branch.forall_programs (hP : SectionsForall P items) {b : Branch} {chained : Bool}
    (hb : b.Valid chained) (hitems : b.items <:+: items) (close : Item) :
    ∀ p ∈ (b.statement close).programs, P p := by
  -- A row as the section of a block, with the sections in it.
  have hfamily {o : Outline} (ho : o.Valid) (hitems : o.items <:+: items)
      (hprograms : ∀ p ∈ bodyPrograms o.statements, P p) (params : List String) (span : Span) :
      ∀ p ∈ Program.family ⟨o.statements, params, false, span⟩, P p :=
    List.forall_mem_cons.2 ⟨hP.row o ho hitems params span, hprograms⟩
  match b, hb with
  | .plain item o body, ⟨_, hbody⟩ =>
    have hinside := (List.suffix_cons item body.items).isInfix.trans hitems
    intro p hp
    obtain hp | hp := Opening.mem_programs_wrap hp
    · exact hfamily hbody hinside (Outline.forall_programs hP hbody hinside) _ _ p hp
    · cases hp
  | .withElse item o body mark inverse, ⟨_, _, hbody, _, hinverse⟩ =>
    have hafter : body.items ++ mark :: inverse.items <:+: items :=
      (List.suffix_cons _ _).isInfix.trans hitems
    have hfirst := (List.prefix_append _ _).isInfix.trans hafter
    have hsecond := (List.suffix_cons _ _).isInfix.trans
      ((List.suffix_append _ _).isInfix.trans hafter)
    intro p hp
    obtain hp | hp := Opening.mem_programs_wrap hp
    · exact hfamily hbody hfirst (Outline.forall_programs hP hbody hfirst) _ _ p hp
    · exact hfamily hinverse hsecond (Outline.forall_programs hP hinverse hsecond) _ _ p hp
  | .chain item o body next, ⟨_, _, hbody, hnext⟩ =>
    have hafter : body.items ++ next.items <:+: items :=
      (List.suffix_cons _ _).isInfix.trans hitems
    have hfirst := (List.prefix_append _ _).isInfix.trans hafter
    have hsecond := (List.suffix_append _ _).isInfix.trans hafter
    intro p hp
    obtain hp | hp := Opening.mem_programs_wrap hp
    · exact hfamily hbody hfirst (Outline.forall_programs hP hbody hfirst) _ _ p hp
    · obtain rfl | hp := List.mem_cons.1 hp
      -- a chained section holds the branch that is chained, and nothing else
      · exact hP.chained next hnext close next.item close.start
      · rw [bodyPrograms, bodyPrograms, List.append_nil] at hp
        exact Branch.forall_programs hP hnext hsecond close p hp

end

/-- The sections of a file, before whitespace control. -/
theorem Program.ofItems_forall_programs (hP : SectionsForall P items) {stop : Position}
    {p : Program} (h : Program.ofItems items stop = .ok p) : ∀ q ∈ p.family, P q := by
  obtain ⟨hp, o, ho⟩ := Program.ofItems_outlined h
  have hitems : o.items <:+: items := ho.items_eq ▸ List.infix_rfl
  rw [hp, ← ho.statements_eq]
  exact List.forall_mem_cons.2
    ⟨hP.row o ho.valid hitems _ _, Outline.forall_programs hP ho.valid hitems⟩

end Sections

/-! ## Together -/

/-- A section as a file may have it, the sections in it apart. -/
structure Program.WellShaped (p : Program) : Prop where
  isolated : Isolated p.body
  /-- A chained section holds nothing but a block that has a main section. -/
  links : p.Links
  statements : ∀ s ∈ p.body, s.WellShaped

/-- Contents stay isolated, -/
theorem isolated_erasedBody {body : List Statement} :
    Isolated (erasedBody body) ↔ Isolated body := by
  have hcontent (s : Statement) : s.erased.IsContent ↔ s.IsContent := by cases s <;> rfl
  rw [erasedBody_eq_map, Isolated, List.isChain_map]
  simp only [hcontent]
  rfl

/-- sections stay chained, -/
theorem Program.chained_erased (p : Program) : p.erased.chained = p.chained := by
  cases p
  rfl

/-- with the same block in them, -/
theorem Program.links_erased (p : Program) : p.erased.Links ↔ p.Links := by
  obtain ⟨body, params, chained, span⟩ := p
  refine imp_congr_right fun _ => ?_
  show (∃ call main inverse strip span,
    erasedBody body = [.block call (some main) inverse strip span] ∧ main.chained = false) ↔ _
  constructor
  · rintro ⟨call, main, inverse, strip, span, hbody, hmain⟩
    match body, hbody with
    | [.block _ (some main') inverse' _ _], hbody =>
      obtain ⟨hs, -⟩ := List.cons.inj hbody
      simp only [Statement.erased, Statement.block.injEq, erasedSection, Option.some.injEq] at hs
      obtain ⟨rfl, rfl, -, rfl, rfl⟩ := hs
      exact ⟨_, main', inverse', _, _, rfl, main'.chained_erased ▸ hmain⟩
  · rintro ⟨call, main, inverse, strip, span, rfl, hmain⟩
    exact ⟨call, main.erased, erasedSection inverse, strip, span, rfl,
      main.chained_erased.trans hmain⟩

/-- and the whole keeps its shape. -/
theorem Program.wellShaped_erased (p : Program) : p.erased.WellShaped ↔ p.WellShaped := by
  have hbody : p.erased.body = erasedBody p.body := by
    cases p
    rfl
  have hstatements : (∀ s ∈ p.erased.body, s.WellShaped) ↔ ∀ s ∈ p.body, s.WellShaped := by
    rw [hbody, erasedBody_eq_map, List.forall_mem_map]
    exact forall₂_congr fun s _ => s.wellShaped_erased
  constructor
  · rintro ⟨h₁, h₂, h₃⟩
    exact ⟨isolated_erasedBody.1 (hbody ▸ h₁), p.links_erased.1 h₂, hstatements.1 h₃⟩
  · rintro ⟨h₁, h₂, h₃⟩
    exact ⟨hbody ▸ isolated_erasedBody.2 h₁, p.links_erased.2 h₂, hstatements.2 h₃⟩

/-- The tree of a text, before whitespace control. -/
theorem Program.ofItems_wellShaped {q : Position} {text : List Char} {items : List Item}
    (hscan : Item.Scan q text items) {stop : Position} {p : Program}
    (h : Program.ofItems items stop = .ok p) : ∀ q ∈ p.family, q.WellShaped := by
  have hitems : ItemsIsolated items :=
    List.isChain_iff_forall_rel_of_append_cons_cons.2 fun _ _ _ _ h => hscan.content_isolated h
  have hsections : SectionsForall (fun q => Isolated q.body ∧ q.Links) items := by
    refine ⟨?_, ?_⟩
    · intro o ho hinfix params span
      have hrow := List.IsChain.infix hitems hinfix
      exact ⟨Outline.isolated ho hrow, nofun⟩
    · intro b hb close mark stop
      exact ⟨.singleton _, hb.links close mark stop⟩
  have hstatements : ItemsForall Statement.WellShaped items :=
    ⟨fun item hitem s hform => hform.wellShaped (hscan.lexeme_ne_nil hitem),
      fun _ _ _ _ hopen => hopen.wellShaped_wrap⟩
  intro q hq
  obtain ⟨hisolated, hlinks⟩ := Program.ofItems_forall_programs hsections h q hq
  exact ⟨hisolated, hlinks, Program.ofItems_forall_statements hstatements h q hq⟩

/-- **The shape of a tree.**  In every template that is parsed, no content stands beside another one
    and none is written with nothing; each block has a section, and a chained section is one block
    with a main section; what is called is a name, but for partials, each path leads somewhere, and
    each hash holds a pair. -/
theorem Template.parse_wellShaped {text : String} {source : Option String} {standalone : Bool}
    {t : Template} (h : Template.parse text source standalone = .ok t) :
    ∀ p ∈ t.root.family, p.WellShaped := by
  obtain ⟨items, p, o, hitems, hp, rfl, -, -⟩ := Template.parse_outlined h
  rw [Program.ofText, hitems] at hp
  exact Program.forall_family_trimmed Program.wellShaped_erased
    (Program.ofItems_wellShaped (Item.Scan.of_readAll hitems) hp)

/-- A chain in an inverse block, a computed partial, paths without parts, braces in a content. -/
theorem Template.parse_wellShaped_at_chain :
    let text := "\x7b\x7b^a ../. b=(c this)\x7d\x7d \\\x7b\x7bd\x7d\x7d \x7b\x7belse if ..\x7d\x7d"
      ++ "\x7b\x7b> (e f)\x7d\x7d\x7b\x7belse\x7d\x7d\n\x7b\x7b/a\x7d\x7d"
    ∃ t, Template.parse text none true = .ok t ∧ ∀ p ∈ t.root.family, p.WellShaped := by
  intro text
  obtain ⟨t, ht⟩ := exists_of_isOk (e := Template.parse text none true) (by decide +kernel)
  exact ⟨t, ht, Template.parse_wellShaped ht⟩

end Stache
