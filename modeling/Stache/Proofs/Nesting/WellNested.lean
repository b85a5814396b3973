/-
  Which rows of items are accepted.

  The nesting machine has a stack of open blocks, and an item is accepted or refused by what is on
  top of it.  What it accepts is a grammar without any stack (`WellNested`):

      template = (content | comment | mustache | partial | decorator | block)*
      block    = open sections close
      sections = template | template else template | template chain sections

  where only a block proper may have an else or a chain, where the sections after a chain are those
  of a block proper, and where the close tag bears the name of the open tag of its block.  A chain
  has no close tag of its own.

  Outlines are the derivations of this grammar (`Outline.Valid.wellNested`, `WellNested.outline`),
  and so the two sides are compared by way of them:

    * THE MACHINE FOLLOWS THE GRAMMAR.  The items of an outline lead from every state to the same
      state with the statements of the outline added (`Outline.Valid.run`).  The sections of a block
      lead to a state in which a close tag makes the statement of the block, whatever chains have
      been opened on top of it (`Branch.Valid.run`);
    * THE GRAMMAR COVERS THE MACHINE, since whatever is accepted has an outline.
-/
import Stache.Proofs.Nesting.Reading

namespace Stache

/-! ## The grammar -/

mutual

/-- What a template may be. -/
inductive WellNested : List Item → Prop where
  | nil : WellNested []
  | bare {item : Item} {s : Statement} {rest : List Item} (h : item.Forms s)
      (hrest : WellNested rest) : WellNested (item :: rest)
  | block {item close : Item} {o : Opening} {inside rest : List Item} (hopen : item.Opens false o)
      (hinside : Sections o.kind inside) (hclose : close.Closes o.call.label)
      (hrest : WellNested rest) : WellNested (item :: (inside ++ close :: rest))

/-- What may stand between the open tag and the close tag of a block of this kind. -/
inductive Sections : OpeningKind → List Item → Prop where
  | plain {kind : OpeningKind} {body : List Item} (hbody : WellNested body) : Sections kind body
  | withElse {kind : OpeningKind} {body inverse : List Item} {mark : Item} (helse : kind.hasElse)
      (hbody : WellNested body) (hmark : mark.IsElse) (hinverse : WellNested inverse) :
      Sections kind (body ++ mark :: inverse)
  | chain {kind : OpeningKind} {body inside : List Item} {item : Item} {o : Opening}
      (helse : kind.hasElse) (hbody : WellNested body) (hopen : item.Opens true o)
      (hinside : Sections o.kind inside) : Sections kind (body ++ item :: inside)

end

/-! ## Outlines are derivations -/

mutual

/-- A valid outline is a derivation of its items. -/
theorem Outline.Valid.wellNested {o : Outline} (h : o.Valid) : WellNested o.items := by
  match o, h with
  | .nil, _ => exact .nil
  | .bare item s rest, ⟨hform, hrest⟩ => exact .bare hform hrest.wellNested
  | .block branch close rest, ⟨hbranch, hclose, hrest⟩ =>
    obtain ⟨inside, hitems, hinside⟩ := hbranch.sections
    rw [Outline.items, hitems]
    exact .block hbranch.opens hinside hclose hrest.wellNested

/-- The items of a branch are its open tag and the sections behind. -/
theorem Branch.Valid.sections {b : Branch} {chained : Bool} (h : b.Valid chained) :
    ∃ inside, b.items = b.item :: inside ∧ Sections b.opening.kind inside := by
  match b, h with
  | .plain item o body, ⟨_, hbody⟩ => exact ⟨body.items, rfl, .plain hbody.wellNested⟩
  | .withElse item o body mark inverse, ⟨_, helse, hbody, hmark, hinverse⟩ =>
    exact ⟨_, rfl, .withElse helse hbody.wellNested hmark hinverse.wellNested⟩
  | .chain item o body next, ⟨_, helse, hbody, hnext⟩ =>
    obtain ⟨inside, hitems, hinside⟩ := hnext.sections
    refine ⟨body.items ++ next.items, rfl, ?_⟩
    rw [hitems]
    exact .chain helse hbody.wellNested hnext.opens hinside

end

/-! ## Derivations are outlines -/

mutual

/-- Well nested items have an outline. -/
theorem WellNested.outline {items : List Item} (h : WellNested items) :
    ∃ o : Outline, o.Valid ∧ o.items = items := by
  match h with
  | .nil => exact ⟨.nil, trivial, rfl⟩
  | .bare hform hrest =>
    obtain ⟨rest, hvalid, rfl⟩ := hrest.outline
    exact ⟨.bare _ _ rest, ⟨hform, hvalid⟩, rfl⟩
  | .block hopen hinside hclose hrest =>
    obtain ⟨b, hb, hitems, hopening⟩ := hinside.branch hopen rfl
    obtain ⟨rest, hvalid, rfl⟩ := hrest.outline
    refine ⟨.block b _ rest, ⟨hb, by rw [hopening]; exact hclose, hvalid⟩, ?_⟩
    rw [Outline.items, hitems, List.cons_append]
termination_by structural h

/-- Sections behind an open tag make a branch. -/
theorem Sections.branch {kind : OpeningKind} {inside : List Item} (h : Sections kind inside)
    {item : Item} {o : Opening} {chained : Bool} (hopen : item.Opens chained o)
    (hkind : o.kind = kind) :
    ∃ b : Branch, b.Valid chained ∧ b.items = item :: inside ∧ b.opening = o := by
  match h with
  | .plain hbody =>
    obtain ⟨body, hvalid, rfl⟩ := hbody.outline
    exact ⟨.plain item o body, ⟨hopen, hvalid⟩, rfl, rfl⟩
  | .withElse helse hbody hmark hinverse =>
    obtain ⟨body, hvalid, rfl⟩ := hbody.outline
    obtain ⟨inverse, hvalid', rfl⟩ := hinverse.outline
    refine ⟨.withElse item o body _ inverse, ?_, rfl, rfl⟩
    exact ⟨hopen, hkind ▸ helse, hvalid, hmark, hvalid'⟩
  | .chain helse hbody hopen' hinside =>
    obtain ⟨body, hvalid, rfl⟩ := hbody.outline
    obtain ⟨next, hvalid', hitems, -⟩ := hinside.branch hopen' rfl
    refine ⟨.chain item o body next, ⟨hopen, hkind ▸ helse, hvalid, hvalid'⟩, ?_, rfl⟩
    rw [Branch.items, hitems]
termination_by structural h

end

/-! ## Single items -/

section Items

variable {item : Item} {n : Nesting}

/-- An item that is a statement of its own is pushed. -/
theorem Item.Forms.take {s : Statement} (h : item.Forms s) : n.take item = .ok (n.push s) := by
  cases h with
  | content h | comment h => rw [Nesting.take, h]
  | mustache h hkind hcall | partialCall h hkind hcall | decorator h hkind hcall =>
    rw [Nesting.take, h]
    simp only [Nesting.takeTag, hkind, hcall]
    rfl

/-- The tag of an opening adds a frame, once the block around it takes an else. -/
theorem Item.Opens.openTag {chained : Bool} {o : Opening} (h : item.Opens chained o) {tag : Tag}
    (hshape : item.shape = .tag tag) :
    n.openTag o.kind chained item.span tag = .ok (n.enter o chained) := by
  obtain ⟨tag', hshape', -, hstrip, hspan, hread⟩ := h
  obtain rfl : tag' = tag := by
    rw [hshape] at hshape'
    cases hshape'
    rfl
  obtain ⟨kind, call, params, strip, span⟩ := o
  dsimp only at hstrip hspan hread
  subst hstrip hspan
  rw [Nesting.openTag, hread]
  rfl

/-- An open tag opens a frame, -/
theorem Item.Opens.take {o : Opening} (h : item.Opens false o) :
    n.take item = .ok (n.enter o false) := by
  obtain ⟨tag, hshape, hkind, -⟩ := id h
  have hopen := h.openTag (n := n) hshape
  rw [Nesting.take, hshape]
  cases htag : tag.kind with
  | openBlock | openInverse | openPartialBlock | openDecoratorBlock =>
    rw [htag] at hkind
    rw [← (Prod.mk.inj (Option.some.inj hkind)).1] at hopen
    simpa only [Nesting.takeTag, htag] using hopen
  | mustache | partialCall | decorator | elseMark | elseChain | closeMark =>
    rw [htag] at hkind
    simp [TagRole.opens] at hkind

/-- An else tag begins the else section of the innermost block, if that has none yet. -/
theorem Nesting.beginElse_eq {f : Frame} {fs : List Frame} {root : List Statement} {span : Span}
    {strip : Strip} {chained : Bool} (hkind : f.opening.kind.hasElse)
    (hf : f.elseSection = none) :
    beginElse ⟨root, f :: fs⟩ span strip chained
      = .ok ⟨root, { f with elseSection := some ⟨span, strip, chained, []⟩ } :: fs⟩ := by
  have hkind : (f.opening.kind = .block || f.opening.kind = .inverse) = true := by
    simpa only [OpeningKind.hasElse, Bool.or_eq_true, decide_eq_true_eq] using hkind
  simp only [Nesting.beginElse, hkind, hf]
  rfl

/-- an else mark an else section, -/
theorem Item.IsElse.take (h : item.IsElse) (root : List Statement) (fs : List Frame) {f : Frame}
    (hkind : f.opening.kind.hasElse) (hf : f.elseSection = none) :
    Nesting.take ⟨root, f :: fs⟩ item
      = .ok ⟨root, { f with elseSection := some ⟨item.span, item.strip, false, []⟩ } :: fs⟩ := by
  obtain ⟨tag, hshape, htag⟩ := h
  rw [Nesting.take, Item.strip, hshape]
  simp only [Nesting.takeTag, htag]
  exact Nesting.beginElse_eq hkind hf

/-- A chain does what an else tag does, and then what an open tag does. -/
theorem Item.Opens.take_chain {o : Opening} (h : item.Opens true o) (root : List Statement)
    (fs : List Frame) {f : Frame} (hkind : f.opening.kind.hasElse) (hf : f.elseSection = none) :
    Nesting.take ⟨root, f :: fs⟩ item = .ok (Nesting.enter
        ⟨root, { f with elseSection := some ⟨item.span, item.strip, true, []⟩ } :: fs⟩ o true) := by
  obtain ⟨tag, hshape, htag, -⟩ := id h
  have hopen := h.openTag hshape
    (n := ⟨root, { f with elseSection := some ⟨item.span, tag.strip, true, []⟩ } :: fs⟩)
  rw [Nesting.take, Item.strip, hshape]
  have hchain : tag.kind = .elseChain ∧ o.kind = .block := by
    cases hk : tag.kind <;> rw [hk] at htag <;> simp_all [TagRole.opens]
  rw [hchain.2] at hopen
  simp only [Nesting.takeTag, hchain.1, Nesting.beginElse_eq hkind hf]
  exact hopen

theorem Item.Closes.take {name : String} (h : item.Closes name) :
    n.take item = Nesting.closeFrames name item.span item.strip n.root none n.frames := by
  obtain ⟨tag, e, hshape, htag, hread, rfl⟩ := h
  rw [Nesting.take, Item.strip, hshape]
  simp only [Nesting.takeTag, htag, hread]
  rfl

end Items

/-! ## Runs of the machine -/

namespace Nesting

/-- The state `n` with more statements in the section in hand. -/
def pushAll (n : Nesting) (row : List Statement) : Nesting := row.foldl push n

/-- Statements of the first section of a block. -/
theorem pushAll_first (row body : List Statement) (root : List Statement) (o : Opening)
    (chained : Bool) (fs : List Frame) :
    pushAll ⟨root, ⟨o, body, none, chained⟩ :: fs⟩ row
      = ⟨root, ⟨o, row.reverse ++ body, none, chained⟩ :: fs⟩ := by
  induction row generalizing body with
  | nil => rfl
  | cons s row ih =>
    rw [List.reverse_cons, List.append_assoc]
    exact ih (s :: body)

/-- Statements of an else section. -/
theorem pushAll_second (row body : List Statement) (root : List Statement) (o : Opening)
    (first : List Statement) (span : Span) (strip : Strip) (chained chained' : Bool)
    (fs : List Frame) :
    pushAll ⟨root, ⟨o, first, some ⟨span, strip, chained, body⟩, chained'⟩ :: fs⟩ row
      = ⟨root, ⟨o, first, some ⟨span, strip, chained, row.reverse ++ body⟩, chained'⟩ :: fs⟩ := by
  induction row generalizing body with
  | nil => rfl
  | cons s row ih =>
    rw [List.reverse_cons, List.append_assoc]
    exact ih (s :: body)

/-- Statements at the top level. -/
theorem pushAll_root (row root : List Statement) :
    pushAll ⟨root, []⟩ row = ⟨row.reverse ++ root, []⟩ := by
  induction row generalizing root with
  | nil => rfl
  | cons s row ih =>
    rw [List.reverse_cons, List.append_assoc]
    exact ih (s :: root)

/-- Closing in the state `n` comes to a frame on top of `outer`, and ends it as the block `b`.
    Until then, only chained frames are closed. -/
structure Holds (n : Nesting) (b : Branch) (chained : Bool) (outer : Nesting) : Prop where
  root_eq : n.root = outer.root
  closeFrames_eq : ∀ name (close : Item), ∃ inner f, f.opening = b.opening ∧ f.chained = chained
    ∧ ((inner.map f.push).getD f).close close.span close.strip = b.statement close
    ∧ closeFrames name close.span close.strip n.root none n.frames
      = closeFrames name close.span close.strip outer.root inner (f :: outer.frames)

/-- The innermost frame is the one to be ended. -/
theorem holds_frame {b : Branch} {f : Frame} {outer : Nesting} (hopening : f.opening = b.opening)
    (hclose : ∀ close : Item, f.close close.span close.strip = b.statement close) :
    Holds ⟨outer.root, f :: outer.frames⟩ b f.chained outer :=
  ⟨rfl, fun _ close => ⟨none, f, hopening, rfl, hclose close, rfl⟩⟩

/-- A chained frame is ended on the way to the frame below it, and pushed onto that. -/
theorem Holds.below {n outer : Nesting} {next b : Branch} {f : Frame}
    (h : n.Holds next true ⟨outer.root, f :: outer.frames⟩) (hopening : f.opening = b.opening)
    (hclose : ∀ close : Item,
      (f.push (next.statement close)).close close.span close.strip = b.statement close) :
    n.Holds b f.chained outer := by
  refine ⟨h.root_eq, fun name close => ?_⟩
  obtain ⟨inner, g, -, hchained, hclosed, heq⟩ := h.closeFrames_eq name close
  refine ⟨some (next.statement close), f, hopening, rfl, hclose close, ?_⟩
  rw [heq, closeFrames, hchained, hclosed]
  rfl

/-- A close tag that bears the name of the block ends it. -/
theorem Holds.take {n outer : Nesting} {b : Branch} (h : n.Holds b false outer) {close : Item}
    (hclose : close.Closes b.opening.call.label) :
    n.take close = .ok (outer.push (b.statement close)) := by
  obtain ⟨inner, f, hopening, hchained, hclosed, heq⟩ :=
    h.closeFrames_eq b.opening.call.label close
  rw [hclose.take, heq, closeFrames, hchained, hclosed, hopening]
  simp

end Nesting

theorem Branch.items_eq_cons (b : Branch) : b.items = b.item :: b.items.tail := by
  cases b <;> rfl

mutual

/-- **The items of an outline** are accepted in every state, and add its statements to it. -/
theorem Outline.Valid.run {o : Outline} (h : o.Valid) (n : Nesting) :
    o.items.foldlM Nesting.take n = .ok (n.pushAll o.statements) := by
  match o, h with
  | .nil, _ => rfl
  | .bare item s rest, ⟨hform, hrest⟩ =>
    rw [Outline.items, List.foldlM_cons, hform.take]
    exact hrest.run (n.push s)
  | .block branch close rest, ⟨hbranch, hclose, hrest⟩ =>
    obtain ⟨n', hn', hholds⟩ := hbranch.run n
    rw [Outline.items, branch.items_eq_cons, List.cons_append, List.foldlM_cons,
      hbranch.opens.take]
    show List.foldlM Nesting.take (n.enter _ false) _ = _
    rw [List.foldlM_append, hn']
    show List.foldlM Nesting.take n' _ = _
    rw [List.foldlM_cons, hholds.take hclose]
    exact hrest.run (n.push (branch.statement close))

/-- **The sections of a block** are accepted behind its open tag, up to a state in which a close tag
    makes the statement of the block. -/
theorem Branch.Valid.run {b : Branch} {chained : Bool} (h : b.Valid chained) (n : Nesting) :
    ∃ n', b.items.tail.foldlM Nesting.take (n.enter b.opening chained) = .ok n'
      ∧ n'.Holds b chained n := by
  -- the body is pushed, and then the else or the next arm is taken
  match b, h with
  | .plain item o body, ⟨_, hbody⟩ =>
    refine ⟨_, hbody.run _, ?_⟩
    rw [Nesting.enter, Nesting.pushAll_first, List.append_nil]
    exact Nesting.holds_frame rfl fun close => close_eq_plain item close o body chained
  | .withElse item o body mark inverse, ⟨_, helse, hbody, hmark, hinverse⟩ =>
    refine ⟨_, ?_, Nesting.holds_frame rfl fun close =>
      close_eq_withElse item mark close o body inverse chained⟩
    show List.foldlM Nesting.take _ (body.items ++ mark :: inverse.items) = _
    rw [List.foldlM_append, hbody.run, Nesting.enter, Nesting.pushAll_first]
    show List.foldlM Nesting.take _ (mark :: inverse.items) = _
    rw [List.foldlM_cons, hmark.take _ _ helse rfl]
    show List.foldlM Nesting.take _ inverse.items = _
    rw [hinverse.run, Nesting.pushAll_second, List.append_nil, List.append_nil]
    rfl
  | .chain item o body next, ⟨_, helse, hbody, hnext⟩ =>
    obtain ⟨n', hn', hholds⟩ := hnext.run ⟨n.root, ⟨o, body.statements.reverse,
      some ⟨next.item.span, next.item.strip, true, []⟩, chained⟩ :: n.frames⟩
    refine ⟨n', ?_, hholds.below rfl fun close => close_eq_chain item close o body next chained⟩
    show List.foldlM Nesting.take _ (body.items ++ next.items) = _
    rw [List.foldlM_append, hbody.run, Nesting.enter, Nesting.pushAll_first, next.items_eq_cons]
    show List.foldlM Nesting.take _ (next.item :: next.items.tail) = _
    rw [List.foldlM_cons, hnext.opens.take_chain _ _ helse rfl, List.append_nil]
    exact hn'

end

/-- The tree of an outline is read from its items. -/
theorem Outline.Valid.ofItems_eq {o : Outline} (h : o.Valid) (stop : Position) :
    Program.ofItems o.items stop = .ok ⟨o.statements, [], false, ⟨.origin, stop⟩⟩ := by
  rw [Program.ofItems, h.run, Nesting.empty, Nesting.pushAll_root, List.append_nil]
  show Nesting.finish ⟨o.statements.reverse, []⟩ stop = _
  rw [Nesting.finish, List.reverse_reverse]

/-- **A row of items forms a tree exactly if it is well nested.** -/
theorem Program.exists_ofItems_iff {items : List Item} {stop : Position} :
    (∃ p, Program.ofItems items stop = .ok p) ↔ WellNested items := by
  constructor
  · rintro ⟨p, hp⟩
    obtain ⟨-, o, ho⟩ := Program.ofItems_outlined hp
    exact ho.items_eq ▸ ho.valid.wellNested
  · intro h
    obtain ⟨o, ho, rfl⟩ := h.outline
    exact ⟨_, ho.ofItems_eq stop⟩

/-! ## Refusals -/

/-- The tag of an item, if it has one, reads for itself. -/
def Item.Reads (item : Item) : Prop :=
  match item.shape with
  | .content _ | .comment _ _ => True
  | .tag tag =>
    match tag.kind with
    | .mustache _ | .decorator => ∃ call, Call.ofTokens tag.tokens = .ok call
    | .partialCall => ∃ call, Call.partialOfTokens tag.tokens = .ok call
    | .openBlock | .openInverse | .openDecoratorBlock | .elseChain =>
      ∃ opener, Call.openerOfTokens tag.tokens = .ok opener
    | .openPartialBlock => ∃ opener, Call.partialOpenerOfTokens tag.tokens = .ok opener
    | .elseMark => True
    | .closeMark => ∃ name, Expression.nameOfTokens tag.tokens = .ok name

/-- A tag is in a place where it may not be, or is missing. -/
inductive ParseFault.OfNesting : ParseFault → Prop where
  | unclosedBlock (name : String) : OfNesting (.unclosedBlock name)
  | unexpectedElse : OfNesting .unexpectedElse
  | unexpectedClose (name : String) : OfNesting (.unexpectedClose name)
  | mismatchedClose {opened closed : String} (h : opened ≠ closed) :
      OfNesting (.mismatchedClose opened closed)

/-- An else that is refused is a fault of nesting, -/
theorem Nesting.beginElse_fault {n : Nesting} {span : Span} {strip : Strip} {chained : Bool}
    {e : ParseError} (h : n.beginElse span strip chained = .error e) : e.fault.OfNesting := by
  unfold Nesting.beginElse at h
  split at h
  · cases h
    exact .unexpectedElse
  · dsimp only at h
    split at h
    · cases h
    · cases h
      exact .unexpectedElse

/-- and so is a close tag, -/
theorem Nesting.closeFrames_fault {name : String} {span : Span} {strip : Strip}
    {root : List Statement} {inner : Option Statement} {frames : List Frame} {e : ParseError}
    (h : closeFrames name span strip root inner frames = .error e) : e.fault.OfNesting := by
  induction frames generalizing inner with
  | nil =>
    cases h
    exact .unexpectedClose name
  | cons f fs ih =>
    rw [closeFrames] at h
    split at h
    · exact ih h
    split at h
    · cases h
    · rename_i hname
      cases h
      exact .mismatchedClose hname

/-- The only fault of a tag that reads for itself is its place. -/
theorem Nesting.take_fault {n : Nesting} {item : Item} (hitem : item.Reads) {e : ParseError}
    (h : n.take item = .error e) : e.fault.OfNesting := by
  rw [Nesting.take] at h
  unfold Item.Reads at hitem
  cases hshape : item.shape with
  | content | comment =>
    rw [hshape] at h
    cases h
  | tag tag =>
    simp only [hshape, takeTag] at h hitem
    cases hkind : tag.kind with
    | mustache | partialCall | decorator | openBlock | openInverse | openPartialBlock
    | openDecoratorBlock =>
      simp only [hkind] at h hitem
      obtain ⟨read, hread⟩ := hitem
      simp only [openTag, reduceCtorEq, if_true, if_false, hread] at h
      cases h
    | elseMark =>
      rw [hkind] at h
      exact beginElse_fault h
    | elseChain =>
      simp only [hkind] at h hitem
      obtain ⟨read, hread⟩ := hitem
      cases hbegin : n.beginElse item.span tag.strip true with
      | error e' =>
        rw [hbegin] at h
        cases h
        exact beginElse_fault hbegin
      | ok n' =>
        rw [hbegin] at h
        simp only [openTag, reduceCtorEq, if_false, hread] at h
        cases h
    | closeMark =>
      simp only [hkind] at h hitem
      obtain ⟨name, hread⟩ := hitem
      simp only [hread] at h
      exact closeFrames_fault h

/-- hence all that is refused of items that can be read. -/
theorem Nesting.foldlM_take_fault {items : List Item} (hitems : ∀ item ∈ items, item.Reads)
    {n : Nesting} {e : ParseError} (h : items.foldlM Nesting.take n = .error e) :
    e.fault.OfNesting := by
  induction items generalizing n with
  | nil => cases h
  | cons item items ih =>
    rw [List.forall_mem_cons] at hitems
    rw [List.foldlM_cons] at h
    cases htake : n.take item with
    | error e' =>
      rw [htake] at h
      cases h
      exact take_fault hitems.1 htake
    | ok n' =>
      rw [htake] at h
      exact ih hitems.2 h

/-- **Refusals.**  If all tags read for themselves, a row is refused for its nesting only. -/
theorem Program.ofItems_fault {items : List Item} (hitems : ∀ item ∈ items, item.Reads)
    {stop : Position} {e : ParseError} (h : Program.ofItems items stop = .error e) :
    e.fault.OfNesting := by
  rw [Program.ofItems] at h
  cases hfold : items.foldlM Nesting.take .empty with
  | error e' =>
    rw [hfold] at h
    cases h
    exact Nesting.foldlM_take_fault hitems hfold
  | ok n =>
    rw [hfold] at h
    simp only [bind, Except.bind, Nesting.finish] at h
    split at h
    · cases h
    · cases h
      exact .unclosedBlock _

end Stache
