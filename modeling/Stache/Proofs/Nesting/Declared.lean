/-
  Where block parameters are declared.

  The names after `as |` on an open tag are parameters of the section that FOLLOWS the tag, be it
  the main section of the block or, for an inverted block, its inverse one.  The other section of
  the block has none, and neither has the root (`Template.parse_declared`).  Each kind of tag has
  one rule (`Item.Declares`), and no tag of another kind opens a section.
-/
import Stache.Proofs.Nesting.Calls

namespace Stache

/-- The section that follows the tag has these parameters, and the other one has none. -/
structure Item.Scopes (item : Item) (names : List String) (own : Program)
    (other : Option Program) : Prop where
  blockParams : own.blockParams = names
  /-- It begins where the tag ends. -/
  start : own.span.start = item.stop
  other : ∀ p, other = some p → p.blockParams = []

/-- The tag opens the sections of the statement, and the names that it declares are parameters of
    the section that follows it. -/
inductive Item.Declares (item : Item) : Statement → Prop where
  | block {tag : Tag} {call : Call} {names : List String} {main : Program}
      {inverse : Option Program} (strip : BlockStrip) (span : Span) (h : item.shape = .tag tag)
      (hkind : tag.kind = .openBlock ∨ tag.kind = .elseChain)
      (hread : Call.openerOfTokens tag.tokens = .ok (call, names))
      (hmain : item.Scopes names main inverse) :
      Item.Declares item (.block call (some main) inverse strip span)
  | inverse {tag : Tag} {call : Call} {names : List String} {main : Option Program}
      {inverse : Program} (strip : BlockStrip) (span : Span) (h : item.shape = .tag tag)
      (hkind : tag.kind = .openInverse)
      (hread : Call.openerOfTokens tag.tokens = .ok (call, names))
      (hinverse : item.Scopes names inverse main) :
      Item.Declares item (.block call main (some inverse) strip span)
  | partialBlock {tag : Tag} {call : Call} {names : List String} {body : Program}
      (opening closing : Strip) (span : Span) (h : item.shape = .tag tag)
      (hkind : tag.kind = .openPartialBlock)
      (hread : Call.partialOpenerOfTokens tag.tokens = .ok (call, names))
      (hbody : item.Scopes names body none) :
      Item.Declares item (.partialBlock call body opening closing span)
  | decoratorBlock {tag : Tag} {call : Call} {names : List String} {body : Program}
      (opening closing : Strip) (span : Span) (h : item.shape = .tag tag)
      (hkind : tag.kind = .openDecoratorBlock)
      (hread : Call.openerOfTokens tag.tokens = .ok (call, names))
      (hbody : item.Scopes names body none) :
      Item.Declares item (.decoratorBlock call body opening closing span)

/-- If the statement has sections, one of the items opens them. -/
def Statement.DeclaredIn (items : List Item) (s : Statement) : Prop :=
  s.sections = [] ∨ ∃ item ∈ items, item.Declares s

/-! ## Openings -/

theorem TagRole.opens_block {role : TagRole} {chained : Bool}
    (h : role.opens = some (.block, chained)) : role = .openBlock ∨ role = .elseChain := by
  cases role with
  | openBlock => exact .inl rfl
  | elseChain => exact .inr rfl
  | _ => cases h

/-- What an item opens has its block parameters in the section behind it. -/
theorem Item.Opens.declares {item : Item} {chained : Bool} {o : Opening}
    (h : item.Opens chained o) {first : Program} {second : Option Program}
    (hsections : o.Encloses first second) (strip : BlockStrip) (stop : Position) :
    item.Declares (o.wrap first second strip stop) := by
  have hspan := h.span_eq
  obtain ⟨tag, hshape, hopens, -, -, hread⟩ := h
  have hscopes (other : Option Program) (hother : ∀ p, other = some p → second = some p) :
      item.Scopes o.blockParams first other := by
    refine ⟨hsections.blockParams, ?_, fun p hp => (hsections.second p (hother p hp)).1⟩
    rw [hsections.start, hspan]
    rfl
  -- a caret opens the inverse section, every other tag the main one
  have hnone (p : Program) (h : none = some p) : second = some p := by cases h
  unfold Opening.wrap
  cases hkind : o.kind with
  | block =>
    rw [hkind] at hopens
    rw [if_neg (by simp [hkind])] at hread
    exact .block _ _ hshape (TagRole.opens_block hopens) hread (hscopes second fun _ hp => hp)
  | inverse =>
    rw [hkind] at hopens
    rw [if_neg (by simp [hkind])] at hread
    have hrole : tag.kind = .openInverse := by
      cases hk : tag.kind <;> rw [hk] at hopens <;> cases hopens
    exact .inverse _ _ hshape hrole hread (hscopes second fun _ hp => hp)
  | partialBlock =>
    rw [hkind] at hopens
    rw [if_pos hkind] at hread
    have hrole : tag.kind = .openPartialBlock := by
      cases hk : tag.kind <;> rw [hk] at hopens <;> cases hopens
    exact .partialBlock _ _ _ hshape hrole hread (hscopes none hnone)
  | decoratorBlock =>
    rw [hkind] at hopens
    rw [if_neg (by simp [hkind])] at hread
    have hrole : tag.kind = .openDecoratorBlock := by
      cases hk : tag.kind <;> rw [hk] at hopens <;> cases hopens
    exact .decoratorBlock _ _ _ hshape hrole hread (hscopes none hnone)

/-! ## Whitespace control -/

/-- Whitespace control changes no block parameters, -/
theorem Program.blockParams_erased (p : Program) : p.erased.blockParams = p.blockParams := by
  obtain ⟨body, params, chained, span⟩ := p
  rfl

/-- of neither section, -/
theorem Item.scopes_erased {item : Item} {names : List String} {own : Program}
    {other : Option Program} :
    item.Scopes names own.erased (erasedSection other) ↔ item.Scopes names own other := by
  have hother : (∀ p, erasedSection other = some p → p.blockParams = [])
      ↔ ∀ p, other = some p → p.blockParams = [] := by
    cases other with
    | none => simp [erasedSection]
    | some q => simp [erasedSection, q.blockParams_erased]
  constructor
  · rintro ⟨hparams, hstart, hnone⟩
    exact ⟨own.blockParams_erased ▸ hparams, own.span_erased ▸ hstart, hother.1 hnone⟩
  · rintro ⟨hparams, hstart, hnone⟩
    exact ⟨own.blockParams_erased ▸ hparams, own.span_erased ▸ hstart, hother.2 hnone⟩

/-- whatever sort of block it is. -/
theorem Item.declares_erased {item : Item} {s : Statement} :
    item.Declares s.erased ↔ item.Declares s := by
  constructor
  · intro h
    -- only blocks declare, and erasing keeps the kind of block
    cases s with
    | content | comment | mustache | partialCall | decorator => cases h
    | block call main inverse strip span =>
      rw [Statement.erased] at h
      generalize hmain' : erasedSection main = main', hinverse' : erasedSection inverse = inverse'
        at h
      cases h with
      | block _ _ hshape hkind hread hmain =>
        subst hinverse'
        cases main with
        | none => cases hmain'
        | some main =>
          cases hmain'
          exact .block _ _ hshape hkind hread (Item.scopes_erased.1 hmain)
      | inverse _ _ hshape hkind hread hinverse =>
        subst hmain'
        cases inverse with
        | none => cases hinverse'
        | some inverse =>
          cases hinverse'
          exact .inverse _ _ hshape hkind hread (Item.scopes_erased.1 hinverse)
    | partialBlock call body opening closing span =>
      cases h with
      | partialBlock _ _ _ hshape hkind hread hbody =>
        have hbody : item.Scopes _ body.erased (erasedSection none) := hbody
        exact .partialBlock _ _ _ hshape hkind hread (Item.scopes_erased.1 hbody)
    | decoratorBlock call body opening closing span =>
      cases h with
      | decoratorBlock _ _ _ hshape hkind hread hbody =>
        have hbody : item.Scopes _ body.erased (erasedSection none) := hbody
        exact .decoratorBlock _ _ _ hshape hkind hread (Item.scopes_erased.1 hbody)
  · intro h
    cases h with
    | block strip span hshape hkind hread hmain =>
      exact .block _ _ hshape hkind hread (Item.scopes_erased.2 hmain)
    | inverse strip span hshape hkind hread hinverse =>
      exact .inverse _ _ hshape hkind hread (Item.scopes_erased.2 hinverse)
    | partialBlock _ _ _ hshape hkind hread hbody =>
      exact .partialBlock _ _ _ hshape hkind hread (Item.scopes_erased.2 hbody)
    | decoratorBlock _ _ _ hshape hkind hread hbody =>
      exact .decoratorBlock _ _ _ hshape hkind hread (Item.scopes_erased.2 hbody)

/-! ## Files -/

/-- So the tag that declares them is the same. -/
theorem Statement.declaredIn_erased {items : List Item} {s : Statement} :
    s.erased.DeclaredIn items ↔ s.DeclaredIn items := by
  have hsections : s.erased.sections = [] ↔ s.sections = [] := by
    cases s with
    | block call main inverse strip span =>
      cases main <;> cases inverse <;> simp [Statement.erased, Statement.sections, erasedSection]
    | content | comment | mustache | partialCall | decorator => exact Iff.rfl
    | partialBlock | decoratorBlock => simp [Statement.erased, Statement.sections]
  rw [Statement.DeclaredIn, Statement.DeclaredIn, hsections]
  simp only [Item.declares_erased]

/-- **Every section of a template that is parsed** has the parameters that its open tag declares, if
    it follows that tag, and none if it does not. -/
theorem Template.parse_declared {text : String} {source : Option String} {standalone : Bool}
    {t : Template} (h : Template.parse text source standalone = .ok t) :
    ∃ items, Item.readAll .origin text.toList = .ok items ∧ t.root.blockParams = []
      ∧ ∀ p ∈ t.root.family, ∀ s ∈ p.body, s.DeclaredIn items := by
  have hall (items : List Item) : LinkedForall (Statement.DeclaredIn items) items := by
    refine ⟨?_, ?_⟩
    · intro item _ s hform
      exact .inl (by cases hform <;> rfl)
    · intro item hitem chained o hopen first second strip stop hsections
      exact .inr ⟨item, hitem, hopen.declares hsections strip stop⟩
  obtain ⟨items, hitems, hdeclared⟩ :=
    Template.parse_forall hall (fun _ _ => Statement.declaredIn_erased) h
  refine ⟨items, hitems, ?_, hdeclared⟩
  obtain ⟨_, p, _, -, -, rfl, hroot, -⟩ := Template.parse_outlined h
  rw [← Program.blockParams_erased, Program.erased_trimmed, Program.blockParams_erased, hroot]

end Stache
