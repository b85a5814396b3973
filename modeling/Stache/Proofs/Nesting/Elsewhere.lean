/-
  An outline in another place.

  Items that are the same but for their positions nest in the same way: over the one row of items
  there stands a valid outline if there does over the other, and the statements of the two outlines
  are alike (`Outline.Valid.elsewhere`).  What an item forms, opens or closes is a matter of its
  tokens, and these are read alike wherever they stand.
-/
import Stache.Proofs.Grammar.Elsewhere
import Stache.Proofs.Nesting.Outline

namespace Stache

/-! ## Single items -/

/-- The same row of items in another place. -/
def SameItems (items items' : List Item) : Prop :=
  items'.map Item.unplaced = items.map Item.unplaced

section

variable {item item' : Item} {items more items' : List Item}

theorem SameItems.exists_cons (h : SameItems (item :: items) items') :
    ∃ item' more', items' = item' :: more' ∧ item'.unplaced = item.unplaced
      ∧ SameItems items more' := by
  obtain ⟨item', more', rfl, hitem, hmore⟩ := List.map_eq_cons_iff.1 h
  exact ⟨item', more', rfl, hitem, hmore⟩

theorem SameItems.exists_append (h : SameItems (items ++ more) items') :
    ∃ items₁ items₂, items' = items₁ ++ items₂ ∧ SameItems items items₁
      ∧ SameItems more items₂ := by
  rw [SameItems, List.map_append] at h
  obtain ⟨items₁, items₂, rfl, h₁, h₂⟩ := List.map_eq_append_iff.1 h
  exact ⟨items₁, items₂, rfl, h₁, h₂⟩

/-- An item with a tag has the same tag in another place. -/
theorem Item.exists_tag_of_unplaced (h : item'.unplaced = item.unplaced) {tag : Tag}
    (hshape : item.shape = .tag tag) :
    ∃ tag', item'.shape = .tag tag' ∧ tag'.kind = tag.kind ∧ tag'.strip = tag.strip
      ∧ SameTokens tag.tokens tag'.tokens := by
  have hunplaced := (Item.mk.inj h).1
  rw [hshape] at hunplaced
  cases hshape' : item'.shape with
  | content | comment =>
    rw [hshape'] at hunplaced
    cases hunplaced
  | tag tag' =>
    rw [hshape'] at hunplaced
    obtain ⟨hkind, htokens, -, hstrip⟩ := Tag.mk.inj (ItemShape.tag.inj hunplaced)
    exact ⟨tag', rfl, hkind, hstrip, htokens⟩

/-- What is no tag has no positions in it. -/
theorem Item.shape_eq_of_unplaced (h : item'.unplaced = item.unplaced)
    (hshape : ∀ tag, item.shape ≠ .tag tag) : item'.shape = item.shape := by
  have hunplaced := (Item.mk.inj h).1
  cases hitem : item.shape with
  | tag tag => exact (hshape tag hitem).elim
  | content | comment =>
    rw [hitem] at hunplaced
    cases hitem' : item'.shape <;> rw [hitem'] at hunplaced <;> cases hunplaced
    rfl

/-- Marks of whitespace control do not depend on the place. -/
theorem Item.strip_eq_of_unplaced (h : item'.unplaced = item.unplaced) :
    item'.strip = item.strip := by
  cases hshape : item.shape with
  | tag tag =>
    obtain ⟨tag', hshape', -, hstrip, -⟩ := Item.exists_tag_of_unplaced h hshape
    rw [Item.strip, Item.strip, hshape, hshape']
    exact hstrip
  | content | comment =>
    rw [Item.strip, Item.strip, Item.shape_eq_of_unplaced h (by simp [hshape])]

/-- What an item forms elsewhere is alike, -/
theorem Item.Forms.elsewhere {s : Statement} (hs : item.Forms s)
    (h : item'.unplaced = item.unplaced) : ∃ s', item'.Forms s' ∧ s.Alike false s' := by
  cases hs with
  | content hshape =>
    have hshape' := Item.shape_eq_of_unplaced h (by simp [hshape])
    exact ⟨_, .content (hshape'.trans hshape), .content rfl⟩
  | comment hshape =>
    have hshape' := Item.shape_eq_of_unplaced h (by simp [hshape])
    exact ⟨_, .comment (hshape'.trans hshape), .comment⟩
  | mustache hshape hkind hcall =>
    obtain ⟨tag', hshape', hkind', -, htokens⟩ := Item.exists_tag_of_unplaced h hshape
    obtain ⟨call', hcall', halike⟩ := Call.ofTokens_elsewhere htokens hcall
    exact ⟨_, .mustache hshape' (hkind'.trans hkind) hcall', .mustache halike⟩
  | partialCall hshape hkind hcall =>
    obtain ⟨tag', hshape', hkind', -, htokens⟩ := Item.exists_tag_of_unplaced h hshape
    obtain ⟨call', hcall', halike⟩ := Call.partialOfTokens_elsewhere htokens hcall
    exact ⟨_, .partialCall hshape' (hkind'.trans hkind) hcall', .partialCall _ halike⟩
  | decorator hshape hkind hcall =>
    obtain ⟨tag', hshape', hkind', -, htokens⟩ := Item.exists_tag_of_unplaced h hshape
    obtain ⟨call', hcall', halike⟩ := Call.ofTokens_elsewhere htokens hcall
    exact ⟨_, .decorator hshape' (hkind'.trans hkind) hcall', .decorator halike⟩

/-- Openings of the same kind, with calls that are alike and the same block parameters. -/
structure Opening.Alike (o o' : Opening) : Prop where
  kind_eq : o'.kind = o.kind
  call : o.call.Alike false o'.call
  blockParams_eq : o'.blockParams = o.blockParams

/-- and so is what it opens. -/
theorem Item.Opens.elsewhere {chained : Bool} {o : Opening} (ho : item.Opens chained o)
    (h : item'.unplaced = item.unplaced) : ∃ o', item'.Opens chained o' ∧ o.Alike o' := by
  obtain ⟨tag, hshape, hkind, hstrip, hspan, hread⟩ := ho
  obtain ⟨tag', hshape', hkind', -, htokens⟩ := Item.exists_tag_of_unplaced h hshape
  have hread' : ∃ opener, (if o.kind = .partialBlock then Call.partialOpenerOfTokens tag'.tokens
      else Call.openerOfTokens tag'.tokens) = .ok opener
      ∧ Grammar.OpenerAlike (o.call, o.blockParams) opener := by
    split at hread
    · rw [if_pos ‹_›]
      exact Call.partialOpenerOfTokens_elsewhere htokens hread
    · rw [if_neg ‹_›]
      exact Call.openerOfTokens_elsewhere htokens hread
  obtain ⟨⟨call', blockParams'⟩, hread', hcall, hparams⟩ := hread'
  exact ⟨⟨o.kind, call', blockParams', tag'.strip, item'.span⟩,
    ⟨tag', hshape', hkind' ▸ hkind, rfl, rfl, hread'⟩, rfl, hcall, hparams.symm⟩

theorem Item.IsElse.elsewhere (hitem : item.IsElse) (h : item'.unplaced = item.unplaced) :
    item'.IsElse := by
  obtain ⟨tag, hshape, hkind⟩ := hitem
  obtain ⟨tag', hshape', hkind', -⟩ := Item.exists_tag_of_unplaced h hshape
  exact ⟨tag', hshape', hkind'.trans hkind⟩

theorem Item.Closes.elsewhere {name : String} (hitem : item.Closes name)
    (h : item'.unplaced = item.unplaced) : item'.Closes name := by
  obtain ⟨tag, e, hshape, hkind, hread, hname⟩ := hitem
  obtain ⟨tag', hshape', hkind', -, htokens⟩ := Item.exists_tag_of_unplaced h hshape
  obtain ⟨e', hread', halike⟩ := Expression.nameOfTokens_elsewhere htokens hread
  exact ⟨tag', e', hshape', hkind'.trans hkind, hread', halike.label_eq.symm.trans hname⟩

end

/-! ## Outlines -/

/-- Blocks whose openings and sections are alike. -/
theorem Opening.Alike.wrap {o o' : Opening} (h : o.Alike o') {first first' : Program}
    {second second' : Option Program} (hfirst : first.Alike false first')
    (hsecond : SectionAlike false second second') (strip strip' : BlockStrip)
    (stop stop' : Position) :
    (o.wrap first second strip stop).Alike false (o'.wrap first' second' strip' stop') := by
  rw [Opening.wrap, Opening.wrap, h.kind_eq]
  cases o.kind with
  | block => exact .block h.call (.some hfirst) hsecond
  | inverse => exact .block h.call hsecond (.some hfirst)
  | partialBlock => exact .partialBlock h.call hfirst
  | decoratorBlock => exact .decoratorBlock h.call hfirst

theorem Opening.Alike.firstSection {o o' : Opening} (h : o.Alike o') {body body' : List Statement}
    (hbody : BodyAlike false body body') (stop stop' : Position) :
    (o.firstSection body stop).Alike false (o'.firstSection body' stop') := by
  rw [Opening.firstSection, Opening.firstSection, h.blockParams_eq]
  exact .mk _ hbody

theorem Item.elseSection_alike (mark mark' : Item) (chained chained' : Bool)
    {body body' : List Statement} (hbody : BodyAlike false body body') (stop stop' : Position) :
    SectionAlike false (some (mark.elseSection chained body stop))
      (some (mark'.elseSection chained' body' stop')) :=
  .some (.mk [] hbody)

theorem Opening.Alike.hasElse {o o' : Opening} (h : o.Alike o') (helse : o.kind.hasElse) :
    o'.kind.hasElse := h.kind_eq ▸ helse

mutual

/-- **An outline** over the same items in another place. -/
theorem Outline.Valid.elsewhere {o : Outline} (h : o.Valid) {items' : List Item}
    (hitems : SameItems o.items items') :
    ∃ o' : Outline, o'.Valid ∧ o'.items = items' ∧ BodyAlike false o.statements o'.statements := by
  match o, h with
  | .nil, _ => exact ⟨.nil, trivial, (List.map_eq_nil_iff.1 hitems).symm, .nil⟩
  | .bare item s rest, ⟨hform, hrest⟩ =>
    obtain ⟨item', more', rfl, hitem, hmore⟩ := hitems.exists_cons
    obtain ⟨s', hform', halike⟩ := hform.elsewhere hitem
    obtain ⟨rest', hrest', rfl, halike'⟩ := hrest.elsewhere hmore
    exact ⟨.bare item' s' rest', ⟨hform', hrest'⟩, rfl, .cons halike halike'⟩
  | .block branch close rest, ⟨hbranch, hclose, hrest⟩ =>
    obtain ⟨inside', after', rfl, hinside, hafter⟩ := hitems.exists_append
    obtain ⟨close', more', rfl, hitem, hmore⟩ := hafter.exists_cons
    obtain ⟨branch', hbranch', rfl, hopening, halike⟩ := hbranch.elsewhere hinside
    obtain ⟨rest', hrest', rfl, halike'⟩ := hrest.elsewhere hmore
    refine ⟨.block branch' close' rest', ⟨hbranch', ?_, hrest'⟩, rfl, .cons (halike _ _) halike'⟩
    rw [← hopening.call.label_eq]
    exact hclose.elsewhere hitem

/-- The same for a branch, whatever close tag it ends with. -/
theorem Branch.Valid.elsewhere {b : Branch} {chained : Bool} (h : b.Valid chained)
    {items' : List Item} (hitems : SameItems b.items items') :
    ∃ b' : Branch, b'.Valid chained ∧ b'.items = items' ∧ b.opening.Alike b'.opening
      ∧ ∀ close close', (b.statement close).Alike false (b'.statement close') := by
  -- the items of a branch are those of its parts, one behind the other
  match b, h with
  | .plain item o body, ⟨hopen, hbody⟩ =>
    obtain ⟨item', more', rfl, hitem, hmore⟩ := hitems.exists_cons
    obtain ⟨o', hopen', ho⟩ := hopen.elsewhere hitem
    obtain ⟨body', hbody', rfl, halike⟩ := hbody.elsewhere hmore
    exact ⟨.plain item' o' body', ⟨hopen', hbody'⟩, rfl, ho, fun close close' =>
      ho.wrap (ho.firstSection halike _ _) .none _ _ _ _⟩
  | .withElse item o body mark inverse, ⟨hopen, helse, hbody, hmark, hinverse⟩ =>
    obtain ⟨item', more', rfl, hitem, hmore⟩ := hitems.exists_cons
    obtain ⟨before', after', rfl, hbefore, hafter⟩ := hmore.exists_append
    obtain ⟨mark', behind', rfl, hmark', hbehind⟩ := hafter.exists_cons
    obtain ⟨o', hopen', ho⟩ := hopen.elsewhere hitem
    obtain ⟨body', hbody', rfl, halike⟩ := hbody.elsewhere hbefore
    obtain ⟨inverse', hinverse', rfl, halike'⟩ := hinverse.elsewhere hbehind
    exact ⟨.withElse item' o' body' mark' inverse',
      ⟨hopen', ho.hasElse helse, hbody', hmark.elsewhere hmark', hinverse'⟩, rfl, ho,
      fun close close' => ho.wrap (ho.firstSection halike _ _)
        (Item.elseSection_alike _ _ _ _ halike' _ _) _ _ _ _⟩
  | .chain item o body next, ⟨hopen, helse, hbody, hnext⟩ =>
    obtain ⟨item', more', rfl, hitem, hmore⟩ := hitems.exists_cons
    obtain ⟨before', after', rfl, hbefore, hafter⟩ := hmore.exists_append
    obtain ⟨o', hopen', ho⟩ := hopen.elsewhere hitem
    obtain ⟨body', hbody', rfl, halike⟩ := hbody.elsewhere hbefore
    obtain ⟨next', hnext', rfl, -, halike'⟩ := hnext.elsewhere hafter
    exact ⟨.chain item' o' body' next', ⟨hopen', ho.hasElse helse, hbody', hnext'⟩, rfl, ho,
      fun close close' => ho.wrap (ho.firstSection halike _ _)
        (Item.elseSection_alike _ _ _ _ (.cons (halike' close close') .nil) _ _) _ _ _ _⟩

end

end Stache
