/-
  The roles of items in a nesting.

  Of an item, nesting looks at very little.  Its ROLE is that it stands for itself, opens a block of
  some kind under some name, is an else mark, or closes blocks of some name.  Rows of items with the
  same roles are well nested together (`WellNested.of_roles`, by induction on the derivation), so
  what the tags are about otherwise may be anything.  A role does not depend on the place of the item
  (`Item.role?_eq_of_unplaced`).

  The calls of the items are those of the tree.  A statement has the call of an item in it
  (`Template.parse_madeOf`), and the call of every item is that of a statement somewhere in the tree
  (`Program.exists_call_of_event`, by recursion over the tree).
-/
import Stache.Proofs.Nesting.Calls
import Stache.Proofs.Nesting.Elsewhere
import Stache.Proofs.Nesting.Events

namespace Stache

/-! ## Roles -/

/-- What nesting looks at. -/
inductive Role where
  | bare
  | opening (kind : OpeningKind) (chained : Bool) (label : String)
  | elseMark
  | closing (name : String)

/-- The role of an event. -/
def Event.role : Event → Role
  | .opening kind chained call _ _ => .opening kind chained call.label
  | .elseMark _ => .elseMark
  | .closing name _ => .closing name
  | .content _ _ | .comment _ _ | .mustache _ _ _ | .partialCall _ _ | .decorator _ _ => .bare

/-- The call of an event. -/
def Event.call? : Event → Option Call
  | .mustache call _ _ | .partialCall call _ | .decorator call _ | .opening _ _ call _ _ =>
    some call
  | .content _ _ | .comment _ _ | .elseMark _ | .closing _ _ => none

/-- The role of an item, unless its tokens are no tag. -/
def Item.role? (item : Item) : Option Role := item.event?.map Event.role

section

variable {item item' : Item}

/-- An item is what its event says. -/
theorem Item.of_event {ev : Event} (h : item.event? = some ev) :
    match ev with
    | .opening kind chained call params strip =>
      item.Opens chained ⟨kind, call, params, strip, item.span⟩
    | .elseMark _ => item.IsElse
    | .closing name _ => item.Closes name
    | ev => ∃ s, item.Forms s ∧ s.events false = [ev] := by
  rw [Item.event?] at h
  cases hshape : item.shape with
  | content =>
    rw [hshape] at h
    cases h
    exact ⟨_, .content hshape, rfl⟩
  | comment =>
    rw [hshape] at h
    cases h
    exact ⟨_, .comment hshape, rfl⟩
  | tag tag =>
    rw [hshape] at h
    simp only [Tag.event?] at h
    -- the event tells what was read from the tokens of the tag
    cases hkind : tag.kind with
    | mustache form =>
      simp only [hkind] at h
      obtain ⟨call, hcall, rfl⟩ := Option.map_eq_some_iff.1 h
      exact ⟨_, .mustache hshape hkind (eq_ok_of_toOption hcall), rfl⟩
    | partialCall =>
      simp only [hkind] at h
      obtain ⟨call, hcall, rfl⟩ := Option.map_eq_some_iff.1 h
      exact ⟨_, .partialCall hshape hkind (eq_ok_of_toOption hcall), rfl⟩
    | decorator =>
      simp only [hkind] at h
      obtain ⟨call, hcall, rfl⟩ := Option.map_eq_some_iff.1 h
      exact ⟨_, .decorator hshape hkind (eq_ok_of_toOption hcall), rfl⟩
    | openBlock | openInverse | openPartialBlock | openDecoratorBlock | elseChain =>
      simp only [hkind] at h
      obtain ⟨⟨call, params⟩, hopener, rfl⟩ := Option.map_eq_some_iff.1 h
      exact ⟨tag, hshape, by rw [hkind]; rfl, rfl, rfl, eq_ok_of_toOption hopener⟩
    | elseMark =>
      simp only [hkind] at h
      cases h
      exact ⟨tag, hshape, hkind⟩
    | closeMark =>
      simp only [hkind] at h
      obtain ⟨name, hname, rfl⟩ := Option.map_eq_some_iff.1 h
      exact ⟨tag, name, hshape, hkind, eq_ok_of_toOption hname, rfl⟩

/-! ## Roles and what items may be -/

/-- A statement of one item has no part in nesting. -/
theorem Item.Forms.role?_eq {s : Statement} (h : item.Forms s) : item.role? = some .bare := by
  have hevents := h.events_eq
  rw [Item.role?]
  cases h with
  | content | comment | mustache | partialCall | decorator =>
    rw [← (List.cons.inj hevents).1]
    rfl

theorem Item.Opens.role?_eq {chained : Bool} {o : Opening} (h : item.Opens chained o) :
    item.role? = some (.opening o.kind chained o.call.label) := by
  rw [Item.role?, h.event?_eq]
  rfl

theorem Item.IsElse.role?_eq (h : item.IsElse) : item.role? = some .elseMark := by
  rw [Item.role?, h.event?_eq]
  rfl

theorem Item.Closes.role?_eq {name : String} (h : item.Closes name) :
    item.role? = some (.closing name) := by
  rw [Item.role?, h.event?_eq]
  rfl

/-- An item with a role is what the role says. -/
theorem Item.of_role {role : Role} (h : item.role? = some role) :
    match role with
    | .bare => ∃ s, item.Forms s
    | .opening kind chained label => ∃ o, item.Opens chained o ∧ o.kind = kind
      ∧ o.call.label = label
    | .elseMark => item.IsElse
    | .closing name => item.Closes name := by
  obtain ⟨ev, hev, rfl⟩ := Option.map_eq_some_iff.1 h
  have hitem := Item.of_event hev
  cases ev with
  | content | comment | mustache | partialCall | decorator =>
    obtain ⟨s, hs, -⟩ := hitem
    exact ⟨s, hs⟩
  | opening kind chained call params strip => exact ⟨_, hitem, rfl, rfl⟩
  | elseMark | closing => exact hitem

/-- A role does not depend on the place. -/
theorem Item.role?_elsewhere (h : item'.unplaced = item.unplaced) {role : Role}
    (hrole : item.role? = some role) : item'.role? = some role := by
  have hitem := Item.of_role hrole
  cases role with
  | bare =>
    obtain ⟨s, hs⟩ := hitem
    obtain ⟨s', hs', -⟩ := hs.elsewhere h
    exact hs'.role?_eq
  | opening kind chained label =>
    obtain ⟨o, ho, rfl, rfl⟩ := hitem
    obtain ⟨o', ho', halike⟩ := ho.elsewhere h
    rw [ho'.role?_eq, halike.kind_eq, halike.call.label_eq]
  | elseMark => exact (Item.IsElse.elsewhere hitem h).role?_eq
  | closing name => exact (Item.Closes.elsewhere hitem h).role?_eq

/-- A role does not depend on the place, -/
theorem Item.role?_eq_of_unplaced (h : item'.unplaced = item.unplaced) :
    item'.role? = item.role? :=
  Option.ext fun _ => ⟨Item.role?_elsewhere h.symm, Item.role?_elsewhere h⟩

/-- and neither do those of a row. -/
theorem SameItems.roles_eq {items items' : List Item} (h : SameItems items items') :
    items'.map Item.role? = items.map Item.role? := by
  induction items generalizing items' with
  | nil => rw [List.map_eq_nil_iff.1 h]
  | cons item items ih =>
    obtain ⟨item', more', rfl, hitem, hmore⟩ := SameItems.exists_cons h
    rw [List.map_cons, List.map_cons, Item.role?_eq_of_unplaced hitem, ih hmore]

end

/-! ## Nesting by roles -/

mutual

/-- **Only the roles of items** decide whether they are well nested. -/
theorem WellNested.of_roles {items items' : List Item} (h : WellNested items)
    (hroles : items'.map Item.role? = items.map Item.role?) : WellNested items' := by
  match h with
  | .nil =>
    rw [List.map_eq_nil_iff.1 hroles]
    exact .nil
  | .bare hform hrest =>
    obtain ⟨item', rest', rfl, hitem, hmore⟩ := List.map_eq_cons_iff.1 hroles
    obtain ⟨s', hform'⟩ := Item.of_role (hitem.trans hform.role?_eq)
    exact .bare hform' (hrest.of_roles hmore)
  | .block hopen hinside hclose hrest =>
    obtain ⟨item', more', rfl, hitem, hmore⟩ := List.map_eq_cons_iff.1 hroles
    rw [List.map_append] at hmore
    obtain ⟨inside', after', rfl, hinside', hafter⟩ := List.map_eq_append_iff.1 hmore
    obtain ⟨close', rest', rfl, hclose', hrest'⟩ := List.map_eq_cons_iff.1 hafter
    obtain ⟨o', hopen', hkind, hlabel⟩ := Item.of_role (hitem.trans hopen.role?_eq)
    refine .block hopen' (hkind ▸ hinside.of_roles hinside') ?_ (hrest.of_roles hrest')
    rw [hlabel]
    exact Item.of_role (hclose'.trans hclose.role?_eq)
termination_by structural h

/-- So it is with the sections of a block. -/
theorem Sections.of_roles {kind : OpeningKind} {inside inside' : List Item}
    (h : Sections kind inside) (hroles : inside'.map Item.role? = inside.map Item.role?) :
    Sections kind inside' := by
  match h with
  | .plain hbody => exact .plain (hbody.of_roles hroles)
  | .withElse helse hbody hmark hinverse =>
    rw [List.map_append] at hroles
    obtain ⟨body', after', rfl, hbody', hafter⟩ := List.map_eq_append_iff.1 hroles
    obtain ⟨mark', inverse', rfl, hmark', hinverse'⟩ := List.map_eq_cons_iff.1 hafter
    exact .withElse helse (hbody.of_roles hbody') (Item.of_role (hmark'.trans hmark.role?_eq))
      (hinverse.of_roles hinverse')
  | .chain helse hbody hopen hinside =>
    rw [List.map_append] at hroles
    obtain ⟨body', after', rfl, hbody', hafter⟩ := List.map_eq_append_iff.1 hroles
    obtain ⟨item', more', rfl, hitem, hmore⟩ := List.map_eq_cons_iff.1 hafter
    obtain ⟨o', hopen', hkind, -⟩ := Item.of_role (hitem.trans hopen.role?_eq)
    exact .chain helse (hbody.of_roles hbody') hopen' (hkind ▸ hinside.of_roles hmore)
termination_by structural h

end

/-! ## Calls of items and calls of trees -/

/-- Some statement in the programs makes the call. -/
def CalledIn (programs : List Program) (call : Call) : Prop :=
  ∃ p ∈ programs, ∃ s ∈ p.body, s.call? = some call

theorem CalledIn.mono {programs more : List Program} {call : Call} (h : CalledIn programs call)
    (hmore : programs ⊆ more) : CalledIn more call := by
  obtain ⟨p, hp, hs⟩ := h
  exact ⟨p, hmore hp, hs⟩

section

variable {ev : Event} {call : Call}

mutual

/-- The calls in the events of a statement are its own and those in its sections. -/
theorem Statement.call_of_event (hcall : ev.call? = some call) {chained : Bool} {s : Statement}
    (h : ev ∈ s.events chained) :
    s.call? = some call ∨ CalledIn s.programs call := by
  match s with
  | .content c | .comment text strip span =>
    obtain rfl := List.mem_singleton.1 h
    cases hcall
  | .mustache call' escaped strip span | .partialCall call' indent strip span
  | .decorator call' strip span =>
    obtain rfl := List.mem_singleton.1 h
    exact .inl hcall
  | .block call' main inverse strip span =>
    -- in a block, the event is of its tag, of either section, or of an else there
    have hmain (hevent : ev ∈ sectionEvents main ∨ ev ∈ elseEvents strip.inverse main) :
        CalledIn (sectionPrograms main ++ sectionPrograms inverse) call :=
      (hevent.elim (section_call_of_event hcall) (else_call_of_event hcall)).mono
        (List.subset_append_left ..)
    have hinverse (hevent : ev ∈ sectionEvents inverse ∨ ev ∈ elseEvents strip.inverse inverse) :
        CalledIn (sectionPrograms main ++ sectionPrograms inverse) call :=
      (hevent.elim (section_call_of_event hcall) (else_call_of_event hcall)).mono
        (List.subset_append_right ..)
    rw [Statement.events, List.mem_append] at h
    rcases h with h | h
    · split at h
      all_goals
        rcases List.mem_cons.1 h with rfl | h
        · exact .inl hcall
        rcases List.mem_append.1 h with h | h
      · exact .inr (hinverse (.inl h))
      · exact .inr (hmain (.inr h))
      · exact .inr (hmain (.inl h))
      · exact .inr (hinverse (.inr h))
    · split at h
      · cases h
      · obtain rfl := List.mem_singleton.1 h
        cases hcall
  | .partialBlock call' body opening closing span
  | .decoratorBlock call' body opening closing span =>
    rcases List.mem_cons.1 h with rfl | h
    · exact .inl hcall
    rcases List.mem_append.1 h with h | h
    · exact .inr (Program.call_of_event hcall h)
    · obtain rfl := List.mem_singleton.1 h
      cases hcall

/-- The call of an event is that of a statement: in a program, -/
theorem Program.call_of_event (hcall : ev.call? = some call) {p : Program} (h : ev ∈ p.events) :
    CalledIn p.family call := by
  match p with
  | ⟨body, params, chained, span⟩ =>
    rcases body_call_of_event hcall h with ⟨s, hs, hcalled⟩ | hcalled
    · exact ⟨_, List.mem_cons_self .., s, hs, hcalled⟩
    · exact hcalled.mono (List.subset_cons_self ..)

/-- in a section, -/
theorem section_call_of_event (hcall : ev.call? = some call) {p : Option Program}
    (h : ev ∈ sectionEvents p) :
    CalledIn (sectionPrograms p) call := by
  match p with
  | none => cases h
  | some p => exact Program.call_of_event hcall h

/-- in an else section, with its mark, -/
theorem else_call_of_event (hcall : ev.call? = some call) {strip : Strip} {p : Option Program}
    (h : ev ∈ elseEvents strip p) :
    CalledIn (sectionPrograms p) call := by
  match p with
  | none => cases h
  | some ⟨body, params, chained, span⟩ =>
    rcases List.mem_append.1 h with h | h
    · split at h
      · cases h
      · obtain rfl := List.mem_singleton.1 h
        cases hcall
    · rcases body_call_of_event hcall h with ⟨s, hs, hcalled⟩ | hcalled
      · exact ⟨_, List.mem_cons_self .., s, hs, hcalled⟩
      · exact hcalled.mono (List.subset_cons_self ..)

/-- and in a body. -/
theorem body_call_of_event (hcall : ev.call? = some call) {chained : Bool} {body : List Statement}
    (h : ev ∈ bodyEvents chained body) :
    (∃ s ∈ body, s.call? = some call) ∨ CalledIn (bodyPrograms body) call := by
  match body with
  | [] => cases h
  | s :: rest =>
    rcases List.mem_append.1 h with h | h
    · rcases Statement.call_of_event hcall h with hcalled | hcalled
      · exact .inl ⟨s, List.mem_cons_self .., hcalled⟩
      · exact .inr (hcalled.mono (List.subset_append_left ..))
    · rcases body_call_of_event hcall h with ⟨t, ht, hcalled⟩ | hcalled
      · exact .inl ⟨t, List.mem_cons_of_mem _ ht, hcalled⟩
      · exact .inr (hcalled.mono (List.subset_append_right ..))

end

end

/-! ## Files -/

/-- Whitespace control keeps the calls. -/
theorem CalledIn.trimmed {p : Program} {call : Call} {standalone : Bool}
    (h : CalledIn p.family call) : CalledIn (p.trimmed standalone).family call := by
  have herased (q : Program) : (∃ s ∈ q.erased.body, s.call? = some call)
      ↔ ∃ s ∈ q.body, s.call? = some call := by
    obtain ⟨body, params, chained, span⟩ := q
    show (∃ s ∈ erasedBody body, s.call? = some call) ↔ ∃ s ∈ body, s.call? = some call
    simp only [erasedBody_eq_map, List.mem_map, exists_exists_and_eq_and, Statement.call?_erased]
  obtain ⟨q, hq, hs⟩ := h
  have hmem : q.erased ∈ (p.trimmed standalone).family.map Program.erased := by
    rw [p.map_erased_family_trimmed standalone]
    exact List.mem_map_of_mem hq
  obtain ⟨q', hq', heq⟩ := List.mem_map.1 hmem
  exact ⟨q', hq', (herased q').1 (heq ▸ (herased q).2 hs)⟩

/-- The call of the statement, if it has one, is that of some item. -/
def Statement.MadeOf (items : List Item) (s : Statement) : Prop :=
  ∀ call, s.call? = some call → ∃ item ∈ items, ∃ ev, item.event? = some ev ∧ ev.call? = some call

/-- A statement is made of the item that forms it. -/
theorem Item.Forms.madeOf {items : List Item} {item : Item} {s : Statement} (h : item.Forms s)
    (hitem : item ∈ items) : s.MadeOf items := by
  intro call hcall
  have hevents := h.events_eq
  cases h with
  | content | comment => cases hcall
  | mustache | partialCall | decorator =>
    cases hcall
    exact ⟨item, hitem, _, (List.cons.inj hevents).1.symm, rfl⟩

/-- **Every call of a template that is parsed** is that of an item. -/
theorem Template.parse_madeOf {text : String} {source : Option String} {standalone : Bool}
    {t : Template} (h : Template.parse text source standalone = .ok t) :
    ∃ items, Item.readAll .origin text.toList = .ok items
      ∧ ∀ p ∈ t.root.family, ∀ s ∈ p.body, s.MadeOf items := by
  have hall (items : List Item) : ItemsForall (Statement.MadeOf items) items := by
    refine ⟨fun _ hitem _ hform => hform.madeOf hitem, ?_⟩
    intro item hitem chained o hopen first second strip stop call hcall
    rw [o.call?_wrap] at hcall
    cases hcall
    exact ⟨item, hitem, _, hopen.event?_eq, rfl⟩
  refine Template.parse_forall (fun items => (hall items).linked) ?_ h
  intro items s
  cases s <;> exact Iff.rfl

/-- **Every call of an item** is one of the tree, after whitespace control as before. -/
theorem Program.exists_call_of_event {items : List Item} {stop first last : Position} {p : Program}
    (h : Program.ofItems items stop = .ok p) (hrow : Item.EndToEnd first items last) {item : Item}
    (hitem : item ∈ items) {ev : Event} (hev : item.event? = some ev) {call : Call}
    (hcall : ev.call? = some call) (standalone : Bool) :
    CalledIn (p.trimmed standalone).family call := by
  obtain ⟨-, o, ho⟩ := Program.ofItems_outlined h
  have hevents := Outline.events_eq ho.valid (ho.items_eq ▸ hrow)
  rw [ho.items_eq, ho.statements_eq] at hevents
  have hmem : some ev ∈ (bodyEvents false p.body).map some := by
    rw [hevents, ← hev]
    exact List.mem_map_of_mem hitem
  obtain ⟨ev', hev', heq⟩ := List.mem_map.1 hmem
  cases heq
  refine (Program.call_of_event hcall ?_).trimmed
  obtain ⟨body, params, chained, span⟩ := p
  exact hev'

end Stache
