/-
  Replacing an argument of a template.

  1. TAGS.  What a tag means to the nesting is its kind and the label of its call.  Both stay when
     an argument of the call is replaced, so there is a gap where the argument stands
     (`Tag.HasArgument.gap`).
  2. PLACES.  A position names a token, and an argument that begins with a literal is this one token
     (`ParamTree.exists_first`).  So an argument that begins at a quote is the token there.
  3. TEMPLATES.  In the new text the items are the old ones but for the one token, and their roles
     are the same, so they form a tree again; the call with the new argument is somewhere in it
     (`Template.parse_replace`).
-/
import Stache.Proofs.Grammar.Gaps
import Stache.Proofs.Items.Strings
import Stache.Proofs.Nesting.Roles

namespace Stache

open Grammar

/-! ## Tags -/

/-- The tag has this role, and the expression among the arguments of its call. -/
def Tag.HasArgument (tag : Tag) (role : Role) (e : Expression) : Prop :=
  ∃ ev call, tag.event? = some ev ∧ ev.role = role ∧ ev.call? = some call ∧ e ∈ call.arguments

/-- The role of a tag that has the argument. -/
theorem Tag.HasArgument.role?_eq {tag : Tag} {role : Role} {e : Expression}
    (h : tag.HasArgument role e) {item : Item} (hshape : item.shape = .tag tag) :
    item.role? = some role := by
  obtain ⟨ev, call, hev, rfl, -⟩ := h
  rw [Item.role?, Item.event?, hshape]
  show tag.event?.map Event.role = some ev.role
  rw [hev]
  rfl

/-- An item with a call is a tag. -/
theorem Item.exists_hasArgument {item : Item} {ev : Event} (hev : item.event? = some ev)
    {call : Call} (hcall : ev.call? = some call) {e : Expression} (he : e ∈ call.arguments) :
    ∃ tag, item.shape = .tag tag ∧ tag.HasArgument ev.role e := by
  rw [Item.event?] at hev
  cases hshape : item.shape with
  | tag tag =>
    rw [hshape] at hev
    exact ⟨tag, rfl, ev, call, hev, rfl, hcall, he⟩
  | content | comment =>
    rw [hshape] at hev
    cases hev
    cases hcall

section

variable {kind : TagRole} {ts : List Token} {p : Position} {strip : Strip} {role : Role}
variable {e : Expression}

/-- There is a gap at the argument.  Whatever stands there instead is an argument of the new tag,
    which has the same role. -/
def ArgumentGap (kind : TagRole) (ts : List Token) (role : Role) (e : Expression) : Prop :=
  Gap ts e fun ts' e' => ∀ p strip, Tag.HasArgument ⟨kind, ts', p, strip⟩ role e'

/-- A tag whose event is made of what is read from its tokens.  Its role depends on nothing but the
    label of the call. -/
theorem Grammar.Decides.argumentGap {α δ : Type} {read : List Token → Except Misfit α}
    {tokens : δ → List Token} {value : δ → α} {callOf : α → Call}
    (h : Decides read tokens value) (hgaps : HasGaps tokens fun d => callOf (value d))
    (event : Strip → α → Event) (roleOf : String → Role)
    (hcall : ∀ strip a, (event strip a).call? = some (callOf a))
    (hrole : ∀ strip a, (event strip a).role = roleOf (callOf a).label)
    (hevent : ∀ ts p strip,
      Tag.event? ⟨kind, ts, p, strip⟩ = (read ts).toOption.map (event strip))
    (htag : Tag.HasArgument ⟨kind, ts, p, strip⟩ role e) : ArgumentGap kind ts role e := by
  obtain ⟨ev, call, hev, rfl, hcall', he⟩ := htag
  rw [hevent] at hev
  obtain ⟨a, ha, rfl⟩ := Option.map_eq_some_iff.1 hev
  cases (hcall ..).symm.trans hcall'
  refine (h.gap hgaps (eq_ok_of_toOption ha) e he).mono ?_
  rintro ts' e' ⟨a', ha', hlabel, he'⟩ p' strip'
  refine ⟨event strip' a', callOf a', ?_, ?_, hcall .., he'⟩
  · rw [hevent, ha']
    rfl
  · rw [hrole, hrole, hlabel]

/-- The same for a tag that opens a block. -/
theorem Grammar.Derives.argumentGap {δ : Type}
    {read : (ts : List Token) → Except Misfit (Call × Fewer ts)} {tokens : δ → List Token}
    {value : δ → Call} (h : Derives read tokens value) (hgaps : HasGaps tokens value)
    (opening : OpeningKind) (chained : Bool)
    (hevent : ∀ ts p strip, Tag.event? ⟨kind, ts, p, strip⟩ = (do
        let (call, rest) ← read ts
        return (call, ← blockParamsOfTokens rest.1)).toOption.map fun (call, params) =>
          .opening opening chained call params strip)
    (htag : Tag.HasArgument ⟨kind, ts, p, strip⟩ role e) : ArgumentGap kind ts role e :=
  h.opener.argumentGap hgaps.opener
    (fun strip opener => .opening opening chained opener.1 opener.2 strip)
    (.opening opening chained) (fun _ _ => rfl) (fun _ _ => rfl) hevent htag

/-- **Each argument of a tag** has its gap. -/
theorem Tag.HasArgument.gap (h : Tag.HasArgument ⟨kind, ts, p, strip⟩ role e) :
    ArgumentGap kind ts role e := by
  have hcalls : HasGaps CallTree.tokens CallTree.call := CallTree.gap
  have hpartials : HasGaps PartialTree.tokens PartialTree.call := PartialTree.gap
  -- by the reader of each kind of tag
  cases kind with
  | mustache form =>
    exact derives_call.whole.argumentGap hcalls
      (fun strip call => .mustache call form.escaped strip) (fun _ => .bare) (fun _ _ => rfl)
      (fun _ _ => rfl) (fun _ _ _ => rfl) h
  | decorator =>
    exact derives_call.whole.argumentGap hcalls (fun strip call => .decorator call strip)
      (fun _ => .bare) (fun _ _ => rfl) (fun _ _ => rfl) (fun _ _ _ => rfl) h
  | partialCall =>
    exact derives_partialCall.whole.argumentGap hpartials
      (fun strip call => .partialCall call strip) (fun _ => .bare) (fun _ _ => rfl)
      (fun _ _ => rfl) (fun _ _ _ => rfl) h
  | openBlock => exact derives_call.argumentGap hcalls .block false (fun _ _ _ => rfl) h
  | openInverse => exact derives_call.argumentGap hcalls .inverse false (fun _ _ _ => rfl) h
  | openDecoratorBlock =>
    exact derives_call.argumentGap hcalls .decoratorBlock false (fun _ _ _ => rfl) h
  | elseChain => exact derives_call.argumentGap hcalls .block true (fun _ _ _ => rfl) h
  | openPartialBlock =>
    exact derives_partialCall.argumentGap hpartials .partialBlock false (fun _ _ _ => rfl) h
  -- these have no arguments
  | elseMark =>
    obtain ⟨ev, call, hev, -, hcall, -⟩ := h
    cases hev
    cases hcall
  | closeMark =>
    obtain ⟨ev, call, hev, -, hcall, -⟩ := h
    obtain ⟨name, -, rfl⟩ := Option.map_eq_some_iff.1 hev
    cases hcall

end

/-! ## Places -/

theorem Grammar.literal?_span {t : Token} {e : Expression} (h : literal? t = some e) :
    e.span = t.span := by
  unfold literal? at h
  split at h <;> cases h <;> rfl

theorem Grammar.NameToken.literal?_eq (n : NameToken) : literal? n.token = none := by
  rw [literal?, n.kind_eq]

/-- **An argument begins where its first token does**, and if that is a literal, there is no
    other. -/
theorem Grammar.ParamTree.exists_first (p : ParamTree) : ∃ t more, p.tokens = t :: more
    ∧ t.start = p.expression.span.start ∧ ((literal? t).isSome = true → more = []) := by
  cases p with
  | name n =>
    cases n with
    | path path =>
      refine ⟨path.first.token, moreTokens path.more, rfl, rfl, ?_⟩
      intro h
      rw [path.first.literal?_eq] at h
      cases h
    | data at' path =>
      refine ⟨at'.1, path.tokens, rfl, rfl, ?_⟩
      intro h
      rw [literal?, at'.2] at h
      cases h
    | literal t e h => exact ⟨t, [], rfl, congrArg Span.start (literal?_span h).symm, fun _ => rfl⟩
  | parens opening call closing =>
    refine ⟨opening.1, call.tokens ++ [closing.1], rfl, rfl, ?_⟩
    intro h
    rw [literal?, opening.2] at h
    cases h

/-! ## Templates -/

/-- What is read at a quote is a string. -/
theorem IsQuote.exists_string {q : Char} (hq : IsQuote q) {x : List Char} {r : Reading TokenKind}
    (h : TokenKind.read q x = .ok r) : ∃ value, r.value = .string value := by
  unfold TokenKind.read at h
  rcases hq with rfl | rfl
  all_goals
    dsimp only at h
    cases hquoted : readQuoted _ x with
    | none =>
      rw [hquoted] at h
      cases h
    | some r' =>
      rw [hquoted] at h
      cases h
      exact ⟨_, rfl⟩

section Replacing

variable {q q' : Char} (hq : IsQuote q) (hq' : IsQuote q') {b x y : List Char}
variable {r₀ r₁ : Reading TokenKind} (h₀ : TokenKind.read q x = .ok r₀)
variable (h₁ : TokenKind.read q' y = .ok r₁) (hrest : r₁.rest = r₀.rest)
variable {e₀ e₁ : Expression}
variable (hstart : e₀.span.start = Position.origin.advance b)
variable (he₁ : literal? ⟨r₁.value, String.ofList r₁.lexeme, Position.origin.advance b⟩ = some e₁)

include hq hq' h₀ h₁ hrest hstart he₁

/-- **In the items of a text** an argument that begins at a quote may be replaced, and all roles
    stay as they are. -/
theorem Item.Scan.replace_argument {items : List Item}
    (h : Item.Scan .origin (b ++ q :: x) items) {item : Item} (hitem : item ∈ items) {tag : Tag}
    (hshape : item.shape = .tag tag) {role : Role} (htag : tag.HasArgument role e₀) :
    ∃ items', Item.Scan .origin (b ++ q' :: y) items' ∧ items'.map Item.role? = items.map Item.role?
      ∧ ∃ item' ∈ items', ∃ tag', item'.shape = .tag tag' ∧ tag'.HasArgument role e₁ := by
  have hread := h.readIn hitem hshape
  have hrole : item.role? = some role := htag.role?_eq hshape
  obtain ⟨kind, ts, p, strip⟩ := tag
  obtain ⟨us, d, vs, rfl, rfl, hgap⟩ := htag.gap
  -- The argument begins with the token at the quote, and this is all of it.
  obtain ⟨t, more, htokens, hfirst, hliteral⟩ := d.exists_first
  have ht : t = ⟨r₀.value, String.ofList r₀.lexeme, Position.origin.advance b⟩ := by
    refine (hread t ?_).eq_of_start_eq ⟨b, q, x, r₀, rfl, h₀, rfl⟩ (hfirst.trans hstart)
    rw [htokens]
    exact List.mem_append_right _ (List.mem_cons_self ..)
  obtain ⟨value, hvalue⟩ := hq.exists_string h₀
  obtain rfl : more = [] := hliteral (by rw [ht, literal?, hvalue]; rfl)
  rw [htokens] at hshape
  obtain ⟨pre, post, item', post', tag', vs', rfl, hscan, hshape', hkind, -, htokens', hvs, hpost⟩ :=
    h.replace hq hq' h₀ h₁ hrest hitem hshape rfl (hfirst.trans hstart)
  -- The new token fills the gap of the old one.
  obtain ⟨kind', ts', p', strip'⟩ := tag'
  obtain rfl : kind' = kind := hkind
  have hnew : Tag.HasArgument ⟨kind', ts', p', strip'⟩ role e₁ := by
    rw [ht] at htokens'
    rw [show ts' = _ from htokens']
    exact hgap (.name (.literal _ e₁ he₁)) vs' hvs p' strip'
  refine ⟨pre ++ item' :: post', hscan, ?_, item', ?_, _, hshape', hnew⟩
  · rw [List.map_append, List.map_append, List.map_cons, List.map_cons, hrole,
      hnew.role?_eq hshape', SameItems.roles_eq hpost]
  · exact List.mem_append_right _ (List.mem_cons_self ..)

/-- **In a template** an argument that begins at a quote may be replaced. -/
theorem Template.parse_replace {source : Option String} {standalone : Bool} {t : Template}
    (h : Template.parse (String.ofList (b ++ q :: x)) source standalone = .ok t) {p : Program}
    (hp : p ∈ t.root.family) (he₀ : e₀ ∈ p.arguments) :
    ∃ t', Template.parse (String.ofList (b ++ q' :: y)) source standalone = .ok t'
      ∧ ∃ p' ∈ t'.root.family, e₁ ∈ p'.arguments := by
  obtain ⟨items, hitems, hmade⟩ := Template.parse_madeOf h
  obtain ⟨_, _, o, hitems', -, -, -, ho⟩ := Template.parse_outlined h
  cases hitems.symm.trans hitems'
  have hnested : WellNested items := ho.items_eq ▸ ho.valid.wellNested
  obtain ⟨s, hs, call, hcall, he₀⟩ := Program.mem_arguments.1 he₀
  obtain ⟨item, hitem, ev, hev, hevent⟩ := hmade p hp s hs call hcall
  obtain ⟨tag, hshape, htag⟩ := Item.exists_hasArgument hev hevent he₀
  rw [String.toList_ofList] at hitems
  obtain ⟨items', hscan, hroles, item', hitem', tag', hshape', ev', call', hev', -, hcall', he₁⟩ :=
    (Item.Scan.of_readAll hitems).replace_argument hq hq' h₀ h₁ hrest hstart he₁ hitem hshape htag
  -- Items with the same roles form a tree again, and the call is kept in it.
  obtain ⟨p', hp'⟩ := Program.exists_ofItems_iff.2 (hnested.of_roles hroles)
  have hev' : item'.event? = some ev' := by
    rw [Item.event?, hshape']
    exact hev'
  obtain ⟨inner, hinner, s', hs', hcalled⟩ :=
    Program.exists_call_of_event hp' hscan.endToEnd hitem' hev' hcall' standalone
  refine ⟨⟨source, p'.trimmed standalone⟩, ?_, inner, hinner,
    Program.mem_arguments.2 ⟨s', hs', call', hcalled, he₁⟩⟩
  rw [Template.parse, Program.ofText, String.toList_ofList, hscan.readAll_eq]
  show (Program.ofItems items' _ >>= _) = _
  rw [hp']
  rfl

end Replacing

end Stache
