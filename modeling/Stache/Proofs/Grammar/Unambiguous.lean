/-
  The grammar is unambiguous.

  Two trees with the same yield are the same tree.  Where a yield is made of the yields of subtrees,
  it has to be cut in the same places for both trees; and it is, since a reader that begins at the
  front leaves the same tokens in both cases (`rest_eq`), and these are what stands behind the first
  subtree (`NameTree.append_inj`, `ParamTree.append_inj`).  From there on, the first tokens tell
  which rule comes next, and the recursion is on the tree.
-/
import Stache.Proofs.Grammar.Calls

namespace Stache.Grammar

/-! ## Cutting a yield -/

/-- A reader leaves what it leaves. -/
theorem rest_eq {α : Type} {P : List Token → Prop} {result : Except Misfit (α × { ts // P ts })}
    {a a' : α} {rest rest' : List Token} (h : ∃ left, result = .ok (a, left) ∧ left.1 = rest)
    (h' : ∃ left, result = .ok (a', left) ∧ left.1 = rest') : rest = rest' := by
  obtain ⟨left, hresult, rfl⟩ := h
  obtain ⟨left', hresult', rfl⟩ := h'
  cases hresult.symm.trans hresult'
  rfl

section

variable {rest rest' : List Token} (hrest : Bounds rest) (hrest' : Bounds rest')

include hrest hrest'

theorem NameTree.append_inj {n n' : NameTree} (h : n.tokens ++ rest = n'.tokens ++ rest') :
    n.tokens = n'.tokens ∧ rest = rest' := by
  have heq : rest = rest' := rest_eq (readName_append n hrest) (h ▸ readName_append n' hrest')
  subst heq
  exact ⟨List.append_cancel_right h, rfl⟩

theorem ParamTree.append_inj {p p' : ParamTree} (h : p.tokens ++ rest = p'.tokens ++ rest') :
    p.tokens = p'.tokens ∧ rest = rest' := by
  have heq : rest = rest' := rest_eq (readParam_append p hrest) (h ▸ readParam_append p' hrest')
  subst heq
  exact ⟨List.append_cancel_right h, rfl⟩

end

/-- Parameters and pairs are told apart. -/
theorem arguments_append_inj {params params' : List ParamTree} {pairs pairs' : List PairTree}
    (h : paramsTokens params ++ pairsTokens pairs = paramsTokens params' ++ pairsTokens pairs') :
    paramsTokens params = paramsTokens params' ∧ pairsTokens pairs = pairsTokens pairs' := by
  have hread (ps : List ParamTree) (qs : List PairTree) :
      ∃ left, readParams (paramsTokens ps ++ pairsTokens qs) = .ok (paramsExpressions ps, left)
        ∧ left.1 = pairsTokens qs := by
    have hbounds := bounds_pairsTokens qs .nil
    have hends := endsParams_pairsTokens qs .nil
    rw [List.append_nil] at hbounds hends
    exact readParams_append ps hends hbounds
  have heq : pairsTokens pairs = pairsTokens pairs' :=
    rest_eq (hread params pairs) (h ▸ hread params' pairs')
  rw [heq] at h
  exact ⟨List.append_cancel_right h, heq⟩

theorem bounds_arguments (params : List ParamTree) (pairs : List PairTree) :
    Bounds (paramsTokens params ++ pairsTokens pairs) := by
  have hpairs := bounds_pairsTokens pairs .nil
  rw [List.append_nil] at hpairs
  exact bounds_paramsTokens params hpairs

/-! ## Names -/

/-- A path can be told from its tokens. -/
theorem moreTokens_inj {more more' : List (SeparatorToken × NameToken)}
    (h : moreTokens more = moreTokens more') : more = more' := by
  induction more generalizing more' with
  | nil =>
    cases more' with
    | nil => rfl
    | cons part more' => cases h
  | cons part more ih =>
    cases more' with
    | nil => cases h
    | cons part' more' =>
      obtain ⟨separator, name⟩ := part
      obtain ⟨separator', name'⟩ := part'
      obtain ⟨hseparator, hname, hmore⟩ : separator.token = separator'.token
          ∧ name.token = name'.token ∧ moreTokens more = moreTokens more' := by
        simpa [moreTokens] using h
      rw [SeparatorToken.eq_of_token_eq hseparator, NameToken.eq_of_token_eq hname, ih hmore]

/-- One yield has one path. -/
theorem PathTree.eq_of_tokens_eq {p p' : PathTree} (h : p.tokens = p'.tokens) : p = p' := by
  obtain ⟨first, more, hsteps⟩ := p
  obtain ⟨first', more', hsteps'⟩ := p'
  obtain ⟨hfirst, hmore⟩ := List.cons.inj h
  obtain rfl := NameToken.eq_of_token_eq hfirst
  obtain rfl := moreTokens_inj hmore
  rfl

/-- The first token tells which sort of name comes. -/
theorem NameTree.eq_of_tokens_eq {n n' : NameTree} (h : n.tokens = n'.tokens) : n = n' := by
  -- a path begins with a name, and data with its sign,
  have hpath (p : PathTree) (at' : Mark .atSign) : p.first.token ≠ at'.1 := by
    intro heq
    have hkind := at'.2
    rw [← heq, p.first.kind_eq] at hkind
    cases hkind
  -- while a literal is neither:
  have hliteral {t : Token} {e : Expression} (ht : literal? t = some e) :
      (∀ name bracketed, t.kind ≠ .name name bracketed) ∧ t.kind ≠ .atSign := by
    constructor
    · intro name bracketed hkind
      rw [literal?, hkind] at ht
      cases ht
    · intro hkind
      rw [literal?, hkind] at ht
      cases ht
  -- so the first token tells which of the three it is
  cases n with
  | path p =>
    cases n' with
    | path p' => rw [PathTree.eq_of_tokens_eq h]
    | data at' p' => exact absurd (List.cons.inj h).1 (hpath p at')
    | literal t e ht =>
      obtain rfl : p.first.token = t := (List.cons.inj h).1
      exact absurd p.first.kind_eq ((hliteral ht).1 _ _)
  | data at' p =>
    cases n' with
    | path p' => exact absurd (List.cons.inj h).1.symm (hpath p' at')
    | data at'' p' =>
      obtain ⟨hat, hp⟩ := List.cons.inj h
      obtain rfl := Subtype.ext hat
      rw [PathTree.eq_of_tokens_eq hp]
    | literal t e ht =>
      obtain rfl : at'.1 = t := (List.cons.inj h).1
      exact absurd at'.2 (hliteral ht).2
  | literal t e ht =>
    cases n' with
    | path p' =>
      obtain rfl : t = p'.first.token := (List.cons.inj h).1
      exact absurd p'.first.kind_eq ((hliteral ht).1 _ _)
    | data at' p' =>
      obtain rfl : t = at'.1 := (List.cons.inj h).1
      exact absurd at'.2 (hliteral ht).2
    | literal t' e' ht' =>
      obtain rfl : t = t' := (List.cons.inj h).1
      cases ht.symm.trans ht'
      rfl

/-! ## Calls -/

theorem NameTree.tokens_ne_parens (n : NameTree) (opening : Mark .openParen) (us : List Token) :
    n.tokens ≠ opening.1 :: us := by
  intro h
  obtain ⟨t, vs, hn, ht⟩ := n.exists_tokens
  obtain rfl : t = opening.1 := (List.cons.inj (hn.symm.trans h)).1
  exact ht.kind_ne.1 opening.2

/-- A parameter has a token. -/
theorem ParamTree.tokens_ne_nil (p : ParamTree) : p.tokens ≠ [] := by
  cases p with
  | name n =>
    obtain ⟨t, us, hn, -⟩ := n.exists_tokens
    rw [ParamTree.tokens, hn]
    exact List.cons_ne_nil t us
  | parens opening call closing =>
    rw [ParamTree.tokens]
    exact List.cons_ne_nil _ _

mutual

/-- One yield has one parameter, -/
theorem ParamTree.eq_of_tokens_eq {p p' : ParamTree} (h : p.tokens = p'.tokens) : p = p' := by
  match p, p' with
  | .name n, .name n' => rw [NameTree.eq_of_tokens_eq h]
  | .name n, .parens opening call closing => exact absurd h (n.tokens_ne_parens opening _)
  | .parens opening call closing, .name n => exact absurd h.symm (n.tokens_ne_parens opening _)
  | .parens opening call closing, .parens opening' call' closing' =>
    obtain ⟨hopening, hrest⟩ := List.cons.inj h
    obtain ⟨hcall, hclosing⟩ := List.append_inj' hrest rfl
    obtain rfl := Subtype.ext hopening
    obtain rfl := Subtype.ext (List.cons.inj hclosing).1
    rw [CallTree.eq_of_tokens_eq hcall]

/-- one call, -/
theorem CallTree.eq_of_tokens_eq {c c' : CallTree} (h : c.tokens = c'.tokens) : c = c' := by
  match c, c' with
  | ⟨callee, params, pairs⟩, ⟨callee', params', pairs'⟩ =>
    obtain ⟨hcallee, harguments⟩ := NameTree.append_inj (bounds_arguments params pairs)
      (bounds_arguments params' pairs') h
    obtain ⟨hparams, hpairs⟩ := arguments_append_inj harguments
    rw [NameTree.eq_of_tokens_eq hcallee, paramsTokens_inj hparams, pairsTokens_inj hpairs]

/-- one row of parameters, -/
theorem paramsTokens_inj {params params' : List ParamTree}
    (h : paramsTokens params = paramsTokens params') : params = params' := by
  -- the first parameter has the same tokens in both, and so have the others
  match params, params' with
  | [], [] => rfl
  | [], p' :: params' =>
    exact absurd (List.append_eq_nil_iff.1 h.symm).1 p'.tokens_ne_nil
  | p :: params, [] => exact absurd (List.append_eq_nil_iff.1 h).1 p.tokens_ne_nil
  | p :: params, p' :: params' =>
    obtain ⟨hp, hparams⟩ := ParamTree.append_inj (by simpa using bounds_paramsTokens params .nil)
      (by simpa using bounds_paramsTokens params' .nil) h
    rw [ParamTree.eq_of_tokens_eq hp, paramsTokens_inj hparams]

/-- and one row of pairs. -/
theorem pairsTokens_inj {pairs pairs' : List PairTree} (h : pairsTokens pairs = pairsTokens pairs') :
    pairs = pairs' := by
  match pairs, pairs' with
  | [], [] => rfl
  | [], ⟨_, _, _⟩ :: _ => cases h
  | ⟨_, _, _⟩ :: _, [] => cases h
  | ⟨key, equals, value⟩ :: pairs, ⟨key', equals', value'⟩ :: pairs' =>
    obtain ⟨hkey, hrest⟩ := List.cons.inj h
    obtain ⟨hequals, hrest⟩ := List.cons.inj hrest
    obtain ⟨hvalue, hpairs⟩ := ParamTree.append_inj (by simpa using bounds_pairsTokens pairs .nil)
      (by simpa using bounds_pairsTokens pairs' .nil) hrest
    rw [NameToken.eq_of_token_eq hkey, Subtype.ext hequals, ParamTree.eq_of_tokens_eq hvalue,
      pairsTokens_inj hpairs]

end

end Stache.Grammar
