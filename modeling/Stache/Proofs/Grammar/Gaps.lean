/-
  Arguments that may be replaced.

  A tree has a GAP where an argument stands: the tree around it does not depend on what the argument
  is (`Gap`).  Put any other argument into the gap, with its tokens in the place of the old ones,
  and a tree of the same sort stands over the new row of tokens, with the same label and with the
  new argument among its own.  The tokens behind the gap may have moved.

  Each argument of a call has its gap (`CallTree.gap`, by recursion on the tree): a gap in a part is
  one in the whole, since the other parts stay as they are, in other places behind it
  (`Gap.inside`).  And so it is with whatever is read from tokens (`Decides.gap`).
-/
import Stache.Proofs.Grammar.Arguments
import Stache.Proofs.Grammar.Elsewhere

namespace Stache.Grammar

/-! ## Gaps -/

/-- The expression stands among the tokens, and whatever argument stands there instead, `Q` holds of
    the new row of tokens and the argument. -/
def Gap (ts : List Token) (e : Expression) (Q : List Token → Expression → Prop) : Prop :=
  ∃ (us : List Token) (p : ParamTree) (vs : List Token), p.expression = e
    ∧ ts = us ++ (p.tokens ++ vs)
    ∧ ∀ (p' : ParamTree) (vs' : List Token), SameTokens vs vs' →
      Q (us ++ (p'.tokens ++ vs')) p'.expression

section

variable {ts : List Token} {e : Expression} {Q Q' : List Token → Expression → Prop}

/-- A gap in a part of a row is one in the row. -/
theorem Gap.inside (h : Gap ts e Q) (before after : List Token)
    (hQ : ∀ ts' after' e', SameTokens after after' → Q ts' e' →
      Q' (before ++ (ts' ++ after')) e') : Gap (before ++ (ts ++ after)) e Q' := by
  obtain ⟨us, p, vs, hp, rfl, hreplace⟩ := h
  refine ⟨before ++ us, p, vs ++ after, hp, by simp, ?_⟩
  intro p' ws' hws
  obtain ⟨vs', after', rfl, hvs, hafter⟩ := hws.exists_append
  have hnew := hQ _ after' _ hafter (hreplace p' vs' hvs)
  simpa using hnew

/-- A gap stays one behind other tokens. -/
theorem Gap.behind (h : Gap ts e Q) (before : List Token)
    (hQ : ∀ ts' e', Q ts' e' → Q' (before ++ ts') e') : Gap (before ++ ts) e Q' := by
  obtain ⟨us, p, vs, hp, rfl, hreplace⟩ := h
  refine ⟨before ++ us, p, vs, hp, (List.append_assoc ..).symm, ?_⟩
  intro p' vs' hvs
  rw [List.append_assoc]
  exact hQ _ _ (hreplace p' vs' hvs)

theorem Gap.mono (h : Gap ts e Q) (hQ : ∀ ts' e', Q ts' e' → Q' ts' e') : Gap ts e Q' := by
  obtain ⟨us, p, vs, hp, hts, hreplace⟩ := h
  exact ⟨us, p, vs, hp, hts, fun p' vs' hvs => hQ _ _ (hreplace p' vs' hvs)⟩

end

/-! ## Calls -/

mutual

/-- In parentheses, the gaps are those of the call. -/
theorem ParamTree.gap (p : ParamTree) : ∀ e ∈ p.expression.arguments, Gap p.tokens e
    fun ts' e' => ∃ p' : ParamTree, p'.tokens = ts' ∧ p'.expression.label = p.expression.label
      ∧ e' ∈ p'.expression.arguments := by
  intro e he
  match p with
  | .name n =>
    rw [ParamTree.expression, n.arguments_eq] at he
    cases he
  | .parens opening call closing =>
    refine (call.gap e he).inside [opening.1] [closing.1] ?_
    rintro ts' after' e' hafter ⟨call', rfl, hlabel, he'⟩
    obtain ⟨t', us', rfl, hkind, -, hnil⟩ := hafter.exists_cons
    obtain rfl := hnil.of_nil
    exact ⟨.parens opening call' ⟨t', hkind.trans closing.2⟩, rfl, hlabel, he'⟩

/-- **Each argument of a call** has its gap. -/
theorem CallTree.gap (c : CallTree) : ∀ e ∈ c.call.arguments, Gap c.tokens e
    fun ts' e' => ∃ c' : CallTree, c'.tokens = ts' ∧ c'.call.label = c.call.label
      ∧ e' ∈ c'.call.arguments := by
  intro e he
  match c with
  | ⟨callee, params, pairs⟩ =>
    rw [CallTree.call, Call.arguments, callee.arguments_eq, hashArguments_ofPairs,
      List.nil_append, List.mem_append] at he
    rcases he with he | he
    · refine (params_gap params e he).inside callee.tokens (pairsTokens pairs) ?_
      rintro ts' after' e' hafter ⟨params', rfl, he'⟩
      -- The pairs stand behind the gap, so they are the same in another place.
      obtain ⟨pairs', rfl, -⟩ := pairs_elsewhere pairs hafter
      refine ⟨⟨callee, params', pairs'⟩, rfl, rfl, ?_⟩
      rw [CallTree.call, Call.arguments]
      exact List.mem_append_right _ (List.mem_append_left _ he')
    · rw [CallTree.tokens, ← List.append_assoc]
      refine (pairs_gap pairs e he).behind _ ?_
      rintro ts' e' ⟨pairs', rfl, he'⟩
      refine ⟨⟨callee, params, pairs'⟩, (List.append_assoc ..).symm, rfl, ?_⟩
      rw [CallTree.call, Call.arguments, hashArguments_ofPairs]
      exact List.mem_append_right _ (List.mem_append_right _ he')

/-- Each parameter is a gap, and has gaps in it, -/
theorem params_gap (params : List ParamTree) :
    ∀ e ∈ paramsArguments (paramsExpressions params), Gap (paramsTokens params) e
      fun ts' e' => ∃ params', paramsTokens params' = ts'
        ∧ e' ∈ paramsArguments (paramsExpressions params') := by
  intro e he
  match params with
  | [] => cases he
  | p :: rest =>
    -- it is the first parameter, an argument in it, or one of those behind
    rcases List.mem_cons.1 he with rfl | he
    · refine ⟨[], p, paramsTokens rest, rfl, rfl, ?_⟩
      intro p' vs' hvs
      obtain ⟨rest', rfl, -⟩ := params_elsewhere rest hvs
      exact ⟨p' :: rest', rfl, List.mem_cons_self ..⟩
    rcases List.mem_append.1 he with he | he
    · refine (p.gap e he).inside [] (paramsTokens rest) ?_
      rintro ts' after' e' hafter ⟨p', rfl, -, he'⟩
      obtain ⟨rest', rfl, -⟩ := params_elsewhere rest hafter
      exact ⟨p' :: rest', rfl, List.mem_cons_of_mem _ (List.mem_append_left _ he')⟩
    · refine (params_gap rest e he).behind p.tokens ?_
      rintro ts' e' ⟨rest', rfl, he'⟩
      exact ⟨p :: rest', rfl, List.mem_cons_of_mem _ (List.mem_append_right _ he')⟩

/-- and so has each value. -/
theorem pairs_gap (pairs : List PairTree) :
    ∀ e ∈ pairsArguments (pairsOf pairs), Gap (pairsTokens pairs) e
      fun ts' e' => ∃ pairs', pairsTokens pairs' = ts' ∧ e' ∈ pairsArguments (pairsOf pairs') := by
  intro e he
  match pairs with
  | [] => cases he
  | ⟨key, equals, value⟩ :: rest =>
    -- he | it is the value of the first pair, inside that value, or in a later pair
    rcases List.mem_cons.1 he with rfl | he
    · refine ⟨[key.token, equals.1], value, pairsTokens rest, rfl, rfl, ?_⟩
      intro p' vs' hvs
      obtain ⟨rest', rfl, -⟩ := pairs_elsewhere rest hvs
      exact ⟨⟨key, equals, p'⟩ :: rest', rfl, List.mem_cons_self ..⟩
    rcases List.mem_append.1 he with he | he
    · refine (value.gap e he).inside [key.token, equals.1] (pairsTokens rest) ?_
      rintro ts' after' e' hafter ⟨value', rfl, -, he'⟩
      obtain ⟨rest', rfl, -⟩ := pairs_elsewhere rest hafter
      exact ⟨⟨key, equals, value'⟩ :: rest', rfl,
        List.mem_cons_of_mem _ (List.mem_append_left _ he')⟩
    · refine (pairs_gap rest e he).behind (key.token :: equals.1 :: value.tokens) ?_
      rintro ts' e' ⟨rest', rfl, he'⟩
      exact ⟨⟨key, equals, value⟩ :: rest', rfl,
        List.mem_cons_of_mem _ (List.mem_append_right _ he')⟩

end

/-- In a partial, the callee may have arguments as well. -/
theorem PartialTree.gap (d : PartialTree) : ∀ e ∈ d.call.arguments, Gap d.tokens e
    fun ts' e' => ∃ d' : PartialTree, d'.tokens = ts' ∧ d'.call.label = d.call.label
      ∧ e' ∈ d'.call.arguments := by
  intro e he
  obtain ⟨callee, params, pairs⟩ := d
  rw [PartialTree.call, Call.arguments, hashArguments_ofPairs, List.mem_append, List.mem_append]
    at he
  -- he | he | in the name, among the parameters, or among the pairs
  rcases he with he | he | he
  · refine (callee.gap e he).inside [] (paramsTokens params ++ pairsTokens pairs) ?_
    rintro ts' after' e' hafter ⟨callee', rfl, hlabel, he'⟩
    obtain ⟨ws', xs', rfl, hparams, hpairs⟩ := hafter.exists_append
    obtain ⟨params', rfl, -⟩ := params_elsewhere params hparams
    obtain ⟨pairs', rfl, -⟩ := pairs_elsewhere pairs hpairs
    exact ⟨⟨callee', params', pairs'⟩, rfl, hlabel, List.mem_append_left _ he'⟩
  · refine (params_gap params e he).inside callee.tokens (pairsTokens pairs) ?_
    rintro ts' after' e' hafter ⟨params', rfl, he'⟩
    obtain ⟨pairs', rfl, -⟩ := pairs_elsewhere pairs hafter
    refine ⟨⟨callee, params', pairs'⟩, rfl, rfl, ?_⟩
    rw [PartialTree.call, Call.arguments]
    exact List.mem_append_right _ (List.mem_append_left _ he')
  · rw [PartialTree.tokens, ← List.append_assoc]
    refine (pairs_gap pairs e he).behind _ ?_
    rintro ts' e' ⟨pairs', rfl, he'⟩
    refine ⟨⟨callee, params, pairs'⟩, (List.append_assoc ..).symm, rfl, ?_⟩
    rw [PartialTree.call, Call.arguments, hashArguments_ofPairs]
    exact List.mem_append_right _ (List.mem_append_right _ he')

/-! ## Whole tags -/

section

variable {δ : Type} {tokens : δ → List Token} {value : δ → Call}

/-- Each argument of such a tree has its gap. -/
def HasGaps (tokens : δ → List Token) (value : δ → Call) : Prop :=
  ∀ d, ∀ e ∈ (value d).arguments, Gap (tokens d) e fun ts' e' =>
    ∃ d', tokens d' = ts' ∧ (value d').label = (value d).label ∧ e' ∈ (value d').arguments

/-- The gaps of a call are those of the tag that opens a block with it. -/
theorem HasGaps.opener (h : HasGaps tokens value) :
    HasGaps (OpenerTree.tokens tokens) fun d => (OpenerTree.value value d).1 := by
  rintro ⟨call, blockParams⟩ e he
  refine (h call e he).inside [] (optionTokens blockParams) ?_
  rintro ts' after' e' hafter ⟨call', rfl, hlabel, he'⟩
  obtain ⟨blockParams', rfl, -⟩ := blockParams_movable blockParams after' hafter
  exact ⟨⟨call', blockParams'⟩, rfl, hlabel, he'⟩

/-- **What is read from a row of tokens** has a gap where an argument stands. -/
theorem Decides.gap {α : Type} {read : List Token → Except Misfit α} {make : δ → α}
    {callOf : α → Call} (h : Decides read tokens make)
    (hgaps : HasGaps tokens fun d => callOf (make d)) {ts : List Token} {a : α}
    (ha : read ts = .ok a) : ∀ e ∈ (callOf a).arguments, Gap ts e fun ts' e' =>
      ∃ a', read ts' = .ok a' ∧ (callOf a').label = (callOf a).label
        ∧ e' ∈ (callOf a').arguments := by
  obtain ⟨d, rfl, rfl⟩ := (h.accepts ts a).1 ha
  intro e he
  refine (hgaps d e he).mono ?_
  rintro ts' e' ⟨d', rfl, hlabel, he'⟩
  exact ⟨_, (h.accepts _ _).2 ⟨d', rfl, rfl⟩, hlabel, he'⟩

end

end Stache.Grammar
