/-
  Calls, read and derived.

  The readers of calls look two tokens ahead, and that decides everything: parameters end at a
  parenthesis that closes, at `as |`, or at a name before an equals sign, which begins a pair.  No
  parameter begins like that (`ParamTree.endsParams_append`), whatever follows it, since what
  follows a name is neither a separator nor an equals sign.

  So the yield of every tree is read as what the tree denotes (`readCall_append`, by recursion on
  the tree), and what is read is the yield of a tree (`exists_of_readCall`, by recursion on the
  tokens that are left).
-/
import Stache.Proofs.Grammar.Names

namespace Stache.Grammar

/-! ## Lookahead -/

/-- Only a name can begin a pair. -/
theorem pairAt_of_kind_ne {t : Token} {us : List Token}
    (h : ∀ name bracketed, t.kind ≠ .name name bracketed) : pairAt (t :: us) = none := by
  unfold pairAt
  split
  · rename_i heq
    cases heq
    split
    · rename_i hkind _
      exact absurd hkind (h _ _)
    · rfl
  · rfl

/-- A name is the key of a pair only in front of an equals sign. -/
theorem pairAt_cons_eq_none {t : Token} {us : List Token}
    (h : ∀ u vs, us = u :: vs → u.kind ≠ .equals) : pairAt (t :: us) = none := by
  match us, h with
  | [], _ => rfl
  | u :: vs, h =>
    rw [pairAt]
    split
    · rename_i hequals
      exact absurd hequals (h u vs rfl)
    · rfl

/-- A key with an equals sign does, -/
theorem pairAt_pair (key : NameToken) (equals : Mark .equals) (rest : List Token) :
    pairAt (key.token :: equals.1 :: rest) = some (key.name, key.token, rest) := by
  rw [pairAt, key.kind_eq, equals.2]

/-- and nothing else. -/
theorem exists_of_pairAt {ts : List Token} {name : String} {t : Token} {rest : List Token}
    (h : pairAt ts = some (name, t, rest)) :
    ∃ (key : NameToken) (equals : Mark .equals),
      ts = key.token :: equals.1 :: rest ∧ name = key.name ∧ t = key.token := by
  unfold pairAt at h
  split at h
  · split at h
    · rename_i hkey hequals
      cases h
      exact ⟨⟨_, _, _, hkey⟩, ⟨_, hequals⟩, rfl, rfl, rfl⟩
    · cases h
  · cases h

/-- What may follow a call in a tag. -/
def EndsCall (rest : List Token) : Prop :=
  ∀ t us, rest = t :: us → t.kind = .closeParen ∨ t.kind = .asPipe

theorem EndsCall.nil : EndsCall [] := nofun

theorem EndsCall.cons {t : Token} {us : List Token} (h : t.kind = .closeParen ∨ t.kind = .asPipe) :
    EndsCall (t :: us) := by
  rintro _ _ ⟨⟩
  exact h

/-- What ends a call ends the name that stands last in it, -/
theorem EndsCall.bounds {rest : List Token} (h : EndsCall rest) : Bounds rest := by
  intro t us hrest
  rcases h t us hrest with hkind | hkind <;> simp [hkind]

/-- the pairs, -/
theorem EndsCall.pairAt_eq {rest : List Token} (h : EndsCall rest) : pairAt rest = none := by
  match rest, h with
  | [], _ => rfl
  | t :: us, h =>
    refine pairAt_of_kind_ne fun name bracketed => ?_
    rcases h t us rfl with hkind | hkind <;> simp [hkind]

/-- and the parameters. -/
theorem EndsCall.endsParams_eq {rest : List Token} (h : EndsCall rest) :
    endsParams rest = true := by
  match rest, h with
  | [], _ => rfl
  | t :: us, h =>
    rw [endsParams]
    rcases h t us rfl with hkind | hkind <;> simp [hkind]

/-! ## First tokens -/

/-- A token that a name begins with. -/
def BeginsName (t : Token) : Prop :=
  (∃ name bracketed, t.kind = .name name bracketed) ∨ t.kind = .atSign ∨ (literal? t).isSome = true

theorem NameTree.exists_tokens (n : NameTree) : ∃ t us, n.tokens = t :: us ∧ BeginsName t := by
  cases n with
  | path p => exact ⟨_, _, rfl, .inl ⟨_, _, p.first.kind_eq⟩⟩
  | data at' p => exact ⟨_, _, rfl, .inr (.inl at'.2)⟩
  | literal t e h => exact ⟨_, _, rfl, .inr (.inr (by rw [h]; rfl))⟩

/-- A name begins with nothing that has another meaning in a call. -/
theorem BeginsName.kind_ne {t : Token} (h : BeginsName t) :
    t.kind ≠ .openParen ∧ t.kind ≠ .closeParen ∧ t.kind ≠ .asPipe ∧ t.kind ≠ .equals
      ∧ ∀ mark, t.kind ≠ .separator mark := by
  rcases h with ⟨name, bracketed, hkind⟩ | hkind | hliteral
  · simp [hkind]
  · simp [hkind]
  · unfold literal? at hliteral
    split at hliteral <;> simp_all

/-- A parameter goes on no path that stands in front of it. -/
theorem ParamTree.bounds_append (p : ParamTree) (rest : List Token) :
    Bounds (p.tokens ++ rest) := by
  cases p with
  | name n =>
    obtain ⟨t, us, hn, ht⟩ := n.exists_tokens
    rw [ParamTree.tokens, hn]
    exact .cons ht.kind_ne.2.2.2.1 ht.kind_ne.2.2.2.2
  | parens opening call closing =>
    rw [ParamTree.tokens]
    exact .cons (by simp [opening.2]) (by simp [opening.2])

/-- A name is the key of no pair, unless an equals sign follows. -/
theorem NameTree.pairAt_append (n : NameTree) {rest : List Token} (hrest : Bounds rest) :
    pairAt (n.tokens ++ rest) = none := by
  cases n with
  | path p =>
    refine pairAt_cons_eq_none ?_
    cases p.more with
    | nil => exact fun u vs hu => (hrest u vs hu).1
    | cons part more =>
      rintro _ _ ⟨⟩
      simp [part.1.kind_eq]
  | data at' p => exact pairAt_of_kind_ne (by simp [at'.2])
  | literal t e h =>
    refine pairAt_of_kind_ne fun name bracketed hkind => ?_
    rw [literal?, hkind] at h
    cases h

/-- **No parameter begins like what ends parameters.** -/
theorem ParamTree.endsParams_append (p : ParamTree) {rest : List Token} (hrest : Bounds rest) :
    endsParams (p.tokens ++ rest) = false := by
  cases p with
  | name n =>
    have hpair := n.pairAt_append hrest
    obtain ⟨t, us, hn, ht⟩ := n.exists_tokens
    rw [hn, List.cons_append] at hpair
    rw [ParamTree.tokens, hn, List.cons_append, endsParams, hpair]
    simp [ht.kind_ne.2.1, ht.kind_ne.2.2.1]
  | parens opening call closing =>
    rw [ParamTree.tokens, List.cons_append, endsParams, pairAt_of_kind_ne (by simp [opening.2])]
    simp [opening.2]

/-- Parameters go on no path in front of them, -/
theorem bounds_paramsTokens (params : List ParamTree) {rest : List Token} (hrest : Bounds rest) :
    Bounds (paramsTokens params ++ rest) := by
  cases params with
  | nil => exact hrest
  | cons p params =>
    rw [paramsTokens, List.append_assoc]
    exact p.bounds_append _

/-- and neither do pairs. -/
theorem bounds_pairsTokens (pairs : List PairTree) {rest : List Token} (hrest : Bounds rest) :
    Bounds (pairsTokens pairs ++ rest) := by
  cases pairs with
  | nil => exact hrest
  | cons pair pairs =>
    obtain ⟨key, equals, value⟩ := pair
    exact .cons (by simp [key.kind_eq]) (by simp [key.kind_eq])

/-- Parameters end where pairs begin, or the rest of the tag. -/
theorem endsParams_pairsTokens (pairs : List PairTree) {rest : List Token} (hrest : EndsCall rest) :
    endsParams (pairsTokens pairs ++ rest) = true := by
  cases pairs with
  | nil => exact hrest.endsParams_eq
  | cons pair pairs =>
    obtain ⟨key, equals, value⟩ := pair
    rw [pairsTokens, List.cons_append, List.cons_append, endsParams, pairAt_pair]
    simp

/-! ## From trees to what is read -/

mutual

/-- The yield of a parameter is read as what it denotes. -/
theorem readParam_append (p : ParamTree) {rest : List Token} (hrest : Bounds rest) :
    ∃ left, readParam (p.tokens ++ rest) = .ok (p.expression, left) ∧ left.1 = rest := by
  -- the readers call each other, and so do these four proofs, on smaller trees
  match p with
  | .name n =>
    have hname := readName_append n hrest
    obtain ⟨t, us, hn, ht⟩ := n.exists_tokens
    rw [hn, List.cons_append] at hname
    rw [ParamTree.tokens, hn, List.cons_append, readParam, if_neg ht.kind_ne.1]
    exact hname
  | .parens opening call closing =>
    have hclosing : EndsCall (closing.1 :: rest) := .cons (.inl closing.2)
    obtain ⟨left, hread, hleft⟩ := readCall_append call hclosing
    have htokens : (ParamTree.parens opening call closing).tokens ++ rest
        = opening.1 :: (call.tokens ++ closing.1 :: rest) := by
      rw [ParamTree.tokens, List.cons_append, List.append_assoc]
      rfl
    obtain ⟨_, hshort⟩ := left
    subst hleft
    rw [htokens, readParam, if_pos opening.2]
    simp only [bind, Except.bind, hread, if_pos closing.2]
    exact ⟨_, rfl, rfl⟩

/-- A call is read callee first, then its parameters, then its pairs. -/
theorem readCall_append (c : CallTree) {rest : List Token} (hrest : EndsCall rest) :
    ∃ left, readCall (c.tokens ++ rest) = .ok (c.call, left) ∧ left.1 = rest := by
  match c with
  | ⟨callee, params, pairs⟩ =>
    have hpairs := bounds_pairsTokens pairs hrest.bounds
    have hends := endsParams_pairsTokens pairs hrest
    obtain ⟨⟨_, hshort₁⟩, hcallee, rfl⟩ :=
      readName_append callee (bounds_paramsTokens params hpairs)
    obtain ⟨⟨_, hshort₂⟩, hparams, rfl⟩ := readParams_append params hends hpairs
    obtain ⟨left, hpairs, hleft⟩ := readPairs_append pairs hrest.pairAt_eq hrest.bounds
    rw [CallTree.tokens, List.append_assoc, List.append_assoc, readCall]
    simp only [bind, Except.bind, hcallee, hparams, hpairs]
    exact ⟨_, rfl, hleft⟩

/-- Parameters are read until something ends them, -/
theorem readParams_append (params : List ParamTree) {rest : List Token}
    (hends : endsParams rest = true) (hrest : Bounds rest) :
    ∃ left, readParams (paramsTokens params ++ rest) = .ok (paramsExpressions params, left)
      ∧ left.1 = rest := by
  match params with
  | [] =>
    rw [paramsTokens, List.nil_append, readParams, if_pos hends]
    exact ⟨_, rfl, rfl⟩
  | p :: params =>
    have hbounds := bounds_paramsTokens params hrest
    have hbegins := p.endsParams_append hbounds
    obtain ⟨⟨_, hshort⟩, hparam, rfl⟩ := readParam_append p hbounds
    obtain ⟨left, hparams, hleft⟩ := readParams_append params hends hrest
    rw [paramsTokens, List.append_assoc, readParams, if_neg (by simp [hbegins])]
    simp only [bind, Except.bind, hparam, hparams]
    exact ⟨_, rfl, hleft⟩

/-- and pairs until something that is none. -/
theorem readPairs_append (pairs : List PairTree) {rest : List Token} (hends : pairAt rest = none)
    (hrest : Bounds rest) :
    ∃ left, readPairs (pairsTokens pairs ++ rest) = .ok (pairsOf pairs, left) ∧ left.1 = rest := by
  -- with the first pair read, what is left is pairs and the same rest
  match pairs with
  | [] =>
    rw [pairsTokens, List.nil_append]
    unfold readPairs
    split
    · exact ⟨_, rfl, rfl⟩
    · rename_i hpair
      cases hends.symm.trans hpair
  | ⟨key, equals, value⟩ :: pairs =>
    obtain ⟨⟨_, hshort⟩, hvalue, rfl⟩ := readParam_append value (bounds_pairsTokens pairs hrest)
    obtain ⟨left, hpairs, hleft⟩ := readPairs_append pairs hends hrest
    rw [pairsTokens, List.cons_append, List.cons_append, List.append_assoc]
    unfold readPairs
    split
    · rename_i hpair
      cases hpair.symm.trans (pairAt_pair key equals _)
    · rename_i hpair
      cases hpair.symm.trans (pairAt_pair key equals _)
      simp only [bind, Except.bind, hvalue, hpairs]
      exact ⟨_, rfl, hleft⟩

end

/-! ## From what is read to trees -/

mutual

/-- Whatever is read as a parameter is the yield of one. -/
theorem exists_of_readParam {ts : List Token} {e : Expression} {left : Fewer ts}
    (h : readParam ts = .ok (e, left)) :
    ∃ p : ParamTree, ts = p.tokens ++ left.1 ∧ e = p.expression := by
  -- the recursion follows the readers, on the tokens that are left
  unfold readParam at h
  split at h
  · cases h
  · rename_i t us
    split at h
    · rename_i hopening
      obtain ⟨⟨call, left'⟩, hcall, h⟩ := exists_of_bind_ok h
      obtain ⟨d, hus, rfl⟩ := exists_of_readCall hcall
      dsimp only at h
      split at h
      · cases h
      · rename_i u rest _
        split at h
        · rename_i hclosing
          cases h
          refine ⟨.parens ⟨t, hopening⟩ d ⟨u, hclosing⟩, ?_, rfl⟩
          rw [ParamTree.tokens, List.cons_append, List.append_assoc]
          exact congrArg (t :: ·) hus
        · cases h
    · obtain ⟨n, hts, rfl⟩ := exists_of_readName h
      exact ⟨.name n, hts, rfl⟩
termination_by 3 * ts.length

/-- So it is with calls, -/
theorem exists_of_readCall {ts : List Token} {call : Call} {left : Fewer ts}
    (h : readCall ts = .ok (call, left)) :
    ∃ d : CallTree, ts = d.tokens ++ left.1 ∧ call = d.call := by
  unfold readCall at h
  obtain ⟨⟨callee, left₁⟩, hcallee, h⟩ := exists_of_bind_ok h
  obtain ⟨⟨params, left₂⟩, hparams, h⟩ := exists_of_bind_ok h
  obtain ⟨⟨pairs, left₃⟩, hpairs, h⟩ := exists_of_bind_ok h
  cases h
  -- each part is read from fewer tokens, or from no more
  have hlength := left₁.2
  have hlength' := left₂.2
  obtain ⟨n, hts, rfl⟩ := exists_of_readName hcallee
  obtain ⟨ps, hts₁, rfl⟩ := exists_of_readParams hparams
  obtain ⟨qs, hts₂, rfl⟩ := exists_of_readPairs hpairs
  refine ⟨⟨n, ps, qs⟩, ?_, rfl⟩
  show ts = CallTree.tokens ⟨n, ps, qs⟩ ++ left₃.1
  rw [CallTree.tokens, List.append_assoc, List.append_assoc, ← hts₂, ← hts₁]
  exact hts
termination_by 3 * ts.length + 1

/-- with their parameters, -/
theorem exists_of_readParams {ts : List Token} {params : List Expression} {left : NoMore ts}
    (h : readParams ts = .ok (params, left)) :
    ∃ ps, ts = paramsTokens ps ++ left.1 ∧ params = paramsExpressions ps := by
  unfold readParams at h
  split at h
  · cases h
    exact ⟨[], rfl, rfl⟩
  · obtain ⟨⟨param, left₁⟩, hparam, h⟩ := exists_of_bind_ok h
    obtain ⟨⟨params, left₂⟩, hparams, h⟩ := exists_of_bind_ok h
    cases h
    have hlength := left₁.2
    obtain ⟨p, hts, rfl⟩ := exists_of_readParam hparam
    obtain ⟨ps, hts₁, rfl⟩ := exists_of_readParams hparams
    refine ⟨p :: ps, ?_, rfl⟩
    show ts = paramsTokens (p :: ps) ++ left₂.1
    rw [paramsTokens, List.append_assoc, ← hts₁]
    exact hts
termination_by 3 * ts.length + 1

/-- and with their pairs. -/
theorem exists_of_readPairs {ts : List Token} {pairs : List Pair} {left : NoMore ts}
    (h : readPairs ts = .ok (pairs, left)) :
    ∃ qs, ts = pairsTokens qs ++ left.1 ∧ pairs = pairsOf qs := by
  unfold readPairs at h
  split at h
  · cases h
    exact ⟨[], rfl, rfl⟩
  · rename_i key t rest hpair
    obtain ⟨⟨value, left₁⟩, hvalue, h⟩ := exists_of_bind_ok h
    obtain ⟨⟨pairs, left₂⟩, hpairs, h⟩ := exists_of_bind_ok h
    cases h
    have hlength := length_lt_of_pairAt hpair
    have hlength' := left₁.2
    obtain ⟨k, equals, hts, rfl, rfl⟩ := exists_of_pairAt hpair
    obtain ⟨p, hts₁, rfl⟩ := exists_of_readParam hvalue
    obtain ⟨qs, hts₂, rfl⟩ := exists_of_readPairs hpairs
    refine ⟨⟨k, equals, p⟩ :: qs, ?_, rfl⟩
    show ts = pairsTokens (⟨k, equals, p⟩ :: qs) ++ left₂.1
    rw [pairsTokens, List.cons_append, List.cons_append, List.append_assoc, ← hts₂, ← hts₁]
    exact hts
termination_by 3 * ts.length

end

/-! ## Calls of partials -/

/-- The call of a partial is read as any other, with a parameter first. -/
theorem readPartialCall_append (d : PartialTree) {rest : List Token} (hrest : EndsCall rest) :
    ∃ left, readPartialCall (d.tokens ++ rest) = .ok (d.call, left) ∧ left.1 = rest := by
  have hbounds := bounds_pairsTokens d.pairs hrest.bounds
  have hends := endsParams_pairsTokens d.pairs hrest
  obtain ⟨⟨_, hshort₁⟩, hcallee, rfl⟩ :=
    readParam_append d.callee (bounds_paramsTokens d.params hbounds)
  obtain ⟨⟨_, hshort₂⟩, hparams, rfl⟩ := readParams_append d.params hends hbounds
  obtain ⟨left, hpairs, hleft⟩ := readPairs_append d.pairs hrest.pairAt_eq hrest.bounds
  rw [PartialTree.tokens, List.append_assoc, List.append_assoc, readPartialCall]
  simp only [bind, Except.bind, hcallee, hparams, hpairs]
  exact ⟨_, rfl, hleft⟩

/-- Whatever is read as one has a tree. -/
theorem exists_of_readPartialCall {ts : List Token} {call : Call} {left : Fewer ts}
    (h : readPartialCall ts = .ok (call, left)) :
    ∃ d : PartialTree, ts = d.tokens ++ left.1 ∧ call = d.call := by
  unfold readPartialCall at h
  obtain ⟨⟨callee, left₁⟩, hcallee, h⟩ := exists_of_bind_ok h
  obtain ⟨⟨params, left₂⟩, hparams, h⟩ := exists_of_bind_ok h
  obtain ⟨⟨pairs, left₃⟩, hpairs, h⟩ := exists_of_bind_ok h
  cases h
  obtain ⟨p, hts, rfl⟩ := exists_of_readParam hcallee
  obtain ⟨ps, hts₁, rfl⟩ := exists_of_readParams hparams
  obtain ⟨qs, hts₂, rfl⟩ := exists_of_readPairs hpairs
  refine ⟨⟨p, ps, qs⟩, ?_, rfl⟩
  show ts = PartialTree.tokens ⟨p, ps, qs⟩ ++ left₃.1
  rw [PartialTree.tokens, List.append_assoc, List.append_assoc, ← hts₂, ← hts₁]
  exact hts

end Stache.Grammar
