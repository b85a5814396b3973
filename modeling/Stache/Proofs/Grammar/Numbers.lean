/-
  Numbers in calls.

  A number in a call is the token that it is read from, kept as it is written, in whatever
  parentheses it stands.  In a derivation tree it is a leaf, so the numbers of a call are WRITTEN AS
  NUMBERS if those among its tokens are (`CallTree.numeric`, by recursion on the tree).  Every sort
  of tag with a call in it is read by the grammar, so this holds of whatever call is read from a tag
  (`Call.ReadFrom.numeric`).
-/
import Stache.Proofs.Grammar.Tags
import Stache.Proofs.Items.Numbers

namespace Stache

/-! ## Expressions -/

mutual

/-- The numbers in an expression are written as such. -/
def Expression.IsNumeric : Expression → Prop
  | .number written _ => Numeric written.toList
  | .subexpression call _ => call.IsNumeric
  | .path _ | .string _ _ _ | .boolean _ _ | .undefined _ | .null _ => True

/-- The numbers in a call are, -/
def Call.IsNumeric : Call → Prop
  | ⟨callee, params, hash⟩ => callee.IsNumeric ∧ paramsNumeric params ∧ hashNumeric hash

/-- those in its parameters, -/
def paramsNumeric : List Expression → Prop
  | [] => True
  | e :: rest => e.IsNumeric ∧ paramsNumeric rest

/-- those in its pairs, -/
def hashNumeric : Option Hash → Prop
  | none => True
  | some ⟨pairs, _⟩ => pairsNumeric pairs

/-- and those in each value. -/
def pairsNumeric : List Pair → Prop
  | [] => True
  | ⟨_, value, _⟩ :: rest => value.IsNumeric ∧ pairsNumeric rest

end

theorem hashNumeric_ofPairs {pairs : List Pair} (h : pairsNumeric pairs) :
    hashNumeric (Hash.ofPairs pairs) := by
  cases pairs with
  | nil => trivial
  | cons pair pairs => exact h

/-! ## Derivations -/

namespace Grammar

/-- A number is its own token. -/
theorem NameTree.numeric (n : NameTree) (h : ∀ t ∈ n.tokens, t.IsNumeric) :
    n.expression.IsNumeric := by
  cases n with
  | path p | data at' p => trivial
  | literal t e hliteral =>
    have ht : t.IsNumeric := h t (List.mem_singleton_self t)
    show e.IsNumeric
    unfold literal? at hliteral
    split at hliteral
    case h_2 hkind =>
      cases hliteral
      exact ht hkind
    all_goals cases hliteral <;> trivial

mutual

/-- In parentheses there are the numbers of the call. -/
theorem ParamTree.numeric (p : ParamTree) (h : ∀ t ∈ p.tokens, t.IsNumeric) :
    p.expression.IsNumeric := by
  match p with
  | .name n => exact n.numeric h
  | .parens opening call closing =>
    obtain ⟨-, hinside⟩ := List.forall_mem_cons.1 h
    exact call.numeric (List.forall_mem_append.1 hinside).1

/-- **In a call that is derived** all numbers are written as such, all the way down. -/
theorem CallTree.numeric (c : CallTree) (h : ∀ t ∈ c.tokens, t.IsNumeric) : c.call.IsNumeric := by
  match c with
  | ⟨callee, params, pairs⟩ =>
    obtain ⟨hcallee, hmore⟩ := List.forall_mem_append.1 h
    obtain ⟨hparams, hpairs⟩ := List.forall_mem_append.1 hmore
    exact ⟨callee.numeric hcallee, paramsNumeric_expressions params hparams,
      hashNumeric_ofPairs (pairsNumeric_of pairs hpairs)⟩

/-- So it is with parameters, -/
theorem paramsNumeric_expressions (params : List ParamTree)
    (h : ∀ t ∈ paramsTokens params, t.IsNumeric) : paramsNumeric (paramsExpressions params) := by
  match params with
  | [] => trivial
  | p :: rest =>
    obtain ⟨hp, hrest⟩ := List.forall_mem_append.1 h
    exact ⟨p.numeric hp, paramsNumeric_expressions rest hrest⟩

/-- with pairs, -/
theorem pairsNumeric_of (pairs : List PairTree) (h : ∀ t ∈ pairsTokens pairs, t.IsNumeric) :
    pairsNumeric (pairsOf pairs) := by
  match pairs with
  | [] => trivial
  | ⟨key, equals, value⟩ :: rest =>
    obtain ⟨-, hmore⟩ := List.forall_mem_cons.1 h
    obtain ⟨-, hmore⟩ := List.forall_mem_cons.1 hmore
    obtain ⟨hvalue, hrest⟩ := List.forall_mem_append.1 hmore
    exact ⟨value.numeric hvalue, pairsNumeric_of rest hrest⟩

end

/-- and with the call of a partial. -/
theorem PartialTree.numeric (d : PartialTree) (h : ∀ t ∈ d.tokens, t.IsNumeric) :
    d.call.IsNumeric := by
  obtain ⟨hcallee, hmore⟩ := List.forall_mem_append.1 h
  obtain ⟨hparams, hpairs⟩ := List.forall_mem_append.1 hmore
  exact ⟨d.callee.numeric hcallee, paramsNumeric_expressions d.params hparams,
    hashNumeric_ofPairs (pairsNumeric_of d.pairs hpairs)⟩

end Grammar

/-! ## Whole tags -/

/-- The call is all that some tag with these tokens says, up to block parameters. -/
inductive Call.ReadFrom (ts : List Token) (call : Call) : Prop where
  | call (h : Call.ofTokens ts = .ok call)
  | partialCall (h : Call.partialOfTokens ts = .ok call)
  | opener {names : List String} (h : Call.openerOfTokens ts = .ok (call, names))
  | partialOpener {names : List String} (h : Call.partialOpenerOfTokens ts = .ok (call, names))

namespace Call.ReadFrom

open Grammar

variable {ts : List Token} {call : Call}

/-- The call of a tag is what a tree denotes.  Behind its yield come block parameters, if any. -/
theorem exists_tree (h : call.ReadFrom ts) :
    (∃ d : CallTree, d.tokens <+: ts ∧ d.call = call)
      ∨ ∃ d : PartialTree, d.tokens <+: ts ∧ d.call = call := by
  cases h with
  | call h =>
    obtain ⟨d, rfl, rfl⟩ := (derives_call.whole.accepts _ _).1 h
    exact .inl ⟨d, List.prefix_rfl, rfl⟩
  | partialCall h =>
    obtain ⟨d, rfl, rfl⟩ := (derives_partialCall.whole.accepts _ _).1 h
    exact .inr ⟨d, List.prefix_rfl, rfl⟩
  | opener h =>
    obtain ⟨d, rfl, hd⟩ := (derives_call.opener.accepts _ _).1 h
    exact .inl ⟨d.call, List.prefix_append .., (Prod.mk.inj hd).1⟩
  | partialOpener h =>
    obtain ⟨d, rfl, hd⟩ := (derives_partialCall.opener.accepts _ _).1 h
    exact .inr ⟨d.call, List.prefix_append .., (Prod.mk.inj hd).1⟩

/-- **The numbers in the call of a tag are made of digits, minus signs and points**, if those of its
    tokens are. -/
theorem numeric (h : call.ReadFrom ts) (hts : ∀ t ∈ ts, t.IsNumeric) : call.IsNumeric := by
  obtain ⟨d, hd, rfl⟩ | ⟨d, hd, rfl⟩ := h.exists_tree
  · exact d.numeric fun t ht => hts t (hd.subset ht)
  · exact d.numeric fun t ht => hts t (hd.subset ht)

end Call.ReadFrom

end Stache
