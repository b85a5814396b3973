/-
  What stands in the place of a helper's name.

  A call can be made where a value is wanted, as a sub-expression; but what a call calls is always
  written as a NAME, a path or a literal.  The one exception is a partial, whose name may be
  computed.  The grammar says so (`CallTree.proper`, by recursion on derivation trees), so it holds
  of all calls of a template that is parsed (`Template.parse_proper`).
-/
import Stache.Proofs.Grammar.Tags
import Stache.Proofs.Nesting.Calls

namespace Stache

/-! ## Calls of names -/

/-- A path or a literal. -/
def Expression.IsName : Expression → Prop
  | .subexpression _ _ => False
  | _ => True

mutual

/-- Every call in the expression is one of a name. -/
def Expression.Proper : Expression → Prop
  | .subexpression call _ => call.Proper
  | _ => True

/-- The call is one of a name, and so is every call in its arguments. -/
def Call.Proper : Call → Prop
  | ⟨callee, params, hash⟩ => callee.IsName ∧ paramsProper params ∧ hashProper hash

/-- All parameters are proper, -/
def paramsProper : List Expression → Prop
  | [] => True
  | e :: rest => e.Proper ∧ paramsProper rest

/-- and so are the values of the pairs, -/
def hashProper : Option Hash → Prop
  | none => True
  | some ⟨pairs, _⟩ => pairsProper pairs

/-- one by one. -/
def pairsProper : List Pair → Prop
  | [] => True
  | ⟨_, value, _⟩ :: rest => value.Proper ∧ pairsProper rest

end

theorem Call.Proper.callee {c : Call} (h : c.Proper) : c.callee.IsName := by
  obtain ⟨callee, params, hash⟩ := c
  exact h.1

theorem Call.Proper.params {c : Call} (h : c.Proper) : paramsProper c.params := by
  obtain ⟨callee, params, hash⟩ := c
  exact h.2.1

theorem Call.Proper.hash {c : Call} (h : c.Proper) : hashProper c.hash := by
  obtain ⟨callee, params, hash⟩ := c
  exact h.2.2

/-- Every call in the call of a partial is one of a name, but for that of the partial itself. -/
def Call.ProperParts (c : Call) : Prop :=
  c.callee.Proper ∧ paramsProper c.params ∧ hashProper c.hash

theorem Expression.IsName.proper {e : Expression} (h : e.IsName) : e.Proper := by
  cases e with
  | subexpression => cases h
  | _ => trivial

theorem hashProper_ofPairs {pairs : List Pair} (h : pairsProper pairs) :
    hashProper (Hash.ofPairs pairs) := by
  cases pairs with
  | nil => trivial
  | cons pair rest => exact h

/-- The calls that a statement makes are those of names, as far as they have to be. -/
def Statement.Proper : Statement → Prop
  | .content _ | .comment _ _ _ => True
  | .mustache call _ _ _ | .decorator call _ _ | .block call _ _ _ _
  | .decoratorBlock call _ _ _ _ => call.Proper
  | .partialCall call _ _ _ | .partialBlock call _ _ _ _ => call.ProperParts

/-! ## Derivations -/

namespace Grammar

/-- What a name denotes is one. -/
theorem NameTree.isName (n : NameTree) : n.expression.IsName := by
  cases n with
  | path p | data at' p => trivial
  | literal t e h =>
    show e.IsName
    unfold literal? at h
    split at h <;> cases h <;> trivial

mutual

theorem ParamTree.proper (p : ParamTree) : p.expression.Proper := by
  -- the callee of every call is a `NameTree`, which is all there is to show
  match p with
  | .name n => exact n.isName.proper
  | .parens _ call _ => exact call.proper

/-- **A call that is derived is one of a name**, all the way down. -/
theorem CallTree.proper (c : CallTree) : c.call.Proper := by
  match c with
  | ⟨callee, params, pairs⟩ =>
    exact ⟨callee.isName, paramsProper_expressions params,
      hashProper_ofPairs (pairsProper_of pairs)⟩

theorem paramsProper_expressions (params : List ParamTree) :
    paramsProper (paramsExpressions params) := by
  match params with
  | [] => trivial
  | p :: rest => exact ⟨p.proper, paramsProper_expressions rest⟩

theorem pairsProper_of (pairs : List PairTree) : pairsProper (pairsOf pairs) := by
  match pairs with
  | [] => trivial
  | ⟨_, _, value⟩ :: rest => exact ⟨value.proper, pairsProper_of rest⟩

end

theorem PartialTree.properParts (d : PartialTree) : d.call.ProperParts :=
  ⟨d.callee.proper, paramsProper_expressions d.params, hashProper_ofPairs (pairsProper_of d.pairs)⟩

end Grammar

/-! ## Tags and statements -/

open Grammar

theorem Call.proper_ofTokens {ts : List Token} {call : Call} (h : Call.ofTokens ts = .ok call) :
    call.Proper := by
  obtain ⟨d, -, rfl⟩ := (derives_call.whole.accepts _ _).1 h
  exact d.proper

theorem Call.properParts_partialOfTokens {ts : List Token} {call : Call}
    (h : Call.partialOfTokens ts = .ok call) : call.ProperParts := by
  obtain ⟨d, -, rfl⟩ := (derives_partialCall.whole.accepts _ _).1 h
  exact d.properParts

/-- So a statement of one tag is proper, -/
theorem Item.Forms.proper {item : Item} {s : Statement} (h : item.Forms s) : s.Proper := by
  cases h with
  | content | comment => trivial
  | mustache _ _ hcall | decorator _ _ hcall => exact Call.proper_ofTokens hcall
  | partialCall _ _ hcall => exact Call.properParts_partialOfTokens hcall

/-- and so is a block, whatever its sections are. -/
theorem Item.Opens.proper_wrap {item : Item} {chained : Bool} {o : Opening}
    (h : item.Opens chained o) (first : Program) (second : Option Program) (strip : BlockStrip)
    (stop : Position) : (o.wrap first second strip stop).Proper := by
  obtain ⟨tag, -, -, -, -, hread⟩ := h
  unfold Opening.wrap
  -- only the opener of a partial block may have a computed callee
  split at hread
  · rename_i hkind
    obtain ⟨d, -, hd⟩ := (derives_partialCall.opener.accepts _ _).1 hread
    obtain ⟨hcall, -⟩ := Prod.mk.inj hd
    rw [hkind]
    exact hcall ▸ d.call.properParts
  · rename_i hkind
    obtain ⟨d, -, hd⟩ := (derives_call.opener.accepts _ _).1 hread
    obtain ⟨hcall, -⟩ := Prod.mk.inj hd
    have hproper : o.call.Proper := hcall ▸ d.call.proper
    cases hk : o.kind with
    | partialBlock => exact (hkind hk).elim
    | block | inverse | decoratorBlock => exact hproper

theorem Statement.proper_erased (s : Statement) : s.erased.Proper ↔ s.Proper := by
  cases s <;> exact Iff.rfl

/-- **The calls of a template that is parsed** are those of names, but for computed partials. -/
theorem Template.parse_proper {text : String} {source : Option String} {standalone : Bool}
    {t : Template} (h : Template.parse text source standalone = .ok t) :
    ∀ p ∈ t.root.family, ∀ s ∈ p.body, s.Proper := by
  have hall (items : List Item) : ItemsForall Statement.Proper items :=
    ⟨fun _ _ _ hform => hform.proper, fun _ _ _ _ hopen => hopen.proper_wrap⟩
  obtain ⟨_, -, hproper⟩ := Template.parse_forall (P := fun _ => Statement.Proper)
    (fun items => (hall items).linked) (fun _ s => s.proper_erased) h
  exact hproper

end Stache
