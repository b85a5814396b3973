/-
  The arguments of calls.

  An ARGUMENT of a call is a parameter or the value of a pair, of the call itself or of a call in
  parentheses somewhere in it.  In a derivation tree each of them has a tree of its own, and the
  tokens of that tree stand together among those of the call (`CallTree.exists_of_mem_arguments`, by
  recursion on the tree).  So what is known of the tokens of a tag is known of every argument of a
  template that is parsed (`Template.parse_arguments`).
-/
import Stache.Proofs.Grammar.Tags
import Stache.Proofs.Nesting.Calls

namespace Stache

/-! ## Arguments -/

mutual

/-- The arguments in an expression, if it is a call in parentheses. -/
def Expression.arguments : Expression → List Expression
  | .subexpression call _ => call.arguments
  | .path _ | .string _ _ _ | .number _ _ | .boolean _ _ | .undefined _ | .null _ => []

/-- The arguments of a call, each in front of those in it. -/
def Call.arguments : Call → List Expression
  | ⟨callee, params, hash⟩ => callee.arguments ++ (paramsArguments params ++ hashArguments hash)

/-- The arguments among parameters, each before those in it. -/
def paramsArguments : List Expression → List Expression
  | [] => []
  | e :: rest => e :: (e.arguments ++ paramsArguments rest)

/-- The arguments among the named ones, -/
def hashArguments : Option Hash → List Expression
  | none => []
  | some ⟨pairs, _⟩ => pairsArguments pairs

/-- where only the values count. -/
def pairsArguments : List Pair → List Expression
  | [] => []
  | ⟨_, value, _⟩ :: rest => value :: (value.arguments ++ pairsArguments rest)

end

theorem hashArguments_ofPairs (pairs : List Pair) :
    hashArguments (Hash.ofPairs pairs) = pairsArguments pairs := by
  cases pairs <;> rfl

namespace Grammar

/-! ## Trees of arguments -/

/-- The expression is derived, and its tokens stand together among `ts`. -/
def DerivedIn (ts : List Token) (e : Expression) : Prop :=
  ∃ p : ParamTree, p.expression = e ∧ p.tokens <:+: ts

theorem DerivedIn.mono {ts us : List Token} {e : Expression} (h : DerivedIn ts e) (hts : ts <:+: us) :
    DerivedIn us e := by
  obtain ⟨p, hp, htokens⟩ := h
  exact ⟨p, hp, htokens.trans hts⟩

/-- What is neither a path nor a call is a literal, and one token. -/
theorem DerivedIn.exists_literal {ts : List Token} {e : Expression} (h : DerivedIn ts e)
    (hpath : ∀ p, e ≠ .path p) (hcall : ∀ call span, e ≠ .subexpression call span) :
    ∃ t ∈ ts, literal? t = some e := by
  obtain ⟨p, rfl, htokens⟩ := h
  cases p with
  | name n =>
    cases n with
    | path | data => exact (hpath _ rfl).elim
    | literal t value h => exact ⟨t, htokens.mem (List.mem_singleton_self t), h⟩
  | parens => exact (hcall _ _ rfl).elim

/-- A name has no arguments. -/
theorem NameTree.arguments_eq (n : NameTree) : n.expression.arguments = [] := by
  cases n with
  | path p | data at' p => rfl
  | literal t value h =>
    show value.arguments = []
    unfold literal? at h
    split at h <;> cases h <;> rfl

mutual

/-- In parentheses, the arguments are those of the call. -/
theorem ParamTree.exists_of_mem_arguments (p : ParamTree) :
    ∀ e ∈ p.expression.arguments, DerivedIn p.tokens e := by
  intro e he
  -- the recursion is on the five sorts of trees at once, as they are declared
  match p with
  | .name n =>
    rw [ParamTree.expression, n.arguments_eq] at he
    cases he
  | .parens opening call closing =>
    exact (call.exists_of_mem_arguments e he).mono ⟨[opening.1], [closing.1], rfl⟩

/-- **Each argument of a call that is derived** is derived itself. -/
theorem CallTree.exists_of_mem_arguments (c : CallTree) :
    ∀ e ∈ c.call.arguments, DerivedIn c.tokens e := by
  intro e he
  match c with
  | ⟨callee, params, pairs⟩ =>
    rw [CallTree.call, Call.arguments, callee.arguments_eq, hashArguments_ofPairs,
      List.nil_append, List.mem_append] at he
    rw [CallTree.tokens]
    rcases he with he | he
    · exact (exists_of_mem_paramsArguments params e he).mono
        ((List.prefix_append ..).isInfix.trans (List.suffix_append ..).isInfix)
    · exact (exists_of_mem_pairsArguments pairs e he).mono
        ((List.suffix_append ..).isInfix.trans (List.suffix_append ..).isInfix)

/-- Each argument among parameters stands in the tokens of all of them, -/
theorem exists_of_mem_paramsArguments (params : List ParamTree) :
    ∀ e ∈ paramsArguments (paramsExpressions params), DerivedIn (paramsTokens params) e := by
  intro e he
  match params with
  | [] => cases he
  | p :: rest =>
    have hfirst : p.tokens <:+: paramsTokens (p :: rest) := (List.prefix_append ..).isInfix
    rcases List.mem_cons.1 he with rfl | he
    · exact ⟨p, rfl, hfirst⟩
    rcases List.mem_append.1 he with he | he
    · exact (p.exists_of_mem_arguments e he).mono hfirst
    · exact (exists_of_mem_paramsArguments rest e he).mono (List.suffix_append ..).isInfix

/-- and each value in those of all pairs. -/
theorem exists_of_mem_pairsArguments (pairs : List PairTree) :
    ∀ e ∈ pairsArguments (pairsOf pairs), DerivedIn (pairsTokens pairs) e := by
  intro e he
  match pairs with
  | [] => cases he
  | ⟨key, equals, value⟩ :: rest =>
    have hvalue : value.tokens <:+: pairsTokens (⟨key, equals, value⟩ :: rest) :=
      ⟨[key.token, equals.1], pairsTokens rest, by simp [pairsTokens]⟩
    rcases List.mem_cons.1 he with rfl | he
    · exact ⟨value, rfl, hvalue⟩
    rcases List.mem_append.1 he with he | he
    · exact (value.exists_of_mem_arguments e he).mono hvalue
    · exact (exists_of_mem_pairsArguments rest e he).mono
        ⟨key.token :: equals.1 :: value.tokens, [], by simp [pairsTokens]⟩

end

/-- The callee of a partial may have arguments of its own. -/
theorem PartialTree.exists_of_mem_arguments (d : PartialTree) :
    ∀ e ∈ d.call.arguments, DerivedIn d.tokens e := by
  intro e he
  rw [PartialTree.call, Call.arguments, hashArguments_ofPairs, List.mem_append, List.mem_append]
    at he
  rw [PartialTree.tokens]
  rcases he with he | he | he
  · exact (d.callee.exists_of_mem_arguments e he).mono (List.prefix_append ..).isInfix
  · exact (exists_of_mem_paramsArguments d.params e he).mono
      ((List.prefix_append ..).isInfix.trans (List.suffix_append ..).isInfix)
  · exact (exists_of_mem_pairsArguments d.pairs e he).mono
      ((List.suffix_append ..).isInfix.trans (List.suffix_append ..).isInfix)

end Grammar

/-! ## Tags and templates -/

open Grammar

/-- The arguments of the call of a tag. -/
theorem Call.ReadFrom.derivedIn {ts : List Token} {call : Call} (h : call.ReadFrom ts) :
    ∀ e ∈ call.arguments, DerivedIn ts e := by
  obtain ⟨d, hd, rfl⟩ | ⟨d, hd, rfl⟩ := h.exists_tree
  · exact fun e he => (d.exists_of_mem_arguments e he).mono hd.isInfix
  · exact fun e he => (d.exists_of_mem_arguments e he).mono hd.isInfix

/-- The arguments of the calls in the body of a program. -/
def Program.arguments (p : Program) : List Expression :=
  p.body.flatMap fun s => (s.call?.map Call.arguments).getD []

theorem Program.mem_arguments {p : Program} {e : Expression} :
    e ∈ p.arguments ↔ ∃ s ∈ p.body, ∃ call, s.call? = some call ∧ e ∈ call.arguments := by
  rw [Program.arguments, List.mem_flatMap]
  refine exists_congr fun s => and_congr_right fun _ => ?_
  cases s.call? <;> simp

/-- **Every argument of a template that is parsed** is derived from tokens that stand together in
    some tag. -/
theorem Template.parse_arguments {text : String} {source : Option String} {standalone : Bool}
    {t : Template} (h : Template.parse text source standalone = .ok t) :
    ∃ items, Item.Scan .origin text.toList items
      ∧ ∀ p ∈ t.root.family, ∀ e ∈ p.arguments, ∃ item ∈ items, ∃ tag,
        item.shape = .tag tag ∧ DerivedIn tag.tokens e := by
  obtain ⟨items, hitems, hread⟩ := Template.parse_readFrom h
  refine ⟨items, Item.Scan.of_readAll hitems, ?_⟩
  intro p hp e he
  obtain ⟨s, hs, call, hcall, he⟩ := Program.mem_arguments.1 he
  obtain ⟨item, hitem, tag, hshape, hfrom⟩ := hread p hp s hs call hcall
  exact ⟨item, hitem, tag, hshape, hfrom.derivedIn e he⟩

end Stache
