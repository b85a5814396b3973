/-
  The call of a tag that has moved.

  Tokens that have moved with their text form the call they formed before, and its spans have moved
  with them (`Call.ofTokens_moved`): every end of a span is an end of a token.  The start of a token
  is moved by definition, but where it ends is counted from there, so the map of positions has to
  take the end of each token along (`Goes`).

  As for tokens in any other place, the proof is about derivation trees.
-/
import Stache.Proofs.Grammar.Elsewhere
import Stache.Template.Moved

namespace Stache

/-! ## Calls that move -/

section

variable (f : Position → Position)

/-- A path is put together from segments, which have no place. -/
theorem Path.push_moved (p : Path) (s : Segment) :
    (p.moved f).push s = (p.push s).map (Path.moved f) := by
  obtain ⟨data, depth, parts, written, thisScoped, span⟩ := p
  simp only [push, Path.moved]
  cases s.isStep
  · rfl
  cases parts
  · by_cases hname : s.name = ".."
    · simp [hname, Except.map, Path.moved]
    · simp [hname, Except.map, Path.moved]
  · rfl

/-- A path is put together from its segments wherever it stands. -/
theorem Path.ofSegments_moved (data : Bool) (span : Span) (segments : List Segment) :
    Path.ofSegments data (span.moved f) segments
      = (Path.ofSegments data span segments).map (Path.moved f) := by
  have hfold (p : Path) : segments.foldlM push (p.moved f)
      = (segments.foldlM push p).map (Path.moved f) := by
    induction segments generalizing p with
    | nil => rfl
    | cons s segments ih =>
      rw [List.foldlM_cons, List.foldlM_cons, push_moved]
      cases p.push s with
      | error written => rfl
      | ok p => exact ih p
  exact hfold ⟨data, 0, [], if data then "@" else "", false, span⟩

theorem Expression.span_moved (e : Expression) : (e.moved f).span = e.span.moved f := by
  cases e <;> rfl

theorem Pair.span_moved (p : Pair) : (p.moved f).span = p.span.moved f := by
  cases p
  rfl

mutual

theorem Expression.label_moved (e : Expression) : (e.moved f).label = e.label := by
  match e with
  | .path _ | .string _ _ _ | .number _ _ | .boolean _ _ | .undefined _ | .null _ => rfl
  | .subexpression call span => exact call.label_moved

theorem Call.label_moved (c : Call) : (c.moved f).label = c.label := by
  match c with
  | ⟨callee, params, hash⟩ => exact callee.label_moved

end

end

/-- A token that has moved ends where its end has moved to. -/
def Token.Goes (f : Position → Position) (t : Token) : Prop := (t.moved f).stop = f t.stop

theorem Token.Goes.span_moved {f : Position → Position} {t : Token} (h : t.Goes f) :
    (t.moved f).span = t.span.moved f := by
  rw [span, h]
  rfl

namespace Grammar

variable {f : Position → Position}

/-- `f` goes along with each of the tokens. -/
def Goes (f : Position → Position) (ts : List Token) : Prop := ∀ t ∈ ts, t.Goes f

theorem goes_cons {t : Token} {ts : List Token} :
    Goes f (t :: ts) ↔ t.Goes f ∧ Goes f ts := List.forall_mem_cons

theorem goes_append {ts us : List Token} : Goes f (ts ++ us) ↔ Goes f ts ∧ Goes f us :=
  List.forall_mem_append

theorem sameTokens_moved (ts : List Token) : SameTokens ts (ts.map (Token.moved f)) :=
  Token.map_unplaced_moved f ts

/-! ## Paths and names -/

/-- A name token that has moved. -/
def NameToken.moved (f : Position → Position) (n : NameToken) : NameToken :=
  ⟨n.token.moved f, n.name, n.bracketed, n.kind_eq⟩

/-- So has a separator. -/
def SeparatorToken.moved (f : Position → Position) (s : SeparatorToken) : SeparatorToken :=
  ⟨s.token.moved f, s.mark, s.kind_eq⟩

/-- The separators and names after the first name of a path. -/
def movedMore (f : Position → Position) (more : List (SeparatorToken × NameToken)) :
    List (SeparatorToken × NameToken) :=
  more.map fun part => (part.1.moved f, part.2.moved f)

theorem segmentsOf_moved (mark : Option Char) (first : NameToken)
    (more : List (SeparatorToken × NameToken)) :
    segmentsOf mark (first.moved f) (movedMore f more) = segmentsOf mark first more := by
  simp [segmentsOf, movedMore, NameToken.moved, SeparatorToken.moved]

theorem moreTokens_moved (more : List (SeparatorToken × NameToken)) :
    moreTokens (movedMore f more) = (moreTokens more).map (Token.moved f) := by
  simp [moreTokens, movedMore, List.flatMap_map, List.map_flatMap, NameToken.moved,
    SeparatorToken.moved]

/-- A path ends where its last name does. -/
theorem stopOf_moved (first : NameToken) (more : List (SeparatorToken × NameToken))
    (h : Goes f (first.token :: moreTokens more)) :
    stopOf (first.moved f) (movedMore f more) = f (stopOf first more) := by
  induction more generalizing first with
  | nil => exact (goes_cons.1 h).1
  | cons part more ih =>
    have hmore := (goes_cons.1 (goes_cons.1 h).2).2
    rw [movedMore, List.map_cons, stopOf_cons, stopOf_cons]
    exact ih part.2 hmore

/-- A path that has moved. -/
def PathTree.moved (f : Position → Position) (p : PathTree) : PathTree :=
  ⟨p.first.moved f, movedMore f p.more, by rw [segmentsOf_moved]; exact p.steps⟩

theorem PathTree.tokens_moved (p : PathTree) :
    (p.moved f).tokens = p.tokens.map (Token.moved f) := by
  rw [tokens, tokens, List.map_cons, ← moreTokens_moved]
  rfl

theorem PathTree.path_moved (p : PathTree) (h : Goes f p.tokens) (data : Bool) (start : Position) :
    (p.moved f).path data (f start) = (p.path data start).moved f := by
  have hsegments : (p.moved f).segments = p.segments := segmentsOf_moved _ _ _
  have hstop : stopOf (p.moved f).first (p.moved f).more = f (stopOf p.first p.more) :=
    stopOf_moved _ _ h
  simp only [PathTree.path, hsegments, hstop, Path.moved, Span.moved]

theorem literal?_moved {t : Token} (h : t.Goes f) :
    literal? (t.moved f) = (literal? t).map (Expression.moved f) := by
  rw [literal?, literal?, h.span_moved, Token.moved]
  cases t.kind <;> rfl

/-- A name moves with its tokens. -/
theorem NameTree.moved (n : NameTree) (h : Goes f n.tokens) :
    ∃ n' : NameTree, n'.tokens = n.tokens.map (Token.moved f)
      ∧ n'.expression = n.expression.moved f := by
  cases n with
  | path p =>
    refine ⟨.path (p.moved f), p.tokens_moved, ?_⟩
    exact congrArg Expression.path (p.path_moved h false _)
  | data at' p =>
    refine ⟨.data ⟨at'.1.moved f, at'.2⟩ (p.moved f), ?_, ?_⟩
    · rw [tokens, tokens, p.tokens_moved, List.map_cons]
    · exact congrArg Expression.path (p.path_moved (goes_cons.1 h).2 true _)
  | literal t e he =>
    have he' := literal?_moved (goes_cons.1 h).1
    rw [he] at he'
    exact ⟨.literal (t.moved f) (e.moved f) he', rfl, rfl⟩

/-! ## Calls -/

theorem movedPairs_eq_map (pairs : List Pair) : movedPairs f pairs = pairs.map (Pair.moved f) := by
  induction pairs with
  | nil => rfl
  | cons p pairs ih => rw [movedPairs, ih, List.map_cons]

/-- A hash reaches from its first pair to its last one, wherever they are. -/
theorem movedHash_ofPairs (pairs : List Pair) :
    movedHash f (Hash.ofPairs pairs) = Hash.ofPairs (movedPairs f pairs) := by
  cases pairs with
  | nil => rfl
  | cons first more =>
    simp only [Hash.ofPairs, movedHash, movedPairs, movedPairs_eq_map, List.getLastD_map,
      Pair.span_moved, Span.moved]

mutual

/-- A parameter moves with its tokens, -/
theorem ParamTree.moved (p : ParamTree) (h : Goes f p.tokens) :
    ∃ p' : ParamTree, p'.tokens = p.tokens.map (Token.moved f)
      ∧ p'.expression = p.expression.moved f := by
  match p with
  | .name n =>
    obtain ⟨n', htokens, hexpression⟩ := n.moved h
    exact ⟨.name n', htokens, hexpression⟩
  | .parens opening call closing =>
    obtain ⟨-, hinside⟩ := goes_cons.1 h
    obtain ⟨hcall, hclosing⟩ := goes_append.1 hinside
    obtain ⟨call', htokens, hexpression⟩ := call.moved hcall
    refine ⟨.parens ⟨opening.1.moved f, opening.2⟩ call' ⟨closing.1.moved f, closing.2⟩, ?_, ?_⟩
    · rw [ParamTree.tokens, ParamTree.tokens, htokens, List.map_cons, List.map_append]
      rfl
    -- the span ends with the parenthesis, so this token has to go along
    · have hstop : (closing.1.moved f).stop = f closing.1.stop := (goes_cons.1 hclosing).1
      rw [ParamTree.expression, ParamTree.expression, hexpression, hstop]
      rfl

/-- and so does a call, -/
theorem CallTree.moved (c : CallTree) (h : Goes f c.tokens) :
    ∃ c' : CallTree, c'.tokens = c.tokens.map (Token.moved f) ∧ c'.call = c.call.moved f := by
  match c with
  | ⟨callee, params, pairs⟩ =>
    obtain ⟨hcallee, hmore⟩ := goes_append.1 h
    obtain ⟨hparams, hpairs⟩ := goes_append.1 hmore
    obtain ⟨callee', hcallee', heq⟩ := callee.moved hcallee
    obtain ⟨params', hparams', heq'⟩ := params_moved params hparams
    obtain ⟨pairs', hpairs', heq''⟩ := pairs_moved pairs hpairs
    refine ⟨⟨callee', params', pairs'⟩, ?_, ?_⟩
    · simp only [CallTree.tokens, hcallee', hparams', hpairs', List.map_append]
    · simp only [CallTree.call, heq, heq', heq'', Call.moved, movedHash_ofPairs]

/-- with all its parameters, -/
theorem params_moved (params : List ParamTree) (h : Goes f (paramsTokens params)) :
    ∃ params', paramsTokens params' = (paramsTokens params).map (Token.moved f)
      ∧ paramsExpressions params' = movedParams f (paramsExpressions params) := by
  match params with
  | [] => exact ⟨[], rfl, rfl⟩
  | p :: params =>
    obtain ⟨hp, hmore⟩ := goes_append.1 h
    obtain ⟨p', htokens, heq⟩ := p.moved hp
    obtain ⟨params', htokens', heq'⟩ := params_moved params hmore
    refine ⟨p' :: params', ?_, ?_⟩
    · rw [paramsTokens, paramsTokens, htokens, htokens', List.map_append]
    · rw [paramsExpressions, paramsExpressions, heq, heq', movedParams]

/-- and with its pairs. -/
theorem pairs_moved (pairs : List PairTree) (h : Goes f (pairsTokens pairs)) :
    ∃ pairs', pairsTokens pairs' = (pairsTokens pairs).map (Token.moved f)
      ∧ pairsOf pairs' = movedPairs f (pairsOf pairs) := by
  match pairs with
  | [] => exact ⟨[], rfl, rfl⟩
  | ⟨key, equals, value⟩ :: pairs =>
    obtain ⟨-, hmore⟩ := goes_cons.1 h
    obtain ⟨-, hmore⟩ := goes_cons.1 hmore
    obtain ⟨hvalue, hpairs⟩ := goes_append.1 hmore
    obtain ⟨value', htokens, heq⟩ := value.moved hvalue
    obtain ⟨pairs', htokens', heq'⟩ := pairs_moved pairs hpairs
    refine ⟨⟨key.moved f, ⟨equals.1.moved f, equals.2⟩, value'⟩ :: pairs', ?_, ?_⟩
    · simp only [pairsTokens, htokens, htokens', List.map_cons, List.map_append]
      rfl
    · rw [pairsOf, pairsOf, heq, heq', Expression.span_moved, movedPairs]
      rfl

end

/-- The call of a partial does as well. -/
theorem PartialTree.moved (d : PartialTree) (h : Goes f d.tokens) :
    ∃ d' : PartialTree, d'.tokens = d.tokens.map (Token.moved f) ∧ d'.call = d.call.moved f := by
  obtain ⟨callee, params, pairs⟩ := d
  obtain ⟨hcallee, hmore⟩ := goes_append.1 h
  obtain ⟨hparams, hpairs⟩ := goes_append.1 hmore
  obtain ⟨callee', hcallee', heq⟩ := callee.moved hcallee
  obtain ⟨params', hparams', heq'⟩ := params_moved params hparams
  obtain ⟨pairs', hpairs', heq''⟩ := pairs_moved pairs hpairs
  refine ⟨⟨callee', params', pairs'⟩, ?_, ?_⟩
  · simp only [PartialTree.tokens, hcallee', hparams', hpairs', List.map_append]
  · simp only [PartialTree.call, heq, heq', heq'', Call.moved, movedHash_ofPairs]

/-! ## Whole tags -/

/-- An opener that has moved.  Its block parameters have no positions. -/
def movedOpener (f : Position → Position) (o : Call × List String) : Call × List String :=
  (o.1.moved f, o.2)

/-- Block parameters are names only, so they stay what they are. -/
theorem OpenerTree.moved {δ : Type} {tokens : δ → List Token} {value : δ → Call}
    (hmove : ∀ d, Goes f (tokens d) →
      ∃ d', tokens d' = (tokens d).map (Token.moved f) ∧ value d' = (value d).moved f)
    (d : OpenerTree δ) (h : Goes f (d.tokens tokens)) :
    ∃ d' : OpenerTree δ, d'.tokens tokens = (d.tokens tokens).map (Token.moved f)
      ∧ d'.value value = movedOpener f (d.value value) := by
  obtain ⟨call, blockParams⟩ := d
  obtain ⟨hcall, -⟩ := goes_append.1 h
  obtain ⟨call', htokens, heq⟩ := hmove call hcall
  obtain ⟨blockParams', htokens', heq'⟩ :=
    blockParams_movable blockParams _ (sameTokens_moved (optionTokens blockParams))
  refine ⟨⟨call', blockParams'⟩, ?_, Prod.ext heq heq'.symm⟩
  rw [OpenerTree.tokens, OpenerTree.tokens, htokens, List.map_append]
  exact congrArg _ htokens'

/-- **What one row of tokens forms**, it forms when it has moved, and that has moved with it. -/
theorem Decides.moved {α δ : Type} {read : List Token → Except Misfit α} {tokens : δ → List Token}
    {value : δ → α} {move : α → α} (h : Decides read tokens value)
    (hmove : ∀ d, Goes f (tokens d) →
      ∃ d', tokens d' = (tokens d).map (Token.moved f) ∧ value d' = move (value d))
    {ts : List Token} (hts : Goes f ts) {a : α} (ha : read ts = .ok a) :
    read (ts.map (Token.moved f)) = .ok (move a) := by
  obtain ⟨d, rfl, rfl⟩ := (h.accepts ts a).1 ha
  exact (h.accepts _ _).2 (hmove d hts)

end Grammar

section

variable {f : Position → Position} {ts : List Token} (hts : Grammar.Goes f ts)

include hts

/-- **The call of a tag moves with its tokens**, for mustaches, -/
theorem Call.ofTokens_moved {c : Call} (h : Call.ofTokens ts = .ok c) :
    Call.ofTokens (ts.map (Token.moved f)) = .ok (c.moved f) :=
  Grammar.derives_call.whole.moved (fun d => d.moved) hts h

/-- for partials, -/
theorem Call.partialOfTokens_moved {c : Call} (h : Call.partialOfTokens ts = .ok c) :
    Call.partialOfTokens (ts.map (Token.moved f)) = .ok (c.moved f) :=
  Grammar.derives_partialCall.whole.moved (fun d => d.moved) hts h

/-- for tags that close a block, -/
theorem Expression.nameOfTokens_moved {e : Expression} (h : Expression.nameOfTokens ts = .ok e) :
    Expression.nameOfTokens (ts.map (Token.moved f)) = .ok (e.moved f) :=
  Grammar.derives_name.whole.moved (fun d => d.moved) hts h

/-- for those that open one, -/
theorem Call.openerOfTokens_moved {o : Call × List String} (h : Call.openerOfTokens ts = .ok o) :
    Call.openerOfTokens (ts.map (Token.moved f)) = .ok (Grammar.movedOpener f o) :=
  Grammar.derives_call.opener.moved (Grammar.OpenerTree.moved fun d => d.moved) hts h

/-- and for those that open the block of a partial. -/
theorem Call.partialOpenerOfTokens_moved {o : Call × List String}
    (h : Call.partialOpenerOfTokens ts = .ok o) :
    Call.partialOpenerOfTokens (ts.map (Token.moved f)) = .ok (Grammar.movedOpener f o) :=
  Grammar.derives_partialCall.opener.moved (Grammar.OpenerTree.moved fun d => d.moved) hts h

end

end Stache
