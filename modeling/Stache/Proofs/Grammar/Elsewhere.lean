/-
  The call of a tag in another place.

  A reader of calls looks at the kinds of tokens and at what they are written with, never at where
  they stand.  So tokens that are the same but for positions are read alike: if the one row forms a
  call, then so does the other, and the two calls are alike (`Movable.of_decides`).  The proof is
  about derivation trees, which have the tokens at their leaves.  Over other leaves of the same
  kinds there stands the same tree, and it denotes the same but for spans.
-/
import Stache.Proofs.Grammar.Tags
import Stache.Proofs.Items.Elsewhere
import Stache.Proofs.Nesting.Alike

namespace Stache

/-- The same row of tokens in another place. -/
def SameTokens (ts ts' : List Token) : Prop :=
  ts'.map Token.unplaced = ts.map Token.unplaced

theorem Token.kind_eq_of_unplaced {t t' : Token} (h : t'.unplaced = t.unplaced) :
    t'.kind = t.kind ∧ t'.lexeme = t.lexeme := by
  obtain ⟨kind, lexeme, start⟩ := t
  obtain ⟨kind', lexeme', start'⟩ := t'
  cases h
  exact ⟨rfl, rfl⟩

section

variable {t : Token} {ts us ts' : List Token}

theorem SameTokens.of_nil (h : SameTokens [] ts') : ts' = [] := List.map_eq_nil_iff.1 h

theorem SameTokens.exists_cons (h : SameTokens (t :: ts) ts') :
    ∃ t' us', ts' = t' :: us' ∧ t'.kind = t.kind ∧ t'.lexeme = t.lexeme ∧ SameTokens ts us' := by
  obtain ⟨t', us', rfl, ht, hrest⟩ := List.map_eq_cons_iff.1 h
  obtain ⟨hkind, hlexeme⟩ := Token.kind_eq_of_unplaced ht
  exact ⟨t', us', rfl, hkind, hlexeme, hrest⟩

theorem SameTokens.exists_append (h : SameTokens (ts ++ us) ts') :
    ∃ ts₁ ts₂, ts' = ts₁ ++ ts₂ ∧ SameTokens ts ts₁ ∧ SameTokens us ts₂ := by
  rw [SameTokens, List.map_append] at h
  obtain ⟨ts₁, ts₂, rfl, h₁, h₂⟩ := List.map_eq_append_iff.1 h
  exact ⟨ts₁, ts₂, rfl, h₁, h₂⟩

end

namespace Grammar

/-! ## Paths and names -/

theorem NameToken.elsewhere (n : NameToken) {t : Token} (h : t.kind = n.token.kind) :
    ∃ n' : NameToken, n'.token = t ∧ n'.name = n.name ∧ n'.bracketed = n.bracketed :=
  ⟨⟨t, n.name, n.bracketed, h.trans n.kind_eq⟩, rfl, rfl, rfl⟩

/-- The segments of a path are the same anywhere, -/
theorem segments_elsewhere (first : NameToken) (more : List (SeparatorToken × NameToken))
    {ts' : List Token} (h : SameTokens (first.token :: moreTokens more) ts') :
    ∃ first' more', first'.token :: moreTokens more' = ts'
      ∧ ∀ mark, segmentsOf mark first' more' = segmentsOf mark first more := by
  -- name by name, with the separator before it
  induction more generalizing first ts' with
  | nil =>
    obtain ⟨t', us', rfl, hkind, -, hmore⟩ := h.exists_cons
    obtain ⟨first', rfl, hname, hbracketed⟩ := first.elsewhere hkind
    obtain rfl := hmore.of_nil
    exact ⟨first', [], rfl, fun mark => by simp [segmentsOf, hname, hbracketed]⟩
  | cons part more ih =>
    obtain ⟨separator, next⟩ := part
    obtain ⟨t', us', rfl, hkind, -, hmore⟩ := h.exists_cons
    obtain ⟨first', rfl, hname, hbracketed⟩ := first.elsewhere hkind
    obtain ⟨u', vs', rfl, hmark, -, hmore⟩ := hmore.exists_cons
    obtain ⟨next', more', rfl, hsegments⟩ := ih next hmore
    refine ⟨first', (⟨u', separator.mark, hmark.trans separator.kind_eq⟩, next') :: more', rfl,
      fun mark => ?_⟩
    show Segment.mk mark first'.name first'.bracketed
      :: segmentsOf (some separator.mark) next' more' = _
    rw [hname, hbracketed, hsegments]
    rfl

/-- and so is the path, but for its span. -/
theorem PathTree.elsewhere (p : PathTree) {ts' : List Token} (h : SameTokens p.tokens ts') :
    ∃ p' : PathTree, p'.tokens = ts'
      ∧ ∀ data start start', (p.path data start).Alike (p'.path data start') := by
  obtain ⟨first', more', rfl, hsegments⟩ := segments_elsewhere p.first p.more h
  refine ⟨⟨first', more', by rw [hsegments]; exact p.steps⟩, rfl, fun data start start' => ?_⟩
  refine ⟨⟨start', stopOf first' more'⟩, ?_⟩
  simp only [PathTree.path, PathTree.segments, hsegments]

/-- A name is alike anywhere. -/
theorem NameTree.elsewhere (n : NameTree) {ts' : List Token} (h : SameTokens n.tokens ts') :
    ∃ n' : NameTree, n'.tokens = ts' ∧ n.expression.Alike false n'.expression := by
  cases n with
  | path p =>
    obtain ⟨p', rfl, hpath⟩ := p.elsewhere h
    exact ⟨.path p', rfl, .path (hpath _ _ _)⟩
  | data at' p =>
    obtain ⟨t', us', rfl, hkind, -, hmore⟩ := h.exists_cons
    obtain ⟨p', rfl, hpath⟩ := p.elsewhere hmore
    exact ⟨.data ⟨t', hkind.trans at'.2⟩ p', rfl, .path (hpath _ _ _)⟩
  | literal t e he =>
    obtain ⟨t', us', rfl, hkind, hlexeme, hmore⟩ := h.exists_cons
    obtain rfl := hmore.of_nil
    -- the value of a literal is in the kind of its token, or in its lexeme
    have hnew : ∃ e', literal? t' = some e' ∧ e.Alike false e' := by
      unfold literal? at he ⊢
      rw [hkind, hlexeme]
      split at he
      all_goals cases he
      · exact ⟨_, rfl, .string⟩
      · exact ⟨_, rfl, .number nofun⟩
      · exact ⟨_, rfl, .boolean _⟩
      · exact ⟨_, rfl, .undefined⟩
      · exact ⟨_, rfl, .null⟩
    obtain ⟨e', he', halike⟩ := hnew
    exact ⟨.literal t' e' he', rfl, halike⟩

/-! ## Calls -/

theorem hashAlike_ofPairs {pairs pairs' : List Pair} (h : PairsAlike false pairs pairs') :
    HashAlike false (Hash.ofPairs pairs) (Hash.ofPairs pairs') := by
  cases h with
  | nil => exact .none
  | cons key h hrest => exact .some (.cons key h hrest)

mutual

/-- So it is with a parameter, -/
theorem ParamTree.elsewhere (p : ParamTree) {ts' : List Token} (h : SameTokens p.tokens ts') :
    ∃ p' : ParamTree, p'.tokens = ts' ∧ p.expression.Alike false p'.expression := by
  match p with
  | .name n =>
    obtain ⟨n', rfl, halike⟩ := n.elsewhere h
    exact ⟨.name n', rfl, halike⟩
  | .parens opening call closing =>
    obtain ⟨t', us', rfl, hopening, -, hmore⟩ := h.exists_cons
    obtain ⟨vs', ws', rfl, hcall, hclosing⟩ := hmore.exists_append
    obtain ⟨u', xs', rfl, hkind, -, hnil⟩ := hclosing.exists_cons
    obtain rfl := hnil.of_nil
    obtain ⟨call', rfl, halike⟩ := call.elsewhere hcall
    exact ⟨.parens ⟨t', hopening.trans opening.2⟩ call' ⟨u', hkind.trans closing.2⟩, rfl,
      .subexpression halike⟩

/-- with a call, -/
theorem CallTree.elsewhere (c : CallTree) {ts' : List Token} (h : SameTokens c.tokens ts') :
    ∃ c' : CallTree, c'.tokens = ts' ∧ c.call.Alike false c'.call := by
  match c with
  | ⟨callee, params, pairs⟩ =>
    rw [CallTree.tokens] at h
    obtain ⟨us', vs', rfl, hcallee, hmore⟩ := h.exists_append
    obtain ⟨ws', xs', rfl, hparams, hpairs⟩ := hmore.exists_append
    obtain ⟨callee', rfl, halike⟩ := callee.elsewhere hcallee
    obtain ⟨params', rfl, halike'⟩ := params_elsewhere params hparams
    obtain ⟨pairs', rfl, halike''⟩ := pairs_elsewhere pairs hpairs
    exact ⟨⟨callee', params', pairs'⟩, rfl, .mk halike halike' (hashAlike_ofPairs halike'')⟩

/-- with a row of parameters, -/
theorem params_elsewhere (params : List ParamTree) {ts' : List Token}
    (h : SameTokens (paramsTokens params) ts') :
    ∃ params', paramsTokens params' = ts'
      ∧ ParamsAlike false (paramsExpressions params) (paramsExpressions params') := by
  match params with
  | [] => exact ⟨[], h.of_nil.symm, .nil⟩
  | p :: params =>
    rw [paramsTokens] at h
    obtain ⟨us', vs', rfl, hp, hmore⟩ := h.exists_append
    obtain ⟨p', rfl, halike⟩ := p.elsewhere hp
    obtain ⟨params', rfl, hrest⟩ := params_elsewhere params hmore
    exact ⟨p' :: params', rfl, .cons halike hrest⟩

/-- and with a row of pairs. -/
theorem pairs_elsewhere (pairs : List PairTree) {ts' : List Token}
    (h : SameTokens (pairsTokens pairs) ts') :
    ∃ pairs', pairsTokens pairs' = ts' ∧ PairsAlike false (pairsOf pairs) (pairsOf pairs') := by
  match pairs with
  | [] => exact ⟨[], h.of_nil.symm, .nil⟩
  | ⟨key, equals, value⟩ :: pairs =>
    rw [pairsTokens] at h
    obtain ⟨t', us', rfl, hkey, -, hmore⟩ := h.exists_cons
    obtain ⟨u', vs', rfl, hequals, -, hmore⟩ := hmore.exists_cons
    obtain ⟨ws', xs', rfl, hvalue, hpairs⟩ := hmore.exists_append
    obtain ⟨key', rfl, hname, -⟩ := key.elsewhere hkey
    obtain ⟨value', rfl, halike⟩ := value.elsewhere hvalue
    obtain ⟨pairs', rfl, hrest⟩ := pairs_elsewhere pairs hpairs
    refine ⟨⟨key', ⟨u', hequals.trans equals.2⟩, value'⟩ :: pairs', rfl, ?_⟩
    rw [pairsOf, pairsOf, hname]
    exact .cons _ halike hrest

end

/-! ## Whole tags -/

/-- Over other tokens of the same kinds there stands a tree with a value that belongs to the first
    one. -/
def Movable {α δ : Type} (tokens : δ → List Token) (value : δ → α) (R : α → α → Prop) : Prop :=
  ∀ d ts', SameTokens (tokens d) ts' → ∃ d', tokens d' = ts' ∧ R (value d) (value d')

/-- The call of a partial is alike anywhere, -/
theorem PartialTree.movable :
    Movable PartialTree.tokens PartialTree.call (Call.Alike false) := by
  rintro ⟨callee, params, pairs⟩ ts' h
  obtain ⟨us', vs', rfl, hcallee, hmore⟩ := h.exists_append
  obtain ⟨ws', xs', rfl, hparams, hpairs⟩ := hmore.exists_append
  obtain ⟨callee', rfl, halike⟩ := callee.elsewhere hcallee
  obtain ⟨params', rfl, halike'⟩ := params_elsewhere params hparams
  obtain ⟨pairs', rfl, halike''⟩ := pairs_elsewhere pairs hpairs
  exact ⟨⟨callee', params', pairs'⟩, rfl, .mk halike halike' (hashAlike_ofPairs halike'')⟩

/-- the names of block parameters are the same, -/
theorem names_elsewhere (names : List NameToken) {ts' : List Token}
    (h : SameTokens (names.map NameToken.token) ts') :
    ∃ names' : List NameToken, names'.map NameToken.token = ts'
      ∧ names'.map NameToken.name = names.map NameToken.name := by
  induction names generalizing ts' with
  | nil => exact ⟨[], h.of_nil.symm, rfl⟩
  | cons n names ih =>
    obtain ⟨t', us', rfl, hkind, -, hmore⟩ := h.exists_cons
    obtain ⟨n', rfl, hname, -⟩ := n.elsewhere hkind
    obtain ⟨names', rfl, hnames⟩ := ih hmore
    exact ⟨n' :: names', rfl, by rw [List.map_cons, hname, hnames, List.map_cons]⟩

/-- with the bars around them, -/
theorem blockParams_movable :
    Movable optionTokens (fun b => (b.map BlockParamsTree.value).getD []) (· = ·) := by
  rintro b ts' h
  cases b with
  | none => exact ⟨none, h.of_nil.symm, rfl⟩
  | some b =>
    obtain ⟨t', us', rfl, hopening, -, hmore⟩ := SameTokens.exists_cons h
    obtain ⟨vs', ws', rfl, hnames, hclosing⟩ := hmore.exists_append
    obtain ⟨u', xs', rfl, hkind, -, hnil⟩ := hclosing.exists_cons
    obtain rfl := hnil.of_nil
    obtain ⟨names', rfl, hvalue⟩ := names_elsewhere b.names hnames
    exact ⟨some ⟨⟨t', hopening.trans b.opening.2⟩, names', ⟨u', hkind.trans b.closing.2⟩⟩, rfl,
      hvalue.symm⟩

/-- Openers that are alike: the calls are, and the block parameters are the same. -/
def OpenerAlike (opener opener' : Call × List String) : Prop :=
  opener.1.Alike false opener'.1 ∧ opener.2 = opener'.2

/-- and so is what opens a block. -/
theorem Movable.opener {δ : Type} {tokens : δ → List Token} {value : δ → Call}
    (h : Movable tokens value (Call.Alike false)) :
    Movable (OpenerTree.tokens tokens) (OpenerTree.value value) OpenerAlike := by
  rintro ⟨call, blockParams⟩ ts' hts
  obtain ⟨us', vs', rfl, hcall, hparams⟩ := SameTokens.exists_append hts
  obtain ⟨call', rfl, halike⟩ := h call us' hcall
  obtain ⟨blockParams', rfl, hnames⟩ := blockParams_movable blockParams vs' hparams
  exact ⟨⟨call', blockParams'⟩, rfl, halike, hnames⟩

/-- **What one row of tokens forms**, the same row in another place forms as well. -/
theorem Movable.of_decides {α δ : Type} {read : List Token → Except Misfit α}
    {tokens : δ → List Token} {value : δ → α} {R : α → α → Prop} (hmove : Movable tokens value R)
    (h : Decides read tokens value) {ts ts' : List Token} (hts : SameTokens ts ts') {a : α}
    (ha : read ts = .ok a) : ∃ a', read ts' = .ok a' ∧ R a a' := by
  obtain ⟨d, rfl, rfl⟩ := (h.accepts ts a).1 ha
  obtain ⟨d', rfl, hR⟩ := hmove d ts' hts
  exact ⟨_, (h.accepts _ _).2 ⟨d', rfl, rfl⟩, hR⟩

end Grammar

section

variable {ts ts' : List Token} (h : SameTokens ts ts')

include h

theorem Call.ofTokens_elsewhere {c : Call} (hc : Call.ofTokens ts = .ok c) :
    ∃ c', Call.ofTokens ts' = .ok c' ∧ c.Alike false c' :=
  Grammar.Movable.of_decides (fun d _ => d.elsewhere) Grammar.derives_call.whole h hc

theorem Call.partialOfTokens_elsewhere {c : Call} (hc : Call.partialOfTokens ts = .ok c) :
    ∃ c', Call.partialOfTokens ts' = .ok c' ∧ c.Alike false c' :=
  Grammar.PartialTree.movable.of_decides Grammar.derives_partialCall.whole h hc

theorem Expression.nameOfTokens_elsewhere {e : Expression}
    (he : Expression.nameOfTokens ts = .ok e) :
    ∃ e', Expression.nameOfTokens ts' = .ok e' ∧ e.Alike false e' :=
  Grammar.Movable.of_decides (fun d _ => d.elsewhere) Grammar.derives_name.whole h he

theorem Call.openerOfTokens_elsewhere {o : Call × List String}
    (ho : Call.openerOfTokens ts = .ok o) :
    ∃ o', Call.openerOfTokens ts' = .ok o' ∧ Grammar.OpenerAlike o o' :=
  (Grammar.Movable.opener fun d _ => d.elsewhere).of_decides Grammar.derives_call.opener h ho

theorem Call.partialOpenerOfTokens_elsewhere {o : Call × List String}
    (ho : Call.partialOpenerOfTokens ts = .ok o) :
    ∃ o', Call.partialOpenerOfTokens ts' = .ok o' ∧ Grammar.OpenerAlike o o' :=
  Grammar.PartialTree.movable.opener.of_decides Grammar.derives_partialCall.opener h ho

end

end Stache
