/-
  Whole tags.

  A tag is accepted if ALL of its tokens are the yield of a tree, and which sort of tree is up to
  what the tag is for: a call for mustaches and decorators, a call with block parameters for tags
  that open a block, the same with a parameter for a callee where a partial is called, and a name
  for tags that close a block.  A reader of tags DECIDES such a sort of trees (`Decides`) if it
  accepts their yields, makes of each what its tree denotes, and no yield has two trees.

  The five sorts come from three readers, each with and without the end of the tag behind it, so the
  step from readers to tags is made once for all of them (`Derives.whole`, `Derives.opener`).
-/
import Stache.Proofs.Grammar.Unambiguous
import Stache.Template.Nesting

namespace Stache.Grammar

/-- The reader accepts the yields of trees and nothing else, and makes of a yield what the one tree
    that has it denotes. -/
structure Decides {α δ : Type} (read : List Token → Except Misfit α) (tokens : δ → List Token)
    (value : δ → α) : Prop where
  accepts : ∀ ts a, read ts = .ok a ↔ ∃ d, tokens d = ts ∧ value d = a
  unambiguous : ∀ d d', tokens d = tokens d' → d = d'

/-- The reader takes the yield of a tree from the front of the tokens, if the rest of the tag may
    follow it. -/
structure Derives {α δ : Type} (read : (ts : List Token) → Except Misfit (α × Fewer ts))
    (tokens : δ → List Token) (value : δ → α) : Prop where
  append : ∀ d {rest}, EndsCall rest →
    ∃ left, read (tokens d ++ rest) = .ok (value d, left) ∧ left.1 = rest
  exists_tree : ∀ {ts a left}, read ts = .ok (a, left) →
    ∃ d, ts = tokens d ++ left.1 ∧ a = value d
  unambiguous : ∀ {d d'}, tokens d = tokens d' → d = d'

/-- Calls have their trees, -/
theorem derives_call : Derives readCall CallTree.tokens CallTree.call :=
  ⟨fun d _ hrest => readCall_append d hrest, exists_of_readCall, CallTree.eq_of_tokens_eq⟩

/-- and so have names, -/
theorem derives_name : Derives readName NameTree.tokens NameTree.expression :=
  ⟨fun d _ hrest => readName_append d hrest.bounds, exists_of_readName, NameTree.eq_of_tokens_eq⟩

/-- and the calls of partials. -/
theorem derives_partialCall : Derives readPartialCall PartialTree.tokens PartialTree.call := by
  refine ⟨fun d _ hrest => readPartialCall_append d hrest, exists_of_readPartialCall, ?_⟩
  rintro ⟨callee, params, pairs⟩ ⟨callee', params', pairs'⟩ h
  obtain ⟨hcallee, harguments⟩ := ParamTree.append_inj (bounds_arguments params pairs)
    (bounds_arguments params' pairs') h
  obtain ⟨hparams, hpairs⟩ := arguments_append_inj harguments
  obtain rfl : callee = callee' := ParamTree.eq_of_tokens_eq hcallee
  obtain rfl := paramsTokens_inj hparams
  obtain rfl := pairsTokens_inj hpairs
  rfl

/-! ## Block parameters -/

/-- Block parameters are read up to the bar behind them. -/
theorem readParamNames_append (names : List NameToken) (closing : Mark .pipe) (rest : List Token) :
    readParamNames (names.map NameToken.token ++ closing.1 :: rest)
      = .ok (names.map NameToken.name, rest) := by
  induction names with
  | nil => rw [List.map_nil, List.nil_append, readParamNames, closing.2]; rfl
  | cons name names ih =>
    rw [List.map_cons, List.cons_append, readParamNames, name.kind_eq]
    simp only [ih]
    rfl

/-- What is read as block parameters are names with a bar behind them. -/
theorem exists_of_readParamNames {ts rest : List Token} {names : List String}
    (h : readParamNames ts = .ok (names, rest)) :
    ∃ (ns : List NameToken) (closing : Mark .pipe),
      ts = ns.map NameToken.token ++ closing.1 :: rest ∧ names = ns.map NameToken.name := by
  fun_induction readParamNames ts generalizing names with
  | case1 => cases h
  | case2 t ts name bracketed hkind ih =>
    obtain ⟨⟨more, rest'⟩, hmore, h⟩ := exists_of_bind_ok h
    cases h
    obtain ⟨ns, closing, rfl, rfl⟩ := ih hmore
    exact ⟨⟨t, name, bracketed, hkind⟩ :: ns, closing, rfl, rfl⟩
  | case3 t ts hkind =>
    cases h
    exact ⟨[], ⟨t, hkind⟩, rfl, rfl⟩
  | case4 => cases h

theorem expectClose_eq_ok_iff {ts : List Token} : expectClose ts = .ok () ↔ ts = [] := by
  cases ts with
  | nil => exact iff_of_true rfl rfl
  | cons t ts => exact iff_of_false nofun nofun

/-- The yield of block parameters that may be missing. -/
def optionTokens (b : Option BlockParamsTree) : List Token :=
  (b.map BlockParamsTree.tokens).getD []

theorem endsCall_optionTokens (b : Option BlockParamsTree) : EndsCall (optionTokens b) := by
  cases b with
  | none => exact .nil
  | some b => exact .cons (.inr b.opening.2)

/-- What may stand behind the call of an opening tag. -/
theorem blockParamsOfTokens_eq_ok_iff {ts : List Token} {names : List String} :
    blockParamsOfTokens ts = .ok names
      ↔ ∃ b, optionTokens b = ts ∧ (b.map BlockParamsTree.value).getD [] = names := by
  -- what is read has a tree, and a tree is read
  constructor
  · intro h
    obtain ⟨⟨names', rest⟩, hnames, h⟩ := exists_of_bind_ok h
    obtain ⟨⟨⟩, hclose, h⟩ := exists_of_bind_ok h
    cases h
    obtain rfl := expectClose_eq_ok_iff.1 hclose
    unfold readBlockParams at hnames
    split at hnames
    · cases hnames
      exact ⟨none, rfl, rfl⟩
    · rename_i t us
      split at hnames
      · rename_i hopening
        obtain ⟨ns, closing, rfl, rfl⟩ := exists_of_readParamNames hnames
        exact ⟨some ⟨⟨t, hopening⟩, ns, closing⟩, rfl, rfl⟩
      · cases hnames
  · rintro ⟨b, rfl, rfl⟩
    -- with names between bars, or without
    cases b with
    | none => rfl
    | some b =>
      obtain ⟨opening, names, closing⟩ := b
      show blockParamsOfTokens (opening.1 :: (names.map NameToken.token ++ [closing.1])) = _
      rw [blockParamsOfTokens, readBlockParams, if_pos opening.2, readParamNames_append]
      rfl

/-- The names can be told from the tokens. -/
theorem optionTokens_inj {b b' : Option BlockParamsTree} (h : optionTokens b = optionTokens b') :
    b = b' := by
  match b, b' with
  | none, none => rfl
  | none, some b' => cases h
  | some b, none => cases h
  | some ⟨opening, names, closing⟩, some ⟨opening', names', closing'⟩ =>
    obtain ⟨hopening, hrest⟩ := List.cons.inj h
    obtain ⟨hnames, hclosing⟩ := List.append_inj' hrest rfl
    obtain rfl : opening = opening' := Subtype.ext hopening
    obtain rfl : names = names' :=
      (List.map_inj_right fun a b => NameToken.eq_of_token_eq).1 hnames
    obtain rfl : closing = closing' := Subtype.ext (List.cons.inj hclosing).1
    rfl

/-! ## Readers of whole tags -/

section

variable {δ : Type} {tokens : δ → List Token}

/-- A tree, and no more. -/
theorem Derives.whole {α : Type} {read : (ts : List Token) → Except Misfit (α × Fewer ts)}
    {value : δ → α} (h : Derives read tokens value) :
    Decides (fun ts => do
      let (a, rest) ← read ts
      expectClose rest.1
      return a) tokens value := by
  refine ⟨fun ts a => ?_, fun _ _ => h.unambiguous⟩
  -- nothing is left behind the tree, so its tokens are all there are
  constructor
  · intro hread
    obtain ⟨⟨a, left⟩, ha, hread⟩ := exists_of_bind_ok hread
    obtain ⟨⟨⟩, hclose, hread⟩ := exists_of_bind_ok hread
    cases hread
    obtain ⟨d, hts, rfl⟩ := h.exists_tree ha
    refine ⟨d, ?_, rfl⟩
    rw [expectClose_eq_ok_iff.1 hclose, List.append_nil] at hts
    exact hts.symm
  · rintro ⟨d, rfl, rfl⟩
    have hread := h.append d .nil
    rw [List.append_nil] at hread
    obtain ⟨left, hread, hleft⟩ := hread
    have hclose : expectClose left.1 = .ok () := expectClose_eq_ok_iff.2 hleft
    simp only [bind, Except.bind, hread, hclose]
    rfl

/-- A call and block parameters. -/
theorem Derives.opener {read : (ts : List Token) → Except Misfit (Call × Fewer ts)}
    {value : δ → Call} (h : Derives read tokens value) :
    Decides (fun ts => do
      let (call, rest) ← read ts
      return (call, ← blockParamsOfTokens rest.1)) (OpenerTree.tokens tokens)
      (OpenerTree.value value) := by
  refine ⟨fun ts a => ?_, ?_⟩
  · constructor
    · intro hread
      obtain ⟨⟨call, left⟩, hcall, hread⟩ := exists_of_bind_ok hread
      obtain ⟨names, hnames, hread⟩ := exists_of_bind_ok hread
      cases hread
      obtain ⟨d, hts, rfl⟩ := h.exists_tree hcall
      obtain ⟨b, hb, rfl⟩ := blockParamsOfTokens_eq_ok_iff.1 hnames
      refine ⟨⟨d, b⟩, ?_, rfl⟩
      rw [hts, ← hb]
      rfl
    · rintro ⟨⟨d, b⟩, rfl, rfl⟩
      obtain ⟨⟨_, hshort⟩, hread, rfl⟩ := h.append d (endsCall_optionTokens b)
      have hnames := blockParamsOfTokens_eq_ok_iff.2 ⟨b, rfl, rfl⟩
      show (do
        let (call, rest) ← read (tokens d ++ optionTokens b)
        return (call, ← blockParamsOfTokens rest.1)) = _
      simp only [bind, Except.bind, hread, hnames]
      rfl
  -- what the call leaves is the same on both sides, hence the names, hence the call
  · rintro ⟨d, b⟩ ⟨d', b'⟩ htokens
    have htokens : tokens d ++ optionTokens b = tokens d' ++ optionTokens b' := htokens
    have heq : optionTokens b = optionTokens b' :=
      rest_eq (h.append d (endsCall_optionTokens b))
        (htokens ▸ h.append d' (endsCall_optionTokens b'))
    obtain rfl := optionTokens_inj heq
    rw [h.unambiguous (List.append_cancel_right htokens)]

end

/-! ## Tags in a nesting -/

/-- An open tag adds a frame for what its tree denotes. -/
def Enters {δ : Type} (tokens : δ → List Token) (callOf : δ → Call) (kind : OpeningKind)
    (chained : Bool) (n : Nesting) (span : Span) (tag : Tag) (n' : Nesting) : Prop :=
  ∃ d : OpenerTree δ, d.tokens tokens = tag.tokens
    ∧ n' = n.enter ⟨kind, (d.value callOf).1, (d.value callOf).2, tag.strip, span⟩ chained

/-- What the nesting becomes at a tag, by the tree of the tokens of the tag. -/
def Makes (n : Nesting) (span : Span) (tag : Tag) (n' : Nesting) : Prop :=
  match tag.kind with
  | .mustache form => ∃ d : CallTree, d.tokens = tag.tokens
    ∧ n' = n.push (.mustache d.call form.escaped tag.strip span)
  | .partialCall => ∃ d : PartialTree, d.tokens = tag.tokens
    ∧ n' = n.push (.partialCall d.call "" tag.strip span)
  | .decorator => ∃ d : CallTree, d.tokens = tag.tokens
    ∧ n' = n.push (.decorator d.call tag.strip span)
  | .openBlock => Enters CallTree.tokens CallTree.call .block false n span tag n'
  | .openInverse => Enters CallTree.tokens CallTree.call .inverse false n span tag n'
  | .openPartialBlock =>
    Enters PartialTree.tokens PartialTree.call .partialBlock false n span tag n'
  | .openDecoratorBlock =>
    Enters CallTree.tokens CallTree.call .decoratorBlock false n span tag n'
  | .elseMark => n.beginElse span tag.strip false = .ok n'
  | .elseChain => ∃ m, n.beginElse span tag.strip true = .ok m
    ∧ Enters CallTree.tokens CallTree.call .block true m span tag n'
  | .closeMark => ∃ d : NameTree, d.tokens = tag.tokens
    ∧ Nesting.closeFrames d.expression.label span tag.strip n.root none n.frames = .ok n'

section

variable {α δ : Type} {tokens : δ → List Token} {tag : Tag} {n n' : Nesting} {span : Span}

theorem located_eq_ok_iff {result : Except Misfit α} {a : α} :
    Nesting.located tag result = .ok a ↔ result = .ok a := by
  constructor
  · exact of_mapError_ok
  · rintro rfl
    rfl

/-- A tag of which one tree is taken. -/
theorem Decides.bind_located {read : List Token → Except Misfit α} {value : δ → α}
    (h : Decides read tokens value) {next : α → Except ParseError Nesting} :
    (Nesting.located tag (read tag.tokens) >>= next) = .ok n'
      ↔ ∃ d, tokens d = tag.tokens ∧ next (value d) = .ok n' := by
  constructor
  · intro hread
    obtain ⟨a, ha, hnext⟩ := exists_of_bind_ok hread
    obtain ⟨d, hd, rfl⟩ := (h.accepts _ _).1 (located_eq_ok_iff.1 ha)
    exact ⟨d, hd, hnext⟩
  · rintro ⟨d, hd, hnext⟩
    have hread : Nesting.located tag (read tag.tokens) = .ok (value d) :=
      located_eq_ok_iff.2 ((h.accepts _ _).2 ⟨d, hd, rfl⟩)
    rw [hread]
    exact hnext

/-- A tag of which one tree is taken, and nothing else done. -/
theorem Decides.return_located {read : List Token → Except Misfit α} {value : δ → α}
    (h : Decides read tokens value) (make : α → Nesting) :
    (Nesting.located tag (read tag.tokens) >>= fun a => pure (make a)) = .ok n'
      ↔ ∃ d, tokens d = tag.tokens ∧ n' = make (value d) := by
  rw [h.bind_located]
  refine exists_congr fun d => and_congr_right fun _ => ?_
  constructor
  · rintro ⟨⟩
    rfl
  · rintro rfl
    rfl

theorem openTag_eq_ok_iff {kind : OpeningKind} {chained : Bool} (hkind : kind ≠ .partialBlock) :
    n.openTag kind chained span tag = .ok n'
      ↔ Enters CallTree.tokens CallTree.call kind chained n span tag n' := by
  rw [Nesting.openTag, if_neg hkind]
  exact derives_call.opener.return_located fun r => n.enter ⟨kind, r.1, r.2, tag.strip, span⟩ chained

theorem openPartialTag_eq_ok_iff :
    n.openTag .partialBlock false span tag = .ok n'
      ↔ Enters PartialTree.tokens PartialTree.call .partialBlock false n span tag n' := by
  rw [Nesting.openTag, if_pos rfl]
  exact derives_partialCall.opener.return_located
    fun r => n.enter ⟨.partialBlock, r.1, r.2, tag.strip, span⟩ false

/-- One tag, by what it is for. -/
theorem takeTag_eq_ok_iff : n.takeTag span tag = .ok n' ↔ Makes n span tag n' := by
  rw [Nesting.takeTag, Makes]
  -- one case for each kind of tag, by the trees its tokens may have
  cases tag.kind with
  | mustache form =>
    exact derives_call.whole.return_located
      fun call => n.push (.mustache call form.escaped tag.strip span)
  | partialCall =>
    exact derives_partialCall.whole.return_located
      fun call => n.push (.partialCall call "" tag.strip span)
  | decorator =>
    exact derives_call.whole.return_located fun call => n.push (.decorator call tag.strip span)
  | openBlock | openInverse | openDecoratorBlock => exact openTag_eq_ok_iff (by decide)
  | openPartialBlock => exact openPartialTag_eq_ok_iff
  | elseMark => exact Iff.rfl
  | elseChain =>
    constructor
    · intro h
      obtain ⟨m, hm, h⟩ := exists_of_bind_ok h
      exact ⟨m, hm, (openTag_eq_ok_iff (by decide)).1 h⟩
    · rintro ⟨m, hm, h⟩
      show (n.beginElse span tag.strip true >>= fun m => m.openTag .block true span tag) = _
      rw [hm]
      exact (openTag_eq_ok_iff (by decide)).2 h
  | closeMark => exact derives_name.whole.bind_located

end

/-- **What the parser accepts of a tag, and what it makes of it.**  Each sort of tag is accepted if
    and only if its tokens are the yield of a tree of that sort, which is the only one, and the
    result is what the tree denotes. -/
theorem decides_tags :
    Decides Call.ofTokens CallTree.tokens CallTree.call
      ∧ Decides Call.partialOfTokens PartialTree.tokens PartialTree.call
      ∧ Decides Expression.nameOfTokens NameTree.tokens NameTree.expression
      ∧ Decides Call.openerOfTokens (OpenerTree.tokens CallTree.tokens)
          (OpenerTree.value CallTree.call)
      ∧ Decides Call.partialOpenerOfTokens (OpenerTree.tokens PartialTree.tokens)
          (OpenerTree.value PartialTree.call)
      ∧ ∀ n span tag n', Nesting.takeTag n span tag = .ok n' ↔ Makes n span tag n' :=
  ⟨derives_call.whole, derives_partialCall.whole, derives_name.whole, derives_call.opener,
    derives_partialCall.opener, fun _ _ _ _ => takeTag_eq_ok_iff⟩

end Stache.Grammar
