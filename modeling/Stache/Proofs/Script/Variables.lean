/-
  The variables of functions.

  A function has the two variables for what is around it only if some program declares parameters,
  or some path goes outwards.  That is decided for a template as a whole, before its code is made,
  by a walk over the tree (`someProgram_of_mem`: it passes every program and every call).  So
  whatever is compiled of a call mentions a variable only where functions have it
  (`compileArgument_refers` and its kin, by recursion over the call): a path that goes outwards is
  one that the walk has passed, and a name that is found in scope was declared by a program that the
  walk has passed.
-/
import Stache.Proofs.Nesting.Calls
import Stache.Proofs.Script.References

namespace Stache.Script

/-! ## Features -/

section Walk

variable {inCall : Call → Bool} {inProgram : List String → Bool} {q : Program}

/-- What is looked for is in the program itself, not in one inside of it. -/
def HasOwn (inCall : Call → Bool) (inProgram : List String → Bool) (q : Program) : Prop :=
  inProgram q.blockParams = true ∨ ∃ s ∈ q.body, ∃ call, s.call? = some call ∧ inCall call = true

/-- The walk passes every statement of a body, -/
theorem someBody_of_mem {body : List Statement} {s : Statement} {call : Call} (hs : s ∈ body)
    (hcall : s.call? = some call) (h : inCall call = true) :
    someBody inCall inProgram body = true := by
  have hstatement : someStatement inCall inProgram s = true := by
    cases s <;> cases hcall <;> simp [someStatement, h]
  induction body with
  | nil => cases hs
  | cons first rest ih =>
    rw [someBody, Bool.or_eq_true]
    obtain rfl | hs := List.mem_cons.1 hs
    · exact .inl hstatement
    · exact .inr (ih hs)

mutual

/-- every program in a statement, -/
theorem someStatement_of_programs {s : Statement} (hq : q ∈ s.programs)
    (h : HasOwn inCall inProgram q) : someStatement inCall inProgram s = true := by
  match s with
  | .content _ | .comment _ _ _ | .mustache _ _ _ _ | .partialCall _ _ _ _ | .decorator _ _ _ =>
    cases hq
  | .block call main inverse _ _ =>
    rw [someStatement, Bool.or_eq_true, Bool.or_eq_true]
    obtain hq | hq := List.mem_append.1 hq
    · exact .inl (.inr (someSection_of_mem hq h))
    · exact .inr (someSection_of_mem hq h)
  | .partialBlock call body _ _ _ | .decoratorBlock call body _ _ _ =>
    rw [someStatement, Bool.or_eq_true]
    exact .inr (someProgram_of_mem hq h)

/-- The walk over a tree passes all of its programs. -/
theorem someProgram_of_mem {p : Program} (hq : q ∈ p.family)
    (h : HasOwn inCall inProgram q) : someProgram inCall inProgram p = true := by
  match p with
  | ⟨body, params, chained, span⟩ =>
    rw [someProgram, Bool.or_eq_true]
    obtain rfl | hq := List.mem_cons.1 hq
    · obtain hparams | ⟨s, hs, call, hcall, h⟩ := h
      · exact .inl hparams
      · exact .inr (someBody_of_mem hs hcall h)
    · exact .inr (someBody_of_programs hq h)

/-- in a section, -/
theorem someSection_of_mem {p : Option Program} (hq : q ∈ sectionPrograms p)
    (h : HasOwn inCall inProgram q) : someSection inCall inProgram p = true := by
  match p with
  | none => cases hq
  | some p => exact someProgram_of_mem hq h

/-- and in a body. -/
theorem someBody_of_programs {body : List Statement} (hq : q ∈ bodyPrograms body)
    (h : HasOwn inCall inProgram q) : someBody inCall inProgram body = true := by
  match body with
  | [] => cases hq
  | s :: rest =>
    rw [someBody, Bool.or_eq_true]
    obtain hq | hq := List.mem_append.1 hq
    · exact .inl (someStatement_of_programs hq h)
    · exact .inr (someBody_of_programs hq h)

end

end Walk

/-- Some program declares parameters if these are any. -/
def Features.Declares (f : Features) (names : List String) : Prop :=
  names ≠ [] → f.blockParams = true

/-- Some path goes outwards if one in the call does. -/
def Features.Climbs (f : Features) (call : Call) : Prop :=
  climbsCall call = true → f.depths = true

/-- A call goes outwards if one of its parts does. -/
theorem Features.Climbs.parts {f : Features} {callee : Expression} {params : List Expression}
    {hash : Option Hash} (h : f.Climbs ⟨callee, params, hash⟩) :
    (climbsExpression callee = true → f.depths = true)
      ∧ (climbsParams params = true → f.depths = true)
      ∧ (climbsHash hash = true → f.depths = true) := by
  rw [Features.Climbs, climbsCall, Bool.or_eq_true, Bool.or_eq_true, or_imp, or_imp] at h
  exact ⟨h.1.1, h.1.2, h.2⟩

theorem Features.ofProgram_declares (options : CompilerOptions) {p q : Program}
    (hq : q ∈ p.family) : (Features.ofProgram options p).Declares q.blockParams := by
  intro hnames
  refine someProgram_of_mem hq (.inl ?_)
  rw [Bool.not_eq_true', List.isEmpty_eq_false_iff]
  exact hnames

theorem Features.ofProgram_climbs (options : CompilerOptions) {p q : Program} (hq : q ∈ p.family)
    {s : Statement} (hs : s ∈ q.body) {call : Call} (hcall : s.call? = some call) :
    (Features.ofProgram options p).Climbs call :=
  fun h => someProgram_of_mem hq (.inr ⟨s, hs, call, hcall, h⟩)

/-! ## Paths -/

section Calls

variable {f : Features} {scope : Scope}

theorem depths_allowed_iff : Mention.depths.Allowed f ↔ f.depths = true := by
  simp [Mention.Allowed, Features.scopeArguments]

theorem blockParams_allowed_iff :
    Mention.blockParams.Allowed f ↔ f.blockParams = true ∨ f.depths = true := by
  simp [Mention.Allowed, Features.scopeArguments]

/-- A parameter that is found was declared. -/
theorem exists_of_findParam {name : String} {params : List (List String)} {found : Nat × Nat}
    (h : findParam name params = some found) : ∃ names ∈ params, name ∈ names := by
  induction params generalizing found with
  | nil => cases h
  | cons names outer ih =>
    rw [findParam] at h
    split at h
    · rename_i index hindex
      obtain ⟨hlt, hname, -⟩ := List.findIdx?_eq_some_iff_getElem.1 hindex
      exact ⟨names, List.mem_cons_self .., of_decide_eq_true hname ▸ List.getElem_mem hlt⟩
    · obtain ⟨found', hfound, -⟩ := Option.map_eq_some_iff.1 h
      obtain ⟨names', hnames, hname⟩ := ih hfound
      exact ⟨names', List.mem_cons_of_mem _ hnames, hname⟩

/-- So a place is based on what functions have, -/
theorem Scope.resolve_allowed (hscope : ∀ names ∈ scope.params, f.Declares names) {p : Path}
    (hp : 0 < p.depth → f.depths = true) : (scope.resolve p).base.Allowed f := by
  unfold Scope.resolve
  split
  · trivial
  split
  · exact depths_allowed_iff.2 (hp ‹_›)
  split
  · rename_i hparam
    refine blockParams_allowed_iff.2 (.inl ?_)
    unfold Scope.paramOf at hparam
    split at hparam
    · cases hparam
    split at hparam
    · cases hparam
    obtain ⟨names, hnames, hname⟩ := exists_of_findParam hparam
    exact hscope names hnames (List.ne_nil_of_mem hname)
  · trivial

/-- also that of a callee. -/
theorem depth_of_calleePath {e : Expression} {path : Path} (h : calleePath e = .ok path)
    (he : climbsExpression e = true → f.depths = true) : 0 < path.depth → f.depths = true := by
  cases e with
  | path p =>
    cases h
    exact fun hdepth => he (decide_eq_true hdepth)
  | subexpression => cases h
  | string | number | boolean | undefined | null =>
    cases h
    exact fun hdepth => absurd hdepth (Nat.lt_irrefl 0)

/-! ## Calls -/

mutual

/-- **Arguments refer to no programs**, and mention variables that are there, -/
theorem compileArgument_refers (hscope : ∀ names ∈ scope.params, f.Declares names)
    {e : Expression} {code : Code} (h : compileArgument scope e = .ok code) (he : e.IsNumeric)
    (hclimbs : climbsExpression e = true → f.depths = true) : Refers f false (code.write f) [] := by
  -- only a path or a call in parentheses climbs
  match e with
  | .path p =>
    rw [compileArgument] at h
    cases h
    exact Place.refers_write (Scope.resolve_allowed hscope fun hdepth =>
      hclimbs (decide_eq_true hdepth))
  | .subexpression call span =>
    obtain ⟨path, callee, args, options, hpath, hcall, rfl⟩ := compileArgument_subexpression h
    obtain ⟨hcallee, hargs, hoptions⟩ := compileCall_refers hscope hpath hcall he hclimbs
    exact refers_helper hcallee hargs hoptions
  | .string value written span =>
    rw [compileArgument] at h
    cases h
    exact refers_scriptQuoted value
  | .number written span =>
    rw [compileArgument] at h
    cases h
    exact refers_of_numeric he
  | .undefined span =>
    rw [compileArgument] at h
    cases h
    exact refers_undefined
  | .boolean true span | .boolean false span | .null span =>
    rw [compileArgument] at h
    cases h
    exact .of_quiet (by decide)

/-- so do calls, but for their sections, -/
theorem compileCall_refers (hscope : ∀ names ∈ scope.params, f.Declares names) {path : Path}
    {sections : Option Sections} {span : Span} {call : Call} {callee : Callee} {args : List Code}
    {options : Options} (hpath : calleePath call.callee = .ok path)
    (h : compileCall scope path sections span call = .ok (callee, args, options))
    (hcall : call.IsNumeric) (hclimbs : f.Climbs call) :
    callee.Allowed f ∧ RowRefers f (writeArgs f args) []
      ∧ ∀ {closed}, Refers f closed (options.write f) (sectionNumbers sections) := by
  match call with
  | ⟨name, params, hash⟩ =>
    obtain ⟨hname, hparams, hpairs⟩ := hclimbs.parts
    obtain ⟨hcallee, hargs, entries, hentries, rfl⟩ := compileCall_parts h
    refine ⟨?_, compileArguments_refers hscope hargs hcall.2.1 hparams,
      refers_options (compileHash_refers hscope hentries hcall.2.2 hpairs)⟩
    unfold Scope.calleeOf at hcallee
    split at hcallee
    · cases hcallee
      trivial
    split at hcallee
    · cases hcallee
    · cases hcallee
      exact Scope.resolve_allowed hscope (depth_of_calleePath hpath hname)

/-- parameters, -/
theorem compileArguments_refers (hscope : ∀ names ∈ scope.params, f.Declares names)
    {params : List Expression} {args : List Code} (h : compileArguments scope params = .ok args)
    (hparams : paramsNumeric params) (hclimbs : climbsParams params = true → f.depths = true) :
    RowRefers f (writeArgs f args) [] := by
  match params with
  | [] =>
    rw [compileArguments] at h
    cases h
    exact .nil
  | e :: rest =>
    rw [climbsParams, Bool.or_eq_true, or_imp] at hclimbs
    obtain ⟨code, codes, hcode, hcodes, rfl⟩ := compileArguments_cons h
    exact .cons (compileArgument_refers hscope hcode hparams.1 hclimbs.1)
      (compileArguments_refers hscope hcodes hparams.2 hclimbs.2)

/-- hashes, -/
theorem compileHash_refers (hscope : ∀ names ∈ scope.params, f.Declares names)
    {hash : Option Hash} {entries : List Entry} (h : compileHash scope hash = .ok entries)
    (hhash : hashNumeric hash) (hclimbs : climbsHash hash = true → f.depths = true) :
    RowRefers f (writeEntries f entries) [] := by
  match hash with
  | none =>
    rw [compileHash] at h
    cases h
    exact .nil
  | some ⟨pairs, span⟩ =>
    rw [compileHash] at h
    exact compilePairs_refers hscope h hhash hclimbs

/-- and their pairs. -/
theorem compilePairs_refers (hscope : ∀ names ∈ scope.params, f.Declares names)
    {pairs : List Pair} {entries : List Entry} (h : compilePairs scope pairs = .ok entries)
    (hpairs : pairsNumeric pairs) (hclimbs : climbsPairs pairs = true → f.depths = true) :
    RowRefers f (writeEntries f entries) [] := by
  match pairs with
  | [] =>
    rw [compilePairs] at h
    cases h
    exact .nil
  | ⟨key, value, span⟩ :: rest =>
    rw [climbsPairs, Bool.or_eq_true, or_imp] at hclimbs
    obtain ⟨code, entries, hcode, hentries, rfl⟩ := compilePairs_cons h
    have hcolon : Refers f true ":" [] := .of_quiet (by decide)
    have hvalue := compileArgument_refers hscope hcode hpairs.1 hclimbs.1
    exact .cons (((refers_scriptQuoted key).append hcolon).append hvalue)
      (compilePairs_refers hscope hentries hpairs.2 hclimbs.2)

end

/-- Hence a mustache or a block does, -/
theorem compileInvocation_refers (hscope : ∀ names ∈ scope.params, f.Declares names)
    {sections : Option Sections} {span : Span} {call : Call} {i : Invocation}
    (h : compileInvocation scope sections span call = .ok i) (hcall : call.IsNumeric)
    (hclimbs : f.Climbs call) : i.Refers f := by
  have hplace {path : Path} (hpath : calleePath call.callee = .ok path) :
      (scope.resolve path).base.Allowed f := by
    obtain ⟨callee, params, hash⟩ := call
    exact Scope.resolve_allowed hscope (depth_of_calleePath hpath hclimbs.parts.1)
  cases compileInvocation_of h with
  | helper hpath hparts =>
    obtain ⟨hcallee, hargs, hoptions⟩ := compileCall_refers hscope hpath hparts hcall hclimbs
    rw [← compileCall_sections hparts] at hoptions
    refine ⟨fun callee' args' hmode => ?_, fun place hmode => ?_, fun place hmode => ?_, hoptions⟩
    all_goals cases hmode
    exact ⟨hcallee, hargs⟩
  | either hpath | plain hpath =>
    refine ⟨fun callee args hmode => ?_, fun place hmode => ?_, fun place hmode => ?_,
      refers_options .nil⟩
    all_goals cases hmode
    exact hplace hpath

/-- the call of a partial, -/
theorem compilePartial_refers (hscope : ∀ names ∈ scope.params, f.Declares names)
    {indent : String} {span : Span} {call : Call} {p : PartialCall}
    (h : compilePartial scope indent span call = .ok p) (hcall : call.IsNumeric)
    (hclimbs : f.Climbs call) : p.Refers f := by
  obtain ⟨htarget, hcontext, ⟨entries, hentries, hhash⟩, -, -⟩ := compilePartial_of h
  obtain ⟨callee, params, hash⟩ := call
  obtain ⟨hcallee, hparams, hpairs⟩ := hcall
  obtain ⟨hname, hup, houter⟩ := hclimbs.parts
  -- its name, its context, and its hash
  refine ⟨fun code hcode => ?_, ?_, ?_⟩
  · rw [hcode] at htarget
    cases htarget with
    | computed hcode => exact compileArgument_refers hscope hcode hcallee hname
  · obtain ⟨-, hcontext⟩ | ⟨param, hparam, hcontext⟩ := hcontext
    · rw [hcontext]
      exact Place.refers_write trivial
    · cases hparam
      rw [climbsParams, Bool.or_eq_true, or_imp] at hup
      exact compileArgument_refers hscope hcontext hparams.1 hup.1
  · intro entries' heq
    rw [hhash] at heq
    obtain ⟨_, -, rfl⟩ := Option.map_eq_some_iff.1 heq
    exact compileHash_refers hscope hentries hpairs houter

/-- and a decorator. -/
theorem compileDecorator_refers (hscope : ∀ names ∈ scope.params, f.Declares names)
    {path : Path} {body : Option Child} {span : Span} {call : Call} {d : Decorator}
    (h : compileDecorator scope path body span call = .ok d) (hcall : call.IsNumeric)
    (hclimbs : f.Climbs call) : d.Refers f := by
  obtain ⟨callee, params, hash⟩ := call
  obtain ⟨-, hparams, hpairs⟩ := hclimbs.parts
  obtain ⟨entries, args, hentries, hargs, rfl⟩ := compileDecorator_parts h
  exact ⟨compileHash_refers hscope hentries hcall.2.2 hpairs,
    compileArguments_refers hscope hargs hcall.2.1 hparams⟩

/-! ## Statements -/

/-- What a statement is compiled to mentions what functions have. -/
theorem Compiles.refers (hscope : ∀ names ∈ scope.params, f.Declares names) {next : Nat}
    {s : Statement} {pieces : Pieces} (h : Compiles scope next s pieces)
    (hs : ∀ call, s.call? = some call → call.IsNumeric ∧ f.Climbs call) :
    (∀ o ∈ pieces.operands, o.value.Refers f) ∧ ∀ d ∈ pieces.decorators, d.value.Refers f := by
  cases h with
  | content c =>
    refine ⟨?_, List.forall_mem_nil _⟩
    dsimp only
    split
    · exact List.forall_mem_nil _
    · exact List.forall_mem_singleton.2 trivial
  | comment => exact ⟨List.forall_mem_nil _, List.forall_mem_nil _⟩
  | mustache hi =>
    obtain ⟨hnumeric, hclimbs⟩ := hs _ rfl
    exact ⟨List.forall_mem_singleton.2 ⟨compileInvocation_refers hscope hi hnumeric hclimbs,
      compileInvocation_sections hi⟩, List.forall_mem_nil _⟩
  | block hmain hinverse hi =>
    obtain ⟨hnumeric, hclimbs⟩ := hs _ rfl
    exact ⟨List.forall_mem_singleton.2 (compileInvocation_refers hscope hi hnumeric hclimbs),
      List.forall_mem_nil _⟩
  | partialCall hp =>
    rename_i call indent strip span p
    obtain ⟨hnumeric, hclimbs⟩ := hs _ rfl
    -- the indent before a partial refers to nothing
    have hindent : ∀ o ∈ (if scope.options.preventIndent then indentOperand indent span.start
        else []), o.value.Refers f := by
      intro o ho
      obtain ⟨text, htext⟩ := exists_text_of_mem_indent ho
      rw [htext]
      trivial
    exact ⟨List.forall_mem_append.2 ⟨hindent, List.forall_mem_singleton.2
      (compilePartial_refers hscope hp hnumeric hclimbs)⟩, List.forall_mem_nil _⟩
  | partialBlock hp hbody =>
    obtain ⟨hnumeric, hclimbs⟩ := hs _ rfl
    obtain ⟨htarget, hcontext, hhash⟩ := compilePartial_refers hscope hp hnumeric hclimbs
    exact ⟨List.forall_mem_singleton.2 ⟨htarget, hcontext, hhash⟩, List.forall_mem_nil _⟩
  | decorator hpath hd =>
    obtain ⟨hnumeric, hclimbs⟩ := hs _ rfl
    exact ⟨List.forall_mem_nil _, List.forall_mem_singleton.2
      (compileDecorator_refers hscope hd hnumeric hclimbs)⟩
  | decoratorBlock hpath hbody hd =>
    obtain ⟨hnumeric, hclimbs⟩ := hs _ rfl
    exact ⟨List.forall_mem_nil _, List.forall_mem_singleton.2
      (compileDecorator_refers hscope hd hnumeric hclimbs)⟩

/-- So a function refers to what it should. -/
theorem Function.CompiledWithin.refers {options : CompilerOptions} {fn : Function} {p : Program}
    (h : fn.CompiledWithin options f.Declares p)
    (hbody : ∀ s ∈ p.body, ∀ call, s.call? = some call → call.IsNumeric ∧ f.Climbs call) :
    fn.Refers f := by
  obtain ⟨scope, next, pieces, -, hscope, hpieces, rfl⟩ := h
  obtain ⟨hoperands, hdecorators⟩ := compileStatements_induction (P := fun body pieces =>
    (∀ s ∈ body, ∀ call, s.call? = some call → call.IsNumeric ∧ f.Climbs call) →
      (∀ o ∈ pieces.operands, o.value.Refers f) ∧ ∀ d ∈ pieces.decorators, d.value.Refers f)
    (fun _ => ⟨List.forall_mem_nil _, List.forall_mem_nil _⟩)
    (fun hfirst ih hbody => by
      obtain ⟨hs, hrest⟩ := List.forall_mem_cons.1 hbody
      obtain ⟨hoperands, hdecorators⟩ := hfirst.refers hscope hs
      obtain ⟨hoperands', hdecorators'⟩ := ih hrest
      exact ⟨List.forall_mem_append.2 ⟨hoperands, hoperands'⟩,
        List.forall_mem_append.2 ⟨hdecorators, hdecorators'⟩⟩) hpieces hbody
  exact ⟨hoperands, hdecorators⟩

end Calls

/-- **The functions of a template** refer to what they should, if the numbers in its calls are
    written as numbers. -/
theorem Specification.refers {options : CompilerOptions} {p : Program} {s : Specification}
    (h : Specification.ofProgram options p = .ok s)
    (hcalls : ∀ q ∈ p.family, ∀ st ∈ q.body, ∀ call, st.call? = some call → call.IsNumeric) :
    ∀ fn ∈ s.functions, fn.Refers s.features := by
  intro fn hfn
  have hfeatures := features_ofProgram h
  have hwithin := ofProgram_compiledWithin (P := s.features.Declares)
    (fun q hq => hfeatures ▸ Features.ofProgram_declares options hq) h
  obtain ⟨q, hq, hfrom⟩ := exists_of_mem_forall₂ hwithin hfn
  have hmem : q ∈ p.family := Program.mem_family hq
  exact hfrom.refers fun st hst call hcall =>
    ⟨hcalls q hmem st hst call hcall, hfeatures ▸ Features.ofProgram_climbs options hmem hst hcall⟩

end Stache.Script
