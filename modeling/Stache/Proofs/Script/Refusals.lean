/-
  Which templates are refused.

  Two things can be wrong with a tree that is parsed: a PARTIAL may be given more than one
  parameter, and a helper that is CALLED may be unknown where all helpers have to be known.

  The helpers that are called can be told from the tree, with no code at hand
  (`Program.helperCalls`).  A mustache or a block calls one if it has arguments, unless its callee
  is a block parameter; so does every call in parentheses whose value is used.  What stands in the
  arguments of a mustache that calls nothing is never looked at.

  Compiling a part of a tree SETTLES the calls in it (`Settled`): if it succeeds then nothing is
  wrong in that part, and if it fails then what it reports is wrong there.  Steps one after another
  settle the calls of both, so each function of the compiler needs one lemma, in the order of the
  functions.  That no helper is named by a call in parentheses is owed to the grammar
  (`Call.Proper`).
-/
import Stache.Proofs.Grammar.Callees
import Stache.Proofs.Script.Lookups

namespace Stache

/-! ## Known helpers -/

/-- The single name that an expression is, if it is one. A literal is. -/
def Expression.singleName? : Expression → Option String
  | .path p =>
    match p.parts with
    | [name] => if p.depth = 0 && !p.thisScoped then some name else none
    | _ => none
  | .subexpression _ _ => none
  | e => some e.label

/-- A path with an at sign. -/
def Expression.isData : Expression → Bool
  | .path p => p.data
  | _ => false

/-- The expression is a block parameter, where the programs around it have these. -/
def Expression.isBound (enclosing : List (List String)) (e : Expression) : Bool :=
  !e.isData && e.singleName?.any fun name => enclosing.any fun names => names.contains name

/-- The helper is listed as known, or it is not listed and always there. -/
def CompilerOptions.Knows (o : CompilerOptions) (name : String) : Prop :=
  o.knownHelpers.lookup name = some true
    ∨ o.knownHelpers.lookup name = none ∧ name ∈ Script.standardHelpers

/-- The call names a known helper. -/
def Call.IsKnown (o : CompilerOptions) (c : Call) : Prop :=
  ∃ name, c.callee.singleName? = some name ∧ o.Knows name

/-! ## Calls of helpers -/

mutual

/-- The calls that are made for the value of an expression. -/
def Expression.calls : Expression → List Call
  | .subexpression call _ => call.calls
  | _ => []

/-- A call, and those that are made for its arguments. -/
def Call.calls : Call → List Call
  | ⟨callee, params, hash⟩ => ⟨callee, params, hash⟩ :: (paramsCalls params ++ hashCalls hash)

/-- The calls in parameters, -/
def paramsCalls : List Expression → List Call
  | [] => []
  | e :: rest => e.calls ++ paramsCalls rest

/-- in a hash, -/
def hashCalls : Option Hash → List Call
  | none => []
  | some ⟨pairs, _⟩ => pairsCalls pairs

/-- and in its pairs. -/
def pairsCalls : List Pair → List Call
  | [] => []
  | ⟨_, value, _⟩ :: rest => value.calls ++ pairsCalls rest

end

/-- The calls that a mustache or a block makes. -/
def Call.invokedCalls (enclosing : List (List String)) (c : Call) : List Call :=
  if c.hasArguments && !c.callee.isBound enclosing then c.calls else []

/-- The calls that are made for a partial: for its name, its context and its hash. -/
def Call.partialCalls (c : Call) : List Call :=
  c.callee.calls ++ (paramsCalls (c.params.take 1) ++ hashCalls c.hash)

/-- The calls that are made for the arguments of a decorator. -/
def Call.decoratorCalls (c : Call) : List Call := hashCalls c.hash ++ paramsCalls c.params

mutual

/-- The calls of helpers in a statement, where the programs around it have these parameters. -/
def Statement.helperCalls (enclosing : List (List String)) : Statement → List Call
  | .content _ | .comment _ _ _ => []
  | .mustache call _ _ _ => call.invokedCalls enclosing
  | .block call main inverse _ _ =>
    sectionCalls enclosing main ++ (sectionCalls enclosing inverse ++ call.invokedCalls enclosing)
  | .partialCall call _ _ _ => call.partialCalls
  | .partialBlock call body _ _ _ => call.partialCalls ++ body.helperCalls enclosing
  | .decorator call _ _ => call.decoratorCalls
  | .decoratorBlock call body _ _ _ => body.helperCalls enclosing ++ call.decoratorCalls

/-- The parameters of a program are there for its own statements. -/
def Program.helperCalls (enclosing : List (List String)) : Program → List Call
  | ⟨body, params, _, _⟩ => bodyCalls (params :: enclosing) body

/-- Those in a section, if it is there, -/
def sectionCalls (enclosing : List (List String)) : Option Program → List Call
  | none => []
  | some p => p.helperCalls enclosing

/-- and in a body. -/
def bodyCalls (enclosing : List (List String)) : List Statement → List Call
  | [] => []
  | s :: rest => s.helperCalls enclosing ++ bodyCalls enclosing rest

end

/-- If the statement is the call of a partial, it has one parameter at most. -/
def Statement.PartialFits (s : Statement) : Prop :=
  ∀ call, s.partialCall? = some call → call.params.length ≤ 1

theorem Statement.partialFits_of_some {s : Statement} {call : Call} (h : s.partialCall? = some call) :
    s.PartialFits ↔ call.params.length ≤ 1 := by
  simp [Statement.PartialFits, h]

theorem Statement.partialFits_of_none {s : Statement} (h : s.partialCall? = none) :
    s.PartialFits ↔ True := by
  simp [Statement.PartialFits, h]

/-- A statement that is no partial and has no sections. -/
theorem Statement.partialFits_bare {s : Statement} (h : s.partialCall? = none)
    (hnone : s.programs = []) :
    True ↔ s.PartialFits ∧ ∀ q ∈ s.programs, ∀ s ∈ q.body, s.PartialFits := by
  simp [Statement.PartialFits, h, hnone]

namespace Script

/-! ## Settled calls -/

/-- A result that tells what is wrong: whether partials fit, and which of the calls are unknown. -/
def Settled {α : Type} (o : CompilerOptions) (fits : Prop) (calls : List Call) :
    Except CompileFailure α → Prop
  | .ok _ => fits ∧ (o.knownHelpersOnly = true → ∀ c ∈ calls, c.IsKnown o)
  | .error (.partialArguments _ _) => ¬ fits
  | .error (.unknownHelper name _) =>
    o.knownHelpersOnly = true ∧ ∃ c ∈ calls, ¬ c.IsKnown o ∧ c.label = name
  | .error _ => False

section Settled

variable {α β : Type} {o : CompilerOptions} {fits fits' : Prop} {calls calls' : List Call}
  {e : Except CompileFailure α} {f : α → Except CompileFailure β}

theorem Settled.ok (a : α) : Settled o True [] (.ok a) := ⟨trivial, fun _ _ hc => nomatch hc⟩

theorem Settled.congr (hfits : fits ↔ fits') (hcalls : ∀ c, c ∈ calls ↔ c ∈ calls')
    (h : Settled o fits calls e) : Settled o fits' calls' e := by
  unfold Settled at h ⊢
  simpa only [hfits, hcalls] using h

/-- Steps one after another. -/
theorem Settled.bind (h : Settled o fits calls e)
    (hf : ∀ a, e = .ok a → Settled o fits' calls' (f a)) :
    Settled o (fits ∧ fits') (calls ++ calls') (e >>= f) := by
  -- after a success the rest decides, and after a failure nothing else is asked
  cases e with
  | ok a =>
    have ha := hf a rfl
    show Settled _ _ _ (f a)
    revert ha
    cases f a with
    | ok b =>
      rintro ⟨hfits', hknown'⟩
      exact ⟨⟨h.1, hfits'⟩, fun honly => List.forall_mem_append.2 ⟨h.2 honly, hknown' honly⟩⟩
    | error failure =>
      cases failure with
      | partialArguments => exact fun hfits' hboth => hfits' hboth.2
      | unknownHelper =>
        rintro ⟨honly, c, hc, hunknown⟩
        exact ⟨honly, c, List.mem_append_right _ hc, hunknown⟩
      | parse | computedHelper | options => exact False.elim
  | error failure =>
    cases failure with
    | partialArguments => exact fun hboth => h hboth.1
    | unknownHelper =>
      obtain ⟨honly, c, hc, hunknown⟩ := h
      exact ⟨honly, c, List.mem_append_left _ hc, hunknown⟩
    | parse | computedHelper | options => exact h.elim

/-- A step behind which nothing can be wrong. -/
theorem Settled.map {g : α → β} (h : Settled o fits calls e) :
    Settled o fits calls (e >>= fun a => .ok (g a)) := by
  have hall := h.bind (f := fun a => .ok (g a)) fun a _ => .ok (g a)
  rwa [List.append_nil, and_true] at hall

/-- A step in front, in which no partial is called. -/
theorem Settled.before (h : Settled o True calls e) (hf : ∀ a, Settled o fits calls' (f a)) :
    Settled o fits (calls ++ calls') (e >>= f) := by
  have hall := h.bind fun a _ => hf a
  rwa [true_and] at hall

/-- Calls that are known need not be settled. -/
theorem Settled.of_known (h : Settled o fits calls e) (hknown : ∀ c ∈ calls, c.IsKnown o) :
    Settled o fits [] e := by
  cases e with
  | ok a => exact ⟨h.1, fun _ _ hc => nomatch hc⟩
  | error failure =>
    cases failure with
    | partialArguments => exact h
    | unknownHelper =>
      obtain ⟨-, c, hc, hunknown, -⟩ := h
      exact (hunknown (hknown c hc)).elim
    | parse | computedHelper | options => exact h.elim

end Settled

/-! ## Callees -/

/-- A parameter is found if a program around has it. -/
theorem isSome_findParam (name : String) (params : List (List String)) :
    (findParam name params).isSome = params.any fun names => names.contains name := by
  induction params with
  | nil => rfl
  | cons names outer ih =>
    have hfound : (names.findIdx? (· = name)).isSome = names.contains name := by
      rw [List.findIdx?_isSome, Bool.eq_iff_iff]
      simp
    rw [findParam, List.any_cons, ← hfound]
    cases names.findIdx? (· = name) with
    | some index => rfl
    | none => rw [Option.isSome_map, ih, Option.isSome_none, Bool.false_or]

/-- A scope knows what the options know. -/
theorem Scope.knows_iff {scope : Scope} {name : String} :
    scope.knows name = true ↔ scope.options.Knows name := by
  have hlookup : (scope.options.knownHelpers.find? fun known => known.1 = name).map (·.2)
      = scope.options.knownHelpers.lookup name := by
    induction scope.options.knownHelpers with
    | nil => rfl
    | cons known rest ih =>
      obtain ⟨key, value⟩ := known
      rw [List.find?_cons, List.lookup_cons]
      by_cases hkey : key = name
      · subst hkey
        simp
      · simp [hkey, beq_false_of_ne (Ne.symm hkey), ih]
  rw [Scope.knows, CompilerOptions.Knows, hlookup]
  cases scope.options.knownHelpers.lookup name <;> simp

/-- The path by which a name is called. -/
theorem exists_calleePath {e : Expression} (he : e.IsName) :
    ∃ path, calleePath e = .ok path ∧ path.data = e.isData ∧ path.written = e.label
      ∧ e.singleName? = if path.isSimple then some path.head else none := by
  cases e with
  | path p =>
    refine ⟨p, rfl, rfl, rfl, ?_⟩
    obtain ⟨data, depth, parts, written, thisScoped, span⟩ := p
    match parts with
    | [] | _ :: _ :: _ => rfl
    | [name] => simp [Expression.singleName?, Path.isSimple, Path.head, Bool.and_comm]
  | subexpression => exact he.elim
  | string | number | boolean | undefined | null => exact ⟨_, rfl, rfl, rfl, rfl⟩

variable {scope : Scope} {sections : Option Sections} {span : Span}

theorem isKnown_iff {call : Call} {path : Path}
    (hname : call.callee.singleName? = if path.isSimple then some path.head else none) :
    call.IsKnown scope.options ↔ (path.isSimple && scope.knows path.head) = true := by
  rw [Call.IsKnown, hname, Bool.and_eq_true, Scope.knows_iff]
  split <;> simp [*]

theorem isBound_eq {e : Expression} {path : Path} (hdata : path.data = e.isData)
    (hname : e.singleName? = if path.isSimple then some path.head else none)
    (params : List (List String)) :
    e.isBound params = (path.isSimple && !path.data && (findParam path.head params).isSome) := by
  rw [Expression.isBound, hname, isSome_findParam, ← hdata]
  cases path.isSimple <;> simp

/-- A callee settles its own call. -/
theorem calleeOf_settled {call : Call} {path : Path} (hwritten : path.written = call.label)
    (hname : call.callee.singleName? = if path.isSimple then some path.head else none) :
    Settled scope.options True [call] (scope.calleeOf path span) := by
  unfold Scope.calleeOf
  split
  · rename_i hknows
    exact ⟨trivial, fun _ => List.forall_mem_singleton.2 ((isKnown_iff hname).2 hknows)⟩
  · rename_i hknows
    split
    · rename_i honly
      exact ⟨honly, call, List.mem_singleton_self call,
        fun hknown => hknows ((isKnown_iff hname).1 hknown), hwritten.symm⟩
    · rename_i honly
      exact ⟨trivial, fun h => (honly h).elim⟩

/-! ## Arguments -/

mutual

/-- **Arguments settle the calls in them**, -/
theorem compileArgument_settled (scope : Scope) {e : Expression} (he : e.Proper) :
    Settled scope.options True e.calls (compileArgument scope e) := by
  match e with
  | .path p | .string _ _ _ | .number _ _ | .boolean _ _ | .undefined _ | .null _ =>
    rw [compileArgument]
    exact .ok _
  | .subexpression ⟨callee, params, hash⟩ span =>
    obtain ⟨path, hpath, -, hwritten, hname⟩ := exists_calleePath he.1
    rw [compileArgument, hpath]
    exact (compileCall_settled scope none span he hwritten hname).map

/-- a call itself and those in its arguments, -/
theorem compileCall_settled (scope : Scope) (sections : Option Sections) (span : Span)
    {call : Call} (hcall : call.Proper) {path : Path} (hwritten : path.written = call.label)
    (hname : call.callee.singleName? = if path.isSimple then some path.head else none) :
    Settled scope.options True call.calls (compileCall scope path sections span call) := by
  match call with
  | ⟨callee, params, hash⟩ =>
    rw [compileCall]
    refine (calleeOf_settled hwritten hname).before fun callee => ?_
    refine (compileArguments_settled scope hcall.2.1).before fun args => ?_
    exact (compileHash_settled scope hcall.2.2).map

/-- parameters, -/
theorem compileArguments_settled (scope : Scope) {params : List Expression}
    (hparams : paramsProper params) :
    Settled scope.options True (paramsCalls params) (compileArguments scope params) := by
  match params with
  | [] =>
    rw [compileArguments]
    exact .ok _
  | e :: rest =>
    rw [compileArguments]
    refine (compileArgument_settled scope hparams.1).before fun code => ?_
    exact (compileArguments_settled scope hparams.2).map

/-- a hash, -/
theorem compileHash_settled (scope : Scope) {hash : Option Hash} (hhash : hashProper hash) :
    Settled scope.options True (hashCalls hash) (compileHash scope hash) := by
  match hash with
  | none =>
    rw [compileHash]
    exact .ok _
  | some ⟨pairs, _⟩ =>
    rw [compileHash]
    exact compilePairs_settled scope hhash

/-- and its pairs. -/
theorem compilePairs_settled (scope : Scope) {pairs : List Pair} (hpairs : pairsProper pairs) :
    Settled scope.options True (pairsCalls pairs) (compilePairs scope pairs) := by
  match pairs with
  | [] =>
    rw [compilePairs]
    exact .ok _
  | ⟨key, value, _⟩ :: rest =>
    rw [compilePairs]
    refine (compileArgument_settled scope hpairs.1).before fun code => ?_
    exact (compilePairs_settled scope hpairs.2).map

end

/-! ## Tags -/

/-- A mustache or a block settles what it calls, -/
theorem compileInvocation_settled (scope : Scope) (sections : Option Sections) (span : Span)
    {call : Call} (hcall : call.Proper) :
    Settled scope.options True (call.invokedCalls scope.params)
      (compileInvocation scope sections span call) := by
  obtain ⟨callee, params, hash⟩ := call
  obtain ⟨path, hpath, hdata, hwritten, hname⟩ := exists_calleePath hcall.1
  have hbound := isBound_eq hdata hname scope.params
  have hsettled := compileCall_settled scope sections span hcall hwritten hname
  rw [compileInvocation, hpath, Call.invokedCalls]
  dsimp only [bind, Except.bind, Scope.kindOf]
  rw [← hbound]
  cases hb : callee.isBound scope.params with
  | true =>
    rw [if_pos rfl, if_neg (by simp)]
    exact .ok _
  | false =>
    rw [if_neg Bool.false_ne_true]
    cases hargs : Call.hasArguments ⟨callee, params, hash⟩ with
    | true =>
      rw [if_pos (by simp), if_pos (by simp)]
      exact hsettled.map
    | false =>
      rw [if_neg (by simp)]
      obtain ⟨rfl, rfl⟩ : params = [] ∧ hash = none := by
        simpa [Call.hasArguments] using hargs
      cases hknows : path.isSimple && scope.knows path.head with
      | true =>
        -- The only call is the one without arguments, and it is known.
        have hknown : Call.IsKnown scope.options ⟨callee, [], none⟩ := (isKnown_iff hname).2 hknows
        exact (hsettled.of_known (List.forall_mem_singleton.2 hknown)).map
      | false =>
        rw [if_neg (by simp)]
        cases path.isSimple && !scope.options.knownHelpersOnly <;> exact .ok _

/-- Which partial is called. -/
theorem compileTarget_settled (scope : Scope) {e : Expression} (he : e.Proper) :
    Settled scope.options True e.calls (compileTarget scope e) := by
  cases e with
  | subexpression call span =>
    have hmap (r : Except CompileFailure Code) :
        r.map Target.computed = r >>= fun code => .ok (.computed code) := by
      cases r <;> rfl
    rw [compileTarget, hmap]
    exact (compileArgument_settled scope he).map
  | path | string | number | boolean | undefined | null => exact .ok _

/-- The parameters of a partial are counted before anything else is looked at. -/
theorem compilePartial_settled (scope : Scope) (indent : String) (span : Span) {call : Call}
    (hcall : call.ProperParts) :
    Settled scope.options (call.params.length ≤ 1) call.partialCalls
      (compilePartial scope indent span call) := by
  obtain ⟨callee, params, hash⟩ := call
  obtain ⟨hcallee, hparams, hhash⟩ := hcall
  rw [compilePartial]
  by_cases hcount : 1 < params.length
  · rw [if_pos hcount]
    exact Nat.not_le_of_lt hcount
  rw [if_neg hcount]
  have hfits : True ↔ params.length ≤ 1 := iff_of_true trivial (Nat.le_of_not_lt hcount)
  refine Settled.congr hfits (fun _ => Iff.rfl) ?_
  refine (compileTarget_settled scope hcallee).before fun target => ?_
  cases params with
  | nil => exact (compileHash_settled scope hhash).map
  | cons param more =>
    have hcontext := compileArgument_settled scope hparams.1
    have hcalls : (param :: more).take 1 = [param] := rfl
    rw [hcalls, paramsCalls, paramsCalls, List.append_nil]
    exact hcontext.before fun context => (compileHash_settled scope hhash).map

/-- and a decorator what its arguments call. -/
theorem compileDecorator_settled (scope : Scope) (path : Path) (body : Option Child) (span : Span)
    {call : Call} (hparams : paramsProper call.params) (hhash : hashProper call.hash) :
    Settled scope.options True call.decoratorCalls
      (compileDecorator scope path body span call) := by
  unfold compileDecorator
  exact (compileHash_settled scope hhash).before fun entries =>
    (compileArguments_settled scope hparams).map

/-! ## Programs -/

mutual

/-- A statement settles all calls in it, -/
theorem compileStatement_settled (scope : Scope) (next : Nat) {s : Statement} (hs : s.Proper)
    (hinside : ∀ q ∈ s.programs, ∀ s ∈ q.body, s.Proper) :
    Settled scope.options (s.PartialFits ∧ ∀ q ∈ s.programs, ∀ s ∈ q.body, s.PartialFits)
      (s.helperCalls scope.params) (compileStatement scope next s) := by
  match s with
  | .content _ | .comment _ _ _ =>
    rw [compileStatement]
    exact (Settled.ok _).congr (Statement.partialFits_bare rfl rfl) fun _ => Iff.rfl
  | .mustache call _ _ span =>
    rw [compileStatement]
    exact ((compileInvocation_settled scope none span hs).map).congr
      (Statement.partialFits_bare rfl rfl) fun _ => Iff.rfl
  | .block call main inverse _ span =>
    -- names that were read are paths or literals, so the first step does not fail
    obtain ⟨path, hpath, -⟩ := exists_calleePath hs.callee
    obtain ⟨hmain, hinverse⟩ := List.forall_mem_append.1 hinside
    rw [compileStatement, hpath]
    refine Settled.congr ?fits (fun _ => Iff.rfl)
      ((compileSection_settled scope next hmain).bind fun first _ =>
        (compileSection_settled scope _ hinverse).bind fun second _ =>
          (compileInvocation_settled scope _ span hs).map)
    rw [Statement.partialFits_of_none rfl, Statement.programs, List.forall_mem_append, and_true,
      true_and]
  | .partialCall call _ _ span =>
    rw [compileStatement]
    refine Settled.congr ?_ (fun _ => Iff.rfl) (compilePartial_settled scope _ span hs).map
    rw [Statement.partialFits_of_some rfl]
    simp [Statement.programs]
  | .partialBlock call body _ _ span =>
    rw [compileStatement]
    refine Settled.congr ?_ (fun _ => Iff.rfl)
      ((compilePartial_settled scope "" span hs).bind fun compiled _ =>
        (compileChild_settled scope next hinside).map)
    rw [Statement.partialFits_of_some rfl, Statement.programs]
  | .decorator call _ span =>
    obtain ⟨path, hpath, -⟩ := exists_calleePath hs.callee
    rw [compileStatement, hpath]
    exact ((compileDecorator_settled scope path none span hs.params hs.hash).map).congr
      (Statement.partialFits_bare rfl rfl) fun _ => Iff.rfl
  | .decoratorBlock call body _ _ span =>
    obtain ⟨path, hpath, -⟩ := exists_calleePath hs.callee
    rw [compileStatement, hpath]
    refine Settled.congr ?_ (fun _ => Iff.rfl)
      ((compileChild_settled scope next hinside).bind fun child _ =>
        (compileDecorator_settled scope path _ span hs.params hs.hash).map)
    rw [Statement.partialFits_of_none rfl, Statement.programs, and_true, true_and]

/-- a program does, -/
theorem compileChild_settled (scope : Scope) (next : Nat) {p : Program}
    (hp : ∀ q ∈ p.family, ∀ s ∈ q.body, s.Proper) :
    Settled scope.options (∀ q ∈ p.family, ∀ s ∈ q.body, s.PartialFits) (p.helperCalls scope.params)
      (compileChild scope next p) := by
  match p with
  | ⟨body, params, chained, span⟩ =>
    rw [compileChild]
    have hbody := compileStatements_settled (scope.enter params) (next + 1)
      (forall_family_iff.1 hp)
    exact (hbody.congr forall_family_iff.symm fun _ => Iff.rfl).map

/-- a section, -/
theorem compileSection_settled (scope : Scope) (next : Nat) {p : Option Program}
    (hp : ∀ q ∈ sectionPrograms p, ∀ s ∈ q.body, s.Proper) :
    Settled scope.options (∀ q ∈ sectionPrograms p, ∀ s ∈ q.body, s.PartialFits)
      (sectionCalls scope.params p) (compileSection scope next p) := by
  match p with
  | none =>
    rw [compileSection]
    exact (Settled.ok _).congr (by simp [sectionPrograms]) fun _ => Iff.rfl
  | some p =>
    rw [compileSection]
    exact compileChild_settled scope next hp

/-- and a body. -/
theorem compileStatements_settled (scope : Scope) (next : Nat) {body : List Statement}
    (hbody : RowForall Statement.Proper body) :
    Settled scope.options (RowForall Statement.PartialFits body) (bodyCalls scope.params body)
      (compileStatements scope next body) := by
  match body with
  | [] =>
    rw [compileStatements]
    exact (Settled.ok _).congr (iff_of_true trivial .nil) fun _ => Iff.rfl
  | s :: rest =>
    obtain ⟨⟨hs, hinside⟩, hrest⟩ := rowForall_cons.1 hbody
    rw [compileStatements]
    refine Settled.congr rowForall_cons.symm (fun _ => Iff.rfl) ?_
    refine (compileStatement_settled scope next hs hinside).bind fun first _ => ?_
    exact (compileStatements_settled scope _ hrest).map

end

/-- So the compiler settles all calls of a tree. -/
theorem Specification.ofProgram_settled (options : CompilerOptions) {p : Program}
    (hp : ∀ q ∈ p.family, ∀ s ∈ q.body, s.Proper) :
    Settled options (∀ q ∈ p.family, ∀ s ∈ q.body, s.PartialFits) (p.helperCalls [])
      (Specification.ofProgram options p) := by
  obtain ⟨body, params, chained, span⟩ := p
  rw [ofProgram]
  exact ((compileStatements_settled ((⟨options, []⟩ : Scope).enter params) 1
    (forall_family_iff.1 hp)).congr forall_family_iff.symm fun _ => Iff.rfl).map

end Script

/-! ## Trees -/

/-- Some call of a partial in the tree has more than one parameter. -/
def Program.HasOverfullPartial (p : Program) : Prop :=
  ∃ q ∈ p.family, ∃ s ∈ q.body, ∃ call, s.partialCall? = some call ∧ 1 < call.params.length

/-- All helpers have to be known, and one that the tree calls is not. -/
def Program.HasUnknownHelper (o : CompilerOptions) (p : Program) : Prop :=
  o.knownHelpersOnly = true ∧ ∃ c ∈ p.helperCalls [], ¬ c.IsKnown o

theorem Program.hasOverfullPartial_iff {p : Program} :
    p.HasOverfullPartial ↔ ¬ ∀ q ∈ p.family, ∀ s ∈ q.body, s.PartialFits := by
  simp [Program.HasOverfullPartial, Statement.PartialFits]

/-- What is wrong with a tree that is refused. -/
def CompileFailure.Reports (o : CompilerOptions) (p : Program) : CompileFailure → Prop
  | .partialArguments _ _ => p.HasOverfullPartial
  | .unknownHelper _ _ => p.HasUnknownHelper o
  | _ => False

open Script in
/-- **A tree that is parsed is refused** exactly if something is wrong with it, and what is reported
    is wrong. -/
theorem Template.compileUnder_refuses {text : String} {source : Option String} {standalone : Bool}
    {t : Template} (h : Template.parse text source standalone = .ok t) (o : CompilerOptions) :
    ((∃ failure, t.compileUnder o = .error failure)
        ↔ t.root.HasOverfullPartial ∨ t.root.HasUnknownHelper o)
      ∧ ∀ failure, t.compileUnder o = .error failure → failure.Reports o t.root := by
  have hsettled := Specification.ofProgram_settled o (Template.parse_proper h)
  rw [Template.compileUnder]
  -- a run that succeeds has no reason to fail, and one that fails has what it reports
  cases hrun : Specification.ofProgram o t.root with
  | ok s =>
    rw [hrun] at hsettled
    obtain ⟨hfits, hknown⟩ := hsettled
    constructor
    · constructor
      · rintro ⟨failure, hfailure⟩
        cases hfailure
      · rintro (hoverfull | ⟨honly, c, hc, hunknown⟩)
        · exact (Program.hasOverfullPartial_iff.1 hoverfull hfits).elim
        · exact (hunknown (hknown honly c hc)).elim
    · rintro failure hfailure
      cases hfailure
  | error failure =>
    rw [hrun] at hsettled
    have hreports : failure.Reports o t.root := by
      cases failure with
      | partialArguments => exact Program.hasOverfullPartial_iff.2 hsettled
      | unknownHelper =>
        obtain ⟨honly, c, hc, hunknown, -⟩ := hsettled
        exact ⟨honly, c, hc, hunknown⟩
      | parse | computedHelper | options => exact hsettled.elim
    constructor
    · refine iff_of_true ⟨failure, rfl⟩ ?_
      cases failure with
      | partialArguments => exact .inl hreports
      | unknownHelper => exact .inr hreports
      | parse | computedHelper | options => exact hreports.elim
    · rintro _ ⟨⟩
      exact hreports

end Stache
