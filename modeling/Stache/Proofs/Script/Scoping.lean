/-
  Block parameters are lexically scoped.

  A program of a tree stands in others, and these, with the program itself in front, are its
  LINEAGE.  A name is declared `depth` programs outwards if that is the first program of the lineage
  that has it among its parameters, and its index is that of its first occurrence there
  (`DeclaredAt`).  What is compared with this is where the code looks up the paths of the program's
  statements.

  1. The paths that the code of a statement looks up, in its order, can be told from the statement
     (`Statement.operandSources`, `Statement.decoratorSources`).
  2. In the scope of a lineage, each of them becomes a place that is based on the block parameter
     that its first segment names, if it is a plain path and the name is declared, and on no block
     parameter if not (`Path.LooksUp`).  One lemma for each function of the compiler: the places in
     the code are those of the paths, one for one.
  3. The functions of a specification are compiled in the scopes of the lineages of the programs
     (`Specification.ofProgram_scoped`).  A block is a statement of the program around it, so its
     arguments are looked up in a lineage that its own sections are not part of.
-/
import Stache.Proofs.Nesting.Declared
import Stache.Proofs.Script.Generator
import Stache.Proofs.Script.Refusals

namespace Stache

/-! ## Lineages -/

mutual

/-- The lineages of the programs in a statement of a program with the lineage `outer`, in the order
    of their numbers. -/
def Statement.lineages (outer : List Program) : Statement → List (List Program)
  | .block _ main inverse _ _ => sectionLineages outer main ++ sectionLineages outer inverse
  | .partialBlock _ body _ _ _ | .decoratorBlock _ body _ _ _ => body.lineages outer
  | .content _ | .comment _ _ _ | .mustache _ _ _ _ | .partialCall _ _ _ _ | .decorator _ _ _ => []

/-- The lineages of a program and of those in it, in the order of the programs; -/
def Program.lineages (outer : List Program) : Program → List (List Program)
  | ⟨body, params, chained, span⟩ =>
    (⟨body, params, chained, span⟩ :: outer)
      :: bodyLineages (⟨body, params, chained, span⟩ :: outer) body

/-- those in a section, -/
def sectionLineages (outer : List Program) : Option Program → List (List Program)
  | none => []
  | some p => p.lineages outer

/-- and those in a body. -/
def bodyLineages (outer : List Program) : List Statement → List (List Program)
  | [] => []
  | s :: rest => s.lineages outer ++ bodyLineages outer rest

end

mutual

/-- Each program has its lineage: in a statement, -/
theorem Statement.map_head?_lineages (outer : List Program) (s : Statement) :
    (s.lineages outer).map List.head? = s.programs.map some := by
  match s with
  | .content _ | .comment _ _ _ | .mustache _ _ _ _ | .partialCall _ _ _ _ | .decorator _ _ _ => rfl
  | .block _ main inverse _ _ =>
    rw [Statement.lineages, Statement.programs, List.map_append, List.map_append,
      sectionLineages_map_head? outer main, sectionLineages_map_head? outer inverse]
  | .partialBlock _ body _ _ _ | .decoratorBlock _ body _ _ _ =>
    exact body.map_head?_lineages outer

/-- There is one lineage for each program. -/
theorem Program.map_head?_lineages (outer : List Program) (p : Program) :
    (p.lineages outer).map List.head? = p.family.map some := by
  match p with
  | ⟨body, params, chained, span⟩ =>
    rw [Program.lineages, Program.family, List.map_cons, List.map_cons,
      bodyLineages_map_head? _ body]
    rfl

/-- in a section, -/
theorem sectionLineages_map_head? (outer : List Program) (p : Option Program) :
    (sectionLineages outer p).map List.head? = (sectionPrograms p).map some := by
  match p with
  | none => rfl
  | some p => exact p.map_head?_lineages outer

/-- and in a body. -/
theorem bodyLineages_map_head? (outer : List Program) (body : List Statement) :
    (bodyLineages outer body).map List.head? = (bodyPrograms body).map some := by
  match body with
  | [] => rfl
  | s :: rest =>
    rw [bodyLineages, bodyPrograms, List.map_append, List.map_append,
      s.map_head?_lineages outer, bodyLineages_map_head? outer rest]

end

/-- The program is a section of a statement of the other. -/
def Program.Within (p outer : Program) : Prop := ∃ s ∈ outer.body, p ∈ s.sections

mutual

/-- Each program of a lineage stands in the next: from a statement, -/
theorem Statement.isChain_lineages {outer : List Program} {s : Statement}
    (h : ∀ p ∈ s.sections, (p :: outer).IsChain Program.Within) :
    ∀ lineage ∈ s.lineages outer, lineage.IsChain Program.Within := by
  match s with
  | .content _ | .comment _ _ _ | .mustache _ _ _ _ | .partialCall _ _ _ _ | .decorator _ _ _ =>
    exact List.forall_mem_nil _
  | .block _ main inverse _ _ =>
    obtain ⟨hmain, hinverse⟩ := List.forall_mem_append.1 h
    exact List.forall_mem_append.2
      ⟨isChain_sectionLineages hmain, isChain_sectionLineages hinverse⟩
  | .partialBlock _ body _ _ _ | .decoratorBlock _ body _ _ _ =>
    exact Program.isChain_lineages (h body (List.mem_singleton_self body))

/-- **A lineage leads outwards**: each program in it is a section of a statement of the next. -/
theorem Program.isChain_lineages {outer : List Program} {p : Program}
    (h : (p :: outer).IsChain Program.Within) :
    ∀ lineage ∈ p.lineages outer, lineage.IsChain Program.Within := by
  match p with
  | ⟨body, params, chained, span⟩ =>
    refine List.forall_mem_cons.2 ⟨h, isChain_bodyLineages ?_⟩
    intro s hs q hq
    exact .cons_cons ⟨s, hs, hq⟩ h

/-- a section, -/
theorem isChain_sectionLineages {outer : List Program} {p : Option Program}
    (h : ∀ q ∈ p.toList, (q :: outer).IsChain Program.Within) :
    ∀ lineage ∈ sectionLineages outer p, lineage.IsChain Program.Within := by
  match p with
  | none => exact List.forall_mem_nil _
  | some p => exact Program.isChain_lineages (h p (List.mem_singleton_self p))

/-- or a body. -/
theorem isChain_bodyLineages {outer : List Program} {body : List Statement}
    (h : ∀ s ∈ body, ∀ p ∈ s.sections, (p :: outer).IsChain Program.Within) :
    ∀ lineage ∈ bodyLineages outer body, lineage.IsChain Program.Within := by
  match body with
  | [] => exact List.forall_mem_nil _
  | s :: rest =>
    obtain ⟨hs, hrest⟩ := List.forall_mem_cons.1 h
    exact List.forall_mem_append.2 ⟨Statement.isChain_lineages hs, isChain_bodyLineages hrest⟩

end

/-! ## Declarations -/

/-- The program that is `depth` levels outwards declares the name, for the first time at `index`,
    and no program further inwards does. -/
structure DeclaredAt (lineage : List Program) (name : String) (depth index : Nat) : Prop where
  declares : ∃ p, lineage[depth]? = some p ∧ p.blockParams[index]? = some name
    ∧ name ∉ p.blockParams.take index
  innermost : ∀ p ∈ lineage.take depth, name ∉ p.blockParams

/-! ## Paths -/

/-- The path starts with a name in hand: it has no at sign, and no step in front. -/
def Path.IsPlain (p : Path) : Prop := p.data = false ∧ p.depth = 0 ∧ p.thisScoped = false

/-- The first name of the path is declared there. -/
def Path.DeclaredAt (lineage : List Program) (p : Path) (depth index : Nat) : Prop :=
  ∃ name, p.parts.head? = some name ∧ Stache.DeclaredAt lineage name depth index

/-- Where a path is looked up, if these are the programs around it. -/
structure Path.LooksUp (lineage : List Program) (p : Path) (place : Script.Place) : Prop where
  declared : ∀ depth index, place.base = .blockParam depth index
    ↔ p.IsPlain ∧ p.DeclaredAt lineage depth index
  free : p.IsPlain → (∀ name, p.parts.head? = some name → ∀ q ∈ lineage, name ∉ q.blockParams)
    → place.base = .context
  /-- The name of a block parameter is no property to follow. -/
  parts : place.parts
    = match place.base with
      | .blockParam _ _ => p.parts.drop 1
      | _ => p.parts

/-! ## Paths of a call -/

instance (o : CompilerOptions) (name : String) : Decidable (o.Knows name) :=
  inferInstanceAs (Decidable (_ ∨ _ ∧ _))

instance (o : CompilerOptions) (c : Call) : Decidable (c.IsKnown o) :=
  decidable_of_iff (∃ name ∈ c.callee.singleName?, o.Knows name) Iff.rfl

open Script in
/-- The path that an expression is called by. -/
def Expression.calleePaths (e : Expression) : List Path :=
  match calleePath e with
  | .ok p => [p]
  | .error _ => []

mutual

/-- The paths that are looked up for the value of an expression. -/
def Expression.sources (o : CompilerOptions) : Expression → List Path
  | .path p => [p]
  | .subexpression call _ => call.sources o
  | .string _ _ _ | .number _ _ | .boolean _ _ | .undefined _ | .null _ => []

/-- The paths that are looked up for a call of a helper. A known helper is not. -/
def Call.sources (o : CompilerOptions) : Call → List Path
  | ⟨callee, params, hash⟩ =>
    (if Call.IsKnown o ⟨callee, params, hash⟩ then [] else callee.calleePaths)
      ++ paramsSources o params ++ hashSources o hash

/-- The paths in parameters, -/
def paramsSources (o : CompilerOptions) : List Expression → List Path
  | [] => []
  | e :: rest => e.sources o ++ paramsSources o rest

/-- in a hash, -/
def hashSources (o : CompilerOptions) : Option Hash → List Path
  | none => []
  | some ⟨pairs, _⟩ => pairsSources o pairs

/-- and in its pairs. -/
def pairsSources (o : CompilerOptions) : List Pair → List Path
  | [] => []
  | ⟨_, value, _⟩ :: rest => value.sources o ++ pairsSources o rest

end

theorem Call.sources_bare {o : CompilerOptions} {c : Call} (hargs : c.hasArguments = false)
    (h : ¬ c.IsKnown o) : c.sources o = c.callee.calleePaths := by
  obtain ⟨callee, params, hash⟩ := c
  obtain ⟨rfl, rfl⟩ : params = [] ∧ hash = none := by
    simpa [Call.hasArguments] using hargs
  rw [Call.sources, if_neg h, paramsSources, hashSources, List.append_nil, List.append_nil]

/-- The paths that are looked up for a mustache or a block. A block parameter is not called, and its
    arguments are not looked at. -/
def Call.invokedSources (o : CompilerOptions) (lineage : List Program) (c : Call) : List Path :=
  if c.callee.isBound (lineage.map (·.blockParams)) then c.callee.calleePaths else c.sources o

/-- The paths that are looked up for a partial: for its name, if that is computed, for its context
    and for its hash.  Without a parameter, the context is the one in hand. -/
def Call.partialSources (o : CompilerOptions) (c : Call) : List (Option Path) :=
  (match c.callee with
    | .subexpression call _ => (call.sources o).map some
    | _ => [])
    ++ (match c.params with
      | [] => [none]
      | param :: _ => (param.sources o).map some)
    ++ (hashSources o c.hash).map some

/-- The paths that are looked up in the operands of a statement of the program with this lineage. -/
def Statement.operandSources (o : CompilerOptions) (lineage : List Program) :
    Statement → List (Option Path)
  | .mustache call _ _ _ | .block call _ _ _ _ => (call.invokedSources o lineage).map some
  | .partialCall call _ _ _ | .partialBlock call _ _ _ _ => call.partialSources o
  | .content _ | .comment _ _ _ | .decorator _ _ _ | .decoratorBlock _ _ _ _ _ => []

/-- The paths that are looked up in the decorator of a statement. -/
def Statement.decoratorSources (o : CompilerOptions) : Statement → List Path
  | .decorator call _ _ | .decoratorBlock call _ _ _ _ =>
    hashSources o call.hash ++ paramsSources o call.params
  | _ => []

namespace Script

/-! ## Places in code -/

/-- Where a callee is looked up, if it is not known, -/
def Callee.places : Callee → List Place
  | .known _ => []
  | .unknown _ place => [place]

mutual

/-- The places that code looks at, in its order. -/
def Code.places : Code → List Place
  | .place place => [place]
  | .helper callee args options => callee.places ++ argsPlaces args ++ options.places
  | .string _ | .number _ | .boolean _ | .undefined | .null => []

/-- where arguments are, -/
def argsPlaces : List Code → List Place
  | [] => []
  | code :: rest => code.places ++ argsPlaces rest

/-- options, -/
def Options.places : Options → List Place
  | ⟨_, hash, _, _⟩ => entriesPlaces hash

/-- entries, -/
def entriesPlaces : List Entry → List Place
  | [] => []
  | ⟨_, value⟩ :: rest => value.places ++ entriesPlaces rest

end

/-- whatever is called, -/
def Mode.places : Mode → List Place
  | .helper callee args => callee.places ++ argsPlaces args
  | .either place | .plain place => [place]

/-- with its options, -/
def Invocation.places (i : Invocation) : List Place := i.mode.places ++ i.options.places

/-- the name of a partial, -/
def Target.places : Target → List Place
  | .named _ | .enclosing => []
  | .computed name => name.places

/-- its call, -/
def PartialCall.places (p : PartialCall) : List Place :=
  p.target.places ++ p.context.places ++ entriesPlaces (p.hash.getD [])

/-- an operand, -/
def Operand.places : Operand → List Place
  | .text _ => []
  | .mustache _ invocation | .block invocation => invocation.places
  | .partialCall call => call.places

/-- and a decorator. -/
def Decorator.places (d : Decorator) : List Place := entriesPlaces d.hash ++ argsPlaces d.args

/-! ## Finding a parameter -/

/-- The scope of a lineage. -/
def Scope.of (options : CompilerOptions) (lineage : List Program) : Scope :=
  ⟨options, lineage.map (·.blockParams)⟩

/-- The first place of a name in a row. -/
theorem findIdx?_eq_some_iff {names : List String} {name : String} {index : Nat} :
    names.findIdx? (· = name) = some index
      ↔ names[index]? = some name ∧ name ∉ names.take index := by
  rw [List.findIdx?_eq_some_iff_getElem, List.getElem?_eq_some_iff, List.mem_take_iff_getElem]
  constructor
  · rintro ⟨hindex, hname, hfirst⟩
    refine ⟨⟨hindex, of_decide_eq_true hname⟩, ?_⟩
    rintro ⟨j, hj, hbefore⟩
    exact hfirst j (Nat.lt_of_lt_of_le hj (Nat.min_le_left _ _)) (decide_eq_true hbefore)
  · rintro ⟨⟨hindex, hname⟩, hfirst⟩
    refine ⟨hindex, decide_eq_true hname, fun j hj hbefore => hfirst ?_⟩
    exact ⟨j, Nat.lt_min.2 ⟨hj, hj.trans hindex⟩, of_decide_eq_true hbefore⟩

/-- A name is declared by the innermost program, -/
theorem declaredAt_cons_zero {p : Program} {outer : List Program} {name : String} {index : Nat} :
    DeclaredAt (p :: outer) name 0 index
      ↔ p.blockParams[index]? = some name ∧ name ∉ p.blockParams.take index := by
  constructor
  · rintro ⟨⟨q, hq, hname, hfirst⟩, -⟩
    cases hq
    exact ⟨hname, hfirst⟩
  · rintro ⟨hname, hfirst⟩
    exact ⟨⟨p, rfl, hname, hfirst⟩, List.forall_mem_nil _⟩

/-- or further out if that does not have it. -/
theorem declaredAt_cons_succ {p : Program} {outer : List Program} {name : String}
    {depth index : Nat} :
    DeclaredAt (p :: outer) name (depth + 1) index
      ↔ name ∉ p.blockParams ∧ DeclaredAt outer name depth index := by
  constructor
  · rintro ⟨hdeclares, hinner⟩
    obtain ⟨hhead, htail⟩ := List.forall_mem_cons.1 hinner
    exact ⟨hhead, hdeclares, htail⟩
  · rintro ⟨hhead, hdeclares, htail⟩
    exact ⟨hdeclares, List.forall_mem_cons.2 ⟨hhead, htail⟩⟩

/-- **What is found is the innermost declaration**, at its first index. -/
theorem findParam_eq_some_iff {lineage : List Program} {name : String} {depth index : Nat} :
    findParam name (lineage.map (·.blockParams)) = some (depth, index)
      ↔ DeclaredAt lineage name depth index := by
  induction lineage generalizing depth with
  | nil => exact iff_of_false nofun fun h => by obtain ⟨⟨p, hp, -⟩, -⟩ := h; cases hp
  | cons p outer ih =>
    rw [List.map_cons, findParam]
    -- the innermost block that declares the name wins, and there its first place
    cases hfound : p.blockParams.findIdx? (· = name) with
    | some first =>
      obtain ⟨hname, hfirst⟩ := findIdx?_eq_some_iff.1 hfound
      cases depth with
      | zero =>
        rw [declaredAt_cons_zero, ← findIdx?_eq_some_iff, hfound]
        simp
      | succ depth =>
        refine iff_of_false (by simp) fun h => ?_
        exact (declaredAt_cons_succ.1 h).1 (List.mem_of_getElem? hname)
    | none =>
      cases depth with
      | zero =>
        rw [declaredAt_cons_zero, ← findIdx?_eq_some_iff, hfound]
        simp
      | succ depth =>
        have hhead : name ∉ p.blockParams := by
          rw [List.findIdx?_eq_none_iff] at hfound
          exact fun hmem => of_decide_eq_false (hfound name hmem) rfl
        rw [declaredAt_cons_succ, ← ih]
        simp [hhead]

/-- It is declared if any program around has it. -/
theorem exists_declaredAt {lineage : List Program} {name : String} :
    (∃ depth index, DeclaredAt lineage name depth index)
      ↔ ∃ p ∈ lineage, name ∈ p.blockParams := by
  have hsome := isSome_findParam name (lineage.map (·.blockParams))
  rw [Bool.eq_iff_iff, Option.isSome_iff_exists] at hsome
  simp only [Prod.exists, findParam_eq_some_iff] at hsome
  rw [hsome]
  simp

/-- A path that is not plain starts at no block parameter. -/
theorem looksUp_of_not_plain {lineage : List Program} {p : Path} {base : Base} (h : ¬ p.IsPlain)
    (hbase : ∀ depth index, base ≠ .blockParam depth index) :
    p.LooksUp lineage ⟨base, p.parts⟩ := by
  refine ⟨fun depth index => iff_of_false (hbase depth index) fun hplain => h hplain.1,
    fun hplain => (h hplain).elim, ?_⟩
  cases base with
  | blockParam depth index => exact (hbase depth index rfl).elim
  | context | data | ancestor => rfl

/-- **A path is looked up** where the programs around it say. -/
theorem Scope.looksUp_resolve (options : CompilerOptions) (lineage : List Program) (p : Path) :
    p.LooksUp lineage ((Scope.of options lineage).resolve p) := by
  unfold Scope.resolve
  by_cases hdata : p.data = true
  · rw [if_pos hdata]
    exact looksUp_of_not_plain (fun h => by simp [h.1] at hdata) (fun _ _ => nofun)
  rw [if_neg hdata]
  by_cases hup : 0 < p.depth
  · rw [if_pos hup]
    exact looksUp_of_not_plain (fun h => by simp [h.2.1] at hup) (fun _ _ => nofun)
  rw [if_neg hup]
  by_cases hthis : p.thisScoped = true
  · have hnone : (Scope.of options lineage).paramOf p = none := by
      unfold Scope.paramOf
      cases p.parts <;> simp [hthis]
    rw [hnone]
    exact looksUp_of_not_plain (fun h => by simp [h.2.2] at hthis) (fun _ _ => nofun)
  -- what is left is a plain path, which a block may have declared
  have hplain : p.IsPlain :=
    ⟨eq_false_of_ne_true hdata, Nat.eq_zero_of_not_pos hup,
      eq_false_of_ne_true hthis⟩
  have hparam (depth index : Nat) : (Scope.of options lineage).paramOf p = some (depth, index)
      ↔ p.DeclaredAt lineage depth index := by
    unfold Scope.paramOf Path.DeclaredAt
    cases p.parts with
    | nil => simp
    | cons first rest => simp [hdata, hup, hthis, ← findParam_eq_some_iff, Scope.of]
  cases hfound : (Scope.of options lineage).paramOf p with
  | some found =>
    obtain ⟨depth, index⟩ := found
    refine ⟨fun d i => ?_, fun _ hnone => ?_, rfl⟩
    · rw [← hparam, hfound]
      simp [hplain]
    · obtain ⟨name, hname, hdeclared⟩ := (hparam depth index).1 hfound
      obtain ⟨q, hq, hmem⟩ := exists_declaredAt.1 ⟨depth, index, hdeclared⟩
      exact (hnone name hname q hq hmem).elim
  | none =>
    refine ⟨fun d i => ?_, fun _ _ => rfl, rfl⟩
    rw [← hparam, hfound]
    simp

/-! ## Arguments -/

section Lineage

variable {options : CompilerOptions} {lineage : List Program}

theorem isName_of_calleePath {e : Expression} {path : Path} (h : calleePath e = .ok path) :
    e.IsName := by
  cases e with
  | subexpression => cases h
  | path | string | number | boolean | undefined | null => trivial

/-- The callee is looked up unless it is known. -/
theorem calleeOf_places {call : Call} {path : Path} (hpath : calleePath call.callee = .ok path)
    {span : Span} {callee : Callee}
    (h : (Scope.of options lineage).calleeOf path span = .ok callee) :
    List.Forall₂ (Path.LooksUp lineage)
      (if call.IsKnown options then [] else call.callee.calleePaths) callee.places := by
  obtain ⟨p, hp, -, -, hsingle⟩ := exists_calleePath (isName_of_calleePath hpath)
  cases hpath.symm.trans hp
  have hknown : call.IsKnown (Scope.of options lineage).options
      ↔ (path.isSimple && (Scope.of options lineage).knows path.head) = true :=
    isKnown_iff hsingle
  rw [Scope.calleeOf] at h
  by_cases hk : call.IsKnown options
  · rw [if_pos (hknown.1 hk)] at h
    cases h
    rw [if_pos hk]
    exact .nil
  · rw [if_neg fun h => hk (hknown.2 h)] at h
    split at h
    · cases h
    cases h
    rw [if_neg hk, Expression.calleePaths, hpath]
    exact .cons (Scope.looksUp_resolve options lineage path) .nil

mutual

/-- **The places in the code are those of the paths**: in an argument, -/
theorem compileArgument_places {e : Expression} {code : Code}
    (h : compileArgument (Scope.of options lineage) e = .ok code) :
    List.Forall₂ (Path.LooksUp lineage) (e.sources options) code.places := by
  match e with
  | .path p =>
    rw [compileArgument] at h
    cases h
    exact .cons (Scope.looksUp_resolve options lineage p) .nil
  | .subexpression call span =>
    obtain ⟨path, callee, args, given, hpath, hcall, rfl⟩ := compileArgument_subexpression h
    exact compileCall_places hpath hcall
  | .string _ _ _ | .number _ _ | .boolean _ _ | .undefined _ | .null _ =>
    rw [compileArgument] at h
    cases h
    exact .nil

/-- a call, -/
theorem compileCall_places {call : Call} {path : Path}
    (hpath : calleePath call.callee = .ok path) {sections : Option Sections} {span : Span}
    {callee : Callee} {args : List Code} {given : Options}
    (h : compileCall (Scope.of options lineage) path sections span call
      = .ok (callee, args, given)) :
    List.Forall₂ (Path.LooksUp lineage) (call.sources options)
      (callee.places ++ argsPlaces args ++ given.places) := by
  match call with
  | ⟨name, params, hash⟩ =>
    obtain ⟨hcallee, hargs, entries, hentries, rfl⟩ := compileCall_parts h
    rw [Call.sources, Options.places]
    exact List.rel_append (List.rel_append (calleeOf_places hpath hcallee)
      (compileArguments_places hargs)) (compileHash_places hentries)

/-- parameters, -/
theorem compileArguments_places {params : List Expression} {codes : List Code}
    (h : compileArguments (Scope.of options lineage) params = .ok codes) :
    List.Forall₂ (Path.LooksUp lineage) (paramsSources options params) (argsPlaces codes) := by
  match params with
  | [] =>
    rw [compileArguments] at h
    cases h
    exact .nil
  | e :: rest =>
    obtain ⟨code, codes, hcode, hcodes, rfl⟩ := compileArguments_cons h
    rw [paramsSources, argsPlaces]
    exact List.rel_append (compileArgument_places hcode) (compileArguments_places hcodes)

/-- a hash, -/
theorem compileHash_places {hash : Option Hash} {entries : List Entry}
    (h : compileHash (Scope.of options lineage) hash = .ok entries) :
    List.Forall₂ (Path.LooksUp lineage) (hashSources options hash) (entriesPlaces entries) := by
  match hash with
  | none =>
    rw [compileHash] at h
    cases h
    exact .nil
  | some ⟨pairs, _⟩ =>
    rw [compileHash] at h
    exact compilePairs_places h

/-- and its pairs. -/
theorem compilePairs_places {pairs : List Pair} {entries : List Entry}
    (h : compilePairs (Scope.of options lineage) pairs = .ok entries) :
    List.Forall₂ (Path.LooksUp lineage) (pairsSources options pairs) (entriesPlaces entries) := by
  match pairs with
  | [] =>
    rw [compilePairs] at h
    cases h
    exact .nil
  | ⟨key, value, _⟩ :: rest =>
    obtain ⟨code, entries, hcode, hentries, rfl⟩ := compilePairs_cons h
    rw [pairsSources, entriesPlaces]
    exact List.rel_append (compileArgument_places hcode) (compilePairs_places hentries)

end

/-! ## Tags -/

/-- A mustache or a block, whatever it calls. -/
theorem compileInvocation_places {sections : Option Sections} {span : Span} {call : Call}
    {i : Invocation}
    (h : compileInvocation (Scope.of options lineage) sections span call = .ok i) :
    List.Forall₂ (Path.LooksUp lineage) (call.invokedSources options lineage) i.places := by
  rw [compileInvocation] at h
  obtain ⟨path, hpath, h⟩ := exists_of_bind_ok h
  obtain ⟨p, hp, hdata, -, hsingle⟩ := exists_calleePath (isName_of_calleePath hpath)
  cases hpath.symm.trans hp
  have hpaths : call.callee.calleePaths = [path] := by
    rw [Expression.calleePaths, hpath]
  have hone (name : String) : List.Forall₂ (Path.LooksUp lineage) call.callee.calleePaths
      ([(Scope.of options lineage).resolve path] ++ Options.places ⟨name, [], sections, span⟩) := by
    rw [hpaths]
    exact .cons (Scope.looksUp_resolve options lineage path) .nil
  have hknown : call.IsKnown (Scope.of options lineage).options
      ↔ (path.isSimple && (Scope.of options lineage).knows path.head) = true :=
    isKnown_iff hsingle
  -- the name is a parameter, a helper, either, or a plain path
  have hkind : (Scope.of options lineage).kindOf path call.hasArguments
      = if call.callee.isBound (lineage.map (·.blockParams)) then .plain
        else if call.hasArguments || (path.isSimple && (Scope.of options lineage).knows path.head)
          then .helper
        else if path.isSimple && !options.knownHelpersOnly then .either
        else .plain := by
    rw [isBound_eq hdata hsingle]
    rfl
  rw [hkind] at h
  unfold Call.invokedSources
  split
  · rename_i hbound
    rw [if_pos hbound] at h
    cases h
    exact hone _
  · rename_i hbound
    rw [if_neg hbound] at h
    by_cases hhelper : call.hasArguments = true ∨ call.IsKnown options
    · rw [if_pos (by rwa [Bool.or_eq_true, ← hknown])] at h
      obtain ⟨⟨callee, args, given⟩, hcall, h⟩ := exists_of_bind_ok h
      cases h
      exact compileCall_places hpath hcall
    · rw [if_neg (by rwa [Bool.or_eq_true, ← hknown])] at h
      obtain ⟨hargs, hunknown⟩ := not_or.1 hhelper
      rw [Call.sources_bare (eq_false_of_ne_true hargs) hunknown]
      cases heither : path.isSimple && !options.knownHelpersOnly with
      | true =>
        rw [heither] at h
        cases h
        exact hone _
      | false =>
        rw [heither] at h
        cases h
        exact hone _

/-- The same for a path, and for the context in hand, which needs none. -/
def LooksUpOr (lineage : List Program) : Option Path → Place → Prop
  | none, place => place = ⟨.context, []⟩
  | some p, place => p.LooksUp lineage place

theorem looksUpOr_map {paths : List Path} {places : List Place}
    (h : List.Forall₂ (Path.LooksUp lineage) paths places) :
    List.Forall₂ (LooksUpOr lineage) (paths.map some) places :=
  List.forall₂_map_left_iff.2 h

/-- So it is with a partial, but for a context of its own, -/
theorem compilePartial_places {indent : String} {span : Span} {call : Call} {p : PartialCall}
    (h : compilePartial (Scope.of options lineage) indent span call = .ok p) :
    List.Forall₂ (LooksUpOr lineage) (call.partialSources options) p.places := by
  obtain ⟨htarget, hcontext, ⟨entries, hentries, hhash⟩, -, -⟩ := compilePartial_of h
  obtain ⟨callee, params, hash⟩ := call
  refine List.rel_append (List.rel_append ?target ?context) (looksUpOr_map ?hash)
  case target =>
    generalize p.target = target at htarget
    cases htarget with
    | enclosing | path => exact .nil
    | computed hcode => exact looksUpOr_map (compileArgument_places hcode)
    | literal hpath hcall =>
      cases callee with
      | subexpression call span => exact (hcall call span rfl).elim
      | path | string | number | boolean | undefined | null => exact .nil
  -- without an argument, the context itself is passed on
  case context =>
    obtain ⟨hparams, hcontext⟩ | ⟨param, hparams, hcontext⟩ := hcontext
    · cases hparams
      rw [hcontext]
      exact .cons rfl .nil
    · cases hparams
      exact looksUpOr_map (compileArgument_places hcontext)
  case hash =>
    have hplaces := compileHash_places hentries
    rw [hhash]
    cases hash with
    | none =>
      cases hentries
      exact hplaces
    | some hash => exact hplaces

/-- and with a decorator. -/
theorem compileDecorator_places {path : Path} {body : Option Child} {span : Span} {call : Call}
    {d : Decorator}
    (h : compileDecorator (Scope.of options lineage) path body span call = .ok d) :
    List.Forall₂ (Path.LooksUp lineage) (hashSources options call.hash
      ++ paramsSources options call.params) d.places := by
  obtain ⟨entries, args, hentries, hargs, rfl⟩ := compileDecorator_parts h
  exact List.rel_append (compileHash_places hentries) (compileArguments_places hargs)

/-! ## Functions -/

/-- What the pieces of some statements look up is what these ask for. -/
structure Pieces.Scoped (options : CompilerOptions) (lineage : List Program)
    (body : List Statement) (pieces : Pieces) : Prop where
  operands : List.Forall₂ (LooksUpOr lineage)
    (body.flatMap (Statement.operandSources options lineage))
    (pieces.operands.flatMap (·.value.places))
  decorators : List.Forall₂ (Path.LooksUp lineage)
    (body.flatMap (Statement.decoratorSources options))
    (pieces.decorators.flatMap (·.value.places))

/-- Pieces in scope, behind each other. -/
theorem Pieces.Scoped.append {s : Statement} {rest : List Statement} {first more : Pieces}
    (hfirst : first.Scoped options lineage [s]) (hmore : more.Scoped options lineage rest) :
    (first.append more).Scoped options lineage (s :: rest) := by
  constructor
  · rw [← List.singleton_append, List.flatMap_append, Pieces.append, List.flatMap_append]
    exact List.rel_append hfirst.operands hmore.operands
  · rw [← List.singleton_append, List.flatMap_append, Pieces.append, List.flatMap_append]
    exact List.rel_append hfirst.decorators hmore.decorators

/-- One operand for a statement. -/
theorem Pieces.Scoped.operand {s : Statement} {operand : Operand} {origin : Position}
    {programs : List Function} (hnone : s.decoratorSources options = [])
    (h : List.Forall₂ (LooksUpOr lineage) (s.operandSources options lineage) operand.places) :
    Pieces.Scoped options lineage [s] ⟨[⟨operand, origin⟩], [], programs⟩ := by
  constructor
  · rwa [List.flatMap_singleton, List.flatMap_singleton]
  · rw [List.flatMap_singleton, hnone]
    exact .nil

/-- One decorator. -/
theorem Pieces.Scoped.decorator {s : Statement} {d : Decorator} {origin : Position}
    {programs : List Function} (hnone : s.operandSources options lineage = [])
    (h : List.Forall₂ (Path.LooksUp lineage) (s.decoratorSources options) d.places) :
    Pieces.Scoped options lineage [s] ⟨[], [⟨d, origin⟩], programs⟩ := by
  constructor
  · rw [List.flatMap_singleton, hnone]
    exact .nil
  · rwa [List.flatMap_singleton, List.flatMap_singleton]

/-- What a statement is compiled to is in scope, -/
theorem Compiles.scoped {next : Nat} {s : Statement} {pieces : Pieces}
    (h : Compiles (Scope.of options lineage) next s pieces) :
    pieces.Scoped options lineage [s] := by
  cases h with
  | content c =>
    refine ⟨?_, .nil⟩
    dsimp only
    split <;> exact .nil
  | comment => exact ⟨.nil, .nil⟩
  | mustache hi => exact .operand rfl (looksUpOr_map (compileInvocation_places hi))
  | block _ _ hi => exact .operand rfl (looksUpOr_map (compileInvocation_places hi))
  | partialCall hp =>
    rename_i call indent strip span p
    have hcall := compilePartial_places hp
    -- the indent before a partial looks nothing up
    have hindent : (if (Scope.of options lineage).options.preventIndent
        then indentOperand indent span.start else []).flatMap (·.value.places) = [] := by
      refine List.flatMap_eq_nil_iff.2 fun o ho => ?_
      obtain ⟨text, htext⟩ := exists_text_of_mem_indent ho
      rw [htext]
      rfl
    refine ⟨?_, .nil⟩
    rwa [List.flatMap_singleton, List.flatMap_append, hindent, List.nil_append,
      List.flatMap_singleton]
  | partialBlock hp _ =>
    have hcall := compilePartial_places hp
    exact .operand rfl hcall
  | decorator _ hd => exact .decorator rfl (compileDecorator_places hd)
  | decoratorBlock _ _ hd => exact .decorator rfl (compileDecorator_places hd)

/-- and so is a body. -/
theorem compileStatements_scoped {next : Nat} {body : List Statement} {pieces : Pieces}
    (h : compileStatements (Scope.of options lineage) next body = .ok pieces) :
    pieces.Scoped options lineage body := by
  refine compileStatements_induction (P := fun body pieces => pieces.Scoped options lineage body)
    ⟨.nil, .nil⟩ ?_ h
  intro _ _ _ _ _ hfirst hmore
  exact hfirst.scoped.append hmore

end Lineage

/-- The function is what the program at the head of the lineage is compiled to, in the scope of the
    lineage. -/
def Function.CompiledAt (options : CompilerOptions) (fn : Function) (lineage : List Program) :
    Prop :=
  ∃ p next pieces, lineage.head? = some p
    ∧ compileStatements (Scope.of options lineage) next p.body = .ok pieces
    ∧ fn = pieces.function p.span

/-- The function looks up what the statements of a program ask for, each path where the programs of
    the lineage say. -/
def Function.Scoped (options : CompilerOptions) (fn : Function) (lineage : List Program) : Prop :=
  ∃ p, lineage.head? = some p
    ∧ List.Forall₂ (LooksUpOr lineage) (p.body.flatMap (Statement.operandSources options lineage))
      (fn.operands.flatMap (·.value.places))
    ∧ List.Forall₂ (Path.LooksUp lineage) (p.body.flatMap (Statement.decoratorSources options))
      (fn.decorators.flatMap (·.value.places))

theorem Function.CompiledAt.scoped {options : CompilerOptions} {fn : Function}
    {lineage : List Program} (h : fn.CompiledAt options lineage) : fn.Scoped options lineage := by
  obtain ⟨p, next, pieces, hp, hpieces, rfl⟩ := h
  have hscoped := compileStatements_scoped hpieces
  exact ⟨p, hp, hscoped.operands, hscoped.decorators⟩

section Programs

variable {options : CompilerOptions}

mutual

/-- Programs are compiled in their lineages: those in a statement, -/
theorem compileStatement_lineages {outer : List Program} {next : Nat} {s : Statement}
    {pieces : Pieces} (h : compileStatement (Scope.of options outer) next s = .ok pieces) :
    List.Forall₂ (Function.CompiledAt options) pieces.programs (s.lineages outer) := by
  match s, compileStatement_compiles h with
  | .content _, .content _ | .comment _ _ _, .comment _ _ _ | .mustache _ _ _ _, .mustache _
  | .partialCall _ _ _ _, .partialCall _ | .decorator _ _ _, .decorator _ _ => exact .nil
  | .block _ main inverse _ _, .block hmain hinverse _ =>
    exact List.rel_append (compileSection_lineages hmain) (compileSection_lineages hinverse)
  | .partialBlock _ body _ _ _, .partialBlock _ hbody
  | .decoratorBlock _ body _ _ _, .decoratorBlock _ hbody _ =>
    exact compileChild_lineages hbody

/-- in a program, -/
theorem compileChild_lineages {outer : List Program} {next : Nat} {p : Program} {child : Child}
    {functions : List Function}
    (h : compileChild (Scope.of options outer) next p = .ok (child, functions)) :
    List.Forall₂ (Function.CompiledAt options) functions (p.lineages outer) := by
  match p with
  | ⟨body, params, chained, span⟩ =>
    obtain ⟨pieces, hpieces, rfl, rfl⟩ := compileChild_parts h
    -- Inside, the program is the first of the lineage.
    have hinner : (Scope.of options outer).enter params
        = Scope.of options (⟨body, params, chained, span⟩ :: outer) := rfl
    rw [hinner] at hpieces
    exact .cons ⟨_, next + 1, pieces, rfl, hpieces, rfl⟩ (compileStatements_lineages hpieces)

/-- in a section, -/
theorem compileSection_lineages {outer : List Program} {next : Nat} {p : Option Program}
    {child : Child} {functions : List Function}
    (h : compileSection (Scope.of options outer) next p = .ok (child, functions)) :
    List.Forall₂ (Function.CompiledAt options) functions (sectionLineages outer p) := by
  match p with
  | none =>
    rw [compileSection] at h
    cases h
    exact .nil
  | some p =>
    rw [compileSection] at h
    exact compileChild_lineages h

/-- and in a body. -/
theorem compileStatements_lineages {outer : List Program} {next : Nat} {body : List Statement}
    {pieces : Pieces} (h : compileStatements (Scope.of options outer) next body = .ok pieces) :
    List.Forall₂ (Function.CompiledAt options) pieces.programs (bodyLineages outer body) := by
  match body with
  | [] =>
    rw [compileStatements] at h
    cases h
    exact .nil
  | s :: rest =>
    obtain ⟨first, more, hfirst, hmore, rfl⟩ := compileStatements_cons h
    exact List.rel_append (compileStatement_lineages hfirst) (compileStatements_lineages hmore)

end

/-- **The functions of a specification** are compiled in the scopes of the lineages of their
    programs. -/
theorem Specification.ofProgram_compiledAt {p : Program} {s : Specification}
    (h : Specification.ofProgram options p = .ok s) :
    List.Forall₂ (Function.CompiledAt options) (s.main :: s.programs) (p.lineages []) := by
  obtain ⟨pieces, hpieces, rfl⟩ := ofProgram_ok h
  obtain ⟨body, params, chained, span⟩ := p
  have hscope : (⟨options, []⟩ : Scope).enter params
      = Scope.of options [⟨body, params, chained, span⟩] := rfl
  rw [hscope] at hpieces
  exact .cons ⟨_, 1, pieces, rfl, hpieces, rfl⟩ (compileStatements_lineages hpieces)

/-- So they look up paths in these lineages. -/
theorem Specification.ofProgram_scoped {p : Program} {s : Specification}
    (h : Specification.ofProgram options p = .ok s) :
    List.Forall₂ (Function.Scoped options) (s.main :: s.programs) (p.lineages []) :=
  (ofProgram_compiledAt h).imp fun _ _ hfn => Function.CompiledAt.scoped hfn

end Programs

end Script

/-! ## Templates -/

open Script in
/-- **Block parameters are lexically scoped.**  In a template that is parsed, the parameters that a
    tag declares are those of the section that follows it, and of no other.  The code of a program
    looks up each path of its statements where the lineage of the program says: at `depth` and
    `index` among the block parameters if the path is plain and its first name is declared there,
    and in the context if no program around declares it.  And a generator that keeps the parameters
    on a stack comes to the same code, and always leaves the stack as it was. -/
theorem Compiler.standard_scoped {text : String} {fields : Json.Fields} {t : Template}
    (hparse : Compiler.standard.parse text fields = .ok t) :
    (∃ items, Item.readAll .origin text.toList = .ok items ∧ t.root.blockParams = []
        ∧ ∀ p ∈ t.root.family, ∀ s ∈ p.body, s.DeclaredIn items)
      ∧ (t.root.lineages []).map List.head? = t.root.family.map some
      ∧ (∀ lineage ∈ t.root.lineages [], lineage.IsChain Program.Within)
      ∧ (∀ fields' compiled, Compiler.standard.compile t fields' = .ok compiled →
        ∃ options s, CompilerOptions.read fields' = .ok options
          ∧ Specification.ofProgram options t.root = .ok s ∧ compiled.code = Script.textOf s.chunks
          ∧ List.Forall₂ (Function.Scoped options) (s.main :: s.programs) (t.root.lineages []))
      ∧ ∀ options, Follows .start (generateProgram options t.root) .start
          (Specification.ofProgram options t.root) Specification.main Specification.programs
        ∧ ∀ p g, (generateProgram options p g).2.stack = g.stack := by
  obtain ⟨_, _, hparsed⟩ := Compiler.parse_standard hparse
  refine ⟨Template.parse_declared hparsed, t.root.map_head?_lineages [],
    Program.isChain_lineages (.singleton t.root), ?code, fun options =>
    ⟨Specification.ofProgram_followed options t.root, fun p g => generateProgram_stack options g p⟩⟩
  case code =>
    intro fields' compiled hcompile
    obtain ⟨options, hoptions, hcompile⟩ := exists_of_bind_ok hcompile
    obtain ⟨s, hs, hcode, -⟩ := Template.compileUnder_ok hcompile
    exact ⟨options, s, hoptions, hs, hcode, Specification.ofProgram_scoped hs⟩

open Script in
/-- A name that is declared twice in one list and again by a block inside, used in the arguments of
    that block, in its sections and behind it. -/
theorem Compiler.standard_scoped_at_shadowed :
    let text := "\x7b\x7b#each x as |x y x|\x7d\x7d\x7b\x7b#with x as |x|\x7d\x7d"
      ++ "\x7b\x7bx.y y\x7d\x7d\x7b\x7belse\x7d\x7d\x7b\x7bx\x7d\x7d\x7b\x7b/with\x7d\x7d"
      ++ "\x7b\x7by\x7d\x7d\x7b\x7b/each\x7d\x7d\x7b\x7bx\x7d\x7d"
    ∃ t compiled, Compiler.standard.parse text [] = .ok t
      ∧ Compiler.standard.compile t [] = .ok compiled
      ∧ (∃ items, Item.readAll .origin text.toList = .ok items ∧ t.root.blockParams = []
        ∧ ∀ p ∈ t.root.family, ∀ s ∈ p.body, s.DeclaredIn items)
      ∧ ∃ options s, CompilerOptions.read [] = .ok options
        ∧ Specification.ofProgram options t.root = .ok s ∧ compiled.code = Script.textOf s.chunks
        ∧ List.Forall₂ (Function.Scoped options) (s.main :: s.programs)
          (t.root.lineages []) := by
  intro text
  obtain ⟨compiled, hrun⟩ := exists_of_isOk
    (e := Compiler.standard.parse text [] >>= fun t => Compiler.standard.compile t [])
    (by decide +kernel)
  obtain ⟨t, hparse, hcompile⟩ := exists_of_bind_ok hrun
  obtain ⟨hdeclared, -, -, hcode, -⟩ := Compiler.standard_scoped hparse
  exact ⟨t, compiled, hparse, hcompile, hdeclared, hcode [] compiled hcompile⟩

end Stache
