/-
  The arguments of the calls in code.

  As in a template, an ARGUMENT in code is a parameter of a call or the value of an entry, at any
  depth, and a partial has its context besides.

  1. **Where they come from.**  The arguments of a call that is compiled are those of the call in
     the template, compiled one for one and in the same order (`compileArgument_arguments` and its
     kin, by recursion over the call).  So every argument in the code of a template comes from one
     in the tree, but for the context of a partial that is given none
     (`Specification.exists_argument`).
  2. **Where they are.**  The text of each of them is part of the code
     (`Specification.within_code`), by recursion over the code.
-/
import Stache.Proofs.Grammar.Arguments
import Stache.Proofs.Script.Fragments
import Stache.Proofs.Script.Programs

namespace Stache.Script

open Text (scriptQuoted joined braces brackets field)

/-! ## Arguments -/

mutual

/-- The arguments in code, if it is the call of a helper. -/
def Code.arguments : Code → List Code
  | .helper _ args options => codesArguments args ++ options.arguments
  | .string _ | .number _ | .boolean _ | .undefined | .null | .place _ => []

/-- The arguments in the options of a call are its entries, -/
def Options.arguments : Options → List Code
  | ⟨_, hash, _, _⟩ => entriesArguments hash

/-- The codes, each in front of the arguments in it. -/
def codesArguments : List Code → List Code
  | [] => []
  | code :: rest => code :: (code.arguments ++ codesArguments rest)

/-- each value before those in it. -/
def entriesArguments : List Entry → List Code
  | [] => []
  | ⟨_, value⟩ :: rest => value :: (value.arguments ++ entriesArguments rest)

end

/-- A value that is looked up has no arguments. -/
def Invocation.arguments (i : Invocation) : List Code :=
  match i.mode with
  | .helper _ args => codesArguments args ++ i.options.arguments
  | .either _ | .plain _ => []

/-- A name may be computed, and then have arguments. -/
def Target.arguments : Target → List Code
  | .computed name => name.arguments
  | .named _ | .enclosing => []

/-- A partial has its context for an argument. -/
def PartialCall.arguments (p : PartialCall) : List Code :=
  p.target.arguments ++ (p.context :: (p.context.arguments ++ entriesArguments (p.hash.getD [])))

/-- The arguments in an operand, -/
def Operand.arguments : Operand → List Code
  | .text _ => []
  | .mustache _ invocation | .block invocation => invocation.arguments
  | .partialCall call => call.arguments

/-- in a decorator, -/
def Decorator.arguments (d : Decorator) : List Code :=
  codesArguments d.args ++ entriesArguments d.hash

/-- and in all of a function. -/
def Function.arguments (fn : Function) : List Code :=
  fn.operands.flatMap (·.value.arguments) ++ fn.decorators.flatMap (·.value.arguments)

/-! ## Where they come from -/

/-- The expression is compiled to the code. -/
def CompiledTo (scope : Scope) (e : Expression) (code : Code) : Prop :=
  compileArgument scope e = .ok code

/-- The name of a helper is no call. -/
theorem arguments_of_calleePath {e : Expression} {path : Path} (h : calleePath e = .ok path) :
    e.arguments = [] := by
  cases e with
  | subexpression => cases h
  | path | string | number | boolean | undefined | null => rfl

mutual

/-- Arguments are compiled one for one: those in an argument, -/
theorem compileArgument_arguments {scope : Scope} {e : Expression} {code : Code}
    (h : compileArgument scope e = .ok code) :
    List.Forall₂ (CompiledTo scope) e.arguments code.arguments := by
  -- only a call in parentheses has arguments in it
  match e with
  | .path p | .string _ _ _ | .number _ _ | .boolean _ _ | .undefined _ | .null _ =>
    rw [compileArgument] at h
    cases h
    exact .nil
  | .subexpression call span =>
    obtain ⟨path, callee, args, options, hpath, hcall, rfl⟩ := compileArgument_subexpression h
    exact compileCall_arguments hpath hcall

/-- **The arguments of a call** are compiled one for one. -/
theorem compileCall_arguments {scope : Scope} {path path' : Path} {sections : Option Sections}
    {span : Span} {call : Call} {callee : Callee} {args : List Code} {options : Options}
    (hpath : calleePath call.callee = .ok path')
    (h : compileCall scope path sections span call = .ok (callee, args, options)) :
    List.Forall₂ (CompiledTo scope) call.arguments (codesArguments args ++ options.arguments) := by
  match call with
  | ⟨name, params, hash⟩ =>
    obtain ⟨-, hargs, entries, hentries, rfl⟩ := compileCall_parts h
    have hname : name.arguments = [] := arguments_of_calleePath hpath
    rw [Call.arguments, hname]
    exact List.rel_append (compileArguments_arguments hargs) (compileHash_arguments hentries)

/-- those among parameters, -/
theorem compileArguments_arguments {scope : Scope} {params : List Expression} {args : List Code}
    (h : compileArguments scope params = .ok args) :
    List.Forall₂ (CompiledTo scope) (paramsArguments params) (codesArguments args) := by
  match params with
  | [] =>
    rw [compileArguments] at h
    cases h
    exact .nil
  | e :: rest =>
    obtain ⟨code, codes, hcode, hcodes, rfl⟩ := compileArguments_cons h
    exact .cons hcode
      (List.rel_append (compileArgument_arguments hcode) (compileArguments_arguments hcodes))

/-- those in a hash, -/
theorem compileHash_arguments {scope : Scope} {hash : Option Hash} {entries : List Entry}
    (h : compileHash scope hash = .ok entries) :
    List.Forall₂ (CompiledTo scope) (hashArguments hash) (entriesArguments entries) := by
  match hash with
  | none =>
    rw [compileHash] at h
    cases h
    exact .nil
  | some ⟨pairs, span⟩ =>
    rw [compileHash] at h
    exact compilePairs_arguments h

/-- and those among its pairs. -/
theorem compilePairs_arguments {scope : Scope} {pairs : List Pair} {entries : List Entry}
    (h : compilePairs scope pairs = .ok entries) :
    List.Forall₂ (CompiledTo scope) (pairsArguments pairs) (entriesArguments entries) := by
  match pairs with
  | [] =>
    rw [compilePairs] at h
    cases h
    exact .nil
  | ⟨key, value, span⟩ :: rest =>
    obtain ⟨code, entries, hcode, hentries, rfl⟩ := compilePairs_cons h
    exact .cons hcode
      (List.rel_append (compileArgument_arguments hcode) (compilePairs_arguments hentries))

end

/-- Only a computed name has arguments. -/
theorem Target.Of.forall₂_arguments {scope : Scope} {e : Expression} {target : Target}
    (h : target.Of scope e) : List.Forall₂ (CompiledTo scope) e.arguments target.arguments := by
  cases h with
  | enclosing | path => exact .nil
  | literal hpath hcall =>
    cases e with
    | path p => exact (hpath p rfl).elim
    | subexpression call span => exact (hcall call span rfl).elim
    | string | number | boolean | undefined | null => exact .nil
  | computed h => exact compileArgument_arguments h

/-- The context of a partial is its parameter, or is its own. -/
theorem PartialCall.Of.context_arguments {scope : Scope} {indent : String} {call : Call}
    {p : PartialCall} (h : p.Of scope indent call) :
    paramsArguments call.params = [] ∧ p.context :: p.context.arguments = [.place ⟨.context, []⟩]
      ∨ List.Forall₂ (CompiledTo scope) (paramsArguments call.params)
        (p.context :: p.context.arguments) := by
  rcases h.context with ⟨hnone, hcontext⟩ | ⟨param, hparam, hcontext⟩
  · rw [hnone, hcontext]
    exact .inl ⟨rfl, rfl⟩
  · rw [hparam, paramsArguments, paramsArguments, List.append_nil]
    exact .inr (.cons hcontext (compileArgument_arguments hcontext))

/-- So it is with the hash of a partial, -/
theorem PartialCall.Of.hash_arguments {scope : Scope} {indent : String} {call : Call}
    {p : PartialCall} (h : p.Of scope indent call) :
    List.Forall₂ (CompiledTo scope) (hashArguments call.hash)
      (entriesArguments (p.hash.getD [])) := by
  obtain ⟨entries, hentries, hhash⟩ := h.hash
  rw [hhash]
  cases hcall : call.hash with
  | none => exact .nil
  | some hash =>
    rw [hcall] at hentries
    exact compileHash_arguments hentries

/-- and with the arguments of a decorator. -/
theorem compileDecorator_arguments {scope : Scope} {path : Path} {body : Option Child} {span : Span}
    {call : Call} {d : Decorator} (h : compileDecorator scope path body span call = .ok d) :
    List.Forall₂ (CompiledTo scope) (paramsArguments call.params ++ hashArguments call.hash)
      d.arguments := by
  obtain ⟨entries, args, hentries, hargs, rfl⟩ := compileDecorator_parts h
  exact List.rel_append (compileArguments_arguments hargs) (compileHash_arguments hentries)

/-- An argument of a call in the template is behind the code, or the code is the context that a
    partial without one is given. -/
def ComesFrom (scope : Scope) (arguments : List Expression) (code : Code) : Prop :=
  code = .place ⟨.context, []⟩ ∨ ∃ e ∈ arguments, CompiledTo scope e code

theorem ComesFrom.mono {scope : Scope} {arguments more : List Expression} {code : Code}
    (h : ComesFrom scope arguments code) (hmore : arguments ⊆ more) : ComesFrom scope more code :=
  h.imp_right fun ⟨e, he, hcode⟩ => ⟨e, hmore he, hcode⟩

theorem comesFrom_of_forall₂ {scope : Scope} {arguments : List Expression} {codes : List Code}
    (h : List.Forall₂ (CompiledTo scope) arguments codes) :
    ∀ code ∈ codes, ComesFrom scope arguments code :=
  fun _ hcode => .inr (exists_of_mem_forall₂ h.flip hcode)

/-- The arguments of a call come from those in the template, -/
theorem compileInvocation_comesFrom {scope : Scope} {sections : Option Sections} {span : Span}
    {call : Call} {i : Invocation} (h : compileInvocation scope sections span call = .ok i) :
    ∀ code ∈ i.arguments, ComesFrom scope call.arguments code := by
  cases compileInvocation_of h with
  | helper hpath hcall => exact comesFrom_of_forall₂ (compileCall_arguments hpath hcall)
  | either | plain => exact List.forall_mem_nil _

/-- and those of a partial, but for a context of its own; -/
theorem PartialCall.Of.comesFrom {scope : Scope} {indent : String} {call : Call} {p : PartialCall}
    (h : p.Of scope indent call) : ∀ code ∈ p.arguments, ComesFrom scope call.arguments code := by
  have htarget := comesFrom_of_forall₂ h.target.forall₂_arguments
  have hhash := comesFrom_of_forall₂ h.hash_arguments
  have hparams : ∀ code ∈ p.context :: p.context.arguments,
      ComesFrom scope (paramsArguments call.params) code := by
    rcases h.context_arguments with ⟨-, hcontext⟩ | hcontext
    · rw [hcontext]
      exact List.forall_mem_singleton.2 (.inl rfl)
    · exact comesFrom_of_forall₂ hcontext
  obtain ⟨callee, params, hash⟩ := call
  intro code hcode
  rw [PartialCall.arguments, ← List.cons_append, List.mem_append, List.mem_append] at hcode
  rw [Call.arguments]
  rcases hcode with hcode | hcode | hcode
  · exact (htarget code hcode).mono (List.subset_append_left ..)
  · exact (hparams code hcode).mono
      (List.Subset.trans (List.subset_append_left ..) (List.subset_append_right ..))
  · exact (hhash code hcode).mono
      (List.Subset.trans (List.subset_append_right ..) (List.subset_append_right ..))

/-- so do those of an operand, -/
theorem Operand.Of.comesFrom {scope : Scope} {call : Option Call} {o : Operand}
    (h : o.Of scope call) :
    ∀ code ∈ o.arguments, ComesFrom scope ((call.map Call.arguments).getD []) code := by
  cases h with
  | text => exact List.forall_mem_nil _
  | mustache _ h | block h => exact compileInvocation_comesFrom h
  | partialCall body h => exact (compilePartial_of h).comesFrom

/-- and those of a decorator. -/
theorem Decorator.Of.comesFrom {scope : Scope} {call : Option Call} {d : Decorator}
    (h : d.Of scope call) :
    ∀ code ∈ d.arguments, ComesFrom scope ((call.map Call.arguments).getD []) code := by
  obtain ⟨⟨callee, params, hash⟩, path, body, span, rfl, h⟩ := h
  intro code hcode
  have hfrom := comesFrom_of_forall₂ (compileDecorator_arguments h) code hcode
  exact hfrom.mono (List.subset_append_right ..)

/-- **Every argument in the code of a template** comes from one in the tree. -/
theorem Specification.exists_argument {options : CompilerOptions} {p : Program} {s : Specification}
    (h : Specification.ofProgram options p = .ok s) {fn : Function} (hfn : fn ∈ s.functions)
    {code : Code} (hcode : code ∈ fn.arguments) :
    ∃ q ∈ p.family, ∃ scope, scope.options = options ∧ ComesFrom scope q.arguments code := by
  obtain ⟨hoperands, hdecorators⟩ := Specification.made_of h hfn
  have hall {q : Program} {st : Statement} (hst : st ∈ q.body) :
      (st.call?.map Call.arguments).getD [] ⊆ q.arguments :=
    fun e he => List.mem_flatMap.2 ⟨st, hst, he⟩
  rw [Function.arguments, List.mem_append] at hcode
  rcases hcode with hcode | hcode
  · obtain ⟨o, ho, hcode⟩ := List.mem_flatMap.1 hcode
    obtain ⟨q, hq, st, hst, scope, hscope, hof⟩ := hoperands o ho
    exact ⟨q, hq, scope, hscope, (hof.comesFrom code hcode).mono (hall hst)⟩
  · obtain ⟨d, hd, hcode⟩ := List.mem_flatMap.1 hcode
    obtain ⟨q, hq, st, hst, scope, hscope, hof⟩ := hdecorators d hd
    exact ⟨q, hq, scope, hscope, (hof.comesFrom code hcode).mono (hall hst)⟩

/-! ## Where they are -/

/-- The one text is part of the other. -/
def Within (part text : String) : Prop := part.toList <:+: text.toList

theorem Within.refl (text : String) : Within text text := List.infix_rfl

theorem Within.trans {a b c : String} (h : Within a b) (h' : Within b c) : Within a c :=
  List.IsInfix.trans h h'

theorem within_append_left (part more : String) : Within part (part ++ more) := by
  rw [Within, String.toList_append]
  exact (List.prefix_append ..).isInfix

theorem within_append_right (part more : String) : Within part (more ++ part) := by
  rw [Within, String.toList_append]
  exact (List.suffix_append ..).isInfix

theorem Within.behind {part text : String} (h : Within part text) (more : String) :
    Within part (text ++ more) :=
  h.trans (within_append_left ..)

theorem Within.before {part text : String} (h : Within part text) (more : String) :
    Within part (more ++ text) :=
  h.trans (within_append_right ..)

theorem within_joined {text : String} {texts : List String} (h : text ∈ texts)
    (separator : String) : Within text (joined separator texts) := by
  obtain ⟨before, after, rfl⟩ := List.append_of_mem h
  rw [Within, Text.toList_joined_append]
  exact ⟨_, _, rfl⟩

theorem within_braces {text : String} {fields : List String} (h : text ∈ fields) :
    Within text (braces fields) :=
  ((within_joined h ",").before "\x7b").behind "\x7d"

theorem within_brackets {text : String} {elements : List String} (h : text ∈ elements) :
    Within text (brackets elements) :=
  ((within_joined h ",").before "[").behind "]"

theorem within_field (name value : String) : Within value (field name value) :=
  within_append_right ..

section

variable (f : Features)

mutual

/-- **Each argument is part of its code**, -/
theorem Code.within_write (code : Code) :
    ∀ arg ∈ code.arguments, Within (arg.write f) (code.write f) := by
  intro arg harg
  match code with
  | .string _ | .number _ | .boolean _ | .undefined | .null | .place _ => cases harg
  | .helper callee args options =>
    rw [Code.arguments, List.mem_append] at harg
    rw [Code.write]
    -- Either way the argument is in one of the texts that are joined.
    refine Within.behind (Within.before ?_ _) ")"
    rcases harg with harg | harg
    · obtain ⟨text, htext, hwithin⟩ := within_writeArgs args arg harg
      exact hwithin.trans (within_joined (by simp [htext]) ",")
    · exact (options.within_write arg harg).trans (within_joined (by simp) ",")

/-- of the options of its call, -/
theorem Options.within_write (options : Options) :
    ∀ arg ∈ options.arguments, Within (arg.write f) (options.write f) := by
  intro arg harg
  match options with
  | ⟨name, hash, sections, span⟩ =>
    obtain ⟨text, htext, hwithin⟩ := within_writeEntries hash arg harg
    rw [Options.write]
    exact hwithin.trans ((within_braces htext).trans
      ((within_field "hash" _).trans (within_braces (by simp))))

/-- of one of the arguments of the call, -/
theorem within_writeArgs (args : List Code) :
    ∀ arg ∈ codesArguments args, ∃ text ∈ writeArgs f args, Within (arg.write f) text := by
  intro arg harg
  match args with
  | [] => cases harg
  | code :: rest =>
    rw [writeArgs]
    rcases List.mem_cons.1 harg with rfl | harg
    · exact ⟨_, List.mem_cons_self .., .refl _⟩
    rcases List.mem_append.1 harg with harg | harg
    · exact ⟨_, List.mem_cons_self .., code.within_write arg harg⟩
    · obtain ⟨text, htext, hwithin⟩ := within_writeArgs rest arg harg
      exact ⟨text, List.mem_cons_of_mem _ htext, hwithin⟩

/-- or of one of its entries. -/
theorem within_writeEntries (entries : List Entry) :
    ∀ arg ∈ entriesArguments entries, ∃ text ∈ writeEntries f entries,
      Within (arg.write f) text := by
  intro arg harg
  match entries with
  | [] => cases harg
  | ⟨key, value⟩ :: rest =>
    rw [writeEntries]
    rcases List.mem_cons.1 harg with rfl | harg
    · exact ⟨_, List.mem_cons_self .., within_append_right ..⟩
    rcases List.mem_append.1 harg with harg | harg
    · exact ⟨_, List.mem_cons_self .., (value.within_write arg harg).trans
        (within_append_right ..)⟩
    · obtain ⟨text, htext, hwithin⟩ := within_writeEntries rest arg harg
      exact ⟨text, List.mem_cons_of_mem _ htext, hwithin⟩

end

theorem within_orEmpty (value : String) : Within value (orEmpty value) :=
  (within_append_right ..).behind _

/-- So it is in a mustache, -/
theorem Invocation.within_writeMustache (i : Invocation) :
    ∀ arg ∈ i.arguments, Within (arg.write f) (i.writeMustache f) := by
  intro arg harg
  obtain ⟨mode, options⟩ := i
  cases mode with
  | helper callee args => exact (Code.helper callee args options).within_write f arg harg
  | either | plain => cases harg

/-- in a block, -/
theorem Invocation.within_writeBlock (i : Invocation) :
    ∀ arg ∈ i.arguments, Within (arg.write f) (i.writeBlock f) := by
  intro arg harg
  obtain ⟨mode, options⟩ := i
  cases mode with
  | helper callee args =>
    exact ((Code.helper callee args options).within_write f arg harg).trans (within_orEmpty _)
  | either | plain => cases harg

/-- in the call of a partial, -/
theorem PartialCall.within_write (p : PartialCall) :
    ∀ arg ∈ p.arguments, Within (arg.write f) (p.write f) := by
  intro arg harg
  obtain ⟨target, context, hash, body, indent⟩ := p
  refine Within.trans ?_ (within_orEmpty _)
  rw [PartialCall.arguments, List.mem_append, List.mem_cons, List.mem_append] at harg
  -- rfl | in its name, the context itself, in the context, or in the hash
  rcases harg with harg | rfl | harg | harg
  · have htarget : Within (arg.write f) (target.write f) := by
      cases target with
      | computed name => exact name.within_write f arg harg
      | named | enclosing => cases harg
    exact ((((htarget.before _).behind _).behind _).behind _).behind _ |>.behind _
  · exact (((within_append_right ..).behind _).behind _).behind _
  · exact ((((context.within_write f arg harg).before _).behind _).behind _).behind _
  · cases hash with
    | none => cases harg
    | some entries =>
      obtain ⟨text, htext, hwithin⟩ := within_writeEntries f entries arg harg
      have hfield : Within (arg.write f) (field "hash" (writeHash f entries)) :=
        (hwithin.trans (within_braces htext)).trans (within_field ..)
      refine Within.behind (Within.before (hfield.trans (within_braces ?_)) _) _
      simp [PartialCall.fields]

/-- in any operand, -/
theorem Operand.within_write (o : Operand) :
    ∀ arg ∈ o.arguments, Within (arg.write f) (o.write f) := by
  intro arg harg
  match o with
  | .text _ => cases harg
  | .mustache true i => exact ((i.within_writeMustache f arg harg).before _).behind _
  | .mustache false i => exact (i.within_writeMustache f arg harg).trans (within_orEmpty _)
  | .block i => exact i.within_writeBlock f arg harg
  | .partialCall p => exact p.within_write f arg harg

/-- and in a decorator. -/
theorem Decorator.within_write (d : Decorator) :
    ∀ arg ∈ d.arguments, Within (arg.write f) (d.write f) := by
  intro arg harg
  refine Within.behind (Within.before ?_ _) _
  rw [Decorator.arguments, List.mem_append] at harg
  rcases harg with harg | harg
  · obtain ⟨text, htext, hwithin⟩ := within_writeArgs f d.args arg harg
    exact (hwithin.trans (within_brackets htext)).trans
      ((within_field "args" _).trans (within_braces (by simp)))
  · obtain ⟨text, htext, hwithin⟩ := within_writeEntries f d.hash arg harg
    exact (hwithin.trans (within_braces htext)).trans
      ((within_field "hash" _).trans (within_braces (by simp [writeHash])))

end

/-- A fragment of code is part of it. -/
theorem within_textOf {chunks : List Chunk} {fragment : Traced String}
    (h : fragment ∈ chunks.filterMap Chunk.fragment?) : Within fragment.value (textOf chunks) := by
  obtain ⟨chunk, hchunk, hfragment⟩ := List.mem_filterMap.1 h
  obtain ⟨before, after, rfl⟩ := List.append_of_mem hchunk
  obtain ⟨origin, -, rfl⟩ := Option.map_eq_some_iff.1 hfragment
  rw [textOf_append, textOf_cons]
  exact (within_append_left ..).before _

/-- **The text of every argument** is part of the code. -/
theorem Specification.within_code {s : Specification} {fn : Function} (hfn : fn ∈ s.functions)
    {arg : Code} (harg : arg ∈ fn.arguments) : Within (arg.write s.features) s.code := by
  have hpart {fragment : Traced String} (h : fragment ∈ s.fragments) :
      Within fragment.value s.code := within_textOf (s.filterMap_chunks ▸ h)
  rw [Function.arguments, List.mem_append] at harg
  rcases harg with harg | harg
  · obtain ⟨o, ho, harg⟩ := List.mem_flatMap.1 harg
    have hfragment : ⟨o.value.write s.features, o.origin⟩ ∈ fn.fragments s.features :=
      List.mem_cons_of_mem _ (List.mem_map.2 ⟨o, ho, rfl⟩)
    have hcode := hpart (List.mem_append_left _ (List.mem_flatMap.2 ⟨fn, hfn, hfragment⟩))
    exact (o.value.within_write s.features arg harg).trans hcode
  · obtain ⟨d, hd, harg⟩ := List.mem_flatMap.1 harg
    -- Decorators are run by a second function, and the main one comes first there.
    have hfn' : fn ∈ s.main :: s.programs := by
      rcases List.mem_append.1 hfn with hfn | hfn
      · exact List.mem_cons_of_mem _ hfn
      · exact List.mem_singleton.1 hfn ▸ List.mem_cons_self ..
    have hsome : fn.decorators.isEmpty = false :=
      List.isEmpty_eq_false_iff.2 (List.ne_nil_of_mem hd)
    have hfragment : ⟨d.value.write s.features, d.origin⟩ ∈ fn.decoratorFragments s.features := by
      rw [Function.decoratorFragments, hsome]
      exact List.mem_cons_of_mem _ (List.mem_map.2 ⟨d, hd, rfl⟩)
    have hcode := hpart (List.mem_append_right _ (List.mem_flatMap.2 ⟨fn, hfn', hfragment⟩))
    exact (d.value.within_write s.features arg harg).trans hcode

end Stache.Script
