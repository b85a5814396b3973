/-
  The code of a template is well formed, whatever text the template contains.

  Three things meet here.  Each form of code is balanced once its parts are (`Balanced`).  The parts
  of the code of a template come from its calls, and a call is compiled to balanced parts if its
  numbers are written as numbers (`compileArgument_balanced` and its kin, by recursion over the
  call); every other text is quoted.  And the calls of a template that is parsed have no other
  numbers (`Template.parse_numeric`).
-/
import Stache.Proofs.Nesting.Calls
import Stache.Proofs.Script.Balance

namespace Stache

namespace Script

theorem isNeutral_of_isNumberChar {c : Char} (h : isNumberChar c = true) : isNeutral c = true := by
  simp only [isNumberChar, Bool.or_eq_true, decide_eq_true_eq] at h
  obtain (hdigit | rfl) | rfl := h
  · exact isNeutral_of_isDigit hdigit
  · rfl
  · rfl

theorem balanced_of_numeric {written : String} (h : Numeric written.toList) : Balanced written :=
  balanced_of_neutral fun c hc => isNeutral_of_isNumberChar (h c hc)

/-! ## Calls -/

mutual

/-- **Arguments are compiled to balanced code**, -/
theorem compileArgument_balanced (f : Features) {scope : Scope} {e : Expression} {code : Code}
    (h : compileArgument scope e = .ok code) (he : e.IsNumeric) : Balanced (code.write f) := by
  -- only a call in parentheses is written with brackets of its own
  match e with
  | .path p =>
    rw [compileArgument] at h
    cases h
    exact (scope.resolve p).balanced_write
  | .subexpression call span =>
    obtain ⟨path, callee, args, options, -, hcall, rfl⟩ := compileArgument_subexpression h
    obtain ⟨hargs, hoptions⟩ := compileCall_balanced f hcall he
    exact balanced_helper hargs hoptions
  | .string value written span =>
    rw [compileArgument] at h
    cases h
    exact balanced_scriptQuoted value
  | .number written span =>
    rw [compileArgument] at h
    cases h
    exact balanced_of_numeric he
  | .boolean true span | .boolean false span | .undefined span | .null span =>
    rw [compileArgument] at h
    cases h
    exact fun _ => .of_read rfl

/-- and so are calls, part by part, -/
theorem compileCall_balanced (f : Features) {scope : Scope} {path : Path}
    {sections : Option Sections} {span : Span} {call : Call} {callee : Callee} {args : List Code}
    {options : Options}
    (h : compileCall scope path sections span call = .ok (callee, args, options))
    (hcall : call.IsNumeric) :
    (∀ text ∈ writeArgs f args, Balanced text) ∧ Balanced (options.write f) := by
  match call with
  | ⟨name, params, hash⟩ =>
    obtain ⟨-, hargs, entries, hentries, rfl⟩ := compileCall_parts h
    exact ⟨compileArguments_balanced f hargs hcall.2.1,
      balanced_options (compileHash_balanced f hentries hcall.2.2)⟩

/-- rows of parameters, -/
theorem compileArguments_balanced (f : Features) {scope : Scope} {params : List Expression}
    {args : List Code} (h : compileArguments scope params = .ok args)
    (hparams : paramsNumeric params) : ∀ text ∈ writeArgs f args, Balanced text := by
  match params with
  | [] =>
    rw [compileArguments] at h
    cases h
    exact List.forall_mem_nil _
  | e :: rest =>
    obtain ⟨code, codes, hcode, hcodes, rfl⟩ := compileArguments_cons h
    exact List.forall_mem_cons.2 ⟨compileArgument_balanced f hcode hparams.1,
      compileArguments_balanced f hcodes hparams.2⟩

/-- hashes, -/
theorem compileHash_balanced (f : Features) {scope : Scope} {hash : Option Hash}
    {entries : List Entry} (h : compileHash scope hash = .ok entries) (hhash : hashNumeric hash) :
    ∀ text ∈ writeEntries f entries, Balanced text := by
  match hash with
  | none =>
    rw [compileHash] at h
    cases h
    exact List.forall_mem_nil _
  | some ⟨pairs, span⟩ =>
    rw [compileHash] at h
    exact compilePairs_balanced f h hhash

/-- and their pairs. -/
theorem compilePairs_balanced (f : Features) {scope : Scope} {pairs : List Pair}
    {entries : List Entry} (h : compilePairs scope pairs = .ok entries)
    (hpairs : pairsNumeric pairs) : ∀ text ∈ writeEntries f entries, Balanced text := by
  match pairs with
  | [] =>
    rw [compilePairs] at h
    cases h
    exact List.forall_mem_nil _
  | ⟨key, value, span⟩ :: rest =>
    obtain ⟨code, entries, hcode, hentries, rfl⟩ := compilePairs_cons h
    have hcolon : Balanced ":" := fun _ => .of_read rfl
    have hvalue := compileArgument_balanced f hcode hpairs.1
    exact List.forall_mem_cons.2 ⟨((balanced_scriptQuoted key).append hcolon).append hvalue,
      compilePairs_balanced f hentries hpairs.2⟩

end

/-- So it is with a mustache or a block, -/
theorem compileInvocation_balances (f : Features) {scope : Scope} {sections : Option Sections}
    {span : Span} {call : Call} {i : Invocation}
    (h : compileInvocation scope sections span call = .ok i) (hcall : call.IsNumeric) :
    i.Balances f := by
  cases compileInvocation_of h with
  | helper hpath hparts =>
    obtain ⟨hargs, hoptions⟩ := compileCall_balanced f hparts hcall
    refine ⟨fun callee' args' hmode => ?_, hoptions⟩
    cases hmode
    exact hargs
  | either | plain =>
    refine ⟨fun callee args hmode => ?_, balanced_options (List.forall_mem_nil _)⟩
    cases hmode

/-- a name that is computed, -/
theorem Target.Of.balanced (f : Features) {scope : Scope} {e : Expression} {code : Code}
    (h : (Target.computed code).Of scope e) (he : e.IsNumeric) : Balanced (code.write f) := by
  cases h with
  | computed hcode => exact compileArgument_balanced f hcode he

/-- the call of a partial, -/
theorem compilePartial_balances (f : Features) {scope : Scope} {indent : String} {span : Span}
    {call : Call} {p : PartialCall} (h : compilePartial scope indent span call = .ok p)
    (hcall : call.IsNumeric) : p.Balances f := by
  obtain ⟨htarget, hcontext, ⟨entries, hentries, hhash⟩, -, -⟩ := compilePartial_of h
  obtain ⟨callee, params, hash⟩ := call
  obtain ⟨hcallee, hparams, hpairs⟩ := hcall
  refine ⟨fun code hcode => ?_, ?_, ?_⟩
  · rw [hcode] at htarget
    exact htarget.balanced f hcallee
  · obtain ⟨-, hcontext⟩ | ⟨param, hparam, hcontext⟩ := hcontext
    · rw [hcontext]
      exact Place.balanced_write _
    · cases hparam
      exact compileArgument_balanced f hcontext hparams.1
  · intro entries' heq
    rw [hhash] at heq
    obtain ⟨_, -, rfl⟩ := Option.map_eq_some_iff.1 heq
    exact compileHash_balanced f hentries hpairs

/-- and a decorator. -/
theorem compileDecorator_balances (f : Features) {scope : Scope} {path : Path}
    {body : Option Child} {span : Span} {call : Call} {d : Decorator}
    (h : compileDecorator scope path body span call = .ok d) (hcall : call.IsNumeric) :
    d.Balances f := by
  obtain ⟨callee, params, hash⟩ := call
  obtain ⟨entries, args, hentries, hargs, rfl⟩ := compileDecorator_parts h
  exact ⟨compileHash_balanced f hentries hcall.2.2, compileArguments_balanced f hargs hcall.2.1⟩

/-! ## Operands -/

/-- Hence each operand of the code is balanced, -/
theorem Operand.Of.balances (f : Features) {scope : Scope} {call : Option Call} {o : Operand}
    (h : o.Of scope call) (hcall : ∀ c, call = some c → c.IsNumeric) : o.Balances f := by
  cases h with
  | text => trivial
  | mustache escaped h => exact compileInvocation_balances f h (hcall _ rfl)
  | block h => exact compileInvocation_balances f h (hcall _ rfl)
  | partialCall body h =>
    obtain ⟨htarget, hcontext, hhash⟩ := compilePartial_balances f h (hcall _ rfl)
    exact ⟨htarget, hcontext, hhash⟩

/-- and each decorator. -/
theorem Decorator.Of.balances (f : Features) {scope : Scope} {call : Option Call} {d : Decorator}
    (h : d.Of scope call) (hcall : ∀ c, call = some c → c.IsNumeric) : d.Balances f := by
  obtain ⟨source, path, body, span, hsource, h⟩ := h
  exact compileDecorator_balances f h (hcall source hsource)

/-- The functions of a template, if the numbers in its calls are written as numbers. -/
theorem Specification.balances {options : CompilerOptions} {p : Program} {s : Specification}
    (h : Specification.ofProgram options p = .ok s)
    (hcalls : ∀ q ∈ p.family, ∀ st ∈ q.body, ∀ call, st.call? = some call → call.IsNumeric) :
    ∀ fn ∈ s.functions, fn.Balances s.features := by
  intro fn hfn
  obtain ⟨hoperands, hdecorators⟩ := Specification.made_of h hfn
  constructor
  · intro o ho
    obtain ⟨q, hq, st, hst, scope, -, hmade⟩ := hoperands o ho
    exact Operand.balanced_write (hmade.balances s.features (hcalls q hq st hst))
  · intro d hd
    obtain ⟨q, hq, st, hst, scope, -, hmade⟩ := hdecorators d hd
    exact Decorator.balanced_write (hmade.balances s.features (hcalls q hq st hst))

end Script

/-! ## Templates -/

/-- **The code of a template is well formed**: all literals are closed on the line where they begin,
    all brackets are nested, and the first brace is closed at the very end.  No text of the template
    can become code. -/
theorem Compiler.standard_wellFormed {text : String} {fields fields' : Json.Fields} {t : Template}
    {compiled : Compiled} (hparse : Compiler.standard.parse text fields = .ok t)
    (hcompile : Compiler.standard.compile t fields' = .ok compiled) :
    Script.WellFormed compiled.code.toList := by
  obtain ⟨_, _, hparsed⟩ := Compiler.parse_standard hparse
  obtain ⟨options, -, hcompile⟩ := exists_of_bind_ok hcompile
  obtain ⟨s, hs, hcode, -⟩ := Template.compileUnder_ok hcompile
  rw [hcode]
  refine Script.Specification.wellFormed_code (Script.Specification.balances hs ?_)
  intro q hq st hst call hcall
  exact Template.parse_numeric hparsed hq hst hcall

/-- Quotes, brackets, backslashes and line separators in a content, in segments, in a hash key, in
    strings and in the names of partials, in all forms of calls. -/
theorem Compiler.standard_wellFormed_at_quotes :
    let text := "\");\x7d\n\u2028\x7b\x7b[\"\x7d] \"\\\"(\" -1.5 [('\n]=(a \"'\u2029\")\x7d\x7d"
      ++ "\x7b\x7b#b\x7d\x7d\n  \x7b\x7b> [\")] 7\x7d\x7d\n"
      ++ "\x7b\x7b^\x7d\x7d\x7b\x7b&c\x7d\x7d\x7b\x7b/b\x7d\x7d"
      ++ "\x7b\x7b#> (d '\"') e='\\('\x7d\x7d\x7b\x7b* [\"\n] f=\"[\"\x7d\x7d\x7b\x7b/d\x7d\x7d"
    ∃ t compiled, Compiler.standard.parse text [] = .ok t
      ∧ Compiler.standard.compile t [] = .ok compiled
      ∧ Script.WellFormed compiled.code.toList := by
  intro text
  obtain ⟨compiled, hrun⟩ := exists_of_isOk
    (e := Compiler.standard.parse text [] >>= fun t => Compiler.standard.compile t [])
    (by decide +kernel)
  obtain ⟨t, hparse, hcompile⟩ := exists_of_bind_ok hrun
  exact ⟨t, compiled, hparse, hcompile, Compiler.standard_wellFormed hparse hcompile⟩

end Stache
