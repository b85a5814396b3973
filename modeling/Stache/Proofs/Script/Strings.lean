/-
  Strings of a template, and strings of the code.

  1. ARGUMENTS ARE TAKEN OVER.  The arguments of a call are compiled one for one, and their codes
     stand in this order among the arguments of a function of the code (`TakenOver`).  Only where the
     callee is a block parameter the arguments are left out, since nothing is called there
     (`Statement.IsBound`).  One lemma for each function of the compiler, then an induction over
     the statements of a body.

  2. STRINGS KEEP THEIR VALUE.  A text between quotes may take the place of any string argument of a
     template.  It is read back as it was, it is an argument of the code, and the literal that is
     written for it stands for the same text (`Compiler.standard_strings`).
-/
import Stache.Proofs.Nesting.Gaps
import Stache.Proofs.Script.Arguments
import Stache.Proofs.Script.Literal
import Stache.Proofs.Script.Scoping

namespace Stache

/-- A mustache or a block whose callee is a block parameter, where the programs around it have
    these. -/
def Statement.IsBound (enclosing : List (List String)) : Statement → Prop
  | .mustache call _ _ _ | .block call _ _ _ _ => call.callee.isBound enclosing = true
  | .content _ | .comment _ _ _ | .partialCall _ _ _ _ | .partialBlock _ _ _ _ _
  | .decorator _ _ _ | .decoratorBlock _ _ _ _ _ => False

/-- Programs without parameters bind nothing. -/
theorem Statement.not_isBound {enclosing : List (List String)}
    (h : ∀ names ∈ enclosing, names = []) (s : Statement) : ¬ s.IsBound enclosing := by
  have hcallee (e : Expression) : ¬ e.isBound enclosing = true := by
    intro hbound
    simp only [Expression.isBound, Bool.and_eq_true, Option.any_eq_true, List.any_eq_true] at hbound
    obtain ⟨-, name, -, names, hnames, hmem⟩ := hbound
    rw [h names hnames] at hmem
    cases hmem
  cases s with
  | mustache call | block call => exact hcallee call.callee
  | content | comment | partialCall | partialBlock | decorator | decoratorBlock => exact id

namespace Script

/-! ## Arguments are taken over -/

/-- The arguments are compiled one for one, to some of the codes in their order. -/
def TakenOver (scope : Scope) (arguments : List Expression) (codes : List Code) : Prop :=
  ∃ taken, List.Forall₂ (CompiledTo scope) arguments taken ∧ taken.Sublist codes

section

variable {scope : Scope} {arguments more : List Expression} {codes rest : List Code}

theorem TakenOver.of_forall₂ (h : List.Forall₂ (CompiledTo scope) arguments codes) :
    TakenOver scope arguments codes := ⟨codes, h, .refl _⟩

theorem TakenOver.append (h : TakenOver scope arguments codes) (h' : TakenOver scope more rest) :
    TakenOver scope (arguments ++ more) (codes ++ rest) := by
  obtain ⟨taken, htaken, hsub⟩ := h
  obtain ⟨taken', htaken', hsub'⟩ := h'
  exact ⟨taken ++ taken', List.rel_append htaken htaken', hsub.append hsub'⟩

theorem TakenOver.mono (h : TakenOver scope arguments codes) (hcodes : codes.Sublist rest) :
    TakenOver scope arguments rest := by
  obtain ⟨taken, htaken, hsub⟩ := h
  exact ⟨taken, htaken, hsub.trans hcodes⟩

theorem TakenOver.exists_code (h : TakenOver scope arguments codes) {e : Expression}
    (he : e ∈ arguments) : ∃ code ∈ codes, CompiledTo scope e code := by
  obtain ⟨taken, htaken, hsub⟩ := h
  obtain ⟨code, hcode, hcompiled⟩ := exists_of_mem_forall₂ htaken he
  exact ⟨code, hsub.subset hcode, hcompiled⟩

end

section

variable {scope : Scope} {call : Call}

/-- A call with arguments calls a helper, unless its callee is a block parameter. -/
theorem compileInvocation_takenOver {sections : Option Sections} {span : Span} {i : Invocation}
    (h : compileInvocation scope sections span call = .ok i)
    (hfree : ¬ call.callee.isBound scope.params = true) :
    TakenOver scope call.arguments i.arguments := by
  rw [compileInvocation] at h
  obtain ⟨path, hpath, h⟩ := exists_of_bind_ok h
  obtain ⟨p, hp, hdata, -, hsingle⟩ := exists_calleePath (isName_of_calleePath hpath)
  cases hpath.symm.trans hp
  rw [isBound_eq hdata hsingle] at hfree
  -- Without arguments it does not matter what is called.
  cases hargs : call.hasArguments with
  | true =>
    rw [Scope.kindOf, if_neg hfree, if_pos (by rw [hargs]; rfl)] at h
    obtain ⟨⟨callee, args, options⟩, hcall, h⟩ := exists_of_bind_ok h
    cases h
    exact .of_forall₂ (compileCall_arguments hpath hcall)
  | false =>
    obtain ⟨callee, params, hash⟩ := call
    obtain ⟨rfl, rfl⟩ : params = [] ∧ hash = none := by
      simpa [Call.hasArguments] using hargs
    have hcallee : callee.arguments = [] := arguments_of_calleePath hpath
    rw [Call.arguments, hcallee]
    exact ⟨[], .nil, List.nil_sublist _⟩

/-- The arguments of a partial are taken over, -/
theorem PartialCall.Of.takenOver {indent : String} {p : PartialCall} (h : p.Of scope indent call) :
    TakenOver scope call.arguments p.arguments := by
  have htarget := TakenOver.of_forall₂ h.target.forall₂_arguments
  have hhash := TakenOver.of_forall₂ h.hash_arguments
  have hparams : TakenOver scope (paramsArguments call.params)
      (p.context :: p.context.arguments) := by
    rcases h.context_arguments with ⟨hnone, -⟩ | hcontext
    · rw [hnone]
      exact ⟨[], .nil, List.nil_sublist _⟩
    · exact .of_forall₂ hcontext
  obtain ⟨callee, params, hash⟩ := call
  rw [Call.arguments, PartialCall.arguments, ← List.cons_append]
  exact htarget.append (hparams.append hhash)

/-- those of a decorator, -/
theorem compileDecorator_takenOver {path path' : Path} {body : Option Child} {span : Span}
    {d : Decorator} (hpath : calleePath call.callee = .ok path')
    (h : compileDecorator scope path body span call = .ok d) :
    TakenOver scope call.arguments d.arguments := by
  obtain ⟨callee, params, hash⟩ := call
  have hcallee : callee.arguments = [] := arguments_of_calleePath hpath
  rw [Call.arguments, hcallee]
  exact .of_forall₂ (compileDecorator_arguments h)

/-- The arguments in the function that is made of the pieces. -/
def Pieces.arguments (pieces : Pieces) : List Code :=
  pieces.operands.flatMap (·.value.arguments) ++ pieces.decorators.flatMap (·.value.arguments)

/-- what an operand takes over, -/
theorem TakenOver.of_operand {arguments : List Expression} {pieces : Pieces} {o : Traced Operand}
    (ho : o ∈ pieces.operands) (h : TakenOver scope arguments o.value.arguments) :
    TakenOver scope arguments pieces.arguments := by
  have hsub : o.value.arguments.Sublist (pieces.operands.flatMap (·.value.arguments)) :=
    List.sublist_flatten_of_mem (List.mem_map.2 ⟨o, ho, rfl⟩)
  exact h.mono (hsub.trans (List.sublist_append_left ..))

/-- or a decorator, -/
theorem TakenOver.of_decorator {arguments : List Expression} {pieces : Pieces}
    {d : Traced Decorator} (hd : d ∈ pieces.decorators)
    (h : TakenOver scope arguments d.value.arguments) :
    TakenOver scope arguments pieces.arguments := by
  have hsub : d.value.arguments.Sublist (pieces.decorators.flatMap (·.value.arguments)) :=
    List.sublist_flatten_of_mem (List.mem_map.2 ⟨d, hd, rfl⟩)
  exact h.mono (hsub.trans (List.sublist_append_right ..))

/-- and so those of a statement, -/
theorem Compiles.takenOver {next : Nat} {s : Statement} {pieces : Pieces}
    (h : Compiles scope next s pieces) (hfree : ¬ s.IsBound scope.params)
    (hcall : s.call? = some call) : TakenOver scope call.arguments pieces.arguments := by
  cases h with
  | content | comment => cases hcall
  | mustache hi =>
    cases hcall
    exact .of_operand (List.mem_singleton_self _) (compileInvocation_takenOver hi hfree)
  | block _ _ hi =>
    cases hcall
    exact .of_operand (List.mem_singleton_self _) (compileInvocation_takenOver hi hfree)
  | partialCall hp =>
    cases hcall
    exact .of_operand (List.mem_append_right _ (List.mem_singleton_self _))
      (compilePartial_of hp).takenOver
  | partialBlock hp =>
    cases hcall
    exact .of_operand (List.mem_singleton_self _) (compilePartial_of hp).takenOver
  | decorator hpath hd =>
    cases hcall
    exact .of_decorator (List.mem_singleton_self _) (compileDecorator_takenOver hpath hd)
  | decoratorBlock hpath _ hd =>
    cases hcall
    exact .of_decorator (List.mem_singleton_self _) (compileDecorator_takenOver hpath hd)

/-- anywhere in a body. -/
theorem compileStatements_takenOver {next : Nat} {body : List Statement} {pieces : Pieces}
    (h : compileStatements scope next body = .ok pieces) {s : Statement} (hs : s ∈ body)
    (hfree : ¬ s.IsBound scope.params) (hcall : s.call? = some call) :
    TakenOver scope call.arguments pieces.arguments := by
  refine compileStatements_induction
    (P := fun body pieces => s ∈ body → TakenOver scope call.arguments pieces.arguments) nofun ?_ h hs
  intro next s' rest first more hfirst ih hs
  rcases List.mem_cons.1 hs with rfl | hs
  · refine (hfirst.takenOver hfree hcall).mono ?_
    rw [Pieces.arguments, Pieces.arguments, Pieces.append, List.flatMap_append,
      List.flatMap_append]
    exact (List.sublist_append_left ..).append (List.sublist_append_left ..)
  · refine (ih hs).mono ?_
    rw [Pieces.arguments, Pieces.arguments, Pieces.append, List.flatMap_append,
      List.flatMap_append]
    exact (List.sublist_append_right ..).append (List.sublist_append_right ..)

end

/-- **The arguments of a call** are among those of the function of its program. -/
theorem Specification.takenOver {options : CompilerOptions} {p : Program} {spec : Specification}
    (h : Specification.ofProgram options p = .ok spec) {lineage : List Program}
    (hlineage : lineage ∈ p.lineages []) {q : Program} (hq : lineage.head? = some q)
    {s : Statement} (hs : s ∈ q.body) {call : Call} (hcall : s.call? = some call)
    (hfree : ¬ s.IsBound (lineage.map (·.blockParams))) :
    ∃ fn ∈ spec.functions, TakenOver (Scope.of options lineage) call.arguments fn.arguments := by
  obtain ⟨fn, hfn, q', next, pieces, hq', hpieces, rfl⟩ :=
    exists_of_mem_forall₂ (ofProgram_compiledAt h).flip hlineage
  obtain rfl : q = q' := Option.some.inj (hq.symm.trans hq')
  have hmem : pieces.function q.span ∈ spec.functions := by
    rw [Specification.functions, List.mem_append, List.mem_singleton]
    exact (List.mem_cons.1 hfn).symm
  exact ⟨_, hmem, compileStatements_takenOver hpieces hs hfree hcall⟩

/-! ## Strings -/

/-- The text is a literal for these characters: they are what is read, whatever comes after it, and
    it ends no line. -/
def Denotes (literal : String) (value : List Char) : Prop :=
  (∀ rest, readString (literal.toList ++ rest) = some (utf16 value, rest))
    ∧ ∀ c ∈ literal.toList, isLineTerminator c = false

/-- A quoted text denotes its characters. -/
theorem denotes_scriptQuoted (value : List Char) :
    Denotes (Text.scriptQuoted (String.ofList value)) value := by
  constructor
  · intro rest
    rw [readString_scriptQuoted, String.toList_ofList]
  · rw [toList_scriptQuoted]
    refine List.forall_mem_cons.2 ⟨rfl, List.forall_mem_append.2
      ⟨?_, List.forall_mem_singleton.2 rfl⟩⟩
    intro c hc
    obtain ⟨d, -, hc⟩ := List.mem_flatMap.1 hc
    exact isLineTerminator_scriptEscape d c hc

end Script

/-- The text between quotes, as it is written at `start`. -/
def Expression.quotedAt (start : Position) (quote : Char) (value : List Char) : Expression :=
  .string (String.ofList value) (String.ofList (quotedBy quote value))
    ⟨start, start.advance (quotedBy quote value)⟩

/-- Each program of a tree has a lineage, and stands at the head of it. -/
theorem Program.exists_lineage_iff {p q : Program} :
    (∃ lineage ∈ p.lineages [], lineage.head? = some q) ↔ q ∈ p.family := by
  rw [← List.mem_map, p.map_head?_lineages []]
  simp

open Script in
/-- **Strings keep their value.**  Where a template has a string as an argument, any text may be
    written instead, between quotes of either kind and with a backslash before each of these in it,
    unless the last character of the text is a backslash.  The new template is parsed, and there the
    argument is a string with the text for its value.  In every scope it is compiled to a literal
    for the text, and this is an argument in the code of the template and part of it, unless the
    callee is a block parameter. -/
theorem Compiler.standard_strings {quote quote' : Char} (hquote : IsQuote quote)
    (hquote' : IsQuote quote') {old value : List Char} (hold : old.getLast? ≠ some '\\')
    (hvalue : value.getLast? ≠ some '\\') {before after : List Char} {fields : Json.Fields}
    {t : Template}
    (hparse : Compiler.standard.parse (String.ofList (before ++ quotedBy quote old ++ after)) fields
      = .ok t)
    (hplace : ∃ p ∈ t.root.family, ∃ e ∈ p.arguments,
      e.span.start = Position.origin.advance before) :
    let e := Expression.quotedAt (Position.origin.advance before) quote' value
    ∃ t', Compiler.standard.parse (String.ofList (before ++ quotedBy quote' value ++ after)) fields
        = .ok t'
      ∧ (∃ lineage ∈ t'.root.lineages [], ∃ p s call, lineage.head? = some p ∧ s ∈ p.body
        ∧ s.call? = some call ∧ e ∈ call.arguments
        ∧ ∀ fields' compiled, Compiler.standard.compile t' fields' = .ok compiled →
          ¬ s.IsBound (lineage.map (·.blockParams)) →
          ∃ options spec, Specification.ofProgram options t'.root = .ok spec
            ∧ compiled.code = spec.code
            ∧ ∃ fn ∈ spec.functions, ∃ code ∈ fn.arguments,
              compileArgument (Scope.of options lineage) e = .ok code
                ∧ Within (code.write spec.features) compiled.code)
      ∧ ∀ scope f, ∃ code, compileArgument scope e = .ok code ∧ Denotes (code.write f) value := by
  intro e
  -- both texts differ between the same quotes only,
  have htext (quote : Char) (value : List Char) : before ++ quotedBy quote value ++ after
      = before ++ quote :: (escapeQuotes quote value ++ quote :: after) := by
    simp [quotedBy]
  rw [htext] at hparse ⊢
  obtain ⟨options, hoptions, hparsed⟩ := exists_of_bind_ok hparse
  obtain ⟨p, hp, e₀, he₀, hstart⟩ := hplace
  have he : Grammar.literal? ⟨.string (String.ofList value), String.ofList (quotedBy quote' value),
      Position.origin.advance before⟩ = some e := by
    rw [Grammar.literal?, Token.span, Token.stop, String.toList_ofList]
    rfl
  -- so the argument stands in the same place of the new file
  obtain ⟨t', hparsed', q, hq, hmem⟩ := Template.parse_replace hquote hquote'
    (TokenKind.read_quotedBy hquote hold after) (TokenKind.read_quotedBy hquote' hvalue after) rfl
    hstart he (of_mapError_ok hparsed) hp he₀
  obtain ⟨s, hs, call, hcall, hmem⟩ := Program.mem_arguments.1 hmem
  obtain ⟨lineage, hlineage, hhead⟩ := Program.exists_lineage_iff.2 hq
  refine ⟨t', ?parsed, ⟨lineage, hlineage, q, s, call, hhead, hs, hcall, hmem, ?compiled⟩,
    fun _ _ => ⟨_, rfl, denotes_scriptQuoted value⟩⟩
  case parsed =>
    show (CompilerOptions.read fields >>= Template.parseUnder _) = _
    rw [hoptions]
    show (Template.parse _ _ _).mapError _ = _
    rw [hparsed']
    rfl
  case compiled =>
    intro fields' compiled hcompile hfree
    obtain ⟨options', -, hcompiled⟩ := exists_of_bind_ok hcompile
    obtain ⟨spec, hspec, hcode, -⟩ := Template.compileUnder_ok hcompiled
    obtain ⟨fn, hfn, htaken⟩ := Specification.takenOver hspec hlineage hhead hs hcall hfree
    obtain ⟨code, hmemCode, hcompiledTo⟩ := htaken.exists_code hmem
    refine ⟨options', spec, hspec, hcode, fn, hfn, code, hmemCode, hcompiledTo, ?_⟩
    exact hcode ▸ Specification.within_code hfn hmemCode

open Script in
/-- The value of a pair.  It takes the place of the empty text and has quotes of both kinds, two
    braces and a line separator in it. -/
theorem Compiler.standard_strings_at_pair :
    let value := "it's \"\x7d\x7d\"\\\u2028".toList
    let text := "\x7b\x7bfoo \"x\" a='it\\'s \"\x7d\x7d\"\\\u2028'\x7d\x7d"
    ∃ t compiled literal, Compiler.standard.parse text [] = .ok t
      ∧ Compiler.standard.compile t [] = .ok compiled
      ∧ (∃ p ∈ t.root.family, Expression.quotedAt ⟨1, 12⟩ '\'' value ∈ p.arguments)
      ∧ Denotes literal value ∧ Within literal compiled.code := by
  intro value text
  have hold : ([] : List Char).getLast? ≠ some '\\' := by decide
  have hvalue : value.getLast? ≠ some '\\' := by decide +kernel
  have hbefore : Position.origin.advance "\x7b\x7bfoo \"x\" a=".toList = ⟨1, 12⟩ := by
    decide +kernel
  have htext : String.ofList ("\x7b\x7bfoo \"x\" a=".toList ++ quotedBy '\'' value
      ++ "\x7d\x7d".toList) = text := by
    decide +kernel
  obtain ⟨t, hparse, hplace⟩ := exists_ok
    (e := Compiler.standard.parse (String.ofList ("\x7b\x7bfoo \"x\" a=".toList ++ quotedBy '"' []
      ++ "\x7d\x7d".toList)) [])
    (P := fun t => (t.root.arguments.any fun e => e.span.start
      = Position.origin.advance "\x7b\x7bfoo \"x\" a=".toList) = true)
    (by decide +kernel)
  obtain ⟨e₀, he₀, hstart⟩ := List.any_eq_true.1 hplace
  have hroot : t.root ∈ t.root.family := by
    rw [t.root.family_eq]
    exact List.mem_cons_self ..
  obtain ⟨t', hparse', ⟨lineage, hlineage, p, s, call, hp, hs, hcall, he, hcode⟩, hdenotes⟩ :=
    Compiler.standard_strings (.inl rfl) (.inr rfl) hold hvalue hparse
      ⟨t.root, hroot, e₀, he₀, of_decide_eq_true hstart⟩
  rw [htext] at hparse'
  rw [hbefore] at he hcode
  obtain ⟨t'', hrun, hcompile, hfree⟩ := exists_ok (e := Compiler.standard.parse text [])
    (P := fun t => (Compiler.standard.compile t []).isOk = true
      ∧ ∀ lineage ∈ t.root.lineages [], ∀ names ∈ lineage.map Program.blockParams, names = [])
    (by decide +kernel)
  obtain rfl : t' = t'' := Except.ok.inj (hparse'.symm.trans hrun)
  obtain ⟨compiled, hcompiled⟩ := exists_of_isOk hcompile
  obtain ⟨options, spec, -, -, fn, -, code, -, hcompiledTo, hwithin⟩ :=
    hcode [] compiled hcompiled (s.not_isBound (hfree lineage hlineage))
  obtain ⟨code', hcompiledTo', hdenotes⟩ := hdenotes (Scope.of options lineage) spec.features
  rw [hbefore] at hcompiledTo'
  obtain rfl : code = code' := Except.ok.inj (hcompiledTo.symm.trans hcompiledTo')
  have hfamily : p ∈ t'.root.family := Program.exists_lineage_iff.1 ⟨lineage, hlineage, hp⟩
  exact ⟨t', compiled, _, hrun, hcompiled,
    ⟨p, hfamily, Program.mem_arguments.2 ⟨s, hs, call, hcall, he⟩⟩, hdenotes, hwithin⟩

end Stache
