/-
  Code puts out what the template asks for, one for one.

  A statement CONTRIBUTES to the output of its program or it does not (`Statement.contributions`):
  content does unless it is empty, and mustaches, blocks and partials do.  Comments do not, nor do
  decorators, which are run beforehand instead (`Statement.decoration`).  The indentation in front
  of a partial is handed to it, or contributed as a text of its own if partials are not to be
  indented.

  1. **Calls of partials** (`PartialCall.isObject_options`, `PartialCall.tellsIndent`): the options
     of such a call are read as an object, and the indentation is among them unless it is empty.

  2. **Operands** (`compileStatements_contributions`): each contribution has an operand that is code
     for it (`Contribution.IsCode`), in the order of the statements, and there are no others.  One
     lemma for a statement, by cases on its kind, then an induction over the body; the decorators of
     a body go the same way (`compileStatements_decorations`).

  3. **Functions** (`Written`): the function of a program returns the sum of these operands, and
     there is a second function exactly if there are decorators to run.

  Together: the code of a template has, for each of its programs, what the statements of the program
  ask for (`Compiler.standard_contributions`).
-/
import Stache.Proofs.Script.Closed
import Stache.Proofs.Script.Form
import Stache.Proofs.Script.Strings
import Stache.Proofs.Script.Sums

namespace Stache

/-! ## What statements ask for -/

/-- A part of what a program puts out. -/
inductive Contribution where
  | text (value : String)
  | mustache (call : Call) (escaped : Bool) (span : Span)
  | block (call : Call) (span : Span)
  /-- A partial that is called with `indent` in front of its lines. -/
  | partialCall (call : Call) (indent : String) (span : Span)

/-- What a statement contributes to the output, in order. -/
def Statement.contributions (options : CompilerOptions) : Statement → List Contribution
  | .content c => if c.value = "" then [] else [.text c.value]
  | .mustache call escaped _ span => [.mustache call (escaped && !options.noEscape) span]
  | .block call _ _ _ span => [.block call span]
  | .partialCall call indent _ span =>
    if options.preventIndent then
      (if indent = "" then [] else [.text indent]) ++ [.partialCall call "" span]
    else [.partialCall call indent span]
  | .partialBlock call _ _ _ span => [.partialCall call "" span]
  | .comment _ _ _ | .decorator _ _ _ | .decoratorBlock _ _ _ _ _ => []

/-- The call of the decorator that a statement is. -/
def Statement.decoration : Statement → List (Call × Span)
  | .decorator call _ span | .decoratorBlock call _ _ _ span => [(call, span)]
  | .content _ | .comment _ _ _ | .mustache _ _ _ _ | .block _ _ _ _ _ | .partialCall _ _ _ _
  | .partialBlock _ _ _ _ _ => []

namespace Script

open Text (scriptQuoted braces field)

/-! ## Calls of partials -/

/-- The options that a partial call may have: their names, and what is written for those that it
    has. -/
def PartialCall.options (f : Features) (p : PartialCall) : List (String × Option String) :=
  [("name", p.target.name?.map scriptQuoted), ("hash", p.hash.map (writeHash f)),
    ("fn", p.body.map (Child.write f)), ("inverse", p.body.map fun _ => Child.noop.write f),
    ("data", if f.data then some "data" else none),
    ("indent", if p.indent.isEmpty then none else some (scriptQuoted p.indent)),
    ("helpers", some "helpers"), ("partials", some "partials"),
    ("decorators", some "container.decorators")]

/-- Those of the options that are there. -/
def present (options : List (String × Option String)) : List (String × String) :=
  options.filterMap fun option => option.2.map (option.1, ·)

/-- An option is present if it has a text, -/
theorem mem_present {options : List (String × Option String)} {name text : String} :
    (name, text) ∈ present options ↔ (name, some text) ∈ options := by
  simp [present, List.mem_filterMap]

/-- and those that are stay in order. -/
theorem present_sublist (options : List (String × Option String)) :
    ((present options).map Prod.fst).Sublist (options.map Prod.fst) := by
  induction options with
  | nil => exact .slnil
  | cons option options ih =>
    obtain ⟨name, _ | text⟩ := option
    · exact ih.cons name
    · exact ih.cons_cons name

theorem PartialCall.fields_eq_present (f : Features) (p : PartialCall) :
    p.fields f = (present (p.options f)).map fun e => field e.1 e.2 := by
  obtain ⟨target, context, hash, body, indent⟩ := p
  simp only [fields, options, present, Features.dataField]
  cases target.name? <;> cases hash <;> cases body <;> cases f.data <;> cases indent.isEmpty <;> rfl

theorem PartialCall.mem_options_indent {f : Features} {p : PartialCall} {text : String} :
    ("indent", some text) ∈ p.options f ↔ p.indent ≠ "" ∧ text = scriptQuoted p.indent := by
  simp [options]

/-- A program is a part between commas. -/
theorem Child.isPart_write (f : Features) (child : Child) : IsPart ',' (child.write f) := by
  cases child with
  | noop =>
    have hnoop : IsPart ',' "container.noop" := ⟨.of_pass rfl, by decide, by decide⟩
    exact hnoop
  | program number params =>
    have hopen : Passes ',' [] "container.program(" [')'] := .of_pass rfl
    have hclose : Passes ',' [')'] ")" [] := .of_pass rfl
    exact .around hopen (balanced_programArguments f number params) hclose (by decide) (by decide)

/-- No option has a comma outside. -/
theorem PartialCall.isPart_options {f : Features} {p : PartialCall} (h : p.Balances f) :
    ∀ option ∈ p.options f, ∀ text ∈ option.2, IsPart ',' text := by
  have hhelpers : IsPart ',' "helpers" := ⟨.of_pass rfl, by decide, by decide⟩
  have hpartials : IsPart ',' "partials" := ⟨.of_pass rfl, by decide, by decide⟩
  have hdecorators : IsPart ',' "container.decorators" := ⟨.of_pass rfl, by decide, by decide⟩
  have hdata : IsPart ',' "data" := ⟨.of_pass rfl, by decide, by decide⟩
  have hquoted (value : String) : IsPart ',' (scriptQuoted value) :=
    isPart_scriptQuoted (by decide) value
  simp only [options, List.forall_mem_cons, Option.mem_def, Option.some.injEq, forall_eq']
  -- each option is one part, whatever is in it
  refine ⟨?name, ?hash, ?fn, ?inverse, ?data, ?indent, hhelpers, hpartials, hdecorators,
    List.forall_mem_nil _⟩
  case name =>
    intro text htext
    obtain ⟨name, -, rfl⟩ := Option.map_eq_some_iff.1 htext
    exact hquoted name
  case hash =>
    intro text htext
    obtain ⟨hash, hhash, rfl⟩ := Option.map_eq_some_iff.1 htext
    exact isPart_braces (h.hash hash hhash)
  case fn | inverse =>
    intro text htext
    obtain ⟨child, -, rfl⟩ := Option.map_eq_some_iff.1 htext
    exact Child.isPart_write f _
  case data =>
    intro text htext
    split at htext <;> cases htext
    exact hdata
  case indent =>
    intro text htext
    split at htext <;> cases htext
    exact hquoted p.indent

/-- A partial is told of this indentation, and of none if there is none. -/
structure TellsIndent (fields : List (String × String)) (indent : String) : Prop where
  told : "indent" ∈ fields.map Prod.fst ↔ indent ≠ ""
  denotes : ∀ literal, ("indent", literal) ∈ fields → Denotes literal indent.toList

theorem denotes_scriptQuoted_self (value : String) : Denotes (scriptQuoted value) value.toList := by
  have hdenotes := denotes_scriptQuoted value.toList
  rwa [String.ofList_toList] at hdenotes

theorem PartialCall.tellsIndent (f : Features) (p : PartialCall) :
    TellsIndent (present (p.options f)) p.indent := by
  refine ⟨by simp [mem_present, mem_options_indent], fun literal hliteral => ?_⟩
  obtain ⟨-, rfl⟩ := mem_options_indent.1 (mem_present.1 hliteral)
  exact denotes_scriptQuoted_self p.indent

/-- **The options are read as an object** with these fields. -/
theorem PartialCall.isObject_options {f : Features} {p : PartialCall} (h : p.Balances f) :
    IsObject (braces (p.fields f)) (present (p.options f)) := by
  have hkeys := present_sublist (p.options f)
  have hnames : ∀ name ∈ (p.options f).map Prod.fst, name.toList.all isNameChar = true := by
    show ∀ name ∈ ["name", "hash", "fn", "inverse", "data", "indent", "helpers", "partials",
      "decorators"], name.toList.all isNameChar = true
    decide
  have hne : present (p.options f) ≠ [] :=
    List.ne_nil_of_mem (mem_present.2 (by simp [options] : ("helpers", some "helpers") ∈ _))
  rw [fields_eq_present]
  refine isObject_braces hne (hkeys.nodup (by simp [options]))
    (fun e he => List.all_eq_true.1 (hnames _ (hkeys.subset (List.mem_map_of_mem he))))
    fun e he => ?_
  exact isPart_options h _ (mem_present.1 he) _ rfl

/-! ## Operands -/

/-- The text is an operand that puts out what is asked for, in a scope. -/
inductive Contribution.IsCode (f : Features) (scope : Scope) : Contribution → String → Prop where
  | text {value literal : String} (h : Denotes literal value.toList) :
      IsCode f scope (.text value) literal
  | mustache {call : Call} {escaped : Bool} {span : Span} {i : Invocation}
      (h : compileInvocation scope none span call = .ok i) :
      IsCode f scope (.mustache call escaped span) ((Operand.mustache escaped i).write f)
  | block {call : Call} {span : Span} {sections : Sections} {i : Invocation}
      (h : compileInvocation scope (some sections) span call = .ok i) :
      IsCode f scope (.block call span) ((Operand.block i).write f)
  | partialCall {call : Call} {indent : String} {span : Span} {p : PartialCall}
      {options : String} {fields : List (String × String)}
      (h : compilePartial scope indent span call = .ok p) (hoptions : IsObject options fields)
      (hindent : TellsIndent fields indent) :
      IsCode f scope (.partialCall call indent span)
        (orEmpty ("container.invokePartial(" ++ p.target.write f ++ "," ++ p.context.write f ++ ","
          ++ options ++ ")"))

/-- The text runs the decorator with this call, in a scope. -/
def IsDecoratorCode (f : Features) (scope : Scope) (decoration : Call × Span) (text : String) :
    Prop :=
  ∃ path body d, calleePath decoration.1.callee = .ok path
    ∧ compileDecorator scope path body decoration.2 decoration.1 = .ok d ∧ text = d.write f

section Bodies

variable {f : Features} {scope : Scope} {next : Nat}

/-- A partial is called with the section that comes with it, or with none. -/
theorem isCode_partialCall {indent : String} {span : Span} {call : Call} {p : PartialCall}
    (h : compilePartial scope indent span call = .ok p) (hcall : call.IsNumeric)
    (body : Option Child) :
    Contribution.IsCode f scope (.partialCall call indent span)
      ((Operand.partialCall { p with body := body }).write f) := by
  obtain ⟨htarget, hcontext, hhash⟩ := compilePartial_balances f h hcall
  have hoptions := PartialCall.isObject_options (p := { p with body := body })
    ⟨htarget, hcontext, hhash⟩
  have htells := PartialCall.tellsIndent f { p with body := body }
  exact .partialCall (p := p) h hoptions ((compilePartial_of h).indent ▸ htells)

/-- **What a statement is compiled to** is what it asks for. -/
theorem Compiles.contributions {s : Statement} {pieces : Pieces}
    (h : Compiles scope next s pieces) (hcalls : ∀ call, s.call? = some call → call.IsNumeric) :
    List.Forall₂ (Contribution.IsCode f scope) (s.contributions scope.options)
      (pieces.operands.map fun o => o.value.write f) := by
  cases h with
  | content c =>
    rw [Statement.contributions]
    simp only [String.isEmpty_iff]
    split
    · exact .nil
    · exact .cons (.text (denotes_scriptQuoted_self _)) .nil
  | mustache h => exact .cons (.mustache h) .nil
  | block _ _ h => exact .cons (.block h) .nil
  | partialCall h =>
    rename_i call indent strip span p
    have hcall := isCode_partialCall (f := f) h (hcalls _ rfl) p.body
    rw [Statement.contributions]
    dsimp only
    rw [List.map_append]
    -- The indentation is a text of its own, or the partial is told of it.
    cases hapart : scope.options.preventIndent with
    | true =>
      rw [hapart] at hcall
      refine List.rel_append ?_ (.cons hcall .nil)
      simp only [if_true, indentOperand, String.isEmpty_iff]
      split
      · exact .nil
      · exact .cons (.text (denotes_scriptQuoted_self _)) .nil
    | false =>
      rw [hapart] at hcall
      exact .cons hcall .nil
  | partialBlock h _ => exact .cons (isCode_partialCall h (hcalls _ rfl) _) .nil
  | comment | decorator | decoratorBlock => exact .nil

/-- The same for what a statement runs. -/
theorem Compiles.decoration {s : Statement} {pieces : Pieces} (h : Compiles scope next s pieces) :
    List.Forall₂ (IsDecoratorCode f scope) s.decoration
      (pieces.decorators.map fun d => d.value.write f) := by
  cases h with
  | decorator hpath h => exact .cons ⟨_, _, _, hpath, h, rfl⟩ .nil
  | decoratorBlock hpath _ h => exact .cons ⟨_, _, _, hpath, h, rfl⟩ .nil
  | content | comment | mustache | block | partialCall | partialBlock => exact .nil

/-- What is made of statements follows them, if it does for each that has a property. -/
theorem compileStatements_forall₂ {α : Type} {P : Statement → Prop} {R : α → String → Prop}
    {wanted : Statement → List α} {g : Pieces → List String} (hnone : g .none = [])
    (happend : ∀ a b, g (a.append b) = g a ++ g b)
    (hone : ∀ {next s pieces}, Compiles scope next s pieces → P s →
      List.Forall₂ R (wanted s) (g pieces))
    {body : List Statement} {pieces : Pieces} (h : compileStatements scope next body = .ok pieces)
    (hbody : ∀ s ∈ body, P s) : List.Forall₂ R (body.flatMap wanted) (g pieces) := by
  refine compileStatements_induction (P := fun body pieces => (∀ s ∈ body, P s) →
    List.Forall₂ R (body.flatMap wanted) (g pieces)) ?_ ?_ h hbody
  · intro _
    rw [hnone]
    exact .nil
  · intro next s rest first more hfirst ih hbody
    obtain ⟨hs, hrest⟩ := List.forall_mem_cons.1 hbody
    rw [List.flatMap_cons, happend]
    exact List.rel_append (hone hfirst hs) (ih hrest)

/-- Each contribution of a body has its operand, -/
theorem compileStatements_contributions {body : List Statement} {pieces : Pieces}
    (h : compileStatements scope next body = .ok pieces)
    (hcalls : ∀ s ∈ body, ∀ call, s.call? = some call → call.IsNumeric) :
    List.Forall₂ (Contribution.IsCode f scope)
      (body.flatMap (Statement.contributions scope.options))
      (pieces.operands.map fun o => o.value.write f) :=
  compileStatements_forall₂ (g := fun pieces => pieces.operands.map _) rfl
    (fun _ _ => List.map_append) Compiles.contributions h hcalls

/-- and each decoration its decorator. -/
theorem compileStatements_decorations {body : List Statement} {pieces : Pieces}
    (h : compileStatements scope next body = .ok pieces) :
    List.Forall₂ (IsDecoratorCode f scope) (body.flatMap Statement.decoration)
      (pieces.decorators.map fun d => d.value.write f) :=
  compileStatements_forall₂ (P := fun _ => True) (g := fun pieces => pieces.decorators.map _)
    rfl (fun _ _ => List.map_append) (fun h _ => h.decoration) h fun _ _ => trivial

end Bodies

/-! ## Functions -/

/-- Code with these fields has the functions of program number `number`: the first puts out what the
    statements ask for, and there is a second one if there is something to run, and it runs this. -/
structure Written (f : Features) (scope : Scope) (entries : List (String × String)) (number : Nat)
    (body : List Statement) : Prop where
  returns : ∃ text operands, (programKey number, text) ∈ entries ∧ Returns f text operands
    ∧ List.Forall₂ (Contribution.IsCode f scope)
      (body.flatMap (Statement.contributions scope.options)) operands
  runs : body.flatMap Statement.decoration ≠ [] → ∃ text calls,
    (decoratorKey number, text) ∈ entries ∧ Runs text calls
      ∧ List.Forall₂ (IsDecoratorCode f scope) (body.flatMap Statement.decoration) calls
  alone : body.flatMap Statement.decoration = [] → decoratorKey number ∉ entries.map Prod.fst

/-- The key of a second function is there only with that function. -/
theorem Specification.exists_of_mem_decoratorKey {s : Specification} {number : Nat}
    (h : decoratorKey number ∈ s.keys) :
    ∃ fn, (fn, number) ∈ (s.main :: s.programs).zipIdx ∧ fn.decorators ≠ [] := by
  have hword : decoratorKey number ∉ ["compiler", "main"] ++ s.flags :=
    fun hword => (mem_words s hword).1 (mem_decoratorKey number)
  rw [s.keys_eq] at h
  simp only [List.mem_append, or_assoc] at h hword
  obtain hnumber | hversion | hsecond | hflag := h
  · obtain ⟨n, -, hn⟩ := List.mem_map.1 hnumber
    exact absurd hn.symm (ne_numeral (mem_decoratorKey number) rfl n)
  · exact absurd (.inl hversion) hword
  · obtain ⟨⟨fn, n⟩, hentry, hn⟩ := List.mem_map.1 hsecond
    obtain ⟨hmem, hdecorators⟩ := List.mem_filter.1 hentry
    obtain rfl := decoratorKey_injective hn
    exact ⟨fn, hmem, by simpa using hdecorators⟩
  · exact absurd (.inr hflag) hword

/-- The functions of a specification are written for the bodies of their programs. -/
theorem Specification.written {options : CompilerOptions} {p : Program} {s : Specification}
    (h : Specification.ofProgram options p = .ok s)
    (hcalls : ∀ q ∈ p.family, ∀ st ∈ q.body, ∀ call, st.call? = some call → call.IsNumeric)
    {number : Nat} {q : Program} (hq : p.family[number]? = some q) :
    ∃ lineage ∈ p.lineages [], lineage.head? = some q
      ∧ Written s.features (Scope.of options lineage) s.entries number q.body := by
  -- the function of that number is compiled from the program of that number,
  have hheads : ((p.lineages []).map List.head?)[number]? = some (some q) := by
    rw [p.map_head?_lineages, List.getElem?_map, hq]
    rfl
  rw [List.getElem?_map, Option.map_eq_some_iff] at hheads
  obtain ⟨lineage, hlineage, hhead⟩ := hheads
  obtain ⟨fn, hfn, q', next, pieces, hq', hpieces, rfl⟩ :=
    getElem?_of_forall₂ (ofProgram_compiledAt h) hlineage
  obtain rfl : q = q' := Option.some.inj (hhead.symm.trans hq')
  have hplace := List.mk_mem_zipIdx_iff_getElem?.2 hfn
  have hfamily := List.mem_of_getElem? hq
  obtain ⟨hoperands, hdecorators⟩ := compileStatements_of hpieces
  have hruns := compileStatements_decorations (f := s.features) hpieces
  -- and has decorators exactly if the program has
  have hnone : q.body.flatMap Statement.decoration = [] ↔ pieces.decorators = [] := by
    rw [← List.length_eq_zero_iff, hruns.length_eq, List.length_map, List.length_eq_zero_iff]
  refine ⟨lineage, List.mem_of_getElem? hlineage, hhead, ?returns, ?runs, ?alone⟩
  case returns =>
    refine ⟨_, _, s.mem_entries_function hplace, Function.returns_write ?_,
      compileStatements_contributions hpieces (hcalls q hfamily)⟩
    intro o ho
    obtain ⟨st, hst, hmade⟩ := hoperands o ho
    exact hmade.balances s.features (hcalls q hfamily st hst)
  case runs =>
    intro hne
    refine ⟨_, _, s.mem_entries_second hplace (mt hnone.2 hne), Function.runs_writeDecorators ?_,
      hruns⟩
    intro d hd
    obtain ⟨st, hst, hmade⟩ := hdecorators d hd
    exact hmade.balances s.features (hcalls q hfamily st hst)
  case alone =>
    intro hempty hkey
    obtain ⟨fn, hfn', hne⟩ := exists_of_mem_decoratorKey hkey
    obtain rfl := Option.some.inj (hfn.symm.trans (List.mk_mem_zipIdx_iff_getElem?.1 hfn'))
    exact hne (hnone.1 hempty)

end Script

/-! ## Templates -/

/-- **Code puts out what the template asks for**: the function of each program returns a sum that
    has one operand for each contribution of a statement, in their order, and no others, and the
    decorators of the program are run by its second function, in their order. -/
theorem Compiler.standard_contributions {text : String} {fields fields' : Json.Fields}
    {t : Template} {compiled : Compiled}
    (hparse : Compiler.standard.parse text fields = .ok t)
    (hcompile : Compiler.standard.compile t fields' = .ok compiled) :
    ∃ options entries, CompilerOptions.read fields' = .ok options
      ∧ Script.IsObject compiled.code entries
      ∧ ∀ number p, t.root.family[number]? = some p →
        ∃ lineage ∈ t.root.lineages [], lineage.head? = some p
          ∧ Script.Written (Script.Features.ofProgram options t.root)
            (Script.Scope.of options lineage) entries number p.body := by
  obtain ⟨_, _, hparsed⟩ := Compiler.parse_standard hparse
  obtain ⟨options, hoptions, hcompile⟩ := exists_of_bind_ok hcompile
  obtain ⟨s, hs, hcode, -⟩ := Template.compileUnder_ok hcompile
  have hcalls : ∀ q ∈ t.root.family, ∀ st ∈ q.body, ∀ call, st.call? = some call →
      call.IsNumeric :=
    fun q hq st hst call hcall => Template.parse_numeric hparsed hq hst hcall
  refine ⟨options, s.entries, hoptions, ?object, fun number p hp => ?written⟩
  case object =>
    rw [hcode]
    exact Script.Specification.isObject_code (Script.Specification.balances hs hcalls)
  case written =>
    rw [← Script.Specification.features_ofProgram hs]
    exact Script.Specification.written hs hcalls hp

/-- Partials on lines of their own, in a section and outside of it, where partials are not to be
    indented.  A content that is emptied, a comment and an empty section put out nothing, and there
    are decorators with a section and without. -/
theorem Compiler.standard_contributions_at_indents :
    let text := "a+\"b\"\n  \x7b\x7b> c\x7d\x7d\n\x7b\x7b#if d\x7d\x7d\n"
      ++ "\t\x7b\x7b> e f=1\x7d\x7d\n\x7b\x7b! g \x7d\x7d\x7b\x7bh\x7d\x7d"
      ++ "\x7b\x7b* i\x7d\x7d\x7b\x7belse\x7d\x7d\x7b\x7b/if\x7d\x7d"
      ++ "\x7b\x7b#* j\x7d\x7d;\x7b\x7b/j\x7d\x7d\x7b\x7b* k\x7d\x7d"
      ++ "\x7b\x7b#> l\x7d\x7d m \x7b\x7b/l\x7d\x7d"
    let fields := [("preventIndent", .bool true)]
    ∃ t compiled, Compiler.standard.parse text fields = .ok t
      ∧ Compiler.standard.compile t fields = .ok compiled
      ∧ ∃ options entries, CompilerOptions.read fields = .ok options
        ∧ Script.IsObject compiled.code entries
        ∧ ∀ number p, t.root.family[number]? = some p →
          ∃ lineage ∈ t.root.lineages [], lineage.head? = some p
            ∧ Script.Written (Script.Features.ofProgram options t.root)
              (Script.Scope.of options lineage) entries number p.body := by
  intro text fields
  obtain ⟨compiled, hrun⟩ := exists_of_isOk
    (e := Compiler.standard.parse text fields >>= fun t => Compiler.standard.compile t fields)
    (by decide +kernel)
  obtain ⟨t, hparse, hcompile⟩ := exists_of_bind_ok hrun
  exact ⟨t, compiled, hparse, hcompile, Compiler.standard_contributions hparse hcompile⟩

end Stache
