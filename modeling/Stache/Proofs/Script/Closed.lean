/-
  Compiled code is closed.

  The code of a template refers to programs by their numbers and to variables by their names, and it
  has what it refers to (`Code.Closed`).  The numbered programs are there, one for each program of
  the tree but the root, each under its number; each number is used once, by the function of the
  program that contains its block; a function mentions a variable only if the variable is among its
  parameters, and the code then asks for the variable to be handed over; and what is optional is
  there exactly when the tree asks for it.

  Three facts meet here: how programs are numbered (`Specification.uses_ofProgram`), what the text
  of a function refers to (`Function.programNumbers_write`, `Function.refers_bodyChunks`), and that
  variables are there for all calls of the tree (`Specification.refers`).
-/
import Mathlib.Data.List.Perm.Basic
import Stache.Proofs.Script.Fields
import Stache.Proofs.Script.Origins
import Stache.Proofs.Script.Variables

namespace Stache

/-! ## Programs -/

/-- Whether a statement is a decorator, -/
def Statement.isDecorator : Statement → Bool
  | .decorator _ _ _ | .decoratorBlock _ _ _ _ _ => true
  | _ => false

/-- or the call of a partial. -/
def Statement.isPartial : Statement → Bool
  | .partialCall _ _ _ _ | .partialBlock _ _ _ _ _ => true
  | _ => false

/-- The program directly contains a decorator, with a section or without. -/
def Program.isDecorated (p : Program) : Bool := p.body.any Statement.isDecorator

/-- The program directly contains the call of a partial, with a section or without. -/
def Program.callsPartials (p : Program) : Bool := p.body.any Statement.isPartial

open Script in
/-- The flags that the code of a tree sets. -/
def Program.flags (options : CompilerOptions) (p : Program) : List String :=
  let features := Features.ofProgram options p
  [("useDecorators", p.family.any Program.isDecorated),
    ("usePartial", p.family.any Program.callsPartials), ("useData", features.data),
    ("useDepths", features.depths), ("useBlockParams", features.blockParams)].filterMap
    fun flag => if flag.2 then some flag.1 else none

open Script in
/-- The keys that the code of a tree has: the numbers of its programs, what is always there, the
    second functions of the programs that contain decorators, and flags. -/
def Program.keys (options : CompilerOptions) (p : Program) : List String :=
  (List.range' 1 (bodyPrograms p.body).length).map numeral ++ ["compiler", "main"]
    ++ (p.family.zipIdx.filter fun entry => entry.1.isDecorated).map (decoratorKey ·.2)
    ++ p.flags options

namespace Script

open Text (joined braces field)

/-! ## Functions and programs -/

/-- The root comes first in a family, and the main function before the others. -/
theorem Specification.compiledFrom_family {options : CompilerOptions} {p : Program}
    {s : Specification} (h : Specification.ofProgram options p = .ok s) :
    List.Forall₂ (Function.CompiledFrom options) (s.main :: s.programs) p.family := by
  obtain ⟨pieces, hpieces, rfl⟩ := ofProgram_ok h
  rw [p.family_eq]
  have hinside := compileStatements_compiledFrom hpieces
  exact .cons ⟨_, 1, pieces, rfl, hpieces, rfl⟩ hinside

/-- A function has decorators if its program does, -/
theorem Function.CompiledFrom.isEmpty_decorators {options : CompilerOptions} {fn : Function}
    {p : Program} (h : fn.CompiledFrom options p) :
    (!fn.decorators.isEmpty) = p.isDecorated := by
  have horigins := h.standsFor.decorators
  have hone (s : Statement) : s.isDecorator = !(decoratorOrigins s).isEmpty := by
    cases s <;> rfl
  rw [Program.isDecorated, ← List.isEmpty_map (f := (·.origin)), horigins]
  induction p.body with
  | nil => rfl
  | cons s rest ih =>
    rw [List.flatMap_cons, List.any_cons, ← ih, hone]
    cases decoratorOrigins s <;> rfl

/-- and calls partials if its program does. -/
theorem Function.CompiledFrom.any_isPartial {options : CompilerOptions} {fn : Function}
    {p : Program} (h : fn.CompiledFrom options p) :
    (fn.operands.any fun o => o.value.isPartial) = p.callsPartials := by
  have hsort (o : Traced Operand) :
      o.value.isPartial = decide ((sortOf o).value = .partialCall) := by
    rw [sortOf]
    cases o.value <;> rfl
  -- an indent is an operand beside the partial, and not one itself
  have hone (s : Statement) :
      (wantedOperands options s).any (fun o => decide (o.value = .partialCall)) = s.isPartial := by
    cases s with
    | content c =>
      rw [wantedOperands]
      split <;> rfl
    | partialCall call indent strip span =>
      rw [wantedOperands]
      split <;> rfl
    | comment | mustache | block | partialBlock | decorator | decoratorBlock => rfl
  calc (fn.operands.any fun o => o.value.isPartial)
      = (fn.operands.map sortOf).any fun o => decide (o.value = .partialCall) := by
        rw [List.any_map]
        exact congrArg _ (funext hsort)
    _ = p.body.any fun s => (wantedOperands options s).any fun o =>
          decide (o.value = .partialCall) := by
        rw [h.standsFor.operands, List.any_flatMap]
    _ = p.callsPartials := congrArg _ (funext hone)

/-! ## Keys -/

section Rows

variable {α β : Type} {R : α → β → Prop} {p : α → Bool} {q : β → Bool}

theorem any_eq_of_forall₂ {as : List α} {bs : List β} (h : List.Forall₂ R as bs)
    (hR : ∀ a b, R a b → p a = q b) : as.any p = bs.any q := by
  induction h with
  | nil => rfl
  | cons hab _ ih => rw [List.any_cons, List.any_cons, hR _ _ hab, ih]

/-- The places of what is looked for. -/
theorem filter_zipIdx_of_forall₂ {as : List α} {bs : List β} (h : List.Forall₂ R as bs)
    (hR : ∀ a b, R a b → p a = q b) (start : Nat) :
    ((as.zipIdx start).filter fun entry => p entry.1).map Prod.snd
      = ((bs.zipIdx start).filter fun entry => q entry.1).map Prod.snd := by
  induction h generalizing start with
  | nil => rfl
  | cons hab _ ih =>
    rw [List.zipIdx_cons, List.zipIdx_cons, List.filter_cons, List.filter_cons, hR _ _ hab]
    split
    · rw [List.map_cons, List.map_cons, ih]
    · exact ih _

end Rows

theorem Specification.functions_any (s : Specification) (p : Function → Bool) :
    s.functions.any p = (s.main :: s.programs).any p := by
  rw [functions, List.any_append, List.any_cons, List.any_cons, List.any_nil, Bool.or_false,
    Bool.or_comm]

/-- **The keys of the code** are those that the tree asks for. -/
theorem Specification.keys_ofProgram {options : CompilerOptions} {p : Program}
    {s : Specification} (h : Specification.ofProgram options p = .ok s) :
    s.keys = p.keys options := by
  have hfamily := compiledFrom_family h
  have hlength : s.programs.length = (bodyPrograms p.body).length := by
    have hall := hfamily.length_eq
    rwa [p.family_eq, List.length_cons, List.length_cons, Nat.add_right_cancel_iff] at hall
  have hdecorators : ((s.main :: s.programs).zipIdx.filter fun entry =>
        !entry.1.decorators.isEmpty).map (decoratorKey ·.2)
      = (p.family.zipIdx.filter fun entry => entry.1.isDecorated).map (decoratorKey ·.2) := by
    have hplaces := filter_zipIdx_of_forall₂ hfamily
      (fun _ _ hfrom => Function.CompiledFrom.isEmpty_decorators hfrom) 0
    have hkeys := congrArg (List.map decoratorKey) hplaces
    rwa [List.map_map, List.map_map] at hkeys
  have hflags : s.flags = p.flags options := by
    rw [flags, Program.flags, usesDecorators, usesPartials, functions_any, functions_any,
      any_eq_of_forall₂ hfamily fun _ _ hfrom => Function.CompiledFrom.isEmpty_decorators hfrom,
      any_eq_of_forall₂ hfamily fun _ _ hfrom => Function.CompiledFrom.any_isPartial hfrom,
      features_ofProgram h]
  rw [keys_eq, Program.keys, hlength, hdecorators, hflags]

/-! ## Uses -/

/-- Which function makes use of which number, as it is written in these fields. -/
def usesIn (entries : List (String × String)) : List (String × String) :=
  entries.flatMap fun e => (programNumbers e.2).map (e.1, ·)

theorem usesIn_append (entries more : List (String × String)) :
    usesIn (entries ++ more) = usesIn entries ++ usesIn more :=
  List.flatMap_append

theorem usesIn_cons (key text : String) (entries : List (String × String)) :
    usesIn ((key, text) :: entries) = (programNumbers text).map (key, ·) ++ usesIn entries :=
  List.flatMap_cons

/-- A use with the number as it is written. -/
def written (use : String × Nat) : String × String := (use.1, numeral use.2)

/-- The uses that the first functions make, numbered from `next` on. -/
def operandUses (next : Nat) (functions : List Function) : List (String × Nat) :=
  (functions.zipIdx next).flatMap fun entry =>
    (entry.1.operands.flatMap fun o => o.value.numbers).map (programKey entry.2, ·)

/-- The uses that the second functions make. -/
def decoratorUses (next : Nat) (functions : List Function) : List (String × Nat) :=
  (functions.zipIdx next).flatMap fun entry =>
    (entry.1.decorators.flatMap fun d => d.value.numbers).map (decoratorKey entry.2, ·)

theorem usesFrom_perm (next : Nat) (functions : List Function) :
    (operandUses next functions ++ decoratorUses next functions).Perm (usesFrom next functions) :=
  List.flatMap_append_perm ..

/-- The functions use what their operands do, -/
theorem Specification.usesIn_functionEntries {s : Specification}
    (h : ∀ fn ∈ s.functions, fn.Refers s.features) :
    usesIn s.functionEntries = (operandUses 1 s.programs).map written := by
  rw [usesIn, functionEntries, List.flatMap_map, operandUses, List.map_flatMap]
  refine List.flatMap_congr fun entry hentry => ?_
  have hfn := h entry.1 (List.mem_append_left _ (List.fst_mem_of_mem_zipIdx hentry))
  rw [Function.programNumbers_write hfn, programKey_of_mem hentry, List.map_map, List.map_map]
  rfl

/-- and the second functions what their decorators do. -/
theorem Specification.usesIn_decoratorEntries {s : Specification}
    (h : ∀ fn ∈ s.functions, fn.Refers s.features) :
    usesIn s.decoratorEntries = (decoratorUses 0 (s.main :: s.programs)).map written := by
  rw [usesIn, decoratorEntries, List.flatMap_map, flatMap_filter, decoratorUses, List.map_flatMap]
  refine List.flatMap_congr fun entry hentry => ?_
  have hmem : entry.1 ∈ s.functions := by
    obtain hmain | hprogram := List.mem_cons.1 (List.fst_mem_of_mem_zipIdx hentry)
    · exact List.mem_append_right _ (List.mem_singleton.2 hmain)
    · exact List.mem_append_left _ hprogram
  cases hdecorators : entry.1.decorators with
  | nil => rfl
  | cons d more =>
    show (programNumbers (textOf (entry.1.writeDecorators s.features))).map
      (decoratorKey entry.2, ·) = _
    rw [Function.programNumbers_writeDecorators (h _ hmem), hdecorators, List.map_map, List.map_map]
    rfl

/-- **Where the code makes use of programs**: each number is there once, in the function that the
    tree says. -/
theorem Specification.usesIn_perm {options : CompilerOptions} {p : Program} {s : Specification}
    (h : Specification.ofProgram options p = .ok s)
    (hrefers : ∀ fn ∈ s.functions, fn.Refers s.features) :
    (usesIn s.entries).Perm (((bodyUsers 0 1 p.body).zipIdx 1).map written) := by
  have hmain : (programNumbers (textOf (s.main.write s.features))).map ("main", ·)
      = (operandUses 0 [s.main]).map written := by
    have hfn := hrefers _ (List.mem_append_right _ (List.mem_singleton_self _))
    rw [Function.programNumbers_write hfn, operandUses, List.zipIdx_singleton,
      List.flatMap_singleton, List.map_map, List.map_map]
    rfl
  have hflags : usesIn (s.flags.map (·, "true")) = [] := by
    rw [usesIn, List.flatMap_map, List.flatMap_eq_nil_iff]
    have htrue : programNumbers "true" = [] := by decide
    exact fun flag _ => congrArg (List.map (flag, ·)) htrue
  have hversion : programNumbers "[8,\">= 4.3.0\"]" = [] := by decide
  have hoperands : operandUses 0 (s.main :: s.programs)
      = operandUses 0 [s.main] ++ operandUses 1 s.programs := by
    rw [operandUses, List.zipIdx_cons, List.flatMap_cons, operandUses, operandUses,
      List.zipIdx_singleton, List.flatMap_singleton]
  rw [entries, usesIn_append, usesIn_cons, usesIn_cons, usesIn_append,
    usesIn_functionEntries hrefers, usesIn_decoratorEntries hrefers, hmain, hflags, hversion,
    List.append_nil, List.map_nil, List.nil_append, ← List.append_assoc, ← List.map_append,
    ← List.map_append]
  -- Among the fields, the main function comes behind the numbered ones.
  refine List.Perm.map written (.trans ?_ (uses_ofProgram h))
  refine .trans ?_ (usesFrom_perm 0 (s.main :: s.programs))
  rw [hoperands]
  exact List.perm_append_comm.append_right _

/-! ## Closed code -/

/-- The functions of program number `number`, in code with these fields.  A variable that the body
    mentions is a parameter. -/
structure Function.Closed (f : Features) (entries : List (String × String)) (number : Nat)
    (fn : Function) : Prop where
  function : (programKey number,
    "function(" ++ f.parameters ++ ") \x7b\n" ++ textOf (fn.bodyChunks f)) ∈ entries
  second : fn.decorators ≠ [] → (decoratorKey number, textOf (fn.writeDecorators f)) ∈ entries
  blockParams : Mention.blockParams ∈ mentions (textOf (fn.bodyChunks f)) →
    "blockParams" ∈ f.scopeArguments
  depths : Mention.depths ∈ mentions (textOf (fn.bodyChunks f)) → "depths" ∈ f.scopeArguments

/-- The fields of code that has what it refers to, for a tree. -/
structure Closed (options : CompilerOptions) (root : Program) (entries : List (String × String)) :
    Prop where
  keys : entries.map Prod.fst = root.keys options
  nodup : (entries.map Prod.fst).Nodup
  /-- The functions of a program are compiled from it.  The root is number zero. -/
  functions : ∀ number q, root.family[number]? = some q → ∃ fn : Function,
    fn.CompiledFrom options q ∧ fn.Closed (Features.ofProgram options root) entries number
  /-- Where functions have a variable, the code asks for it. -/
  blockParams : "blockParams" ∈ (Features.ofProgram options root).scopeArguments →
    ("useBlockParams", "true") ∈ entries ∨ ("useDepths", "true") ∈ entries
  depths : "depths" ∈ (Features.ofProgram options root).scopeArguments →
    ("useDepths", "true") ∈ entries
  /-- Each number from one on is used once, by the function that the tree says. -/
  uses : (usesIn entries).Perm (((bodyUsers 0 1 root.body).zipIdx 1).map written)
  /-- That is the function of the program with the block, or the one that runs its decorators. -/
  users : List.Forall₂ (UsedBy root.family.zipIdx) (bodyUsers 0 1 root.body)
    (bodyPrograms root.body)

/-- To a member of a row belongs one of the other. -/
theorem getElem?_of_forall₂ {α β : Type} {R : α → β → Prop} {as : List α} {bs : List β}
    (h : List.Forall₂ R as bs) {i : Nat} {b : β} (hb : bs[i]? = some b) :
    ∃ a, as[i]? = some a ∧ R a b := by
  induction h generalizing i with
  | nil => cases hb
  | cons hab _ ih =>
    cases i with
    | zero =>
      cases hb
      exact ⟨_, rfl, hab⟩
    | succ i => exact ih hb

section Entries

variable {s : Specification} {fn : Function} {number : Nat}

/-- Among the entries of the code is the function of each program, -/
theorem Specification.mem_entries_function (h : (fn, number) ∈ (s.main :: s.programs).zipIdx) :
    (programKey number, textOf (fn.write s.features)) ∈ s.entries := by
  rw [List.zipIdx_cons] at h
  obtain hmain | hprogram := List.mem_cons.1 h
  · cases hmain
    exact List.mem_append_right _ (List.mem_cons_of_mem _ (List.mem_cons_self ..))
  · rw [programKey_of_mem hprogram]
    exact List.mem_append_left _ (List.mem_map.2 ⟨_, hprogram, rfl⟩)

/-- a second one where there are decorators, -/
theorem Specification.mem_entries_second (h : (fn, number) ∈ (s.main :: s.programs).zipIdx)
    (hdecorators : fn.decorators ≠ []) :
    (decoratorKey number, textOf (fn.writeDecorators s.features)) ∈ s.entries := by
  have hentry : (decoratorKey number, textOf (fn.writeDecorators s.features))
      ∈ s.decoratorEntries :=
    List.mem_map.2 ⟨(fn, number), List.mem_filter.2 ⟨h, by simpa using hdecorators⟩, rfl⟩
  exact List.mem_append_right _ (List.mem_cons_of_mem _ (List.mem_cons_of_mem _
    (List.mem_append_left _ hentry)))

/-- and each flag: -/
theorem Specification.mem_entries_flag {flag : String} (h : flag ∈ s.flags) :
    (flag, "true") ∈ s.entries :=
  List.mem_append_right _ (List.mem_cons_of_mem _ (List.mem_cons_of_mem _
    (List.mem_append_right _ (List.mem_map.2 ⟨flag, h, rfl⟩))))

/-- one for depths, -/
theorem Specification.mem_entries_useDepths (h : s.features.depths = true) :
    ("useDepths", "true") ∈ s.entries :=
  s.mem_entries_flag (by simp [flags, h])

/-- and one for block parameters. -/
theorem Specification.mem_entries_useBlockParams (h : s.features.blockParams = true) :
    ("useBlockParams", "true") ∈ s.entries :=
  s.mem_entries_flag (by simp [flags, h])

/-- A function refers to nothing but what it has. -/
theorem Function.closed (h : (fn, number) ∈ (s.main :: s.programs).zipIdx)
    (hrefers : fn.Refers s.features) : fn.Closed s.features s.entries number := by
  have hbody : Script.Refers s.features true (textOf (fn.bodyChunks s.features)) _ :=
    refers_bodyChunks hrefers
  have hmentions := hbody.mentions.1
  refine ⟨?function, s.mem_entries_second h, hmentions _, hmentions _⟩
  case function =>
    have hfunction := s.mem_entries_function h
    rwa [textOf_write, ← s.features.header_eq] at hfunction

end Entries

/-- **The code of a specification is closed**, if the numbers in the calls of its tree are written
    as numbers. -/
theorem Specification.closed {options : CompilerOptions} {p : Program} {s : Specification}
    (h : Specification.ofProgram options p = .ok s)
    (hcalls : ∀ q ∈ p.family, ∀ st ∈ q.body, ∀ call, st.call? = some call → call.IsNumeric) :
    Closed options p s.entries := by
  have hrefers := refers h hcalls
  refine ⟨keys_ofProgram h, s.nodup_keys, ?functions, ?blockParams, ?depths, usesIn_perm h hrefers,
    p.usedBy⟩
  all_goals rw [← features_ofProgram h]
  case blockParams =>
    exact fun hparam => (blockParams_allowed_iff.1 hparam).imp mem_entries_useBlockParams
      mem_entries_useDepths
  case depths => exact fun hdepth => mem_entries_useDepths (depths_allowed_iff.1 hdepth)
  intro number q hq
  obtain ⟨fn, hfn, hfrom⟩ := getElem?_of_forall₂ (compiledFrom_family h) hq
  have hmem : fn ∈ s.functions := by
    obtain hmain | hprogram := List.mem_cons.1 (List.mem_of_getElem? hfn)
    · exact List.mem_append_right _ (List.mem_singleton.2 hmain)
    · exact List.mem_append_left _ hprogram
  exact ⟨fn, hfrom, Function.closed (List.mk_mem_zipIdx_iff_getElem?.2 hfn) (hrefers fn hmem)⟩

end Script

/-! ## Templates -/

open Text (braces field) in
/-- **Compiled code is closed**: it has the functions that it refers to by number, each of them
    referred to once and in its place, and the variables that it refers to by name. -/
theorem Compiler.standard_closed {text : String} {fields fields' : Json.Fields} {t : Template}
    {compiled : Compiled} (hparse : Compiler.standard.parse text fields = .ok t)
    (hcompile : Compiler.standard.compile t fields' = .ok compiled) :
    ∃ options entries, CompilerOptions.read fields' = .ok options
      ∧ compiled.code = braces (entries.map fun e => field e.1 e.2)
      ∧ Script.Closed options t.root entries := by
  obtain ⟨_, _, hparsed⟩ := Compiler.parse_standard hparse
  obtain ⟨options, hoptions, hcompile⟩ := exists_of_bind_ok hcompile
  obtain ⟨s, hs, hcode, -⟩ := Template.compileUnder_ok hcompile
  refine ⟨options, s.entries, hoptions, hcode.trans s.code_eq, Script.Specification.closed hs ?_⟩
  intro q hq st hst call hcall
  exact Template.parse_numeric hparsed hq hst hcall

open Text (braces field) in
/-- Sections in sections, both variables, decorators with a section and without, and a partial with
    one. -/
theorem Compiler.standard_closed_at_sections :
    let text := "\x7b\x7b#each a as |x|\x7d\x7d\x7b\x7bx\x7d\x7d\x7b\x7b#if ../b\x7d\x7dc"
      ++ "\x7b\x7belse if 1\x7d\x7dd\x7b\x7b/if\x7d\x7d\x7b\x7b/each\x7d\x7d"
      ++ "\x7b\x7b#* e\x7d\x7d\x7b\x7b> f\x7d\x7d\x7b\x7b/e\x7d\x7d"
      ++ "\x7b\x7b#> g\x7d\x7d\x7b\x7b* h\x7d\x7d\x7b\x7b/g\x7d\x7d"
    ∃ t compiled, Compiler.standard.parse text [] = .ok t
      ∧ Compiler.standard.compile t [] = .ok compiled
      ∧ ∃ options entries, CompilerOptions.read [] = .ok options
        ∧ compiled.code = braces (entries.map fun e => field e.1 e.2)
        ∧ Script.Closed options t.root entries := by
  intro text
  obtain ⟨compiled, hrun⟩ := exists_of_isOk
    (e := Compiler.standard.parse text [] >>= fun t => Compiler.standard.compile t [])
    (by decide +kernel)
  obtain ⟨t, hparse, hcompile⟩ := exists_of_bind_ok hrun
  exact ⟨t, compiled, hparse, hcompile, Compiler.standard_closed hparse hcompile⟩

end Stache
