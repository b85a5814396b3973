/-
  The partials that code looks up by name.

  Two walks over a tree decide what the name of a partial is.  One finds the partials that a module
  imports (`Program.partialNames`); the other compiles the calls, and looks a partial up by name
  where it can (`Specification.lookups`).  They should find the same names.

  They differ in one kind of call: a partial may be named by a LITERAL, a quoted text or a number or
  a keyword, and such a name is looked up but not imported.  So the names that are looked up are
  those that are imported and the literal ones, each as often as it is written
  (`Specification.lookups_perm`), and a name is looked up as often as it is imported EXACTLY when it
  is never written as a literal (`Compiler.standard_lookups`).
-/
import Mathlib.Data.List.Perm.Basic
import Stache.Proofs.Script.Literal
import Stache.Proofs.Script.Programs
import Stache.Script.Write
import Stache.Template.PartialNames

namespace Stache

/-! ## Names of partials -/

/-- The name of a partial that is written as a literal. -/
def Call.literalName (c : Call) : List String :=
  match c.callee with
  | .path _ | .subexpression _ _ => []
  | e => [e.label]

/-- The call of a partial that a statement is. -/
def Statement.partialCall? : Statement → Option Call
  | .partialCall call _ _ _ | .partialBlock call _ _ _ _ => some call
  | _ => none

/-- What `names` finds in the calls of partials of a program, less those of the programs in it. -/
def Program.ownNames (names : Call → List String) (p : Program) : List String :=
  p.body.flatMap fun s => s.partialCall?.toList.flatMap names

/-- The names of partials in a tree that are written as literals. -/
def Program.literalNames (p : Program) : List String :=
  p.family.flatMap (Program.ownNames Call.literalName)

mutual

/-- The names that are found are those of the partials: in a statement, -/
theorem Statement.partialNames_perm (s : Statement) :
    s.partialNames.Perm (s.partialCall?.toList.flatMap Call.partialName
      ++ s.programs.flatMap (Program.ownNames Call.partialName)) := by
  match s with
  | .content _ | .comment _ _ _ | .mustache _ _ _ _ | .decorator _ _ _ => exact .nil
  | .partialCall call _ _ _ =>
    rw [Statement.partialNames, Statement.partialCall?, Option.toList_some, List.flatMap_singleton,
      Statement.programs, List.flatMap_nil, List.append_nil]
  | .partialBlock call body _ _ _ =>
    rw [Statement.partialNames, Statement.partialCall?, Option.toList_some, List.flatMap_singleton,
      Statement.programs]
    exact (Program.partialNames_perm body).append_left _
  | .decoratorBlock _ body _ _ _ => exact Program.partialNames_perm body
  | .block _ main inverse _ _ =>
    show (sectionPartialNames main ++ sectionPartialNames inverse).Perm
      ((sectionPrograms main ++ sectionPrograms inverse).flatMap _)
    rw [List.flatMap_append]
    exact (sectionPartialNames_perm main).append (sectionPartialNames_perm inverse)

/-- **The names to import** are those of the programs in the tree, in another order. -/
theorem Program.partialNames_perm (p : Program) :
    p.partialNames.Perm (p.family.flatMap (Program.ownNames Call.partialName)) := by
  match p with
  | ⟨body, params, chained, span⟩ => exact bodyPartialNames_perm body

/-- in a section, -/
theorem sectionPartialNames_perm (p : Option Program) :
    (sectionPartialNames p).Perm
      ((sectionPrograms p).flatMap (Program.ownNames Call.partialName)) := by
  match p with
  | none => exact .nil
  | some p => exact Program.partialNames_perm p

/-- and in a body. -/
theorem bodyPartialNames_perm (body : List Statement) :
    (bodyPartialNames body).Perm ((body.flatMap fun s => s.partialCall?.toList.flatMap
        Call.partialName) ++ (bodyPrograms body).flatMap (Program.ownNames Call.partialName)) := by
  match body with
  | [] => exact .nil
  | s :: rest =>
    rw [bodyPartialNames, bodyPrograms, List.flatMap_cons, List.flatMap_append]
    refine ((Statement.partialNames_perm s).append (bodyPartialNames_perm rest)).trans ?_
    -- The programs in `s` come before the names of `rest`.
    rw [List.append_assoc, List.append_assoc]
    refine .append_left _ ?_
    rw [← List.append_assoc, ← List.append_assoc]
    exact List.perm_append_comm.append_right _

end

namespace Script

/-! ## Names that are looked up -/

/-- The name that a partial is looked up by. -/
def Target.lookup? : Target → Option String
  | .named name => some name
  | _ => none

/-- The name that an operand looks a partial up by. -/
def Operand.lookup? : Operand → Option String
  | .partialCall call => call.target.lookup?
  | _ => none

/-- The names that partials are looked up by. -/
def Specification.lookups (s : Specification) : List String :=
  s.functions.flatMap fun fn => fn.operands.flatMap fun o => o.value.lookup?.toList

/-- A partial is looked up by a path or by a literal. -/
theorem Target.Of.lookup {scope : Scope} {call : Call} {target : Target}
    (h : target.Of scope call.callee) :
    target.lookup?.toList = call.partialName ++ call.literalName := by
  obtain ⟨callee, params, hash⟩ := call
  cases h with
  | enclosing hown =>
    simp only [Call.partialName, if_pos hown]
    rfl
  | path hown =>
    simp only [Call.partialName, if_neg hown]
    rfl
  | computed => rfl
  | literal hpath hcall =>
    cases callee with
    | path p => exact absurd rfl (hpath p)
    | subexpression call span => exact absurd rfl (hcall call span)
    | string | number | boolean | undefined | null => rfl

/-- Each statement has the names looked up that its own call is for. -/
theorem Compiles.lookups {scope : Scope} {next : Nat} {s : Statement} {pieces : Pieces}
    (h : Compiles scope next s pieces) :
    pieces.operands.flatMap (fun o => o.value.lookup?.toList)
      = s.partialCall?.toList.flatMap fun call => call.partialName ++ call.literalName := by
  cases h with
  | content c =>
    dsimp only
    split <;> rfl
  | comment | mustache | block | decorator | decoratorBlock => rfl
  | partialCall hp =>
    rename_i call indent strip span p
    -- the indent before a partial is a text
    have hindent : (if scope.options.preventIndent then indentOperand indent span.start
        else []).flatMap (fun o => o.value.lookup?.toList) = [] := by
      refine List.flatMap_eq_nil_iff.2 fun o ho => ?_
      obtain ⟨text, htext⟩ := exists_text_of_mem_indent ho
      rw [htext]
      rfl
    rw [List.flatMap_append, hindent, List.nil_append, List.flatMap_singleton,
      Statement.partialCall?, Option.toList_some, List.flatMap_singleton]
    exact (compilePartial_of hp).target.lookup
  | partialBlock hp hbody =>
    rw [List.flatMap_singleton, Statement.partialCall?, Option.toList_some, List.flatMap_singleton]
    exact (compilePartial_of hp).target.lookup

/-- What two ways find in a row of programs, together and apart. -/
theorem flatMap_ownNames_perm (names more : Call → List String) (programs : List Program) :
    (programs.flatMap fun p => p.body.flatMap fun s =>
        s.partialCall?.toList.flatMap fun call => names call ++ more call).Perm
      (programs.flatMap (Program.ownNames names) ++ programs.flatMap (Program.ownNames more)) := by
  have hown (p : Program) : (p.body.flatMap fun s =>
      s.partialCall?.toList.flatMap fun call => names call ++ more call).Perm
        (p.ownNames names ++ p.ownNames more) := by
    refine .trans (.of_eq ?_) (List.flatMap_append_perm p.body _ _).symm
    refine congrArg (p.body.flatMap ·) (funext fun s => ?_)
    cases s.partialCall? <;> simp
  exact (List.Perm.flatMap_left programs fun p _ => hown p).trans
    (List.flatMap_append_perm programs _ _).symm

/-- **The names that are looked up** are those to import and the literal ones. -/
theorem Specification.lookups_perm {options : CompilerOptions} {p : Program} {s : Specification}
    (h : Specification.ofProgram options p = .ok s) :
    s.lookups.Perm (p.partialNames ++ p.literalNames) := by
  have hlookups : s.lookups = (bodyPrograms p.body ++ [p]).flatMap fun q => q.body.flatMap fun st =>
      st.partialCall?.toList.flatMap fun call => call.partialName ++ call.literalName :=
    Specification.flatMap_operands h (fun o => o.lookup?.toList)
      fun _ _ _ _ hpieces => hpieces.lookups
  have hfamily : (bodyPrograms p.body ++ [p]).Perm p.family := by
    obtain ⟨body, params, chained, span⟩ := p
    exact List.perm_append_comm
  rw [hlookups]
  exact (hfamily.flatMap_right _).trans ((flatMap_ownNames_perm _ _ _).trans
    ((Program.partialNames_perm p).symm.append_right _))

/-! ## What is written -/

/-- What the code of a call begins with that looks a partial up by that name. -/
def lookupOf (name : String) : String :=
  "((stack1 = " ++ ("container.invokePartial(" ++ ("lookupProperty(partials,"
    ++ (Text.scriptQuoted name ++ "),")))

/-- Neither of two texts begins with the other. -/
def Parted (a b : String) : Prop := ¬ a.toList <+: b.toList ∧ ¬ b.toList <+: a.toList

instance (a b : String) : Decidable (Parted a b) :=
  inferInstanceAs (Decidable (¬ a.toList <+: b.toList ∧ ¬ b.toList <+: a.toList))

/-- Texts that begin differently are no beginnings of one another. -/
theorem Parted.not_prefix {a b : String} (h : Parted a b) (x y : String) :
    ¬ (a ++ x).toList <+: (b ++ y).toList := by
  intro hprefix
  rw [String.toList_append, String.toList_append] at hprefix
  obtain hab | hba := List.prefix_or_prefix_of_prefix
    ((List.prefix_append a.toList x.toList).trans hprefix) (List.prefix_append b.toList y.toList)
  · exact h.1 hab
  · exact h.2 hba

theorem prefix_append_left_iff (a x y : String) :
    (a ++ x).toList <+: (a ++ y).toList ↔ x.toList <+: y.toList := by
  rw [String.toList_append, String.toList_append]
  exact List.prefix_append_right_inj a.toList

/-- A helper is looked up in front, or there is a parenthesis. -/
theorem Callee.write_begins (callee : Callee) :
    (∃ rest, callee.write = "lookupProperty(helpers," ++ rest)
      ∨ ∃ rest, callee.write = "(" ++ rest := by
  cases callee with
  | known name => exact .inl ⟨_, String.append_assoc ..⟩
  | unknown name place => exact .inr ⟨_, String.append_assoc ..⟩

/-- Of two quoted texts, none begins with the other. -/
theorem eq_of_scriptQuoted {a b x y : String}
    (h : (Text.scriptQuoted a ++ x).toList <+: (Text.scriptQuoted b ++ y).toList) : a = b := by
  obtain ⟨rest, hrest⟩ := h
  rw [String.toList_append, String.toList_append, List.append_assoc] at hrest
  have hread := congrArg readString hrest
  rw [readString_scriptQuoted, readString_scriptQuoted] at hread
  exact String.toList_inj.1 (utf16_injective (congrArg Prod.fst (Option.some.inj hread)))

/-- The call of a helper begins neither way. -/
theorem not_prefix_writeCall {f : Features} {lead : String} (callee : Callee) (args : List Code)
    (options : Options) (hhelper : Parted lead "lookupProperty(helpers,")
    (hparen : Parted lead "(") (x y : String) :
    ¬ (lead ++ x).toList <+: (writeCall f callee args options ++ y).toList := by
  rw [writeCall, Code.write]
  obtain ⟨rest, hrest⟩ | ⟨rest, hrest⟩ := callee.write_begins <;>
    simp only [hrest, String.append_assoc]
  · exact hhelper.not_prefix _ _
  · exact hparen.not_prefix _ _

/-- A value with the empty text in place of a missing one begins with a look-up if the value does,
    but for the parentheses around it. -/
theorem lookupOf_prefix_orEmpty_iff {name value : String} :
    (lookupOf name).toList <+: (orEmpty value).toList
      ↔ ("container.invokePartial(" ++ ("lookupProperty(partials,"
          ++ (Text.scriptQuoted name ++ "),"))).toList
        <+: (value ++ ") != null ? stack1 : \"\")").toList := by
  unfold lookupOf orEmpty
  rw [String.append_assoc]
  exact prefix_append_left_iff ..

/-- No mustache begins like a lookup of a partial, -/
theorem not_lookupOf_prefix_mustache {f : Features} {name : String} {escaped : Bool}
    {i : Invocation} :
    ¬ (lookupOf name).toList <+: ((Operand.mustache escaped i).write f).toList := by
  obtain ⟨mode, options⟩ := i
  -- what is written first differs from a lookup by its first letters
  cases escaped with
  | true =>
    show ¬ (lookupOf name).toList <+: ("container.escapeExpression("
      ++ Invocation.writeMustache f ⟨mode, options⟩ ++ ")").toList
    unfold lookupOf
    rw [String.append_assoc]
    exact Parted.not_prefix (by decide) _ _
  | false =>
    refine lookupOf_prefix_orEmpty_iff.not.2 ?_
    cases mode with
    | helper callee args =>
      exact not_prefix_writeCall callee args options (by decide) (by decide) _ _
    | either place =>
      unfold Invocation.writeMustache
      simp only [String.append_assoc]
      exact Parted.not_prefix (by decide) _ _
    | plain place =>
      unfold Invocation.writeMustache writeLambda
      simp only [String.append_assoc]
      exact Parted.not_prefix (by decide) _ _

/-- and no block does. -/
theorem not_lookupOf_prefix_block {f : Features} {name : String} {i : Invocation} :
    ¬ (lookupOf name).toList <+: ((Operand.block i).write f).toList := by
  obtain ⟨mode, options⟩ := i
  cases mode with
  | helper callee args =>
    refine lookupOf_prefix_orEmpty_iff.not.2 ?_
    exact not_prefix_writeCall callee args options (by decide) (by decide) _ _
  | either place =>
    unfold Operand.write Invocation.writeBlock lookupOf
    simp only [String.append_assoc]
    exact Parted.not_prefix (by decide) _ _
  | plain place =>
    refine lookupOf_prefix_orEmpty_iff.not.2 ?_
    simp only [String.append_assoc]
    exact Parted.not_prefix (by decide) _ _

/-- The call of a partial says first which one it is. -/
theorem PartialCall.write_begins (f : Features) (call : PartialCall) :
    ∃ rest, call.write f
      = orEmpty ("container.invokePartial(" ++ (call.target.write f ++ ("," ++ rest))) := by
  unfold PartialCall.write
  simp only [String.append_assoc]
  exact ⟨_, rfl⟩

/-- **The code looks a partial up** by the name that the operand has for it, and by no other. -/
theorem Operand.lookupOf_prefix_iff {f : Features} {name : String} {o : Operand}
    (hcomputed : ∀ call code, o = .partialCall call → call.target = .computed code →
      ∃ callee args options, code = .helper callee args options) :
    (lookupOf name).toList <+: (o.write f).toList ↔ o.lookup? = some name := by
  cases o with
  | text value =>
    refine iff_of_false ?_ (by simp [lookup?])
    have hquoted : (Operand.text value).write f
        = "\"" ++ (String.ofList (value.toList.flatMap Text.scriptEscape) ++ "\"") :=
      String.append_assoc ..
    rw [hquoted]
    unfold lookupOf
    exact Parted.not_prefix (by decide) _ _
  | mustache escaped i => exact iff_of_false not_lookupOf_prefix_mustache (by simp [lookup?])
  | block i => exact iff_of_false not_lookupOf_prefix_block (by simp [lookup?])
  | partialCall call =>
    obtain ⟨rest, hrest⟩ := call.write_begins f
    show (lookupOf name).toList <+: (call.write f).toList ↔ call.target.lookup? = some name
    rw [hrest, lookupOf_prefix_orEmpty_iff, String.append_assoc, prefix_append_left_iff,
      String.append_assoc]
    -- by how the partial is named: the lookup is of its name, or there is none
    cases htarget : call.target with
    | named other =>
      show _ <+: ("lookupProperty(partials," ++ Text.scriptQuoted other ++ ")" ++ _).toList
        ↔ some other = some name
      simp only [String.append_assoc]
      rw [prefix_append_left_iff]
      constructor
      · intro h
        rw [eq_of_scriptQuoted h]
      · intro h
        cases h
        rw [prefix_append_left_iff]
        exact ⟨_, String.toList_append.symm⟩
    | enclosing =>
      show _ <+: ("undefined" ++ _).toList ↔ none = some name
      exact iff_of_false (Parted.not_prefix (by decide) _ _) (nomatch ·)
    | computed code =>
      obtain ⟨callee, args, options, rfl⟩ := hcomputed call code rfl htarget
      exact iff_of_false (not_prefix_writeCall callee args options (by decide)
        (by decide) _ _) (nomatch ·)

/-! ## Compiled templates -/

/-- A partial whose name is computed is named by the call of a helper. -/
theorem Target.Of.computed_helper {scope : Scope} {e : Expression} {code : Code}
    (h : (Target.computed code).Of scope e) :
    ∃ callee args options, code = .helper callee args options := by
  cases h with
  | computed hcode =>
    rw [compileArgument] at hcode
    obtain ⟨path, -, hcode⟩ := exists_of_bind_ok hcode
    obtain ⟨⟨callee, args, options⟩, -, hcode⟩ := exists_of_bind_ok hcode
    cases hcode
    exact ⟨callee, args, options, rfl⟩

/-- A name that is computed is the call of a helper. -/
theorem Operand.Of.computed {scope : Scope} {source : Option Call} {o : Operand}
    (h : o.Of scope source) (call : PartialCall) (code : Code) (hcall : o = .partialCall call)
    (hcode : call.target = .computed code) :
    ∃ callee args options, code = .helper callee args options := by
  cases h with
  | text | mustache | block => cases hcall
  | partialCall body hcompiled =>
    cases hcall
    have htarget := (compilePartial_of hcompiled).target
    rw [show _ = Target.computed code from hcode] at htarget
    exact htarget.computed_helper

end Script

/-- **Look-ups and imports.**  Compiled code looks a partial up by a name where an operand has that
    name for it.  The names that are looked up are those that the module imports, and besides them
    those that are written as literals; so a name is looked up as often as it is imported EXACTLY
    when no partial is called by it as a literal. -/
theorem Compiler.standard_lookups {t : Template} {fields : Json.Fields} {compiled : Compiled}
    (h : Compiler.standard.compile t fields = .ok compiled) :
    ∃ options s, CompilerOptions.read fields = .ok options
      ∧ Script.Specification.ofProgram options t.root = .ok s ∧ compiled.code = s.code
      ∧ (∀ fn ∈ s.functions, ∀ o ∈ fn.operands, ∀ name,
        (Script.lookupOf name).toList <+: (o.value.write s.features).toList
          ↔ o.value.lookup? = some name)
      ∧ ∀ name, s.lookups.count name = t.partialNames.count name + t.root.literalNames.count name
        ∧ (s.lookups.count name = t.partialNames.count name ↔ name ∉ t.root.literalNames) := by
  obtain ⟨options, hoptions, h⟩ := exists_of_bind_ok h
  obtain ⟨s, hs, hcode, -⟩ := Template.compileUnder_ok h
  refine ⟨options, s, hoptions, hs, hcode, fun fn hfn o ho name => ?_, fun name => ?_⟩
  · obtain ⟨q, -, st, -, scope, -, hmade⟩ := (Script.Specification.made_of hs hfn).1 o ho
    exact Script.Operand.lookupOf_prefix_iff hmade.computed
  · have hcount := (Script.Specification.lookups_perm hs).count_eq name
    rw [List.count_append] at hcount
    refine ⟨hcount, ?_⟩
    rw [← List.count_eq_zero, hcount, Template.partialNames]
    omega

/-- A partial that is called by its name twice, in a section and in the body of another partial, and
    once by a literal. -/
theorem Compiler.standard_lookups_at_layout :
    let text := "\x7b\x7b#> layout\x7d\x7d\x7b\x7b> nav\x7d\x7d\x7b\x7b> \"nav\"\x7d\x7d"
      ++ "\x7b\x7b/layout\x7d\x7d\x7b\x7b^a\x7d\x7d\x7b\x7b> nav\x7d\x7d\x7b\x7b/a\x7d\x7d"
    ∃ t compiled, Compiler.standard.parse text [] = .ok t
      ∧ Compiler.standard.compile t [] = .ok compiled
      ∧ ∃ options s, CompilerOptions.read [] = .ok options
        ∧ Script.Specification.ofProgram options t.root = .ok s ∧ compiled.code = s.code
        ∧ (∀ fn ∈ s.functions, ∀ o ∈ fn.operands, ∀ name,
          (Script.lookupOf name).toList <+: (o.value.write s.features).toList
            ↔ o.value.lookup? = some name)
        ∧ ∀ name, s.lookups.count name = t.partialNames.count name + t.root.literalNames.count name
          ∧ (s.lookups.count name = t.partialNames.count name ↔ name ∉ t.root.literalNames) := by
  intro text
  obtain ⟨compiled, hrun⟩ := exists_of_isOk
    (e := Compiler.standard.parse text [] >>= fun t => Compiler.standard.compile t [])
    (by decide +kernel)
  obtain ⟨t, hparse, hcompile⟩ := exists_of_bind_ok hrun
  exact ⟨t, compiled, hparse, hcompile, Compiler.standard_lookups hcompile⟩

/-- The name of the partial is quoted: it is looked up, but not imported. -/
theorem Compiler.standard_not_imported :
    ∃ t options s, Compiler.standard.parse "\x7b\x7b> \"nav\"\x7d\x7d" [] = .ok t
      ∧ CompilerOptions.read [] = .ok options
      ∧ Script.Specification.ofProgram options t.root = .ok s
      ∧ s.lookups.count "nav" ≠ t.partialNames.count "nav" := by
  obtain ⟨t, ht, htree⟩ := exists_ok
    (e := Compiler.standard.parse "\x7b\x7b> \"nav\"\x7d\x7d" [])
    (P := fun t => t.partialNames = [] ∧ t.root.literalNames = ["nav"]
      ∧ (CompilerOptions.read [] >>= fun options =>
        Script.Specification.ofProgram options t.root).isOk = true) (by decide +kernel)
  obtain ⟨hnames, hliterals, hrun⟩ := htree
  obtain ⟨s, hs⟩ := exists_of_isOk hrun
  obtain ⟨options, hoptions, hs⟩ := exists_of_bind_ok hs
  refine ⟨t, options, s, ht, hoptions, hs, ?_⟩
  have hcount := (Script.Specification.lookups_perm hs).count_eq "nav"
  rw [List.count_append, hliterals] at hcount
  rw [hcount]
  simp [Template.partialNames]

end Stache
