/-
  Source maps can be switched off, and nothing else changes.

  With source maps, the plugin adds the name of the file to the settings of the compiler, and that
  is the only thing in which two plugins that differ in the switch differ.  So there are two runs to
  compare, one WITH A NAME and one without.  The settings are read in the order of their keys; the
  name is a text, so it cannot be mistyped, and all other settings are read as before
  (`ofFields_insert_name`).  Beyond the settings, the two runs go through the same stages, and every
  stage without the name gives what it gives with the name, LESS THE NAME in its result and in its
  failure.

  Only the map is then made in one run and not in the other.  The compiler's map can always be read
  back (`Mapping.parse_render`), so making it does not fail.
-/
import Stache.Bundle.Plugin
import Stache.Proofs.Mapping.Document
import Stache.Proofs.Script.Programs
import Stache.Proofs.Script.Unnamed

namespace Stache

/-! ## Settings of the compiler -/

namespace CompilerOptions

/-- The options, with `name` for the name of the file. -/
def named (o : CompilerOptions) (name : Option String) : CompilerOptions :=
  { o with sourceName := name }

/-- A field other than the name of the file is read in the same way whatever the name is. -/
theorem take_named (o : CompilerOptions) (name : Option String) {field : String × Json}
    (h : field.1 ≠ "srcName") :
    (o.named name).take field = (o.take field).map (·.named name) := by
  obtain ⟨key, value⟩ := field
  have hread {α : Type} (read : Except Mistyped α) (set : CompilerOptions → α → CompilerOptions)
      (hset : ∀ a, set (o.named name) a = (set o a).named name) :
      read.map (set (o.named name)) = (read.map (set o)).map (·.named name) := by
    cases read with
    | error _ => rfl
    | ok a => exact congrArg Except.ok (hset a)
  unfold take
  simp only [if_neg h]
  -- one key after another; each has a field of its own
  split_ifs
  · exact hread _ (fun o destName => { o with destName }) fun _ => rfl
  · exact hread _ (fun o data => { o with data }) fun _ => rfl
  · exact hread _ (fun o noEscape => { o with noEscape }) fun _ => rfl
  · exact hread _ (fun o knownHelpers => { o with knownHelpers }) fun _ => rfl
  · exact hread _ (fun o knownHelpersOnly => { o with knownHelpersOnly }) fun _ => rfl
  · exact hread _ (fun o ignoreStandalone => { o with ignoreStandalone }) fun _ => rfl
  · exact hread _ (fun o preventIndent => { o with preventIndent }) fun _ => rfl
  · rfl

/-- The same for many fields. -/
theorem foldlM_take_named (name : Option String) {fields : Json.Fields} (o : CompilerOptions)
    (h : ∀ field ∈ fields, field.1 ≠ "srcName") :
    fields.foldlM take (o.named name) = (fields.foldlM take o).map (·.named name) := by
  induction fields generalizing o with
  | nil => rfl
  | cons field fields ih =>
    obtain ⟨hfield, hfields⟩ := List.forall_mem_cons.1 h
    rw [List.foldlM_cons, List.foldlM_cons, take_named o name hfield]
    cases o.take field with
    | error _ => rfl
    | ok o => exact ih o hfields

/-- Settings without a name give none. -/
theorem ofFields_named_none {fields : Json.Fields} (h : ∀ field ∈ fields, field.1 ≠ "srcName") :
    ofFields fields = (ofFields fields).map (·.named none) :=
  foldlM_take_named none default h

/-- **A name that is added** is found in the options, beside what is there without it. -/
theorem ofFields_insert_name (id : String) {fields : Json.Fields}
    (h : ∀ field ∈ fields, field.1 ≠ "srcName") :
    ofFields (Json.insert "srcName" (.string id) fields)
      = (ofFields fields).map (·.named (some id)) := by
  -- The name is taken somewhere among the fields, after those with smaller keys.
  suffices hall : ∀ o : CompilerOptions,
      (Json.insert "srcName" (.string id) fields).foldlM take o
        = (fields.foldlM take o).map (·.named (some id)) from hall default
  induction fields with
  | nil => exact fun o => rfl
  | cons field fields ih =>
    obtain ⟨hfield, hfields⟩ := List.forall_mem_cons.1 h
    intro o
    have hname : o.take ("srcName", .string id) = .ok (o.named (some id)) := rfl
    rw [Json.insert]
    split_ifs with hless heq
    · rw [← foldlM_take_named (some id) o h, List.foldlM_cons, hname]
      rfl
    · exact absurd heq.symm hfield
    -- the name comes further on, and this field is taken first in both runs
    · rw [List.foldlM_cons, List.foldlM_cons]
      cases o.take field with
      | error _ => rfl
      | ok o => exact ih hfields o

end CompilerOptions

/-! ## The compiler -/

/-- The template, but for the name of the file. -/
def Template.unnamed (t : Template) : Template := { t with source := none }

/-- Compiled code, but for its map. -/
def Compiled.withoutMap (c : Compiled) : Compiled := { c with map := none }

theorem Template.parseUnder_unnamed (text : String) (o : CompilerOptions) :
    parseUnder text o.unnamed
      = ((parseUnder text o).mapError CompileFailure.unnamed).map Template.unnamed := by
  unfold parseUnder parse
  show Except.mapError _ (Program.ofText text.toList >>= _) = _
  cases Program.ofText text.toList <;> rfl

/-- So does compiling, apart from the map. -/
theorem Template.compileUnder_unnamed (t : Template) (o : CompilerOptions) :
    t.unnamed.compileUnder o.unnamed
      = ((t.compileUnder o).mapError CompileFailure.unnamed).map Compiled.withoutMap := by
  unfold compileUnder
  show (Script.Specification.ofProgram o.unnamed t.root >>= _) = _
  rw [Script.Specification.ofProgram_unnamed]
  cases Script.Specification.ofProgram o t.root <;> rfl

namespace Bundle

open CompilerOptions

/-! ## The two plugins -/

/-- The settings, with source maps switched off. -/
def Settings.withoutMaps (settings : Settings) : Settings :=
  { settings with sourceMap := some (.bool false) }

/-- The plan with the switch turned off. -/
def Plan.withoutMaps (plan : Plan) : Plan := { plan with hasMaps := false }

/-- The module, with the map of nothing. -/
def Bundled.withoutMap (b : Bundled) : Bundled := { b with map := SourceMap.empty }

/-- The failure, but for the name of the file. -/
def Failure.unnamed : Failure → Failure
  | .compile error => .compile error.unnamed
  | failure => failure

/-- The switch in the settings is the one in the plan. -/
theorem Plan.ofSettings_withoutMaps (settings : Settings) (naming : Naming) (here : String) :
    ofSettings settings.withoutMaps naming here
      = (ofSettings settings naming here).map withoutMaps := by
  obtain ⟨helpers, included, excluded, partials, compiler, sourceMap, sourcemap, base⟩ := settings
  simp only [ofSettings, Settings.withoutMaps]
  cases Glob.Selection.of (Patterns.resolve standardIncluded included)
      (Patterns.resolve standardExcluded excluded) (base.getD here) with
  | error _ => rfl
  | ok templates =>
    cases Glob.Selection.of (Patterns.resolve standardPartials partials) [] (base.getD here) <;> rfl

/-- The settings of a user do not name the file. -/
theorem Plan.compiler_unnamed {settings : Settings} {naming : Naming} {here : String} {plan : Plan}
    (h : ofSettings settings naming here = .ok plan) :
    ∀ field ∈ plan.compiler, field.1 ≠ "srcName" := by
  obtain ⟨templates, -, h⟩ := exists_of_bind_ok h
  obtain ⟨partials, -, h⟩ := exists_of_bind_ok h
  cases h
  intro field hfield
  simpa using (List.mem_filter.1 hfield).2

/-- What goes wrong with the naming of partials does not involve the name of the file. -/
theorem Plan.nameOf_unnamed (plan : Plan) (id : String) :
    plan.nameOf id = (plan.nameOf id).mapError Failure.unnamed := by
  unfold nameOf
  cases plan.naming.name id <;> rfl

theorem Plan.pathOf_unnamed (plan : Plan) (name id : String) :
    plan.pathOf name id = (plan.pathOf name id).mapError Failure.unnamed := by
  unfold pathOf
  cases plan.naming.path name id <;> rfl

/-- Nor does one for all the partials of a template. -/
theorem Plan.paths_unnamed (plan : Plan) (id : String) (names : List String) :
    names.mapM (fun name => plan.pathOf name id)
      = (names.mapM fun name => plan.pathOf name id).mapError Failure.unnamed := by
  induction names with
  | nil => rfl
  | cons name names ih =>
    simp only [List.mapM_cons, mapError_bind, ← plan.pathOf_unnamed, ← ih]
    rfl

section

variable {plan : Plan} (hplan : ∀ field ∈ plan.compiler, field.1 ≠ "srcName") (id : String)

include hplan

/-- With source maps, the settings of the compiler are read as without, but for the name. -/
theorem Plan.read_compilerFor :
    CompilerOptions.read (plan.compilerFor id)
      = (CompilerOptions.read plan.compiler).map
        (·.named (if plan.hasMaps then some id else none)) := by
  unfold CompilerOptions.read compilerFor
  split
  · rw [ofFields_insert_name id hplan]
    cases ofFields plan.compiler <;> rfl
  · rw [ofFields_named_none hplan]
    cases ofFields plan.compiler <;> rfl

/-- Without source maps, they are read less the name, and mistyped ones are reported as before. -/
theorem Plan.read_withoutMaps :
    CompilerOptions.read (plan.withoutMaps.compilerFor id)
      = ((CompilerOptions.read (plan.compilerFor id)).mapError CompileFailure.unnamed).map
        CompilerOptions.unnamed := by
  have hnone : CompilerOptions.read (plan.withoutMaps.compilerFor id)
      = (CompilerOptions.read plan.compiler).map (·.named none) :=
    @Plan.read_compilerFor plan.withoutMaps hplan id
  rw [hnone, Plan.read_compilerFor hplan, CompilerOptions.read]
  cases ofFields plan.compiler <;> rfl

/-- Templates are parsed alike, -/
theorem Plan.parse_withoutMaps (source : String) :
    Compiler.standard.parse source (plan.withoutMaps.compilerFor id)
      = ((Compiler.standard.parse source (plan.compilerFor id)).mapError
        CompileFailure.unnamed).map Template.unnamed := by
  show (CompilerOptions.read _ >>= _) = Except.map _ (Except.mapError _ (_ >>= _))
  rw [Plan.read_withoutMaps hplan]
  cases CompilerOptions.read (plan.compilerFor id) with
  | error _ => rfl
  | ok o => exact Template.parseUnder_unnamed source o

/-- and compiled alike. -/
theorem Plan.compile_withoutMaps (t : Template) :
    Compiler.standard.compile t.unnamed (plan.withoutMaps.compilerFor id)
      = ((Compiler.standard.compile t (plan.compilerFor id)).mapError
        CompileFailure.unnamed).map Compiled.withoutMap := by
  show (CompilerOptions.read _ >>= _) = Except.map _ (Except.mapError _ (_ >>= _))
  rw [Plan.read_withoutMaps hplan]
  cases CompilerOptions.read (plan.compilerFor id) with
  | error _ => rfl
  | ok o => exact Template.compileUnder_unnamed t o

/-- **Making the map does not fail**: the compiler makes one if it is wanted, and it can be read. -/
theorem Plan.exists_mapOf {t : Template} {compiled : Compiled}
    (h : Compiler.standard.compile t (plan.compilerFor id) = .ok compiled) (lines : Nat) :
    ∃ map, plan.mapOf compiled.map id lines = .ok map := by
  obtain ⟨o, ho, hcompile⟩ := exists_of_bind_ok h
  rw [Plan.read_compilerFor hplan] at ho
  cases hread : CompilerOptions.read plan.compiler with
  | error _ =>
    rw [hread] at ho
    cases ho
  | ok o' =>
    rw [hread] at ho
    cases ho
    obtain ⟨s, -, -, hmap⟩ := Template.compileUnder_ok hcompile
    unfold mapOf
    -- with source maps on, the name is there, so the compiler has made a map
    cases hmaps : plan.hasMaps with
    | false => exact ⟨_, rfl⟩
    | true =>
      rw [hmaps] at hmap
      rw [hmap]
      simp only [named, if_true, Option.map_some, Mapping.parse_render]
      exact ⟨_, rfl⟩

/-- **Bundling without source maps**, one stage after another. -/
theorem Plan.bundle_withoutMaps (source : String) :
    plan.withoutMaps.bundle Compiler.standard source id
      = ((plan.bundle Compiler.standard source id).mapError Failure.unnamed).map
        Bundled.withoutMap := by
  have hparse : (Compiler.standard.parse source (plan.withoutMaps.compilerFor id)).mapError .compile
      = (((Compiler.standard.parse source (plan.compilerFor id)).mapError .compile).mapError
        Failure.unnamed).map Template.unnamed := by
    rw [Plan.parse_withoutMaps hplan]
    cases Compiler.standard.parse source (plan.compilerFor id) <;> rfl
  refine bind_eq_mapError_map hparse fun t _ => ?_
  have hcompile : (Compiler.standard.compile t.unnamed (plan.withoutMaps.compilerFor id)).mapError
        .compile
      = (((Compiler.standard.compile t (plan.compilerFor id)).mapError .compile).mapError
        Failure.unnamed).map Compiled.withoutMap := by
    rw [Plan.compile_withoutMaps hplan]
    cases Compiler.standard.compile t (plan.compilerFor id) <;> rfl
  refine bind_eq_mapError_map hcompile fun compiled hcompiled => ?_
  have himports := (plan.paths_unnamed id t.partialNames).trans (congrFun Except.map_id _).symm
  refine bind_eq_mapError_map himports fun imports _ => ?_
  -- The module is the same; only its map is made in one run and not in the other.
  have hmap (name : Option String) : (Except.ok SourceMap.empty : Except Failure SourceMap)
      = ((plan.mapOf compiled.map id
        (⟨imports, compiled.code, name⟩ : TemplateModule).opening.length).mapError
          Failure.unnamed).map fun _ => SourceMap.empty := by
    obtain ⟨map, hmap⟩ := Plan.exists_mapOf hplan id (of_mapError_ok hcompiled)
      (⟨imports, compiled.code, name⟩ : TemplateModule).opening.length
    rw [hmap]
    rfl
  have hpartial : plan.withoutMaps.isPartial id = plan.isPartial id := rfl
  dsimp only
  rw [hpartial]
  split
  · have hname : (plan.nameOf id).map some
        = ((plan.nameOf id).map some).mapError Failure.unnamed := by
      rw [mapError_map, ← plan.nameOf_unnamed]
    exact bind_eq_mapError_map (hname.trans (congrFun Except.map_id _).symm) fun name _ =>
      bind_eq_mapError_map (hmap name) fun map _ => rfl
  · exact bind_eq_mapError_map (g := fun name => name) rfl fun name _ =>
      bind_eq_mapError_map (hmap name) fun map _ => rfl

end

/-! ## The plugin -/

/-- **Switching source maps off changes nothing but the map.**  A plugin without source maps can be
    made when one with them can; it leaves the same files alone, makes of a template the same code,
    with the map of nothing, and fails on the same templates in the same way, but for the name of
    the file in a parse error. -/
theorem Plugin.transform_withoutMaps (settings : Settings) (naming : Naming)
    (here source id : String) :
    (Plugin.ofSettings settings.withoutMaps naming here >>= (·.transform source id))
      = ((Plugin.ofSettings settings naming here >>= (·.transform source id)).mapError
        Failure.unnamed).map (Option.map Bundled.withoutMap) := by
  -- the two plugins differ in their plan only, or both are refused
  have hplugin : Plugin.ofSettings settings.withoutMaps naming here
      = ((Plugin.ofSettings settings naming here).mapError Failure.unnamed).map
        fun plugin => { plugin with plan := plugin.plan.withoutMaps } := by
    unfold Plugin.ofSettings
    rw [Plan.ofSettings_withoutMaps]
    cases Plan.ofSettings settings naming here <;> rfl
  refine bind_eq_mapError_map hplugin fun plugin h => ?_
  obtain ⟨plan, hplan, h⟩ := exists_of_bind_ok h
  cases h
  have hfields := Plan.compiler_unnamed (of_mapError_ok hplan)
  unfold transform
  -- and choose the same files
  have htemplate : plan.withoutMaps.isTemplate id = plan.isTemplate id := rfl
  dsimp only
  rw [htemplate]
  split
  · rw [Plan.bundle_withoutMaps hfields]
    cases plan.bundle Compiler.standard source id <;> rfl
  · rfl

end Bundle

end Stache
