/-
  Who says what a source map is a map of.

  Two settings of the compiler name files: the name of the template, which a source map gives as its
  source, and the name of the file to be generated.  In a plugin both are RESERVED.  A user may put
  them in the settings, with values of any type, and is not heard (`Settings.withoutNames`).

  1. **Nothing is kept of them** (`Plan.ofSettings_withoutNames`).  They are erased before anything
     else is done with the settings, so the plan is the same without them; in particular a value of
     the wrong type, which the compiler would report, is not reported.

  2. **One of them comes back** with the plugin's own value.  The fields that are left name no file
     (`Plan.compiler_nameless`), and a field that is taken touches the name of the generated file
     only if it is that name (`CompilerOptions.destName_of_take`).  So the compiler is run with the
     file's name and no other (`Plan.names_of_read`).

  3. **The map says so** (`Plan.map_of_bundle`).  The compiler writes it as a text, and reading that
     text gives back the one source, whatever characters its name is made of
     (`Mapping.parse_render`).  Moving the map down changes its mappings only.

  What the map says of itself is put together in `Plugin.transform_withoutNames`.
-/
import Stache.Proofs.Bundle.Shift
import Stache.Proofs.Bundle.Switch

namespace Stache

/-! ## Fields that name no file -/

namespace CompilerOptions

/-- A field other than the name of the generated file leaves that name alone. -/
theorem destName_of_take {o o' : CompilerOptions} {field : String × Json}
    (hfield : field.1 ≠ "destName") (h : o.take field = .ok o') : o'.destName = o.destName := by
  obtain ⟨key, value⟩ := field
  have hset {α : Type} {read : Except Mistyped α} {set : α → CompilerOptions}
      (hread : read.map set = .ok o') (hkeeps : ∀ a, (set a).destName = o.destName) :
      o'.destName = o.destName := by
    cases read with
    | error _ => cases hread
    | ok a =>
      cases hread
      exact hkeeps a
  unfold take at h
  simp only [if_neg hfield] at h
  split_ifs at h
  iterate 7 exact hset h fun _ => rfl
  cases h
  rfl

/-- The same for many fields. -/
theorem destName_of_foldlM_take {fields : Json.Fields} {o o' : CompilerOptions}
    (hfields : ∀ field ∈ fields, field.1 ≠ "destName") (h : fields.foldlM take o = .ok o') :
    o'.destName = o.destName := by
  induction fields generalizing o with
  | nil =>
    cases h
    rfl
  | cons field fields ih =>
    obtain ⟨hfield, hrest⟩ := List.forall_mem_cons.1 hfields
    rw [List.foldlM_cons] at h
    obtain ⟨next, hnext, h⟩ := exists_of_bind_ok h
    rw [ih hrest h, destName_of_take hfield hnext]

end CompilerOptions

namespace Bundle

open CompilerOptions

/-! ## The plan -/

/-- The settings, with no names of files among those of the compiler. -/
def Settings.withoutNames (settings : Settings) : Settings :=
  { settings with compiler := Json.erase "srcName" (Json.erase "destName" settings.compiler) }

/-- Whether source maps are wanted. -/
def Settings.mapsOn (settings : Settings) : Bool :=
  !(isOff settings.sourceMap || isOff settings.sourcemap)

/-- **The plan has no use for the names** in the settings. -/
theorem Plan.ofSettings_withoutNames (settings : Settings) (naming : Naming) (here : String) :
    ofSettings settings.withoutNames naming here = ofSettings settings naming here := by
  have hfields : Json.erase "srcName" (Json.erase "destName" settings.withoutNames.compiler)
      = Json.erase "srcName" (Json.erase "destName" settings.compiler) := by
    simp only [Settings.withoutNames, Json.erase, List.filter_filter]
    refine List.filter_congr fun field _ => ?_
    cases decide (field.1 ≠ "srcName") <;> cases decide (field.1 ≠ "destName") <;> rfl
  unfold ofSettings
  rw [hfields]
  rfl

/-- The fields that a plan keeps for the compiler name no file. -/
theorem Plan.compiler_nameless {settings : Settings} {naming : Naming} {here : String} {plan : Plan}
    (h : ofSettings settings naming here = .ok plan) :
    plan.hasMaps = settings.mapsOn ∧ ∀ field ∈ plan.compiler,
      field.1 ≠ "srcName" ∧ field.1 ≠ "destName" := by
  have hsource := Plan.compiler_unnamed h
  obtain ⟨templates, -, h⟩ := exists_of_bind_ok h
  obtain ⟨partials, -, h⟩ := exists_of_bind_ok h
  cases h
  refine ⟨rfl, fun field hfield => ⟨hsource field hfield, ?_⟩⟩
  simpa using (List.mem_filter.1 (List.mem_filter.1 hfield).1).2

/-! ## The compiler's map -/

section

variable {plan : Plan} (hplan : ∀ field ∈ plan.compiler,
  field.1 ≠ "srcName" ∧ field.1 ≠ "destName") (hmaps : plan.hasMaps = true) {id : String}

include hplan hmaps

/-- The compiler is told the name of the file, and no other. -/
theorem Plan.names_of_read {o : CompilerOptions}
    (h : CompilerOptions.read (plan.compilerFor id) = .ok o) :
    o.sourceName = some id ∧ o.destName = none := by
  rw [Plan.read_compilerFor (fun field hfield => (hplan field hfield).1), CompilerOptions.read] at h
  cases hread : ofFields plan.compiler with
  | error _ =>
    rw [hread] at h
    cases h
  | ok o' =>
    rw [hread, hmaps] at h
    cases h
    exact ⟨rfl, destName_of_foldlM_take (fun field hfield => (hplan field hfield).2) hread⟩

/-- **What the map of a module claims to be**, whatever it maps. -/
theorem Plan.map_of_bundle {source : String} {b : Bundled}
    (h : plan.bundle Compiler.standard source id = .ok b) :
    b.map = ⟨some 3, none, none, [id], none, [], b.map.mappings, []⟩ := by
  obtain ⟨made, m, hmade⟩ := Plan.bundle_madeOf hmaps h
  obtain ⟨template, text, -, hcompile, hread, -⟩ := hmade.parts
  obtain ⟨o, ho, hcompile⟩ := exists_of_bind_ok hcompile
  obtain ⟨hsource, hdest⟩ := Plan.names_of_read hplan hmaps ho
  obtain ⟨s, -, -, htext⟩ := Template.compileUnder_ok hcompile
  rw [hsource, hdest] at htext
  obtain rfl := Option.some.inj htext
  rw [Mapping.parse_render] at hread
  obtain rfl := Except.ok.inj hread
  rw [hmade.map]
  rfl

end

/-! ## The plugin -/

/-- **A user cannot change what a module's map claims to be.**  Whatever the settings of the compiler
    hold, a transformed module is the one that is made without the names of files in them, failures
    included; and with source maps, its map is of version 3 and has the file as its only source, and
    there is nothing else in it but its mappings. -/
theorem Plugin.transform_withoutNames (settings : Settings) (naming : Naming)
    (here source id : String) :
    (Plugin.ofSettings settings.withoutNames naming here >>= (·.transform source id))
        = (Plugin.ofSettings settings naming here >>= (·.transform source id))
      ∧ ∀ b, settings.mapsOn = true →
        (Plugin.ofSettings settings naming here >>= (·.transform source id)) = .ok (some b) →
        b.map = ⟨some 3, none, none, [id], none, [], b.map.mappings, []⟩ := by
  constructor
  · unfold Plugin.ofSettings
    rw [Plan.ofSettings_withoutNames]
  · intro b hon h
    obtain ⟨plugin, hplugin, h⟩ := exists_of_bind_ok h
    obtain ⟨plan, hplan, hplugin⟩ := exists_of_bind_ok hplugin
    obtain rfl := Except.ok.inj hplugin
    obtain ⟨hmaps, hfields⟩ := Plan.compiler_nameless (of_mapError_ok hplan)
    rw [transform] at h
    -- files that are no templates have no map
    split at h
    · cases hbundle : plan.bundle Compiler.standard source id with
      | error _ =>
        rw [hbundle] at h
        cases h
      | ok b' =>
        rw [hbundle] at h
        cases h
        exact Plan.map_of_bundle hfields (hmaps.trans hon) hbundle
    · cases h

/-- The settings name the generated file, and give a name of the wrong type for the template. -/
theorem Plugin.transform_withoutNames_at_mistyped :
    let settings : Settings := { Settings.default with
      compiler := [("destName", .string "other.js"), ("srcName", .integer 7)] }
    let id := "/a/\"b\"\n😀.hbs"
    settings.mapsOn = true
      ∧ (Plugin.ofSettings settings.withoutNames .standard "/a" >>= (·.transform "" id))
        = (Plugin.ofSettings settings .standard "/a" >>= (·.transform "" id))
      ∧ ∃ b, (Plugin.ofSettings settings .standard "/a" >>= (·.transform "" id)) = .ok (some b)
        ∧ b.map = ⟨some 3, none, none, [id], none, [], b.map.mappings, []⟩ := by
  intro settings id
  obtain ⟨hsame, hmap⟩ := Plugin.transform_withoutNames settings .standard "/a" "" id
  obtain ⟨made, hmade, hsome⟩ := exists_ok
    (e := Plugin.ofSettings settings .standard "/a" >>= (·.transform "" id))
    (P := fun made => made.isSome = true) (by decide +kernel)
  obtain ⟨b, rfl⟩ := Option.isSome_iff_exists.1 hsome
  exact ⟨rfl, hsame, b, hmade, hmap b rfl hmade⟩

end Bundle

end Stache
