/-
  Whether the map of a module fits the module.

  A module has lines in front of the template, and the compiler's map is moved down by their number.
  It should end up IN PLACE (`Bundled.InPlace`): with as many semicolons in front as there are line
  feeds before the template, so that a mark at a character of the template comes to stand at the
  same character in the module.

  What is counted are the lines as they are put together, though, and one of them may hold a line
  feed: a line that imports a partial has the path in it that the naming gives, and the name of a
  partial may be any text between brackets.  The map is in place EXACTLY when no path has a line
  feed (`Plan.bundle_inPlace_iff`).
-/
import Mathlib.Data.List.Forall2
import Stache.Bundle.Plugin
import Stache.Proofs.Mapping.Decode
import Stache.Proofs.Runs
import Stache.Proofs.Text.Positions

namespace Stache.Bundle

open Mapping Position

/-! ## Modules -/

namespace TemplateModule

/-- What stands before the template. -/
def before (m : TemplateModule) : List Char :=
  m.opening.flatMap fun line => line.toList ++ ['\n']

/-- What stands after it. -/
def after (m : TemplateModule) : List Char :=
  m.closing.flatMap fun line => '\n' :: line.toList

theorem toList_render (m : TemplateModule) :
    m.render.toList = m.before ++ m.template.toList ++ m.after :=
  Text.toList_joined_append "\n" m.opening m.template m.closing

/-- The template begins a line. -/
theorem column_before (m : TemplateModule) : (origin.advance m.before).column = 0 := by
  have hlast : ∃ lines, m.before = lines ++ ['\n'] := by
    rw [before, opening, List.flatMap_append, List.flatMap_singleton, ← List.append_assoc]
    exact ⟨_, rfl⟩
  obtain ⟨lines, hlines⟩ := hlast
  rw [hlines]
  exact column_advance_concat origin lines

/-- Lines hold the line feeds that end them, and those that are in them. -/
theorem lineFeeds_flatMap (lines : List String) :
    lineFeeds (lines.flatMap fun line => line.toList ++ ['\n'])
      = lines.length + lineFeeds (lines.flatMap String.toList) := by
  induction lines with
  | nil => rfl
  | cons line lines ih =>
    have hend : lineFeeds ['\n'] = 1 := rfl
    simp only [List.flatMap_cons, lineFeeds_append, ih, hend, List.length_cons]
    omega

/-- The lines that import the partials hold no line feeds but those in the paths. -/
theorem lineFeeds_imports (imports : List String) :
    lineFeeds ((imports.map fun path => "import " ++ singleQuoted path).flatMap String.toList)
      = lineFeeds (imports.flatMap String.toList) := by
  have hword : lineFeeds "import ".toList = 0 := by decide
  have hquote : lineFeeds "'".toList = 0 := by decide
  induction imports with
  | nil => rfl
  | cons path imports ih =>
    simp only [List.map_cons, List.flatMap_cons, singleQuoted, String.toList_append,
      lineFeeds_append, hword, hquote] at ih ⊢
    omega

/-- **The line feeds before the template**: one for each line, and those in the paths. -/
theorem lineFeeds_before (m : TemplateModule) :
    lineFeeds m.before = m.opening.length + lineFeeds (m.imports.flatMap String.toList) := by
  have hfirst : lineFeeds ([importRuntime, "import Render from " ++ singleQuoted helpersId].flatMap
      String.toList) = 0 := by decide
  have hlast : lineFeeds (["export const RawTemplate = Handlebars.template("].flatMap
      String.toList) = 0 := by decide
  rw [before, lineFeeds_flatMap]
  refine congrArg (m.opening.length + ·) ?_
  rw [opening, List.flatMap_append, List.flatMap_append, lineFeeds_append, lineFeeds_append, hfirst,
    hlast, lineFeeds_imports]
  omega

/-- The lines are counted right exactly when no path has a line feed. -/
theorem lineFeeds_before_eq_iff (m : TemplateModule) :
    lineFeeds m.before = m.opening.length ↔ ∀ path ∈ m.imports, '\n' ∉ path.toList := by
  have hnone : lineFeeds (m.imports.flatMap String.toList) = 0
      ↔ ∀ path ∈ m.imports, '\n' ∉ path.toList := by
    rw [lineFeeds, List.count_eq_zero, List.mem_flatMap]
    constructor
    · intro h path hpath hfeed
      exact h ⟨path, hpath, hfeed⟩
    · rintro h ⟨path, hpath, hfeed⟩
      exact h path hpath hfeed
  rw [lineFeeds_before, ← hnone]
  omega

end TemplateModule

/-! ## Maps in place -/

/-- In a module, `map` is the map `made` of the template moved down past what stands before the
    template: by a semicolon for each line feed there.  So the mark of a character in the template
    stands at that character in the module, and points to the same place as before. -/
structure TemplateModule.InPlace (m : TemplateModule) (made map : SourceMap) : Prop where
  separators : map.mappings
    = String.ofList (List.replicate (lineFeeds m.before) ';') ++ made.mappings
  marks : ∀ marks, decode made.mappings = some marks →
    ∃ moved, decode map.mappings = some moved
      ∧ List.Forall₂ (fun mark mark' => mark'.target = mark.target ∧ mark'.name = mark.name
          ∧ ∀ s, s <+: m.template.toList → mark.At (origin.advance s) →
            mark'.At (origin.advance (m.before ++ s))) marks moved

/-- A mark that is moved down as far as the template stays with its character. -/
theorem TemplateModule.at_down {m : TemplateModule} {mark : Mark} {s : List Char}
    (h : mark.At (origin.advance s)) :
    (mark.down (lineFeeds m.before)).At (origin.advance (m.before ++ s)) := by
  -- Both texts begin a line, so `s` moves their positions in the same way.
  have hplace := advance_eq (origin.advance m.before) origin m.column_before s
  have hlines := line_advance origin m.before
  have hline := line_le_advance origin s
  obtain ⟨hmark, hcolumn⟩ := h
  rw [advance_append, hplace]
  refine ⟨?_, hcolumn⟩
  show mark.line + lineFeeds m.before + 1
    = (origin.advance m.before).line + ((origin.advance s).line - origin.line)
  omega

/-- **The map is in place** exactly if it is moved down by the right number of lines. -/
theorem TemplateModule.inPlace_moveDown_iff {m : TemplateModule} {made : SourceMap} {lines : Nat} :
    m.InPlace made (made.moveDown lines) ↔ lineFeeds m.before = lines := by
  constructor
  · intro h
    -- The number of semicolons can be told from the length of the mappings.
    have hlength := congrArg (fun text : String => text.toList.length) h.separators
    simp only [SourceMap.moveDown, String.toList_append, String.toList_ofList, List.length_append,
      List.length_replicate] at hlength
    omega
  · rintro rfl
    refine ⟨rfl, fun marks hmarks => ⟨marks.map (Mark.down (lineFeeds m.before)), ?_, ?_⟩⟩
    · rw [SourceMap.moveDown, decode_down, hmarks]
      rfl
    · rw [List.forall₂_map_right_iff]
      exact List.forall₂_same.2 fun mark _ => ⟨rfl, rfl, fun s _ hs => at_down hs⟩

/-! ## Bundling -/

/-- What a module that is bundled is made of: the compiled template, the compiler's map of it, and
    the paths of its partials. -/
structure Bundled.MadeOf (b : Bundled) (plan : Plan) (compiler : Compiler) (source id : String)
    (made : SourceMap) (m : TemplateModule) : Prop where
  parts : ∃ template text, compiler.parse source (plan.compilerFor id) = .ok template
    ∧ compiler.compile template (plan.compilerFor id) = .ok ⟨m.template, some text⟩
    ∧ SourceMap.parse text = .ok made
    ∧ template.partialNames.mapM (fun name => plan.pathOf name id) = .ok m.imports
  code : b.code.toList = m.before ++ m.template.toList ++ m.after
  map : b.map = made.moveDown m.opening.length

/-- **What the plan makes has the compiler's map**, moved down by its lines. -/
theorem Plan.bundle_madeOf {plan : Plan} {compiler : Compiler} {source id : String} {b : Bundled}
    (hmaps : plan.hasMaps = true) (h : plan.bundle compiler source id = .ok b) :
    ∃ made m, b.MadeOf plan compiler source id made m := by
  rw [bundle] at h
  obtain ⟨template, htemplate, h⟩ := exists_of_bind_ok h
  obtain ⟨compiled, hcompiled, h⟩ := exists_of_bind_ok h
  obtain ⟨imports, himports, h⟩ := exists_of_bind_ok h
  -- Only the module of a partial has a name.
  have hnamed : ∃ name, (do
      let result : TemplateModule := ⟨imports, compiled.code, name⟩
      let map ← plan.mapOf compiled.map id result.opening.length
      return (⟨result.render, map⟩ : Bundled)) = .ok b := by
    split at h
    · obtain ⟨name, -, h⟩ := exists_of_bind_ok h
      exact ⟨name, h⟩
    · exact ⟨none, h⟩
  obtain ⟨name, h⟩ := hnamed
  obtain ⟨map, hmap, h⟩ := exists_of_bind_ok h
  cases h
  obtain ⟨code, text⟩ := compiled
  unfold mapOf at hmap
  rw [hmaps] at hmap
  -- with source maps on, a compiler without one is an error
  cases text with
  | none => cases hmap
  | some text =>
    cases hread : SourceMap.parse text with
    | error fault =>
      simp only [hread] at hmap
      cases hmap
    | ok made =>
      simp only [hread] at hmap
      cases hmap
      exact ⟨made, ⟨imports, code, name⟩, ⟨template, text, of_mapError_ok htemplate,
        of_mapError_ok hcompiled, hread, himports⟩, TemplateModule.toList_render _, rfl⟩

/-- **When the map fits the module.**  With source maps, the template begins a line of every module,
    and the map is in place EXACTLY when no path that is imported has a line feed in it. -/
theorem Plan.bundle_inPlace_iff {plan : Plan} {compiler : Compiler} {source id : String}
    {b : Bundled} (hmaps : plan.hasMaps = true) (h : plan.bundle compiler source id = .ok b) :
    ∃ made m, b.MadeOf plan compiler source id made m
      ∧ (origin.advance m.before).column = 0
      ∧ (m.InPlace made b.map ↔ ∀ path ∈ m.imports, '\n' ∉ path.toList) := by
  obtain ⟨made, m, hb⟩ := Plan.bundle_madeOf hmaps h
  refine ⟨made, m, hb, m.column_before, ?_⟩
  rw [hb.map, TemplateModule.inPlace_moveDown_iff, m.lineFeeds_before_eq_iff]

/-- A template that calls the partial `nav`, with a compiler whose output is always the same. -/
theorem Plan.bundle_inPlace_at_nav :
    let plan : Plan := ⟨[], ⟨[], []⟩, ⟨[], []⟩, .standard, [], true⟩
    let compiler : Compiler := ⟨Compiler.standard.parse, fun _ _ =>
      .ok ⟨"template", some "\x7b\"mappings\":\"AAAA\"\x7d"⟩⟩
    let source := "\x7b\x7b> nav\x7d\x7d"
    plan.hasMaps = true ∧ ∃ b, plan.bundle compiler source "t.hbs" = .ok b
      ∧ ∃ made m, b.MadeOf plan compiler source "t.hbs" made m
        ∧ (origin.advance m.before).column = 0
        ∧ (m.InPlace made b.map ↔ ∀ path ∈ m.imports, '\n' ∉ path.toList) := by
  intro plan compiler source
  obtain ⟨b, hb, -⟩ := exists_ok (e := plan.bundle compiler source "t.hbs") (P := fun _ => True)
    (by decide +kernel)
  exact ⟨rfl, b, hb, Plan.bundle_inPlace_iff rfl hb⟩

/-- The name of the partial, and so the path of its file, has a line feed in it. -/
theorem Plan.bundle_not_inPlace_of_lineFeed :
    let plan : Plan := ⟨[], ⟨[], []⟩, ⟨[], []⟩, .standard, [], true⟩
    let compiler : Compiler := ⟨Compiler.standard.parse, fun _ _ =>
      .ok ⟨"template", some "\x7b\"mappings\":\"AAAA\"\x7d"⟩⟩
    let source := "\x7b\x7b> [a\nb]\x7d\x7d"
    ∃ b made m, plan.bundle compiler source "t.hbs" = .ok b
      ∧ b.MadeOf plan compiler source "t.hbs" made m ∧ ¬ m.InPlace made b.map := by
  intro plan compiler source
  obtain ⟨b, hb, -⟩ := exists_ok (e := plan.bundle compiler source "t.hbs") (P := fun _ => True)
    (by decide +kernel)
  obtain ⟨made, m, hmade⟩ := Plan.bundle_madeOf rfl hb
  refine ⟨b, made, m, hb, hmade, ?_⟩
  rw [hmade.map, TemplateModule.inPlace_moveDown_iff, m.lineFeeds_before_eq_iff]
  obtain ⟨template, text, hparse, -, -, himports⟩ := hmade.parts
  obtain ⟨t, ht, hnames⟩ := exists_ok (e := compiler.parse source (plan.compilerFor "t.hbs"))
    (P := fun t => t.partialNames = ["a\nb"]) (by decide +kernel)
  cases hparse.symm.trans ht
  rw [hnames] at himports
  have hpath : [Naming.standardPath "a\nb" "t.hbs"] = m.imports := Except.ok.inj himports
  -- the name goes into the path, with its line feed
  intro hpaths
  exact hpaths _ (hpath ▸ List.mem_cons_self ..) (by decide +kernel)

end Stache.Bundle
