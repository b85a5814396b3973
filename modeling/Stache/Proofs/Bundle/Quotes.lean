/-
  Texts of others in the modules of a plugin.

  A module has the paths and the names that it is made of between single quotes: the path of each
  partial that it imports, the name that it registers itself by, the files of helpers.  Where these
  stand, and in which order, is said by `Quotes`; each should be DENOTED by the literal that it is
  written as (`Denoted`).

  The texts are not escaped there, as they are in the code of templates.  So a text is denoted
  EXACTLY when it is bare of quotes, backslashes and line breaks (`Plan.quotes_bundle`), and the
  name of a partial need not be.
-/
import Stache.Bundle.Plugin
import Stache.Proofs.Runs
import Stache.Proofs.Script.Literal

namespace Stache.Bundle

open Script (Bare readString utf16)

/-! ## Texts between quotes -/

/-- A text in single quotes, with `after` behind it, is a literal that denotes the text. -/
def Denoted (text : String) (after : List Char) : Prop :=
  readString ((singleQuoted text).toList ++ after) = some (utf16 text.toList, after)

/-- A text that stands in quotes, and what its line begins with. -/
structure Quote where
  lead : String
  text : String
deriving DecidableEq, Repr

/-- From the line feed in front up to the closing quote. -/
def Quote.written (quote : Quote) : List Char :=
  '\n' :: (quote.lead ++ singleQuoted quote.text).toList

/-- The quotes stand in `code`, one after another, and at the place of each one `P` holds of its
    text and of what comes after it. -/
inductive Quotes (P : String → List Char → Prop) : (code : List Char) → List Quote → Prop where
  | none (code : List Char) : Quotes P code []
  | next {quote : Quote} {after : List Char} {more : List Quote} (before : List Char)
      (h : P quote.text after) (hmore : Quotes P after more) :
      Quotes P (before ++ quote.written ++ after) (quote :: more)

section Quotes

variable {P : String → List Char → Prop} {code : List Char} {quotes : List Quote}

/-- More code in front changes nothing. -/
theorem Quotes.behind (h : Quotes P code quotes) (before : List Char) :
    Quotes P (before ++ code) quotes := by
  cases h with
  | none => exact .none _
  | next inner h hmore =>
    have hnext := hmore.next (before ++ inner) h
    rwa [List.append_assoc before, List.append_assoc before] at hnext

/-- Quotes that follow at once. -/
theorem Quotes.prepend (hall : ∀ text after, P text after) (h : Quotes P code quotes)
    (more : List Quote) : Quotes P (more.flatMap Quote.written ++ code) (more ++ quotes) := by
  induction more with
  | nil => exact h
  | cons quote more ih =>
    rw [List.flatMap_cons, List.append_assoc]
    exact ih.next [] (hall _ _)

theorem Quotes.forall {Q : String → Prop} (hPQ : ∀ text after, P text after → Q text)
    (h : Quotes P code quotes) : ∀ quote ∈ quotes, Q quote.text := by
  induction h with
  | none => exact List.forall_mem_nil _
  | next before h hmore ih => exact List.forall_mem_cons.2 ⟨hPQ _ _ h, ih⟩

end Quotes

/-- A text is denoted if and only if it is bare, whatever comes after it. -/
theorem denoted_iff_bare (text : String) (after : List Char) :
    Denoted text after ↔ Bare text.toList :=
  Script.readString_singleQuoted_iff

/-! ## Template modules -/

/-- Lines that each have a line feed in front. -/
def freshLines (lines : List String) : List Char := lines.flatMap fun line => '\n' :: line.toList

theorem freshLines_append (lines more : List String) :
    freshLines (lines ++ more) = freshLines lines ++ freshLines more := List.flatMap_append

theorem toList_joined_lines (line : String) (more : List String) :
    (Text.joined "\n" (line :: more)).toList = line.toList ++ freshLines more :=
  Text.toList_joined "\n" line more

/-- Lines that end in a quote each. -/
theorem freshLines_map {α : Type} (row : List α) (quote : α → Quote) :
    freshLines (row.map fun a => (quote a).lead ++ singleQuoted (quote a).text)
      = (row.map quote).flatMap Quote.written := by
  rw [freshLines, List.flatMap_map, List.flatMap_map]
  rfl

/-- The texts that a template module has in quotes. -/
def TemplateModule.quotes (m : TemplateModule) : List Quote :=
  m.imports.map (fun path => ⟨"import ", path⟩)
    ++ m.name.toList.map fun name => ⟨"Handlebars.registerPartial(", name⟩

/-- The line of a quote that goes on behind it. -/
theorem quotes_freshLine {P : String → List Char → Prop} (hall : ∀ text after, P text after)
    (quote : Quote) (rest : String) :
    Quotes P (freshLines [quote.lead ++ singleQuoted quote.text ++ rest]) [quote] := by
  have hline := (Quotes.none (P := P) rest.toList).prepend hall [quote]
  rw [List.flatMap_singleton, List.append_nil] at hline
  rw [freshLines, List.flatMap_singleton, String.toList_append]
  exact hline

/-- The quotes of a template module are in their places. -/
theorem TemplateModule.quotes_render {P : String → List Char → Prop}
    (hall : ∀ text after, P text after) (m : TemplateModule) :
    Quotes P m.render.toList m.quotes := by
  have hname : Quotes P
      (freshLines (m.name.toList.map fun name =>
        "Handlebars.registerPartial(" ++ singleQuoted name ++ ", RawTemplate)"))
      (m.name.toList.map fun name => ⟨"Handlebars.registerPartial(", name⟩) := by
    cases m.name with
    | none => exact .none _
    | some name => exact quotes_freshLine hall ⟨"Handlebars.registerPartial(", name⟩ _
  have himports := freshLines_map m.imports fun path => ⟨"import ", path⟩
  -- the template is not one of the quoted texts, so it is kept apart
  have hlines : m.opening ++ m.template :: m.closing
      = importRuntime :: (["import Render from " ++ singleQuoted helpersId]
        ++ m.imports.map (fun path => "import " ++ singleQuoted path)
        ++ ("export const RawTemplate = Handlebars.template(" :: m.template
          :: [")", "export default Render(RawTemplate)"])
        ++ m.name.toList.map fun name =>
          "Handlebars.registerPartial(" ++ singleQuoted name ++ ", RawTemplate)") := by
    simp only [opening, closing, List.append_assoc, List.cons_append, List.nil_append]
  rw [render, hlines, toList_joined_lines, freshLines_append, freshLines_append, freshLines_append,
    himports, List.append_assoc, List.append_assoc]
  exact (((hname.behind _).prepend hall _).behind _).behind _

/-! ## The helpers module -/

/-- The texts that the helpers module has in quotes. -/
def helperQuotes (helpers : List String) : List Quote :=
  helpers.zipIdx.map fun helper =>
    ⟨"import " ++ registration helper.2 ++ " from ", "./" ++ helper.1⟩

/-- The quotes of the helpers module are in their places. -/
theorem quotes_renderHelpers {P : String → List Char → Prop}
    (hall : ∀ text after, P text after) (helpers : List String) :
    Quotes P (renderHelpers helpers).toList (helperQuotes helpers) := by
  have himports := freshLines_map helpers.zipIdx fun helper =>
    ⟨"import " ++ registration helper.2 ++ " from ", "./" ++ helper.1⟩
  have hquotes (after : List Char) := ((Quotes.none (P := P) after).prepend hall
    (helperQuotes helpers)).behind importRuntime.toList
  rw [renderHelpers, List.cons_append, List.cons_append, toList_joined_lines, freshLines_append,
    freshLines_append, himports, List.append_assoc, ← List.append_nil (helperQuotes helpers)]
  exact hquotes _

/-! ## Bundling -/

/-- A module that is made of a template: it imports the partials that the template calls, by the
    paths that the naming has for them, and is named by it if it is a partial. -/
structure Bundled.ModuleOf (b : Bundled) (plan : Plan) (compiler : Compiler) (source id : String)
    (m : TemplateModule) : Prop where
  imports : ∃ template, compiler.parse source (plan.compilerFor id) = .ok template
    ∧ template.partialNames.mapM (fun name => plan.pathOf name id) = .ok m.imports
  named : plan.isPartial id = true → ∃ name, plan.nameOf id = .ok name ∧ m.name = some name
  unnamed : plan.isPartial id = false → m.name = none
  code : b.code = m.render

/-- **What the plan makes is a module**, of the partials that the template names. -/
theorem Plan.bundle_moduleOf {plan : Plan} {compiler : Compiler} {source id : String} {b : Bundled}
    (h : plan.bundle compiler source id = .ok b) :
    ∃ m, b.ModuleOf plan compiler source id m := by
  rw [bundle] at h
  obtain ⟨template, htemplate, h⟩ := exists_of_bind_ok h
  obtain ⟨compiled, -, h⟩ := exists_of_bind_ok h
  obtain ⟨imports, himports, h⟩ := exists_of_bind_ok h
  have hparts : ∃ template, compiler.parse source (plan.compilerFor id) = .ok template
      ∧ template.partialNames.mapM (fun name => plan.pathOf name id) = .ok imports :=
    ⟨template, of_mapError_ok htemplate, himports⟩
  -- the module of a partial has a name, and no other has
  split at h
  · rename_i hpartial
    obtain ⟨named, hnamed, h⟩ := exists_of_bind_ok h
    obtain ⟨map, -, h⟩ := exists_of_bind_ok h
    cases h
    cases hname : plan.nameOf id with
    | error failure =>
      rw [hname] at hnamed
      cases hnamed
    | ok name =>
      rw [hname] at hnamed
      cases hnamed
      exact ⟨⟨imports, compiled.code, some name⟩, hparts, fun _ => ⟨name, hname, rfl⟩,
        fun hno => absurd hpartial (by rw [hno]; decide), rfl⟩
  · rename_i hpartial
    obtain ⟨unnamed, hunnamed, h⟩ := exists_of_bind_ok h
    cases hunnamed
    obtain ⟨map, -, h⟩ := exists_of_bind_ok h
    cases h
    exact ⟨⟨imports, compiled.code, none⟩, hparts, fun hyes => absurd hyes hpartial,
      fun _ => rfl, rfl⟩

/-- **What modules say of others.**  The module of a template has the path of each partial in quotes
    and the name it registers, and the helpers module has the files of helpers: each of these texts
    is denoted by what is written EXACTLY when it is bare. -/
theorem Plan.quotes_bundle {plan : Plan} {compiler : Compiler} {source id : String} {b : Bundled}
    (h : plan.bundle compiler source id = .ok b) :
    (∃ m, b.ModuleOf plan compiler source id m
        ∧ Quotes (fun text after => Denoted text after ↔ Bare text.toList) b.code.toList m.quotes)
      ∧ Quotes (fun text after => Denoted text after ↔ Bare text.toList)
        (renderHelpers plan.helpers).toList (helperQuotes plan.helpers) := by
  obtain ⟨m, hm⟩ := Plan.bundle_moduleOf h
  refine ⟨⟨m, hm, ?_⟩, quotes_renderHelpers denoted_iff_bare plan.helpers⟩
  rw [hm.code]
  exact m.quotes_render denoted_iff_bare

/-- A partial that calls the partial `nav`. -/
theorem Plan.quotes_bundle_at_nav :
    let plan : Plan := ⟨["helpers.js"], ⟨[], []⟩, ⟨[], []⟩, .standard, [], false⟩
    let compiler : Compiler := ⟨Compiler.standard.parse, fun _ _ => .ok ⟨"template", none⟩⟩
    ∃ b, plan.bundle compiler "\x7b\x7b> nav\x7d\x7d" "_menu.hbs" = .ok b
      ∧ (∃ m, b.ModuleOf plan compiler "\x7b\x7b> nav\x7d\x7d" "_menu.hbs" m
          ∧ Quotes (fun text after => Denoted text after ↔ Bare text.toList) b.code.toList m.quotes)
      ∧ Quotes (fun text after => Denoted text after ↔ Bare text.toList)
        (renderHelpers plan.helpers).toList (helperQuotes plan.helpers) := by
  intro plan compiler
  obtain ⟨b, hb⟩ := exists_of_isOk
    (e := plan.bundle compiler "\x7b\x7b> nav\x7d\x7d" "_menu.hbs") (by decide +kernel)
  exact ⟨b, hb, Plan.quotes_bundle hb⟩

/-- The name of the partial has a single quote in it, and so has the name of the file of helpers. -/
theorem Plan.not_denoted_of_quote :
    let plan : Plan := ⟨["it's.js"], ⟨[], []⟩, ⟨[], []⟩, .standard, [], false⟩
    let compiler : Compiler := ⟨Compiler.standard.parse, fun _ _ => .ok ⟨"template", none⟩⟩
    let source := "\x7b\x7b> [it's]\x7d\x7d"
    (∃ b m, plan.bundle compiler source "t.hbs" = .ok b
        ∧ b.ModuleOf plan compiler source "t.hbs" m ∧ ¬ Quotes Denoted b.code.toList m.quotes)
      ∧ ¬ Quotes Denoted (renderHelpers plan.helpers).toList (helperQuotes plan.helpers) := by
  intro plan compiler source
  have hbare (code : List Char) (quotes : List Quote) (h : Quotes Denoted code quotes) :
      ∀ quote ∈ quotes, Bare quote.text.toList :=
    h.forall (Q := fun text => Bare text.toList) fun text after => (denoted_iff_bare text after).1
  constructor
  · obtain ⟨b, hb⟩ := exists_of_isOk (e := plan.bundle compiler source "t.hbs") (by decide +kernel)
    obtain ⟨m, hm⟩ := Plan.bundle_moduleOf hb
    refine ⟨b, m, hb, hm, fun hquotes => ?_⟩
    obtain ⟨template, hparse, himports⟩ := hm.imports
    obtain ⟨t, ht, hnames⟩ := exists_ok (e := compiler.parse source (plan.compilerFor "t.hbs"))
      (P := fun t => t.partialNames = ["it's"]) (by decide +kernel)
    cases hparse.symm.trans ht
    rw [hnames] at himports
    have hpath : [Naming.standardPath "it's" "t.hbs"] = m.imports := Except.ok.inj himports
    -- the partial is imported between quotes of the same kind
    have hmem : (⟨"import ", Naming.standardPath "it's" "t.hbs"⟩ : Quote) ∈ m.quotes := by
      rw [TemplateModule.quotes, ← hpath]
      exact List.mem_cons_self ..
    exact (hbare _ _ hquotes _ hmem '\'' (by decide +kernel)).1 rfl
  · intro hquotes
    exact (hbare _ _ hquotes ⟨"import registerHelpers0 from ", "./it's.js"⟩ (by decide +kernel)
      '\'' (by decide +kernel)).1 rfl

end Stache.Bundle
