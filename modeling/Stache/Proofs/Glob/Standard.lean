/-
  What the standard patterns select.

  Settings that say nothing about files get the standard patterns.  These are wildcards throughout,
  but what they select can be told from a name by looking at two places in it:

    1. THE LAST COMPONENT.  `**` in front of a pattern that takes no slash leaves it the last
       component and nothing else (`Pattern.matches_lastComponent`).  The other components are not
       seen, whether they are empty, hidden or named like a file.  So a template is known by the end
       of this component and a partial by its first character;
    2. THE BEGINNING.  The pattern for what is left out is relative to the base directory, whose
       path stands for itself (`Pattern.matches_below`), and `**` at its end takes whatever comes.

  Together: `Plan.standard_selections`.
-/
import Stache.Bundle.Plan
import Stache.Proofs.Glob.Relative

namespace Stache.Glob

/-! ## Wildcards -/

/-- A single star may leave any end behind, as long as it passes no slash; -/
theorem mem_tailsInComponent {s t : List Char} :
    t ∈ tailsInComponent s ↔ ∃ front, s = front ++ t ∧ '/' ∉ front := by
  induction s with
  | nil =>
    rw [tailsInComponent, List.mem_singleton]
    constructor
    · rintro rfl
      exact ⟨[], rfl, List.not_mem_nil⟩
    · rintro ⟨front, hfront, -⟩
      exact (List.append_eq_nil_iff.1 hfront.symm).2
  | cons c s ih =>
    -- the tails of what is behind the first character, unless that is a slash
    have hrest : t ∈ (if c = '/' then [] else tailsInComponent s)
        ↔ c ≠ '/' ∧ ∃ front, s = front ++ t ∧ '/' ∉ front := by
      split
      · exact iff_of_false List.not_mem_nil fun h => h.1 ‹_›
      · rw [ih, and_iff_right ‹_›]
    rw [tailsInComponent, List.mem_cons, hrest]
    constructor
    · rintro (rfl | ⟨hc, front, rfl, hfront⟩)
      · exact ⟨[], rfl, List.not_mem_nil⟩
      · exact ⟨c :: front, rfl, by simp [Ne.symm hc, hfront]⟩
    · rintro ⟨front, hs, hfront⟩
      cases front with
      | nil => exact .inl hs.symm
      | cons d front =>
        obtain ⟨rfl, rfl⟩ := List.cons.inj hs
        rw [List.mem_cons, not_or] at hfront
        exact .inr ⟨Ne.symm hfront.1, front, rfl, hfront.2⟩

/-- two of them leave nothing, or what stands behind some slash. -/
theorem mem_tailsBelow {s t : List Char} :
    t ∈ tailsBelow s ↔ t = [] ∨ ∃ front, s = front ++ '/' :: t := by
  induction s with
  | nil => simp [tailsBelow]
  | cons c s ih =>
    -- the slash is the first character, or one behind it
    have hhere : (∃ front, c :: s = front ++ '/' :: t)
        ↔ (c = '/' ∧ s = t) ∨ ∃ front, s = front ++ '/' :: t := by
      constructor
      · rintro ⟨front, hs⟩
        cases front with
        | nil => exact .inl (List.cons.inj hs)
        | cons d front => exact .inr ⟨front, (List.cons.inj hs).2⟩
      · rintro (⟨rfl, rfl⟩ | ⟨front, rfl⟩)
        · exact ⟨[], rfl⟩
        · exact ⟨c :: front, rfl⟩
    rw [tailsBelow, hhere]
    split
    · rename_i hc
      rw [List.mem_cons, ih, and_iff_right hc, or_left_comm, eq_comm (a := t) (b := s)]
    · rename_i hc
      have hnot : ¬ (c = '/' ∧ s = t) := fun h => hc h.1
      rw [ih, or_iff_right hnot]

namespace Pattern

variable {pattern : Pattern} {s : List Char}

/-- `*` in front. -/
theorem matches_run : Pattern.matches (.run :: pattern) s = true
    ↔ ∃ front t, s = front ++ t ∧ '/' ∉ front ∧ pattern.matches t = true := by
  have hrests : Piece.run.rests s = tailsInComponent s := by
    cases s <;> rfl
  rw [matches_cons, hrests]
  simp only [mem_tailsInComponent]
  constructor
  · rintro ⟨t, ⟨front, hs, hfront⟩, ht⟩
    exact ⟨front, t, hs, hfront, ht⟩
  · rintro ⟨front, t, hs, hfront, ht⟩
    exact ⟨t, ⟨front, hs, hfront⟩, ht⟩

/-- `**` in front.  It may take everything, even if no slash comes at the end. -/
theorem matches_components : Pattern.matches (.components :: pattern) s = true
    ↔ pattern.matches s = true ∨ pattern.matches [] = true
      ∨ ∃ front t, s = front ++ '/' :: t ∧ pattern.matches t = true := by
  have hrests : Piece.components.rests s = s :: tailsBelow s := by
    cases s <;> rfl
  rw [matches_cons, hrests]
  simp only [List.mem_cons, mem_tailsBelow]
  constructor
  · rintro ⟨t, rfl | rfl | ⟨front, hs⟩, ht⟩
    · exact .inl ht
    · exact .inr (.inl ht)
    · exact .inr (.inr ⟨front, t, hs, ht⟩)
  · rintro (ht | ht | ⟨front, t, hs, ht⟩)
    · exact ⟨s, .inl rfl, ht⟩
    · exact ⟨[], .inr (.inl rfl), ht⟩
    · exact ⟨t, .inr (.inr ⟨front, hs⟩), ht⟩

/-- `**` at the end matches whatever comes. -/
theorem matches_components_nil : Pattern.matches [.components] s = true :=
  matches_components.2 (.inr (.inl (matches_nil.2 rfl)))

/-! ## The last component -/

/-- **A pattern for one component** behind `**` is for the last one. -/
theorem matches_lastComponent (hslash : ∀ t, pattern.matches t = true → '/' ∉ t)
    (hempty : ¬ pattern.matches [] = true) :
    Pattern.matches (.components :: pattern) s = true
      ↔ pattern.matches (Text.afterLast '/' s) = true := by
  rw [matches_components, or_iff_right hempty]
  constructor
  · rintro (h | ⟨front, t, rfl, h⟩)
    · rwa [Text.afterLast_of_not_mem (hslash s h)]
    · rwa [Text.afterLast_append_cons_of_not_mem (hslash t h)]
  · intro h
    by_cases hs : '/' ∈ s
    · obtain ⟨front, rest, rfl, hrest⟩ := Text.exists_append_cons hs
      rw [Text.afterLast_append_cons_of_not_mem hrest] at h
      exact .inr ⟨front, rest, rfl, h⟩
    · rw [Text.afterLast_of_not_mem hs] at h
      exact .inl h

/-- `**/*` and an ending. -/
theorem matches_ending {ending : List Char} (hslash : '/' ∉ ending) (hne : ending ≠ []) :
    Pattern.matches (.components :: .run :: ending.map Piece.exactly) s = true
      ↔ ending <:+ Text.afterLast '/' s := by
  have hone (t : List Char) : Pattern.matches (.run :: ending.map Piece.exactly) t = true
      ↔ '/' ∉ t ∧ ending <:+ t := by
    -- the ending stands for itself
    have hrest (u : List Char) : Pattern.matches (ending.map Piece.exactly) u = true
        ↔ u = ending := by
      have h := @matches_exactly ending u []
      simpa [matches_nil] using h
    simp only [matches_run, hrest]
    constructor
    · rintro ⟨front, _, rfl, hfront, rfl⟩
      exact ⟨by simp [hfront, hslash], List.suffix_append front _⟩
    · rintro ⟨ht, front, rfl⟩
      exact ⟨front, ending, rfl, fun h => ht (List.mem_append_left _ h), rfl⟩
  rw [matches_lastComponent (fun t ht => ((hone t).1 ht).1) fun h => ?_, hone,
    and_iff_right Text.not_mem_afterLast]
  exact hne (List.suffix_nil.1 ((hone []).1 h).2)

/-- `**/`, a beginning and `*`. -/
theorem matches_beginning {beginning : List Char} (hslash : '/' ∉ beginning)
    (hne : beginning ≠ []) :
    Pattern.matches (.components :: (beginning.map Piece.exactly ++ [.run])) s = true
      ↔ beginning <+: Text.afterLast '/' s := by
  have hone (t : List Char) : Pattern.matches (beginning.map Piece.exactly ++ [.run]) t = true
      ↔ '/' ∉ t ∧ beginning <+: t := by
    simp only [matches_exactly, matches_run, matches_nil]
    constructor
    · rintro ⟨_, rfl, rest, _, rfl, hrest, rfl⟩
      exact ⟨by simp [hrest, hslash], List.prefix_append ..⟩
    · rintro ⟨ht, rest, rfl⟩
      exact ⟨rest, rfl, rest, [], by simp, fun h => ht (List.mem_append_right _ h), rfl⟩
  rw [matches_lastComponent (fun t ht => ((hone t).1 ht).1) fun h => ?_, hone,
    and_iff_right Text.not_mem_afterLast]
  exact hne (List.prefix_nil.1 ((hone []).1 h).2)

/-- What matches some text as it is and then `**` begins with this text. -/
theorem matches_exactly_components {front : List Char} :
    Pattern.matches (front.map Piece.exactly ++ [.components]) s = true ↔ front <+: s := by
  simp only [matches_exactly, matches_components_nil, and_true]
  exact ⟨fun ⟨rest, h⟩ => ⟨rest, h.symm⟩, fun ⟨rest, h⟩ => ⟨rest, h.symm⟩⟩

/-- A pattern that begins with `**` is read as it stands, whatever the base. -/
theorem resolved_rooted {base text : String} {pattern : Pattern}
    (hrooted : isRooted (Text.slashed text).toList = true)
    (hparse : Pattern.parse (Text.slashed text) = .ok pattern) :
    Pattern.resolved base text = .ok pattern := by
  have hresolve : resolve base text = Text.slashed text := by
    rw [resolve]
    simp only [hrooted, if_true, String.ofList_toList]
  rw [Pattern.resolved, hresolve, hparse]
  rfl

end Pattern

/-- A name is selected if it has no NUL and its path matches as it should. -/
theorem Selection.has_iff {selection : Selection} {id : String}
    (hincluded : selection.included ≠ []) :
    selection.has id = true ↔ '\x00' ∉ id.toList
      ∧ (∃ pattern ∈ selection.included, pattern.matches (Text.slashed id).toList = true)
      ∧ ∀ pattern ∈ selection.excluded, ¬ pattern.matches (Text.slashed id).toList = true := by
  have hnul : '\x00' ∈ (Text.slashed id).toList ↔ '\x00' ∈ id.toList := by
    rw [Text.toList_slashed, List.mem_map]
    constructor
    · rintro ⟨c, hc, heq⟩
      split at heq
      · cases heq
      · exact heq ▸ hc
    · exact fun h => ⟨_, h, rfl⟩
  simp only [has, Bool.and_eq_true, Bool.not_eq_true', List.contains_eq_mem,
    decide_eq_false_iff_not, hnul, Bool.or_eq_true, List.isEmpty_iff, hincluded, false_or,
    List.any_eq_true, List.any_eq_false]
  exact and_assoc.trans (and_congr_right fun _ => and_comm)

end Stache.Glob

namespace Stache.Bundle

open Glob (Pattern Piece Selection)

namespace Plan

/-! ## The standard patterns -/

/-- What the standard patterns are read into: those for templates have the endings in them, and the
    one for what is left out has the path of the base directory in front. -/
theorem standard_selections_of (base : String) :
    Selection.of standardIncluded standardExcluded base
        = .ok ⟨[".hbs", ".handlebars", ".mustache"].map fun ending =>
            .components :: .run :: ending.toList.map Piece.exactly,
          [(Text.withoutSlashes (Text.slashed base).toList
            ++ "/node_modules/".toList).map Piece.exactly ++ [.components]]⟩
      ∧ Selection.of standardPartials [] base
        = .ok ⟨[.components :: (['_'].map Piece.exactly ++ [.run])], []⟩ := by
  -- the patterns for templates begin with `**`, and are not put below the base,
  have hhbs : Pattern.resolved base "**/*.hbs"
      = .ok (.components :: .run :: ".hbs".toList.map Piece.exactly) :=
    Pattern.resolved_rooted (by decide +kernel) (by decide +kernel)
  have hhandlebars : Pattern.resolved base "**/*.handlebars"
      = .ok (.components :: .run :: ".handlebars".toList.map Piece.exactly) :=
    Pattern.resolved_rooted (by decide +kernel) (by decide +kernel)
  have hmustache : Pattern.resolved base "**/*.mustache"
      = .ok (.components :: .run :: ".mustache".toList.map Piece.exactly) :=
    Pattern.resolved_rooted (by decide +kernel) (by decide +kernel)
  have hpartials : Pattern.resolved base "**/_*"
      = .ok (.components :: (['_'].map Piece.exactly ++ [.run])) :=
    Pattern.resolved_rooted (by decide +kernel) (by decide +kernel)
  -- but what is excluded is
  have hexcluded : Pattern.resolved base "node_modules/**"
      = .ok ((Text.withoutSlashes (Text.slashed base).toList
          ++ "/node_modules/".toList).map Piece.exactly ++ [.components]) := by
    have hown : Pattern.own "node_modules/**"
        = .ok ("node_modules/".toList.map Piece.exactly ++ [.components]) := by decide +kernel
    have hslash : "/node_modules/".toList.map Piece.exactly
        = .char '/' :: "node_modules/".toList.map Piece.exactly := rfl
    rw [Pattern.resolved_relative base rfl (by decide +kernel), hown, List.map_append, hslash]
    simp [Except.map, Except.mapError]
  constructor
  · simp only [standardIncluded, standardExcluded, Selection.of, List.mapM_cons, List.mapM_nil,
      hhbs, hhandlebars, hmustache, hexcluded]
    rfl
  · simp only [standardPartials, Selection.of, List.mapM_cons, List.mapM_nil, hpartials]
    rfl

/-- **The standard selections.**  Settings whose patterns are the standard ones make a plan.  For
    it, a file is a template if the last component of its path ends like one, unless the path begins
    with the base directory and `node_modules`; and it is a partial if this component begins with an
    underscore.  A name with a NUL is neither. -/
theorem standard_selections {settings : Settings}
    (hincluded : Patterns.resolve standardIncluded settings.included = standardIncluded)
    (hexcluded : Patterns.resolve standardExcluded settings.excluded = standardExcluded)
    (hpartials : Patterns.resolve standardPartials settings.partials = standardPartials)
    (naming : Naming) (here : String) :
    let base := Text.withoutSlashes (Text.slashed (settings.base.getD here)).toList
    ∃ plan, Plan.ofSettings settings naming here = .ok plan ∧ ∀ id : String,
      let path := (Text.slashed id).toList
      let name := Text.afterLast '/' path
      (plan.isTemplate id = true ↔ '\x00' ∉ id.toList
        ∧ (".hbs".toList <:+ name ∨ ".handlebars".toList <:+ name ∨ ".mustache".toList <:+ name)
        ∧ ¬ base ++ "/node_modules/".toList <+: path)
      ∧ (plan.isPartial id = true ↔ '\x00' ∉ id.toList ∧ ['_'] <+: name) := by
  intro base
  obtain ⟨htemplates, hpartial⟩ := standard_selections_of (settings.base.getD here)
  unfold Plan.ofSettings
  simp only [hincluded, hexcluded, hpartials, htemplates, hpartial]
  refine ⟨_, rfl, fun id => ⟨?templates, ?partials⟩⟩
  case templates =>
    rw [isTemplate, Selection.has_iff (List.cons_ne_nil _ _)]
    simp only [List.map_cons, List.map_nil, List.mem_cons, List.not_mem_nil, or_false,
      exists_eq_or_imp, exists_eq_left, forall_eq, Pattern.matches_exactly_components]
    rw [Pattern.matches_ending (by decide) (by decide),
      Pattern.matches_ending (by decide) (by decide),
      Pattern.matches_ending (by decide) (by decide)]
  case partials =>
    rw [isPartial, Selection.has_iff (List.cons_ne_nil _ _)]
    simp only [List.mem_singleton, exists_eq_left, List.not_mem_nil, false_imp_iff, implies_true,
      and_true]
    rw [Pattern.matches_beginning (by decide) (by decide)]

/-- A base directory written with backslashes, hidden and nested files, and a directory named like
    a partial. -/
theorem standard_selections_at_backslashes :
    ∃ plan, Plan.ofSettings Settings.default Naming.standard "C:\\work\\" = .ok plan
      ∧ plan.isTemplate "C:\\work\\_views\\.hbs" = true
      ∧ plan.isPartial "C:\\work\\_views\\.hbs" = false
      ∧ plan.isTemplate "C:/work\\node_modules/a/b.hbs" = false
      ∧ plan.isTemplate "C:/work/a/node_modules/_b.mustache" = true
      ∧ plan.isPartial "C:/work/a/node_modules/_b.mustache" = true := by
  have hstandard := @standard_selections Settings.default rfl rfl rfl Naming.standard "C:\\work\\"
  obtain ⟨plan, hplan, hhas⟩ := hstandard
  refine ⟨plan, hplan, ?_, ?_, ?_, ?_, ?_⟩
  · exact (hhas _).1.2 (by decide +kernel)
  · exact Bool.eq_false_iff.2 ((hhas _).2.not.2 (by decide +kernel))
  · exact Bool.eq_false_iff.2 ((hhas _).1.not.2 (by decide +kernel))
  · exact (hhas _).1.2 (by decide +kernel)
  · exact (hhas _).2.2 (by decide +kernel)

end Plan

end Stache.Bundle
