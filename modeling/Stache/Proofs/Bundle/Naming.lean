/-
  Whether a partial is registered under the name that it is called by.

  A template that calls a partial imports a file (`standardPath`), and that file registers itself
  under a name (`standardName`).  Both functions take texts apart at dots and slashes, so the trip
  from a name to a file and back is followed through `Text.afterLast` and `Text.beforeLast`.

  Of the name that a file is made for, the file keeps the LAST COMPONENT, from its first letter or
  digit on (`standardName_standardPath`).  So a partial is registered under the name it is called by
  EXACTLY when the name is a single component that is empty or begins with a letter or digit
  (`standardName_standardPath_eq_iff`).
-/
import Mathlib.Data.List.TakeWhile
import Stache.Bundle.Naming
import Stache.Proofs.Runs
import Stache.Template.PartialNames
import Stache.Template.Parse

namespace Stache

/-! ## Texts around a character -/

namespace Text

variable {c : Char} {a b s : List Char}

theorem afterLast_suffix : afterLast c s <:+ s := by
  have h := List.reverse_suffix.2 (List.takeWhile_prefix (l := s.reverse) (· ≠ c))
  rwa [List.reverse_reverse] at h

theorem not_mem_afterLast : c ∉ afterLast c s := by
  intro h
  simpa using List.mem_takeWhile_imp (List.mem_reverse.1 h)

private theorem all_ne (h : c ∉ s) : ∀ x ∈ s.reverse, (x ≠ c : Bool) = true := by
  intro x hx
  have hne : x ≠ c := fun heq => h (heq ▸ List.mem_reverse.1 hx)
  simpa using hne

theorem afterLast_of_not_mem (h : c ∉ s) : afterLast c s = s := by
  rw [afterLast, List.takeWhile_eq_self_iff.2 (all_ne h), List.reverse_reverse]

/-- What has no `c` in it stands behind the last `c`. -/
theorem afterLast_append_of_not_mem (h : c ∉ b) : afterLast c (a ++ b) = afterLast c a ++ b := by
  rw [afterLast, List.reverse_append, List.takeWhile_append_of_pos (all_ne h), List.reverse_append,
    List.reverse_reverse, afterLast]

theorem afterLast_append_cons_of_not_mem (h : c ∉ b) : afterLast c (a ++ c :: b) = b := by
  have hend : afterLast c (a ++ [c]) = [] := by
    simp [afterLast]
  rw [← List.singleton_append, ← List.append_assoc, afterLast_append_of_not_mem h, hend,
    List.nil_append]

/-- A text with a `c` in it may be cut at the last one. -/
theorem exists_append_cons (h : c ∈ s) : ∃ front rest, s = front ++ c :: rest ∧ c ∉ rest := by
  obtain ⟨rest, front, hs, hrest⟩ := List.eq_append_cons_of_mem (List.mem_reverse.2 h)
  refine ⟨front.reverse, rest.reverse, ?_, fun hc => hrest (List.mem_reverse.1 hc)⟩
  rw [← List.reverse_reverse s, hs]
  simp

/-- What stands before some `c` is not behind the last one. -/
theorem afterLast_append_of_mem (h : c ∈ b) : afterLast c (a ++ b) = afterLast c b := by
  obtain ⟨front, rest, rfl, hrest⟩ := exists_append_cons h
  rw [← List.append_assoc, afterLast_append_cons_of_not_mem hrest,
    afterLast_append_cons_of_not_mem hrest]

/-- Changing other characters does not move the last `c`. -/
theorem afterLast_map {f : Char → Char} (h : ∀ x, f x = c ↔ x = c) :
    afterLast c (s.map f) = (afterLast c s).map f := by
  have hsame : (fun x => decide (x ≠ c)) ∘ f = fun x => decide (x ≠ c) := by
    funext x
    simp [h x]
  rw [afterLast, ← List.map_reverse, List.takeWhile_map, ← List.map_reverse, hsame, afterLast]

theorem beforeLast_append_cons_of_not_mem (h : c ∉ b) : beforeLast c (a ++ c :: b) = a := by
  rw [beforeLast, List.reverse_append, List.reverse_cons, List.append_assoc,
    List.dropWhile_append_of_pos (all_ne h)]
  simp

/-! ## Slashes -/

theorem toList_slashed (s : String) :
    (slashed s).toList = s.toList.map fun c => if c = '\\' then '/' else c :=
  String.toList_map

theorem not_mem_slashed {s : String} : '\\' ∉ (slashed s).toList := by
  rw [toList_slashed, List.mem_map]
  rintro ⟨c, -, hc⟩
  grind

/-- A path without backslashes is the same with slashes. -/
theorem toList_slashed_of_not_mem {s : String} (h : '\\' ∉ s.toList) :
    (slashed s).toList = s.toList := by
  rw [toList_slashed]
  refine (List.map_congr_left fun c hc => ?_).trans (List.map_id _)
  have hne : c ≠ '\\' := fun heq => h (heq ▸ hc)
  exact if_neg hne

end Text

namespace Bundle.Naming

open Text

/-! ## From a name to a file and back -/

/-- The extension of a file is part of its base. -/
theorem extension_plain {file : String} (h : '.' ∈ base file) :
    '/' ∉ afterLast '.' file.toList ∧ '\\' ∉ afterLast '.' file.toList := by
  have hdot : ∀ x : Char, (if x = '\\' then '/' else x) = '.' ↔ x = '.' := by
    grind
  obtain ⟨front, hfront⟩ : base file <:+ (slashed file).toList := afterLast_suffix
  have hend : (afterLast '.' file.toList).map (fun c => if c = '\\' then '/' else c)
      = afterLast '.' (base file) := by
    rw [← afterLast_map hdot, ← toList_slashed, ← hfront, afterLast_append_of_mem h]
  have hplain : '/' ∉ (afterLast '.' file.toList).map fun c => if c = '\\' then '/' else c := by
    rw [hend]
    exact fun hslash => not_mem_afterLast (afterLast_suffix.mem hslash)
  constructor
  · exact fun hslash => hplain (List.mem_map.2 ⟨_, hslash, rfl⟩)
  · exact fun hslash => hplain (List.mem_map.2 ⟨_, hslash, rfl⟩)

/-- The base of the file that is made for a name. -/
theorem base_standardPath {name importer : String} (h : '.' ∈ base importer) :
    base (standardPath name importer)
      = afterLast '/' ("./_".toList ++ (slashed name).toList)
        ++ '.' :: afterLast '.' importer.toList := by
  obtain ⟨hslash, hback⟩ := extension_plain h
  have hend : (slashed (String.ofList (afterLast '.' importer.toList))).toList
      = afterLast '.' importer.toList := by
    rw [toList_slashed_of_not_mem, String.toList_ofList]
    rwa [String.toList_ofList]
  have hpath : (slashed (standardPath name importer)).toList
      = ("./_".toList ++ (slashed name).toList) ++ '.' :: afterLast '.' importer.toList := by
    rw [← hend]
    simp [toList_slashed, standardPath]
  rw [base, hpath, afterLast_append_of_not_mem]
  simpa using hslash

/-- **The name that comes back**: the last component, from the first letter or digit on. -/
theorem standardName_standardPath {name importer : String} (h : '.' ∈ base importer) :
    standardName (standardPath name importer)
      = String.ofList ((base name).dropWhile fun c => !c.isAlphanum) := by
  rw [standardName, base_standardPath h, beforeLast_append_cons_of_not_mem not_mem_afterLast]
  by_cases hslash : '/' ∈ (slashed name).toList
  · rw [afterLast_append_of_mem hslash, base]
  · -- The underscore in front of the name goes with whatever else the name begins with.
    rw [afterLast_append_of_not_mem hslash, base, afterLast_of_not_mem hslash]
    rfl

/-- A name that files keep: one component, with a letter or digit in front. -/
def Kept (name : String) : Prop :=
  (∀ c ∈ name.toList, c ≠ '/' ∧ c ≠ '\\') ∧ ∀ c ∈ name.toList.head?, c.isAlphanum

/-- **When a partial is found.**  The file that is imported for a name registers itself under that
    name EXACTLY if the name is one component and is empty or begins with a letter or digit. -/
theorem standardName_standardPath_eq_iff {name importer : String} (h : '.' ∈ base importer) :
    standardName (standardPath name importer) = name ↔ Kept name := by
  rw [standardName_standardPath h, ← String.toList_inj, String.toList_ofList]
  constructor
  · intro heq
    -- The name is the end of a component, which has no separators.
    have hslash : '/' ∉ name.toList := fun hmem => by
      rw [← heq] at hmem
      exact not_mem_afterLast ((List.dropWhile_suffix _).mem hmem)
    have hback : '\\' ∉ name.toList := fun hmem => by
      rw [← heq] at hmem
      exact not_mem_slashed (afterLast_suffix.mem ((List.dropWhile_suffix _).mem hmem))
    refine ⟨fun c hc => ⟨fun h => hslash (h ▸ hc), fun h => hback (h ▸ hc)⟩, fun c hc => ?_⟩
    -- the first letter or digit is where the component begins
    have hfirst := List.head?_dropWhile_not (fun c => !c.isAlphanum) (base name)
    rw [heq, Option.mem_def.1 hc] at hfirst
    simpa using hfirst
  -- nothing is cut off such a name
  · rintro ⟨hplain, hfirst⟩
    have hback : '\\' ∉ name.toList := fun hmem => (hplain _ hmem).2 rfl
    have hbase : base name = name.toList := by
      rw [base, toList_slashed_of_not_mem hback, afterLast_of_not_mem]
      exact fun hmem => (hplain _ hmem).1 rfl
    rw [hbase]
    cases hname : name.toList with
    | nil => rfl
    | cons c s =>
      have hc : c.isAlphanum := hfirst c (by rw [hname]; rfl)
      rw [List.dropWhile_cons_of_neg]
      simpa using hc

/-- The partial `nav.top`, with a dot of its own, in a file beside a template. -/
theorem standardName_standardPath_eq_iff_at_dots :
    '.' ∈ base "dir.d/page.hbs"
      ∧ standardPath "nav.top" "dir.d/page.hbs" = "./_nav.top.hbs"
      ∧ (standardName (standardPath "nav.top" "dir.d/page.hbs") = "nav.top" ↔ Kept "nav.top") := by
  have hdot : '.' ∈ base "dir.d/page.hbs" := by decide +kernel
  exact ⟨hdot, by decide +kernel, standardName_standardPath_eq_iff hdot⟩

/-- The files of the partials `components/nav` and `_nav` register themselves as `nav`, a name under
    which no template looks for them. -/
theorem standardName_ne_of_directory :
    let source := "\x7b\x7b> components/nav\x7d\x7d\x7b\x7b> _nav\x7d\x7d"
    ∃ t, Template.parse source none true = .ok t
      ∧ t.partialNames = ["components/nav", "_nav"]
      ∧ '.' ∈ base "page.hbs"
      ∧ ∀ name ∈ t.partialNames, standardName (standardPath name "page.hbs") ≠ name := by
  intro source
  obtain ⟨t, ht, hnames⟩ := exists_ok (e := Template.parse source none true)
    (P := fun t => t.partialNames = ["components/nav", "_nav"]) (by decide +kernel)
  refine ⟨t, ht, hnames, by decide +kernel, ?_⟩
  rw [hnames]
  decide +kernel

end Bundle.Naming

end Stache
