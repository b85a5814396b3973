/-
  What code mentions.

  Of a text of code, outside of its literals, only three things are looked for: the two variables
  that a function may have for what is around it, and the places where a numbered program is made
  use of, each with its number (`Mention`, `mentionSearch`).

  A text REFERS to numbers (`Refers`) if these are the numbers that it mentions, in order, wherever
  it stands, and if it mentions a variable only where functions have it.  Texts laid end to end
  refer to the numbers of both, but a word could begin in one text and end in the next.  That cannot
  happen behind a text that is CLOSED, and it cannot happen in front of a text that does not begin
  with a letter, as the fixed texts behind the parts of a form do not (`Refers.fill`).
-/
import Stache.Proofs.Script.Search

namespace Stache.Script

open Text (scriptQuoted joined braces brackets field)

/-! ## The search -/

/-- What is looked for. -/
inductive Mention where
  | blockParams
  | depths
  /-- A numbered program, with its number as it is written. -/
  | program (number : String)
deriving DecidableEq, Repr

/-- The variable for block parameters, -/
def blockParamsWord : List Char := ['b', 'l', 'o', 'c', 'k', 'P', 'a', 'r', 'a', 'm', 's']

/-- and the one for contexts around. -/
def depthsWord : List Char := ['d', 'e', 'p', 't', 'h', 's']

/-- What stands before the number of a program. -/
def programWord : List Char :=
  ['c', 'o', 'n', 't', 'a', 'i', 'n', 'e', 'r', '.', 'p', 'r', 'o', 'g', 'r', 'a', 'm', '(']

/-- What is mentioned right at the beginning of `s`. -/
def mentionAt (s : List Char) : Option Mention :=
  if blockParamsWord.isPrefixOf s then some .blockParams
  else if depthsWord.isPrefixOf s then some .depths
  else if programWord.isPrefixOf s then
    some (.program (String.ofList ((s.drop programWord.length).takeWhile Char.isDigit)))
  else none

theorem mentionAt_eq_none (s : List Char)
    (h : ∀ word ∈ [blockParamsWord, depthsWord, programWord], ¬ word <+: s) :
    mentionAt s = none := by
  simp only [← List.isPrefixOf_iff_prefix] at h
  rw [mentionAt, if_neg (h _ (by simp)), if_neg (h _ (by simp)), if_neg (h _ (by simp))]

/-- The search for the three words.  Nothing is found in a literal, not even in one that is not
    closed. -/
def mentionSearch : Search Mention where
  words := [blockParamsWord, depthsWord, programWord]
  look := mentionAt
  unclosed := []
  look_eq_none := mentionAt_eq_none

/-- What code mentions. -/
def mentions (code : String) : List Mention := mentionSearch.run none code.toList

/-- The number of a program, as it is written. -/
def Mention.number? : Mention → Option String
  | .program number => some number
  | _ => none

/-- The numbers of the programs that code makes use of. -/
def programNumbers (code : String) : List String := (mentions code).filterMap Mention.number?

/-! ## References -/

/-- A word does not go on in what comes next. -/
def Apart (rest : List Char) : Prop := ∀ c ∈ rest.head?, c.isAlpha = false

/-- A text that mentions nothing, and in which no word goes on. -/
def separates : List Char → Bool
  | [] => false
  | c :: s => !c.isAlpha && mentionSearch.quiet none (c :: s)

/-- A text that separates keeps words apart, -/
theorem apart_of_separates {s : List Char} (h : separates s = true) (rest : List Char) :
    Apart (s ++ rest) := by
  cases s with
  | nil => cases h
  | cons c s =>
    rw [separates, Bool.and_eq_true, Bool.not_eq_true'] at h
    exact fun d hd => Option.mem_some.1 hd ▸ h.1

/-- and has no word in it. -/
theorem quiet_of_separates {s : List Char} (h : separates s = true) :
    mentionSearch.quiet none s = true := by
  cases s with
  | nil => rfl
  | cons c s =>
    rw [separates, Bool.and_eq_true] at h
    exact h.2

/-- Functions have what is mentioned. -/
def Mention.Allowed (f : Features) : Mention → Prop
  | .blockParams => "blockParams" ∈ f.scopeArguments
  | .depths => "depths" ∈ f.scopeArguments
  | .program _ => True

/-- The text mentions these numbers, and variables that functions have.  If it is not closed, then
    it does so where no letter comes next. -/
def Refers (f : Features) (closed : Bool) (text : String) (numbers : List Nat) : Prop :=
  ∃ found : List Mention, (∀ m ∈ found, m.Allowed f)
    ∧ found.filterMap Mention.number? = numbers.map numeral
    ∧ ∀ rest, (closed = false → Apart rest) →
      mentionSearch.run none (text.toList ++ rest) = found ++ mentionSearch.run none rest

section Refers

variable {f : Features} {closed : Bool} {a b : String} {numbers more : List Nat}

theorem Refers.loosen (h : Refers f true a numbers) : Refers f closed a numbers := by
  obtain ⟨found, hallowed, hnumbers, h⟩ := h
  exact ⟨found, hallowed, hnumbers, fun rest _ => h rest (nomatch ·)⟩

/-- A silent text refers to nothing. -/
theorem Refers.of_silent (h : mentionSearch.Silent a) : Refers f closed a [] :=
  ⟨[], nofun, rfl, fun rest _ => h rest⟩

/-- A text that is written out, and mentions nothing. -/
theorem Refers.of_quiet {s : List Char} (h : mentionSearch.quiet none s = true) :
    Refers f closed (String.ofList s) [] :=
  .of_silent (Search.silent_of_quiet h)

/-- A text that is written out and begins with the name of a variable. -/
theorem Refers.of_variable {c : Char} {s : List Char} {m : Mention} (hc : c ≠ '"')
    (hword : ∀ rest, mentionAt (c :: (s ++ rest)) = some m)
    (hquiet : mentionSearch.quiet none s = true) (hnumber : m.number? = none) (hm : m.Allowed f) :
    Refers f closed (String.ofList (c :: s)) [] := by
  refine ⟨[m], List.forall_mem_singleton.2 hm, ?_, fun rest _ => ?_⟩
  · rw [List.filterMap_cons, hnumber]
    rfl
  · have hfound : mentionSearch.look (c :: (s ++ rest)) = some m := hword rest
    rw [String.toList_ofList, List.cons_append, Search.run, if_neg hc, hfound,
      Search.run_of_quiet hquiet]
    rfl

/-- Two texts refer to the numbers of both, if the first is closed. -/
theorem Refers.append (ha : Refers f true a numbers) (hb : Refers f closed b more) :
    Refers f closed (a ++ b) (numbers ++ more) := by
  obtain ⟨found, hallowed, hnumbers, ha⟩ := ha
  obtain ⟨found', hallowed', hmore, hb⟩ := hb
  refine ⟨found ++ found', List.forall_mem_append.2 ⟨hallowed, hallowed'⟩, ?_, fun rest hrest => ?_⟩
  · rw [List.filterMap_append, hnumbers, hmore, List.map_append]
  · rw [String.toList_append, List.append_assoc, ha _ (nomatch ·), hb rest hrest,
      List.append_assoc]

/-- A text that refers to no numbers comes behind. -/
theorem Refers.before (ha : Refers f true a numbers) (hb : Refers f closed b []) :
    Refers f closed (a ++ b) numbers := by
  have hall := ha.append hb
  rwa [List.append_nil] at hall

/-- Behind a text that is not closed, a separator may stand. -/
theorem Refers.glue {s : List Char} (ha : Refers f false a numbers) (h : separates s = true) :
    Refers f closed (a ++ String.ofList s) numbers := by
  obtain ⟨found, hallowed, hnumbers, ha⟩ := ha
  refine ⟨found, hallowed, hnumbers, fun rest _ => ?_⟩
  rw [String.toList_append, String.toList_ofList, List.append_assoc,
    ha _ fun _ => apart_of_separates h rest, Search.run_of_quiet (quiet_of_separates h)]

/-- The same where functions have more. -/
theorem Refers.mono {g : Features} (hfg : ∀ m : Mention, m.Allowed f → m.Allowed g)
    (h : Refers f closed a numbers) : Refers g closed a numbers := by
  obtain ⟨found, hallowed, hnumbers, h⟩ := h
  exact ⟨found, fun m hm => hfg m (hallowed m hm), hnumbers, h⟩

/-- What a text refers to that is read for itself. -/
theorem Refers.mentions (h : Refers f closed a numbers) :
    (∀ m ∈ mentions a, m.Allowed f) ∧ programNumbers a = numbers.map numeral := by
  obtain ⟨found, hallowed, hnumbers, h⟩ := h
  have hall := h [] fun _ c hc => (nomatch hc)
  rw [List.append_nil, Search.run, List.append_nil] at hall
  rw [programNumbers, Script.mentions, hall]
  exact ⟨hallowed, hnumbers⟩

/-! ## Quoted texts and numbers -/

theorem refers_of_numeric (h : Numeric a.toList) : Refers f closed a [] :=
  .of_silent (Search.silent_numeric (by decide) h)

theorem refers_numeral (n : Nat) : Refers f closed (numeral n) [] :=
  refers_of_numeric (numeric_numeral n)

theorem refers_scriptQuoted (s : String) : Refers f closed (scriptQuoted s) [] :=
  .of_silent (Search.silent_scriptQuoted s)

theorem refers_name {name : String} (h : ∀ c ∈ name.toList, isNameChar c = true) :
    Refers f closed ("\"" ++ name ++ "\"") [] :=
  .of_silent (Search.silent_name h)

/-- The last letter of this text could begin a word. -/
theorem refers_undefined : Refers f false "undefined" [] := by
  refine ⟨[], nofun, rfl, fun rest hrest => ?_⟩
  have hquiet : mentionSearch.quiet none ['u', 'n', 'd', 'e', 'f', 'i', 'n', 'e'] = true := by
    decide
  have hmention : mentionSearch.look ('d' :: rest) = none := by
    cases rest with
    | nil => rfl
    | cons c rest =>
      have hc : 'e' ≠ c := by
        rintro rfl
        exact absurd (hrest rfl 'e' rfl) (by decide)
      simp [mentionSearch, mentionAt, blockParamsWord, depthsWord, programWord, List.isPrefixOf, hc]
  have htext : "undefined".toList ++ rest
      = ['u', 'n', 'd', 'e', 'f', 'i', 'n', 'e'] ++ 'd' :: rest := by
    simp
  rw [htext, Search.run_of_quiet hquiet, Search.run, if_neg (by decide), hmention]
  rfl

/-- **The use of a program** refers to its number. -/
theorem refers_program (n : Nat) :
    Refers f closed ("container.program(" ++ numeral n ++ ", ") [n] := by
  refine ⟨[.program (numeral n)], List.forall_mem_singleton.2 trivial, rfl, fun rest _ => ?_⟩
  -- the number ends at the comma,
  have hdigits : ((numeral n).toList ++ (',' :: ' ' :: rest)).takeWhile Char.isDigit
      = (numeral n).toList := by
    rw [List.takeWhile_append_of_pos fun c hc => isDigit_of_mem_numeral hc]
    exact List.append_nil _
  -- so it is the one mentioned
  have hmention : mentionAt (programWord ++ ((numeral n).toList ++ (',' :: ' ' :: rest)))
      = some (.program (numeral n)) := by
    show some (Mention.program (String.ofList (((numeral n).toList
      ++ (',' :: ' ' :: rest)).takeWhile Char.isDigit))) = _
    rw [hdigits, String.ofList_toList]
  have hquiet : mentionSearch.quiet none programWord.tail = true := rfl
  have hcomma : mentionSearch.quiet none [',', ' '] = true := rfl
  have htext : ("container.program(" ++ numeral n ++ ", ").toList ++ rest
      = programWord ++ ((numeral n).toList ++ ([',', ' '] ++ rest)) := by
    simp [programWord]
  have hnumber : mentionSearch.Silent (numeral n) :=
    Search.silent_numeric (by decide) (numeric_numeral n)
  have hstep (s : List Char) : mentionSearch.run none (programWord ++ s)
      = (mentionAt (programWord ++ s)).toList ++ mentionSearch.run none (programWord.tail ++ s) :=
    rfl
  rw [htext, hstep, List.cons_append, List.cons_append, List.nil_append, hmention,
    Search.run_of_quiet hquiet, hnumber]
  exact congrArg _ (Search.run_of_quiet hcomma rest)

/-! ## Rows -/

/-- The texts refer to these numbers, one after another. -/
inductive RowRefers (f : Features) : List String → List Nat → Prop where
  | nil : RowRefers f [] []
  | cons {text : String} {texts : List String} {numbers more : List Nat}
      (h : Refers f false text numbers) (hmore : RowRefers f texts more) :
      RowRefers f (text :: texts) (numbers ++ more)

/-- Two rows refer to the numbers of both, -/
theorem RowRefers.append {texts others : List String} (h : RowRefers f texts numbers)
    (hmore : RowRefers f others more) : RowRefers f (texts ++ others) (numbers ++ more) := by
  induction h with
  | nil => exact hmore
  | cons h _ ih =>
    rw [List.append_assoc]
    exact .cons h ih

/-- and the second may refer to none. -/
theorem RowRefers.before {texts others : List String} (h : RowRefers f texts numbers)
    (hmore : RowRefers f others []) : RowRefers f (texts ++ others) numbers := by
  have hall := h.append hmore
  rwa [List.append_nil] at hall

theorem RowRefers.one (h : Refers f false a numbers) : RowRefers f [a] numbers := by
  have hone := RowRefers.cons h .nil
  rwa [List.append_nil] at hone

/-- Texts that refer to no numbers. -/
theorem RowRefers.of_forall {texts : List String} (h : ∀ text ∈ texts, Refers f false text []) :
    RowRefers f texts [] := by
  induction texts with
  | nil => exact .nil
  | cons text texts ih =>
    exact .cons (h text (List.mem_cons_self ..)) (ih fun other hother =>
      h other (List.mem_cons_of_mem _ hother))

/-- A row with separators in it, -/
theorem RowRefers.joined {s : List Char} (hs : separates s = true) {texts : List String}
    (h : RowRefers f texts numbers) : Refers f false (joined (String.ofList s) texts) numbers := by
  induction h with
  | nil => exact .of_quiet (by decide)
  | @cons text texts numbers more h hmore ih =>
    -- A separator stands behind each text but the last, so only the whole may be left open.
    cases hmore with
    | nil => rwa [List.append_nil]
    | cons => exact (h.glue hs).append ih

/-- with commas, -/
theorem RowRefers.row {texts : List String} (h : RowRefers f texts numbers) :
    Refers f false (Text.joined "," texts) numbers :=
  h.joined (by decide)

/-- between braces, -/
theorem RowRefers.braces {texts : List String} (h : RowRefers f texts numbers) :
    Refers f closed (braces texts) numbers := by
  have hopen : Refers f true "\x7b" [] := .of_quiet (by decide)
  exact (hopen.append h.row).glue (by decide)

/-- or between brackets. -/
theorem RowRefers.brackets {texts : List String} (h : RowRefers f texts numbers) :
    Refers f closed (brackets texts) numbers := by
  have hopen : Refers f true "[" [] := .of_quiet (by decide)
  exact (hopen.append h.row).glue (by decide)

/-! ## Forms -/

/-- Whether no word goes on in any of the fixed texts behind the parts of a form. -/
def Form.separates (form : Form) : Bool := form.rest.all fun fixed => Script.separates fixed.chars

/-- The parts of a form, behind a text that may mention a variable. -/
theorem Refers.fillBehind {form : Form} {holes : List String}
    (hfirst : Refers f true form.first.text []) (hform : form.separates = true)
    (hlength : holes.length ≤ form.rest.length) (h : RowRefers f holes numbers) :
    Refers f closed (form.fill holes) numbers := by
  -- on the fixed texts: each separates the hole before it from what comes next
  have hbehind (rest : List Fixed) (hrest : rest.all (fun fixed => Script.separates fixed.chars)) :
      ∀ (text : String) (holes : List String) (before numbers : List Nat),
        Refers f true text before → holes.length ≤ rest.length → RowRefers f holes numbers →
        Refers f closed (Script.fillBehind text rest holes) (before ++ numbers) := by
    induction rest with
    | nil =>
      intro text holes before numbers htext hlength hholes
      cases hholes with
      | nil =>
        rw [List.append_nil]
        exact htext.loosen
      | cons => cases hlength
    | cons fixed rest ih =>
      rw [List.all_cons, Bool.and_eq_true] at hrest
      intro text holes before numbers htext hlength hholes
      rw [Script.fillBehind, fixed.spelled]
      cases hholes with
      | nil =>
        have hnothing : Refers f false "" [] := .of_quiet (by decide)
        exact ih hrest.2 _ _ _ _ ((htext.before hnothing).glue hrest.1) (Nat.zero_le _) .nil
      | cons hhole hmore =>
        rw [← List.append_assoc]
        exact ih hrest.2 _ _ _ _ ((htext.append hhole).glue hrest.1) (Nat.le_of_succ_le_succ hlength)
          hmore
  exact hbehind form.rest hform form.first.text holes [] numbers hfirst hlength h

/-- Whether none of the fixed texts of a form mentions anything. -/
def Form.isSilent (form : Form) : Bool :=
  mentionSearch.quiet none form.first.chars && form.separates

/-- **A form refers to what its parts refer to**, one after another. -/
theorem Refers.fill {form : Form} {holes : List String} (hform : form.isSilent = true)
    (hlength : holes.length ≤ form.rest.length) (h : RowRefers f holes numbers) :
    Refers f closed (form.fill holes) numbers := by
  rw [Form.isSilent, Bool.and_eq_true] at hform
  have hfirst : Refers f true form.first.text [] := by
    rw [form.first.spelled]
    exact .of_quiet hform.1
  exact .fillBehind hfirst hform.2 hlength h

theorem refers_field {name value : String} (h : ∀ c ∈ name.toList, isNameChar c = true)
    (hvalue : Refers f closed value numbers) : Refers f closed (field name value) numbers := by
  have hcolon : Refers f true ":" [] := .of_quiet (by decide)
  rw [field_eq]
  exact ((refers_name h).append hcolon).append hvalue

end Refers

end Stache.Script
