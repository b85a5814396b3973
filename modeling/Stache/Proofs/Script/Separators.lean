/-
  Rows in code, taken apart.

  Code has rows in it whose members stand between marks: the operands of a sum between plus signs,
  statements between semicolons, the fields of an object between commas.  A mark counts only
  OUTSIDE, where no literal and no bracket is open.  The PARTS of a text are what stands between the
  marks outside, without the blanks around it (`partsOf`).

  1. **Passing** (`Passes`): a text that is read without a mark outside, from some open brackets to
     others.  Where a bracket is open, a balanced text is passed whatever marks are in it
     (`Balanced.passes`).

  2. **Parts** (`IsPart`): a text that is passed and has no blank at its edges.  A row of such texts
     is taken apart into just these (`IsPart.partsOf_single`, `IsPart.partsOf_append`).

  3. **Objects** (`IsObject`): an object that is written with fields of which each is a part is read
     as one with these fields (`isObject_braces`).
-/
import Stache.Proofs.Script.Balance
import Stache.Proofs.Text.Edges

namespace Stache.Script

open Text (scriptQuoted joined braces brackets field isBlank)

/-! ## Taking apart -/

/-- No literal and no bracket is open. -/
def Cursor.isOutside : Cursor → Bool
  | .code [] => true
  | _ => false

/-- The texts between the marks outside. -/
def Cursor.cut (mark : Char) : Cursor → List Char → Option (List (List Char))
  | cursor, [] => if cursor.isOutside then some [[]] else none
  | cursor, c :: s =>
    if cursor.isOutside && c = mark then ((Cursor.code []).cut mark s).map ([] :: ·)
    else
      match cursor.next c with
      | none => none
      | some cursor' => (cursor'.cut mark s).map (List.modifyHead (c :: ·))

/-- The texts between the marks outside, without the blanks around them. -/
def partsOf (mark : Char) (text : List Char) : Option (List (List Char)) :=
  ((Cursor.code []).cut mark text).map (List.map (Text.trimBlanks true true))

/-! ## Passing -/

/-- Reads a text that has no mark outside. -/
def Cursor.pass (mark : Char) : Cursor → List Char → Option Cursor
  | cursor, [] => some cursor
  | cursor, c :: s =>
    if cursor.isOutside && c = mark then none
    else
      match cursor.next c with
      | none => none
      | some cursor' => cursor'.pass mark s

section Pass

variable {mark : Char} {cursor cursor' : Cursor} {s : List Char}

/-- Texts are passed one behind the other. -/
theorem Cursor.pass_append (cursor : Cursor) (s t : List Char) :
    cursor.pass mark (s ++ t) = (cursor.pass mark s).bind fun cursor' => cursor'.pass mark t := by
  induction s generalizing cursor with
  | nil => rfl
  | cons c s ih =>
    rw [List.cons_append, Cursor.pass, Cursor.pass]
    split
    · rfl
    cases cursor.next c with
    | none => rfl
    | some cursor' => exact ih cursor'

/-- What is passed comes to the first of the texts between marks. -/
theorem Cursor.cut_append (h : cursor.pass mark s = some cursor') (t : List Char) :
    cursor.cut mark (s ++ t) = (cursor'.cut mark t).map (List.modifyHead (s ++ ·)) := by
  induction s generalizing cursor with
  | nil =>
    cases h
    have hid : (List.modifyHead fun t : List Char => [] ++ t) = id := List.modifyHead_id
    rw [hid, Option.map_id]
    rfl
  | cons c s ih =>
    rw [Cursor.pass] at h
    rw [List.cons_append, Cursor.cut]
    split at h
    · cases h
    rename_i hmark
    rw [if_neg hmark]
    split at h
    · cases h
    · rename_i next hnext
      simp only [ih h, Option.map_map]
      refine congrArg (Option.map · _) (funext fun parts => ?_)
      exact List.modifyHead_modifyHead ..

/-- A text without marks is passed where it is read. -/
theorem Cursor.pass_of_read (h : cursor.read s = some cursor') (hmark : mark ∉ s) :
    cursor.pass mark s = some cursor' := by
  induction s generalizing cursor with
  | nil => exact h
  | cons c s ih =>
    rw [List.mem_cons, not_or] at hmark
    obtain ⟨hc, hs⟩ := hmark
    rw [Cursor.read] at h
    rw [Cursor.pass, if_neg (by simp [Ne.symm hc])]
    cases hnext : cursor.next c with
    | none =>
      rw [hnext] at h
      cases h
    | some next =>
      rw [hnext] at h
      exact ih h hs

/-- With a bracket open around it, a text is passed where it is read. -/
theorem Cursor.pass_inside {outer : List Char} (houter : outer ≠ [])
    (h : cursor.read s = some cursor') :
    (cursor.inside outer).pass mark s = some (cursor'.inside outer) := by
  -- inside of a bracket no mark counts, so passing is reading
  have hinside (cursor : Cursor) : (cursor.inside outer).isOutside = false := by
    cases cursor with
    | code closers =>
      rw [Cursor.inside]
      cases hclosers : closers ++ outer with
      | nil => exact absurd (List.append_eq_nil_iff.1 hclosers).2 houter
      | cons => rfl
    | literal => rfl
  induction s generalizing cursor with
  | nil =>
    cases h
    rfl
  | cons c s ih =>
    rw [Cursor.read] at h
    rw [Cursor.pass, hinside, Bool.false_and, if_neg Bool.false_ne_true]
    cases hnext : cursor.next c with
    | none =>
      rw [hnext] at h
      cases h
    | some next =>
      rw [hnext] at h
      simp only [Cursor.next_inside hnext]
      exact ih h

/-- What stands inside a literal is passed there. -/
theorem Cursor.pass_literal {closers : List Char} {phase phase' : Phase} {units : List Nat}
    (h : phase.over '"' s = some (phase', units)) (hline : ∀ c ∈ s, isLineTerminator c = false) :
    (Cursor.literal closers phase).pass mark s = some (.literal closers phase') := by
  induction s generalizing phase units with
  | nil =>
    cases h
    rfl
  | cons c s ih =>
    obtain ⟨next, added, more, hnext, hmore, -⟩ := Phase.exists_of_over_cons h
    have hinside : (Cursor.literal closers phase).isOutside = false := rfl
    rw [Cursor.pass, hinside, Bool.false_and, if_neg Bool.false_ne_true]
    simp only [Cursor.next_literal hnext (hline c (List.mem_cons_self ..))]
    exact ih hmore fun d hd => hline d (List.mem_cons_of_mem _ hd)

end Pass

/-- Reading the text leads from the brackets that are due at first to those that are due at last,
    and no mark is outside on the way. -/
def Passes (mark : Char) (before : List Char) (text : String) (after : List Char) : Prop :=
  (Cursor.code before).pass mark text.toList = some (.code after)

section Passes

variable {mark : Char} {x y z : List Char} {a b text : String}

theorem Passes.append (ha : Passes mark x a y) (hb : Passes mark y b z) :
    Passes mark x (a ++ b) z := by
  rw [Passes, String.toList_append, Cursor.pass_append, ha]
  exact hb

/-- A text that is written out. -/
theorem Passes.of_pass {s : List Char} (h : (Cursor.code x).pass mark s = some (.code y)) :
    Passes mark x (String.ofList s) y := by
  rw [Passes, String.toList_ofList]
  exact h

/-- **Where a bracket is open, a balanced text is passed**, with all the marks in it. -/
theorem Balanced.passes (h : Balanced text) (due : Char) (closers : List Char) :
    Passes mark (due :: closers) text (due :: closers) :=
  Cursor.pass_inside (List.cons_ne_nil due closers) (h [])

/-- A literal, from quote to quote. -/
theorem passes_literal (hmark : mark ≠ '"') {s : List Char} {units : List Nat}
    (h : Phase.plain.over '"' s = some (.plain, units))
    (hline : ∀ c ∈ s, isLineTerminator c = false) :
    Passes mark [] (String.ofList ('"' :: (s ++ ['"']))) [] := by
  have hopen : (Cursor.code []).next '"' = some (.literal [] .plain) := rfl
  refine .of_pass ?_
  rw [Cursor.pass, if_neg (by simp [hmark.symm])]
  simp only [hopen]
  rw [Cursor.pass_append, Cursor.pass_literal h hline]
  rfl

theorem passes_scriptQuoted (hmark : mark ≠ '"') (value : String) :
    Passes mark [] (scriptQuoted value) [] := by
  rw [← String.ofList_toList (s := scriptQuoted value), toList_scriptQuoted]
  refine passes_literal hmark (over_flatMap_scriptEscape value.toList) fun c hc => ?_
  obtain ⟨d, -, hc⟩ := List.mem_flatMap.1 hc
  exact isLineTerminator_scriptEscape d c hc

theorem passes_name (hmark : mark ≠ '"') {name : String}
    (h : ∀ c ∈ name.toList, isNameChar c = true) : Passes mark [] ("\"" ++ name ++ "\"") [] := by
  rw [← String.ofList_toList (s := "\"" ++ name ++ "\""), toList_name]
  exact passes_literal hmark (over_name h) fun c hc => isLineTerminator_of_isNameChar (h c hc)

end Passes

/-! ## Parts -/

/-- The text is passed, and has no blank at its edges. -/
structure IsPart (mark : Char) (text : String) : Prop where
  passes : Passes mark [] text []
  first : text.toList.head?.any (!isBlank ·) = true
  last : text.toList.getLast?.any (!isBlank ·) = true

/-- Blanks are neutral, -/
theorem isNeutral_of_isBlank {c : Char} (h : isBlank c = true) : isNeutral c = true := by
  have hne (d : Char) (hd : isBlank d = false) : c ≠ d := by
    rintro rfl
    rw [h] at hd
    cases hd
  simp [isNeutral, isCloser, isForeign, closerOf, hne '"' (by decide), hne ')' (by decide),
    hne ']' (by decide), hne '}' (by decide), hne '\'' (by decide), hne '\x60' (by decide),
    hne '/' (by decide), hne '\\' (by decide), hne '(' (by decide), hne '[' (by decide),
    hne '{' (by decide)]

section Parts

variable {mark : Char} {blanks s : List Char} {text : String}

/-- so they are passed, -/
theorem passes_blanks (hmark : isBlank mark = false) (h : ∀ c ∈ blanks, isBlank c = true) :
    (Cursor.code []).pass mark blanks = some (.code []) := by
  refine Cursor.pass_of_read ?_ fun hmem => ?_
  · have hbalanced : Balanced (String.ofList blanks) :=
      balanced_of_neutral (by simpa using fun c hc => isNeutral_of_isBlank (h c hc))
    have hread := hbalanced []
    rwa [Turns, String.toList_ofList] at hread
  · rw [h mark hmem] at hmark
    cases hmark

/-- and trimmed in front of a part, -/
theorem trimBlanks_append_left (h : ∀ c ∈ blanks, isBlank c = true) (s : List Char) :
    Text.trimBlanks true true (blanks ++ s) = Text.trimBlanks true true s := by
  have hdrop : Text.dropBlankStart (blanks ++ s) = Text.dropBlankStart s :=
    List.dropWhile_append_of_pos h
  rw [← Text.trimBlanks_dropBlankStart true, hdrop, Text.trimBlanks_dropBlankStart]

/-- or behind it. -/
theorem IsPart.trimBlanks (h : IsPart mark text) (hblanks : ∀ c ∈ blanks, isBlank c = true) :
    Text.trimBlanks true true (text.toList ++ blanks) = text.toList := by
  obtain ⟨c, hfirst, hc⟩ := (Option.any_eq_true ..).1 h.first
  obtain ⟨d, hlast, hd⟩ := (Option.any_eq_true ..).1 h.last
  obtain ⟨s, hfirst⟩ := List.head?_eq_some_iff.1 hfirst
  obtain ⟨t, hlast⟩ := List.getLast?_eq_some_iff.1 hlast
  rw [Bool.not_eq_true'] at hc hd
  have hstart : Text.dropBlankStart (text.toList ++ blanks) = text.toList ++ blanks := by
    rw [hfirst, List.cons_append, Text.dropBlankStart, List.dropWhile_cons_of_neg (by simp [hc])]
  have hend : Text.dropBlankEnd (text.toList ++ blanks) = text.toList := by
    rw [Text.dropBlankEnd, Text.dropEndWhile, List.reverse_append,
      List.dropWhile_append_of_pos (by simpa using hblanks), hlast, List.reverse_append,
      List.reverse_singleton, List.singleton_append, List.dropWhile_cons_of_neg (by simp [hd])]
    simp
  show Text.dropBlankEnd (Text.dropBlankStart _) = _
  rw [hstart, hend]

/-- Blanks in front are not part of anything. -/
theorem partsOf_blanks (hmark : isBlank mark = false) (h : blanks.all isBlank = true)
    (s : List Char) : partsOf mark (blanks ++ s) = partsOf mark s := by
  have hblanks := List.all_eq_true.1 h
  rw [partsOf, partsOf, Cursor.cut_append (passes_blanks hmark hblanks), Option.map_map]
  refine congrArg (Option.map · _) (funext fun parts => ?_)
  cases parts with
  | nil => rfl
  | cons part more =>
    rw [Function.comp_apply, List.modifyHead_cons, List.map_cons, List.map_cons,
      trimBlanks_append_left hblanks]

/-- A part and nothing else. -/
theorem IsPart.partsOf_single (h : IsPart mark text) :
    partsOf mark text.toList = some [text.toList] := by
  have hcut := Cursor.cut_append h.passes []
  rw [List.append_nil] at hcut
  have htrim := h.trimBlanks (List.forall_mem_nil (isBlank · = true))
  rw [List.append_nil] at htrim
  rw [partsOf, hcut]
  show some [Text.trimBlanks true true (text.toList ++ [])] = _
  rw [List.append_nil, htrim]

/-- **A part, then a mark**, and what is behind it. -/
theorem IsPart.partsOf_append (h : IsPart mark text) (hmark : isBlank mark = false)
    (hblanks : blanks.all isBlank = true) (s : List Char) :
    partsOf mark (text.toList ++ (blanks ++ mark :: s))
      = (partsOf mark s).map (text.toList :: ·) := by
  have hpass : (Cursor.code []).pass mark (text.toList ++ blanks) = some (.code []) := by
    rw [Cursor.pass_append, h.passes]
    exact passes_blanks hmark (List.all_eq_true.1 hblanks)
  have hcut : (Cursor.code []).cut mark (mark :: s)
      = ((Cursor.code []).cut mark s).map ([] :: ·) := by
    rw [Cursor.cut, if_pos (by simp [Cursor.isOutside])]
  rw [← List.append_assoc, partsOf, partsOf, Cursor.cut_append hpass, hcut, Option.map_map,
    Option.map_map, Option.map_map]
  refine congrArg (Option.map · _) (funext fun parts => ?_)
  show Text.trimBlanks true true (text.toList ++ blanks ++ []) :: parts.map _ = _
  rw [List.append_nil, h.trimBlanks (List.all_eq_true.1 hblanks)]
  rfl

/-- Marks in literals and in brackets do not count. -/
example : partsOf '+' "\"a + b\"\n    + (c + d)".toList
    = some ["\"a + b\"".toList, "(c + d)".toList] := by
  decide

end Parts

section Edges

variable {p : Char → Bool} {a b : String}

theorem any_head?_append (h : a.toList.head?.any p = true) (b : String) :
    (a ++ b).toList.head?.any p = true := by
  obtain ⟨c, hc, -⟩ := (Option.any_eq_true ..).1 h
  rw [hc] at h
  rw [String.toList_append, List.head?_append, hc]
  exact h

theorem any_getLast?_append (a : String) (h : b.toList.getLast?.any p = true) :
    (a ++ b).toList.getLast?.any p = true := by
  obtain ⟨c, hc, -⟩ := (Option.any_eq_true ..).1 h
  rw [hc] at h
  rw [String.toList_append, List.getLast?_append, hc]
  exact h

end Edges

/-- A text that is put together, with its first text and its last one. -/
theorem IsPart.of_edges {mark : Char} {before middle after : String}
    (h : Passes mark [] (before ++ middle ++ after) [])
    (hfirst : before.toList.head?.any (!isBlank ·) = true)
    (hlast : after.toList.getLast?.any (!isBlank ·) = true) :
    IsPart mark (before ++ middle ++ after) :=
  ⟨h, any_head?_append (any_head?_append hfirst middle) after, any_getLast?_append _ hlast⟩

/-- **A balanced text in brackets is a part**, whatever stands in it. -/
theorem IsPart.around {mark due : Char} {closers : List Char} {before middle after : String}
    (hopen : Passes mark [] before (due :: closers)) (h : Balanced middle)
    (hclose : Passes mark (due :: closers) after [])
    (hfirst : before.toList.head?.any (!isBlank ·) = true)
    (hlast : after.toList.getLast?.any (!isBlank ·) = true) :
    IsPart mark (before ++ middle ++ after) :=
  .of_edges ((hopen.append (h.passes _ _)).append hclose) hfirst hlast

/-- A quoted text is a part, -/
theorem isPart_scriptQuoted {mark : Char} (hmark : mark ≠ '"') (value : String) :
    IsPart mark (scriptQuoted value) :=
  .of_edges (passes_scriptQuoted hmark value) (by decide) (by decide)

/-! ## Objects -/

/-- The text is an object in braces.  It is read as one with these fields, whose names are there
    once. -/
structure IsObject (text : String) (fields : List (String × String)) : Prop where
  nodup : (fields.map Prod.fst).Nodup
  names : ∀ e ∈ fields, ∀ c ∈ e.1.toList, isNameChar c = true
  read : ∃ row, text = "\x7b" ++ row ++ "\x7d"
    ∧ partsOf ',' row.toList = some (fields.map fun e => (field e.1 e.2).toList)

/-- balanced texts between braces are, -/
theorem isPart_braces {texts : List String} (h : ∀ text ∈ texts, Balanced text) :
    IsPart ',' (braces texts) := by
  have hopen : Passes ',' [] "\x7b" ['}'] := .of_pass rfl
  have hclose : Passes ',' ['}'] "\x7d" [] := .of_pass rfl
  exact .around hopen (balanced_row h) hclose (by decide) (by decide)

/-- and so is a field whose value is. -/
theorem isPart_field {name value : String} (hname : ∀ c ∈ name.toList, isNameChar c = true)
    (h : IsPart ',' value) : IsPart ',' (field name value) := by
  have hcolon : Passes ',' [] ":" [] := .of_pass rfl
  have htext : field name value = "\"" ++ (name ++ "\"" ++ ":") ++ value :=
    String.toList_inj.1 (by simp [field])
  rw [htext]
  refine .of_edges ?_ (by decide) h.last
  have hpass := ((passes_name (by decide) hname).append hcolon).append h.passes
  simpa [String.append_assoc] using hpass

/-- A row with commas is taken apart into its texts. -/
theorem partsOf_row {texts : List String} (hne : texts ≠ []) (h : ∀ text ∈ texts, IsPart ',' text) :
    partsOf ',' (joined "," texts).toList = some (texts.map String.toList) := by
  fun_induction joined "," texts with
  | case1 => exact absurd rfl hne
  | case2 text => exact (h text (List.mem_singleton_self text)).partsOf_single
  | case3 text more hmore ih =>
    have hpart := h text (List.mem_cons_self ..)
    have hcomma : ",".toList = [] ++ ',' :: [] := by decide
    rw [String.toList_append, String.toList_append, hcomma, List.append_assoc]
    refine (hpart.partsOf_append (by decide) List.all_nil _).trans ?_
    rw [List.append_eq, List.nil_append, ih hmore fun other hother =>
      h other (List.mem_cons_of_mem _ hother)]
    rfl

/-- **An object is read as it is written**, if each of its fields is a part. -/
theorem isObject_braces {fields : List (String × String)} (hne : fields ≠ [])
    (hnodup : (fields.map Prod.fst).Nodup)
    (hnames : ∀ e ∈ fields, ∀ c ∈ e.1.toList, isNameChar c = true)
    (h : ∀ e ∈ fields, IsPart ',' e.2) :
    IsObject (braces (fields.map fun e => field e.1 e.2)) fields := by
  refine ⟨hnodup, hnames, _, rfl, ?_⟩
  rw [partsOf_row (by simpa using hne), List.map_map]
  · rfl
  · intro text htext
    obtain ⟨e, he, rfl⟩ := List.mem_map.1 htext
    exact isPart_field (hnames e he) (h e he)

end Stache.Script
