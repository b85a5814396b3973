/-
  Arrays, objects and records, read back.

  A value inside of another is read wherever it stands, as long as nothing that could belong to it
  comes next: a comma or a closing bracket (`Ends`).  So one says what a TEXT OF a value is for a
  reader (`TextOf`), and gets texts of arrays from texts of their elements (`TextOf.brackets`), and
  texts of objects from texts of the values of their fields (`TextOf.braces`).

  The fields of an object are taken one after another, from one state to the next; a row of fields
  that takes a state to another one is a RUN (`Run`).  For a record, each field has to be found and
  be new (`Run.field`).
-/
import Mathlib.Data.List.Forall2
import Stache.Proofs.Json.Text

namespace Stache.Json

variable {α σ : Type}

/-! ## Texts of values -/

/-- A value that stands in front of this has ended. -/
def Ends : List Char → Prop
  | [] => True
  | c :: _ => c = ',' ∨ c = ']' ∨ c = '}'

/-- To the reader, `text` is a text of `value`, wherever it stands. -/
structure TextOf (read : Reader α) (text : String) (value : α) : Prop where
  begins : ∃ c s, text.toList = c :: s ∧ isSpace c = false ∧ c ≠ ']'
  reads : ∀ rest, Ends rest → Yields read (text.toList ++ rest) value rest

theorem skipSpace_cons {c : Char} (h : isSpace c = false) (s : List Char) :
    skipSpace (c :: s) = c :: s := by
  rw [skipSpace, List.dropWhile_cons, h]
  rfl

/-- No blanks stand in front of a text. -/
theorem TextOf.skipSpace_append {read : Reader α} {text : String} {value : α}
    (h : TextOf read text value) (more : List Char) :
    skipSpace (text.toList ++ more) = text.toList ++ more := by
  obtain ⟨c, s, htext, hc, -⟩ := h.begins
  rw [htext, List.cons_append, skipSpace_cons hc]

theorem Yields.spaced {read : Reader α} {s : List Char} {value : α} {rest : List Char}
    (h : Yields read (skipSpace s) value rest) : Yields (spaced read) s value rest := by
  obtain ⟨hshort, hread⟩ := h
  refine ⟨Nat.lt_of_lt_of_le hshort (length_skipSpace_le s), ?_⟩
  rw [Json.spaced, hread]
  rfl

theorem TextOf.spaced {read : Reader α} {text : String} {value : α} (h : TextOf read text value)
    {rest : List Char} (hrest : Ends rest) :
    Yields (spaced read) (text.toList ++ rest) value rest := by
  refine Yields.spaced ?_
  rw [h.skipSpace_append]
  exact h.reads rest hrest

/-- A whole text. -/
theorem TextOf.readAll {read : Reader α} {text : String} {value : α} (h : TextOf read text value) :
    readAll read text = .ok value := by
  have hyields : Yields (Json.spaced read) (text.toList ++ []) value [] := h.spaced trivial
  rw [List.append_nil] at hyields
  obtain ⟨hshort, hread⟩ := hyields
  rw [Json.readAll, hread]
  rfl

theorem textOf_jsonQuoted (s : String) : TextOf readString (Text.jsonQuoted s) s :=
  ⟨⟨'"', _, toList_jsonQuoted s, rfl, by decide⟩, fun rest _ => readString_jsonQuoted s rest⟩

/-- A value that may be missing, and is there: its text must not look like `null`. -/
theorem TextOf.option {read : Reader α} {text : String} {value : α} (h : TextOf read text value)
    (hnull : ∀ s, text.toList ≠ 'n' :: s) : TextOf (readOption read) text (some value) := by
  refine ⟨h.begins, fun rest hrest => (h.reads rest hrest).map ?_⟩
  have hfirst (t : List Char) : text.toList ++ rest ≠ 'n' :: t := by
    obtain ⟨c, s, htext, -⟩ := h.begins
    rw [htext]
    intro heq
    exact hnull s (htext.trans (congrArg (· :: s) (List.cons.inj heq).1))
  rw [readOption]
  · rfl
  · exact hfirst

/-! ## Texts side by side -/

/-- Texts, with a comma in front of each. -/
def commas (texts : List String) : List Char := texts.flatMap fun text => ',' :: text.toList

theorem toList_joined (text : String) (more : List String) :
    (Text.joined "," (text :: more)).toList = text.toList ++ commas more := by
  rw [Text.toList_joined]
  rfl

/-- Between a value and the closing bracket there is nothing that belongs to the value. -/
theorem ends_commas (texts : List String) {c : Char} (h : c = ']' ∨ c = '}') (rest : List Char) :
    Ends (commas texts ++ c :: rest) := by
  cases texts with
  | nil => exact Or.inr h
  | cons text more => exact Or.inl rfl

/-- Blanks, a comma if it is due, and more blanks leave no more than there was. -/
theorem length_skipSpace_ite_le {s t : List Char} {c : Char} (first : Bool)
    (hs : skipSpace s = c :: t) :
    (skipSpace (if first then c :: t else t)).length ≤ s.length := by
  have hblanks := length_skipSpace_le s
  have hblanks' := length_skipSpace_le (if first then c :: t else t)
  rw [hs] at hblanks
  cases first <;> simp only [List.length_cons, if_true, Bool.false_eq_true, if_false]
    at hblanks hblanks' ⊢ <;> omega

/-! ## Arrays -/

section Arrays

variable {read : Reader α} {rest : List Char}

/-- An array ends at its bracket. -/
theorem moreElements_close (first : Bool) :
    Yields (moreElements read first) (']' :: rest) [] rest := by
  refine ⟨Nat.lt_succ_self _, ?_⟩
  unfold moreElements
  split
  · rename_i hempty
    cases hempty
  · rename_i hfirst
    cases hfirst
    rfl

/-- An element, after whatever stands in front of it. -/
theorem moreElements_step {first : Bool} {s t more : List Char} {c : Char} {text : String}
    {value : α} {values : List α} (hs : skipSpace s = c :: t) (hclose : c ≠ ']')
    (hcomma : first = true ∨ c = ',')
    (ht : skipSpace (if first then c :: t else t) = text.toList ++ more)
    (htext : TextOf read text value) (hends : Ends more)
    (hmore : Yields (moreElements read false) more values rest) :
    Yields (moreElements read first) s (value :: values) rest := by
  obtain ⟨d, u, hd, -, hbracket⟩ := htext.begins
  have hvalue := htext.reads more hends
  rw [hd, List.cons_append] at ht hvalue
  obtain ⟨hshort, hread⟩ := hvalue
  obtain ⟨hshorter, hmore⟩ := hmore
  have hlength := length_skipSpace_ite_le first hs
  rw [ht] at hlength
  refine ⟨by omega, ?_⟩
  -- Either match of the reader has one branch for an end of text, and one for what is there.
  unfold moreElements
  split
  · rename_i hempty
    cases hs.symm.trans hempty
  · rename_i hfirst
    cases hs.symm.trans hfirst
    rw [if_neg hclose, if_neg (by rcases hcomma with rfl | rfl <;> simp)]
    dsimp only
    split
    · rename_i hempty _
      cases ht.symm.trans hempty
    · rename_i hvalue _
      cases ht.symm.trans hvalue
      rw [if_neg hbracket]
      simp only [bind, Except.bind, hread, hmore]
      rfl

/-- The elements after the first one. -/
theorem moreElements_commas {texts : List String} {values : List α}
    (h : List.Forall₂ (TextOf read) texts values) :
    Yields (moreElements read false) (commas texts ++ ']' :: rest) values rest := by
  induction h with
  | nil => exact moreElements_close false
  | @cons text value texts values htext _ ih =>
    rw [commas, List.flatMap_cons, List.append_assoc, List.cons_append]
    refine moreElements_step (skipSpace_cons rfl _) (by decide) (Or.inr rfl) ?_ htext
      (ends_commas texts (Or.inl rfl) rest) ih
    exact htext.skipSpace_append _

/-- **An array is read back**, if its elements are. -/
theorem TextOf.brackets {texts : List String} {values : List α}
    (h : List.Forall₂ (TextOf read) texts values) :
    TextOf (readList read) (Text.brackets texts) values := by
  refine ⟨⟨'[', (Text.joined "," texts).toList ++ [']'], by simp [Text.brackets], rfl, by decide⟩,
    fun rest _ => ?_⟩
  have helements : Yields (moreElements read true)
      ((Text.joined "," texts).toList ++ ']' :: rest) values rest := by
    cases h with
    | nil => exact moreElements_close true
    | @cons text value texts values htext hmore =>
      -- No comma is due, so the element itself stands where one would be.
      obtain ⟨c, s, hc, hspace, hclose⟩ := htext.begins
      have hskip := htext.skipSpace_append (commas texts ++ ']' :: rest)
      rw [toList_joined, List.append_assoc]
      refine moreElements_step (c := c) (t := s ++ (commas texts ++ ']' :: rest)) ?_ hclose
        (Or.inl rfl) ?_ htext (ends_commas texts (Or.inl rfl) rest) (moreElements_commas hmore)
      · rw [hskip, hc]
        rfl
      · rw [if_pos rfl, ← List.cons_append, ← hc, hskip]
  have htext : (Text.brackets texts).toList ++ rest
      = '[' :: ((Text.joined "," texts).toList ++ ']' :: rest) := by simp [Text.brackets]
  rw [htext]
  exact helements.behind (f := id) rfl

end Arrays

/-! ## Objects -/

section Objects

variable {care : Care} {read : σ → String → Except Fault (Reader σ)} {rest : List Char}

/-- The text of a field. -/
def fieldText (field : String × String) : String := Text.jsonQuoted field.1 ++ ":" ++ field.2

theorem exists_fieldText (field : String × String) : ∃ s, (fieldText field).toList = '"' :: s :=
  ⟨field.1.toList.flatMap Text.jsonEscape ++ '"' :: ':' :: field.2.toList, by
    simp [fieldText, toList_jsonQuoted]⟩

theorem skipSpace_fieldText (field : String × String) (more : List Char) :
    skipSpace ((fieldText field).toList ++ more) = (fieldText field).toList ++ more := by
  obtain ⟨s, hs⟩ := exists_fieldText field
  rw [hs, List.cons_append, skipSpace_cons rfl]

/-- The fields take the state `state` to `final`, one after another. -/
inductive Run (read : σ → String → Except Fault (Reader σ)) :
    (state : σ) → List (String × String) → (final : σ) → Prop where
  | nil (state : σ) : Run read state [] state
  | cons {state next final : σ} {key text : String} {value : Reader σ}
      {more : List (String × String)} (hkey : read state key = .ok value)
      (htext : TextOf value text next) (hmore : Run read next more final) :
      Run read state ((key, text) :: more) final

theorem afterColon_append {value : Reader σ} {text : String} {next : σ}
    (h : TextOf value text next) {more : List Char} (hends : Ends more) :
    Yields (afterColon value) (':' :: (text.toList ++ more)) next more := by
  refine Yields.spaced ?_
  rw [skipSpace_cons rfl]
  exact (h.spaced hends).behind (f := id) rfl

/-- An object ends at its brace. -/
theorem moreFields_close (first : Bool) (state : σ) :
    Yields (moreFields care read first state) ('}' :: rest) state rest := by
  refine ⟨Nat.lt_succ_self _, ?_⟩
  unfold moreFields
  split
  · rename_i hempty
    cases hempty
  · rename_i hfirst
    cases hfirst
    rfl

/-- A field, after whatever stands in front of it. -/
theorem moreFields_step {first : Bool} {state next final : σ} {s t more : List Char} {c : Char}
    {key text : String} {value : Reader σ} (hs : skipSpace s = c :: t) (hclose : c ≠ '}')
    (hcomma : first = true ∨ c = ',')
    (ht : skipSpace (if first then c :: t else t) = (fieldText (key, text)).toList ++ more)
    (hkey : read state key = .ok value) (htext : TextOf value text next) (hends : Ends more)
    (hmore : Yields (moreFields care read false next) more final rest) :
    Yields (moreFields care read first state) s final rest := by
  have hfield : (fieldText (key, text)).toList ++ more
      = (Text.jsonQuoted key).toList ++ ':' :: (text.toList ++ more) := by
    simp [fieldText]
  -- the key is read, then the colon and the value behind it
  have hname : Yields (readKey care) (skipSpace (if first then c :: t else t)) key
      (':' :: (text.toList ++ more)) := by
    rw [ht, hfield]
    exact readKey_jsonQuoted care key _
  obtain ⟨hlong, hname⟩ := hname
  obtain ⟨hshort, hread⟩ := afterColon_append htext hends
  obtain ⟨hshorter, hmore⟩ := hmore
  have hlength := length_skipSpace_ite_le first hs
  refine ⟨by omega, ?_⟩
  unfold moreFields
  split
  · rename_i hempty
    cases hs.symm.trans hempty
  · rename_i hfirst
    cases hs.symm.trans hfirst
    rw [if_neg hclose, if_neg (by rcases hcomma with rfl | rfl <;> simp)]
    simp only [hname, hkey, hread, hmore, bind, Except.bind]
    rfl

/-- The fields after the first one. -/
theorem moreFields_commas {state final : σ} {fields : List (String × String)}
    (h : Run read state fields final) :
    Yields (moreFields care read false state) (commas (fields.map fieldText) ++ '}' :: rest) final
      rest := by
  induction h with
  | nil state => exact moreFields_close false state
  | @cons state next final key text value more hkey htext _ ih =>
    rw [List.map_cons, commas, List.flatMap_cons, List.append_assoc, List.cons_append]
    exact moreFields_step (skipSpace_cons rfl _) (by decide) (Or.inr rfl)
      (skipSpace_fieldText (key, text) _) hkey htext
      (ends_commas (more.map fieldText) (Or.inr rfl) rest) ih

/-- **An object is read back** by a run over its fields. -/
theorem TextOf.braces {start final : σ} {fields : List (String × String)}
    (h : Run read start fields final) :
    TextOf (readObject read start) (Text.braces (fields.map fieldText)) final := by
  refine ⟨⟨'{', (Text.joined "," (fields.map fieldText)).toList ++ ['}'], by simp [Text.braces],
    rfl, by decide⟩, fun rest _ => ?_⟩
  -- no comma stands before the first field, and one before each other
  have hfields : Yields (moreFields .keep read true start)
      ((Text.joined "," (fields.map fieldText)).toList ++ '}' :: rest) final rest := by
    cases h with
    | nil => exact moreFields_close true start
    | @cons _ next _ key text value more hkey htext hmore =>
      obtain ⟨s, hs⟩ := exists_fieldText (key, text)
      have hskip := skipSpace_fieldText (key, text) (commas (more.map fieldText) ++ '}' :: rest)
      rw [List.map_cons, toList_joined, List.append_assoc]
      refine moreFields_step (c := '"') (t := s ++ (commas (more.map fieldText) ++ '}' :: rest)) ?_
        (by decide) (Or.inl rfl) ?_ hkey htext (ends_commas (more.map fieldText) (Or.inr rfl) rest)
        (moreFields_commas hmore)
      · rw [hskip, hs]
        rfl
      · rw [if_pos rfl, ← List.cons_append, ← hs, hskip]
  have htext : (Text.braces (fields.map fieldText)).toList ++ rest
      = '{' :: ((Text.joined "," (fields.map fieldText)).toList ++ '}' :: rest) := by
    simp [Text.braces]
  rw [htext]
  exact hfields.behind (f := id) rfl

end Objects

/-! ## Records -/

section Records

variable {fields : List (Field σ)} {other : String → σ → Reader σ}

/-- A field of the record. -/
theorem Run.field {seen : List String} {record next : σ} {key text : String} {field : Field σ}
    {more : List (String × String)} {final : List String × σ}
    (hfield : fields.find? (fun field => field.key = key) = some field)
    (hnew : seen.contains key = false) (htext : TextOf (field.read record) text next)
    (hmore : Run (recordStep fields other) (key :: seen, next) more final) :
    Run (recordStep fields other) (seen, record) ((key, text) :: more) final := by
  let read : Reader (List String × σ) := fun t =>
    (field.read record t).map fun result => ((key :: seen, result.1), result.2)
  have hkey : recordStep fields other (seen, record) key = .ok read := by
    rw [recordStep, hfield]
    simp only [hnew]
    rfl
  have hread : TextOf read text (key :: seen, next) :=
    ⟨htext.begins, fun rest hrest => (htext.reads rest hrest).map rfl⟩
  exact .cons hkey hread hmore

theorem textOf_field {read : Reader α} {put : σ → α → σ} {text key : String} {value : α}
    (h : TextOf read text value) (record : σ) :
    TextOf ((Field.of key read put).read record) text (put record value) :=
  ⟨h.begins, fun rest hrest => (h.reads rest hrest).map rfl⟩

/-- **A record is read back** by a run over its fields. -/
theorem TextOf.record {start final : σ} {entries : List (String × String)} {seen : List String}
    (h : Run (recordStep fields other) ([], start) entries (seen, final)) :
    TextOf (readRecord fields other start) (Text.braces (entries.map fieldText)) final := by
  have hobject := TextOf.braces h
  exact ⟨hobject.begins, fun rest hrest => (hobject.reads rest hrest).map (f := Prod.snd) rfl⟩

end Records

end Stache.Json
