/-
  Values, read back.

  The text of a value is read as the value that it is the text of, if the value is WRITABLE: its
  numbers are integers of at most 64 bits, the keys of its objects ascend, and it is nested no
  deeper than the reader goes (`Writable`).  That holds at every depth, so the induction is on the
  derivation of it (`Writable.textOf`).

  Fields come back in the order in which they are written because a field whose key comes after all
  others is put last (`insert_last`).
-/
import Stache.Proofs.Json.Integers

namespace Stache.Json

/-! ## Writable values -/

/-- The keys ascend, so that none is there twice. -/
def Ascending {α : Type} (fields : List (String × α)) : Prop :=
  fields.Pairwise fun a b => a.1 < b.1

/-- A value that its text gives back to a reader which goes `depth` deep. -/
inductive Writable : (depth : Nat) → Json → Prop where
  | null (depth : Nat) : Writable depth .null
  | bool (depth : Nat) (b : Bool) : Writable depth (.bool b)
  | integer (depth : Nat) {k : Int} (h : Fits k) : Writable depth (.integer k)
  | string (depth : Nat) (s : String) : Writable depth (.string s)
  | array {depth : Nat} {items : List Json} (h : ∀ v ∈ items, Writable depth v) :
      Writable (depth + 1) (.array items)
  | object {depth : Nat} {fields : Fields} (hkeys : Ascending fields)
      (h : ∀ f ∈ fields, Writable depth f.2) : Writable (depth + 1) (.object fields)

/-! ## Fields in order -/

/-- A field whose key comes after all others is put last. -/
theorem insert_last {α : Type} {fields : List (String × α)} {key : String} {value : α}
    (h : ∀ f ∈ fields, f.1 < key) : insert key value fields = fields ++ [(key, value)] := by
  induction fields with
  | nil => rfl
  | cons f fields ih =>
    have hf := h f (List.mem_cons_self ..)
    have hne : key ≠ f.1 := by
      rintro rfl
      exact String.lt_irrefl _ hf
    have hlt : ¬ key < f.1 := fun hlt => String.lt_irrefl _ (String.lt_trans hf hlt)
    rw [insert, if_neg hlt, if_neg hne, ih fun g hg => h g (List.mem_cons_of_mem _ hg)]
    rfl

/-! ## Texts of arrays and objects -/

/-- The elements of an array are written with commas between them, -/
theorem renderItems_eq (items : List Json) :
    renderItems items = Text.joined "," (items.map render) := by
  match items with
  | [] => rfl
  | [v] => rfl
  | v :: w :: rest =>
    rw [renderItems, renderItems_eq (w :: rest)]
    rfl

/-- in brackets. -/
theorem render_array (items : List Json) :
    (Json.array items).render = Text.brackets (items.map render) := by
  rw [render, renderItems_eq]
  rfl

/-- A field with the text of its value. -/
def entry (f : String × Json) : String × String := (f.1, f.2.render)

/-- The fields of an object are, -/
theorem renderFields_eq (fields : Fields) :
    renderFields fields = Text.joined "," (fields.map fun f => fieldText (entry f)) := by
  match fields with
  | [] => rfl
  | [(k, v)] => rfl
  | (k, v) :: g :: rest =>
    rw [renderFields, renderFields_eq (g :: rest)]
    rfl

/-- in braces. -/
theorem render_object (fields : Fields) :
    (Json.object fields).render = Text.braces ((fields.map entry).map fieldText) := by
  rw [render, renderFields_eq, List.map_map]
  rfl

/-! ## Reading, by the first character -/

section

variable {depth : Nat} {t : List Char}

/-- A digit or a minus sign begins a number, -/
theorem readValue_number {c : Char} (h : startsNumber c = true) :
    readValue .keep depth (c :: t) = readNumber .keep (c :: t) := by
  have hne (d : Char) (hd : startsNumber d = false) : c ≠ d := by
    rintro rfl
    exact absurd (h.symm.trans hd) (by decide)
  rw [readValue.eq_def]
  dsimp only
  rw [if_neg (hne 'n' (by decide)), if_neg (hne 't' (by decide)), if_neg (hne 'f' (by decide)),
    if_pos h]

/-- a quote a text, -/
theorem readValue_string :
    readValue .keep depth ('"' :: t)
      = (readString ('"' :: t)).map fun result => (.string result.1, result.2) := by
  have hread : readValue .keep depth ('"' :: t)
      = (readText .keep t >>= fun r => .ok (.string (String.ofList r.1), r.2.cons)) := by
    cases depth <;> rfl
  rw [hread, readString]
  cases readText .keep t <;> rfl

/-- a bracket an array, -/
theorem readValue_array :
    readValue .keep (depth + 1) ('[' :: t)
      = (readList (readValue .keep depth) ('[' :: t)).map
          fun result => (.array result.1, result.2) := by
  have hread : readValue .keep (depth + 1) ('[' :: t)
      = (elements (readValue .keep depth) t >>= fun r => .ok (.array r.1, r.2.cons)) := rfl
  rw [hread, readList]
  cases elements (readValue .keep depth) t <;> rfl

/-- and a brace an object. -/
theorem readValue_object :
    readValue .keep (depth + 1) ('{' :: t)
      = (readFields depth ('{' :: t)).map fun result => (.object result.1, result.2) := by
  rw [readFields, readObject]
  dsimp only
  generalize hread : moreFields .keep _ true [] t = result
  show (moreFields .keep (fun fields key => .ok fun s =>
      readValue .keep depth s >>= fun r => pure (insert key r.1 fields, r.2)) true [] t
    >>= fun r => pure (Json.object r.1, r.2.cons)) = _
  rw [hread]
  cases result <;> rfl

end

/-! ## Words -/

/-- A word is read back by its letters. -/
theorem readWord_append {word : List Char} (hword : word ≠ []) (rest : List Char) :
    Yields (readWord word) (word ++ rest) () rest := by
  induction word with
  | nil => exact absurd rfl hword
  | cons c word ih =>
    match word, ih with
    | [], _ =>
      refine ⟨Nat.lt_succ_self _, ?_⟩
      show readWord [c] (c :: rest) = _
      rw [readWord, if_pos rfl]
    | d :: word, ih =>
      obtain ⟨hshort, hread⟩ := ih (by simp)
      refine ⟨Nat.lt_succ_of_lt hshort, ?_⟩
      show readWord (c :: d :: word) (c :: (d :: word ++ rest)) = _
      rw [readWord, if_pos rfl, hread]
      · rfl
      · simp

section

variable {depth : Nat}

theorem textOf_null : TextOf (readValue .keep depth) "null" .null := by
  refine ⟨⟨'n', _, rfl, by decide, by decide⟩, fun rest _ => ?_⟩
  have hword : Yields (readWord "ull".toList) ("ull".toList ++ rest) () rest :=
    readWord_append (by decide) rest
  refine hword.behind (f := fun _ => Json.null) (c := 'n') ?_
  cases depth <;> rfl

theorem textOf_true : TextOf (readValue .keep depth) "true" (.bool true) := by
  refine ⟨⟨'t', _, rfl, by decide, by decide⟩, fun rest _ => ?_⟩
  have hword : Yields (readWord "rue".toList) ("rue".toList ++ rest) () rest :=
    readWord_append (by decide) rest
  refine hword.behind (f := fun _ => Json.bool true) (c := 't') ?_
  cases depth <;> rfl

theorem textOf_false : TextOf (readValue .keep depth) "false" (.bool false) := by
  refine ⟨⟨'f', _, rfl, by decide, by decide⟩, fun rest _ => ?_⟩
  have hword : Yields (readWord "alse".toList) ("alse".toList ++ rest) () rest :=
    readWord_append (by decide) rest
  refine hword.behind (f := fun _ => Json.bool false) (c := 'f') ?_
  cases depth <;> rfl

/-! ## Values -/

/-- A text that a reader reads by its first character as another one does. -/
theorem TextOf.map {α β : Type} {read : Reader α} {next : Reader β} {f : α → β} {text : String}
    {value : α} (h : TextOf read text value)
    (hnext : ∀ rest, next (text.toList ++ rest)
      = (read (text.toList ++ rest)).map fun result => (f result.1, result.2)) :
    TextOf next text (f value) :=
  ⟨h.begins, fun rest hrest => (h.reads rest hrest).map (hnext rest)⟩

/-- So is the text of an integer. -/
theorem textOf_integer {k : Int} (h : Fits k) :
    TextOf (readNumber .keep) (toString k) (.integer k) := by
  obtain ⟨c, s, htext, hc⟩ := exists_toString k
  refine ⟨⟨c, s, htext, ?_, ?_⟩, fun rest hrest => yields_integer h hrest.endsNumber⟩
  · by_contra hspace
    rw [Bool.not_eq_false] at hspace
    simp only [isSpace, Bool.or_eq_true, decide_eq_true_eq] at hspace
    rcases hspace with ((rfl | rfl) | rfl) | rfl <;> exact absurd hc (by decide)
  · rintro rfl
    exact absurd hc (by decide)

/-- The fields of an object, taken one after another: each is put behind the ones before it. -/
theorem run_fields (before fields : Fields) (hkeys : Ascending (before ++ fields))
    (h : ∀ f ∈ fields, TextOf (readValue .keep depth) f.2.render f.2) :
    Run (fun fields key => .ok fun s => do
      let (value, rest) ← readValue .keep depth s
      return (insert key value fields, rest)) before (fields.map entry) (before ++ fields) := by
  induction fields generalizing before with
  | nil =>
    rw [List.append_nil]
    exact .nil before
  | cons f fields ih =>
    -- the keys ascend, so the next one is put last
    have hlast : insert f.1 f.2 before = before ++ [f] :=
      insert_last fun g hg => (List.pairwise_append.1 hkeys).2.2 g hg f (List.mem_cons_self ..)
    have hassoc : before ++ f :: fields = before ++ [f] ++ fields := by simp
    have hmore := ih (before ++ [f]) (hassoc ▸ hkeys) fun g hg => h g (List.mem_cons_of_mem _ hg)
    rw [hassoc]
    refine .cons rfl ?_ hmore
    let next : Reader Fields := fun s =>
      (readValue .keep depth s).map fun result => (insert f.1 result.1 before, result.2)
    have hvalue : TextOf next f.2.render (insert f.1 f.2 before) :=
      (h f (List.mem_cons_self ..)).map (f := fun value => insert f.1 value before) fun rest => rfl
    rw [hlast] at hvalue
    exact hvalue

/-- **A value is read back**, whatever stands around it. -/
theorem Writable.textOf {v : Json} (h : Writable depth v) :
    TextOf (readValue .keep depth) v.render v := by
  -- on the value: what is in an array or an object is read first
  induction h with
  | null depth => exact textOf_null
  | bool depth b =>
    cases b with
    | true => exact textOf_true
    | false => exact textOf_false
  | integer depth hk =>
    rename_i k
    obtain ⟨c, s, htext, hc⟩ := exists_toString k
    refine (textOf_integer hk).map (f := id) fun rest => ?_
    rw [htext, List.cons_append, readValue_number hc]
    cases readNumber .keep (c :: (s ++ rest)) <;> rfl
  | string depth s =>
    refine (textOf_jsonQuoted s).map (f := Json.string) fun rest => ?_
    rw [toList_jsonQuoted, List.cons_append]
    exact readValue_string
  | @array depth items h ih =>
    have hitems : List.Forall₂ (TextOf (readValue .keep depth)) (items.map render) items := by
      rw [List.forall₂_map_left_iff, List.forall₂_same]
      exact ih
    rw [render_array]
    refine (TextOf.brackets hitems).map (f := Json.array) fun rest => ?_
    have hbegin : (Text.brackets (items.map render)).toList ++ rest
        = '[' :: ((Text.joined "," (items.map render)).toList ++ ']' :: rest) := by
      simp [Text.brackets]
    rw [hbegin]
    exact readValue_array
  | @object depth fields hkeys h ih =>
    have hfields : TextOf (readFields depth) (Text.braces ((fields.map entry).map fieldText))
        fields := TextOf.braces (run_fields [] fields hkeys ih)
    rw [render_object]
    refine hfields.map (f := Json.object) fun rest => ?_
    have hbegin : (Text.braces ((fields.map entry).map fieldText)).toList ++ rest
        = '{' :: ((Text.joined "," ((fields.map entry).map fieldText)).toList ++ '}' :: rest) := by
      simp [Text.braces]
    rw [hbegin]
    exact readValue_object

end

end Stache.Json
