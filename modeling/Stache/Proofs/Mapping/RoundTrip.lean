/-
  Source maps that are moved down, written and read again.

  A map that was read from an integral text is WRITABLE: its version fits into 32 bits, and its
  other fields are in order, have writable values and are not known ones (`writable_of_parse`).
  Moving it down keeps that.  The text of a writable map gives the map back (`parse_render`), since
  its fields are taken one after another, each into its own place: a missing field leaves the map as
  it is, and one that is not known is put behind the others.

  Fields may be missing, so a row of fields is followed from every set of keys that may have been
  there before (`Leads`).
-/
import Mathlib.Algebra.Ring.Nat
import Stache.Proofs.Json.Numerals
import Stache.Proofs.Mapping.Document

namespace Stache

namespace Json

/-! ## Texts of single values -/

/-- A natural number is read as a number that is small enough. -/
theorem readNat_number {s : List Char} (bound : Nat)
    (h : ∃ c t, s = c :: t ∧ startsNumber c = true) :
    readNat bound s = readNumber .keep s >>= fun result =>
      match result.1 with
      | .integer (.ofNat n) => if n < bound then .ok (n, result.2) else .error .mistyped
      | _ => .error .mistyped := by
  obtain ⟨c, t, rfl, hc⟩ := h
  rw [readNat, if_pos hc]
  rfl

/-- So the text of one is read back. -/
theorem textOf_nat {n bound : Nat} (hn : n < bound) (hbound : bound ≤ 2 ^ 64) :
    TextOf (readNat bound) (toString n) n := by
  have hfits : Fits n := by
    constructor
    · omega
    · exact_mod_cast Nat.lt_of_lt_of_le hn hbound
  have hinteger := textOf_integer hfits
  refine ⟨hinteger.begins, fun rest hrest => ?_⟩
  obtain ⟨hshort, hread⟩ := hinteger.reads rest hrest
  obtain ⟨c, s, htext, hc⟩ := exists_toString n
  refine ⟨hshort, ?_⟩
  show readNat bound ((toString (n : Int)).toList ++ rest) = _
  rw [readNat_number bound ⟨c, s ++ rest, by rw [htext]; rfl, hc⟩, hread]
  show (if n < bound then _ else _) = _
  rw [if_pos hn]
  rfl

/-- The word for a value that is missing. -/
theorem textOf_missing {α : Type} (read : Reader α) : TextOf (readOption read) "null" none := by
  refine ⟨⟨'n', _, rfl, by decide, by decide⟩, fun rest _ => ?_⟩
  have hword : Yields (readWord "ull".toList) ("ull".toList ++ rest) () rest :=
    readWord_append (by decide) rest
  refine hword.behind (f := fun _ => none) (c := 'n') ?_
  show readOption read ('n' :: _) = _
  rw [readOption]
  rfl

/-! ## Rows of fields that may be missing -/

section Leads

variable {σ : Type} {fields : List (Field σ)} {other : String → σ → Reader σ} {done : List String}
  {record next final : σ} {key text : String} {more : List (String × String)}

/-- The entries take `record` to `final`, whichever of the fields `done` have been there. -/
def Leads (fields : List (Field σ)) (other : String → σ → Reader σ) (done : List String)
    (record : σ) (entries : List (String × String)) (final : σ) : Prop :=
  ∀ seen ⊆ done, ∃ seen', Run (recordStep fields other) (seen, record) entries (seen', final)

theorem Leads.nil (done : List String) (record : σ) : Leads fields other done record [] record :=
  fun seen _ => ⟨seen, .nil _⟩

/-- A field that may be missing, with the text of its value. -/
def known (key : String) (value : Option String) : List (String × String) :=
  (value.map fun text => (key, text)).toList

/-- A known field changes the record if it is there, and else leaves it as it is. -/
theorem Leads.known {value : Option String} {field : Field σ}
    (hmore : Leads fields other (key :: done) next more final)
    (hfield : fields.find? (fun field => field.key = key) = some field) (hnew : key ∉ done)
    (hthere : ∀ text, value = some text → TextOf (field.read record) text next)
    (hmissing : value = none → next = record) :
    Leads fields other done record (Json.known key value ++ more) final := by
  intro seen hseen
  cases value with
  | none =>
    rw [← hmissing rfl]
    exact hmore seen (List.subset_cons_of_subset key hseen)
  | some text =>
    obtain ⟨seen', hrun⟩ := hmore (key :: seen) (List.cons_subset_cons key hseen)
    have hunseen : seen.contains key = false := by
      rw [List.contains_eq_mem, decide_eq_false_iff_not]
      exact fun hmem => hnew (hseen hmem)
    exact ⟨seen', hrun.field hfield hunseen (hthere text rfl)⟩

/-- A field that is there if it has a value.  The record before the fields has none. -/
theorem Leads.optional {α : Type} {read : Reader α} {put : σ → Option α → σ} {value : Option α}
    {write : α → String}
    (hfield : fields.find? (fun field => field.key = key) = some (.of key (readOption read) put))
    (hnew : key ∉ done) (htext : ∀ v, value = some v → TextOf read (write v) v)
    (hnull : ∀ v s, (write v).toList ≠ 'n' :: s) (hstart : put record none = record)
    (hmore : Leads fields other (key :: done) (put record value) more final) :
    Leads fields other done record (Json.known key (value.map write) ++ more) final := by
  refine hmore.known hfield hnew ?_ ?_
  · intro text hvalue
    obtain ⟨v, rfl, rfl⟩ := Option.map_eq_some_iff.1 hvalue
    exact textOf_field ((htext v rfl).option (hnull v)) record
  · intro hmissing
    obtain rfl := Option.map_eq_none_iff.1 hmissing
    exact hstart

/-- A field that is not known is left to `other`. -/
theorem Leads.unknown (hfield : fields.find? (fun field => field.key = key) = none)
    (htext : TextOf (other key record) text next) (hmore : Leads fields other done next more final) :
    Leads fields other done record ((key, text) :: more) final := by
  intro seen hseen
  obtain ⟨seen', hrun⟩ := hmore seen hseen
  let read : Reader (List String × σ) := fun t =>
    (other key record t).map fun result => ((seen, result.1), result.2)
  have hkey : recordStep fields other (seen, record) key = .ok read := by
    rw [recordStep, hfield]
    rfl
  exact ⟨seen', .cons hkey (htext.map fun rest => rfl) hrun⟩

end Leads

end Json

namespace SourceMap

open Json

/-! ## Writable maps -/

/-- A map that its text gives back. -/
structure Writable (m : SourceMap) : Prop where
  version : ∀ n, m.version = some n → n < Nat.pow 2 32
  extra : WritableFields (maxDepth - 1) m.extra
  unknown : ∀ f ∈ m.extra, fields.find? (fun field => field.key = f.1) = none

theorem Writable.empty : Writable SourceMap.empty := ⟨nofun, .nil _, List.forall_mem_nil _⟩

theorem Writable.moveDown {m : SourceMap} (h : m.Writable) (lines : Nat) :
    (m.moveDown lines).Writable := ⟨h.version, h.extra, h.unknown⟩

/-- Whether `mappings` has been there is no part of the map. -/
theorem keeps_fields : ∀ field ∈ fields, ∀ m, m.1.Writable →
    Keeps (field.read m) fun m => m.1.Writable := by
  simp only [fields, List.forall_mem_cons]
  refine ⟨?_, ?_, ?_, ?_, ?_, ?_, ?_, List.forall_mem_nil _⟩
  · exact fun m hm => (keeps_readNat _).readOption.field fun _ hversion =>
      ⟨hversion, hm.extra, hm.unknown⟩
  · exact fun m hm => keeps_readString.readOption.field fun _ _ =>
      ⟨hm.version, hm.extra, hm.unknown⟩
  · exact fun m hm => keeps_readString.readOption.field fun _ _ =>
      ⟨hm.version, hm.extra, hm.unknown⟩
  · exact fun m hm => keeps_readString.readList.field fun _ _ =>
      ⟨hm.version, hm.extra, hm.unknown⟩
  · exact fun m hm => keeps_readString.readOption.readList.readOption.field fun _ _ =>
      ⟨hm.version, hm.extra, hm.unknown⟩
  · exact fun m hm => keeps_readString.readList.field fun _ _ =>
      ⟨hm.version, hm.extra, hm.unknown⟩
  · exact fun m hm => keeps_readString.field fun _ _ => ⟨hm.version, hm.extra, hm.unknown⟩

/-- A field that is not known is kept, -/
theorem keeps_keepField (key : String) (m : SourceMap × Bool)
    (hkey : fields.find? (fun field => field.key = key) = none) (hm : m.1.Writable) :
    Keeps (keepField key m) fun m => m.1.Writable := by
  let put (value : Json) : SourceMap × Bool :=
    ({ m.1 with extra := insert key value m.1.extra }, m.2)
  refine (keeps_readValue (maxDepth - 1)).map (f := put) fun value hvalue => ?_
  refine ⟨hm.version, hm.extra.insert key hvalue, ?_⟩
  intro f hf
  rcases mem_insert hf with rfl | hf
  · exact hkey
  · exact hm.unknown f hf

/-- and so a map is writable when it is read. -/
theorem keeps_read : Keeps SourceMap.read Writable := by
  intro s m rest hs h
  obtain ⟨⟨⟨record, hasMappings⟩, rest₁⟩, hrecord, h⟩ := exists_of_bind_ok h
  obtain ⟨⟨⟨seen, state⟩, rest₂⟩, hobject, hrecord⟩ := exists_of_bind_ok hrecord
  cases hrecord
  have hstart : Keeps (readObject (recordStep fields keepField) ([], (SourceMap.empty, false)))
      fun state => state.2.1.Writable :=
    (StepKeeps.recordStep keeps_fields keeps_keepField).readObject Writable.empty
  have hkept := hstart hs hobject
  dsimp only at h
  split at h
  · cases h
    exact hkept
  · cases h

/-- A map that was read from a text all of whose numbers are integers. -/
theorem writable_of_parse {text : String} {m : SourceMap}
    (hintegers : ∀ numeral ∈ numerals text, IsInteger numeral) (h : parse text = .ok m) :
    m.Writable := keeps_read.readAll hintegers h

/-! ## Entries -/

/-- The fields of a map, in the order in which they are written, with the texts of their values. -/
def entries (m : SourceMap) : List (String × String) :=
  known "version" (m.version.map toString)
    ++ (known "file" (m.file.map Text.jsonQuoted)
    ++ (known "sourceRoot" (m.sourceRoot.map Text.jsonQuoted)
    ++ (known "sources" ((nonempty m.sources).map renderTexts)
    ++ (known "sourcesContent" (m.sourcesContent.map renderContents)
    ++ (known "names" ((nonempty m.names).map renderTexts)
    ++ (known "mappings" (some (Text.jsonQuoted m.mappings)) ++ m.extra.map entry))))))

/-- A known field is written or left out. -/
theorem map_fieldText_known (key : String) (h : Text.jsonQuoted key = "\"" ++ key ++ "\"")
    (value : Option String) :
    (known key value).map fieldText = (value.map (Text.field key)).toList := by
  cases value with
  | none => rfl
  | some text =>
    rw [Option.map_some, Mapping.field_eq key h]
    rfl

/-- The text of a map as a row of fields. -/
theorem render_eq (m : SourceMap) : m.render = Text.braces (m.entries.map fieldText) := by
  simp only [entries, List.map_append]
  rw [map_fieldText_known "version" (by decide),
    map_fieldText_known "file" (by decide),
    map_fieldText_known "sourceRoot" (by decide),
    map_fieldText_known "sources" (by decide),
    map_fieldText_known "sourcesContent" (by decide),
    map_fieldText_known "names" (by decide),
    map_fieldText_known "mappings" (by decide), List.map_map]
  simp only [render, List.append_assoc]
  rfl

/-! ## Reading the entries -/

/-- Texts are read back from a list, -/
theorem textOf_renderTexts (texts : List String) :
    TextOf (readList readString) (renderTexts texts) texts := by
  refine .brackets ?_
  rw [List.forall₂_map_left_iff, List.forall₂_same]
  exact fun text _ => textOf_jsonQuoted text

/-- where a quote tells them from `null`, -/
theorem ne_null_jsonQuoted (text : String) (s : List Char) :
    (Text.jsonQuoted text).toList ≠ 'n' :: s := by
  rw [toList_jsonQuoted]
  simp

/-- which some of them may be. -/
theorem textOf_renderContents (texts : List (Option String)) :
    TextOf (readList (readOption readString)) (renderContents texts) texts := by
  refine .brackets ?_
  rw [List.forall₂_map_left_iff, List.forall₂_same]
  intro text _
  cases text with
  | none => exact textOf_missing readString
  | some text => exact (textOf_jsonQuoted text).option (ne_null_jsonQuoted text)

/-- Other fields are put behind the ones that are there. -/
theorem leads_extra {done : List String} {m : SourceMap} (before extra : Fields)
    (hkeys : Ascending (before ++ extra))
    (hvalues : ∀ f ∈ extra, Json.Writable (maxDepth - 1) f.2)
    (hunknown : ∀ f ∈ extra, fields.find? (fun field => field.key = f.1) = none) :
    Leads fields keepField done ({ m with extra := before }, true) (extra.map entry)
      ({ m with extra := before ++ extra }, true) := by
  induction extra generalizing before with
  | nil =>
    rw [List.append_nil]
    exact .nil done _
  | cons f extra ih =>
    obtain ⟨hvalue, hvalues⟩ := List.forall_mem_cons.1 hvalues
    obtain ⟨hkey, hunknown⟩ := List.forall_mem_cons.1 hunknown
    -- the keys ascend, so the next one is put last
    have hlast : insert f.1 f.2 before = before ++ [f] :=
      insert_last fun g hg => (List.pairwise_append.1 hkeys).2.2 g hg f (List.mem_cons_self ..)
    have hassoc : before ++ f :: extra = before ++ [f] ++ extra := by simp
    have hmore := ih (before ++ [f]) (hassoc ▸ hkeys) hvalues hunknown
    rw [hassoc]
    refine .unknown hkey ?_ hmore
    let put (value : Json) : SourceMap × Bool :=
      ({ m with extra := insert f.1 value before }, true)
    have htext : TextOf (keepField f.1 ({ m with extra := before }, true)) f.2.render (put f.2) :=
      hvalue.textOf.map fun rest => rfl
    show TextOf _ _ ({ m with extra := before ++ [f] }, true)
    rw [← hlast]
    exact htext

/-- A list that is there unless it is empty.  The record before the field has the empty list. -/
theorem leads_list {done : List String} {record final : SourceMap × Bool} {key : String}
    {put : SourceMap × Bool → List String → SourceMap × Bool} {texts : List String}
    {more : List (String × String)}
    (hfield : fields.find? (fun field => field.key = key) = some (.of key (readList readString) put))
    (hnew : key ∉ done) (hstart : put record [] = record)
    (hmore : Leads fields keepField (key :: done) (put record texts) more final) :
    Leads fields keepField done record
      (known key ((nonempty texts).map renderTexts) ++ more) final := by
  refine hmore.known hfield hnew ?_ ?_
  · intro text htext
    unfold nonempty at htext
    split at htext
    · cases htext
    · cases htext
      exact textOf_field (textOf_renderTexts texts) record
  -- an empty list is left out, as the default
  · intro hmissing
    unfold nonempty at hmissing
    split at hmissing
    · rename_i hempty
      obtain rfl := List.isEmpty_iff.1 hempty
      exact hstart
    · cases hmissing

/-- The entries of a map lead from the empty map to it. -/
theorem leads_entries {m : SourceMap} (h : m.Writable) :
    Leads fields keepField [] (SourceMap.empty, false) m.entries (m, true) := by
  have hversion : ∀ n, m.version = some n → TextOf (readNat (Nat.pow 2 32)) (toString n) n :=
    fun n hn => textOf_nat (h.version n hn) (by decide)
  have hdigit : ∀ (n : Nat) (s : List Char), (toString n).toList ≠ 'n' :: s := by
    intro n s hs
    obtain ⟨c, t, hct, hc⟩ := exists_toString n
    cases hct.symm.trans hs
    exact absurd hc (by decide)
  have hbracket : ∀ texts s, (renderContents texts).toList ≠ 'n' :: s := by
    simp [renderContents, Text.brackets]
  -- the fields in the order they are written in
  refine .optional rfl (by decide) hversion hdigit rfl ?_
  refine .optional rfl (by decide) (fun t _ => textOf_jsonQuoted t) ne_null_jsonQuoted rfl ?_
  refine .optional rfl (by decide) (fun t _ => textOf_jsonQuoted t) ne_null_jsonQuoted rfl ?_
  refine leads_list rfl (by decide) rfl ?_
  refine .optional rfl (by decide) (fun t _ => textOf_renderContents t) hbracket rfl ?_
  refine leads_list rfl (by decide) rfl ?_
  refine (leads_extra [] m.extra h.extra.1 h.extra.2 h.unknown).known rfl (by decide) ?_ ?_
  · rintro text ⟨⟩
    exact textOf_field (textOf_jsonQuoted m.mappings) _
  · intro hmissing
    cases hmissing

/-! ## Whole texts -/

/-- **A writable map is read back.** -/
theorem parse_render {m : SourceMap} (h : m.Writable) : parse m.render = .ok m := by
  obtain ⟨seen, hrun⟩ := leads_entries h [] (List.nil_subset _)
  have hrecord := TextOf.record hrun
  rw [parse, render_eq]
  refine TextOf.readAll ⟨hrecord.begins, fun rest hrest => ?_⟩
  obtain ⟨hshort, hread⟩ := hrecord.reads rest hrest
  refine ⟨hshort, ?_⟩
  rw [SourceMap.read, hread]
  rfl

/-- A map that is read, moved down, written and read again is the map that was written.  But for
    its mappings it is the map that was read first, and it has the same text as before. -/
theorem parse_render_moveDown {text : String} {m : SourceMap}
    (hintegers : ∀ numeral ∈ numerals text, IsInteger numeral) (hread : parse text = .ok m)
    (lines : Nat) :
    ∃ again, parse (m.moveDown lines).render = .ok again ∧ again = m.moveDown lines
      ∧ again.version = m.version ∧ again.file = m.file ∧ again.sourceRoot = m.sourceRoot
      ∧ again.sources = m.sources ∧ again.sourcesContent = m.sourcesContent
      ∧ again.names = m.names ∧ again.extra = m.extra
      ∧ again.mappings = String.ofList (List.replicate lines ';') ++ m.mappings
      ∧ again.render = (m.moveDown lines).render := by
  have hwritable := (writable_of_parse hintegers hread).moveDown lines
  exact ⟨m.moveDown lines, parse_render hwritable, rfl, rfl, rfl, rfl, rfl, rfl, rfl, rfl, rfl, rfl⟩

/-- A map without a version but with a field of its own, which holds values inside of others. -/
def exampleText : String :=
  "\x7b\"x\": \x7b\"b\": [1, -2]\x7d, \"sourcesContent\": [null, \"\\n\"], "
    ++ "\"mappings\": \"A\", \"id\": 18\x7d"

theorem parse_render_moveDown_example :
    (∀ numeral ∈ numerals exampleText, IsInteger numeral) ∧
      ∃ m, parse exampleText = .ok m ∧ m.sourcesContent = some [none, some "\n"]
        ∧ m.extra.map Prod.fst = ["id", "x"]
        ∧ ∃ again, parse (m.moveDown 2).render = .ok again ∧ again = m.moveDown 2
          ∧ again.version = m.version ∧ again.file = m.file ∧ again.sourceRoot = m.sourceRoot
          ∧ again.sources = m.sources ∧ again.sourcesContent = m.sourcesContent
          ∧ again.names = m.names ∧ again.extra = m.extra
          ∧ again.mappings = String.ofList (List.replicate 2 ';') ++ m.mappings
          ∧ again.render = (m.moveDown 2).render := by
  have hnumerals : numerals exampleText
      = ["1".toList, "-2".toList, "18".toList] := by decide +kernel
  have hintegers : ∀ numeral ∈ numerals exampleText, IsInteger numeral := by
    simp only [hnumerals, List.forall_mem_cons]
    refine ⟨⟨1, ?_, rfl⟩, ⟨-2, ?_, rfl⟩, ⟨18, ?_, rfl⟩, List.forall_mem_nil _⟩ <;>
      constructor <;> decide
  obtain ⟨m, hread, hcontents, hkeys⟩ : ∃ m, parse exampleText = .ok m
      ∧ m.sourcesContent = some [none, some "\n"] ∧ m.extra.map Prod.fst = ["id", "x"] :=
    exists_ok (by decide +kernel)
  exact ⟨hintegers, m, hread, hcontents, hkeys, parse_render_moveDown hintegers hread 2⟩

end SourceMap

end Stache
