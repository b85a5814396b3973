/-
  The source map of generated code, read back.

  The text of the map is a record with a version, one source and no names; the mappings are those of
  the segments (`parse_render`).
-/
import Stache.Mapping.SourceMap
import Stache.Mapping.Trace
import Stache.Proofs.Json.Rows

namespace Stache.Mapping

open Json SourceMap

/-! ## The version -/

/-- A digit alone is a number. -/
theorem numeralOf_three {rest : List Char} (h : Ends rest) :
    numeralOf .keep ('3' :: rest) = .ok (⟨false, ['3'], [], none⟩, rest) := by
  cases rest with
  | nil => rfl
  | cons c t => rcases h with rfl | rfl | rfl <;> rfl

/-- The version is a number. -/
theorem textOf_three : TextOf (readNat (Nat.pow 2 32)) "3" 3 := by
  refine ⟨⟨'3', [], rfl, by decide, by decide⟩, fun rest hrest => ⟨Nat.lt_succ_self _, ?_⟩⟩
  have hnumber : readNumber .keep ('3' :: rest)
      = .ok (.integer 3, ⟨rest, Nat.lt_succ_self _⟩) := by
    have hvalue : (⟨false, ['3'], [], none⟩ : Numeral).value = .ok (.integer 3) := rfl
    have hshort : rest.length < ('3' :: rest).length := Nat.lt_succ_self _
    rw [readNumber, numeralOf_three hrest]
    simp only [bind, Except.bind, if_true, hvalue, dif_pos hshort]
    rfl
  show readNat (Nat.pow 2 32) ('3' :: rest) = _
  rw [readNat, if_pos (by decide), hnumber]
  rfl

/-! ## The document -/

/-- The name of a field may be taken as quoted, if it needs no escapes. -/
theorem field_eq (name : String) (h : Text.jsonQuoted name = "\"" ++ name ++ "\"")
    (value : String) : Text.field name value = fieldText (name, value) := by
  rw [Text.field, fieldText, h]
  simp [String.append_assoc]

/-- The fields of the map of generated code. -/
def entries (source : String) (dest : Option String) (mappings : String) : List (String × String) :=
  ("version", "3") :: ((dest.map fun file => ("file", Text.jsonQuoted file)).toList
    ++ [("sources", Text.brackets [Text.jsonQuoted source]), ("names", Text.brackets []),
      ("mappings", Text.jsonQuoted mappings)])

/-- The document as a row of fields. -/
theorem render_eq (source : String) (dest : Option String) (chunks : List Script.Chunk) :
    render source dest chunks
      = Text.braces ((entries source dest (encode (segments chunks))).map fieldText) := by
  have hversion := field_eq "version" (by decide)
  have hsources := field_eq "sources" (by decide)
  have hnames := field_eq "names" (by decide)
  have hmappings := field_eq "mappings" (by decide)
  rw [render, hversion, hsources, hnames, hmappings, entries]
  cases dest with
  | none => rfl
  | some file =>
    rw [Option.map_some, field_eq "file" (by decide)]
    rfl

/-- Reading the fields, in the order in which they are written. -/
theorem run_entries (source : String) (dest : Option String) (mappings : String) :
    ∃ seen, Run (recordStep SourceMap.fields keepField) ([], (SourceMap.empty, false))
      (entries source dest mappings)
      (seen, (⟨some 3, dest, none, [source], none, [], mappings, []⟩, true)) := by
  have hsources : TextOf (readList readString) (Text.brackets [Text.jsonQuoted source]) [source] :=
    .brackets (.cons (textOf_jsonQuoted source) .nil)
  have hnames : TextOf (readList readString) (Text.brackets []) [] := .brackets .nil
  have hversion : TextOf (readOption (readNat (Nat.pow 2 32))) "3" (some 3) :=
    textOf_three.option (by simp)
  cases dest with
  | none =>
    exact ⟨_, .field rfl rfl (textOf_field hversion _) <|
      .field rfl rfl (textOf_field hsources _) <| .field rfl rfl (textOf_field hnames _) <|
      .field rfl rfl (textOf_field (textOf_jsonQuoted mappings) _) (.nil _)⟩
  | some file =>
    have hfile : TextOf (readOption readString) (Text.jsonQuoted file) (some file) :=
      (textOf_jsonQuoted file).option (by simp [toList_jsonQuoted])
    exact ⟨_, .field rfl rfl (textOf_field hversion _) <| .field rfl rfl (textOf_field hfile _) <|
      .field rfl rfl (textOf_field hsources _) <| .field rfl rfl (textOf_field hnames _) <|
      .field rfl rfl (textOf_field (textOf_jsonQuoted mappings) _) (.nil _)⟩

/-- **The map is read back.** -/
theorem parse_render (source : String) (dest : Option String) (chunks : List Script.Chunk) :
    SourceMap.parse (render source dest chunks)
      = .ok ⟨some 3, dest, none, [source], none, [], encode (segments chunks), []⟩ := by
  obtain ⟨seen, hrun⟩ := run_entries source dest (encode (segments chunks))
  have hrecord := TextOf.record hrun
  rw [SourceMap.parse, render_eq]
  refine TextOf.readAll ⟨hrecord.begins, fun rest hrest => ?_⟩
  obtain ⟨hshort, hread⟩ := hrecord.reads rest hrest
  refine ⟨hshort, ?_⟩
  rw [SourceMap.read, hread]
  rfl

end Stache.Mapping
