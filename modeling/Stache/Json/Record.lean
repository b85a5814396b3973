/-
  Reading records: objects whose fields are known beforehand.

  A record is described by a list of fields, each with a key and a reader that takes the value of
  the field into the record. A field may be given once. What becomes of other keys is up to the
  record. Most records may also be written as an array, with the values in the order of the fields;
  fields at the end may then be missing.
-/
import Stache.Json.Read

namespace Stache.Json

/-- A field of a record of type `σ`. -/
structure Field (σ : Type) where
  key : String
  read : σ → Reader σ

/-- A field whose value is read by `read` and put into the record by `put`. -/
def Field.of {σ α : Type} (key : String) (read : Reader α) (put : σ → α → σ) : Field σ :=
  ⟨key, fun record s => do
    let (value, rest) ← read s
    return (put record value, rest)⟩

/-- What a record does with a key: it is a field that has not been there, or left to `other`. The
    state is the keys that have been there, and the record. -/
def recordStep {σ : Type} (fields : List (Field σ)) (other : String → σ → Reader σ)
    (state : List String × σ) (key : String) : Except Fault (Reader (List String × σ)) :=
  match fields.find? fun field => field.key = key with
  | none => .ok fun t => do
    let (record, rest) ← other key state.2 t
    return ((state.1, record), rest)
  | some field =>
    if state.1.contains key then .error .mistyped
    else .ok fun t => do
      let (record, rest) ← field.read state.2 t
      return ((key :: state.1, record), rest)

/-- Reads a record that is written as an object. `other` reads the values of keys that are not
    fields. -/
def readRecord {σ : Type} (fields : List (Field σ)) (other : String → σ → Reader σ) (start : σ) :
    Reader σ := fun s => do
  let ((_, record), rest) ← readObject (recordStep fields other) ([], start) s
  return (record, rest)

/-- Passes over the value of a key that is not a field. -/
def ignoreField {σ : Type} (_key : String) (record : σ) : Reader σ := fun s => do
  let ((), rest) ← skipValue s
  return (record, rest)

/-- Reads the rest of a record that is written as an array, after its first value or its opening
    bracket. -/
def readPositions {σ : Type} (first : Bool) : List (Field σ) → σ → Reader σ
  | [], record, s =>
    match h : skipSpace s with
    | [] => .error .truncated
    | c :: t =>
      if c = ']' then .ok (record, ⟨t, by
        have := length_skipSpace_le s; rw [h, List.length_cons] at this; omega⟩)
      else .error .syntactic
  | field :: fields, record, s =>
    match h : skipSpace s with
    | [] => .error .truncated
    | c :: t =>
      have hs : t.length < s.length := by
        have := length_skipSpace_le s; rw [h, List.length_cons] at this; omega
      -- the fields at the end are missing
      if c = ']' then .ok (record, ⟨t, hs⟩)
      else if !first && c ≠ ',' then .error .syntactic
      else
        let u := skipSpace (if first then c :: t else t)
        have hu : u.length ≤ s.length := by
          have h1 := length_skipSpace_le (if first then c :: t else t)
          have h2 : (if first then c :: t else t).length ≤ t.length + 1 := by split <;> simp
          exact Nat.le_trans h1 (Nat.le_trans h2 hs)
        match u with
        | [] => .error .truncated
        | d :: u' =>
          if d = ']' then .error .syntactic
          else do
            let (record', rest) ← field.read record (d :: u')
            let (final, rest') ← readPositions false fields record' rest.1
            return (final, rest'.widen (by omega))

/-- Reads a record that is written as an object or as an array. -/
def readEither {σ : Type} (fields : List (Field σ)) (start : σ) : Reader σ := fun s =>
  match s with
  | '[' :: t => do
    let (record, rest) ← readPositions true fields start t
    return (record, rest.cons)
  | s => readRecord fields ignoreField start s

end Stache.Json
