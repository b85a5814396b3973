/-
  The fields of generated code.

  The code of a specification is an object: a field for the function of each program, with the
  number of the program for a key and "main" for the root; one for each second function, where there
  is one; and what else is to be known of the template (`Specification.code_eq`).  No two fields
  have the same key (`Specification.nodup_keys`).
-/
import Mathlib.Data.List.Nodup
import Stache.Proofs.Script.Numbering

namespace Stache.Script

open Text (joined braces field)

/-! ## Fields -/

/-- The functions of the numbered programs. -/
def Specification.functionEntries (s : Specification) : List (String × String) :=
  (s.programs.zipIdx 1).map fun entry => (numeral entry.2, textOf (entry.1.write s.features))

/-- The second functions of programs. -/
def Specification.decoratorEntries (s : Specification) : List (String × String) :=
  ((s.main :: s.programs).zipIdx.filter fun entry => !entry.1.decorators.isEmpty).map
    fun entry => (decoratorKey entry.2, textOf (entry.1.writeDecorators s.features))

/-- The fields of the code, with their keys. -/
def Specification.entries (s : Specification) : List (String × String) :=
  s.functionEntries ++ ("compiler", "[8,\">= 4.3.0\"]")
    :: ("main", textOf (s.main.write s.features)) :: (s.decoratorEntries ++ s.flags.map (·, "true"))

/-! ## Code -/

theorem toList_textOf (chunks : List Chunk) :
    (textOf chunks).toList = chunks.flatMap fun chunk => chunk.text.toList := by
  induction chunks with
  | nil => rfl
  | cons chunk chunks ih => rw [textOf_cons, String.toList_append, ih, List.flatMap_cons]

theorem toList_field (name value : String) :
    (field name value).toList = '"' :: (name.toList ++ '"' :: ':' :: value.toList) := by
  simp [field]

theorem numbered_eq (programs : List Function) :
    numbered programs = (programs.zipIdx 1).map Prod.swap := by
  refine List.ext_getElem (by simp [numbered]) fun i hi hi' => ?_
  simp [numbered, Nat.add_comm]

theorem programKey_succ (n : Nat) : programKey (n + 1) = numeral (n + 1) := rfl

theorem programKey_of_mem {programs : List Function} {entry : Function × Nat}
    (h : entry ∈ programs.zipIdx 1) : programKey entry.2 = numeral entry.2 := by
  obtain ⟨n, hn⟩ := Nat.exists_eq_add_of_le (List.le_snd_of_mem_zipIdx h)
  rw [hn, Nat.add_comm, programKey_succ]

/-- The functions of the programs are fields with commas behind them. -/
theorem Specification.toList_functions (s : Specification) :
    (textOf ((numbered s.programs).flatMap fun (n, fn) =>
      .plain ("\"" ++ numeral n ++ "\":") :: fn.write s.features ++ [.plain ","])).toList
      = s.functionEntries.flatMap fun e => (field e.1 e.2).toList ++ ",".toList := by
  rw [toList_textOf, numbered_eq, functionEntries, List.flatMap_map, List.flatMap_map,
    List.flatMap_assoc]
  refine List.flatMap_congr fun entry _ => ?_
  simp [Chunk.plain, toList_field, toList_textOf]

/-- What is left out writes nothing. -/
theorem flatMap_filter {α β : Type} (p : α → Bool) (make : α → List β) (row : List α) :
    (row.filter p).flatMap make = row.flatMap fun a => if p a then make a else [] := by
  induction row with
  | nil => rfl
  | cons a row ih =>
    rw [List.flatMap_cons, ← ih, List.filter_cons]
    split <;> rfl

/-- A second function is a field behind a comma, if there is one, -/
theorem Function.toList_decoratedChunks (f : Features) (key : String) (fn : Function) :
    (textOf (fn.decoratedChunks f key)).toList
      = if !fn.decorators.isEmpty then
          ",".toList ++ (field key (textOf (fn.writeDecorators f))).toList
        else [] := by
  rw [decoratedChunks]
  cases fn.decorators.isEmpty with
  | true => rfl
  | false =>
    show (textOf (.plain (",\"" ++ key ++ "\":") :: fn.writeDecorators f)).toList
      = ",".toList ++ (field key (textOf (fn.writeDecorators f))).toList
    rw [textOf_cons, String.toList_append, toList_field]
    simp [Chunk.plain]

/-- and so are all of them. -/
theorem Specification.toList_decorators (s : Specification) :
    (textOf (s.main.decoratedChunks s.features "main_d")).toList
        ++ (textOf ((numbered s.programs).flatMap fun (n, fn) =>
          fn.decoratedChunks s.features (numeral n ++ "_d"))).toList
      = s.decoratorEntries.flatMap fun e => ",".toList ++ (field e.1 e.2).toList := by
  rw [decoratorEntries, List.flatMap_map, flatMap_filter, List.zipIdx_cons, List.flatMap_cons,
    Function.toList_decoratedChunks]
  refine (List.append_right_inj _).2 ?_
  rw [toList_textOf, numbered_eq, List.flatMap_map, List.flatMap_assoc]
  refine List.flatMap_congr fun entry hentry => ?_
  rw [decoratorKey, programKey_of_mem hentry, ← Function.toList_decoratedChunks, toList_textOf]
  rfl

theorem toList_flags (flags : List String) :
    (textOf (flags.map fun flag => .plain (",\"" ++ flag ++ "\":true"))).toList
      = (flags.map (·, "true")).flatMap fun e => ",".toList ++ (field e.1 e.2).toList := by
  rw [toList_textOf, List.flatMap_map, List.flatMap_map]
  refine List.flatMap_congr fun flag _ => ?_
  simp [Chunk.plain, toList_field]

/-- **The code is an object** of these fields. -/
theorem Specification.code_eq (s : Specification) :
    s.code = braces (s.entries.map fun e => field e.1 e.2) := by
  have hchunks : s.chunks = [.plain "\x7b"]
      ++ ((numbered s.programs).flatMap fun (n, fn) =>
        .plain ("\"" ++ numeral n ++ "\":") :: fn.write s.features ++ [.plain ","])
      ++ [.plain "\"compiler\":[8,\">= 4.3.0\"],\"main\":"] ++ s.main.write s.features
      ++ (s.main.decoratedChunks s.features "main_d" ++ (numbered s.programs).flatMap fun (n, fn) =>
        fn.decoratedChunks s.features (numeral n ++ "_d"))
      ++ (s.flags.map fun flag => .plain (",\"" ++ flag ++ "\":true"))
      ++ [.plain "\x7d"] := by
    simp only [chunks, List.append_assoc]
    rfl
  refine String.toList_inj.1 ?_
  rw [code, hchunks]
  simp only [textOf_append, String.toList_append, toList_functions, toList_decorators, toList_flags]
  rw [entries, braces, List.map_append, List.map_cons, String.toList_append, String.toList_append,
    Text.toList_joined_append]
  simp only [List.map_cons, List.map_append, List.flatMap_map, List.flatMap_cons,
    List.flatMap_append]
  simp [textOf, Chunk.plain, toList_field]

/-! ## Keys -/

/-- The keys of the code, in order. -/
def Specification.keys (s : Specification) : List String := s.entries.map Prod.fst

/-- They are the numbers, the two words, the keys of second functions and the flags. -/
theorem Specification.keys_eq (s : Specification) :
    s.keys = (List.range' 1 s.programs.length).map numeral ++ ["compiler", "main"]
      ++ ((s.main :: s.programs).zipIdx.filter fun entry => !entry.1.decorators.isEmpty).map
        (decoratorKey ·.2)
      ++ s.flags := by
  have hnumbers : s.functionEntries.map Prod.fst
      = (List.range' 1 s.programs.length).map numeral := by
    rw [functionEntries, List.map_map, ← List.zipIdx_map_snd 1 s.programs, List.map_map]
    rfl
  have hdecorators : s.decoratorEntries.map Prod.fst
      = ((s.main :: s.programs).zipIdx.filter fun entry => !entry.1.decorators.isEmpty).map
        (decoratorKey ·.2) := by
    rw [decoratorEntries, List.map_map]
    rfl
  have hflags : (s.flags.map (·, "true")).map Prod.fst = s.flags := by
    rw [List.map_map]
    exact List.map_id _
  rw [keys, entries, List.map_append, List.map_cons, List.map_cons, List.map_append, hnumbers,
    hdecorators, hflags]
  simp only [List.append_assoc, List.cons_append, List.nil_append]

/-- Numbers are told apart by their digits, -/
theorem numeral_inj {m n : Nat} (h : numeral m = numeral n) : m = n := by
  have hdigits := congrArg (fun s => Nat.ofDigitChars 10 s.toList 0) h
  simpa [toList_numeral, Nat.ofDigitChars_toDigits] using hdigits

/-- A number has digits only. -/
theorem ne_numeral {s : String} {c : Char} (hc : c ∈ s.toList) (h : c.isDigit = false) (n : Nat) :
    s ≠ numeral n := by
  rintro rfl
  rw [isDigit_of_mem_numeral hc] at h
  cases h

/-- so programs are told apart by their keys, -/
theorem programKey_injective : Function.Injective programKey := by
  have hmain (n : Nat) : "main" ≠ numeral n := ne_numeral (c := 'm') (by decide) rfl n
  intro m n h
  match m, n with
  | 0, 0 => rfl
  | 0, n + 1 => exact absurd h (hmain _)
  | m + 1, 0 => exact absurd h.symm (hmain _)
  | m + 1, n + 1 => exact numeral_inj h

/-- and second functions are. -/
theorem decoratorKey_injective : Function.Injective decoratorKey := by
  intro m n h
  have hkeys := congrArg String.toList h
  rw [decoratorKey, decoratorKey, String.toList_append, String.toList_append] at hkeys
  exact programKey_injective (String.toList_inj.1 (List.append_cancel_right hkeys))

theorem mem_decoratorKey (n : Nat) : '_' ∈ (decoratorKey n).toList := by
  simp [decoratorKey]

/-- The keys that are neither numbers nor those of second functions. -/
def words : List String :=
  ["compiler", "main", "useDecorators", "usePartial", "useData", "useDepths", "useBlockParams"]

/-- Words come in their order, if at all, -/
theorem Specification.flags_sublist (s : Specification) :
    (["compiler", "main"] ++ s.flags).Sublist words := by
  have hset (row : List (String × Bool)) :
      (row.filterMap fun flag => if flag.2 then some flag.1 else none).Sublist
        (row.map Prod.fst) := by
    induction row with
    | nil => exact .slnil
    | cons flag row ih =>
      rw [List.filterMap_cons, List.map_cons]
      split
      · exact ih.cons _
      · rename_i hflag
        split at hflag
        · cases hflag
          exact ih.cons_cons _
        · cases hflag
  exact (hset _).append_left ["compiler", "main"]

/-- have no underscore in them, and are no numbers. -/
theorem mem_words (s : Specification) {word : String} (h : word ∈ ["compiler", "main"] ++ s.flags) :
    '_' ∉ word.toList ∧ ∃ c ∈ word.toList, c.isDigit = false := by
  have hall : ∀ word ∈ words, word.toList.all (· ≠ '_') = true
      ∧ word.toList.any (!·.isDigit) = true := by
    decide
  obtain ⟨hnone, hsome⟩ := hall word (s.flags_sublist.subset h)
  obtain ⟨c, hc, hdigit⟩ := List.any_eq_true.1 hsome
  refine ⟨fun hmem => ?_, c, hc, by simpa using hdigit⟩
  exact absurd (List.all_eq_true.1 hnone _ hmem) (by decide)

/-- **Each key is there once.** -/
theorem Specification.nodup_keys (s : Specification) : s.keys.Nodup := by
  have hnumbers : ((List.range' 1 s.programs.length).map numeral).Nodup :=
    List.Nodup.map (fun _ _ h => numeral_inj h) List.nodup_range'
  have hdecorators : (((s.main :: s.programs).zipIdx.filter fun entry =>
      !entry.1.decorators.isEmpty).map (decoratorKey ·.2)).Nodup := by
    have hindices : ((s.main :: s.programs).zipIdx.map Prod.snd).Nodup := by
      rw [List.zipIdx_map_snd]
      exact List.nodup_range'
    have hfiltered := hindices.sublist ((List.filter_sublist
      (p := fun entry => !entry.1.decorators.isEmpty)).map Prod.snd)
    have hkeys := hfiltered.map decoratorKey_injective
    rwa [List.map_map] at hkeys
  have hwords : (["compiler", "main"] ++ s.flags).Nodup :=
    List.Nodup.sublist s.flags_sublist (by decide)
  -- The numbers have digits only, and among the others it is the second functions whose keys have
  -- an underscore.
  have hothers := List.nodup_append.2 ⟨hdecorators, hwords, fun key hkey word hword heq => by
    obtain ⟨entry, -, rfl⟩ := List.mem_map.1 hkey
    exact (mem_words s hword).1 (heq ▸ mem_decoratorKey entry.2)⟩
  have hall := List.nodup_append.2 ⟨hnumbers, hothers, fun key hkey other hother heq => by
    obtain ⟨n, -, rfl⟩ := List.mem_map.1 hkey
    obtain hother | hother := List.mem_append.1 hother
    · obtain ⟨entry, -, rfl⟩ := List.mem_map.1 hother
      exact ne_numeral (mem_decoratorKey entry.2) rfl n heq.symm
    · obtain ⟨-, c, hc, hdigit⟩ := mem_words s hother
      exact ne_numeral hc hdigit n heq.symm⟩
  rw [keys_eq, List.append_assoc, List.append_assoc, ← List.append_assoc ["compiler", "main"]]
  refine (List.Perm.nodup_iff ?_).2 hall
  rw [← List.append_assoc (List.map _ _) ["compiler", "main"]]
  exact (List.perm_append_comm.append_right _).append_left _

end Stache.Script
