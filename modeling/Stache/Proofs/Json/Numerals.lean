/-
  The numbers of a text, and what is read from a text whose numbers are integers.

  The NUMERALS of a text are its numbers as they are written: outside of quoted texts, each longest
  row of characters that begins like a number and goes on like one (`numerals`).  A text is INTEGRAL
  when each of its numerals is that of an integer of at most 64 bits.

  From an integral text, a reader makes only values that are writable, and what it leaves is an
  integral text again (`Keeps`).  Every reader is followed once, in the order in which they are
  built on each other; for objects there is an invariant of the state, which each field keeps.
-/
import Stache.Proofs.Json.Values
import Stache.Proofs.Runs

namespace Stache.Json

/-! ## Numerals -/

/-- The numerals of the text `s`, which may begin inside of a quoted text. -/
def numeralsFrom (quoted : Bool) (s : List Char) : List (List Char) :=
  match quoted, s with
  | _, [] => []
  | true, ['\\'] => []
  | true, '\\' :: _ :: t => numeralsFrom true t
  | true, c :: t => numeralsFrom (c ≠ '"') t
  | false, c :: t =>
    if c = '"' then numeralsFrom true t
    else if startsNumber c then
      (c :: t.takeWhile isNumberChar) :: numeralsFrom false (t.dropWhile isNumberChar)
    else numeralsFrom false t
termination_by s.length
decreasing_by
  all_goals
    have hlength := (List.dropWhile_suffix isNumberChar (l := t)).length_le
    simp only [List.length_cons]
    omega

/-- The numbers of a text, as they are written. -/
def numerals (text : String) : List (List Char) := numeralsFrom false text.toList

/-- The numeral of an integer that has no more than 64 bits. -/
def IsInteger (numeral : List Char) : Prop := ∃ k : Int, Fits k ∧ numeral = (toString k).toList

/-- All numbers in what is left of a text are integers. -/
def Integral (s : List Char) : Prop := ∀ numeral ∈ numeralsFrom false s, IsInteger numeral

section Passing

variable {c : Char} {t : List Char}

theorem numeralsFrom_quote : numeralsFrom false ('"' :: t) = numeralsFrom true t := by
  rw [numeralsFrom, if_pos rfl]

theorem numeralsFrom_close : numeralsFrom true ('"' :: t) = numeralsFrom false t := by
  rw [numeralsFrom]
  · rfl
  · simp
  · simp

theorem numeralsFrom_escape (d : Char) :
    numeralsFrom true ('\\' :: d :: t) = numeralsFrom true t := by
  rw [numeralsFrom]

/-- A character that stands for itself in a quoted text. -/
theorem numeralsFrom_inside (hquote : c ≠ '"') (hslash : c ≠ '\\') :
    numeralsFrom true (c :: t) = numeralsFrom true t := by
  rw [numeralsFrom]
  · rw [decide_eq_true hquote]
  · exact fun hc _ => hslash hc
  · exact fun _ _ hc _ => hslash hc

/-- A character outside of quoted texts with which no number begins. -/
theorem numeralsFrom_between (hquote : c ≠ '"') (hnumber : startsNumber c = false) :
    numeralsFrom false (c :: t) = numeralsFrom false t := by
  rw [numeralsFrom, if_neg hquote, hnumber]
  simp

/-- A character that begins no number may be dropped, -/
theorem Integral.tail (h : Integral (c :: t)) (hquote : c ≠ '"') (hnumber : startsNumber c = false) :
    Integral t := by
  intro numeral hnumeral
  refine h numeral ?_
  rwa [numeralsFrom_between hquote hnumber]

/-- and so may blanks. -/
theorem Integral.skipSpace {s : List Char} (h : Integral s) : Integral (skipSpace s) := by
  induction s with
  | nil => exact h
  | cons c s ih =>
    rw [Json.skipSpace, List.dropWhile_cons]
    split
    · rename_i hspace
      refine ih (h.tail ?_ ?_)
      · rintro rfl
        exact absurd hspace (by decide)
      · simp only [isSpace, Bool.or_eq_true, decide_eq_true_eq] at hspace
        rcases hspace with ((rfl | rfl) | rfl) | rfl <;> decide
    · exact h

end Passing

/-! ## Quoted texts -/

/-- The character is neither of the two that change how a quoted text goes on. -/
theorem ne_of_hexValue {c : Char} {n : Nat} (h : hexValue c = some n) : c ≠ '"' ∧ c ≠ '\\' := by
  constructor
  · rintro rfl
    cases h
  · rintro rfl
    cases h

/-- A unit of four digits does not leave the quoted text, -/
theorem numeralsFrom_readUnit {s : List Char} {n : Nat} {rest : Shorter s}
    (h : readUnit s = .ok (n, rest)) : numeralsFrom true s = numeralsFrom true rest.1 := by
  unfold readUnit at h
  split at h
  · split at h
    · rename_i ha hb hc hd
      cases h
      obtain ⟨ha₁, ha₂⟩ := ne_of_hexValue ha
      obtain ⟨hb₁, hb₂⟩ := ne_of_hexValue hb
      obtain ⟨hc₁, hc₂⟩ := ne_of_hexValue hc
      obtain ⟨hd₁, hd₂⟩ := ne_of_hexValue hd
      rw [numeralsFrom_inside ha₁ ha₂, numeralsFrom_inside hb₁ hb₂, numeralsFrom_inside hc₁ hc₂,
        numeralsFrom_inside hd₁ hd₂]
    · cases h
  · cases h

/-- nor does an escape of one or two units. -/
theorem numeralsFrom_readCode {s : List Char} {c : Char} {rest : Shorter s}
    (h : readCode .keep s = .ok (c, rest)) : numeralsFrom true s = numeralsFrom true rest.1 := by
  rw [readCode] at h
  obtain ⟨⟨lead, rest₁⟩, hlead, h⟩ := exists_of_bind_ok h
  rw [numeralsFrom_readUnit hlead]
  simp only [reduceCtorEq, if_false] at h
  split at h
  · cases h
  · split at h
    · cases h
      rfl
    · split at h
      · cases h
      · cases h
      · obtain ⟨⟨trail, rest₂⟩, htrail, h⟩ := exists_of_bind_ok h
        split at h
        · simp only [pure, Except.pure, Except.ok.injEq, Prod.mk.injEq] at h
          rw [numeralsFrom_escape, numeralsFrom_readUnit htrail, ← h.2]
          rfl
        · cases h
      · cases h

/-- What stands behind a quoted text has the numerals of the whole. -/
theorem numeralsFrom_readText {s text : List Char} {rest : Shorter s}
    (h : readText .keep s = .ok (text, rest)) : numeralsFrom true s = numeralsFrom false rest.1 := by
  fun_induction readText .keep s generalizing text with
  | case1 => cases h
  | case2 => cases h
  | case3 t ih =>
    obtain ⟨⟨c, rest₁⟩, hcode, h⟩ := exists_of_bind_ok h
    obtain ⟨⟨more, rest₂⟩, hmore, h⟩ := exists_of_bind_ok h
    cases h
    rw [numeralsFrom_escape, numeralsFrom_readCode hcode, ih rest₁ hmore]
    rfl
  | case4 => cases h
  | case5 d t _ c hd ih =>
    obtain ⟨⟨more, rest₁⟩, hmore, h⟩ := exists_of_bind_ok h
    cases h
    rw [numeralsFrom_escape, ih hmore]
    rfl
  | case6 t =>
    cases h
    rw [numeralsFrom_close]
  | case7 => cases h
  | case8 c t hone _ htwo hquote hcontrol ih =>
    obtain ⟨⟨more, rest₁⟩, hmore, h⟩ := exists_of_bind_ok h
    cases h
    -- A backslash would have been read by another clause.
    have hslash : c ≠ '\\' := by
      rintro rfl
      match t, hone, htwo with
      | [], hone, _ => exact hone rfl rfl
      | d :: t, _, htwo => exact htwo d t rfl rfl
    rw [numeralsFrom_inside hquote hslash, ih hmore]
    rfl

/-! ## Readers -/

/-- From an integral text, the reader makes only values with the property `P`, and leaves an
    integral text. -/
def Keeps {α : Type} (read : Reader α) (P : α → Prop) : Prop :=
  ∀ ⦃s : List Char⦄ ⦃value : α⦄ ⦃rest : Shorter s⦄, Integral s → read s = .ok (value, rest) →
    P value ∧ Integral rest.1

section Readers

variable {α β σ : Type} {P : α → Prop} {I : σ → Prop}

theorem Keeps.spaced {read : Reader α} (h : Keeps read P) : Keeps (Json.spaced read) P := by
  intro s value rest hs hread
  obtain ⟨⟨v, rest₁⟩, hvalue, hread⟩ := exists_of_bind_ok hread
  cases hread
  have hkept := h hs.skipSpace hvalue
  exact hkept

/-- What is of the wrong type gives no result. -/
theorem not_mistyped {s : List Char} {result : α} : mistyped s ≠ .ok result := by
  intro h
  unfold mistyped at h
  split at h
  · cases h
  · cases h
  · split at h <;> cases h

/-- Texts keep a text integral, -/
theorem keeps_readString : Keeps readString fun _ => True := by
  intro s value rest hs h
  unfold readString at h
  split at h
  · obtain ⟨⟨text, rest₁⟩, htext, h⟩ := exists_of_bind_ok h
    cases h
    refine ⟨trivial, ?_⟩
    rw [Integral, numeralsFrom_quote, numeralsFrom_readText htext] at hs
    exact hs
  · exact absurd h not_mistyped

/-- A number is read as the integer that it is the numeral of. -/
theorem keeps_readNumber {c : Char} {t : List Char} {value : Json} {rest : Shorter (c :: t)}
    (hs : Integral (c :: t)) (hc : startsNumber c = true)
    (h : readNumber .keep (c :: t) = .ok (value, rest)) :
    (∃ k, Fits k ∧ value = .integer k) ∧ Integral rest.1 := by
  have hquote : c ≠ '"' := by
    rintro rfl
    exact absurd hc (by decide)
  rw [Integral, numeralsFrom, if_neg hquote, if_pos hc, List.forall_mem_cons] at hs
  obtain ⟨⟨k, hk, hnumeral⟩, hrest⟩ := hs
  -- the number ends where no character of numbers stands
  have hends : EndsNumber (t.dropWhile isNumberChar) := by
    intro d u hd
    have := List.head?_dropWhile_not isNumberChar t
    rw [hd] at this
    simpa using this
  have hsplit : c :: t = (toString k).toList ++ t.dropWhile isNumberChar := by
    rw [← hnumeral, List.cons_append, List.takeWhile_append_dropWhile]
  have hyields : Yields (readNumber .keep) (c :: t) (.integer k) (t.dropWhile isNumberChar) := by
    rw [hsplit]
    exact yields_integer hk hends
  obtain ⟨hshort, hread⟩ := hyields
  rw [hread] at h
  cases h
  exact ⟨⟨k, hk, rfl⟩, hrest⟩

/-- so do natural numbers, -/
theorem keeps_readNat (bound : Nat) : Keeps (readNat bound) fun n => n < bound := by
  intro s value rest hs h
  unfold readNat at h
  split at h
  · split at h
    · rename_i c t hc
      obtain ⟨⟨v, rest₁⟩, hnumber, h⟩ := exists_of_bind_ok h
      obtain ⟨-, hrest⟩ := keeps_readNumber hs hc hnumber
      dsimp only at h
      split at h
      · split at h
        · rename_i hbound
          cases h
          exact ⟨hbound, hrest⟩
        · cases h
      · cases h
    · exact absurd h not_mistyped
  · exact absurd h not_mistyped

/-- The character begins no number and no quoted text. -/
def isLetter (c : Char) : Bool := c ≠ '"' && !startsNumber c

/-- and words of letters. -/
theorem keeps_readWord {word : List Char} (hword : word.all isLetter = true) :
    Keeps (readWord word) fun _ => True := by
  intro s value rest hs h
  fun_induction readWord word s with
  | case1 => cases h
  | case2 c t =>
    cases h
    simp only [List.all_cons, List.all_nil, isLetter, Bool.and_eq_true, decide_eq_true_eq,
      Bool.not_eq_true'] at hword
    exact ⟨trivial, hs.tail hword.1.1 hword.1.2⟩
  | case3 => cases h
  | case4 c word t _ ih =>
    rw [List.all_cons, Bool.and_eq_true] at hword
    obtain ⟨hfirst, hmore⟩ := hword
    simp only [isLetter, Bool.and_eq_true, decide_eq_true_eq, Bool.not_eq_true'] at hfirst
    obtain ⟨⟨v, rest₁⟩, hrest, h⟩ := exists_of_bind_ok h
    cases h
    exact ih hmore (hs.tail hfirst.1 hfirst.2) hrest
  | case5 => cases h
  | case6 => cases h

/-- A value may be missing. -/
theorem Keeps.readOption {read : Reader α} (h : Keeps read P) :
    Keeps (Json.readOption read) fun value => ∀ v, value = some v → P v := by
  intro s value rest hs hread
  unfold Json.readOption at hread
  split at hread
  · obtain ⟨⟨v, rest₁⟩, hword, hread⟩ := exists_of_bind_ok hread
    cases hread
    have hull : Keeps (readWord "ull".toList) fun _ => True := keeps_readWord (by decide)
    have hkept := hull (hs.tail (by decide) (by decide)) hword
    exact ⟨nofun, hkept.2⟩
  · obtain ⟨⟨v, rest₁⟩, hvalue, hread⟩ := exists_of_bind_ok hread
    cases hread
    obtain ⟨hv, hrest⟩ := h hs hvalue
    refine ⟨?_, hrest⟩
    rintro _ ⟨⟩
    exact hv

/-! ## Frames -/

/-- An array goes on with its closing bracket, or with an element after what stands before it. -/
theorem moreElements_inv {read : Reader α} {first : Bool} {s : List Char} {values : List α}
    {rest : Shorter s} (h : moreElements read first s = .ok (values, rest)) :
    (skipSpace s = ']' :: rest.1 ∧ values = []) ∨
    ∃ c t d u value more, ∃ (rest₁ : Shorter (d :: u)) (rest₂ : Shorter rest₁.1),
      skipSpace s = c :: t ∧ (first = true ∨ c = ',')
        ∧ skipSpace (if first then c :: t else t) = d :: u ∧ read (d :: u) = .ok (value, rest₁)
        ∧ moreElements read false rest₁.1 = .ok (more, rest₂) ∧ values = value :: more
        ∧ rest.1 = rest₂.1 := by
  unfold moreElements at h
  split at h
  · cases h
  · rename_i c t hfirst
    dsimp only at h
    split at h
    · rename_i hclose
      cases h
      exact .inl ⟨hclose ▸ hfirst, rfl⟩
    · split at h
      · cases h
      · rename_i hcomma
        split at h
        · cases h
        · rename_i d u _ hu _
          split at h
          · cases h
          · obtain ⟨⟨value, rest₁⟩, hvalue, h⟩ := exists_of_bind_ok h
            obtain ⟨⟨more, rest₂⟩, hmore, h⟩ := exists_of_bind_ok h
            cases h
            refine .inr ⟨c, t, d, u, value, more, rest₁, rest₂, hfirst, ?_, hu, hvalue, hmore, rfl,
              rfl⟩
            -- no comma stands before the first
            cases first with
            | true => exact .inl rfl
            | false => exact .inr (by simpa using hcomma)

/-- An object goes on with its closing brace, or with a field after what stands before it. -/
theorem moreFields_inv {read : σ → String → Except Fault (Reader σ)} {first : Bool} {state : σ}
    {s : List Char} {final : σ} {rest : Shorter s}
    (h : moreFields .keep read first state s = .ok (final, rest)) :
    (skipSpace s = '}' :: rest.1 ∧ final = state) ∨
    ∃ c t key value next, ∃ (rest₁ : Shorter (skipSpace (if first then c :: t else t)))
        (rest₂ : Shorter rest₁.1) (rest₃ : Shorter rest₂.1),
      skipSpace s = c :: t ∧ (first = true ∨ c = ',')
        ∧ readKey .keep (skipSpace (if first then c :: t else t)) = .ok (key, rest₁)
        ∧ read state key = .ok value ∧ afterColon value rest₁.1 = .ok (next, rest₂)
        ∧ moreFields .keep read false next rest₂.1 = .ok (final, rest₃) ∧ rest.1 = rest₃.1 := by
  unfold moreFields at h
  split at h
  · cases h
  · rename_i c t hfirst
    dsimp only at h
    split at h
    · rename_i hclose
      cases h
      exact .inl ⟨hclose ▸ hfirst, rfl⟩
    · split at h
      · cases h
      · rename_i hcomma
        obtain ⟨⟨key, rest₁⟩, hkey, h⟩ := exists_of_bind_ok h
        obtain ⟨value, hvalue, h⟩ := exists_of_bind_ok h
        obtain ⟨⟨next, rest₂⟩, hnext, h⟩ := exists_of_bind_ok h
        obtain ⟨⟨more, rest₃⟩, hmore, h⟩ := exists_of_bind_ok h
        cases h
        refine .inr ⟨c, t, key, value, next, rest₁, rest₂, rest₃, hfirst, ?_, hkey, hvalue, hnext,
          hmore, rfl⟩
        -- no comma stands before the first
        cases first with
        | true => exact .inl rfl
        | false => exact .inr (by simpa using hcomma)

/-- What is left behind blanks, a comma if it is due, and more blanks. -/
theorem Integral.behindComma {s t : List Char} {c : Char} {first : Bool} (hs : Integral s)
    (hfirst : Json.skipSpace s = c :: t) (hcomma : first = true ∨ c = ',') :
    Integral (Json.skipSpace (if first then c :: t else t)) := by
  have hct : Integral (c :: t) := hfirst ▸ hs.skipSpace
  cases first with
  | true => exact hct.skipSpace
  | false =>
    obtain rfl : c = ',' := hcomma.resolve_left (by decide)
    exact (hct.tail (by decide) (by decide)).skipSpace

/-- The elements of an array, -/
theorem Keeps.moreElements {read : Reader α} (h : Keeps read P) (first : Bool) :
    Keeps (Json.moreElements read first) fun values => ∀ v ∈ values, P v := by
  intro s values rest hs hread
  obtain ⟨n, hn⟩ : ∃ n, s.length = n := ⟨_, rfl⟩
  induction n using Nat.strongRecOn generalizing first s values with
  | ind n ih =>
    rcases moreElements_inv hread with ⟨hclose, rfl⟩ | ⟨c, t, d, u, value, more, rest₁, rest₂,
      hfirst, hcomma, hu, hvalue, hmore, rfl, hrest⟩
    · have hct : Integral (']' :: rest.1) := hclose ▸ hs.skipSpace
      exact ⟨List.forall_mem_nil _, hct.tail (by decide) (by decide)⟩
    · have hdu : Integral (d :: u) := hu ▸ hs.behindComma hfirst hcomma
      obtain ⟨hv, hint⟩ := h hdu hvalue
      have hlength := length_skipSpace_ite_le first hfirst
      rw [hu] at hlength
      have hshort := rest₁.2
      obtain ⟨hvs, hint'⟩ := ih rest₁.1.length (by omega) false hint hmore rfl
      rw [hrest]
      exact ⟨List.forall_mem_cons.2 ⟨hv, hvs⟩, hint'⟩

/-- in their brackets. -/
theorem Keeps.readList {read : Reader α} (h : Keeps read P) :
    Keeps (Json.readList read) fun values => ∀ v ∈ values, P v := by
  intro s values rest hs hread
  unfold Json.readList at hread
  split at hread
  · obtain ⟨⟨items, rest₁⟩, hitems, hread⟩ := exists_of_bind_ok hread
    cases hread
    have hkept := h.moreElements true (hs.tail (by decide) (by decide)) hitems
    exact hkept
  · exact absurd hread not_mistyped

/-- The key of a field, -/
theorem keeps_readKey : Keeps (readKey .keep) fun _ => True := by
  intro s key rest hs h
  unfold readKey at h
  split at h
  · cases h
  · split at h
    · subst_vars
      obtain ⟨⟨text, rest₁⟩, htext, h⟩ := exists_of_bind_ok h
      cases h
      refine ⟨trivial, ?_⟩
      rw [Integral, numeralsFrom_quote, numeralsFrom_readText htext] at hs
      exact hs
    · cases h

/-- and its value behind a colon. -/
theorem Keeps.afterColon {read : Reader α} (h : Keeps read P) : Keeps (Json.afterColon read) P := by
  refine Keeps.spaced ?_
  intro s value rest hs hread
  dsimp only at hread
  split at hread
  · cases hread
  · split at hread
    · subst_vars
      obtain ⟨⟨v, rest₁⟩, hvalue, hread⟩ := exists_of_bind_ok hread
      cases hread
      have hkept := h.spaced (hs.tail (by decide) (by decide)) hvalue
      exact hkept
    · cases hread

/-- The state keeps `I` if every field keeps it. -/
def StepKeeps (read : σ → String → Except Fault (Reader σ)) (I : σ → Prop) : Prop :=
  ∀ ⦃state : σ⦄ ⦃key : String⦄ ⦃value : Reader σ⦄, I state → read state key = .ok value →
    Keeps value I

/-- The fields of an object keep the invariant one after another, -/
theorem StepKeeps.moreFields {read : σ → String → Except Fault (Reader σ)} (h : StepKeeps read I)
    (first : Bool) {state : σ} (hstate : I state) :
    Keeps (Json.moreFields .keep read first state) I := by
  intro s final rest hs hread
  obtain ⟨n, hn⟩ : ∃ n, s.length = n := ⟨_, rfl⟩
  -- the induction is on the text that is left, for any state that has the invariant
  induction n using Nat.strongRecOn generalizing first state s final with
  | ind n ih =>
    rcases moreFields_inv hread with ⟨hclose, rfl⟩ | ⟨c, t, key, value, next, rest₁, rest₂, rest₃,
      hfirst, hcomma, hkey, hvalue, hnext, hmore, hrest⟩
    · have hct : Integral ('}' :: rest.1) := hclose ▸ hs.skipSpace
      exact ⟨hstate, hct.tail (by decide) (by decide)⟩
    · have hint := hs.behindComma hfirst hcomma
      obtain ⟨-, hint⟩ := keeps_readKey hint hkey
      obtain ⟨hI, hint⟩ := (h hstate hvalue).afterColon hint hnext
      have hlength := length_skipSpace_ite_le first hfirst
      have hshort := rest₁.2
      have hshort' := rest₂.2
      obtain ⟨hfinal, hint⟩ := ih rest₂.1.length (by omega) false hI hint hmore rfl
      rw [hrest]
      exact ⟨hfinal, hint⟩

/-- from the state at the start to the one at the end. -/
theorem StepKeeps.readObject {read : σ → String → Except Fault (Reader σ)} (h : StepKeeps read I)
    {start : σ} (hstart : I start) : Keeps (Json.readObject read start) I := by
  intro s final rest hs hread
  unfold Json.readObject at hread
  split at hread
  · obtain ⟨⟨state, rest₁⟩, hfields, hread⟩ := exists_of_bind_ok hread
    cases hread
    have hkept := h.moreFields true hstart (hs.tail (by decide) (by decide)) hfields
    exact hkept
  · exact absurd hread not_mistyped

/-- A value that is turned into another one. -/
theorem Keeps.map {read : Reader α} (h : Keeps read P) {f : α → β} {Q : β → Prop}
    (hf : ∀ v, P v → Q (f v)) :
    Keeps (fun s => do let (v, rest) ← read s; return (f v, rest)) Q := by
  intro s value rest hs hread
  obtain ⟨⟨v, rest₁⟩, hvalue, hread⟩ := exists_of_bind_ok hread
  cases hread
  obtain ⟨hv, hint⟩ := h hs hvalue
  exact ⟨hf v hv, hint⟩

end Readers

/-! ## Values -/

/-- What is in an object after a field is put is this field, or was there before. -/
theorem mem_insert {fields : List (String × α)} {key : String} {value : α} {f : String × α}
    (h : f ∈ insert key value fields) : f = (key, value) ∨ f ∈ fields := by
  induction fields with
  | nil => exact .inl (List.mem_singleton.1 h)
  | cons g fields ih =>
    rw [insert] at h
    split at h
    · exact List.mem_cons.1 h
    · split at h
      · rcases List.mem_cons.1 h with hf | hf
        · exact .inl hf
        · exact .inr (List.mem_cons_of_mem _ hf)
      · rcases List.mem_cons.1 h with hf | hf
        · exact .inr (hf ▸ List.mem_cons_self ..)
        · exact (ih hf).imp_right (List.mem_cons_of_mem _)

/-- A field is added at its place. -/
theorem Ascending.insert {fields : List (String × α)} (h : Ascending fields) (key : String)
    (value : α) : Ascending (Json.insert key value fields) := by
  induction fields with
  | nil => exact List.pairwise_singleton ..
  | cons g fields ih =>
    obtain ⟨hg, hfields⟩ := List.pairwise_cons.1 h
    rw [Json.insert]
    -- before the first key, in its place, or behind it
    split
    · rename_i hlt
      refine List.pairwise_cons.2 ⟨List.forall_mem_cons.2 ⟨hlt, ?_⟩, h⟩
      intro f hf
      exact String.lt_trans hlt (hg f hf)
    · split
      · rename_i heq
        refine List.pairwise_cons.2 ⟨?_, hfields⟩
        intro f hf
        exact heq ▸ hg f hf
      · rename_i hlt hne
        refine List.pairwise_cons.2 ⟨?_, ih hfields⟩
        intro f hf
        rcases mem_insert hf with rfl | hf
        · exact Std.lt_of_le_of_ne (Std.not_lt.1 hlt) (Ne.symm hne)
        · exact hg f hf

/-- Fields in order, with writable values. -/
def WritableFields (depth : Nat) (fields : Fields) : Prop :=
  Ascending fields ∧ ∀ f ∈ fields, Writable depth f.2

/-- An object without fields is writable, -/
theorem WritableFields.nil (depth : Nat) : WritableFields depth [] :=
  ⟨List.Pairwise.nil, List.forall_mem_nil _⟩

/-- and stays so with one more. -/
theorem WritableFields.insert {depth : Nat} {fields : Fields} (h : WritableFields depth fields)
    (key : String) {value : Json} (hvalue : Writable depth value) :
    WritableFields depth (Json.insert key value fields) := by
  refine ⟨h.1.insert key value, ?_⟩
  intro f hf
  rcases mem_insert hf with rfl | hf
  · exact hvalue
  · exact h.2 f hf

/-- One level of values, if the levels below are read well. -/
theorem keeps_readValue_of {depth : Nat}
    (hbelow : ∀ d, depth = d + 1 → Keeps (readValue .keep d) (Writable d)) :
    Keeps (readValue .keep depth) (Writable depth) := by
  intro s value rest hs h
  rw [readValue.eq_def] at h
  cases s with
  | nil => cases h
  | cons c t =>
    dsimp only at h
    -- by the first character: a word, a number, a string, an array or an object
    split at h
    · subst_vars
      have hword : Keeps (readWord "ull".toList) fun _ => True := keeps_readWord (by decide)
      obtain ⟨⟨_, rest₁⟩, hread, h⟩ := exists_of_bind_ok h
      cases h
      exact ⟨.null depth, (hword (hs.tail (by decide) (by decide)) hread).2⟩
    split at h
    · subst_vars
      have hword : Keeps (readWord "rue".toList) fun _ => True := keeps_readWord (by decide)
      obtain ⟨⟨_, rest₁⟩, hread, h⟩ := exists_of_bind_ok h
      cases h
      exact ⟨.bool depth true, (hword (hs.tail (by decide) (by decide)) hread).2⟩
    split at h
    · subst_vars
      have hword : Keeps (readWord "alse".toList) fun _ => True := keeps_readWord (by decide)
      obtain ⟨⟨_, rest₁⟩, hread, h⟩ := exists_of_bind_ok h
      cases h
      exact ⟨.bool depth false, (hword (hs.tail (by decide) (by decide)) hread).2⟩
    split at h
    · rename_i hc
      obtain ⟨⟨k, hk, rfl⟩, hint⟩ := keeps_readNumber hs hc h
      exact ⟨.integer depth hk, hint⟩
    split at h
    · subst_vars
      obtain ⟨⟨text, rest₁⟩, htext, h⟩ := exists_of_bind_ok h
      cases h
      refine ⟨.string depth _, ?_⟩
      rw [Integral, numeralsFrom_quote, numeralsFrom_readText htext] at hs
      exact hs
    split at h
    · subst_vars
      cases depth with
      | zero => cases h
      | succ d =>
        obtain ⟨⟨items, rest₁⟩, hitems, h⟩ := exists_of_bind_ok h
        cases h
        obtain ⟨hvalues, hint⟩ := (hbelow d rfl).moreElements true
          (hs.tail (by decide) (by decide)) hitems
        exact ⟨.array hvalues, hint⟩
    split at h
    · subst_vars
      cases depth with
      | zero => cases h
      | succ d =>
        obtain ⟨⟨fields, rest₁⟩, hfields, h⟩ := exists_of_bind_ok h
        cases h
        -- each field is put in order into those read so far
        have hstep : StepKeeps (fun fields key => .ok fun s =>
            readValue .keep d s >>= fun r => .ok (Json.insert key r.1 fields, r.2))
            (WritableFields d) := by
          intro fields key read hstate hread
          cases hread
          exact (hbelow d rfl).map fun value hvalue => hstate.insert key hvalue
        obtain ⟨⟨hkeys, hvalues⟩, hint⟩ := hstep.moreFields true (.nil d)
          (hs.tail (by decide) (by decide)) hfields
        exact ⟨.object hkeys hvalues, hint⟩
    · cases h

/-- **From an integral text, values are writable.** -/
theorem keeps_readValue (depth : Nat) : Keeps (readValue .keep depth) (Writable depth) := by
  induction depth with
  | zero => exact keeps_readValue_of nofun
  | succ depth ih =>
    refine keeps_readValue_of ?_
    intro d hd
    obtain rfl : depth = d := Nat.succ.inj hd
    exact ih

/-! ## Records -/

/-- Known fields keep the invariant, and so do all others. -/
theorem StepKeeps.recordStep {σ : Type} {fields : List (Field σ)}
    {other : String → σ → Reader σ} {I : σ → Prop}
    (hfields : ∀ field ∈ fields, ∀ record, I record → Keeps (field.read record) I)
    (hother : ∀ key record, fields.find? (fun field => field.key = key) = none → I record →
      Keeps (other key record) I) :
    StepKeeps (Json.recordStep fields other) fun state => I state.2 := by
  intro state key read hstate hread
  unfold Json.recordStep at hread
  split at hread
  · rename_i hkey
    cases hread
    exact (hother key state.2 hkey hstate).map fun _ hrecord => hrecord
  · rename_i field hkey
    split at hread
    · cases hread
    · cases hread
      exact (hfields field (List.mem_of_find?_eq_some hkey) state.2 hstate).map
        fun _ hrecord => hrecord

theorem Keeps.field {σ α : Type} {key : String} {read : Reader α} {put : σ → α → σ} {P : α → Prop}
    {I : σ → Prop} {record : σ} (h : Keeps read P) (hput : ∀ value, P value → I (put record value)) :
    Keeps ((Field.of key read put).read record) I :=
  h.map hput

/-- A whole text. -/
theorem Keeps.readAll {α : Type} {read : Reader α} {P : α → Prop} (h : Keeps read P) {text : String}
    {value : α} (htext : ∀ numeral ∈ numerals text, IsInteger numeral)
    (hread : Json.readAll read text = .ok value) : P value := by
  obtain ⟨⟨v, rest⟩, hvalue, hread⟩ := exists_of_bind_ok hread
  dsimp only at hread
  split at hread
  · cases hread
    exact (h.spaced htext hvalue).1
  · cases hread

end Stache.Json
