/-
  Readers that look ahead.

  The readers inside a tag look at what comes behind the characters they take: where a number ends,
  whether a keyword is one, which bracket or quote is the next.  None of them looks past a closing
  brace.  So with a brace behind it, a token is read alike whatever text comes after that
  (`TokenKind.read_append_text`).
-/
import Mathlib.Data.List.TakeWhile
import Stache.Proofs.Items.Edges
import Stache.Proofs.Items.Numbers

namespace Stache

/-- A reading with more text behind it. -/
def Reading.before {α : Type} (r : Reading α) (u : List Char) : Reading α :=
  ⟨r.value, r.lexeme, r.rest ++ u⟩

/-! ## Looking ahead -/

section Ahead

variable {s u : List Char}

/-- Characters of a kind are taken no further than to one that is not of it. -/
theorem span_append {p : Char → Bool} {stop : Char} (hp : p stop = false) (hs : stop ∈ s) :
    (s ++ u).takeWhile p = s.takeWhile p ∧ (s ++ u).dropWhile p = s.dropWhile p ++ u
      ∧ stop ∈ s.dropWhile p := by
  induction s with
  | nil => cases hs
  | cons c s ih =>
    rw [List.cons_append]
    by_cases hc : p c = true
    · have hs : stop ∈ s := by
        rcases List.mem_cons.1 hs with rfl | hs
        · rw [hp] at hc
          cases hc
        · exact hs
      simpa [hc] using ih hs
    · simpa [hc] using hs

/-- A mark without a closing brace is looked for no further than to the next one. -/
theorem isPrefix_append_iff {mark : List Char} (hmark : '}' ∉ mark) (hs : '}' ∈ s) :
    mark <+: s ++ u ↔ mark <+: s := by
  constructor
  · intro h
    rcases List.prefix_or_prefix_of_prefix h (List.prefix_append s u) with h | h
    · exact h
    · exact (hmark (h.subset hs)).elim
  · intro h
    exact h.trans (List.prefix_append s u)

/-- A mark is looked for no further than it is long. -/
theorem isPrefixOf_append {mark : List Char} (h : mark.length ≤ s.length) :
    mark.isPrefixOf (s ++ u) = mark.isPrefixOf s := by
  rw [Bool.eq_iff_iff, List.isPrefixOf_iff_prefix, List.isPrefixOf_iff_prefix]
  constructor
  · intro hmark
    exact List.prefix_of_prefix_length_le hmark (List.prefix_append s u) h
  · intro hmark
    exact hmark.trans (List.prefix_append s u)

theorem endsBefore_append (marks : List Char) (hs : s ≠ []) :
    endsBefore marks (s ++ u) = endsBefore marks s := by
  cases s with
  | nil => exact (hs rfl).elim
  | cons c s => rfl

/-- A closing brace is left behind what has none. -/
theorem mem_drop_of_isPrefix {w : List Char} (hw : w <+: s) (hbrace : '}' ∉ w) (hs : '}' ∈ s) :
    '}' ∈ s.drop w.length := by
  obtain ⟨t, rfl⟩ := hw
  rw [List.drop_left]
  exact (List.mem_append.1 hs).resolve_left hbrace

theorem drop_append_of_isPrefix {w : List Char} (hw : w <+: s) :
    (s ++ u).drop w.length = s.drop w.length ++ u :=
  List.drop_append_of_le_length hw.length_le

end Ahead

/-! ## Tokens -/

section Tokens

variable {s u : List Char}

/-- A number ends before a brace at the latest, -/
theorem fractionOf_append (hs : '}' ∈ s) : fractionOf (s ++ u) = fractionOf s := by
  cases s with
  | nil => cases hs
  | cons c s =>
    rw [List.cons_append]
    by_cases hc : c = '.'
    · subst hc
      have hs : '}' ∈ s := (List.mem_cons.1 hs).resolve_left (by decide)
      rw [fractionOf, fractionOf, (span_append rfl hs).1]
    · simp [fractionOf, hc]

/-- so its fraction, -/
theorem unsignedOf_append (hs : '}' ∈ s) : unsignedOf (s ++ u) = unsignedOf s := by
  obtain ⟨htake, hdrop, hbrace⟩ := span_append (u := u) (p := Char.isDigit) rfl hs
  rw [unsignedOf, unsignedOf, htake, hdrop, fractionOf_append hbrace]

/-- its digits and its sign do. -/
theorem numberOf_append (hs : '}' ∈ s) : numberOf (s ++ u) = numberOf s := by
  cases s with
  | nil => cases hs
  | cons c s =>
    by_cases hc : c = '-'
    · subst hc
      have hs : '}' ∈ s := (List.mem_cons.1 hs).resolve_left (by decide)
      rw [List.cons_append, numberOf, numberOf, unsignedOf_append hs]
    · have hplain (t : List Char) : numberOf (c :: t) = unsignedOf (c :: t) := by
        simp [numberOf, hc]
      rw [List.cons_append, hplain, hplain, ← List.cons_append, unsignedOf_append hs]

theorem brace_not_mem_numberOf (s : List Char) : '}' ∉ numberOf s :=
  fun h => absurd (numberOf_numeric s '}' h) (by decide)

/-- The words `as |` have no closing brace, and whatever comes behind one makes no difference. -/
theorem asPipeOf_append (hs : '}' ∈ s) : asPipeOf (s ++ u) = asPipeOf s := by
  match s, hs with
  | [_], hs =>
    obtain rfl := List.mem_singleton.1 hs
    simp [asPipeOf]
  | c :: d :: s, hs =>
    by_cases hcd : c = 'a' ∧ d = 's'
    · obtain ⟨rfl, rfl⟩ := hcd
      have hs : '}' ∈ s := by simpa using hs
      -- the blanks behind `as` end before the brace, so the bar is looked for in one place
      obtain ⟨htake, hdrop, hbrace⟩ := span_append (u := u) (p := Text.isBlank) rfl hs
      simp only [List.cons_append, asPipeOf, htake, hdrop]
      cases hblank : s.dropWhile Text.isBlank with
      | nil =>
        rw [hblank] at hbrace
        cases hbrace
      | cons e t =>
        by_cases he : e = '|' <;> simp [he]
    -- without `as` there is nothing to look for
    · have hnone (t : List Char) : asPipeOf (c :: d :: t) = [] := by
        unfold asPipeOf
        split
        · rename_i heq
          cases heq
          exact (hcd ⟨rfl, rfl⟩).elim
        · rfl
      rw [List.cons_append, List.cons_append, hnone, hnone]

/-- A quoted text ends with its quote, -/
theorem readQuoted_append_text {quote : Char} (hquote : quote ≠ '\\') {r : Reading (List Char)}
    (h : readQuoted quote s = some r) : readQuoted quote (s ++ u) = some (r.before u) := by
  fun_induction readQuoted quote s generalizing r with
  | case1 => cases h
  | case2 s ih =>
    obtain ⟨r', hr', rfl⟩ := Option.map_eq_some_iff.1 h
    simp [readQuoted, ih hr', Reading.before]
  | case3 d s hd ih =>
    obtain ⟨r', hr', rfl⟩ := Option.map_eq_some_iff.1 h
    have hmore := ih hr'
    rw [List.cons_append] at hmore
    simp [readQuoted, hd, hmore, Reading.before]
  | case4 s hs =>
    cases h
    simp [readQuoted, hquote, Reading.before]
  | case5 c s hs hc ih =>
    obtain ⟨r', hr', rfl⟩ := Option.map_eq_some_iff.1 h
    -- a backslash that is not skipped over is the last character
    have hfirst : c ≠ '\\' ∨ s = [] := by
      cases s with
      | nil => exact .inr rfl
      | cons d s => exact .inl fun hc => hs d s hc rfl
    rcases hfirst with hfirst | rfl
    · simp [readQuoted, hfirst, hc, ih hr', Reading.before]
    · cases hr'

/-- and a word before a brace at the latest. -/
theorem readWord_append_text {c : Char} {r : Reading TokenKind} (h : readWord c s = .ok r)
    (hr : '}' ∈ r.rest) : readWord c (s ++ u) = .ok (r.before u) := by
  have hs : '}' ∈ c :: s := by
    rw [← readWord_append h]
    exact List.mem_append_right _ hr
  have hnumber := numberOf_isPrefix (c :: s)
  have hword := List.takeWhile_prefix isNameChar (l := c :: s)
  -- no word has a brace in it, so the one in the text stands behind it
  have hbrace : '}' ∉ (c :: s).takeWhile isNameChar := fun hmem =>
    absurd (List.all_eq_true.1 List.all_takeWhile _ hmem) (by decide)
  have hbehind := mem_drop_of_isPrefix hnumber (brace_not_mem_numberOf _) hs
  have hbehind' := mem_drop_of_isPrefix hword hbrace hs
  unfold readWord at h ⊢
  dsimp only at h ⊢
  rw [← List.cons_append, numberOf_append hs, asPipeOf_append hs, (span_append rfl hs).1,
    drop_append_of_isPrefix hnumber, drop_append_of_isPrefix hword,
    endsBefore_append _ (List.ne_nil_of_mem hbehind),
    endsBefore_append _ (List.ne_nil_of_mem hbehind')]
  have hcut (value : TokenKind) {w : List Char} (hw : w <+: c :: s) :
      Reading.cut value w (c :: s ++ u) = (Reading.cut value w (c :: s)).before u := by
    rw [Reading.cut, drop_append_of_isPrefix hw]
    rfl
  -- a number, the bar, or a name, and the same of them
  split at h
  · cases h
    rw [if_pos ‹_›, hcut _ hnumber]
  · rw [if_neg ‹_›]
    split at h
    · cases h
      rw [if_pos ‹_›, hcut _ (asPipeOf_isPrefix _)]
    · rw [if_neg ‹_›]
      split at h
      · cases h
      · cases h
        rw [if_neg ‹_›, hcut _ hword]

/-- **A token** in front of a closing brace is read without what comes behind that. -/
theorem TokenKind.read_append_text {c : Char} {r : Reading TokenKind}
    (h : TokenKind.read c s = .ok r) (hr : '}' ∈ r.rest) :
    TokenKind.read c (s ++ u) = .ok (r.before u) := by
  unfold TokenKind.read at h ⊢
  split at h
  -- marks of one character
  iterate 6
    cases h
    rfl
  · cases s with
    | nil =>
      cases h
      cases hr
    | cons d s =>
      -- a dot, or two
      by_cases hd : d = '.'
      · subst hd
        cases h
        rfl
      · simp [hd] at h
        cases h
        simp [hd, Reading.before, endsBefore]
  · dsimp only at h ⊢
    cases hname : s.dropWhile (· ≠ ']') with
    | nil =>
      rw [hname] at h
      cases h
    | cons d t =>
      rw [hname] at h
      cases h
      -- a name in brackets was read, so the bracket is there
      have hs : ']' ∈ s := Classical.byContradiction fun hs => by
        have hnil : s.dropWhile (· ≠ ']') = [] := by
          rw [List.dropWhile_eq_nil_iff]
          intro x hx
          exact decide_eq_true fun hx' => hs (hx' ▸ hx)
        rw [hname] at hnil
        cases hnil
      obtain ⟨htake, hdrop, -⟩ := span_append (u := u) (p := (· ≠ ']')) rfl hs
      rw [htake, hdrop, hname]
      rfl
  -- texts between either kind of quotes
  iterate 2
    cases hread : readQuoted _ s with
    | none =>
      rw [hread] at h
      cases h
    | some r' =>
      rw [hread] at h
      cases h
      rw [readQuoted_append_text (by decide) hread]
      rfl
  · exact readWord_append_text h hr

end Tokens

end Stache
