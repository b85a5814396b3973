/-
  A quote, and what is read in front of it.

  Quoted texts are tokens of their own, so to every other reader a QUOTE is a place to stop.  The
  readers look ahead, but what they look for has no quote in it: in front of a quote they find what
  they would find at the end of the text, or they see that something follows, and that is all.
  Hence what is read in front of a quote is the same with any other text behind that begins with a
  quote of either kind.

    1. LOOKING AHEAD.  Numbers, words, marks and the words of tags are found in `s` and a quote as
       they are in `s`;
    2. READING.  Each reader that stops in front of the quote takes the same characters in front of
       another one, and makes the same of them (`TokenKind.read_before_quote` and its kin, by the
       recursion of each reader).
-/
import Stache.Proofs.Items.Elsewhere

namespace Stache

/-- Either of the two quotes. -/
def IsQuote (c : Char) : Prop := c = '"' ∨ c = '\''

/-- Neither quote is in the mark. -/
def Quoteless (mark : List Char) : Prop := '"' ∉ mark ∧ '\'' ∉ mark

instance (mark : List Char) : Decidable (Quoteless mark) := inferInstanceAs (Decidable (_ ∧ _))

theorem Quoteless.append {mark more : List Char} (h : Quoteless mark) (h' : Quoteless more) :
    Quoteless (mark ++ more) :=
  ⟨List.not_mem_append h.1 h'.1, List.not_mem_append h.2 h'.2⟩

/-! ## Looking ahead -/

/-- Characters of a kind are taken no further than to one that is not of it. -/
theorem span_append_cons {p : Char → Bool} {stop : Char} (h : p stop = false) (s u : List Char) :
    (s ++ stop :: u).takeWhile p = s.takeWhile p
      ∧ (s ++ stop :: u).dropWhile p = s.dropWhile p ++ stop :: u := by
  induction s with
  | nil => simp [h]
  | cons c s ih =>
    rw [List.cons_append]
    by_cases hc : p c = true
    · simpa [hc] using ih
    · simp [hc]

/-- A mark is not found with a character that it does not have. -/
theorem isPrefix_append_cons_iff {mark : List Char} {stop : Char} (h : stop ∉ mark)
    (s u : List Char) : mark <+: s ++ stop :: u ↔ mark <+: s := by
  constructor
  · intro hmark
    rcases List.prefix_or_prefix_of_prefix hmark (List.prefix_append s (stop :: u)) with hs | hs
    · exact hs
    -- The mark would go on with the character.
    · obtain ⟨more, rfl⟩ := hs
      rw [List.prefix_append_right_inj] at hmark
      cases more with
      | nil => simp
      | cons c more =>
        obtain ⟨rfl, -⟩ := List.cons_prefix_cons.1 hmark
        exact (h (by simp)).elim
  · intro hmark
    exact hmark.trans (List.prefix_append s _)

theorem isPrefixOf_append_cons {mark : List Char} {stop : Char} (h : stop ∉ mark)
    (s u : List Char) : mark.isPrefixOf (s ++ stop :: u) = mark.isPrefixOf s := by
  rw [Bool.eq_iff_iff, List.isPrefixOf_iff_prefix, List.isPrefixOf_iff_prefix,
    isPrefix_append_cons_iff h]

section Ahead

variable {q q' : Char} (hq : IsQuote q) (hq' : IsQuote q') (s x y : List Char)

include hq

theorem IsQuote.not_mem {mark : List Char} (hmark : Quoteless mark) : q ∉ mark := by
  rcases hq with rfl | rfl
  · exact hmark.1
  · exact hmark.2

theorem IsQuote.isBlank_eq : Text.isBlank q = false := by
  rcases hq with rfl | rfl <;> rfl

/-- A fraction ends before a quote, -/
theorem fractionOf_append_quote : fractionOf (s ++ q :: x) = fractionOf s := by
  cases s with
  | nil => rcases hq with rfl | rfl <;> rfl
  | cons c s =>
    have hdigit : q.isDigit = false := by rcases hq with rfl | rfl <;> rfl
    rw [List.cons_append]
    by_cases hc : c = '.'
    · subst hc
      rw [fractionOf, fractionOf, (span_append_cons hdigit s x).1]
    · simp [fractionOf, hc]

/-- and so does a number, -/
theorem unsignedOf_append_quote : unsignedOf (s ++ q :: x) = unsignedOf s := by
  have hdigit : q.isDigit = false := by rcases hq with rfl | rfl <;> rfl
  obtain ⟨htake, hdrop⟩ := span_append_cons hdigit s x
  rw [unsignedOf, unsignedOf, htake, hdrop, fractionOf_append_quote hq]

/-- with its sign. -/
theorem numberOf_append_quote : numberOf (s ++ q :: x) = numberOf s := by
  have hplain {t : List Char} (ht : ∀ u, t ≠ '-' :: u) : numberOf t = unsignedOf t := by
    unfold numberOf
    split
    · exact (ht _ rfl).elim
    · rfl
  by_cases hs : ∃ t, s = '-' :: t
  · obtain ⟨t, rfl⟩ := hs
    rw [List.cons_append, numberOf, numberOf, unsignedOf_append_quote hq]
  · have hs' (u : List Char) : s ++ q :: x ≠ '-' :: u := by
      intro heq
      cases s with
      | nil =>
        rcases hq with rfl | rfl <;> cases heq
      | cons c s => exact hs ⟨s, by rw [(List.cons.inj heq).1]⟩
    rw [hplain hs', hplain fun u hu => hs ⟨u, hu⟩, unsignedOf_append_quote hq]

/-- Block parameters do not begin with a quote, -/
theorem asPipeOf_append_quote : asPipeOf (s ++ q :: x) = asPipeOf s := by
  obtain ⟨htake, hdrop⟩ := span_append_cons hq.isBlank_eq (s.drop 2) x
  match s with
  | [] => rcases hq with rfl | rfl <;> rfl
  | [c] =>
    rcases hq with rfl | rfl <;> simp [asPipeOf]
  | c :: d :: t =>
    -- the quote is not the bar that is looked for
    have hpipe : q ≠ '|' := by rcases hq with rfl | rfl <;> decide
    by_cases hcd : c = 'a' ∧ d = 's'
    · obtain ⟨rfl, rfl⟩ := hcd
      simp only [List.drop_succ_cons, List.drop_zero] at htake hdrop
      simp only [List.cons_append, asPipeOf, htake, hdrop]
      cases t.dropWhile Text.isBlank with
      | nil => simp [hpipe]
      | cons e u => by_cases he : e = '|' <;> simp [he]
    · have hnone (u : List Char) : asPipeOf (c :: d :: u) = [] := by
        unfold asPipeOf
        split
        · rename_i heq
          cases heq
          exact (hcd ⟨rfl, rfl⟩).elim
        · rfl
      rw [List.cons_append, List.cons_append, hnone, hnone]

/-- no tag closes with one, -/
theorem closesAtOnce_append_quote : closesAtOnce (s ++ q :: x) = closesAtOnce s := by
  have hbare : q ∉ ['}', '}'] := hq.not_mem (by decide)
  have htilde : q ∉ ['~', '}', '}'] := hq.not_mem (by decide)
  rw [closesAtOnce, closesAtOnce, Text.dropBlankStart, Text.dropBlankStart,
    (span_append_cons hq.isBlank_eq s x).2, isPrefixOf_append_cons hbare,
    isPrefixOf_append_cons htilde]

/-- and no else has one in it. -/
theorem elseOf_append_quote : elseOf (s ++ q :: x) = elseOf s := by
  obtain ⟨htake, hdrop⟩ := span_append_cons hq.isBlank_eq s x
  have hend : (Text.isBlank q || q = '~' || q = '}') = false := by
    rcases hq with rfl | rfl <;> rfl
  have hword (w : List Char) (hw : ∀ c u, w ≠ 'e' :: 'l' :: 's' :: 'e' :: c :: u)
      (t : List Char) (ht : Text.dropBlankStart t = w) : elseOf t = [] := by
    unfold elseOf
    rw [ht]
    split
    · exact (hw _ _ rfl).elim
    · rfl
  generalize hw : s.dropWhile Text.isBlank = w at hdrop
  -- If one more character comes behind the word, that decides; if not, the quote does.
  by_cases helse : ∃ c u, w = 'e' :: 'l' :: 's' :: 'e' :: c :: u
  · obtain ⟨c, u, rfl⟩ := helse
    unfold elseOf
    rw [Text.dropBlankStart, Text.dropBlankStart, hdrop, htake, hw]
    rfl
  · have hnone : elseOf s = [] := hword w (fun c u heq => helse ⟨c, u, heq⟩) s hw
    rw [hnone]
    by_cases hshort : w = ['e', 'l', 's', 'e']
    · subst hshort
      unfold elseOf
      rw [Text.dropBlankStart, hdrop]
      show (if Text.isBlank q || q = '~' || q = '}' then _ else _) = _
      rw [hend]
      rfl
    · refine hword _ (fun c u heq => ?_) _ hdrop
      have hmark : ['e', 'l', 's', 'e'] <+: w :=
        (isPrefix_append_cons_iff (hq.not_mem (by decide)) w x).1 ⟨c :: u, heq.symm⟩
      obtain ⟨more, rfl⟩ := hmark
      cases more with
      | nil => exact hshort rfl
      | cons d more => exact helse ⟨d, more, rfl⟩

/-- A comment begins with an exclamation mark. -/
theorem bang_append_quote_iff : (∃ u, s ++ q :: x = '!' :: u) ↔ ∃ u, s = '!' :: u := by
  have hfirst (t : List Char) : (∃ u, t = '!' :: u) ↔ ['!'] <+: t :=
    exists_congr fun _ => eq_comm
  rw [hfirst, hfirst, isPrefix_append_cons_iff (hq.not_mem (by decide))]

include hq'

/-- Of a quote it is only seen that it is there. -/
theorem endsBefore_append_quote {marks : List Char} (hmarks : Quoteless marks) :
    endsBefore marks (s ++ q' :: y) = endsBefore marks (s ++ q :: x) := by
  cases s with
  | nil =>
    have hmarks' {c : Char} (hc : IsQuote c) (u : List Char) :
        endsBefore marks (c :: u) = false := by
      show (Text.isBlank c || marks.contains c) = false
      rw [hc.isBlank_eq, Bool.false_or, List.contains_eq_mem, decide_eq_false_iff_not]
      exact hc.not_mem hmarks
    rw [List.nil_append, List.nil_append, hmarks' hq', hmarks' hq]
  | cons c s => rfl

end Ahead

/-- Two braces stand in front of a quote. -/
theorem IsQuote.exists_of_braces {q : Char} (hq : IsQuote q) {b u x : List Char}
    (h : '{' :: '{' :: u = b ++ q :: x) : ∃ b', b = '{' :: '{' :: b' ∧ u = b' ++ q :: x := by
  have hopen : ['{', '{'] <+: b ++ q :: x := ⟨u, h⟩
  obtain ⟨b', rfl⟩ := (isPrefix_append_cons_iff (hq.not_mem (by decide)) b x).1 hopen
  exact ⟨b', rfl, by simpa using h⟩

/-! ## Tokens -/

/-- The same reading with other text behind it. -/
def Reading.followedBy {α : Type} (r : Reading α) (u : List Char) : Reading α := { r with rest := u }

/-- A quoted text takes its closing quote at least. -/
theorem readQuoted_ne_nil {quote : Char} {s : List Char} {r : Reading (List Char)}
    (h : readQuoted quote s = some r) : r.lexeme ≠ [] := by
  rw [readQuoted.eq_def] at h
  split at h
  · cases h
  all_goals
    split at h
    all_goals
      first
      | cases h
        exact List.cons_ne_nil _ _
      | obtain ⟨r', -, rfl⟩ := Option.map_eq_some_iff.1 h
        exact List.cons_ne_nil _ _

/-- A quoted text ends with its quote, and no character behind that is looked at. -/
theorem readQuoted_followedBy {quote : Char} (hquote : quote ≠ '\\') {s : List Char}
    {r : Reading (List Char)} (h : readQuoted quote s = some r) (u : List Char) :
    readQuoted quote (r.lexeme ++ u) = some (r.followedBy u) := by
  fun_induction readQuoted quote s generalizing r with
  | case1 => cases h
  | case2 s ih =>
    obtain ⟨r', hr', rfl⟩ := Option.map_eq_some_iff.1 h
    simp [readQuoted, ih hr', Reading.followedBy]
  | case3 d s hd ih =>
    obtain ⟨r', hr', rfl⟩ := Option.map_eq_some_iff.1 h
    have hmore := ih hr'
    -- The character behind the backslash is the next one of the lexeme.
    obtain ⟨e, more, hlexeme⟩ := List.exists_cons_of_ne_nil (readQuoted_ne_nil hr')
    have hs := readQuoted_append hr'
    rw [hlexeme] at hs hmore
    obtain rfl : e = d := (List.cons.inj hs).1
    rw [List.cons_append] at hmore
    simp [readQuoted, hd, hmore, Reading.followedBy, hlexeme]
  | case4 s hs =>
    cases h
    simp [readQuoted, hquote, Reading.followedBy]
  | case5 c s hs hc ih =>
    obtain ⟨r', hr', rfl⟩ := Option.map_eq_some_iff.1 h
    have hfirst : c ≠ '\\' := by
      rintro rfl
      cases s with
      | nil => cases hr'
      | cons d s => exact hs d s rfl rfl
    simp [readQuoted, hfirst, hc, ih hr', Reading.followedBy]

section Readers

variable {q q' : Char} (hq : IsQuote q) (hq' : IsQuote q') {b b' x : List Char} (y : List Char)

include hq hq'

/-- A word ends in front of the quote, as it would at the end of the text. -/
theorem readWord_before_quote {c : Char} {r : Reading TokenKind}
    (h : readWord c (b ++ q :: x) = .ok r) (hr : r.rest = b' ++ q :: x) :
    readWord c (b ++ q' :: y) = .ok (r.followedBy (b' ++ q' :: y)) := by
  -- what is looked for does not reach over the quote, whichever it is
  have hahead {quote : Char} (hquote : IsQuote quote) (u : List Char) :
      numberOf (c :: (b ++ quote :: u)) = numberOf (c :: b)
        ∧ asPipeOf (c :: (b ++ quote :: u)) = asPipeOf (c :: b)
        ∧ (c :: (b ++ quote :: u)).takeWhile isNameChar = (c :: b).takeWhile isNameChar := by
    have hname : isNameChar quote = false := by rcases hquote with rfl | rfl <;> rfl
    exact ⟨numberOf_append_quote hquote (c :: b) u, asPipeOf_append_quote hquote (c :: b) u,
      (span_append_cons hname (c :: b) u).1⟩
  obtain ⟨hnumber, hopener, hword⟩ := hahead hq x
  obtain ⟨hnumber', hopener', hword'⟩ := hahead hq' y
  have hends {w : List Char} (hw : w <+: c :: b) :
      endsBefore literalEnds ((c :: (b ++ q' :: y)).drop w.length)
        = endsBefore literalEnds ((c :: (b ++ q :: x)).drop w.length) := by
    rw [← List.cons_append, ← List.cons_append, drop_append_of_isPrefix hw,
      drop_append_of_isPrefix hw]
    exact endsBefore_append_quote hq hq' _ x y (by decide)
  have hcut (value : TokenKind) {w : List Char} (hw : w <+: c :: b)
      (hrest : (Reading.cut value w (c :: (b ++ q :: x))).rest = b' ++ q :: x) :
      Reading.cut value w (c :: (b ++ q' :: y))
        = (Reading.cut value w (c :: (b ++ q :: x))).followedBy (b' ++ q' :: y) := by
    rw [Reading.cut, ← List.cons_append, drop_append_of_isPrefix hw] at hrest ⊢
    rw [List.append_cancel_right hrest]
    rfl
  have hpnumber := numberOf_isPrefix (c :: b)
  have hpopener := asPipeOf_isPrefix (c :: b)
  have hpword := List.takeWhile_prefix isNameChar (l := c :: b)
  unfold readWord at h ⊢
  dsimp only at h ⊢
  rw [hnumber, hopener, hword] at h
  rw [hnumber', hopener', hword', hends hpnumber, hends hpword]
  -- a number, the bar, or a name
  split at h
  · cases h
    rw [if_pos ‹_›, hcut _ hpnumber hr]
  · rw [if_neg ‹_›]
    split at h
    · cases h
      rw [if_pos ‹_›, hcut _ hpopener hr]
    · rw [if_neg ‹_›]
      split at h
      · cases h
      · cases h
        rw [if_neg ‹_›, hcut _ hpword hr]

/-- A dot is a name or a separator by what comes next, and two of them are a name. -/
theorem TokenKind.read_dot_before_quote {r : Reading TokenKind}
    (h : TokenKind.read '.' (b ++ q :: x) = .ok r) (hr : r.rest = b' ++ q :: x) :
    TokenKind.read '.' (b ++ q' :: y) = .ok (r.followedBy (b' ++ q' :: y)) := by
  cases b with
  | nil =>
    have hdot : Quoteless dotEnds := by decide
    have hends := endsBefore_append_quote hq hq' [] x y hdot
    -- the dot stands right before the quote,
    have hlone {quote : Char} (hquote : IsQuote quote) (u : List Char) :
        TokenKind.read '.' (quote :: u)
          = .ok ⟨if endsBefore dotEnds (quote :: u) then .name "." false else .separator '.',
              ['.'], quote :: u⟩ := by
      rcases hquote with rfl | rfl <;> rfl
    have hread := (hlone hq x).symm.trans h
    cases hread
    obtain rfl : b' = [] := List.append_cancel_right hr.symm
    rw [List.nil_append, List.nil_append] at hends
    show TokenKind.read '.' (q' :: y) = _
    rw [hlone hq' y, hends]
    rfl
  | cons d t =>
    unfold TokenKind.read at h ⊢
    -- or another character does, a second dot perhaps
    by_cases hd : d = '.'
    · subst hd
      cases h
      obtain rfl : t = b' := List.append_cancel_right hr
      rfl
    · simp [hd] at h
      cases h
      obtain rfl : d :: t = b' := List.append_cancel_right hr
      simp [hd, Reading.followedBy, endsBefore]

omit hq hq' in
/-- A segment ends with its bracket, and this is in front of the quote. -/
theorem TokenKind.read_bracket_before_quote {r : Reading TokenKind}
    (h : TokenKind.read '[' (b ++ q :: x) = .ok r) (hr : r.rest = b' ++ q :: x) :
    TokenKind.read '[' (b ++ q' :: y) = .ok (r.followedBy (b' ++ q' :: y)) := by
  -- the lexeme and what is left before the quote are the text before it,
  have hb : r.lexeme ++ b' = '[' :: b := by
    have happ := TokenKind.read_append h
    rw [hr, ← List.append_assoc, ← List.cons_append] at happ
    exact List.append_cancel_right happ
  unfold TokenKind.read at h ⊢
  dsimp only at h ⊢
  cases hname : (b ++ q :: x).dropWhile (· ≠ ']') with
  | nil =>
    rw [hname] at h
    cases h
  | cons d t =>
    rw [hname] at h
    cases h
    generalize hname' : (b ++ q :: x).takeWhile (· ≠ ']') = name at hb
    have hd : d = ']' := by
      have hstop := List.head?_dropWhile_not (· ≠ ']') (b ++ q :: x)
      rw [hname] at hstop
      simpa using hstop
    have hall : ∀ c ∈ name, decide (c ≠ ']') = true :=
      hname' ▸ List.all_eq_true.1 List.all_takeWhile
    -- so the bracket is closed before the quote
    obtain rfl : b = name ++ d :: b' := by
      simpa using (List.cons.inj hb).2.symm
    subst hd
    have hstops : decide (']' ≠ ']') = false := rfl
    obtain ⟨htake, hdrop⟩ := span_append_cons (p := (· ≠ ']')) hstops name (b' ++ q' :: y)
    rw [List.append_assoc, List.cons_append, htake, hdrop, List.dropWhile_eq_nil_iff.2 hall,
      List.takeWhile_eq_self_iff.2 hall]
    rfl

/-- **A token** in front of a quote. -/
theorem TokenKind.read_before_quote {c : Char} {r : Reading TokenKind}
    (h : TokenKind.read c (b ++ q :: x) = .ok r) (hr : r.rest = b' ++ q :: x) :
    TokenKind.read c (b ++ q' :: y) = .ok (r.followedBy (b' ++ q' :: y)) := by
  have hread := h
  have happ := TokenKind.read_append h
  unfold TokenKind.read at h ⊢
  split at h
  -- A mark of one character is followed by the quote and all that is in front of it.
  iterate 6
    cases h
    obtain rfl : b = b' := List.append_cancel_right hr
    rfl
  · exact TokenKind.read_dot_before_quote hq hq' y hread hr
  · exact TokenKind.read_bracket_before_quote y hread hr
  iterate 2
    cases hquoted : readQuoted _ (b ++ q :: x) with
    | none =>
      rw [hquoted] at h
      cases h
    | some r' =>
      rw [hquoted] at h
      cases h
      rw [hr, List.cons_append, ← List.append_assoc] at happ
      obtain rfl : r'.lexeme ++ b' = b := List.append_cancel_right (List.cons.inj happ).2
      rw [List.append_assoc, readQuoted_followedBy (by decide) hquoted]
      rfl
  · exact readWord_before_quote hq hq' y h hr

omit hq hq' in
/-- A token in front of a quote does not begin with it. -/
theorem TokenKind.exists_before_quote {c : Char} {u w : List Char} {r : Reading TokenKind}
    (h : TokenKind.read c u = .ok r) (hu : w ++ q :: x = c :: u) (hr : r.rest = b' ++ q :: x) :
    ∃ v, w = c :: v ∧ u = v ++ q :: x := by
  cases w with
  | nil =>
    obtain ⟨rfl, rfl⟩ := List.cons.inj hu
    have hlength := TokenKind.length_rest_le h
    rw [hr, List.length_append, List.length_cons] at hlength
    omega
  | cons d v =>
    obtain ⟨rfl, rfl⟩ := List.cons.inj hu
    exact ⟨v, rfl, rfl⟩

/-! ## Bodies of tags -/

/-- No quote is in the closing marks. -/
structure Closing.Unquoted (closing : Closing) : Prop where
  tilde : Quoteless closing.tilde
  bare : Quoteless closing.bare

omit hq hq' in
theorem TagRole.closing_unquoted (kind : TagRole) : kind.closing.Unquoted := by
  cases kind with
  | mustache form => cases form <;> exact ⟨by decide, by decide⟩
  | _ => exact ⟨by decide, by decide⟩

theorem isPrefixOf_append_quote {mark : List Char} (hmark : Quoteless mark)
    (w : List Char) : mark.isPrefixOf (w ++ q' :: y) = mark.isPrefixOf (w ++ q :: x) := by
  rw [isPrefixOf_append_cons (hq'.not_mem hmark), isPrefixOf_append_cons (hq.not_mem hmark)]

/-- What is behind a mark goes on up to the quote. -/
theorem drop_mark_append_quote {mark w : List Char}
    (hmark : Quoteless mark) (h : mark.isPrefixOf (w ++ q :: x) = true)
    (hr : (w ++ q :: x).drop mark.length = b' ++ q :: x) :
    mark.isPrefixOf (w ++ q' :: y) = true
      ∧ (w ++ q' :: y).drop mark.length = b' ++ q' :: y := by
  have hw := (isPrefix_append_cons_iff (hq.not_mem hmark) _ _).1 (List.isPrefixOf_iff_prefix.1 h)
  rw [drop_append_of_isPrefix hw] at hr ⊢
  exact ⟨(isPrefixOf_append_quote hq hq' y hmark w).trans h, by rw [List.append_cancel_right hr]⟩

/-- **The body of a tag** in front of a quote. -/
theorem readBody_before_quote {closing : Closing} (hclosing : closing.Unquoted) {p : Position}
    {r : Reading TagBody} (h : readBody closing p (b ++ q :: x) = .ok r)
    (hr : r.rest = b' ++ q :: x) :
    readBody closing p (b ++ q' :: y) = .ok (r.followedBy (b' ++ q' :: y)) := by
  generalize hs : b ++ q :: x = s at h
  fun_induction readBody closing p s generalizing b r
  · cases h
  · rename_i p s gap q₀ c t ht htilde
    subst hs
    obtain ⟨htake, hdrop⟩ := span_append_cons hq.isBlank_eq b x
    obtain ⟨htake', hdrop'⟩ := span_append_cons hq'.isBlank_eq b y
    cases h
    rw [← ht, hdrop] at htilde hr
    -- closed by a tilde and its closer,
    obtain ⟨htilde', hrest⟩ := drop_mark_append_quote hq hq' y hclosing.tilde htilde hr
    obtain ⟨c', t', ht'⟩ := List.exists_cons_of_ne_nil
      (List.append_ne_nil_of_right_ne_nil (b.dropWhile Text.isBlank) (List.cons_ne_nil q' y))
    rw [ht'] at hdrop' htilde' hrest
    rw [readBody_of_tilde hdrop' htilde', hrest, htake']
    simp only [gap, q₀, htake]
    rfl
  · rename_i p s gap q₀ c t ht htilde hbare
    subst hs
    obtain ⟨htake, hdrop⟩ := span_append_cons hq.isBlank_eq b x
    obtain ⟨htake', hdrop'⟩ := span_append_cons hq'.isBlank_eq b y
    cases h
    rw [← ht, hdrop] at htilde hbare hr
    -- by the closer alone,
    obtain ⟨hbare', hrest⟩ := drop_mark_append_quote hq hq' y hclosing.bare hbare hr
    have htilde' : closing.tilde.isPrefixOf (b.dropWhile Text.isBlank ++ q' :: y) = false :=
      (isPrefixOf_append_quote hq hq' y hclosing.tilde _).trans (Bool.eq_false_iff.2 htilde)
    obtain ⟨c', t', ht'⟩ := List.exists_cons_of_ne_nil
      (List.append_ne_nil_of_right_ne_nil (b.dropWhile Text.isBlank) (List.cons_ne_nil q' y))
    rw [ht'] at hdrop' htilde' hbare' hrest
    rw [readBody_of_bare hdrop' htilde' hbare', hrest, htake']
    simp only [gap, q₀, htake]
    rfl
  · cases h
  · rename_i p s gap q₀ c t ht htilde hbare r' hread ih
    subst hs
    obtain ⟨htake, hdrop⟩ := span_append_cons hq.isBlank_eq b x
    obtain ⟨htake', hdrop'⟩ := span_append_cons hq'.isBlank_eq b y
    obtain ⟨more, hmore, h⟩ := exists_of_bind_ok h
    cases h
    have hrest : more.rest = b' ++ q :: x := hr
    -- or not before a token, which ends before the quote as well
    have hmore' : more.lexeme ++ b' ++ q :: x = r'.rest := by
      rw [List.append_assoc, ← hrest, readBody_append hmore]
    rw [hdrop] at ht
    obtain ⟨w, hw, rfl⟩ := TokenKind.exists_before_quote hread ht hmore'.symm
    rw [hw] at hdrop'
    have hread' := TokenKind.read_before_quote hq hq' y hread hmore'.symm
    have hnotilde := (isPrefixOf_append_quote hq hq' y hclosing.tilde (c :: w)).trans
      (Bool.eq_false_iff.2 htilde)
    have hnobare := (isPrefixOf_append_quote hq hq' y hclosing.bare (c :: w)).trans
      (Bool.eq_false_iff.2 hbare)
    have hbody := ih hrest hmore' hmore
    simp only [gap, q₀, htake] at hbody ⊢
    rw [← htake'] at hbody ⊢
    exact readBody_of_token hdrop' hnotilde hnobare hread' hbody

/-! ## Tags -/

/-- The mark of a tag in front of a quote. -/
theorem readMark_before_quote (b : List Char) :
    ∃ b', (readMark (b ++ q :: x)).rest = b' ++ q :: x
      ∧ readMark (b ++ q' :: y) = (readMark (b ++ q :: x)).followedBy (b' ++ q' :: y) := by
  by_cases hplain : ∀ c u, b = c :: u → c ∉ ['#', '/', '>', '*', '{', '&', '^']
  -- none of the characters that are marks: the word `else`, or nothing
  · have hmark {quote : Char} (hquote : IsQuote quote) (u : List Char) :
        readMark (b ++ quote :: u)
          = if (elseOf b).isEmpty then ⟨.mustache .plain, [], b ++ quote :: u⟩
            else ⟨if closesAtOnce (b.drop (elseOf b).length) then .elseMark else .elseChain,
              elseOf b, b.drop (elseOf b).length ++ quote :: u⟩ := by
      rw [readMark_plain, elseOf_append_quote hquote,
        drop_append_of_isPrefix (elseOf_isPrefix b), closesAtOnce_append_quote hquote]
      intro c v heq
      cases b with
      | nil =>
        obtain ⟨rfl, -⟩ := List.cons.inj heq
        exact hquote.not_mem (by decide)
      | cons d b => exact (List.cons.inj heq).1 ▸ hplain d b rfl
    rw [hmark hq, hmark hq']
    by_cases hword : (elseOf b).isEmpty = true
    · rw [if_pos hword, if_pos hword]
      exact ⟨b, rfl, rfl⟩
    · rw [if_neg hword, if_neg hword]
      exact ⟨_, rfl, rfl⟩
  · obtain ⟨c, t, rfl, hc⟩ : ∃ c t, b = c :: t ∧ c ∈ ['#', '/', '>', '*', '{', '&', '^'] := by
      simpa only [not_forall, not_not, exists_prop] using hplain
    simp only [List.mem_cons, List.not_mem_nil, or_false] at hc
    rcases hc with rfl | rfl | rfl | rfl | rfl | rfl | rfl
    · cases t with
      | nil => rcases hq with rfl | rfl <;> rcases hq' with rfl | rfl <;> exact ⟨[], rfl, rfl⟩
      | cons d t =>
        by_cases hd : d = '>' ∨ d = '*'
        · rcases hd with rfl | rfl <;> exact ⟨t, rfl, rfl⟩
        -- `{{#` without a second mark
        · have hopen (u : List Char) : readMark ('#' :: d :: u) = ⟨.openBlock, ['#'], d :: u⟩ := by
            unfold readMark
            split <;> simp_all
          refine ⟨d :: t, congrArg Reading.rest (hopen _), (hopen _).trans ?_⟩
          rw [List.cons_append, List.cons_append, hopen]
          rfl
    iterate 5 exact ⟨t, rfl, rfl⟩
    · refine ⟨t, rfl, ?_⟩
      show Reading.mk (if closesAtOnce (t ++ q' :: y) then _ else _) _ _
        = Reading.mk (if closesAtOnce (t ++ q :: x) then _ else _) ['^'] _
      rw [closesAtOnce_append_quote hq, closesAtOnce_append_quote hq']
      rfl

/-- A comment that ends in front of the quote. -/
theorem readComment_before_quote {dashes : List Char} (hdashes : Quoteless dashes)
    {r : Reading (List Char × Bool)} (h : readComment dashes (b ++ q :: x) = some r)
    (hr : r.rest = b' ++ q :: x) :
    readComment dashes (b ++ q' :: y) = some (r.followedBy (b' ++ q' :: y)) := by
  have htilde : Quoteless (dashes ++ ['~', '}', '}']) := hdashes.append (by decide)
  have hbare : Quoteless (dashes ++ ['}', '}']) := hdashes.append (by decide)
  induction b generalizing r with
  | nil =>
    have hnone {mark : List Char} (hmark : Quoteless mark) (hne : mark ≠ []) :
        ¬ mark.isPrefixOf (q :: x) = true := by
      have hend := isPrefixOf_append_cons (hq.not_mem hmark) [] x
      rw [List.nil_append] at hend
      rw [hend, List.isPrefixOf_iff_prefix, List.prefix_nil]
      exact hne
    rw [List.nil_append, readComment, if_neg (hnone htilde (by simp)),
      if_neg (hnone hbare (by simp))] at h
    obtain ⟨r', hr', rfl⟩ := Option.map_eq_some_iff.1 h
    -- The quote would be part of the comment, and still be behind it.
    have hlength := congrArg List.length (readComment_append hr')
    have hrest : r'.rest = b' ++ q :: x := hr
    simp only [hrest, List.length_append, List.length_cons] at hlength
    omega
  | cons c b ih =>
    have hsame {mark : List Char} (hmark : Quoteless mark) :
        mark.isPrefixOf (c :: (b ++ q' :: y)) = mark.isPrefixOf (c :: (b ++ q :: x)) :=
      isPrefixOf_append_quote hq hq' y hmark (c :: b)
    have hdrop {mark : List Char} {n : Nat} (hmark : Quoteless mark)
        (hn : mark.length = n) (hfits : mark.isPrefixOf (c :: (b ++ q :: x)) = true)
        (hrest : (c :: (b ++ q :: x)).drop n = b' ++ q :: x) :
        (c :: (b ++ q' :: y)).drop n = b' ++ q' :: y := by
      subst hn
      rw [← List.cons_append] at hfits hrest ⊢
      exact (drop_mark_append_quote hq hq' y hmark hfits hrest).2
    rw [List.cons_append, readComment] at h ⊢
    rw [hsame htilde, hsame hbare]
    split at h
    · cases h
      rw [if_pos ‹_›, hdrop htilde (by simp) ‹_› hr]
      rfl
    rw [if_neg ‹_›]
    split at h
    · cases h
      rw [if_pos ‹_›, hdrop hbare (by simp) ‹_› hr]
      rfl
    · obtain ⟨r', hr', rfl⟩ := Option.map_eq_some_iff.1 h
      rw [if_neg ‹_›, ih hr' hr]
      rfl

omit hq hq' in
/-- A mark that may stand in front is found or not found there whatever quote comes later. -/
theorem exists_front (mark : List Char) (hmark : Quoteless mark) (w : List Char) :
    ∃ front v, w = front ++ v ∧ Quoteless front
      ∧ ∀ {quote : Char}, IsQuote quote → ∀ u,
        (if mark.isPrefixOf (w ++ quote :: u) then mark else []) = front
          ∧ (w ++ quote :: u).drop front.length = v ++ quote :: u := by
  refine ⟨if mark.isPrefixOf w then mark else [], _, (ite_append_drop mark w).symm, ?_, ?_⟩
  · split
    · exact hmark
    · exact ⟨List.not_mem_nil, List.not_mem_nil⟩
  · intro quote hquote u
    rw [isPrefixOf_append_cons (hquote.not_mem hmark)]
    exact ⟨rfl, drop_append_of_isPrefix ⟨_, ite_append_drop mark w⟩⟩

/-- **A tag** in front of a quote. -/
theorem readTag_before_quote {p : Position} {r : Reading ItemShape}
    (h : readTag p (b ++ q :: x) = .ok r) (hr : r.rest = b' ++ q :: x) :
    readTag p (b ++ q' :: y) = .ok (r.followedBy (b' ++ q' :: y)) := by
  obtain ⟨tilde, v, -, -, htilde⟩ := exists_front ['~'] (by decide) b
  obtain ⟨htilde₀, hv₀⟩ := htilde hq x
  obtain ⟨htilde₁, hv₁⟩ := htilde hq' y
  by_cases hbang : ∃ w, v = '!' :: w
  · obtain ⟨w, rfl⟩ := hbang
    obtain ⟨dashes, c, -, hdashes, hfront⟩ := exists_front ['-', '-'] (by decide) w
    obtain ⟨hfront₀, hc₀⟩ := hfront hq x
    obtain ⟨hfront₁, hc₁⟩ := hfront hq' y
    have hread₀ := readTag_comment (p := p) htilde₀ hv₀
    have hread₁ := readTag_comment (p := p) htilde₁ hv₁
    simp only [hfront₀, hc₀, hfront₁, hc₁, List.append_eq] at hread₀ hread₁
    rw [hread₀] at h
    rw [hread₁]
    cases hcomment : readComment dashes (c ++ q :: x) with
    | none =>
      rw [hcomment] at h
      cases h
    | some r' =>
      rw [hcomment] at h
      cases h
      rw [readComment_before_quote hq hq' y hdashes hcomment hr]
      rfl
  -- another tag than a comment, with either quote
  · have hother {quote : Char} (hquote : IsQuote quote) (u : List Char) :
        ¬ ∃ w, v ++ quote :: u = '!' :: w := by
      rwa [bang_append_quote_iff hquote]
    obtain ⟨m, hm, hmark⟩ := readMark_before_quote hq hq' y v (x := x)
    rw [readTag_tag htilde₀ hv₀ (hother hq x)] at h
    rw [readTag_tag htilde₁ hv₁ (hother hq' y), hmark]
    obtain ⟨body, hbody, h⟩ := exists_of_bind_ok h
    cases h
    rw [hm] at hbody
    have hbody' := readBody_before_quote hq hq' y (TagRole.closing_unquoted _) hbody hr
    dsimp only [Reading.followedBy] at hbody' ⊢
    rw [hbody']
    rfl

/-! ## Content -/

/-- **Content** in front of a quote. -/
theorem readContent_before_quote (hr : (readContent (b ++ q :: x)).rest = b' ++ q :: x) :
    readContent (b ++ q' :: y) = (readContent (b ++ q :: x)).followedBy (b' ++ q' :: y) := by
  have hb : (readContent (b ++ q :: x)).lexeme ++ b' = b := by
    have happ := readContent_append (b ++ q :: x)
    rw [hr, ← List.append_assoc] at happ
    exact List.append_cancel_right happ
  generalize hs : b ++ q :: x = s at hr hb ⊢
  fun_induction readContent s generalizing b
  · simp at hs
  · obtain ⟨w, rfl, -⟩ := hq.exists_of_braces hr
    subst hb
    rfl
  · rename_i s r ih
    subst hb
    have hmore : r.lexeme ++ b' ++ q :: x = s := by simpa using hs
    have hread := ih hmore hr rfl
    show readContent ('\\' :: '{' :: '{' :: (r.lexeme ++ b' ++ q' :: y)) = _
    rw [readContent, hread]
    rfl
  · obtain ⟨w, rfl, -⟩ := hq.exists_of_braces hr
    subst hb
    rfl
  · rename_i c s hescaped hescape hopen r ih
    subst hb
    have hmore : r.lexeme ++ b' ++ q :: x = s := by simpa using hs
    have hread := ih hmore hr rfl
    -- What begins neither a tag nor an escape does not begin one in front of another quote.
    have hsame (mark : List Char) (hmark : Quoteless mark)
        (h : mark <+: r.lexeme ++ b' ++ q' :: y) : mark <+: s := by
      rw [← hmore, isPrefix_append_cons_iff (hq.not_mem hmark)]
      rwa [isPrefix_append_cons_iff (hq'.not_mem hmark)] at h
    show readContent (c :: (r.lexeme ++ b' ++ q' :: y)) = _
    rw [readContent, hread]
    · rfl
    · rintro u rfl heq
      obtain ⟨u, hu⟩ := hsame ['\\', '{', '{'] (by decide) ⟨_, heq.symm⟩
      exact hescaped u rfl hu.symm
    · rintro u rfl heq
      obtain ⟨u, hu⟩ := hsame ['{', '{'] (by decide) ⟨_, heq.symm⟩
      exact hescape u rfl hu.symm
    · rintro u rfl heq
      obtain ⟨u, hu⟩ := hsame ['{'] (by decide) ⟨_, heq.symm⟩
      exact hopen u rfl hu.symm

end Readers

end Stache
