/-
  Content, marks and comments by offsets.

  The readers below find out what stands at an offset and move it on: by the width of a mark, to
  where something is found, or to where a text without its blanks begins.

    contentFrom    `readContent`
    scanMark       `readMark`
    scanComment    `readComment`

  Where the list is taken apart character by character, here a mark is searched for in all that is
  left.  So the heart of each comparison is where the search ends (`readContent_of_find`,
  `earliest_of_readComment`).
-/
import Stache.Proofs.Checked.Tokens
import Stache.Template.Item.Read

namespace Stache.Checked

/-! ## Items -/

/-- A tag with the offsets of its tokens and of its closing mark. -/
structure LexedTag where
  kind : TagRole
  tokens : List Lexed
  bodyEnd : Nat
  strip : Strip

/-- What an item is, by offsets. -/
inductive LexedShape where
  | content (value written : String)
  | comment (text : String) (strip : Strip)
  | tag (tag : LexedTag)

/-- An item, and the offsets between which it stands. -/
structure LexedItem where
  shape : LexedShape
  start : Nat
  stop : Nat

section Readers

variable (text : List Char)

/-! ## Content -/

/-- Reads content from an offset on, behind the content `value`. -/
def contentFrom (n : Nat) (value : List Char) : Checked (List Char × Nat) := do
  let s ← rest text n
  match find ['{', '{'] s with
  | none => return (value ++ s, bytes text)
  | some i =>
    let run ← upTo s i
    if ['\\', '\\'].isSuffixOf run then
      let kept ← upTo run (← minus .offset (bytes run) 1)
      return (value ++ kept, n + i)
    else if ['\\'].isSuffixOf run then
      let next ← onward text n (n + (i + 2))
      contentFrom next.1 (value ++ (run.dropLast ++ ['{', '{']))
    else return (value ++ run, n + i)
termination_by bytes text - n
decreasing_by exact next.2

/-! ## Marks -/

/-- The offset behind a mark, if it stands at the offset `n`. -/
def eat (mark : List Char) (n : Nat) : Checked (Option Nat) := do
  let s ← rest text n
  return if mark.isPrefixOf s then some (n + bytes mark) else none

/-- The offset behind the blanks that stand at an offset. -/
def skipBlanks (n : Nat) : Checked Nat := do
  let s ← rest text n
  minus .offset (bytes text) (bytes (Text.dropBlankStart s))

/-- The marks that tell the kind of a tag, in the order in which they are tried. -/
def openers : List (List Char × TagRole) :=
  [(['#', '>'], .openPartialBlock), (['#', '*'], .openDecoratorBlock), (['#'], .openBlock),
   (['/'], .closeMark), (['>'], .partialCall), (['*'], .decorator), (['{'], .mustache .triple),
   (['&'], .mustache .ampersand), (['^'], .openInverse)]

/-- The kind of the first of some marks that stands at an offset, and the offset behind it. -/
def scanOpener (n : Nat) : List (List Char × TagRole) → Checked (Option (TagRole × Nat))
  | [] => return none
  | (mark, kind) :: more => do
    match ← eat text mark n with
    | some next => return some (kind, next)
    | none => scanOpener n more

/-- The offset behind the word `else`, with blanks before it, if it stands at an offset. -/
def eatElse (n : Nat) : Checked (Option Nat) := do
  let s ← rest text n
  let trimmed := Text.dropBlankStart s
  if ['e', 'l', 's', 'e'].isPrefixOf trimmed then
    match trimmed.drop 4 with
    | [] => return none
    | c :: t =>
      if Text.isBlank c || c = '~' || c = '}' then
        return some (← minus .offset (bytes text) (bytes (c :: t)))
      else return none
  else return none

/-- The kind of a tag that turns into an else tag where nothing but the closing mark follows. -/
def orElseMark (kind : TagRole) (n : Nat) : Checked (TagRole × Nat) := do
  let s ← rest text n
  return (if closesAtOnce s then .elseMark else kind, n)

/-- Reads what follows the opening braces and tells the kind of a tag. -/
def scanMark (n : Nat) : Checked (TagRole × Nat) := do
  match ← scanOpener text n openers with
  | some (kind, next) =>
    if kind = .openInverse then orElseMark text .openInverse next else return (kind, next)
  | none =>
    match ← eatElse text n with
    | some next => orElseMark text .elseChain next
    | none => return (.mustache .plain, n)

/-! ## Comments -/

/-- The first place where `s` goes on with one of some marks, and the mark; of two marks at the same
    place, the one that is listed first. -/
def earliest (s : List Char) : List (List Char) → Option (Nat × List Char)
  | [] => none
  | mark :: marks =>
    match find mark s, earliest s marks with
    | none, found => found
    | some i, none => some (i, mark)
    | some i, some found => if i ≤ found.1 then some (i, mark) else some found

/-- Reads a comment from behind its exclamation mark on.  Its tag stands at `start`. -/
def scanComment (start : Nat) (tilde : Bool) (n : Nat) : Checked LexedItem := do
  let long ← eat text ['-', '-'] n
  let dashes := if long.isSome then ['-', '-'] else []
  let body := long.getD n
  let s ← rest text body
  match earliest s [dashes ++ ['~', '}', '}'], dashes ++ ['}', '}']] with
  | none => failAt text start .unterminatedComment
  | some (i, terminator) =>
    let comment ← slice text body (body + i)
    let strip : Strip := ⟨tilde, (dashes ++ ['~']).isPrefixOf terminator⟩
    return ⟨.comment (String.ofList comment) strip, start, body + i + bytes terminator⟩

end Readers

/-! ## Content is read alike -/

/-- What is read of content that stands in front of two opening braces and `t`. -/
def readRun (run t : List Char) : Reading (List Char) :=
  if ['\\', '\\'].isSuffixOf run then ⟨run.dropLast, run, '{' :: '{' :: t⟩
  else if ['\\'].isSuffixOf run then
    let r := readContent t
    ⟨run.dropLast ++ '{' :: '{' :: r.value, run ++ '{' :: '{' :: r.lexeme, r.rest⟩
  else ⟨run, run, '{' :: '{' :: t⟩

theorem isSuffixOf_cons {mark run : List Char} {c : Char} (h : mark ≠ c :: run) :
    mark.isSuffixOf (c :: run) = mark.isSuffixOf run := by
  rw [Bool.eq_iff_iff, List.isSuffixOf_iff_suffix, List.isSuffixOf_iff_suffix,
    List.suffix_cons_iff]
  exact or_iff_right h

/-- A character in front of a run is content, unless it is a backslash that counts. -/
theorem readRun_cons {c : Char} {run : List Char} (hpair : c = '\\' → run ≠ ['\\'])
    (hescape : c = '\\' → run ≠ []) (t : List Char) :
    readRun (c :: run) t
      = ⟨c :: (readRun run t).value, c :: (readRun run t).lexeme, (readRun run t).rest⟩ := by
  have htwo : ['\\', '\\'].isSuffixOf (c :: run) = ['\\', '\\'].isSuffixOf run := by
    refine isSuffixOf_cons ?_
    intro heq
    obtain ⟨rfl, rfl⟩ := List.cons.inj heq
    exact hpair rfl rfl
  have hone : ['\\'].isSuffixOf (c :: run) = ['\\'].isSuffixOf run := by
    refine isSuffixOf_cons ?_
    intro heq
    obtain ⟨rfl, rfl⟩ := List.cons.inj heq
    exact hescape rfl rfl
  -- what ends with a mark is not empty, so its end is not its first character
  have hlast {mark : List Char} (hmark : mark ≠ []) (h : mark.isSuffixOf run = true) :
      (c :: run).dropLast = c :: run.dropLast := by
    refine List.dropLast_cons_of_ne_nil ?_
    rintro rfl
    exact hmark (List.suffix_nil.1 (List.isSuffixOf_iff_suffix.1 h))
  unfold readRun
  rw [htwo, hone]
  split
  · rename_i h
    rw [hlast (List.cons_ne_nil _ _) h]
  · split
    · rename_i h
      rw [hlast (List.cons_ne_nil _ _) h]
      rfl
    · rfl

/-- Content is read up to the first two opening braces, and beyond these if they are escaped. -/
theorem readContent_of_find (s : List Char) :
    match find ['{', '{'] s with
    | none => readContent s = ⟨s, s, []⟩
    | some i =>
      ∃ run t, s = run ++ '{' :: '{' :: t ∧ i = bytes run ∧ readContent s = readRun run t := by
  fun_induction readContent s with
  | case1 => rfl
  | case2 s => exact ⟨['\\', '\\'], s, rfl, rfl, rfl⟩
  | case3 s r ih => exact ⟨['\\'], s, rfl, rfl, rfl⟩
  | case4 s => exact ⟨[], s, rfl, rfl, rfl⟩
  -- no braces begin here, so the search goes on as the reader does
  | case5 c s hpair hescape hbraces r ih =>
    have hprefix : ['{', '{'].isPrefixOf (c :: s) = false := by
      rw [← Bool.not_eq_true, List.isPrefixOf_iff_prefix]
      rintro ⟨t, ht⟩
      obtain ⟨rfl, rfl⟩ := List.cons.inj ht
      exact hbraces t rfl rfl
    rw [find, hprefix, if_neg Bool.false_ne_true]
    cases hfind : find ['{', '{'] s with
    | none =>
      rw [hfind] at ih
      show (⟨c :: (readContent s).value, c :: (readContent s).lexeme, (readContent s).rest⟩
        : Reading (List Char)) = _
      rw [ih]
    | some i =>
      rw [hfind] at ih
      obtain ⟨run, t, rfl, rfl, hread⟩ := ih
      refine ⟨c :: run, t, rfl, ?_, ?_⟩
      · rw [bytes_cons, Nat.add_comm]
      · show (⟨c :: (readContent _).value, c :: (readContent _).lexeme, (readContent _).rest⟩
          : Reading (List Char)) = _
        rw [hread, readRun_cons]
        · rintro rfl rfl
          exact hpair t rfl rfl
        · rintro rfl rfl
          exact hescape t rfl rfl

variable {text s : List Char} {n : Nat} {p : Position}

/-- **Content is read by offsets** as it is read from a list. -/
theorem Stands.contentFrom (h : Stands text n p s) (value : List Char) :
    contentFrom text n value
      = .ok (value ++ (readContent s).value, n + bytes (readContent s).lexeme) := by
  obtain ⟨k, hk⟩ : ∃ k, s.length = k := ⟨_, rfl⟩
  -- an escaped pair of braces is text, and the search begins anew behind it
  induction k using Nat.strongRecOn generalizing s n p value with
  | ind k ih =>
    have hread := readContent_of_find s
    rw [Checked.contentFrom, h.rest, ok_bind]
    cases hfind : find ['{', '{'] s with
    | none =>
      rw [hfind] at hread
      rw [hread, ← h.size_eq]
      rfl
    | some i =>
      rw [hfind] at hread
      obtain ⟨run, t, rfl, rfl, hrun⟩ := hread
      dsimp only
      rw [upTo_append, ok_bind, hrun, readRun]
      split
      -- two backslashes: one of them is kept, and the braces begin a tag
      · rename_i hsuffix
        obtain ⟨kept, hkept⟩ := List.isSuffixOf_iff_suffix.1 hsuffix
        have hsplit : run = (kept ++ ['\\']) ++ ['\\'] := by
          rw [← hkept, List.append_assoc]
          rfl
        have hdrop : run.dropLast = kept ++ ['\\'] := by rw [hsplit, List.dropLast_concat]
        have hbytes : bytes run = bytes (kept ++ ['\\']) + 1 := by
          rw [hsplit, bytes_append]
          rfl
        rw [hbytes, minus_add, ok_bind, hdrop]
        have hupTo : upTo run (bytes (kept ++ ['\\'])) = .ok (kept ++ ['\\']) := by
          rw [hsplit]
          exact upTo_append _ _
        rw [hupTo]
        rfl
      · split
        -- one backslash: it is dropped, and the braces are text
        · have hmove : Stands text n p ((run ++ ['{', '{']) ++ t) := by simpa using h
          have hbehind := hmove.move
          have hbytes : bytes (run ++ ['{', '{']) = bytes run + 2 := bytes_append _ _
          rw [hbytes] at hbehind
          obtain ⟨hdecreases, honward⟩ := hbehind.onward (n := n) (by omega)
          have hshorter : t.length < k := by
            rw [← hk, List.length_append, List.length_cons, List.length_cons]
            omega
          have hbrace : '{'.utf8Size = 1 := rfl
          rw [honward, ok_bind, ih t.length hshorter hbehind _ rfl]
          simp only [List.append_assoc, List.cons_append, List.nil_append, bytes_append, bytes_cons,
            hbrace, Except.ok.injEq, Prod.mk.injEq, true_and]
          omega
        · rfl

/-! ## Marks are read alike -/

theorem Stands.eat (h : Stands text n p s) (mark : List Char) :
    eat text mark n = .ok (if mark.isPrefixOf s then some (n + bytes mark) else none) := by
  rw [Checked.eat, h.rest]
  rfl

/-- Behind the blanks at a place. -/
theorem Stands.gap (h : Stands text n p s) :
    Stands text (n + bytes (s.takeWhile Text.isBlank)) (p.advance (s.takeWhile Text.isBlank))
      (s.dropWhile Text.isBlank) := by
  refine Stands.move ?_
  rwa [List.takeWhile_append_dropWhile]

theorem Stands.skipBlanks (h : Stands text n p s) :
    skipBlanks text n = .ok (n + bytes (s.takeWhile Text.isBlank)) := by
  rw [Checked.skipBlanks, h.rest, ok_bind, h.gap.size_eq]
  exact minus_add _ _ _

theorem Stands.orElseMark (h : Stands text n p s) (kind : TagRole) :
    orElseMark text kind n = .ok (if closesAtOnce s then .elseMark else kind, n) := by
  rw [Checked.orElseMark, h.rest]
  rfl

/-- Nothing is read where the word does not stand behind the blanks. -/
theorem elseOf_eq_nil (h : ¬ ['e', 'l', 's', 'e'] <+: s.dropWhile Text.isBlank) : elseOf s = [] := by
  unfold elseOf
  split
  · rename_i c t htrimmed
    exact absurd ⟨c :: t, htrimmed.symm⟩ h
  · rfl

/-- The word `else` is taken where no name goes on with it. -/
theorem Stands.eatElse (h : Stands text n p s) :
    eatElse text n
      = .ok (if (elseOf s).isEmpty then none else some (n + bytes (elseOf s))) := by
  have hgap := h.gap
  rw [Checked.eatElse, h.rest, ok_bind, Text.dropBlankStart]
  dsimp only
  by_cases hword : ['e', 'l', 's', 'e'] <+: s.dropWhile Text.isBlank
  · rw [if_pos (List.isPrefixOf_iff_prefix.2 hword)]
    obtain ⟨t, ht⟩ := hword
    -- the text may end with the word, and then it is no tag
    cases t with
    | nil =>
      have helse : elseOf s = [] := by
        rw [elseOf, Text.dropBlankStart, ← ht]
        rfl
      rw [← ht, helse]
      rfl
    | cons c t =>
      have helse : elseOf s = if Text.isBlank c || c = '~' || c = '}' then
          s.takeWhile Text.isBlank ++ "else".toList else [] := by
        rw [elseOf, Text.dropBlankStart, ← ht]
        rfl
      rw [← ht] at hgap ⊢
      rw [helse]
      dsimp only [List.cons_append, List.nil_append, List.drop]
      split
      · have hbytes : bytes (s.takeWhile Text.isBlank ++ "else".toList)
            = bytes (s.takeWhile Text.isBlank) + 4 := bytes_append _ _
        have hsize : bytes text = n + bytes (s.takeWhile Text.isBlank) + 4 + bytes (c :: t) :=
          hgap.move.size_eq
        have hempty : (s.takeWhile Text.isBlank ++ "else".toList).isEmpty = false := by
          simp
        rw [hsize, minus_add, ok_bind, hempty, hbytes, Nat.add_assoc]
        rfl
      · rfl
  · rw [if_neg fun hprefix => hword (List.isPrefixOf_iff_prefix.1 hprefix), elseOf_eq_nil hword]
    rfl

/-- The first mark of the list that comes next is taken. -/
theorem Stands.scanOpener (h : Stands text n p s) (marks : List (List Char × TagRole)) :
    scanOpener text n marks
      = .ok ((marks.find? fun m => m.1.isPrefixOf s).map fun m => (m.2, n + bytes m.1)) := by
  induction marks with
  | nil => rfl
  | cons m marks ih =>
    rw [Checked.scanOpener, h.eat, ok_bind, List.find?_cons]
    cases m.1.isPrefixOf s with
    | true => rfl
    | false => exact ih

theorem isPrefixOf_eq_false {c : Char} {mark : List Char} (h : ∀ t, s = c :: t → False) :
    (c :: mark).isPrefixOf s = false := by
  rw [← Bool.not_eq_true, List.isPrefixOf_iff_prefix]
  rintro ⟨t, rfl⟩
  exact h _ rfl

/-- No mark stands where none of their first characters does. -/
theorem find_openers_eq_none (h₁ : ∀ t, s = '#' :: t → False) (h₂ : ∀ t, s = '/' :: t → False)
    (h₃ : ∀ t, s = '>' :: t → False) (h₄ : ∀ t, s = '*' :: t → False)
    (h₅ : ∀ t, s = '{' :: t → False) (h₆ : ∀ t, s = '&' :: t → False)
    (h₇ : ∀ t, s = '^' :: t → False) : openers.find? (fun m => m.1.isPrefixOf s) = none := by
  simp only [openers, List.find?_cons, List.find?_nil, isPrefixOf_eq_false h₁,
    isPrefixOf_eq_false h₂, isPrefixOf_eq_false h₃, isPrefixOf_eq_false h₄,
    isPrefixOf_eq_false h₅, isPrefixOf_eq_false h₆, isPrefixOf_eq_false h₇]

/-- The kind of a tag is read by offsets as it is read from a list. -/
theorem Stands.scanMark (h : Stands text n p s) :
    scanMark text n = .ok ((readMark s).value, n + bytes (readMark s).lexeme) := by
  have helse := h.behind (elseOf_isPrefix s)
  rw [Checked.scanMark, h.scanOpener, ok_bind]
  -- the marks of both readers stand in the same order
  fun_cases readMark s with
  | case1 => rfl
  | case2 => rfl
  | case3 t hpartial hdecorator =>
    simp only [openers, List.find?_cons, List.isPrefixOf, isPrefixOf_eq_false hpartial,
      isPrefixOf_eq_false hdecorator, Bool.and_false]
    rfl
  | case4 => rfl
  | case5 => rfl
  | case6 => rfl
  | case7 => rfl
  | case8 => rfl
  | case9 t =>
    have hbehind : Stands text (n + 1) (p.next '^') t := h.next
    exact hbehind.orElseMark .openInverse
  | case10 word rest hword =>
    rw [find_openers_eq_none (by assumption) (by assumption) (by assumption) (by assumption)
      (by assumption) (by assumption) (by assumption)]
    dsimp only [Option.map_none]
    rw [h.eatElse, ok_bind, if_pos hword, if_pos hword]
    rfl
  | case11 word rest hword =>
    rw [find_openers_eq_none (by assumption) (by assumption) (by assumption) (by assumption)
      (by assumption) (by assumption) (by assumption)]
    dsimp only [Option.map_none]
    rw [h.eatElse, ok_bind, if_neg hword, if_neg hword]
    exact helse.orElseMark .elseChain

/-! ## Comments are read alike -/

/-- Where none of the marks stands, they are looked for behind the next character. -/
theorem earliest_cons {c : Char} {marks : List (List Char)}
    (h : ∀ mark ∈ marks, mark.isPrefixOf (c :: s) = false) :
    earliest (c :: s) marks
      = (earliest s marks).map fun found => (found.1 + c.utf8Size, found.2) := by
  induction marks with
  | nil => rfl
  | cons mark marks ih =>
    obtain ⟨hmark, hmarks⟩ := List.forall_mem_cons.1 h
    have hfind : find mark (c :: s) = (find mark s).map (· + c.utf8Size) := by
      rw [find, hmark, if_neg Bool.false_ne_true]
    rw [earliest, earliest, hfind, ih hmarks]
    cases find mark s with
    | none => rfl
    | some i =>
      cases earliest s marks with
      | none => rfl
      | some found =>
        simp only [Option.map_some, Nat.add_le_add_iff_right]
        split <;> rfl

/-- The mark that closes a comment. -/
def terminator (dashes : List Char) (tilde : Bool) : List Char :=
  dashes ++ if tilde then ['~', '}', '}'] else ['}', '}']

/-- A comment ends at the first of its two closing marks. -/
theorem earliest_of_readComment (dashes s : List Char) :
    match readComment dashes s with
    | none => earliest s [dashes ++ ['~', '}', '}'], dashes ++ ['}', '}']] = none
    | some r =>
      earliest s [dashes ++ ['~', '}', '}'], dashes ++ ['}', '}']]
          = some (bytes r.value.1, terminator dashes r.value.2)
        ∧ r.lexeme = r.value.1 ++ terminator dashes r.value.2 := by
  fun_induction readComment dashes s with
  | case1 =>
    cases dashes <;> rfl
  | case2 c s htilde =>
    refine ⟨?_, rfl⟩
    rw [earliest, find, if_pos htilde]
    cases earliest (c :: s) [dashes ++ ['}', '}']] with
    | none => rfl
    | some found => rfl
  -- the shorter mark is here, and the longer one can only come later
  | case3 c s htilde hbare =>
    refine ⟨?_, rfl⟩
    have hpos := c.utf8Size_pos
    have hfind : earliest (c :: s) [dashes ++ ['}', '}']] = some (0, dashes ++ ['}', '}']) := by
      rw [earliest, find, if_pos hbare]
      rfl
    rw [earliest, hfind, find, if_neg htilde]
    cases find (dashes ++ ['~', '}', '}']) s with
    | none => rfl
    | some i =>
      have hlt : ¬ i + c.utf8Size ≤ 0 := by omega
      dsimp only [Option.map_some]
      rw [if_neg hlt]
      rfl
  | case4 c s htilde hbare ih =>
    have hnone : ∀ mark ∈ [dashes ++ ['~', '}', '}'], dashes ++ ['}', '}']],
        mark.isPrefixOf (c :: s) = false := by
      simp only [List.forall_mem_cons, List.not_mem_nil, false_imp_iff, implies_true, and_true]
      exact ⟨Bool.not_eq_true _ ▸ htilde, Bool.not_eq_true _ ▸ hbare⟩
    rw [earliest_cons hnone]
    cases hread : readComment dashes s with
    | none =>
      rw [hread] at ih
      simp only [Option.map_none]
      rw [ih]
      rfl
    | some r =>
      rw [hread] at ih
      obtain ⟨hfound, hlexeme⟩ := ih
      simp only [Option.map_some, hfound, hlexeme, List.cons_append, bytes_cons,
        Nat.add_comm c.utf8Size, and_self]

/-- **Comments are read alike.** -/
theorem Stands.scanComment {start : Nat} {q : Position} {t : List Char}
    (hstart : Stands text start q t) (h : Stands text n p s) (tilde : Bool) :
    let dashes := if ['-', '-'].isPrefixOf s then ['-', '-'] else []
    scanComment text start tilde n = match readComment dashes (s.drop dashes.length) with
      | none => .error (.error ⟨.unterminatedComment, q.reported⟩)
      | some r => .ok ⟨.comment (String.ofList r.value.1) ⟨tilde, r.value.2⟩, start,
          n + bytes dashes + bytes r.lexeme⟩ := by
  intro dashes
  have hdashes : dashes <+: s := ⟨_, ite_append_drop ['-', '-'] s⟩
  have hbody := h.behind hdashes
  have hlong : (if ['-', '-'].isPrefixOf s then some (n + bytes ['-', '-']) else none).getD n
      = n + bytes dashes := by
    show _ = n + bytes (if _ then _ else _)
    split <;> rfl
  have hmark : (if (if ['-', '-'].isPrefixOf s then some (n + bytes ['-', '-'])
      else none).isSome then ['-', '-'] else []) = dashes := by
    show _ = if _ then _ else _
    split <;> rfl
  -- the mark found tells whether there is a tilde in it
  have hcloses (tilde : Bool) :
      (dashes ++ ['~']).isPrefixOf (terminator dashes tilde) = tilde := by
    have hcases : dashes = [] ∨ dashes = ['-', '-'] := by
      show (if _ then _ else _) = _ ∨ (if _ then _ else _) = _
      split
      · exact .inr rfl
      · exact .inl rfl
    rcases hcases with hd | hd
    · rw [hd]
      cases tilde <;> rfl
    · rw [hd]
      cases tilde <;> rfl
  rw [Checked.scanComment, h.eat, ok_bind]
  dsimp only
  rw [hlong, hmark, hbody.rest, ok_bind]
  have hfound := earliest_of_readComment dashes (s.drop dashes.length)
  cases hread : readComment dashes (s.drop dashes.length) with
  | none =>
    rw [hread] at hfound
    rw [hfound]
    exact hstart.failAt _
  | some r =>
    rw [hread] at hfound
    obtain ⟨hfound, hlexeme⟩ := hfound
    have happend := readComment_append hread
    rw [hlexeme, List.append_assoc] at happend
    rw [← happend] at hbody
    rw [hfound]
    dsimp only
    rw [hbody.slice, ok_bind, hcloses, hlexeme, bytes_append, Nat.add_assoc (n + bytes dashes)]
    rfl

end Stache.Checked
