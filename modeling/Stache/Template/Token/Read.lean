/-
  Reading one token.

  Every reader below cuts the text it is given in two, and its result says so: `Reading` holds what
  was read, the characters that wrote it, and the rest. The law is `read_append`: lexeme and rest
  give back the text. With `read_ne_nil` (a lexeme is never empty) it bounds every loop over tokens.

    1. quoted texts: a backslash before the closing quote keeps the quote and drops the backslash;
    2. literal segments: whatever stands up to the next closing bracket;
    3. words: a number, `as |`, one of four keywords, or else a name. Numbers and keywords count as
       such only where a tag, a parenthesis or a blank follows; otherwise the same characters are
       part of a name, so `12a`, `true.x` and `null=1` are names.
-/
import Stache.Text.Blank
import Stache.Template.Fault

namespace Stache

/-- What a reader took off the front of a text. -/
structure Reading (α : Type) where
  value : α
  lexeme : List Char
  rest : List Char

/-! ## Character classes -/

/-- The characters that end a name, besides blanks. -/
def nameEnds : List Char :=
  ['!', '"', '#', '%', '&', '\'', '(', ')', '*', '+', ',', '.', '/', ';', '<', '=', '>', '@', '[',
   '\\', ']', '^', '\x60', '{', '|', '}', '~']

/-- A name may have the character in it. -/
def isNameChar (c : Char) : Bool := !(Text.isBlank c || nameEnds.contains c)

/-- Whether `s` is at its end or goes on with a blank or one of `marks`. -/
def endsBefore (marks : List Char) : List Char → Bool
  | [] => true
  | c :: _ => Text.isBlank c || marks.contains c

/-- What may follow a lone dot for it to be a segment and not a separator. -/
def dotEnds : List Char := ['=', '~', '}', '/', '.', ')', '|']

/-- What may follow a number or a keyword. -/
def literalEnds : List Char := ['~', '}', ')']

/-! ## Quoted texts -/

/-- Reads up to and including the closing `quote`. -/
def readQuoted (quote : Char) : List Char → Option (Reading (List Char))
  | [] => none
  | '\\' :: d :: s =>
    if d = quote then
      (readQuoted quote s).map fun r => ⟨quote :: r.value, '\\' :: d :: r.lexeme, r.rest⟩
    else
      (readQuoted quote (d :: s)).map fun r => ⟨'\\' :: r.value, '\\' :: r.lexeme, r.rest⟩
  | c :: s =>
    if c = quote then some ⟨[], [c], s⟩
    else (readQuoted quote s).map fun r => ⟨c :: r.value, c :: r.lexeme, r.rest⟩

/-! ## Words -/

/-- The fraction that `s` begins with: a dot and at least one digit, or nothing. -/
def fractionOf (s : List Char) : List Char :=
  match s with
  | '.' :: t => if (t.takeWhile Char.isDigit).isEmpty then [] else '.' :: t.takeWhile Char.isDigit
  | _ => []

/-- The unsigned number that `s` begins with, or nothing. -/
def unsignedOf (s : List Char) : List Char :=
  let whole := s.takeWhile Char.isDigit
  if whole.isEmpty then [] else whole ++ fractionOf (s.dropWhile Char.isDigit)

/-- The number that `s` begins with, or nothing: an optional minus sign, digits, and an optional
    fraction. -/
def numberOf (s : List Char) : List Char :=
  match s with
  | '-' :: t => if (unsignedOf t).isEmpty then [] else '-' :: unsignedOf t
  | _ => unsignedOf s

/-- The words `as |` that `s` begins with, with the blanks between them, or nothing. -/
def asPipeOf (s : List Char) : List Char :=
  match s with
  | 'a' :: 's' :: t =>
    let gap := t.takeWhile Text.isBlank
    match t.dropWhile Text.isBlank with
    | '|' :: _ => if gap.isEmpty then [] else 'a' :: 's' :: (gap ++ ['|'])
    | _ => []
  | _ => []

/-- The kind of a word, given whether a keyword may end where it ends. -/
def wordKind (word : List Char) (atEnd : Bool) : TokenKind :=
  if atEnd && word = "true".toList then .boolean true
  else if atEnd && word = "false".toList then .boolean false
  else if atEnd && word = "undefined".toList then .undefined
  else if atEnd && word = "null".toList then .null
  else .name (String.ofList word) false

/-- Cuts `lexeme` off the front of `s`. -/
def Reading.cut (value : TokenKind) (lexeme s : List Char) : Reading TokenKind :=
  ⟨value, lexeme, s.drop lexeme.length⟩

/-- A number, `as |`, a keyword, or a name, whichever comes first in this order. -/
def readWord (c : Char) (s : List Char) : Except ParseFault (Reading TokenKind) :=
  let text := c :: s
  let digits := numberOf text
  let opener := asPipeOf text
  let word := text.takeWhile isNameChar
  -- digits count as a number only where nothing of a name follows
  if !digits.isEmpty && endsBefore literalEnds (text.drop digits.length) then
    .ok (.cut .number digits text)
  else if !opener.isEmpty then .ok (.cut .asPipe opener text)
  else if word.isEmpty then .error (.invalidCharacter c)
  else .ok (.cut (wordKind word (endsBefore literalEnds (text.drop word.length))) word text)

/-! ## Tokens -/

/-- Reads the token that begins with the character `c` and goes on in `s`. -/
def TokenKind.read (c : Char) (s : List Char) : Except ParseFault (Reading TokenKind) :=
  match c with
  | '(' => .ok ⟨.openParen, [c], s⟩
  | ')' => .ok ⟨.closeParen, [c], s⟩
  | '=' => .ok ⟨.equals, [c], s⟩
  | '@' => .ok ⟨.atSign, [c], s⟩
  | '|' => .ok ⟨.pipe, [c], s⟩
  | '/' => .ok ⟨.separator c, [c], s⟩
  | '.' =>
    match s with
    -- two dots are a name of their own
    | '.' :: t => .ok ⟨.name ".." false, ['.', '.'], t⟩
    | _ => .ok ⟨if endsBefore dotEnds s then .name "." false else .separator c, [c], s⟩
  | '[' =>
    let name := s.takeWhile (· ≠ ']')
    match s.dropWhile (· ≠ ']') with
    | [] => .error .unterminatedSegment
    | d :: t => .ok ⟨.name (String.ofList name) true, c :: (name ++ [d]), t⟩
  | '"' | '\'' =>
    match readQuoted c s with
    | none => .error .unterminatedString
    | some r => .ok ⟨.string (String.ofList r.value), c :: r.lexeme, r.rest⟩
  | _ => readWord c s

/-! ## Nothing is lost -/

/-- A quoted text takes its closing quote along. -/
theorem readQuoted_append {quote : Char} {s : List Char} {r : Reading (List Char)}
    (h : readQuoted quote s = some r) : r.lexeme ++ r.rest = s := by
  fun_induction readQuoted quote s generalizing r with
  | case1 => simp at h
  | case2 s ih =>
    obtain ⟨r', hr', rfl⟩ := Option.map_eq_some_iff.1 h
    simp [ih hr']
  | case3 d s hd ih =>
    obtain ⟨r', hr', rfl⟩ := Option.map_eq_some_iff.1 h
    simp [ih hr']
  | case4 s _ => cases h; rfl
  | case5 c s _ hc ih =>
    obtain ⟨r', hr', rfl⟩ := Option.map_eq_some_iff.1 h
    simp [ih hr']

/-- The fraction of a number is taken off the front, if there is one. -/
theorem fractionOf_isPrefix (s : List Char) : fractionOf s <+: s := by
  unfold fractionOf
  split
  · split
    · exact List.nil_prefix
    · exact List.cons_prefix_cons.2 ⟨rfl, List.takeWhile_prefix _⟩
  · exact List.nil_prefix

/-- So are its digits, -/
theorem unsignedOf_isPrefix (s : List Char) : unsignedOf s <+: s := by
  unfold unsignedOf
  dsimp only
  split
  · exact List.nil_prefix
  · obtain ⟨t, ht⟩ := fractionOf_isPrefix (s.dropWhile Char.isDigit)
    exact ⟨t, by rw [List.append_assoc, ht, List.takeWhile_append_dropWhile]⟩

/-- and the number with its sign. -/
theorem numberOf_isPrefix (s : List Char) : numberOf s <+: s := by
  unfold numberOf
  split
  · split
    · exact List.nil_prefix
    · exact List.cons_prefix_cons.2 ⟨rfl, unsignedOf_isPrefix _⟩
  · exact unsignedOf_isPrefix _

/-- So are the words that open a list of block parameters, and the blanks in them. -/
theorem asPipeOf_isPrefix (s : List Char) : asPipeOf s <+: s := by
  unfold asPipeOf
  split
  · rename_i t
    dsimp only
    split
    · rename_i u hu
      split
      · exact List.nil_prefix
      · refine ⟨u, ?_⟩
        have := List.takeWhile_append_dropWhile (p := Text.isBlank) (l := t)
        rw [hu] at this
        simp [this]
    · exact List.nil_prefix
  · exact List.nil_prefix

theorem Reading.cut_append {value : TokenKind} {lexeme s : List Char} (h : lexeme <+: s) :
    (cut value lexeme s).lexeme ++ (cut value lexeme s).rest = s :=
  List.prefix_iff_eq_append.1 h

/-- So a word is cut off the front, whichever kind it is. -/
theorem readWord_append {c : Char} {s : List Char} {r : Reading TokenKind}
    (h : readWord c s = .ok r) : r.lexeme ++ r.rest = c :: s := by
  unfold readWord at h
  dsimp only at h
  split at h
  · cases h; exact Reading.cut_append (numberOf_isPrefix _)
  · split at h
    · cases h; exact Reading.cut_append (asPipeOf_isPrefix _)
    · split at h
      · cases h
      · cases h; exact Reading.cut_append <| List.takeWhile_prefix _

/-- No word is empty. -/
theorem readWord_ne_nil {c : Char} {s : List Char} {r : Reading TokenKind}
    (h : readWord c s = .ok r) : r.lexeme ≠ [] := by
  unfold readWord at h
  dsimp only at h
  -- each of the three is looked for only if it is not empty
  split at h
  · rename_i hd
    cases h
    intro he
    simp only [Reading.cut] at he
    simp [he] at hd
  · split at h
    · rename_i hd
      cases h
      intro he
      simp only [Reading.cut] at he
      simp [he] at hd
    · split at h
      · cases h
      · rename_i hd
        cases h
        intro he
        simp only [Reading.cut] at he
        simp [he] at hd

/-- **No character is lost**: a token is cut off the front. -/
theorem TokenKind.read_append {c : Char} {s : List Char} {r : Reading TokenKind}
    (h : TokenKind.read c s = .ok r) : r.lexeme ++ r.rest = c :: s := by
  unfold TokenKind.read at h
  split at h
  -- marks of one character, a dot or two, a name in brackets, texts, and words
  iterate 6 (cases h; rfl)
  · split at h <;> cases h <;> rfl
  · dsimp only at h
    split at h
    · cases h
    · rename_i d t hd
      cases h
      have := List.takeWhile_append_dropWhile (p := fun x => decide (x ≠ ']')) (l := s)
      rw [hd] at this
      simpa using this
  · split at h
    · cases h
    · rename_i r' hr'
      cases h
      simp [readQuoted_append hr']
  · split at h
    · cases h
    · rename_i r' hr'
      cases h
      simp [readQuoted_append hr']
  · exact readWord_append h

/-- **No token is empty.** -/
theorem TokenKind.read_ne_nil {c : Char} {s : List Char} {r : Reading TokenKind}
    (h : TokenKind.read c s = .ok r) : r.lexeme ≠ [] := by
  unfold TokenKind.read at h
  split at h
  iterate 6 (cases h; simp)
  · split at h <;> cases h <;> simp
  · dsimp only at h
    split at h <;> cases h
    simp
  · split at h <;> cases h
    simp
  · split at h <;> cases h
    simp
  · exact readWord_ne_nil h

/-- A token takes at least one character. -/
theorem TokenKind.length_rest_le {c : Char} {s : List Char} {r : Reading TokenKind}
    (h : TokenKind.read c s = .ok r) : r.rest.length ≤ s.length := by
  have h1 := congrArg List.length (read_append h)
  have h2 := List.length_pos_iff.2 (read_ne_nil h)
  simp only [List.length_append, List.length_cons] at h1
  omega

end Stache
