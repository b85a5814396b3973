/-
  Tokens by offsets.

  A token that is read by offsets keeps the offsets of its ends (`Lexed`), not what it is written
  with.  Each reader below is followed by the theorem that compares it with the reader of the
  project: where the two stand at the same place, they have the same result, and the offset behind
  it is that of the rest.

    scanString    `readQuoted`
    scanWord      `readWord`
    scanToken     `TokenKind.read`
-/
import Stache.Proofs.Checked.Offsets
import Stache.Template.Token.Read

namespace Stache.Checked

variable (text : List Char)

/-- Reports a fault at an offset. -/
def failAt {α : Type} (n : Nat) (fault : ParseFault) : Checked α := do
  let position ← locate text n
  .error (.error ⟨fault, position⟩)

/-- The character at an offset, if the text does not end there. -/
def peek (n : Nat) : Checked (Option Char) := do
  let s ← rest text n
  return s.head?

/-- A token, and the offsets between which it stands. -/
structure Lexed where
  kind : TokenKind
  start : Nat
  stop : Nat
deriving DecidableEq, Repr

/-! ## Readers -/

/-- Whether the character `c`, behind which `n` is the offset, is a backslash in front of the
    quote. -/
def escapes (quote c : Char) (n : Nat) : Checked Bool :=
  if c = '\\' then (peek text n).map fun d => d = some quote else .ok false

/-- Reads a quoted text from behind its opening quote on, which stands at `start`. -/
def scanString (quote : Char) (start n : Nat) : Checked (List Char × Nat) := do
  match ← peek text n with
  | none => failAt text start .unterminatedString
  | some c =>
    let behind := n + c.utf8Size
    if ← escapes text quote c behind then
      let next ← onward text n (behind + quote.utf8Size)
      let (value, stop) ← scanString quote start next.1
      return (quote :: value, stop)
    else if c = quote then return ([], behind)
    else
      let next ← onward text n behind
      let (value, stop) ← scanString quote start next.1
      return (c :: value, stop)
termination_by bytes text - n
decreasing_by
  · exact next.2
  · exact next.2

/-- Whether `s` begins with the number `digits`, which may end there. -/
def endsNumber (s digits : List Char) : Checked Bool :=
  if digits.isEmpty then .ok false else (rest s (bytes digits)).map (endsBefore literalEnds)

/-- Reads a number, the opening of block parameters, a keyword or a name. -/
def scanWord (n : Nat) : Checked Lexed := do
  let s ← rest text n
  let digits := numberOf s
  let opener := asPipeOf s
  let length := bytes (s.takeWhile isNameChar)
  if ← endsNumber s digits then return ⟨.number, n, n + bytes digits⟩
  else if !opener.isEmpty then return ⟨.asPipe, n, n + bytes opener⟩
  else if length = 0 then failAt text n (.invalidCharacter (s.head?.getD '\x00'))
  else
    let word ← upTo s length
    let behind ← rest text (n + length)
    return ⟨wordKind word (endsBefore literalEnds behind), n, n + length⟩

/-- Reads a token that begins with a dot: one of `..` and `.`, or a separator. -/
def scanDot (n : Nat) : Checked Lexed := do
  let s ← rest text n
  if ['.', '.'].isPrefixOf s then return ⟨.name ".." false, n, n + 2⟩
  else
    match ← peek text (n + 1) with
    | none => return ⟨.name "." false, n, n + 1⟩
    | some d =>
      if Text.isBlank d || dotEnds.contains d then return ⟨.name "." false, n, n + 1⟩
      else return ⟨.separator '.', n, n + 1⟩

/-- Reads a literal segment, with its brackets. -/
def scanSegment (n : Nat) : Checked Lexed := do
  let s ← rest text n
  match find [']'] s with
  | none => failAt text n .unterminatedSegment
  | some i =>
    let name ← slice s 1 i
    return ⟨.name (String.ofList name) true, n, n + (i + 1)⟩

/-- Reads the token at an offset. -/
def scanToken (n : Nat) : Checked Lexed := do
  let c := (← peek text n).getD '\x00'
  match c with
  | '(' => return ⟨.openParen, n, n + 1⟩
  | ')' => return ⟨.closeParen, n, n + 1⟩
  | '=' => return ⟨.equals, n, n + 1⟩
  | '@' => return ⟨.atSign, n, n + 1⟩
  | '|' => return ⟨.pipe, n, n + 1⟩
  | '/' => return ⟨.separator '/', n, n + 1⟩
  | '.' => scanDot text n
  | '[' => scanSegment text n
  | '"' | '\'' =>
    let (value, stop) ← scanString text c n (n + 1)
    return ⟨.string (String.ofList value), n, stop⟩
  | _ => scanWord text n

/-! ## What they read -/

variable {text} {s : List Char} {n : Nat} {p : Position}

theorem Stands.failAt {α : Type} (h : Stands text n p s) (fault : ParseFault) :
    failAt text n fault = (.error (.error ⟨fault, p.reported⟩) : Checked α) := by
  rw [Checked.failAt, h.locate]
  rfl

theorem Stands.peek (h : Stands text n p s) : peek text n = .ok s.head? := by
  rw [Checked.peek, h.rest]
  rfl

/-- One character further. -/
theorem Stands.next {c : Char} (h : Stands text n p (c :: s)) :
    Stands text (n + c.utf8Size) (p.next c) s := by
  have hmove : Stands text (n + bytes [c]) (p.advance [c]) s := h.move
  rwa [bytes_cons, bytes_nil, Nat.add_zero] at hmove

theorem Stands.onward {m : Nat} {q : Position} {t : List Char} (h : Stands text m q t)
    (hlt : n < m) : ∃ hdecreases, onward text n m = .ok ⟨m, hdecreases⟩ := by
  have hle : m ≤ bytes text := by
    rw [h.size_eq]
    exact Nat.le_add_right m _
  exact ⟨_, onward_eq hlt hle⟩

/-- A quoted text is read by offsets as it is read from a list. -/
theorem Stands.scanString {quote : Char} (hquote : quote ≠ '\\') {start : Nat} {q : Position}
    {t : List Char} (hstart : Stands text start q t) (h : Stands text n p s) :
    scanString text quote start n = match readQuoted quote s with
      | none => .error (.error ⟨.unterminatedString, q.reported⟩)
      | some r => .ok (r.value, n + bytes r.lexeme) := by
  -- both readers take the same steps; a backslash in front of a quote is one of two characters
  fun_induction readQuoted quote s generalizing n p with
  | case1 =>
    rw [Checked.scanString, h.peek]
    exact hstart.failAt _
  | case2 s ih =>
    have hquoted : Stands text (n + '\\'.utf8Size) (p.next '\\') (quote :: s) := h.next
    have hpos := quote.utf8Size_pos
    obtain ⟨hdecreases, honward⟩ := hquoted.next.onward (n := n) (by omega)
    rw [Checked.scanString, h.peek]
    have hescapes : escapes text quote '\\' (n + '\\'.utf8Size) = .ok true := by
      rw [escapes, if_pos rfl, hquoted.peek]
      simp [Except.map]
    simp only [List.head?_cons, ok_bind, hescapes, if_true, honward, ih hquoted.next]
    cases readQuoted quote s with
    | none => rfl
    | some r => simp [pure, Except.pure, Nat.add_assoc]
  | case3 d s hd ih =>
    have hbehind : Stands text (n + '\\'.utf8Size) (p.next '\\') (d :: s) := h.next
    have hpos := '\\'.utf8Size_pos
    obtain ⟨hdecreases, honward⟩ := hbehind.onward (n := n) (by omega)
    rw [Checked.scanString, h.peek]
    have hescapes : escapes text quote '\\' (n + '\\'.utf8Size) = .ok false := by
      rw [escapes, if_pos rfl, hbehind.peek]
      simp [Except.map, hd]
    simp only [List.head?_cons, ok_bind, hescapes, Bool.false_eq_true, if_false, hquote.symm,
      honward, ih hbehind]
    cases readQuoted quote (d :: s) with
    | none => rfl
    | some r => simp [pure, Except.pure, Nat.add_assoc]
  | case4 s hslash =>
    rw [Checked.scanString, h.peek]
    simp [escapes, hquote, pure, Except.pure]
  | case5 c s hslash hc ih =>
    have hpos := c.utf8Size_pos
    obtain ⟨hdecreases, honward⟩ := h.next.onward (n := n) (by omega)
    -- A backslash here is the last character of the text.
    have hescapes : escapes text quote c (n + c.utf8Size) = .ok false := by
      rw [escapes]
      split
      · rename_i hc'
        cases s with
        | nil =>
          rw [h.next.peek]
          rfl
        | cons d s => exact absurd rfl (hslash d s hc')
      · rfl
    rw [Checked.scanString, h.peek]
    simp only [List.head?_cons, ok_bind, hescapes, hc, Bool.false_eq_true, if_false, honward,
      ih h.next]
    cases readQuoted quote s with
    | none => rfl
    | some r => simp [pure, Except.pure, Nat.add_assoc]

/-- What a reader of the project makes of a token, with offsets for the text. -/
def Lexed.ofReading (n : Nat) (r : Reading TokenKind) : Lexed :=
  ⟨r.value, n, n + bytes r.lexeme⟩

/-- The outcome of reading a token at a place. -/
def lexedFrom (n : Nat) (p : Position) : Except ParseFault (Reading TokenKind) → Checked Lexed
  | .error fault => .error (.error ⟨fault, p.reported⟩)
  | .ok r => .ok (.ofReading n r)

theorem bytes_eq_zero_iff {s : List Char} : bytes s = 0 ↔ s = [] := by
  constructor
  · intro h
    by_contra hs
    have := bytes_pos hs
    omega
  · rintro rfl
    rfl

/-- A prefix is cut off where it ends. -/
theorem rest_of_isPrefix {a s : List Char} (h : a <+: s) :
    rest s (bytes a) = .ok (s.drop a.length) := by
  obtain ⟨b, rfl⟩ := h
  rw [Checked.rest, cutAt_append, List.drop_left]
  rfl

theorem upTo_of_isPrefix {a s : List Char} (h : a <+: s) : upTo s (bytes a) = .ok a := by
  obtain ⟨b, rfl⟩ := h
  exact upTo_append a b

/-- Behind a prefix of what is left. -/
theorem Stands.behind {a : List Char} (h : Stands text n p s) (ha : a <+: s) :
    Stands text (n + bytes a) (p.advance a) (s.drop a.length) := by
  obtain ⟨b, rfl⟩ := ha
  rw [List.drop_left]
  exact h.move

theorem endsNumber_eq {digits : List Char} (h : digits <+: s) :
    endsNumber s digits
      = .ok (!digits.isEmpty && endsBefore literalEnds (s.drop digits.length)) := by
  rw [endsNumber, rest_of_isPrefix h]
  cases digits.isEmpty <;> rfl

/-- A word is read by offsets as it is read from a list. -/
theorem Stands.scanWord {c : Char} (h : Stands text n p (c :: s)) :
    scanWord text n = lexedFrom n p (readWord c s) := by
  have hword : (c :: s).takeWhile isNameChar <+: c :: s := List.takeWhile_prefix _
  rw [Checked.scanWord, h.rest, ok_bind, readWord]
  dsimp only
  rw [endsNumber_eq (numberOf_isPrefix _), ok_bind]
  split
  · rfl
  split
  · rfl
  simp only [bytes_eq_zero_iff, List.isEmpty_iff]
  split
  · exact h.failAt _
  · rw [upTo_of_isPrefix hword, ok_bind, (h.behind hword).rest, ok_bind]
    rfl

/-- The first closing bracket. -/
theorem find_bracket (s : List Char) :
    find [']'] s = if s.dropWhile (· ≠ ']') = [] then none
      else some (bytes (s.takeWhile (· ≠ ']'))) := by
  induction s with
  | nil => rfl
  | cons c s ih =>
    rw [find]
    -- the search stops where the reader does
    by_cases hc : c = ']'
    · subst hc
      simp
    · have hne : (']' == c) = false := by
        rw [beq_eq_false_iff_ne]
        exact fun heq => hc heq.symm
      simp only [List.isPrefixOf, hne, Bool.false_and, Bool.false_eq_true, if_false, ih,
        List.dropWhile_cons, List.takeWhile_cons, decide_not, hc, decide_false, Bool.not_false,
        if_true]
      split
      · rfl
      · rw [bytes_cons, Nat.add_comm]
        rfl

/-- **A dot is read alike**: two of them, one with nothing of a path behind it, or a separator. -/
theorem Stands.scanDot (h : Stands text n p ('.' :: s)) :
    scanDot text n = lexedFrom n p (TokenKind.read '.' s) := by
  have hnext : Stands text (n + 1) (p.next '.') s := h.next
  rw [Checked.scanDot, h.rest, ok_bind, hnext.peek, ok_bind]
  match s with
  | [] => rfl
  | d :: t =>
    -- a second dot makes a name of the two
    by_cases hd : d = '.'
    · subst hd
      rfl
    · have hprefix : ['.', '.'].isPrefixOf ('.' :: d :: t) = false := by
        simp [List.isPrefixOf, Ne.symm hd]
      have hread : TokenKind.read '.' (d :: t)
          = .ok ⟨if Text.isBlank d || dotEnds.contains d then .name "." false
            else .separator '.', ['.'], d :: t⟩ := by
        rw [TokenKind.read]
        · rfl
        · intro u hu
          exact hd (List.cons.inj hu).1
      rw [hread, hprefix, if_neg Bool.false_ne_true]
      dsimp only [List.head?_cons]
      by_cases hends : (Text.isBlank d || dotEnds.contains d) = true
      · rw [if_pos hends, if_pos hends]
        rfl
      · rw [if_neg hends, if_neg hends]
        rfl

/-- **Segments in brackets are read alike.** -/
theorem Stands.scanSegment (h : Stands text n p ('[' :: s)) :
    scanSegment text n = lexedFrom n p (TokenKind.read '[' s) := by
  have hbehind : ('[' :: s).dropWhile (· ≠ ']') = s.dropWhile (· ≠ ']') :=
    List.dropWhile_cons_of_pos (by decide)
  have hname : ('[' :: s).takeWhile (· ≠ ']') = '[' :: s.takeWhile (· ≠ ']') :=
    List.takeWhile_cons_of_pos (by decide)
  have hsplit := List.takeWhile_append_dropWhile (p := (· ≠ ']')) (l := s)
  rw [Checked.scanSegment, h.rest, ok_bind, find_bracket, hbehind, hname]
  unfold TokenKind.read
  cases hdrop : s.dropWhile (· ≠ ']') with
  | nil => exact h.failAt _
  | cons d t =>
    rw [hdrop] at hsplit
    have hd : d = ']' := by
      have := List.head?_dropWhile_not (· ≠ ']') s
      rw [hdrop] at this
      simpa using this
    -- what stands between the brackets, without them
    have hslice : Checked.slice ('[' :: s) 1 (bytes ('[' :: s.takeWhile (· ≠ ']')))
        = .ok (s.takeWhile (· ≠ ']')) := by
      have hinside :
          Stands ('[' :: s) 1 (Position.origin.next '[') (s.takeWhile (· ≠ ']') ++ d :: t) := by
        rw [hsplit]
        exact (Stands.start ('[' :: s)).next
      exact hinside.slice
    rw [if_neg (List.cons_ne_nil d t)]
    dsimp only
    have hsize : ']'.utf8Size = 1 := rfl
    rw [hslice, hd]
    simp [lexedFrom, hsize, Lexed.ofReading, pure, Except.pure, Nat.add_assoc]

/-- **A token is read by offsets** as it is read from a list. -/
theorem Stands.scanToken {c : Char} (h : Stands text n p (c :: s)) :
    scanToken text n = lexedFrom n p (TokenKind.read c s) := by
  have hstring (hquote : c ≠ '\\') (hsize : c.utf8Size = 1) :
      (do
        let (value, stop) ← Checked.scanString text c n (n + 1)
        return (⟨.string (String.ofList value), n, stop⟩ : Lexed))
      = lexedFrom n p (match readQuoted c s with
        | none => .error .unterminatedString
        | some r => .ok ⟨.string (String.ofList r.value), c :: r.lexeme, r.rest⟩) := by
    have hnext := h.next
    rw [hsize] at hnext
    rw [h.scanString hquote hnext]
    cases readQuoted c s with
    | none => rfl
    | some r => simp [lexedFrom, Lexed.ofReading, hsize, Nat.add_assoc, pure, Except.pure]
  rw [Checked.scanToken, h.peek, ok_bind]
  dsimp only [List.head?_cons, Option.getD_some]
  split
  iterate 6 rfl
  -- the tokens of one character are read by `rfl`; these are the others
  · exact h.scanDot
  · exact h.scanSegment
  · exact hstring (by decide) rfl
  · exact hstring (by decide) rfl
  · rw [h.scanWord, TokenKind.read]
    all_goals assumption

end Stache.Checked
