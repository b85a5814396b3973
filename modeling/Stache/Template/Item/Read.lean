/-
  Cutting the text of a template into items.

  Two opening braces begin a tag; whatever stands before them is content. The loop `Item.readAll`
  works on the rest of the text and the position where that rest begins, and every reader it calls
  returns the characters it took (`Reading`), so the two never part.

    1. content ends before the first two opening braces that no backslash escapes. One backslash in
       front of them is dropped and the braces are text; of two, one is kept and the braces begin a
       tag;
    2. a comment ends at the first closing mark of its own kind, with or without a tilde;
    3. any other tag is a mark, which tells its kind, and tokens up to its closing mark.

  The laws `readContent_append`, `readComment_append`, `readBody_append`, `readTag_append` say that
  no character is lost; `readAll` is well-founded because of them.
-/
import Stache.Template.Token.Read
import Stache.Template.Item.Basic

namespace Stache

/-! ## Content -/

/-- Reads content up to the next tag or the end of the text. -/
def readContent : List Char → Reading (List Char)
  | [] => ⟨[], [], []⟩
  | '\\' :: '\\' :: '{' :: '{' :: s => ⟨['\\'], ['\\', '\\'], '{' :: '{' :: s⟩
  | '\\' :: '{' :: '{' :: s =>
    let r := readContent s
    ⟨'{' :: '{' :: r.value, '\\' :: '{' :: '{' :: r.lexeme, r.rest⟩
  | '{' :: '{' :: s => ⟨[], [], '{' :: '{' :: s⟩
  | c :: s =>
    let r := readContent s
    ⟨c :: r.value, c :: r.lexeme, r.rest⟩

theorem readContent_append (s : List Char) :
    (readContent s).lexeme ++ (readContent s).rest = s := by
  fun_induction readContent s with
  | case1 | case2 | case4 => rfl
  | case3 s r ih => simpa [r] using ih
  | case5 c s r _ _ _ ih => simpa [r] using ih

/-- Where no tag begins, content takes at least one character. -/
theorem readContent_length_lt {c : Char} {s : List Char} (h : ¬ ['{', '{'] <+: c :: s) :
    (readContent (c :: s)).rest.length < (c :: s).length := by
  have happ := congrArg List.length (readContent_append (c :: s))
  have hne : 0 < (readContent (c :: s)).lexeme.length := by
    unfold readContent
    split <;> simp_all
  simp only [List.length_append] at happ
  omega

/-! ## Comments -/

/-- Reads a comment up to its closing mark: two closing braces, after `dashes`, with a tilde between
    the two or without. The value is the text of the comment and whether the tilde is there. -/
def readComment (dashes : List Char) : List Char → Option (Reading (List Char × Bool))
  | [] => none
  | c :: s =>
    if (dashes ++ ['~', '}', '}']).isPrefixOf (c :: s) then
      some ⟨([], true), dashes ++ ['~', '}', '}'], (c :: s).drop (dashes.length + 3)⟩
    else if (dashes ++ ['}', '}']).isPrefixOf (c :: s) then
      some ⟨([], false), dashes ++ ['}', '}'], (c :: s).drop (dashes.length + 2)⟩
    else
      (readComment dashes s).map fun r => ⟨(c :: r.value.1, r.value.2), c :: r.lexeme, r.rest⟩

theorem append_drop_of_isPrefixOf {p s : List Char} {n : Nat} (h : p.isPrefixOf s = true)
    (hn : n = p.length) : p ++ s.drop n = s := by
  subst hn
  exact List.prefix_iff_eq_append.1 (List.isPrefixOf_iff_prefix.1 h)

/-- So is a comment with its closing mark. -/
theorem readComment_append {dashes s : List Char} {r : Reading (List Char × Bool)}
    (h : readComment dashes s = some r) : r.lexeme ++ r.rest = s := by
  fun_induction readComment dashes s generalizing r with
  | case1 => cases h
  | case2 c s hp => cases h; exact append_drop_of_isPrefixOf hp (by simp)
  | case3 c s _ hp => cases h; exact append_drop_of_isPrefixOf hp (by simp)
  | case4 c s _ _ ih =>
    obtain ⟨r', hr', rfl⟩ := Option.map_eq_some_iff.1 h
    simp [ih hr']

/-! ## The mark of a tag -/

/-- Whether only blanks stand before the closing braces. -/
def closesAtOnce (s : List Char) : Bool :=
  let t := Text.dropBlankStart s
  ['}', '}'].isPrefixOf t || ['~', '}', '}'].isPrefixOf t

/-- The word `else` that `s` begins with, after blanks, or nothing. It counts only where a blank, a
    tilde or a closing brace follows. -/
def elseOf (s : List Char) : List Char :=
  match Text.dropBlankStart s with
  | 'e' :: 'l' :: 's' :: 'e' :: c :: _ =>
    if Text.isBlank c || c = '~' || c = '}' then s.takeWhile Text.isBlank ++ "else".toList else []
  | _ => []

/-- Reads what follows the opening braces and tells the kind of a tag. -/
def readMark (s : List Char) : Reading TagRole :=
  match s with
  | '#' :: '>' :: t => ⟨.openPartialBlock, ['#', '>'], t⟩
  | '#' :: '*' :: t => ⟨.openDecoratorBlock, ['#', '*'], t⟩
  | '#' :: t => ⟨.openBlock, ['#'], t⟩
  | '/' :: t => ⟨.closeMark, ['/'], t⟩
  | '>' :: t => ⟨.partialCall, ['>'], t⟩
  | '*' :: t => ⟨.decorator, ['*'], t⟩
  | '{' :: t => ⟨.mustache .triple, ['{'], t⟩
  | '&' :: t => ⟨.mustache .ampersand, ['&'], t⟩
  | '^' :: t => ⟨if closesAtOnce t then .elseMark else .openInverse, ['^'], t⟩
  | _ =>
    let word := elseOf s
    let rest := s.drop word.length
    if word.isEmpty then ⟨.mustache .plain, [], s⟩
    else ⟨if closesAtOnce rest then .elseMark else .elseChain, word, rest⟩

/-- The word `else` and the blanks behind it are taken off the front, if they are. -/
theorem elseOf_isPrefix (s : List Char) : elseOf s <+: s := by
  unfold elseOf
  split
  · rename_i c u hu
    split
    · refine ⟨c :: u, ?_⟩
      have := List.takeWhile_append_dropWhile (p := Text.isBlank) (l := s)
      rw [Text.dropBlankStart] at hu
      rw [hu] at this
      simpa using this
    · exact List.nil_prefix
  · exact List.nil_prefix

/-- So is the mark of a tag. -/
theorem readMark_append (s : List Char) : (readMark s).lexeme ++ (readMark s).rest = s := by
  unfold readMark
  split <;> try rfl
  dsimp only
  split
  · rfl
  · exact List.prefix_iff_eq_append.1 (elseOf_isPrefix s)

/-! ## The body of a tag -/

/-- The closing mark of a tag, and the same with a tilde. -/
structure Closing where
  bare : List Char
  tilde : List Char

/-- A mustache in triple braces has its tilde inside the outer two. -/
def TagRole.closing : TagRole → Closing
  | .mustache .triple => ⟨['}', '}', '}'], ['}', '~', '}', '}']⟩
  | _ => ⟨['}', '}'], ['~', '}', '}']⟩

/-- What stands in a tag behind its mark. -/
structure TagBody where
  tokens : List Token
  stop : Position
  /-- The closing mark has a tilde. -/
  tilde : Bool

/-- Reads tokens, and the blanks between them, up to and including a closing mark. The text `s`
    begins at `p`. -/
def readBody (closing : Closing) (p : Position) (s : List Char) :
    Except ParseError (Reading TagBody) :=
  let gap := s.takeWhile Text.isBlank
  let q := p.advance gap
  match _ht : s.dropWhile Text.isBlank with
  | [] => .error ⟨.unclosedTag, q⟩
  | c :: t =>
    if closing.tilde.isPrefixOf (c :: t) then
      .ok ⟨⟨[], q, true⟩, gap ++ closing.tilde, (c :: t).drop closing.tilde.length⟩
    -- anything but a closing mark is a token
    else if closing.bare.isPrefixOf (c :: t) then
      .ok ⟨⟨[], q, false⟩, gap ++ closing.bare, (c :: t).drop closing.bare.length⟩
    else
      match _hr : TokenKind.read c t with
      | .error fault => .error ⟨fault, q⟩
      | .ok r => do
        let more ← readBody closing (q.advance r.lexeme) r.rest
        let tokens := ⟨r.value, String.ofList r.lexeme, q⟩ :: more.value.tokens
        return ⟨⟨tokens, more.value.stop, more.value.tilde⟩, gap ++ (r.lexeme ++ more.lexeme),
          more.rest⟩
termination_by s.length
decreasing_by
  have h1 := TokenKind.length_rest_le _hr
  have h2 := congrArg List.length (List.takeWhile_append_dropWhile (p := Text.isBlank) (l := s))
  rw [_ht, List.length_append, List.length_cons] at h2
  omega

/-- Blanks, tokens and the closing mark make up the body of a tag. -/
theorem readBody_append {closing : Closing} {p : Position} {s : List Char} {r : Reading TagBody}
    (h : readBody closing p s = .ok r) : r.lexeme ++ r.rest = s := by
  have split_eq (s : List Char) := List.takeWhile_append_dropWhile (p := Text.isBlank) (l := s)
  -- the body goes on token by token, with blanks in front of each
  fun_induction readBody closing p s generalizing r
  · cases h
  · rename_i ht hp
    cases h
    rw [List.append_assoc, append_drop_of_isPrefixOf hp rfl, ← ht, split_eq]
  · rename_i ht _ hp
    cases h
    rw [List.append_assoc, append_drop_of_isPrefixOf hp rfl, ← ht, split_eq]
  · cases h
  · rename_i q c t ht _ _ r' hr ih
    cases hmore : readBody closing (q.advance r'.lexeme) r'.rest with
    | error e => rw [hmore] at h; cases h
    | ok more =>
      rw [hmore] at h
      cases h
      simp only [List.append_assoc]
      rw [ih hmore, TokenKind.read_append hr, ← ht, split_eq]

/-! ## Tags -/

/-- Reads a comment or a tag, whose opening braces stand at `p` and are followed by `s`. -/
def readTag (p : Position) (s : List Char) : Except ParseError (Reading ItemShape) :=
  let tilde := if ['~'].isPrefixOf s then ['~'] else []
  let opener := '{' :: '{' :: tilde
  match s.drop tilde.length with
  | '!' :: t =>
    let dashes := if ['-', '-'].isPrefixOf t then ['-', '-'] else []
    match readComment dashes (t.drop dashes.length) with
    | none => .error ⟨.unterminatedComment, p⟩
    | some r =>
      .ok ⟨.comment (String.ofList r.value.1) ⟨!tilde.isEmpty, r.value.2⟩,
        opener ++ '!' :: (dashes ++ r.lexeme), r.rest⟩
  | t => do
    let mark := readMark t
    let body ← readBody mark.value.closing (p.advance (opener ++ mark.lexeme)) mark.rest
    let strip : Strip := ⟨!tilde.isEmpty, body.value.tilde⟩
    return ⟨.tag ⟨mark.value, body.value.tokens, body.value.stop, strip⟩,
      opener ++ (mark.lexeme ++ body.lexeme), body.rest⟩

/-- Either `p` begins `s` and is cut off, or nothing is. -/
theorem ite_append_drop (p s : List Char) :
    let q := if p.isPrefixOf s then p else []
    q ++ s.drop q.length = s := by
  dsimp only
  split
  · next h => exact append_drop_of_isPrefixOf h rfl
  · rfl

/-- What `s`, behind two braces, is read as: a comment, or a mark and a body. -/
inductive Reading.OfTag (p : Position) (s : List Char) : Reading ItemShape → Prop where
  | comment {tilde dashes t u : List Char} {r : Reading (List Char × Bool)}
      (htilde : (if ['~'].isPrefixOf s then ['~'] else []) = tilde) (hs : tilde ++ '!' :: t = s)
      (hdashes : (if ['-', '-'].isPrefixOf t then ['-', '-'] else []) = dashes)
      (ht : dashes ++ u = t) (hread : readComment dashes u = some r) :
      OfTag p s ⟨.comment (String.ofList r.value.1) ⟨!tilde.isEmpty, r.value.2⟩,
        '{' :: '{' :: tilde ++ '!' :: (dashes ++ r.lexeme), r.rest⟩
  | tag {tilde t : List Char} {body : Reading TagBody}
      (htilde : (if ['~'].isPrefixOf s then ['~'] else []) = tilde) (hs : tilde ++ t = s)
      (hnone : ∀ u, t ≠ '!' :: u)
      (hbody : readBody (readMark t).value.closing
        (p.advance ('{' :: '{' :: tilde ++ (readMark t).lexeme)) (readMark t).rest = .ok body) :
      OfTag p s ⟨.tag ⟨(readMark t).value, body.value.tokens, body.value.stop,
          ⟨!tilde.isEmpty, body.value.tilde⟩⟩,
        '{' :: '{' :: tilde ++ ((readMark t).lexeme ++ body.lexeme), body.rest⟩

/-- A tag that is read is a comment, or a mark with a body. -/
theorem readTag_of {p : Position} {s : List Char} {r : Reading ItemShape}
    (h : readTag p s = .ok r) : r.OfTag p s := by
  have hs := ite_append_drop ['~'] s
  dsimp only at hs
  unfold readTag at h
  dsimp only at h
  -- behind the tilde, a comment or another tag
  split at h
  · rename_i t ht
    have hdashes := ite_append_drop ['-', '-'] t
    dsimp only at hdashes
    split at h
    · cases h
    · rename_i hread
      cases h
      exact .comment rfl (by rw [← ht, hs]) rfl hdashes hread
  · rename_i hnone
    generalize hbody : readBody _ _ _ = body at h
    cases body with
    | error e => cases h
    | ok body =>
      cases h
      exact .tag rfl hs hnone hbody

/-- A tag takes its braces along. -/
theorem readTag_append {p : Position} {s : List Char} {r : Reading ItemShape}
    (h : readTag p s = .ok r) : r.lexeme ++ r.rest = '{' :: '{' :: s := by
  cases readTag_of h with
  | comment _ hs _ ht hread =>
    have := readComment_append hread
    simp only [List.cons_append, List.append_assoc, this, ht, hs]
  | tag _ hs _ hbody =>
    have := readBody_append hbody
    simp only [List.cons_append, List.append_assoc, this, readMark_append, hs]

theorem readTag_ne_nil {p : Position} {s : List Char} {r : Reading ItemShape}
    (h : readTag p s = .ok r) : r.lexeme ≠ [] := by
  cases readTag_of h with
  | comment | tag => exact List.cons_ne_nil _ _

/-! ## The whole text -/

/-- Cuts `s`, which begins at `p`, into items. -/
def Item.readAll (p : Position) (s : List Char) : Except ParseError (List Item) :=
  match s with
  | [] => .ok []
  | c :: t =>
    if _hopen : ['{', '{'] <+: c :: t then
      match _hr : readTag p ((c :: t).drop 2) with
      | .error e => .error e
      | .ok r => do
        let more ← readAll (p.advance r.lexeme) r.rest
        return ⟨r.value, String.ofList r.lexeme, p⟩ :: more
    else do
      let r := readContent (c :: t)
      let more ← readAll (p.advance r.lexeme) r.rest
      return ⟨.content (String.ofList r.value), String.ofList r.lexeme, p⟩ :: more
termination_by s.length
decreasing_by
  · have h1 := congrArg List.length (readTag_append _hr)
    have h2 := _hopen.length_le
    have h3 := List.length_pos_iff.2 (readTag_ne_nil _hr)
    simp only [List.length_append, List.length_cons, List.length_drop, List.length_nil] at h1 h2 ⊢
    omega
  · exact readContent_length_lt _hopen

end Stache
