/-
  A text in another place.

  What a text is cut into depends neither on where it stands nor, for the most part, on what comes
  behind it.  In another place the items are the same, and their positions have gone along with the
  text (`Item.Scan.moved`).  An item without positions is `unplaced`; where it is of no importance
  from where to where a text has gone, its items are compared without them.

    * A TAG ends with its own braces, and no reader looks further: with any text behind it, it is
      read as the same tag (`readTag_moved`);
    * CONTENT goes on up to the next tag.  If there is one, nothing that comes behind matters
      (`readContent_append_rest`).  At the end of a text, content whose last character is neither a
      backslash nor a brace is left as it is by a tag right behind it (`readContent_append_braces`).

  Together: a text that ends with a tag may stand anywhere, in front of anything, and one that does
  not end in one of the two characters in front of anything that begins with a tag
  (`Item.Scan.append`, `Item.Scan.elsewhere`).

  The call of a block may also stand behind an else.  It is cut into the same tokens there
  (`readTag_elseChain`), since a tag is not read with its mark but behind it.
-/
import Mathlib.Data.List.Basic
import Stache.Proofs.Items.Ahead

namespace Stache

/-! ## Positions that move -/

/-- The token with its position taken to another one. -/
def Token.moved (f : Position → Position) (t : Token) : Token := { t with start := f t.start }

/-- The body of a tag that has moved. -/
def TagBody.moved (f : Position → Position) (b : TagBody) : TagBody :=
  ⟨b.tokens.map (Token.moved f), f b.stop, b.tilde⟩

/-- So has a tag, with its tokens. -/
def Tag.moved (f : Position → Position) (t : Tag) : Tag :=
  { t with tokens := t.tokens.map (Token.moved f), bodyEnd := f t.bodyEnd }

/-- Comments and contents have no positions in them. -/
def ItemShape.moved (f : Position → Position) : ItemShape → ItemShape
  | .tag t => .tag (t.moved f)
  | shape => shape

/-- An item that has moved. -/
def Item.moved (f : Position → Position) (item : Item) : Item :=
  ⟨item.shape.moved f, item.lexeme, f item.start⟩

@[simp] theorem Token.moved_id : Token.moved id = id := rfl

@[simp] theorem ItemShape.moved_id (shape : ItemShape) : shape.moved id = shape := by
  cases shape with
  | content | comment => rfl
  | tag t => simp [moved, Tag.moved]

/-! ## Without positions -/

/-- A token without its position. -/
def Token.unplaced (t : Token) : Token := { t with start := .origin }

/-- A shape without positions. -/
def ItemShape.unplaced : ItemShape → ItemShape
  | .tag t => .tag { t with tokens := t.tokens.map Token.unplaced, bodyEnd := .origin }
  | shape => shape

/-- The item without the positions in it. -/
def Item.unplaced (item : Item) : Item := ⟨item.shape.unplaced, item.lexeme, .origin⟩

section

variable (f : Position → Position)

@[simp] theorem Token.map_unplaced_moved (ts : List Token) :
    (ts.map (Token.moved f)).map Token.unplaced = ts.map Token.unplaced := by
  rw [List.map_map]
  rfl

@[simp] theorem ItemShape.unplaced_moved (shape : ItemShape) :
    (shape.moved f).unplaced = shape.unplaced := by
  cases shape with
  | content | comment => rfl
  | tag t => simp only [moved, Tag.moved, unplaced, Token.map_unplaced_moved]

@[simp] theorem Item.map_unplaced_moved (items : List Item) :
    (items.map (Item.moved f)).map Item.unplaced = items.map Item.unplaced := by
  rw [List.map_map]
  exact List.map_congr_left fun item _ => by simp [moved, unplaced]

end

/-! ## Bodies of tags -/

/-- What the closing marks of all tags have in common. -/
structure Closing.Proper (closing : Closing) : Prop where
  tilde_begins : ∃ c t, closing.tilde = c :: t ∧ (c = '}' ∨ c = '~')
  bare_begins : ∃ c t, closing.bare = c :: t ∧ (c = '}' ∨ c = '~')
  tilde_ends : closing.tilde.getLast? = some '}'
  bare_ends : closing.bare.getLast? = some '}'
  apart : ¬ closing.tilde <+: closing.bare ∧ ¬ closing.bare <+: closing.tilde

/-- The closing marks of every kind are proper. -/
theorem TagRole.closing_proper (kind : TagRole) : kind.closing.Proper := by
  obtain ⟨htilde, hbare⟩ := kind.closing_getLast?
  cases kind with
  | mustache form =>
    cases form with
    | triple =>
      exact ⟨⟨_, _, rfl, .inl rfl⟩, ⟨_, _, rfl, .inl rfl⟩, htilde, hbare, by decide⟩
    | plain | ampersand =>
      exact ⟨⟨_, _, rfl, .inr rfl⟩, ⟨_, _, rfl, .inl rfl⟩, htilde, hbare, by decide⟩
  | _ => exact ⟨⟨_, _, rfl, .inr rfl⟩, ⟨_, _, rfl, .inl rfl⟩, htilde, hbare, by decide⟩

/-- No token begins like a closing mark. -/
theorem TokenKind.ne_of_read {c : Char} {s : List Char} {r : Reading TokenKind}
    (h : TokenKind.read c s = .ok r) : c ≠ '}' ∧ c ≠ '~' := by
  have hnone (d : Char) (hd : d = '}' ∨ d = '~') : TokenKind.read d s ≠ .ok r := by
    rcases hd with rfl | rfl <;> exact nofun
  exact ⟨fun hc => hnone c (.inl hc) h, fun hc => hnone c (.inr hc) h⟩

/-- Where a token can be read no tag is closed. -/
theorem Closing.Proper.isPrefixOf_eq_false {closing : Closing} (hclosing : closing.Proper)
    {c : Char} {s : List Char} {r : Reading TokenKind} (h : TokenKind.read c s = .ok r)
    (t : List Char) :
    closing.tilde.isPrefixOf (c :: t) = false ∧ closing.bare.isPrefixOf (c :: t) = false := by
  obtain ⟨hbrace, htilde⟩ := TokenKind.ne_of_read h
  have hmark (mark : List Char) (hmark : ∃ d u, mark = d :: u ∧ (d = '}' ∨ d = '~')) :
      mark.isPrefixOf (c :: t) = false := by
    obtain ⟨d, u, rfl, rfl | rfl⟩ := hmark
    · simp [List.isPrefixOf, Ne.symm hbrace]
    · simp [List.isPrefixOf, Ne.symm htilde]
  exact ⟨hmark _ hclosing.tilde_begins, hmark _ hclosing.bare_begins⟩

section Bodies

variable {closing : Closing} {p : Position} {s t u : List Char} {c : Char}

/-- A body with more in it than blanks. -/
theorem readBody_of_cons (hs : s.dropWhile Text.isBlank = c :: t) :
    readBody closing p s =
      if closing.tilde.isPrefixOf (c :: t) then
        .ok ⟨⟨[], p.advance (s.takeWhile Text.isBlank), true⟩,
          s.takeWhile Text.isBlank ++ closing.tilde, (c :: t).drop closing.tilde.length⟩
      else if closing.bare.isPrefixOf (c :: t) then
        .ok ⟨⟨[], p.advance (s.takeWhile Text.isBlank), false⟩,
          s.takeWhile Text.isBlank ++ closing.bare, (c :: t).drop closing.bare.length⟩
      else
        match TokenKind.read c t with
        | .error fault => .error ⟨fault, p.advance (s.takeWhile Text.isBlank)⟩
        | .ok r => do
          let more ← readBody closing
            ((p.advance (s.takeWhile Text.isBlank)).advance r.lexeme) r.rest
          return ⟨⟨⟨r.value, String.ofList r.lexeme, p.advance (s.takeWhile Text.isBlank)⟩
              :: more.value.tokens, more.value.stop, more.value.tilde⟩,
            s.takeWhile Text.isBlank ++ (r.lexeme ++ more.lexeme), more.rest⟩ := by
  rw [readBody]
  split
  · rename_i hnil
    cases hnil.symm.trans hs
  · rename_i hcons
    cases hcons.symm.trans hs
    cases TokenKind.read c t <;> rfl

/-- A closing mark behind blanks. -/
theorem readBody_of_tilde (hs : s.dropWhile Text.isBlank = c :: t)
    (hmark : closing.tilde.isPrefixOf (c :: t) = true) :
    readBody closing p s = .ok ⟨⟨[], p.advance (s.takeWhile Text.isBlank), true⟩,
      s.takeWhile Text.isBlank ++ closing.tilde, (c :: t).drop closing.tilde.length⟩ := by
  rw [readBody_of_cons hs, if_pos hmark]

theorem readBody_of_bare (hs : s.dropWhile Text.isBlank = c :: t)
    (htilde : closing.tilde.isPrefixOf (c :: t) = false)
    (hmark : closing.bare.isPrefixOf (c :: t) = true) :
    readBody closing p s = .ok ⟨⟨[], p.advance (s.takeWhile Text.isBlank), false⟩,
      s.takeWhile Text.isBlank ++ closing.bare, (c :: t).drop closing.bare.length⟩ := by
  rw [readBody_of_cons hs, if_neg (Bool.eq_false_iff.1 htilde), if_pos hmark]

/-- A token behind blanks, and what comes behind the token. -/
theorem readBody_of_token (hs : s.dropWhile Text.isBlank = c :: t)
    (htilde : closing.tilde.isPrefixOf (c :: t) = false)
    (hbare : closing.bare.isPrefixOf (c :: t) = false) {r : Reading TokenKind}
    (hr : TokenKind.read c t = .ok r) {more : Reading TagBody}
    (hmore : readBody closing ((p.advance (s.takeWhile Text.isBlank)).advance r.lexeme) r.rest
      = .ok more) :
    readBody closing p s = .ok
      ⟨⟨⟨r.value, String.ofList r.lexeme, p.advance (s.takeWhile Text.isBlank)⟩
          :: more.value.tokens, more.value.stop, more.value.tilde⟩,
        s.takeWhile Text.isBlank ++ (r.lexeme ++ more.lexeme), more.rest⟩ := by
  rw [readBody_of_cons hs, if_neg (Bool.eq_false_iff.1 htilde), if_neg (Bool.eq_false_iff.1 hbare),
    hr]
  dsimp only
  rw [hmore]
  rfl

theorem brace_mem_of_readBody (hclosing : closing.Proper) {r : Reading TagBody}
    (h : readBody closing p s = .ok r) : '}' ∈ s := by
  have hlast := readBody_getLast? hclosing.tilde_ends hclosing.bare_ends h
  rw [← readBody_append h]
  exact List.mem_append_left _ (List.mem_of_getLast? hlast)

/-- **The body of a tag** is read without what comes behind its closing mark, wherever it stands. -/
theorem readBody_moved (hclosing : closing.Proper) {r : Reading TagBody}
    (h : readBody closing p s = .ok r) {f : Position → Position} (hf : Position.Moves f p)
    (u : List Char) :
    readBody closing (f p) (s ++ u) = .ok ⟨r.value.moved f, r.lexeme, r.rest ++ u⟩ := by
  have hs := brace_mem_of_readBody hclosing h
  fun_induction readBody closing p s generalizing r
  · cases h
  · rename_i p s gap q' c t ht hmark
    -- closed by a tilde and its closer,
    obtain ⟨htake, hdrop, -⟩ := span_append (u := u) (p := Text.isBlank) rfl hs
    rw [ht, List.cons_append] at hdrop
    cases h
    have hfits := List.isPrefixOf_iff_prefix.1 hmark
    rw [readBody_of_tilde hdrop
      (List.isPrefixOf_iff_prefix.2 (hfits.trans (List.prefix_append _ u))), htake, ← hf,
      ← List.cons_append, drop_append_of_isPrefix hfits]
    rfl
  · rename_i p s gap q' c t ht htilde hmark
    obtain ⟨htake, hdrop, -⟩ := span_append (u := u) (p := Text.isBlank) rfl hs
    rw [ht, List.cons_append] at hdrop
    cases h
    have hfits := List.isPrefixOf_iff_prefix.1 hmark
    have hfits' := hfits.trans (List.prefix_append _ u)
    -- by the closer alone, which no tilde comes before here or there,
    have htilde' : closing.tilde.isPrefixOf (c :: (t ++ u)) = false := by
      rw [Bool.eq_false_iff, ne_eq, List.isPrefixOf_iff_prefix]
      intro htilde'
      rcases List.prefix_or_prefix_of_prefix htilde' hfits' with hmarks | hmarks
      · exact hclosing.apart.1 hmarks
      · exact hclosing.apart.2 hmarks
    rw [readBody_of_bare hdrop htilde'
      (List.isPrefixOf_iff_prefix.2 hfits'), htake, ← hf, ← List.cons_append,
      drop_append_of_isPrefix hfits]
    rfl
  · cases h
  · rename_i p s gap q' c t ht htilde hbare r' hr ih
    obtain ⟨htake, hdrop, -⟩ := span_append (u := u) (p := Text.isBlank) rfl hs
    rw [ht, List.cons_append] at hdrop
    obtain ⟨more, hmore, h⟩ := exists_of_bind_ok h
    cases h
    have hbrace := brace_mem_of_readBody hclosing hmore
    -- or not yet, and then by what is behind a token
    obtain ⟨hnotilde, hnobare⟩ := hclosing.isPrefixOf_eq_false hr (t ++ u)
    have hmore' := ih hmore ((hf.advance _).advance _) hbrace
    rw [hf.advance, hf] at hmore'
    rw [readBody_of_token hdrop hnotilde hnobare
      (TokenKind.read_append_text hr hbrace) (by rw [htake]; exact hmore'), htake, ← hf]
    rfl

/-- The same body of a tag, but for positions, with `u` behind it. -/
structure Reading.SameBody (u : List Char) (r r' : Reading TagBody) : Prop where
  tokens_eq : r'.value.tokens.map Token.unplaced = r.value.tokens.map Token.unplaced
  tilde_eq : r'.value.tilde = r.value.tilde
  rest_eq : r'.rest = r.rest ++ u

/-- **A body** is read alike elsewhere, whatever is behind it. -/
theorem readBody_elsewhere (hclosing : closing.Proper) {r : Reading TagBody}
    (h : readBody closing p s = .ok r) (u : List Char) (q : Position) :
    ∃ r', readBody closing q (s ++ u) = .ok r' ∧ r.SameBody u r' := by
  have hmoved := readBody_moved hclosing h (p.moves_shift q) u
  rw [Position.shift_self] at hmoved
  exact ⟨_, hmoved, Token.map_unplaced_moved _ _, rfl, rfl⟩

end Bodies

/-! ## Marks -/

section Marks

variable {p : Position} {s : List Char}

/-- A tag closes at once if there is no token in it. -/
theorem closesAtOnce_eq {r : Reading TagBody} (h : readBody TagRole.elseMark.closing p s = .ok r) :
    closesAtOnce s = r.value.tokens.isEmpty := by
  rw [readBody] at h
  rw [closesAtOnce, Text.dropBlankStart]
  split at h
  · cases h
  · rename_i c t ht
    -- either closer is at once there, or a token is read first
    rw [ht]
    split at h
    · rename_i htilde
      cases h
      exact Bool.or_eq_true_iff.2 (.inr htilde)
    · split at h
      · rename_i hbare
        cases h
        exact Bool.or_eq_true_iff.2 (.inl hbare)
      · rename_i htilde hbare
        split at h
        · cases h
        · obtain ⟨more, hmore, h⟩ := exists_of_bind_ok h
          cases h
          exact Bool.or_eq_false_iff.2 ⟨Bool.eq_false_iff.2 hbare, Bool.eq_false_iff.2 htilde⟩

/-- An else that closes at once does so before any text, -/
theorem closesAtOnce_append {r : Reading TagBody}
    (h : readBody TagRole.elseMark.closing p s = .ok r) (u : List Char) :
    closesAtOnce (s ++ u) = closesAtOnce s := by
  rw [closesAtOnce_eq (readBody_moved (TagRole.closing_proper _) h p.moves_id u),
    closesAtOnce_eq h, TagBody.moved, List.isEmpty_map]

/-- and the word is found as far as the brace. -/
theorem elseOf_append (hs : '}' ∈ s) (u : List Char) : elseOf (s ++ u) = elseOf s := by
  obtain ⟨htake, hdrop, hbrace⟩ := span_append (u := u) (p := Text.isBlank) rfl hs
  unfold elseOf
  rw [Text.dropBlankStart, Text.dropBlankStart, hdrop, htake]
  generalize s.dropWhile Text.isBlank = w at hbrace
  by_cases hword : ['e', 'l', 's', 'e'] <+: w
  · obtain ⟨v, rfl⟩ := hword
    cases v with
    | nil => simp at hbrace
    | cons c v => rfl
  · have hword' : ¬ ['e', 'l', 's', 'e'] <+: w ++ u := by
      rwa [isPrefix_append_iff (by decide) hbrace]
    split
    · rename_i hv
      exact (hword' ⟨_, hv.symm⟩).elim
    · split
      · exact (hword ⟨_, rfl⟩).elim
      · rfl

/-- A tag that has none of the marks has the word `else`, or nothing. -/
theorem readMark_plain {s : List Char}
    (h : ∀ c u, s = c :: u → c ∉ ['#', '/', '>', '*', '{', '&', '^']) :
    readMark s = if (elseOf s).isEmpty then ⟨.mustache .plain, [], s⟩
      else ⟨if closesAtOnce (s.drop (elseOf s).length) then .elseMark else .elseChain, elseOf s,
        s.drop (elseOf s).length⟩ := by
  unfold readMark
  split
  all_goals
    first
    | exact absurd (by decide) (h _ _ rfl)
    | rfl

/-- A mark is read alike if there is a body behind it. -/
theorem readMark_elsewhere {r : Reading TagBody}
    (h : readBody (readMark s).value.closing p (readMark s).rest = .ok r) (u : List Char) :
    readMark (s ++ u) = (readMark s).before u := by
  have hbrace := brace_mem_of_readBody (TagRole.closing_proper _) h
  have hs : '}' ∈ s := by
    rw [← readMark_append s]
    exact List.mem_append_right _ hbrace
  obtain ⟨c, v, rfl⟩ := List.exists_cons_of_ne_nil (List.ne_nil_of_mem hs)
  by_cases hplain : c ∈ ['#', '/', '>', '*', '{', '&', '^']
  · rw [List.cons_append]
    simp only [List.mem_cons, List.not_mem_nil, or_false] at hplain
    -- characters that are marks by themselves, `{{#` with a second one perhaps
    rcases hplain with rfl | rfl | rfl | rfl | rfl | rfl | rfl
    · match v, hbrace with
      | d :: v, _ =>
        rw [List.cons_append]
        by_cases hpartial : d = '>'
        · rw [hpartial]
          rfl
        · by_cases hdecorator : d = '*'
          · rw [hdecorator]
            rfl
          · simp [readMark, hpartial, hdecorator, Reading.before]
    iterate 5 rfl
    -- `{{^` alone is an else, so it matters whether the tag ends there
    · have hat : closesAtOnce (v ++ u) = closesAtOnce v := by
        refine closesAtOnce_append (p := p) (r := r) ?_ u
        rw [← h, readMark]
        cases closesAtOnce v <;> rfl
      show Reading.mk (if closesAtOnce (v ++ u) then _ else _) _ _ = _
      rw [hat]
      rfl
  · have hmark {w : List Char} :
        ∀ d t, c :: w = d :: t → d ∉ ['#', '/', '>', '*', '{', '&', '^'] := by
      rintro d t ⟨⟩
      exact hplain
    rw [readMark_plain hmark] at h
    rw [readMark_plain hmark, List.cons_append, readMark_plain hmark, ← List.cons_append,
      elseOf_append hs, drop_append_of_isPrefix (elseOf_isPrefix _)]
    -- otherwise the mark is `else`, or there is none
    by_cases hempty : (elseOf (c :: v)).isEmpty = true
    · rw [if_pos hempty, if_pos hempty]
      rfl
    · rw [if_neg hempty] at h
      have hat : closesAtOnce ((c :: v).drop (elseOf (c :: v)).length ++ u)
          = closesAtOnce ((c :: v).drop (elseOf (c :: v)).length) := by
        refine closesAtOnce_append (p := p) (r := r) ?_ u
        rw [← h]
        dsimp only
        split <;> rfl
      rw [if_neg hempty, if_neg hempty, hat]
      rfl

end Marks

/-! ## Tags -/

section Tags

variable {p : Position} {s : List Char}

/-- A comment has its dashes and its braces. -/
theorem length_le_of_readComment {dashes : List Char} {r : Reading (List Char × Bool)}
    (h : readComment dashes s = some r) : dashes.length + 2 ≤ s.length := by
  fun_induction readComment dashes s generalizing r with
  | case1 => cases h
  | case2 c s hmark =>
    have hlength := (List.isPrefixOf_iff_prefix.1 hmark).length_le
    rw [List.length_append] at hlength
    exact Nat.le_of_succ_le hlength
  | case3 c s _ hmark =>
    have hlength := (List.isPrefixOf_iff_prefix.1 hmark).length_le
    rwa [List.length_append] at hlength
  | case4 c s _ _ ih =>
    obtain ⟨r', hr', rfl⟩ := Option.map_eq_some_iff.1 h
    exact Nat.le_succ_of_le (ih hr')

/-- It ends with the first of them that closes it. -/
theorem readComment_append_text {dashes : List Char} {r : Reading (List Char × Bool)}
    (h : readComment dashes s = some r) (u : List Char) :
    readComment dashes (s ++ u) = some (r.before u) := by
  fun_induction readComment dashes s generalizing r with
  | case1 => cases h
  | case2 c s hmark =>
    cases h
    have hfits := List.isPrefixOf_iff_prefix.1 hmark
    have hmark' : (dashes ++ ['~', '}', '}']).isPrefixOf (c :: (s ++ u)) = true :=
      List.isPrefixOf_iff_prefix.2 (hfits.trans (List.prefix_append _ u))
    have hdrop : (c :: (s ++ u)).drop (dashes.length + 3)
        = (c :: s).drop (dashes.length + 3) ++ u :=
      List.drop_append_of_le_length (by simpa using hfits.length_le)
    rw [List.cons_append, readComment, if_pos hmark', hdrop]
    rfl
  | case3 c s htilde hmark =>
    cases h
    have hfits := List.isPrefixOf_iff_prefix.1 hmark
    have hmark' : (dashes ++ ['}', '}']).isPrefixOf (c :: (s ++ u)) = true :=
      List.isPrefixOf_iff_prefix.2 (hfits.trans (List.prefix_append _ u))
    -- the closer without a tilde is not a beginning of the one with it
    have htilde' : ¬ (dashes ++ ['~', '}', '}']).isPrefixOf (c :: (s ++ u)) = true := by
      intro htilde'
      have hmarks := List.prefix_of_prefix_length_le (List.isPrefixOf_iff_prefix.1 hmark')
        (List.isPrefixOf_iff_prefix.1 htilde') (by simp)
      rw [List.prefix_append_right_inj] at hmarks
      revert hmarks
      decide
    have hdrop : (c :: (s ++ u)).drop (dashes.length + 2)
        = (c :: s).drop (dashes.length + 2) ++ u :=
      List.drop_append_of_le_length (by simpa using hfits.length_le)
    rw [List.cons_append, readComment, if_neg htilde', if_pos hmark', hdrop]
    rfl
  | case4 c s htilde hmark ih =>
    obtain ⟨r', hr', rfl⟩ := Option.map_eq_some_iff.1 h
    have hlength := length_le_of_readComment hr'
    -- a closer that is not here is not made by what is appended, which is too far behind
    have hlater (mark : List Char) (hmark : mark.length ≤ dashes.length + 3) :
        mark.isPrefixOf (c :: (s ++ u)) = mark.isPrefixOf (c :: s) :=
      isPrefixOf_append (s := c :: s) (Nat.le_trans hmark (Nat.succ_le_succ hlength))
    rw [List.cons_append, readComment, hlater _ (by simp), if_neg htilde, hlater _ (by simp),
      if_neg hmark, ih hr']
    rfl

/-- **A tag** is read without what comes behind it, wherever it stands. -/
theorem readTag_moved {r : Reading ItemShape} (h : readTag p s = .ok r)
    {f : Position → Position} (hf : Position.Moves f p) (u : List Char) :
    readTag (f p) (s ++ u) = .ok ⟨r.value.moved f, r.lexeme, r.rest ++ u⟩ := by
  have hs : '}' ∈ s := by
    have hmem := List.mem_append_left r.rest (List.mem_of_getLast? (readTag_braces h).2)
    rw [readTag_append h] at hmem
    simpa using hmem
  have hmark : ['~'].isPrefixOf (s ++ u) = ['~'].isPrefixOf s := by
    rw [Bool.eq_iff_iff, List.isPrefixOf_iff_prefix, List.isPrefixOf_iff_prefix,
      isPrefix_append_iff (by decide) hs]
  -- the tilde is there in both texts, or in neither,
  obtain ⟨tilde, htilde⟩ : ∃ tilde, (if ['~'].isPrefixOf s then ['~'] else []) = tilde := ⟨_, rfl⟩
  have hfits : tilde <+: s := ⟨_, htilde ▸ ite_append_drop ['~'] s⟩
  have hbrace : '}' ∈ s.drop tilde.length := by
    refine mem_drop_of_isPrefix hfits ?_ hs
    rw [← htilde]
    split <;> decide
  have hdrop := drop_append_of_isPrefix (u := u) hfits
  generalize ht : s.drop tilde.length = t at hbrace hdrop
  -- and behind it a comment, or the mark of another tag
  by_cases hbang : ∃ v, t = '!' :: v
  · obtain ⟨v, rfl⟩ := hbang
    have hv : '}' ∈ v := (List.mem_cons.1 hbrace).resolve_left (by decide)
    have hdashes : ['-', '-'].isPrefixOf (v ++ u) = ['-', '-'].isPrefixOf v := by
      rw [Bool.eq_iff_iff, List.isPrefixOf_iff_prefix, List.isPrefixOf_iff_prefix,
        isPrefix_append_iff (by decide) hv]
    have hsplit : (if ['-', '-'].isPrefixOf v then ['-', '-'] else []) <+: v :=
      ⟨_, ite_append_drop ['-', '-'] v⟩
    rw [readTag_comment htilde ht] at h
    rw [List.cons_append] at hdrop
    rw [readTag_comment (hmark ▸ htilde) hdrop, hdashes, drop_append_of_isPrefix hsplit]
    cases hcomment : readComment (if ['-', '-'].isPrefixOf v then ['-', '-'] else [])
        (v.drop (if ['-', '-'].isPrefixOf v then ['-', '-'] else []).length) with
    | none =>
      rw [hcomment] at h
      cases h
    | some r' =>
      rw [hcomment] at h
      cases h
      rw [readComment_append_text hcomment]
      rfl
  · have hbang' : ¬ ∃ v, t ++ u = '!' :: v := by
      rintro ⟨v, hv⟩
      cases t with
      | nil => cases hbrace
      | cons c t => exact hbang ⟨t, by rw [(List.cons.inj hv).1]⟩
    rw [readTag_tag htilde ht hbang] at h
    rw [readTag_tag (hmark ▸ htilde) hdrop hbang']
    obtain ⟨body, hbody, h⟩ := exists_of_bind_ok h
    cases h
    rw [readMark_elsewhere hbody u]
    dsimp only [Reading.before]
    rw [← hf, readBody_moved (TagRole.closing_proper _) hbody (hf.advance _) u]
    rfl

theorem readTag_append_text {r : Reading ItemShape} (h : readTag p s = .ok r) (u : List Char) :
    readTag p (s ++ u) = .ok (r.before u) := by
  have hmoved := readTag_moved h p.moves_id u
  rwa [ItemShape.moved_id] at hmoved

end Tags

/-! ## Content -/

/-- Neither of the two characters that would be read together with a tag behind them. -/
def EndsClear (s : List Char) : Prop := ∀ c ∈ s.getLast?, c ≠ '\\' ∧ c ≠ '{'

instance : DecidablePred EndsClear := fun s => Option.decidableForallMem s.getLast?

/-- The last character counts, -/
theorem EndsClear.tail {c : Char} {s : List Char} (h : EndsClear (c :: s)) : EndsClear s := by
  cases s with
  | nil => exact nofun
  | cons d s => rwa [EndsClear, List.getLast?_cons_cons] at h

/-- **Content** with a tag right behind it is what it is at the end of a text. -/
theorem readContent_append_braces {s u : List Char} (hs : EndsClear s) (hu : ['{', '{'] <+: u) :
    readContent (s ++ u) = (readContent s).before u := by
  obtain ⟨u, rfl⟩ := hu
  fun_induction readContent s with
  | case1 => rfl
  | case2 s => rfl
  | case3 s r ih =>
    have hmore := ih hs.tail.tail.tail
    rw [List.cons_append, List.cons_append, List.cons_append, readContent, hmore]
    rfl
  | case4 s => rfl
  | case5 c s hescaped hescape hbraces r ih =>
    -- The content goes on at this character with the tag behind it, as it does without.
    have hgo (t : List Char) (ht : s ++ (['{', '{'] ++ u) = t) :
        (∀ v, c = '\\' → t = '\\' :: '{' :: '{' :: v → False)
          ∧ (∀ v, c = '\\' → t = '{' :: '{' :: v → False)
          ∧ ∀ v, c = '{' → t = '{' :: v → False := by
      subst ht
      rcases s with _ | ⟨d, _ | ⟨e, _ | ⟨f, s⟩⟩⟩
      all_goals grind [EndsClear]
    obtain ⟨hescaped', hescape', hbraces'⟩ := hgo _ rfl
    rw [List.cons_append, readContent, ih hs.tail]
    · rfl
    · exact hescaped'
    · exact hescape'
    · exact hbraces'

/-- **Content** that a tag stops is read without what comes behind the tag. -/
theorem readContent_append_rest {s : List Char} (hs : (readContent s).rest ≠ []) (u : List Char) :
    readContent (s ++ u) = (readContent s).before u := by
  fun_induction readContent s with
  | case1 => exact (hs rfl).elim
  | case2 s => rfl
  | case3 s r ih =>
    rw [List.cons_append, List.cons_append, List.cons_append, readContent, ih hs]
    rfl
  | case4 s => rfl
  | case5 c s hescaped hescape hbraces r ih =>
    -- What follows the character is long enough for its reading to be settled.
    have hgo (t : List Char) (ht : s ++ u = t) :
        (∀ v, c = '\\' → t = '\\' :: '{' :: '{' :: v → False)
          ∧ (∀ v, c = '\\' → t = '{' :: '{' :: v → False)
          ∧ ∀ v, c = '{' → t = '{' :: v → False := by
      subst ht
      rcases s with _ | ⟨d, _ | ⟨e, _ | ⟨f, s⟩⟩⟩
      all_goals grind [readContent]
    obtain ⟨hescaped', hescape', hbraces'⟩ := hgo _ rfl
    rw [List.cons_append, readContent, ih hs]
    · rfl
    · exact hescaped'
    · exact hescape'
    · exact hbraces'

theorem EndsClear.of_append {s t : List Char} (h : EndsClear (s ++ t)) : EndsClear t := by
  induction s with
  | nil => exact h
  | cons c s ih => exact ih h.tail

/-- Where no tag begins, none begins with more text behind the content. -/
theorem not_braces_append {c : Char} {s u : List Char} (h : ¬ ['{', '{'] <+: c :: s)
    (hread : readContent (c :: s ++ u) = (readContent (c :: s)).before u) :
    ¬ ['{', '{'] <+: c :: s ++ u := by
  rintro ⟨v, hv⟩
  rw [← hv] at hread
  exact readContent_ne_nil h (congrArg Reading.lexeme hread).symm

/-- The text `s` of these items may stand in front of `u`: either it ends with a tag, or it ends
    clear and `u` begins with a tag. -/
def EndsBefore (s : List Char) (items : List Item) (u : List Char) : Prop :=
  (∀ item ∈ items.getLast?, item.scanned = none) ∨ EndsClear s ∧ ['{', '{'] <+: u

theorem EndsBefore.tail {s t u : List Char} {first : Item} {items : List Item}
    (h : EndsBefore (s ++ t) (first :: items) u) : EndsBefore t items u := by
  rcases h with h | ⟨hs, hu⟩
  · exact .inl fun item hitem => h item (List.mem_getLast?_cons hitem)
  · exact .inr ⟨hs.of_append, hu⟩

namespace Item.Scan

variable {p : Position} {s u : List Char} {items more : List Item}

/-- What is related to a text is what the reader returns. -/
theorem readAll_eq (h : Item.Scan p s items) : Item.readAll p s = .ok items := by
  induction h with
  | nil p => rw [Item.readAll]
  | tag hread hmore ih =>
    rw [Item.readAll, dif_pos ⟨_, rfl⟩]
    split
    · rename_i he
      cases he.symm.trans hread
    · rename_i hr
      cases hr.symm.trans hread
      rw [ih]
      rfl
  | content hopen hmore ih =>
    rw [Item.readAll, dif_neg hopen]
    dsimp only
    rw [ih]
    rfl

/-- **In another place** a text is cut into the same items, which have moved with it. -/
theorem moved (h : Item.Scan p s items) {f : Position → Position} (hf : Position.Moves f p) :
    Item.Scan (f p) s (items.map (Item.moved f)) := by
  induction h with
  | nil p => exact .nil _
  | @tag p s r items hread _ ih =>
    have hread' := readTag_moved hread hf []
    have hmore := ih (hf.advance _)
    rw [List.append_nil, List.append_nil] at hread'
    rw [hf] at hmore
    exact .tag hread' hmore
  | content hopen _ ih =>
    have hmore := ih (hf.advance _)
    rw [hf] at hmore
    exact .content hopen hmore

theorem shifted (h : Item.Scan p s items) (q : Position) :
    Item.Scan q s (items.map (Item.moved (p.shift q))) := by
  have hmoved := h.moved (p.moves_shift q)
  rwa [Position.shift_self] at hmoved

/-- **One text behind the other.**  A text that ends with a tag may stand in front of anything, and
    one that ends clear in front of a tag. -/
theorem append (h : Item.Scan p s items) (hmore : Item.Scan (p.advance s) u more)
    (hend : EndsBefore s items u) : Item.Scan p (s ++ u) (items ++ more) := by
  induction h with
  | nil p => exact hmore
  | @tag p s r items hread _ ih =>
    rw [← readTag_append hread] at hmore hend
    rw [Position.advance_append] at hmore
    exact Item.Scan.tag (r := r.before u) (readTag_append_text hread u) (ih hmore hend.tail)
  | @content p c s items hopen htail ih =>
    have hread : readContent (c :: s ++ u) = (readContent (c :: s)).before u := by
      rcases hend with hend | ⟨hs, hu⟩
      · refine readContent_append_rest (fun hrest => ?_) u
        rw [hrest] at htail
        cases htail
        cases hend _ rfl
      · exact readContent_append_braces hs hu
    rw [← readContent_append (c :: s)] at hmore hend
    rw [Position.advance_append] at hmore
    have hnext := @Item.Scan.content p c (s ++ u) (items ++ more) (not_braces_append hopen hread)
    rw [← List.cons_append, hread] at hnext
    exact hnext (ih hmore hend.tail)

/-- **A text may stand anywhere**, in front of anything that begins with a tag. -/
theorem elsewhere (h : Item.Scan p s items) (hs : EndsClear s) (hu : u = [] ∨ ['{', '{'] <+: u)
    (q : Position) (hmore : Item.Scan (q.advance s) u more) :
    ∃ items', Item.Scan q (s ++ u) (items' ++ more)
      ∧ items'.map Item.unplaced = items.map Item.unplaced := by
  refine ⟨_, ?_, Item.map_unplaced_moved (p.shift q) items⟩
  rcases hu with rfl | hu
  · cases hmore
    rw [List.append_nil, List.append_nil]
    exact h.shifted q
  · exact (h.shifted q).append hmore (.inr ⟨hs, hu⟩)

end Item.Scan

/-! ## Calls behind an else -/

/-- A blank in front of the body of a tag. -/
theorem readBody_blank {closing : Closing} {p : Position} {s : List Char} {r : Reading TagBody}
    {blank : Char} (hblank : Text.isBlank blank = true)
    (h : readBody closing (p.advance [blank]) s = .ok r) :
    readBody closing p (blank :: s) = .ok ⟨r.value, blank :: r.lexeme, r.rest⟩ := by
  have htake := List.takeWhile_cons_of_pos (l := s) hblank
  have hdrop := List.dropWhile_cons_of_pos (l := s) hblank
  rw [readBody] at h
  split at h
  · cases h
  · rename_i c t ht
    -- with a tilde, without, or with a token first: the blank only lengthens the gap
    split at h
    · rename_i hmark
      cases h
      rw [readBody_of_tilde (hdrop.trans ht) hmark, htake]
      rfl
    split at h
    · rename_i htilde hmark
      cases h
      rw [readBody_of_bare (hdrop.trans ht) (Bool.eq_false_iff.2 htilde) hmark, htake]
      rfl
    · rename_i htilde hbare
      split at h
      · cases h
      · rename_i hr
        obtain ⟨more, hmore, h⟩ := exists_of_bind_ok h
        cases h
        rw [readBody_of_token (hdrop.trans ht) (Bool.eq_false_iff.2 htilde)
          (Bool.eq_false_iff.2 hbare) hr (by rw [htake]; exact hmore), htake]
        rfl

/-- **The call of a block** may stand in an else tag. -/
theorem readTag_elseChain {p : Position} {s : List Char} {r : Reading ItemShape} {tag : Tag}
    (h : readTag p ('#' :: s) = .ok r) (hr : r.value = .tag tag) (hkind : tag.kind = .openBlock)
    (htokens : tag.tokens ≠ []) (u : List Char) (q : Position) :
    ∃ r' tag', readTag q ('e' :: 'l' :: 's' :: 'e' :: ' ' :: (s ++ u)) = .ok r'
      ∧ r'.value = .tag tag' ∧ tag'.kind = .elseChain ∧ tag'.strip = tag.strip
      ∧ tag'.tokens.map Token.unplaced = tag.tokens.map Token.unplaced
      ∧ r'.rest = r.rest ++ u := by
  have hopener := @readTag_tag p ('#' :: s) [] ('#' :: s) rfl rfl (by simp)
  rw [hopener] at h
  obtain ⟨body, hbody, h⟩ := exists_of_bind_ok h
  cases h
  cases hr
  have hmark : readMark ('#' :: s) = ⟨.openBlock, ['#'], s⟩ := by
    unfold readMark at hkind ⊢
    split at hkind <;> simp_all
  rw [hmark] at hbody
  obtain ⟨body', hbody', htokens', htilde, hrest⟩ :=
    readBody_elsewhere (TagRole.closing_proper _) hbody u
      ((q.advance ('{' :: '{' :: "else".toList)).advance [' '])
  have hbehind := readBody_blank (by decide) hbody'
  -- The tag does not close at once, since there are tokens in it.
  have hopen : closesAtOnce (' ' :: (s ++ u)) = false := by
    rw [closesAtOnce_eq hbehind, List.isEmpty_eq_false_iff]
    intro hnil
    rw [hnil, List.map_nil, eq_comm, List.map_eq_nil_iff] at htokens'
    exact htokens htokens'
  have hchain : readMark ('e' :: 'l' :: 's' :: 'e' :: ' ' :: (s ++ u))
      = ⟨.elseChain, "else".toList, ' ' :: (s ++ u)⟩ := by
    show Reading.mk (if closesAtOnce (' ' :: (s ++ u)) then _ else _) _ _ = _
    rw [hopen]
    rfl
  have hread := @readTag_tag q ('e' :: 'l' :: 's' :: 'e' :: ' ' :: (s ++ u)) []
    ('e' :: 'l' :: 's' :: 'e' :: ' ' :: (s ++ u)) rfl rfl (by simp)
  rw [hchain] at hread
  refine ⟨⟨.tag ⟨.elseChain, body'.value.tokens, body'.value.stop, ⟨false, body'.value.tilde⟩⟩,
    '{' :: '{' :: ("else".toList ++ ' ' :: body'.lexeme), body'.rest⟩, _, ?_, rfl, rfl, ?_,
    htokens', hrest⟩
  · rw [hread]
    show (readBody _ _ _ >>= fun _ => _) = _
    exact congrArg (fun body => body >>= _) hbehind
  · rw [htilde]
    rfl

namespace Item.Scan

variable {p : Position} {s u : List Char} {item : Item} {more : List Item}

/-- A text that is one tag. -/
theorem exists_readTag (h : Item.readAll p ('{' :: '{' :: s) = .ok [item]) :
    ∃ r, readTag p s = .ok r ∧ r.rest = []
      ∧ item = ⟨r.value, String.ofList ('{' :: '{' :: s), p⟩ := by
  cases Item.Scan.of_readAll h with
  | @tag _ _ r _ hread hmore =>
    have happ := readTag_append hread
    generalize hrest : r.rest = rest at hmore happ
    cases hmore
    rw [List.append_nil] at happ
    exact ⟨r, hread, hrest, by rw [happ]⟩
  | content hopen _ => exact (hopen ⟨s, rfl⟩).elim

/-- One tag may stand anywhere, in front of anything. -/
theorem single_elsewhere (h : Item.readAll p ('{' :: '{' :: s) = .ok [item]) (q : Position)
    (hmore : Item.Scan (q.advance ('{' :: '{' :: s)) u more) :
    ∃ item', Item.Scan q ('{' :: '{' :: s ++ u) (item' :: more)
      ∧ item'.unplaced = item.unplaced := by
  obtain ⟨r, hread, hrest, rfl⟩ := exists_readTag h
  have hlexeme : r.lexeme = '{' :: '{' :: s := by
    rw [← readTag_append hread, hrest, List.append_nil]
  have hread' := readTag_moved hread (p.moves_shift q) u
  rw [Position.shift_self] at hread'
  refine ⟨_, .tag hread' (by rwa [hlexeme, hrest]), ?_⟩
  rw [Item.unplaced, Item.unplaced, ItemShape.unplaced_moved, hlexeme]

/-- The open tag of a block, as an else tag anywhere and in front of anything. -/
theorem chain_elsewhere (h : Item.readAll p ('{' :: '{' :: '#' :: s) = .ok [item]) {tag : Tag}
    (hshape : item.shape = .tag tag) (hkind : tag.kind = .openBlock) (htokens : tag.tokens ≠ [])
    (q : Position)
    (hmore : Item.Scan (q.advance ('{' :: '{' :: 'e' :: 'l' :: 's' :: 'e' :: ' ' :: s)) u more) :
    ∃ item' tag', Item.Scan q ('{' :: '{' :: 'e' :: 'l' :: 's' :: 'e' :: ' ' :: (s ++ u))
        (item' :: more)
      ∧ item'.shape = .tag tag' ∧ tag'.kind = .elseChain ∧ tag'.strip = tag.strip
      ∧ tag'.tokens.map Token.unplaced = tag.tokens.map Token.unplaced := by
  obtain ⟨r, hread, hrest, rfl⟩ := exists_readTag h
  obtain ⟨r', tag', hread', hvalue, hkind', hstrip, htokens', hrest'⟩ :=
    readTag_elseChain hread hshape hkind htokens u q
  rw [hrest, List.nil_append] at hrest'
  have hlexeme : r'.lexeme = '{' :: '{' :: 'e' :: 'l' :: 's' :: 'e' :: ' ' :: s := by
    have happ := readTag_append hread'
    rw [hrest'] at happ
    exact List.append_cancel_right happ
  rw [← hlexeme, ← hrest'] at hmore
  exact ⟨_, tag', .tag hread' hmore, hvalue, hkind', hstrip, htokens'⟩

end Item.Scan

end Stache
