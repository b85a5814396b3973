/-
  Quoted texts, and texts that differ in one of them.

  1. WRITING.  A text is written between quotes with a backslash before each quote of that kind
     (`quotedBy`).  A backslash is written as it is, so one at the end would be taken together with
     the closing quote; any other text is read back, whatever follows (`TokenKind.read_quotedBy`).

  2. REPLACING.  If a token of a tag begins with a quote, another such token may stand in its place:
     what is in front of it is read up to the quote and no further, and what is behind it is read
     from there as before, at other positions.  So the items of the new text are those of the old
     one, but for the one token (`Item.Scan.replace`).
-/
import Stache.Proofs.Items.Quotes
import Stache.Proofs.Items.Tokens

namespace Stache

open Position

/-! ## Writing -/

/-- The text with a backslash before each quote. -/
def escapeQuotes (quote : Char) (s : List Char) : List Char :=
  s.flatMap fun c => if c = quote then ['\\', quote] else [c]

/-- The text between quotes. -/
def quotedBy (quote : Char) (s : List Char) : List Char :=
  quote :: (escapeQuotes quote s ++ [quote])

section

variable {quote : Char}

theorem escapeQuotes_cons (c : Char) (s : List Char) :
    escapeQuotes quote (c :: s)
      = (if c = quote then ['\\', quote] else [c]) ++ escapeQuotes quote s := rfl

/-- An escaped text does not begin with the quote. -/
theorem exists_escapeQuotes_cons (hquote : quote ≠ '\\') (c : Char) (s : List Char) :
    ∃ d more, escapeQuotes quote (c :: s) = d :: more ∧ d ≠ quote := by
  rw [escapeQuotes_cons]
  by_cases hc : c = quote
  · rw [if_pos hc]
    exact ⟨'\\', _, rfl, hquote.symm⟩
  · rw [if_neg hc]
    exact ⟨c, _, rfl, hc⟩

/-- **A text between quotes** is read back, unless its last character is a backslash. -/
theorem readQuoted_escapeQuotes (hquote : quote ≠ '\\') {s : List Char}
    (hs : s.getLast? ≠ some '\\') (rest : List Char) :
    readQuoted quote (escapeQuotes quote s ++ quote :: rest)
      = some ⟨s, escapeQuotes quote s ++ [quote], rest⟩ := by
  induction s with
  | nil => simp [escapeQuotes, readQuoted, hquote]
  | cons c s ih =>
    cases s with
    | nil =>
      have hc : c ≠ '\\' := by simpa using hs
      by_cases hcquote : c = quote <;> simp [escapeQuotes, readQuoted, hcquote, hc, hquote]
    | cons d s =>
      rw [List.getLast?_cons_cons] at hs
      have hmore := ih hs
      rw [escapeQuotes_cons]
      by_cases hc : c = quote
      · rw [if_pos hc]
        simp [readQuoted, hmore, hc]
      rw [if_neg hc]
      by_cases hback : c = '\\'
      -- The backslash is kept, since what follows it is not the quote.
      · obtain ⟨e, more, hescape, he⟩ := exists_escapeQuotes_cons hquote d s
        rw [hescape] at hmore ⊢
        rw [List.cons_append] at hmore
        simp [readQuoted, hback, he, hmore]
      · simp [readQuoted, hc, hback, hmore]

/-- So it is read as a token, behind the first quote. -/
theorem TokenKind.read_quotedBy (hquote : IsQuote quote) {s : List Char}
    (hs : s.getLast? ≠ some '\\') (rest : List Char) :
    TokenKind.read quote (escapeQuotes quote s ++ quote :: rest)
      = .ok ⟨.string (String.ofList s), quotedBy quote s, rest⟩ := by
  have hback : quote ≠ '\\' := by rcases hquote with rfl | rfl <;> decide
  have hread := readQuoted_escapeQuotes hback hs rest
  unfold TokenKind.read
  rcases hquote with rfl | rfl
  all_goals
    dsimp only
    rw [hread]
    rfl

end

/-! ## Replacing -/

section Replacing

variable {q q' : Char} (hq : IsQuote q) (hq' : IsQuote q') {b x y : List Char}
variable {r₀ r₁ : Reading TokenKind} (h₀ : TokenKind.read q x = .ok r₀)
variable (h₁ : TokenKind.read q' y = .ok r₁) (hrest : r₁.rest = r₀.rest)

include hq hq' h₀ h₁ hrest

omit hq h₀ in
/-- The first token of a body, behind blanks. -/
theorem readBody_replace_first {closing : Closing} (hclosing : closing.Proper) {p : Position}
    (hblank : b.dropWhile Text.isBlank = []) {more : Reading TagBody}
    (hmore : readBody closing ((p.advance b).advance r₀.lexeme) r₀.rest = .ok more) :
    ∃ r' vs', readBody closing p (b ++ q' :: y) = .ok r'
      ∧ r'.value.tokens = ⟨r₁.value, String.ofList r₁.lexeme, p.advance b⟩ :: vs'
      ∧ vs'.map Token.unplaced = more.value.tokens.map Token.unplaced
      ∧ r'.value.tilde = more.value.tilde ∧ r'.rest = more.rest := by
  have hb : b.takeWhile Text.isBlank = b := by
    have hsplit := List.takeWhile_append_dropWhile (p := Text.isBlank) (l := b)
    rwa [hblank, List.append_nil] at hsplit
  obtain ⟨htake, hdrop⟩ := span_append_cons hq'.isBlank_eq b y
  rw [hblank] at hdrop
  obtain ⟨hnotilde, hnobare⟩ := hclosing.isPrefixOf_eq_false h₁ y
  obtain ⟨more', hmore', hsame⟩ := readBody_elsewhere hclosing hmore []
    ((p.advance ((b ++ q' :: y).takeWhile Text.isBlank)).advance r₁.lexeme)
  rw [List.append_nil, ← hrest] at hmore'
  refine ⟨_, _, readBody_of_token hdrop hnotilde hnobare h₁ hmore', ?_, hsame.tokens_eq,
    hsame.tilde_eq, hsame.rest_eq.trans (List.append_nil _)⟩
  rw [htake, hb]

/-- **In the body of a tag** a token at a quote may be replaced. -/
theorem readBody_replace {closing : Closing} (hclosing : closing.Proper) {p : Position}
    {r : Reading TagBody} (h : readBody closing p (b ++ q :: x) = .ok r) {us vs : List Token}
    {t : Token} (htokens : r.value.tokens = us ++ t :: vs) (hstart : t.start = p.advance b) :
    ∃ r' vs', readBody closing p (b ++ q' :: y) = .ok r'
      ∧ r'.value.tokens = us ++ ⟨r₁.value, String.ofList r₁.lexeme, p.advance b⟩ :: vs'
      ∧ vs'.map Token.unplaced = vs.map Token.unplaced ∧ r'.value.tilde = r.value.tilde
      ∧ r'.rest = r.rest := by
  generalize hs : b ++ q :: x = s at h
  fun_induction readBody closing p s generalizing b r us
  · cases h
  iterate 2
    cases h
    simp at htokens
  · cases h
  · rename_i p s gap q₀ c u hu htilde hbare r' hread ih
    subst hs
    obtain ⟨htake, hdrop⟩ := span_append_cons hq.isBlank_eq b x
    have hsplit := List.takeWhile_append_dropWhile (p := Text.isBlank) (l := b)
    obtain ⟨more, hmore, h⟩ := exists_of_bind_ok h
    cases h
    simp only [gap, q₀, htake] at hmore htokens ih
    rw [hdrop] at hu
    cases us with
    | nil =>
      obtain ⟨rfl, rfl⟩ := List.cons.inj htokens
      -- It is the first token, so there is nothing but blanks in front of it.
      have hb : b.takeWhile Text.isBlank = b :=
        eq_of_advance_eq (List.takeWhile_prefix _) List.prefix_rfl hstart
      have hblank : b.dropWhile Text.isBlank = [] := by
        rw [hb] at hsplit
        exact List.append_right_eq_self.1 hsplit
      rw [hblank] at hu
      obtain ⟨rfl, rfl⟩ := List.cons.inj hu
      obtain rfl : r' = r₀ := Except.ok.inj (hread.symm.trans h₀)
      rw [hb] at hmore
      exact readBody_replace_first hq' h₁ hrest hclosing hblank hmore
    | cons u₁ us =>
      obtain ⟨rfl, hbehind⟩ := List.cons.inj htokens
      have htokens' : more.value.tokens = us ++ t :: vs := hbehind
      have happ := TokenKind.read_append hread
      -- The token is behind the first one.
      obtain ⟨b', hb, hr'⟩ : ∃ b', b = b.takeWhile Text.isBlank ++ r'.lexeme ++ b'
          ∧ r'.rest = b' ++ q :: x := by
        have hmem : t ∈ more.value.tokens := by
          rw [htokens']
          exact List.mem_append_right _ (List.mem_cons_self ..)
        have hin := readBody_readIn hmore t hmem
        rw [← advance_append] at hin
        refine hin.exists_rest ?_ hstart
        rw [List.append_assoc, happ, ← hu, ← List.append_assoc, hsplit]
      obtain ⟨w, hw, rfl⟩ := TokenKind.exists_before_quote hread hu hr'
      obtain ⟨htake', hdrop'⟩ := span_append_cons hq'.isBlank_eq b y
      rw [hw] at hdrop'
      have hread' := TokenKind.read_before_quote hq hq' y hread hr'
      obtain ⟨hnotilde, hnobare⟩ := hclosing.isPrefixOf_eq_false hread' (w ++ q' :: y)
      have hstart' : t.start
          = ((p.advance (b.takeWhile Text.isBlank)).advance r'.lexeme).advance b' := by
        rw [hstart, ← advance_append, ← advance_append, ← List.append_assoc, ← hb]
      obtain ⟨more', vs', hmore', hbody, hvs, htilde', hrest'⟩ :=
        ih htokens' hstart' hr'.symm hmore
      rw [← htake'] at hmore'
      refine ⟨_, vs', readBody_of_token hdrop' hnotilde hnobare hread' hmore', ?_, hvs, htilde',
        hrest'⟩
      show _ :: more'.value.tokens = _
      rw [hbody, ← hstart', hstart, htake']
      rfl

/-- The same in a tag. -/
theorem readTag_replace {p : Position} {r : Reading ItemShape}
    (h : readTag p (b ++ q :: x) = .ok r) {tag : Tag} (hvalue : r.value = .tag tag)
    {us vs : List Token} {t : Token} (htokens : tag.tokens = us ++ t :: vs)
    (hstart : t.start = p.advance ('{' :: '{' :: b)) :
    ∃ r' tag' vs', readTag p (b ++ q' :: y) = .ok r' ∧ r'.value = .tag tag'
      ∧ tag'.kind = tag.kind ∧ tag'.strip = tag.strip
      ∧ tag'.tokens = us ++ ⟨r₁.value, String.ofList r₁.lexeme, t.start⟩ :: vs'
      ∧ vs'.map Token.unplaced = vs.map Token.unplaced ∧ r'.rest = r.rest := by
  obtain ⟨tilde, v, rfl, -, htilde⟩ := exists_front ['~'] (by decide) b
  obtain ⟨htilde₀, hv₀⟩ := htilde hq x
  obtain ⟨htilde₁, hv₁⟩ := htilde hq' y
  by_cases hbang : ∃ w, v ++ q :: x = '!' :: w
  · obtain ⟨w, hw⟩ := hbang
    rw [readTag_comment htilde₀ (hv₀.trans hw)] at h
    split at h
    · cases h
    · cases h
      cases hvalue
  · have hother : ¬ ∃ w, v ++ q' :: y = '!' :: w := by
      rwa [bang_append_quote_iff hq', ← bang_append_quote_iff hq v x]
    obtain ⟨m, hm, hmark⟩ := readMark_before_quote hq hq' y v (x := x)
    rw [readTag_tag htilde₀ hv₀ hbang] at h
    rw [readTag_tag htilde₁ hv₁ hother, hmark]
    obtain ⟨body, hbody, h⟩ := exists_of_bind_ok h
    cases h
    cases hvalue
    -- what the mark leaves before the quote is where the body starts
    have hfront : (readMark (v ++ q :: x)).lexeme ++ m = v := by
      have happ := readMark_append (v ++ q :: x)
      rw [hm, ← List.append_assoc] at happ
      exact List.append_cancel_right happ
    have hstart' : t.start = (p.advance ('{' :: '{' :: tilde
        ++ (readMark (v ++ q :: x)).lexeme)).advance m := by
      rw [hstart, ← advance_append, List.append_assoc, hfront]
      rfl
    rw [hm] at hbody
    obtain ⟨body', vs', hbody', htokens', hvs, htilde', hrest'⟩ := readBody_replace hq hq' h₀ h₁
      hrest (TagRole.closing_proper _) hbody htokens hstart'
    dsimp only [Reading.followedBy]
    rw [hbody']
    refine ⟨_, _, vs', rfl, rfl, rfl, ?_, ?_, hvs, hrest'⟩
    · rw [htilde']
    · rw [hstart']
      exact htokens'

/-- **In a text** a token at a quote may be replaced.  Nothing changes in front of it, and what is
    behind it is the same in another place. -/
theorem Item.Scan.replace {p : Position} {items : List Item}
    (h : Item.Scan p (b ++ q :: x) items) {item : Item} (hitem : item ∈ items) {tag : Tag}
    (hshape : item.shape = .tag tag) {us vs : List Token} {t : Token}
    (htokens : tag.tokens = us ++ t :: vs) (hstart : t.start = p.advance b) :
    ∃ pre post item' post' tag' vs', items = pre ++ item :: post
      ∧ Item.Scan p (b ++ q' :: y) (pre ++ item' :: post') ∧ item'.shape = .tag tag'
      ∧ tag'.kind = tag.kind ∧ tag'.strip = tag.strip
      ∧ tag'.tokens = us ++ ⟨r₁.value, String.ofList r₁.lexeme, t.start⟩ :: vs'
      ∧ vs'.map Token.unplaced = vs.map Token.unplaced
      ∧ post'.map Item.unplaced = post.map Item.unplaced := by
  have hmem : t ∈ tag.tokens := by
    rw [htokens]
    exact List.mem_append_right _ (List.mem_cons_self ..)
  generalize hs : b ++ q :: x = s at h
  induction h generalizing b with
  | nil p => cases hitem
  | @tag p s r items hread hmore ih =>
    obtain ⟨b, rfl, rfl⟩ := hq.exists_of_braces hs.symm
    rcases List.mem_cons.1 hitem with rfl | hitem
    · obtain ⟨r', tag', vs', hread', hvalue, hkind, hstrip, htokens', hvs, hrest'⟩ :=
        readTag_replace hq hq' h₀ h₁ hrest hread hshape htokens hstart
      have hpost := hmore.shifted (p.advance r'.lexeme)
      rw [← hrest'] at hpost
      exact ⟨[], items, _, _, tag', vs', rfl, .tag hread' hpost, hvalue, hkind, hstrip, htokens',
        hvs, Item.map_unplaced_moved _ items⟩
    · have hin := hmore.readIn hitem hshape t hmem
      obtain ⟨b', hb, hr⟩ := hin.exists_rest (readTag_append hread) hstart
      have hread' := readTag_before_quote hq hq' y hread hr
      have hstart' : t.start = (p.advance r.lexeme).advance b' := by
        rw [hstart, ← advance_append, ← hb]
      obtain ⟨pre, post, item', post', tag', vs', rfl, hscan, hrest⟩ :=
        ih hitem hstart' hr.symm
      exact ⟨_ :: pre, post, item', post', tag', vs', rfl,
        Item.Scan.tag (r := r.followedBy (b' ++ q' :: y)) hread' hscan, hrest⟩
  | @content p c s items hopen hmore ih =>
    rcases List.mem_cons.1 hitem with rfl | hitem
    · cases hshape
    · have hin := hmore.readIn hitem hshape t hmem
      obtain ⟨b', hb, hr⟩ := hin.exists_rest ((readContent_append _).trans hs.symm) hstart
      have hstart' : t.start = (p.advance (readContent (c :: s)).lexeme).advance b' := by
        rw [hstart, ← advance_append, ← hb]
      obtain ⟨pre, post, item', post', tag', vs', rfl, hscan, hrest⟩ :=
        ih hitem hstart' hr.symm
      have hne := readContent_ne_nil hopen
      rw [← hs] at hr hopen
      have hread' := readContent_before_quote hq hq' y hr
      -- The content is not empty, so it has the first character of the text.
      obtain ⟨d, w, rfl⟩ := List.exists_cons_of_ne_nil fun hnil =>
        hne (List.append_eq_nil_iff.1 (hb.symm.trans hnil)).1
      obtain rfl : d = c := (List.cons.inj hs).1
      have hopen' : ¬ ['{', '{'] <+: d :: (w ++ q' :: y) := by
        rw [← List.cons_append, isPrefix_append_cons_iff (hq'.not_mem (by decide))]
        rwa [isPrefix_append_cons_iff (hq.not_mem (by decide))] at hopen
      have hnext := @Item.Scan.content p d (w ++ q' :: y) (pre ++ item' :: post') hopen'
      rw [← List.cons_append, hread', hs] at hnext
      exact ⟨_ :: pre, post, item', post', tag', vs', rfl, hnext hscan, hrest⟩

end Replacing

end Stache
