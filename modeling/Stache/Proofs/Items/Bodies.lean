/-
  The body of a tag.

  A tag is opened by its braces and a mark, and closed by braces again; what stands between the two
  is its BODY.  Here the tokens of a tag are held against the characters of its body: nothing but
  blanks is left between them, and nothing is in two of them.

  1. **Characters of a stretch** (`exists_of_between`).  Positions come in the order of the text, so
     a character whose position is inside a stretch of the text is one of those that make up the
     stretch.

  2. **Rows of tokens** (`Token.Fills`).  A row FILLS a text when the text is the lexemes of the
     tokens with blanks around them, each token beginning where it is written.  Such tokens lie
     apart and in order (`Fills.inside`, `Fills.apart`), the gaps around them are blank
     (`Fills.gaps`), and each character that is not blank is in one of them (`Fills.exists_holds`),
     hence in one only (`existsUnique_holds`).

  3. **One tag** (`readTag_covered`).  The reader of a body leaves a row that fills it
     (`readBody_fills`), whichever way each token goes forward, since the reader of tokens returns
     the characters that it took.  The mark in front and the closing braces are those of the kind
     of the tag (`readMark_isMark`, `Tag.closer_eq`).

  4. **All tags of a text** (`Item.readAll_covered`).  A text that has a tag which cannot be read is
     read up to there; the tags in front are completed all the same.  A RUN is such a reading, with
     the items that are completed and the fault that ends it, if there is one.
-/
import Mathlib.Logic.ExistsUnique
import Stache.Proofs.Items.Tokens

namespace Stache

open Position

/-! ## Characters of a stretch -/

/-- A character of two texts end to end is one of the first, or else one of the second. -/
theorem split_append_cons {s t b a : List Char} {c : Char} (h : s ++ t = b ++ c :: a) :
    (∃ a', s = b ++ c :: a') ∨ ∃ b', b = s ++ b' ∧ t = b' ++ c :: a := by
  rcases List.append_eq_append_iff.1 h with ⟨b', hb, ht⟩ | ⟨more, hs, hmore⟩
  · exact .inr ⟨b', hb, ht⟩
  · cases more with
    | nil => exact .inr ⟨[], by simp [hs], hmore.symm⟩
    | cons d more =>
      obtain rfl : c = d := (List.cons.inj hmore).1
      exact .inl ⟨more, hs⟩

/-- A character whose position is in a stretch of text is one of the stretch. -/
theorem exists_of_between {p : Position} {front body rest before after : List Char} {c : Char}
    (htext : front ++ (body ++ rest) = before ++ c :: after)
    (hfrom : (p.advance front).UpTo (p.advance before))
    (hto : (p.advance before).Before (p.advance (front ++ body))) :
    ∃ b a, before = front ++ b ∧ body = b ++ c :: a := by
  rcases split_append_cons htext with ⟨a, rfl⟩ | ⟨b, rfl, hbody⟩
  · rw [advance_append] at hfrom
    exact ((before_advance (List.cons_ne_nil c a) _).not_upTo hfrom).elim
  · rcases split_append_cons hbody with ⟨a, rfl⟩ | ⟨b, rfl, -⟩
    · exact ⟨b, a, rfl, rfl⟩
    · rw [← List.append_assoc, advance_append] at hto
      exact (hto.not_upTo (upTo_advance _ b)).elim

theorem isBlank_takeWhile (s : List Char) :
    ∀ c ∈ s.takeWhile Text.isBlank, Text.isBlank c = true := List.all_eq_true.1 List.all_takeWhile

/-! ## Rows of tokens -/

/-- The position is one of the span. -/
def Span.Holds (span : Span) (q : Position) : Prop := span.start.UpTo q ∧ q.Before span.stop

/-- The span covers blanks, or nothing. -/
def Span.Blank (text : List Char) (span : Span) : Prop :=
  ∃ gap, span.Covers text gap ∧ ∀ c ∈ gap, Text.isBlank c = true

/-- What stands around the tokens from `p` to `q`: in front of the first one, between each and the
    next, and behind the last one. -/
def gapsAround (p q : Position) : List Token → List Span
  | [] => [⟨p, q⟩]
  | t :: ts => ⟨p, t.start⟩ :: gapsAround t.stop q ts

/-- The text `s`, which begins at `p`, is made up of the tokens and of blanks around them. -/
inductive Token.Fills : Position → List Char → List Token → Prop where
  | blank (p : Position) {gap : List Char} (hgap : ∀ c ∈ gap, Text.isBlank c = true) :
      Token.Fills p gap []
  | token {p : Position} {gap s : List Char} {t : Token} {ts : List Token}
      (hgap : ∀ c ∈ gap, Text.isBlank c = true) (hstart : t.start = p.advance gap)
      (hne : t.lexeme.toList ≠ []) (hmore : Token.Fills t.stop s ts) :
      Token.Fills p (gap ++ (t.lexeme.toList ++ s)) (t :: ts)

/-- Where a text ends that a token begins, behind a gap. -/
theorem Token.advance_of_start {p : Position} {gap : List Char} {t : Token}
    (h : t.start = p.advance gap) (s : List Char) :
    p.advance (gap ++ (t.lexeme.toList ++ s)) = t.stop.advance s := by
  rw [advance_append, advance_append, ← h, stop]

namespace Token.Fills

variable {p : Position} {s : List Char} {ts : List Token}

theorem before_stop (h : Fills p s ts) : ∀ t ∈ ts, t.start.Before t.stop := by
  induction h with
  | blank p hgap => exact List.forall_mem_nil _
  | token hgap hstart hne hmore ih => exact List.forall_mem_cons.2 ⟨before_advance hne _, ih⟩

/-- The tokens do not reach out of the text. -/
theorem inside (h : Fills p s ts) : ∀ t ∈ ts, p.UpTo t.start ∧ t.stop.UpTo (p.advance s) := by
  induction h with
  | blank p hgap => exact List.forall_mem_nil _
  | @token p gap s t ts hgap hstart hne hmore ih =>
    have hfrom : p.UpTo t.start := hstart ▸ upTo_advance p gap
    have hacross : p.UpTo t.stop := hfrom.trans (upTo_advance t.start _)
    rw [Token.advance_of_start hstart]
    exact List.forall_mem_cons.2 ⟨⟨hfrom, upTo_advance t.stop s⟩, fun u hu =>
      ⟨hacross.trans (ih u hu).1, (ih u hu).2⟩⟩

/-- Each token ends before the next ones begin. -/
theorem apart (h : Fills p s ts) : ts.Pairwise fun t u => t.stop.UpTo u.start := by
  induction h with
  | blank p hgap => exact .nil
  | token hgap hstart hne hmore ih => exact .cons (fun u hu => (hmore.inside u hu).1) ih

/-- **The gaps** around the tokens are blank. -/
theorem gaps (h : Fills p s ts) {before : List Char} (hp : p = origin.advance before)
    (after : List Char) :
    ∀ gap ∈ gapsAround p (p.advance s) ts, gap.Blank (before ++ (s ++ after)) := by
  induction h generalizing before with
  | @blank p gap hgap =>
    rw [gapsAround, List.forall_mem_singleton]
    refine ⟨gap, ⟨before, after, (List.append_assoc ..).symm, ?_⟩, hgap⟩
    rw [advance_append, hp]
  | @token p gap s t ts hgap hstart hne hmore ih =>
    rw [gapsAround, Token.advance_of_start hstart]
    refine List.forall_mem_cons.2 ⟨?_, ?_⟩
    · refine ⟨gap, ⟨before, t.lexeme.toList ++ s ++ after, by simp, ?_⟩, hgap⟩
      rw [advance_append, ← hp, hstart]
    · have hstop : t.stop = origin.advance (before ++ (gap ++ t.lexeme.toList)) := by
        rw [advance_append, ← hp, advance_append, ← hstart, Token.stop]
      simpa using ih hstop

/-- Every character that is not blank is in a token. -/
theorem exists_holds (h : Fills p s ts) {b a : List Char} {c : Char} (hs : s = b ++ c :: a)
    (hc : Text.isBlank c = false) : ∃ t ∈ ts, t.span.Holds (p.advance b) := by
  -- it is not in a gap
  have hgapless {gap b a' : List Char} (hgap : ∀ d ∈ gap, Text.isBlank d = true) :
      gap ≠ b ++ c :: a' := by
    rintro rfl
    rw [hgap c (by simp)] at hc
    cases hc
  induction h generalizing b with
  | blank p hgap => exact (hgapless hgap hs).elim
  | @token p gap s t ts hgap hstart hne hmore ih =>
    obtain ⟨b, rfl, hrest⟩ := (split_append_cons hs).resolve_left fun h =>
      h.elim fun _ => hgapless hgap
    rw [advance_append, ← hstart]
    rcases split_append_cons hrest with ⟨a', hlexeme⟩ | ⟨b, rfl, hbehind⟩
    · -- It is a character of the first token,
      refine ⟨t, List.mem_cons_self .., upTo_advance t.start b, ?_⟩
      show (t.start.advance b).Before (t.start.advance t.lexeme.toList)
      rw [hlexeme, advance_append]
      exact before_advance (List.cons_ne_nil c a') _
    · -- or it comes behind that.
      obtain ⟨u, hu, hholds⟩ := ih hbehind
      rw [advance_append]
      exact ⟨u, List.mem_cons_of_mem t hu, hholds⟩

end Token.Fills

/-- A position is in one token at most, where tokens lie apart. -/
theorem existsUnique_holds {ts : List Token} (h : ts.Pairwise fun t u => t.stop.UpTo u.start)
    {q : Position} (hq : ∃ t ∈ ts, t.span.Holds q) :
    ∃! i : Fin ts.length, (ts.get i).span.Holds q := by
  obtain ⟨t, ht, hholds⟩ := hq
  obtain ⟨i, rfl⟩ := List.mem_iff_get.1 ht
  have hapart (i j : Fin ts.length) (hlt : i < j) : (ts.get i).stop.UpTo (ts.get j).start :=
    List.pairwise_iff_getElem.1 h i j i.isLt j.isLt hlt
  refine ⟨i, hholds, fun j hj => ?_⟩
  rcases Nat.lt_trichotomy i j with hlt | heq | hgt
  · exact (hholds.2.not_upTo ((hapart i j hlt).trans hj.1)).elim
  · exact Fin.ext heq.symm
  · exact (hj.2.not_upTo ((hapart j i hgt).trans hholds.1)).elim

/-! ## What a tag is made of -/

/-- The word `else`, with blanks in front of it. -/
def IsElse (mark : List Char) : Prop :=
  ∃ gap, (∀ c ∈ gap, Text.isBlank c = true) ∧ mark = gap ++ "else".toList

/-- What tells the kind of a tag, right behind its opening braces and their tilde. -/
def TagRole.IsMark (mark : List Char) : TagRole → Prop
  | .mustache .plain => mark = []
  | .mustache .ampersand => mark = ['&']
  | .mustache .triple => mark = ['{']
  | .partialCall => mark = ['>']
  | .decorator => mark = ['*']
  | .openBlock => mark = ['#']
  | .openInverse => mark = ['^']
  | .openPartialBlock => mark = ['#', '>']
  | .openDecoratorBlock => mark = ['#', '*']
  | .elseMark => mark = ['^'] ∨ IsElse mark
  | .elseChain => IsElse mark
  | .closeMark => mark = ['/']

/-- A tilde, or nothing. -/
def tildeIf (strip : Bool) : List Char := if strip then ['~'] else []

/-- The characters that open the tag: braces, a tilde if it has one there, and its mark. -/
def Tag.IsOpener (tag : Tag) (s : List Char) : Prop :=
  ∃ mark, tag.kind.IsMark mark ∧ s = '{' :: '{' :: (tildeIf tag.strip.opening ++ mark)

/-- The characters that close the tag: braces, with a tilde if it has one there.  Triple braces have
    it inside the outer two. -/
def Tag.closer (tag : Tag) : List Char :=
  match tag.kind with
  | .mustache .triple => '}' :: (tildeIf tag.strip.closing ++ ['}', '}'])
  | _ => tildeIf tag.strip.closing ++ ['}', '}']

/-- The tag, which stands at `span`, has its body from `opened` on, and the body is covered by the
    tokens and by blanks. -/
structure Tag.CoveredFrom (text : List Char) (span : Span) (opened : Position) (tag : Tag) :
    Prop where
  opens : ∃ opener, tag.IsOpener opener ∧ (Span.mk span.start opened).Covers text opener
  lexemes : ∀ t ∈ tag.tokens, t.span.Covers text t.lexeme.toList
  before_stop : ∀ t ∈ tag.tokens, t.start.Before t.stop
  apart : tag.tokens.Pairwise fun t u => t.stop.UpTo u.start
  inside : ∀ t ∈ tag.tokens, opened.UpTo t.start ∧ t.stop.UpTo tag.bodyEnd
  gaps : ∀ gap ∈ gapsAround opened tag.bodyEnd tag.tokens, gap.Blank text
  /-- A character of the body that is not blank is in one token, and in no other. -/
  once : ∀ before c after, text = before ++ c :: after →
    (Span.mk opened tag.bodyEnd).Holds (origin.advance before) → Text.isBlank c = false →
    ∃! i : Fin tag.tokens.length, (tag.tokens.get i).span.Holds (origin.advance before)
  closes : (Span.mk tag.bodyEnd span.stop).Covers text tag.closer

/-- The tokens of the tag cover its body. -/
def Tag.Covered (text : List Char) (span : Span) (tag : Tag) : Prop :=
  ∃ opened, tag.CoveredFrom text span opened

theorem Tag.closer_eq (tag : Tag) :
    tag.closer = if tag.strip.closing then tag.kind.closing.tilde else tag.kind.closing.bare := by
  obtain ⟨kind, tokens, bodyEnd, opening, closing⟩ := tag
  cases kind with
  | mustache form => cases form <;> cases closing <;> rfl
  | _ => cases closing <;> rfl

/-! ## Reading a tag -/

/-- What is taken for an else is the word or the caret. -/
theorem isElse_elseOf {s : List Char} (h : (elseOf s).isEmpty = false) : IsElse (elseOf s) := by
  unfold elseOf at h ⊢
  split at h
  · split at h
    · rename_i hend
      rw [if_pos hend]
      exact ⟨s.takeWhile Text.isBlank, isBlank_takeWhile s, rfl⟩
    · cases h
  · cases h

/-- The mark that is read is one of the kind that is read. -/
theorem readMark_isMark (s : List Char) : (readMark s).value.IsMark (readMark s).lexeme := by
  unfold readMark
  split
  iterate 8 rfl
  · -- The caret opens a block, or is an else.
    dsimp only
    split
    · exact .inl rfl
    · rfl
  · dsimp only
    split
    · rfl
    · rename_i hword
      have helse := isElse_elseOf (Bool.eq_false_iff.2 hword)
      dsimp only
      split
      · exact .inr helse
      · exact helse

/-- **The body of a tag** is filled by the tokens that are read from it. -/
theorem readBody_fills {closing : Closing} {p : Position} {s : List Char} {r : Reading TagBody}
    (h : readBody closing p s = .ok r) :
    ∃ body, r.lexeme = body ++ (if r.value.tilde then closing.tilde else closing.bare)
      ∧ r.value.stop = p.advance body ∧ Token.Fills p body r.value.tokens := by
  fun_induction readBody closing p s generalizing r
  · cases h
  iterate 2
    cases h
    exact ⟨_, rfl, rfl, .blank _ (isBlank_takeWhile _)⟩
  · cases h
  · rename_i p s gap q c u hu _ _ r' hr ih
    obtain ⟨more, hmore, h⟩ := exists_of_bind_ok h
    cases h
    obtain ⟨body, hlexeme, hstop, hfills⟩ := ih hmore
    -- In front of what the other tokens fill stand a gap and the token that was read.
    refine ⟨gap ++ (r'.lexeme ++ body), ?_, ?_, ?_⟩
    · simp only [hlexeme, List.append_assoc]
    · rw [advance_append, advance_append]
      exact hstop
    · have hne : (String.ofList r'.lexeme).toList ≠ [] := by
        rw [String.toList_ofList]
        exact TokenKind.read_ne_nil hr
      have hmore : Token.Fills (q.advance (String.ofList r'.lexeme).toList) body
          more.value.tokens := by
        rwa [String.toList_ofList]
      have htoken := @Token.Fills.token p gap body ⟨r'.value, String.ofList r'.lexeme, q⟩ _
        (isBlank_takeWhile s) rfl hne hmore
      rwa [String.toList_ofList] at htoken

/-- **The parts of a tag.**  What is read as a tag is its opener, a body that the tokens fill, and
    its closer. -/
theorem readTag_parts {p : Position} {s : List Char} {r : Reading ItemShape} {tag : Tag}
    (h : readTag p s = .ok r) (htag : r.value = .tag tag) :
    ∃ opener body, tag.IsOpener opener ∧ r.lexeme = opener ++ (body ++ tag.closer)
      ∧ tag.bodyEnd = (p.advance opener).advance body
      ∧ Token.Fills (p.advance opener) body tag.tokens := by
  cases readTag_of h with
  | comment => cases htag
  | @tag tilde u _ htilde _ _ hbody =>
    cases htag
    obtain ⟨body, hlexeme, hstop, hfills⟩ := readBody_fills hbody
    have hopening : tildeIf (!tilde.isEmpty) = tilde := by
      rw [← htilde]
      split <;> rfl
    refine ⟨_, body, ⟨(readMark u).lexeme, readMark_isMark u, rfl⟩, ?_, ?_, ?_⟩
    · rw [Tag.closer_eq, hopening, hlexeme]
      simp only [List.cons_append, List.append_assoc]
    · rw [hopening]
      exact hstop
    · rw [hopening]
      exact hfills

/-- A tag is covered by tokens that fill its body. -/
theorem Tag.coveredFrom_of_fills {text before opener body rest : List Char} {tag : Tag}
    (htext : text = before ++ (opener ++ (body ++ (tag.closer ++ rest))))
    (hopener : tag.IsOpener opener)
    (hfills : Token.Fills (origin.advance (before ++ opener)) body tag.tokens)
    (hstop : tag.bodyEnd = (origin.advance (before ++ opener)).advance body)
    (hlexemes : ∀ t ∈ tag.tokens, t.span.Covers text t.lexeme.toList) :
    tag.CoveredFrom text
      ⟨origin.advance before, origin.advance (before ++ (opener ++ (body ++ tag.closer)))⟩
      (origin.advance (before ++ opener)) where
  opens := ⟨opener, hopener, before, body ++ (tag.closer ++ rest), by simp [htext], rfl⟩
  lexemes := hlexemes
  before_stop := hfills.before_stop
  apart := hfills.apart
  inside := hstop ▸ hfills.inside
  gaps := by
    have hgaps := hfills.gaps rfl (tag.closer ++ rest)
    rwa [← hstop, List.append_assoc, ← htext] at hgaps
  once := by
    intro b c a hsplit hholds hc
    rw [hstop, ← advance_append] at hholds
    have hchar : (before ++ opener) ++ (body ++ (tag.closer ++ rest)) = b ++ c :: a := by
      rw [← hsplit, htext, List.append_assoc]
    -- between the ends of the tokens the text is the body, and those fill it
    obtain ⟨b, a, rfl, hbody⟩ := exists_of_between hchar hholds.1 hholds.2
    rw [advance_append]
    exact existsUnique_holds hfills.apart (hfills.exists_holds hbody hc)
  closes := by
    refine ⟨before ++ (opener ++ body), rest, by simp [htext], ?_⟩
    rw [hstop, ← advance_append]
    simp only [List.append_assoc]

/-- **A tag** that is read is covered by its tokens, wherever it stands in a text. -/
theorem readTag_covered {before s : List Char} {r : Reading ItemShape} {tag : Tag}
    (h : readTag (origin.advance before) s = .ok r) (htag : r.value = .tag tag) :
    tag.Covered (before ++ '{' :: '{' :: s)
      ⟨origin.advance before, origin.advance (before ++ r.lexeme)⟩ := by
  obtain ⟨opener, body, hopener, hlexeme, hstop, hfills⟩ := readTag_parts h htag
  have htext : before ++ '{' :: '{' :: s
      = before ++ (opener ++ (body ++ (tag.closer ++ r.rest))) := by
    rw [← readTag_append h, hlexeme]
    simp only [List.append_assoc]
  rw [← advance_append _ before opener] at hstop hfills
  rw [hlexeme]
  exact ⟨_, Tag.coveredFrom_of_fills htext hopener hfills hstop fun t ht =>
    (readTag_readIn h htag t ht).behind.covers⟩

/-! ## All tags of a text -/

/-- The reader goes through the text `s`, which begins at `p`: these items are completed, and then
    the text ends, or there is a tag with a fault. -/
inductive Item.Run : Position → List Char → List Item → Option ParseError → Prop where
  | done (p : Position) : Item.Run p [] [] none
  | fault {p : Position} {s : List Char} {e : ParseError} (hread : readTag p s = .error e) :
      Item.Run p ('{' :: '{' :: s) [] (some e)
  | tag {p : Position} {s : List Char} {r : Reading ItemShape} {items : List Item}
      {fault : Option ParseError} (hread : readTag p s = .ok r)
      (hmore : Item.Run (p.advance r.lexeme) r.rest items fault) :
      Item.Run p ('{' :: '{' :: s) (⟨r.value, String.ofList r.lexeme, p⟩ :: items) fault
  | content {p : Position} {c : Char} {s : List Char} {items : List Item}
      {fault : Option ParseError} (hopen : ¬ ['{', '{'] <+: c :: s)
      (hmore : Item.Run (p.advance (readContent (c :: s)).lexeme) (readContent (c :: s)).rest
        items fault) :
      Item.Run p (c :: s)
        (⟨.content (String.ofList (readContent (c :: s)).value),
          String.ofList (readContent (c :: s)).lexeme, p⟩ :: items) fault

/-- Every text has a run, and the reader returns its items if no fault ends it, and else the
    fault. -/
theorem Item.exists_run (p : Position) (s : List Char) :
    ∃ items fault, Item.Run p s items fault
      ∧ Item.readAll p s = fault.elim (.ok items) .error := by
  -- at the end, at a tag that is refused, at one that is read, and at content
  fun_induction Item.readAll p s with
  | case1 p => exact ⟨[], none, .done p, rfl⟩
  | case2 p c s hopen e he =>
    obtain ⟨t, ht⟩ := hopen
    rw [← ht] at he ⊢
    exact ⟨[], some e, .fault he, rfl⟩
  | case3 p c s hopen r hr ih =>
    obtain ⟨items, fault, hrun, hread⟩ := ih
    obtain ⟨t, ht⟩ := hopen
    rw [← ht] at hr ⊢
    refine ⟨_, fault, .tag hr hrun, ?_⟩
    rw [hread]
    cases fault <;> rfl
  | case4 =>
    rename_i p c s hopen r ih
    obtain ⟨items, fault, hrun, hread⟩ := ih
    refine ⟨_, fault, .content hopen hrun, ?_⟩
    rw [hread]
    cases fault <;> rfl

/-- Every tag of a run is covered by its parts. -/
theorem Item.Run.covered {p : Position} {s : List Char} {items : List Item}
    {fault : Option ParseError} (h : Item.Run p s items fault) (before : List Char)
    (hp : p = origin.advance before) {item : Item} (hitem : item ∈ items) {tag : Tag}
    (htag : item.shape = .tag tag) : tag.Covered (before ++ s) item.span := by
  -- What is left of the text is read behind the item in front, wherever that stands.
  induction h generalizing before with
  | done | fault => cases hitem
  | @tag p s r items fault hread hmore ih =>
    rcases List.mem_cons.1 hitem with rfl | hitem
    · subst hp
      have hcovered := readTag_covered hread htag
      rw [Item.span, Item.stop, String.toList_ofList, ← advance_append]
      exact hcovered
    · have hmore' := ih (before ++ r.lexeme) (by rw [advance_append, hp]) hitem
      rwa [List.append_assoc, readTag_append hread] at hmore'
  | @content p c s items fault hopen hmore ih =>
    rcases List.mem_cons.1 hitem with rfl | hitem
    · cases htag
    · have hmore' := ih (before ++ (readContent (c :: s)).lexeme)
        (by rw [advance_append, hp]) hitem
      rwa [List.append_assoc, readContent_append] at hmore'

/-- **The tags of a text** that are completed are covered by their tokens, whether the text is read
    to its end or up to a fault. -/
theorem Item.readAll_covered (text : String) :
    ∃ items fault, Item.Run .origin text.toList items fault
      ∧ Item.readAll .origin text.toList = fault.elim (.ok items) .error
      ∧ ∀ item ∈ items, ∀ tag, item.shape = .tag tag → tag.Covered text.toList item.span := by
  obtain ⟨items, fault, hrun, hread⟩ := Item.exists_run .origin text.toList
  refine ⟨items, fault, hrun, hread, fun item hitem tag htag => ?_⟩
  exact hrun.covered [] rfl hitem htag

/-- An else tag with tildes and a call of its own, on two lines: braces in quotes, and a bracketed
    segment with a blank in it. -/
theorem Item.readAll_covered_at_chain :
    let text := "a\x7b\x7b~ else if \"\x7d\x7d\"\n[b c].d ~\x7d\x7d"
    let tag : Tag := ⟨.elseChain, [⟨.name "if" false, "if", ⟨1, 10⟩⟩,
      ⟨.string "\x7d\x7d", "\"\x7d\x7d\"", ⟨1, 13⟩⟩, ⟨.name "b c" true, "[b c]", ⟨2, 0⟩⟩,
      ⟨.separator '.', ".", ⟨2, 5⟩⟩, ⟨.name "d" false, "d", ⟨2, 6⟩⟩], ⟨2, 8⟩, ⟨true, true⟩⟩
    ∃ items, Item.readAll .origin text.toList = .ok items
      ∧ ∃ item ∈ items, item.shape = .tag tag ∧ item.span = ⟨⟨1, 1⟩, ⟨2, 11⟩⟩
        ∧ tag.Covered text.toList item.span := by
  intro text tag
  obtain ⟨items, hitems, item, hitem, hshape, hspan⟩ :=
    exists_ok (e := Item.readAll .origin text.toList)
      (P := fun items => ∃ item ∈ items, item.shape = .tag tag ∧ item.span = ⟨⟨1, 1⟩, ⟨2, 11⟩⟩)
      (by decide +kernel)
  obtain ⟨items', fault, -, hread, hcovered⟩ := Item.readAll_covered text
  cases fault with
  | some e => cases hitems.symm.trans hread
  | none =>
    cases hitems.symm.trans hread
    exact ⟨items, hitems, item, hitem, hshape, hspan, hcovered item hitem tag hshape⟩

end Stache
