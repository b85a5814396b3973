/-
  Items by offsets.

  The loop over a text stands at an offset, and every reader that it calls moves the offset on.  Of
  every loop it is checked that it moves on.

    scanTokens    `readBody`
    scanTag       `readTag`
    scanItems     `Item.readAll`

  An item that is read by offsets is the item that is read from a list (`LexedItem.Writes`): its
  tokens and itself stand in the text where their positions say.
-/
import Mathlib.Data.List.Forall2
import Stache.Proofs.Checked.Marks
import Stache.Proofs.Items.Edges
import Stache.Template.Moved

namespace Stache.Checked

/-- The tokens of a tag, the offset of its closing mark, whether that has a tilde, and the offset
    behind it. -/
structure LexedBody where
  tokens : List Lexed
  bodyEnd : Nat
  tilde : Bool
  stop : Nat

section Readers

variable (text : List Char)

/-! ## Tags and items -/

/-- Reads tokens up to and including a closing mark. -/
def scanTokens (closing : Closing) (n : Nat) : Checked LexedBody := do
  let bodyEnd ← skipBlanks text n
  match ← eat text closing.tilde bodyEnd with
  | some stop => return ⟨[], bodyEnd, true, stop⟩
  | none =>
    match ← eat text closing.bare bodyEnd with
    | some stop => return ⟨[], bodyEnd, false, stop⟩
    | none =>
      if bytes text ≤ bodyEnd then failAt text bodyEnd .unclosedTag
      else
        let token ← scanToken text bodyEnd
        let next ← onward text n token.stop
        let more ← scanTokens closing next.1
        return { more with tokens := token :: more.tokens }
termination_by bytes text - n
decreasing_by exact next.2

/-- Reads a tag or a comment, which stands at `start`, from behind its opening braces on. -/
def scanInside (start : Nat) (tilde : Bool) (n : Nat) : Checked LexedItem := do
  match ← eat text ['!'] n with
  | some comment => scanComment text start tilde comment
  | none =>
    let (kind, behind) ← scanMark text n
    let body ← scanTokens text kind.closing behind
    return ⟨.tag ⟨kind, body.tokens, body.bodyEnd, ⟨tilde, body.tilde⟩⟩, start, body.stop⟩

/-- Reads the tag or the comment at an offset. -/
def scanTag (n : Nat) : Checked LexedItem := do
  let tilde ← eat text ['~'] (n + 2)
  scanInside text n tilde.isSome (tilde.getD (n + 2))

/-- Reads content, if there is any. -/
def scanContent (n : Nat) : Checked (Option LexedItem) := do
  let (value, stop) ← contentFrom text n []
  if stop = n then return none
  else
    let written ← slice text n stop
    return some ⟨.content (String.ofList value) (String.ofList written), n, stop⟩

/-- Reads the tag or the content at an offset. -/
def scanItem (n : Nat) : Checked (Option LexedItem) := do
  let s ← rest text n
  if ['{', '{'].isPrefixOf s then (scanTag text n).map some else scanContent text n

/-- Cuts the text from an offset on into items. -/
def scanItems (n : Nat) : Checked (List LexedItem) :=
  if n < bytes text then do
    let item ← scanItem text n
    let next ← onward text n ((item.map LexedItem.stop).getD n)
    let more ← scanItems next.1
    return item.toList ++ more
  else return []
termination_by bytes text - n
decreasing_by exact next.2

end Readers

/-! ## Tokens and tags are read alike -/

variable {text s : List Char} {n : Nat} {p : Position}

/-- The stretch from `start` to `stop`, which begins at the position `p`, is `lexeme`. -/
structure Written (text : List Char) (start stop : Nat) (p : Position) (lexeme : List Char) :
    Prop where
  stands : ∃ behind, Stands text start p (lexeme ++ behind)
  stop_eq : stop = start + bytes lexeme

/-- The two are the same token. -/
def Lexed.Spells (text : List Char) (l : Lexed) (t : Token) : Prop :=
  l.kind = t.kind ∧ Written text l.start l.stop t.start t.lexeme.toList

/-- The offset has this position. -/
def Marks (text : List Char) (n : Nat) (p : Position) : Prop := ∃ behind, Stands text n p behind

/-- The two are the same body of a tag, which begins at the offset `n`. -/
structure LexedBody.Writes (text : List Char) (n : Nat) (body : LexedBody) (r : Reading TagBody) :
    Prop where
  tokens : List.Forall₂ (Lexed.Spells text) body.tokens r.value.tokens
  bodyEnd : Marks text body.bodyEnd r.value.stop
  tilde_eq : body.tilde = r.value.tilde
  stop_eq : body.stop = n + bytes r.lexeme

/-- Blanks are skipped, and what stands behind them tells how to go on. -/
theorem Stands.scanTokens_eq (closing : Closing) (h : Stands text n p s) :
    Checked.scanTokens text closing n =
      let gap := s.takeWhile Text.isBlank
      let behind := s.dropWhile Text.isBlank
      let bodyEnd := n + bytes gap
      if closing.tilde.isPrefixOf behind then
        .ok ⟨[], bodyEnd, true, bodyEnd + bytes closing.tilde⟩
      else if closing.bare.isPrefixOf behind then
        .ok ⟨[], bodyEnd, false, bodyEnd + bytes closing.bare⟩
      else if bytes text ≤ bodyEnd then
        .error (.error ⟨.unclosedTag, (p.advance gap).reported⟩)
      else do
        let token ← Checked.scanToken text bodyEnd
        let next ← Checked.onward text n token.stop
        let more ← Checked.scanTokens text closing next.1
        return { more with tokens := token :: more.tokens } := by
  have hgap := h.gap
  rw [Checked.scanTokens, h.skipBlanks, ok_bind, hgap.eat, ok_bind, hgap.eat, hgap.failAt]
  dsimp only
  -- by which of the two closers stands there, if any
  cases closing.tilde.isPrefixOf (s.dropWhile Text.isBlank) with
  | true => rfl
  | false =>
    cases closing.bare.isPrefixOf (s.dropWhile Text.isBlank) with
    | true => rfl
    | false => rfl

/-- Tokens are read by offsets up to a closing mark as they are read from a list. -/
theorem Stands.scanTokens {closing : Closing} (htilde : closing.tilde ≠ [])
    (hbare : closing.bare ≠ []) (h : Stands text n p s) :
    Follows ParseError.reported (LexedBody.Writes text n) (scanTokens text closing n)
      (readBody closing p s) := by
  -- the text ends, a closing mark comes, or a token does
  fun_induction readBody closing p s generalizing n with
  | case1 p s gap q =>
    rename_i hs
    have hgap := h.gap
    have hend : bytes text ≤ n + bytes (s.takeWhile Text.isBlank) := by
      rw [hgap.size_eq, hs]
      exact Nat.le_refl _
    have hnone {mark : List Char} (hmark : mark ≠ []) : ¬ mark.isPrefixOf [] = true := by
      rw [List.isPrefixOf_iff_prefix, List.prefix_nil]
      exact hmark
    rw [h.scanTokens_eq, hs]
    dsimp only
    rw [if_neg (hnone htilde), if_neg (hnone hbare), if_pos hend]
    rfl
  | case2 p s gap q c t hs =>
    rename_i hmark
    rw [h.scanTokens_eq, hs]
    dsimp only
    rw [if_pos hmark]
    refine .ok ⟨.nil, ⟨_, h.gap⟩, rfl, ?_⟩
    rw [bytes_append, Nat.add_assoc]
  | case3 p s gap q c t hs hno =>
    rename_i hmark
    rw [h.scanTokens_eq, hs]
    dsimp only
    rw [if_neg hno, if_pos hmark]
    refine .ok ⟨.nil, ⟨_, h.gap⟩, rfl, ?_⟩
    rw [bytes_append, Nat.add_assoc]
  | case4 p s gap q c t hs hno hno' fault =>
    rename_i hread
    have hgap := h.gap
    rw [hs] at hgap
    have hlt : ¬ bytes text ≤ n + bytes (s.takeWhile Text.isBlank) := by
      have := bytes_pos (List.cons_ne_nil c t)
      rw [hgap.size_eq]
      omega
    rw [h.scanTokens_eq, hs]
    dsimp only
    rw [if_neg hno, if_neg hno', if_neg hlt, hgap.scanToken, hread]
    rfl
  | case5 p s gap q c t hs hno hno' r hread =>
    rename_i ih
    have hgap := h.gap
    rw [hs] at hgap
    have hlt : ¬ bytes text ≤ n + bytes (s.takeWhile Text.isBlank) := by
      have := bytes_pos (List.cons_ne_nil c t)
      rw [hgap.size_eq]
      omega
    have hlexeme : Stands text (n + bytes gap) q (r.lexeme ++ r.rest) := by
      rw [TokenKind.read_append hread]
      exact hgap
    have hpos := bytes_pos (TokenKind.read_ne_nil hread)
    obtain ⟨hdecreases, honward⟩ := hlexeme.move.onward (n := n) (by omega)
    rw [h.scanTokens_eq, hs]
    dsimp only
    rw [if_neg hno, if_neg hno', if_neg hlt, hgap.scanToken, hread, lexedFrom, ok_bind,
      Lexed.ofReading, honward, ok_bind]
    refine Follows.bind (ih hlexeme.move) ?_
    rintro body more hbody
    refine .ok ⟨.cons ⟨rfl, ?_, ?_⟩ hbody.tokens, hbody.bodyEnd, hbody.tilde_eq, ?_⟩
    · rw [String.toList_ofList]
      exact ⟨r.rest, hlexeme⟩
    · rw [String.toList_ofList]
    · rw [hbody.stop_eq]
      simp only [bytes_append, Nat.add_assoc]

/-- The two are the same shape of an item that is written `lexeme`. -/
inductive LexedShape.Writes (text : List Char) (lexeme : String) :
    LexedShape → ItemShape → Prop where
  | content (value : String) : Writes text lexeme (.content value lexeme) (.content value)
  | comment (comment : String) (strip : Strip) :
      Writes text lexeme (.comment comment strip) (.comment comment strip)
  | tag (kind : TagRole) (strip : Strip) {tokens : List Lexed} {tokens' : List Token}
      {bodyEnd : Nat} {bodyEnd' : Position} (htokens : List.Forall₂ (Lexed.Spells text) tokens tokens')
      (hend : Marks text bodyEnd bodyEnd') :
      Writes text lexeme (.tag ⟨kind, tokens, bodyEnd, strip⟩) (.tag ⟨kind, tokens', bodyEnd', strip⟩)

/-- The two are the same item. -/
structure LexedItem.Writes (text : List Char) (l : LexedItem) (item : Item) : Prop where
  shape : l.shape.Writes text item.lexeme item.shape
  written : Written text l.start l.stop item.start item.lexeme.toList

/-- The item begins at the offset `n` and is what a reader of the project made of it. -/
def LexedItem.WritesAt (text : List Char) (n : Nat) (l : LexedItem) (r : Reading ItemShape) : Prop :=
  l.shape.Writes text (String.ofList r.lexeme) r.value ∧ l.start = n ∧ l.stop = n + bytes r.lexeme

theorem TagRole.closing_ne_nil (kind : TagRole) :
    kind.closing.tilde ≠ [] ∧ kind.closing.bare ≠ [] := by
  cases kind with
  | mustache form => cases form <;> decide
  | _ => decide

/-- **Tags are read alike**, comments among them. -/
theorem Stands.scanTag (h : Stands text n p ('{' :: '{' :: s)) :
    Follows ParseError.reported (LexedItem.WritesAt text n) (scanTag text n) (readTag p s) := by
  have hinside : Stands text (n + 2) (p.advance ['{', '{']) s := h.next.next
  obtain ⟨tilde, htilde⟩ : ∃ tilde, (if ['~'].isPrefixOf s then ['~'] else []) = tilde := ⟨_, rfl⟩
  have hsplit : tilde ++ s.drop tilde.length = s := htilde ▸ ite_append_drop ['~'] s
  have heat : Checked.scanTag text n
      = scanInside text n (!tilde.isEmpty) (n + 2 + bytes tilde) := by
    rw [Checked.scanTag, hinside.eat, ok_bind, ← htilde]
    cases ['~'].isPrefixOf s <;> rfl
  have hbehind := hinside.behind ⟨_, hsplit⟩
  have hopener : bytes ('{' :: '{' :: tilde) = 2 + bytes tilde := bytes_append ['{', '{'] tilde
  have hposition : (p.advance ['{', '{']).advance tilde = p.advance ('{' :: '{' :: tilde) := rfl
  generalize ht : s.drop tilde.length = t at hbehind
  rw [heat, scanInside, hbehind.eat]
  -- a comment is told by its first character
  by_cases hbang : ∃ u, t = '!' :: u
  · obtain ⟨u, rfl⟩ := hbang
    have hcomment := h.scanComment hbehind.next (!tilde.isEmpty)
    have hmark : ['!'].isPrefixOf ('!' :: u) = true := rfl
    rw [if_pos hmark, ok_bind, readTag_comment htilde ht]
    refine Eq.subst (motive := fun m => Follows _ _ m _) hcomment.symm ?_
    generalize (if ['-', '-'].isPrefixOf u then ['-', '-'] else []) = dashes
    cases readComment dashes (u.drop dashes.length) with
    | none => rfl
    | some r =>
      refine .ok ⟨.comment _ _, rfl, ?_⟩
      have hsize : '!'.utf8Size = 1 := rfl
      simp only [List.cons_append, bytes_cons, bytes_append, hsize] at hopener ⊢
      omega
  · have hmark : ¬ ['!'].isPrefixOf t = true := by
      rw [isPrefixOf_eq_false fun u hu => hbang ⟨u, hu⟩]
      exact Bool.false_ne_true
    obtain ⟨hclose, hclose'⟩ := TagRole.closing_ne_nil (readMark t).value
    have hbody : Stands text (n + 2 + bytes tilde + bytes (readMark t).lexeme)
        (p.advance ('{' :: '{' :: tilde ++ (readMark t).lexeme)) (readMark t).rest := by
      rw [Position.advance_append, ← hposition]
      refine Stands.move ?_
      rw [readMark_append]
      exact hbehind
    rw [if_neg hmark, ok_bind, readTag_tag htilde ht hbang]
    dsimp only
    rw [hbehind.scanMark, ok_bind]
    refine Follows.bind (hbody.scanTokens hclose hclose') ?_
    intro body r hr
    rw [hr.tilde_eq]
    refine .ok ⟨.tag _ _ hr.tokens hr.bodyEnd, rfl, ?_⟩
    show body.stop = _
    rw [hr.stop_eq, bytes_append, hopener, bytes_append]
    omega

/-- An item that is written where the reader stands has its position. -/
theorem LexedItem.WritesAt.writes {l : LexedItem} {r : Reading ItemShape}
    (h : l.WritesAt text n r) (hstands : Stands text n p (r.lexeme ++ r.rest)) :
    l.Writes text ⟨r.value, String.ofList r.lexeme, p⟩ := by
  obtain ⟨hshape, rfl, hstop⟩ := h
  refine ⟨hshape, ⟨r.rest, ?_⟩, ?_⟩
  · rw [String.toList_ofList]
    exact hstands
  · rw [String.toList_ofList]
    exact hstop

/-- Content is an item where some stands. -/
theorem Stands.scanContent {c : Char} (h : Stands text n p (c :: s))
    (hopen : ¬ ['{', '{'] <+: c :: s) :
    let r := readContent (c :: s)
    scanContent text n = .ok (some ⟨.content (String.ofList r.value) (String.ofList r.lexeme), n,
      n + bytes r.lexeme⟩) := by
  intro r
  have hsplit : r.lexeme ++ r.rest = c :: s := readContent_append (c :: s)
  have hpos := bytes_pos (readContent_ne_nil hopen)
  have hstands : Stands text n p (r.lexeme ++ r.rest) := hsplit ▸ h
  have hslice := hstands.slice
  have hmoved : ¬ n + bytes r.lexeme = n := by
    show ¬ n + bytes (readContent (c :: s)).lexeme = n
    omega
  rw [Checked.scanContent, h.contentFrom, ok_bind]
  dsimp only
  rw [if_neg hmoved, hslice]
  rfl

/-- Where a tag begins, a tag is read. -/
theorem Stands.scanItem_tag {c : Char} (h : Stands text n p (c :: s))
    (hopen : ['{', '{'] <+: c :: s) :
    Follows ParseError.reported (fun item r => ∃ l, item = some l ∧ l.WritesAt text n r)
      (scanItem text n) (readTag p ((c :: s).drop 2)) := by
  have hif := List.isPrefixOf_iff_prefix.2 hopen
  obtain ⟨t, ht⟩ := hopen
  rw [← ht] at h hif ⊢
  have htag : Follows ParseError.reported (LexedItem.WritesAt text n) (Checked.scanTag text n)
      (readTag p t) := h.scanTag
  rw [scanItem, h.rest, ok_bind, if_pos hif]
  show Follows ParseError.reported _ _ (readTag p t)
  generalize readTag p t = read at htag ⊢
  -- an error stays an error, and a tag is an item
  cases read with
  | error e =>
    have herror : Checked.scanTag text n = .error (.error e.reported) := htag
    rw [herror]
    rfl
  | ok r =>
    obtain ⟨l, hl, hwrites⟩ := htag
    rw [hl]
    exact ⟨some l, rfl, l, rfl, hwrites⟩

/-- One item further. -/
theorem Stands.scanItems_cons {c : Char} (h : Stands text n p (c :: s)) {l : LexedItem}
    {r : Reading ItemShape} (hitem : scanItem text n = .ok (some l)) (hwrites : l.WritesAt text n r)
    (hne : r.lexeme ≠ []) (hsplit : r.lexeme ++ r.rest = c :: s)
    (hmore : Follows ParseError.reported (List.Forall₂ (LexedItem.Writes text))
      (scanItems text (n + bytes r.lexeme)) (Item.readAll (p.advance r.lexeme) r.rest)) :
    Follows ParseError.reported (List.Forall₂ (LexedItem.Writes text)) (scanItems text n) (do
      let more ← Item.readAll (p.advance r.lexeme) r.rest
      return ⟨r.value, String.ofList r.lexeme, p⟩ :: more) := by
  have hstands : Stands text n p (r.lexeme ++ r.rest) := hsplit ▸ h
  have hpos := bytes_pos hne
  have hlt : n < bytes text := by
    have := bytes_pos (List.cons_ne_nil c s)
    rw [h.size_eq]
    exact Nat.lt_add_of_pos_right this
  -- an item is not empty, so the loop moves on
  obtain ⟨hdecreases, honward⟩ := hstands.move.onward (n := n) (by omega)
  rw [Checked.scanItems, if_pos hlt, hitem, ok_bind]
  dsimp only [Option.map_some, Option.getD_some, Option.toList_some]
  rw [hwrites.2.2, honward, ok_bind]
  refine hmore.bind ?_
  intro items more hitems
  exact .ok (.cons (hwrites.writes hstands) hitems)

/-- **A text is cut into items** by offsets as it is from a list. -/
theorem Stands.scanItems (h : Stands text n p s) :
    Follows ParseError.reported (List.Forall₂ (LexedItem.Writes text)) (scanItems text n)
      (Item.readAll p s) := by
  -- the text ends, a tag begins, or content does
  fun_induction Item.readAll p s generalizing n with
  | case1 p =>
    have hend : ¬ n < bytes text := by
      rw [h.size_eq, bytes_nil]
      exact Nat.lt_irrefl n
    rw [Checked.scanItems, if_neg hend]
    exact .ok .nil
  | case2 p c s hopen e =>
    rename_i hread
    have hitem := h.scanItem_tag hopen
    have hlt : n < bytes text := by
      have := bytes_pos (List.cons_ne_nil c s)
      rw [h.size_eq]
      exact Nat.lt_add_of_pos_right this
    rw [hread] at hitem
    have hitem' : scanItem text n = .error (.error e.reported) := hitem
    rw [Checked.scanItems, if_pos hlt, hitem']
    rfl
  | case3 p c s hopen r hread =>
    rename_i ih
    have hitem := h.scanItem_tag hopen
    have hne := readTag_ne_nil hread
    have hsplit := readTag_append hread
    obtain ⟨t, ht⟩ := hopen
    rw [hread] at hitem
    obtain ⟨_, hitem, l, rfl, hwrites⟩ := hitem
    have hsplit' : r.lexeme ++ r.rest = c :: s := by
      rw [hsplit, ← ht]
      rfl
    refine h.scanItems_cons hitem hwrites hne hsplit' (ih ?_)
    have hstands : Stands text n p (r.lexeme ++ r.rest) := hsplit' ▸ h
    exact hstands.move
  | case4 p c s hopen r =>
    rename_i ih
    have hsplit : r.lexeme ++ r.rest = c :: s := readContent_append (c :: s)
    have hstands : Stands text n p (r.lexeme ++ r.rest) := hsplit ▸ h
    have hif : ¬ ['{', '{'].isPrefixOf (c :: s) = true := by
      rw [List.isPrefixOf_iff_prefix]
      exact hopen
    have hitem : scanItem text n = .ok (some ⟨.content (String.ofList r.value)
        (String.ofList r.lexeme), n, n + bytes r.lexeme⟩) := by
      rw [scanItem, h.rest, ok_bind, if_neg hif]
      exact h.scanContent hopen
    let item : Reading ItemShape := ⟨.content (String.ofList r.value), r.lexeme, r.rest⟩
    have hwrites : LexedItem.WritesAt text n ⟨.content (String.ofList r.value)
        (String.ofList r.lexeme), n, n + bytes r.lexeme⟩ item := ⟨.content _, rfl, rfl⟩
    exact h.scanItems_cons hitem hwrites (readContent_ne_nil hopen) hsplit (ih hstands.move)

end Stache.Checked
