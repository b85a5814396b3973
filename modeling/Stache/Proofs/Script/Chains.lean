/-
  Chains of else tags.

  An else tag with a call of its own opens a block inside the else section, and that block has no
  close tag.  So a chain of blocks with the calls h₀, …, hₖ abbreviates k + 1 blocks inside each
  other: at every else tag with a call, write an else tag without one and an open tag with the call,
  and write the missing close tags at the end, the innermost first.  `chainText` and `nestedText`
  write the two down.

  The two texts have the same tags and the same bodies, in other places.  They are read TOGETHER,
  from their ends (`ReadTogether`): what a piece of text is cut into does not depend on where it
  stands, so in front of two texts that are read together, the same piece may be put in front of
  both, or a tag in front of one of them.  By induction on the chain, the one text is a chained
  branch and the other a nested one, and whatever close tags these end with, the statements are
  alike (`Arm.together`).  Trees that are alike are compiled alike.
-/
import Stache.Proofs.Items.Elsewhere
import Stache.Proofs.Nesting.Elsewhere
import Stache.Proofs.Nesting.WellNested
import Stache.Proofs.Script.Twins
import Stache.Proofs.Whitespace.Unmarked

namespace Stache

/-! ## The two texts -/

/-- An arm of a conditional: the call in its tag, the name in that call, and the body behind. -/
structure Arm where
  call : String
  name : String
  body : String

namespace Arm

/-- An open tag with the call of the arm, -/
def opener (a : Arm) : String := "\x7b\x7b#" ++ a.call ++ "\x7d\x7d"

/-- The call in an else tag. -/
def chainer (a : Arm) : String := "\x7b\x7belse " ++ a.call ++ "\x7d\x7d"

/-- and the close tag for it. -/
def closer (a : Arm) : String := "\x7b\x7b/" ++ a.name ++ "\x7d\x7d"

/-- The tag in front of the body, in a chain behind another arm or in front of it. -/
def tag (a : Arm) (chained : Bool) : String := if chained then a.chainer else a.opener

end Arm

/-- An else tag without a call. -/
def elseTag : String := "\x7b\x7belse\x7d\x7d"

/-- The last else section, if there is one. -/
def lastText : Option String → String
  | none => ""
  | some body => elseTag ++ body

/-- What follows the body of an arm in a chain, up to the close tag. -/
def chainTail (last : Option String) : List Arm → String
  | [] => lastText last
  | next :: more => next.chainer ++ next.body ++ chainTail last more

/-- A chain of else tags, with one close tag. -/
def chainText (first : Arm) (more : List Arm) (last : Option String) : String :=
  first.opener ++ first.body ++ chainTail last more ++ first.closer

/-- The same behind the body of a block that holds the other arms as blocks. -/
def nestedTail (last : Option String) : List Arm → String
  | [] => lastText last
  | next :: more => elseTag ++ next.opener ++ next.body ++ nestedTail last more ++ next.closer

/-- Blocks inside the else sections of each other. -/
def nestedText (first : Arm) (more : List Arm) (last : Option String) : String :=
  first.opener ++ first.body ++ nestedTail last more ++ first.closer

/-! ## Arms -/

/-- The only item of a text, if that is a tag without tildes. -/
def tagOf (text : String) : Option Tag :=
  match Item.readAll .origin text.toList with
  | .ok [⟨.tag tag, _, _⟩] => if tag.strip = .none then some tag else none
  | _ => none

/-- The name in the call of an arm, if its open tag is one of a block. -/
def Arm.opened (a : Arm) : Option String :=
  (tagOf a.opener).bind fun tag =>
    if tag.kind = .openBlock then
      (Call.openerOfTokens tag.tokens).toOption.map fun opener => opener.1.label
    else none

/-- The name that the close tag of an arm closes. -/
def Arm.closed (a : Arm) : Option String :=
  (tagOf a.closer).bind fun tag =>
    if tag.kind = .closeMark then
      (Expression.nameOfTokens tag.tokens).toOption.map Expression.label
    else none

/-- A text that may stand between two tags: it is parsed on its own, it has no marks of whitespace
    control, and it does not end in what would be read together with a tag. -/
structure IsSection (fields : Json.Fields) (text : String) : Prop where
  parses : ∃ t, Compiler.standard.parse text fields = .ok t
  unmarked : ∃ items, Item.readAll .origin text.toList = .ok items ∧ Unmarked items
  ends : EndsClear text.toList

/-- The call is one of a block, the name is the name in the call, and the body is a section. -/
structure Arm.Proper (fields : Json.Fields) (a : Arm) : Prop where
  named : ∃ name, a.opened = some name ∧ a.closed = some name
  body : IsSection fields a.body

/-! ## Tags, wherever they stand -/

/-- The item is this tag in another place, without tildes. -/
structure Tag.IsAt (tag : Tag) (item : Item) : Prop where
  exists_tag : ∃ tag', item.shape = .tag tag' ∧ tag'.kind = tag.kind
    ∧ SameTokens tag.tokens tag'.tokens
  strip_eq : item.strip = .none

/-- An else tag is one wherever it is, -/
theorem Tag.IsAt.isElse {tag : Tag} {item : Item} (h : tag.IsAt item)
    (hkind : tag.kind = .elseMark) : item.IsElse := by
  obtain ⟨⟨tag', hshape, hkind', -⟩, -⟩ := h
  exact ⟨tag', hshape, hkind'.trans hkind⟩

/-- a close tag closes what it bears the name of, -/
theorem Tag.IsAt.closes {tag : Tag} {item : Item} {e : Expression} (h : tag.IsAt item)
    (hkind : tag.kind = .closeMark) (hread : Expression.nameOfTokens tag.tokens = .ok e) :
    item.Closes e.label := by
  obtain ⟨⟨tag', hshape, hkind', htokens⟩, -⟩ := h
  obtain ⟨e', hread', halike⟩ := Expression.nameOfTokens_elsewhere htokens hread
  exact ⟨tag', e', hshape, hkind'.trans hkind, hread', halike.label_eq.symm⟩

/-- The item is a tag that opens a block with this call, chained or not, without tildes. -/
structure Item.OpensBlock (call : List Token) (chained : Bool) (item : Item) : Prop where
  exists_tag : ∃ tag, item.shape = .tag tag ∧ tag.kind.opens = some (.block, chained)
    ∧ SameTokens call tag.tokens
  strip_eq : item.strip = .none

theorem Tag.IsAt.opensBlock {tag : Tag} {item : Item} (h : tag.IsAt item)
    (hkind : tag.kind = .openBlock) : item.OpensBlock tag.tokens false := by
  obtain ⟨⟨tag', hshape, hkind', htokens⟩, hstrip⟩ := h
  exact ⟨⟨tag', hshape, by rw [hkind', hkind]; rfl, htokens⟩, hstrip⟩

/-- The text is that of a tag, and of nothing else. -/
structure IsTag (text : String) (tag : Tag) : Prop where
  braces : ∃ s, text.toList = '{' :: '{' :: s
  reads : tagOf text = some tag

/-- The text of a tag is cut into one item, -/
theorem IsTag.exists_item {text : String} {tag : Tag} (h : IsTag text tag) :
    ∃ item, Item.readAll .origin text.toList = .ok [item] ∧ item.shape = .tag tag
      ∧ item.strip = .none := by
  have hreads := h.reads
  unfold tagOf at hreads
  split at hreads
  · rename_i tag' lexeme start hread
    split at hreads
    · rename_i hstrip
      cases hreads
      exact ⟨⟨.tag tag, lexeme, start⟩, hread, rfl, hstrip⟩
    · cases hreads
  · cases hreads

/-- in front of any text. -/
theorem IsTag.scan {text : String} {tag : Tag} (h : IsTag text tag) (q : Position) {u : List Char}
    {more : List Item} (hmore : Item.Scan (q.advance text.toList) u more) :
    ∃ item, Item.Scan q (text.toList ++ u) (item :: more) ∧ tag.IsAt item := by
  obtain ⟨s, htext⟩ := h.braces
  obtain ⟨item, hread, hshape, hstrip⟩ := h.exists_item
  rw [htext] at hread hmore ⊢
  obtain ⟨item', hscan, hitem'⟩ := Item.Scan.single_elsewhere hread q hmore
  obtain ⟨tag', hshape', hkind, -, htokens⟩ := Item.exists_tag_of_unplaced hitem' hshape
  exact ⟨item', hscan, ⟨tag', hshape', hkind, htokens⟩,
    (Item.strip_eq_of_unplaced hitem').trans hstrip⟩

theorem isTag_elseTag : ∃ tag, IsTag elseTag tag ∧ tag.kind = .elseMark := by
  have hkinds : (tagOf elseTag).map Tag.kind = some .elseMark := by decide +kernel
  obtain ⟨tag, hreads, hkind⟩ := Option.map_eq_some_iff.1 hkinds
  exact ⟨tag, ⟨⟨_, rfl⟩, hreads⟩, hkind⟩

namespace Arm

variable {a : Arm} {name : String}

/-- A close tag that is right closes the name of its arm, -/
theorem exists_closer (h : a.closed = some name) :
    ∃ tag, IsTag a.closer tag ∧ ∀ item, tag.IsAt item → item.Closes name := by
  obtain ⟨tag, hreads, h⟩ := Option.bind_eq_some_iff.1 h
  split at h
  · rename_i hkind
    obtain ⟨e, he, rfl⟩ := Option.map_eq_some_iff.1 h
    exact ⟨tag, ⟨⟨'/' :: (a.name.toList ++ ['}', '}']), by simp [closer]⟩, hreads⟩,
      fun item hitem => hitem.closes hkind (eq_ok_of_toOption he)⟩
  · cases h

/-- and an open tag opens a block of that name. -/
theorem exists_opener (h : a.opened = some name) :
    ∃ tag read, IsTag a.opener tag ∧ tag.kind = .openBlock
      ∧ Call.openerOfTokens tag.tokens = .ok read ∧ read.1.label = name := by
  obtain ⟨tag, hreads, h⟩ := Option.bind_eq_some_iff.1 h
  split at h
  · rename_i hkind
    obtain ⟨read, hread, hname⟩ := Option.map_eq_some_iff.1 h
    exact ⟨tag, read, ⟨⟨'#' :: (a.call.toList ++ ['}', '}']), by simp [opener]⟩, hreads⟩, hkind,
      eq_ok_of_toOption hread, hname⟩
  · cases h

/-- The tag of an arm, in a chain or not. -/
theorem scan_tag {tag : Tag} (htag : IsTag a.opener tag) (hkind : tag.kind = .openBlock)
    (htokens : tag.tokens ≠ []) (chained : Bool) (q : Position) {u : List Char} {more : List Item}
    (hmore : Item.Scan (q.advance (a.tag chained).toList) u more) :
    ∃ item, Item.Scan q ((a.tag chained).toList ++ u) (item :: more)
      ∧ item.OpensBlock tag.tokens chained := by
  cases chained with
  | false =>
    obtain ⟨item, hscan, hat⟩ := htag.scan q hmore
    exact ⟨item, hscan, hat.opensBlock hkind⟩
  | true =>
    -- the tag with `else` is read from the one without it
    obtain ⟨item, hread, hshape, hstrip⟩ := htag.exists_item
    have hopener : a.opener.toList = '{' :: '{' :: '#' :: (a.call.toList ++ ['}', '}']) := by
      simp [opener]
    have hchainer : (a.tag true).toList
        = '{' :: '{' :: 'e' :: 'l' :: 's' :: 'e' :: ' ' :: (a.call.toList ++ ['}', '}']) := by
      simp [Arm.tag, chainer]
    rw [hopener] at hread
    rw [hchainer] at hmore ⊢
    obtain ⟨item', tag', hscan, hshape', hkind', hstrip', htokens'⟩ :=
      Item.Scan.chain_elsewhere hread hshape hkind htokens q hmore
    refine ⟨item', hscan, ⟨tag', hshape', by rw [hkind']; rfl, htokens'⟩, ?_⟩
    rw [Item.strip, hshape] at hstrip
    rw [Item.strip, hshape']
    exact hstrip'.trans hstrip

end Arm

/-! ## Two texts, read together -/

/-- At any two places, the texts are cut into rows of items that belong together. -/
def ReadTogether (R : List Item → List Item → Prop) (s s' : List Char) : Prop :=
  ∀ q q', ∃ items items', Item.Scan q s items ∧ Item.Scan q' s' items' ∧ R items items'

/-- Rows that begin with rows that belong together by `P`, and go on with such by `R`. -/
def Beside (P R : List Item → List Item → Prop) (items items' : List Item) : Prop :=
  ∃ row row' more more', items = row ++ more ∧ items' = row' ++ more' ∧ P row row' ∧ R more more'

/-- The tag on the right, and nothing on the left. -/
def Tag.OnRight (tag : Tag) (row row' : List Item) : Prop :=
  row = [] ∧ ∃ item, row' = [item] ∧ tag.IsAt item

/-- The tag on either side. -/
def Tag.OnBoth (tag : Tag) (row row' : List Item) : Prop :=
  ∃ item item', row = [item] ∧ row' = [item'] ∧ tag.IsAt item ∧ tag.IsAt item'

/-- Two rows with the same statements. -/
structure Outline.Together (o o' : Outline) : Prop where
  valid : o.Valid
  valid' : o'.Valid
  unmarked : Unmarked o.items
  unmarked' : Unmarked o'.items
  alike : BodyAlike false o.statements o'.statements

/-- Tags with the same call, of which the second opens a block. -/
structure Opening.Together (chained : Bool) (name : String) (item item' : Item) (o o' : Opening) :
    Prop where
  opens : item.Opens chained o
  opens' : item'.Opens false o'
  strip_eq : item.strip = .none
  strip_eq' : item'.strip = .none
  kind_eq : o.kind = .block
  label_eq : o.call.label = name
  alike : o.Alike o'

/-- A branch, chained or not, and a block with the same name and, once both are closed, the same
    statement. -/
structure Branch.Together (chained : Bool) (name : String) (b b' : Branch) : Prop where
  valid : b.Valid chained
  valid' : b'.Valid false
  unmarked : Unmarked b.items
  unmarked' : Unmarked b'.items
  label_eq : b.opening.call.label = name
  label_eq' : b'.opening.call.label = name
  alike : ∀ close close', (b.statement close).Alike false (b'.statement close')

section Pieces

variable {fields : Json.Fields} {R : List Item → List Item → Prop} {u u' : List Char}

theorem ReadTogether.mono {S : List Item → List Item → Prop} (h : ReadTogether R u u')
    (hRS : ∀ items items', R items items' → S items items') : ReadTogether S u u' := by
  intro q q'
  obtain ⟨items, items', hscan, hscan', hR⟩ := h q q'
  exact ⟨items, items', hscan, hscan', hRS _ _ hR⟩

/-- A tag in front of the text on the right. -/
theorem IsTag.onRight {text : String} {tag : Tag} (htag : IsTag text tag)
    (h : ReadTogether R u u') :
    ReadTogether (Beside tag.OnRight R) u (text.toList ++ u') := by
  intro q q'
  obtain ⟨more, more', hscan, hscan', hR⟩ := h q (q'.advance text.toList)
  obtain ⟨item, hitem, hat⟩ := htag.scan q' hscan'
  exact ⟨more, item :: more', hscan, hitem, [], [item], more, more', rfl, rfl,
    ⟨rfl, item, rfl, hat⟩, hR⟩

/-- A tag in front of both texts. -/
theorem IsTag.onBoth {text : String} {tag : Tag} (htag : IsTag text tag)
    (h : ReadTogether R u u') :
    ReadTogether (Beside tag.OnBoth R) (text.toList ++ u) (text.toList ++ u') := by
  intro q q'
  obtain ⟨more, more', hscan, hscan', hR⟩ := h (q.advance text.toList) (q'.advance text.toList)
  obtain ⟨item, hitem, hat⟩ := htag.scan q hscan
  obtain ⟨item', hitem', hat'⟩ := htag.scan q' hscan'
  exact ⟨item :: more, item' :: more', hitem, hitem', [item], [item'], more, more', rfl, rfl,
    ⟨item, item', rfl, rfl, hat, hat'⟩, hR⟩

/-- A section in front of both texts, which go on with tags. -/
theorem IsSection.together {text : String} (h : IsSection fields text) (hu : ['{', '{'] <+: u)
    (hu' : ['{', '{'] <+: u') (hR : ReadTogether R u u') :
    ReadTogether (Beside (fun row row' => ∃ o o' : Outline, row = o.items ∧ row' = o'.items
      ∧ o.Together o') R) (text.toList ++ u) (text.toList ++ u') := by
  obtain ⟨⟨t, hparse⟩, ⟨items, hread, hitems⟩, hends⟩ := h
  obtain ⟨_, _, hparsed⟩ := Compiler.parse_standard hparse
  obtain ⟨items', p, o, hread', -, -, -, ho⟩ := Template.parse_outlined hparsed
  cases hread.symm.trans hread'
  have hscan := Item.Scan.of_readAll hread
  intro q q'
  obtain ⟨more, more', hmore, hmore', hrest⟩ :=
    hR (q.advance text.toList) (q'.advance text.toList)
  obtain ⟨row, hrow, hsame⟩ := hscan.elsewhere hends (.inr hu) q hmore
  obtain ⟨row', hrow', hsame'⟩ := hscan.elsewhere hends (.inr hu') q' hmore'
  -- The outline on the right is one over the items on the left.
  have hbetween : SameItems row row' := hsame'.trans hsame.symm
  obtain ⟨o₁, hvalid, rfl, -⟩ := ho.valid.elsewhere (ho.items_eq ▸ hsame)
  obtain ⟨o₂, hvalid', rfl, halike⟩ := hvalid.elsewhere hbetween
  have hunmarked := unmarked_elsewhere hsame hitems
  exact ⟨_, _, hrow, hrow', _, _, more, more', rfl, rfl, ⟨o₁, o₂, rfl, rfl, hvalid, hvalid',
    hunmarked, unmarked_elsewhere hbetween hunmarked, halike⟩, hrest⟩

/-- Tags with the same call, which can be read. -/
theorem Item.OpensBlock.together {call : List Token} {read : Call × List String}
    (hread : Call.openerOfTokens call = .ok read) {item item' : Item} {chained : Bool}
    (h : item.OpensBlock call chained) (h' : item'.OpensBlock call false) :
    ∃ o o', Opening.Together chained read.1.label item item' o o' := by
  obtain ⟨⟨tag, hshape, hkind, htokens⟩, hstrip⟩ := h
  obtain ⟨⟨tag', hshape', hkind', htokens'⟩, hstrip'⟩ := h'
  obtain ⟨read₁, hread₁, halike, -⟩ := Call.openerOfTokens_elsewhere htokens hread
  obtain ⟨read₂, hread₂, halike', hparams⟩ :=
    Call.openerOfTokens_elsewhere (htokens'.trans htokens.symm) hread₁
  have hopens : item.Opens chained ⟨.block, read₁.1, read₁.2, tag.strip, item.span⟩ :=
    ⟨tag, hshape, hkind, rfl, rfl, hread₁⟩
  have hopens' : item'.Opens false ⟨.block, read₂.1, read₂.2, tag'.strip, item'.span⟩ :=
    ⟨tag', hshape', hkind', rfl, rfl, hread₂⟩
  exact ⟨_, _, hopens, hopens', hstrip, hstrip', rfl, halike.label_eq.symm, rfl, halike',
    hparams.symm⟩

theorem tokens_ne_nil_of_opener {ts : List Token} {read : Call × List String}
    (h : Call.openerOfTokens ts = .ok read) : ts ≠ [] := by
  rintro rfl
  obtain ⟨⟨call, left⟩, hcall, -⟩ := exists_of_bind_ok h
  rw [readCall, readName] at hcall
  cases hcall

/-- The call of an arm in front of both texts: in an open tag on the right, and on the left in such
    a tag or in an else tag. -/
theorem Arm.tag_together {a : Arm} {name : String} (h : a.opened = some name) (chained : Bool)
    (hR : ReadTogether R u u') :
    ReadTogether (Beside (fun row row' => ∃ item item' o o', row = [item] ∧ row' = [item']
      ∧ Opening.Together chained name item item' o o') R) ((a.tag chained).toList ++ u)
      (a.opener.toList ++ u') := by
  obtain ⟨tag, read, htag, hkind, hread, rfl⟩ := Arm.exists_opener h
  have htokens := tokens_ne_nil_of_opener hread
  intro q q'
  obtain ⟨more, more', hmore, hmore', hrest⟩ :=
    hR (q.advance (a.tag chained).toList) (q'.advance a.opener.toList)
  obtain ⟨item, hitem, hopens⟩ := Arm.scan_tag htag hkind htokens chained q hmore
  obtain ⟨item', hitem', hopens'⟩ := Arm.scan_tag htag hkind htokens false q' hmore'
  obtain ⟨o, o', ho⟩ := Item.OpensBlock.together hread hopens hopens'
  exact ⟨_, _, hitem, hitem', [item], [item'], more, more', rfl, rfl,
    ⟨item, item', o, o', rfl, rfl, ho⟩, hrest⟩

end Pieces

/-! ## Branches, put together -/

section Branches

variable {chained : Bool} {name : String} {item item' : Item} {o o' : Opening}
  {body body' : Outline}

theorem Opening.Together.label_eq' (h : Opening.Together chained name item item' o o') :
    o'.call.label = name := h.alike.call.label_eq.symm.trans h.label_eq

theorem Opening.Together.hasElse (h : Opening.Together chained name item item' o o') :
    o.kind.hasElse ∧ o'.kind.hasElse :=
  ⟨.inl h.kind_eq, .inl (h.alike.kind_eq.trans h.kind_eq)⟩

/-- The last arm, if nothing comes behind it. -/
theorem Branch.Together.plain (ho : Opening.Together chained name item item' o o')
    (hbody : body.Together body') :
    Branch.Together chained name (.plain item o body) (.plain item' o' body') where
  valid := ⟨ho.opens, hbody.valid⟩
  valid' := ⟨ho.opens', hbody.valid'⟩
  unmarked := unmarked_cons.2 ⟨ho.strip_eq, hbody.unmarked⟩
  unmarked' := unmarked_cons.2 ⟨ho.strip_eq', hbody.unmarked'⟩
  label_eq := ho.label_eq
  label_eq' := ho.label_eq'
  alike _ _ := ho.alike.wrap (ho.alike.firstSection hbody.alike _ _) .none _ _ _ _

/-- The last arm, with an else section behind it. -/
theorem Branch.Together.withElse (ho : Opening.Together chained name item item' o o')
    (hbody : body.Together body') {tag : Tag} (htag : tag.kind = .elseMark) {mark mark' : Item}
    (hmark : tag.IsAt mark) (hmark' : tag.IsAt mark') {inverse inverse' : Outline}
    (hinverse : inverse.Together inverse') :
    Branch.Together chained name (.withElse item o body mark inverse)
      (.withElse item' o' body' mark' inverse') where
  valid := ⟨ho.opens, ho.hasElse.1, hbody.valid, hmark.isElse htag, hinverse.valid⟩
  valid' := ⟨ho.opens', ho.hasElse.2, hbody.valid', hmark'.isElse htag, hinverse.valid'⟩
  unmarked := unmarked_cons.2 ⟨ho.strip_eq, unmarked_append.2 ⟨hbody.unmarked,
    unmarked_cons.2 ⟨hmark.strip_eq, hinverse.unmarked⟩⟩⟩
  unmarked' := unmarked_cons.2 ⟨ho.strip_eq', unmarked_append.2 ⟨hbody.unmarked',
    unmarked_cons.2 ⟨hmark'.strip_eq, hinverse.unmarked'⟩⟩⟩
  label_eq := ho.label_eq
  label_eq' := ho.label_eq'
  alike _ _ := ho.alike.wrap (ho.alike.firstSection hbody.alike _ _)
    (Item.elseSection_alike _ _ _ _ hinverse.alike _ _) _ _ _ _

/-- **An arm with another one behind it**: on the left that one is chained, on the right it is a
    block of its own in an else section. -/
theorem Branch.Together.chain (ho : Opening.Together chained name item item' o o')
    (hbody : body.Together body') {tag : Tag} (htag : tag.kind = .elseMark) {mark : Item}
    (hmark : tag.IsAt mark) {next next' : Branch} {inner : String}
    (hnext : Branch.Together true inner next next') {close : Item} (hclose : close.Closes inner)
    (hstrip : close.strip = .none) :
    Branch.Together chained name (.chain item o body next)
      (.withElse item' o' body' mark (.block next' close .nil)) where
  valid := ⟨ho.opens, ho.hasElse.1, hbody.valid, hnext.valid⟩
  valid' := ⟨ho.opens', ho.hasElse.2, hbody.valid', hmark.isElse htag, hnext.valid',
    hnext.label_eq' ▸ hclose, trivial⟩
  unmarked := unmarked_cons.2 ⟨ho.strip_eq, unmarked_append.2 ⟨hbody.unmarked, hnext.unmarked⟩⟩
  unmarked' := unmarked_cons.2 ⟨ho.strip_eq', unmarked_append.2 ⟨hbody.unmarked',
    unmarked_cons.2 ⟨hmark.strip_eq, unmarked_append.2 ⟨hnext.unmarked',
      unmarked_cons.2 ⟨hstrip, List.forall_mem_nil _⟩⟩⟩⟩⟩
  label_eq := ho.label_eq
  label_eq' := ho.label_eq'
  alike _ _ := ho.alike.wrap (ho.alike.firstSection hbody.alike _ _)
    (Item.elseSection_alike _ _ _ _ (.cons (hnext.alike _ _) .nil) _ _) _ _ _ _

end Branches

/-! ## Chains -/

section Chains

variable {fields : Json.Fields} {last : Option String} {more : List Arm} {u u' : List Char}

theorem toList_lastText (body : String) (u : List Char) :
    (lastText (some body)).toList ++ u = elseTag.toList ++ (body.toList ++ u) := by
  rw [lastText, String.toList_append, List.append_assoc]

theorem toList_chainTail (next : Arm) (u : List Char) :
    (chainTail last (next :: more)).toList ++ u
      = (next.tag true).toList ++ (next.body.toList ++ ((chainTail last more).toList ++ u)) := by
  simp only [chainTail, String.toList_append, List.append_assoc]
  rfl

theorem toList_nestedTail (next : Arm) (u : List Char) :
    (nestedTail last (next :: more)).toList ++ u
      = elseTag.toList ++ (next.opener.toList ++ (next.body.toList
          ++ ((nestedTail last more).toList ++ (next.closer.toList ++ u)))) := by
  simp only [nestedTail, String.toList_append, List.append_assoc]

/-- What begins with a tag does so with any text behind it: -/
theorem braces_append {s t : List Char} (h : ['{', '{'] <+: s) : ['{', '{'] <+: s ++ t :=
  h.trans (List.prefix_append s t)

/-- a close tag, -/
theorem braces_closer (a : Arm) : ['{', '{'] <+: a.closer.toList :=
  ⟨'/' :: (a.name.toList ++ ['}', '}']), by simp [Arm.closer]⟩

/-- an else tag with a call, -/
theorem braces_chainer (a : Arm) : ['{', '{'] <+: (a.tag true).toList :=
  ⟨"else ".toList ++ (a.call.toList ++ ['}', '}']), by simp [Arm.tag, Arm.chainer]⟩

/-- one without, -/
theorem braces_elseTag : ['{', '{'] <+: elseTag.toList := ⟨_, rfl⟩

/-- and what is left when no arm is. -/
theorem braces_lastText (last : Option String) (hu : ['{', '{'] <+: u) :
    ['{', '{'] <+: (lastText last).toList ++ u := by
  cases last with
  | none => exact hu
  | some body =>
    rw [toList_lastText]
    exact braces_append braces_elseTag

/-- What follows a body begins with a tag. -/
theorem braces_tails (last : Option String) (more : List Arm) (hu : ['{', '{'] <+: u) :
    ['{', '{'] <+: (chainTail last more).toList ++ u
      ∧ ['{', '{'] <+: (nestedTail last more).toList ++ u := by
  cases more with
  | nil => exact ⟨braces_lastText last hu, braces_lastText last hu⟩
  | cons next more =>
    rw [toList_chainTail, toList_nestedTail]
    exact ⟨braces_append (braces_chainer next), braces_append braces_elseTag⟩

/-- **A chain and the blocks that it abbreviates**, in front of two texts that are read together. -/
theorem Arm.together (hlast : ∀ body ∈ last, IsSection fields body)
    (hmore : ∀ a ∈ more, a.Proper fields) {a : Arm} {name : String} (ha : a.opened = some name)
    (hbody : IsSection fields a.body) (chained : Bool) {R : List Item → List Item → Prop}
    (hu : ['{', '{'] <+: u) (hu' : ['{', '{'] <+: u') (hR : ReadTogether R u u') :
    ReadTogether (Beside (fun row row' => ∃ b b' : Branch, row = b.items ∧ row' = b'.items
        ∧ Branch.Together chained name b b') R)
      ((a.tag chained).toList ++ (a.body.toList ++ ((chainTail last more).toList ++ u)))
      (a.opener.toList ++ (a.body.toList ++ ((nestedTail last more).toList ++ u'))) := by
  induction more generalizing a name chained R u u' with
  | nil =>
    cases last with
    | none =>
      refine (Arm.tag_together ha chained (hbody.together hu hu' hR)).mono ?_
      rintro _ _ ⟨_, _, _, _, rfl, rfl, ⟨item, item', o, o', rfl, rfl, ho⟩,
        _, _, more, more', rfl, rfl, ⟨body, body', rfl, rfl, hbody⟩, hrest⟩
      exact ⟨_, _, more, more', rfl, rfl, ⟨_, _, rfl, rfl, .plain ho hbody⟩, hrest⟩
    | some e =>
      obtain ⟨tag, htag, hkind⟩ := isTag_elseTag
      have hinverse := htag.onBoth ((hlast e rfl).together hu hu' hR)
      rw [← toList_lastText, ← toList_lastText] at hinverse
      have hall := Arm.tag_together ha chained (hbody.together (braces_lastText _ hu)
        (braces_lastText _ hu') hinverse)
      refine hall.mono ?_
      rintro _ _ ⟨_, _, _, _, rfl, rfl, ⟨item, item', o, o', rfl, rfl, ho⟩,
        _, _, _, _, rfl, rfl, ⟨body, body', rfl, rfl, hbody⟩,
        _, _, _, _, rfl, rfl, ⟨mark, mark', rfl, rfl, hmark, hmark'⟩,
        _, _, more, more', rfl, rfl, ⟨inverse, inverse', rfl, rfl, hinverse⟩, hrest⟩
      refine ⟨_, _, more, more', ?_, ?_,
        ⟨_, _, rfl, rfl, .withElse ho hbody hkind hmark hmark' hinverse⟩, hrest⟩
      · simp [Branch.items]
      · simp [Branch.items]
  | cons next more ih =>
    obtain ⟨⟨⟨inner, hopened, hclosed⟩, hinner⟩, hmore⟩ := List.forall_mem_cons.1 hmore
    obtain ⟨closer, hcloser, hcloses⟩ := Arm.exists_closer hclosed
    obtain ⟨tag, htag, hkind⟩ := isTag_elseTag
    -- From the end: the close tag of the next arm, that arm, an else tag, and the arm at hand.
    have hnext := ih hmore hopened hinner true hu (braces_append (braces_closer next))
      (hcloser.onRight hR)
    have helse := htag.onRight hnext
    rw [← toList_chainTail, ← toList_nestedTail] at helse
    refine (Arm.tag_together ha chained (hbody.together (braces_tails last (next :: more) hu).1
      (braces_tails last (next :: more) hu').2 helse)).mono ?_
    rintro _ _ ⟨_, _, _, _, rfl, rfl, ⟨item, item', o, o', rfl, rfl, ho⟩,
      _, _, _, _, rfl, rfl, ⟨body, body', rfl, rfl, hbody⟩,
      _, _, _, _, rfl, rfl, ⟨rfl, mark, rfl, hmark⟩,
      _, _, _, _, rfl, rfl, ⟨b, b', rfl, rfl, hb⟩,
      _, _, more, more', rfl, rfl, ⟨rfl, close, rfl, hclose⟩, hrest⟩
    refine ⟨_, _, more, more', ?_, ?_,
      ⟨_, _, rfl, rfl, .chain ho hbody hkind hmark hb (hcloses close hclose) hclose.strip_eq⟩,
      hrest⟩
    · simp [Branch.items]
    · simp [Branch.items, Outline.items]

end Chains

/-! ## Templates -/

/-- A text that is one block without marks. -/
theorem Template.parse_block {text : String} {b : Branch} {close : Item}
    (hscan : Item.Scan .origin text.toList (b.items ++ [close])) (hb : b.Valid false)
    (hclose : close.Closes b.opening.call.label) (hitems : Unmarked b.items)
    (hstrip : close.strip = .none) (source : Option String) :
    ∃ span, Template.parse text source false
      = .ok ⟨source, ⟨[b.statement close], [], false, span⟩⟩ := by
  have hvalid : (Outline.block b close .nil).Valid := ⟨hb, hclose, trivial⟩
  have hunmarked : Unmarked (Outline.block b close .nil).items :=
    unmarked_append.2 ⟨hitems, unmarked_cons.2 ⟨hstrip, List.forall_mem_nil _⟩⟩
  refine ⟨⟨.origin, Position.origin.advance text.toList⟩, ?_⟩
  rw [Template.parse, Program.ofText, hscan.readAll_eq]
  show (Program.ofItems (Outline.block b close .nil).items _ >>= fun _ => _) = _
  rw [hvalid.ofItems_eq]
  show Except.ok (⟨source, Program.trimmed false ⟨(Outline.block b close .nil).statements, _, _, _⟩⟩
    : Template) = _
  rw [hvalid.trimmed_eq hunmarked]
  rfl

open Script in
/-- **A chain of else tags means the blocks that it abbreviates.**  With the standalone rule off,
    the chain and the nested blocks are both parsed.  They are compiled to the same code but for
    `loc` fields, or both refused for the same reason. -/
theorem Compiler.standard_unfolds {first : Arm} {more : List Arm} {last : Option String}
    {fields : Json.Fields} {o : CompilerOptions} (hoptions : CompilerOptions.read fields = .ok o)
    (hstandalone : o.ignoreStandalone = true) (harms : ∀ a ∈ first :: more, a.Proper fields)
    (hlast : ∀ body ∈ last, IsSection fields body) :
    ∃ t t', Compiler.standard.parse (chainText first more last) fields = .ok t
      ∧ Compiler.standard.parse (nestedText first more last) fields = .ok t'
      ∧ Both (fun compiled compiled' => SameButLocs compiled.code compiled'.code)
        (Compiler.standard.compile t fields) (Compiler.standard.compile t' fields) := by
  obtain ⟨⟨⟨name, hopened, hclosed⟩, hbody⟩, hmore⟩ := List.forall_mem_cons.1 harms
  obtain ⟨tag, htag, hcloses⟩ := Arm.exists_closer hclosed
  have hend : ReadTogether (fun row row' => row = [] ∧ row' = []) [] [] :=
    fun q q' => ⟨[], [], .nil q, .nil q', rfl, rfl⟩
  have hclosers := htag.onBoth hend
  rw [List.append_nil] at hclosers
  -- both texts are scanned arm by arm, up to where the block is closed
  obtain ⟨items, items', hscan, hscan', _, _, _, _, rfl, rfl, ⟨b, b', rfl, rfl, hb⟩,
    _, _, _, _, rfl, rfl, ⟨close, close', rfl, rfl, hclose, hclose'⟩, rfl, rfl⟩ :=
    Arm.together hlast hmore hopened hbody false (braces_closer first) (braces_closer first)
      hclosers .origin .origin
  have htext : (first.tag false).toList ++ (first.body.toList ++ ((chainTail last more).toList
      ++ first.closer.toList)) = (chainText first more last).toList := by
    simp [chainText, Arm.tag]
  have htext' : first.opener.toList ++ (first.body.toList ++ ((nestedTail last more).toList
      ++ first.closer.toList)) = (nestedText first more last).toList := by
    simp [nestedText]
  rw [htext, List.append_nil] at hscan
  rw [htext', List.append_nil] at hscan'
  obtain ⟨span, hparse⟩ := Template.parse_block hscan hb.valid
    (hb.label_eq.symm ▸ hcloses close hclose) hb.unmarked hclose.strip_eq o.sourceName
  obtain ⟨span', hparse'⟩ := Template.parse_block hscan' hb.valid'
    (hb.label_eq'.symm ▸ hcloses close' hclose') hb.unmarked' hclose'.strip_eq o.sourceName
  have hrun {text : String} {t : Template} (h : Template.parse text o.sourceName false = .ok t) :
      Compiler.standard.parse text fields = .ok t := by
    show (CompilerOptions.read fields >>= fun o => Template.parseUnder text o) = _
    rw [hoptions]
    show Except.mapError _ (Template.parse text o.sourceName !o.ignoreStandalone) = _
    rw [hstandalone, Bool.not_true, h]
    rfl
  refine ⟨_, _, hrun hparse, hrun hparse', ?_⟩
  -- both files hold one statement, and these are alike
  have halike : Program.Alike false ⟨[b.statement close], [], false, span⟩
      ⟨[b'.statement close'], [], false, span'⟩ := .mk [] (.cons (hb.alike close close') .nil)
  have hspecs := @Specification.ofProgram_alike false o Bool.false_ne_true.elim _ _ halike
  show Both _ (CompilerOptions.read fields >>= fun o => _)
    (CompilerOptions.read fields >>= fun o => _)
  rw [hoptions]
  exact hspecs.map fun s s' hs => hs.code.sameButLocs

open Script in
/-- Three arms, one of them with block parameters, with a block and a partial in the bodies, and an
    else section. -/
theorem Compiler.standard_unfolds_at_three :
    let first : Arm := ⟨"if a", "if", "x\x7b\x7b! y \x7d\x7d"⟩
    let second : Arm := ⟨"each [b c] as |d|", "each",
      "\x7b\x7b#d\x7d\x7d\x7b\x7b^\x7d\x7de\x7b\x7b/d\x7d\x7d"⟩
    let third : Arm := ⟨"../f.g (h i=1)", "../f.g", ""⟩
    let last := some "\x7b\x7b> j\x7d\x7d\n"
    let fields : Json.Fields := [("ignoreStandalone", .bool true)]
    ∃ t t', Compiler.standard.parse (chainText first [second, third] last) fields = .ok t
      ∧ Compiler.standard.parse (nestedText first [second, third] last) fields = .ok t'
      ∧ Both (fun compiled compiled' => SameButLocs compiled.code compiled'.code)
        (Compiler.standard.compile t fields) (Compiler.standard.compile t' fields) := by
  intro first second third last fields
  obtain ⟨o, hoptions, hstandalone⟩ := exists_ok (P := fun o => o.ignoreStandalone = true)
    (e := CompilerOptions.read fields) (by decide +kernel)
  have hfirst : first.Proper fields := ⟨⟨"if", by decide +kernel, by decide +kernel⟩,
    exists_of_isOk (by decide +kernel), exists_ok (by decide +kernel), by decide +kernel⟩
  have hsecond : second.Proper fields := ⟨⟨"each", by decide +kernel, by decide +kernel⟩,
    exists_of_isOk (by decide +kernel), exists_ok (by decide +kernel), by decide +kernel⟩
  have hthird : third.Proper fields := ⟨⟨"../f.g", by decide +kernel, by decide +kernel⟩,
    exists_of_isOk (by decide +kernel), exists_ok (by decide +kernel), by decide +kernel⟩
  have harms : ∀ a ∈ [first, second, third], a.Proper fields :=
    List.forall_mem_cons.2 ⟨hfirst, List.forall_mem_cons.2 ⟨hsecond,
      List.forall_mem_singleton.2 hthird⟩⟩
  have hlast : ∀ body ∈ last, IsSection fields body := by
    intro body hbody
    obtain rfl : "\x7b\x7b> j\x7d\x7d\n" = body := Option.some.inj hbody
    exact ⟨exists_of_isOk (by decide +kernel), exists_ok (by decide +kernel), by decide +kernel⟩
  exact Compiler.standard_unfolds hoptions hstandalone harms hlast

end Stache
