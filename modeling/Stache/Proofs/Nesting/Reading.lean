/-
  Every tree that is read has an outline.

  The tree is built by a machine with a stack of open blocks (`Nesting`).  What the machine holds
  between two items is, at every moment, a row of an outline together with the place where that row
  stands: a SITE.  A site tells what is open around the row, from the row outwards:

    * the top of the file;
    * the first section of a block, which stands after the row `before` in the row around it;
    * the first section of a chained block, whose open tag also ends the section `first` of the
      block around it;
    * the else section that follows the section `first`.

  So a site is an outline with a hole at its end, and `Site.nesting` is the state of the machine
  when the hole is filled with the statements so far.  ONE item leads from a site and a row to
  another such pair, with that item added at the end (`Nesting.take_sited`); a RUN over all items
  therefore ends at a site and a row that hold them all, and it is accepted only if the site is the
  top of the file (`Program.ofItems_outlined`).
-/
import Stache.Proofs.Nesting.Outline
import Stache.Proofs.Runs
import Stache.Template.Parse

namespace Stache

/-! ## Sites -/

/-- What is open around a row, from the row outwards. -/
inductive Site where
  | top
  | inBlock (outer : Site) (before : Outline) (item : Item) (opening : Opening)
  | inChain (outer : Site) (first : Outline) (item : Item) (opening : Opening)
  | inElse (outer : Site) (first : Outline) (mark : Item)

/-- The nesting `n`, after the innermost block has come to the else section `e`. -/
def Nesting.setElse (n : Nesting) (e : ElseSection) : Nesting :=
  match n.frames with
  | [] => n
  | f :: fs => { n with frames := { f with elseSection := some e } :: fs }

theorem Nesting.setElse_root (n : Nesting) (e : ElseSection) : (n.setElse e).root = n.root := by
  rw [Nesting.setElse]
  split <;> rfl

/-- The nesting `n` with one more open block, with the statements `body` in its first section. -/
def Nesting.addFrame (n : Nesting) (o : Opening) (body : List Statement) (chained : Bool) :
    Nesting :=
  { n with frames := ⟨o, body, none, chained⟩ :: n.frames }

namespace Site

/-- The items before the row at a site. -/
def items : Site → List Item
  | .top => []
  | .inBlock outer row item _ | .inChain outer row item _ | .inElse outer row item =>
    outer.items ++ row.items ++ [item]

/-- The state in which the statements of the row at a site are `body`, latest first. -/
def nesting : Site → (body : List Statement) → Nesting
  | .top, body => ⟨body, []⟩
  | .inBlock outer before _ o, body =>
    (outer.nesting before.statements.reverse).addFrame o body false
  | .inChain outer first item o, body =>
    ((outer.nesting first.statements.reverse).setElse ⟨item.span, item.strip, true, []⟩).addFrame
      o body true
  | .inElse outer first mark, body =>
    (outer.nesting first.statements.reverse).setElse ⟨mark.span, mark.strip, false, body⟩

/-- An else tag may stand at the end of the row: it is the first section of a block proper. -/
def TakesElse : Site → Prop
  | .inBlock _ _ _ o | .inChain _ _ _ o => o.kind.hasElse
  | .top | .inElse _ _ _ => False

/-- A site is valid if each item in it is what its place makes of it. -/
def Valid : Site → Prop
  | .top => True
  | .inBlock outer before item o => outer.Valid ∧ before.Valid ∧ item.Opens false o
  | .inChain outer first item o =>
    outer.Valid ∧ first.Valid ∧ outer.TakesElse ∧ item.Opens true o
  | .inElse outer first mark => outer.Valid ∧ first.Valid ∧ outer.TakesElse ∧ mark.IsElse

/-! ## The innermost frame -/

/-- At the first section of a block, the innermost frame is that block's, and has no else yet. -/
theorem nesting_eq_of_takesElse {site : Site} (h : site.TakesElse) (body : List Statement) :
    ∃ o chained root fs, o.kind.hasElse
      ∧ site.nesting body = ⟨root, ⟨o, body, none, chained⟩ :: fs⟩ := by
  cases site with
  | top | inElse outer first mark => exact h.elim
  | inBlock outer before item o => exact ⟨o, false, _, _, h, rfl⟩
  | inChain outer first item o => exact ⟨o, true, _, _, h, rfl⟩

/-- The state at the else section of a block. -/
theorem nesting_inElse_eq {site : Site} (h : site.TakesElse) (first : Outline) (mark : Item)
    (body : List Statement) :
    ∃ o chained root fs,
      (Site.inElse site first mark).nesting body
        = ⟨root, ⟨o, first.statements.reverse, some ⟨mark.span, mark.strip, false, body⟩, chained⟩
            :: fs⟩ := by
  obtain ⟨o, chained, root, fs, -, hn⟩ := nesting_eq_of_takesElse h first.statements.reverse
  exact ⟨o, chained, root, fs, by rw [nesting, hn]; rfl⟩

/-- A statement is pushed onto the row at hand. -/
theorem push_nesting {site : Site} (h : site.Valid) (body : List Statement) (s : Statement) :
    (site.nesting body).push s = site.nesting (s :: body) := by
  cases site with
  | top => rfl
  | inBlock outer before item o => rfl
  | inChain outer first item o => rfl
  | inElse outer first mark =>
    obtain ⟨o, chained, root, fs, -, hn⟩ :=
      nesting_eq_of_takesElse h.2.2.1 first.statements.reverse
    simp only [nesting, hn]
    rfl

end Site

/-! ## What one item does -/

/-- `site` and `row` hold the items so far, and the nesting is the state for them. -/
structure Nesting.At (n : Nesting) (site : Site) (row : Outline) (items : List Item) : Prop where
  site_valid : site.Valid
  row_valid : row.Valid
  nesting_eq : n = site.nesting row.statements.reverse
  items_eq : site.items ++ row.items = items

namespace Nesting

/-- The nesting stands somewhere, with these items behind it. -/
def Sited (n : Nesting) (items : List Item) : Prop := ∃ site row, n.At site row items

/-- A piece of an outline that ends the row at hand. -/
theorem At.push {n : Nesting} {site : Site} {row more : Outline} {items : List Item}
    {s : Statement} (h : n.At site row items) (hmore : more.Valid)
    (hs : more.statements = [s]) : (n.push s).Sited (items ++ more.items) := by
  refine ⟨site, row.append more, h.site_valid, h.row_valid.append hmore, ?_, ?_⟩
  · rw [h.nesting_eq, Site.push_nesting h.site_valid, Outline.statements_append, hs,
      List.reverse_append, List.reverse_singleton, List.singleton_append]
  · rw [Outline.items_append, ← List.append_assoc, h.items_eq]

/-- An item that is a statement of its own. -/
theorem Sited.push_bare {n : Nesting} {items : List Item} {item : Item} {s : Statement}
    (h : n.Sited items) (hs : item.Forms s) : (n.push s).Sited (items ++ [item]) := by
  obtain ⟨site, row, hat⟩ := h
  have hmore : (Outline.bare item s .nil).Valid := ⟨hs, trivial⟩
  exact hat.push hmore rfl

/-- An open tag. -/
theorem Sited.enter {n : Nesting} {items : List Item} {item : Item} {o : Opening}
    (h : n.Sited items) (ho : item.Opens false o) : (n.enter o false).Sited (items ++ [item]) := by
  obtain ⟨site, row, hsite, hrow, hn, hitems⟩ := h
  refine ⟨.inBlock site row item o, .nil, ⟨hsite, hrow, ho⟩, trivial, ?_, ?_⟩
  · rw [hn]; rfl
  · rw [← hitems, Site.items, Outline.items, List.append_nil]

/-- An else tag is accepted only at the first section of a block proper. -/
theorem At.of_beginElse {n n' : Nesting} {site : Site} {row : Outline} {items : List Item}
    {tag : Span} {strip : Strip} {chained : Bool} (h : n.At site row items)
    (hn' : n.beginElse tag strip chained = .ok n') :
    site.TakesElse
      ∧ n' = (site.nesting row.statements.reverse).setElse ⟨tag, strip, chained, []⟩ := by
  obtain ⟨hsite, -, rfl, -⟩ := h
  -- no else goes into the file itself, nor into an else
  cases site with
  | top => cases hn'
  | inBlock outer before item o =>
    simp only [Site.nesting, addFrame, beginElse] at hn'
    split at hn'
    · rename_i hk
      refine ⟨by simpa [Site.TakesElse, OpeningKind.hasElse] using hk, ?_⟩
      cases hn'
      rfl
    · cases hn'
  | inChain outer first item o =>
    simp only [Site.nesting, addFrame, beginElse] at hn'
    split at hn'
    · rename_i hk
      refine ⟨by simpa [Site.TakesElse, OpeningKind.hasElse] using hk, ?_⟩
      cases hn'
      rfl
    · cases hn'
  | inElse outer first mark =>
    obtain ⟨o, c, root, fs, hn⟩ :=
      Site.nesting_inElse_eq hsite.2.2.1 first mark row.statements.reverse
    rw [hn] at hn'
    simp [beginElse] at hn'

/-- An else tag without a call. -/
theorem Sited.beginElse {n n' : Nesting} {items : List Item} {item : Item} (h : n.Sited items)
    (hitem : item.IsElse) (hn' : n.beginElse item.span item.strip false = .ok n') :
    n'.Sited (items ++ [item]) := by
  obtain ⟨site, row, hat⟩ := h
  obtain ⟨helse, rfl⟩ := hat.of_beginElse hn'
  refine ⟨.inElse site row item, .nil, ⟨hat.site_valid, hat.row_valid, helse, hitem⟩, trivial,
    rfl, ?_⟩
  rw [← hat.items_eq, Site.items, Outline.items, List.append_nil]

/-- An else tag with a call of its own. -/
theorem Sited.beginChain {n n' : Nesting} {items : List Item} {item : Item} {o : Opening}
    (h : n.Sited items) (ho : item.Opens true o)
    (hn' : n.beginElse item.span item.strip true = .ok n') :
    (n'.enter o true).Sited (items ++ [item]) := by
  obtain ⟨site, row, hat⟩ := h
  obtain ⟨helse, rfl⟩ := hat.of_beginElse hn'
  refine ⟨.inChain site row item o, .nil, ⟨hat.site_valid, hat.row_valid, helse, ho⟩, trivial,
    rfl, ?_⟩
  rw [← hat.items_eq, Site.items, Outline.items, List.append_nil]

end Nesting

/-! ## Closing -/

/-- The statement of a frame is the one that its sections are wrapped into. -/
theorem Frame.close_eq_wrap (f : Frame) (tag : Span) (strip : Strip) :
    f.close tag strip
      = f.opening.wrap (f.firstSection tag.start) (f.secondSection tag.start)
          ⟨f.opening.strip, (f.elseSection.map (·.strip)).getD .none, strip⟩ tag.stop := by
  unfold Frame.close Opening.wrap
  cases f.opening.kind <;> rfl

/-- A block that has come to its close tag without an else. -/
theorem close_eq_plain (item close : Item) (o : Opening) (row : Outline) (chained : Bool) :
    Frame.close ⟨o, row.statements.reverse, none, chained⟩ close.span close.strip
      = (Branch.plain item o row).statement close := by
  simp only [Frame.close_eq_wrap, Frame.firstSection, Frame.secondSection, Branch.statement,
    List.reverse_reverse]
  rfl

/-- A block that has come to its close tag in its else section. -/
theorem close_eq_withElse (item mark close : Item) (o : Opening) (first row : Outline)
    (chained : Bool) :
    Frame.close ⟨o, first.statements.reverse,
        some ⟨mark.span, mark.strip, false, row.statements.reverse⟩, chained⟩ close.span close.strip
      = (Branch.withElse item o first mark row).statement close := by
  simp only [Frame.close_eq_wrap, Frame.firstSection, Frame.secondSection, Branch.statement,
    Option.map_some, List.reverse_reverse]
  rfl

/-- A block whose else section is a chained branch. -/
theorem close_eq_chain (item close : Item) (o : Opening) (first : Outline) (b : Branch)
    (chained : Bool) :
    Frame.close (Frame.push ⟨o, first.statements.reverse,
        some ⟨b.item.span, b.item.strip, true, []⟩, chained⟩ (b.statement close))
        close.span close.strip
      = (Branch.chain item o first b).statement close := by
  simp only [Frame.close_eq_wrap, Frame.firstSection, Frame.secondSection, Frame.push,
    Branch.statement, Option.map_some, List.reverse_reverse]
  rfl

namespace Nesting

/-- The end of a block that is not chained: it becomes a statement of the row around it. -/
theorem At.closeFrames {n n' : Nesting} {outer : Site} {before : Outline} {items : List Item}
    {f : Frame} {inner : Option Statement} {b : Branch} {close : Item} {name : String}
    (h : n.At outer before items)
    (hn' : Nesting.closeFrames name close.span close.strip n.root inner (f :: n.frames) = .ok n')
    (hclose : close.Closes name) (hb : b.Valid false) (hchained : f.chained = false)
    (hopening : f.opening = b.opening)
    (hclosed : ((inner.map f.push).getD f).close close.span close.strip = b.statement close) :
    n'.Sited (items ++ (b.items ++ [close])) := by
  rw [Nesting.closeFrames, hchained, hclosed, hopening] at hn'
  simp only [Bool.false_eq_true, if_false] at hn'
  split at hn'
  · rename_i hname
    cases hn'
    have hmore : (Outline.block b close .nil).Valid := ⟨hb, hname ▸ hclose, trivial⟩
    exact h.push hmore rfl
  · cases hn'

/-- The end of a chained block: its statement is handed on to the block around it. -/
theorem closeFrames_of_chained {f : Frame} {fs : List Frame} {inner : Option Statement}
    {b : Branch} {close : Item} {name : String} {root : List Statement} {n' : Nesting}
    (hn' : Nesting.closeFrames name close.span close.strip root inner (f :: fs) = .ok n')
    (hchained : f.chained = true)
    (hclosed : ((inner.map f.push).getD f).close close.span close.strip = b.statement close) :
    Nesting.closeFrames name close.span close.strip root (some (b.statement close)) fs
      = .ok n' := by
  rw [Nesting.closeFrames, hchained, hclosed] at hn'
  simpa only [if_true] using hn'

/-- The end of the blocks that a branch is chained to, one after another.  Induction on the site of
    the first section around the branch: it is the section of a chained block again, or of the one
    block that is not. -/
theorem closeFrames_chain {site : Site} {first : Outline} {b : Branch} {close : Item}
    {name : String} {root : List Statement} {n' : Nesting} (hsite : site.Valid)
    (helse : site.TakesElse) (hfirst : first.Valid) (hb : b.Valid true) (hclose : close.Closes name)
    (hroot : root = (site.nesting first.statements.reverse).root)
    (hn' : Nesting.closeFrames name close.span close.strip root (some (b.statement close))
        ((site.nesting first.statements.reverse).setElse
          ⟨b.item.span, b.item.strip, true, []⟩).frames = .ok n') :
    n'.Sited (site.items ++ first.items ++ (b.items ++ [close])) := by
  subst hroot
  -- on the place of the chain: each block it is in is closed by the same tag
  induction site generalizing first b with
  | top | inElse => exact helse.elim
  | inBlock outer before item o ih =>
    obtain ⟨houter, hbefore, hopen⟩ := hsite
    have hat : (outer.nesting before.statements.reverse).At outer before
        (outer.items ++ before.items) := ⟨houter, hbefore, rfl, rfl⟩
    have hvalid : (Branch.chain item o first b).Valid false := ⟨hopen, helse, hfirst, hb⟩
    have := hat.closeFrames hn' hclose hvalid rfl rfl (close_eq_chain item close o first b false)
    simpa only [Site.items, Branch.items, List.append_assoc, List.cons_append, List.nil_append]
      using this
  | inChain outer before item o ih =>
    obtain ⟨houter, hbefore, helse', hopen⟩ := hsite
    have hvalid : (Branch.chain item o first b).Valid true := ⟨hopen, helse, hfirst, hb⟩
    have hn'' := closeFrames_of_chained hn' rfl (close_eq_chain item close o first b true)
    have := ih houter helse' hbefore hvalid (setElse_root .. ▸ hn'')
    simpa only [Site.items, Branch.items, List.append_assoc, List.cons_append, List.nil_append]
      using this

/-- A close tag. -/
theorem Sited.closeFrames {n n' : Nesting} {items : List Item} {close : Item} {name : String}
    (h : n.Sited items) (hclose : close.Closes name)
    (hn' : Nesting.closeFrames name close.span close.strip n.root none n.frames = .ok n') :
    n'.Sited (items ++ [close]) := by
  obtain ⟨site, row, hsite, hrow, rfl, rfl⟩ := h
  cases site with
  | top => cases hn'
  | inBlock outer before item o =>
    obtain ⟨houter, hbefore, hopen⟩ := hsite
    have hat : (outer.nesting before.statements.reverse).At outer before _ :=
      ⟨houter, hbefore, rfl, rfl⟩
    have hb : (Branch.plain item o row).Valid false := ⟨hopen, hrow⟩
    have := hat.closeFrames hn' hclose hb rfl rfl (close_eq_plain item close o row false)
    simpa only [Site.items, Branch.items, List.append_assoc, List.cons_append, List.nil_append]
      using this
  | inChain outer first item o =>
    obtain ⟨houter, hfirst, helse, hopen⟩ := hsite
    have hb : (Branch.plain item o row).Valid true := ⟨hopen, hrow⟩
    have hn'' := closeFrames_of_chained hn' rfl (close_eq_plain item close o row true)
    have := closeFrames_chain houter helse hfirst hb hclose (setElse_root ..) hn''
    simpa only [Site.items, Branch.items, List.append_assoc, List.cons_append, List.nil_append]
      using this
  | inElse outer first mark =>
    obtain ⟨houter, hfirst, helse, hmark⟩ := hsite
    -- The else section belongs to the block whose first section stands at `outer`.
    cases outer with
    | top | inElse => exact helse.elim
    | inBlock outer before item o =>
      obtain ⟨houter, hbefore, hopen⟩ := houter
      have hat : (outer.nesting before.statements.reverse).At outer before _ :=
        ⟨houter, hbefore, rfl, rfl⟩
      have hb : (Branch.withElse item o first mark row).Valid false :=
        ⟨hopen, helse, hfirst, hmark, hrow⟩
      have := hat.closeFrames hn' hclose hb rfl rfl
        (close_eq_withElse item mark close o first row false)
      simpa only [Site.items, Branch.items, List.append_assoc, List.cons_append, List.nil_append]
        using this
    | inChain outer before item o =>
      obtain ⟨houter, hbefore, helse', hopen⟩ := houter
      have hb : (Branch.withElse item o first mark row).Valid true :=
        ⟨hopen, helse, hfirst, hmark, hrow⟩
      have hn'' := closeFrames_of_chained hn' rfl
        (close_eq_withElse item mark close o first row true)
      have hroot : ((Site.inElse (.inChain outer before item o) first mark).nesting
          row.statements.reverse).root = (outer.nesting before.statements.reverse).root := by
        simp only [Site.nesting, setElse_root, addFrame]
      have := closeFrames_chain houter helse' hbefore hb hclose hroot hn''
      simpa only [Site.items, Branch.items, List.append_assoc, List.cons_append, List.nil_append]
        using this

/-! ## One item, and all of them -/

/-- The tag of an item that has one. -/
theorem Sited.openTag {n n' : Nesting} {items : List Item} {item : Item} {tag : Tag}
    {kind : OpeningKind} {chained : Bool} (hshape : item.shape = .tag tag)
    (hkind : tag.kind.opens = some (kind, chained))
    (hn' : n.openTag kind chained item.span tag = .ok n')
    (henter : ∀ o, item.Opens chained o → (n.enter o chained).Sited (items ++ [item])) :
    n'.Sited (items ++ [item]) := by
  rw [Nesting.openTag] at hn'
  generalize hread : (if kind = .partialBlock then Call.partialOpenerOfTokens tag.tokens
    else Call.openerOfTokens tag.tokens) = read at hn'
  match read with
  | .error e => cases hn'
  | .ok (call, params) =>
    cases hn'
    exact henter ⟨kind, call, params, tag.strip, item.span⟩
      ⟨tag, hshape, hkind, rfl, rfl, hread⟩

/-- **One item.**  Whatever the machine accepts, it adds at the end of what it holds. -/
theorem take_sited {n n' : Nesting} {items : List Item} {item : Item} (h : n.Sited items)
    (hn' : n.take item = .ok n') : n'.Sited (items ++ [item]) := by
  rw [Nesting.take] at hn'
  cases hshape : item.shape with
  | content value =>
    rw [hshape] at hn'
    cases hn'
    exact h.push_bare (.content hshape)
  | comment text strip =>
    rw [hshape] at hn'
    cases hn'
    exact h.push_bare (.comment hshape)
  | tag tag =>
    rw [hshape] at hn'
    have hstrip : item.strip = tag.strip := by rw [Item.strip, hshape]
    simp only [takeTag] at hn'
    -- the tags that stay where they are, that go in, and that come out
    cases hkind : tag.kind with
    | mustache form =>
      rw [hkind] at hn'
      cases hcall : Call.ofTokens tag.tokens with
      | error e => rw [hcall] at hn'; cases hn'
      | ok call => rw [hcall] at hn'; cases hn'; exact h.push_bare (.mustache hshape hkind hcall)
    | partialCall =>
      rw [hkind] at hn'
      cases hcall : Call.partialOfTokens tag.tokens with
      | error e => rw [hcall] at hn'; cases hn'
      | ok call =>
        rw [hcall] at hn'; cases hn'; exact h.push_bare (.partialCall hshape hkind hcall)
    | decorator =>
      rw [hkind] at hn'
      cases hcall : Call.ofTokens tag.tokens with
      | error e => rw [hcall] at hn'; cases hn'
      | ok call => rw [hcall] at hn'; cases hn'; exact h.push_bare (.decorator hshape hkind hcall)
    | openBlock | openInverse | openPartialBlock | openDecoratorBlock =>
      rw [hkind] at hn'
      exact Sited.openTag hshape (by rw [hkind]; rfl) hn' fun o ho => h.enter ho
    | elseMark =>
      rw [hkind] at hn'
      exact h.beginElse ⟨tag, hshape, hkind⟩ (hstrip ▸ hn')
    | elseChain =>
      rw [hkind] at hn'
      cases hbegin : n.beginElse item.span tag.strip true with
      | error e => rw [hbegin] at hn'; cases hn'
      | ok n₁ =>
        rw [hbegin] at hn'
        exact Sited.openTag hshape (by rw [hkind]; rfl) hn' fun o ho =>
          h.beginChain ho (hstrip ▸ hbegin)
    | closeMark =>
      rw [hkind] at hn'
      cases hname : Expression.nameOfTokens tag.tokens with
      | error e => rw [hname] at hn'; cases hn'
      | ok e =>
        rw [hname] at hn'
        exact h.closeFrames ⟨tag, e, hshape, hkind, hname, rfl⟩ (hstrip ▸ hn')

/-- **All of them.** -/
theorem foldlM_take_sited {n n' : Nesting} {items more : List Item} (h : n.Sited items)
    (hn' : more.foldlM Nesting.take n = .ok n') : n'.Sited (items ++ more) := by
  induction more generalizing n items with
  | nil => cases hn'; rwa [List.append_nil]
  | cons item more ih =>
    rw [List.foldlM_cons] at hn'
    match htake : n.take item with
    | .error e => rw [htake] at hn'; cases hn'
    | .ok n₁ =>
      rw [htake] at hn'
      have := ih (take_sited h htake) hn'
      rwa [List.append_assoc, List.singleton_append] at this

/-- At the start, the site is the top, with no row. -/
theorem empty_sited : empty.Sited [] := ⟨.top, .nil, trivial, trivial, rfl, rfl⟩

/-- Only at the top of a file is no block open. -/
theorem At.site_eq_top {n : Nesting} {site : Site} {row : Outline} {items : List Item}
    (h : n.At site row items) (hframes : n.frames = []) : site = .top := by
  obtain ⟨hsite, -, rfl, -⟩ := h
  cases site with
  | top => rfl
  | inBlock outer before item o => cases hframes
  | inChain outer first item o => cases hframes
  | inElse outer first mark =>
    obtain ⟨o, chained, root, fs, hn⟩ :=
      Site.nesting_inElse_eq hsite.2.2.1 first mark row.statements.reverse
    rw [hn] at hframes
    cases hframes

end Nesting

/-- **Every tree has an outline**: its items nest as the tree says. -/
theorem Program.ofItems_outlined {items : List Item} {stop : Position} {p : Program}
    (h : Program.ofItems items stop = .ok p) :
    p = ⟨p.body, [], false, ⟨.origin, stop⟩⟩ ∧ ∃ o : Outline, o.Of items p.body := by
  rw [Program.ofItems] at h
  match hrun : items.foldlM Nesting.take .empty with
  | .error e => rw [hrun] at h; cases h
  | .ok n =>
    rw [hrun] at h
    obtain ⟨site, row, hat⟩ := Nesting.foldlM_take_sited Nesting.empty_sited hrun
    simp only [bind, Except.bind, Nesting.finish] at h
    split at h
    · rename_i hframes
      obtain rfl := hat.site_eq_top hframes
      obtain ⟨-, hrow, rfl, hitems⟩ := hat
      cases h
      refine ⟨rfl, row, hrow, hitems, ?_⟩
      rw [Site.nesting, List.reverse_reverse]
    · cases h

/-- What parsing a text amounts to before whitespace control: the items of the text form an outline,
    and the statements of the outline make the tree. -/
theorem Template.parse_outlined {text : String} {source : Option String} {standalone : Bool}
    {t : Template} (h : Template.parse text source standalone = .ok t) :
    ∃ (items : List Item) (p : Program) (o : Outline),
      Item.readAll .origin text.toList = .ok items ∧ Program.ofText text.toList = .ok p
        ∧ t = ⟨source, p.trimmed standalone⟩
        ∧ p = ⟨o.statements, [], false, ⟨.origin, Position.origin.advance text.toList⟩⟩
        ∧ o.Of items p.body := by
  rw [Template.parse] at h
  obtain ⟨p, hp, h⟩ := exists_of_bind_ok h
  cases h
  have htext := hp
  rw [Program.ofText] at hp
  obtain ⟨items, hitems, hp⟩ := exists_of_bind_ok hp
  obtain ⟨hroot, o, ho⟩ := Program.ofItems_outlined hp
  refine ⟨items, p, o, hitems, htext, rfl, ?_, ho⟩
  rw [ho.statements_eq]
  exact hroot

end Stache
