/-
  A tree that is handed out as it is.

  What is handed out of a tree is the tree with what is reported of its positions.  If all positions
  of a text fit into the 32 bits of those, nothing is lost: the tree that is handed out is the tree
  (`Template.reported_eq`).

  The way there leads through any map of positions that STAYS on the text, that is, takes each
  position of the text to itself (`Position.Stays`).  It leaves the items of the text as they are
  (`Item.Scan.moved_eq`).  The tree of items that have moved is the tree, moved
  (`Nesting.foldlM_take_moved`); so here it is both the tree and the tree moved, and the two are the
  same (`Program.ofText_moved_eq`).
-/
import Stache.Proofs.Items.Bodies
import Stache.Proofs.Nesting.Moved
import Stache.Proofs.Whitespace.Moved
import Stache.Template.Parse

namespace Stache

/-- The positions of the text `s`, which begins at `p`, are taken to themselves. -/
def Position.Stays (f : Position → Position) (p : Position) (s : List Char) : Prop :=
  ∀ before, before <+: s → f (p.advance before) = p.advance before

/-- What is reported of the positions of a text that fits are these positions. -/
theorem Position.FitsOver.stays {p : Position} {s : List Char} (h : p.FitsOver s) :
    Position.Stays .reported p s := fun before hbefore => reported_of_fits (h before hbefore)

variable {f : Position → Position} {p : Position} {s : List Char}

namespace Position.Stays

theorem start (h : Stays f p s) : f p = p := h [] List.nil_prefix

theorem stop (h : Stays f p s) : f (p.advance s) = p.advance s := h s List.prefix_rfl

/-- The rest of a text. -/
theorem behind {t : List Char} (h : Stays f p (s ++ t)) : Stays f (p.advance s) t := by
  intro before hbefore
  rw [← advance_append]
  exact h _ ((List.prefix_append_right_inj s).2 hbefore)

end Position.Stays

/-! ## Items -/

/-- A token of the text stays, and so does where it ends. -/
theorem Token.ReadIn.stays {t : Token} (h : t.ReadIn p s) (hf : Position.Stays f p s) :
    t.moved f = t ∧ t.Goes f := by
  obtain ⟨before, c, rest, r, rfl, hread, rfl⟩ := h
  have hstart : f (p.advance before) = p.advance before := hf before (List.prefix_append ..)
  have hstop : f (p.advance (before ++ r.lexeme)) = p.advance (before ++ r.lexeme) := by
    refine hf _ ((List.prefix_append_right_inj before).2 ?_)
    rw [← TokenKind.read_append hread]
    exact List.prefix_append ..
  have hmoved : Token.moved f ⟨r.value, String.ofList r.lexeme, p.advance before⟩
      = ⟨r.value, String.ofList r.lexeme, p.advance before⟩ := by
    rw [Token.moved]
    dsimp only
    rw [hstart]
  refine ⟨hmoved, ?_⟩
  rw [Token.Goes, hmoved, Token.stop, String.toList_ofList, ← Position.advance_append]
  exact hstop.symm

/-- A tag stays as it is: its tokens do, and so does the beginning of its closing mark. -/
theorem readTag_stays {r : Reading ItemShape} (h : readTag p s = .ok r)
    (hf : Position.Stays f p ('{' :: '{' :: s)) :
    r.value.moved f = r.value ∧ ∀ tag, r.value = .tag tag → Grammar.Goes f tag.tokens := by
  have htokens (tag : Tag) (htag : r.value = .tag tag) (t : Token) (ht : t ∈ tag.tokens) :
      t.moved f = t ∧ t.Goes f := (readTag_readIn h htag t ht).stays hf
  refine ⟨?_, fun tag htag t ht => (htokens tag htag t ht).2⟩
  match hvalue : r.value with
  | .content value => rfl
  | .comment text strip => rfl
  | .tag tag =>
    obtain ⟨opener, body, -, hlexeme, hstop, -⟩ := readTag_parts h hvalue
    have hend : f tag.bodyEnd = tag.bodyEnd := by
      have happend := readTag_append h
      rw [hlexeme, ← List.append_assoc, List.append_assoc] at happend
      rw [hstop, ← Position.advance_append]
      exact hf _ ⟨_, happend⟩
    have hmoved : tag.tokens.map (Token.moved f) = tag.tokens :=
      (List.map_congr_left fun t ht => (htokens tag hvalue t ht).1).trans (List.map_id _)
    rw [ItemShape.moved, Tag.moved, hmoved, hend]

/-- **The items of a text** stay as they are. -/
theorem Item.Scan.moved_eq {items : List Item} (h : Item.Scan p s items)
    (hf : Position.Stays f p s) : ∀ item ∈ items, item.moved f = item ∧ item.Goes f := by
  -- An item stays if its shape, its start and its end do.
  have hitem {shape : ItemShape} {lexeme rest : List Char} {p : Position}
      (hf : Position.Stays f p (lexeme ++ rest)) (hshape : shape.moved f = shape)
      (htokens : ∀ tag, shape = .tag tag → Grammar.Goes f tag.tokens) :
      Item.moved f ⟨shape, String.ofList lexeme, p⟩ = ⟨shape, String.ofList lexeme, p⟩
        ∧ Item.Goes f ⟨shape, String.ofList lexeme, p⟩ := by
    have hmoved : Item.moved f ⟨shape, String.ofList lexeme, p⟩
        = ⟨shape, String.ofList lexeme, p⟩ := by
      rw [Item.moved]
      dsimp only
      rw [hshape, hf.start]
    refine ⟨hmoved, ?_, htokens⟩
    rw [hmoved, Item.stop, String.toList_ofList]
    exact (hf _ (List.prefix_append lexeme rest)).symm
  induction h with
  | nil p => exact List.forall_mem_nil _
  | @tag p s r items hread hmore ih =>
    obtain ⟨hshape, htokens⟩ := readTag_stays hread hf
    rw [← readTag_append hread] at hf
    exact List.forall_mem_cons.2 ⟨hitem hf hshape htokens, ih hf.behind⟩
  | @content p c s items hopen hmore ih =>
    rw [← readContent_append (c :: s)] at hf
    have hnone : ∀ tag, ItemShape.content (String.ofList (readContent (c :: s)).value) = .tag tag →
        Grammar.Goes f tag.tokens := fun _ heq => ItemShape.noConfusion heq
    exact List.forall_mem_cons.2 ⟨hitem hf rfl hnone, ih hf.behind⟩

/-! ## Trees -/

/-- Items that stay as they are form a tree that does. -/
theorem Program.ofItems_moved_eq {items : List Item} {stop : Position} {p : Program}
    (hitems : ∀ item ∈ items, item.moved f = item ∧ item.Goes f)
    (hstart : f .origin = .origin) (hstop : f stop = stop)
    (h : Program.ofItems items stop = .ok p) : p.moved f = p := by
  obtain ⟨n, hn, h⟩ := exists_of_bind_ok h
  obtain ⟨-, rfl⟩ := Nesting.of_finish_ok h
  -- The run over the items is also the run over the items moved.
  have hmoved : items.map (Item.moved f) = items :=
    (List.map_congr_left fun item hitem => (hitems item hitem).1).trans (List.map_id _)
  have hrun : (items.map (Item.moved f)).foldlM Nesting.take (Nesting.empty.moved f [])
      = .ok (n.moved f []) :=
    Nesting.foldlM_take_moved (fun item hitem => (hitems item hitem).2) hn
  have hempty : Nesting.empty.moved f [] = Nesting.empty := rfl
  rw [hmoved, hempty] at hrun
  have hsame : n.moved f [] = n := Except.ok.inj (hrun.symm.trans hn)
  have hroot : movedBody f n.root = n.root := by
    have := congrArg Nesting.root hsame
    rwa [Nesting.moved, List.append_nil] at this
  rw [Program.moved, movedBody_reverse, hroot, Span.moved]
  dsimp only
  rw [hstart, hstop]

/-- **The tree of a text** stays as it is. -/
theorem Program.ofText_moved_eq {text : List Char} {p : Program}
    (hf : Position.Stays f .origin text) (h : Program.ofText text = .ok p) : p.moved f = p := by
  obtain ⟨items, hitems, h⟩ := exists_of_bind_ok h
  exact Program.ofItems_moved_eq ((Item.Scan.of_readAll hitems).moved_eq hf) hf.start hf.stop h

/-- **A template is handed out as it is** if the positions of its text fit. -/
theorem Template.reported_eq {text : String} {source : Option String} {standalone : Bool}
    {t : Template} (h : Template.parse text source standalone = .ok t)
    (hfits : Position.origin.FitsOver text.toList) : t.reported = t := by
  obtain ⟨p, hp, h⟩ := exists_of_bind_ok h
  cases h
  have hmoved := Program.ofText_moved_eq hfits.stays hp
  have hroot : (p.trimmed standalone).moved .reported = p.trimmed standalone := by
    rw [Program.trimmed, ← Program.settle_moved, hmoved]
  exact congrArg (Template.mk source) hroot

end Stache
