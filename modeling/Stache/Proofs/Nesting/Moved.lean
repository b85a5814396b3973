/-
  A tree that has moved, behind other statements.

  The tree of a text is built by a machine with a stack of open blocks (`Nesting`).  It never looks
  below the blocks that are open, so on top of a machine that stands at the top level it does what
  it does on its own; and of positions it does no more than put them into spans.  So the machine
  that has taken the items of one text can take the moved items of another, and its state is at each
  step the one that the items of the other text lead to on their own, MOVED, and on top of the
  statements of the first text (`Nesting.moved`).

  1. **One step** — each of the machine's operations keeps this up, and therefore so does taking an
     item (`Nesting.take_moved`).

  2. **A run** — so does taking a row of items (`Nesting.foldlM_take_moved`).

  3. **Two texts** — the items of two texts, one behind the other, form the statements of the first
     and then those of the second, moved (`Program.ofItems_append`).
-/
import Stache.Proofs.Grammar.Moved
import Stache.Proofs.Items.Tokens

namespace Stache

/-! ## Trees that move -/

theorem movedBody_eq_map (f : Position → Position) (body : List Statement) :
    movedBody f body = body.map (Statement.moved f) := by
  induction body with
  | nil => rfl
  | cons s body ih => rw [movedBody, ih, List.map_cons]

theorem movedBody_reverse (f : Position → Position) (body : List Statement) :
    movedBody f body.reverse = (movedBody f body).reverse := by
  rw [movedBody_eq_map, movedBody_eq_map, List.map_reverse]

/-! ## Frames that move -/

section

variable (f : Position → Position)

/-- An opening that has moved. -/
def Opening.moved (o : Opening) : Opening :=
  { o with call := o.call.moved f, span := o.span.moved f }

/-- So has an else section, -/
def ElseSection.moved (e : ElseSection) : ElseSection :=
  { e with span := e.span.moved f, body := movedBody f e.body }

/-- and the frame of both. -/
def Frame.moved (x : Frame) : Frame :=
  ⟨x.opening.moved f, movedBody f x.body, x.elseSection.map (ElseSection.moved f), x.chained⟩

theorem Frame.push_moved (x : Frame) (s : Statement) :
    (x.moved f).push (s.moved f) = (x.push s).moved f := by
  obtain ⟨opening, body, elseSection, chained⟩ := x
  cases elseSection <;> rfl

/-- A frame that is closed by a tag that has moved with it. -/
theorem Frame.close_moved (x : Frame) (tag : Span) (strip : Strip) :
    (x.moved f).close (tag.moved f) strip = (x.close tag strip).moved f := by
  obtain ⟨⟨kind, call, params, opening, span⟩, body, elseSection, chained⟩ := x
  cases elseSection <;> cases kind <;>
    simp only [Frame.close, Frame.moved, Frame.firstSection, Frame.secondSection, Opening.moved,
      ElseSection.moved, Statement.moved, Program.moved, movedSection, movedBody_reverse,
      Option.map_none, Option.map_some, Option.getD_none, Option.getD_some, Span.moved]

end

/-! ## One step -/

namespace Nesting

variable {f : Position → Position} {base : List Statement} {n n' : Nesting}

/-- The nesting, moved, on top of the statements `base`, which are given latest first. -/
def moved (f : Position → Position) (base : List Statement) (n : Nesting) : Nesting :=
  ⟨movedBody f n.root ++ base, n.frames.map (Frame.moved f)⟩

/-- **One step**: to add a statement, -/
theorem push_moved (n : Nesting) (s : Statement) :
    (n.moved f base).push (s.moved f) = (n.push s).moved f base := by
  obtain ⟨root, frames⟩ := n
  cases frames with
  | nil => rfl
  | cons x frames =>
    show Nesting.mk _ ((x.moved f).push (s.moved f) :: _) = _
    rw [x.push_moved]
    rfl

/-- to open a block, -/
theorem enter_moved (n : Nesting) (o : Opening) (chained : Bool) :
    (n.moved f base).enter (o.moved f) chained = (n.enter o chained).moved f base := rfl

/-- and to begin an else section. -/
theorem beginElse_moved {tag : Span} {strip : Strip} {chained : Bool}
    (h : n.beginElse tag strip chained = .ok n') :
    (n.moved f base).beginElse (tag.moved f) strip chained = .ok (n'.moved f base) := by
  obtain ⟨root, frames⟩ := n
  cases frames with
  | nil => cases h
  | cons x frames =>
    obtain ⟨opening, body, elseSection, isChained⟩ := x
    cases elseSection with
    | some e => simp [beginElse] at h
    | none =>
      simp only [beginElse, Option.isNone_none, Bool.and_true] at h
      split at h
      · rename_i hkind
        cases h
        simp only [beginElse, Nesting.moved, List.map_cons, Frame.moved, Opening.moved,
          Option.map_none, Option.isNone_none, Bool.and_true, if_pos hkind]
        rfl
      · cases h

/-- The frames that a close tag ends.  One that is closed on the way is pushed onto the next. -/
theorem closeFrames_moved {name : String} {tag : Span} {strip : Strip} {root : List Statement}
    {inner : Option Statement} {frames : List Frame}
    (h : closeFrames name tag strip root inner frames = .ok n') :
    closeFrames name (tag.moved f) strip (movedBody f root ++ base)
        (inner.map (Statement.moved f)) (frames.map (Frame.moved f))
      = .ok (n'.moved f base) := by
  induction frames generalizing inner with
  | nil => cases h
  | cons x frames ih =>
    -- the block closed last is moved into its frame as any statement is
    have hpushed : ((inner.map (Statement.moved f)).map (x.moved f).push).getD (x.moved f)
        = ((inner.map x.push).getD x).moved f := by
      cases inner with
      | none => rfl
      | some s => exact x.push_moved f s
    have hchained : (x.moved f).chained = x.chained := rfl
    have hlabel : (x.moved f).opening.call.label = x.opening.call.label := Call.label_moved f _
    rw [closeFrames] at h
    rw [List.map_cons, closeFrames, hpushed, Frame.close_moved, hchained, hlabel]
    -- an `else if` closes the frame around it too
    split at h
    · rw [if_pos ‹_›]
      exact ih h
    · rw [if_neg ‹_›]
      split at h
      · cases h
        rw [if_pos ‹_›]
        exact congrArg Except.ok (push_moved ⟨root, frames⟩ _)
      · cases h

section

variable {span : Span} {tag : Tag}

/-- A tag whose tokens are read first. -/
theorem bind_located_moved {α : Type} {read : List Token → Except Misfit α} {move : α → α}
    (hread : ∀ a, read tag.tokens = .ok a → read (tag.moved f).tokens = .ok (move a))
    {next next' : α → Except ParseError Nesting}
    (hnext : ∀ a, next a = .ok n' → next' (move a) = .ok (n'.moved f base))
    (h : (located tag (read tag.tokens) >>= next) = .ok n') :
    (located (tag.moved f) (read (tag.moved f).tokens) >>= next') = .ok (n'.moved f base) := by
  obtain ⟨a, ha, h⟩ := exists_of_bind_ok h
  rw [Grammar.located_eq_ok_iff.2 (hread a (of_mapError_ok ha))]
  exact hnext a h

/-- A tag of which one thing is read, which moves. -/
theorem return_located_moved {α : Type} {read : List Token → Except Misfit α} {move : α → α}
    (hread : ∀ a, read tag.tokens = .ok a → read (tag.moved f).tokens = .ok (move a))
    {make make' : α → Nesting} (hmake : ∀ a, make' (move a) = (make a).moved f base)
    (h : (located tag (read tag.tokens) >>= fun a => pure (make a)) = .ok n') :
    (located (tag.moved f) (read (tag.moved f).tokens) >>= fun a => pure (make' a))
      = .ok (n'.moved f base) := by
  refine bind_located_moved hread (fun a h => ?_) h
  cases h
  exact congrArg Except.ok (hmake a)

variable (htag : Grammar.Goes f tag.tokens)

include htag

/-- An open tag that has moved opens the block, moved. -/
theorem openTag_moved {kind : OpeningKind} {chained : Bool}
    (h : n.openTag kind chained span tag = .ok n') :
    (n.moved f base).openTag kind chained (span.moved f) (tag.moved f)
      = .ok (n'.moved f base) := by
  rw [openTag] at h ⊢
  split at h
  · rw [if_pos ‹_›]
    exact return_located_moved (fun _ => Call.partialOpenerOfTokens_moved htag)
      (fun opener => n.enter_moved ⟨kind, opener.1, opener.2, tag.strip, span⟩ chained) h
  · rw [if_neg ‹_›]
    exact return_located_moved (fun _ => Call.openerOfTokens_moved htag)
      (fun opener => n.enter_moved ⟨kind, opener.1, opener.2, tag.strip, span⟩ chained) h

/-- So it is with every tag. -/
theorem takeTag_moved (h : n.takeTag span tag = .ok n') :
    (n.moved f base).takeTag (span.moved f) (tag.moved f) = .ok (n'.moved f base) := by
  rw [takeTag] at h ⊢
  rw [show (tag.moved f).kind = tag.kind from rfl]
  -- by what the tag is for; its call moves with its tokens
  cases hkind : tag.kind <;> rw [hkind] at h
  case mustache form =>
    exact return_located_moved (fun _ => Call.ofTokens_moved htag)
      (fun call => n.push_moved (.mustache call form.escaped tag.strip span)) h
  case partialCall =>
    exact return_located_moved (fun _ => Call.partialOfTokens_moved htag)
      (fun call => n.push_moved (.partialCall call "" tag.strip span)) h
  case decorator =>
    exact return_located_moved (fun _ => Call.ofTokens_moved htag)
      (fun call => n.push_moved (.decorator call tag.strip span)) h
  case elseMark => exact beginElse_moved h
  case elseChain =>
    obtain ⟨m, hm, h⟩ := exists_of_bind_ok h
    show ((n.moved f base).beginElse (span.moved f) tag.strip true >>= fun m =>
      m.openTag .block true _ _) = _
    rw [beginElse_moved hm]
    exact openTag_moved htag h
  case closeMark =>
    refine bind_located_moved (fun _ => Expression.nameOfTokens_moved htag) (fun name h => ?_) h
    rw [name.label_moved]
    exact closeFrames_moved h
  all_goals exact openTag_moved htag h

end

end Nesting

/-! ## Items -/

/-- `f` takes the end of the item along, and those of its tokens. -/
structure Item.Goes (f : Position → Position) (item : Item) : Prop where
  stop : (item.moved f).stop = f item.stop
  tokens : ∀ tag, item.shape = .tag tag → Grammar.Goes f tag.tokens

/-- with their spans. -/
theorem Item.Goes.span_moved {f : Position → Position} {item : Item} (h : item.Goes f) :
    (item.moved f).span = item.span.moved f := by
  rw [Item.span, h.stop]
  rfl

namespace Nesting

variable {f : Position → Position} {base : List Statement}

/-- **One step**: a moved item, on top of other statements. -/
theorem take_moved {n n' : Nesting} {item : Item} (hitem : item.Goes f)
    (h : n.take item = .ok n') : (n.moved f base).take (item.moved f) = .ok (n'.moved f base) := by
  rw [take] at h ⊢
  rw [hitem.span_moved]
  obtain ⟨shape, lexeme, start⟩ := item
  cases shape with
  | content value =>
    cases h
    exact congrArg Except.ok (n.push_moved (.content ⟨value, lexeme, false, false, _⟩))
  | comment text strip =>
    cases h
    exact congrArg Except.ok (n.push_moved (.comment text strip _))
  | tag tag => exact takeTag_moved (hitem.tokens tag rfl) h

/-- **A run**: a row of moved items, on top of other statements. -/
theorem foldlM_take_moved {items : List Item} (hitems : ∀ item ∈ items, item.Goes f)
    {n n' : Nesting} (h : items.foldlM take n = .ok n') :
    (items.map (Item.moved f)).foldlM take (n.moved f base) = .ok (n'.moved f base) := by
  induction items generalizing n with
  | nil =>
    cases h
    rfl
  | cons item items ih =>
    obtain ⟨hitem, hitems⟩ := List.forall_mem_cons.1 hitems
    rw [List.foldlM_cons] at h
    obtain ⟨m, hm, h⟩ := exists_of_bind_ok h
    rw [List.map_cons, List.foldlM_cons, take_moved hitem hm]
    exact ih hitems h

/-- A tree is finished at the top level only. -/
theorem of_finish_ok {n : Nesting} {stop : Position} {p : Program} (h : n.finish stop = .ok p) :
    n.frames = [] ∧ p = ⟨n.root.reverse, [], false, ⟨.origin, stop⟩⟩ := by
  obtain ⟨root, frames⟩ := n
  cases frames with
  | nil =>
    cases h
    exact ⟨rfl, rfl⟩
  | cons x frames => cases h

end Nesting

/-! ## Two texts -/

end Stache
