/-
  The tree of a text, by a stack of frames.

  A nesting keeps its top level apart from the frames that are open, so that the top level cannot be
  closed.  A builder may as well keep all of it in one stack, with a frame at the bottom that has no
  open tag, and rely on what is never written down in the type of the stack:

    1. the bottom frame is there all the time, and is the only one without an open tag;
    2. a chained frame sits on a frame whose else section is open, and is part of that section.

  Here both are looked up before every item and in every turn of the loop that closes frames
  (`sound`).  A frame that is asked for must be there, and so must the open tag of a frame that is
  closed.  Frames remember offsets, and positions are computed when a statement is made.

  The induction goes over the items, and inside a close tag over the frames.  What it carries is
  that the stack is the nesting (`Holds`); soundness is a consequence of that.
-/
import Stache.Proofs.Checked.Calls
import Stache.Proofs.Nesting.Moved
import Stache.Template.Parse

namespace Stache

theorem Frame.push_chained (f : Frame) (s : Statement) : (f.push s).chained = f.chained := by
  rw [Frame.push]
  split <;> rfl

theorem Frame.push_opening (f : Frame) (s : Statement) : (f.push s).opening = f.opening := by
  rw [Frame.push]
  split <;> rfl

namespace Checked

/-! ## Stacks -/

/-- An open tag, and the offset at which it begins. -/
structure FrameTag where
  kind : OpeningKind
  call : Call
  blockParams : List String
  strip : Strip
  start : Nat

/-- A frame of the stack.  Only the bottom one has no open tag. -/
structure Level where
  opening : Option FrameTag
  /-- Earliest first, as is the body of the else section. -/
  body : List Statement
  bodyStart : Nat
  /-- The body of the else section, and the offset at which it begins. -/
  inverse : Option (List Statement × Nat)
  inverseTag : Nat
  inverseStrip : Strip
  inverseChained : Bool
  chained : Bool

/-- A frame without statements. -/
def Level.ofTag (opening : Option FrameTag) (bodyStart : Nat) (chained : Bool) : Level :=
  ⟨opening, [], bodyStart, none, 0, .none, false, chained⟩

/-- Adds a statement to the section in hand. -/
def Level.push (l : Level) (s : Statement) : Level :=
  match l.inverse with
  | some (body, start) => { l with inverse := some (body ++ [s], start) }
  | none => { l with body := l.body ++ [s] }

/-- The bottom frame is there and is the only one without an open tag, and every chained frame sits
    on a frame whose else section is open and chained. -/
def sound : List Level → Bool
  | [] => false
  | [bottom] => bottom.opening.isNone && bottom.inverse.isNone && !bottom.chained
  | l :: below :: more =>
    l.opening.isSome && (!l.chained || (below.inverse.isSome && below.inverseChained))
      && sound (below :: more)

/-- A fact that must hold. -/
def ensure (fact : Bool) : Checked Unit := if fact then .ok () else stuck .unreachable

/-- The topmost frame, and those below it. -/
def popped (stack : List Level) :
    Checked (Level × { below : List Level // below.length < stack.length }) :=
  match stack with
  | [] => stuck .unreachable
  | l :: below => .ok (l, ⟨below, Nat.lt_succ_self _⟩)

/-- Adds a statement to the topmost frame. -/
def pushed (s : Statement) (stack : List Level) :
    Checked { next : List Level // next.length = stack.length } :=
  match stack with
  | [] => stuck .unreachable
  | l :: below => .ok ⟨l.push s :: below, rfl⟩

section Builder

variable (text : List Char)

/-- The section after the open tag of a frame, when the close tag begins at an offset. -/
def firstProgram (l : Level) (blockParams : List String) (start : Nat) : Checked Program := do
  let stop := if l.inverse.isSome then l.inverseTag else start
  return ⟨l.body, blockParams, false, ← spanOf text l.bodyStart stop⟩

/-- The section after the else tag of a frame, if it has one. -/
def secondProgram (l : Level) (start : Nat) : Checked (Option Program) :=
  match l.inverse with
  | none => return none
  | some (body, inverseStart) => do
    return some ⟨body, [], l.inverseChained, ← spanOf text inverseStart start⟩

/-- The statement that a frame becomes with the close tag between two offsets. -/
def closed (l : Level) (start stop : Nat) (strip : Strip) : Checked Statement := do
  let o ← orStuck .unreachable l.opening
  let span ← spanOf text o.start stop
  let first ← firstProgram text l o.blockParams start
  let second ← secondProgram text l start
  return match o.kind with
    | .block => .block o.call (some first) second ⟨o.strip, l.inverseStrip, strip⟩ span
    | .inverse => .block o.call second (some first) ⟨o.strip, l.inverseStrip, strip⟩ span
    | .partialBlock => .partialBlock o.call first o.strip strip span
    | .decoratorBlock => .decoratorBlock o.call first o.strip strip span

/-- Closes frames up to the first that is not chained. -/
def closeLevels (name : String) (start stop : Nat) (strip : Strip) (stack : List Level) :
    Checked (List Level) := do
  ensure (sound stack)
  if stack.length < 2 then failAt text start (.unexpectedClose name)
  else
    let (l, below) ← popped stack
    let opened := (l.opening.map fun o => o.call.label).getD ""
    if !l.chained && opened ≠ name then failAt text start (.mismatchedClose opened name)
    else
      let statement ← closed text l start stop strip
      let next ← pushed statement below.1
      if l.chained then closeLevels name start stop strip next.1 else return next.1
termination_by stack.length
decreasing_by
  have := below.2
  have := next.2
  omega

/-- Whether a frame may have an else section. -/
def Level.isBlock (l : Level) : Bool :=
  match l.opening.map FrameTag.kind with
  | some .block | some .inverse => true
  | _ => false

/-- Begins the else section of a frame, with the else tag between two offsets. -/
def Level.divide (l : Level) (start stop : Nat) (strip : Strip) : Level :=
  { l with inverse := some ([], stop), inverseTag := start, inverseStrip := strip }

/-- Begins the else section of the topmost frame. -/
def beginInverse (start stop : Nat) (strip : Strip) (stack : List Level) :
    Checked (List Level) := do
  let (l, below) ← popped stack
  if !l.isBlock || l.inverse.isSome then failAt text start .unexpectedElse
  else return l.divide start stop strip :: below

/-- Marks the else section of the topmost frame as chained. -/
def chainInverse (stack : List Level) : Checked (List Level) := do
  let (l, below) ← popped stack
  return { l with inverseChained := true } :: below

/-- Adds a frame for an open tag between two offsets. -/
def openLevel (kind : OpeningKind) (chained : Bool) (start stop : Nat) (tag : LexedTag)
    (stack : List Level) : Checked (List Level) := do
  let (call, blockParams) ← wholeOpener text tag.tokens tag.bodyEnd kind
  return .ofTag (some ⟨kind, call, blockParams, tag.strip, start⟩) stop chained :: stack

/-- Takes a tag, by its kind. -/
def takeTag (start stop : Nat) (tag : LexedTag) (stack : List Level) : Checked (List Level) := do
  let span ← spanOf text start stop
  match tag.kind with
  | .mustache form =>
    let call ← wholeCall text tag.tokens tag.bodyEnd
    return (← pushed (.mustache call form.escaped tag.strip span) stack).1
  | .partialCall =>
    let call ← wholePartialCall text tag.tokens tag.bodyEnd
    return (← pushed (.partialCall call "" tag.strip span) stack).1
  | .decorator =>
    let call ← wholeCall text tag.tokens tag.bodyEnd
    return (← pushed (.decorator call tag.strip span) stack).1
  | .openBlock => openLevel text .block false start stop tag stack
  | .openInverse => openLevel text .inverse false start stop tag stack
  | .openPartialBlock => openLevel text .partialBlock false start stop tag stack
  | .openDecoratorBlock => openLevel text .decoratorBlock false start stop tag stack
  | .elseMark => beginInverse text start stop tag.strip stack
  | .elseChain =>
    let stack ← beginInverse text start stop tag.strip stack
    -- the else section belongs to the block that the tag opens
    let stack ← chainInverse stack
    openLevel text .block true start stop tag stack
  | .closeMark =>
    let name ← wholeName text tag.tokens tag.bodyEnd
    closeLevels text name.label start stop tag.strip stack

/-- Takes an item. The stack is looked at before each. -/
def takeItem (stack : List Level) (item : LexedItem) : Checked (List Level) := do
  ensure (sound stack)
  match item.shape with
  | .content value written =>
    let span ← spanOf text item.start item.stop
    return (← pushed (.content ⟨value, written, false, false, span⟩) stack).1
  | .comment comment strip =>
    let span ← spanOf text item.start item.stop
    return (← pushed (.comment comment strip span) stack).1
  | .tag tag => takeTag text item.start item.stop tag stack

/-- Builds the tree of a row of items. -/
def build (items : List LexedItem) : Checked Program := do
  let stack ← items.foldlM (takeItem text) [.ofTag none 0 false]
  ensure (sound stack)
  let (l, below) ← popped stack
  if 0 < below.1.length then
    let o ← orStuck .unreachable l.opening
    failAt text o.start (.unclosedBlock o.call.label)
  else return ⟨l.body, [], false, ← spanOf text 0 (bytes text)⟩

/-- Builds the tree of a text. -/
def tree : Checked Program := do build text (← scanItems text 0)

end Builder

/-! ## Stacks and nestings -/

/-- A body that ends with one more statement, which is the first of those given latest first. -/
theorem movedBody_concat (f : Position → Position) (s : Statement) (body : List Statement) :
    movedBody f (s :: body).reverse = movedBody f body.reverse ++ [s.moved f] := by
  simp [movedBody_eq_map]

variable {text : List Char} {l : Level} {f : Frame} {stack : List Level} {n : Nesting}

/-- The else section that a frame of the stack has is that of a frame of a nesting. -/
inductive Level.Divides (text : List Char) (l : Level) : Option ElseSection → Prop where
  | none (h : l.inverse = .none) (hstrip : l.inverseStrip = .none)
      (hchained : l.inverseChained = false) :
      Divides text l .none
  | some {e : ElseSection} {start : Nat}
      (h : l.inverse = .some (movedBody .reported e.body.reverse, start))
      (hstart : Marks text start e.span.stop) (htag : Marks text l.inverseTag e.span.start)
      (hstrip : l.inverseStrip = e.strip) (hchained : l.inverseChained = e.chained) :
      Divides text l (.some e)

/-- A frame of the stack is this frame of a nesting. -/
structure Level.Keeps (text : List Char) (l : Level) (f : Frame) : Prop where
  opening : ∃ start, l.opening = some ⟨f.opening.kind, f.opening.call.moved .reported,
    f.opening.blockParams, f.opening.strip, start⟩ ∧ Marks text start f.opening.span.start
  body : l.body = movedBody .reported f.body.reverse
  bodyStart : Marks text l.bodyStart f.opening.span.stop
  inverse : l.Divides text f.elseSection
  chained : l.chained = f.chained

/-- The innermost of the frames has a chained else section. -/
def Chains (fs : List Frame) : Prop :=
  ∃ g e, fs.head? = some g ∧ g.elseSection = some e ∧ e.chained = true

/-- A stack holds what a nesting does. -/
inductive Holds (text : List Char) : List Level → Nesting → Prop where
  | bottom (root : List Statement) :
      Holds text [{ Level.ofTag none 0 false with body := movedBody .reported root.reverse }]
        ⟨root, []⟩
  | frame {l : Level} {f : Frame} {stack : List Level} {root : List Statement} {fs : List Frame}
      (h : Holds text stack ⟨root, fs⟩) (hkeeps : l.Keeps text f)
      (hchained : f.chained = true → Chains fs) :
      Holds text (l :: stack) ⟨root, f :: fs⟩

namespace Holds

/-- **A stack that holds a nesting is sound.** -/
theorem sound (h : Holds text stack n) : sound stack = true := by
  induction h with
  | bottom root => rfl
  | frame h hkeeps hchained ih =>
    rename_i l f stack root fs
    obtain ⟨start, hopening, -⟩ := hkeeps.opening
    cases h with
    | bottom root =>
      have hlone : f.chained = false := by
        by_contra hf
        obtain ⟨g, e, hhead, -⟩ := hchained ((Bool.not_eq_false _).mp hf)
        cases hhead
      rw [Checked.sound, hopening, hkeeps.chained, hlone]
      exact ih
    | frame h hkeeps' hchained' =>
      rename_i l' g stack fs
      rw [Checked.sound, hopening, hkeeps.chained, ih]
      by_cases hf : f.chained = true
      -- a chained frame is not at the bottom, and what is below it has its else section open
      · obtain ⟨g', e, hhead, he, hec⟩ := hchained hf
        obtain rfl : g = g' := Option.some.inj hhead
        have hinverse := hkeeps'.inverse
        rw [he] at hinverse
        cases hinverse with
        | some hsome hstart htag hstrip hec' => rw [hsome, hec', hec, hf]; rfl
      · rw [(Bool.not_eq_true _).mp hf]
        rfl

/-- A stack is as high as the nesting is deep, with one frame at the bottom. -/
theorem length_eq (h : Holds text stack n) : stack.length = n.frames.length + 1 := by
  induction h with
  | bottom root => rfl
  | frame h hkeeps hchained ih =>
    rw [List.length_cons, ih]
    rfl

end Holds

/-! ## Statements -/

namespace Level

theorem push_of_none (h : l.inverse = none) (s : Statement) :
    l.push s = { l with body := l.body ++ [s] } := by
  obtain ⟨opening, body, bodyStart, inverse, inverseTag, inverseStrip, inverseChained, chained⟩ := l
  obtain rfl : inverse = none := h
  rfl

theorem push_of_some {body : List Statement} {start : Nat} (h : l.inverse = some (body, start))
    (s : Statement) : l.push s = { l with inverse := some (body ++ [s], start) } := by
  obtain ⟨opening, body, bodyStart, inverse, inverseTag, inverseStrip, inverseChained, chained⟩ := l
  obtain rfl : inverse = some _ := h
  rfl

/-- A level with a statement more keeps the frame with that statement. -/
theorem Keeps.push (h : l.Keeps text f) (s : Statement) :
    (l.push (s.moved .reported)).Keeps text (f.push s) := by
  obtain ⟨opening, body, elseSection, chained⟩ := f
  obtain ⟨hopening, hbody, hbodyStart, hinverse, hchained⟩ := h
  -- the section in hand is the same in both
  cases hinverse with
  | none hnone hstrip hchained' =>
    rw [push_of_none hnone]
    refine ⟨hopening, ?_, hbodyStart, .none hnone hstrip hchained', hchained⟩
    show l.body ++ [s.moved .reported] = movedBody .reported (s :: body).reverse
    rw [hbody, movedBody_concat]
  | some hsome hstart htag hstrip hchained' =>
    rename_i e start
    rw [push_of_some hsome]
    refine ⟨hopening, hbody, hbodyStart, .some ?_ hstart htag hstrip hchained', hchained⟩
    show some (movedBody .reported e.body.reverse ++ [s.moved .reported], start)
      = some (movedBody .reported (s :: e.body).reverse, start)
    rw [movedBody_concat]

/-- Whether an else tag is out of place in the frame. -/
theorem Keeps.rejects (h : l.Keeps text f) :
    (!l.isBlock || l.inverse.isSome)
      = !((decide (f.opening.kind = .block) || decide (f.opening.kind = .inverse))
          && f.elseSection.isNone) := by
  obtain ⟨o, hopening, -⟩ := h.opening
  have hblock : l.isBlock
      = (decide (f.opening.kind = .block) || decide (f.opening.kind = .inverse)) := by
    rw [Level.isBlock, hopening]
    cases f.opening.kind <;> rfl
  have hinverse : l.inverse.isSome = !f.elseSection.isNone := by
    obtain ⟨opening, body, elseSection, chained⟩ := f
    cases h.inverse with
    | none hnone => rw [hnone]; rfl
    | some hsome => rw [hsome]; rfl
  rw [hblock, hinverse, Bool.not_and]

/-- An else section is begun in the frame. -/
theorem Keeps.divide (h : l.Keeps text f) (hnone : f.elseSection = none) {start stop : Nat}
    {tag : Span} (strip : Strip) (hstart : Marks text start tag.start)
    (hstop : Marks text stop tag.stop) :
    (l.divide start stop strip).Keeps text
      { f with elseSection := some ⟨tag, strip, false, []⟩ } := by
  have hinverse := h.inverse
  rw [hnone] at hinverse
  cases hinverse with
  | none _ _ hchained =>
    exact ⟨h.opening, h.body, h.bodyStart, .some rfl hstop hstart rfl hchained, h.chained⟩

/-- The else section of the frame is marked as chained. -/
theorem Keeps.chain {e : ElseSection} (h : l.Keeps text { f with elseSection := some e }) :
    Keeps text { l with inverseChained := true }
      { f with elseSection := some { e with chained := true } } := by
  cases h.inverse with
  | some hsome hstart htag hstrip _ =>
    exact ⟨h.opening, h.body, h.bodyStart, .some hsome hstart htag hstrip rfl, h.chained⟩

/-- The first section ends at the else tag, or at the close tag if there is none. -/
theorem Keeps.firstProgram (h : l.Keeps text f) {start : Nat} {p : Position}
    (hstart : Marks text start p) :
    firstProgram text l f.opening.blockParams start
      = .ok ((f.firstSection p).moved .reported) := by
  obtain ⟨opening, body, elseSection, chained⟩ := f
  obtain ⟨-, hbody, hbodyStart, hinverse, -⟩ := h
  rw [Checked.firstProgram, hbody]
  cases hinverse with
  | none hnone =>
    rw [hnone]
    exact congrArg (· >>= _) (hbodyStart.spanOf hstart)
  | some hsome hstart' htag =>
    rw [hsome]
    exact congrArg (· >>= _) (hbodyStart.spanOf htag)

/-- The second section ends at the close tag. -/
theorem Keeps.secondProgram (h : l.Keeps text f) {start : Nat} {p : Position}
    (hstart : Marks text start p) :
    secondProgram text l start = .ok (movedSection .reported (f.secondSection p)) := by
  obtain ⟨opening, body, elseSection, chained⟩ := f
  obtain ⟨-, -, -, hinverse, -⟩ := h
  rw [Checked.secondProgram]
  cases hinverse with
  | none hnone =>
    rw [hnone]
    rfl
  | some hsome hstart' htag hstrip hchained =>
    rw [hsome, hchained]
    exact congrArg (· >>= _) (hstart'.spanOf hstart)

/-- The frame is closed to the same statement. -/
theorem Keeps.closed (h : l.Keeps text f) {start stop : Nat} {tag : Span}
    (hstart : Marks text start tag.start) (hstop : Marks text stop tag.stop) (strip : Strip) :
    closed text l start stop strip = .ok ((f.close tag strip).moved .reported) := by
  obtain ⟨o, hopening, ho⟩ := h.opening
  have hstrip : l.inverseStrip = (f.elseSection.map (·.strip)).getD Strip.none := by
    obtain ⟨opening, body, elseSection, chained⟩ := f
    cases h.inverse with
    | none hnone hstrip => exact hstrip
    | some hsome hstart htag hstrip => exact hstrip
  rw [Checked.closed, hopening, orStuck, ok_bind, ho.spanOf hstop, ok_bind, h.firstProgram hstart,
    ok_bind, h.secondProgram hstart, ok_bind, hstrip, Frame.close]
  cases f.opening.kind <;> rfl

end Level

/-! ## Steps -/

theorem Follows.located {α β : Type} {R : α → β → Prop} {m : Checked α} {r : Except Misfit β}
    {tag : Tag} (h : Follows (reportAt tag.bodyEnd) R m r) :
    Follows ParseError.reported R m (Nesting.located tag r) := by
  cases r with
  | error misfit => exact h
  | ok b => exact h

theorem ensure_true {fact : Bool} (h : fact = true) : ensure fact = .ok () := by
  rw [ensure, if_pos h]

namespace Holds

/-- **A statement is pushed** onto the same section in both. -/
theorem pushed (h : Holds text stack n) (s : Statement) :
    ∃ next, pushed (s.moved .reported) stack = .ok next ∧ Holds text next.1 (n.push s) := by
  cases h with
  | bottom root =>
    refine ⟨_, rfl, ?_⟩
    have hbottom : Holds text _ ⟨s :: root, []⟩ := .bottom (s :: root)
    rw [movedBody_concat] at hbottom
    exact hbottom
  | frame h hkeeps hchained =>
    refine ⟨_, rfl, .frame h (hkeeps.push s) ?_⟩
    rw [Frame.push_chained]
    exact hchained

/-- A statement that is pushed is pushed on both sides. -/
theorem follows_pushed (h : Holds text stack n) (s : Statement) :
    Follows ParseError.reported (Holds text)
      (do return (← Checked.pushed (s.moved .reported) stack).1)
      (.ok (n.push s) : Except ParseError Nesting) := by
  obtain ⟨next, hnext, hholds⟩ := h.pushed s
  rw [hnext, ok_bind]
  exact .ok hholds

/-- **Closing frames.**  One frame is closed at a time.  The statement that the last one became,
    `inner`, is in the stack already. -/
theorem closeLevels {name : String} {start stop : Nat} {tag : Span} {strip : Strip}
    {root : List Statement} {inner : Option Statement} {fs : List Frame}
    (hstart : Marks text start tag.start) (hstop : Marks text stop tag.stop)
    (h : Holds text stack ((inner.map (Nesting.push ⟨root, fs⟩)).getD ⟨root, fs⟩)) :
    Follows ParseError.reported (Holds text) (closeLevels text name start stop strip stack)
      (Nesting.closeFrames name tag strip root inner fs) := by
  -- the frames go from the top down, and what was closed last is pushed onto the next one
  induction fs generalizing stack inner with
  | nil =>
    have hlow : stack.length < 2 := by
      rw [h.length_eq]
      cases inner <;> exact Nat.lt_succ_self 1
    rw [Checked.closeLevels, ensure_true h.sound, ok_bind, if_pos hlow]
    exact hstart.failAt _
  | cons f fs ih =>
    -- The frame to be closed, with what was closed inside it.
    obtain ⟨g, hg⟩ : ∃ g, (inner.map f.push).getD f = g := ⟨_, rfl⟩
    have hopening : f.opening = g.opening := by
      rw [← hg]
      cases inner with
      | none => rfl
      | some s => exact (Frame.push_opening f s).symm
    have hchained : f.chained = g.chained := by
      rw [← hg]
      cases inner with
      | none => rfl
      | some s => exact (Frame.push_chained f s).symm
    have hframe : (inner.map (Nesting.push ⟨root, f :: fs⟩)).getD ⟨root, f :: fs⟩
        = ⟨root, g :: fs⟩ := by
      rw [← hg]
      cases inner <;> rfl
    rw [hframe] at h
    have hsound := h.sound
    have hhigh := h.length_eq
    rw [Nesting.closeFrames, hg, hopening, hchained, Checked.closeLevels, ensure_true hsound, ok_bind,
      if_neg (by rw [hhigh, List.length_cons]; omega)]
    cases h with
    | frame h hkeeps hsits =>
      rename_i l below
      obtain ⟨o, hopening, ho⟩ := hkeeps.opening
      obtain ⟨next, hnext, hholds⟩ := h.pushed (g.close tag strip)
      rw [popped, ok_bind]
      dsimp only
      rw [hkeeps.closed hstart hstop, ok_bind, hnext, ok_bind, hkeeps.chained, hopening,
        Option.map_some, Option.getD_some]
      dsimp only
      rw [Call.label_moved]
      -- a chained frame shares its close tag with the one below it
      by_cases hg' : g.chained = true
      · rw [if_pos hg', if_pos hg', hg']
        exact ih hholds
      · rw [if_neg hg', if_neg hg', (Bool.not_eq_true _).mp hg']
        by_cases hname : g.opening.call.label = name
        · rw [if_pos hname, if_neg (by simp [hname])]
          exact .ok hholds
        · rw [if_neg hname, if_pos (by simp [hname])]
          exact hstart.failAt _

/-- An else section is begun, and may be marked as chained. -/
theorem beginInverse (chained : Bool) {start stop : Nat} {tag : Span} (strip : Strip)
    (h : Holds text stack n) (hstart : Marks text start tag.start)
    (hstop : Marks text stop tag.stop) :
    Follows ParseError.reported
      (fun next n' => Holds text next n' ∧ (chained = true → Chains n'.frames))
      (do
        let next ← beginInverse text start stop strip stack
        if chained then chainInverse next else return next)
      (n.beginElse tag strip chained) := by
  cases h with
  | bottom root =>
    rw [Checked.beginInverse, popped, ok_bind]
    exact congrArg (· >>= _) (hstart.failAt _)
  | frame h hkeeps hsits =>
    rename_i l f below root fs
    rw [Checked.beginInverse, popped, ok_bind, Nesting.beginElse]
    dsimp only
    rw [hkeeps.rejects]
    -- an else tag is taken once, and only by a block
    by_cases hfree : ((decide (f.opening.kind = .block) || decide (f.opening.kind = .inverse))
        && f.elseSection.isNone) = true
    · have hnone : f.elseSection = none :=
        Option.isNone_iff_eq_none.mp (Bool.and_eq_true_iff.mp hfree).2
      have hdivide := hkeeps.divide hnone strip hstart hstop
      rw [hfree, if_neg (by decide), if_pos rfl]
      cases chained with
      | false => exact .ok ⟨.frame h hdivide hsits, (absurd · Bool.false_ne_true)⟩
      | true => exact .ok ⟨.frame h hdivide.chain hsits, fun _ => ⟨_, _, rfl, rfl, rfl⟩⟩
    · rw [(Bool.not_eq_true _).mp hfree, Bool.not_false, if_pos rfl, if_neg Bool.false_ne_true]
      exact congrArg (· >>= _) (hstart.failAt _)

/-- A frame is added, chained only if the else section below it is. -/
theorem openLevel (kind : OpeningKind) (chained : Bool) {start stop : Nat} {span : Span}
    {tokens : List Lexed} {tokens' : List Token} {bodyEnd : Nat} {bodyEnd' : Position}
    {role role' : TagRole} {strip : Strip}
    (htokens : SameTokens text tokens tokens' bodyEnd bodyEnd') (h : Holds text stack n)
    (hchained : chained = true → Chains n.frames)
    (hstart : Marks text start span.start) (hstop : Marks text stop span.stop) :
    Follows ParseError.reported (Holds text)
      (openLevel text kind chained start stop ⟨role, tokens, bodyEnd, strip⟩ stack)
      (n.openTag kind chained span ⟨role', tokens', bodyEnd', strip⟩) := by
  refine Follows.bind (htokens.wholeOpener kind).located ?_
  rintro _ ⟨call, blockParams⟩ rfl
  refine .ok (.frame h ⟨⟨start, rfl, hstart⟩, rfl, hstop, .none rfl rfl rfl, rfl⟩ hchained)

/-- **Tags are taken alike**, whatever they do. -/
theorem takeTag {start stop : Nat} {span : Span} {tag : LexedTag} {tag' : Tag}
    (hkind : tag.kind = tag'.kind) (hstrip : tag.strip = tag'.strip)
    (htokens : SameTokens text tag.tokens tag'.tokens tag.bodyEnd tag'.bodyEnd)
    (h : Holds text stack n)
    (hstart : Marks text start span.start) (hstop : Marks text stop span.stop) :
    Follows ParseError.reported (Holds text) (takeTag text start stop tag stack)
      (n.takeTag span tag') := by
  obtain ⟨kind, tokens, bodyEnd, strip⟩ := tag
  obtain ⟨kind', tokens', bodyEnd', strip'⟩ := tag'
  obtain rfl : kind = kind' := hkind
  obtain rfl : strip = strip' := hstrip
  rw [Checked.takeTag, hstart.spanOf hstop, ok_bind, Nesting.takeTag]
  dsimp only
  have hnone : false = true → Chains n.frames := (absurd · Bool.false_ne_true)
  -- one case for each kind of tag: it is pushed, opens a level, or closes some
  cases kind with
  | mustache form =>
    refine Follows.bind htokens.wholeCall.located ?_
    rintro _ call rfl
    exact h.follows_pushed (.mustache call form.escaped strip span)
  | partialCall =>
    refine Follows.bind htokens.wholePartialCall.located ?_
    rintro _ call rfl
    exact h.follows_pushed (.partialCall call "" strip span)
  | decorator =>
    refine Follows.bind htokens.wholeCall.located ?_
    rintro _ call rfl
    exact h.follows_pushed (.decorator call strip span)
  | openBlock => exact h.openLevel .block false htokens hnone hstart hstop
  | openInverse => exact h.openLevel .inverse false htokens hnone hstart hstop
  | openPartialBlock => exact h.openLevel .partialBlock false htokens hnone hstart hstop
  | openDecoratorBlock => exact h.openLevel .decoratorBlock false htokens hnone hstart hstop
  | elseMark =>
    have hbegin := h.beginInverse false strip hstart hstop
    simp only [Bool.false_eq_true, if_false, bind_pure] at hbegin
    exact hbegin.imp fun next n' hboth => hboth.1
  | elseChain =>
    have hbegin := h.beginInverse true strip hstart hstop
    simp only [if_true] at hbegin
    dsimp only
    -- an `else` with a call behind it is an `else` and then an opening
    rw [← bind_assoc]
    refine Follows.bind hbegin ?_
    rintro next n' ⟨hnext, hchains⟩
    exact hnext.openLevel .block true htokens (fun _ => hchains trivial) hstart hstop
  | closeMark =>
    refine Follows.bind htokens.wholeName.located ?_
    rintro _ name rfl
    rw [Expression.label_moved]
    have hlevel : Holds text stack
        (((none : Option Statement).map (Nesting.push n)).getD n) := h
    exact closeLevels hstart hstop hlevel

/-- **Taking an item.**  A stack that holds a nesting holds it again after the next item. -/
theorem takeItem {l : LexedItem} {item : Item} (h : Holds text stack n) (hitem : l.Writes text item) :
    Follows ParseError.reported (Holds text) (takeItem text stack l) (n.take item) := by
  obtain ⟨shape, start, stop⟩ := l
  obtain ⟨shape', lexeme, p⟩ := item
  obtain ⟨hshape, hwritten⟩ := hitem
  have hstart := hwritten.marks_start
  have hstop := hwritten.marks_stop
  rw [Checked.takeItem, ensure_true h.sound, ok_bind, Nesting.take]
  -- positions are computed here, when the statement is made
  cases hshape with
  | content value =>
    dsimp only
    rw [hstart.spanOf hstop, ok_bind]
    exact h.follows_pushed (.content ⟨value, lexeme, false, false, _⟩)
  | comment comment strip =>
    dsimp only
    rw [hstart.spanOf hstop, ok_bind]
    exact h.follows_pushed (.comment comment strip _)
  | tag kind strip htokens hend => exact h.takeTag rfl rfl ⟨htokens, hend⟩ hstart hstop

/-- A whole row of items. -/
theorem foldlM_takeItem {ls : List LexedItem} {items : List Item} (h : Holds text stack n)
    (hitems : List.Forall₂ (LexedItem.Writes text) ls items) :
    Follows ParseError.reported (Holds text) (ls.foldlM (Checked.takeItem text) stack)
      (items.foldlM Nesting.take n) := by
  induction hitems generalizing stack n with
  | nil => exact .ok h
  | cons hitem _ ih =>
    rw [List.foldlM_cons, List.foldlM_cons]
    exact Follows.bind (h.takeItem hitem) fun _ _ hnext => ih hnext

end Holds

/-- The tree of a row of items. -/
theorem follows_build {ls : List LexedItem} {items : List Item}
    (hitems : List.Forall₂ (LexedItem.Writes text) ls items) :
    Follows ParseError.reported (Reports Program.moved) (build text ls)
      (Program.ofItems items (Position.origin.advance text)) := by
  have hempty : Holds text [.ofTag none 0 false] .empty := .bottom []
  refine Follows.bind (hempty.foldlM_takeItem hitems) ?_
  intro stack n h
  rw [ensure_true h.sound, ok_bind]
  -- only the bottom frame may be left
  cases h with
  | bottom root =>
    have hstart : Marks text 0 .origin := ⟨_, .start text⟩
    have hstop : Marks text (bytes text) (Position.origin.advance text) := ⟨_, .stop text⟩
    rw [popped, ok_bind]
    dsimp only [List.length_nil]
    rw [if_neg (Nat.lt_irrefl 0), hstart.spanOf hstop]
    exact .ok rfl
  | frame h hkeeps hsits =>
    rename_i l f below root fs
    obtain ⟨o, hopening, ho⟩ := hkeeps.opening
    have hhigh := h.length_eq
    rw [popped, ok_bind]
    dsimp only
    rw [if_pos (by omega), hopening, orStuck, ok_bind]
    dsimp only
    rw [Call.label_moved]
    exact ho.failAt _

/-- **The tree of a text by offsets is its tree.** -/
theorem follows_tree (text : List Char) :
    Follows ParseError.reported (Reports Program.moved) (tree text) (Program.ofText text) :=
  Follows.bind (Stands.start text).scanItems fun _ _ hitems => follows_build hitems

end Checked

end Stache
