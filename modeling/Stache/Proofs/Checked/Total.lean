/-
  Reading by offsets is total, and it is reading.

  The parts are put together: a text is cut into items by offsets, the items are nested by a stack of
  frames, and the tree is trimmed in place.  Every text is read to the end this way, or up to an
  error in it, and with the result of `Template.parse` (`Template.parse_eq_checked`).

  Two things are left to say.  The trees that come out of the second part have the shape that the
  third one relies on: partial calls have no indentation yet, and chained else sections are linked.
  And what is reported of the positions is put into the tree by the second part, before the third
  one, which makes no difference to that.
-/
import Stache.Proofs.Checked.Frames
import Stache.Proofs.Checked.Trims
import Stache.Proofs.Whitespace.Moved

namespace Stache

/-! ## Trees before whitespace control -/

/-- What an item forms by itself is fit for trimming, -/
theorem Item.Forms.fits {item : Item} {s : Statement} (h : item.Forms s) : s.Fits := by
  cases h with
  | partialCall => rfl
  | content | comment | mustache | decorator => exact trivial

/-- and so is a block. -/
theorem Opening.Encloses.fits_wrap {o : Opening} {first : Program} {second : Option Program}
    (h : o.Encloses first second) (strip : BlockStrip) (stop : Position) :
    (o.wrap first second strip stop).Fits := by
  rw [Opening.wrap]
  cases o.kind with
  | block =>
    cases second with
    | none => exact trivial
    | some p => exact (h.second p rfl).2
  -- the second section of an inverse block is never chained
  | inverse =>
    cases second with
    | none => exact trivial
    | some p =>
      intro hchained
      rw [h.chained] at hchained
      cases hchained
  | partialBlock | decoratorBlock => exact trivial

/-- **Every tree has the shape that whitespace control relies on.** -/
theorem Program.fits_of_ofText {text : List Char} {p : Program} (h : Program.ofText text = .ok p) :
    RowForall Statement.Fits p.body := by
  rw [Program.ofText] at h
  cases hitems : Item.readAll .origin text with
  | error e =>
    rw [hitems] at h
    cases h
  | ok items =>
    rw [hitems] at h
    have hall : LinkedForall Statement.Fits items := by
      refine ⟨?_, ?_⟩
      · intro item _ s hform
        exact hform.fits
      · intro item _ chained o _ first second strip stop h
        exact h.fits_wrap strip stop
    exact forall_family_iff.mp (Program.ofItems_forall_linked hall h)

/-! ## The same with other positions -/

section

variable {f : Position → Position}

/-- What no map of positions does away with holds of a tree that has moved. -/
theorem RowForall.moved {P : Statement → Prop} {body : List Statement} (h : RowForall P body)
    (hP : ∀ s, P s → P (s.moved f)) : RowForall P (movedBody f body) := by
  have hbody (body : List Statement) (hbody : ∀ s ∈ body, P s) : ∀ s ∈ movedBody f body, P s := by
    rw [movedBody_eq_map, List.forall_mem_map]
    exact fun s hs => hP s (hbody s hs)
  refine ⟨hbody body h.statements, ?_⟩
  rw [bodyPrograms_moved, List.forall_mem_map]
  intro p hp
  rw [p.body_moved]
  exact hbody p.body (h.programs p hp)

/-- A moved section is linked as before, -/
theorem Program.Links.moved {p : Program} (h : p.Links) : (p.moved f).Links := by
  obtain ⟨body, params, chained, span⟩ := p
  intro hchained
  obtain ⟨call, main, inverse, strip, around, hbody, hmain⟩ := h hchained
  obtain rfl : body = _ := hbody
  obtain ⟨inner, params', chained', span'⟩ := main
  exact ⟨_, _, _, _, _, rfl, hmain⟩

/-- so that a moved statement is fit as before. -/
theorem Statement.Fits.moved {s : Statement} (h : s.Fits) : (s.moved f).Fits := by
  cases s with
  | partialCall => exact h
  | block call main inverse strip span =>
    cases main with
    | none => exact trivial
    | some main =>
      cases inverse with
      | none => exact trivial
      | some inverse => exact Program.Links.moved h
  | content | comment | mustache | decorator | partialBlock | decoratorBlock => exact trivial

end

/-! ## The whole of it -/

namespace Checked

/-- Parses a text by offsets, frames and indices. -/
def parse (text : String) (source : Option String) (standalone : Bool) : Checked Template := do
  let p ← tree text.toList
  return ⟨source, ← trimProgram standalone p.depth true p⟩

end Checked

/-- **Parsing is total.**  On every text, the run by offsets is not stuck: no offset, no index and no
    frame is asked for that is not there, no branch is taken that is meant to be unreachable, and no
    loop stands still.  It ends with the template or the error that parsing the text has, with what is
    reported of their positions. -/
theorem Template.parse_eq_checked (text : String) (source : Option String) (standalone : Bool) :
    (∀ s : Stuck, Checked.parse text source standalone ≠ .error (.stuck s))
      ∧ Checked.parse text source standalone
        = ((Template.parse text source standalone).map Template.reported).mapError
            (fun e => Halt.error e.reported) := by
  have heq : Checked.parse text source standalone
      = ((Template.parse text source standalone).map Template.reported).mapError
          (fun e => Halt.error e.reported) := by
    have htree := Checked.follows_tree text.toList
    rw [Checked.parse, Template.parse]
    cases hp : Program.ofText text.toList with
    | error e =>
      rw [hp] at htree
      have htree : Checked.tree text.toList = .error (.error e.reported) := htree
      rw [htree]
      rfl
    | ok p =>
      rw [hp] at htree
      obtain ⟨_, htree, rfl⟩ := htree
      -- the third part relies on the shape of the tree, which the second one gives
      have hfits : RowForall Statement.Fits (p.moved .reported).body := by
        rw [p.body_moved]
        exact (Program.fits_of_ofText hp).moved fun _ => Statement.Fits.moved
      rw [htree, Checked.ok_bind,
        Checked.trimProgram_eq true (Nat.le_refl _) hfits, Program.settle_moved]
      rfl
  -- a run that ends like the other one is not stuck
  refine ⟨?_, heq⟩
  intro s hstuck
  rw [heq] at hstuck
  cases hp : Template.parse text source standalone with
  | error e =>
    rw [hp] at hstuck
    cases hstuck
  | ok t =>
    rw [hp] at hstuck
    cases hstuck

end Stache
