/-
  Patterns that are relative to a base directory.

  Such a pattern is put behind the path of the directory, which is ESCAPED, and a slash.  Whatever
  the directory is called, its path then stands for itself and for nothing else:

    1. READING.  Each character of the path becomes one piece (`Piece.exactly`), and behind the slash
       a component begins, as at the start of a pattern.  So the pattern behind it is read into the
       same pieces as on its own, and what is wrong with it is the same mistake, further on
       (`readPieces_escape`);
    2. MATCHING.  The pieces of the path take this very path off the front of a text and leave one
       text behind, so nothing is left to choose in front of the slash (`Pattern.matches_exactly`).

  Together: a selection with one pattern of that kind has just the files in the directory whose
  names from there on match the pattern by itself (`Selection.of_relative`).
-/
import Stache.Glob.Selection
import Stache.Proofs.Bundle.Naming
import Stache.Proofs.Glob.Matching
import Stache.Proofs.Runs

namespace Stache.Glob

/-! ## Reading behind other text -/

/-- The same mistake, `n` characters further on. -/
def Fault.later (n : Nat) (fault : Fault) : Fault := { fault with position := n + fault.position }

/-- Positions are for messages only.  A mistake is never said to be in front of the text that is
    read: if no component begins there, then something stands before it. -/
theorem readPieces_later (n : Nat) {position : Nat} {fresh : Bool} {s : List Char}
    (h : fresh = true ∨ 0 < position) :
    readPieces (n + position) fresh s = (readPieces position fresh s).mapError (Fault.later n) := by
  fun_induction readPieces position fresh s with
  | case1 =>
    rw [readPieces]
    rfl
  | case2 =>
    rw [readPieces, Nat.add_assoc]
    rfl
  | case3 =>
    rw [readPieces]
    rfl
  | case4 position _ u ih =>
    rw [readPieces, if_pos rfl, mapError_map, ← ih (.inl rfl), Nat.add_assoc]
  | case5 =>
    rw [readPieces, if_pos rfl, Nat.add_assoc]
    · rfl
    all_goals assumption
  -- two stars within a component: the fault lies one character back
  | case6 position fresh t _ hfresh =>
    have hposition : 0 < position := h.resolve_left hfresh
    have hmiddle (n : Nat) : readPieces n fresh ('*' :: '*' :: t)
        = .error ⟨n - 1, .component⟩ := by
      unfold readPieces
      split
      all_goals grind
    rw [hmiddle, Nat.add_sub_assoc hposition]
    rfl
  | case7 position _ t _ _ ih | case8 position _ t ih =>
    rw [readPieces, mapError_map, ← ih (.inr (Nat.succ_pos _)), Nat.add_assoc]
    all_goals assumption
  | case9 position _ t hclass =>
    rw [readPieces]
    split
    · rfl
    · rename_i hclass'
      cases hclass.symm.trans hclass'
  | case10 position _ t piece u hclass _ ih =>
    rw [readPieces]
    split
    · rename_i hclass'
      cases hclass.symm.trans hclass'
    · rename_i hclass'
      cases hclass.symm.trans hclass'
      rw [mapError_map, ← ih (.inr (by omega))]
      simp only [Nat.add_assoc]
  | case11 position _ c t _ _ _ _ _ ih =>
    rw [readPieces, mapError_map, ← ih (.inr (Nat.succ_pos _)), Nat.add_assoc]
    all_goals assumption

/-! ## Reading an escaped text -/

/-- The piece that an escaped character is read into. -/
def Piece.exactly (c : Char) : Piece := if isSpecial c then .oneOf [⟨c, c⟩] else .char c

/-- An escaped character is a class with this one character in it, -/
theorem readPieces_special {c : Char} (hc : isSpecial c = true) (position : Nat) (fresh : Bool)
    (t : List Char) :
    readPieces position fresh ('[' :: c :: ']' :: t)
      = (readPieces (position + 3) false t).map (.oneOf [⟨c, c⟩] :: ·) := by
  have hbang : c ≠ '!' := by
    rintro rfl
    cases hc
  have hclass : readClass (c :: ']' :: t) = some (.oneOf [⟨c, c⟩], t) := by
    simp [readClass, hbang, ranges]
  rw [readPieces]
  split
  · rename_i hnone
    cases hclass.symm.trans hnone
  · rename_i hsome
    cases hclass.symm.trans hsome
    have hlength : position + 1 + ((c :: ']' :: t).length - t.length) = position + 3 := by
      simp only [List.length_cons]
      omega
    rw [hlength]

/-- and one that means nothing in a pattern is a piece by itself. -/
theorem readPieces_plain {c : Char} (hc : isSpecial c = false) (position : Nat) (fresh : Bool)
    (t : List Char) :
    readPieces position fresh (c :: t)
      = (readPieces (position + 1) (c = '/') t).map (.char c :: ·) := by
  have hne (d : Char) (hd : isSpecial d = true) : c ≠ d := by
    rintro rfl
    cases hc.symm.trans hd
  rw [readPieces]
  · exact fun _ h => (hne '*' rfl h).elim
  · exact fun _ h => (hne '*' rfl h).elim
  · exact hne '*' rfl
  · exact hne '?' rfl
  · exact hne '[' rfl

/-- **An escaped text and a slash** are read into one piece for each character, and a pattern behind
    them as it is read by itself. -/
theorem readPieces_escape (s t : List Char) (position : Nat) (fresh : Bool) :
    readPieces position fresh (escape s ++ '/' :: t)
      = ((readPieces 0 true t).mapError (Fault.later (position + (escape s).length + 1))).map
          (s.map Piece.exactly ++ .char '/' :: ·) := by
  induction s generalizing position fresh with
  | nil =>
    show readPieces position fresh ('/' :: t) = _
    rw [readPieces_plain rfl, ← readPieces_later _ (.inl rfl)]
    rfl
  | cons c s ih =>
    have hmap (e : Except Fault Pattern) (f g : Pattern → Pattern) :
        (e.map f).map g = e.map fun x => g (f x) := by
      cases e <;> rfl
    -- three characters stand for an escaped one
    by_cases hc : isSpecial c = true
    · have hescape : escape (c :: s) = '[' :: c :: ']' :: escape s := by simp [escape, hc]
      have hlength : position + 3 + (escape s).length + 1
          = position + (escape (c :: s)).length + 1 := by
        rw [hescape]
        simp only [List.length_cons]
        omega
      have hexactly : Piece.exactly c = .oneOf [⟨c, c⟩] := if_pos hc
      rw [← hlength, hescape, List.map_cons, hexactly, List.cons_append, List.cons_append,
        List.cons_append, readPieces_special hc, ih, hmap]
      rfl
    · have hescape : escape (c :: s) = c :: escape s := by simp [escape, hc]
      have hlength : position + 1 + (escape s).length + 1
          = position + (escape (c :: s)).length + 1 := by
        rw [hescape]
        simp only [List.length_cons]
        omega
      have hexactly : Piece.exactly c = .char c := if_neg hc
      rw [← hlength, hescape, List.map_cons, hexactly, List.cons_append,
        readPieces_plain (Bool.eq_false_iff.2 hc), ih, hmap]
      rfl

/-! ## Matching an escaped text -/

/-- A piece for one character takes this one and no other. -/
theorem Piece.takes_exactly (c d : Char) : (Piece.exactly c).takes d = true ↔ d = c := by
  unfold Piece.exactly
  split
  · rename_i hc
    -- A slash means nothing in a pattern, so the class may take any of the characters escaped.
    have hslash : c ≠ '/' := by
      rintro rfl
      cases hc
    simp only [Piece.takes, List.any_cons, List.any_nil, Bool.or_false, Range.has,
      Bool.and_eq_true, decide_eq_true_eq]
    constructor
    · rintro ⟨-, hle, hge⟩
      exact Char.le_antisymm hge hle
    · rintro rfl
      exact ⟨hslash, Char.le_refl _, Char.le_refl _⟩
  · exact decide_eq_true_iff

/-- The pieces of a text take it off the front. -/
theorem Pattern.matches_exactly (s : List Char) {u : List Char} {pattern : Pattern} :
    Pattern.matches (s.map Piece.exactly ++ pattern) u = true
      ↔ ∃ rest, u = s ++ rest ∧ pattern.matches rest = true := by
  induction s generalizing u with
  | nil => simp
  | cons c s ih =>
    have hsingle : Piece.exactly c ≠ .run ∧ Piece.exactly c ≠ .components := by
      unfold Piece.exactly
      split <;> exact ⟨nofun, nofun⟩
    rw [List.map_cons, List.cons_append, matches_single hsingle (Piece.takes_exactly c)]
    simp only [ih]
    constructor
    · rintro ⟨-, rfl, rest, rfl, hrest⟩
      exact ⟨rest, rfl, hrest⟩
    · rintro ⟨rest, rfl, hrest⟩
      exact ⟨s ++ rest, rfl, rest, rfl, hrest⟩

/-- The path of a directory and a slash, and then the pattern. -/
theorem Pattern.matches_below {dir u : List Char} {pattern : Pattern} :
    Pattern.matches (dir.map Piece.exactly ++ .char '/' :: pattern) u = true
      ↔ ∃ rest, u = dir ++ '/' :: rest ∧ pattern.matches rest = true := by
  have hslash : Pattern.matches ((dir ++ ['/']).map Piece.exactly ++ pattern) u = true ↔ _ :=
    Pattern.matches_exactly _
  simpa [Piece.exactly, isSpecial] using hslash

/-! ## Patterns behind a base directory -/

/-- The pattern that is put behind a directory, as it is read without one. -/
def Pattern.own (pattern : String) : Except Fault Pattern :=
  Pattern.parse (String.ofList (withoutHere (Text.slashed pattern).toList))

/-- A pattern is relative unless it begins with a slash or with two stars. -/
theorem isRooted_eq_false {s : List Char} (hslash : ¬ ['/'] <+: s) (hstars : ¬ ['*', '*'] <+: s) :
    isRooted s = false := by
  unfold isRooted
  split
  · rename_i t
    exact (hstars ⟨t, rfl⟩).elim
  · rename_i t
    exact (hslash ⟨t, rfl⟩).elim
  · rfl

/-- Behind a directory a pattern has its own pieces or its own mistake. -/
theorem Pattern.resolved_relative (base : String) {pattern : String} {dir : List Char}
    (hdir : Text.withoutSlashes (Text.slashed base).toList = dir)
    (hrooted : isRooted (Text.slashed pattern).toList = false) :
    Pattern.resolved base pattern
      = ((Pattern.own pattern).map (dir.map Piece.exactly ++ .char '/' :: ·)).mapError fun fault =>
          ⟨resolve base pattern, fault.later ((escape dir).length + 1)⟩ := by
  have hresolve : (resolve base pattern).toList
      = escape dir ++ '/' :: withoutHere (Text.slashed pattern).toList := by
    simp only [resolve, hrooted, Bool.false_eq_true, if_false, String.toList_ofList, hdir]
  have hparse : Pattern.parse (resolve base pattern)
      = ((Pattern.own pattern).mapError (Fault.later ((escape dir).length + 1))).map
          (dir.map Piece.exactly ++ .char '/' :: ·) := by
    unfold Pattern.own Pattern.parse
    rw [hresolve, readPieces_escape, String.toList_ofList, Nat.zero_add]
  unfold Pattern.resolved
  rw [hparse]
  cases Pattern.own pattern <;> rfl

/-- A name without a NUL is selected by one pattern if its path matches. -/
theorem Selection.has_single {pattern : Pattern} {id : String} (h : '\x00' ∉ id.toList) :
    Selection.has ⟨[pattern], []⟩ id = pattern.matches (Text.slashed id).toList := by
  have hnul : '\x00' ∉ (Text.slashed id).toList := by
    rw [Text.toList_slashed, List.mem_map]
    rintro ⟨c, hc, heq⟩
    split at heq
    · cases heq
    · exact h (heq ▸ hc)
  simp [Selection.has, hnul]

/-- **A base directory is taken literally.**  A pattern that is relative to it can be read if it can
    be read by itself, and then the files selected are those in the directory, whatever it is
    called, whose names from there on match the pattern by itself. -/
theorem Selection.of_relative (base : String) {pattern : String}
    (hslash : ¬ ['/'] <+: (Text.slashed pattern).toList)
    (hstars : ¬ ['*', '*'] <+: (Text.slashed pattern).toList) :
    ((∃ selection, Selection.of [pattern] [] base = .ok selection)
        ↔ ∃ glob, Pattern.own pattern = .ok glob)
      ∧ ∀ selection glob, Selection.of [pattern] [] base = .ok selection →
          Pattern.own pattern = .ok glob → ∀ id : String, '\x00' ∉ id.toList →
            (selection.has id = true
              ↔ ∃ rest, (Text.slashed id).toList
                    = Text.withoutSlashes (Text.slashed base).toList ++ '/' :: rest
                  ∧ glob.matches rest = true) := by
  have hresolved := Pattern.resolved_relative base rfl (isRooted_eq_false hslash hstars)
  -- a selection of one pattern is good exactly if the pattern is
  have hof : Selection.of [pattern] [] base
      = (Pattern.resolved base pattern).map fun glob => ⟨[glob], []⟩ := by
    simp only [Selection.of, List.mapM_cons, List.mapM_nil]
    cases Pattern.resolved base pattern <;> rfl
  rw [hof, hresolved]
  cases Pattern.own pattern with
  | error fault => exact ⟨⟨fun ⟨_, h⟩ => (nomatch h), fun ⟨_, h⟩ => (nomatch h)⟩, nofun⟩
  | ok glob =>
    refine ⟨⟨fun _ => ⟨glob, rfl⟩, fun _ => ⟨_, rfl⟩⟩, ?_⟩
    intro selection glob' hselection hglob id hid
    cases hselection
    cases hglob
    rw [Selection.has_single hid]
    exact Pattern.matches_below

/-- A directory with a class, wildcards and a backslash in its name. -/
theorem Selection.of_relative_at_class :
    ∃ selection, Selection.of ["./**/*.hbs"] [] "C:\\w?rk\\[!a]*/" = .ok selection
      ∧ selection.has "C:/w?rk\\[!a]*/views/a.hbs" = true
      ∧ selection.has "C:/work/b/views/a.hbs" = false := by
  have hrun := @Selection.of_relative "C:\\w?rk\\[!a]*/" "./**/*.hbs"
    (by decide +kernel) (by decide +kernel)
  have hglob : Pattern.own "./**/*.hbs" = .ok [.components, .run, .char '.', .char 'h', .char 'b',
      .char 's'] := by decide +kernel
  obtain ⟨selection, hselection⟩ := hrun.1.2 ⟨_, hglob⟩
  have hhas := hrun.2 selection _ hselection hglob
  refine ⟨selection, hselection, ?_, ?_⟩
  · exact (hhas _ (by decide +kernel)).2 ⟨"views/a.hbs".toList, by decide +kernel⟩
  · apply Bool.eq_false_iff.2
    intro hother
    obtain ⟨rest, hrest, -⟩ := (hhas _ (by decide +kernel)).1 hother
    have hdir : Text.withoutSlashes (Text.slashed "C:\\w?rk\\[!a]*/").toList
        <+: (Text.slashed "C:/work/b/views/a.hbs").toList := ⟨_, hrest.symm⟩
    revert hdir
    decide +kernel

end Stache.Glob
