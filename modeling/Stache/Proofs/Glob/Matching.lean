/-
  What a pattern matches, one piece after the other.

  The matcher takes the pieces from the left and keeps everything that may be left of the text, each
  remainder once.  What it answers is what the pieces say one by one: a pattern matches a text if its
  first piece can leave a text behind that the other pieces match (`Pattern.matches_cons`).  The set
  of remainders is not seen any more after this.

  A piece that takes a single character leaves one text behind at most (`Pattern.matches_single`).
-/
import Stache.Glob.Pattern

namespace Stache.Glob

/-- Every remainder is kept once, and none is lost. -/
theorem mem_distinct {tail : List Char} {tails : List (List Char)} :
    tail ∈ distinct tails ↔ tail ∈ tails := by
  rw [distinct, List.mem_map]
  constructor
  · rintro ⟨⟨n, t⟩, ht, rfl⟩
    rw [List.mem_eraseDups, List.mem_map] at ht
    obtain ⟨u, hu, heq⟩ := ht
    cases heq
    exact hu
  · intro h
    refine ⟨(tail.length, tail), ?_, rfl⟩
    rw [List.mem_eraseDups]
    exact List.mem_map_of_mem h

namespace Pattern

variable {pattern : Pattern} {piece : Piece} {s rest : List Char}

/-- Each remainder comes from one of the texts that the matcher begins with. -/
theorem mem_foldl_rests {tails : List (List Char)} :
    rest ∈ pattern.foldl (fun tails piece => distinct (tails.flatMap piece.rests)) tails
      ↔ ∃ s ∈ tails, rest ∈ pattern.rests s := by
  induction pattern generalizing tails with
  | nil => simp [Pattern.rests]
  | cons piece pattern ih =>
    -- Both sides go on with what the first piece leaves behind.
    have hrests (s : List Char) : rest ∈ Pattern.rests (piece :: pattern) s
        ↔ ∃ t ∈ piece.rests s, rest ∈ Pattern.rests pattern t := by
      rw [Pattern.rests, List.foldl_cons, ih]
      simp only [mem_distinct, List.flatMap_singleton]
    rw [List.foldl_cons, ih]
    simp only [mem_distinct, List.mem_flatMap, hrests]
    constructor
    · rintro ⟨t, ⟨s, hs, ht⟩, hrest⟩
      exact ⟨s, hs, t, ht, hrest⟩
    · rintro ⟨s, hs, t, ht, hrest⟩
      exact ⟨t, ⟨s, hs, ht⟩, hrest⟩

theorem matches_iff : pattern.matches s = true ↔ [] ∈ pattern.rests s :=
  List.contains_iff_mem

theorem matches_nil : Pattern.matches [] s = true ↔ s = [] := by
  rw [matches_iff, Pattern.rests, List.foldl_nil, List.mem_singleton, eq_comm]

/-- **A pattern matches** if its first piece leaves a text behind that the rest of it matches. -/
theorem matches_cons : Pattern.matches (piece :: pattern) s = true
    ↔ ∃ t ∈ piece.rests s, pattern.matches t = true := by
  rw [matches_iff, Pattern.rests, List.foldl_cons, mem_foldl_rests]
  simp only [mem_distinct, List.flatMap_singleton, matches_iff]

/-- The same for a piece that takes just the character `c`. -/
theorem matches_single {c : Char} (hsingle : piece ≠ .run ∧ piece ≠ .components)
    (htakes : ∀ d, piece.takes d = true ↔ d = c) :
    Pattern.matches (piece :: pattern) s = true ↔ ∃ t, s = c :: t ∧ pattern.matches t = true := by
  have hone : piece.rests [] = [] ∧ ∀ d u, piece.rests (d :: u)
      = if piece.takes d then [u] else [] := by
    cases piece with
    | run => exact (hsingle.1 rfl).elim
    | components => exact (hsingle.2 rfl).elim
    | char | any | oneOf | noneOf => exact ⟨rfl, fun _ _ => rfl⟩
  have hrests (t : List Char) : t ∈ piece.rests s ↔ s = c :: t := by
    cases s with
    | nil => simp [hone.1]
    | cons d u =>
      rw [hone.2, List.cons.injEq]
      by_cases hd : d = c
      · rw [if_pos ((htakes d).2 hd), List.mem_singleton]
        exact ⟨fun h => ⟨hd, h.symm⟩, fun h => h.2.symm⟩
      · rw [if_neg fun h => hd ((htakes d).1 h)]
        exact iff_of_false List.not_mem_nil fun h => hd h.1
  simp only [matches_cons, hrests]

end Pattern

end Stache.Glob
