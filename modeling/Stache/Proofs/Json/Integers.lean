/-
  Integers, read back.

  An integer is written by its digits, after a minus sign if it is negative, and the digits have no
  zero in front (`head?_toDigits_ne`).  The reader takes digit after digit into a significand, which
  it keeps as long as it fits into 64 bits; so an integer of at most 64 bits is read back as it was
  written (`yields_integer`), if nothing follows that could belong to a number.
-/
import Mathlib.Algebra.Ring.Int.Defs
import Mathlib.Data.List.TakeDrop
import Stache.Proofs.Json.Rows

namespace Stache.Json

/-! ## Digits -/

/-- Only zero is written with a zero in front.  Induction on the digits, from the last one: the
    number without it is positive as well, or there is no other digit. -/
theorem head?_toDigits_ne {n : Nat} (h : 0 < n) : (Nat.toDigits 10 n).head? ≠ some '0' := by
  induction n using Nat.strongRecOn with
  | ind n ih =>
    by_cases hn : n < 10
    · rw [Nat.toDigits_of_lt_base hn]
      simp only [List.head?_cons, ne_eq, Option.some.injEq, Nat.digitChar_eq_zero]
      omega
    · have hmore := ih (n / 10) (by omega) (by omega)
      rw [Nat.toDigits_of_base_le (by decide) (by omega)]
      match hdigits : Nat.toDigits 10 (n / 10) with
      | [] => exact absurd hdigits Nat.toDigits_ne_nil
      | c :: digits =>
        rw [hdigits] at hmore
        exact hmore

/-- All digits fit in, if the number that they write does. -/
theorem takeWhole_eq {digits : List Char} {n : Nat}
    (h : Nat.ofDigitChars 10 digits n ≤ maxSignificand) :
    takeWhole n digits = (Nat.ofDigitChars 10 digits n, 0) := by
  induction digits generalizing n with
  | nil => rfl
  | cons c digits ih =>
    have hnext : Nat.ofDigitChars 10 (c :: digits) n
        = Nat.ofDigitChars 10 digits (n * 10 + (c.toNat - 48)) := by
      rw [Nat.ofDigitChars_cons, Nat.mul_comm]
      rfl
    rw [hnext] at h ⊢
    -- The digits still to come only make the significand larger.
    have hle : n * 10 + (c.toNat - 48)
        ≤ Nat.ofDigitChars 10 digits (n * 10 + (c.toNat - 48)) := by
      rw [Nat.ofDigitChars_eq_ofDigitChars_zero]
      have hpower : 0 < 10 ^ digits.length := Nat.pow_pos (by decide)
      have hmul := Nat.le_mul_of_pos_left (n * 10 + (c.toNat - 48)) hpower
      omega
    rw [takeWhole, if_pos (by omega)]
    exact ih h

/-! ## Numbers -/

/-- The characters that a number may go on with. -/
def isNumberChar (c : Char) : Bool :=
  c.isDigit || c = '-' || c = '+' || c = '.' || c = 'e' || c = 'E'

/-- A number that stands in front of this has ended. -/
def EndsNumber (s : List Char) : Prop := ∀ c t, s = c :: t → isNumberChar c = false

theorem Ends.endsNumber {s : List Char} (h : Ends s) : EndsNumber s := by
  rintro c t rfl
  rcases h with rfl | rfl | rfl <;> decide

theorem isDigit_of_mem_toDigits {n : Nat} {c : Char} (h : c ∈ Nat.toDigits 10 n) :
    c.isDigit = true := Nat.isDigit_of_mem_toDigits (by decide) (by decide) h

/-- The digits are cut off where the number ends. -/
theorem digitsOf_append {digits rest : List Char} (hdigits : ∀ c ∈ digits, c.isDigit = true)
    (hrest : EndsNumber rest) : digitsOf (digits ++ rest) = (digits, rest) := by
  have hstop : ∀ c ∈ rest.head?, ¬ c.isDigit = true := by
    intro c hc
    match rest, hc with
    | d :: t, hc =>
      obtain rfl : d = c := Option.some.inj hc
      have hnumber := hrest d t rfl
      simp only [isNumberChar, Bool.or_eq_false_iff] at hnumber
      simp [hnumber]
  have htake : (digits ++ rest).takeWhile Char.isDigit = digits := by
    rw [List.takeWhile_append_of_pos hdigits]
    match rest, hstop with
    | [], _ => simp
    | d :: t, hstop => simp [hstop d rfl]
  have hdrop : (digits ++ rest).dropWhile Char.isDigit = rest := by
    rw [List.dropWhile_append_of_pos hdigits]
    match rest, hstop with
    | [], _ => rfl
    | d :: t, hstop => simp [hstop d rfl]
  rw [digitsOf, List.span_eq_takeWhile_dropWhile, htake, hdrop]

/-! ## Numerals -/

/-- An integer that has no more than 64 bits, with or without a sign. -/
def Fits (k : Int) : Prop := -(2 : Int) ^ 63 ≤ k ∧ k < 2 ^ 64

theorem toList_toString_ofNat (n : Nat) : (toString (n : Int)).toList = Nat.toDigits 10 n := by
  show (Nat.repr n).toList = _
  exact Nat.toList_repr

theorem toList_toString_negSucc (n : Nat) :
    (toString (Int.negSucc n)).toList = '-' :: Nat.toDigits 10 (n + 1) := by
  show ("-" ++ Nat.repr (n + 1)).toList = _
  rw [String.toList_append, Nat.toList_repr]
  rfl

/-- The text of an integer begins with a digit or with a minus sign. -/
theorem exists_toString (k : Int) :
    ∃ c s, (toString k).toList = c :: s ∧ startsNumber c = true := by
  match k with
  | .ofNat n =>
    show ∃ c s, (toString (n : Int)).toList = c :: s ∧ _
    rw [toList_toString_ofNat]
    have hdigit := isDigit_of_mem_toDigits (n := n) (List.head_mem Nat.toDigits_ne_nil)
    exact ⟨_, _, (List.cons_head_tail Nat.toDigits_ne_nil).symm,
      by rw [startsNumber, hdigit, Bool.or_true]⟩
  | .negSucc n => exact ⟨'-', _, toList_toString_negSucc n, by decide⟩

variable {rest : List Char}

/-- The digits of a number are taken whole, and nothing after them. -/
theorem numeralOf_digits (n : Nat) (hrest : EndsNumber rest) :
    wholeOf .keep (Nat.toDigits 10 n ++ rest) = .ok (Nat.toDigits 10 n, rest) := by
  rw [wholeOf, digitsOf_append (fun _ h => isDigit_of_mem_toDigits h) hrest]
  dsimp only
  split
  · next hdigits => exact absurd hdigits Nat.toDigits_ne_nil
  · next c digits hdigits =>
    -- Such digits are those of no number: zero has only one, and the others do not begin so.
    rcases Nat.eq_zero_or_pos n with rfl | hpos
    · simp [Nat.toDigits_zero] at hdigits
    · exact absurd (by rw [hdigits]; rfl) (head?_toDigits_ne hpos)
  · rfl

/-- An integer has no fraction, -/
theorem fractionOf_none (hrest : EndsNumber rest) : fractionOf .keep rest = .ok ([], rest) := by
  match rest, hrest with
  | [], _ => rfl
  | c :: t, hrest =>
    have hdot : c ≠ '.' := by
      rintro rfl
      exact absurd (hrest '.' t rfl) (by decide)
    rw [fractionOf]
    rintro s h
    exact hdot (List.cons.inj h).1

/-- and no exponent. -/
theorem exponentOf_none (hrest : EndsNumber rest) : exponentOf .keep rest = .ok (none, rest) := by
  match rest, hrest with
  | [], _ => rfl
  | c :: t, hrest =>
    have hmark : ¬ (c = 'e' || c = 'E') = true := by
      simp only [Bool.or_eq_true, decide_eq_true_eq]
      rintro (rfl | rfl)
      · exact absurd (hrest 'e' t rfl) (by decide)
      · exact absurd (hrest 'E' t rfl) (by decide)
    unfold exponentOf
    dsimp only
    rw [if_neg hmark]

/-- **The integer is read as it is written**, with its sign and all of its digits. -/
theorem numeralOf_integer (k : Int) (hrest : EndsNumber rest) :
    numeralOf .keep ((toString k).toList ++ rest)
      = .ok (⟨k < 0, Nat.toDigits 10 k.natAbs, [], none⟩, rest) := by
  match k with
  | .ofNat n =>
    have hsign : decide (Int.ofNat n < 0) = false := by simp
    rw [hsign]
    show numeralOf .keep ((toString (n : Int)).toList ++ rest) = _
    rw [toList_toString_ofNat, numeralOf]
    · simp only [bind, Except.bind, numeralOf_digits n hrest, fractionOf_none hrest,
        exponentOf_none hrest]
      rfl
    · intro t h
      -- The text begins with a digit, and not with a sign.
      have hdigit := isDigit_of_mem_toDigits (n := n) (List.head_mem Nat.toDigits_ne_nil)
      have hhead := congrArg List.head? h
      rw [List.head?_append_of_ne_nil _ Nat.toDigits_ne_nil,
        List.head?_eq_some_head Nat.toDigits_ne_nil] at hhead
      rw [Option.some.inj hhead] at hdigit
      exact absurd hdigit (by decide)
  | .negSucc n =>
    have hsign : decide (Int.negSucc n < 0) = true := by simp
    rw [hsign, toList_toString_negSucc, List.cons_append, numeralOf]
    simp only [bind, Except.bind, numeralOf_digits (n + 1) hrest, fractionOf_none hrest,
      exponentOf_none hrest]
    rfl

/-! ## Values -/

/-- Digits that fit into 64 bits mean the integer they were written for. -/
theorem value_integer {k : Int} (h : Fits k) :
    (⟨k < 0, Nat.toDigits 10 k.natAbs, [], none⟩ : Numeral).value = .ok (.integer k) := by
  obtain ⟨hlow, hhigh⟩ := h
  have hdigits : Nat.ofDigitChars 10 (Nat.toDigits 10 k.natAbs) 0 = k.natAbs :=
    Nat.ofDigitChars_ten_toDigits
  have hmax : maxSignificand = 2 ^ 64 - 1 := rfl
  have hwhole : takeWhole 0 (Nat.toDigits 10 k.natAbs) = (k.natAbs, 0) := by
    have hle : Nat.ofDigitChars 10 (Nat.toDigits 10 k.natAbs) 0 ≤ maxSignificand := by
      rw [hdigits, hmax]
      omega
    rw [takeWhole_eq hle, hdigits]
  rw [Numeral.value, hwhole]
  -- a negative number may be one larger in size
  by_cases hsign : k < 0
  · have hpower : Nat.pow 2 63 = 2 ^ 63 := rfl
    have hfits : 0 < k.natAbs ∧ k.natAbs ≤ 2 ^ 63 := by omega
    simp only [hsign, decide_true, List.isEmpty_nil, Option.isNone_none, Bool.and_self,
      Bool.not_true, Bool.and_false, Bool.false_eq_true, if_false, hpower, hfits.1, hfits.2, if_true]
    congr
    omega
  · simp only [hsign, decide_false, List.isEmpty_nil, Option.isNone_none, Bool.and_self,
      decide_true, Bool.not_false, if_true]
    congr
    omega

/-- **An integer is read back**, where no number could go on. -/
theorem yields_integer {k : Int} (h : Fits k) (hrest : EndsNumber rest) :
    Yields (readNumber .keep) ((toString k).toList ++ rest) (.integer k) rest := by
  obtain ⟨c, s, htext, -⟩ := exists_toString k
  have hshort : rest.length < ((toString k).toList ++ rest).length := by
    rw [htext, List.length_append, List.length_cons]
    omega
  refine ⟨hshort, ?_⟩
  rw [readNumber, numeralOf_integer k hrest]
  simp only [bind, Except.bind, if_true, value_integer h, dif_pos hshort]
  rfl

end Stache.Json
