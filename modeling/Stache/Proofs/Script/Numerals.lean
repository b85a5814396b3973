/-
  Numbers in scripts.

  A number of a template is copied into the code as it is written, sign and all, so it is read there
  by the grammar of DECIMAL LITERALS.  This is the one of strict code, which all modules are:
  exponents and separators are allowed, and a zero in front of another digit is not.

  The two grammars share digits and fractions, and there they agree on the value.  So a numeral of a
  template is a literal of the same value EXACTLY when its digits do not begin with a zero that has
  another digit behind it (`decimalLiteral_iff`): such a text has neither exponents nor separators,
  and of what is left a literal takes all digits up to the point for its integer part.
-/
import Mathlib.Algebra.Order.Field.Rat
import Mathlib.Tactic.FieldSimp
import Mathlib.Tactic.Ring
import Stache.Decimal.Numeral
import Stache.Proofs.Items.Numerals
import Stache.Proofs.Script.Arguments

namespace Stache

/-! ## Decimals -/

namespace Decimal

/-- The number that a decimal is. -/
def value (d : Decimal) : ℚ := d.digits * 10 ^ d.exponent

/-- Digits in front count for what stands behind them. -/
theorem natOfDigits_append (s t : List Char) :
    natOfDigits (s ++ t) = natOfDigits s * 10 ^ t.length + natOfDigits t := by
  have hfrom (n : Nat) : t.foldl (fun n c => n * 10 + (c.toNat - '0'.toNat)) n
      = n * 10 ^ t.length + natOfDigits t := by
    unfold natOfDigits
    induction t generalizing n with
    | nil => simp
    | cons c t ih =>
      rw [List.foldl_cons, List.foldl_cons, ih, ih (0 * 10 + _), List.length_cons]
      ring
  unfold natOfDigits at hfrom ⊢
  rw [List.foldl_append, hfrom]

end Decimal

namespace Script

open Decimal

/-! ## The grammar -/

/-- Digits, and at most one separator between each two of them. -/
inductive DigitRow : List Char → Prop where
  | last {c : Char} (hc : c.isDigit = true) : DigitRow [c]
  | next {c : Char} {s : List Char} (hc : c.isDigit = true) (hs : DigitRow s) : DigitRow (c :: s)
  | separated {c : Char} {s : List Char} (hc : c.isDigit = true) (hs : DigitRow s) :
      DigitRow (c :: '_' :: s)

/-- The digits of a row. -/
def digitsOf (s : List Char) : List Char := s.filter fun c => c ≠ '_'

/-- An integer part: a zero, or digits that do not begin with one. -/
def IsWhole (s : List Char) : Prop := s = ['0'] ∨ DigitRow s ∧ s.head? ≠ some '0'

/-- An exponent part, which may be missing. -/
inductive Exponent : List Char → ℤ → Prop where
  | none : Exponent [] 0
  | bare {e : Char} {s : List Char} (he : e = 'e' ∨ e = 'E') (hs : DigitRow s) :
      Exponent (e :: s) (natOfDigits (digitsOf s))
  | plus {e : Char} {s : List Char} (he : e = 'e' ∨ e = 'E') (hs : DigitRow s) :
      Exponent (e :: '+' :: s) (natOfDigits (digitsOf s))
  | minus {e : Char} {s : List Char} (he : e = 'e' ∨ e = 'E') (hs : DigitRow s) :
      Exponent (e :: '-' :: s) (-natOfDigits (digitsOf s))

/-- The value of the digits behind a point. -/
def fractionValue (s : List Char) : ℚ :=
  natOfDigits (digitsOf s) / 10 ^ (digitsOf s).length

/-- The text is a decimal literal of strict code, with this value. -/
inductive DecimalLiteral : List Char → ℚ → Prop where
  | whole {s e : List Char} {k : ℤ} (hs : IsWhole s) (he : Exponent e k) :
      DecimalLiteral (s ++ e) (natOfDigits (digitsOf s) * 10 ^ k)
  | pointed {s t e : List Char} {k : ℤ} (hs : IsWhole s) (ht : t = [] ∨ DigitRow t)
      (he : Exponent e k) :
      DecimalLiteral (s ++ '.' :: (t ++ e)) ((natOfDigits (digitsOf s) + fractionValue t) * 10 ^ k)
  | fraction {t e : List Char} {k : ℤ} (ht : DigitRow t) (he : Exponent e k) :
      DecimalLiteral ('.' :: (t ++ e)) (fractionValue t * 10 ^ k)

/-! ## Numerals of templates -/

/-- A zero, and another digit right behind it. -/
def ZeroFirst (s : List Char) : Prop := ∃ c t, s = '0' :: c :: t ∧ c.isDigit = true

/-- No exponent and no separator is in a text of digits and points. -/
def Pointed (s : List Char) : Prop := ∀ c ∈ s, c.isDigit = true ∨ c = '.'

/-- A numeral has neither exponents nor separators, -/
theorem pointed_of_isUnsigned {s : List Char} (h : IsUnsigned s) : Pointed s := by
  intro c hc
  rcases h with ⟨-, hdigits⟩ | ⟨whole, fraction, rfl, ⟨-, hwhole⟩, ⟨-, hfraction⟩⟩
  · exact .inl (hdigits c hc)
  · rcases List.mem_append.1 hc with hc | hc
    · exact .inl (hwhole c hc)
    rcases List.mem_cons.1 hc with rfl | hc
    · exact .inr rfl
    · exact .inl (hfraction c hc)

/-- so no literal of that kind has an exponent, -/
theorem Exponent.eq_nil {e : List Char} {k : ℤ} (h : Exponent e k) (he : Pointed e) :
    e = [] ∧ k = 0 := by
  have hmark {c : Char} {s : List Char} (hc : c = 'e' ∨ c = 'E') (he : Pointed (c :: s)) :
      False := by
    rcases hc with rfl | rfl <;> rcases he _ List.mem_cons_self with h | h <;> cases h
  cases h with
  | none => exact ⟨rfl, rfl⟩
  | bare hc | plus hc | minus hc => exact (hmark hc he).elim

/-- a row of digits has one, -/
theorem DigitRow.ne_nil {s : List Char} (h : DigitRow s) : s ≠ [] := by
  cases h <;> exact List.cons_ne_nil _ _

/-- Without separators, a row is digits. -/
theorem DigitRow.digits {s : List Char} (h : DigitRow s) (hs : Pointed s) : Digits s := by
  refine ⟨h.ne_nil, ?_⟩
  induction h with
  | last hc => exact List.forall_mem_singleton.2 hc
  | next hc _ ih => exact List.forall_mem_cons.2 ⟨hc, ih (List.forall_mem_cons.1 hs).2⟩
  | separated =>
    rcases (List.forall_mem_cons.1 (List.forall_mem_cons.1 hs).2).1 with h | h <;> cases h

/-- digits are a row, -/
theorem digitRow_of_digits {s : List Char} (h : Digits s) : DigitRow s := by
  obtain ⟨hne, hall⟩ := h
  induction s with
  | nil => exact (hne rfl).elim
  | cons c s ih =>
    obtain ⟨hc, hs⟩ := List.forall_mem_cons.1 hall
    cases s with
    | nil => exact .last hc
    | cons d s => exact .next hc (ih (List.cons_ne_nil _ _) hs)

/-- from which nothing is left out, -/
theorem digitsOf_eq {s : List Char} (h : ∀ c ∈ s, c.isDigit = true) : digitsOf s = s := by
  refine List.filter_eq_self.2 fun c hc => ?_
  have hdigit := h c hc
  have hne : c ≠ '_' := by
    rintro rfl
    cases hdigit
  simpa using hne

/-- Digits are an integer part unless they begin with a zero that is not alone. -/
theorem isWhole_iff {s t : List Char} (hs : Digits s) (ht : t = [] ∨ ∃ u, t = '.' :: u) :
    IsWhole s ↔ ¬ ZeroFirst (s ++ t) := by
  constructor
  · rintro (rfl | ⟨hrow, hhead⟩) ⟨c, u, hzero, hc⟩
    · -- The zero is alone, so a point comes next.
      have htail : t = c :: u := (List.cons.inj hzero).2
      rcases ht with rfl | ⟨v, rfl⟩
      · cases htail
      · cases htail
        cases hc
    · cases s with
      | nil => exact hs.1 rfl
      | cons d s => exact hhead (congrArg some (List.cons.inj hzero).1)
  · intro hzero
    obtain ⟨hne, hall⟩ := hs
    -- a single digit may be a zero, and the first of several may not
    match s with
    | [] => exact (hne rfl).elim
    | [c] =>
      by_cases hc : c = '0'
      · exact .inl (by rw [hc])
      · exact .inr ⟨digitRow_of_digits ⟨hne, hall⟩, by simpa using hc⟩
    | c :: d :: s =>
      refine .inr ⟨digitRow_of_digits ⟨hne, hall⟩, ?_⟩
      rintro hc
      cases hc
      exact hzero ⟨d, s ++ t, rfl, hall d (by simp)⟩

theorem IsWhole.digits {s : List Char} (h : IsWhole s) (hs : Pointed s) : Digits s := by
  rcases h with rfl | ⟨hrow, -⟩
  · exact ⟨List.cons_ne_nil _ _, List.forall_mem_singleton.2 rfl⟩
  · exact hrow.digits hs

/-! ## Values -/

/-- The value of digits, -/
theorem value_ofUnsigned_digits {s : List Char} (hs : Digits s) :
    (ofUnsigned s).value = natOfDigits s := by
  have htake : s.takeWhile Char.isDigit = s := List.takeWhile_eq_self_iff.2 hs.2
  have hdrop : s.dropWhile Char.isDigit = [] := List.dropWhile_eq_nil_iff.2 hs.2
  simp [ofUnsigned, Decimal.value, htake, hdrop]

/-- of digits with a fraction behind them, -/
theorem value_ofUnsigned_point {s : List Char} (hs : Digits s) (t : List Char) :
    (ofUnsigned (s ++ '.' :: t)).value = natOfDigits s + natOfDigits t / 10 ^ t.length := by
  have htake : (s ++ '.' :: t).takeWhile Char.isDigit = s := by
    rw [List.takeWhile_append_of_pos hs.2]
    exact List.append_nil s
  have hdrop : (s ++ '.' :: t).dropWhile Char.isDigit = '.' :: t := by
    rw [List.dropWhile_append_of_pos hs.2]
    rfl
  have hpow : (10 : ℚ) ^ t.length ≠ 0 := pow_ne_zero _ (by norm_num)
  simp only [ofUnsigned, Decimal.value, htake, hdrop, List.drop_one, List.tail_cons,
    natOfDigits_append, zpow_neg, zpow_natCast]
  push_cast
  field_simp

/-- and of the fraction. -/
theorem fractionValue_eq {t : List Char} (ht : ∀ c ∈ t, c.isDigit = true) :
    fractionValue t = natOfDigits t / 10 ^ t.length := by
  rw [fractionValue, digitsOf_eq ht]

/-- **A numeral of a template** is a decimal literal exactly without a zero in front of another
    digit, and then of the same value. -/
theorem decimalLiteral_iff {u : List Char} (hu : IsUnsigned u) (q : ℚ) :
    DecimalLiteral u q ↔ ¬ ZeroFirst u ∧ q = (ofUnsigned u).value := by
  constructor
  · intro h
    have hpointed := pointed_of_isUnsigned hu
    cases h with
    | whole hs he =>
      obtain ⟨hleft, hright⟩ := List.forall_mem_append.1 hpointed
      obtain ⟨rfl, rfl⟩ := he.eq_nil hright
      have hdigits := hs.digits hleft
      refine ⟨(isWhole_iff hdigits (.inl rfl)).1 hs, ?_⟩
      rw [List.append_nil, value_ofUnsigned_digits hdigits, digitsOf_eq hdigits.2, zpow_zero,
        mul_one]
    | pointed hs ht he =>
      rename_i s t e k
      obtain ⟨hleft, hright⟩ := List.forall_mem_append.1 hpointed
      obtain ⟨hmiddle, hend⟩ := List.forall_mem_append.1 (List.forall_mem_cons.1 hright).2
      obtain ⟨rfl, rfl⟩ := he.eq_nil hend
      have hdigits := hs.digits hleft
      have hfraction : ∀ c ∈ t, c.isDigit = true := by
        rcases ht with rfl | ht
        · exact List.forall_mem_nil _
        · exact (ht.digits hmiddle).2
      refine ⟨(isWhole_iff hdigits (.inr ⟨_, rfl⟩)).1 hs, ?_⟩
      rw [List.append_nil, value_ofUnsigned_point hdigits, digitsOf_eq hdigits.2,
        fractionValue_eq hfraction, zpow_zero, mul_one]
    | fraction =>
      -- A numeral of a template has a digit in front of its point.
      exfalso
      rcases hu with ⟨-, hdigits⟩ | ⟨whole, fraction, heq, ⟨hne, hwhole⟩, -⟩
      · cases (List.forall_mem_cons.1 hdigits).1
      · cases whole with
        | nil => exact hne rfl
        | cons c whole =>
          obtain ⟨rfl, -⟩ := List.cons.inj heq
          cases (List.forall_mem_cons.1 hwhole).1
  · rintro ⟨hzero, rfl⟩
    rcases hu with hdigits | ⟨whole, fraction, rfl, hwhole, hfraction⟩
    · have hs : IsWhole u := (isWhole_iff (t := []) hdigits (.inl rfl)).2 (by simpa using hzero)
      have hliteral := DecimalLiteral.whole hs .none
      rwa [List.append_nil, digitsOf_eq hdigits.2, zpow_zero, mul_one,
        ← value_ofUnsigned_digits hdigits] at hliteral
    · have hs : IsWhole whole := (isWhole_iff hwhole (.inr ⟨_, rfl⟩)).2 hzero
      have hliteral := DecimalLiteral.pointed hs (.inr (digitRow_of_digits hfraction)) .none
      rwa [List.append_nil, digitsOf_eq hwhole.2, fractionValue_eq hfraction.2, zpow_zero, mul_one,
        ← value_ofUnsigned_point hwhole] at hliteral

end Script

/-! ## The numbers of a template -/

open Script in
/-- **Numbers are copied.**  A number in an argument of a template, be it a parameter, the value of
    a pair or the context of a partial, is the numeral that is written there, and the code for it is
    this text.  Behind its sign the text is a decimal literal exactly if it does not begin with a
    zero and another digit, and then of the value that the numeral has.  The code has no other
    numbers among its arguments. -/
theorem Compiler.standard_numbers {text : String} {fields fields' : Json.Fields} {t : Template}
    {compiled : Compiled} (hparse : Compiler.standard.parse text fields = .ok t)
    (hcompile : Compiler.standard.compile t fields' = .ok compiled) :
    (∀ p ∈ t.root.family, ∀ written span, .number written span ∈ p.arguments →
      span.Covers text.toList written.toList
        ∧ (∀ scope f, ∃ code, compileArgument scope (.number written span) = .ok code
          ∧ code.write f = written)
        ∧ ∃ sign unsigned, IsNumeral written.toList sign unsigned
          ∧ ∀ q, DecimalLiteral unsigned q
            ↔ ¬ ZeroFirst unsigned ∧ q = (Decimal.ofUnsigned unsigned).value)
      ∧ ∃ (options : CompilerOptions) (s : Specification),
        Specification.ofProgram options t.root = .ok s ∧ compiled.code = s.code
          ∧ ∀ fn ∈ s.functions, ∀ written, .number written ∈ fn.arguments →
            Within written compiled.code
              ∧ ∃ p ∈ t.root.family, ∃ span, .number written span ∈ p.arguments := by
  obtain ⟨source, standalone, hparsed⟩ := Compiler.parse_standard hparse
  obtain ⟨options, -, hcompiled⟩ := exists_of_bind_ok hcompile
  obtain ⟨s, hs, hcode, -⟩ := Template.compileUnder_ok hcompiled
  constructor
  · intro p hp written span he
    obtain ⟨hcovers, sign, unsigned, hnumeral⟩ := Template.parse_number hparsed hp he
    exact ⟨hcovers, fun _ _ => ⟨_, rfl, rfl⟩, sign, unsigned, hnumeral,
      decimalLiteral_iff hnumeral.unsigned⟩
  · refine ⟨options, s, hs, hcode, ?_⟩
    intro fn hfn written hwritten
    refine ⟨hcode ▸ Specification.within_code hfn hwritten, ?_⟩
    obtain ⟨p, hp, scope, -, hfrom⟩ := Specification.exists_argument hs hfn hwritten
    rcases hfrom with hcontext | ⟨e, he, hcompiledTo⟩
    · cases hcontext
    -- Of all expressions only a number is compiled to one.
    · cases e with
      | number written' span =>
        cases hcompiledTo
        exact ⟨p, hp, span, he⟩
      | subexpression call span =>
        rw [CompiledTo, compileArgument] at hcompiledTo
        obtain ⟨path, -, hcall⟩ := exists_of_bind_ok hcompiledTo
        obtain ⟨⟨callee, args, options⟩, -, hcall⟩ := exists_of_bind_ok hcall
        cases hcall
      | path | string | boolean | undefined | null => cases hcompiledTo

/-- The number that an expression is, as it is written, and where. -/
def Expression.number? : Expression → Option (String × Span)
  | .number written span => some (written, span)
  | _ => none

/-- A number among the arguments is one of them. -/
theorem Expression.mem_of_number? {arguments : List Expression} {written : String} {span : Span}
    (h : (written, span) ∈ arguments.filterMap Expression.number?) :
    .number written span ∈ arguments := by
  obtain ⟨e, he, hnumber⟩ := List.mem_filterMap.1 h
  cases e with
  | number => cases hnumber; exact he
  | path | string | boolean | undefined | null | subexpression => cases hnumber

/-- A parameter with a sign and a fraction, in a call in parentheses. -/
theorem Compiler.standard_numbers_at_fraction :
    ∃ t compiled, Compiler.standard.parse "\x7b\x7bf a=(g -10.50)\x7d\x7d" [] = .ok t
      ∧ Compiler.standard.compile t [] = .ok compiled
      ∧ .number "-10.50" ⟨⟨1, 9⟩, ⟨1, 15⟩⟩ ∈ t.root.arguments
      ∧ ∃ sign unsigned, IsNumeral "-10.50".toList sign unsigned
        ∧ ∀ q, Script.DecimalLiteral unsigned q
          ↔ ¬ Script.ZeroFirst unsigned ∧ q = (Decimal.ofUnsigned unsigned).value := by
  obtain ⟨t, hparse, hnumbers, hcompile⟩ := exists_ok
    (e := Compiler.standard.parse "\x7b\x7bf a=(g -10.50)\x7d\x7d" [])
    (P := fun t => t.root.arguments.filterMap Expression.number?
        = [("-10.50", ⟨⟨1, 9⟩, ⟨1, 15⟩⟩)] ∧ (Compiler.standard.compile t []).isOk = true)
    (by decide +kernel)
  obtain ⟨compiled, hcompile⟩ := exists_of_isOk hcompile
  have hmem : .number "-10.50" ⟨⟨1, 9⟩, ⟨1, 15⟩⟩ ∈ t.root.arguments :=
    Expression.mem_of_number? (by rw [hnumbers]; exact List.mem_singleton_self _)
  have hroot : t.root ∈ t.root.family := by
    rw [t.root.family_eq]
    exact List.mem_cons_self ..
  obtain ⟨-, -, hnumeral⟩ := (Compiler.standard_numbers hparse hcompile).1 t.root hroot _ _ hmem
  exact ⟨t, compiled, hparse, hcompile, hmem, hnumeral⟩

/-- Two zeros in front are copied as well, and that is no literal. -/
theorem Compiler.standard_not_literal_of_zeros :
    ∃ t s, Compiler.standard.parse "\x7b\x7bfoo 007\x7d\x7d" [] = .ok t
      ∧ Script.Specification.ofProgram .default t.root = .ok s
      ∧ (s.main.operands.map fun operand => operand.value.write s.features)
        = ["container.escapeExpression((lookupProperty(helpers,\"foo\") || (depth0 != null"
          ++ " ? lookupProperty(depth0,\"foo\") : depth0) || container.hooks.helperMissing)"
          ++ ".call(alias1,007,\x7b\"name\":\"foo\",\"hash\":\x7b\x7d,\"data\":data,"
          ++ "\"loc\":\x7b\"start\":\x7b\"line\":1,\"column\":0\x7d,"
          ++ "\"end\":\x7b\"line\":1,\"column\":11\x7d\x7d\x7d))"]
      ∧ ¬ ∃ q, Script.DecimalLiteral "007".toList q := by
  obtain ⟨s, hrun, hoperands⟩ := exists_ok
    (e := Compiler.standard.parse "\x7b\x7bfoo 007\x7d\x7d" [] >>= fun t =>
      Script.Specification.ofProgram .default t.root)
    (P := fun s => (s.main.operands.map fun operand => operand.value.write s.features)
      = ["container.escapeExpression((lookupProperty(helpers,\"foo\") || (depth0 != null"
        ++ " ? lookupProperty(depth0,\"foo\") : depth0) || container.hooks.helperMissing)"
        ++ ".call(alias1,007,\x7b\"name\":\"foo\",\"hash\":\x7b\x7d,\"data\":data,"
        ++ "\"loc\":\x7b\"start\":\x7b\"line\":1,\"column\":0\x7d,"
        ++ "\"end\":\x7b\"line\":1,\"column\":11\x7d\x7d\x7d))"])
    (by decide +kernel)
  obtain ⟨t, hparse, hs⟩ := exists_of_bind_ok hrun
  refine ⟨t, s, hparse, hs, hoperands, ?_⟩
  have hlist : "007".toList = ['0', '0', '7'] := by decide +kernel
  rw [hlist]
  rintro ⟨q, hq⟩
  have hunsigned : IsUnsigned ['0', '0', '7'] :=
    .inl ⟨List.cons_ne_nil _ _, List.all_eq_true.1 rfl⟩
  exact ((Script.decimalLiteral_iff hunsigned q).1 hq).1 ⟨'0', ['7'], rfl, rfl⟩

end Stache
