/-
  Runs that succeed.

  A run made of two runs succeeds only if both do (`exists_of_bind_ok`), and one whose faults are
  given another name only if it did before (`of_mapError_ok`); that is how a chain of steps is taken
  apart.

  On a fixed input, a reader returns a result or a fault, and most results are trees, which cannot
  be compared.  What can be decided of a result is decided by running the reader, and turned into a
  fact about it here (`exists_of_isOk`, `exists_ok`).
-/

namespace Stache

variable {ε ε' α α' β β' : Type}

/-- Both steps of a run that succeeds. -/
theorem exists_of_bind_ok {e : Except ε α} {f : α → Except ε β} {b : β} (h : (e >>= f) = .ok b) :
    ∃ a, e = .ok a ∧ f a = .ok b := by
  cases e with
  | error fault => cases h
  | ok a => exact ⟨a, rfl, h⟩

/-- A run whose faults are given another name. -/
theorem of_mapError_ok {e : Except ε α} {f : ε → ε'} {a : α} (h : e.mapError f = .ok a) :
    e = .ok a := by
  cases e with
  | error fault => cases h
  | ok b =>
    cases h
    rfl

/-- A run that succeeds, seen as an optional result. -/
theorem eq_ok_of_toOption {e : Except ε α} {a : α} (h : e.toOption = some a) : e = .ok a := by
  cases e with
  | error fault => cases h
  | ok b =>
    cases h
    rfl

/-- Faults of two steps may be given another name in each of them. -/
theorem mapError_bind (e : Except ε α) (f : α → Except ε β) (g : ε → ε') :
    (e >>= f).mapError g = e.mapError g >>= fun a => (f a).mapError g := by
  cases e <;> rfl

theorem mapError_map (e : Except ε α) (f : α → β) (g : ε → ε') :
    (e.map f).mapError g = (e.mapError g).map f := by
  cases e <;> rfl

/-- Two runs of two steps that give the same but for `g` in the first result, `k` in the second, and
    `u` in the faults. -/
theorem bind_eq_mapError_map {e : Except ε α} {e' : Except ε' α'} {f : α → Except ε β}
    {f' : α' → Except ε' β'} {u : ε → ε'} {g : α → α'} {k : β → β'}
    (h : e' = (e.mapError u).map g) (hf : ∀ a, e = .ok a → f' (g a) = ((f a).mapError u).map k) :
    (e' >>= f') = ((e >>= f).mapError u).map k := by
  cases e with
  | error fault =>
    rw [h]
    rfl
  | ok a =>
    rw [h]
    exact hf a rfl

/-- A run that succeeds. -/
theorem exists_of_isOk {e : Except ε α} (h : e.isOk = true) : ∃ a, e = .ok a := by
  cases e with
  | error fault => cases h
  | ok a => exact ⟨a, rfl⟩

/-- A run that succeeds, with a property of its result. -/
theorem exists_ok {e : Except ε α} {P : α → Prop} [DecidablePred P]
    (h : (match e with | .ok a => decide (P a) | .error _ => false) = true) :
    ∃ a, e = .ok a ∧ P a := by
  match e, h with
  | .ok a, h => exact ⟨a, rfl, of_decide_eq_true h⟩

/-- Two runs that succeed, with a property of their results. -/
theorem exists_ok₂ {e : Except ε α} {f : Except ε' β} {P : α → β → Prop}
    [∀ a b, Decidable (P a b)]
    (h : (match e, f with | .ok a, .ok b => decide (P a b) | _, _ => false) = true) :
    ∃ a b, e = .ok a ∧ f = .ok b ∧ P a b := by
  match e, f, h with
  | .ok a, .ok b, h => exact ⟨a, b, rfl, rfl, of_decide_eq_true h⟩

end Stache
