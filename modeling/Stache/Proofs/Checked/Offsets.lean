/-
  A text in one piece, read by offsets.

  The readers of this project hand on what is left of a text.  A reader may as well leave the text
  in one piece and move an OFFSET in it, the number of bytes in front of a place when the text is
  written in UTF-8.  It can then go wrong in ways that a list of characters has no room for.  The
  modules in this directory read a template in that way, step by step, and make each of these ways
  an outcome of its own, `Stuck`:

    * an offset lies outside of the text, inside of a character, or behind the end of the piece that
      it begins;
    * an entry of a list is asked for that the list does not have;
    * a branch is taken that is meant to be unreachable;
    * a loop begins anew where it began before, and so would never end.

  A run of such a reader (`Checked`) ends with a result, with an error in the template, or stuck.
  THAT IT IS NEVER STUCK is proved by following it beside the reader of the project, with one
  relation between the two: at the offset `n`, which is the position `p`, the text `s` is left
  (`Stands`).  The last of the modules puts the parts together (`Template.parse_eq_checked`).
-/
import Mathlib.Algebra.Ring.Nat
import Mathlib.Data.List.Induction
import Stache.Template.Fault

namespace Stache

/-- The ways in which a reader by offsets can go wrong. -/
inductive Stuck where
  | offset
  | index
  | unreachable
  | standstill
deriving DecidableEq, Repr

/-- Why a checked run has no result. -/
inductive Halt where
  | error (e : ParseError)
  | stuck (s : Stuck)
deriving DecidableEq, Repr

/-- A run that ends with a result, or halts. -/
abbrev Checked (α : Type) := Except Halt α

namespace Checked

/-! ## Checks -/

/-- The run is stuck. -/
def stuck {α : Type} (s : Stuck) : Checked α := .error (.stuck s)

/-- What is not there makes the run stuck. -/
def orStuck {α : Type} (s : Stuck) : Option α → Checked α
  | none => stuck s
  | some a => .ok a

/-- The entry number `i` of a list. -/
def entry {α : Type} (l : List α) (i : Nat) : Checked α := orStuck .index l[i]?

/-- A difference that must not fall below zero. -/
def minus (s : Stuck) (a b : Nat) : Checked Nat := if b ≤ a then .ok (a - b) else stuck s

@[simp] theorem ok_bind {α β : Type} (a : α) (f : α → Checked β) :
    ((.ok a : Checked α) >>= f) = f a := rfl

theorem entry_eq {α : Type} {l : List α} {i : Nat} {a : α} (h : l[i]? = some a) :
    entry l i = .ok a := by
  rw [entry, h]
  rfl

theorem minus_add (s : Stuck) (a b : Nat) : minus s (a + b) b = .ok a := by
  rw [minus, if_pos (Nat.le_add_left b a), Nat.add_sub_cancel]

/-! ## Runs side by side -/

/-- The checked run `m` ends as the run `r` does: with results in the relation `R`, or with the
    error that `report` makes of that of `r`.  In particular it is not stuck. -/
def Follows {ε α β : Type} (report : ε → ParseError) (R : α → β → Prop) (m : Checked α) :
    Except ε β → Prop
  | .error e => m = .error (.error (report e))
  | .ok b => ∃ a, m = .ok a ∧ R a b

theorem Follows.ok {ε α β : Type} {report : ε → ParseError} {R : α → β → Prop} {a : α} {b : β}
    (h : R a b) : Follows report R (.ok a) (.ok b) := ⟨a, rfl, h⟩

/-- Runs that go on are followed part by part. -/
theorem Follows.bind {ε α β α' β' : Type} {report : ε → ParseError} {R : α → β → Prop}
    {R' : α' → β' → Prop} {m : Checked α} {r : Except ε β} {f : α → Checked α'}
    {g : β → Except ε β'} (h : Follows report R m r)
    (hnext : ∀ a b, R a b → Follows report R' (f a) (g b)) :
    Follows report R' (m >>= f) (r >>= g) := by
  cases r with
  | error e =>
    obtain rfl := h
    rfl
  | ok b =>
    obtain ⟨a, rfl, hab⟩ := h
    exact hnext a b hab

/-- The two results may be compared more loosely. -/
theorem Follows.imp {ε α β : Type} {report : ε → ParseError} {R R' : α → β → Prop} {m : Checked α}
    {r : Except ε β} (h : Follows report R m r) (hR : ∀ a b, R a b → R' a b) :
    Follows report R' m r := by
  cases r with
  | error e => exact h
  | ok b =>
    obtain ⟨a, rfl, hab⟩ := h
    exact .ok (hR a b hab)

/-! ## Pieces of text -/

/-- The number of bytes that write `s` in UTF-8. -/
def bytes (s : List Char) : Nat := (s.map Char.utf8Size).sum

@[simp] theorem bytes_nil : bytes [] = 0 := rfl

@[simp] theorem bytes_cons (c : Char) (s : List Char) :
    bytes (c :: s) = c.utf8Size + bytes s := by
  rw [bytes, List.map_cons, List.sum_cons]
  rfl

@[simp] theorem bytes_append (s t : List Char) : bytes (s ++ t) = bytes s + bytes t := by
  rw [bytes, List.map_append, List.sum_append]
  rfl

theorem bytes_pos {s : List Char} (h : s ≠ []) : 0 < bytes s := by
  obtain ⟨c, t, rfl⟩ := List.exists_cons_of_ne_nil h
  have := c.utf8Size_pos
  rw [bytes_cons]
  omega

/-- What stands in `s` before the offset `n` and what stands behind it, if a character begins
    there or the text ends. -/
def cutAt (s : List Char) (n : Nat) : Option (List Char × List Char) :=
  if n = 0 then some ([], s)
  else match s with
    | [] => none
    | c :: t =>
      if c.utf8Size ≤ n then (cutAt t (n - c.utf8Size)).map fun cut => (c :: cut.1, cut.2)
      else none

/-- A text can be cut between any two parts of it, -/
theorem cutAt_append (a b : List Char) : cutAt (a ++ b) (bytes a) = some (a, b) := by
  induction a with
  | nil =>
    rw [cutAt.eq_def, bytes_nil, if_pos rfl]
    rfl
  | cons c a ih =>
    have hpos := bytes_pos (List.cons_ne_nil c a)
    rw [cutAt.eq_def, if_neg (by omega)]
    dsimp only [List.cons_append]
    rw [bytes_cons, if_pos (Nat.le_add_right _ _), Nat.add_sub_cancel_left, ih]
    rfl

/-- The text from an offset on. -/
def rest (text : List Char) (n : Nat) : Checked (List Char) :=
  orStuck .offset ((cutAt text n).map Prod.snd)

/-- The text up to an offset. -/
def upTo (text : List Char) (n : Nat) : Checked (List Char) :=
  orStuck .offset ((cutAt text n).map Prod.fst)

/-- The text from one offset to another. -/
def slice (text : List Char) (start stop : Nat) : Checked (List Char) := do
  let s ← rest text start
  upTo s (← minus .offset stop start)

theorem upTo_append (a b : List Char) : upTo (a ++ b) (bytes a) = .ok a := by
  rw [upTo, cutAt_append]
  rfl

/-- The offset of the first place where `s` goes on with `mark`. -/
def find (mark s : List Char) : Option Nat :=
  if mark.isPrefixOf s then some 0
  else match s with
    | [] => none
    | c :: t => (find mark t).map (· + c.utf8Size)

/-- The offset `next` at which a loop goes on that began at the offset `here`. -/
def onward (text : List Char) (here next : Nat) :
    Checked { n : Nat // bytes text - n < bytes text - here } :=
  if h : here < next ∧ next ≤ bytes text then .ok ⟨next, by omega⟩ else stuck .standstill

theorem onward_eq {text : List Char} {here next : Nat} (h : here < next)
    (hnext : next ≤ bytes text) : onward text here next = .ok ⟨next, by omega⟩ :=
  dif_pos ⟨h, hnext⟩

/-! ## Places -/

/-- The offsets of the lines that begin in `s`, when `s` stands at the offset `n`. -/
def startsFrom (n : Nat) : List Char → List Nat
  | [] => []
  | c :: s =>
    if c = '\n' then (n + c.utf8Size) :: startsFrom (n + c.utf8Size) s
    else startsFrom (n + c.utf8Size) s

/-- The offsets of all lines of a text. -/
def lineStarts (text : List Char) : List Nat := 0 :: startsFrom 0 text

/-- Where a number is in an ascending table, or else where it would have to be put. -/
def search (table : List Nat) (n : Nat) : Nat ⊕ Nat :=
  let below := table.countP (· < n)
  if table[below]? = some n then .inl below else .inr below

/-- The number of the line with an offset in it, counted from 0. -/
def lineAt (table : List Nat) (n : Nat) : Checked Nat :=
  match search table n with
  | .inl line => .ok line
  | .inr next => minus .index next 1

/-- The place of an offset: its line is looked up, and the columns are counted from the start of the
    line. -/
def lineAndColumn (text : List Char) (n : Nat) : Checked Position := do
  let line ← lineAt (lineStarts text) n
  let start ← entry (lineStarts text) line
  let row ← slice text start n
  return ⟨line + 1, (row.map units16).sum⟩

/-- The position of an offset: of its line and its column, 32 bits are kept. -/
def locate (text : List Char) (n : Nat) : Checked Position := do
  return (← lineAndColumn text n).reported

/-- In an ascending table, what is below `n` stands in front. -/
theorem countP_lt_iff {table : List Nat} (h : table.Pairwise (· < ·)) {i k n : Nat}
    (hk : table[i]? = some k) : k < n ↔ i < table.countP (· < n) := by
  induction table generalizing i with
  | nil => cases hk
  | cons a table ih =>
    obtain ⟨hfirst, htable⟩ := List.pairwise_cons.1 h
    by_cases ha : a < n
    · rw [List.countP_cons_of_pos (by simpa using ha)]
      cases i with
      | zero =>
        obtain rfl : a = k := by simpa using hk
        simpa using ha
      | succ i =>
        rw [List.getElem?_cons_succ] at hk
        rw [ih htable hk]
        omega
    -- all entries are larger than the first one
    · have hnone : table.countP (· < n) = 0 := by
        rw [List.countP_eq_zero]
        intro b hb
        have := hfirst b hb
        rw [decide_eq_true_eq]
        omega
      rw [List.countP_cons_of_neg (by simpa using ha), hnone]
      have hle : a ≤ k := by
        rcases List.mem_cons.1 (List.mem_of_getElem? hk) with rfl | hmem
        · exact Nat.le_refl k
        · exact Nat.le_of_lt (hfirst k hmem)
      omega

/-- **What a search finds** in an ascending table: the entry, or the number of the smaller ones. -/
theorem search_spec {table : List Nat} (h : table.Pairwise (· < ·)) (n : Nat) :
    match search table n with
    | .inl i => table[i]? = some n
    | .inr i => i ≤ table.length ∧ n ∉ table ∧ ∀ j k, table[j]? = some k → (k < n ↔ j < i) := by
  rw [search]
  -- if `n` is in the table, it stands right behind the entries smaller than it
  by_cases hfound : table[table.countP (· < n)]? = some n
  · simp [hfound]
  · simp only [hfound, if_false]
    refine ⟨List.countP_le_length, fun hn => ?_, fun j k hk => countP_lt_iff h hk⟩
    -- `n` itself would stand right behind the smaller ones
    obtain ⟨i, hi⟩ := List.mem_iff_getElem?.1 hn
    have hle : table.countP (· < n) ≤ i := by
      have := countP_lt_iff (n := n) h hi
      omega
    obtain ⟨hlength, hget⟩ := List.getElem?_eq_some_iff.1 hi
    rcases Nat.eq_or_lt_of_le hle with heq | hlt
    · exact hfound (heq ▸ hi)
    · have hbefore := List.pairwise_iff_getElem.1 h _ i (by omega) hlength hlt
      have := (countP_lt_iff (n := n) h (List.getElem?_eq_getElem (by omega))).1 (hget ▸ hbefore)
      omega

/-- The last number of an ascending table that is not above `n` is found, be it `n` or not. -/
theorem lineAt_append {above behind : List Nat} {m n : Nat}
    (h : (above ++ m :: behind).Pairwise (· < ·)) (hm : m ≤ n) (hbehind : ∀ k ∈ behind, n < k) :
    lineAt (above ++ m :: behind) n = .ok above.length := by
  have hentry : (above ++ m :: behind)[above.length]? = some m := by simp
  have hspec := search_spec h n
  rw [lineAt]
  cases hsearch : search (above ++ m :: behind) n with
  | inl i =>
    -- Only `m` can be `n`: what is above is smaller, and what is behind is larger.
    replace hspec : (above ++ m :: behind)[i]? = some n := by simpa only [hsearch] using hspec
    obtain ⟨hi, hget⟩ := List.getElem?_eq_some_iff.1 hspec
    obtain ⟨hlength, hget'⟩ := List.getElem?_eq_some_iff.1 hentry
    rcases Nat.lt_trichotomy i above.length with hlt | rfl | hgt
    · have := List.pairwise_iff_getElem.1 h i _ hi hlength hlt
      omega
    · rfl
    · have hmem : n ∈ behind := by
        -- behind `m`, the entry is one of `behind`
        obtain ⟨j, rfl⟩ : ∃ j, i = above.length + 1 + j := ⟨i - (above.length + 1), by omega⟩
        rw [List.getElem?_append_right (by omega), Nat.add_assoc, Nat.add_sub_cancel_left,
          Nat.add_comm 1, List.getElem?_cons_succ] at hspec
        exact List.mem_of_getElem? hspec
      exact absurd (hbehind n hmem) (Nat.lt_irrefl n)
  | inr i =>
    rw [hsearch] at hspec
    dsimp only at hspec
    obtain ⟨hlength, hmissing, hbelow⟩ := hspec
    -- `m` is among the smaller ones, and what comes behind it is not.
    have hlt : m < n := Nat.lt_of_le_of_ne hm fun heq => hmissing (heq ▸ by simp)
    have hfirst := (hbelow _ _ hentry).1 hlt
    have hlast : i ≤ above.length + 1 := by
      cases behind with
      | nil => simpa using hlength
      | cons k behind =>
        have hnot := hbelow (above.length + 1) k (by simp)
        have := hbehind k (List.mem_cons_self ..)
        omega
    obtain rfl : i = above.length + 1 := by omega
    exact minus_add .index above.length 1

/-- The lines of two texts, the second counted from where the first ends. -/
theorem startsFrom_append (n : Nat) (s t : List Char) :
    startsFrom n (s ++ t) = startsFrom n s ++ startsFrom (n + bytes s) t := by
  induction s generalizing n with
  | nil => rfl
  | cons c s ih =>
    simp only [List.cons_append, startsFrom, bytes_cons, ih, Nat.add_assoc]
    split <;> rfl

/-- A line begins behind the line feed in front of it. -/
theorem lt_of_mem_startsFrom {n m : Nat} {s : List Char} (h : m ∈ startsFrom n s) : n < m := by
  induction s generalizing n with
  | nil => cases h
  | cons c s ih =>
    have hc := c.utf8Size_pos
    rw [startsFrom] at h
    split at h
    · rcases List.mem_cons.1 h with rfl | h
      · omega
      · have := ih h
        omega
    · have := ih h
      omega

/-- The later a line begins, the larger is its offset. -/
theorem startsFrom_pairwise (n : Nat) (s : List Char) : (startsFrom n s).Pairwise (· < ·) := by
  induction s generalizing n with
  | nil => exact .nil
  | cons c s ih =>
    rw [startsFrom]
    split
    · exact .cons (fun _ hm => lt_of_mem_startsFrom hm) (ih _)
    · exact ih _

/-- The lines begin one behind the other. -/
theorem lineStarts_pairwise (text : List Char) : (lineStarts text).Pairwise (· < ·) :=
  .cons (fun _ hm => lt_of_mem_startsFrom hm) (startsFrom_pairwise 0 text)

/-- The last line of a text: where it begins, and how the lines before it are counted. -/
theorem exists_lastLine (pre : List Char) :
    ∃ head tail above, pre = head ++ tail ∧ lineStarts pre = above ++ [bytes head]
      ∧ Position.origin.advance pre = ⟨above.length + 1, (tail.map units16).sum⟩ := by
  -- a text grows at its end, so that only the last line matters
  induction pre using List.reverseRecOn with
  | nil => exact ⟨[], [], [], rfl, rfl, rfl⟩
  | append_singleton pre c ih =>
    obtain ⟨head, tail, above, rfl, hstarts, hposition⟩ := ih
    have hstarts' : lineStarts (head ++ tail ++ [c])
        = above ++ [bytes head] ++ startsFrom (bytes (head ++ tail)) [c] := by
      rw [lineStarts, startsFrom_append, Nat.zero_add, ← List.cons_append]
      exact congrArg (· ++ _) hstarts
    have hposition' : Position.origin.advance (head ++ tail ++ [c])
        = Position.next ⟨above.length + 1, (tail.map units16).sum⟩ c := by
      rw [Position.advance_append, hposition]
      rfl
    -- a line feed begins a new line, and anything else makes the last one longer
    by_cases hc : c = '\n'
    · refine ⟨head ++ tail ++ [c], [], above ++ [bytes head], by simp, ?_, ?_⟩
      · rw [hstarts', startsFrom, if_pos hc]
        simp [startsFrom, Nat.add_assoc]
      · rw [hposition', Position.next, if_pos hc]
        simp
    · refine ⟨head, tail ++ [c], above, by simp, ?_, ?_⟩
      · rw [hstarts', startsFrom, if_neg hc]
        simp [startsFrom]
      · rw [hposition', Position.next, if_neg hc]
        simp

/-- At the offset `n`, which is the position `p`, what is left of the text is `s`. -/
def Stands (text : List Char) (n : Nat) (p : Position) (s : List Char) : Prop :=
  ∃ pre, text = pre ++ s ∧ n = bytes pre ∧ p = Position.origin.advance pre

namespace Stands

variable {text s a b : List Char} {n m : Nat} {p q : Position}

theorem start (text : List Char) : Stands text 0 .origin text := ⟨[], rfl, rfl, rfl⟩

theorem move (h : Stands text n p (a ++ b)) : Stands text (n + bytes a) (p.advance a) b := by
  obtain ⟨pre, rfl, rfl, rfl⟩ := h
  refine ⟨pre ++ a, ?_, ?_, ?_⟩
  · rw [List.append_assoc]
  · rw [bytes_append]
  · rw [Position.advance_append]

theorem size_eq (h : Stands text n p s) : bytes text = n + bytes s := by
  obtain ⟨pre, rfl, rfl, rfl⟩ := h
  exact bytes_append pre s

theorem rest (h : Stands text n p s) : rest text n = .ok s := by
  obtain ⟨pre, rfl, rfl, rfl⟩ := h
  rw [Checked.rest, cutAt_append]
  rfl

theorem slice (h : Stands text n p (a ++ b)) : slice text n (n + bytes a) = .ok a := by
  rw [Checked.slice, h.rest, Nat.add_comm, minus_add]
  exact upTo_append a b

/-- The end of the text. -/
theorem stop (text : List Char) :
    Stands text (bytes text) (Position.origin.advance text) [] :=
  ⟨text, (List.append_nil text).symm, rfl, rfl⟩

/-- **An offset has the place** that is reached by going through the text. -/
theorem lineAndColumn (h : Stands text n p s) : lineAndColumn text n = .ok p := by
  obtain ⟨pre, rfl, rfl, rfl⟩ := h
  obtain ⟨head, tail, above, rfl, hstarts, hposition⟩ := exists_lastLine pre
  have htable : lineStarts (head ++ tail ++ s)
      = above ++ bytes head :: startsFrom (bytes (head ++ tail)) s := by
    rw [lineStarts, startsFrom_append, Nat.zero_add, ← List.cons_append]
    refine (congrArg (· ++ _) hstarts).trans ?_
    rw [List.append_assoc]
    rfl
  have hle : bytes head ≤ bytes (head ++ tail) := by
    rw [bytes_append]
    exact Nat.le_add_right _ _
  -- all later lines begin behind the place
  have hline : lineAt (lineStarts (head ++ tail ++ s)) (bytes (head ++ tail)) = .ok above.length := by
    have hascends := lineStarts_pairwise (head ++ tail ++ s)
    rw [htable] at hascends ⊢
    exact lineAt_append hascends hle fun m hm => lt_of_mem_startsFrom hm
  have hentry : entry (lineStarts (head ++ tail ++ s)) above.length = .ok (bytes head) := by
    refine entry_eq ?_
    rw [htable]
    simp
  -- the column is counted in what stands in front of it on its line
  have hrow : Checked.slice (head ++ tail ++ s) (bytes head) (bytes (head ++ tail)) = .ok tail := by
    have hstands : Stands (head ++ tail ++ s) (bytes head) (Position.origin.advance head)
        (tail ++ s) := ⟨head, by rw [List.append_assoc], rfl, rfl⟩
    rw [bytes_append]
    exact hstands.slice
  rw [Checked.lineAndColumn, hline, ok_bind, hentry, ok_bind, hrow, hposition]
  rfl

/-- The position of an offset is what is reported of its place. -/
theorem locate (h : Stands text n p s) : locate text n = .ok p.reported := by
  rw [Checked.locate, h.lineAndColumn]
  rfl

end Stands

end Checked

end Stache
