/-
  A body, by the indices of its statements.

  Whitespace control may also be done in place: a loop goes through the indices of a body, and at
  each of them it trims what stands there, in front of it and behind it.  The body must then have a
  statement at the index, also after it has been changed, and one in front of it where content has
  been trimmed.

  The theorems compare this with a pass that takes the statements apart: those before the index,
  latest first, the statement itself, and those behind it, with the trims that they have undergone
  already (`carry`).  Each is stated for the index that is the number of statements before.  As no
  trim changes that number, the indices stay right.
-/
import Stache.Proofs.Checked.Offsets
import Stache.Proofs.Whitespace.Skeleton

namespace Stache

/-- The statements `body` after some trims of its start. -/
def carry (extents : List Extent) (body : List Statement) : List Statement :=
  extents.foldl (fun body e => trimFirst e body) body

theorem carry_append (extents more : List Extent) (rest : List Statement) :
    carry (extents ++ more) rest = carry more (carry extents rest) := List.foldl_append

@[simp] theorem carry_empty (extents : List Extent) : carry extents [] = [] := by
  induction extents with
  | nil => rfl
  | cons e extents ih => exact ih

/-- Content undergoes all of them, -/
theorem carry_content (extents : List Extent) (c : Content) (rest : List Statement) :
    carry extents (.content c :: rest) = .content (extents.foldl Content.trimStart c) :: rest := by
  induction extents generalizing c with
  | nil => rfl
  | cons e extents ih => exact ih (c.trimStart e)

/-- and anything else none. -/
theorem carry_of_not_content (extents : List Extent) {s : Statement} (hs : ¬ s.IsContent)
    (rest : List Statement) : carry extents (s :: rest) = s :: rest := by
  induction extents with
  | nil => rfl
  | cons e extents ih =>
    rw [carry, List.foldl_cons, trimFirst_of_not_content e hs]
    exact ih

/-- Whether a trim takes anything from the content that ends the statements `before`. -/
def takesLatest (extent : Extent) : List Statement → Bool
  | .content c :: _ => !(extent = .line && c.endTrimmed) && (c.trimEnd extent).endTrimmed
  | _ => false

/-- A statement that has not been told of an indentation. -/
def Statement.Unindented (s : Statement) : Prop := s.withIndent "" = s

namespace Checked

/-! ## Reads and writes -/

/-- Trims the start of the content at an index, if content stands there. -/
def trimAt (extent : Extent) (i : Nat) (body : List Statement) : List Statement :=
  match body[i]? with
  | some (.content c) => body.set i (.content (c.trimStart extent))
  | _ => body

/-- Trims the end of the content in front of an index, if content stands there, and tells whether
    that took anything. -/
def trimBefore (extent : Extent) (i : Nat) (body : List Statement) : List Statement × Bool :=
  match i with
  | 0 => (body, false)
  | i + 1 =>
    match body[i]? with
    | some (.content c) =>
      if extent = .line && c.endTrimmed then (body, false)
      else (body.set i (.content (c.trimEnd extent)), (c.trimEnd extent).endTrimmed)
    | _ => (body, false)

/-- Trims the end of a body. -/
def trimEndOf (extent : Extent) (body : List Statement) : List Statement :=
  (trimBefore extent body.length body).1

/-- Whether what stands in front of an index ends a line. -/
def endsLineBefore (atTop : Bool) (i : Nat) (body : List Statement) : Bool :=
  match i with
  | 0 => atTop
  | j + 1 =>
    match body[j]? with
    | none => atTop
    | some (.content c) => Text.endsLine (atTop && !decide (2 ≤ i)) c.written.toList
    | some _ => false

/-- Whether what stands at an index begins with the end of a line. -/
def startsLineAt (atTop : Bool) (i : Nat) (body : List Statement) : Bool :=
  match body[i]? with
  | none => atTop
  | some (.content c) => Text.startsLine (atTop && !decide (i + 1 < body.length)) c.written.toList
  | some _ => false

/-- The indentation that a statement ends with, as it was written, if there is any. -/
def indentOf : Statement → Option String
  | .content c =>
    if (Text.indentEnd c.written.toList).isEmpty then none
    else some (String.ofList (Text.indentEnd c.written.toList))
  | _ => none

/-! ## One turn of the loop -/

/-- Tells the statement at an index of the indentation in front of it. -/
def indentAt (i : Nat) (body : List Statement) : Checked (List Statement) := do
  let before ← entry body (← minus .index i 1)
  let s ← entry body i
  match indentOf before with
  | none => return body
  | some indent => return body.set i (s.withIndent indent)

/-- Grants what a tag asks for that has a line to itself. -/
def grantOwnLine (i : Nat) (body : List Statement) : Checked (List Statement) :=
  let trimmed := trimBefore .line i (trimAt .line (i + 1) body)
  if trimmed.2 then indentAt i trimmed.1 else .ok trimmed.1

/-- Grants what a block asks for whose open tag ends its line. -/
def grantOpenLine (i : Nat) (body : List Statement) : Checked (List Statement) := do
  let s ← entry body i
  return (trimBefore .line i (body.set i (s.onLeading (trimAt .line 0)))).1

/-- Grants what a block asks for whose close tag begins its line. -/
def grantCloseLine (i : Nat) (body : List Statement) : Checked (List Statement) := do
  let body := trimAt .line (i + 1) body
  let s ← entry body i
  return body.set i (s.onTrailing (trimEndOf .line))

/-- Grants what may be asked for. -/
def granted {α : Type} (wanted : Bool) (grant : α → Checked α) (a : α) : Checked α :=
  if wanted then grant a else .ok a

/-- Grants what the statement at an index asks for. -/
def grantAt (standalone atTop : Bool) (demand : Demand) (i : Nat) (body : List Statement) :
    Checked (List Statement) := do
  let ended := endsLineBefore atTop i body
  let started := startsLineAt atTop (i + 1) body
  let body := if demand.strip.closing then trimAt .all (i + 1) body else body
  let body := if demand.strip.opening then (trimBefore .all i body).1 else body
  if standalone then
    let body ← granted (demand.ownLine && ended && started) (grantOwnLine i) body
    let body ← granted (demand.openLine && ended) (grantOpenLine i) body
    granted (demand.closeLine && started) (grantCloseLine i) body
  else return body

/-- One turn of the loop: the statement at an index is settled, and gets what it asks for.  Content
    asks for nothing. -/
def turn (standalone atTop : Bool) (settle : Statement → Checked (Statement × Option Demand))
    (body : List Statement) (i : Nat) : Checked (List Statement) := do
  let s ← entry body i
  let (s', demand) ← settle s
  match demand with
  | none => return body.set i s'
  | some demand => grantAt standalone atTop demand i (body.set i s')

/-! ## The same reads and writes -/

section Body

variable {before rest : List Statement} {s : Statement} {i : Nat}

theorem getElem?_append_length (before rest : List Statement) :
    (before.reverse ++ rest)[before.length]? = rest.head? := by
  rw [← List.length_reverse, List.getElem?_append_right (Nat.le_refl _), Nat.sub_self,
    List.head?_eq_getElem?]

theorem set_append_length (before rest : List Statement) (s t : Statement) :
    (before.reverse ++ s :: rest).set before.length t = before.reverse ++ t :: rest := by
  rw [← List.length_reverse, List.set_append_right _ _ (Nat.le_refl _), Nat.sub_self]
  rfl

theorem length_trimLatest (e : Extent) (before : List Statement) :
    (trimLatest e before).length = before.length :=
  length_eq_of_skeleton_eq (skeleton_trimLatest e before)

theorem entry_append (hi : i = before.length) : entry (before.reverse ++ s :: rest) i = .ok s := by
  subst hi
  exact entry_eq (getElem?_append_length before (s :: rest))

/-- Trimming at the index trims the first of those that are left, -/
theorem trimAt_append (e : Extent) (hi : i = before.length) :
    trimAt e i (before.reverse ++ rest) = before.reverse ++ trimFirst e rest := by
  subst hi
  rw [trimAt, getElem?_append_length]
  match rest with
  | [] => rfl
  | s :: rest =>
    cases s with
    | content c => exact set_append_length before rest _ _
    | _ => rfl

/-- and trimming behind it the next one. -/
theorem trimAt_behind (e : Extent) (hi : i = before.length) :
    trimAt e (i + 1) (before.reverse ++ s :: rest) = before.reverse ++ s :: trimFirst e rest := by
  have hcons : before.reverse ++ s :: rest = (s :: before).reverse ++ rest := by simp
  rw [hcons, trimAt_append e (congrArg (· + 1) hi)]
  simp

/-- Trimming in front of the index trims the latest of those before, and tells whether it did. -/
theorem trimBefore_append (e : Extent) (hi : i = before.length) :
    trimBefore e i (before.reverse ++ rest)
      = ((trimLatest e before).reverse ++ rest, takesLatest e before) := by
  subst hi
  cases before with
  | nil => rfl
  | cons s before =>
    have hcons : (s :: before).reverse ++ rest = before.reverse ++ s :: rest := by simp
    rw [List.length_cons, trimBefore, hcons, getElem?_append_length, List.head?_cons]
    cases s with
    | content c =>
      dsimp only
      -- content whose end has been trimmed to its line is not trimmed so again
      by_cases hkept : (decide (e = .line) && c.endTrimmed) = true
      · have hstay : c.trimEnd e = c := by
          simp only [Content.trimEnd]
          exact if_pos hkept
        rw [if_pos hkept, trimLatest, takesLatest, hstay, hkept, hcons]
        rfl
      · rw [if_neg hkept, trimLatest, takesLatest, (Bool.not_eq_true _).mp hkept,
          set_append_length, Bool.not_false, Bool.true_and]
        simp
    | _ => rw [trimLatest, takesLatest, hcons] <;> intro _ _ h <;> cases h

/-- What stands in front of the index ends a line when the row before does. -/
theorem endsLineBefore_append (atTop : Bool) (hi : i = before.length) :
    endsLineBefore atTop i (before.reverse ++ rest) = rowEndsLine atTop before := by
  subst hi
  cases before with
  | nil => rfl
  | cons s before =>
    have hcons : (s :: before).reverse ++ rest = before.reverse ++ s :: rest := by simp
    rw [List.length_cons, endsLineBefore, hcons, getElem?_append_length, List.head?_cons]
    cases s with
    | content c =>
      -- at the top, only the first statement has the start of the file in front of it
      have hmore : (!decide (2 ≤ before.length + 1)) = before.isEmpty := by
        cases before with
        | nil => rfl
        | cons t before =>
          show (!decide (2 ≤ before.length + 1 + 1)) = false
          rw [Bool.not_eq_false', decide_eq_true_eq]
          omega
      show Text.endsLine (atTop && !decide (2 ≤ before.length + 1)) _ = _
      rw [hmore]
      rfl
    | _ => rfl

/-- What stands at the index begins with the end of a line when the row behind does. -/
theorem startsLineAt_append (atTop : Bool) (hi : i = before.length) :
    startsLineAt atTop i (before.reverse ++ rest) = rowStartsLine atTop rest := by
  subst hi
  rw [startsLineAt, getElem?_append_length]
  match rest with
  | [] => rfl
  | s :: rest =>
    cases s with
    | content c =>
      -- and only the last one has the end of the file behind it
      have hmore :
          (!decide (before.length + 1 < (before.reverse ++ Statement.content c :: rest).length))
            = rest.isEmpty := by
        rw [List.length_append, List.length_reverse, List.length_cons]
        cases rest with
        | nil =>
          show (!decide (before.length + 1 < before.length + (0 + 1))) = true
          rw [Bool.not_eq_true', decide_eq_false_iff_not]
          omega
        | cons t rest =>
          show (!decide (before.length + 1 < before.length + (rest.length + 1 + 1))) = false
          rw [Bool.not_eq_false', decide_eq_true_eq]
          omega
      show Text.startsLine (atTop && !decide _) _ = _
      rw [hmore]
      rfl
    | _ => rfl

theorem startsLineAt_behind (atTop : Bool) (hi : i = before.length) :
    startsLineAt atTop (i + 1) (before.reverse ++ s :: rest) = rowStartsLine atTop rest := by
  have hcons : before.reverse ++ s :: rest = (s :: before).reverse ++ rest := by simp
  rw [hcons]
  exact startsLineAt_append atTop (congrArg (· + 1) hi)

/-- The start of a body. -/
theorem trimAt_zero (e : Extent) : trimAt e 0 = trimFirst e := by
  funext body
  have hbody : trimAt e 0 (([] : List Statement).reverse ++ body) = _ := trimAt_append e rfl
  exact hbody

/-- At the first index, that is the beginning of the body, -/
theorem startsLineAt_zero (atTop : Bool) (body : List Statement) :
    startsLineAt atTop 0 body = rowStartsLine atTop body := by
  have hbody : startsLineAt atTop 0 (([] : List Statement).reverse ++ body) = _ :=
    startsLineAt_append atTop rfl
  exact hbody

/-- The end of a body. -/
theorem trimEndOf_eq (e : Extent) : trimEndOf e = trimLast e := by
  funext body
  have hbody : trimBefore e body.length (body.reverse.reverse ++ []) = _ :=
    trimBefore_append e (List.length_reverse).symm
  rw [List.append_nil, List.append_nil, List.reverse_reverse] at hbody
  rw [trimEndOf, hbody, trimLast]

theorem endsLineBefore_length (atTop : Bool) (body : List Statement) :
    endsLineBefore atTop body.length body = rowEndsLine atTop body.reverse := by
  have hbody : endsLineBefore atTop body.length (body.reverse.reverse ++ []) = _ :=
    endsLineBefore_append atTop (List.length_reverse).symm
  rwa [List.append_nil, List.reverse_reverse] at hbody

/-! ## The same grants -/

/-- What is taken from the content before a statement is the indentation that it is told of. -/
theorem latestIndent_eq (h : takesLatest .line before = true) :
    ∃ c more, before = .content c :: more
      ∧ latestIndent before = String.ofList (Text.indentEnd c.written.toList) := by
  match before with
  | .content c :: more =>
    refine ⟨c, more, rfl, ?_⟩
    rw [latestIndent, Content.indent]
    have hboth : (!c.endTrimmed && (c.trimEnd .line).endTrimmed) = true := h
    rw [hboth]
    rfl

/-- Nothing is remembered where nothing is taken. -/
theorem latestIndent_eq_empty (h : takesLatest .line before = false) : latestIndent before = "" := by
  match before with
  | [] => rfl
  | s :: more =>
    cases s with
    | content c =>
      rw [latestIndent, Content.indent]
      have hboth : (!c.endTrimmed && (c.trimEnd .line).endTrimmed) = false := h
      rw [hboth]
      rfl
    | _ => rfl

/-- A statement is told how the content in front of it ends. -/
theorem indentAt_eq {c : Content} (hs : s.Unindented) (hi : i = before.length + 1) :
    indentAt i (before.reverse ++ .content c :: s :: rest)
      = .ok (before.reverse ++ .content c
          :: s.withIndent (String.ofList (Text.indentEnd c.written.toList)) :: rest) := by
  have hcons : ∀ t, before.reverse ++ Statement.content c :: t :: rest
      = (Statement.content c :: before).reverse ++ t :: rest := by simp
  have hentry : entry ((Statement.content c :: before).reverse ++ s :: rest) (before.length + 1)
      = .ok s := entry_append rfl
  subst hi
  rw [indentAt, minus_add, ok_bind, entry_append rfl, ok_bind, hcons, hentry, ok_bind, indentOf]
  by_cases hnone : (Text.indentEnd c.written.toList).isEmpty = true
  · rw [if_pos hnone, List.isEmpty_iff.mp hnone, hcons]
    exact congrArg (fun t => Except.ok ((Statement.content c :: before).reverse ++ t :: rest)) hs.symm
  · rw [if_neg hnone, hcons]
    exact congrArg Except.ok (set_append_length (.content c :: before) rest s _)

/-- A tag with a line to itself: the indentation before it goes, into a partial, and so does the
    line break behind it. -/
theorem grantOwnLine_eq (hs : s.Unindented) (hi : i = before.length) :
    grantOwnLine i (before.reverse ++ s :: rest)
      = .ok ((trimLatest .line before).reverse ++ s.withIndent (latestIndent before)
          :: trimFirst .line rest) := by
  rw [grantOwnLine, trimAt_behind .line hi, trimBefore_append .line hi]
  -- an indentation is only kept where it has been taken away
  by_cases htaken : takesLatest .line before = true
  · obtain ⟨c, more, rfl, hindent⟩ := latestIndent_eq htaken
    have hwritten : (c.trimEnd .line).written = c.written :=
      (Content.ofContent_span_written (.stop .line) c).2
    have hmore : ∀ t, (trimLatest .line (.content c :: more)).reverse ++ t :: trimFirst .line rest
        = more.reverse ++ .content (c.trimEnd .line) :: t :: trimFirst .line rest := by
      intro t
      simp [trimLatest]
    rw [htaken, if_pos rfl]
    dsimp only
    rw [hmore, hmore, indentAt_eq hs hi, hwritten, hindent]
  · have hfalse := (Bool.not_eq_true _).mp htaken
    rw [hfalse, if_neg Bool.false_ne_true, latestIndent_eq_empty hfalse, hs]

/-- An open tag with a line to itself. -/
theorem grantOpenLine_eq (hi : i = before.length) :
    grantOpenLine i (before.reverse ++ s :: rest)
      = .ok ((trimLatest .line before).reverse ++ s.onLeading (trimFirst .line) :: rest) := by
  subst hi
  rw [grantOpenLine, entry_append rfl, ok_bind, set_append_length, trimBefore_append .line rfl,
    trimAt_zero]
  rfl

theorem grantCloseLine_eq (hi : i = before.length) :
    grantCloseLine i (before.reverse ++ s :: rest)
      = .ok (before.reverse ++ s.onTrailing (trimLast .line) :: trimFirst .line rest) := by
  subst hi
  rw [grantCloseLine, trimAt_behind .line rfl, entry_append rfl, ok_bind, set_append_length,
    trimEndOf_eq]
  rfl

theorem length_trimLatest_if (b : Bool) (e : Extent) (before : List Statement) :
    (if b then trimLatest e before else before).length = before.length := by
  cases b with
  | false => rfl
  | true => exact length_trimLatest e before

theorem trimAt_behind_if (b : Bool) (e : Extent) (hi : i = before.length) :
    (if b then trimAt e (i + 1) (before.reverse ++ s :: rest) else before.reverse ++ s :: rest)
      = before.reverse ++ s :: carry (if b then [e] else []) rest := by
  cases b with
  | false => rfl
  | true => exact trimAt_behind e hi

theorem trimBefore_append_if (b : Bool) (e : Extent) (hi : i = before.length) :
    (if b then (trimBefore e i (before.reverse ++ rest)).1 else before.reverse ++ rest)
      = (if b then trimLatest e before else before).reverse ++ rest := by
  cases b with
  | false => rfl
  | true => exact congrArg Prod.fst (trimBefore_append e hi)

/-- The three grants, if they are asked for. -/
theorem granted_grantOwnLine (b : Bool) (hs : s.Unindented) (hi : i = before.length) :
    granted b (grantOwnLine i) (before.reverse ++ s :: rest)
      = .ok ((if b then trimLatest .line before else before).reverse
          ++ (if b then s.withIndent (latestIndent before) else s)
          :: carry (if b then [.line] else []) rest) := by
  cases b with
  | false => rfl
  | true => exact grantOwnLine_eq hs hi

/-- An open tag is granted its line. -/
theorem granted_grantOpenLine (b : Bool) (hi : i = before.length) :
    granted b (grantOpenLine i) (before.reverse ++ s :: rest)
      = .ok ((if b then trimLatest .line before else before).reverse
          ++ (if b then s.onLeading (trimFirst .line) else s) :: rest) := by
  cases b with
  | false => rfl
  | true => exact grantOpenLine_eq hi

/-- A close tag is granted its line. -/
theorem granted_grantCloseLine (b : Bool) (hi : i = before.length) :
    granted b (grantCloseLine i) (before.reverse ++ s :: rest)
      = .ok (before.reverse ++ (if b then s.onTrailing (trimLast .line) else s)
          :: carry (if b then [.line] else []) rest) := by
  cases b with
  | false => rfl
  | true => exact grantCloseLine_eq hi

/-- **Granting in place.**  What a statement asks for is granted as in a pass that takes the
    statements apart. -/
theorem grantAt_eq (standalone atTop : Bool) (demand : Demand) (hs : s.Unindented)
    (hi : i = before.length) :
    let placed := place standalone atTop before rest s demand
    grantAt standalone atTop demand i (before.reverse ++ s :: rest)
      = .ok (placed.before.reverse ++ placed.statement :: carry placed.carried rest) := by
  intro placed
  have hlength := length_trimLatest_if demand.strip.opening .all before
  rw [grantAt, endsLineBefore_append atTop hi, startsLineAt_behind atTop hi,
    trimAt_behind_if _ _ hi, trimBefore_append_if _ _ hi]
  cases standalone with
  | false =>
    have hplaced : placed = ⟨if demand.strip.opening then trimLatest .all before else before, s,
        if demand.strip.closing then [.all] else []⟩ := by
      simp [placed, place]
    rw [hplaced]
    rfl
  | true =>
    -- the index is still the number of statements before, one trim after the other
    have hi₁ := hi.trans hlength.symm
    have hi₂ := hi₁.trans (length_trimLatest_if
      (demand.ownLine && rowEndsLine atTop before && rowStartsLine atTop rest) .line _).symm
    have hi₃ := hi₂.trans
      (length_trimLatest_if (demand.openLine && rowEndsLine atTop before) .line _).symm
    rw [if_pos rfl, granted_grantOwnLine _ hs hi₁, ok_bind, granted_grantOpenLine _ hi₂, ok_bind,
      granted_grantCloseLine _ hi₃, ← carry_append, ← carry_append, ← List.append_assoc]
    rfl

/-- A turn over content, which asks for nothing. -/
theorem turn_none (standalone atTop : Bool) {settle : Statement → Checked (Statement × Option Demand)}
    {s' : Statement} (hsettle : settle s = .ok (s', none)) (hi : i = before.length) :
    turn standalone atTop settle (before.reverse ++ s :: rest) i
      = .ok (before.reverse ++ s' :: rest) := by
  subst hi
  rw [turn, entry_append rfl, ok_bind, hsettle, ok_bind]
  exact congrArg Except.ok (set_append_length before rest s s')

/-- A turn over any other statement. -/
theorem turn_some (standalone atTop : Bool) {settle : Statement → Checked (Statement × Option Demand)}
    {s' : Statement} {demand : Demand} (hsettle : settle s = .ok (s', some demand))
    (hs : s'.Unindented) (hi : i = before.length) :
    let placed := place standalone atTop before rest s' demand
    turn standalone atTop settle (before.reverse ++ s :: rest) i
      = .ok (placed.before.reverse ++ placed.statement :: carry placed.carried rest) := by
  subst hi
  rw [turn, entry_append rfl, ok_bind, hsettle, ok_bind]
  dsimp only
  rw [set_append_length]
  exact grantAt_eq standalone atTop demand hs rfl

end Body

end Checked

end Stache
