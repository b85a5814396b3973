/-
  Whitespace control leaves the skeleton of a body as it is.

  The SKELETON of a body tells which of its statements are content, and how those are written.  That
  is all that the standalone rule looks at (`rowStartsLine_congr`, `rowEndsLine_congr`), and no trim
  changes it (`skeleton_settleBody`).  So it makes no difference whether a tag asks before or after
  the bodies around it are settled, and the questions can be put to the tree as it was read.
-/
import Stache.Proofs.Whitespace.Cut

namespace Stache

/-- How a statement is written, if it is content. -/
def Statement.written? : Statement → Option String
  | .content c => some c.written
  | _ => none

/-- Which statements are content, and how they are written. -/
def skeleton (body : List Statement) : List (Option String) := body.map Statement.written?

@[simp] theorem skeleton_nil : skeleton [] = [] := rfl

@[simp] theorem skeleton_cons (s : Statement) (body : List Statement) :
    skeleton (s :: body) = s.written? :: skeleton body := rfl

@[simp] theorem skeleton_reverse (body : List Statement) :
    skeleton body.reverse = (skeleton body).reverse := List.map_reverse

theorem length_eq_of_skeleton_eq {body body' : List Statement} (h : skeleton body = skeleton body') :
    body.length = body'.length := by
  have hlength := congrArg List.length h
  rwa [skeleton, skeleton, List.length_map, List.length_map] at hlength

/-! ## What the standalone rule sees -/

theorem rowStartsLine_cons (atTop : Bool) (s : Statement) (body : List Statement) :
    rowStartsLine atTop (s :: body)
      = match s.written? with
        | some w => Text.startsLine (atTop && body.isEmpty) w.toList
        | none => false := by
  cases s <;> rfl

theorem rowEndsLine_cons (atTop : Bool) (s : Statement) (before : List Statement) :
    rowEndsLine atTop (s :: before)
      = match s.written? with
        | some w => Text.endsLine (atTop && before.isEmpty) w.toList
        | none => false := by
  cases s <;> rfl

/-- Bodies of one skeleton are empty or not, -/
theorem isEmpty_eq_of_skeleton_eq {a b : List Statement} (h : skeleton a = skeleton b) :
    a.isEmpty = b.isEmpty := by
  simpa only [skeleton, List.isEmpty_map] using congrArg List.isEmpty h

/-- start a line, -/
theorem rowStartsLine_congr {a b : List Statement} (h : skeleton a = skeleton b) (atTop : Bool) :
    rowStartsLine atTop a = rowStartsLine atTop b := by
  match a, b, h with
  | [], [], _ => rfl
  | s :: a, t :: b, h =>
    obtain ⟨hst, hrest⟩ := List.cons.inj h
    rw [rowStartsLine_cons, rowStartsLine_cons, hst, isEmpty_eq_of_skeleton_eq hrest]

/-- or end one, together. -/
theorem rowEndsLine_congr {a b : List Statement} (h : skeleton a = skeleton b) (atTop : Bool) :
    rowEndsLine atTop a = rowEndsLine atTop b := by
  match a, b, h with
  | [], [], _ => rfl
  | s :: a, t :: b, h =>
    obtain ⟨hst, hrest⟩ := List.cons.inj h
    rw [rowEndsLine_cons, rowEndsLine_cons, hst, isEmpty_eq_of_skeleton_eq hrest]

/-! ## Trims -/

theorem written?_ofContent (cut : Cut) (c : Content) :
    (Statement.content (cut.ofContent c)).written? = (Statement.content c).written? :=
  congrArg some (Content.ofContent_span_written cut c).2

/-- No trim changes a skeleton: neither of the first statement, -/
@[simp] theorem skeleton_trimFirst (e : Extent) (body : List Statement) :
    skeleton (trimFirst e body) = skeleton body := by
  match body with
  | [] => rfl
  | s :: body =>
    cases s with
    | content c => exact congrArg (· :: skeleton body) (written?_ofContent (.start e) c)
    | _ => rfl

/-- nor of the latest, -/
@[simp] theorem skeleton_trimLatest (e : Extent) (before : List Statement) :
    skeleton (trimLatest e before) = skeleton before := by
  match before with
  | [] => rfl
  | s :: before =>
    cases s with
    | content c => exact congrArg (· :: skeleton before) (written?_ofContent (.stop e) c)
    | _ => rfl

/-- nor of the last, -/
@[simp] theorem skeleton_trimLast (e : Extent) (body : List Statement) :
    skeleton (trimLast e body) = skeleton body := by
  rw [trimLast, skeleton_reverse, skeleton_trimLatest, skeleton_reverse, List.reverse_reverse]

/-- nor all cuts together. -/
@[simp] theorem skeleton_cutBody (cuts : List Cut) (body : List Statement) :
    skeleton (cutBody cuts body) = skeleton body := by
  induction cuts generalizing body with
  | nil => rfl
  | cons cut cuts ih =>
    rw [cutBody_cons, ih]
    cases cut with
    | start e => exact skeleton_trimFirst e body
    | stop e => exact skeleton_trimLast e body

/-! ## Settling -/

theorem written?_onLeading (f : List Statement → List Statement) (s : Statement) :
    (s.onLeading f).written? = s.written? := by
  cases s with
  | block call main inverse strip span => cases main <;> rfl
  | _ => rfl

theorem written?_onTrailing (f : List Statement → List Statement) (s : Statement) :
    (s.onTrailing f).written? = s.written? := by
  cases s with
  | block call main inverse strip span => cases inverse <;> rfl
  | _ => rfl

theorem written?_withIndent (indent : String) (s : Statement) :
    (s.withIndent indent).written? = s.written? := by
  cases s <;> rfl

theorem written?_settle (standalone : Bool) (s : Statement) :
    (s.settle standalone).1.written? = s.written? := by
  cases s with
  | block call main inverse strip span =>
    cases main <;> cases inverse <;> rfl
  | _ => rfl

/-- A statement that is put in its place stays the kind of statement it is. -/
theorem written?_place (standalone atTop : Bool) (before after : List Statement) (s : Statement)
    (d : Demand) : (place standalone atTop before after s d).statement.written? = s.written? := by
  simp only [place]
  split <;> split <;> split <;>
    simp only [written?_onLeading, written?_onTrailing, written?_withIndent]

/-- So do the statements before it. -/
theorem skeleton_place (standalone atTop : Bool) (before after : List Statement) (s : Statement)
    (d : Demand) : skeleton (place standalone atTop before after s d).before = skeleton before := by
  simp only [place]
  split <;> split <;> split <;> simp only [skeleton_trimLatest]

/-- **Settling a body changes nothing in its skeleton.** -/
theorem skeleton_settleBody (standalone atTop : Bool) (before : List Statement)
    (carried : List Extent) (body : List Statement) :
    skeleton (settleBody standalone atTop before carried body)
      = (skeleton before).reverse ++ skeleton body := by
  induction body generalizing before carried with
  | nil => simp [settleBody]
  | cons s body ih =>
    cases s with
    | content c =>
      rw [settleBody, ih]
      have hcut := (Content.cutAll_written c (carried.map .start))
      simp only [Content.cutAll, List.foldl_map] at hcut
      simp [Statement.written?, ← hcut, Cut.ofContent]
    | comment | mustache | partialCall | decorator | block | partialBlock | decoratorBlock =>
      rw [settleBody, ih]
      · simp [written?_place, skeleton_place, written?_settle]
      · simp

end Stache
