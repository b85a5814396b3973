/-
  Cuts: the trims that a piece of content undergoes, one after another.

  Whitespace control trims a content several times, at both of its edges, on behalf of different
  tags, and the trims of the two edges come in any order.  A CUT is one trim of one edge.  What a
  row of cuts leaves of a content depends on very little of it:

    * when every cut takes all blanks, on whether the start is cut and whether the end is
      (`cutAll_value`);
    * when every cut takes one line's worth, on the same two questions, provided the content is
      fresh (`cutAll_line_value`).  This is where the marks of a content come in: one line's worth
      is taken once, however often it is asked for.

  The same cuts may be made to a body (`Cut.ofBody`): those at the start reach its first statement,
  those at the end its last one, if these are content.
-/
import Stache.Template.Trim
import Stache.Proofs.Text.Edges

namespace Stache

/-- One trim of one edge. -/
inductive Cut where
  | start (extent : Extent)
  | stop (extent : Extent)
deriving DecidableEq, Repr

namespace Cut

/-- How much is taken. -/
def extent : Cut → Extent
  | start e | stop e => e

/-- Whether it is at the start, -/
def isStart : Cut → Bool
  | start _ => true
  | stop _ => false

/-- or at the end. -/
def isStop : Cut → Bool
  | start _ => false
  | stop _ => true

/-- The cut, made to a content, -/
def ofContent : Cut → Content → Content
  | start e, c => c.trimStart e
  | stop e, c => c.trimEnd e

/-- and made to a body. -/
def ofBody : Cut → List Statement → List Statement
  | start e, body => trimFirst e body
  | stop e, body => trimLast e body

end Cut

/-- A cut that is made only if it is wanted. -/
def cutIf (wanted : Bool) (cut : Cut) : List Cut := if wanted then [cut] else []

/-! Which edges a row of cuts reaches.  The library's own rules for `any` would take these apart. -/

@[simp] theorem any_isStart_cutIf_start (wanted : Bool) (e : Extent) :
    (cutIf wanted (.start e)).any Cut.isStart = wanted := by
  cases wanted <;> rfl

@[simp] theorem any_isStart_cutIf_stop (wanted : Bool) (e : Extent) :
    (cutIf wanted (.stop e)).any Cut.isStart = false := by
  cases wanted <;> rfl

@[simp] theorem any_isStop_cutIf_start (wanted : Bool) (e : Extent) :
    (cutIf wanted (.start e)).any Cut.isStop = false := by
  cases wanted <;> rfl

@[simp] theorem any_isStop_cutIf_stop (wanted : Bool) (e : Extent) :
    (cutIf wanted (.stop e)).any Cut.isStop = wanted := by
  cases wanted <;> rfl

@[simp] theorem any_isStart_map_start (extents : List Extent) :
    (extents.map Cut.start).any Cut.isStart = !extents.isEmpty := by
  cases extents <;> rfl

@[simp] theorem any_isStop_map_start (extents : List Extent) :
    (extents.map Cut.start).any Cut.isStop = false := by
  simp [Cut.isStop]

@[simp] theorem any_isStart_map_stop (extents : List Extent) :
    (extents.map Cut.stop).any Cut.isStart = false := by
  simp [Cut.isStart]

@[simp] theorem any_isStop_map_stop (extents : List Extent) :
    (extents.map Cut.stop).any Cut.isStop = !extents.isEmpty := by
  cases extents <;> rfl

@[simp] theorem any_isStart_filter_isStart (cuts : List Cut) :
    (cuts.filter Cut.isStart).any Cut.isStart = cuts.any Cut.isStart := by
  induction cuts with
  | nil => rfl
  | cons cut cuts ih => cases cut <;> simp_all [Cut.isStart]

@[simp] theorem any_isStop_filter_isStop (cuts : List Cut) :
    (cuts.filter Cut.isStop).any Cut.isStop = cuts.any Cut.isStop := by
  induction cuts with
  | nil => rfl
  | cons cut cuts ih => cases cut <;> simp_all [Cut.isStop]

@[simp] theorem any_isStop_filter_isStart (cuts : List Cut) :
    (cuts.filter Cut.isStart).any Cut.isStop = false := by
  induction cuts with
  | nil => rfl
  | cons cut cuts ih => cases cut <;> simp_all [Cut.isStart, Cut.isStop]

@[simp] theorem any_isStart_filter_isStop (cuts : List Cut) :
    (cuts.filter Cut.isStop).any Cut.isStart = false := by
  induction cuts with
  | nil => rfl
  | cons cut cuts ih => cases cut <;> simp_all [Cut.isStart, Cut.isStop]

/-! ## Content -/

namespace Content

/-- The content after all `cuts`, from left to right. -/
def cutAll (c : Content) (cuts : List Cut) : Content := cuts.foldl (fun c cut => cut.ofContent c) c

@[simp] theorem cutAll_nil (c : Content) : c.cutAll [] = c := rfl

@[simp] theorem cutAll_cons (c : Content) (cut : Cut) (cuts : List Cut) :
    c.cutAll (cut :: cuts) = (cut.ofContent c).cutAll cuts := rfl

theorem cutAll_append (c : Content) (cuts more : List Cut) :
    c.cutAll (cuts ++ more) = (c.cutAll cuts).cutAll more := List.foldl_append

/-- A cut changes neither where a content stands nor how it is written. -/
theorem ofContent_span_written (cut : Cut) (c : Content) :
    (cut.ofContent c).span = c.span ∧ (cut.ofContent c).written = c.written := by
  cases cut with
  | start e => simp only [Cut.ofContent, trimStart]; split <;> exact ⟨rfl, rfl⟩
  | stop e => simp only [Cut.ofContent, trimEnd]; split <;> exact ⟨rfl, rfl⟩

/-- Cuts change neither the span of a content nor how it was written: -/
theorem cutAll_span_written (c : Content) (cuts : List Cut) :
    (c.cutAll cuts).span = c.span ∧ (c.cutAll cuts).written = c.written := by
  induction cuts generalizing c with
  | nil => exact ⟨rfl, rfl⟩
  | cons cut cuts ih =>
    obtain ⟨hspan, hwritten⟩ := ofContent_span_written cut c
    rw [cutAll_cons, (ih _).1, (ih _).2, hspan, hwritten]
    exact ⟨rfl, rfl⟩

/-- not the one, -/
@[simp] theorem cutAll_span (c : Content) (cuts : List Cut) : (c.cutAll cuts).span = c.span :=
  (cutAll_span_written c cuts).1

/-- and not the other. -/
@[simp] theorem cutAll_written (c : Content) (cuts : List Cut) :
    (c.cutAll cuts).written = c.written :=
  (cutAll_span_written c cuts).2

/-! ### Cuts of all blanks -/

/-- What is left when every cut takes all blanks. -/
theorem cutAll_value (c : Content) {cuts : List Cut} (h : ∀ cut ∈ cuts, cut.extent = .all) :
    (c.cutAll cuts).value.toList
      = Text.trimBlanks (cuts.any Cut.isStart) (cuts.any Cut.isStop) c.value.toList := by
  -- cuts of everything commute, so their order does not matter
  induction cuts generalizing c with
  | nil => rfl
  | cons cut cuts ih =>
    rw [cutAll_cons, ih _ fun cut hcut => h cut (List.mem_cons_of_mem _ hcut)]
    have hcut : cut.extent = .all := h cut (List.mem_cons_self ..)
    cases cut with
    | start e =>
      obtain rfl : e = .all := hcut
      have hvalue : ((Cut.start .all).ofContent c).value.toList
          = Text.dropBlankStart c.value.toList := by
        simp [Cut.ofContent, trimStart]
      rw [hvalue, Text.trimBlanks_dropBlankStart]
      simp [Cut.isStart, Cut.isStop]
    | stop e =>
      obtain rfl : e = .all := hcut
      have hvalue : ((Cut.stop .all).ofContent c).value.toList
          = Text.dropBlankEnd c.value.toList := by
        simp [Cut.ofContent, trimEnd]
      rw [hvalue, Text.trimBlanks_dropBlankEnd]
      simp [Cut.isStart, Cut.isStop]

/-! ### Cuts of one line's worth -/

/-- What holds of a content between two cuts of one line's worth: which of its edges have been cut,
    and that a cut which took nothing would take nothing now either. -/
structure LineCut (s : List Char) (atStart atEnd : Bool) (c : Content) : Prop where
  value_eq : c.value.toList = Text.trimLine atStart atEnd s
  startTrimmed : c.startTrimmed = true → atStart = true
  endTrimmed : c.endTrimmed = true → atEnd = true
  start_done : atStart = true → c.startTrimmed = false →
    Text.dropLineStart c.value.toList = c.value.toList
  end_done : atEnd = true → Text.dropIndentEnd c.value.toList = c.value.toList

/-- A cut at the start, -/
theorem LineCut.start {s : List Char} {atStart atEnd : Bool} {c : Content}
    (h : LineCut s atStart atEnd c) : LineCut s true atEnd (c.trimStart .line) := by
  by_cases htrimmed : c.startTrimmed = true
  · -- The start has lost its line already, so nothing happens.
    obtain rfl := h.startTrimmed htrimmed
    rw [trimStart, if_pos (by simp [htrimmed])]
    exact h
  · have hfalse : c.startTrimmed = false := by simpa using htrimmed
    rw [trimStart, if_neg (by simp [htrimmed])]
    refine ⟨?_, fun _ => rfl, h.endTrimmed, ?_, ?_⟩
    · show (String.ofList (Text.dropLineStart c.value.toList)).toList = _
      rw [String.toList_ofList]
      cases atStart with
      | false => rw [h.value_eq, Text.trimLine_start]
      | true => rw [h.start_done rfl hfalse, h.value_eq]
    · intro _ hsame
      have hsame : String.ofList (Text.dropLineStart c.value.toList) = c.value := by
        simpa using hsame
      show Text.dropLineStart (String.ofList (Text.dropLineStart c.value.toList)).toList
        = (String.ofList (Text.dropLineStart c.value.toList)).toList
      rw [hsame]
      exact (String.toList_ofList (l := _)).symm.trans (congrArg String.toList hsame)
    · intro hend
      show Text.dropIndentEnd (String.ofList (Text.dropLineStart c.value.toList)).toList = _
      rw [String.toList_ofList, ← Text.dropLineStart_dropIndentEnd, h.end_done hend]

/-- at the end, -/
theorem LineCut.stop {s : List Char} {atStart atEnd : Bool} {c : Content}
    (h : LineCut s atStart atEnd c) : LineCut s atStart true (c.trimEnd .line) := by
  by_cases htrimmed : c.endTrimmed = true
  · obtain rfl := h.endTrimmed htrimmed
    rw [trimEnd, if_pos (by simp [htrimmed])]
    exact h
  · rw [trimEnd, if_neg (by simp [htrimmed])]
    refine ⟨?_, h.startTrimmed, fun _ => rfl, ?_, ?_⟩
    · show (String.ofList (Text.dropIndentEnd c.value.toList)).toList = _
      rw [String.toList_ofList, h.value_eq, Text.trimLine_end]
    · intro hstart hfalse
      show Text.dropLineStart (String.ofList (Text.dropIndentEnd c.value.toList)).toList = _
      rw [String.toList_ofList, Text.dropLineStart_dropIndentEnd, h.start_done hstart hfalse]
    · intro _
      show Text.dropIndentEnd (String.ofList (Text.dropIndentEnd c.value.toList)).toList = _
      rw [String.toList_ofList, Text.dropIndentEnd_idem]

/-- and as many of both as there are. -/
theorem LineCut.cutAll {s : List Char} {atStart atEnd : Bool} {c : Content} {cuts : List Cut}
    (h : LineCut s atStart atEnd c) (hcuts : ∀ cut ∈ cuts, cut.extent = .line) :
    LineCut s (atStart || cuts.any Cut.isStart) (atEnd || cuts.any Cut.isStop) (c.cutAll cuts) := by
  -- the two questions are asked of the cuts so far; a content keeps marks of the answers
  induction cuts generalizing c atStart atEnd with
  | nil => simpa using h
  | cons cut cuts ih =>
    have hcut : cut.extent = .line := hcuts cut (List.mem_cons_self ..)
    have hmore := fun cut hcut => hcuts cut (List.mem_cons_of_mem _ hcut)
    cases cut with
    | start e =>
      obtain rfl : e = .line := hcut
      simpa [Cut.isStart, Cut.isStop, Cut.ofContent] using ih h.start hmore
    | stop e =>
      obtain rfl : e = .line := hcut
      simpa [Cut.isStart, Cut.isStop, Cut.ofContent] using ih h.stop hmore

/-- What is left of a fresh content when every cut takes one line's worth. -/
theorem cutAll_line_value {c : Content} {cuts : List Cut} (hstart : c.startTrimmed = false)
    (hend : c.endTrimmed = false) (h : ∀ cut ∈ cuts, cut.extent = .line) :
    (c.cutAll cuts).value.toList
      = Text.trimLine (cuts.any Cut.isStart) (cuts.any Cut.isStop) c.value.toList := by
  have hfresh : LineCut c.value.toList false false c :=
    ⟨rfl, by simp [hstart], by simp [hend], by simp, by simp⟩
  simpa using (hfresh.cutAll h).value_eq

end Content

/-! ## Bodies -/

/-- The body after all `cuts`, from left to right. -/
def cutBody (cuts : List Cut) (body : List Statement) : List Statement :=
  cuts.foldl (fun body cut => cut.ofBody body) body

@[simp] theorem cutBody_nil (body : List Statement) : cutBody [] body = body := rfl

@[simp] theorem cutBody_cons (cut : Cut) (cuts : List Cut) (body : List Statement) :
    cutBody (cut :: cuts) body = cutBody cuts (cut.ofBody body) := rfl

theorem cutBody_append (cuts more : List Cut) (body : List Statement) :
    cutBody (cuts ++ more) body = cutBody more (cutBody cuts body) := List.foldl_append

/-- A statement that is not content stays as it is, and so does an empty body. -/
def Statement.IsContent : Statement → Prop
  | .content _ => True
  | _ => False

/-- A first statement that is no content is left, -/
theorem trimFirst_of_not_content (e : Extent) {s : Statement} (hs : ¬ s.IsContent)
    (body : List Statement) : trimFirst e (s :: body) = s :: body := by
  cases s with
  | content c => exact (hs trivial).elim
  | _ => rfl

/-- a latest one is the first of those before, -/
theorem trimLatest_append (e : Extent) {before : List Statement} (h : before ≠ [])
    (more : List Statement) : trimLatest e (before ++ more) = trimLatest e before ++ more := by
  match before with
  | [] => exact (h rfl).elim
  | s :: before => cases s <;> rfl

/-- A cut at the end passes over a statement that others follow. -/
theorem trimLast_cons (e : Extent) (s : Statement) {body : List Statement} (h : body ≠ []) :
    trimLast e (s :: body) = s :: trimLast e body := by
  have hrev : body.reverse ≠ [] := fun hnil => h (List.reverse_eq_nil_iff.1 hnil)
  rw [trimLast, List.reverse_cons, trimLatest_append e hrev, List.reverse_append]
  rfl

/-- and what is in front of the last one does not count. -/
theorem trimLast_of_not_content (e : Extent) {s : Statement} (hs : ¬ s.IsContent)
    (body : List Statement) : trimLast e (s :: body) = s :: trimLast e body := by
  by_cases h : body = []
  · subst h
    cases s with
    | content c => exact (hs trivial).elim
    | _ => rfl
  · exact trimLast_cons e s h

/-- No statement is taken away. -/
theorem trimLast_eq_nil_iff {e : Extent} {body : List Statement} :
    trimLast e body = [] ↔ body = [] := by
  match body with
  | [] => exact Iff.rfl
  | s :: body =>
    by_cases h : body = []
    · subst h
      cases s <;> simp [trimLast, trimLatest]
    · simp [trimLast_cons e s h]

@[simp] theorem cutBody_empty (cuts : List Cut) : cutBody cuts [] = [] := by
  induction cuts with
  | nil => rfl
  | cons cut cuts ih => cases cut <;> exact ih

/-- Behind a statement that is no content only the end is cut. -/
theorem cutBody_of_not_content (cuts : List Cut) {s : Statement} (hs : ¬ s.IsContent)
    (body : List Statement) :
    cutBody cuts (s :: body) = s :: cutBody (cuts.filter Cut.isStop) body := by
  induction cuts generalizing body with
  | nil => rfl
  | cons cut cuts ih =>
    cases cut with
    | start e =>
      rw [cutBody_cons, Cut.ofBody, trimFirst_of_not_content e hs, ih]
      rfl
    | stop e =>
      rw [cutBody_cons, Cut.ofBody, trimLast_of_not_content e hs, ih]
      rfl

/-- A content that makes up a body undergoes every cut.  If it only begins the body, it undergoes
    those at the start, and leaves the others to what follows it. -/
theorem cutBody_content (cuts : List Cut) (c : Content) (body : List Statement) :
    cutBody cuts (.content c :: body)
      = .content (c.cutAll (if body.isEmpty then cuts else cuts.filter Cut.isStart))
          :: cutBody (cuts.filter Cut.isStop) body := by
  -- a cut at the start is of the first statement, and one at the end is passed on unless it is last
  induction cuts generalizing c body with
  | nil => simp
  | cons cut cuts ih =>
    cases cut with
    | start e =>
      rw [cutBody_cons, Cut.ofBody, trimFirst, ih]
      cases body <;> rfl
    | stop e =>
      by_cases h : body = []
      · subst h
        rw [cutBody_cons, Cut.ofBody]
        show cutBody cuts [.content (c.trimEnd e)] = _
        rw [ih]
        simp [Cut.ofContent]
      · have hlast : trimLast e body ≠ [] := mt trimLast_eq_nil_iff.1 h
        rw [cutBody_cons, Cut.ofBody, trimLast_cons e _ h, ih]
        simp only [List.isEmpty_iff, h, hlast, if_false, List.filter_cons, Cut.isStart, Cut.isStop]
        rfl

end Stache
