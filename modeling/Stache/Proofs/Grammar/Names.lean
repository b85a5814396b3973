/-
  Paths and names, read and derived.

  What a reader takes from the front of the tokens is the yield of a derivation tree, and what it
  makes of that is what the tree denotes; and the other way round, the yield of a tree is read as
  that.  Both are shown for the segments of a path first, then for paths and names.

  A path goes on with every separator that follows, so its yield is read as a whole only where
  none does (`Bounds`).  In a tag nothing else follows a name, nor does an equals sign.
-/
import Stache.Proofs.Grammar.Trees
import Stache.Proofs.Runs

namespace Stache.Grammar

/-! ## What follows a name -/

/-- Neither a separator nor an equals sign comes first. -/
def Bounds (rest : List Token) : Prop :=
  ∀ t us, rest = t :: us → t.kind ≠ .equals ∧ ∀ mark, t.kind ≠ .separator mark

theorem Bounds.nil : Bounds [] := nofun

theorem Bounds.cons {t : Token} {us : List Token} (hequals : t.kind ≠ .equals)
    (hseparator : ∀ mark, t.kind ≠ .separator mark) : Bounds (t :: us) := by
  rintro _ _ ⟨⟩
  exact ⟨hequals, hseparator⟩

/-! ## Segments -/

/-- What follows a name is left, unless it is a separator. -/
theorem readSegments_last {first : NameToken} {rest : List Token} (mark : Option Char)
    (hrest : Bounds rest) :
    ∃ left, readSegments mark (first.token :: rest)
        = .ok ([⟨mark, first.name, first.bracketed⟩], first.token.stop, left) ∧ left.1 = rest := by
  match rest, hrest with
  | [], _ =>
    rw [readSegments, first.kind_eq]
    exact ⟨_, rfl, rfl⟩
  | t :: us, hrest =>
    rw [readSegments, first.kind_eq]
    dsimp only
    split
    · rename_i next hnext
      exact absurd hnext ((hrest t us rfl).2 next)
    · exact ⟨_, rfl, rfl⟩

/-- The yield of a path is read as its segments. -/
theorem readSegments_append (mark : Option Char) (first : NameToken)
    (more : List (SeparatorToken × NameToken)) {rest : List Token} (hrest : Bounds rest) :
    ∃ left, readSegments mark (first.token :: (moreTokens more ++ rest))
        = .ok (segmentsOf mark first more, stopOf first more, left) ∧ left.1 = rest := by
  induction more generalizing mark first with
  | nil => exact readSegments_last mark hrest
  | cons part more ih =>
    obtain ⟨separator, next⟩ := part
    obtain ⟨left, hread, hleft⟩ := ih (some separator.mark) next
    show ∃ left, readSegments mark
      (first.token :: separator.token :: next.token :: (moreTokens more ++ rest)) = _ ∧ _
    rw [readSegments, first.kind_eq]
    simp only [separator.kind_eq, hread, stopOf_cons]
    exact ⟨_, rfl, hleft⟩

/-- The segments that are read, as a row of names with separators between them. -/
theorem exists_of_readSegments {mark : Option Char} {ts : List Token} {segments : List Segment}
    {stop : Position} {left : Fewer ts} (h : readSegments mark ts = .ok (segments, stop, left)) :
    ∃ first more, ts = first.token :: (moreTokens more ++ left.1)
      ∧ segments = segmentsOf mark first more ∧ stop = stopOf first more := by
  fun_induction readSegments mark ts generalizing segments stop with
  | case1 => cases h
  | case2 mark t name bracketed hkind =>
    cases h
    exact ⟨⟨t, name, bracketed, hkind⟩, [], rfl, rfl, rfl⟩
  | case3 mark t name bracketed hkind u rest next hnext ih =>
    obtain ⟨⟨segments', stop', left'⟩, hmore, h⟩ := exists_of_bind_ok h
    cases h
    obtain ⟨first, more, hts, rfl, rfl⟩ := ih hmore
    refine ⟨⟨t, name, bracketed, hkind⟩, (⟨u, next, hnext⟩, first) :: more, ?_, rfl, ?_⟩
    · exact congrArg (fun us => t :: u :: us) hts
    · rw [stopOf, stopOf, List.map_cons, List.getLastD_cons]
  | case4 mark t name bracketed hkind u rest hne =>
    cases h
    exact ⟨⟨t, name, bracketed, hkind⟩, [], rfl, rfl, rfl⟩
  | case5 => cases h

/-! ## Paths -/

/-- A path that goes on with `segments`. -/
def extend (p : Path) (segments : List Segment) : Path :=
  { p with
    depth := p.depth + segments.countP fun s => s.isStep && s.name = ".."
    parts := p.parts ++ (segments.filter fun s => !s.isStep).map Segment.name
    written := p.written ++ (segments.map writtenOf).foldr (· ++ ·) ""
    thisScoped := p.thisScoped || segments.any fun s => s.isStep && s.name ≠ ".." }

theorem extend_nil (p : Path) : extend p [] = p := by simp [extend]

theorem extend_cons (p : Path) (s : Segment) (segments : List Segment) :
    extend p (s :: segments) = extend (extend p [s]) segments := by
  by_cases hstep : s.isStep = true <;> by_cases hup : s.name = ".." <;>
    simp [extend, hstep, hup, String.append_assoc, Nat.add_assoc, Nat.add_comm]

/-- One segment is taken unless it is a step after a part. -/
theorem push_eq (p : Path) (s : Segment) :
    p.push s = if s.isStep = true ∧ p.parts ≠ [] then .error (p.written ++ writtenOf s)
      else .ok (extend p [s]) := by
  have hwritten : p.written ++ (s.mark.map Char.toString).getD "" ++ s.name
      = p.written ++ writtenOf s := String.append_assoc ..
  rw [Path.push, hwritten]
  by_cases hstep : s.isStep = true
  · by_cases hparts : p.parts = []
    · by_cases hup : s.name = ".." <;> simp [extend, hstep, hparts, hup]
    · simp [hstep, hparts]
  · simp [extend, hstep]

/-- Segments are folded into a path if no step comes after a part. -/
theorem foldlM_push_eq_ok_iff {segments : List Segment} {p q : Path} :
    segments.foldlM Path.push p = .ok q
      ↔ ((p.parts ≠ [] → ∀ s ∈ segments, s.isStep = false) ∧ StepsFirst segments)
        ∧ q = extend p segments := by
  induction segments generalizing p with
  | nil =>
    rw [List.foldlM_nil, extend_nil]
    constructor
    · rintro ⟨⟩
      exact ⟨⟨fun _ => List.forall_mem_nil _, List.Pairwise.nil⟩, rfl⟩
    · rintro ⟨-, rfl⟩
      rfl
  | cons s segments ih =>
    rw [List.foldlM_cons, push_eq, extend_cons p s segments, StepsFirst, List.pairwise_cons,
      List.forall_mem_cons]
    -- once a part is there, only parts may follow
    by_cases hstep : s.isStep = true
    · by_cases hparts : p.parts = []
      · have hparts' : (extend p [s]).parts = [] := by simp [extend, hparts, hstep]
        rw [if_neg (by simp [hparts])]
        show segments.foldlM Path.push (extend p [s]) = .ok q ↔ _
        rw [ih]
        simp [hparts, hparts', hstep, StepsFirst]
      · rw [if_pos ⟨hstep, hparts⟩]
        constructor
        · rintro ⟨⟩
        · rintro ⟨⟨h, -⟩, -⟩
          exact absurd hstep (by simp [(h hparts).1])
    · have hparts' : (extend p [s]).parts ≠ [] := by simp [extend, hstep]
      rw [if_neg (by simp [hstep])]
      show segments.foldlM Path.push (extend p [s]) = .ok q ↔ _
      rw [ih]
      constructor
      · rintro ⟨⟨hall, hpairwise⟩, hq⟩
        have hall := hall hparts'
        refine ⟨⟨fun _ => ⟨Bool.eq_false_iff.2 hstep, hall⟩, ?_, hpairwise⟩, hq⟩
        intro b hb hbstep
        exact absurd hbstep (by simp [hall b hb])
      · rintro ⟨⟨-, hfirst, hpairwise⟩, hq⟩
        refine ⟨⟨fun _ b hb => ?_, hpairwise⟩, hq⟩
        rw [← Bool.not_eq_true]
        exact fun hbstep => hstep (hfirst b hb hbstep)

/-- **The segments of a path** form one exactly if steps come first. -/
theorem ofSegments_eq_ok_iff {data : Bool} {span : Span} {segments : List Segment} {q : Path} :
    Path.ofSegments data span segments = .ok q
      ↔ StepsFirst segments
        ∧ q = extend ⟨data, 0, [], if data then "@" else "", false, span⟩ segments := by
  rw [Path.ofSegments, foldlM_push_eq_ok_iff]
  simp

/-- What the segments of a tree are folded into is what the tree denotes. -/
theorem PathTree.path_eq (p : PathTree) (data : Bool) (start : Position) :
    p.path data start
      = extend ⟨data, 0, [], if data then "@" else "", false, ⟨start, stopOf p.first p.more⟩⟩
          p.segments := by
  simp [path, extend]

/-- A path is read as what its tree denotes. -/
theorem readPath_append (p : PathTree) {rest : List Token} (hrest : Bounds rest) (data : Bool)
    (start : Position) :
    ∃ left, readPath data start (p.tokens ++ rest) = .ok (.path (p.path data start), left)
      ∧ left.1 = rest := by
  obtain ⟨left, hread, hleft⟩ := readSegments_append none p.first p.more hrest
  have hpath : Path.ofSegments data ⟨start, stopOf p.first p.more⟩ p.segments
      = .ok (p.path data start) := by
    rw [ofSegments_eq_ok_iff]
    exact ⟨p.steps, p.path_eq data start⟩
  show ∃ left, readPath data start (p.first.token :: (moreTokens p.more ++ rest)) = _ ∧ _
  rw [readPath, hread]
  refine ⟨left, ?_, hleft⟩
  rw [PathTree.segments] at hpath
  dsimp only [bind, Except.bind]
  rw [hpath]
  rfl

/-- Whatever is read as a path is the yield of one. -/
theorem exists_of_readPath {data : Bool} {start : Position} {ts : List Token} {e : Expression}
    {left : Fewer ts} (h : readPath data start ts = .ok (e, left)) :
    ∃ p : PathTree, ts = p.tokens ++ left.1 ∧ e = .path (p.path data start) := by
  rw [readPath] at h
  obtain ⟨⟨segments, stop, left'⟩, hsegments, h⟩ := exists_of_bind_ok h
  obtain ⟨first, more, hts, rfl, rfl⟩ := exists_of_readSegments hsegments
  dsimp only at h
  split at h
  · cases h
  · rename_i path hpath
    cases h
    obtain ⟨hsteps, rfl⟩ := ofSegments_eq_ok_iff.1 hpath
    exact ⟨⟨first, more, hsteps⟩, hts, by rw [PathTree.path_eq]; rfl⟩

/-! ## Names -/

/-- A name is read as what its tree denotes, -/
theorem readName_append (n : NameTree) {rest : List Token} (hrest : Bounds rest) :
    ∃ left, readName (n.tokens ++ rest) = .ok (n.expression, left) ∧ left.1 = rest := by
  cases n with
  | path p =>
    obtain ⟨left, hread, hleft⟩ := readPath_append p hrest false p.first.token.start
    refine ⟨left, ?_, hleft⟩
    show readName (p.first.token :: (moreTokens p.more ++ rest)) = _
    rw [readName, p.first.kind_eq]
    exact hread
  | data at' p =>
    obtain ⟨left, hread, hleft⟩ := readPath_append p hrest true at'.1.start
    show ∃ left, readName (at'.1 :: (p.tokens ++ rest)) = _ ∧ _
    rw [readName, at'.2]
    simp only [hread]
    exact ⟨_, rfl, hleft⟩
  | literal t e h =>
    show ∃ left, readName (t :: rest) = .ok (e, left) ∧ _
    -- each kind of token is a literal to both, or to neither
    unfold literal? at h
    rw [readName]
    split at h <;> rename_i hkind
    all_goals first
      | cases h
        rw [hkind]
        exact ⟨_, rfl, rfl⟩
      | cases h

/-- and what is read as one has a tree. -/
theorem exists_of_readName {ts : List Token} {e : Expression} {left : Fewer ts}
    (h : readName ts = .ok (e, left)) :
    ∃ n : NameTree, ts = n.tokens ++ left.1 ∧ e = n.expression := by
  unfold readName at h
  split at h
  · cases h
  · rename_i t us
    dsimp only at h
    -- the first token tells a path, a path of data and a literal apart
    split at h
    case h_1 name bracketed hkind =>
      obtain ⟨p, hts, rfl⟩ := exists_of_readPath h
      refine ⟨.path p, hts, ?_⟩
      obtain rfl : t = p.first.token := (List.cons.inj hts).1
      rfl
    case h_2 hkind =>
      obtain ⟨⟨e, left'⟩, hpath, h⟩ := exists_of_bind_ok h
      cases h
      obtain ⟨p, hts, rfl⟩ := exists_of_readPath hpath
      exact ⟨.data ⟨t, hkind⟩ p, congrArg (t :: ·) hts, rfl⟩
    case h_8 => cases h
    all_goals
      rename_i hkind
      cases h
      exact ⟨.literal t _ (by rw [literal?, hkind]), rfl, rfl⟩

end Stache.Grammar
