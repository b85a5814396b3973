/-
  The frame of whitespace control: what it may change in a tree, and what it may change it to.

  That a tree has been trimmed is said node by node (`Program.TrimmedTo`).  Here it is read off for
  the tree as a whole: the contents correspond one to one and in order, each with blanks lost at its
  two ends at most, and so do the programs, each with its own body trimmed.  The indentation of a
  partial is looked for in the body that the partial stands in.

  A tree that is read has no indentation yet, since an item forms a partial without one; so in the
  tree after whitespace control, whatever indentation there is comes from the content right before
  the partial (`Program.onlyTrimmed_trimmed`).
-/
import Stache.Proofs.Nesting.Statements
import Stache.Proofs.Whitespace.Spots

namespace Stache

/-! ## The leaves of a trimmed tree -/

/-- A leaf that is trimmed, or has an indentation now. -/
inductive Leaf.TrimmedTo : Leaf → Leaf → Prop where
  | content {c c' : Content} (h : c.TrimmedTo c') : Leaf.TrimmedTo (.content c) (.content c')
  | partialCall (indent indent' : String) (span : Span) :
      Leaf.TrimmedTo (.partialCall indent span) (.partialCall indent' span)

mutual

/-- The leaves of a tree that is trimmed are trimmed: those of a statement, -/
theorem Statement.TrimmedTo.leaves {before : Option String} {s s' : Statement}
    (h : s.TrimmedTo before s') : List.Forall₂ Leaf.TrimmedTo s.leaves s'.leaves := by
  match h with
  | .content h => exact .cons (.content h) .nil
  | .comment .. | .mustache .. | .decorator .. => exact .nil
  | .partialCall .. => exact .cons (.partialCall ..) .nil
  | .block _ _ _ hmain hinverse => exact List.rel_append hmain.leaves hinverse.leaves
  | .partialBlock _ _ _ _ h | .decoratorBlock _ _ _ _ h => exact h.leaves
termination_by structural h

/-- of a program, -/
theorem Program.TrimmedTo.leaves {p p' : Program} (h : p.TrimmedTo p') :
    List.Forall₂ Leaf.TrimmedTo p.leaves p'.leaves := by
  match h with
  | .mk _ _ _ h => exact h.leaves
termination_by structural h

/-- of a section, -/
theorem SectionTrimmedTo.leaves {p p' : Option Program} (h : SectionTrimmedTo p p') :
    List.Forall₂ Leaf.TrimmedTo (sectionLeaves p) (sectionLeaves p') := by
  match h with
  | .none => exact .nil
  | .some h => exact h.leaves
termination_by structural h

/-- and of a body. -/
theorem BodyTrimmedTo.leaves {before : Option String} {body body' : List Statement}
    (h : BodyTrimmedTo before body body') :
    List.Forall₂ Leaf.TrimmedTo (bodyLeaves body) (bodyLeaves body') := by
  match h with
  | .nil => exact .nil
  | .cons h hrest => exact List.rel_append h.leaves hrest.leaves
termination_by structural h

end

/-- **The contents of a trimmed tree**, one for one. -/
theorem Program.TrimmedTo.contents {p p' : Program} (h : p.TrimmedTo p') :
    List.Forall₂ Content.TrimmedTo p.contents p'.contents := by
  refine List.rel_filterMap ?_ h.leaves
  rintro _ _ (hc | _)
  · exact .some hc
  · exact .none

/-- The characters of some contents that are not blank. -/
def nonBlanks (contents : List Content) : List Char :=
  (contents.flatMap fun c => c.value.toList).filter fun c => !Text.isBlank c

/-- Contents that are trimmed have lost blanks only. -/
theorem nonBlanks_eq {contents contents' : List Content}
    (h : List.Forall₂ Content.TrimmedTo contents contents') :
    nonBlanks contents' = nonBlanks contents := by
  induction h with
  | nil => rfl
  | cons h _ ih =>
    simp only [nonBlanks, List.flatMap_cons, List.filter_append] at ih ⊢
    rw [ih, h.value.filter_eq]

/-! ## The programs of a trimmed tree -/

mutual

theorem Statement.TrimmedTo.programs {before : Option String} {s s' : Statement}
    (h : s.TrimmedTo before s') : List.Forall₂ Program.TrimmedTo s.programs s'.programs := by
  match h with
  | .content _ | .comment .. | .mustache .. | .decorator .. | .partialCall .. => exact .nil
  | .block _ _ _ hmain hinverse => exact List.rel_append hmain.programs hinverse.programs
  | .partialBlock _ _ _ _ h | .decoratorBlock _ _ _ _ h => exact h.family
termination_by structural h

theorem Program.TrimmedTo.family {p p' : Program} (h : p.TrimmedTo p') :
    List.Forall₂ Program.TrimmedTo p.family p'.family := by
  match h with
  | .mk _ _ _ h => exact .cons (.mk _ _ _ h) h.programs
termination_by structural h

theorem SectionTrimmedTo.programs {p p' : Option Program} (h : SectionTrimmedTo p p') :
    List.Forall₂ Program.TrimmedTo (sectionPrograms p) (sectionPrograms p') := by
  match h with
  | .none => exact .nil
  | .some h => exact h.family
termination_by structural h

theorem BodyTrimmedTo.programs {before : Option String} {body body' : List Statement}
    (h : BodyTrimmedTo before body body') :
    List.Forall₂ Program.TrimmedTo (bodyPrograms body) (bodyPrograms body') := by
  match h with
  | .nil => exact .nil
  | .cons h hrest => exact List.rel_append h.programs hrest.programs
termination_by structural h

end

/-- The statement that a statement of a trimmed body was. -/
theorem BodyTrimmedTo.exists_of_append {before : Option String} {body pre post : List Statement}
    {s' : Statement} (h : BodyTrimmedTo before body (pre ++ s' :: post)) :
    ∃ s ∈ body, s.TrimmedTo (lastWritten before pre) s' := by
  induction pre generalizing before body with
  | nil =>
    obtain _ | ⟨h, -⟩ := h
    exact ⟨_, List.mem_cons_self .., h⟩
  | cons first pre ih =>
    obtain _ | ⟨hfirst, hrest⟩ := h
    obtain ⟨s, hs, h⟩ := ih hrest
    refine ⟨s, List.mem_cons_of_mem _ hs, ?_⟩
    rwa [lastWritten_cons, hfirst.written?_eq]

/-! ## Indentation -/

/-- The indentation that a statement has been given, if it is a partial call. -/
def Statement.ownIndent : Statement → String
  | .partialCall _ indent _ _ => indent
  | _ => ""

/-- The content that an indentation comes from. -/
theorem Indents.exists_content {pre : List Statement} {indent : String}
    (h : Indents (lastWritten none pre) indent) (hne : indent ≠ "") :
    ∃ c, pre.getLast? = some (.content c) ∧ indent.toList <:+ c.written.toList := by
  obtain ⟨-, hsuffix⟩ := h
  have hempty : ¬ indent.toList <:+ [] := fun h =>
    hne (String.toList_eq_nil_iff.1 (List.suffix_nil.1 h))
  obtain rfl | ⟨init, s, rfl⟩ := pre.eq_nil_or_concat
  · exact (hempty hsuffix).elim
  · have hlast : lastWritten none (init ++ [s]) = s.written? := by
      rw [lastWritten, List.foldl_append]
      rfl
    rw [List.concat_eq_append, hlast] at hsuffix
    cases s with
    | content c => exact ⟨c, by simp, hsuffix⟩
    | _ => exact (hempty hsuffix).elim

/-- In a tree that is read, partials are not indented. -/
theorem Program.ofText_ownIndent {text : List Char} {p : Program}
    (h : Program.ofText text = .ok p) : ∀ q ∈ p.family, ∀ s ∈ q.body, s.ownIndent = "" := by
  obtain ⟨items, -, h⟩ := exists_of_bind_ok h
  refine Program.ofItems_forall_statements ⟨?_, ?_⟩ h
  · intro item _ s hform
    cases hform <;> rfl
  · intro item _ chained o _ first second strip stop
    unfold Opening.wrap
    cases o.kind <;> rfl

/-! ## The pass -/

/-- The second tree is the first one, but for whitespace. -/
structure Program.OnlyTrimmed (p p' : Program) : Prop where
  /-- Nothing else than the values and the marks of contents and the indentation of partials is
      changed. -/
  erased_eq : p'.erased = p.erased
  /-- A content loses blanks at its two ends only. -/
  contents : List.Forall₂ Content.TrimmedTo p.contents p'.contents
  /-- A partial is indented with spaces and tabs in which the content before it ends. -/
  indents : ∀ q ∈ p'.family, ∀ pre call indent strip span post,
    q.body = pre ++ .partialCall call indent strip span :: post → indent ≠ "" →
      (∀ c ∈ indent.toList, Text.isIndent c = true)
        ∧ ∃ c, pre.getLast? = some (.content c) ∧ indent.toList <:+ c.written.toList
  /-- No other character is lost. -/
  nonBlanks_eq : nonBlanks p'.contents = nonBlanks p.contents

/-- **Whitespace control changes whitespace only**, whatever tree is read and whether or not the
    standalone rule is on. -/
theorem Program.onlyTrimmed_trimmed {text : List Char} {p : Program}
    (h : Program.ofText text = .ok p) (standalone : Bool) :
    p.OnlyTrimmed (p.trimmed standalone) := by
  have htrimmed := p.trimmedTo_trimmed standalone
  refine ⟨htrimmed.erased_eq, htrimmed.contents, ?_, nonBlanks_eq htrimmed.contents⟩
  intro q' hq' pre call indent strip span post hbody hne
  have hfamily : List.Forall₂ (flip Program.TrimmedTo) (p.trimmed standalone).family p.family :=
    htrimmed.family.flip
  obtain ⟨q, hq, ⟨_, _, _, hqbody⟩⟩ := Script.exists_of_mem_forall₂ hfamily hq'
  simp only at hbody
  subst hbody
  -- The partial was there before the pass, without an indentation.
  obtain ⟨s, hs, hpartial⟩ := hqbody.exists_of_append
  have hnone := Program.ofText_ownIndent h _ hq s hs
  obtain _ | _ | _ | ⟨_, _, _, hindent⟩ := hpartial
  obtain rfl : _ = "" := hnone
  obtain heq | hindent := hindent
  · exact (hne heq).elim
  · exact ⟨hindent.1, hindent.exists_content hne⟩

/-- A partial in a chained section, content on all sides of it, tildes and tags on lines of their
    own. -/
theorem Program.onlyTrimmed_trimmed_at_chain :
    let text :=
      "a \n\x7b\x7b#if b ~\x7d\x7d\n c\n\x7b\x7belse if d\x7d\x7d \n \t\x7b\x7b> e\x7d\x7d \n"
        ++ "\x7b\x7b~/if\x7d\x7d \nf"
    ∃ p, Program.ofText text.toList = .ok p ∧ p.OnlyTrimmed (p.trimmed true) := by
  intro text
  obtain ⟨p, hp⟩ := exists_of_isOk (e := Program.ofText text.toList) (by decide +kernel)
  exact ⟨p, hp, Program.onlyTrimmed_trimmed hp true⟩

end Stache
