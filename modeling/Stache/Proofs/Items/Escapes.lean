/-
  Texts with their braces escaped.

  Two braces begin a tag, unless a backslash is in front of them; that backslash is taken away.  So
  a text is ESCAPED by one backslash in front of each two braces, taken from the left and none of
  them twice.  Where the text has no backslash right in front of two braces itself, no tag is left
  in what comes out, and reading it as content takes just these backslashes away again
  (`readContent_escapeBraces`).

  The induction is on the way the text is escaped.  A character that is kept never runs together
  with what comes out behind it, since that begins with a brace or a backslash only where the text
  does, or with the backslash of two braces (`escapeBraces_eq_cons`).
-/
import Stache.Proofs.Items.Elsewhere

namespace Stache

/-- The text, with a backslash in front of every two braces. -/
def escapeBraces : List Char → List Char
  | [] => []
  | '{' :: '{' :: s => '\\' :: '{' :: '{' :: escapeBraces s
  | c :: s => c :: escapeBraces s

/-- An escaped text begins with the backslash of two braces or as the text does. -/
theorem escapeBraces_eq_cons {s t : List Char} {c : Char} (h : escapeBraces s = c :: t) :
    (c = '\\' ∧ ['{', '{'] <+: s ∧ ['{', '{'] <+: t)
      ∨ ∃ s', s = c :: s' ∧ t = escapeBraces s' := by
  unfold escapeBraces at h
  split at h
  · cases h
  · rename_i s
    cases h
    exact .inl ⟨rfl, ⟨s, rfl⟩, ⟨_, rfl⟩⟩
  · rename_i d s _
    cases h
    exact .inr ⟨s, rfl, rfl⟩

/-- No tag begins an escaped text. -/
theorem not_braces_escapeBraces (s : List Char) : ¬ ['{', '{'] <+: escapeBraces s := by
  rintro ⟨t, hescape⟩
  rcases escapeBraces_eq_cons hescape.symm with ⟨hc, -⟩ | ⟨s, rfl, hmore⟩
  · cases hc
  · rcases escapeBraces_eq_cons hmore.symm with ⟨hc, -⟩ | ⟨u, rfl, -⟩
    · cases hc
    · -- The text itself has two braces here, so a backslash comes first.
      rw [escapeBraces] at hescape
      cases hescape

/-- **An escaped text is one content**, which is the text. -/
theorem readContent_escapeBraces {s : List Char} (h : ¬ ['\\', '{', '{'] <:+: s) :
    readContent (escapeBraces s) = ⟨s, escapeBraces s, []⟩ := by
  have htail {c : Char} {s : List Char} (h : ¬ ['\\', '{', '{'] <:+: c :: s) :
      ¬ ['\\', '{', '{'] <:+: s := fun hs => h (hs.trans (List.suffix_cons c s).isInfix)
  fun_induction escapeBraces s with
  | case1 => rfl
  | case2 s ih => rw [readContent, ih (htail (htail h))]
  | case3 c s hbraces ih =>
    rw [readContent, ih (htail h)]
    · -- Two backslashes and two braces: the second backslash is that of the two braces.
      rintro t rfl ht
      rcases escapeBraces_eq_cons ht with ⟨-, ⟨v, rfl⟩, -⟩ | ⟨s, rfl, hmore⟩
      · exact h ⟨[], v, rfl⟩
      · exact not_braces_escapeBraces s ⟨t, hmore⟩
    · rintro t rfl ht
      exact not_braces_escapeBraces s ⟨t, ht.symm⟩
    · rintro t rfl ht
      rcases escapeBraces_eq_cons ht with ⟨hc, -⟩ | ⟨s, rfl, -⟩
      · cases hc
      · exact hbraces s rfl rfl

/-- The items of an escaped text: one content, or none for the empty text. -/
theorem readAll_escapeBraces {s : List Char} (h : ¬ ['\\', '{', '{'] <:+: s) (p : Position) :
    Item.readAll p (escapeBraces s)
      = .ok (if s = [] then []
          else [⟨.content (String.ofList s), String.ofList (escapeBraces s), p⟩]) := by
  have hread := readContent_escapeBraces h
  have hopen := not_braces_escapeBraces s
  -- no text has no items, and any other is one item of content
  match hs : escapeBraces s with
  | [] =>
    rw [hs] at hread
    have hnil : s = [] := (congrArg Reading.value hread).symm
    rw [if_pos hnil]
    exact (Item.Scan.nil p).readAll_eq
  | c :: t =>
    rw [hs] at hread hopen
    have hne : s ≠ [] := by
      rintro rfl
      cases hs
    have hscan : Item.Scan p (c :: t) [_] :=
      Item.Scan.content hopen (by rw [hread]; exact .nil _)
    rw [hread] at hscan
    rw [if_neg hne]
    exact hscan.readAll_eq

end Stache
