/-
  The characters at the edges of items.

  Where one item ends and the next begins, the characters are known to some extent: every tag is in
  braces (`Item.Scan.braces`), and a content ends only where a tag begins, so no two contents are
  next to each other (`Item.Scan.content_isolated`).  In between, a content is what is written, less
  some backslashes; the LAST character is never one of those (`readContent_getLast?`).
-/
import Stache.Proofs.Items.Scan

namespace Stache

/-! ## Content as written and as scanned -/

/-- Each backslash that is dropped has a character after it that stays. -/
theorem readContent_getLast? (s : List Char) :
    (readContent s).value.getLast? = (readContent s).lexeme.getLast? := by
  fun_induction readContent s with
  | case1 | case2 | case4 => rfl
  | case3 s r ih => simp [List.getLast?_cons, r, ih]
  | case5 c s _ _ _ r ih => simp [List.getLast?_cons, r, ih]

/-- Only backslashes are dropped. -/
theorem mem_value_of_mem_lexeme {s : List Char} {c : Char} (hc : c ≠ '\\')
    (h : c ∈ (readContent s).lexeme) : c ∈ (readContent s).value := by
  fun_induction readContent s with
  | case1 => exact h
  | case2 s => simp_all
  | case3 s r ih =>
    simp only [List.mem_cons, hc, false_or] at h ⊢
    rcases h with rfl | rfl | h
    · exact Or.inl rfl
    · exact Or.inl rfl
    · exact Or.inr (Or.inr (ih h))
  | case4 s => exact h
  | case5 d s _ _ _ r ih =>
    rcases List.mem_cons.1 h with rfl | h
    · exact List.mem_cons_self ..
    · exact List.mem_cons_of_mem _ (ih h)

/-- Content has no character that is not written. -/
theorem mem_lexeme_of_mem_value {s : List Char} {c : Char} (h : c ∈ (readContent s).value) :
    c ∈ (readContent s).lexeme := by
  fun_induction readContent s with
  | case1 | case4 => exact h
  | case2 s => exact List.mem_cons_of_mem _ h
  | case3 s r ih =>
    simp only [List.mem_cons] at h ⊢
    rcases h with rfl | rfl | h
    · exact Or.inr (Or.inl rfl)
    · exact Or.inr (Or.inl rfl)
    · exact Or.inr (Or.inr (Or.inr (ih h)))
  | case5 d s _ _ _ r ih =>
    rcases List.mem_cons.1 h with rfl | h
    · exact List.mem_cons_self ..
    · exact List.mem_cons_of_mem _ (ih h)

/-- Content goes on to a tag, or to the end of the text. -/
theorem readContent_rest (s : List Char) :
    (readContent s).rest = [] ∨ ['{', '{'] <+: (readContent s).rest := by
  fun_induction readContent s with
  | case1 => exact Or.inl rfl
  | case2 s => exact Or.inr ⟨s, rfl⟩
  | case3 s r ih => exact ih
  | case4 s => exact Or.inr ⟨s, rfl⟩
  | case5 c s _ _ _ r ih => exact ih

/-! ## Tags in braces -/

/-- A tag that begins with an exclamation mark is a comment. -/
theorem readTag_comment {p : Position} {s tilde u : List Char}
    (htilde : (if ['~'].isPrefixOf s then ['~'] else []) = tilde)
    (hu : s.drop tilde.length = '!' :: u) :
    let dashes := if ['-', '-'].isPrefixOf u then ['-', '-'] else []
    readTag p s = match readComment dashes (u.drop dashes.length) with
      | none => .error ⟨.unterminatedComment, p⟩
      | some r => .ok ⟨.comment (String.ofList r.value.1) ⟨!tilde.isEmpty, r.value.2⟩,
          '{' :: '{' :: tilde ++ '!' :: (dashes ++ r.lexeme), r.rest⟩ := by
  rw [readTag]
  dsimp only
  rw [htilde]
  split
  · rename_i t ht
    cases hu.symm.trans ht
    rfl
  · rename_i hnone
    exact absurd hu (hnone u)

/-- Any other tag has a mark and a body. -/
theorem readTag_tag {p : Position} {s tilde t : List Char}
    (htilde : (if ['~'].isPrefixOf s then ['~'] else []) = tilde) (ht : s.drop tilde.length = t)
    (hnone : ¬ ∃ u, t = '!' :: u) :
    readTag p s = do
      let mark := readMark t
      let body ← readBody mark.value.closing (p.advance ('{' :: '{' :: tilde ++ mark.lexeme))
        mark.rest
      return ⟨.tag ⟨mark.value, body.value.tokens, body.value.stop,
          ⟨!tilde.isEmpty, body.value.tilde⟩⟩,
        '{' :: '{' :: tilde ++ (mark.lexeme ++ body.lexeme), body.rest⟩ := by
  rw [readTag]
  dsimp only
  rw [htilde, ht]
  split
  · exact absurd ⟨_, rfl⟩ hnone
  · rfl

/-- A comment ends with a brace, -/
theorem readComment_getLast? {dashes s : List Char} {r : Reading (List Char × Bool)}
    (h : readComment dashes s = some r) : r.lexeme.getLast? = some '}' := by
  fun_induction readComment dashes s generalizing r with
  | case1 => cases h
  | case2 c s hp => cases h; simp
  | case3 c s _ hp => cases h; simp
  | case4 c s _ _ ih =>
    obtain ⟨r', hr', rfl⟩ := Option.map_eq_some_iff.1 h
    simp [List.getLast?_cons, ih hr']

/-- and so do the closing marks of every tag, -/
theorem TagRole.closing_getLast? (kind : TagRole) :
    kind.closing.tilde.getLast? = some '}' ∧ kind.closing.bare.getLast? = some '}' := by
  cases kind with
  | mustache form => cases form <;> exact ⟨rfl, rfl⟩
  | _ => exact ⟨rfl, rfl⟩

/-- hence each body. -/
theorem readBody_getLast? {closing : Closing} {p : Position} {s : List Char} {r : Reading TagBody}
    (htilde : closing.tilde.getLast? = some '}') (hbare : closing.bare.getLast? = some '}')
    (h : readBody closing p s = .ok r) : r.lexeme.getLast? = some '}' := by
  fun_induction readBody closing p s generalizing r
  · cases h
  · cases h
    simp [List.getLast?_append, htilde]
  · cases h
    simp [List.getLast?_append, hbare]
  · cases h
  · rename_i q c t ht _ _ r' hr ih
    cases hmore : readBody closing (q.advance r'.lexeme) r'.rest with
    | error e => rw [hmore] at h; cases h
    | ok more =>
      rw [hmore] at h
      cases h
      simp [List.getLast?_append, ih hmore]

/-- **A tag is in braces**, its comment as well. -/
theorem readTag_braces {p : Position} {s : List Char} {r : Reading ItemShape}
    (h : readTag p s = .ok r) :
    r.lexeme.head? = some '{' ∧ r.lexeme.getLast? = some '}' := by
  cases readTag_of h with
  | comment _ _ _ _ hread =>
    have hlast := readComment_getLast? hread
    simp [List.getLast?_cons, List.getLast?_append, hlast]
  | @tag _ t _ _ _ _ hbody =>
    obtain ⟨htilde, hbare⟩ := (readMark t).value.closing_getLast?
    have hlast := readBody_getLast? htilde hbare hbody
    simp [List.getLast?_cons, List.getLast?_append, hlast]

/-! ## The items of a text -/

theorem Item.scanned_eq_none_of_readTag {p q : Position} {s : List Char} {r : Reading ItemShape}
    {lexeme : String} (h : readTag p s = .ok r) : Item.scanned ⟨r.value, lexeme, q⟩ = none := by
  cases readTag_of h with
  | comment | tag => rfl

namespace Item.Scan

variable {p : Position} {s : List Char} {items : List Item}

/-- Tags and comments are in braces. -/
theorem braces (h : Item.Scan p s items) {item : Item} (hitem : item ∈ items)
    (htag : item.scanned = none) :
    item.lexeme.toList.head? = some '{' ∧ item.lexeme.toList.getLast? = some '}' := by
  cases h.readAs hitem with
  | tag hread =>
    rw [String.toList_ofList]
    exact readTag_braces hread
  | content => cases htag

/-- A content is not followed by another one. -/
theorem content_isolated (h : Item.Scan p s items) {pre post : List Item} {item next : Item}
    (hitems : items = pre ++ item :: next :: post) :
    item.scanned = none ∨ next.scanned = none := by
  induction h generalizing pre with
  | nil p => simp at hitems
  | tag hread hmore ih =>
    match pre, hitems with
    | [], hitems =>
      left
      rw [← (List.cons.inj hitems).1]
      exact scanned_eq_none_of_readTag hread
    | first :: pre, hitems => exact ih (List.cons.inj hitems).2
  | @content p c s more hopen hmore ih =>
    match pre, hitems with
    | [], hitems =>
      right
      have hmore' : Item.Scan (p.advance (readContent (c :: s)).lexeme) (readContent (c :: s)).rest
          (next :: post) := (List.cons.inj hitems).2 ▸ hmore
      -- What follows the content begins with two braces.
      generalize hrest : (readContent (c :: s)).rest = rest at hmore'
      have hbraces := readContent_rest (c :: s)
      rw [hrest] at hbraces
      cases hmore' with
      | tag hread hmore => exact scanned_eq_none_of_readTag hread
      | content hopen hmore =>
        rcases hbraces with hnil | hbraces
        · cases hnil
        · exact (hopen hbraces).elim
    | first :: pre, hitems => exact ih (List.cons.inj hitems).2

/-- What holds of a content as scanned: its text ends with the same character as what is written,
    and differs from it in backslashes only. -/
theorem scanned_value (h : Item.Scan p s items) {item : Item} (hitem : item ∈ items) {c : Content}
    (hc : item.scanned = some c) :
    c.value.toList.getLast? = item.lexeme.toList.getLast?
      ∧ (∀ d, d ≠ '\\' → d ∈ item.lexeme.toList → d ∈ c.value.toList)
      ∧ ∀ d ∈ c.value.toList, d ∈ item.lexeme.toList := by
  cases h.readAs hitem with
  | tag hread =>
    rw [scanned_eq_none_of_readTag hread] at hc
    cases hc
  | content =>
    cases hc
    simp only [String.toList_ofList]
    exact ⟨readContent_getLast? _, fun d hd => mem_value_of_mem_lexeme hd,
      fun d => mem_lexeme_of_mem_value⟩

/-- Every character of an item is one of the text. -/
theorem mem_text (h : Item.Scan p s items) {item : Item} (hitem : item ∈ items) {c : Char}
    (hc : c ∈ item.lexeme.toList) : c ∈ s := by
  rw [← h.text_eq, textOf]
  exact List.mem_flatMap.2 ⟨item, hitem, hc⟩

end Item.Scan

end Stache
