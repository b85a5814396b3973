/-
  The items of a text, as a relation.

  `Item.Scan p s items` says that `s`, which begins at `p`, is cut into `items`: one rule for each
  way in which the reader goes on.  The reader is followed once (`Item.Scan.of_readAll`), and
  everything else about its result is an induction on these rules, or a case analysis of how one
  item is read (`Item.Scan.readAs`):

    * laid end to end, the items are the text again (`Item.Scan.text_eq`);
    * every item begins where the items before it end (`Item.Scan.start_eq`), and none is empty, so
      no two begin at the same position: a span NAMES its item (`Item.Scan.pre_eq_of_start_eq`).

  A PLACE is an item with the items before it and after it.
-/
import Stache.Proofs.Text.Positions
import Stache.Template.Item.Read

namespace Stache

/-- Content that takes nothing would leave as much as it found. -/
theorem readContent_ne_nil {c : Char} {s : List Char} (hopen : ¬ ['{', '{'] <+: c :: s) :
    (readContent (c :: s)).lexeme ≠ [] := by
  intro hnil
  have hlength := readContent_length_lt hopen
  have happ := readContent_append (c :: s)
  rw [hnil, List.nil_append] at happ
  rw [happ] at hlength
  exact Nat.lt_irrefl _ hlength

/-! ## The relation -/

/-- The text `s`, which begins at `p`, is cut into these items. -/
inductive Item.Scan : Position → List Char → List Item → Prop where
  | nil (p : Position) : Item.Scan p [] []
  | tag {p : Position} {s : List Char} {r : Reading ItemShape} {items : List Item}
      (hread : readTag p s = .ok r) (hmore : Item.Scan (p.advance r.lexeme) r.rest items) :
      Item.Scan p ('{' :: '{' :: s) (⟨r.value, String.ofList r.lexeme, p⟩ :: items)
  | content {p : Position} {c : Char} {s : List Char} {items : List Item}
      (hopen : ¬ ['{', '{'] <+: c :: s)
      (hmore : Item.Scan (p.advance (readContent (c :: s)).lexeme) (readContent (c :: s)).rest
        items) :
      Item.Scan p (c :: s)
        (⟨.content (String.ofList (readContent (c :: s)).value),
          String.ofList (readContent (c :: s)).lexeme, p⟩ :: items)

/-- Whatever the reader returns is related to the text it read. -/
theorem Item.Scan.of_readAll {p : Position} {s : List Char} {items : List Item}
    (h : Item.readAll p s = .ok items) : Item.Scan p s items := by
  fun_induction Item.readAll p s generalizing items with
  | case1 p => cases h; exact .nil p
  | case2 p c s hopen e he => cases h
  | case3 p c s hopen r hr ih =>
    match hmore : Item.readAll (p.advance r.lexeme) r.rest with
    | .error e => rw [hmore] at h; cases h
    | .ok more =>
      rw [hmore] at h
      cases h
      obtain ⟨t, ht⟩ := hopen
      rw [← ht] at hr ⊢
      exact .tag hr (ih hmore)
  | case4 =>
    rename_i p c s hopen r ih
    match hmore : Item.readAll (p.advance r.lexeme) r.rest with
    | .error e => rw [hmore] at h; cases h
    | .ok more =>
      rw [hmore] at h
      cases h
      exact .content hopen (ih hmore)

/-- How an item is read, wherever it stands: as a tag or a comment, or as content. -/
inductive Item.ReadAs : Item → Prop where
  | tag {p : Position} {s : List Char} {r : Reading ItemShape} (hread : readTag p s = .ok r) :
      Item.ReadAs ⟨r.value, String.ofList r.lexeme, p⟩
  | content {p : Position} {c : Char} {s : List Char} (hopen : ¬ ['{', '{'] <+: c :: s) :
      Item.ReadAs ⟨.content (String.ofList (readContent (c :: s)).value),
        String.ofList (readContent (c :: s)).lexeme, p⟩

/-- Every item of a text is read somewhere. -/
theorem Item.Scan.readAs {p : Position} {s : List Char} {items : List Item}
    (h : Item.Scan p s items) {item : Item} (hitem : item ∈ items) : item.ReadAs := by
  induction h with
  | nil p => cases hitem
  | tag hread hmore ih =>
    rcases List.mem_cons.1 hitem with rfl | hitem
    · exact .tag hread
    · exact ih hitem
  | content hopen hmore ih =>
    rcases List.mem_cons.1 hitem with rfl | hitem
    · exact .content hopen
    · exact ih hitem

/-! ## Laid end to end -/

/-- The text that `items` were cut from. -/
def textOf (items : List Item) : List Char := items.flatMap (·.lexeme.toList)

@[simp] theorem textOf_nil : textOf [] = [] := rfl

@[simp] theorem textOf_cons (item : Item) (items : List Item) :
    textOf (item :: items) = item.lexeme.toList ++ textOf items := rfl

@[simp] theorem textOf_append (items more : List Item) :
    textOf (items ++ more) = textOf items ++ textOf more := List.flatMap_append

namespace Item.Scan

variable {p : Position} {s : List Char} {items : List Item}

/-- **Laid end to end**, the items are the text. -/
theorem text_eq (h : Item.Scan p s items) : textOf items = s := by
  induction h with
  | nil p => rfl
  | tag hread hmore ih =>
    rw [textOf_cons, ih, String.toList_ofList]
    exact readTag_append hread
  | content hopen hmore ih =>
    rw [textOf_cons, ih, String.toList_ofList]
    exact readContent_append _

/-- No item is empty. -/
theorem lexeme_ne_nil (h : Item.Scan p s items) {item : Item} (hitem : item ∈ items) :
    item.lexeme.toList ≠ [] := by
  cases h.readAs hitem with
  | tag hread =>
    rw [String.toList_ofList]
    exact readTag_ne_nil hread
  | content hopen =>
    rw [String.toList_ofList]
    exact readContent_ne_nil hopen

/-- An item begins where those before it end. -/
theorem start_eq (h : Item.Scan p s items) {pre post : List Item} {item : Item}
    (hitems : items = pre ++ item :: post) : item.start = p.advance (textOf pre) := by
  induction h generalizing pre with
  | nil p => simp at hitems
  | tag hread hmore ih =>
    match pre, hitems with
    | [], hitems => exact (List.cons.inj hitems).1 ▸ rfl
    | first :: pre, hitems =>
      obtain ⟨hfirst, hrest⟩ := List.cons.inj hitems
      rw [ih hrest, textOf_cons, Position.advance_append, ← hfirst, String.toList_ofList]
  | content hopen hmore ih =>
    match pre, hitems with
    | [], hitems => exact (List.cons.inj hitems).1 ▸ rfl
    | first :: pre, hitems =>
      obtain ⟨hfirst, hrest⟩ := List.cons.inj hitems
      rw [ih hrest, textOf_cons, Position.advance_append, ← hfirst, String.toList_ofList]

/-- Two items of a text that begin at one position are one, where the second does not come before
    the first. -/
theorem pre_eq_of_length_le (h : Item.Scan p s items) {pre post pre' post' : List Item}
    {item item' : Item} (hitems : items = pre ++ item :: post)
    (hitems' : items = pre' ++ item' :: post') (hstart : item.start = item'.start)
    (hle : pre.length ≤ pre'.length) : pre = pre' := by
  obtain ⟨more, rfl⟩ : ∃ more, pre' = pre ++ more := by
    have hprefix : pre <+: items := ⟨item :: post, hitems.symm⟩
    have hprefix' : pre' <+: items := ⟨item' :: post', hitems'.symm⟩
    obtain ⟨more, hmore⟩ := List.prefix_of_prefix_length_le hprefix hprefix' hle
    exact ⟨more, hmore.symm⟩
  have hadvance : (p.advance (textOf pre)).advance (textOf more) = p.advance (textOf pre) := by
    rw [← Position.advance_append, ← textOf_append, ← h.start_eq hitems', ← hstart,
      h.start_eq hitems]
  have hnone : textOf more = [] := Position.advance_eq_self_iff.1 hadvance
  match more, hnone with
  | [], _ => exact (List.append_nil pre).symm
  | first :: more, hnone =>
    have hmem : first ∈ items := by
      rw [hitems']
      simp
    exact (h.lexeme_ne_nil hmem (List.append_eq_nil_iff.1 hnone).1).elim

/-- Two items of a text that begin at one position are one. -/
theorem pre_eq_of_start_eq (h : Item.Scan p s items) {pre post pre' post' : List Item}
    {item item' : Item} (hitems : items = pre ++ item :: post)
    (hitems' : items = pre' ++ item' :: post') (hstart : item.start = item'.start) :
    pre = pre' := by
  rcases Nat.le_total pre.length pre'.length with hle | hle
  · exact h.pre_eq_of_length_le hitems hitems' hstart hle
  · exact (h.pre_eq_of_length_le hitems' hitems hstart.symm hle).symm

end Item.Scan

/-! ## Contents -/

/-- The content that the scanner makes of an item. -/
def Item.scanned (item : Item) : Option Content :=
  match item.shape with
  | .content value => some ⟨value, item.lexeme, false, false, item.span⟩
  | _ => none

/-- Content begins where its item does, -/
theorem Item.start_eq_of_scanned {item : Item} {c : Content} (h : item.scanned = some c) :
    c.span.start = item.start := by
  rw [Item.scanned] at h
  split at h
  · cases h
    rfl
  · cases h

/-- is written as the item is, -/
theorem Item.written_eq_of_scanned {item : Item} {c : Content} (h : item.scanned = some c) :
    c.written = item.lexeme := by
  rw [Item.scanned] at h
  split at h
  · cases h
    rfl
  · cases h

/-- and is not trimmed yet. -/
theorem Item.fresh_of_scanned {item : Item} {c : Content} (h : item.scanned = some c) :
    c.startTrimmed = false ∧ c.endTrimmed = false := by
  rw [Item.scanned] at h
  split at h
  · cases h
    exact ⟨rfl, rfl⟩
  · cases h

/-! ## Places -/

/-- An item with the items before it and after it. -/
structure Place where
  pre : List Item
  item : Item
  post : List Item
deriving DecidableEq, Repr

/-- The items of the file. -/
def Place.items (place : Place) : List Item := place.pre ++ place.item :: place.post

/-- The places of `items`, after those of `pre`. -/
def placesFrom (pre : List Item) : List Item → List Place
  | [] => []
  | item :: post => ⟨pre, item, post⟩ :: placesFrom (pre ++ [item]) post

/-- The places of a whole file. -/
def places (items : List Item) : List Place := placesFrom [] items

/-- The places of a row cut it in front of each item. -/
theorem mem_placesFrom {pre items : List Item} {place : Place} :
    place ∈ placesFrom pre items
      ↔ ∃ before, place.pre = pre ++ before ∧ items = before ++ place.item :: place.post := by
  induction items generalizing pre with
  | nil => simp [placesFrom]
  | cons item items ih =>
    rw [placesFrom, List.mem_cons, ih]
    constructor
    · rintro (rfl | ⟨before, hpre, hitems⟩)
      · exact ⟨[], (List.append_nil pre).symm, rfl⟩
      · exact ⟨item :: before, by simp [hpre], by simp [hitems]⟩
    · rintro ⟨before, hpre, hitems⟩
      -- the first item, or one behind it
      match before, hitems with
      | [], hitems =>
        left
        obtain ⟨hitem, hpost⟩ := List.cons.inj hitems
        obtain ⟨pre', item', post'⟩ := place
        simp only [List.append_nil] at hpre hitem hpost
        rw [hpre, hitem, hpost]
      | first :: before, hitems =>
        right
        obtain ⟨hfirst, hrest⟩ := List.cons.inj hitems
        exact ⟨before, by simp [hpre, hfirst], hrest⟩

/-- A place belongs to a file when its items are those of the file. -/
theorem mem_places {items : List Item} {place : Place} :
    place ∈ places items ↔ items = place.items := by
  rw [places, mem_placesFrom]
  constructor
  · rintro ⟨before, hpre, hitems⟩
    rw [hitems, Place.items, hpre, List.nil_append]
  · intro hitems
    exact ⟨place.pre, rfl, hitems⟩

theorem Place.item_mem {items : List Item} {place : Place} (h : place ∈ places items) :
    place.item ∈ items := by
  rw [mem_places.1 h, Place.items]
  exact List.mem_append_right _ (List.mem_cons_self ..)

/-- A position names a place. -/
theorem Item.Scan.place_eq_of_start_eq {p : Position} {s : List Char} {items : List Item}
    (h : Item.Scan p s items) {a b : Place} (ha : a ∈ places items) (hb : b ∈ places items)
    (hstart : a.item.start = b.item.start) : a = b := by
  rw [mem_places] at ha hb
  have hpre : a.pre = b.pre := h.pre_eq_of_start_eq ha hb hstart
  have hrest : a.item :: a.post = b.item :: b.post := by
    rw [Place.items, hpre] at ha
    exact List.append_cancel_left (ha.symm.trans hb)
  obtain ⟨hitem, hpost⟩ := List.cons.inj hrest
  obtain ⟨pre, item, post⟩ := a
  obtain ⟨pre', item', post'⟩ := b
  simp only at hpre hitem hpost
  rw [hpre, hitem, hpost]

end Stache
