/-
  Rules for whitespace control, and what it takes to follow one.

  A RULE says what is to be left of a scanned content, given its place in the file.  A tree follows
  the rule when each of its contents, at any depth, is what the rule leaves of some content of the
  file (`Program.Follows`).  Since the pass is a list of spots, each at a place of its own, the tree
  follows the rule exactly when every spot does (`Program.follows_iff`).
-/
import Stache.Proofs.Whitespace.Descent

namespace Stache

section Rule

variable (rule : Place → List Char → List Char)

/-- The content `c` of a tree is some content of the file, as it was scanned, less what the rule
    takes from it. -/
def Content.Follows (items : List Item) (c : Content) : Prop :=
  ∃ place ∈ places items, ∃ scanned ∈ place.item.scanned,
    c.span = scanned.span ∧ c.written = scanned.written
      ∧ c.value.toList = rule place scanned.value.toList

/-- Every content of the tree follows the rule. -/
def Program.Follows (items : List Item) (p : Program) : Prop :=
  ∀ c ∈ p.contents, c.Follows rule items

instance (items : List Item) (c : Content) : Decidable (c.Follows rule items) :=
  inferInstanceAs (Decidable (∃ place ∈ places items, ∃ scanned ∈ place.item.scanned,
    c.span = scanned.span ∧ c.written = scanned.written
      ∧ c.value.toList = rule place scanned.value.toList))

instance (items : List Item) (p : Program) : Decidable (p.Follows rule items) :=
  inferInstanceAs (Decidable (∀ c ∈ p.contents, c.Follows rule items))

/-- The cuts of a spot leave what the rule leaves. -/
def Spot.Follows (spot : Spot) : Prop :=
  ∀ c, spot.found = .content c →
    (c.cutAll spot.cuts).value.toList = rule spot.toPlace c.value.toList

theorem Item.FormsLeaf.scanned_eq {item : Item} {c : Content} (h : item.FormsLeaf (.content c)) :
    item.scanned = some c := by
  cases h with
  | content h => rw [Item.scanned, h]

variable {rule}

/-- The rule holds of a tree when it holds of the spots. -/
theorem Program.follows_iff {text : List Char} {items : List Item} {o : Outline} {p : Program}
    {standalone : Bool} (hscan : Item.Scan .origin text items) (ho : o.Valid)
    (hitems : o.items = items) (hleaves : p.leaves = (o.spots standalone .top).map Spot.leaf) :
    p.Follows rule items ↔ ∀ spot ∈ o.spots standalone .top, spot.Follows rule := by
  have hplace := hitems ▸ o.spots_place ho standalone
  constructor
  · intro h spot hspot c hc
    obtain ⟨hmem, hform⟩ := hplace spot hspot
    have hleaf : c.cutAll spot.cuts ∈ p.contents := by
      rw [Program.mem_contents, hleaves]
      exact List.mem_map.2 ⟨spot, hspot, by rw [Spot.leaf, hc, Leaf.cut]⟩
    obtain ⟨place, hplace, scanned, hscanned, hspan, -, hvalue⟩ := h _ hleaf
    have hform : spot.item.scanned = some c := by
      rw [hc] at hform
      exact hform.scanned_eq
    -- The content was found at the very place of the spot, since it starts there.
    have heq : place = spot.toPlace := by
      apply hscan.place_eq_of_start_eq hplace hmem
      rw [← Item.start_eq_of_scanned hscanned, ← hspan, Content.cutAll_span,
        Item.start_eq_of_scanned hform]
    subst heq
    obtain rfl : c = scanned := Option.some.inj (hform.symm.trans hscanned)
    exact hvalue
  · intro h c hc
    rw [Program.mem_contents, hleaves] at hc
    obtain ⟨spot, hspot, hleaf⟩ := List.mem_map.1 hc
    obtain ⟨hmem, hform⟩ := hplace spot hspot
    match hfound : spot.found with
    | .partialCall indent span =>
      rw [Spot.leaf, hfound] at hleaf
      cases hleaf
    | .content scanned =>
      rw [Spot.leaf, hfound, Leaf.cut, Leaf.content.injEq] at hleaf
      subst hleaf
      rw [hfound] at hform
      exact ⟨spot.toPlace, hmem, scanned, hform.scanned_eq, Content.cutAll_span ..,
        Content.cutAll_written .., h spot hspot scanned hfound⟩

end Rule

end Stache
