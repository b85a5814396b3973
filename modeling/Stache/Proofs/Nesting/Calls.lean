/-
  The calls of a tree, and the tags that they are read from.

  Each statement with a call has it from the tokens of one tag of the file, be it the tag of the
  statement itself or the tag that opens the block.  That is so in every valid outline, and
  whitespace control keeps the calls as they are; so a fact about tokens, such as how their numbers
  are written, is one about all calls of a template that is parsed (`Template.parse_readFrom`).
-/
import Stache.Proofs.Grammar.Numbers
import Stache.Proofs.Nesting.Statements

namespace Stache

/-- The call of the statement, if it has one, is that of some tag. -/
def Statement.ReadFrom (items : List Item) (s : Statement) : Prop :=
  ∀ call, s.call? = some call →
    ∃ item ∈ items, ∃ tag, item.shape = .tag tag ∧ call.ReadFrom tag.tokens

section

variable {items : List Item}

theorem Statement.call?_erased (s : Statement) : s.erased.call? = s.call? := by
  cases s <;> rfl

theorem Statement.readFrom_erased {s : Statement} : s.erased.ReadFrom items ↔ s.ReadFrom items := by
  rw [Statement.ReadFrom, s.call?_erased, Statement.ReadFrom]

/-! ## Statements and blocks -/

/-- The call of a statement is read from the item that forms it. -/
theorem Item.Forms.readFrom {item : Item} {s : Statement} (h : item.Forms s)
    (hitem : item ∈ items) : s.ReadFrom items := by
  intro call hcall
  cases h with
  | content | comment => cases hcall
  | mustache h _ hread | decorator h _ hread =>
    cases hcall
    exact ⟨item, hitem, _, h, .call hread⟩
  | partialCall h _ hread =>
    cases hcall
    exact ⟨item, hitem, _, h, .partialCall hread⟩

theorem Opening.call?_wrap (o : Opening) (first : Program) (second : Option Program)
    (strip : BlockStrip) (stop : Position) :
    (o.wrap first second strip stop).call? = some o.call := by
  unfold Opening.wrap
  cases o.kind <;> rfl

/-- A block has the call of its open tag. -/
theorem Item.Opens.readFrom_wrap {item : Item} {chained : Bool} {o : Opening}
    (h : item.Opens chained o) (hitem : item ∈ items) {first : Program} {second : Option Program}
    {strip : BlockStrip} {stop : Position} :
    (o.wrap first second strip stop).ReadFrom items := by
  intro call hcall
  rw [o.call?_wrap] at hcall
  cases hcall
  obtain ⟨tag, hshape, -, -, -, hread⟩ := h
  split at hread
  · exact ⟨item, hitem, tag, hshape, .partialOpener hread⟩
  · exact ⟨item, hitem, tag, hshape, .opener hread⟩

end

/-! ## Files -/

/-- **Every call of a template that is parsed** is read from the tokens of some tag in it. -/
theorem Template.parse_readFrom {text : String} {source : Option String} {standalone : Bool}
    {t : Template} (h : Template.parse text source standalone = .ok t) :
    ∃ items, Item.readAll .origin text.toList = .ok items
      ∧ ∀ p ∈ t.root.family, ∀ s ∈ p.body, s.ReadFrom items := by
  have hall (items : List Item) : ItemsForall (Statement.ReadFrom items) items :=
    ⟨fun _ hitem _ hform => hform.readFrom hitem,
      fun _ hitem _ _ hopen _ _ _ _ => hopen.readFrom_wrap hitem⟩
  exact Template.parse_forall (fun items => (hall items).linked)
    (fun _ _ => Statement.readFrom_erased) h

/-- The numbers in the calls of a template that is parsed are written as numbers. -/
theorem Template.parse_numeric {text : String} {source : Option String} {standalone : Bool}
    {t : Template} (h : Template.parse text source standalone = .ok t) {p : Program}
    (hp : p ∈ t.root.family) {s : Statement} (hs : s ∈ p.body) {call : Call}
    (hcall : s.call? = some call) : call.IsNumeric := by
  obtain ⟨items, hitems, hread⟩ := Template.parse_readFrom h
  obtain ⟨item, hitem, tag, hshape, hcall⟩ := hread p hp s hs call hcall
  exact hcall.numeric ((Item.Scan.of_readAll hitems).numeric hitem hshape)

end Stache
