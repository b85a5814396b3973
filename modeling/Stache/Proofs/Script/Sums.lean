/-
  What functions put out, and what they run.

  1. **Forms as parts** (`IsPart.fill`) — where a form has a bracket open around all that is filled
     in, no mark in the holes is outside.

  2. **Operands and calls are parts** (`Operand.isPart_write`, `Decorator.isPart_write`): an operand
     is a literal or a form that ends with the bracket that closes its first one, so that a plus
     sign in it is never outside; and what runs a decorator has no semicolon outside.

  3. **The texts of functions** (`Returns`, `Runs`).  The first function of a program returns a sum,
     and the parts of the sum are its operands; the second function runs one decorator after the
     other, and its statements are these (`Function.returns_write`,
     `Function.runs_writeDecorators`).

  4. **The code as an object** (`Specification.isObject_code`): there is no comma outside in a
     function, so the fields of the code are read as they are written.
-/
import Stache.Proofs.Script.Fields
import Stache.Proofs.Script.Separators

namespace Stache.Script

open Text (isBlank braces field)

/-! ## Forms as parts -/

/-- The brackets that are due behind fixed texts, if a bracket is open wherever something is filled
    in and no mark is outside. -/
def closersPassed (mark : Char) : List Fixed → List Char → Option (List Char)
  | [], due => some due
  | _ :: _, [] => none
  | fixed :: rest, due :: closers =>
    match (Cursor.code (due :: closers)).pass mark fixed.chars with
    | some (.code after) => closersPassed mark rest after
    | _ => none

/-- The same for a form. -/
def Form.closersPassed (mark : Char) (form : Form) (before : List Char) : Option (List Char) :=
  match (Cursor.code before).pass mark form.first.chars with
  | some (.code after) => Script.closersPassed mark form.rest after
  | _ => none

/-- The last of the fixed texts. -/
def Form.last (form : Form) : Fixed :=
  form.rest.getLastD form.first

/-- Whether a form is a part with any balanced texts in it. -/
def Form.isPart (mark : Char) (form : Form) : Bool :=
  form.closersPassed mark [] = some [] && form.first.chars.head?.any (!isBlank ·)
    && form.last.chars.getLast?.any (!isBlank ·)

section Forms

variable {mark : Char} {before after : List Char} {form : Form} {holes : List String}

/-- **What is filled in is passed**, since a bracket is open around it. -/
theorem Passes.fill (hform : form.closersPassed mark before = some after)
    (h : holes.Forall Balanced) : Passes mark before (form.fill holes) after := by
  -- what is due in the middle of the form is what its own texts have left open
  have hbehind (rest : List Fixed) : ∀ (text : String) (holes : List String)
      (between : List Char), (∀ hole ∈ holes, Balanced hole) →
      closersPassed mark rest between = some after → Passes mark before text between →
      Passes mark before (fillBehind text rest holes) after := by
    induction rest with
    | nil =>
      intro text holes between hholes hrest htext
      cases hrest
      exact htext
    | cons fixed rest ih =>
      intro text holes between hholes hrest htext
      obtain _ | ⟨due, closers⟩ := between
      · cases hrest
      rw [closersPassed] at hrest
      split at hrest
      case h_2 => cases hrest
      rename_i next hfixed
      have hhole : Balanced (holes.headD "") := by
        cases holes with
        | nil => exact balanced_empty
        | cons hole holes => exact hholes hole (List.mem_cons_self ..)
      refine ih _ _ next (fun hole hhole => hholes hole (List.mem_of_mem_tail hhole)) hrest ?_
      rw [fixed.spelled]
      exact (htext.append (hhole.passes due closers)).append (.of_pass hfixed)
  rw [Form.closersPassed] at hform
  split at hform
  case h_2 => cases hform
  rename_i between hfirst
  refine hbehind form.rest form.first.text holes between (List.forall_iff_forall_mem.1 h) hform ?_
  rw [form.first.spelled]
  exact .of_pass hfirst

variable {p : Char → Bool}

/-- A filled form begins as its first text does, -/
theorem any_head?_fill (h : form.first.chars.head?.any p = true) (holes : List String) :
    (form.fill holes).toList.head?.any p = true := by
  have hbehind (rest : List Fixed) : ∀ (text : String) (holes : List String),
      text.toList.head?.any p = true →
      (fillBehind text rest holes).toList.head?.any p = true := by
    induction rest with
    | nil => exact fun text holes htext => htext
    | cons fixed rest ih =>
      exact fun text holes htext =>
        ih _ _ (any_head?_append (any_head?_append htext _) fixed.text)
  refine hbehind form.rest form.first.text holes ?_
  rwa [form.first.spelled, String.toList_ofList]

/-- and ends as its last one. -/
theorem any_getLast?_fill (h : form.last.chars.getLast?.any p = true) (holes : List String) :
    (form.fill holes).toList.getLast?.any p = true := by
  have hbehind (rest : List Fixed) : ∀ (text : String) (fixed : Fixed) (holes : List String),
      (rest.getLastD fixed).chars.getLast?.any p = true →
      (fillBehind (text ++ fixed.text) rest holes).toList.getLast?.any p = true := by
    induction rest with
    | nil =>
      intro text fixed holes hfixed
      refine any_getLast?_append text ?_
      rwa [fixed.spelled, String.toList_ofList]
    | cons next rest ih =>
      intro text fixed holes hlast
      exact ih _ next _ (by rwa [List.getLastD_cons] at hlast)
  have hfill := hbehind form.rest "" form.first holes h
  rwa [String.empty_append] at hfill

/-- **A form that encloses what is filled in is a part.** -/
theorem IsPart.fill (hform : form.isPart mark = true) (h : holes.Forall Balanced) :
    IsPart mark (form.fill holes) := by
  rw [Form.isPart, Bool.and_eq_true, Bool.and_eq_true] at hform
  obtain ⟨⟨hpasses, hfirst⟩, hlast⟩ := hform
  exact ⟨.fill (of_decide_eq_true hpasses) h, any_head?_fill hfirst holes,
    any_getLast?_fill hlast holes⟩

/-- So are two forms, if the second closes what the first leaves open. -/
theorem IsPart.fill₂ {second : Form} {more : List String}
    (hopens : form.closersPassed mark [] = some after)
    (hcloses : second.closersPassed mark after = some [])
    (hfirst : form.first.chars.head?.any (!isBlank ·) = true)
    (hlast : second.last.chars.getLast?.any (!isBlank ·) = true)
    (h : holes.Forall Balanced) (hmore : more.Forall Balanced) :
    IsPart mark (form.fill holes ++ second.fill more) :=
  ⟨(Passes.fill hopens h).append (.fill hcloses hmore),
    any_head?_append (any_head?_fill hfirst holes) _,
    any_getLast?_append _ (any_getLast?_fill hlast more)⟩

end Forms

/-! ## Operands are parts -/

section Parts

variable {f : Features}

/-- A value that may be missing is a part of a sum, -/
theorem isPart_orEmpty {value : String} (h : Balanced value) : IsPart '+' (orEmpty value) := by
  rw [orEmpty_eq]
  exact .fill (by decide) h

/-- and so is a block. -/
theorem Invocation.isPart_writeBlock {i : Invocation} (h : i.Balances f) :
    IsPart '+' (i.writeBlock f) := by
  obtain ⟨mode, options⟩ := i
  cases mode with
  | helper callee args =>
    exact isPart_orEmpty (balanced_helper (h.args callee args rfl) h.options)
  | either place =>
    rw [writeBlock_either]
    exact .fill (by decide) (balanced_eitherBlock options.name place h.options)
  | plain place => exact isPart_orEmpty (balanced_missingBlock place h.options)

/-- **An operand has no plus sign outside.** -/
theorem Operand.isPart_write {o : Operand} (h : o.Balances f) : IsPart '+' (o.write f) := by
  match o with
  | .text value => exact isPart_scriptQuoted (by decide) value
  | .mustache true invocation =>
    rw [write_escaped]
    exact .fill (by decide) (Invocation.balanced_writeMustache h)
  | .mustache false invocation => exact isPart_orEmpty (Invocation.balanced_writeMustache h)
  | .block invocation => exact Invocation.isPart_writeBlock h
  | .partialCall call => exact isPart_orEmpty (PartialCall.balanced_invocation h)

/-- **What runs a decorator has no semicolon outside.** -/
theorem Decorator.isPart_write {d : Decorator} (h : d.Balances f) :
    IsPart ';' ("fn = " ++ d.write f ++ " || fn") := by
  have hbefore : Passes ';' [] "fn = " [] := .of_pass rfl
  have hafter : Passes ';' [] " || fn" [] := .of_pass rfl
  have hcall : decoratorForm.closersPassed ';' [] = some [] := by decide
  refine .of_edges ((hbefore.append ?_).append hafter) (by decide) (by decide)
  rw [Decorator.write_eq]
  exact .fill hcall ⟨balanced_scriptQuoted d.name, balanced_braces (Decorator.balanced_fields h)⟩

end Parts

/-! ## Texts of functions -/

/-- A first function, by what it returns. -/
def Features.functionText (f : Features) (returned : String) : String :=
  "function(" ++ f.parameters ++ ") \x7b\n" ++ ("    var " ++ sharedVariables ++ "  return ")
    ++ returned ++ ";\n\x7d"

/-- A second function, by its statements. -/
def decoratorText (statements : String) : String :=
  "function(fn, props, container, depth0, data, blockParams, depths) \x7b\n"
    ++ ("    var decorators = container.decorators, helpers = container.helpers, "
      ++ sharedVariables)
    ++ statements ++ "\n\x7d"

/-- The text is a function that returns the sum of these operands, or the empty literal if there
    are none. -/
def Returns (f : Features) (text : String) (operands : List String) : Prop :=
  ∃ returned, text = f.functionText returned
    ∧ (operands = [] ∧ returned = "\"\""
      ∨ operands ≠ [] ∧ partsOf '+' returned.toList = some (operands.map String.toList))

/-- The text is a function that makes these calls one after another, each with the function that the
    one before it made, and returns what it has at last. -/
def Runs (text : String) (calls : List String) : Prop :=
  ∃ statements, text = decoratorText statements
    ∧ partsOf ';' statements.toList
      = some ((calls.map fun call => ("fn = " ++ call ++ " || fn").toList)
        ++ ["return fn".toList, []])

section Functions

variable {f : Features} {fn : Function}

/-- The parts of a sum are its operands. -/
theorem partsOf_writeOperands {operands : List (Traced Operand)} (hne : operands ≠ [])
    (h : ∀ o ∈ operands, o.value.Balances f) :
    partsOf '+' (textOf (writeOperands f operands)).toList
      = some ((operands.map fun o => o.value.write f).map String.toList) := by
  fun_induction writeOperands f operands with
  | case1 => exact absurd rfl hne
  | case2 operand =>
    have hpart := Operand.isPart_write (h _ (List.mem_singleton_self _))
    rw [textOf_cons, textOf_nil, String.append_empty]
    exact hpart.partsOf_single
  | case3 operand next rest ih =>
    have hpart := Operand.isPart_write (h _ (List.mem_cons_self ..))
    have hmore := ih (List.cons_ne_nil next rest) fun o ho => h o (List.mem_cons_of_mem _ ho)
    have hplus : (Chunk.plain "\n    + ").text.toList = "\n    ".toList ++ '+' :: [' '] := by decide
    rw [textOf_cons, textOf_cons, String.toList_append, String.toList_append, hplus,
      List.append_assoc]
    refine (hpart.partsOf_append (by decide) (by decide) _).trans ?_
    rw [List.append_eq, partsOf_blanks (by decide) (by decide), hmore]
    rfl

theorem Function.textOf_write_eq_functionText (f : Features) (fn : Function) :
    textOf (fn.write f) = f.functionText (textOf (writeOperands f fn.operands)) := by
  rw [write, textOf_append, textOf_append, textOf_cons, textOf_cons, textOf_cons, textOf_nil,
    String.append_empty, String.append_empty]
  rfl

/-- **A function returns the sum of its operands.** -/
theorem Function.returns_write (h : ∀ o ∈ fn.operands, o.value.Balances f) :
    Returns f (textOf (fn.write f)) (fn.operands.map fun o => o.value.write f) := by
  refine ⟨_, textOf_write_eq_functionText f fn, ?_⟩
  cases hoperands : fn.operands with
  | nil => exact .inl ⟨rfl, rfl⟩
  | cons first more =>
    rw [hoperands] at h
    exact .inr ⟨nofun, partsOf_writeOperands (List.cons_ne_nil first more) h⟩

/-- One more decorator to be called, -/
theorem toList_callChunks_cons (d : Traced Decorator) (more : List (Traced Decorator))
    (s : List Char) :
    (textOf (callChunks f (d :: more))).toList ++ s
      = "  ".toList ++ (("fn = " ++ d.value.write f ++ " || fn").toList
        ++ ([] ++ ';' :: (['\n'] ++ ((textOf (callChunks f more)).toList ++ s)))) := by
  have hbefore : "  fn = ".toList = "  ".toList ++ "fn = ".toList := by decide
  have hafter : " || fn;\n".toList = " || fn".toList ++ ';' :: ['\n'] := by decide
  rw [callChunks, List.flatMap_cons, textOf_append, textOf_cons, textOf_cons, textOf_cons,
    textOf_nil, String.append_empty]
  show ("  fn = " ++ (d.value.write f ++ " || fn;\n") ++ textOf (callChunks f more)).toList ++ s = _
  simp only [String.toList_append, hbefore, hafter, List.append_assoc, List.cons_append,
    List.nil_append]

/-- so the statements are these, and the return. -/
theorem partsOf_callChunks {decorators : List (Traced Decorator)}
    (h : ∀ d ∈ decorators, d.value.Balances f) :
    partsOf ';' ((textOf (callChunks f decorators)).toList ++ "  return fn;".toList)
      = some ((decorators.map fun d => ("fn = " ++ d.value.write f ++ " || fn").toList)
        ++ ["return fn".toList, []]) := by
  -- each decorator is a statement up to its semicolon
  induction decorators with
  | nil =>
    show partsOf ';' "  return fn;".toList = some ["return fn".toList, []]
    decide
  | cons d more ih =>
    have hpart := Decorator.isPart_write (h d (List.mem_cons_self ..))
    have hmore := ih fun other hother => h other (List.mem_cons_of_mem _ hother)
    -- A statement has an indentation in front of it, and a line feed behind its semicolon.
    rw [toList_callChunks_cons, partsOf_blanks (by decide) (by decide),
      hpart.partsOf_append (by decide) List.all_nil, partsOf_blanks (by decide) (by decide), hmore]
    rfl

/-- A second function with its statements. -/
theorem Function.textOf_writeDecorators_eq_decoratorText (f : Features) (fn : Function) :
    textOf (fn.writeDecorators f)
      = decoratorText (textOf (callChunks f fn.decorators) ++ "  return fn;") := by
  have hreturn (a b : String) :
      a ++ b ++ "  return fn;\n\x7d" = a ++ (b ++ "  return fn;") ++ "\n\x7d" := by
    have hlast : "  return fn;\n\x7d" = "  return fn;" ++ "\n\x7d" := by decide
    rw [hlast, String.append_assoc, String.append_assoc, String.append_assoc]
  rw [writeDecorators, textOf_append, textOf_append, textOf_cons, textOf_cons, textOf_cons,
    textOf_nil, String.append_empty, String.append_empty]
  exact hreturn _ _

/-- **A second function runs the decorators**, one after another. -/
theorem Function.runs_writeDecorators (h : ∀ d ∈ fn.decorators, d.value.Balances f) :
    Runs (textOf (fn.writeDecorators f)) (fn.decorators.map fun d => d.value.write f) := by
  refine ⟨_, textOf_writeDecorators_eq_decoratorText f fn, ?_⟩
  rw [String.toList_append, List.map_map]
  exact partsOf_callChunks h

end Functions

/-! ## The code as an object -/

section Objects

variable {f : Features}

/-- The header opens the brace that the body closes, and all else is between the two. -/
theorem Function.isPart_write {fn : Function} (h : fn.Balances f) :
    IsPart ',' (textOf (fn.write f)) := by
  have hopens : headerForm.closersPassed ',' [] = some ['}'] := by decide
  rw [textOf_write, textOf_bodyChunks]
  exact .fill₂ hopens (by decide) (by decide) (by decide) f.balanced_moreParameters
    ⟨balanced_sharedVariables, balanced_writeOperands h.operands⟩

theorem Function.isPart_writeDecorators {fn : Function} (h : fn.Balances f) :
    IsPart ',' (textOf (fn.writeDecorators f)) := by
  have hopens : secondHeaderForm.closersPassed ',' [] = some ['}'] := by decide
  rw [textOf_writeDecorators, textOf_decoratorChunks]
  exact .fill₂ hopens (by decide) (by decide) (by decide) trivial
    (balanced_sharedVariables.append (balanced_callChunks h.decorators))

/-- Its key is a name. -/
theorem isNameChar_of_mem_decoratorKey {number : Nat} :
    ∀ c ∈ (decoratorKey number).toList, isNameChar c = true := by
  rw [decoratorKey, String.toList_append, programKey, List.forall_mem_append]
  refine ⟨?_, named_of_all (rfl : ['_', 'd'].all isNameChar = true)⟩
  split
  · exact named_of_all rfl
  · exact fun c hc => isNameChar_of_mem_numeral hc

/-- **Code is read as an object with its entries.** -/
theorem Specification.isObject_code {s : Specification}
    (h : ∀ fn ∈ s.functions, fn.Balances s.features) : IsObject s.code s.entries := by
  have hmain : s.main.Balances s.features :=
    h _ (List.mem_append_right _ (List.mem_singleton_self _))
  have hprograms : ∀ fn ∈ s.programs, fn.Balances s.features :=
    fun fn hfn => h fn (List.mem_append_left _ hfn)
  -- each entry has a plain name for a key and one part for a value
  have hentries : ∀ e ∈ s.entries, (∀ c ∈ e.1.toList, isNameChar c = true) ∧ IsPart ',' e.2 := by
    unfold entries
    simp only [List.forall_mem_append, List.forall_mem_cons]
    refine ⟨?functions, ⟨named_of_all rfl, ⟨.of_pass rfl, by decide, by decide⟩⟩,
      ⟨named_of_all rfl, Function.isPart_write hmain⟩, ?decorators, ?flags⟩
    case functions =>
      refine List.forall_mem_map.2 fun entry hentry => ?_
      exact ⟨fun c hc => isNameChar_of_mem_numeral hc,
        Function.isPart_write (hprograms _ (List.fst_mem_of_mem_zipIdx hentry))⟩
    case decorators =>
      refine List.forall_mem_map.2 fun entry hentry => ?_
      have hfn := List.fst_mem_of_mem_zipIdx (List.mem_filter.1 hentry).1
      exact ⟨isNameChar_of_mem_decoratorKey,
        Function.isPart_writeDecorators (List.forall_mem_cons.2 ⟨hmain, hprograms⟩ _ hfn)⟩
    case flags =>
      have htrue : IsPart ',' "true" := ⟨.of_pass rfl, by decide, by decide⟩
      exact List.forall_mem_map.2 fun flag hflag => ⟨isNameChar_of_mem_flags hflag, htrue⟩
  have hne : s.entries ≠ [] := List.append_ne_nil_of_right_ne_nil _ (List.cons_ne_nil _ _)
  rw [s.code_eq]
  exact isObject_braces hne s.nodup_keys (fun e he => (hentries e he).1)
    fun e he => (hentries e he).2

end Objects

end Stache.Script
