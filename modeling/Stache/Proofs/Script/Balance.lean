/-
  Generated code is balanced.

  Each form of code closes what it opens once its parts do, which is decided by its fixed texts
  (`Form.isBalanced`).  There is one lemma for each writer, in the order in which the writers stand
  (`Base.balanced_write` up to `Specification.wellFormed_code`); all that they assume of the parts is
  balance.  Of a number only its digits are written, so that nothing can be said of one that is made
  up; the parts of a call are therefore taken as they are (`balanced_helper`), and whoever knows
  where the call comes from has to see to its numbers.
-/
import Stache.Proofs.Script.Forms

namespace Stache.Script

open Text (scriptQuoted joined braces brackets field)

/-! ## Places -/

/-- The base of a path, -/
theorem Base.balanced_write (base : Base) : Balanced base.write := by
  match base with
  | .context => exact fun _ => .of_read rfl
  | .data 0 => exact fun _ => .of_read rfl
  | .data (up + 1) =>
    rw [Base.write_data]
    exact .fill rfl (balanced_numeral _)
  | .ancestor up =>
    rw [Base.write_ancestor]
    exact .fill rfl (balanced_numeral up)
  | .blockParam depth index =>
    rw [Base.write_blockParam]
    exact .fill rfl ⟨balanced_numeral depth, balanced_numeral index⟩

/-- its first property, -/
theorem balanced_writeFirst {base : String} (h : Balanced base) (part : String) :
    Balanced (writeFirst base part) := by
  rw [writeFirst_eq]
  exact .fill rfl ⟨h, h, balanced_scriptQuoted part, h⟩

/-- and each of the others. -/
theorem balanced_writeNext {value : String} (h : Balanced value) (part : String) :
    Balanced (writeNext value part) := by
  rw [writeNext_eq]
  exact .fill rfl ⟨h, balanced_scriptQuoted part⟩

/-- A place is a base, and its properties one after another. -/
theorem Place.balanced_write (p : Place) : Balanced p.write := by
  obtain ⟨base, parts⟩ := p
  have hmore (parts : List String) (value : String) (h : Balanced value) :
      Balanced (parts.foldl writeNext value) := by
    induction parts generalizing value with
    | nil => exact h
    | cons part parts ih => exact ih _ (balanced_writeNext h part)
  cases parts with
  | nil => exact base.balanced_write
  | cons first more => exact hmore more _ (balanced_writeFirst base.balanced_write first)

/-! ## Expressions -/

/-- What is handed to a program, -/
theorem Features.balanced_scopeArguments (f : Features) :
    ∀ text ∈ f.scopeArguments, Balanced text := by
  have hparams : Balanced "blockParams" := fun _ => .of_read rfl
  have hdepths : Balanced "depths" := fun _ => .of_read rfl
  intro text htext
  obtain htext | htext := List.mem_append.1 htext <;> split at htext
  · exact List.mem_singleton.1 htext ▸ hparams
  · cases htext
  · exact List.mem_singleton.1 htext ▸ hdepths
  · cases htext

/-- What a numbered program is made with. -/
theorem balanced_programArguments (f : Features) (number params : Nat) :
    Balanced (joined ", " ([numeral number, "data", numeral params] ++ f.scopeArguments)) := by
  have hdata : Balanced "data" := fun _ => .of_read rfl
  have hcomma : Balanced ", " := fun _ => .of_read rfl
  refine balanced_joined hcomma fun text htext => ?_
  obtain htext | htext := List.mem_append.1 htext
  · simp only [List.mem_cons, List.not_mem_nil, or_false] at htext
    obtain rfl | rfl | rfl := htext
    · exact balanced_numeral number
    · exact hdata
    · exact balanced_numeral params
  · exact f.balanced_scopeArguments text htext

theorem Child.balanced_write (f : Features) (child : Child) : Balanced (child.write f) := by
  cases child with
  | noop => exact fun _ => .of_read rfl
  | program number params =>
    rw [Child.write_program]
    exact .fill rfl (balanced_programArguments f number params)

/-- A helper, -/
theorem balanced_writeHelper (name : String) : Balanced (writeHelper name) := by
  rw [writeHelper_eq]
  exact .fill rfl (balanced_scriptQuoted name)

theorem balanced_missingHelper : Balanced missingHelper := fun _ => .of_read rfl

/-- and whatever is called. -/
theorem Callee.balanced_write (callee : Callee) : Balanced callee.write := by
  cases callee with
  | known name => exact balanced_writeHelper name
  | unknown name place =>
    have hor : Balanced " || " := fun _ => .of_read rfl
    rw [Callee.write_unknown]
    refine .fill rfl (balanced_joined hor fun text htext => ?_)
    obtain htext | htext := List.mem_append.1 htext
    · obtain ⟨helper, -, rfl⟩ := Option.map_eq_some_iff.1 (Option.mem_toList.1 htext)
      exact balanced_writeHelper helper
    · simp only [List.mem_cons, List.not_mem_nil, or_false] at htext
      obtain rfl | rfl := htext
      · exact place.balanced_write
      · exact balanced_missingHelper

theorem balanced_writePosition (p : Position) : Balanced (writePosition p) :=
  balanced_braces (List.forall_mem_cons.2 ⟨balanced_field (named_of_all rfl) (balanced_numeral _),
    List.forall_mem_singleton.2 (balanced_field (named_of_all rfl) (balanced_numeral _))⟩)

theorem balanced_writeSpan (s : Span) : Balanced (writeSpan s) :=
  balanced_braces (List.forall_mem_cons.2
    ⟨balanced_field (named_of_all rfl) (balanced_writePosition s.start),
      List.forall_mem_singleton.2 (balanced_field (named_of_all rfl)
        (balanced_writePosition s.stop))⟩)

/-- The rest of the options of a call: data, -/
theorem Features.balanced_dataField (f : Features) : ∀ text ∈ f.dataField, Balanced text := by
  have hdata : Balanced "data" := fun _ => .of_read rfl
  rw [dataField]
  split
  · exact List.forall_mem_singleton.2 (balanced_field (named_of_all rfl) hdata)
  · exact List.forall_mem_nil _

/-- The two sections of a call, as fields. -/
theorem balanced_sectionFields (f : Features) (main inverse : Child) :
    ∀ text ∈ [field "fn" (main.write f), field "inverse" (inverse.write f)], Balanced text :=
  List.forall_mem_cons.2 ⟨balanced_field (named_of_all rfl) (main.balanced_write f),
    List.forall_mem_singleton.2 (balanced_field (named_of_all rfl) (inverse.balanced_write f))⟩

/-- with sections and spans. -/
theorem balanced_writeRest (f : Features) (sections : Option Sections) (span : Span) :
    ∀ text ∈ writeRest f sections span, Balanced text := by
  have hspan : Balanced (field "loc" (writeSpan span)) :=
    balanced_field (named_of_all rfl) (balanced_writeSpan span)
  intro text htext
  -- only a block has sections, and names for what it gives them
  cases sections with
  | none =>
    obtain htext | htext := List.mem_append.1 htext
    · exact f.balanced_dataField text (by simpa using htext)
    · exact List.mem_singleton.1 htext ▸ hspan
  | some s =>
    obtain htext | htext := List.mem_append.1 htext
    · obtain htext | htext := List.mem_append.1 htext
      · obtain htext | htext := List.mem_append.1 htext
        · exact balanced_sectionFields f s.main s.inverse text htext
        · exact f.balanced_dataField text htext
      · dsimp only at htext
        split at htext
        · exact List.mem_singleton.1 htext
            ▸ balanced_field (named_of_all rfl) (balanced_numeral s.params)
        · cases htext
    · exact List.mem_singleton.1 htext ▸ hspan

section Calls

variable {f : Features} {callee : Callee} {args : List Code} {options : Options}

/-- The options of a call are balanced if its entries are, -/
theorem balanced_options {name : String} {hash : List Entry} {sections : Option Sections}
    {span : Span} (hhash : ∀ text ∈ writeEntries f hash, Balanced text) :
    Balanced (Options.write f ⟨name, hash, sections, span⟩) := by
  rw [Options.write]
  refine balanced_braces (List.forall_mem_append.2 ⟨List.forall_mem_cons.2
    ⟨balanced_field (named_of_all rfl) (balanced_scriptQuoted name), List.forall_mem_singleton.2
      (balanced_field (named_of_all rfl) (balanced_braces hhash))⟩, ?_⟩)
  exact balanced_writeRest f sections span

/-- and so is the call. -/
theorem balanced_helper (hargs : ∀ text ∈ writeArgs f args, Balanced text)
    (hoptions : Balanced (options.write f)) :
    Balanced ((Code.helper callee args options).write f) := by
  have hcontext : Balanced "alias1" := fun _ => .of_read rfl
  rw [Code.write_helper]
  refine callee.balanced_write.append (.fill rfl (balanced_row ?_))
  exact List.forall_mem_append.2
    ⟨List.forall_mem_cons.2 ⟨hcontext, hargs⟩, List.forall_mem_singleton.2 hoptions⟩

/-! ## Operands -/

theorem balanced_orEmpty {value : String} (h : Balanced value) : Balanced (orEmpty value) := by
  rw [orEmpty_eq]
  exact .fill rfl h

theorem balanced_writeEither (name : String) (place : Place) :
    Balanced (writeEither name place) := by
  rw [writeEither_eq]
  exact .fill rfl
    ⟨balanced_writeHelper name, place.balanced_write, balanced_missingHelper⟩

theorem balanced_writeIfFunction {text : String} (h : Balanced text) :
    Balanced (writeIfFunction text) := by
  rw [writeIfFunction_eq]
  exact .fill rfl h

theorem balanced_writeLambda (place : Place) : Balanced (writeLambda place) := by
  rw [writeLambda_eq]
  exact .fill rfl place.balanced_write

/-- The parts of an invocation are balanced. -/
structure Invocation.Balances (f : Features) (i : Invocation) : Prop where
  args : ∀ callee args, i.mode = .helper callee args → ∀ text ∈ writeArgs f args, Balanced text
  options : Balanced (i.options.write f)

/-- **A mustache is balanced** if its parts are, -/
theorem Invocation.balanced_writeMustache {i : Invocation} (h : i.Balances f) :
    Balanced (i.writeMustache f) := by
  obtain ⟨mode, options⟩ := i
  cases mode with
  | helper callee args => exact balanced_helper (h.args callee args rfl) h.options
  | either place =>
    rw [writeMustache_either]
    exact .fill rfl
      ⟨balanced_writeEither _ place, balanced_writeIfFunction h.options⟩
  | plain place => exact balanced_writeLambda place

/-- so is the block of a helper or a value, -/
theorem balanced_eitherBlock (name : String) (place : Place) {options : String}
    (h : Balanced options) : Balanced (eitherBlock name place options) := by
  have hoptions : Balanced "options" := fun _ => .of_read rfl
  exact .fill rfl ⟨balanced_writeEither name place, h,
    balanced_writeIfFunction hoptions, balanced_writeHelper name⟩

/-- that of a value, -/
theorem balanced_missingBlock (place : Place) {options : String} (h : Balanced options) :
    Balanced (missingBlockForm.fill [writeLambda place, options]) :=
  .fill rfl ⟨balanced_writeLambda place, h⟩

/-- and thus each block. -/
theorem Invocation.balanced_writeBlock {i : Invocation} (h : i.Balances f) :
    Balanced (i.writeBlock f) := by
  obtain ⟨mode, options⟩ := i
  cases mode with
  | helper callee args =>
    exact balanced_orEmpty (balanced_helper (h.args callee args rfl) h.options)
  | either place =>
    rw [writeBlock_either]
    exact .fill rfl (balanced_eitherBlock options.name place h.options)
  | plain place =>
    rw [writeBlock_plain]
    exact balanced_orEmpty (balanced_missingBlock place h.options)

/-- The parts of the call of a partial are balanced. -/
structure PartialCall.Balances (f : Features) (p : PartialCall) : Prop where
  target : ∀ code, p.target = .computed code → Balanced (code.write f)
  context : Balanced (p.context.write f)
  hash : ∀ hash, p.hash = some hash → ∀ text ∈ writeEntries f hash, Balanced text

/-- The name of a partial, computed or not. -/
theorem Target.balanced_write {target : Target}
    (h : ∀ code, target = .computed code → Balanced (code.write f)) :
    Balanced (target.write f) := by
  cases target with
  | named name =>
    rw [Target.write_named]
    exact .fill rfl (balanced_scriptQuoted name)
  | enclosing => exact fun _ => .of_read rfl
  | computed code => exact h code rfl

/-- The fields for the section that a partial or a decorator is given. -/
theorem balanced_bodyFields (f : Features) (body : Option Child) :
    ∀ text ∈ bodyFields f body, Balanced text := by
  cases body with
  | none => exact List.forall_mem_nil _
  | some child => exact balanced_sectionFields f child .noop

/-- The fields of a call of a partial, -/
theorem PartialCall.balanced_fields {p : PartialCall} (h : p.Balances f) :
    ∀ text ∈ p.fields f, Balanced text := by
  have hhelpers : Balanced "helpers" := fun _ => .of_read rfl
  have hpartials : Balanced "partials" := fun _ => .of_read rfl
  have hdecorators : Balanced "container.decorators" := fun _ => .of_read rfl
  rw [PartialCall.fields_eq]
  simp only [List.forall_mem_append]
  refine ⟨⟨⟨⟨⟨?name, ?hash⟩, balanced_bodyFields f p.body⟩, f.balanced_dataField⟩, ?indent⟩, ?last⟩
  case name =>
    intro text htext
    obtain ⟨name, -, rfl⟩ := Option.map_eq_some_iff.1 (Option.mem_toList.1 htext)
    exact balanced_field (named_of_all rfl) (balanced_scriptQuoted name)
  case hash =>
    intro text htext
    obtain ⟨value, hvalue, rfl⟩ := List.mem_map.1 htext
    obtain ⟨hash, hhash, rfl⟩ := Option.map_eq_some_iff.1 (Option.mem_toList.1 hvalue)
    exact balanced_field (named_of_all rfl) (balanced_braces (h.hash hash hhash))
  case indent =>
    split
    · exact List.forall_mem_nil _
    · exact List.forall_mem_singleton.2
        (balanced_field (named_of_all rfl) (balanced_scriptQuoted p.indent))
  case last =>
    exact List.forall_mem_cons.2 ⟨balanced_field (named_of_all rfl) hhelpers,
      List.forall_mem_cons.2 ⟨balanced_field (named_of_all rfl) hpartials,
        List.forall_mem_singleton.2 (balanced_field (named_of_all rfl) hdecorators)⟩⟩

/-- the call with them, -/
theorem PartialCall.balanced_invocation {p : PartialCall} (h : p.Balances f) :
    Balanced (p.invocation f) :=
  .fill rfl
    ⟨Target.balanced_write h.target, h.context, balanced_braces (balanced_fields h)⟩

/-- and all of it. -/
theorem PartialCall.balanced_write {p : PartialCall} (h : p.Balances f) :
    Balanced (p.write f) := by
  rw [PartialCall.write_eq]
  exact balanced_orEmpty (balanced_invocation h)

/-- The parts of an operand are balanced. -/
def Operand.Balances (f : Features) : Operand → Prop
  | .text _ => True
  | .mustache _ invocation | .block invocation => invocation.Balances f
  | .partialCall call => call.Balances f

/-- So it is with each operand. -/
theorem Operand.balanced_write {o : Operand} (h : o.Balances f) : Balanced (o.write f) := by
  match o with
  | .text value => exact balanced_scriptQuoted value
  | .mustache true invocation =>
    rw [Operand.write_escaped]
    exact .fill rfl (Invocation.balanced_writeMustache h)
  | .mustache false invocation => exact balanced_orEmpty (Invocation.balanced_writeMustache h)
  | .block invocation => exact Invocation.balanced_writeBlock h
  | .partialCall call => exact PartialCall.balanced_write h

/-- The parts of a decorator are balanced. -/
structure Decorator.Balances (f : Features) (d : Decorator) : Prop where
  hash : ∀ text ∈ writeEntries f d.hash, Balanced text
  args : ∀ text ∈ writeArgs f d.args, Balanced text

/-- The fields of a decorator, -/
theorem Decorator.balanced_fields {d : Decorator} (h : d.Balances f) :
    ∀ text ∈ d.fields f, Balanced text := by
  unfold Decorator.fields
  simp only [List.forall_mem_append]
  refine ⟨⟨⟨⟨?first, balanced_bodyFields f d.body⟩, ?args⟩, f.balanced_dataField⟩, ?last⟩
  case first =>
    exact List.forall_mem_cons.2 ⟨balanced_field (named_of_all rfl) (balanced_scriptQuoted d.name),
      List.forall_mem_singleton.2 (balanced_field (named_of_all rfl) (balanced_braces h.hash))⟩
  case args =>
    exact List.forall_mem_singleton.2 (balanced_field (named_of_all rfl) (balanced_brackets h.args))
  case last =>
    exact List.forall_mem_singleton.2
      (balanced_field (named_of_all rfl) (balanced_writeSpan d.span))

/-- and the call of it. -/
theorem Decorator.balanced_write {d : Decorator} (h : d.Balances f) : Balanced (d.write f) := by
  rw [Decorator.write_eq]
  exact .fill rfl
    ⟨balanced_scriptQuoted d.name, balanced_braces (Decorator.balanced_fields h)⟩

end Calls

/-! ## Functions -/

/-- Chunks that are balanced one by one. -/
theorem balanced_chunks {chunks : List Chunk} (h : ∀ chunk ∈ chunks, Balanced chunk.text) :
    Balanced (textOf chunks) := by
  induction chunks with
  | nil => exact balanced_empty
  | cons chunk chunks ih =>
    rw [textOf_cons]
    exact (h chunk (List.mem_cons_self ..)).append
      (ih fun other hother => h other (List.mem_cons_of_mem _ hother))

/-- The parameters of a function behind the first one. -/
theorem Features.balanced_moreParameters (f : Features) : Balanced (joined "," f.moreParameters) := by
  have hcontext : Balanced "depth0" := fun _ => .of_read rfl
  have hhelpers : Balanced "helpers" := fun _ => .of_read rfl
  have hpartials : Balanced "partials" := fun _ => .of_read rfl
  have hdata : Balanced "data" := fun _ => .of_read rfl
  exact balanced_row (List.forall_mem_append.2
    ⟨List.forall_iff_forall_mem.1 ⟨hcontext, hhelpers, hpartials, hdata⟩,
      f.balanced_scopeArguments⟩)

/-- The operands and the decorators of a function are balanced. -/
structure Function.Balances (f : Features) (fn : Function) : Prop where
  operands : ∀ o ∈ fn.operands, Balanced (o.value.write f)
  decorators : ∀ d ∈ fn.decorators, Balanced (d.value.write f)

/-- A sum of operands. -/
theorem balanced_writeOperands {f : Features} {operands : List (Traced Operand)}
    (h : ∀ o ∈ operands, Balanced (o.value.write f)) :
    Balanced (textOf (writeOperands f operands)) := by
  have hempty : Balanced "\"\"" := fun _ => .of_read rfl
  have hplus : Balanced "\n    + " := fun _ => .of_read rfl
  fun_induction writeOperands f operands with
  | case1 => exact balanced_chunks (List.forall_mem_singleton.2 hempty)
  | case2 operand =>
    exact balanced_chunks (List.forall_mem_singleton.2 (h _ (List.mem_singleton_self _)))
  | case3 operand next rest ih =>
    rw [textOf_cons, textOf_cons]
    exact (h _ (List.mem_cons_self ..)).append (hplus.append
      (ih fun o ho => h o (List.mem_cons_of_mem _ ho)))

theorem balanced_sharedVariables : Balanced sharedVariables := by
  rw [sharedVariables_eq]
  exact .fill rfl trivial

/-- The header opens the brace that the body closes. -/
theorem Function.balanced_write {f : Features} {fn : Function} (h : fn.Balances f) :
    Balanced (textOf (fn.write f)) := by
  have hopens : headerForm.closersBehind [] = some ['}'] := rfl
  rw [Function.textOf_write, Function.textOf_bodyChunks]
  exact .fill₂ hopens rfl f.balanced_moreParameters
    ⟨balanced_sharedVariables, balanced_writeOperands h.operands⟩

/-- Decorators one after another, -/
theorem balanced_callChunks {f : Features} {decorators : List (Traced Decorator)}
    (h : ∀ d ∈ decorators, Balanced (d.value.write f)) :
    Balanced (textOf (callChunks f decorators)) := by
  induction decorators with
  | nil => exact balanced_empty
  | cons d more ih =>
    obtain ⟨hd, hmore⟩ := List.forall_mem_cons.1 h
    rw [textOf_callChunks_cons]
    have hcall : Balanced (callChunkForm.fill [d.value.write f]) := .fill rfl hd
    exact hcall.append (ih hmore)

/-- in their function. -/
theorem Function.balanced_writeDecorators {f : Features} {fn : Function} (h : fn.Balances f) :
    Balanced (textOf (fn.writeDecorators f)) := by
  have hopens : secondHeaderForm.closersBehind [] = some ['}'] := rfl
  rw [Function.textOf_writeDecorators, Function.textOf_decoratorChunks]
  exact .fill₂ hopens rfl trivial
    (balanced_sharedVariables.append (balanced_callChunks h.decorators))

/-! ## Specifications -/

/-- A row of which each member is written with balanced chunks. -/
theorem balanced_flatMap {α : Type} {row : List α} {make : α → List Chunk}
    (h : ∀ a ∈ row, Balanced (textOf (make a))) : Balanced (textOf (row.flatMap make)) := by
  induction row with
  | nil => exact balanced_empty
  | cons a row ih =>
    rw [List.flatMap_cons, textOf_append]
    exact (h a (List.mem_cons_self ..)).append
      (ih fun other hother => h other (List.mem_cons_of_mem _ hother))

theorem mem_of_mem_numbered {programs : List Function} {entry : Nat × Function}
    (h : entry ∈ numbered programs) : entry.2 ∈ programs :=
  (List.of_mem_zip h).2

/-- The key of a field that comes first. -/
theorem balanced_firstKey {key : String} (h : ∀ c ∈ key.toList, isNameChar c = true) :
    Balanced ("\"" ++ key ++ "\":") := by
  have hcolon : Balanced ":" := fun _ => .of_read rfl
  rw [firstKey_eq]
  exact (balanced_name h).append hcolon

/-- The key of a field behind others. -/
theorem balanced_nextKey {key : String} (h : ∀ c ∈ key.toList, isNameChar c = true) :
    Balanced (",\"" ++ key ++ "\":") := by
  have hcomma : Balanced "," := fun _ => .of_read rfl
  rw [nextKey_eq]
  exact hcomma.append (balanced_firstKey h)

theorem isNameChar_of_mem_numeral {n : Nat} {c : Char} (h : c ∈ (numeral n).toList) :
    isNameChar c = true := by
  have hdigit := isDigit_of_mem_numeral h
  simp [isNameChar, Char.isAlphanum, hdigit]

/-- Flags are written without escapes. -/
theorem isNameChar_of_mem_flags {s : Specification} {flag : String} (h : flag ∈ s.flags) :
    ∀ c ∈ flag.toList, isNameChar c = true := by
  obtain ⟨⟨name, isSet⟩, hrow, hflag⟩ := List.mem_filterMap.1 h
  simp only [List.mem_cons, Prod.mk.injEq, List.not_mem_nil, or_false] at hrow
  dsimp only at hflag
  split at hflag
  · cases hflag
    obtain ⟨rfl, -⟩ | ⟨rfl, -⟩ | ⟨rfl, -⟩ | ⟨rfl, -⟩ | ⟨rfl, -⟩ := hrow <;>
      exact named_of_all rfl
  · cases hflag

/-- The flag of a specification. -/
theorem balanced_flag {s : Specification} {flag : String} (h : flag ∈ s.flags) :
    Balanced (",\"" ++ flag ++ "\":true") := by
  have htrue : Balanced "true" := fun _ => .of_read rfl
  rw [flag_eq]
  exact (balanced_nextKey (isNameChar_of_mem_flags h)).append htrue

/-- The second function of a program, under its key, -/
theorem Function.balanced_decoratedChunks {f : Features} {key : String} {fn : Function}
    (hkey : ∀ c ∈ key.toList, isNameChar c = true) (h : fn.Balances f) :
    Balanced (textOf (fn.decoratedChunks f key)) := by
  unfold Function.decoratedChunks
  split
  · exact balanced_empty
  · rw [textOf_cons]
    exact (balanced_nextKey hkey).append (Function.balanced_writeDecorators h)

/-- the functions of the programs, -/
theorem Specification.balanced_programChunks {s : Specification}
    (h : ∀ fn ∈ s.programs, fn.Balances s.features) : Balanced (textOf s.programChunks) := by
  have hcomma : Balanced "," := fun _ => .of_read rfl
  refine balanced_flatMap fun (n, fn) hentry => ?_
  dsimp only
  rw [List.cons_append, textOf_cons, textOf_append]
  refine (balanced_firstKey fun c hc => isNameChar_of_mem_numeral hc).append ?_
  exact (Function.balanced_write (h fn (mem_of_mem_numbered hentry))).append
    (balanced_chunks (List.forall_mem_singleton.2 hcomma))

/-- and all that is between the outermost braces. -/
theorem Specification.balanced_innerChunks {s : Specification}
    (h : ∀ fn ∈ s.functions, fn.Balances s.features) : Balanced (textOf s.innerChunks) := by
  have hprograms : ∀ fn ∈ s.programs, fn.Balances s.features :=
    fun fn hfn => h fn (List.mem_append_left _ hfn)
  have hmain : s.main.Balances s.features :=
    h _ (List.mem_append_right _ (List.mem_singleton_self _))
  have hversion : Balanced versionText := fun _ => .of_read rfl
  -- decorators have an entry of their own, behind the main one
  have hdecorated : Balanced (textOf ((numbered s.programs).flatMap fun entry =>
      entry.2.decoratedChunks s.features (numeral entry.1 ++ "_d"))) := by
    refine balanced_flatMap fun entry hentry => ?_
    refine Function.balanced_decoratedChunks (fun c hc => ?_)
      (hprograms entry.2 (mem_of_mem_numbered hentry))
    rw [String.toList_append] at hc
    obtain hc | hc := List.mem_append.1 hc
    · exact isNameChar_of_mem_numeral hc
    · exact named_of_all (rfl : ['_', 'd'].all isNameChar = true) c hc
  have hflags :
      Balanced (textOf (s.flags.map fun flag => .plain (",\"" ++ flag ++ "\":true"))) := by
    refine balanced_chunks fun chunk hchunk => ?_
    obtain ⟨flag, hflag, rfl⟩ := List.mem_map.1 hchunk
    exact balanced_flag hflag
  unfold Specification.innerChunks
  simp only [textOf_append]
  exact (((((balanced_programChunks hprograms).append
    (balanced_chunks (List.forall_mem_singleton.2 hversion))).append
    (Function.balanced_write hmain)).append
    (Function.balanced_decoratedChunks (named_of_all rfl) hmain)).append hdecorated).append hflags

/-- **The code of a specification is well formed**, if its operands and decorators are balanced. -/
theorem Specification.wellFormed_code {s : Specification}
    (h : ∀ fn ∈ s.functions, fn.Balances s.features) : WellFormed s.code.toList := by
  have hopen : (Chunk.plain "\x7b").text.toList = ['{'] := String.toList_ofList
  have hclose : (Chunk.plain "\x7d").text.toList = ['}'] := String.toList_ofList
  refine (balanced_innerChunks h).wellFormed ?_
  unfold Specification.code
  rw [chunks_eq, textOf_cons, textOf_append, textOf_cons, textOf_nil, String.append_empty,
    String.toList_append, String.toList_append, hopen, hclose, List.singleton_append]

end Stache.Script
