/-
  Forms of code that are alike.

  A form of code with parts that are alike is alike: its fixed texts do not have the hook for missing
  helpers in them, nor may begin it, which is decided (`Form.isHookless`).  There is one lemma for
  each writer, in the order in which the writers stand, up to the code of specifications
  (`Specification.Alike.code`).  The hook comes with two forms only, as one of their parts: the
  callee that is not known to be there (`Callee.Hooked`), and the value that may be a helper or not
  (`alike_writeEither`).
-/
import Stache.Proofs.Script.Alike
import Stache.Proofs.Script.Closed
import Stache.Proofs.Script.Form

namespace Stache.Script

open Text (scriptQuoted joined braces brackets field)

section Alike

variable {strict : Bool} {a a' b b' : String}

/-! ## Places -/

/-- The base of a path is like itself, -/
theorem Base.alike_write (base : Base) : Alike strict base.write base.write := by
  match base with
  | .context => exact .fixed (by decide)
  | .data 0 => exact .fixed (by decide)
  | .data (up + 1) =>
    rw [Base.write_data]
    exact .fill (by decide) (.cons (alike_numeral _) .nil)
  | .ancestor up =>
    rw [Base.write_ancestor]
    exact .fill (by decide) (.cons (alike_numeral up) .nil)
  | .blockParam depth index =>
    rw [Base.write_blockParam]
    exact .fill (by decide) (.cons (alike_numeral depth) (.cons (alike_numeral index) .nil))

/-- so are its first property, -/
theorem alike_writeFirst (h : Alike strict a a') (part : String) :
    Alike strict (writeFirst a part) (writeFirst a' part) := by
  rw [writeFirst_eq, writeFirst_eq]
  exact .fill (by decide) (.cons h (.cons h (.cons (alike_quoted part) (.cons h .nil))))

/-- and each of the others. -/
theorem alike_writeNext (h : Alike strict a a') (part : String) :
    Alike strict (writeNext a part) (writeNext a' part) := by
  rw [writeNext_eq, writeNext_eq]
  exact .fill (by decide) (.cons h (.cons (alike_quoted part) .nil))

/-- A place is a base, and its properties one after another. -/
theorem Place.alike_write (p : Place) : Alike strict p.write p.write := by
  obtain ⟨base, parts⟩ := p
  have hmore (parts : List String) (value : String) (h : Alike strict value value) :
      Alike strict (parts.foldl writeNext value) (parts.foldl writeNext value) := by
    induction parts generalizing value with
    | nil => exact h
    | cons part parts ih => exact ih _ (alike_writeNext h part)
  cases parts with
  | nil => exact base.alike_write
  | cons first more => exact hmore more _ (alike_writeFirst base.alike_write first)

/-! ## Expressions -/

/-- What is handed to a program, -/
theorem Features.rowAlike_scopeArguments (f : Features) :
    RowAlike strict f.scopeArguments f.scopeArguments := by
  have hparams : Alike strict "blockParams" "blockParams" := .fixed (by decide)
  have hdepths : Alike strict "depths" "depths" := .fixed (by decide)
  refine rowAlike_self fun text htext => ?_
  obtain htext | htext := List.mem_append.1 htext <;> split at htext
  · exact List.mem_singleton.1 htext ▸ hparams
  · cases htext
  · exact List.mem_singleton.1 htext ▸ hdepths
  · cases htext

/-- and the program. -/
theorem Child.alike_write (f : Features) (child : Child) :
    Alike strict (child.write f) (child.write f) := by
  cases child with
  | noop => exact .fixed (by decide)
  | program number params =>
    have hdata : Alike strict "data" "data" := .fixed (by decide)
    have hcomma : Alike strict ", " ", " := .fixed (by decide)
    have hrow : RowAlike strict ([numeral number, "data", numeral params] ++ f.scopeArguments)
        ([numeral number, "data", numeral params] ++ f.scopeArguments) :=
      List.rel_append (.cons (alike_numeral _) (.cons hdata (.cons (alike_numeral _) .nil)))
        f.rowAlike_scopeArguments
    rw [Child.write_program]
    exact .fill (by decide) (.cons (hrow.joined hcomma) .nil)

theorem alike_writeHelper (name : String) :
    Alike strict (writeHelper name) (writeHelper name) := by
  rw [writeHelper_eq]
  exact .fill (by decide) (.cons (alike_quoted name) .nil)

theorem alike_missingHelper (h : strict = false) : Alike strict missingHelper missingHelper :=
  .hook h

/-- A helper that is not known is replaced by the hook where it is missing. -/
def Callee.Hooked (strict : Bool) : Callee → Prop
  | .known _ => True
  | .unknown _ _ => strict = false

/-- What is called, with the hook or without. -/
theorem Callee.alike_write {callee : Callee} (h : callee.Hooked strict) :
    Alike strict callee.write callee.write := by
  cases callee with
  | known name => exact alike_writeHelper name
  | unknown name place =>
    have hor : Alike strict " || " " || " := .fixed (by decide)
    have hname : RowAlike strict (name.map writeHelper).toList (name.map writeHelper).toList := by
      refine rowAlike_self fun text htext => ?_
      obtain ⟨helper, -, rfl⟩ := Option.map_eq_some_iff.1 (Option.mem_toList.1 htext)
      exact alike_writeHelper helper
    have hrow := List.rel_append hname
      (.cons place.alike_write (.cons (alike_missingHelper h) .nil))
    rw [Callee.write_unknown]
    exact .fill (by decide) (.cons (RowAlike.joined hor hrow) .nil)

/-- The rest of the options: data, -/
theorem Features.rowAlike_dataField (f : Features) : RowAlike strict f.dataField f.dataField := by
  have hdata : Alike strict "data" "data" := .fixed (by decide)
  rw [dataField]
  split
  · exact .cons (alike_field (named_of_all rfl) hdata) .nil
  · exact .nil

/-- sections, -/
theorem rowAlike_sectionFields (f : Features) (main inverse : Child) :
    RowAlike strict [field "fn" (main.write f), field "inverse" (inverse.write f)]
      [field "fn" (main.write f), field "inverse" (inverse.write f)] :=
  .cons (alike_field (named_of_all rfl) (main.alike_write f))
    (.cons (alike_field (named_of_all rfl) (inverse.alike_write f)) .nil)

/-- the body of a partial or a decorator, -/
theorem rowAlike_bodyFields (f : Features) (body : Option Child) :
    RowAlike strict (bodyFields f body) (bodyFields f body) := by
  cases body with
  | none => exact .nil
  | some child => exact rowAlike_sectionFields f child .noop

/-- and spans, which need not be the same. -/
theorem rowAlike_writeRest (f : Features) (sections : Option Sections) (span span' : Span) :
    RowAlike strict (writeRest f sections span) (writeRest f sections span') := by
  have hspan : RowAlike strict [field "loc" (writeSpan span)] [field "loc" (writeSpan span')] :=
    .cons (.loc span span') .nil
  cases sections with
  | none => exact List.rel_append (List.rel_append f.rowAlike_dataField .nil) hspan
  | some s =>
    have hparams : RowAlike strict (if 0 < s.params then [field "blockParams" (numeral s.params)]
        else []) (if 0 < s.params then [field "blockParams" (numeral s.params)] else []) := by
      split
      · exact .cons (alike_field (named_of_all rfl) (alike_numeral _)) .nil
      · exact .nil
    exact List.rel_append (List.rel_append (List.rel_append
      (rowAlike_sectionFields f s.main s.inverse) f.rowAlike_dataField) hparams) hspan

section Calls

variable {f : Features} {callee : Callee} {args args' : List Code} {options options' : Options}

/-- Options are alike if their entries are, -/
theorem alike_options {name : String} {hash hash' : List Entry} {sections : Option Sections}
    {span span' : Span} (hhash : RowAlike strict (writeEntries f hash) (writeEntries f hash')) :
    Alike strict (Options.write f ⟨name, hash, sections, span⟩)
      (Options.write f ⟨name, hash', sections, span'⟩) := by
  rw [Options.write, Options.write]
  exact RowAlike.braces (List.rel_append (.cons (alike_field (named_of_all rfl)
    (alike_quoted name)) (.cons (alike_field (named_of_all rfl) hhash.braces) .nil))
    (rowAlike_writeRest f sections span span'))

/-- and so are calls of a helper. -/
theorem alike_helper (hcallee : callee.Hooked strict)
    (hargs : RowAlike strict (writeArgs f args) (writeArgs f args'))
    (hoptions : Alike strict (options.write f) (options'.write f)) :
    Alike strict ((Code.helper callee args options).write f)
      ((Code.helper callee args' options').write f) := by
  have hcontext : Alike strict "alias1" "alias1" := .fixed (by decide)
  have hcomma : Alike strict "," "," := .fixed (by decide)
  have hrow := List.rel_append (.cons hcontext hargs) (.cons hoptions .nil)
  rw [Code.write_helper, Code.write_helper]
  exact (Callee.alike_write hcallee).append
    (.fill (by decide) (.cons (RowAlike.joined hcomma hrow) .nil))

end Calls

/-! ## Operands -/

/-- Values that may be missing, -/
theorem alike_orEmpty (h : Alike strict a a') : Alike strict (orEmpty a) (orEmpty a') := by
  rw [orEmpty_eq, orEmpty_eq]
  exact .fill (by decide) (.cons h .nil)

/-- A value that may be missing is replaced by the hook. -/
theorem alike_writeEither (hloose : strict = false) (name : String) (place : Place) :
    Alike strict (writeEither name place) (writeEither name place) := by
  rw [writeEither_eq]
  exact .fill (by decide) (.cons (alike_writeHelper name)
    (.cons place.alike_write (.cons (alike_missingHelper hloose) .nil)))

theorem alike_writeIfFunction (h : Alike strict a a') :
    Alike strict (writeIfFunction a) (writeIfFunction a') := by
  rw [writeIfFunction_eq, writeIfFunction_eq]
  exact .fill (by decide) (.cons h .nil)

theorem alike_writeLambda (place : Place) :
    Alike strict (writeLambda place) (writeLambda place) := by
  rw [writeLambda_eq]
  exact .fill (by decide) (.cons place.alike_write .nil)

theorem alike_eitherBlock (hloose : strict = false) (name : String) (place : Place)
    (h : Alike strict a a') :
    Alike strict (eitherBlock name place a) (eitherBlock name place a') := by
  have hoptions : Alike strict "options" "options" := .fixed (by decide)
  exact .fill (by decide) (.cons (alike_writeEither hloose name place)
    (.cons h (.cons (alike_writeIfFunction hoptions) (.cons (alike_writeHelper name) .nil))))

section Operands

variable {f : Features}

/-- Values that are found in the same way, with arguments and options that are alike. -/
inductive Invocation.Alike (strict : Bool) (f : Features) : Invocation → Invocation → Prop where
  | helper {callee : Callee} {args args' : List Code} {options options' : Options}
      (hcallee : callee.Hooked strict)
      (hargs : RowAlike strict (writeArgs f args) (writeArgs f args'))
      (hoptions : Script.Alike strict (options.write f) (options'.write f)) :
      Alike strict f ⟨.helper callee args, options⟩ ⟨.helper callee args', options'⟩
  | either {place : Place} {options options' : Options} (hloose : strict = false)
      (hname : options.name = options'.name)
      (hoptions : Script.Alike strict (options.write f) (options'.write f)) :
      Alike strict f ⟨.either place, options⟩ ⟨.either place, options'⟩
  | plain {place : Place} {options options' : Options}
      (hoptions : Script.Alike strict (options.write f) (options'.write f)) :
      Alike strict f ⟨.plain place, options⟩ ⟨.plain place, options'⟩

/-- **Mustaches are alike** if their parts are, -/
theorem Invocation.Alike.writeMustache {i i' : Invocation} (h : i.Alike strict f i') :
    Script.Alike strict (i.writeMustache f) (i'.writeMustache f) := by
  cases h with
  | helper hcallee hargs hoptions => exact alike_helper hcallee hargs hoptions
  | either hloose hname hoptions =>
    rw [Invocation.writeMustache_either, Invocation.writeMustache_either, ← hname]
    exact .fill (by decide)
      (.cons (alike_writeEither hloose _ _) (.cons (alike_writeIfFunction hoptions) .nil))
  | plain hoptions => exact alike_writeLambda _

/-- and so are blocks. -/
theorem Invocation.Alike.writeBlock {i i' : Invocation} (h : i.Alike strict f i') :
    Script.Alike strict (i.writeBlock f) (i'.writeBlock f) := by
  cases h with
  | helper hcallee hargs hoptions => exact alike_orEmpty (alike_helper hcallee hargs hoptions)
  | either hloose hname hoptions =>
    rw [Invocation.writeBlock_either, Invocation.writeBlock_either, ← hname]
    exact .fill (by decide) (.cons (alike_eitherBlock hloose _ _ hoptions) .nil)
  | plain hoptions =>
    rw [Invocation.writeBlock_plain, Invocation.writeBlock_plain]
    exact alike_orEmpty (.fill (by decide) (.cons (alike_writeLambda _) (.cons hoptions .nil)))

/-- Calls of the same partial with what is alike. -/
structure PartialCall.Alike (strict : Bool) (f : Features) (p p' : PartialCall) : Prop where
  target : Script.Alike strict (p.target.write f) (p'.target.write f)
  name : p.target.name? = p'.target.name?
  context : Script.Alike strict (p.context.write f) (p'.context.write f)
  hash : RowAlike strict (p.hash.map (writeHash f)).toList (p'.hash.map (writeHash f)).toList
  body : p.body = p'.body
  indent : p.indent = p'.indent

/-- The fields of a call of a partial, -/
theorem PartialCall.Alike.fields {p p' : PartialCall} (h : p.Alike strict f p') :
    RowAlike strict (p.fields f) (p'.fields f) := by
  have hhelpers : Script.Alike strict "helpers" "helpers" := .fixed (by decide)
  have hpartials : Script.Alike strict "partials" "partials" := .fixed (by decide)
  have hdecorators : Script.Alike strict "container.decorators" "container.decorators" :=
    .fixed (by decide)
  rw [PartialCall.fields_eq, PartialCall.fields_eq, ← h.name, ← h.body, ← h.indent]
  refine List.rel_append (List.rel_append (List.rel_append (List.rel_append (List.rel_append
    ?name ?hash) (rowAlike_bodyFields f p.body)) f.rowAlike_dataField) ?indent) ?last
  case name =>
    refine rowAlike_self fun text htext => ?_
    obtain ⟨name, -, rfl⟩ := Option.map_eq_some_iff.1 (Option.mem_toList.1 htext)
    exact alike_field (named_of_all rfl) (alike_quoted name)
  -- the hash is the only field that differs
  case hash =>
    exact List.forall₂_map_left_iff.2 (List.forall₂_map_right_iff.2
      (h.hash.imp fun _ _ hash => alike_field (named_of_all rfl) hash))
  case indent =>
    split
    · exact .nil
    · exact .cons (alike_field (named_of_all rfl) (alike_quoted p.indent)) .nil
  case last =>
    exact .cons (alike_field (named_of_all rfl) hhelpers)
      (.cons (alike_field (named_of_all rfl) hpartials)
        (.cons (alike_field (named_of_all rfl) hdecorators) .nil))

/-- and the call with them. -/
theorem PartialCall.Alike.write {p p' : PartialCall} (h : p.Alike strict f p') :
    Script.Alike strict (p.write f) (p'.write f) := by
  rw [PartialCall.write_eq, PartialCall.write_eq]
  exact alike_orEmpty (.fill (by decide)
    (.cons h.target (.cons h.context (.cons h.fields.braces .nil))))

/-- Operands of the same kind with what is alike. -/
inductive Operand.Alike (strict : Bool) (f : Features) : Operand → Operand → Prop where
  | text (value : String) : Alike strict f (.text value) (.text value)
  | mustache (escaped : Bool) {i i' : Invocation} (h : i.Alike strict f i') :
      Alike strict f (.mustache escaped i) (.mustache escaped i')
  | block {i i' : Invocation} (h : i.Alike strict f i') : Alike strict f (.block i) (.block i')
  | partialCall {p p' : PartialCall} (h : p.Alike strict f p') :
      Alike strict f (.partialCall p) (.partialCall p')

/-- So it is with each operand, -/
theorem Operand.Alike.write {o o' : Operand} (h : o.Alike strict f o') :
    Script.Alike strict (o.write f) (o'.write f) := by
  cases h with
  | text value => exact alike_quoted value
  | mustache escaped h =>
    cases escaped with
    | true =>
      rw [Operand.write_escaped, Operand.write_escaped]
      exact .fill (by decide) (.cons h.writeMustache .nil)
    | false => exact alike_orEmpty h.writeMustache
  | block h => exact h.writeBlock
  | partialCall h => exact h.write

/-- which calls a partial in both. -/
theorem Operand.Alike.isPartial_eq {o o' : Operand} (h : o.Alike strict f o') :
    o.isPartial = o'.isPartial := by
  cases h <;> rfl

/-- Decorators of the same name with what is alike. -/
structure Decorator.Alike (strict : Bool) (f : Features) (d d' : Decorator) : Prop where
  name : d.name = d'.name
  hash : RowAlike strict (writeEntries f d.hash) (writeEntries f d'.hash)
  body : d.body = d'.body
  args : RowAlike strict (writeArgs f d.args) (writeArgs f d'.args)

/-- And so it is with decorators. -/
theorem Decorator.Alike.write {d d' : Decorator} (h : d.Alike strict f d') :
    Script.Alike strict (d.write f) (d'.write f) := by
  obtain ⟨name, hash, body, args, span⟩ := d
  obtain ⟨name', hash', body', args', span'⟩ := d'
  obtain ⟨rfl, hhash, rfl, hargs⟩ := h
  have hfirst : RowAlike strict [field "name" (scriptQuoted name), field "hash" (writeHash f hash)]
      [field "name" (scriptQuoted name), field "hash" (writeHash f hash')] :=
    .cons (alike_field (named_of_all rfl) (alike_quoted name))
      (.cons (alike_field (named_of_all rfl) hhash.braces) .nil)
  have hargs : RowAlike strict [field "args" (brackets (writeArgs f args))]
      [field "args" (brackets (writeArgs f args'))] :=
    .cons (alike_field (named_of_all rfl) hargs.brackets) .nil
  have hfields := List.rel_append (List.rel_append (List.rel_append (List.rel_append hfirst
    (rowAlike_bodyFields f body)) hargs) f.rowAlike_dataField) (.cons (.loc span span') .nil)
  rw [Decorator.write_eq, Decorator.write_eq]
  exact .fill (by decide) (.cons (alike_quoted name) (.cons (RowAlike.braces hfields) .nil))

/-! ## Functions -/

/-- Functions with operands and decorators that are alike, one by one. -/
structure Function.Alike (strict : Bool) (f : Features) (fn fn' : Function) : Prop where
  operands : List.Forall₂ (fun o o' => o.value.Alike strict f o'.value) fn.operands fn'.operands
  decorators : List.Forall₂ (fun d d' => d.value.Alike strict f d'.value) fn.decorators
    fn'.decorators

theorem alike_chunk {chunk chunk' : Chunk} (h : Alike strict chunk.text chunk'.text) :
    Alike strict (textOf [chunk]) (textOf [chunk']) := by
  have htext (chunk : Chunk) : textOf [chunk] = chunk.text :=
    String.toList_inj.1 (by simp [textOf])
  rwa [htext, htext]

theorem alike_chunks_cons {chunk chunk' : Chunk} {chunks chunks' : List Chunk}
    (h : Alike strict chunk.text chunk'.text)
    (hmore : Alike strict (textOf chunks) (textOf chunks')) :
    Alike strict (textOf (chunk :: chunks)) (textOf (chunk' :: chunks')) := by
  rw [textOf_cons, textOf_cons]
  exact h.append hmore

theorem alike_chunks_append {chunks chunks' more more' : List Chunk}
    (h : Alike strict (textOf chunks) (textOf chunks'))
    (hmore : Alike strict (textOf more) (textOf more')) :
    Alike strict (textOf (chunks ++ more)) (textOf (chunks' ++ more')) := by
  rw [textOf_append, textOf_append]
  exact h.append hmore

theorem alike_chunks {chunks chunks' : List Chunk}
    (h : List.Forall₂ (fun chunk chunk' => Alike strict chunk.text chunk'.text) chunks chunks') :
    Alike strict (textOf chunks) (textOf chunks') := by
  induction h with
  | nil => exact .fixed (s := []) rfl
  | cons h _ ih => exact alike_chunks_cons h ih

/-- Rows that are written chunk by chunk, member by member. -/
theorem alike_flatMap {α β : Type} {R : α → β → Prop} {row : List α} {row' : List β}
    {make : α → List Chunk} {make' : β → List Chunk} (hrow : List.Forall₂ R row row')
    (h : ∀ a b, R a b → Alike strict (textOf (make a)) (textOf (make' b))) :
    Alike strict (textOf (row.flatMap make)) (textOf (row'.flatMap make')) := by
  induction hrow with
  | nil => exact .fixed (s := []) rfl
  | cons hab _ ih =>
    rw [List.flatMap_cons, List.flatMap_cons]
    exact alike_chunks_append (h _ _ hab) ih

theorem alike_sharedVariables : Alike strict sharedVariables sharedVariables := by
  rw [sharedVariables_eq]
  exact .fill (by decide) .nil

/-- The beginning of a function. -/
theorem Features.alike_header (f : Features) :
    Alike strict (headerForm.fill [joined "," f.moreParameters])
      (headerForm.fill [joined "," f.moreParameters]) := by
  have hcomma : Alike strict "," "," := .fixed (by decide)
  have hcontext : Alike strict "depth0" "depth0" := .fixed (by decide)
  have hhelpers : Alike strict "helpers" "helpers" := .fixed (by decide)
  have hpartials : Alike strict "partials" "partials" := .fixed (by decide)
  have hdata : Alike strict "data" "data" := .fixed (by decide)
  have hrow : RowAlike strict f.moreParameters f.moreParameters :=
    List.rel_append (.cons hcontext (.cons hhelpers (.cons hpartials (.cons hdata .nil))))
      f.rowAlike_scopeArguments
  exact .fill (by decide) (.cons (hrow.joined hcomma) .nil)

/-- Sums of operands. -/
theorem alike_writeOperands {operands operands' : List (Traced Operand)}
    (h : List.Forall₂ (fun o o' => o.value.Alike strict f o'.value) operands operands') :
    Alike strict (textOf (writeOperands f operands)) (textOf (writeOperands f operands')) := by
  have hempty : Alike strict "\"\"" "\"\"" := .fixed (by decide)
  have hplus : Alike strict "\n    + " "\n    + " := .fixed (by decide)
  induction h with
  | nil => exact alike_chunk hempty
  | cons hfirst hmore ih =>
    cases hmore with
    | nil => exact alike_chunk hfirst.write
    | cons =>
      rw [writeOperands, writeOperands]
      exact alike_chunks_cons hfirst.write (alike_chunks_cons hplus ih)

variable {fn fn' : Function}

/-- Functions are alike if their operands are, -/
theorem Function.Alike.write (h : fn.Alike strict f fn') :
    Script.Alike strict (textOf (fn.write f)) (textOf (fn'.write f)) := by
  rw [textOf_write, textOf_write, textOf_bodyChunks, textOf_bodyChunks]
  exact f.alike_header.append (.fill (by decide)
    (.cons alike_sharedVariables (.cons (alike_writeOperands h.operands) .nil)))

/-- decorators one after another, -/
theorem alike_callChunks {decorators decorators' : List (Traced Decorator)}
    (h : List.Forall₂ (fun d d' => d.value.Alike strict f d'.value) decorators decorators') :
    Script.Alike strict (textOf (callChunks f decorators)) (textOf (callChunks f decorators')) := by
  induction h with
  | nil => exact .fixed (s := []) rfl
  | cons hd _ ih =>
    rw [textOf_callChunks_cons, textOf_callChunks_cons]
    exact .append (.fill (by decide) (.cons hd.write .nil)) ih

/-- and so second functions, -/
theorem Function.Alike.writeDecorators (h : fn.Alike strict f fn') :
    Script.Alike strict (textOf (fn.writeDecorators f)) (textOf (fn'.writeDecorators f)) := by
  rw [textOf_writeDecorators, textOf_writeDecorators, textOf_decoratorChunks,
    textOf_decoratorChunks]
  exact .append (.fill (by decide) .nil) (.fill (by decide)
    (.cons (alike_sharedVariables.append (alike_callChunks h.decorators)) .nil))

/-- which both have or have not. -/
theorem Function.Alike.isEmpty_decorators (h : fn.Alike strict f fn') :
    fn.decorators.isEmpty = fn'.decorators.isEmpty := by
  have hlength := h.decorators.length_eq
  rw [Bool.eq_iff_iff, List.isEmpty_iff_length_eq_zero, List.isEmpty_iff_length_eq_zero, hlength]

theorem alike_firstKey {key : String} (h : ∀ c ∈ key.toList, isNameChar c = true) :
    Alike strict ("\"" ++ key ++ "\":") ("\"" ++ key ++ "\":") := by
  have hcolon : Alike strict ":" ":" := .fixed (by decide)
  rw [firstKey_eq]
  exact (alike_name h).append hcolon

theorem alike_nextKey {key : String} (h : ∀ c ∈ key.toList, isNameChar c = true) :
    Alike strict (",\"" ++ key ++ "\":") (",\"" ++ key ++ "\":") := by
  have hcomma : Alike strict "," "," := .fixed (by decide)
  rw [nextKey_eq]
  exact hcomma.append (alike_firstKey h)

/-- A second function under its key. -/
theorem Function.Alike.decoratedChunks (h : fn.Alike strict f fn') {key : String}
    (hkey : ∀ c ∈ key.toList, isNameChar c = true) :
    Script.Alike strict (textOf (fn.decoratedChunks f key))
      (textOf (fn'.decoratedChunks f key)) := by
  unfold Function.decoratedChunks
  rw [h.isEmpty_decorators]
  split
  · exact .fixed (s := []) rfl
  · exact alike_chunks_cons (alike_nextKey hkey) h.writeDecorators

end Operands

/-! ## Specifications -/

/-- The same features, and functions that are alike, one by one. -/
structure Specification.Alike (strict : Bool) (s s' : Specification) : Prop where
  features : s.features = s'.features
  programs : List.Forall₂ (Function.Alike strict s.features) s.programs s'.programs
  main : s.main.Alike strict s.features s'.main

/-- Programs that belong together have the same numbers. -/
theorem forall₂_numbered {R : Function → Function → Prop} {programs programs' : List Function}
    (h : List.Forall₂ R programs programs') :
    List.Forall₂ (fun entry entry' => entry.1 = entry'.1 ∧ R entry.2 entry'.2)
      (numbered programs) (numbered programs') := by
  have hzip (numbers : List Nat) : List.Forall₂ (fun entry entry' => entry.1 = entry'.1
      ∧ R entry.2 entry'.2) (numbers.zip programs) (numbers.zip programs') := by
    induction h generalizing numbers with
    | nil => simp
    | cons hfirst _ ih =>
      cases numbers with
      | nil => exact .nil
      | cons n numbers => exact .cons ⟨rfl, hfirst⟩ (ih numbers)
  rw [numbered, numbered, h.length_eq]
  exact hzip _

variable {s s' : Specification}

/-- The flags are the same. -/
theorem Specification.Alike.flags_eq (h : s.Alike strict s') : s.flags = s'.flags := by
  have hfunctions : List.Forall₂ (Function.Alike strict s.features) s.functions s'.functions :=
    List.rel_append h.programs (.cons h.main .nil)
  have hdecorators : s.usesDecorators = s'.usesDecorators :=
    any_eq_of_forall₂ hfunctions fun _ _ hfn => congrArg not hfn.isEmpty_decorators
  have hpartials : s.usesPartials = s'.usesPartials :=
    any_eq_of_forall₂ hfunctions fun _ _ hfn =>
      any_eq_of_forall₂ hfn.operands fun _ _ ho => ho.isPartial_eq
  rw [Specification.flags, Specification.flags, hdecorators, hpartials, h.features]

/-- **The code of specifications that are alike** is alike. -/
theorem Specification.Alike.code (h : s.Alike strict s') : Script.Alike strict s.code s'.code := by
  have hopen : Script.Alike strict "\x7b" "\x7b" := .fixed (by decide)
  have hcomma : Script.Alike strict "," "," := .fixed (by decide)
  have hversion : Script.Alike strict versionText versionText := .fixed (by decide)
  have hclose : Script.Alike strict "\x7d" "\x7d" := .fixed (by decide)
  have hnumber (n : Nat) : ∀ c ∈ (numeral n).toList, isNameChar c = true :=
    fun _ hc => isNameChar_of_mem_numeral hc
  have hsecond (n : Nat) : ∀ c ∈ (numeral n ++ "_d").toList, isNameChar c = true := by
    intro c hc
    rw [String.toList_append] at hc
    obtain hc | hc := List.mem_append.1 hc
    · exact hnumber n c hc
    · exact named_of_all (rfl : ['_', 'd'].all isNameChar = true) c hc
  -- the programs, and behind them the entries for their decorators
  have hprograms : Script.Alike strict (textOf s.programChunks) (textOf s'.programChunks) := by
    refine alike_flatMap (forall₂_numbered h.programs) ?_
    rintro ⟨n, fn⟩ ⟨_, fn'⟩ ⟨rfl, hfn⟩
    exact alike_chunks_append (alike_chunks_cons (alike_firstKey (hnumber n))
      (h.features ▸ hfn.write)) (alike_chunk hcomma)
  have hseconds : Script.Alike strict
      (textOf ((numbered s.programs).flatMap fun entry =>
        entry.2.decoratedChunks s.features (numeral entry.1 ++ "_d")))
      (textOf ((numbered s'.programs).flatMap fun entry =>
        entry.2.decoratedChunks s'.features (numeral entry.1 ++ "_d"))) := by
    refine alike_flatMap (forall₂_numbered h.programs) ?_
    rintro ⟨n, fn⟩ ⟨_, fn'⟩ ⟨rfl, hfn⟩
    exact h.features ▸ hfn.decoratedChunks (hsecond n)
  have hflags : Script.Alike strict
      (textOf (s.flags.map fun flag => .plain (",\"" ++ flag ++ "\":true")))
      (textOf (s'.flags.map fun flag => .plain (",\"" ++ flag ++ "\":true"))) := by
    have htrue : Script.Alike strict "true" "true" := .fixed (by decide)
    rw [← h.flags_eq]
    refine alike_chunks (List.forall₂_same.2 fun chunk hchunk => ?_)
    obtain ⟨flag, hflag, rfl⟩ := List.mem_map.1 hchunk
    show Script.Alike strict (",\"" ++ flag ++ "\":true") (",\"" ++ flag ++ "\":true")
    rw [flag_eq]
    exact (alike_nextKey (isNameChar_of_mem_flags hflag)).append htrue
  rw [Specification.code, Specification.code, Specification.chunks_eq, Specification.chunks_eq]
  refine alike_chunks_cons hopen (alike_chunks_append (alike_chunks_append (alike_chunks_append
    (alike_chunks_append (alike_chunks_append (alike_chunks_append hprograms
      (alike_chunk hversion)) (h.features ▸ h.main.write))
      (h.features ▸ h.main.decoratedChunks (named_of_all rfl))) hseconds) hflags)
    (alike_chunk hclose))

end Alike

end Stache.Script
