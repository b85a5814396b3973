/-
  What the forms of code refer to.

  Each form of code refers to the programs that its parts refer to, in the order of its parts, and a
  section of a block is the only part that refers to a program by itself.  There is one lemma for
  each writer, in the order in which the writers stand: the fixed texts of its form are silent, and
  begin with no letter behind a part that is not closed, which is decided (`Form.isSilent`).
  Of the parts it is assumed that they refer to what they should; that paths start from variables
  that functions have is for whoever knows where the paths come from (`Base.Allowed`).
-/
import Stache.Proofs.Script.Mentions

namespace Stache.Script

open Text (scriptQuoted joined braces brackets field)

/-! ## Numbers -/

/-- The number of a program, if it is one, -/
def Child.numbers : Child → List Nat
  | .noop => []
  | .program number _ => [number]

/-- those of both sections, -/
def sectionNumbers : Option Sections → List Nat
  | none => []
  | some s => s.main.numbers ++ s.inverse.numbers

/-- that of a body, -/
def bodyNumbers : Option Child → List Nat
  | none => []
  | some child => child.numbers

/-- The numbers of the programs that an operand makes use of. -/
def Operand.numbers : Operand → List Nat
  | .text _ | .mustache _ _ => []
  | .block i => sectionNumbers i.options.sections
  | .partialCall call => bodyNumbers call.body

/-- and that of a decorator. -/
def Decorator.numbers (d : Decorator) : List Nat := bodyNumbers d.body

section Forms

variable {f : Features} {closed : Bool} {numbers : List Nat}

/-! ## Places -/

/-- Functions have the variable that the look-up starts from. -/
def Base.Allowed (f : Features) : Base → Prop
  | .context | .data _ => True
  | .ancestor _ => Mention.depths.Allowed f
  | .blockParam _ _ => Mention.blockParams.Allowed f

/-- The base of a path, if functions have the variable, -/
theorem Base.refers_write {base : Base} (h : base.Allowed f) : Refers f closed base.write [] := by
  match base with
  | .context => exact .of_quiet (by decide)
  | .data 0 => exact .of_quiet (by decide)
  | .data (up + 1) =>
    rw [Base.write_data]
    exact .fill (by decide) (Nat.le_refl _) (.one (refers_numeral _))
  | .ancestor up =>
    have hword : Refers f true ancestorForm.first.text [] :=
      .of_variable (by decide) (fun _ => rfl) rfl rfl h
    rw [Base.write_ancestor]
    exact .fillBehind hword (by decide) (Nat.le_refl _) (.one (refers_numeral up))
  | .blockParam depth index =>
    have hword : Refers f true blockParamForm.first.text [] :=
      .of_variable (by decide) (fun _ => rfl) rfl rfl h
    rw [Base.write_blockParam]
    exact .fillBehind hword (by decide) (Nat.le_refl _)
      (.cons (refers_numeral depth) (.one (refers_numeral index)))

/-- its first property, -/
theorem refers_writeFirst {base : String} (h : Refers f false base []) (part : String) :
    Refers f closed (writeFirst base part) [] := by
  rw [writeFirst_eq]
  exact .fill (by decide) (Nat.le_refl _)
    (.cons h (.cons h (.cons (refers_scriptQuoted part) (.one h))))

/-- and each of the others. -/
theorem refers_writeNext {value : String} (h : Refers f false value []) (part : String) :
    Refers f closed (writeNext value part) [] := by
  rw [writeNext_eq]
  exact .fill (by decide) (Nat.le_refl _) (.cons h (.one (refers_scriptQuoted part)))

/-- A place is a base, and its properties one after another. -/
theorem Place.refers_write {p : Place} (h : p.base.Allowed f) : Refers f closed p.write [] := by
  obtain ⟨base, parts⟩ := p
  have hmore (parts : List String) (value : String) (h : ∀ {closed}, Refers f closed value []) :
      Refers f closed (parts.foldl writeNext value) [] := by
    induction parts generalizing value with
    | nil => exact h
    | cons part parts ih => exact ih _ (refers_writeNext h part)
  cases parts with
  | nil => exact Base.refers_write h
  | cons first more => exact hmore more _ (refers_writeFirst (Base.refers_write h) first)

/-! ## Expressions -/

/-- What is handed to a program is there to be handed, -/
theorem Features.refers_scopeArguments (f : Features) :
    ∀ text ∈ f.scopeArguments, Refers f closed text [] := by
  have hparams (h : Mention.blockParams.Allowed f) : Refers f closed "blockParams" [] :=
    .of_variable (by decide) (fun _ => rfl) rfl rfl h
  have hdepths (h : Mention.depths.Allowed f) : Refers f closed "depths" [] :=
    .of_variable (by decide) (fun _ => rfl) rfl rfl h
  intro text htext
  have hhere := htext
  obtain htext | htext := List.mem_append.1 htext <;> split at htext
  · obtain rfl := List.mem_singleton.1 htext
    exact hparams hhere
  · cases htext
  · obtain rfl := List.mem_singleton.1 htext
    exact hdepths hhere
  · cases htext

/-- however it is put together, -/
theorem append_appended (a b c d : String) : a ++ (b ++ c ++ d) = a ++ b ++ c ++ d := by
  simp only [String.append_assoc]

/-- so the program is all that is referred to. -/
theorem Child.refers_write (child : Child) : Refers f closed (child.write f) child.numbers := by
  cases child with
  | noop => exact .of_quiet (by decide)
  | program number params =>
    have hdata : Refers f false "data" [] := .of_quiet (by decide)
    have hrow : RowRefers f (["data", numeral params] ++ f.scopeArguments) [] :=
      .append (.cons hdata (.one (refers_numeral params))) (.of_forall f.refers_scopeArguments)
    have hargs : Refers f false (joined ", " (["data", numeral params] ++ f.scopeArguments)) [] :=
      hrow.joined (by decide)
    -- The number and the comma behind it belong to the use of the program.
    have htext : (Child.program number params).write f
        = "container.program(" ++ (numeral number ++ ", "
          ++ joined ", " (["data", numeral params] ++ f.scopeArguments)) ++ ")" :=
      rfl
    rw [htext, append_appended]
    exact ((refers_program number).append hargs).glue (by decide)

/-- Helpers refer to nothing, -/
theorem refers_writeHelper (name : String) : Refers f closed (writeHelper name) [] := by
  rw [writeHelper_eq]
  exact .fill (by decide) (Nat.le_refl _) (.one (refers_scriptQuoted name))

/-- the hook for missing ones neither, -/
theorem refers_missingHelper : Refers f closed missingHelper [] := .of_quiet (by decide)

/-- Functions have the variables that a callee is looked up by. -/
def Callee.Allowed (f : Features) : Callee → Prop
  | .known _ => True
  | .unknown _ place => place.base.Allowed f

/-- and so whatever is called. -/
theorem Callee.refers_write {callee : Callee} (h : callee.Allowed f) :
    Refers f closed callee.write [] := by
  cases callee with
  | known name => exact refers_writeHelper name
  | unknown name place =>
    have hname : RowRefers f (name.map writeHelper).toList [] := by
      refine .of_forall fun text htext => ?_
      obtain ⟨helper, -, rfl⟩ := Option.map_eq_some_iff.1 (Option.mem_toList.1 htext)
      exact refers_writeHelper helper
    have hrow := hname.append (.cons (Place.refers_write h) (.one refers_missingHelper))
    have hor : Refers f false (joined " || " _) [] := hrow.joined (by decide)
    rw [Callee.write_unknown]
    exact .fill (by decide) (Nat.le_refl _) (.one hor)

theorem refers_writePosition (p : Position) : Refers f closed (writePosition p) [] :=
  RowRefers.braces (.cons (refers_field (named_of_all rfl) (refers_numeral _))
    (.one (refers_field (named_of_all rfl) (refers_numeral _))))

theorem refers_writeSpan (s : Span) : Refers f closed (writeSpan s) [] :=
  RowRefers.braces (.cons (refers_field (named_of_all rfl) (refers_writePosition s.start))
    (.one (refers_field (named_of_all rfl) (refers_writePosition s.stop))))

/-- The rest of the options: data, -/
theorem Features.refers_dataField (f g : Features) : RowRefers f g.dataField [] := by
  have hdata : Refers f false "data" [] := .of_quiet (by decide)
  rw [dataField]
  split
  · exact .one (refers_field (named_of_all rfl) hdata)
  · exact .nil

/-- the two sections, -/
theorem refers_sectionFields (f : Features) (main inverse : Child) :
    RowRefers f [field "fn" (main.write f), field "inverse" (inverse.write f)]
      (main.numbers ++ inverse.numbers) :=
  .cons (refers_field (named_of_all rfl) main.refers_write)
    (.one (refers_field (named_of_all rfl) inverse.refers_write))

/-- The fields for the section that a partial or a decorator is given. -/
theorem refers_bodyFields (f : Features) (body : Option Child) :
    RowRefers f (bodyFields f body) (bodyNumbers body) := by
  cases body with
  | none => exact .nil
  | some child =>
    have hfields := refers_sectionFields f child .noop
    rwa [Child.numbers, List.append_nil] at hfields

/-- and spans. -/
theorem refers_writeRest (f : Features) (sections : Option Sections) (span : Span) :
    RowRefers f (writeRest f sections span) (sectionNumbers sections) := by
  have hspan : RowRefers f [field "loc" (writeSpan span)] [] :=
    .one (refers_field (named_of_all rfl) (refers_writeSpan span))
  cases sections with
  | none => exact .append (.append (.append .nil (f.refers_dataField f)) .nil) hspan
  | some s =>
    have hparams : RowRefers f (if 0 < s.params then [field "blockParams" (numeral s.params)]
        else []) [] := by
      split
      · exact .one (refers_field (named_of_all rfl) (refers_numeral _))
      · exact .nil
    exact (refers_sectionFields f s.main s.inverse).before (f.refers_dataField f)
      |>.before hparams |>.before hspan

section Calls

variable {callee : Callee} {args : List Code} {options : Options}

/-- Options refer to the sections, -/
theorem refers_options {name : String} {hash : List Entry} {sections : Option Sections}
    {span : Span} (hhash : RowRefers f (writeEntries f hash) []) :
    Refers f closed (Options.write f ⟨name, hash, sections, span⟩) (sectionNumbers sections) := by
  rw [Options.write]
  exact RowRefers.braces (.append (.cons (refers_field (named_of_all rfl)
    (refers_scriptQuoted name)) (.one (refers_field (named_of_all rfl) hhash.braces)))
    (refers_writeRest f sections span))

/-- and a call to what its options do. -/
theorem refers_helper (hcallee : callee.Allowed f) (hargs : RowRefers f (writeArgs f args) [])
    (hoptions : Refers f false (options.write f) numbers) :
    Refers f closed ((Code.helper callee args options).write f) numbers := by
  have hcontext : Refers f false "alias1" [] := .of_quiet (by decide)
  have hrow := RowRefers.append (.cons hcontext hargs) (.one hoptions)
  rw [Code.write_helper]
  exact (Callee.refers_write hcallee).append
    (.fill (by decide) (Nat.le_refl _) (RowRefers.one hrow.row))

end Calls

/-! ## Operands -/

theorem refers_orEmpty {value : String} (h : Refers f false value numbers) :
    Refers f closed (orEmpty value) numbers := by
  rw [orEmpty_eq]
  exact .fill (by decide) (Nat.le_refl _) (.one h)

theorem refers_writeEither (name : String) {place : Place} (h : place.base.Allowed f) :
    Refers f closed (writeEither name place) [] := by
  rw [writeEither_eq]
  exact .fill (by decide) (Nat.le_refl _)
    (.cons (refers_writeHelper name) (.cons (Place.refers_write h) (.one refers_missingHelper)))

theorem refers_writeIfFunction {text : String} (h : Refers f false text numbers) :
    Refers f closed (writeIfFunction text) numbers := by
  rw [writeIfFunction_eq]
  exact .fill (by decide) (Nat.le_refl _) (.one h)

theorem refers_writeLambda {place : Place} (h : place.base.Allowed f) :
    Refers f closed (writeLambda place) [] := by
  rw [writeLambda_eq]
  exact .fill (by decide) (Nat.le_refl _) (.one (Place.refers_write h))

/-- The parts of an invocation refer to the sections that it is given. -/
structure Invocation.Refers (f : Features) (i : Invocation) : Prop where
  helper : ∀ callee args, i.mode = .helper callee args →
    callee.Allowed f ∧ RowRefers f (writeArgs f args) []
  either : ∀ place, i.mode = .either place → place.base.Allowed f
  plain : ∀ place, i.mode = .plain place → place.base.Allowed f
  options : Script.Refers f true (i.options.write f) (sectionNumbers i.options.sections)

/-- A mustache has no sections, -/
theorem Invocation.refers_writeMustache {i : Invocation} (h : i.Refers f)
    (hnone : i.options.sections = none) : Script.Refers f closed (i.writeMustache f) [] := by
  have hoptions := h.options
  rw [hnone] at hoptions
  obtain ⟨mode, options⟩ := i
  cases mode with
  | helper callee args =>
    obtain ⟨hcallee, hargs⟩ := h.helper callee args rfl
    exact refers_helper hcallee hargs hoptions.loosen
  | either place =>
    rw [writeMustache_either]
    exact .fill (by decide) (Nat.le_refl _) (.cons (refers_writeEither _ (h.either place rfl))
      (.one (refers_writeIfFunction hoptions.loosen)))
  | plain place => exact refers_writeLambda (h.plain place rfl)

/-- the block of a helper or a value refers to its own, -/
theorem refers_eitherBlock (name : String) {place : Place} (h : place.base.Allowed f)
    {options : String} (hoptions : Refers f false options numbers) :
    Refers f closed (eitherBlock name place options) numbers := by
  have hname : Refers f false "options" [] := .of_quiet (by decide)
  refine .fill (by decide) (Nat.le_succ _) (.append (.one (refers_writeEither name h)) ?_)
  -- behind the options, nothing is referred to
  exact (RowRefers.one hoptions).before
    (.cons (refers_writeIfFunction hname) (.one (refers_writeHelper name)))

/-- and so does each block. -/
theorem Invocation.refers_writeBlock {i : Invocation} (h : i.Refers f) :
    Script.Refers f closed (i.writeBlock f) (sectionNumbers i.options.sections) := by
  have hoptions := h.options
  obtain ⟨mode, options⟩ := i
  cases mode with
  | helper callee args =>
    obtain ⟨hcallee, hargs⟩ := h.helper callee args rfl
    exact refers_orEmpty (refers_helper hcallee hargs hoptions.loosen)
  | either place =>
    rw [writeBlock_either]
    exact .fill (by decide) (Nat.le_refl _)
      (.one (refers_eitherBlock options.name (h.either place rfl) hoptions.loosen))
  | plain place =>
    rw [writeBlock_plain]
    exact refers_orEmpty (.fill (by decide) (Nat.le_refl _)
      (.append (.one (refers_writeLambda (h.plain place rfl))) (.one hoptions.loosen)))

/-- The parts of the call of a partial refer to nothing. -/
structure PartialCall.Refers (f : Features) (p : PartialCall) : Prop where
  target : ∀ code, p.target = .computed code → Script.Refers f false (code.write f) []
  context : Script.Refers f false (p.context.write f) []
  hash : ∀ hash, p.hash = some hash → RowRefers f (writeEntries f hash) []

/-- The name of a partial, computed or not. -/
theorem Target.refers_write {target : Target}
    (h : ∀ code, target = .computed code → Refers f false (code.write f) []) :
    Refers f false (target.write f) [] := by
  cases target with
  | named name =>
    rw [Target.write_named]
    exact .fill (by decide) (Nat.le_refl _) (.one (refers_scriptQuoted name))
  | enclosing => exact refers_undefined
  | computed code => exact h code rfl

/-- The fields of a call of a partial refer to its body, -/
theorem PartialCall.refers_fields {p : PartialCall} (h : p.Refers f) :
    RowRefers f (p.fields f) (bodyNumbers p.body) := by
  have hhelpers : Script.Refers f false "helpers" [] := .of_quiet (by decide)
  have hpartials : Script.Refers f false "partials" [] := .of_quiet (by decide)
  have hdecorators : Script.Refers f false "container.decorators" [] := .of_quiet (by decide)
  have hname : RowRefers f
      (p.target.name?.map fun name => field "name" (scriptQuoted name)).toList [] := by
    refine .of_forall fun text htext => ?_
    obtain ⟨name, -, rfl⟩ := Option.map_eq_some_iff.1 (Option.mem_toList.1 htext)
    exact refers_field (named_of_all rfl) (refers_scriptQuoted name)
  have hhash : RowRefers f ((p.hash.map (writeHash f)).toList.map (field "hash")) [] := by
    refine .of_forall fun text htext => ?_
    obtain ⟨value, hvalue, rfl⟩ := List.mem_map.1 htext
    obtain ⟨hash, hhash, rfl⟩ := Option.map_eq_some_iff.1 (Option.mem_toList.1 hvalue)
    exact refers_field (named_of_all rfl) (h.hash hash hhash).braces
  have hindent : RowRefers f
      (if p.indent.isEmpty then [] else [field "indent" (scriptQuoted p.indent)]) [] := by
    split
    · exact .nil
    · exact .one (refers_field (named_of_all rfl) (refers_scriptQuoted p.indent))
  have hlast : RowRefers f [field "helpers" "helpers", field "partials" "partials",
      field "decorators" "container.decorators"] [] :=
    .cons (refers_field (named_of_all rfl) hhelpers)
      (.cons (refers_field (named_of_all rfl) hpartials)
        (.one (refers_field (named_of_all rfl) hdecorators)))
  rw [PartialCall.fields_eq]
  -- only the block under the partial is referred to by a number
  exact hname.append hhash |>.append (refers_bodyFields f p.body)
    |>.before (f.refers_dataField f) |>.before hindent |>.before hlast

/-- and so does the call. -/
theorem PartialCall.refers_write {p : PartialCall} (h : p.Refers f) :
    Script.Refers f closed (p.write f) (bodyNumbers p.body) := by
  rw [PartialCall.write_eq]
  exact refers_orEmpty (.fill (by decide) (Nat.le_refl _)
    (.append (.one (Target.refers_write h.target)) (.append (.one h.context)
      (.one (refers_fields h).braces))))

/-- The parts of an operand refer to what they should. -/
def Operand.Refers (f : Features) : Operand → Prop
  | .text _ => True
  | .mustache _ i => i.Refers f ∧ i.options.sections = none
  | .block i => i.Refers f
  | .partialCall call => call.Refers f

/-- So it is with each operand, -/
theorem Operand.refers_write {o : Operand} (h : o.Refers f) :
    Script.Refers f closed (o.write f) o.numbers := by
  match o with
  | .text value => exact refers_scriptQuoted value
  | .mustache true i =>
    rw [Operand.write_escaped]
    exact .fill (by decide) (Nat.le_refl _) (.one (Invocation.refers_writeMustache h.1 h.2))
  | .mustache false i => exact refers_orEmpty (Invocation.refers_writeMustache h.1 h.2)
  | .block i => exact Invocation.refers_writeBlock h
  | .partialCall call => exact PartialCall.refers_write h

/-- The parts of a decorator refer to nothing. -/
structure Decorator.Refers (f : Features) (d : Decorator) : Prop where
  hash : RowRefers f (writeEntries f d.hash) []
  args : RowRefers f (writeArgs f d.args) []

/-- and each decorator. -/
theorem Decorator.refers_write {d : Decorator} (h : d.Refers f) :
    Script.Refers f closed (d.write f) d.numbers := by
  have hfirst : RowRefers f [field "name" (scriptQuoted d.name), field "hash" (writeHash f d.hash)]
      [] :=
    .cons (refers_field (named_of_all rfl) (refers_scriptQuoted d.name))
      (.one (refers_field (named_of_all rfl) h.hash.braces))
  have hargs : RowRefers f [field "args" (brackets (writeArgs f d.args))] [] :=
    .one (refers_field (named_of_all rfl) h.args.brackets)
  have hlast : RowRefers f [field "loc" (writeSpan d.span)] [] :=
    .one (refers_field (named_of_all rfl) (refers_writeSpan d.span))
  have hfields := hfirst.append (refers_bodyFields f d.body) |>.before hargs
    |>.before (f.refers_dataField f) |>.before hlast
  rw [Decorator.write_eq]
  exact .fill (by decide) (Nat.le_refl _)
    (.append (.one (refers_scriptQuoted d.name)) (.one hfields.braces))

end Forms

/-! ## Functions -/

/-- The operands and the decorators of a function refer to what they should. -/
structure Function.Refers (f : Features) (fn : Function) : Prop where
  operands : ∀ o ∈ fn.operands, o.value.Refers f
  decorators : ∀ d ∈ fn.decorators, d.value.Refers f

section Functions

variable {f : Features} {closed : Bool}

theorem refers_chunk {chunk : Chunk} {numbers : List Nat}
    (h : Refers f closed chunk.text numbers) : Refers f closed (textOf [chunk]) numbers := by
  have htext : textOf [chunk] = chunk.text := String.toList_inj.1 (by simp [textOf])
  rwa [htext]

theorem refers_sharedVariables : Refers f closed sharedVariables [] := by
  rw [sharedVariables_eq]
  exact .of_silent (Search.silent_fill_nil (by decide))

/-- A sum refers to what its operands do, in their order, -/
theorem refers_writeOperands {operands : List (Traced Operand)}
    (h : ∀ o ∈ operands, o.value.Refers f) :
    Refers f closed (textOf (writeOperands f operands))
      (operands.flatMap fun o => o.value.numbers) := by
  have hempty : Refers f closed "\"\"" [] := .of_quiet (by decide)
  have hplus : Refers f true "\n    + " [] := .of_quiet (by decide)
  fun_induction writeOperands f operands with
  | case1 =>
    show Refers f closed (textOf [.plain "\"\""]) []
    exact refers_chunk hempty
  | case2 operand =>
    rw [List.flatMap_singleton]
    exact refers_chunk (Operand.refers_write (h _ (List.mem_singleton_self _)))
  | case3 operand next rest ih =>
    rw [textOf_cons, textOf_cons, List.flatMap_cons]
    exact (Operand.refers_write (h _ (List.mem_cons_self ..))).append (hplus.append
      (ih fun o ho => h o (List.mem_cons_of_mem _ ho)))

/-- **The body of a function** refers to the programs that its operands make use of. -/
theorem Function.refers_bodyChunks {fn : Function} (h : fn.Refers f) :
    Script.Refers f closed (textOf (fn.bodyChunks f))
      (fn.operands.flatMap fun o => o.value.numbers) := by
  rw [textOf_bodyChunks]
  exact .fill (by decide) (Nat.le_refl _)
    (.append (.one refers_sharedVariables) (.one (refers_writeOperands h.operands)))

/-- decorators one after another do, -/
theorem refers_callChunks {decorators : List (Traced Decorator)}
    (h : ∀ d ∈ decorators, d.value.Refers f) :
    Refers f closed (textOf (callChunks f decorators))
      (decorators.flatMap fun d => d.value.numbers) := by
  induction decorators with
  | nil => exact .of_quiet (s := []) rfl
  | cons d more ih =>
    obtain ⟨hd, hmore⟩ := List.forall_mem_cons.1 h
    rw [textOf_callChunks_cons, List.flatMap_cons]
    exact .append (.fill (by decide) (Nat.le_refl _) (.one (Decorator.refers_write hd))) (ih hmore)

/-- and so does a second function. -/
theorem Function.refers_decoratorChunks {fn : Function} (h : fn.Refers f) :
    Script.Refers f closed (textOf (fn.decoratorChunks f))
      (fn.decorators.flatMap fun d => d.value.numbers) := by
  rw [textOf_decoratorChunks]
  exact .fill (by decide) (Nat.le_refl _)
    (.one (refers_sharedVariables.append (refers_callChunks h.decorators)))

/-! ## Texts of functions -/

/-- The beginning of a function. -/
theorem Features.refers_header (f : Features) :
    Refers f true (headerForm.fill [joined "," f.moreParameters]) [] := by
  have hcontext : Refers f false "depth0" [] := .of_quiet (by decide)
  have hhelpers : Refers f false "helpers" [] := .of_quiet (by decide)
  have hpartials : Refers f false "partials" [] := .of_quiet (by decide)
  have hdata : Refers f false "data" [] := .of_quiet (by decide)
  have hrow : RowRefers f f.moreParameters [] :=
    .append (.cons hcontext (.cons hhelpers (.cons hpartials (.one hdata))))
      (.of_forall f.refers_scopeArguments)
  exact .fill (by decide) (Nat.le_refl _) (.one hrow.row)

/-- A function makes use of the programs that its operands make use of. -/
theorem Function.programNumbers_write {fn : Function} (h : fn.Refers f) :
    programNumbers (textOf (fn.write f))
      = (fn.operands.flatMap fun o => o.value.numbers).map numeral := by
  have hbody : Script.Refers f true (textOf (fn.bodyChunks f)) _ := refers_bodyChunks h
  rw [textOf_write]
  exact (f.refers_header.append hbody).mentions.2

/-- The second functions have both variables, whatever the others have. -/
theorem refers_secondHeader (h : ∀ m : Mention, m.Allowed f) :
    Refers f true (secondHeaderForm.fill []) [] := by
  have h₁ : Refers f true "function(fn, props, container, depth0, data, " [] :=
    .of_quiet (by decide)
  have h₂ : Refers f true "blockParams, " [] :=
    .of_variable (by decide) (fun _ => rfl) rfl rfl (h .blockParams)
  have h₃ : Refers f true "depths) \x7b\n" [] :=
    .of_variable (by decide) (fun _ => rfl) rfl rfl (h .depths)
  have htext : secondHeaderForm.fill []
      = "function(fn, props, container, depth0, data, " ++ "blockParams, " ++ "depths) \x7b\n" := by
    decide
  rw [htext]
  exact (h₁.append h₂).append h₃

/-- The second function of a program makes use of those that its decorators make use of. -/
theorem Function.programNumbers_writeDecorators {fn : Function} (h : fn.Refers f) :
    programNumbers (textOf (fn.writeDecorators f))
      = (fn.decorators.flatMap fun d => d.value.numbers).map numeral := by
  have hall : ∀ m : Mention, m.Allowed ⟨f.data, true, true⟩ := by
    intro m
    cases m <;> simp [Mention.Allowed, Features.scopeArguments]
  have hbody : Script.Refers f true (textOf (fn.decoratorChunks f)) _ := refers_decoratorChunks h
  rw [textOf_writeDecorators]
  exact ((refers_secondHeader hall).append (hbody.mono fun m _ => hall m)).mentions.2

end Functions

end Stache.Script
