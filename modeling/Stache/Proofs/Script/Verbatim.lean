/-
  Text that is output as it is.

  A template whose text is ESCAPED has no tags (`readAll_escapeBraces`), so its tree is one content,
  or nothing for the empty text.  Neither whitespace control nor the generator changes such a tree:
  the rules for blanks are on behalf of tags, and the function that is generated has one operand.
  Its code is therefore known but for the literal, which is read back as the text.

  Together: any text with no backslash in front of two braces can be put into a template and comes
  out of the code unchanged (`Compiler.standard_verbatim`).
-/
import Stache.Proofs.Items.Escapes
import Stache.Proofs.Script.Fragments
import Stache.Proofs.Script.Literal
import Stache.Template.Compile

namespace Stache

/-! ## The tree -/

/-- The tree of an escaped text. -/
def Program.verbatim (text : String) : Program :=
  let written := String.ofList (escapeBraces text.toList)
  let span : Span := ⟨.origin, Position.origin.advance written.toList⟩
  ⟨if text = "" then [] else [.content ⟨text, written, false, false, span⟩], [], false, span⟩

/-- **An escaped text is one content**, or nothing. -/
theorem Program.ofText_escapeBraces {text : String} (h : ¬ ['\\', '{', '{'] <:+: text.toList) :
    Program.ofText (escapeBraces text.toList) = .ok (Program.verbatim text) := by
  have hstop : Position.origin.advance (escapeBraces text.toList)
      = Position.origin.advance (String.ofList (escapeBraces text.toList)).toList := by
    rw [String.toList_ofList]
  unfold Program.ofText Program.verbatim
  rw [readAll_escapeBraces h, hstop]
  by_cases htext : text = ""
  · subst htext
    rfl
  · have hne : text.toList ≠ [] := fun hnil => htext (String.toList_eq_nil_iff.1 hnil)
    simp only [if_neg hne, if_neg htext, String.ofList_toList]
    rfl

/-- There is no tag on whose behalf anything could be trimmed. -/
theorem Program.trimmed_verbatim (standalone : Bool) (text : String) :
    (Program.verbatim text).trimmed standalone = Program.verbatim text := by
  unfold Program.verbatim Program.trimmed Program.settle
  split <;> simp [settleBody]

/-! ## The code -/

namespace Script

/-- The code of a template that outputs one value. -/
def returning (f : Features) (value : String) : String :=
  "\x7b" ++ "\"compiler\":[8,\">= 4.3.0\"],\"main\":" ++ ("function(" ++ f.parameters ++ ") \x7b\n")
    ++ ("    var " ++ sharedVariables ++ "  return ") ++ value ++ ";\n\x7d"
    ++ (if f.data then ",\"useData\":true" else "") ++ "\x7d"

/-- Text as operands: the empty text is none. -/
def textOperands (text : String) (origin : Position) : List (Traced Operand) :=
  if text = "" then [] else [⟨.text text, origin⟩]

/-- A function without operands returns the empty text as well. -/
theorem textOf_writeOperands_text (f : Features) (text : String) (origin : Position) :
    textOf (writeOperands f (textOperands text origin)) = Text.scriptQuoted text := by
  unfold textOperands
  split
  · rename_i htext
    subst htext
    rfl
  · exact (textOf_cons _ _).trans String.append_empty

/-- Its code has no flags but the one for data, -/
theorem Specification.flags_text (data : Bool) (text : String) (origin : Position) :
    Specification.flags ⟨⟨data, false, false⟩, [], ⟨origin, textOperands text origin, []⟩⟩
      = if data then ["useData"] else [] := by
  unfold textOperands
  split <;> cases data <;> rfl

/-- and is one function that returns the text. -/
theorem Specification.code_text (data : Bool) (text : String) (origin : Position) :
    Specification.code ⟨⟨data, false, false⟩, [], ⟨origin, textOperands text origin, []⟩⟩
      = returning ⟨data, false, false⟩ (Text.scriptQuoted text) := by
  have hchunks : Specification.chunks
        ⟨⟨data, false, false⟩, [], ⟨origin, textOperands text origin, []⟩⟩
      = [.plain "\x7b", .plain "\"compiler\":[8,\">= 4.3.0\"],\"main\":",
          .traced ("function(" ++ Features.parameters ⟨data, false, false⟩ ++ ") \x7b\n") origin,
          .plain ("    var " ++ sharedVariables ++ "  return ")]
        ++ writeOperands ⟨data, false, false⟩ (textOperands text origin) ++ [.plain ";\n\x7d"]
        ++ (if data then ["useData"] else []).map (fun flag => .plain (",\"" ++ flag ++ "\":true"))
        ++ [.plain "\x7d"] := by
    rw [← flags_text data text origin]
    simp [Specification.chunks, Function.write, numbered]
  unfold Specification.code returning
  rw [hchunks]
  have hnil : textOf [] = "" := rfl
  have hplain (text : String) : (Chunk.plain text).text = text := rfl
  have htraced (text : String) : (Chunk.traced text origin).text = text := rfl
  simp only [textOf_append, textOf_cons, textOf_writeOperands_text, hnil, hplain, htraced,
    String.append_empty, String.append_assoc]
  cases data <;> rfl

/-- A text is compiled to itself, quoted. -/
theorem Specification.ofProgram_verbatim (options : CompilerOptions) (text : String) :
    ∃ s, Specification.ofProgram options (Program.verbatim text) = .ok s
      ∧ s.code = returning ⟨options.data.getD true, false, false⟩ (Text.scriptQuoted text) := by
  refine ⟨⟨⟨options.data.getD true, false, false⟩, [],
    ⟨.origin, textOperands text .origin, []⟩⟩, ?_, Specification.code_text ..⟩
  unfold Specification.ofProgram Program.verbatim textOperands Features.ofProgram
  by_cases htext : text = ""
  · subst htext
    rfl
  · have hempty : text.isEmpty = false := by simpa using htext
    simp only [if_neg htext]
    simp [compileStatements, compileStatement, hempty]
    rfl

end Script

/-! ## Together -/

/-- **Any text can be put into a template.**  Where no backslash stands in front of two braces, the
    escaped text is parsed under any options as one content with the text for its value, or as
    nothing if the text is empty.  The function that is generated returns one literal, and this is
    read as the text, whatever comes after it. -/
theorem Compiler.standard_verbatim {text : String} (h : ¬ ['\\', '{', '{'] <:+: text.toList)
    {fields fields' : Json.Fields} {options options' : CompilerOptions}
    (hoptions : CompilerOptions.ofFields fields = .ok options)
    (hoptions' : CompilerOptions.ofFields fields' = .ok options') :
    ∃ t compiled literal,
      Compiler.standard.parse (String.ofList (escapeBraces text.toList)) fields = .ok t
        ∧ t = ⟨options.sourceName, Program.verbatim text⟩
        ∧ Compiler.standard.compile t fields' = .ok compiled
        ∧ compiled.code = Script.returning ⟨options'.data.getD true, false, false⟩ literal
        ∧ (∀ rest, Script.readString (literal.toList ++ rest)
            = some (Script.utf16 text.toList, rest))
        ∧ (text = "" → literal = "\"\"") := by
  obtain ⟨s, hs, hcode⟩ := Script.Specification.ofProgram_verbatim options' text
  -- the file is one statement of content, or empty,
  have hparse : Compiler.standard.parse (String.ofList (escapeBraces text.toList)) fields
      = .ok ⟨options.sourceName, Program.verbatim text⟩ := by
    show (Except.mapError _ (CompilerOptions.ofFields fields) >>= _) = _
    rw [hoptions]
    show Except.mapError _ (Program.ofText _ >>= _) = _
    rw [String.toList_ofList, Program.ofText_escapeBraces h]
    show Except.ok _ = _
    rw [Program.trimmed_verbatim]
  -- and is compiled to one text
  have hcompile : Compiler.standard.compile ⟨options.sourceName, Program.verbatim text⟩ fields'
      = .ok ⟨s.code, options'.sourceName.map fun source =>
          Mapping.render source options'.destName s.chunks⟩ := by
    show (Except.mapError _ (CompilerOptions.ofFields fields') >>= _) = _
    rw [hoptions']
    show (Script.Specification.ofProgram options' (Program.verbatim text) >>= _) = _
    rw [hs]
    rfl
  refine ⟨_, _, Text.scriptQuoted text, hparse, rfl, hcompile, hcode,
    Script.readString_scriptQuoted text, ?_⟩
  rintro rfl
  rfl

/-- Three braces are an escape and a brace that is left. -/
theorem Compiler.standard_verbatim_at_braces :
    escapeBraces "\x7b\x7b\x7b\\\"\u2028".toList = "\\\x7b\x7b\x7b\\\"\u2028".toList
      ∧ ∃ t compiled literal, Compiler.standard.parse "\\\x7b\x7b\x7b\\\"\u2028" [] = .ok t
        ∧ t = ⟨none, Program.verbatim "\x7b\x7b\x7b\\\"\u2028"⟩
        ∧ Compiler.standard.compile t [("data", .bool false)] = .ok compiled
        ∧ compiled.code = Script.returning ⟨false, false, false⟩ literal
        ∧ Script.readString literal.toList
            = some (Script.utf16 "\x7b\x7b\x7b\\\"\u2028".toList, []) := by
  have hescape : escapeBraces "\x7b\x7b\x7b\\\"\u2028".toList
      = "\\\x7b\x7b\x7b\\\"\u2028".toList := by decide +kernel
  obtain ⟨t, compiled, literal, hparse, ht, hcompile, hcode, hread, -⟩ :=
    @Compiler.standard_verbatim "\x7b\x7b\x7b\\\"\u2028" (by decide +kernel) []
      [("data", .bool false)] _ _ rfl rfl
  rw [hescape, String.ofList_toList] at hparse
  exact ⟨hescape, t, compiled, literal, hparse, ht, hcompile, hcode, by simpa using hread []⟩

end Stache
