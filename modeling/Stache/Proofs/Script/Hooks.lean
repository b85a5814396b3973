/-
  Templates that are refused, and code that needs no hook.

  With knowledge of all helpers, code has no use for the hook that stands in for missing ones.  Two
  facts meet here: which templates are refused (`Template.compileUnder_refuses`), and that a tree,
  which is like itself, is compiled to code that is like itself in the strict sense
  (`Specification.ofProgram_alike`).
-/
import Stache.Proofs.Script.Refusals
import Stache.Proofs.Script.Twins

namespace Stache

open Script in
/-- Where all helpers have to be known, code does not mention the hook for missing ones. -/
theorem Template.compileUnder_hookless {text : String} {source : Option String} {standalone : Bool}
    {t : Template} (h : Template.parse text source standalone = .ok t) {o : CompilerOptions}
    (honly : o.knownHelpersOnly = true) {compiled : Compiled}
    (hcompile : t.compileUnder o = .ok compiled) : hookless none compiled.code.toList = true := by
  obtain ⟨s, hs, hcode, -⟩ := Template.compileUnder_ok hcompile
  have hself : t.root.Alike true t.root :=
    Program.alike_self fun q hq st hst call hcall => Template.parse_numeric h hq hst hcall
  have hboth := Specification.ofProgram_alike (fun _ => honly) hself
  rw [hs] at hboth
  rw [hcode]
  cases hboth with
  | ok halike => exact halike.code.hookless

/-- **Which templates are refused**, and what for.  With well-typed options, a template that is
    parsed is refused exactly if a partial has more than one parameter or a helper is called that
    should be known and is not; the failure is of the kind of what is wrong; and if all helpers have
    to be known, the code makes no use of the hook for missing ones. -/
theorem Compiler.standard_refuses {text : String} {fields fields' : Json.Fields} {t : Template}
    {o : CompilerOptions} (hparse : Compiler.standard.parse text fields = .ok t)
    (hoptions : CompilerOptions.read fields' = .ok o) :
    ((∃ failure, Compiler.standard.compile t fields' = .error failure)
        ↔ t.root.HasOverfullPartial ∨ t.root.HasUnknownHelper o)
      ∧ (∀ failure, Compiler.standard.compile t fields' = .error failure →
        (¬ t.root.HasUnknownHelper o → ∃ count position,
            failure = .partialArguments count position)
          ∧ (¬ t.root.HasOverfullPartial → ∃ name position,
            failure = .unknownHelper name position))
      ∧ ∀ compiled, Compiler.standard.compile t fields' = .ok compiled →
        o.knownHelpersOnly = true → Script.hookless none compiled.code.toList = true := by
  obtain ⟨_, _, hparsed⟩ := Compiler.parse_standard hparse
  have hrun : Compiler.standard.compile t fields' = t.compileUnder o := by
    show (CompilerOptions.read fields' >>= fun o => t.compileUnder o) = _
    rw [hoptions]
    rfl
  obtain ⟨hiff, hreports⟩ := Template.compileUnder_refuses hparsed o
  rw [hrun]
  refine ⟨hiff, fun failure hfailure => ?kinds, fun compiled hcompiled honly =>
    Template.compileUnder_hookless hparsed honly hcompiled⟩
  case kinds =>
    have hreport := hreports failure hfailure
    -- no other failure comes from a template that was parsed
    cases failure with
    | partialArguments count position =>
      exact ⟨fun _ => ⟨count, position, rfl⟩, fun hnone => (hnone hreport).elim⟩
    | unknownHelper name position =>
      exact ⟨fun hnone => (hnone hreport).elim, fun _ => ⟨name, position, rfl⟩⟩
    | parse | computedHelper | options => exact hreport.elim

/-- The arguments of a block parameter are never looked at, and a partial is given a call of a
    helper that is always there.  The last content is not code. -/
theorem Compiler.standard_refuses_at_parameter :
    let text := "\x7b\x7b#each a as |x|\x7d\x7d\x7b\x7bx (b)\x7d\x7d\x7b\x7bc\x7d\x7d"
      ++ "\x7b\x7b/each\x7d\x7d"
      ++ "\x7b\x7b> (d e) (lookup f 'g') h=1\x7d\x7dcontainer.hooks.helperMissing"
    let fields : Json.Fields :=
      [("knownHelpersOnly", .bool true), ("knownHelpers", .object [("d", .bool true)])]
    ∃ t o compiled, Compiler.standard.parse text [] = .ok t
      ∧ CompilerOptions.read fields = .ok o
      ∧ Compiler.standard.compile t fields = .ok compiled
      ∧ ¬ t.root.HasOverfullPartial ∧ ¬ t.root.HasUnknownHelper o
      ∧ Script.hookless none compiled.code.toList = true := by
  intro text fields
  obtain ⟨compiled, hrun⟩ := exists_of_isOk
    (e := Compiler.standard.parse text [] >>= fun t => Compiler.standard.compile t fields)
    (by decide +kernel)
  obtain ⟨t, hparse, hcompile⟩ := exists_of_bind_ok hrun
  obtain ⟨o, hoptions, honly⟩ := exists_ok (P := fun o => o.knownHelpersOnly = true)
    (e := CompilerOptions.read fields) (by decide)
  obtain ⟨hiff, -, hhookless⟩ := Compiler.standard_refuses hparse hoptions
  have hnone : ¬ (t.root.HasOverfullPartial ∨ t.root.HasUnknownHelper o) := by
    rw [← hiff, hcompile]
    rintro ⟨failure, hfailure⟩
    cases hfailure
  exact ⟨t, o, compiled, hparse, hoptions, hcompile, fun h => hnone (.inl h),
    fun h => hnone (.inr h), hhookless compiled hcompile honly⟩

end Stache
