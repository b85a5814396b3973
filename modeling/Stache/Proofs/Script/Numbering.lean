/-
  The numbers of programs.

  The programs of a tree are numbered in preorder, the main section of a block before its inverse
  one, and the root is number zero.  Of each program it can be told from the tree alone which
  function is to make use of it: the function of the program with the block that it is a section
  of, or, for the section of a decorator block, that program's second function (`Statement.users`).

  Compiling hands the numbers out in advance and passes on the next one, and the invariant that is
  carried through the recursion is about all of the code that is made so far: the numbers used in it
  are those handed out, each of them used once, and by the function that the tree says
  (`compileStatements_uses`, for whole templates `Specification.uses_ofProgram`).
-/
import Stache.Proofs.Script.Programs
import Stache.Proofs.Script.References

namespace Stache.Script

/-! ## Users -/

/-- The name of a program's function, by the program's number. -/
def programKey (number : Nat) : String := if number = 0 then "main" else numeral number

/-- The name of the function that runs a program's decorators. -/
def decoratorKey (number : Nat) : String := programKey number ++ "_d"

end Stache.Script

namespace Stache

open Script (programKey decoratorKey)

mutual

/-- For each program in a statement, in order, the function that is to make use of it.  The
    statement belongs to program number `owner`, and the first program in it is number `next`. -/
def Statement.users (owner next : Nat) : Statement → List String
  | .block _ main inverse _ _ =>
    sectionUsers (programKey owner) next main
      ++ sectionUsers (programKey owner) (next + (sectionPrograms main).length) inverse
  | .partialBlock _ body _ _ _ => body.users (programKey owner) next
  | .decoratorBlock _ body _ _ _ => body.users (decoratorKey owner) next
  | .content _ | .comment _ _ _ | .mustache _ _ _ _ | .partialCall _ _ _ _ | .decorator _ _ _ => []

/-- The same for program number `next` and those in it, where `user` makes use of the program. -/
def Program.users (user : String) (next : Nat) : Program → List String
  | ⟨body, _, _, _⟩ => user :: bodyUsers next (next + 1) body

/-- The users of the programs in a section, -/
def sectionUsers (user : String) (next : Nat) : Option Program → List String
  | none => []
  | some p => p.users user next

/-- and of those in a body, each statement counting on from the one in front. -/
def bodyUsers (owner next : Nat) : List Statement → List String
  | [] => []
  | s :: rest => s.users owner next ++ bodyUsers owner (next + s.programs.length) rest

end

mutual

/-- Each program has its user: those in a statement, -/
theorem Statement.length_users (owner next : Nat) (s : Statement) :
    (s.users owner next).length = s.programs.length := by
  match s with
  | .content _ | .comment _ _ _ | .mustache _ _ _ _ | .partialCall _ _ _ _ | .decorator _ _ _ => rfl
  | .block _ main inverse _ _ =>
    rw [Statement.users, Statement.programs, List.length_append, List.length_append,
      length_sectionUsers, length_sectionUsers]
  | .partialBlock _ body _ _ _ | .decoratorBlock _ body _ _ _ =>
    rw [Statement.users, Statement.programs, body.length_users]

/-- in a program, -/
theorem Program.length_users (user : String) (next : Nat) (p : Program) :
    (p.users user next).length = p.family.length := by
  match p with
  | ⟨body, _, _, _⟩ =>
    rw [Program.users, Program.family, List.length_cons, List.length_cons, length_bodyUsers]

/-- in a section, -/
theorem length_sectionUsers (user : String) (next : Nat) (p : Option Program) :
    (sectionUsers user next p).length = (sectionPrograms p).length := by
  match p with
  | none => rfl
  | some p => exact p.length_users user next

/-- and in a body. -/
theorem length_bodyUsers (owner next : Nat) (body : List Statement) :
    (bodyUsers owner next body).length = (bodyPrograms body).length := by
  match body with
  | [] => rfl
  | s :: rest =>
    rw [bodyUsers, bodyPrograms, List.length_append, List.length_append, s.length_users,
      length_bodyUsers]

end

/-! The walk passes the number of a program on to its statements.  That it is the right number can
be said without a walk: each program is a section of some statement, and the program with that
statement is the one with the number. -/

/-- The function that is to make use of the sections of a statement of program number `owner`. -/
def Statement.user (owner : Nat) : Statement → String
  | .decoratorBlock _ _ _ _ _ => decoratorKey owner
  | _ => programKey owner

/-- The program is a section of a statement that one of these numbered programs contains, and it is
    for that one's function to make use of it. -/
def UsedBy (programs : List (Program × Nat)) (user : String) (q : Program) : Prop :=
  ∃ entry ∈ programs, ∃ s ∈ entry.1.body, q ∈ s.sections ∧ user = s.user entry.2

section

variable {programs : List (Program × Nat)}

theorem usedBy_of_sections {p : Program} {owner : Nat} (hp : (p, owner) ∈ programs)
    {s : Statement} (hs : s ∈ p.body) {q : Program} (hq : q ∈ s.sections) :
    UsedBy programs (s.user owner) q :=
  ⟨(p, owner), hp, s, hs, hq, rfl⟩

mutual

/-- So the users are right: of a statement, -/
theorem Statement.users_usedBy {next : Nat} {s : Statement} {p : Program} {owner : Nat}
    (hp : (p, owner) ∈ programs) (hs : s ∈ p.body)
    (hprograms : s.programs.zipIdx next ⊆ programs) :
    List.Forall₂ (UsedBy programs) (s.users owner next) s.programs := by
  match s with
  | .content _ | .comment _ _ _ | .mustache _ _ _ _ | .partialCall _ _ _ _ | .decorator _ _ _ =>
    exact .nil
  | .block _ main inverse _ _ =>
    rw [Statement.programs, List.zipIdx_append, List.append_subset] at hprograms
    exact List.rel_append
      (sectionUsers_usedBy (fun q hq => usedBy_of_sections hp hs (List.mem_append_left _
        (Option.mem_toList.2 hq))) hprograms.1)
      (sectionUsers_usedBy (fun q hq => usedBy_of_sections hp hs (List.mem_append_right _
        (Option.mem_toList.2 hq))) hprograms.2)
  | .partialBlock _ body _ _ _ | .decoratorBlock _ body _ _ _ =>
    exact Program.users_usedBy (usedBy_of_sections hp hs (List.mem_singleton_self _)) hprograms

/-- of a program, -/
theorem Program.users_usedBy {user : String} {next : Nat} {q : Program}
    (hq : UsedBy programs user q) (hprograms : q.family.zipIdx next ⊆ programs) :
    List.Forall₂ (UsedBy programs) (q.users user next) q.family := by
  match q with
  | ⟨body, params, chained, span⟩ =>
    rw [Program.family, List.zipIdx_cons, List.cons_subset] at hprograms
    exact .cons hq (bodyUsers_usedBy hprograms.1 (List.Subset.refl _) hprograms.2)

/-- of a section, -/
theorem sectionUsers_usedBy {user : String} {next : Nat} {q : Option Program}
    (hq : ∀ r ∈ q, UsedBy programs user r)
    (hprograms : (sectionPrograms q).zipIdx next ⊆ programs) :
    List.Forall₂ (UsedBy programs) (sectionUsers user next q) (sectionPrograms q) := by
  match q with
  | none => exact .nil
  | some q => exact Program.users_usedBy (hq q rfl) hprograms

/-- and of a body. -/
theorem bodyUsers_usedBy {next : Nat} {body : List Statement} {p : Program} {owner : Nat}
    (hp : (p, owner) ∈ programs) (hbody : body ⊆ p.body)
    (hprograms : (bodyPrograms body).zipIdx next ⊆ programs) :
    List.Forall₂ (UsedBy programs) (bodyUsers owner next body) (bodyPrograms body) := by
  match body with
  | [] => exact .nil
  | s :: rest =>
    rw [bodyPrograms, List.zipIdx_append, List.append_subset] at hprograms
    rw [List.cons_subset] at hbody
    exact List.rel_append (Statement.users_usedBy hp hbody.1 hprograms.1)
      (bodyUsers_usedBy hp hbody.2 hprograms.2)

end

end

/-- The walk finds, for each program inside, the program that it is a section in. -/
theorem Program.usedBy (root : Program) :
    List.Forall₂ (UsedBy root.family.zipIdx) (bodyUsers 0 1 root.body)
      (bodyPrograms root.body) := by
  rw [root.family_eq, List.zipIdx_cons]
  exact bodyUsers_usedBy (List.mem_cons_self ..) (List.Subset.refl _) (List.subset_cons_self ..)

end Stache

namespace Stache.Script

/-! ## Uses -/

/-- What makes use of which number, in the functions of program number `owner`. -/
def Function.uses (owner : Nat) (fn : Function) : List (String × Nat) :=
  (fn.operands.flatMap fun o => o.value.numbers).map (programKey owner, ·)
    ++ (fn.decorators.flatMap fun d => d.value.numbers).map (decoratorKey owner, ·)

/-- The same for statements of that program. -/
def Pieces.uses (owner : Nat) (pieces : Pieces) : List (String × Nat) :=
  (pieces.operands.flatMap fun o => o.value.numbers).map (programKey owner, ·)
    ++ (pieces.decorators.flatMap fun d => d.value.numbers).map (decoratorKey owner, ·)

/-- The same for functions that are numbered from `next` on. -/
def usesFrom (next : Nat) (functions : List Function) : List (String × Nat) :=
  (functions.zipIdx next).flatMap fun entry => entry.1.uses entry.2

theorem usesFrom_cons (next : Nat) (fn : Function) (functions : List Function) :
    usesFrom next (fn :: functions) = fn.uses next ++ usesFrom (next + 1) functions := by
  rw [usesFrom, List.zipIdx_cons, List.flatMap_cons]
  rfl

theorem usesFrom_append (next : Nat) (functions more : List Function) :
    usesFrom next (functions ++ more)
      = usesFrom next functions ++ usesFrom (next + functions.length) more := by
  rw [usesFrom, List.zipIdx_append, List.flatMap_append]
  rfl

theorem perm_interchange {α : Type} (a b c d : List α) :
    (a ++ b ++ (c ++ d)).Perm (a ++ c ++ (b ++ d)) := by
  rw [List.append_assoc, List.append_assoc, ← List.append_assoc b, ← List.append_assoc c]
  exact (List.perm_append_comm.append_right d).append_left a

theorem Pieces.uses_append (owner : Nat) (first more : Pieces) :
    ((first.append more).uses owner).Perm (first.uses owner ++ more.uses owner) := by
  rw [uses, append, List.flatMap_append, List.flatMap_append, List.map_append, List.map_append]
  exact perm_interchange ..

section One

variable {owner : Nat} {origin : Position} {programs : List Function}

/-! The numbers that single operands and decorators make use of. -/

theorem Pieces.uses_texts {operands : List (Traced Operand)}
    (h : ∀ o ∈ operands, o.value.numbers = []) :
    Pieces.uses owner ⟨operands, [], programs⟩ = [] := by
  have hnone : (operands.flatMap fun o => o.value.numbers) = [] := List.flatMap_eq_nil_iff.2 h
  rw [uses, hnone]
  rfl

theorem numbers_indentation {apart : Bool} {indent : String} :
    ∀ o ∈ (if apart then indentOperand indent origin else []), o.value.numbers = [] := by
  intro o ho
  obtain ⟨text, htext⟩ := exists_text_of_mem_indent ho
  rw [htext]
  rfl

theorem Pieces.uses_operand (o : Operand) :
    Pieces.uses owner ⟨[⟨o, origin⟩], [], programs⟩ = o.numbers.map (programKey owner, ·) := by
  simp [uses]

theorem Pieces.uses_decorator (d : Decorator) :
    Pieces.uses owner ⟨[], [⟨d, origin⟩], programs⟩ = d.numbers.map (decoratorKey owner, ·) := by
  simp [uses]

end One

/-! ## Compiling -/

theorem compileSection_length {scope : Scope} {next : Nat} {p : Option Program} {child : Child}
    {functions : List Function} (h : compileSection scope next p = .ok (child, functions)) :
    functions.length = (sectionPrograms p).length :=
  (compileSection_compiledWithin (P := fun _ => True) (fun _ _ => trivial) (fun _ _ => trivial)
    h).length_eq

theorem compileStatement_length {scope : Scope} {next : Nat} {s : Statement} {pieces : Pieces}
    (h : compileStatement scope next s = .ok pieces) :
    pieces.programs.length = s.programs.length :=
  (compileStatement_compiledWithin (P := fun _ => True) (fun _ _ => trivial) (fun _ _ => trivial)
    h).length_eq

mutual

/-- **Each number is used once, where the tree says**: in a statement, -/
theorem compileStatement_uses {scope : Scope} {owner next : Nat} {s : Statement} {pieces : Pieces}
    (h : compileStatement scope next s = .ok pieces) :
    (pieces.uses owner ++ usesFrom next pieces.programs).Perm
      ((s.users owner next).zipIdx next) := by
  match s, compileStatement_compiles h with
  | .content c, .content _ =>
    rw [Pieces.uses_texts (by split <;> simp [Operand.numbers])]
    exact .nil
  | .comment _ _ _, .comment _ _ _ | .mustache _ _ _ _, .mustache _ => exact .nil
  | .block _ main inverse _ span, .block hmain hinverse hi =>
    rw [compileSection_length hmain] at hinverse
    -- The invocation makes use of both sections before the functions of either make use of any.
    rw [Pieces.uses_operand, Operand.numbers, compileInvocation_sections hi, sectionNumbers,
      List.map_append]
    dsimp only
    rw [usesFrom_append, compileSection_length hmain, Statement.users, List.zipIdx_append,
      length_sectionUsers]
    exact (perm_interchange ..).trans
      ((compileSection_uses hmain).append (compileSection_uses hinverse))
  | .partialCall _ indent _ span, .partialCall hp =>
    have hcall : ∀ o ∈ [(⟨.partialCall _, span.start⟩ : Traced Operand)], o.value.numbers = [] :=
      List.forall_mem_singleton.2 (congrArg bodyNumbers (compilePartial_of hp).body)
    rw [Pieces.uses_texts (List.forall_mem_append.2 ⟨numbers_indentation, hcall⟩)]
    exact .nil
  | .partialBlock _ body _ _ _, .partialBlock _ hbody =>
    rw [Pieces.uses_operand]
    exact compileChild_uses hbody
  | .decorator _ _ _, .decorator _ hd =>
    rw [Pieces.uses_decorator, Decorator.numbers, compileDecorator_body hd]
    exact .nil
  | .decoratorBlock _ body _ _ _, .decoratorBlock _ hbody hd =>
    rw [Pieces.uses_decorator, Decorator.numbers, compileDecorator_body hd]
    exact compileChild_uses hbody

/-- in a program, -/
theorem compileChild_uses {scope : Scope} {user : String} {next : Nat} {p : Program}
    {child : Child} {functions : List Function}
    (h : compileChild scope next p = .ok (child, functions)) :
    (child.numbers.map (user, ·) ++ usesFrom next functions).Perm
      ((p.users user next).zipIdx next) := by
  match p with
  | ⟨body, params, chained, span⟩ =>
    obtain ⟨pieces, hpieces, rfl, rfl⟩ := compileChild_parts h
    rw [usesFrom_cons, Program.users, List.zipIdx_cons]
    exact (compileStatements_uses hpieces).cons _

/-- in a section, -/
theorem compileSection_uses {scope : Scope} {user : String} {next : Nat} {p : Option Program}
    {child : Child} {functions : List Function}
    (h : compileSection scope next p = .ok (child, functions)) :
    (child.numbers.map (user, ·) ++ usesFrom next functions).Perm
      ((sectionUsers user next p).zipIdx next) := by
  match p with
  | none =>
    rw [compileSection] at h
    cases h
    exact .nil
  | some p =>
    rw [compileSection] at h
    exact compileChild_uses h

/-- and in a body. -/
theorem compileStatements_uses {scope : Scope} {owner next : Nat} {body : List Statement}
    {pieces : Pieces} (h : compileStatements scope next body = .ok pieces) :
    (pieces.uses owner ++ usesFrom next pieces.programs).Perm
      ((bodyUsers owner next body).zipIdx next) := by
  match body with
  | [] =>
    rw [compileStatements] at h
    cases h
    exact .nil
  | s :: rest =>
    obtain ⟨first, more, hfirst, hmore, rfl⟩ := compileStatements_cons h
    have hlength := compileStatement_length hfirst
    rw [hlength] at hmore
    have hprograms : usesFrom next (first.append more).programs
        = usesFrom next first.programs ++ usesFrom (next + s.programs.length) more.programs := by
      rw [Pieces.append, usesFrom_append, hlength]
    rw [bodyUsers, List.zipIdx_append, s.length_users, hprograms]
    -- The functions of all programs come behind the pieces of all statements; what the first
    -- statement makes use of, there and here, goes in front.
    exact ((Pieces.uses_append owner first more).append_right _).trans <|
      (perm_interchange ..).trans <|
        (compileStatement_uses hfirst).append (compileStatements_uses hmore)

end

/-- **What makes use of the programs of a template**: each number is used once, and by the function
    that the tree says. -/
theorem Specification.uses_ofProgram {options : CompilerOptions} {p : Program}
    {s : Specification} (h : Specification.ofProgram options p = .ok s) :
    (usesFrom 0 (s.main :: s.programs)).Perm ((bodyUsers 0 1 p.body).zipIdx 1) := by
  obtain ⟨pieces, hpieces, rfl⟩ := ofProgram_ok h
  rw [usesFrom_cons]
  exact compileStatements_uses hpieces

end Stache.Script
