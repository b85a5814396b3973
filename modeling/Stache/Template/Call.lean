/-
  The grammar of a tag, over its tokens.

      call        = name params hash
      partialCall = param params hash
      params      = param*
      param       = name | '(' call ')'
      hash        = (NAME '=' param)*
      name        = '@'? path | STRING | NUMBER | BOOLEAN | UNDEFINED | NULL
      path        = NAME (SEPARATOR NAME)*
      blockParams = ('as |' NAME* '|')?

  Two tokens of lookahead decide everything: a name before an equals sign begins a hash pair, and
  the parameters end there, at a closing parenthesis or at `as |`.

  A reader answers what it read and the tokens that are left, and the type of its answer says that
  these are fewer (`Fewer`): the mutual recursion through parentheses is well-founded by that alone.
  Where the tokens do not fit, the answer is a `Misfit`: what was expected, and the tokens from
  there on. Which position to report then depends on where the tag closes (`Misfit.locate`).
-/
import Stache.Template.Syntax
import Stache.Template.Fault

namespace Stache

/-- What is wrong in a row of tokens. -/
inductive Misfit where
  /-- The first of `rest` is out of place. -/
  | expected (wanted : Expected) (rest : List Token)
  | path (written : String) (start : Position)

/-- The error to report for a tag whose tokens end at `stop`. -/
def Misfit.locate (stop : Position) : Misfit → ParseError
  | .expected wanted [] => ⟨.unexpected wanted none, stop⟩
  | .expected wanted (t :: _) => ⟨.unexpected wanted (some t.kind), t.start⟩
  | .path written start => ⟨.invalidPath written, start⟩

/-- What is left of `ts` once something has been read. -/
abbrev Fewer (ts : List Token) := { rest : List Token // rest.length < ts.length }

/-- What is left of `ts`, be it all of it. -/
abbrev NoMore (ts : List Token) := { rest : List Token // rest.length ≤ ts.length }

/-! ## Paths -/

/-- A segment of a path, with the separator in front of it. -/
structure Segment where
  mark : Option Char
  name : String
  bracketed : Bool
deriving DecidableEq, Repr

/-- Whether a segment moves in the context stack and is no part of the path: one of `..`, `.` and
    `this`, unless in brackets. -/
def Segment.isStep (s : Segment) : Bool :=
  !s.bracketed && (s.name = ".." || s.name = "." || s.name = "this")

/-- A path as far as `s`, or the text written so far if a step comes after a part. -/
def Path.push (p : Path) (s : Segment) : Except String Path :=
  let written := p.written ++ (s.mark.map Char.toString).getD "" ++ s.name
  if !s.isStep then .ok { p with written, parts := p.parts ++ [s.name] }
  else if !p.parts.isEmpty then .error written
  else if s.name = ".." then .ok { p with written, depth := p.depth + 1 }
  else .ok { p with written, thisScoped := true }

/-- Folds segments into a path. -/
def Path.ofSegments (data : Bool) (span : Span) (segments : List Segment) : Except String Path :=
  segments.foldlM Path.push ⟨data, 0, [], if data then "@" else "", false, span⟩

/-- Reads `NAME (SEPARATOR NAME)*`: the segments and the position after the last of them. -/
def readSegments (mark : Option Char) :
    (ts : List Token) → Except Misfit (List Segment × Position × Fewer ts)
  | [] => .error (.expected .name [])
  | t :: ts =>
    match t.kind with
    | .name name bracketed =>
      match ts with
      | [] => .ok ([⟨mark, name, bracketed⟩], t.stop, ⟨[], Nat.lt_succ_self _⟩)
      | u :: rest =>
        match u.kind with
        | .separator next => do
          let (segments, stop, left) ← readSegments (some next) rest
          return (⟨mark, name, bracketed⟩ :: segments, stop,
            ⟨left.1, Nat.lt_succ_of_lt (Nat.lt_succ_of_lt left.2)⟩)
        | _ => .ok ([⟨mark, name, bracketed⟩], t.stop, ⟨u :: rest, Nat.lt_succ_self _⟩)
    | _ => .error (.expected .name (t :: ts))

/-- Reads a path that begins at `start`. -/
def readPath (data : Bool) (start : Position) (ts : List Token) :
    Except Misfit (Expression × Fewer ts) := do
  let (segments, stop, rest) ← readSegments none ts
  match Path.ofSegments data ⟨start, stop⟩ segments with
  | .error written => .error (.path written start)
  | .ok path => return (.path path, rest)

/-! ## Calls -/

/-- Reads a name: a path or a literal. -/
def readName : (ts : List Token) → Except Misfit (Expression × Fewer ts)
  | [] => .error (.expected .name [])
  | t :: ts =>
    let one (e : Expression) : Except Misfit (Expression × Fewer (t :: ts)) :=
      .ok (e, ⟨ts, Nat.lt_succ_self _⟩)
    match t.kind with
    | .name _ _ => readPath false t.start (t :: ts)
    | .atSign => do
      let (path, rest) ← readPath true t.start ts
      return (path, ⟨rest.1, Nat.lt_succ_of_lt rest.2⟩)
    | .string value => one (.string value t.lexeme t.span)
    | .number => one (.number t.lexeme t.span)
    | .boolean value => one (.boolean value t.span)
    | .undefined => one (.undefined t.span)
    | .null => one (.null t.span)
    | _ => .error (.expected .name (t :: ts))

/-- The key and its token, if `ts` begins a hash pair, and what follows the equals sign. -/
def pairAt : List Token → Option (String × Token × List Token)
  | t :: u :: rest =>
    match t.kind, u.kind with
    | .name key _, .equals => some (key, t, rest)
    | _, _ => none
  | _ => none

/-- Whether the parameters end in front of `ts`. -/
def endsParams : List Token → Bool
  | [] => true
  | t :: ts => t.kind = .closeParen || t.kind = .asPipe || (pairAt (t :: ts)).isSome

/-- Behind the key of a pair and its sign, two tokens fewer are left. -/
theorem length_lt_of_pairAt {ts : List Token} {key : String} {t : Token} {rest : List Token}
    (h : pairAt ts = some (key, t, rest)) : rest.length < ts.length := by
  unfold pairAt at h
  split at h
  · split at h
    · cases h; exact Nat.lt_succ_of_lt (Nat.lt_succ_self _)
    · cases h
  · cases h

/-- The hash that holds `pairs`, none if there are none. -/
def Hash.ofPairs : List Pair → Option Hash
  | [] => none
  | first :: more =>
    some ⟨first :: more, ⟨first.span.start, (more.getLastD first).span.stop⟩⟩

mutual

/-- A name, or a call in parentheses. -/
def readParam (ts : List Token) : Except Misfit (Expression × Fewer ts) :=
  match ts with
  | [] => readName []
  | t :: us =>
    if t.kind = .openParen then do
      let (call, left) ← readCall us
      match left with
      | ⟨[], _⟩ => .error (.expected .closeParen [])
      | ⟨u :: rest, h⟩ =>
        if u.kind = .closeParen then
          return (.subexpression call ⟨t.start, u.stop⟩, ⟨rest, by
            simp only [List.length_cons] at h ⊢; omega⟩)
        else .error (.expected .closeParen (u :: rest))
    else readName (t :: us)
termination_by 3 * ts.length

/-- A name, its parameters, and its hash. -/
def readCall (ts : List Token) : Except Misfit (Call × Fewer ts) := do
  let (callee, left) ← readName ts
  let (params, left') ← readParams left.1
  -- each part begins where the one before it stopped
  let (pairs, left'') ← readPairs left'.1
  return (⟨callee, params, Hash.ofPairs pairs⟩, ⟨left''.1, by omega⟩)
termination_by 3 * ts.length + 1

/-- Parameters, up to whatever ends them. -/
def readParams (ts : List Token) : Except Misfit (List Expression × NoMore ts) :=
  if endsParams ts then .ok ([], ⟨ts, Nat.le_refl _⟩)
  else do
    let (param, left) ← readParam ts
    let (params, left') ← readParams left.1
    return (param :: params, ⟨left'.1, by omega⟩)
termination_by 3 * ts.length + 1

/-- The pairs of a hash, as long as a key with its sign comes next. -/
def readPairs (ts : List Token) : Except Misfit (List Pair × NoMore ts) :=
  match _h : pairAt ts with
  | none => .ok ([], ⟨ts, Nat.le_refl _⟩)
  | some (key, t, rest) => do
    let (value, left) ← readParam rest
    let (pairs, left') ← readPairs left.1
    return (⟨key, value, ⟨t.start, value.span.stop⟩⟩ :: pairs, ⟨left'.1, by
      have := length_lt_of_pairAt _h; omega⟩)
termination_by 3 * ts.length
decreasing_by
  all_goals
    have := length_lt_of_pairAt _h
    omega

end

/-- Reads a call whose callee may itself be a call in parentheses. -/
def readPartialCall (ts : List Token) : Except Misfit (Call × Fewer ts) := do
  let (callee, left) ← readParam ts
  let (params, left') ← readParams left.1
  let (pairs, left'') ← readPairs left'.1
  return (⟨callee, params, Hash.ofPairs pairs⟩, ⟨left''.1, by omega⟩)

/-! ## Block parameters and whole tags -/

/-- Reads names up to a closing pipe. -/
def readParamNames : List Token → Except Misfit (List String × List Token)
  | [] => .error (.expected .nameOrPipe [])
  | t :: ts =>
    match t.kind with
    | .name name _ => do
      let (names, rest) ← readParamNames ts
      return (name :: names, rest)
    | .pipe => .ok ([], ts)
    | _ => .error (.expected .nameOrPipe (t :: ts))

/-- Reads the block parameters that `ts` begins with, or none. -/
def readBlockParams : List Token → Except Misfit (List String × List Token)
  | [] => .ok ([], [])
  | t :: ts => if t.kind = .asPipe then readParamNames ts else .ok ([], t :: ts)

/-- Accepts the end of a tag and nothing else. -/
def expectClose : List Token → Except Misfit Unit
  | [] => .ok ()
  | ts => .error (.expected .close ts)

/-- The call that all of a tag's tokens form. -/
def Call.ofTokens (ts : List Token) : Except Misfit Call := do
  let (call, rest) ← readCall ts
  expectClose rest.1
  return call

/-- The partial call that all of a tag's tokens form. -/
def Call.partialOfTokens (ts : List Token) : Except Misfit Call := do
  let (call, rest) ← readPartialCall ts
  expectClose rest.1
  return call

/-- The name that all of a tag's tokens form. -/
def Expression.nameOfTokens (ts : List Token) : Except Misfit Expression := do
  let (name, rest) ← readName ts
  expectClose rest.1
  return name

/-- The tokens after a call of an open tag: its block parameters and no more. -/
def blockParamsOfTokens (ts : List Token) : Except Misfit (List String) := do
  let (names, rest) ← readBlockParams ts
  expectClose rest
  return names

/-- The call and the block parameters that all tokens of an open tag form. -/
def Call.openerOfTokens (ts : List Token) : Except Misfit (Call × List String) := do
  let (call, rest) ← readCall ts
  return (call, ← blockParamsOfTokens rest.1)

/-- The same for the open tag of a partial block. -/
def Call.partialOpenerOfTokens (ts : List Token) : Except Misfit (Call × List String) := do
  let (call, rest) ← readPartialCall ts
  return (call, ← blockParamsOfTokens rest.1)

end Stache
