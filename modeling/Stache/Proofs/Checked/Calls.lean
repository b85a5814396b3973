/-
  The grammar of a tag, by the indices of its tokens.

  A reader that moves an index over the tokens may ask for a token behind the last one, in order to
  find that there is none; it may step back over it before it reports that; and it takes the end of
  a hash pair from the token before the index.  So here it is a matter of indices that must exist.

  The theorems compare each reader with the one of the project that takes the tokens from the index
  on (`us.drop i`).  What they need besides is where an expression ends: with the token in front of
  the index that the reader leaves behind (`EndsAt`).
-/
import Stache.Proofs.Checked.Items
import Stache.Proofs.Grammar.Moved
import Stache.Template.Nesting

namespace Stache.Checked

section Readers

-- The text, the tokens of a tag in it, and the offset of the closing mark of the tag.
variable (text : List Char) (ts : List Lexed) (stop : Nat)

/-- An index behind a token at the index `i`. -/
abbrev Behind (i : Nat) := { j : Nat // i < j ∧ i < ts.length }

/-- An index that is not in front of `i`. -/
abbrev From (i : Nat) := { j : Nat // i ≤ j }

/-- Reports that the token at an index is out of place. -/
def unexpected {α : Type} (wanted : Expected) (i : Nat) : Checked α :=
  match ts[i]? with
  | none => failAt text stop (.unexpected wanted none)
  | some t => failAt text t.start (.unexpected wanted (some t.kind))

/-- The same for a token that the index has moved past already. -/
def unexpectedBefore {α : Type} (wanted : Expected) (i : Nat) : Checked α := do
  unexpected text ts stop wanted (← minus .index i 1)

/-- The end of the token in front of an index. -/
def lastStop (i : Nat) : Checked Position := do
  let t ← entry ts (← minus .index i 1)
  locate text t.stop

/-- The span between two offsets. -/
def spanOf (start stop : Nat) : Checked Span := do
  return ⟨← locate text start, ← locate text stop⟩

theorem lt_of_getElem? {i : Nat} {t : Lexed} (h : ts[i]? = some t) : i < ts.length :=
  (List.getElem?_eq_some_iff.1 h).1

/-! ## Names -/

/-- Reads `NAME (SEPARATOR NAME)*`: the segments and the offset behind the last of them. -/
def scanSegments (mark : Option Char) (i : Nat) : Checked (List Segment × Nat × Behind ts i) :=
  match ht : ts[i]? with
  | none => unexpectedBefore text ts stop .name (i + 1)
  | some t =>
    match t.kind with
    | .name name bracketed =>
      match (ts[i + 1]?).map Lexed.kind with
      | some (.separator next) => do
        let (segments, last, j) ← scanSegments (some next) (i + 2)
        return (⟨mark, name, bracketed⟩ :: segments, last, ⟨j.1, by omega⟩)
      | _ =>
        return ([⟨mark, name, bracketed⟩], t.stop, ⟨i + 1, by
          have := lt_of_getElem? ts ht
          omega⟩)
    | _ => unexpectedBefore text ts stop .name (i + 1)
termination_by ts.length - i
decreasing_by
  have := lt_of_getElem? ts ht
  omega

variable {text ts stop} in
/-- A path that breaks off behind a separator is reported one token earlier. -/
theorem scanSegments_of_none {mark : Option Char} {i : Nat} (h : ts[i]? = none) :
    scanSegments text ts stop mark i = unexpectedBefore text ts stop .name (i + 1) := by
  rw [scanSegments]
  split
  · rfl
  · rename_i hl
    cases hl.symm.trans h

variable {text ts stop} in
/-- A path goes on as long as a separator comes behind a name. -/
theorem scanSegments_of_some {mark : Option Char} {i : Nat} {l : Lexed} (h : ts[i]? = some l) :
    scanSegments text ts stop mark i =
      match l.kind with
      | .name name bracketed =>
        match (ts[i + 1]?).map Lexed.kind with
        | some (.separator next) => do
          let (segments, last, j) ← scanSegments text ts stop (some next) (i + 2)
          return (⟨mark, name, bracketed⟩ :: segments, last,
            ⟨j.1, Nat.lt_trans (Nat.lt_add_of_pos_right Nat.two_pos) j.2.1, lt_of_getElem? ts h⟩)
        | _ =>
          return ([⟨mark, name, bracketed⟩], l.stop,
            ⟨i + 1, Nat.lt_succ_self i, lt_of_getElem? ts h⟩)
      | _ => unexpectedBefore text ts stop .name (i + 1) := by
  rw [scanSegments]
  split
  · rename_i hnone
    cases hnone.symm.trans h
  · rename_i l' hl
    cases h.symm.trans hl
    rfl

/-- Reads a path that begins at an offset. -/
def scanPath (data : Bool) (start i : Nat) : Checked (Expression × Behind ts i) := do
  let (segments, last, j) ← scanSegments text ts stop none i
  let span ← spanOf text start last
  match Path.ofSegments data span segments with
  | .error written => failAt text start (.invalidPath written)
  | .ok path => return (.path path, j)

/-- Reads a path or a literal. -/
def scanName (i : Nat) : Checked (Expression × Behind ts i) :=
  match ht : ts[i]? with
  | none => unexpected text ts stop .name i
  | some t => do
    let span ← spanOf text t.start t.stop
    let behind : Behind ts i := ⟨i + 1, Nat.lt_succ_self i, lt_of_getElem? ts ht⟩
    match t.kind with
    -- a path counts from its first token on, an at sign from the one behind it
    | .name _ _ => scanPath text ts stop false t.start i
    | .atSign =>
      let (path, j) ← scanPath text ts stop true t.start (i + 1)
      return (path, ⟨j.1, by omega⟩)
    | .string value =>
      let written ← slice text t.start t.stop
      return (.string value (String.ofList written) span, behind)
    | .number =>
      let written ← slice text t.start t.stop
      return (.number (String.ofList written) span, behind)
    | .boolean value => return (.boolean value span, behind)
    | .undefined => return (.undefined span, behind)
    | .null => return (.null span, behind)
    | _ => unexpected text ts stop .name i

/-! ## Calls -/

/-- Whether a hash pair begins at an index. -/
def atPair (i : Nat) : Bool :=
  match (ts[i]?).map Lexed.kind, (ts[i + 1]?).map Lexed.kind with
  | some (.name _ _), some .equals => true
  | _, _ => false

theorem lt_of_atPair {i : Nat} (h : atPair ts i = true) : i < ts.length := by
  by_contra hlt
  have hnone : ts[i]? = none := List.getElem?_eq_none (Nat.le_of_not_lt hlt)
  rw [atPair, hnone] at h
  cases h

mutual

/-- A name, or a call in parentheses. -/
def scanParam (i : Nat) : Checked (Expression × Behind ts i) :=
  match ht : ts[i]? with
  | none => scanName text ts stop i
  | some t =>
    if t.kind = .openParen then do
      let (call, j) ← scanCall (i + 1)
      match ts[j.1]? with
      | none => unexpectedBefore text ts stop .closeParen (j.1 + 1)
      | some u =>
        if u.kind = .closeParen then
          let span ← spanOf text t.start u.stop
          return (.subexpression call span, ⟨j.1 + 1, by omega⟩)
        else unexpectedBefore text ts stop .closeParen (j.1 + 1)
    else scanName text ts stop i
termination_by 3 * (ts.length - i)
decreasing_by
  have := lt_of_getElem? ts ht
  omega

/-- A name, its parameters, and its hash. -/
def scanCall (i : Nat) : Checked (Call × Behind ts i) := do
  let (callee, j) ← scanName text ts stop i
  let (params, k) ← scanParams j.1
  let (hash, l) ← scanHash k.1
  return (⟨callee, params, hash⟩, ⟨l.1, by omega⟩)
termination_by 3 * (ts.length - i) + 1

/-- Parameters, up to whatever ends them. -/
def scanParams (i : Nat) : Checked (List Expression × From i) :=
  match (ts[i]?).map Lexed.kind with
  | none => return ([], ⟨i, Nat.le_refl i⟩)
  | some kind =>
    if kind = .closeParen || kind = .asPipe || atPair ts i then return ([], ⟨i, Nat.le_refl i⟩)
    else do
      let (param, j) ← scanParam i
      let (params, k) ← scanParams j.1
      return (param :: params, ⟨k.1, by omega⟩)
termination_by 3 * (ts.length - i) + 1

/-- The pairs of a hash. Each ends where its value does, with the token in front of the index. -/
def scanPairs (i : Nat) : Checked (List Pair × From i) :=
  if hpair : atPair ts i then do
    let t ← orStuck .unreachable ts[i]?
    match t.kind with
    | .name key _ =>
      let (value, j) ← scanParam (i + 2)
      let span : Span := ⟨← locate text t.start, ← lastStop text ts j.1⟩
      let (pairs, k) ← scanPairs j.1
      return (⟨key, value, span⟩ :: pairs, ⟨k.1, by omega⟩)
    | _ => stuck .unreachable
  else return ([], ⟨i, Nat.le_refl i⟩)
termination_by 3 * (ts.length - i)
decreasing_by
  all_goals
    have := lt_of_atPair ts hpair
    omega

/-- A hash spans its pairs, from the first to the last. -/
def scanHash (i : Nat) : Checked (Option Hash × From i) := do
  let (pairs, j) ← scanPairs i
  match ts[i]?, pairs with
  | some t, pair :: pairs =>
    let span : Span := ⟨← locate text t.start, ← lastStop text ts j.1⟩
    return (some ⟨pair :: pairs, span⟩, j)
  | _, _ => return (none, j)
termination_by 3 * (ts.length - i) + 1

end

/-- Reads a call whose callee may itself be a call in parentheses. -/
def scanPartialCall (i : Nat) : Checked (Call × Behind ts i) := do
  let (callee, j) ← scanParam text ts stop i
  let (params, k) ← scanParams text ts stop j.1
  let (hash, l) ← scanHash text ts stop k.1
  return (⟨callee, params, hash⟩, ⟨l.1, by omega⟩)

/-! ## Block parameters and whole tags -/

/-- Reads names up to a closing pipe. -/
def scanParamNames (i : Nat) : Checked (List String × Nat) :=
  match _ht : ts[i]? with
  | none => unexpected text ts stop .nameOrPipe i
  | some t =>
    match t.kind with
    | .name name _ => do
      let (names, j) ← scanParamNames (i + 1)
      return (name :: names, j)
    | .pipe => return ([], i + 1)
    | _ => unexpected text ts stop .nameOrPipe i
termination_by ts.length - i
decreasing_by
  have := lt_of_getElem? ts _ht
  omega

/-- Reads the block parameters at an index, or none. -/
def scanBlockParams (i : Nat) : Checked (List String × Nat) :=
  if (ts[i]?).map Lexed.kind = some .asPipe then scanParamNames text ts stop (i + 1)
  else return ([], i)

/-- Accepts the end of a tag and nothing else. -/
def expectEnd (i : Nat) : Checked Unit :=
  match ts[i]? with
  | none => return ()
  | some _ => unexpected text ts stop .close i

/-- The call that all tokens form. -/
def wholeCall : Checked Call := do
  let (call, i) ← scanCall text ts stop 0
  expectEnd text ts stop i.1
  return call

/-- The partial call that all tokens form. -/
def wholePartialCall : Checked Call := do
  let (call, i) ← scanPartialCall text ts stop 0
  expectEnd text ts stop i.1
  return call

/-- The name that all tokens form. -/
def wholeName : Checked Expression := do
  let (name, i) ← scanName text ts stop 0
  expectEnd text ts stop i.1
  return name

/-- The block parameters that all tokens from an index on form. -/
def wholeBlockParams (i : Nat) : Checked (List String) := do
  let (names, j) ← scanBlockParams text ts stop i
  expectEnd text ts stop j
  return names

/-- The call and the block parameters that all tokens of an open tag form. -/
def wholeOpener (kind : OpeningKind) : Checked (Call × List String) := do
  let (call, i) ←
    if kind = .partialBlock then scanPartialCall text ts stop 0 else scanCall text ts stop 0
  return (call, ← wholeBlockParams text ts stop i.1)

end Readers

/-! ## Tokens at indices -/

variable {text : List Char} {ts : List Lexed} {us : List Token} {stop : Nat} {q : Position}

theorem Marks.locate {n : Nat} {p : Position} (h : Marks text n p) :
    locate text n = .ok p.reported := by
  obtain ⟨behind, hstands⟩ := h
  exact hstands.locate

theorem Marks.failAt {α : Type} {n : Nat} {p : Position} (h : Marks text n p) (fault : ParseFault) :
    failAt text n fault = (.error (.error ⟨fault, p.reported⟩) : Checked α) := by
  obtain ⟨behind, hstands⟩ := h
  exact hstands.failAt fault

theorem Marks.spanOf {m n : Nat} {p p' : Position} (h : Marks text m p) (h' : Marks text n p') :
    spanOf text m n = .ok (Span.moved .reported ⟨p, p'⟩) := by
  rw [Checked.spanOf, h.locate, h'.locate]
  rfl

theorem Written.marks_start {start stop : Nat} {p : Position} {lexeme : List Char}
    (h : Written text start stop p lexeme) : Marks text start p := by
  obtain ⟨⟨behind, hstands⟩, -⟩ := h
  exact ⟨_, hstands⟩

theorem Written.marks_stop {start stop : Nat} {p : Position} {lexeme : List Char}
    (h : Written text start stop p lexeme) : Marks text stop (p.advance lexeme) := by
  obtain ⟨⟨behind, hstands⟩, rfl⟩ := h
  exact ⟨behind, hstands.move⟩

theorem Lexed.Spells.marks_start {l : Lexed} {t : Token} (h : l.Spells text t) :
    Marks text l.start t.start := h.2.marks_start

theorem Lexed.Spells.marks_stop {l : Lexed} {t : Token} (h : l.Spells text t) :
    Marks text l.stop t.stop := h.2.marks_stop

theorem Lexed.Spells.slice {l : Lexed} {t : Token} (h : l.Spells text t) :
    slice text l.start l.stop = .ok t.lexeme.toList := by
  obtain ⟨-, ⟨behind, hstands⟩, hstop⟩ := h
  rw [hstop]
  exact hstands.slice

/-- What is reported of tokens that do not fit, in a tag that closes at `q`. -/
def reportAt (q : Position) (misfit : Misfit) : ParseError := (misfit.locate q).reported

/-- The same tokens by offsets and as the project has them, in a tag that closes at `q`. -/
structure SameTokens (text : List Char) (ts : List Lexed) (us : List Token) (stop : Nat)
    (q : Position) : Prop where
  tokens : List.Forall₂ (Lexed.Spells text) ts us
  stop : Marks text stop q

namespace SameTokens

variable (h : SameTokens text ts us stop q)

include h

theorem getElem?_none {i : Nat} (hrest : us.drop i = []) : ts[i]? = none := by
  rw [List.getElem?_eq_none_iff, h.tokens.length_eq]
  exact List.drop_eq_nil_iff.1 hrest

/-- Where one is left, it is the one at the index, and spells the same. -/
theorem getElem?_some {i : Nat} {t : Token} {rest : List Token} (hrest : us.drop i = t :: rest) :
    ∃ l, ts[i]? = some l ∧ us[i]? = some t ∧ us.drop (i + 1) = rest ∧ l.Spells text t := by
  have hi : i < us.length := by
    by_contra hle
    rw [List.drop_eq_nil_of_le (Nat.le_of_not_lt hle)] at hrest
    cases hrest
  have hi' : i < ts.length := by rwa [h.tokens.length_eq]
  rw [List.drop_eq_getElem_cons hi] at hrest
  obtain ⟨rfl, rfl⟩ := List.cons.inj hrest
  exact ⟨ts[i], List.getElem?_eq_getElem hi', List.getElem?_eq_getElem hi, rfl,
    h.tokens.get hi' hi⟩

/-- The kind of a token is the same in both rows. -/
theorem map_kind {i : Nat} {rest : List Token} (hrest : us.drop i = rest) :
    (ts[i]?).map Lexed.kind = rest.head?.map Token.kind := by
  cases rest with
  | nil =>
    rw [h.getElem?_none hrest]
    rfl
  | cons t rest =>
    obtain ⟨l, hl, -, -, hkind, -⟩ := h.getElem?_some hrest
    rw [hl]
    exact congrArg some hkind

/-- What is out of place is reported alike: a token, or the end of the tag. -/
theorem unexpected {α : Type} (wanted : Expected) {i : Nat} {rest : List Token}
    (hrest : us.drop i = rest) :
    unexpected text ts stop wanted i
      = (.error (.error (reportAt q (.expected wanted rest))) : Checked α) := by
  cases rest with
  | nil =>
    rw [Checked.unexpected, h.getElem?_none hrest]
    exact h.stop.failAt _
  | cons t rest =>
    obtain ⟨l, hl, -, -, hspells⟩ := h.getElem?_some hrest
    rw [Checked.unexpected, hl]
    dsimp only
    rw [hspells.1]
    exact hspells.marks_start.failAt _

theorem unexpectedBefore {α : Type} (wanted : Expected) {i : Nat} {rest : List Token}
    (hrest : us.drop i = rest) :
    unexpectedBefore text ts stop wanted (i + 1)
      = (.error (.error (reportAt q (.expected wanted rest))) : Checked α) := by
  rw [Checked.unexpectedBefore, minus_add, ok_bind, h.unexpected wanted hrest]

end SameTokens

/-- The token in front of the index `j` ends at the position `p`. -/
def EndsAt (us : List Token) (j : Nat) (p : Position) : Prop :=
  ∃ i t, j = i + 1 ∧ us[i]? = some t ∧ t.stop = p

/-- `a` is `b` with what is reported of its positions. -/
def Reports {α : Type} (moved : (Position → Position) → α → α) (a b : α) : Prop :=
  a = moved .reported b

/-- The same is read, and the same tokens are left. -/
def Left {α : Type} {P : Nat → Prop} {Q : List Token → Prop}
    (moved : (Position → Position) → α → α) (us : List Token)
    (a : α × { j : Nat // P j }) (b : α × { left : List Token // Q left }) : Prop :=
  Reports moved a.1 b.1 ∧ b.2.1 = us.drop a.2.1

/-- The same expression is read, which ends with the last token that is read. -/
def LeftEnding {P : Nat → Prop} {Q : List Token → Prop} (us : List Token)
    (a : Expression × { j : Nat // P j }) (b : Expression × { left : List Token // Q left }) : Prop :=
  Left Expression.moved us a b ∧ EndsAt us a.2.1 b.1.span.stop

namespace SameTokens

variable (h : SameTokens text ts us stop q)

include h

/-- An expression ends with the token in front of the index. -/
theorem lastStop {j : Nat} {p : Position} (hends : EndsAt us j p) :
    lastStop text ts j = .ok p.reported := by
  obtain ⟨i, t, rfl, ht, rfl⟩ := hends
  have hi := (List.getElem?_eq_some_iff.1 ht).1
  obtain ⟨l, hl, ht', -, hspells⟩ := h.getElem?_some (List.drop_eq_getElem_cons hi)
  rw [List.getElem?_eq_getElem hi] at ht
  cases ht
  rw [Checked.lastStop, minus_add, ok_bind, entry_eq hl, ok_bind, hspells.marks_stop.locate]

/-! ## Names -/

/-- **Paths are read alike**, part by part. -/
theorem scanSegments (mark : Option Char) {i : Nat} {rest : List Token}
    (hrest : us.drop i = rest) :
    Follows (reportAt q)
      (fun a b => a.1 = b.1 ∧ Marks text a.2.1 b.2.1 ∧ b.2.2.1 = us.drop a.2.2.1
        ∧ EndsAt us a.2.2.1 b.2.1)
      (scanSegments text ts stop mark i) (readSegments mark rest) := by
  -- one case for each way in which a path goes on, ends or breaks off
  fun_induction readSegments mark rest generalizing i with
  | case1 mark =>
    rw [Checked.scanSegments_of_none (h.getElem?_none hrest)]
    exact h.unexpectedBefore .name hrest
  | case2 mark t name bracketed hkind =>
    obtain ⟨l, hl, ht, hnext, hspells⟩ := h.getElem?_some hrest
    rw [Checked.scanSegments_of_some hl, hspells.1, hkind, h.map_kind hnext]
    exact .ok ⟨rfl, hspells.marks_stop, hnext.symm, i, t, rfl, ht, rfl⟩
  | case3 mark t name bracketed hkind u rest next hnextKind =>
    rename_i ih
    obtain ⟨l, hl, ht, hnext, hspells⟩ := h.getElem?_some hrest
    obtain ⟨-, -, -, hbehind, -⟩ := h.getElem?_some hnext
    rw [Checked.scanSegments_of_some hl, hspells.1, hkind, h.map_kind hnext]
    dsimp only [List.head?_cons, Option.map_some]
    rw [hnextKind]
    refine Follows.bind (ih hbehind) ?_
    rintro ⟨segments, last, j⟩ ⟨_, p, left⟩ ⟨rfl, hmarks, hleft, hends⟩
    exact .ok ⟨rfl, hmarks, hleft, hends⟩
  | case4 mark t name bracketed hkind u rest hnextKind =>
    obtain ⟨l, hl, ht, hnext, hspells⟩ := h.getElem?_some hrest
    rw [Checked.scanSegments_of_some hl, hspells.1, hkind, h.map_kind hnext]
    dsimp only [List.head?_cons, Option.map_some]
    split
    · rename_i next hnextKind'
      exact absurd (Option.some.inj hnextKind') (hnextKind next)
    · exact .ok ⟨rfl, hspells.marks_stop, hnext.symm, i, t, rfl, ht, rfl⟩
  | case5 mark t rest hkind =>
    obtain ⟨l, hl, ht, hnext, hspells⟩ := h.getElem?_some hrest
    rw [Checked.scanSegments_of_some hl, hspells.1]
    split
    · rename_i name bracketed hkind'
      exact absurd hkind' (hkind name bracketed)
    · exact h.unexpectedBefore .name hrest

/-- The parts make a path in both readers, or the same misfit. -/
theorem scanPath (data : Bool) {start i : Nat} {p : Position} {rest : List Token}
    (hstart : Marks text start p) (hrest : us.drop i = rest) :
    Follows (reportAt q) (LeftEnding us) (scanPath text ts stop data start i)
      (readPath data p rest) := by
  refine Follows.bind (h.scanSegments none hrest) ?_
  rintro ⟨segments, last, j⟩ ⟨_, p', left⟩ ⟨rfl, hlast, hleft, hends⟩
  dsimp only
  rw [hstart.spanOf hlast, ok_bind, Path.ofSegments_moved]
  cases hpath : Path.ofSegments data ⟨p, p'⟩ segments with
  | error written => exact hstart.failAt _
  | ok path =>
    have hspan : path.span = ⟨p, p'⟩ := by
      rw [(Grammar.ofSegments_eq_ok_iff.1 hpath).2]
      rfl
    refine .ok ⟨⟨rfl, hleft⟩, ?_⟩
    show EndsAt us j.1 path.span.stop
    rw [hspan]
    exact hends

/-- A literal is one token. -/
theorem ofLiteral {i : Nat} {t : Token} {rest : List Token} (hrest : us.drop i = t :: rest)
    (e : Expression) (hspan : e.span = t.span) (hbehind : i < i + 1 ∧ i < ts.length) :
    Follows (reportAt q) (LeftEnding us)
      (.ok (e.moved .reported, ⟨i + 1, hbehind⟩) : Checked (Expression × Behind ts i))
      (.ok (e, ⟨rest, Nat.lt_succ_self _⟩) : Except Misfit (Expression × Fewer (t :: rest))) := by
  obtain ⟨l, hl, ht, hnext, hspells⟩ := h.getElem?_some hrest
  refine .ok ⟨⟨rfl, hnext.symm⟩, i, t, rfl, ht, ?_⟩
  show t.stop = e.span.stop
  rw [hspan]
  rfl

/-- **Names are read alike.** -/
theorem scanName {i : Nat} {rest : List Token} (hrest : us.drop i = rest) :
    Follows (reportAt q) (LeftEnding us) (scanName text ts stop i) (readName rest) := by
  cases rest with
  | nil =>
    rw [Checked.scanName]
    split
    · exact h.unexpected .name hrest
    · rename_i hl
      cases hl.symm.trans (h.getElem?_none hrest)
  | cons t rest =>
    obtain ⟨l, hl, ht, hnext, hspells⟩ := h.getElem?_some hrest
    rw [Checked.scanName]
    split
    · rename_i hnone
      cases hnone.symm.trans hl
    rename_i l' hl'
    cases hl.symm.trans hl'
    have hwritten : String.ofList t.lexeme.toList = t.lexeme := String.ofList_toList
    rw [hspells.marks_start.spanOf hspells.marks_stop, ok_bind, hspells.1, readName, hspells.slice]
    simp only [ok_bind, hwritten]
    -- a path is left to its own reader; values are one token long
    cases t.kind with
    | name name bracketed => exact h.scanPath false hspells.marks_start hrest
    | atSign =>
      refine Follows.bind (h.scanPath true hspells.marks_start hnext) ?_
      rintro ⟨_, j⟩ ⟨e, left⟩ ⟨⟨rfl, hleft⟩, hends⟩
      exact .ok ⟨⟨rfl, hleft⟩, hends⟩
    | string value => exact h.ofLiteral hrest (.string value t.lexeme t.span) rfl _
    | number => exact h.ofLiteral hrest (.number t.lexeme t.span) rfl _
    | boolean value => exact h.ofLiteral hrest (.boolean value t.span) rfl _
    | undefined => exact h.ofLiteral hrest (.undefined t.span) rfl _
    | null => exact h.ofLiteral hrest (.null t.span) rfl _
    | separator mark => exact h.unexpected .name hrest
    | openParen => exact h.unexpected .name hrest
    | closeParen => exact h.unexpected .name hrest
    | equals => exact h.unexpected .name hrest
    | asPipe => exact h.unexpected .name hrest
    | pipe => exact h.unexpected .name hrest

/-! ## Calls -/

/-- Both readers see the same beginning of a pair. -/
theorem atPair_eq {i : Nat} {rest : List Token} (hrest : us.drop i = rest) :
    atPair ts i = (pairAt rest).isSome := by
  rw [atPair, h.map_kind hrest]
  match rest, hrest with
  | [], hrest => rfl
  | [t], hrest =>
    obtain ⟨l, hl, ht, hnext, hspells⟩ := h.getElem?_some hrest
    rw [h.map_kind hnext]
    simp [pairAt]
  | t :: u :: rest, hrest =>
    obtain ⟨l, hl, ht, hnext, hspells⟩ := h.getElem?_some hrest
    rw [h.map_kind hnext, pairAt]
    dsimp only [List.head?_cons, Option.map_some]
    cases t.kind with
    | name name bracketed => cases u.kind <;> rfl
    | _ => rfl

end SameTokens

/-- The same pairs are read from the index `i` on.  The first of them begins there, and the last
    ends with the last token that is read. -/
structure LeftPairs {P : Nat → Prop} {Q : List Token → Prop} (us : List Token) (i : Nat)
    (a : List Pair × { j : Nat // P j }) (b : List Pair × { left : List Token // Q left }) :
    Prop where
  left : Left movedPairs us a b
  first : ∀ pair, b.1.head? = some pair → ∃ t, us[i]? = some t ∧ t.start = pair.span.start
  last : ∀ pair, b.1.getLast? = some pair → EndsAt us a.2.1 pair.span.stop
  none : b.1 = [] → a.2.1 = i

/-- The hash of the pairs is read, and the same tokens are left. -/
def LeftHash {P : Nat → Prop} {Q : List Token → Prop} (us : List Token)
    (a : Option Hash × { j : Nat // P j }) (b : List Pair × { left : List Token // Q left }) : Prop :=
  Reports movedHash a.1 (Hash.ofPairs b.1) ∧ b.2.1 = us.drop a.2.1

/-- **A hash is read alike**, if its pairs are. -/
theorem SameTokens.scanHash (h : SameTokens text ts us stop q) {i : Nat} {rest : List Token}
    (hpairs : Follows (reportAt q) (LeftPairs us i) (scanPairs text ts stop i)
      (readPairs rest)) :
    Follows (reportAt q) (LeftHash us) (scanHash text ts stop i) (readPairs rest) := by
  rw [Checked.scanHash, ← bind_pure (readPairs rest)]
  refine Follows.bind hpairs ?_
  rintro ⟨_, j⟩ ⟨pairs, left⟩ ⟨⟨rfl, hleft⟩, hfirst, hlast, -⟩
  cases pairs with
  | nil =>
    dsimp only
    split
    · contradiction
    · exact .ok ⟨rfl, hleft⟩
  | cons pair more =>
    -- it begins with its first pair and ends with its last one
    obtain ⟨t, ht, hstart⟩ := hfirst pair rfl
    have hi := (List.getElem?_eq_some_iff.1 ht).1
    obtain ⟨l, hl, ht', -, hspells⟩ := h.getElem?_some (List.drop_eq_getElem_cons hi)
    rw [List.getElem?_eq_getElem hi] at ht
    cases ht
    have hends := hlast (more.getLastD pair) (by
      rw [List.getLast?_cons, List.getLastD_eq_getLast?])
    rw [hl, movedPairs]
    dsimp only
    rw [hspells.marks_start.locate, ok_bind, h.lastStop hends, hstart]
    exact .ok ⟨rfl, hleft⟩

-- The induction of the two readers, on the number of tokens from the index on.
mutual

/-- **Parameters are read alike**: one by itself, -/
theorem SameTokens.scanParam (h : SameTokens text ts us stop q) {i : Nat} {rest : List Token}
    (hrest : us.drop i = rest) :
    Follows (reportAt q) (LeftEnding us) (scanParam text ts stop i) (readParam rest) := by
  cases rest with
  | nil =>
    rw [Checked.scanParam, readParam]
    split
    · exact h.scanName hrest
    · rename_i hl
      cases hl.symm.trans (h.getElem?_none hrest)
  | cons t rest =>
    obtain ⟨l, hl, ht, hnext, hspells⟩ := h.getElem?_some hrest
    have hlen := h.tokens.length_eq
    have hi := lt_of_getElem? ts hl
    rw [Checked.scanParam, readParam]
    split
    · rename_i hnone
      cases hnone.symm.trans hl
    rename_i l' hl'
    cases hl.symm.trans hl'
    rw [hspells.1]
    -- a call in parentheses is closed, or one of two tokens is out of place
    by_cases hparen : t.kind = .openParen
    · rw [if_pos hparen, if_pos hparen]
      refine Follows.bind (h.scanCall hnext) ?_
      rintro ⟨_, j⟩ ⟨call, left⟩ ⟨rfl, hleft⟩
      dsimp only at hleft ⊢
      match left, hleft with
      | ⟨[], _⟩, hleft =>
        rw [h.getElem?_none hleft.symm]
        exact h.unexpectedBefore .closeParen hleft.symm
      | ⟨u :: behind, hless⟩, hleft =>
        obtain ⟨l', hl', hu, hbehind, hspells'⟩ := h.getElem?_some hleft.symm
        rw [hl']
        dsimp only
        rw [hspells'.1]
        by_cases hclose : u.kind = .closeParen
        · rw [if_pos hclose, if_pos hclose]
          rw [hspells.marks_start.spanOf hspells'.marks_stop]
          exact .ok ⟨⟨rfl, hbehind.symm⟩, j.1, u, rfl, hu, rfl⟩
        · rw [if_neg hclose, if_neg hclose]
          exact h.unexpectedBefore .closeParen hleft.symm
    · rw [if_neg hparen, if_neg hparen]
      exact h.scanName hrest
termination_by 3 * (us.length - i)

/-- in a call, -/
theorem SameTokens.scanCall (h : SameTokens text ts us stop q) {i : Nat} {rest : List Token}
    (hrest : us.drop i = rest) :
    Follows (reportAt q) (Left Call.moved us) (scanCall text ts stop i) (readCall rest) := by
  rw [Checked.scanCall, readCall]
  refine Follows.bind (h.scanName hrest) ?_
  rintro ⟨_, j⟩ ⟨callee, left⟩ ⟨⟨rfl, hleft⟩, -⟩
  have hlen := h.tokens.length_eq
  have hj := j.2
  refine Follows.bind (h.scanParams hleft.symm) ?_
  rintro ⟨_, k⟩ ⟨params, left'⟩ ⟨rfl, hleft'⟩
  have hk := k.2
  refine Follows.bind (h.scanHash (h.scanPairs hleft'.symm)) ?_
  rintro ⟨_, l⟩ ⟨pairs, left''⟩ ⟨rfl, hleft''⟩
  exact .ok ⟨rfl, hleft''⟩
termination_by 3 * (us.length - i) + 1

/-- in a row, -/
theorem SameTokens.scanParams (h : SameTokens text ts us stop q) {i : Nat} {rest : List Token}
    (hrest : us.drop i = rest) :
    Follows (reportAt q) (Left movedParams us) (scanParams text ts stop i) (readParams rest) := by
  rw [Checked.scanParams, readParams, h.map_kind hrest]
  cases rest with
  | nil => exact .ok ⟨rfl, hrest.symm⟩
  | cons t rest =>
    dsimp only [List.head?_cons, Option.map_some]
    -- both readers stop before the same tokens
    have hends : (decide (t.kind = .closeParen) || decide (t.kind = .asPipe) || atPair ts i)
        = endsParams (t :: rest) := by
      rw [h.atPair_eq hrest]
      rfl
    rw [hends]
    by_cases hstop : endsParams (t :: rest) = true
    · rw [if_pos hstop, if_pos hstop]
      exact .ok ⟨rfl, hrest.symm⟩
    · rw [if_neg hstop, if_neg hstop]
      refine Follows.bind (h.scanParam hrest) ?_
      rintro ⟨_, j⟩ ⟨param, left⟩ ⟨⟨rfl, hleft⟩, -⟩
      -- what is left is shorter on both sides, so the recursion ends
      have hlen := h.tokens.length_eq
      have hj := j.2
      refine Follows.bind (h.scanParams hleft.symm) ?_
      rintro ⟨_, k⟩ ⟨params, left'⟩ ⟨rfl, hleft'⟩
      exact .ok ⟨rfl, hleft'⟩
termination_by 3 * (us.length - i) + 1

/-- and behind a key. -/
theorem SameTokens.scanPairs (h : SameTokens text ts us stop q) {i : Nat} {rest : List Token}
    (hrest : us.drop i = rest) :
    Follows (reportAt q) (LeftPairs us i) (scanPairs text ts stop i) (readPairs rest) := by
  have hat := h.atPair_eq hrest
  rw [Checked.scanPairs]
  fun_cases readPairs rest
  · rename_i hpair
    rw [dif_neg (by simp [hat, hpair])]
    exact .ok ⟨⟨rfl, hrest.symm⟩, nofun, nofun, fun _ => rfl⟩
  · rename_i key t behind hpair
    rw [dif_pos (by simp [hat, hpair])]
    obtain ⟨name, equals, rfl, rfl, rfl⟩ := Grammar.exists_of_pairAt hpair
    obtain ⟨l, hl, ht, hnext, hspells⟩ := h.getElem?_some hrest
    obtain ⟨-, -, -, hbehind, -⟩ := h.getElem?_some hnext
    rw [hl, orStuck, ok_bind, hspells.1, name.kind_eq]
    dsimp only
    have hlen := h.tokens.length_eq
    have hi := lt_of_getElem? ts hl
    refine Follows.bind (h.scanParam hbehind) ?_
    rintro ⟨_, j⟩ ⟨value, left⟩ ⟨⟨rfl, hleft⟩, hends⟩
    have hj := j.2
    dsimp only at hleft ⊢
    rw [hspells.marks_start.locate, ok_bind, h.lastStop hends, ok_bind]
    refine Follows.bind (h.scanPairs hleft.symm) ?_
    rintro ⟨_, k⟩ ⟨pairs, left'⟩ ⟨⟨rfl, hleft'⟩, -, hlast, hnone⟩
    refine .ok ⟨⟨rfl, hleft'⟩, ?_, ?_, nofun⟩
    · rintro pair ⟨⟩
      exact ⟨_, ht, rfl⟩
    · intro pair hpair
      -- the last pair is this one, or the last of those behind it
      cases pairs with
      | nil =>
        cases hpair
        show EndsAt us k.1 value.span.stop
        have hk : k.1 = j.1 := hnone rfl
        rw [hk]
        exact hends
      | cons first more =>
        rw [List.getLast?_cons_cons] at hpair
        exact hlast pair hpair
termination_by 3 * (us.length - i)

end

namespace SameTokens

variable (h : SameTokens text ts us stop q)

include h

/-- The name of a partial may be a call, too. -/
theorem scanPartialCall {i : Nat} {rest : List Token} (hrest : us.drop i = rest) :
    Follows (reportAt q) (Left Call.moved us) (scanPartialCall text ts stop i)
      (readPartialCall rest) := by
  rw [Checked.scanPartialCall, readPartialCall]
  refine Follows.bind (h.scanParam hrest) ?_
  rintro ⟨_, j⟩ ⟨callee, left⟩ ⟨⟨rfl, hleft⟩, -⟩
  refine Follows.bind (h.scanParams hleft.symm) ?_
  rintro ⟨_, k⟩ ⟨params, left'⟩ ⟨rfl, hleft'⟩
  refine Follows.bind (h.scanHash (h.scanPairs hleft'.symm)) ?_
  rintro ⟨_, l⟩ ⟨pairs, left''⟩ ⟨rfl, hleft''⟩
  exact .ok ⟨rfl, hleft''⟩

/-! ## Block parameters and whole tags -/

/-- Names between pipes are read alike, -/
theorem scanParamNames {i : Nat} {rest : List Token} (hrest : us.drop i = rest) :
    Follows (reportAt q) (fun a b => a.1 = b.1 ∧ b.2 = us.drop a.2)
      (scanParamNames text ts stop i) (readParamNames rest) := by
  induction rest generalizing i with
  | nil =>
    rw [Checked.scanParamNames]
    split
    · exact h.unexpected .nameOrPipe hrest
    · rename_i hl
      cases hl.symm.trans (h.getElem?_none hrest)
  | cons t rest ih =>
    obtain ⟨l, hl, ht, hnext, hspells⟩ := h.getElem?_some hrest
    rw [Checked.scanParamNames, readParamNames]
    split
    · rename_i hnone
      cases hnone.symm.trans hl
    rename_i l' hl'
    cases hl.symm.trans hl'
    -- the next token is of one kind for both readers
    rw [hspells.1]
    cases t.kind with
    | name name bracketed =>
      refine Follows.bind (ih hnext) ?_
      rintro ⟨_, j⟩ ⟨names, left⟩ ⟨rfl, hleft⟩
      exact .ok ⟨rfl, hleft⟩
    | pipe => exact .ok ⟨rfl, hnext.symm⟩
    | _ => exact h.unexpected .nameOrPipe hrest

/-- if there are any. -/
theorem scanBlockParams {i : Nat} {rest : List Token} (hrest : us.drop i = rest) :
    Follows (reportAt q) (fun a b => a.1 = b.1 ∧ b.2 = us.drop a.2)
      (scanBlockParams text ts stop i) (readBlockParams rest) := by
  rw [Checked.scanBlockParams, h.map_kind hrest]
  cases rest with
  | nil => exact .ok ⟨rfl, hrest.symm⟩
  | cons t rest =>
    obtain ⟨l, hl, ht, hnext, hspells⟩ := h.getElem?_some hrest
    rw [readBlockParams, List.head?_cons, Option.map_some]
    by_cases hpipe : t.kind = .asPipe
    · rw [if_pos (congrArg some hpipe), if_pos hpipe]
      exact h.scanParamNames hnext
    · rw [if_neg (mt Option.some.inj hpipe), if_neg hpipe]
      exact .ok ⟨rfl, hrest.symm⟩

/-- Nothing is left, or the first of it is out of place. -/
theorem expectEnd {i : Nat} {rest : List Token} (hrest : us.drop i = rest) :
    Follows (reportAt q) (fun _ _ => True) (expectEnd text ts stop i) (expectClose rest) := by
  rw [Checked.expectEnd]
  cases rest with
  | nil =>
    rw [h.getElem?_none hrest]
    exact .ok trivial
  | cons t rest =>
    obtain ⟨l, hl, -⟩ := h.getElem?_some hrest
    rw [hl]
    exact h.unexpected .close hrest

/-- **Whole tags are read alike**: calls, -/
theorem wholeCall :
    Follows (reportAt q) (Reports Call.moved) (wholeCall text ts stop) (Call.ofTokens us) := by
  refine Follows.bind (h.scanCall (i := 0) rfl) ?_
  rintro ⟨_, i⟩ ⟨call, left⟩ ⟨rfl, hleft⟩
  exact Follows.bind (h.expectEnd hleft.symm) fun _ _ _ => .ok rfl

/-- calls of partials, -/
theorem wholePartialCall :
    Follows (reportAt q) (Reports Call.moved) (wholePartialCall text ts stop)
      (Call.partialOfTokens us) := by
  refine Follows.bind (h.scanPartialCall (i := 0) rfl) ?_
  rintro ⟨_, i⟩ ⟨call, left⟩ ⟨rfl, hleft⟩
  exact Follows.bind (h.expectEnd hleft.symm) fun _ _ _ => .ok rfl

/-- names in close tags, -/
theorem wholeName :
    Follows (reportAt q) (Reports Expression.moved) (wholeName text ts stop)
      (Expression.nameOfTokens us) := by
  refine Follows.bind (h.scanName (i := 0) rfl) ?_
  rintro ⟨_, i⟩ ⟨name, left⟩ ⟨⟨rfl, hleft⟩, -⟩
  exact Follows.bind (h.expectEnd hleft.symm) fun _ _ _ => .ok rfl

/-- block parameters, -/
theorem wholeBlockParams {i : Nat} {rest : List Token} (hrest : us.drop i = rest) :
    Follows (reportAt q) Eq (wholeBlockParams text ts stop i) (blockParamsOfTokens rest) := by
  refine Follows.bind (h.scanBlockParams hrest) ?_
  rintro ⟨_, j⟩ ⟨names, left⟩ ⟨rfl, hleft⟩
  exact Follows.bind (h.expectEnd hleft.symm) fun _ _ _ => .ok rfl

/-- and what opens a block. -/
theorem wholeOpener (kind : OpeningKind) :
    Follows (reportAt q) (Reports Grammar.movedOpener) (wholeOpener text ts stop kind)
      (if kind = .partialBlock then Call.partialOpenerOfTokens us else Call.openerOfTokens us) := by
  rw [Checked.wholeOpener]
  by_cases hkind : kind = .partialBlock
  · rw [if_pos hkind, if_pos hkind]
    refine Follows.bind (h.scanPartialCall (i := 0) rfl) ?_
    rintro ⟨_, i⟩ ⟨call, left⟩ ⟨rfl, hleft⟩
    refine Follows.bind (h.wholeBlockParams hleft.symm) ?_
    rintro _ names rfl
    exact .ok rfl
  · rw [if_neg hkind, if_neg hkind]
    refine Follows.bind (h.scanCall (i := 0) rfl) ?_
    rintro ⟨_, i⟩ ⟨call, left⟩ ⟨rfl, hleft⟩
    refine Follows.bind (h.wholeBlockParams hleft.symm) ?_
    rintro _ names rfl
    exact .ok rfl

end SameTokens

end Stache.Checked
