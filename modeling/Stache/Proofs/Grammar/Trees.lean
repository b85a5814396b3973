/-
  The grammar of a tag, as derivation trees.

      call        = name param* pair*
      param       = name | '(' call ')'
      pair        = NAME '=' param
      name        = '@'? path | STRING | NUMBER | BOOLEAN | UNDEFINED | NULL
      path        = NAME (SEPARATOR NAME)*
      blockParams = 'as |' NAME* '|'

  A tree has the tokens of a tag at its leaves, and a node for each rule by which they belong
  together, so a tree is a derivation and a derivation is a tree.  From a tree one can read off both
  sides: its YIELD, the tokens in order (`tokens`), and what it DENOTES, the expression or the call
  that it stands for (`expression`, `call`).  Nothing is said here of how tokens are read.

  A token has its kind by the type of the leaf.  The one condition that is no rule of the grammar is
  on paths: a STEP, which is one of `..`, `.` and `this` without brackets, comes after steps only.
-/
import Stache.Template.Call

namespace Stache.Grammar

/-! ## Leaves -/

/-- A token of the kind `kind`. -/
abbrev Mark (kind : TokenKind) := { t : Token // t.kind = kind }

/-- A token that is a name, in brackets or not. -/
structure NameToken where
  token : Token
  name : String
  bracketed : Bool
  kind_eq : token.kind = .name name bracketed

/-- A token that separates the names of a path. -/
structure SeparatorToken where
  token : Token
  mark : Char
  kind_eq : token.kind = .separator mark

/-- The literal that a token is. -/
def literal? (t : Token) : Option Expression :=
  match t.kind with
  | .string value => some (.string value t.lexeme t.span)
  | .number => some (.number t.lexeme t.span)
  | .boolean value => some (.boolean value t.span)
  | .undefined => some (.undefined t.span)
  | .null => some (.null t.span)
  | _ => none

theorem NameToken.eq_of_token_eq {a b : NameToken} (h : a.token = b.token) : a = b := by
  obtain ⟨t, name, bracketed, hkind⟩ := a
  obtain ⟨t', name', bracketed', hkind'⟩ := b
  obtain rfl : t = t' := h
  cases hkind.symm.trans hkind'
  rfl

theorem SeparatorToken.eq_of_token_eq {a b : SeparatorToken} (h : a.token = b.token) : a = b := by
  obtain ⟨t, mark, hkind⟩ := a
  obtain ⟨t', mark', hkind'⟩ := b
  obtain rfl : t = t' := h
  cases hkind.symm.trans hkind'
  rfl

/-! ## Paths -/

/-- The segments of a path, the first of which stands after `mark`. -/
def segmentsOf (mark : Option Char) (first : NameToken) (more : List (SeparatorToken × NameToken)) :
    List Segment :=
  ⟨mark, first.name, first.bracketed⟩
    :: more.map fun part => ⟨some part.1.mark, part.2.name, part.2.bracketed⟩

/-- Steps come after steps only. -/
def StepsFirst (segments : List Segment) : Prop :=
  segments.Pairwise fun a b => b.isStep = true → a.isStep = true

/-- Names with separators between them. -/
structure PathTree where
  first : NameToken
  more : List (SeparatorToken × NameToken)
  steps : StepsFirst (segmentsOf none first more)

/-- The tokens after the first name of a path. -/
def moreTokens (more : List (SeparatorToken × NameToken)) : List Token :=
  more.flatMap fun part => [part.1.token, part.2.token]

/-- Where the last name of a path ends. -/
def stopOf (first : NameToken) (more : List (SeparatorToken × NameToken)) : Position :=
  ((more.map Prod.snd).getLastD first).token.stop

theorem stopOf_cons (first : NameToken) (part : SeparatorToken × NameToken)
    (more : List (SeparatorToken × NameToken)) : stopOf first (part :: more) = stopOf part.2 more := by
  rw [stopOf, stopOf, List.map_cons, List.getLastD_cons]

/-- The segment as it is written, with the separator in front of it. -/
def writtenOf (s : Segment) : String := (s.mark.map Char.toString).getD "" ++ s.name

namespace PathTree

/-- The yield of a path. -/
def tokens (p : PathTree) : List Token := p.first.token :: moreTokens p.more

/-- What a path is read as. -/
def segments (p : PathTree) : List Segment := segmentsOf none p.first p.more

/-- The path that begins at `start`, or after an at sign there.  The steps `..` are counted, the
    other steps make it refer to the context itself, and the rest are its parts. -/
def path (data : Bool) (start : Position) (p : PathTree) : Path where
  data := data
  depth := p.segments.countP fun s => s.isStep && s.name = ".."
  parts := (p.segments.filter fun s => !s.isStep).map Segment.name
  written := (if data then "@" else "") ++ (p.segments.map writtenOf).foldr (· ++ ·) ""
  thisScoped := p.segments.any fun s => s.isStep && s.name ≠ ".."
  span := ⟨start, stopOf p.first p.more⟩

end PathTree

/-! ## Names -/

/-- A path, a path behind an at sign, or a literal. -/
inductive NameTree where
  | path (path : PathTree)
  | data (at' : Mark .atSign) (path : PathTree)
  | literal (token : Token) (value : Expression) (h : literal? token = some value)

namespace NameTree

/-- The yield of a name. -/
def tokens : NameTree → List Token
  | .path p => p.tokens
  | .data at' p => at'.1 :: p.tokens
  | .literal t _ _ => [t]

/-- What a name denotes. -/
def expression : NameTree → Expression
  | .path p => .path (p.path false p.first.token.start)
  | .data at' p => .path (p.path true at'.1.start)
  | .literal _ e _ => e

end NameTree

/-! ## Calls -/

mutual

/-- A name, or a call in parentheses. -/
inductive ParamTree where
  | name (name : NameTree)
  | parens (opening : Mark .openParen) (call : CallTree) (closing : Mark .closeParen)

/-- What is called, then parameters, then pairs. -/
structure CallTree where
  callee : NameTree
  params : List ParamTree
  pairs : List PairTree

/-- A name with a value. -/
structure PairTree where
  key : NameToken
  equals : Mark .equals
  value : ParamTree

end

mutual

/-- The yield of a parameter, -/
def ParamTree.tokens : ParamTree → List Token
  | .name n => n.tokens
  | .parens opening call closing => opening.1 :: (call.tokens ++ [closing.1])

/-- of a call, -/
def CallTree.tokens : CallTree → List Token
  | ⟨callee, params, pairs⟩ => callee.tokens ++ (paramsTokens params ++ pairsTokens pairs)

/-- of parameters, -/
def paramsTokens : List ParamTree → List Token
  | [] => []
  | p :: rest => p.tokens ++ paramsTokens rest

/-- and of pairs. -/
def pairsTokens : List PairTree → List Token
  | [] => []
  | ⟨key, equals, value⟩ :: rest => key.token :: equals.1 :: (value.tokens ++ pairsTokens rest)

end

mutual

/-- What a parameter denotes; a call in parentheses reaches from the one to the other. -/
def ParamTree.expression : ParamTree → Expression
  | .name n => n.expression
  | .parens opening call closing => .subexpression call.call ⟨opening.1.start, closing.1.stop⟩

/-- What a call denotes. -/
def CallTree.call : CallTree → Call
  | ⟨callee, params, pairs⟩ =>
    ⟨callee.expression, paramsExpressions params, Hash.ofPairs (pairsOf pairs)⟩

/-- What parameters denote, one by one. -/
def paramsExpressions : List ParamTree → List Expression
  | [] => []
  | p :: rest => p.expression :: paramsExpressions rest

/-- A pair reaches from its key to the end of its value. -/
def pairsOf : List PairTree → List Pair
  | [] => []
  | ⟨key, _, value⟩ :: rest =>
    ⟨key.name, value.expression, ⟨key.token.start, value.expression.span.stop⟩⟩ :: pairsOf rest

end

/-! ## Whole tags -/

/-- A call whose callee may itself be a call in parentheses. -/
structure PartialTree where
  callee : ParamTree
  params : List ParamTree
  pairs : List PairTree

namespace PartialTree

/-- The yield of such a call. -/
def tokens (d : PartialTree) : List Token :=
  d.callee.tokens ++ (paramsTokens d.params ++ pairsTokens d.pairs)

/-- What it denotes. -/
def call (d : PartialTree) : Call :=
  ⟨d.callee.expression, paramsExpressions d.params, Hash.ofPairs (pairsOf d.pairs)⟩

end PartialTree

/-- Names between bars. -/
structure BlockParamsTree where
  opening : Mark .asPipe
  names : List NameToken
  closing : Mark .pipe

namespace BlockParamsTree

/-- The yield of block parameters, -/
def tokens (d : BlockParamsTree) : List Token :=
  d.opening.1 :: (d.names.map NameToken.token ++ [d.closing.1])

/-- and the names they declare. -/
def value (d : BlockParamsTree) : List String := d.names.map NameToken.name

end BlockParamsTree

/-- A call with block parameters behind it, or without. -/
structure OpenerTree (δ : Type) where
  call : δ
  blockParams : Option BlockParamsTree

namespace OpenerTree

variable {δ : Type}

/-- The yield of what opens a block, -/
def tokens (tokensOf : δ → List Token) (d : OpenerTree δ) : List Token :=
  tokensOf d.call ++ (d.blockParams.map BlockParamsTree.tokens).getD []

/-- and what it denotes. -/
def value (callOf : δ → Call) (d : OpenerTree δ) : Call × List String :=
  (callOf d.call, (d.blockParams.map BlockParamsTree.value).getD [])

end OpenerTree

end Stache.Grammar
