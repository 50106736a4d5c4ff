import Geval.Reorder.Chain
import Geval.Planner.Safety

/-!
# The reference grammar of the planner

The planner of `lexerState.go` is a recursive descent over a stack of precedence levels. Its
grammar, from the loosest level to the tightest, is

    sep   := tern (',' tern)*
    tern  := or (('?' | ':' | '??') or)*
    or    := and ('||' and)*
    and   := cmp ('&&' cmp)*
    cmp   := bit (('==' | '!=' | '<' | '<=' | '>' | '>=' | '=~' | '!~' | 'in') bit)*
    bit   := shift (('&' | '|' | '^') shift)*
    shift := add (('<<' | '>>') add)*
    add   := mul (('+' | '-') mul)*
    mul   := pow (('*' | '/' | '%') pow)*
    pow   := unary ('**' unary)*
    unary := PREFIX call | call
    call  := FUNCTION args | ACCESSOR [args] | args | literal | VARIABLE
    args  := '(' [sep] ')'

with the operators of each level those of its planner's table. A `Derivation` is a
derivation tree of this grammar; `Derivation.tokens` is the token list it derives.

Its reference tree (`Derivation.reference`) has every binary level left-associative, a
parenthesised group as a `NOOP` stage over its contents, a prefix as a stage whose right
child is its operand, and a call as a `FUNCTIONAL` or `ACCESS` stage over its argument list.
The planner builds the same tree with every level right-associative (`Derivation.planned`);
`reorderStages` is there to turn the one into the other.

`Derivation.Supported` is the part of the grammar the planner handles: no method call (an
accessor with an argument list, whose argument plan swallows what follows the call) and no
group whose contents are a bare group (two `NOOP` stages in a row, which `reorderStages`
takes for a run).
-/

namespace Geval

/-! ## Levels -/

/-- The binary levels of the planner, from the loosest to the tightest. -/
inductive Level
  | separator | ternary | logicalOr | logicalAnd | comparator | bitwise | shift | additive
  | multiplicative | exponential
  deriving DecidableEq, Repr

namespace Level

/-- The precedent `init` builds for the level. -/
def precedent : Level → Precedent
  | separator => .planSeparator | ternary => .planTernary | logicalOr => .planLogicalOr
  | logicalAnd => .planLogicalAnd | comparator => .planComparator | bitwise => .planBitwise
  | shift => .planShift | additive => .planAdditive | multiplicative => .planMultiplicative
  | exponential => .planExponential

/-- The planner record of the level. -/
def planner : Level → PrecedencePlanner
  | separator => separatorPlanner | ternary => ternaryPlanner | logicalOr => logicalOrPlanner
  | logicalAnd => logicalAndPlanner | comparator => comparatorPlanner | bitwise => bitwisePlanner
  | shift => shiftPlanner | additive => additivePlanner
  | multiplicative => multiplicativePlanner | exponential => exponentialPlanner

/-- The kind of the level's operator tokens, the one kind of its planner. -/
def kind : Level → TokenKind
  | separator => .SEPARATOR | ternary => .TERNARY | logicalOr | logicalAnd => .LOGICALOP
  | comparator => .COMPARATOR
  | bitwise | shift | additive | multiplicative | exponential => .MODIFIER

/-- The rank of the level among the precedents. -/
def rank (L : Level) : Nat := L.precedent.rank

/-- The stage of an operator of the level, as `planPrecedenceLevel` builds it. -/
def operatorInfo (L : Level) (lexeme : String) : StageInfo :=
  binaryInfo ((L.planner.validSymbols lexeme).getD .VALUE) L.planner.typeErrorFormat

end Level

/-- The stage of a prefix operator, as `planPrefix` builds it. -/
def prefixInfo (lexeme : String) : StageInfo :=
  binaryInfo ((prefixSymbols lexeme).getD .VALUE) .prefixErrorFormat

/-- The stage `planValue` builds for a literal token. -/
def literalStage (token : ExpressionToken) : StageInfo :=
  match token.kind, token.value with
  | .TIME, .time unix => literalInfo (.float (Float.ofInt unix))
  | _, value => literalInfo value

/-- The tokens the grammar calls `literal`. -/
def ExpressionToken.isLiteral (token : ExpressionToken) : Bool :=
  match token.kind, token.value with
  | .NUMERIC, _ | .STRING, _ | .PATTERN, _ | .BOOLEAN, _ | .TIME, .time _ => true
  | _, _ => false

/-! ## Derivations -/

mutual

/-- A derivation tree of the reference grammar. -/
inductive Derivation
  /-- `first op₁ x₁ … opₖ xₖ` at a binary level, `k ≥ 1`. -/
  | chain (level : Level) (first : Derivation) (rest : Chain)
  /-- `PREFIX call`. -/
  | unary (lexeme : String) (operand : Derivation)
  /-- `FUNCTION args`. -/
  | call (function : ExpressionFunction) (args : Args)
  /-- `ACCESSOR`, a field. -/
  | field (path : List String)
  /-- `ACCESSOR args`, a method call. -/
  | method (path : List String) (args : Args)
  /-- `args`, a parenthesised group. -/
  | group (args : Args)
  /-- `literal`. -/
  | literal (token : ExpressionToken)
  /-- `VARIABLE`. -/
  | parameter (name : String)

/-- The operators and operands of a chain after its first operand. -/
inductive Chain
  | last (lexeme : String) (operand : Derivation)
  | cons (lexeme : String) (operand : Derivation) (rest : Chain)

/-- `'(' [sep] ')'`. -/
inductive Args
  | empty
  | contents (contents : Derivation)

end

/-- The tokens of the parentheses, as `readToken` makes them. -/
def openToken : ExpressionToken := ⟨.CLAUSE, .rune '('⟩

def closeToken : ExpressionToken := ⟨.CLAUSE_CLOSE, .rune ')'⟩

mutual

/-- The tokens a derivation derives. -/
def Derivation.tokens : Derivation → List ExpressionToken
  | .chain L first rest => first.tokens ++ rest.tokens L
  | .unary lexeme operand => ⟨.PREFIX, .string lexeme⟩ :: operand.tokens
  | .call f args => ⟨.FUNCTION, .function f⟩ :: args.tokens
  | .field path => [⟨.ACCESSOR, .strings path⟩]
  | .method path args => ⟨.ACCESSOR, .strings path⟩ :: args.tokens
  | .group args => args.tokens
  | .literal token => [token]
  | .parameter name => [⟨.VARIABLE, .string name⟩]

def Chain.tokens (L : Level) : Chain → List ExpressionToken
  | .last lexeme operand => ⟨L.kind, .string lexeme⟩ :: operand.tokens
  | .cons lexeme operand rest => ⟨L.kind, .string lexeme⟩ :: operand.tokens ++ rest.tokens L

def Args.tokens : Args → List ExpressionToken
  | .empty => [openToken, closeToken]
  | .contents d => openToken :: d.tokens ++ [closeToken]

end

/-- The lowest rank of a precedent that plans the derivation: its own level for a chain,
`planFunction` for a function call, `planAccessor` for an accessor, `planValue` (which hands
a prefix to `planPrefix`) for the rest. -/
def Derivation.minRank : Derivation → Nat
  | .chain L _ _ => L.rank
  | .call .. => 3
  | .field _ | .method .. => 2
  | .unary .. | .group _ | .literal _ | .parameter _ => 1

/-- The grammar's `call`: neither a chain nor a prefix. -/
def Derivation.isCall : Derivation → Bool
  | .chain .. | .unary .. => false
  | _ => true

/-- A bare parenthesised group. -/
def Derivation.isGroup : Derivation → Bool
  | .group _ => true
  | _ => false

mutual

/-- A derivation of the grammar, operators from the levels' tables, with no method call and
no group whose contents are a bare group. -/
def Derivation.Supported : Derivation → Bool
  | .chain L first rest => decide (first.minRank < L.rank) && first.Supported && rest.Supported L
  | .unary lexeme operand =>
    (prefixSymbols lexeme).isSome && operand.isCall && operand.Supported
  | .call _ args => args.Supported
  | .field _ => true
  | .method .. => false
  | .group args => args.Supported
  | .literal token => token.isLiteral
  | .parameter _ => true

def Chain.Supported (L : Level) : Chain → Bool
  | .last lexeme operand =>
    (L.planner.validSymbols lexeme).isSome && decide (operand.minRank < L.rank) &&
      operand.Supported
  | .cons lexeme operand rest =>
    (L.planner.validSymbols lexeme).isSome && decide (operand.minRank < L.rank) &&
      operand.Supported && rest.Supported L

def Args.Supported : Args → Bool
  | .empty => true
  | .contents d => !d.isGroup && d.Supported

end

/-! ## Trees -/

section Trees

variable (nest : List (StageInfo × Stage) → Stage → Stage)

mutual

/-- The stage tree of a derivation, each chain assembled by `nest` from its stages (each
with its left operand) and its last operand. -/
def Derivation.tree : Derivation → Stage
  | .chain L first rest => nest (rest.run L (first.tree)) rest.lastTree
  | .unary lexeme operand => .node (prefixInfo lexeme) .nil operand.tree
  | .call f args => .node (functionalInfo f) .nil args.tree
  | .field path => .node (accessInfo path) .nil .nil
  | .method path args => .node (accessInfo path) .nil args.tree
  | .group args => args.tree
  | .literal token => .node (literalStage token) .nil .nil
  | .parameter name => .node (parameterInfo name) .nil .nil

/-- The stages of a chain, each with its left operand, from the one after `first`. -/
def Chain.run (L : Level) (first : Stage) : Chain → List (StageInfo × Stage)
  | .last lexeme _ => [(L.operatorInfo lexeme, first)]
  | .cons lexeme operand rest => (L.operatorInfo lexeme, first) :: rest.run L operand.tree

/-- The tree of the last operand of a chain. -/
def Chain.lastTree : Chain → Stage
  | .last _ operand => operand.tree
  | .cons _ _ rest => rest.lastTree

def Args.tree : Args → Stage
  | .empty => .node noopInfo .nil .nil
  | .contents d => .node noopInfo .nil d.tree

end

end Trees

/-- The tree the planner builds: every level right-associative. -/
def Derivation.planned (d : Derivation) : Stage := d.tree rightNested

/-- The reference tree: every level left-associative. -/
def Derivation.reference (d : Derivation) : Stage := d.tree leftNested

end Geval
