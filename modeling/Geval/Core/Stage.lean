import Geval.Core.TokenKind

/-!
# Evaluation stages

The node of the plan (Go `evaluationStage`) and what the planner attaches to it: the
operator it runs, its type checks (`findTypeChecks` of `lexerState.go`) and its error
format. The struct itself, `isShortCircuitable` and `swapWith` are declared in a file of
the repository that is not under src/; they are modelled from the spec (§3, §4.4.1, §4.5).

A stage tree is a Go `*evaluationStage`: `Stage.nil` is the nil pointer. The planner builds
every node afresh, so the tree is unshared and in-place updates are functional updates.
The closures the planner stores as operators are kept first-order (`StageOperator`) and
are given their meaning by `Geval.Core.Operators`.
-/

namespace Geval

/-- The unary type checks the planner attaches (Go `stageTypeCheck` values). -/
inductive TypeCheck
  | isString | isRegexOrString | isBool | isFloat64 | isArray
  deriving DecidableEq, Repr

/-- The combined type checks (Go `stageCombinedTypeCheck` values). -/
inductive CombinedTypeCheck
  | comparatorTypeCheck | additionTypeCheck
  deriving DecidableEq, Repr

/-- Go `typeChecks`: each member may be absent. -/
structure TypeChecks where
  left : Option TypeCheck := none
  right : Option TypeCheck := none
  combined : Option CombinedTypeCheck := none
  deriving DecidableEq, Repr

open TypeCheck CombinedTypeCheck in
/-- Go `findTypeChecks`. -/
def findTypeChecks : OperatorSymbol → TypeChecks
  | .GT | .LT | .GTE | .LTE => { combined := some comparatorTypeCheck }
  | .REQ | .NREQ => { left := some isString, right := some isRegexOrString }
  | .AND | .OR => { left := some isBool, right := some isBool }
  | .IN => { right := some isArray }
  | .BITWISE_LSHIFT | .BITWISE_RSHIFT | .BITWISE_OR | .BITWISE_AND | .BITWISE_XOR =>
    { left := some isFloat64, right := some isFloat64 }
  | .PLUS => { combined := some additionTypeCheck }
  | .MINUS | .MULTIPLY | .DIVIDE | .MODULUS | .EXPONENT =>
    { left := some isFloat64, right := some isFloat64 }
  | .NEGATE => { right := some isFloat64 }
  | .INVERT => { right := some isBool }
  | .BITWISE_NOT => { right := some isFloat64 }
  | .TERNARY_TRUE => { left := some isBool }
  | _ => {}

/-- The `typeErrorFormat` a stage carries. The five named constants are declared in a file
of the repository that is not under src/ (their text is not known here); the other
formats are the string literals of the planner. -/
inductive TypeErrorFormat
  | logicalErrorFormat | modifierErrorFormat | comparatorErrorFormat | ternaryErrorFormat
  | prefixErrorFormat
  | text (format : String)
  deriving DecidableEq, Repr, Inhabited

/-- The operator closure a stage stores. `symbol s` is `stageSymbolMap[s]`; the others are
the closures built by `makeParameterStage`, `makeLiteralStage`, `makeFunctionStage`,
`makeAccessorStage`, and `noopStageRight`. -/
inductive StageOperator
  | symbol (s : OperatorSymbol)
  | parameter (name : String)
  | literal (value : Value)
  | function (f : ExpressionFunction)
  | accessor (path : List String)
  | noopRight
  deriving Repr, Inhabited

/-- The fields of a stage other than its children: what `swapWith` exchanges. -/
structure StageInfo where
  symbol : OperatorSymbol
  operator : StageOperator
  leftTypeCheck : Option TypeCheck := none
  rightTypeCheck : Option TypeCheck := none
  typeCheck : Option CombinedTypeCheck := none
  typeErrorFormat : TypeErrorFormat := .text ""
  deriving Repr, Inhabited

/-- A Go `*evaluationStage`: nil, or a node owning its two children.
Modelled from the spec: `EvaluationStage {symbol, left, right, operator, leftTypeCheck,
rightTypeCheck, combinedTypeCheck, typeErrorFormat}` (§3). -/
inductive Stage
  | nil
  | node (info : StageInfo) (leftStage rightStage : Stage)
  deriving Repr, Inhabited

namespace Stage

/-- The symbol of a stage; Go reads it only through non-nil pointers. -/
def symbol? : Stage → Option OperatorSymbol
  | nil => none
  | node info _ _ => some info.symbol

/-- The test `stage.symbol == tLITERAL` of `elideStage`, made on a non-nil stage. -/
def isLiteral : Stage → Bool
  | node info _ _ => info.symbol == .LITERAL
  | nil => false

/-- The number of nodes. -/
def size : Stage → Nat
  | nil => 0
  | node _ l r => l.size + r.size + 1

end Stage

/-- Go `evaluationStage.isShortCircuitable`.
Modelled from the spec: the symbols of the short-circuit table of §4.5. -/
def isShortCircuitable : OperatorSymbol → Bool
  | .AND | .OR | .TERNARY_TRUE | .TERNARY_FALSE | .COALESCE => true
  | _ => false

/-- The stage a `planPrecedenceLevel` emits for `symbol`, with the operator of
`stageSymbolMap` and the checks of `findTypeChecks`. -/
def binaryInfo (symbol : OperatorSymbol) (typeErrorFormat : TypeErrorFormat) : StageInfo :=
  let checks := findTypeChecks symbol
  { symbol, operator := .symbol symbol, leftTypeCheck := checks.left,
    rightTypeCheck := checks.right, typeCheck := checks.combined, typeErrorFormat }

/-- The stage `planFunction` emits for a call of `f`. -/
def functionalInfo (f : ExpressionFunction) : StageInfo :=
  { symbol := .FUNCTIONAL, operator := .function f,
    typeErrorFormat := .text "Unable to run function '%v': %v" }

/-- The stage `planAccessor` emits for an accessor path. -/
def accessInfo (path : List String) : StageInfo :=
  { symbol := .ACCESS, operator := .accessor path,
    typeErrorFormat := .text "Unable to access parameter field or method '%v': %v" }

/-- The stage `planValue` wraps a clause in. -/
def noopInfo : StageInfo := { symbol := .NOOP, operator := .noopRight }

/-- The stage `planValue` emits for a variable (its symbol is Go's zero `tVALUE`). -/
def parameterInfo (name : String) : StageInfo := { symbol := .VALUE, operator := .parameter name }

/-- The stage `planValue` emits for a literal. -/
def literalInfo (value : Value) : StageInfo := { symbol := .LITERAL, operator := .literal value }

end Geval
