import Geval.Core.Operators

/-!
# The evaluator

`evaluateStage` and `typeCheck` of `part_001`: a post-order walk of the stage tree in
which the symbols `AND`, `OR`, `COALESCE`, `TERNARY_TRUE` and `TERNARY_FALSE` may decide
before the right child is evaluated. The two ternary symbols do so by setting `right` to
the integer `shortCircuitHolder`; the right child is then skipped.

Besides its value or fault, an evaluation records the external calls its operators make
(parameter lookups, accessor walks, function calls), in the order they are made: that is
how the theorems say that an operand is never evaluated.
-/

namespace Geval

/-- Go `shortCircuitHolder`. -/
def shortCircuitHolder : Int := -1

/-- Go `fmt.Sprintf(format, args...)` for a format whose verbs are all `%v`. -/
def sprintf (format : String) (args : List String) : String :=
  String.mk (go format.toList args)
where
  go : List Char → List String → List Char
    | '%' :: 'v' :: rest, arg :: args => arg.toList ++ go rest args
    | c :: rest, args => c :: go rest args
    | [], _ => []

/-- The message of a failed type check: `fmt.Sprintf(format, value, symbol.String())`. The
text of the five named format constants is not known here; their messages name the
constant. -/
def TypeErrorFormat.render (format : TypeErrorFormat) (value : Value) (symbol : OperatorSymbol) :
    String :=
  match format with
  | .text f => sprintf f [value.format, symbol.toGoString]
  | named => reprStr named ++ " [" ++ value.format ++ ", " ++ symbol.toGoString ++ "]"

/-- Go `typeCheck`: an absent check passes. -/
def typeCheck (check : Option TypeCheck) (value : Value) (symbol : OperatorSymbol)
    (format : TypeErrorFormat) : Result Unit :=
  match check with
  | none => .ok ()
  | some check => if check.run value then .ok () else fail (format.render value symbol)

/-- The type checks of `evaluateStage`: the combined check when there is one, else the two
unary checks. -/
def checkStageTypes (info : StageInfo) (left right : Value) : Result Unit :=
  match info.typeCheck with
  | none => do
    typeCheck info.leftTypeCheck left info.symbol info.typeErrorFormat
    typeCheck info.rightTypeCheck right info.symbol info.typeErrorFormat
  | some combined =>
    if combined.run left right then .ok () else fail (info.typeErrorFormat.render left info.symbol)

/-- What the short-circuit switch of `evaluateStage` decides from the left value. -/
inductive ShortCircuit
  /-- Evaluate the right child. -/
  | proceed
  /-- Return this value at once. -/
  | returns (value : Value)
  /-- `right = shortCircuitHolder`: skip the right child. -/
  | skipRight

/-- The switch of `evaluateStage`, taken when `isShortCircuitable` holds. -/
def shortCircuit (symbol : OperatorSymbol) (left : Value) : ShortCircuit :=
  if !isShortCircuitable symbol then .proceed
  else match symbol, left with
    | .AND, .bool false => .returns (.bool false)
    | .OR, .bool true => .returns (.bool true)
    | .COALESCE, left => if left.isNull then .proceed else .returns left
    | .TERNARY_TRUE, .bool false => .skipRight
    | .TERNARY_FALSE, left => if left.isNull then .proceed else .skipRight
    | _, _ => .proceed

/-- An evaluation: the value or fault, and the external calls made. -/
abbrev Evaluation := Result Value × List Call

section Evaluate

variable (checksTypes : Bool) (world : World) (parameters : Parameters)

/-- The end of `evaluateStage` once both operands are known: the type checks (when
`ChecksTypes` is set), then the operator. -/
def finishStage (info : StageInfo) (left right : Value) (calls : List Call) : Evaluation :=
  match (if checksTypes then checkStageTypes info left right else .ok ()) with
  | .error e => (.error e, calls)
  | .ok () =>
    (info.operator.run world parameters left right, calls ++ info.operator.call?.toList)

/-- The body of `evaluateStage` at a stage, from the evaluations of its children (a nil child
is the value nil with no calls): the left operand, the short-circuit switch, then the right
operand unless the switch decided, the type checks and the operator. -/
def evaluateNode (info : StageInfo) (left right : Evaluation) : Evaluation :=
  match left with
  | (.error e, leftCalls) => (.error e, leftCalls)
  | (.ok left, leftCalls) =>
    match shortCircuit info.symbol left with
    | .returns value => (.ok value, leftCalls)
    | .skipRight =>
      finishStage checksTypes world parameters info left (.int shortCircuitHolder) leftCalls
    | .proceed =>
      match right with
      | (.error e, rightCalls) => (.error e, leftCalls ++ rightCalls)
      | (.ok right, rightCalls) =>
        finishStage checksTypes world parameters info left right (leftCalls ++ rightCalls)

/-- Go `tEvaluableExpression.evaluateStage`. -/
def evaluateStage : Stage → Evaluation
  | .nil => (.error .nilDereference, [])
  | .node info leftStage rightStage =>
    evaluateNode checksTypes world parameters info
      (match leftStage with
        | .nil => (.ok .null, [])
        | .node .. => evaluateStage leftStage)
      (match rightStage with
        | .nil => (.ok .null, [])
        | .node .. => evaluateStage rightStage)

/-- What `evaluateStage` takes for a child: a nil child is the value nil, with no calls. -/
def evaluateChild (stage : Stage) : Evaluation :=
  match stage with
  | .nil => (.ok .null, [])
  | .node .. => evaluateStage checksTypes world parameters stage

theorem evaluateStage_node (info : StageInfo) (left right : Stage) :
    evaluateStage checksTypes world parameters (.node info left right) =
      evaluateNode checksTypes world parameters info (evaluateChild checksTypes world parameters left)
        (evaluateChild checksTypes world parameters right) := rfl

@[simp] theorem evaluateChild_node (info : StageInfo) (left right : Stage) :
    evaluateChild checksTypes world parameters (.node info left right) =
      evaluateStage checksTypes world parameters (.node info left right) := rfl

end Evaluate

end Geval
