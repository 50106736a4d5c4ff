import Geval.Core.Evaluate

/-!
# Constant folding

`elideLiterals` and `elideStage` of `lexerState.go`: a post-order pass that replaces a
stage whose two children are literals by a literal of its value. The value is computed the
way evaluation would, with nil parameters: both type checks and the combined check, then
the operator. A Go `error` from any of these abandons the fold of that stage; a panic is not
recovered and ends the compilation.
-/

namespace Geval

/-- A step of `elideStage`: go on with the value, keep `root` on a Go error, and pass a
panic on. -/
def keepOnError {α : Type} (root : Stage) : Result α → (α → Result Stage) → Result Stage
  | .ok a, k => k a
  | .error (.error _), _ => .ok root
  | .error fault, _ => .error fault

/-- Go `elideStage`. -/
def elideStage (world : World) : Stage → Result Stage
  | .nil => .error .nilDereference
  | root@(.node info left right) =>
    match left, right with
    | .node leftInfo _ _, .node rightInfo _ _ =>
      if !(rightInfo.symbol == .LITERAL && leftInfo.symbol == .LITERAL) then .ok root
      else if info.symbol = .SEPARATE ∨ info.symbol = .IN then .ok root
      else
        keepOnError root (leftInfo.operator.run world nilParameters .null .null) fun leftValue =>
        keepOnError root (rightInfo.operator.run world nilParameters .null .null) fun rightValue =>
        keepOnError root (typeCheck info.leftTypeCheck leftValue info.symbol info.typeErrorFormat)
          fun _ =>
        keepOnError root (typeCheck info.rightTypeCheck rightValue info.symbol info.typeErrorFormat)
          fun _ =>
        if info.typeCheck.any (fun check => !check.run leftValue rightValue) then .ok root
        else
          keepOnError root (info.operator.run world nilParameters leftValue rightValue)
            fun result => .ok (.node (literalInfo result) .nil .nil)
    | _, _ => .ok root

/-- Go `elideLiterals`: the children first, then the stage itself. -/
def elideLiterals (world : World) : Stage → Result Stage
  | .nil => .error .nilDereference
  | .node info left right => do
    let left ← match left with
      | .nil => pure .nil
      | .node .. => elideLiterals world left
    let right ← match right with
      | .nil => pure .nil
      | .node .. => elideLiterals world right
    elideStage world (.node info left right)

end Geval
