import Geval.Core.Expression

/-!
# Parentheses

A parenthesised group is planned as a `NOOP` stage whose right child is its contents, and
`NOOP` passes its right operand through: evaluating the stage is evaluating its contents,
value, error and calls alike (`evaluateStage_noop`).

Wrapping a whole expression in parentheses is another matter, because the grammar checker
counts parentheses without matching them. `true) && (false` is accepted; its plan stops at
the stray `)` and evaluates to `true`, while `(true) && (false)` evaluates to `false`
(`paren_wrap_changes_value`).
-/

namespace Geval

section Evaluation

variable (checksTypes : Bool) (world : World) (parameters : Parameters)

/-- A `NOOP` stage evaluates exactly as its right child, a nil child as the value nil. -/
theorem evaluateStage_noop (contents : Stage) :
    evaluateStage checksTypes world parameters (.node noopInfo .nil contents) =
      evaluateChild checksTypes world parameters contents := by
  have hchecks : ∀ right, (if checksTypes then checkStageTypes noopInfo .null right
      else .ok ()) = .ok () := fun _ => by cases checksTypes <;> rfl
  rw [evaluateStage_node]
  obtain ⟨_ | right, calls⟩ := evaluateChild checksTypes world parameters contents
  · rfl
  · simp only [evaluateNode, evaluateChild, finishStage, hchecks]
    exact congrArg _ (List.append_nil calls)

end Evaluation

/-- `true) && (false` compiles and evaluates to `true`; wrapped in parentheses it evaluates
to `false`. -/
theorem paren_wrap_changes_value :
    ((TNewEvaluableExpression asciiTables nullWorld "true) && (false").map fun e =>
        (e.TEvaluate nullWorld none).1) = .ok (.ok (.bool true)) ∧
      ((TNewEvaluableExpression asciiTables nullWorld "(true) && (false)").map fun e =>
        (e.TEvaluate nullWorld none).1) = .ok (.ok (.bool false)) := by
  have he : parseTokens asciiTables "true) && (false" (fun _ => none) =
      .ok [⟨.BOOLEAN, .bool true⟩, ⟨.CLAUSE_CLOSE, .rune ')'⟩, ⟨.LOGICALOP, .string "&&"⟩,
        ⟨.CLAUSE, .rune '('⟩, ⟨.BOOLEAN, .bool false⟩] := by rfl
  have hw : parseTokens asciiTables "(true) && (false)" (fun _ => none) =
      .ok [⟨.CLAUSE, .rune '('⟩, ⟨.BOOLEAN, .bool true⟩, ⟨.CLAUSE_CLOSE, .rune ')'⟩,
        ⟨.LOGICALOP, .string "&&"⟩, ⟨.CLAUSE, .rune '('⟩, ⟨.BOOLEAN, .bool false⟩,
        ⟨.CLAUSE_CLOSE, .rune ')'⟩] := by rfl
  simp only [TNewEvaluableExpression, tNewEvaluableExpressionWithFunctions, he, hw]
  exact ⟨rfl, rfl⟩

end Geval
