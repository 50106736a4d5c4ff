import Geval.Core.Evaluate
import Geval.Core.Expression
import Geval.Reorder.Shape

/-!
# What the type checks guarantee

`findTypeChecks` attaches to each operator symbol the checks that rule out the operand types
its operator asserts against, and `evaluateStage` runs them before the operator whenever
`ChecksTypes` is set, as it is for every expression compiled with the default settings. So
with the checks on, no operator of a planned stage panics: a wrong operand type is a Go
error naming the symbol, never a failed type assertion.

* `symbolOperator_safe`: the operator of a symbol of an operator level never panics on
  operands that pass its checks.
* `finishStage_safe`: the checks and the operator of a planned stage never panic, given an
  accessor path that is not empty and parameters that never panic.
* `evaluateStage_safe`: evaluating with type checks a tree of planned stages whose accessor
  paths are not empty never panics.
* `EvaluableExpression.TEvaluate_unchecked`: on any tree, clearing `ChecksTypes` changes an
  evaluation only where the check of one of the tree's stages has failed
  (`evaluateNode_guards`, one step; by induction over the tree, `evaluateChild_guards`).
-/

namespace Geval

/-! ## The checks of one operand -/

theorem typeCheck_safe (check : Option TypeCheck) (value : Value) (symbol : OperatorSymbol)
    (format : TypeErrorFormat) :
    Result.Safe (fun _ => check.all (·.run value)) (typeCheck check value symbol format) := by
  cases check with
  | none => rfl
  | some check =>
    by_cases h : check.run value
    · simp only [typeCheck, h, if_true]; exact h
    · simp only [typeCheck, h]; trivial

theorem typeCheck_of_all {check : Option TypeCheck} {value : Value} {symbol : OperatorSymbol}
    {format : TypeErrorFormat} (h : check.all (·.run value)) :
    typeCheck check value symbol format = .ok () := by
  cases check with
  | none => rfl
  | some check => simp only [typeCheck, Option.all] at h ⊢; simp [h]

namespace TypeCheck

variable {v : Value}

theorem run_isFloat64 (h : isFloat64.run v) : ∃ x, v = .float x := by cases v <;> simp_all [run]

theorem run_isBool (h : isBool.run v) : ∃ b, v = .bool b := by cases v <;> simp_all [run]

theorem run_isString (h : isString.run v) : ∃ s, v = .string s := by cases v <;> simp_all [run]

theorem run_isArray (h : isArray.run v) : ∃ items, v = .list items := by
  cases v <;> simp_all [run]

theorem run_isRegexOrString (h : isRegexOrString.run v) :
    (∃ s, v = .string s) ∨ ∃ p, v = .pattern p := by cases v <;> simp_all [run]

end TypeCheck

theorem CombinedTypeCheck.run_eq_true {check : CombinedTypeCheck} {l r : Value}
    (h : check.run l r) :
    (∃ x y, l = .float x ∧ r = .float y) ∨ ∃ x y, l = .string x ∧ r = .string y := by
  unfold CombinedTypeCheck.run at h
  split at h
  · exact .inl ⟨_, _, rfl, rfl⟩
  · exact .inr ⟨_, _, rfl, rfl⟩
  · cases h

/-- The operator of a symbol of an operator level never panics on operands that pass the
symbol's checks: the checks rule out every operand type the operator asserts against. -/
theorem symbolOperator_safe (regexp : RegexpLibrary) {symbol : OperatorSymbol}
    (hs : (findOperatorPrecedenceForSymbol symbol).isStructural = false) {l r : Value}
    (hl : (findTypeChecks symbol).left.all (·.run l))
    (hr : (findTypeChecks symbol).right.all (·.run r))
    (hc : (findTypeChecks symbol).combined.all (·.run l r)) :
    Result.Safe (fun _ => True) (symbolOperator regexp symbol l r) := by
  cases symbol
  case VALUE | LITERAL | NOOP | FUNCTIONAL | ACCESS => cases hs
  case EQ | NEQ | TERNARY_FALSE | COALESCE => trivial
  case GT | LT | GTE | LTE | PLUS =>
    rcases CombinedTypeCheck.run_eq_true hc with ⟨x, y, rfl, rfl⟩ | ⟨x, y, rfl, rfl⟩ <;> trivial
  case REQ | NREQ =>
    obtain ⟨x, rfl⟩ := TypeCheck.run_isString hl
    rcases TypeCheck.run_isRegexOrString hr with ⟨y, rfl⟩ | ⟨y, rfl⟩
    · -- the pattern is compiled: a Go error when it does not compile
      delta symbolOperator
      dsimp only
      split <;> trivial
    · trivial
  case IN => obtain ⟨items, rfl⟩ := TypeCheck.run_isArray hr; trivial
  case AND | OR =>
    obtain ⟨x, rfl⟩ := TypeCheck.run_isBool hl
    obtain ⟨y, rfl⟩ := TypeCheck.run_isBool hr
    trivial
  case BITWISE_AND | BITWISE_OR | BITWISE_XOR | BITWISE_LSHIFT | BITWISE_RSHIFT | MINUS
    | MULTIPLY | DIVIDE | MODULUS | EXPONENT =>
    obtain ⟨x, rfl⟩ := TypeCheck.run_isFloat64 hl
    obtain ⟨y, rfl⟩ := TypeCheck.run_isFloat64 hr
    trivial
  case NEGATE | BITWISE_NOT => obtain ⟨y, rfl⟩ := TypeCheck.run_isFloat64 hr; trivial
  case INVERT => obtain ⟨y, rfl⟩ := TypeCheck.run_isBool hr; trivial
  case TERNARY_TRUE => obtain ⟨x, rfl⟩ := TypeCheck.run_isBool hl; trivial
  case SEPARATE => cases l <;> trivial

/-! ## The checks of a stage -/

/-- A symbol with a combined check has no unary ones. -/
theorem findTypeChecks_combined (symbol : OperatorSymbol)
    (h : (findTypeChecks symbol).combined ≠ none) :
    (findTypeChecks symbol).left = none ∧ (findTypeChecks symbol).right = none := by
  cases symbol <;> first | exact ⟨rfl, rfl⟩ | exact absurd rfl h

/-- The checks of a symbol's stage never panic, and when they pass the operands pass every
check `findTypeChecks` gives the symbol. -/
theorem checkStageTypes_safe (symbol : OperatorSymbol) (format : TypeErrorFormat) (l r : Value) :
    Result.Safe (fun _ => (findTypeChecks symbol).left.all (·.run l) ∧
        (findTypeChecks symbol).right.all (·.run r) ∧
        (findTypeChecks symbol).combined.all (·.run l r))
      (checkStageTypes (binaryInfo symbol format) l r) := by
  unfold checkStageTypes
  simp only [binaryInfo]
  split
  · next hcombined =>
    exact (typeCheck_safe _ l _ _).bind fun _ hl =>
      (typeCheck_safe _ r _ _).mono fun _ hr => ⟨hl, hr, by rw [hcombined]; rfl⟩
  · next combined hcombined =>
    obtain ⟨hl, hr⟩ := findTypeChecks_combined symbol (by simp [hcombined])
    split
    · next hrun => exact ⟨by rw [hl]; rfl, by rw [hr]; rfl, by rw [hcombined]; exact hrun⟩
    · trivial

theorem checkStageTypes_binary {symbol : OperatorSymbol} {format : TypeErrorFormat} {l r : Value}
    (hl : (findTypeChecks symbol).left.all (·.run l))
    (hr : (findTypeChecks symbol).right.all (·.run r))
    (hc : (findTypeChecks symbol).combined.all (·.run l r)) :
    checkStageTypes (binaryInfo symbol format) l r = .ok () := by
  unfold checkStageTypes
  simp only [binaryInfo]
  split
  · simp only [typeCheck_of_all hl, typeCheck_of_all hr]; rfl
  · rename_i combined hcombined
    rw [hcombined] at hc
    simp only [Option.all] at hc
    simp [hc]

/-! ## Evaluation -/

/-- The stages of a reordered tree are planned. -/
theorem Stage.Reordered.every_planned : ∀ {t : Stage}, t.Reordered → t.Every StageInfo.Planned
  | .nil, _ => trivial
  | .node _ _ _, ⟨hinfo, _, _, hl, hr⟩ => ⟨hinfo, hl.every_planned, hr.every_planned⟩

/-- A planned stage whose accessor path, if it has one, is not empty: Go indexes the path's
first segment. -/
def StageInfo.Runs (info : StageInfo) : Prop :=
  info.Planned ∧ ∀ path, info.operator = .accessor path → path ≠ []

/-- A failure of the environment (a function, an accessor walk) is a Go error. -/
theorem mapError_safe {α : Type} (x : Except String α) :
    Result.Safe (fun _ => True) (x.mapError Fault.error) := by
  cases x <;> trivial

/-- With type checks on, a stage's end is its checks, then its operator. -/
theorem finishStage_fst (world : World) (parameters : Parameters) (info : StageInfo)
    (left right : Value) (calls : List Call) :
    (finishStage true world parameters info left right calls).1 =
      (checkStageTypes info left right >>= fun _ =>
        info.operator.run world parameters left right) := by
  unfold finishStage
  cases checkStageTypes info left right <;> rfl

section Evaluation

variable (world : World) {parameters : Parameters}
  (hparameters : ∀ name, Result.Safe (fun _ => True) (parameters name))
include hparameters

/-- With type checks, the end of a stage that runs never panics. -/
theorem finishStage_safe {info : StageInfo} (hinfo : info.Runs) (left right : Value)
    (calls : List Call) :
    Result.Safe (fun _ => True) (finishStage true world parameters info left right calls).1 := by
  obtain ⟨hplanned, hpath⟩ := hinfo
  rw [finishStage_fst]
  cases hplanned with
  | operator format hs =>
    exact (checkStageTypes_safe _ format left right).bind fun _ ⟨hl, hr, hc⟩ =>
      symbolOperator_safe world.regexp hs hl hr hc
  -- the other stages have no checks
  | functional f => exact mapError_safe _
  | access path =>
    obtain ⟨first, rest, rfl⟩ := List.exists_cons_of_ne_nil (hpath path rfl)
    exact (hparameters first).bind fun _ _ => mapError_safe _
  | noop => trivial
  | parameter name => exact hparameters name
  | literal value => trivial

theorem evaluateNode_safe {info : StageInfo} (hinfo : info.Runs) {left right : Evaluation}
    (hl : Result.Safe (fun _ => True) left.1) (hr : Result.Safe (fun _ => True) right.1) :
    Result.Safe (fun _ => True) (evaluateNode true world parameters info left right).1 := by
  obtain ⟨_ | left, leftCalls⟩ := left
  · exact hl
  · dsimp only [evaluateNode]
    split
    · trivial
    · exact finishStage_safe world hparameters hinfo _ _ _
    · obtain ⟨_ | right, rightCalls⟩ := right
      · exact hr
      · exact finishStage_safe world hparameters hinfo _ _ _

theorem evaluateChild_safe : ∀ {t : Stage}, t.Every StageInfo.Runs →
    Result.Safe (fun _ => True) (evaluateChild true world parameters t).1
  | .nil, _ => trivial
  | .node _ _ _, ⟨hinfo, hl, hr⟩ =>
    evaluateNode_safe world hparameters hinfo (evaluateChild_safe hl) (evaluateChild_safe hr)

end Evaluation

/-- Evaluating with type checks a tree of planned stages whose accessor paths are not empty,
under parameters that never panic, never panics: a wrong operand type is a Go error. -/
theorem evaluateStage_safe (world : World) {parameters : Parameters}
    (hparameters : ∀ name, Result.Safe (fun _ => True) (parameters name)) {t : Stage}
    (ht : t.Every StageInfo.Runs) (hne : t ≠ .nil) :
    Result.Safe (fun _ => True) (evaluateStage true world parameters t).1 := by
  cases t with
  | nil => exact absurd rfl hne
  | node => exact evaluateChild_safe world hparameters ht

/-- `x.Name - 1`: a field of a parameter minus a literal. -/
def fieldMinusOneStages : Stage :=
  .node (binaryInfo .MINUS .modifierErrorFormat) (.node (accessInfo ["x", "Name"]) .nil .nil)
    (.node (literalInfo (.float 1)) .nil .nil)

theorem evaluateStage_safe_field_minus_one :
    (∀ name, Result.Safe (fun _ => True) (dummyParameters name)) ∧
      fieldMinusOneStages.Every StageInfo.Runs ∧ fieldMinusOneStages ≠ .nil ∧
      Result.Safe (fun _ => True)
        (evaluateStage true nullWorld dummyParameters fieldMinusOneStages).1 :=
  have hparameters : ∀ name, Result.Safe (fun _ => True) (dummyParameters name) :=
    fun _ => trivial
  have hruns : fieldMinusOneStages.Every StageInfo.Runs :=
    ⟨⟨.operator _ rfl, fun _ h => (by cases h)⟩,
      ⟨⟨.access _, fun _ h => (by cases h; exact List.cons_ne_nil _ _)⟩, trivial, trivial⟩,
      ⟨⟨.literal _, fun _ h => (by cases h)⟩, trivial, trivial⟩⟩
  ⟨hparameters, hruns, (by intro h; cases h),
    evaluateStage_safe nullWorld hparameters hruns (by intro h; cases h)⟩

/-! ## Turning the checks off -/

/-- A fault a failed type check of one of `infos`' stages gives: `checkStageTypes` of that stage
returns it on some operands. Such a fault is always a Go error naming the stage's symbol. -/
def Fault.IsTypeError (fault : Fault) (infos : List StageInfo) : Prop :=
  ∃ info ∈ infos, ∃ left right, checkStageTypes info left right = .error fault

/-- An evaluation with the checks guards one without, over the stages `infos`: the two agree,
value or fault and calls, unless the checked one fails the type check of one of `infos`. -/
def Evaluation.Guards (infos : List StageInfo) (checked unchecked : Evaluation) : Prop :=
  (∃ fault, checked.1 = .error fault ∧ fault.IsTypeError infos) ∨ checked = unchecked

theorem Evaluation.Guards.mono {infos infos' : List StageInfo} {checked unchecked : Evaluation}
    (hinfos : infos ⊆ infos') : checked.Guards infos unchecked → checked.Guards infos' unchecked
  | .inl ⟨fault, hfault, info, hinfo, htype⟩ => .inl ⟨fault, hfault, info, hinfos hinfo, htype⟩
  | .inr h => .inr h

section Unchecked

variable (world : World) (parameters : Parameters)

/-- The end of a stage with the checks guards its end without: when the checks pass, the
operator runs on the same operands. -/
theorem finishStage_guards {infos : List StageInfo} {info : StageInfo} (hinfo : info ∈ infos)
    (left right : Value) (calls : List Call) :
    (finishStage true world parameters info left right calls).Guards infos
      (finishStage false world parameters info left right calls) := by
  cases h : checkStageTypes info left right with
  | error fault =>
    refine .inl ⟨fault, ?_, info, hinfo, left, right, h⟩
    simp only [finishStage, if_true, h]
  | ok _ =>
    refine .inr ?_
    simp only [finishStage, if_true, h, Bool.false_eq_true, if_false]

/-- A step with the checks guards the step without, from operands that do. -/
theorem evaluateNode_guards {infos : List StageInfo} {info : StageInfo} (hinfo : info ∈ infos)
    {left left' right right' : Evaluation}
    (hl : left.Guards infos left') (hr : right.Guards infos right') :
    (evaluateNode true world parameters info left right).Guards infos
      (evaluateNode false world parameters info left' right') := by
  obtain ⟨fault, hfault, htype⟩ | rfl := hl
  · obtain ⟨_, leftCalls⟩ := left
    dsimp only at hfault
    subst hfault
    exact .inl ⟨fault, rfl, htype⟩
  obtain ⟨_ | left, leftCalls⟩ := left
  · exact .inr rfl
  dsimp only [evaluateNode]
  split
  · exact .inr rfl
  · exact finishStage_guards world parameters hinfo _ _ _
  · obtain ⟨fault, hfault, htype⟩ | rfl := hr
    · obtain ⟨_, rightCalls⟩ := right
      dsimp only at hfault
      subst hfault
      exact .inl ⟨fault, rfl, htype⟩
    obtain ⟨_ | right, rightCalls⟩ := right
    · exact .inr rfl
    · exact finishStage_guards world parameters hinfo _ _ _

/-- A tree with the checks guards the tree without, over its own stages. -/
theorem evaluateChild_guards : ∀ t : Stage,
    (evaluateChild true world parameters t).Guards t.inorder
      (evaluateChild false world parameters t)
  | .nil => .inr rfl
  | .node info left right =>
    evaluateNode_guards world parameters (by simp [Stage.inorder])
      ((evaluateChild_guards left).mono (by simp [Stage.inorder]))
      ((evaluateChild_guards right).mono (by simp [Stage.inorder]))

end Unchecked

/-- `ChecksTypes` only adds faults. On every expression, world and parameter map, nil
included, clearing the expression's `ChecksTypes` changes its evaluation only where the
evaluation with it fails the type check of one of the expression's own stages: a value, a panic
or any other error stays as it was, and so do the external calls. -/
theorem EvaluableExpression.TEvaluate_unchecked (e : EvaluableExpression) (world : World)
    (parameters : Option (String → Option Value)) :
    (e.TEvaluate world parameters).Guards e.evaluationStages.inorder
      ({ e with checksTypes := false }.TEvaluate world parameters) := by
  obtain ⟨_, _ | _, _, stages, _⟩ := e
  · exact .inr rfl
  · cases stages with
    | nil => exact .inr rfl
    | node info left right => exact evaluateChild_guards world _ (.node info left right)

end Geval
