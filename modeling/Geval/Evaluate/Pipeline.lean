import Geval.Lexer.Lexed
import Geval.Evaluate.Fold

/-!
# Compiling and evaluating a string

The pipeline of `part_001` from its input string: `tNewEvaluableExpressionWithFunctions`
lexes, checks and plans, and `TEvaluate` runs the plan. The lexer only makes tokens the later
stages can take (`parseTokens_lexed`), so whatever the compiler returns evaluates without a
panic (`EvaluableExpression.TEvaluate_safe`), with every parameter map and every function
table. A panic of `Eval` can then only come from compiling (`Eval_ok_of_compile_safe`), as on
the trailing escape of `parseTokens_trailing_escape`.
-/

namespace Geval

variable {tables : LexerTables} {world : World} {expression : String}
  {functions : String → Option ExpressionFunction} {e : EvaluableExpression}

/-- A compiled expression: the lexer's tokens passed the grammar checker, and the plan is
what `optimizeTokens` and `planStages` made of them, with type checks on. -/
theorem tNewEvaluableExpressionWithFunctions_eq_ok
    (he : tNewEvaluableExpressionWithFunctions tables world expression functions = .ok e) :
    ∃ tokens, parseTokens tables expression functions = .ok tokens ∧
      checkExpressionSyntax tokens = .ok () ∧
      (optimizeTokens world.regexp tokens >>= planStages world) = .ok e.evaluationStages ∧
      e.checksTypes = true := by
  obtain ⟨tokens, hlex, he⟩ := bind_eq_ok.mp he
  obtain ⟨_, -, he⟩ := bind_eq_ok.mp he
  obtain ⟨_, haccepted, he⟩ := bind_eq_ok.mp he
  obtain ⟨optimized, hopt, he⟩ := bind_eq_ok.mp he
  obtain ⟨stages, hplan, he⟩ := bind_eq_ok.mp he
  cases he
  exact ⟨tokens, hlex, haccepted, by rw [hopt, ok_bind, hplan], rfl⟩

/-- The plan of a compiled expression evaluates without a panic under parameters that never
panic. -/
theorem evaluationStages_safe
    (he : tNewEvaluableExpressionWithFunctions tables world expression functions = .ok e)
    {parameters : Parameters}
    (hparameters : ∀ name, Result.Safe (fun _ => True) (parameters name)) :
    Result.Safe (fun _ => True)
      (evaluateStage e.checksTypes world parameters e.evaluationStages).1 := by
  obtain ⟨tokens, hlex, haccepted, hplan, hchecks⟩ := tNewEvaluableExpressionWithFunctions_eq_ok he
  have hlexed := parseTokens_lexed tables hlex
  have hsafe := optimizedPlan_evaluate_safe world haccepted (fun t ht => (hlexed t ht).1)
    (fun path hpath => (hlexed _ hpath).2 path rfl) hparameters
  rw [hplan] at hsafe
  rw [hchecks]
  exact hsafe

/-- A map lookup returns the value or a Go error. -/
theorem mapParameters_safe (m : String → Option Value) (name : String) :
    Result.Safe (fun _ => True) (mapParameters m name) := by
  unfold mapParameters
  split <;> trivial

/-- The sanitizing adapter panics only where the source it wraps does. -/
theorem sanitizedParameters_safe {parameters : Parameters} {name : String}
    (h : Result.Safe (fun _ => True) (parameters name)) :
    Result.Safe (fun _ => True) (sanitizedParameters parameters name) :=
  h.map fun _ _ => trivial

/-- `tEval` runs the plan under the sanitized parameters, or the empty map for nil, and a nil
plan evaluates to nil. -/
theorem EvaluableExpression.tEval_safe
    (hstages : ∀ parameters : Parameters, (∀ name, Result.Safe (fun _ => True) (parameters name)) →
      Result.Safe (fun _ => True)
        (evaluateStage e.checksTypes world parameters e.evaluationStages).1)
    {parameters : Option Parameters}
    (hparameters : ∀ p ∈ parameters, ∀ name, Result.Safe (fun _ => True) (p name)) :
    Result.Safe (fun _ => True) (e.tEval world parameters).1 := by
  unfold tEval
  split
  · trivial
  · refine hstages _ fun name => ?_
    cases parameters with
    | none => exact mapParameters_safe (fun _ => none) name
    | some p => exact sanitizedParameters_safe (hparameters p rfl name)

/-- Whatever `tNewEvaluableExpressionWithFunctions` compiles, with any function table,
`TEvaluate` runs without a panic on every parameter map, nil included: evaluation fails with
Go errors only. -/
theorem EvaluableExpression.TEvaluate_safe
    (he : tNewEvaluableExpressionWithFunctions tables world expression functions = .ok e)
    (parameters : Option (String → Option Value)) :
    Result.Safe (fun _ => True) (e.TEvaluate world parameters).1 :=
  tEval_safe (fun _ => evaluationStages_safe he) fun _ hp name => by
    obtain ⟨m, -, rfl⟩ := Option.mem_map.mp hp
    exact mapParameters_safe m name

theorem EvaluableExpression.TEvaluate_safe_difference :
    ∃ e, tNewEvaluableExpressionWithFunctions asciiTables nullWorld "x - y" (fun _ => none) =
        .ok e ∧ Result.Safe (fun _ => True) (e.TEvaluate nullWorld none).1 := by
  obtain ⟨e, he⟩ : ∃ e, tNewEvaluableExpressionWithFunctions asciiTables nullWorld "x - y"
      (fun _ => none) = .ok e := ⟨_, rfl⟩
  exact ⟨e, he, TEvaluate_safe he none⟩

/-- What `Eval` makes of a compiled expression whose evaluation does not panic: `false` for nil
and for a Go error, the value itself otherwise. -/
theorem Eval_of_compiled_safe (he : TNewEvaluableExpression tables world expression = .ok e)
    (hsafe : Result.Safe (fun _ => True) (e.TEvaluate world none).1) :
    ∃ value, Eval tables world expression = .ok value ∧
      ((e.TEvaluate world none).1 = .ok .null ∨
          (∃ message, (e.TEvaluate world none).1 = .error (.error message)) →
        value = .bool false) ∧
      ∀ v, (e.TEvaluate world none).1 = .ok v → v ≠ .null → value = v := by
  unfold Eval
  rw [he]
  dsimp only
  cases hevaluated : (e.TEvaluate world none).1 with
  | error fault =>
    rw [hevaluated] at hsafe
    cases fault with
    | error message => exact ⟨_, rfl, fun _ => rfl, fun _ h => by cases h⟩
    | _ => cases hsafe
  | ok v =>
    by_cases hnull : v = .null
    · subst hnull
      exact ⟨_, rfl, fun _ => rfl, fun _ h hne => absurd (Except.ok.inj h).symm hne⟩
    · refine ⟨v, by cases v <;> first | exact absurd rfl hnull | rfl, ?_,
        fun _ h _ => Except.ok.inj h⟩
      rintro (h | ⟨_, h⟩) <;> cases h
      exact absurd rfl hnull

/-- `Eval` on an expression whose compilation does not panic returns a value: `false` for a
compile error, for an evaluation error and for a nil result, and the result itself otherwise.
Evaluation never panics on what compiles, so a panic of `Eval` can only come from compiling. -/
theorem Eval_ok_of_compile_safe
    (hcompile : Result.Safe (fun _ => True) (TNewEvaluableExpression tables world expression)) :
    ∃ value, Eval tables world expression = .ok value ∧
      (∀ message, TNewEvaluableExpression tables world expression = .error (.error message) →
        value = .bool false) ∧
      ∀ e, TNewEvaluableExpression tables world expression = .ok e →
        ((e.TEvaluate world none).1 = .ok .null ∨
            (∃ message, (e.TEvaluate world none).1 = .error (.error message)) →
          value = .bool false) ∧
        ∀ v, (e.TEvaluate world none).1 = .ok v → v ≠ .null → value = v := by
  cases hcompiled : TNewEvaluableExpression tables world expression with
  | error fault =>
    rw [hcompiled] at hcompile
    cases fault with
    | error message =>
      exact ⟨_, by unfold Eval; rw [hcompiled], fun _ _ => rfl, fun _ h => by cases h⟩
    | _ => cases hcompile
  | ok e =>
    obtain ⟨value, hvalue, hfalse, hresult⟩ := Eval_of_compiled_safe hcompiled
      (EvaluableExpression.tEval_safe (fun _ => evaluationStages_safe hcompiled) nofun)
    exact ⟨value, hvalue, nofun, fun _ h => by cases h; exact ⟨hfalse, hresult⟩⟩

theorem Eval_ok_of_compile_safe_difference :
    ∃ value, Eval asciiTables nullWorld "x - y" = .ok value ∧
      (∀ message, TNewEvaluableExpression asciiTables nullWorld "x - y" = .error (.error message) →
        value = .bool false) ∧
      ∀ e, TNewEvaluableExpression asciiTables nullWorld "x - y" = .ok e →
        ((e.TEvaluate nullWorld none).1 = .ok .null ∨
            (∃ message, (e.TEvaluate nullWorld none).1 = .error (.error message)) →
          value = .bool false) ∧
        ∀ v, (e.TEvaluate nullWorld none).1 = .ok v → v ≠ .null → value = v :=
  Eval_ok_of_compile_safe (by trivial)

end Geval
