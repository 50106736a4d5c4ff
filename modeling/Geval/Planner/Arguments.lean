import Geval.Core.Reorder
import Geval.Planner.Safety

/-!
# The argument list of a method call

`planAccessor` plans the argument list of a method call (an accessor followed by `(`) with
`planTokens` from the `(` on. That plans a whole expression, which does not end at the
matching `)`: the operators after it are planned as part of the argument. The levels
above the accessor then see the token the argument stopped at, which no level takes, and
pass the accessor stage up unchanged. So a method call at the head of an expression is
always the root of its plan, whatever operators follow the call.

* `makePrecedentFromPlanner_passes`: a level whose left operand fails, or stops at a token
  the level does not take, returns its left operand as it is.
* `planTokens_method_call_root`: for every accepted list that begins with a method call,
  the plan is the accessor stage over the plan of everything from the `(` on.
* `planStages_method_call_swallows_sum`: on `x.Foo(1) + 2` the sum is planned inside the
  argument of `Foo`.
-/

namespace Geval

section Passes

variable {recurse : Precedent → TokenStream → PlanResult} {tokens : List ExpressionToken}

/-- A level passes its left operand on when that fails, or when it stops at a token the level
does not take as an operator. -/
theorem makePrecedentFromPlanner_passes {p q : Precedent} {planner : PrecedencePlanner}
    {K : TokenKind} {s : TokenStream} (hnext : planner.next = some q)
    (hkinds : planner.validKinds = [K])
    (hpass : ∀ r, recurse q s = .ok r → ∃ k u, r.2 = ⟨tokens, k⟩ ∧ 0 ≤ k ∧
      tokens[k.toNat]? = some u ∧ ¬ planner.Takes u) :
    makePrecedentFromPlanner recurse p planner s = recurse q s := by
  simp only [makePrecedentFromPlanner, planPrecedenceLevel, planLeftOperand, hnext, hkinds]
  rcases hq : recurse q s with e | ⟨stage, s'⟩
  · rfl
  obtain ⟨k, u, rfl, hk0, hu, htakes⟩ := hpass _ hq
  have hk : k < tokens.length := by have := (List.getElem?_eq_some_iff.mp hu).1; omega
  simp only [ok_bind, TokenStream.hasNext_eq, hk, decide_True, if_true,
    TokenStream.next_eq hu hk0, TokenStream.rewind_mk, Int.add_sub_cancel,
    List.length_singleton, Nat.zero_lt_one, List.mem_singleton, true_and]
  by_cases hkind : u.kind = K
  · simp only [hkind, not_true_eq_false, if_false]
    split
    · rename_i lexeme hv
      cases hs : planner.validSymbols lexeme with
      | none => rfl
      | some symbol => exact absurd ⟨by simp [hkinds, hkind], lexeme, hv, by simp [hs]⟩ htakes
    · rfl
  · simp only [hkind, not_false_eq_true, if_true]
    rfl

end Passes

/-- For every accepted list that begins with a method call `path(`, the plan is the accessor
stage of `path` over the plan of the tokens from the `(` on, or a Go error: every level above
the accessor passes it up. -/
theorem planTokens_method_call_root {tokens rest : List ExpressionToken} {path : List String}
    {open_ : Value} (ptokens : PlannableTokens tokens)
    (htokens : tokens = ⟨.ACCESSOR, .strings path⟩ :: ⟨.CLAUSE, open_⟩ :: rest) :
    Result.Safe (fun r => ∃ arguments,
        plan (planFuel tokens - 13) .planTokens ⟨tokens, 1⟩ = .ok (arguments, r.2) ∧
          r.1 = .node (accessInfo path) .nil arguments)
      (plan (planFuel tokens) .planTokens (newTokenStream tokens)) := by
  obtain ⟨g, hg⟩ : ∃ g, planFuel tokens = g + 13 := ⟨planFuel tokens - 13, by
    simp only [planFuel]; omega⟩
  have hlen : 2 ≤ tokens.length := by simp [htokens]
  have h0 : tokens[(0 : Int).toNat]? = some ⟨.ACCESSOR, .strings path⟩ := by simp [htokens]
  have h1 : tokens[(1 : Int).toNat]? = some ⟨.CLAUSE, open_⟩ := by simp [htokens]
  -- the arguments: a whole expression from the `(` on
  have hargs := plan_safe ptokens g .planTokens 1 (by decide) (by omega)
    (by simp only [planMeasure, Precedent.rank, hg, planFuel] at hg ⊢; omega)
  have hA : plan (g + 1) .planAccessor ⟨tokens, 0⟩ =
      (plan g .planTokens ⟨tokens, 1⟩).bind fun r => .ok (.node (accessInfo path) .nil r.1, r.2) := by
    simp only [plan, planStep, planAccessor, planAccessorArguments, TokenStream.hasNext_eq,
      show (0 : Int) < tokens.length by omega, show (1 : Int) < tokens.length by omega,
      decide_True, if_true, TokenStream.next_eq h0 (Int.le_refl 0), Int.zero_add,
      TokenStream.next_eq h1 (by decide), ok_bind, TokenStream.rewind_mk, Int.add_sub_cancel,
      ne_eq, not_true_eq_false, if_false]
    rcases plan g .planTokens ⟨tokens, 1⟩ with e | ⟨arguments, s⟩ <;> rfl
  have hF : plan (g + 2) .planFunction ⟨tokens, 0⟩ = plan (g + 1) .planAccessor ⟨tokens, 0⟩ := by
    simp only [plan, planStep, planFunction, TokenStream.next_eq h0 (Int.le_refl 0), ok_bind]
    rfl
  -- the arguments stop at a token no level takes, and so does the accessor stage
  have hpass : ∀ planner ∈ levelPlanners, ∀ r, plan (g + 2) .planFunction ⟨tokens, 0⟩ = .ok r →
      ∃ k u, r.2 = ⟨tokens, k⟩ ∧ 0 ≤ k ∧ tokens[k.toNat]? = some u ∧ ¬ planner.Takes u := by
    intro planner hplanner r hr
    rw [hF, hA] at hr
    rcases hinner : plan g .planTokens ⟨tokens, 1⟩ with e | ⟨arguments, s⟩
    · rw [hinner] at hr; cases hr
    rw [hinner] at hargs hr
    obtain ⟨k, rfl, hk1, hk, -, hstop⟩ := hargs
    cases hr
    have hk' : k < tokens.length := by simp only [Precedent.exitIndex] at hk; omega
    obtain ⟨u, hu, -⟩ := exists_getElem?_toNat (by omega) hk'
    exact ⟨k, u, rfl, by omega, hu, hstop u hu planner hplanner⟩
  have hE : plan (g + 3) .planExponential ⟨tokens, 0⟩ = plan (g + 2) .planFunction ⟨tokens, 0⟩ :=
    makePrecedentFromPlanner_passes rfl rfl (hpass _ (by simp [levelPlanners]))
  have hM : plan (g + 4) .planMultiplicative ⟨tokens, 0⟩ = plan (g + 2) .planFunction ⟨tokens, 0⟩ :=
    (makePrecedentFromPlanner_passes rfl rfl (hE ▸ hpass _ (by simp [levelPlanners]))).trans hE
  have hAdd : plan (g + 5) .planAdditive ⟨tokens, 0⟩ = plan (g + 2) .planFunction ⟨tokens, 0⟩ :=
    (makePrecedentFromPlanner_passes rfl rfl (hM ▸ hpass _ (by simp [levelPlanners]))).trans hM
  have hSh : plan (g + 6) .planShift ⟨tokens, 0⟩ = plan (g + 2) .planFunction ⟨tokens, 0⟩ :=
    (makePrecedentFromPlanner_passes rfl rfl (hAdd ▸ hpass _ (by simp [levelPlanners]))).trans hAdd
  have hB : plan (g + 7) .planBitwise ⟨tokens, 0⟩ = plan (g + 2) .planFunction ⟨tokens, 0⟩ :=
    (makePrecedentFromPlanner_passes rfl rfl (hSh ▸ hpass _ (by simp [levelPlanners]))).trans hSh
  have hC : plan (g + 8) .planComparator ⟨tokens, 0⟩ = plan (g + 2) .planFunction ⟨tokens, 0⟩ :=
    (makePrecedentFromPlanner_passes rfl rfl (hB ▸ hpass _ (by simp [levelPlanners]))).trans hB
  have hAnd : plan (g + 9) .planLogicalAnd ⟨tokens, 0⟩ = plan (g + 2) .planFunction ⟨tokens, 0⟩ :=
    (makePrecedentFromPlanner_passes rfl rfl (hC ▸ hpass _ (by simp [levelPlanners]))).trans hC
  have hOr : plan (g + 10) .planLogicalOr ⟨tokens, 0⟩ = plan (g + 2) .planFunction ⟨tokens, 0⟩ :=
    (makePrecedentFromPlanner_passes rfl rfl (hAnd ▸ hpass _ (by simp [levelPlanners]))).trans hAnd
  have hT : plan (g + 11) .planTernary ⟨tokens, 0⟩ = plan (g + 2) .planFunction ⟨tokens, 0⟩ :=
    (makePrecedentFromPlanner_passes rfl rfl (hOr ▸ hpass _ (by simp [levelPlanners]))).trans hOr
  have hS : plan (g + 12) .planSeparator ⟨tokens, 0⟩ = plan (g + 2) .planFunction ⟨tokens, 0⟩ :=
    (makePrecedentFromPlanner_passes rfl rfl (hT ▸ hpass _ (by simp [levelPlanners]))).trans hT
  have hTop : plan (g + 13) .planTokens ⟨tokens, 0⟩ = plan (g + 12) .planSeparator ⟨tokens, 0⟩ := by
    show planTokens (plan (g + 12)) ⟨tokens, 0⟩ = _
    simp only [planTokens, TokenStream.hasNext_eq, show (0 : Int) < tokens.length by omega,
      decide_True, Bool.not_true, Bool.false_eq_true, if_false]
  rw [newTokenStream, hg, hTop, hS, hF, hA, Nat.add_sub_cancel]
  rcases hinner : plan g .planTokens ⟨tokens, 1⟩ with e | ⟨arguments, s⟩
  · rw [hinner] at hargs
    cases e <;> exact hargs
  · exact ⟨arguments, rfl, rfl⟩

/-- The tokens of `x.Foo(1) + 2`. -/
def methodCallSumTokens : List ExpressionToken :=
  [⟨.ACCESSOR, .strings ["x", "Foo"]⟩, ⟨.CLAUSE, .rune '('⟩, ⟨.NUMERIC, .float 1⟩,
    ⟨.CLAUSE_CLOSE, .rune ')'⟩, ⟨.MODIFIER, .string "+"⟩, ⟨.NUMERIC, .float 2⟩]

/-- `x.Foo(1) + 2` is plannable, and its plan is the accessor stage of `x.Foo`. -/
theorem planTokens_method_call_sum_root :
    Result.Safe (fun r => ∃ arguments,
        plan (planFuel methodCallSumTokens - 13) .planTokens ⟨methodCallSumTokens, 1⟩ =
            .ok (arguments, r.2) ∧
          r.1 = .node (accessInfo ["x", "Foo"]) .nil arguments)
      (plan (planFuel methodCallSumTokens) .planTokens (newTokenStream methodCallSumTokens)) :=
  @planTokens_method_call_root methodCallSumTokens (methodCallSumTokens.drop 2) ["x", "Foo"]
    (.rune '(') (PlannableTokens.of_accepted rfl (by decide)) rfl

/-- `x.Foo(1) + 2`, accepted, is planned and reordered as `x.Foo((1) + 2)`: the sum is the
argument of `Foo`, where the grammar makes it the root over the call `x.Foo(1)`. -/
theorem planStages_method_call_swallows_sum :
    checkBalance methodCallSumTokens = .ok () ∧
      checkExpressionSyntax methodCallSumTokens = .ok () ∧
      ((plan (planFuel methodCallSumTokens) .planTokens (newTokenStream methodCallSumTokens)).bind
        fun r => reorderStages r.1) =
        .ok (.node (accessInfo ["x", "Foo"]) .nil
          (.node (binaryInfo .PLUS .modifierErrorFormat)
            (.node noopInfo .nil (.node (literalInfo (.float 1)) .nil .nil))
            (.node (literalInfo (.float 2)) .nil .nil))) :=
  ⟨rfl, rfl, rfl⟩

end Geval
