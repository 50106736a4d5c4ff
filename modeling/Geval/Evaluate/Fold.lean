import Geval.Evaluate.Checks
import Geval.Syntax.Optimize

/-!
# Constant folding

`elideLiterals` evaluates at compile time every stage whose two children are literals: both
type checks, the combined check and the operator, with nil parameters. On the trees
`reorderStages` makes of a plan (`Stage.Reordered`) only the stage of an operator symbol has
two literal children, and such an operator reads nothing but its two operands. A check or an
operator that fails with a Go error abandons the fold and keeps the stage. Evaluation may
skip the right operand by short-circuit, but whenever the fold succeeds the skipped path
yields the value the operator computes (`evaluateNode_literals`). So a folded tree evaluates
as the tree it was made of, value, error and calls alike (`FoldsTo`).

* `elideChild_safe`: folding a reordered tree never panics, and makes a tree it `FoldsTo`.
* `elideLiterals_transparent`: for every token list, environment and setting of type checks,
  evaluating the folded plan is evaluating the plan before folding.
* `planStages_safe`: optimizing and planning an accepted list of well-typed tokens never
  panics and gives a non-nil tree, or a Go error.
* `planStages_unknown_prefix_nil`: a prefix token whose text is no prefix operator is planned
  as nil, which `reorderStages` dereferences.
* `planStages_evaluate_safe`: with type checks on, compiling an accepted list of well-typed
  tokens whose accessor paths are not empty and evaluating the tree fail with Go errors only.
-/

namespace Geval

/-! ## Evaluating an operator over two literals -/

/-- `:` and `??` share `ternaryElseStage`: the left value unless it is nil. -/
theorem symbolOperator_ternaryElse (regexp : RegexpLibrary) {symbol : OperatorSymbol}
    (h : symbol = .TERNARY_FALSE ∨ symbol = .COALESCE) (l r : Value) :
    symbolOperator regexp symbol l r = .ok (if l.isNull then r else l) := by
  rcases h with rfl | rfl <;> rfl

theorem shortCircuit_returns {symbol : OperatorSymbol} {left value : Value}
    (h : shortCircuit symbol left = .returns value) :
    (symbol = .AND ∧ left = .bool false ∧ value = .bool false) ∨
      (symbol = .OR ∧ left = .bool true ∧ value = .bool true) ∨
      (symbol = .COALESCE ∧ left ≠ .null ∧ value = left) := by
  unfold shortCircuit at h
  split at h
  · cases h
  · split at h <;> (try split at h) <;> cases h <;> simp_all

theorem shortCircuit_skipRight {symbol : OperatorSymbol} {left : Value}
    (h : shortCircuit symbol left = .skipRight) :
    (symbol = .TERNARY_TRUE ∧ left = .bool false) ∨ (symbol = .TERNARY_FALSE ∧ left ≠ .null) := by
  unfold shortCircuit at h
  split at h
  · cases h
  · split at h <;> (try split at h) <;> cases h <;> simp_all

section Evaluation

variable (checksTypes : Bool) (world : World) (parameters : Parameters)

theorem evaluateChild_literal (value : Value) :
    evaluateChild checksTypes world parameters (.node (literalInfo value) .nil .nil) =
      (.ok value, []) := by
  cases checksTypes <;> rfl

/-- The stage of an operator symbol over two literals that pass its checks evaluates to the
value its operator computes from them, with no call, whichever way the short-circuit switch
goes: the value the fold computes. -/
theorem evaluateNode_literals {symbol : OperatorSymbol} {format : TypeErrorFormat}
    {lv rv result : Value} (hl : (findTypeChecks symbol).left.all (·.run lv))
    (hr : (findTypeChecks symbol).right.all (·.run rv))
    (hc : (findTypeChecks symbol).combined.all (·.run lv rv))
    (hop : symbolOperator world.regexp symbol lv rv = .ok result) :
    evaluateNode checksTypes world parameters (binaryInfo symbol format) (.ok lv, []) (.ok rv, []) =
      (.ok result, []) := by
  have hchecks : ∀ right, (findTypeChecks symbol).right.all (·.run right) →
      (findTypeChecks symbol).combined.all (·.run lv right) →
      (if checksTypes then checkStageTypes (binaryInfo symbol format) lv right else .ok ()) =
        .ok () := fun right hr hc => by
    cases checksTypes
    · rfl
    · exact checkStageTypes_binary hl hr hc
  simp only [evaluateNode, binaryInfo_symbol]
  split
  · -- the left operand decides: `AND` on false, `OR` on true, `COALESCE` on a value
    rename_i value hsc
    rcases shortCircuit_returns hsc with ⟨rfl, rfl, rfl⟩ | ⟨rfl, rfl, rfl⟩ | ⟨rfl, hnull, rfl⟩
    · obtain ⟨b, rfl⟩ := TypeCheck.run_isBool hr
      cases hop; rfl
    · obtain ⟨b, rfl⟩ := TypeCheck.run_isBool hr
      cases hop; rfl
    · rw [symbolOperator_ternaryElse _ (.inr rfl), if_neg (by simpa using hnull)] at hop
      cases hop; rfl
  · -- the right operand is skipped: `?` on false, `:` on a value
    rename_i hsc
    rcases shortCircuit_skipRight hsc with ⟨rfl, rfl⟩ | ⟨rfl, hnull⟩
    · cases hop
      cases checksTypes <;> rfl
    · have hvalue : ∀ r, symbolOperator world.regexp .TERNARY_FALSE lv r = .ok lv := fun r => by
        rw [symbolOperator_ternaryElse _ (.inl rfl), if_neg (by simpa using hnull)]
      rw [hvalue] at hop
      cases hop
      simp only [finishStage, hchecks _ rfl rfl]
      exact Prod.ext (hvalue _) rfl
  · -- both operands are evaluated
    simp only [finishStage, hchecks rv hr hc]
    exact Prod.ext hop rfl

end Evaluation

/-! ## The fold of a tree -/

/-- A step of `elideStage`: a value, a Go error that keeps `root`, or a panic, which never
comes. -/
theorem Result.Safe.keepOnError {α : Type} {P : Stage → Prop} {Q : α → Prop} {root : Stage}
    {x : Result α} {k : α → Result Stage} (hx : Result.Safe Q x) (hroot : P root)
    (hk : ∀ a, x = .ok a → Q a → Result.Safe P (k a)) : Result.Safe P (keepOnError root x k) := by
  match x, hx with
  | .ok a, hx => exact hk a rfl hx
  | .error (.error _), _ => exact hroot

section Fold

variable (world : World)

/-- A child as `elideLiterals` folds it: a nil child stays nil. -/
def elideChild (stage : Stage) : Result Stage :=
  match stage with
  | .nil => .ok .nil
  | .node .. => elideLiterals world stage

theorem elideLiterals_node (info : StageInfo) (left right : Stage) :
    elideLiterals world (.node info left right) =
      elideChild world left >>= fun left => elideChild world right >>= fun right =>
        elideStage world (.node info left right) := by
  cases left <;> cases right <;> rfl

theorem elideChild_of_ne_nil {stage : Stage} (h : stage ≠ .nil) :
    elideChild world stage = elideLiterals world stage := by
  cases stage with
  | nil => exact absurd rfl h
  | node => rfl

/-- `elideStage` keeps a stage whose children are not both literals. -/
theorem elideStage_of_not_literals {info : StageInfo} {left right : Stage}
    (h : (left.isLiteral && right.isLiteral) = false) :
    elideStage world (.node info left right) = .ok (.node info left right) := by
  cases left <;> cases right <;> try rfl
  simp only [Stage.isLiteral] at h
  simp only [elideStage, Bool.and_comm, h]
  rfl

/-- What the fold keeps of a reordered tree `t` in the tree `t'` it makes: `t'` is reordered,
is nil exactly when `t` is, has the root of `t` when that is structural, and evaluates as `t`
does in every environment, value, error and calls alike. -/
def FoldsTo (t t' : Stage) : Prop :=
  t'.Reordered ∧ (t' = .nil ↔ t = .nil) ∧
    (t.precedence?.all OperatorPrecedence.isStructural → t'.precedence? = t.precedence?) ∧
    ∀ checksTypes parameters, evaluateChild checksTypes world parameters t' =
      evaluateChild checksTypes world parameters t

variable {world}

/-- A stage kept over its folded children. -/
theorem FoldsTo.keep {info : StageInfo} {left right left' right' : Stage}
    (ht : (Stage.node info left right).Reordered) (hl : FoldsTo world left left')
    (hr : FoldsTo world right right') :
    FoldsTo world (.node info left right) (.node info left' right') := by
  obtain ⟨hinfo, hstruct, hval, -, -⟩ := ht
  refine ⟨⟨hinfo, fun hs q hq => ?_, fun hv => ?_, hl.1, hr.1⟩, ⟨nofun, nofun⟩, fun _ => rfl,
    fun checksTypes parameters => ?_⟩
  · -- a structural stage keeps the root of its left child, which is structural too
    have hroot : left.precedence?.all OperatorPrecedence.isStructural := by
      cases hp : left.precedence? with
      | none => rfl
      | some q' => rw [hstruct hs q' hp]; exact hs
    exact hstruct hs q (hl.2.2.1 hroot ▸ hq)
  · obtain ⟨rfl, rfl⟩ := hval hv
    exact ⟨hl.2.1.mpr rfl, hr.2.1.mpr rfl⟩
  · simp only [evaluateChild_node, evaluateStage_node, hl.2.2.2, hr.2.2.2]

/-- An operator stage folded into the literal of the value its operator computes. -/
theorem FoldsTo.fold {symbol : OperatorSymbol} {format : TypeErrorFormat} {left right : Stage}
    {lv rv result : Value} (hs : (findOperatorPrecedenceForSymbol symbol).isStructural = false)
    (hl : FoldsTo world left (.node (literalInfo lv) .nil .nil))
    (hr : FoldsTo world right (.node (literalInfo rv) .nil .nil))
    (hcl : (findTypeChecks symbol).left.all (·.run lv))
    (hcr : (findTypeChecks symbol).right.all (·.run rv))
    (hcc : (findTypeChecks symbol).combined.all (·.run lv rv))
    (hop : symbolOperator world.regexp symbol lv rv = .ok result) :
    FoldsTo world (.node (binaryInfo symbol format) left right)
      (.node (literalInfo result) .nil .nil) := by
  refine ⟨.literal result, ⟨nofun, nofun⟩, fun h => absurd (hs.symm.trans h) Bool.false_ne_true,
    fun checksTypes parameters => ?_⟩
  rw [evaluateChild_literal, evaluateChild_node, evaluateStage_node, ← hl.2.2.2, ← hr.2.2.2,
    evaluateChild_literal, evaluateChild_literal,
    evaluateNode_literals checksTypes world parameters hcl hcr hcc hop]

/-- After folding, a structural stage has no literal left child: the left child keeps its
root, a structural stage of the same precedence, which is not that of literals. -/
theorem FoldsTo.not_structural_of_literal {info : StageInfo} {left right left' : Stage}
    (ht : (Stage.node info left right).Reordered) (hl : FoldsTo world left left')
    (hlit : left'.isLiteral) :
    (findOperatorPrecedenceForSymbol info.symbol).isStructural = false := by
  cases hsi : (findOperatorPrecedenceForSymbol info.symbol).isStructural
  · rfl
  obtain ⟨-, hstruct, hval, -, -⟩ := ht
  cases left with
  | nil => rw [hl.2.1.mpr rfl] at hlit; cases hlit
  | node leftInfo _ _ =>
    obtain ⟨lv, rfl⟩ := hl.1.eq_literal hlit
    have hq := hstruct hsi _ rfl
    have hroot := hl.2.2.1 (by simp only [Stage.precedence?_node, hq]; exact hsi)
    simp only [Stage.precedence?_node, Option.some_inj] at hroot
    exact absurd (hval (hq ▸ hroot.symm)).1 nofun

/-- One step of the fold: `elideStage` over the folded children of a reordered stage never
panics, and keeps the stage or folds it: two literal children make it an operator's stage. -/
theorem elideStage_safe {info : StageInfo} {left right left' right' : Stage}
    (ht : (Stage.node info left right).Reordered) (hl : FoldsTo world left left')
    (hr : FoldsTo world right right') :
    Result.Safe (FoldsTo world (.node info left right))
      (elideStage world (.node info left' right')) := by
  have hkeep := FoldsTo.keep ht hl hr
  cases hlit : left'.isLiteral && right'.isLiteral
  · rw [elideStage_of_not_literals world hlit]; exact hkeep
  obtain ⟨hlit, hrit⟩ := Bool.and_eq_true_iff.mp hlit
  obtain ⟨symbol, format, rfl, hs⟩ :=
    ht.1.binary_of_not_structural (FoldsTo.not_structural_of_literal ht hl hlit)
  obtain ⟨lv, rfl⟩ := hl.1.eq_literal hlit
  obtain ⟨rv, rfl⟩ := hr.1.eq_literal hrit
  simp only [elideStage, literalInfo, beq_self_eq_true, Bool.and_self, Bool.not_true,
    Bool.false_eq_true, if_false, binaryInfo_symbol, StageOperator.run, keepOnError]
  split
  · exact hkeep
  refine Result.Safe.keepOnError (typeCheck_safe _ _ _ _) hkeep fun _ _ hcl => ?_
  refine Result.Safe.keepOnError (typeCheck_safe _ _ _ _) hkeep fun _ _ hcr => ?_
  split
  · exact hkeep
  rename_i hany
  have hcc : (findTypeChecks symbol).combined.all (·.run lv rv) := by
    simp only [binaryInfo] at hany
    revert hany
    cases (findTypeChecks symbol).combined <;> simp
  exact Result.Safe.keepOnError (symbolOperator_safe world.regexp hs hcl hcr hcc) hkeep
    fun _ hop _ => FoldsTo.fold hs hl hr hcl hcr hcc hop

variable (world)

/-- Folding a reordered tree never panics, and makes a tree it `FoldsTo`. -/
theorem elideChild_safe : ∀ {t : Stage}, t.Reordered →
    Result.Safe (FoldsTo world t) (elideChild world t)
  | .nil, _ => ⟨trivial, Iff.rfl, fun _ => rfl, fun _ _ => rfl⟩
  | .node info left right, ht => by
    show Result.Safe _ (elideLiterals world (.node info left right))
    rw [elideLiterals_node]
    exact (elideChild_safe ht.2.2.2.1).bind fun left' hl =>
      (elideChild_safe ht.2.2.2.2).bind fun right' hr => elideStage_safe ht hl hr

end Fold

/-! ## Folding a plan -/

/-- Folding is transparent: for every token list, the tree `reorderStages` makes of its plan
evaluates, in every environment and with type checks on or off, exactly as the tree
`elideLiterals` folds it into, value, error and calls alike. -/
theorem elideLiterals_transparent (world : World) {tokens : List ExpressionToken}
    {planned tree elided : Stage} {cursor : TokenStream}
    (hplan : plan (planFuel tokens) .planTokens (newTokenStream tokens) = .ok (planned, cursor))
    (hreorder : reorderStages planned = .ok tree) (helide : elideLiterals world tree = .ok elided)
    (checksTypes : Bool) (parameters : Parameters) :
    evaluateStage checksTypes world parameters elided =
      evaluateStage checksTypes world parameters tree := by
  have ht : tree.Reordered := by
    obtain ⟨-, rfl⟩ := reorderStages_eq hreorder
    exact reorderSubtree_reordered (plan_planned _ _ _ _ hplan)
  cases tree with
  | nil => cases helide
  | node info left right =>
    have hfold := elideChild_safe world ht
    rw [show elideChild world (.node info left right) = .ok elided from helide] at hfold
    cases elided with
    | nil => exact absurd (hfold.2.1.mp rfl) nofun
    | node => exact hfold.2.2.2 checksTypes parameters

/-- The tokens of `x ?? 1 + 2`. -/
def coalesceSumTokens : List ExpressionToken :=
  [⟨.VARIABLE, .string "x"⟩, ⟨.TERNARY, .string "??"⟩, ⟨.NUMERIC, .float 1⟩,
    ⟨.MODIFIER, .string "+"⟩, ⟨.NUMERIC, .float 2⟩]

/-- The plan of `x ?? 1 + 2`, which `reorderStages` keeps. -/
def coalesceSumStages : Stage :=
  .node (binaryInfo .COALESCE .ternaryErrorFormat) (.node (parameterInfo "x") .nil .nil)
    (.node (binaryInfo .PLUS .modifierErrorFormat) (.node (literalInfo (.float 1)) .nil .nil)
      (.node (literalInfo (.float 2)) .nil .nil))

/-- The plan of `x ?? 1 + 2` with its sum folded. -/
def coalesceSumFolded : Stage :=
  .node (binaryInfo .COALESCE .ternaryErrorFormat) (.node (parameterInfo "x") .nil .nil)
    (.node (literalInfo (.float (1 + 2))) .nil .nil)

/-- `x ?? 1 + 2`: the sum under `??` is folded, and the folded tree evaluates as the
unfolded one. -/
theorem elideLiterals_transparent_coalesce_sum :
    plan (planFuel coalesceSumTokens) .planTokens (newTokenStream coalesceSumTokens) =
        .ok (coalesceSumStages, ⟨coalesceSumTokens, 4⟩) ∧
      reorderStages coalesceSumStages = .ok coalesceSumStages ∧
      elideLiterals nullWorld coalesceSumStages = .ok coalesceSumFolded ∧
      evaluateStage true nullWorld dummyParameters coalesceSumFolded =
        evaluateStage true nullWorld dummyParameters coalesceSumStages :=
  ⟨rfl, rfl, rfl, @elideLiterals_transparent nullWorld coalesceSumTokens _ _ _ _ rfl rfl rfl true
    dummyParameters⟩

/-- On every list of well-typed tokens the grammar checker accepts, optimizing and planning
never panic and never run out of fuel: every read of the token stream is in range, and
`reorderStages` and `elideLiterals` only get non-nil trees. The result is a non-nil tree, or a
Go error. -/
theorem planStages_safe (world : World) {tokens : List ExpressionToken}
    (haccepted : checkExpressionSyntax tokens = .ok ()) (htyped : ∀ t ∈ tokens, t.wellTyped) :
    Result.Safe (fun stage => stage ≠ .nil)
      (optimizeTokens world.regexp tokens >>= planStages world) := by
  have ptokens := PlannableTokens.of_accepted haccepted htyped
  obtain ⟨t, rest, rfl, hstart⟩ := head_startsExpression haccepted
  refine (optimizeTokens_safe world.regexp ptokens).bind fun tokens hopt => ?_
  obtain ⟨rest', rfl⟩ := hopt.head
  refine ((planTokens_safe (hopt.plannable ptokens) ⟨t, rest', rfl, hstart⟩).and_of_ok
    fun r hr => plan_planned _ _ _ _ hr).bind ?_
  rintro ⟨planned, cursor⟩ ⟨⟨hne, -⟩, hplanned⟩
  cases planned with
  | nil => exact absurd rfl hne
  | node info left right =>
    have htree := reorderSubtree_ne_nil hne
    show Result.Safe _ (reorderStages (.node info left right) >>= elideLiterals world)
    rw [reorderStages_node, ok_bind, ← elideChild_of_ne_nil world htree]
    exact (elideChild_safe world (reorderSubtree_reordered hplanned)).mono
      fun _ hfold h => htree (hfold.2.1.mp h)

/-- `x ?? 1 + 2` is accepted and well typed, and compiles to a non-nil tree. -/
theorem planStages_safe_coalesce_sum :
    checkExpressionSyntax coalesceSumTokens = .ok () ∧
      (∀ t ∈ coalesceSumTokens, t.wellTyped) ∧
      Result.Safe (fun stage => stage ≠ .nil)
        (optimizeTokens nullWorld.regexp coalesceSumTokens >>= planStages nullWorld) :=
  ⟨rfl, by decide, planStages_safe nullWorld rfl (by decide)⟩

/-- A prefix token whose text is no prefix operator, then a number. -/
def unknownPrefixTokens : List ExpressionToken := [⟨.PREFIX, .string "x"⟩, ⟨.NUMERIC, .float 1⟩]

/-- A prefix token carries a string, as the lexer types prefix tokens; but on one whose text
is no prefix operator every level rewinds, the plan is nil, and `planStages` dereferences
it in `reorderStages`. The list is accepted, and only `wellTyped` rules it out. -/
theorem planStages_unknown_prefix_nil :
    checkBalance unknownPrefixTokens = .ok () ∧
      checkExpressionSyntax unknownPrefixTokens = .ok () ∧
      unknownPrefixTokens.all ExpressionToken.wellTyped = false ∧
      optimizeTokens nullWorld.regexp unknownPrefixTokens = .ok unknownPrefixTokens ∧
      plan (planFuel unknownPrefixTokens) .planTokens (newTokenStream unknownPrefixTokens) =
        .ok (.nil, ⟨unknownPrefixTokens, 0⟩) ∧
      planStages nullWorld unknownPrefixTokens = .error .nilDereference :=
  ⟨rfl, rfl, rfl, rfl, rfl, rfl⟩

/-! ## Compiling and evaluating -/

/-- With type checks on, an accepted list of well-typed tokens whose accessor paths are not
empty compiles to a tree whose evaluation never panics, under parameters that never panic. -/
theorem optimizedPlan_evaluate_safe (world : World) {tokens : List ExpressionToken}
    (haccepted : checkExpressionSyntax tokens = .ok ()) (htyped : ∀ t ∈ tokens, t.wellTyped)
    (hpaths : ∀ path, (⟨.ACCESSOR, .strings path⟩ : ExpressionToken) ∈ tokens → path ≠ [])
    {parameters : Parameters}
    (hparameters : ∀ name, Result.Safe (fun _ => True) (parameters name)) :
    Result.Safe (fun stage => Result.Safe (fun _ => True)
        (evaluateStage true world parameters stage).1)
      (optimizeTokens world.regexp tokens >>= planStages world) := by
  have ptokens := PlannableTokens.of_accepted haccepted htyped
  obtain ⟨t, rest, rfl, hstart⟩ := head_startsExpression haccepted
  refine (optimizeTokens_safe world.regexp ptokens).bind fun optimized hopt => ?_
  obtain ⟨rest', rfl⟩ := hopt.head
  refine ((planTokens_safe (hopt.plannable ptokens) ⟨t, rest', rfl, hstart⟩).and_of_ok
    fun r hr => (plan_planOut _ _ _ _ hr).1).bind ?_
  rintro ⟨planned, cursor⟩ ⟨⟨hne, -⟩, hplanned, haccessors⟩
  -- the reordered tree has the stages of the plan: planned, and walking the paths of accessor
  -- tokens, which the optimizer leaves as they are
  have hruns : (reorderSubtree planned).Every StageInfo.Runs := by
    have hin : (reorderSubtree planned).Every (StageInfo.NamesIn _) :=
      Stage.every_iff_inorder.mpr fun info h =>
        Stage.every_iff_inorder.mp haccessors info (reorderSubtree_inorder planned ▸ h)
    refine ((reorderSubtree_reordered hplanned).every_planned.and hin).mono ?_
    rintro info ⟨hinfo, hpath⟩
    exact ⟨hinfo, fun path h => hpaths path ((hopt.mem (hpath.1 path h)).resolve_right nofun)⟩
  have htree := reorderSubtree_ne_nil hne
  cases planned with
  | nil => exact absurd rfl hne
  | node info left right =>
    show Result.Safe _ (reorderStages (.node info left right) >>= elideLiterals world)
    rw [reorderStages_node, ok_bind, ← elideChild_of_ne_nil world htree]
    refine (elideChild_safe world (reorderSubtree_reordered hplanned)).mono fun elided hfold => ?_
    -- the folded tree evaluates as the reordered one
    cases elided with
    | nil => exact absurd (hfold.2.1.mp rfl) htree
    | node =>
      show Result.Safe _ (evaluateChild true world parameters (.node ..)).1
      rw [hfold.2.2.2 true parameters]
      exact evaluateChild_safe world hparameters hruns

/-- With type checks on, an accepted list of well-typed tokens whose accessor paths are not
empty compiles to a tree whose evaluation never panics, under parameters that never panic:
compiling and evaluating fail with Go errors only. -/
theorem planStages_evaluate_safe (world : World) {tokens : List ExpressionToken}
    (haccepted : checkExpressionSyntax tokens = .ok ()) (htyped : ∀ t ∈ tokens, t.wellTyped)
    (hpaths : ∀ path, (⟨.ACCESSOR, .strings path⟩ : ExpressionToken) ∈ tokens → path ≠ [])
    {parameters : Parameters}
    (hparameters : ∀ name, Result.Safe (fun _ => True) (parameters name)) :
    Result.Safe (fun stage => Result.Safe (fun _ => True)
        (evaluateStage true world parameters stage).1)
      (optimizeTokens world.regexp tokens >>= planStages world) :=
  optimizedPlan_evaluate_safe world haccepted htyped hpaths hparameters

/-- The tokens of `x.Name - 1`. -/
def fieldMinusOneTokens : List ExpressionToken :=
  [⟨.ACCESSOR, .strings ["x", "Name"]⟩, ⟨.MODIFIER, .string "-"⟩, ⟨.NUMERIC, .float 1⟩]

theorem planStages_evaluate_safe_field_minus_one :
    checkExpressionSyntax fieldMinusOneTokens = .ok () ∧
      (∀ t ∈ fieldMinusOneTokens, t.wellTyped) ∧
      (∀ path, (⟨.ACCESSOR, .strings path⟩ : ExpressionToken) ∈ fieldMinusOneTokens →
        path ≠ []) ∧
      (∀ name, Result.Safe (fun _ => True) (dummyParameters name)) ∧
      Result.Safe (fun stage => Result.Safe (fun _ => True)
          (evaluateStage true nullWorld dummyParameters stage).1)
        (optimizeTokens nullWorld.regexp fieldMinusOneTokens >>= planStages nullWorld) :=
  have haccepted : checkExpressionSyntax fieldMinusOneTokens = .ok () := rfl
  have hpaths : ∀ path, (⟨.ACCESSOR, .strings path⟩ : ExpressionToken) ∈ fieldMinusOneTokens →
      path ≠ [] := by
    simp [fieldMinusOneTokens]
  have hparameters : ∀ name, Result.Safe (fun _ => True) (dummyParameters name) :=
    fun _ => trivial
  ⟨haccepted, by decide, hpaths, hparameters,
    planStages_evaluate_safe nullWorld haccepted (by decide) hpaths hparameters⟩

end Geval
