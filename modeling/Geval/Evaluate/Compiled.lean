import Geval.Planner.Unary
import Geval.Evaluate.Fold

/-!
# The shape of a compiled tree

The stages of a compiled tree, after `reorderStages` and `elideLiterals`: literal and
parameter stages are leaves, and prefix, call and accessor stages have no left child. A
parenthesis stage may have one. `reorderStages` mirrors every run of stages of one
precedence on a right spine, parentheses included, so directly nested parentheses `((x))`
come out as a parenthesis stage whose left child is the inner, now empty, parenthesis.

* `Stage.UnaryLeftNil` holds of the reordered plan of every list the grammar checker accepts:
  its plan has no unary run (`plan_unary`), so the runs `reorderStages` mirrors are never
  prefix, call or accessor runs (`reorderSubtree_unaryLeftNil`); the fold keeps stages or
  makes literal leaves (`elideChild_unaryLeftNil`).
* `tNewEvaluableExpression_compiled`: every expression the constructor accepts has a tree of
  the compiled shape (`Stage.Compiled`); `compile_nested_parentheses` is one whose tree does
  not have the documented one (`Stage.Documented`).
-/

namespace Geval

/-- No prefix, call or accessor stage has a left child. -/
def Stage.UnaryLeftNil : Stage → Prop
  | .nil => True
  | .node info left right =>
    ((findOperatorPrecedenceForSymbol info.symbol).isUnary → left = .nil) ∧
      left.UnaryLeftNil ∧ right.UnaryLeftNil

/-! ## Through `reorderStages` -/

/-- An entry of a run of precedence `p`: a stage of that precedence, and its left child,
reordered, with no left child under a unary stage, and nil in a unary run. -/
def UnaryEntry (p : OperatorPrecedence) (e : StageInfo × Stage) : Prop :=
  findOperatorPrecedenceForSymbol e.1.symbol = p ∧ e.2.UnaryLeftNil ∧ (p.isUnary → e.2 = .nil)

section Runs

variable {p : OperatorPrecedence}

theorem rightNested_unaryLeftNil : ∀ {run : List (StageInfo × Stage)} {tail : Stage},
    (∀ e ∈ run, UnaryEntry p e) → tail.UnaryLeftNil → (rightNested run tail).UnaryLeftNil
  | [], _, _, htail => htail
  | (info, left) :: run, tail, hrun, htail => by
    obtain ⟨⟨hprec, hleft, hnil⟩, hrun⟩ := List.forall_mem_cons.mp hrun
    exact ⟨fun hu => hnil (hprec ▸ hu), hleft, rightNested_unaryLeftNil hrun htail⟩

/-- A left-nested chain of a run of another precedence than the unary ones gains no left
child under a unary stage. -/
theorem leftNestedRev_unaryLeftNil (hp : p.isUnary = false) :
    ∀ {rev : List (StageInfo × Stage)} {tail : Stage}, (∀ e ∈ rev, UnaryEntry p e) →
      tail.UnaryLeftNil → (leftNestedRev rev tail).UnaryLeftNil
  | [], _, _, htail => htail
  | (info, left) :: rev, tail, hrev, htail => by
    obtain ⟨⟨hprec, hleft, -⟩, hrev⟩ := List.forall_mem_cons.mp hrev
    exact ⟨fun hu => absurd (hp.symm.trans (hprec ▸ hu)) Bool.false_ne_true,
      leftNestedRev_unaryLeftNil hp hrev hleft, htail⟩

/-- The end of a run: a unary run has at most one stage, so only runs of other precedences
are mirrored. -/
theorem closeRun_unaryLeftNil {run : List (StageInfo × Stage)} {tail : Stage}
    (hrun : ∀ e ∈ run, UnaryEntry p e) (hunary : p.isUnary → run.length ≤ 1)
    (htail : tail.UnaryLeftNil) : (closeRun run tail).UnaryLeftNil := by
  unfold closeRun
  split
  · rename_i hk
    have hp : p.isUnary = false := Bool.eq_false_iff.mpr fun hu => by
      have := hunary hu
      omega
    rw [mirrorRun_eq_leftNested _ hk]
    exact leftNestedRev_unaryLeftNil hp (fun e he => hrun e (List.mem_reverse.mp he)) htail
  · exact rightNested_unaryLeftNil hrun htail

end Runs

/-- The walk of a right spine with no unary run keeps every unary stage without a left child:
a unary stage starts a run of its own, and the next stage of the spine ends it. -/
theorem reorderSpine_unaryLeftNil {t : Stage} (ht : t.NoUnaryRun) :
    ∀ {p : OperatorPrecedence} {run : List (StageInfo × Stage)}, (∀ e ∈ run, UnaryEntry p e) →
      (p.isUnary → run = [] ∨ run.length = 1 ∧ t.precedence? ≠ some p) →
      (reorderSpine t p run).UnaryLeftNil := by
  induction t with
  | nil =>
    intro p run hrun hunary
    refine closeRun_unaryLeftNil hrun (fun hp => ?_) trivial
    rcases hunary hp with rfl | ⟨hk, -⟩
    · exact Nat.zero_le 1
    · exact hk.le
  | node info left right ihl ihr =>
    obtain ⟨hnode, hl, hr⟩ := ht
    intro p run hrun hunary
    have hleft : (reorderSubtree left).UnaryLeftNil := by
      cases left with
      | nil => trivial
      | node => exact ihl hl (by simp) fun _ => .inl rfl
    have hentry : UnaryEntry (findOperatorPrecedenceForSymbol info.symbol)
        (info, reorderSubtree left) :=
      ⟨rfl, hleft, fun hu => by rw [(hnode hu).1]; rfl⟩
    rw [reorderSpine_node]
    split
    · -- the stage joins the run, which is not unary: a unary stage ends the run before it
      rename_i hp
      subst hp
      refine ihr hr (fun e he => ?_) fun hu => .inr ⟨?_, (hnode hu).2⟩
      · rcases List.mem_append.mp he with he | he
        · exact hrun e he
        · rw [List.mem_singleton.mp he]; exact hentry
      · rcases hunary hu with rfl | ⟨-, hne⟩
        · rfl
        · exact absurd rfl hne
    · -- the run ends, and the stage starts the next one
      refine closeRun_unaryLeftNil hrun (fun hu => ?_)
        (ihr hr (by simpa using hentry) fun hu => .inr ⟨rfl, (hnode hu).2⟩)
      rcases hunary hu with rfl | ⟨hk, -⟩
      · exact Nat.zero_le 1
      · exact hk.le

/-- `reorderStages` gives no unary stage a left child, on a tree with no unary run. -/
theorem reorderSubtree_unaryLeftNil {t : Stage} (ht : t.NoUnaryRun) :
    (reorderSubtree t).UnaryLeftNil := by
  cases t with
  | nil => trivial
  | node => exact reorderSpine_unaryLeftNil ht (by simp) fun _ => .inl rfl

/-! ## Through `elideLiterals` -/

section Fold

variable {world : World}

/-- A step of `elideStage` keeps its stage on a Go error, or goes on. -/
theorem keepOnError_eq_ok {α : Type} {root t : Stage} {x : Result α} {k : α → Result Stage}
    (h : keepOnError root x k = .ok t)
    (hk : ∀ a, k a = .ok t → t = root ∨ ∃ value, t = .node (literalInfo value) .nil .nil) :
    t = root ∨ ∃ value, t = .node (literalInfo value) .nil .nil := by
  unfold keepOnError at h
  split at h
  · exact hk _ h
  · cases h; exact .inl rfl
  · cases h

/-- `elideStage` keeps its stage, or folds it into the leaf of a literal. -/
theorem elideStage_eq_ok {root t : Stage} (h : elideStage world root = .ok t) :
    t = root ∨ ∃ value, t = .node (literalInfo value) .nil .nil := by
  unfold elideStage at h
  split at h
  · cases h
  split at h
  · split at h
    · cases h; exact .inl rfl
    split at h
    · cases h; exact .inl rfl
    refine keepOnError_eq_ok h fun _ h => ?_
    refine keepOnError_eq_ok h fun _ h => ?_
    refine keepOnError_eq_ok h fun _ h => ?_
    refine keepOnError_eq_ok h fun _ h => ?_
    split at h
    · cases h; exact .inl rfl
    refine keepOnError_eq_ok h fun _ h => ?_
    cases h
    exact .inr ⟨_, rfl⟩
  · cases h; exact .inl rfl

/-- The fold gives no unary stage a left child: it keeps a stage over its folded children, or
makes a literal leaf. -/
theorem elideChild_unaryLeftNil : ∀ {t t' : Stage}, t.UnaryLeftNil →
    elideChild world t = .ok t' → t'.UnaryLeftNil
  | .nil, _, _, h => by cases h; trivial
  | .node info left right, t', ⟨hu, hl, hr⟩, h => by
    change elideLiterals world _ = _ at h
    rw [elideLiterals_node] at h
    obtain ⟨left', hl', h⟩ := bind_eq_ok.mp h
    obtain ⟨right', hr', h⟩ := bind_eq_ok.mp h
    rcases elideStage_eq_ok h with rfl | ⟨value, rfl⟩
    · refine ⟨fun hq => ?_, elideChild_unaryLeftNil hl hl', elideChild_unaryLeftNil hr hr'⟩
      rw [hu hq] at hl'
      cases hl'
      rfl
    · exact ⟨fun _ => rfl, trivial, trivial⟩

/-- Folding reaches its fixpoint in one pass: a kept stage has folded children and folds as it
did, and a literal leaf is kept. -/
theorem elideChild_idempotent : ∀ {t t' : Stage}, elideChild world t = .ok t' →
    elideChild world t' = .ok t'
  | .nil, _, h => by cases h; rfl
  | .node info left right, t', h => by
    change elideLiterals world _ = _ at h
    rw [elideLiterals_node] at h
    obtain ⟨left', hl', h⟩ := bind_eq_ok.mp h
    obtain ⟨right', hr', h⟩ := bind_eq_ok.mp h
    rcases elideStage_eq_ok h with rfl | ⟨value, rfl⟩
    · change elideLiterals world _ = _
      rw [elideLiterals_node, elideChild_idempotent hl', elideChild_idempotent hr']
      exact h
    · rfl

theorem elideLiterals_idempotent {t t' : Stage} (h : elideLiterals world t = .ok t') :
    elideLiterals world t' = .ok t' := by
  cases t with
  | nil => cases h
  | node info left right =>
    have hfixed := elideChild_idempotent (t := .node info left right) h
    rw [elideLiterals_node] at h
    obtain ⟨_, -, h⟩ := bind_eq_ok.mp h
    obtain ⟨_, -, h⟩ := bind_eq_ok.mp h
    rcases elideStage_eq_ok h with rfl | ⟨value, rfl⟩ <;> exact hfixed

end Fold

/-! ## The compiled tree -/

/-- The shape the documentation gives every stage of a compiled tree: `LITERAL` and
parameter stages have no children; parenthesis, prefix, call and accessor stages have no
left child. -/
def Stage.Documented : Stage → Prop
  | .nil => True
  | .node info left right =>
    (info.symbol ∈ [.LITERAL, .VALUE] → left = .nil ∧ right = .nil) ∧
    (info.symbol ∈ [.NOOP, .NEGATE, .INVERT, .BITWISE_NOT, .FUNCTIONAL, .ACCESS] →
      left = .nil) ∧
    left.Documented ∧ right.Documented

/-- The shape of a compiled tree: the documented one, except that a parenthesis stage may
have a parenthesis stage as its left child. -/
def Stage.Compiled : Stage → Prop
  | .nil => True
  | .node info left right =>
    (info.symbol ∈ [.LITERAL, .VALUE] → left = .nil ∧ right = .nil) ∧
    (info.symbol ∈ [.NEGATE, .INVERT, .BITWISE_NOT, .FUNCTIONAL, .ACCESS] → left = .nil) ∧
    (info.symbol = .NOOP → ∀ q ∈ left.symbol?, q = .NOOP) ∧
    left.Compiled ∧ right.Compiled

theorem precedence_of_mem_values {symbol : OperatorSymbol} (h : symbol ∈ [.LITERAL, .VALUE]) :
    findOperatorPrecedenceForSymbol symbol = .valuePrecedence := by
  simp only [List.mem_cons, List.mem_singleton, List.not_mem_nil, or_false] at h
  rcases h with rfl | rfl <;> rfl

theorem isUnary_of_mem_unary {symbol : OperatorSymbol}
    (h : symbol ∈ [.NEGATE, .INVERT, .BITWISE_NOT, .FUNCTIONAL, .ACCESS]) :
    (findOperatorPrecedenceForSymbol symbol).isUnary := by
  simp only [List.mem_cons, List.mem_singleton, List.not_mem_nil, or_false] at h
  rcases h with rfl | rfl | rfl | rfl | rfl <;> rfl

/-- `NOOP` is the only symbol of the precedence of parentheses. -/
theorem eq_noop_of_precedence {symbol : OperatorSymbol}
    (h : findOperatorPrecedenceForSymbol symbol = .noopPrecedence) : symbol = .NOOP := by
  cases symbol <;> first | rfl | cases h

/-- A reordered tree with no left child under a unary stage has the compiled shape: a
parenthesis stage is structural, so its left child, if any, is a parenthesis stage. -/
theorem Stage.Reordered.compiled : ∀ {t : Stage}, t.Reordered → t.UnaryLeftNil → t.Compiled
  | .nil, _, _ => trivial
  | .node info left right, ⟨_, hstruct, hval, hl, hr⟩, ⟨hu, hul, hur⟩ => by
    refine ⟨fun h => hval (precedence_of_mem_values h), fun h => hu (isUnary_of_mem_unary h),
      fun h q hq => ?_, hl.compiled hul, hr.compiled hur⟩
    have hnoop : findOperatorPrecedenceForSymbol info.symbol = .noopPrecedence := by rw [h]; rfl
    exact eq_noop_of_precedence
      ((hstruct (by rw [hnoop]; rfl) _ (Option.mem_map_of_mem _ hq)).trans hnoop)

/-- Planning a list whose prefix and call tokens are so ordered gives a tree of the compiled
shape: the plan has no unary run, so `reorderStages` mirrors no run of prefix, call or
accessor stages, and the fold keeps stages or makes literal leaves. -/
theorem planStages_compiled {world : World} {tokens : List ExpressionToken} {stages : Stage}
    (hadj : UnaryAdjacent tokens) (h : planStages world tokens = .ok stages) :
    stages.Compiled := by
  obtain ⟨⟨stage, cursor⟩, hplan, h⟩ := bind_eq_ok.mp h
  obtain ⟨reordered, hreorder, h⟩ := bind_eq_ok.mp h
  obtain ⟨hne, rfl⟩ := reorderStages_eq hreorder
  rw [← elideChild_of_ne_nil world (reorderSubtree_ne_nil hne)] at h
  have hfold := elideChild_safe world (reorderSubtree_reordered (plan_planned _ _ _ _ hplan))
  rw [h] at hfold
  exact hfold.1.compiled (elideChild_unaryLeftNil
    (reorderSubtree_unaryLeftNil (plan_unary hadj _ _ _ _ hplan).1) h)

/-- Every expression the constructor accepts, with every function table, compiles to a tree of
the compiled shape: the grammar checker orders its prefix and call tokens, and the optimizer
keeps them. -/
theorem tNewEvaluableExpressionWithFunctions_compiled {tables : LexerTables} {world : World}
    {expression : String} {functions : String → Option ExpressionFunction}
    {e : EvaluableExpression}
    (h : tNewEvaluableExpressionWithFunctions tables world expression functions = .ok e) :
    e.evaluationStages.Compiled := by
  obtain ⟨tokens, -, h⟩ := bind_eq_ok.mp h
  obtain ⟨_, -, h⟩ := bind_eq_ok.mp h
  obtain ⟨_, haccepted, h⟩ := bind_eq_ok.mp h
  obtain ⟨tokens', hopt, h⟩ := bind_eq_ok.mp h
  obtain ⟨stages, hstages, h⟩ := bind_eq_ok.mp h
  cases h
  exact planStages_compiled ((unaryAdjacent_of_accepted haccepted).of_kindKept
    (optimizeTokensFrom_kinds _ _ _ hopt)) hstages

/-- The tree of every compiled expression is folded: folding it once more, the last step of
`planStages`, gives it back. So no stage of it has two literal children whose fold succeeds,
separators and memberships apart. -/
theorem tNewEvaluableExpressionWithFunctions_folded {tables : LexerTables} {world : World}
    {expression : String} {functions : String → Option ExpressionFunction}
    {e : EvaluableExpression}
    (h : tNewEvaluableExpressionWithFunctions tables world expression functions = .ok e) :
    elideLiterals world e.evaluationStages = .ok e.evaluationStages := by
  obtain ⟨_, -, h⟩ := bind_eq_ok.mp h
  obtain ⟨_, -, h⟩ := bind_eq_ok.mp h
  obtain ⟨_, -, h⟩ := bind_eq_ok.mp h
  obtain ⟨_, -, h⟩ := bind_eq_ok.mp h
  obtain ⟨stages, hstages, h⟩ := bind_eq_ok.mp h
  cases h
  obtain ⟨_, -, hstages⟩ := bind_eq_ok.mp hstages
  obtain ⟨_, -, hstages⟩ := bind_eq_ok.mp hstages
  exact elideLiterals_idempotent hstages

/-- `x - y` compiles to a folded tree. -/
theorem tNewEvaluableExpressionWithFunctions_folded_difference :
    ∃ e, tNewEvaluableExpressionWithFunctions asciiTables nullWorld "x - y" (fun _ => none) =
      .ok e ∧ elideLiterals nullWorld e.evaluationStages = .ok e.evaluationStages := by
  obtain ⟨e, he⟩ : ∃ e, tNewEvaluableExpressionWithFunctions asciiTables nullWorld "x - y"
      (fun _ => none) = .ok e := ⟨_, rfl⟩
  exact ⟨e, he, tNewEvaluableExpressionWithFunctions_folded he⟩

/-- Every expression `TNewEvaluableExpression` accepts compiles to a tree of the compiled
shape. -/
theorem tNewEvaluableExpression_compiled {tables : LexerTables} {world : World}
    {expression : String} {e : EvaluableExpression}
    (h : TNewEvaluableExpression tables world expression = .ok e) :
    e.evaluationStages.Compiled :=
  tNewEvaluableExpressionWithFunctions_compiled h

/-- `-x` compiles, to a tree of the compiled shape. -/
theorem tNewEvaluableExpression_compiled_negation :
    ∃ e, TNewEvaluableExpression asciiTables nullWorld "-x" = .ok e ∧ e.evaluationStages.Compiled := by
  obtain ⟨e, he⟩ : ∃ e, TNewEvaluableExpression asciiTables nullWorld "-x" = .ok e := ⟨_, rfl⟩
  exact ⟨e, he, tNewEvaluableExpression_compiled he⟩

/-- The compiled tree of `((x))`: the two parenthesis stages formed a run, which
`reorderStages` mirrored, so the outer one has the inner one as its left child. -/
def nestedParenthesesStages : Stage :=
  .node noopInfo (.node noopInfo .nil .nil) (.node (parameterInfo "x") .nil .nil)

theorem nestedParenthesesStages_not_documented : ¬ nestedParenthesesStages.Documented :=
  fun ⟨_, hnoop, _⟩ => nomatch hnoop (by simp [noopInfo])

/-- `((x))` compiles to a tree where a parenthesis stage has a left child. -/
theorem compile_nested_parentheses :
    ∃ e, TNewEvaluableExpression asciiTables nullWorld "((x))" = .ok e ∧
      e.evaluationStages = nestedParenthesesStages ∧ ¬ e.evaluationStages.Documented := by
  obtain ⟨e, he, hstages⟩ : ∃ e, TNewEvaluableExpression asciiTables nullWorld "((x))" = .ok e ∧
      e.evaluationStages = nestedParenthesesStages := ⟨_, rfl, rfl⟩
  exact ⟨e, he, hstages, hstages ▸ nestedParenthesesStages_not_documented⟩

end Geval
