import Geval.Evaluate.Compiled
import Geval.Evaluate.Pipeline

/-!
# What evaluation reads

An evaluation consults its parameter source only at its variable stages, by name, and at its
accessor stages, by the first segment of the path (`StageOperator.reads`). Two sources that
agree there give the same evaluation, value, error and external calls alike
(`evaluateChild_congr`).

The compiler names no other parameter: the planner builds variable and accessor stages only
from variable and accessor tokens (`plan_planOut`), `reorderStages` only moves stages, and
`elideLiterals` only adds literals (`planStages_readsFrom`). So
`EvaluableExpression.TEvaluate_congr`: whatever `tNewEvaluableExpressionWithFunctions`
compiles evaluates alike on two parameter maps, a nil one included, that agree on the variables
of its tokens and on the first segments of its accessors.
-/

namespace Geval

/-- The parameter an operator looks up: a variable's name, or the first segment of an
accessor's path. -/
def StageOperator.reads : StageOperator → Option String
  | .parameter name => some name
  | .accessor (first :: _) => some first
  | _ => none

/-- The parameter a token names: a variable's name, or the first segment of an accessor's
path. -/
def ExpressionToken.reads (token : ExpressionToken) : Option String :=
  match token.kind, token.value with
  | .VARIABLE, .string name => some name
  | .ACCESSOR, .strings (first :: _) => some first
  | _, _ => none

/-! ## Evaluation reads only what its stages name -/

/-- Two parameter sources agree on what a stage reads. -/
def StageInfo.ReadsAlike (p₁ p₂ : Parameters) (info : StageInfo) : Prop :=
  ∀ name ∈ info.operator.reads, p₁ name = p₂ name

section Congr

variable {checksTypes : Bool} {world : World} {p₁ p₂ : Parameters}

theorem StageOperator.run_congr {op : StageOperator} (h : ∀ name ∈ op.reads, p₁ name = p₂ name)
    (l r : Value) : op.run world p₁ l r = op.run world p₂ l r := by
  cases op with
  | parameter name => exact h name rfl
  | accessor path =>
    cases path with
    | nil => rfl
    | cons first rest => simp only [StageOperator.run, h first rfl]
  | _ => rfl

theorem evaluateNode_congr {info : StageInfo} (h : info.ReadsAlike p₁ p₂) (left right : Evaluation) :
    evaluateNode checksTypes world p₁ info left right =
      evaluateNode checksTypes world p₂ info left right := by
  simp only [evaluateNode, finishStage, StageOperator.run_congr h]

/-- Evaluation reads its parameters only where its stages do. -/
theorem evaluateChild_congr : ∀ {t : Stage}, t.Every (StageInfo.ReadsAlike p₁ p₂) →
    evaluateChild checksTypes world p₁ t = evaluateChild checksTypes world p₂ t
  | .nil, _ => rfl
  | .node info left right, ⟨h, hl, hr⟩ => by
    simp only [evaluateChild_node, evaluateStage_node, evaluateChild_congr hl,
      evaluateChild_congr hr, evaluateNode_congr h]

end Congr

/-! ## The compiler names only what the tokens name -/

/-- A stage that reads only a parameter some token of `tokens` names. -/
def StageInfo.ReadsFrom (tokens : List ExpressionToken) (info : StageInfo) : Prop :=
  ∀ name ∈ info.operator.reads, ∃ t ∈ tokens, name ∈ t.reads

theorem StageInfo.NamesIn.readsFrom {tokens : List ExpressionToken} {info : StageInfo}
    (h : info.NamesIn tokens) : info.ReadsFrom tokens := by
  intro name hname
  cases hop : info.operator with
  | parameter _ =>
    rw [hop] at hname
    cases hname
    exact ⟨_, h.2 _ hop, rfl⟩
  | accessor path =>
    rw [hop] at hname
    cases path with
    | nil => cases hname
    | cons first rest =>
      cases hname
      exact ⟨_, h.1 _ hop, rfl⟩
  | _ => rw [hop] at hname; cases hname

/-- Folding keeps every property of the stages that literal stages have: it keeps a stage or
makes a literal leaf. -/
theorem elideChild_every {world : World} {P : StageInfo → Prop}
    (hlit : ∀ value, P (literalInfo value)) :
    ∀ {t t' : Stage}, t.Every P → elideChild world t = .ok t' → t'.Every P
  | .nil, _, _, h => by cases h; trivial
  | .node info left right, t', ⟨hi, hl, hr⟩, h => by
    change elideLiterals world _ = _ at h
    rw [elideLiterals_node] at h
    obtain ⟨left', hl', h⟩ := bind_eq_ok.mp h
    obtain ⟨right', hr', h⟩ := bind_eq_ok.mp h
    rcases elideStage_eq_ok h with rfl | ⟨value, rfl⟩
    · exact ⟨hi, elideChild_every hlit hl hl', elideChild_every hlit hr hr'⟩
    · exact ⟨hlit value, trivial, trivial⟩

/-- Every stage `planStages` makes of a token list reads only what the tokens name. -/
theorem planStages_readsFrom {world : World} {tokens : List ExpressionToken} {stages : Stage}
    (h : planStages world tokens = .ok stages) : stages.Every (StageInfo.ReadsFrom tokens) := by
  obtain ⟨⟨planned, cursor⟩, hplan, h⟩ := bind_eq_ok.mp h
  obtain ⟨tree, hreorder, h⟩ := bind_eq_ok.mp h
  obtain ⟨hne, rfl⟩ := reorderStages_eq hreorder
  have hnames := (plan_planOut _ _ _ _ hplan).1.2
  -- `reorderStages` keeps the stages of the plan, in the same order
  have htree : (reorderSubtree planned).Every (StageInfo.ReadsFrom tokens) :=
    Stage.every_iff_inorder.mpr fun info hinfo =>
      (Stage.every_iff_inorder.mp hnames info (reorderSubtree_inorder planned ▸ hinfo)).readsFrom
  rw [← elideChild_of_ne_nil world (reorderSubtree_ne_nil hne)] at h
  exact elideChild_every (fun _ _ hname => by cases hname) htree h

/-! ## What a compiled expression reads -/

/-- A compiled expression's stages are what `planStages` made of its tokens. -/
theorem tNewEvaluableExpressionWithFunctions_stages {tables : LexerTables} {world : World}
    {expression : String} {functions : String → Option ExpressionFunction}
    {e : EvaluableExpression}
    (he : tNewEvaluableExpressionWithFunctions tables world expression functions = .ok e) :
    planStages world e.tokens = .ok e.evaluationStages := by
  obtain ⟨_, -, he⟩ := bind_eq_ok.mp he
  obtain ⟨_, -, he⟩ := bind_eq_ok.mp he
  obtain ⟨_, -, he⟩ := bind_eq_ok.mp he
  obtain ⟨_, -, he⟩ := bind_eq_ok.mp he
  obtain ⟨_, hplan, he⟩ := bind_eq_ok.mp he
  cases he
  exact hplan

/-- The parameters `tEval` passes look a name up in the map, a nil map being the empty one,
and normalise what they find. -/
theorem tEval_parameters (p : Option (String → Option Value)) (name : String) :
    ((p.map mapParameters).map sanitizedParameters).getD dummyParameters name =
      (mapParameters (p.getD fun _ => none) name).map sanitizeValue := by
  cases p <;> rfl

/-- Whatever `tNewEvaluableExpressionWithFunctions` compiles, with any function table,
`TEvaluate` gives the same value, error and external calls on two parameter maps, a nil one
included, that agree on every variable of its tokens and on the first segment of every accessor
path. -/
theorem EvaluableExpression.TEvaluate_congr {tables : LexerTables} {world : World}
    {expression : String} {functions : String → Option ExpressionFunction}
    {e : EvaluableExpression}
    (he : tNewEvaluableExpressionWithFunctions tables world expression functions = .ok e)
    {p₁ p₂ : Option (String → Option Value)}
    (hagree : ∀ t ∈ e.tokens, ∀ name ∈ t.reads,
      (p₁.getD fun _ => none) name = (p₂.getD fun _ => none) name) :
    e.TEvaluate world p₁ = e.TEvaluate world p₂ := by
  have hreads := planStages_readsFrom (tNewEvaluableExpressionWithFunctions_stages he)
  unfold TEvaluate tEval
  cases hs : e.evaluationStages with
  | nil => rfl
  | node info left right =>
    rw [hs] at hreads
    refine evaluateChild_congr (hreads.mono fun info hinfo name hname => ?_)
    obtain ⟨t, ht, htn⟩ := hinfo name hname
    rw [tEval_parameters, tEval_parameters, mapParameters, mapParameters, hagree t ht name htn]

/-- `x - y` compiled: its tokens, and the stage of the subtraction over the two variables. -/
def compiledDifference : EvaluableExpression :=
  ⟨isoDateFormat, true,
    [⟨.VARIABLE, .string "x"⟩, ⟨.MODIFIER, .string "-"⟩, ⟨.VARIABLE, .string "y"⟩],
    .node (binaryInfo .MINUS .modifierErrorFormat) (.node (parameterInfo "x") .nil .nil)
      (.node (parameterInfo "y") .nil .nil), "x - y"⟩

/-- `x - y` evaluates alike on two maps that differ only at `z`. -/
theorem TEvaluate_congr_difference :
    tNewEvaluableExpressionWithFunctions asciiTables nullWorld "x - y" (fun _ => none) =
        .ok compiledDifference ∧
      compiledDifference.TEvaluate nullWorld
          (some fun name => if name = "z" then none else some (.bool true)) =
        compiledDifference.TEvaluate nullWorld
          (some fun name => if name = "z" then some (.bool false) else some (.bool true)) :=
  have he : tNewEvaluableExpressionWithFunctions asciiTables nullWorld "x - y" (fun _ => none) =
      .ok compiledDifference := rfl
  ⟨he, EvaluableExpression.TEvaluate_congr he fun t ht name hname => by
    simp only [compiledDifference, List.mem_cons, List.mem_singleton, List.not_mem_nil,
      or_false] at ht
    rcases ht with rfl | rfl | rfl <;> cases hname <;> rfl⟩

end Geval
