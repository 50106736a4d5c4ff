import Geval.Evaluate.Frontend
import Geval.Evaluate.Fold

/-!
# What the text of a derivation means

The left-to-right reading of a derivation of the planner's grammar (`Derivation.eval`): a chain
is folded from its first operand, one step of its operator per operand after it, and a prefix,
a call, a field, a group, a literal or a variable is one step of its stage over its operand. A
step is the code's (`evaluateNode`: the short-circuit switch, the type checks, the operator);
the order of the steps is the grammar's.

The reference tree evaluates so (`Derivation.evaluateChild_reference`). Folding never fails
with a Go error (`elideLiterals_ne_error`) and evaluates as the tree it folds
(`Geval.Evaluate.Fold`), so the folded reference tree of a supported derivation evaluates as
its reading (`Derivation.elideLiterals_reference`).
-/

namespace Geval

/-! ## The left-to-right reading -/

section Reading

variable (checksTypes : Bool) (world : World) (parameters : Parameters)

mutual

/-- The left-to-right reading of a derivation, in an environment. -/
def Derivation.eval : Derivation → Evaluation
  | .chain L first rest => rest.eval L first.eval
  | .unary lexeme operand =>
    evaluateNode checksTypes world parameters (prefixInfo lexeme) (.ok .null, []) operand.eval
  | .call f args =>
    evaluateNode checksTypes world parameters (functionalInfo f) (.ok .null, []) args.eval
  | .field path =>
    evaluateNode checksTypes world parameters (accessInfo path) (.ok .null, []) (.ok .null, [])
  | .method path args =>
    evaluateNode checksTypes world parameters (accessInfo path) (.ok .null, []) args.eval
  | .group args => args.eval
  | .literal token =>
    evaluateNode checksTypes world parameters (literalStage token) (.ok .null, []) (.ok .null, [])
  | .parameter name =>
    evaluateNode checksTypes world parameters (parameterInfo name) (.ok .null, []) (.ok .null, [])

/-- A chain folded from `acc`, the reading of the operands before it. -/
def Chain.eval (L : Level) (acc : Evaluation) : Chain → Evaluation
  | .last lexeme operand =>
    evaluateNode checksTypes world parameters (L.operatorInfo lexeme) acc operand.eval
  | .cons lexeme operand rest =>
    rest.eval L (evaluateNode checksTypes world parameters (L.operatorInfo lexeme) acc operand.eval)

def Args.eval : Args → Evaluation
  | .empty => evaluateNode checksTypes world parameters noopInfo (.ok .null, []) (.ok .null, [])
  | .contents d => evaluateNode checksTypes world parameters noopInfo (.ok .null, []) d.eval

end

end Reading

/-! ## The reference tree reads left to right -/

theorem leftNestedRev_append_pair (s₁ s₂ : StageInfo) (x₁ x₂ : Stage) :
    ∀ (rev : List (StageInfo × Stage)) (tail : Stage),
      leftNestedRev (rev ++ [(s₂, x₂), (s₁, x₁)]) tail =
        leftNestedRev (rev ++ [(s₂, .node s₁ x₁ x₂)]) tail
  | [], _ => rfl
  | (info, left) :: rev, tail =>
    congrArg (Stage.node info · tail) (leftNestedRev_append_pair s₁ s₂ x₁ x₂ rev left)

/-- The first two stages of a left-nested chain are one operand of the second. -/
theorem leftNested_cons_cons (s₁ s₂ : StageInfo) (x₁ x₂ : Stage)
    (run : List (StageInfo × Stage)) (tail : Stage) :
    leftNested ((s₁, x₁) :: (s₂, x₂) :: run) tail = leftNested ((s₂, .node s₁ x₁ x₂) :: run) tail := by
  simp only [leftNested, List.reverse_cons, List.append_assoc, List.singleton_append]
  exact leftNestedRev_append_pair s₁ s₂ x₁ x₂ run.reverse tail

/-- A stage before the run of a chain is the first operand of the chain. -/
theorem Chain.leftNested_run (L : Level) (info : StageInfo) (first operand : Stage) (c : Chain)
    (tail : Stage) :
    leftNested ((info, first) :: c.run leftNested L operand) tail =
      leftNested (c.run leftNested L (.node info first operand)) tail := by
  cases c <;> exact leftNested_cons_cons _ _ _ _ _ _

section Reference

variable {checksTypes : Bool} {world : World} {parameters : Parameters}

mutual

/-- The reference tree of a derivation evaluates as its left-to-right reading. -/
theorem Derivation.evaluateChild_reference : ∀ d : Derivation,
    evaluateChild checksTypes world parameters (d.tree leftNested) =
      d.eval checksTypes world parameters
  | .chain L first rest =>
    Chain.evaluateChild_leftNested L rest (Derivation.evaluateChild_reference first)
  | .unary _ operand => by
    rw [Derivation.tree, evaluateChild_node, evaluateStage_node,
      Derivation.evaluateChild_reference operand]
    rfl
  | .call _ args => by
    rw [Derivation.tree, evaluateChild_node, evaluateStage_node, Args.evaluateChild_tree args]
    rfl
  | .field _ => rfl
  | .method _ args => by
    rw [Derivation.tree, evaluateChild_node, evaluateStage_node, Args.evaluateChild_tree args]
    rfl
  | .group args => Args.evaluateChild_tree args
  | .literal _ => rfl
  | .parameter _ => rfl

/-- A chain's left-nested tree over a first operand that reads `acc` folds from `acc`. -/
theorem Chain.evaluateChild_leftNested (L : Level) : ∀ (c : Chain) {first : Stage}
    {acc : Evaluation}, evaluateChild checksTypes world parameters first = acc →
      evaluateChild checksTypes world parameters
        (leftNested (c.run leftNested L first) (c.lastTree leftNested)) =
        c.eval checksTypes world parameters L acc
  | .last _ operand, _, _, h => by
    rw [Chain.run, Chain.lastTree, leftNested, List.reverse_singleton, leftNestedRev,
      leftNestedRev, evaluateChild_node, evaluateStage_node, h,
      Derivation.evaluateChild_reference operand]
    rfl
  | .cons _ operand rest, _, _, h => by
    rw [Chain.run, Chain.lastTree, Chain.leftNested_run]
    exact Chain.evaluateChild_leftNested L rest (by
      rw [evaluateChild_node, evaluateStage_node, h, Derivation.evaluateChild_reference operand])

theorem Args.evaluateChild_tree : ∀ a : Args,
    evaluateChild checksTypes world parameters (a.tree leftNested) =
      a.eval checksTypes world parameters
  | .empty => rfl
  | .contents d => by
    rw [Args.tree, evaluateChild_node, evaluateStage_node, Derivation.evaluateChild_reference d]
    rfl

end

end Reference

/-! ## What the compiled text means -/

/-- A bind fails with a Go error only where one of its steps does. -/
theorem bind_ne_error {α β : Type} {x : Result α} {f : α → Result β} {message : String}
    (hx : x ≠ .error (.error message)) (hf : ∀ a, f a ≠ .error (.error message)) :
    x >>= f ≠ .error (.error message) := by
  cases x with
  | ok a => exact hf a
  | error e =>
    rw [error_bind]
    rintro ⟨⟩
    exact hx rfl

theorem keepOnError_ne_error {α : Type} {root : Stage} {x : Result α} {k : α → Result Stage}
    {message : String} (hk : ∀ a, k a ≠ .error (.error message)) :
    keepOnError root x k ≠ .error (.error message) := by
  cases x with
  | ok a => exact hk a
  | error e => cases e <;> nofun

/-- Folding never fails with a Go error: a fold that would fail keeps its stage. -/
theorem elideLiterals_ne_error (world : World) :
    ∀ (t : Stage) (message : String), elideLiterals world t ≠ .error (.error message)
  | .nil, _ => nofun
  | .node info left right, message => by
    rw [elideLiterals_node]
    refine bind_ne_error ?_ fun left' => bind_ne_error ?_ fun right' => ?_
    · cases left with
      | nil => nofun
      | node => exact elideLiterals_ne_error world _ message
    · cases right with
      | nil => nofun
      | node => exact elideLiterals_ne_error world _ message
    unfold elideStage
    split
    · nofun
    split
    · split
      · nofun
      split
      · nofun
      exact keepOnError_ne_error fun _ => keepOnError_ne_error fun _ =>
        keepOnError_ne_error fun _ => keepOnError_ne_error fun _ => by
          split
          · nofun
          exact keepOnError_ne_error fun _ => nofun
    · nofun

/-- The reference tree of a supported derivation is a tree `reorderStages` could have made,
and not nil. -/
theorem Derivation.reference_reordered {d : Derivation} (hd : d.Supported) :
    d.reference.Reordered ∧ d.reference ≠ .nil := by
  have hplanned := plan_planned _ _ _ _ (Derivation.plan_planTokens hd)
  have hne : d.planned ≠ .nil := fun h => by
    have hroot := Derivation.planned_precedence hd
    rw [h, Stage.precedence?_nil] at hroot
    cases hroot
  rw [← reorderSubtree_planned hd]
  exact ⟨reorderSubtree_reordered hplanned, reorderSubtree_ne_nil hne⟩

/-- Folding the reference tree of a supported derivation succeeds, and the folded tree evaluates
as the reference tree does. -/
theorem Derivation.elideLiterals_reference {d : Derivation} (hd : d.Supported) (world : World) :
    ∃ elided, elideLiterals world d.reference = .ok elided ∧ FoldsTo world d.reference elided := by
  obtain ⟨hreordered, hne⟩ := Derivation.reference_reordered hd
  have hsafe := elideChild_safe world hreordered
  rw [elideChild_of_ne_nil world hne] at hsafe
  exact hsafe.ok_of_not_error (elideLiterals_ne_error world _)

/-- A child that is a node is evaluated as a stage. -/
theorem evaluateChild_of_ne_nil {checksTypes : Bool} {world : World} {parameters : Parameters}
    {t : Stage} (h : t ≠ .nil) :
    evaluateChild checksTypes world parameters t = evaluateStage checksTypes world parameters t := by
  cases t with
  | nil => exact absurd rfl h
  | node => rfl

end Geval
