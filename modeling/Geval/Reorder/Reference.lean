import Geval.Core.Expression
import Geval.Planner.Descent
import Geval.Reorder.Shape

/-!
# `reorderStages` makes the reference tree of the planner's tree

The planner builds every chain of a level right-nested; `reorderStages` walks each right
spine and mirrors every run of stages of one precedence. On a supported derivation the runs
it finds are exactly the chains: the operands of a chain are of tighter levels, or are not
operators at all, so their roots have other precedences than the chain's stages. Hence
`reorderSubtree_planned`: the walk turns the planned tree into the reference tree, with every
level left-associative.

With `Derivation.plan_planTokens`, the planner half, this gives `planStages_reference`: on the
tokens of a supported derivation, `planStages` builds the reference tree before it elides
literals. `reorderStages_reassociates` puts the two sides of the reorder together: on every
tree it keeps the in-order sequence of the stages and turns the planner's shape into the
reordered one, and on the plan of a supported derivation it changes the nesting of each chain
from right to left.
-/

namespace Geval

/-! ## Precedences of the trees -/

/-- The precedence of a level's operators. -/
def Level.precedence : Level → OperatorPrecedence
  | .separator => .separatePrecedence | .ternary => .ternaryPrecedence
  | .logicalOr => .logicalOrPrecedence | .logicalAnd => .logicalAndPrecedence
  | .comparator => .comparatorPrecedence | .bitwise => .bitwisePrecedence
  | .shift => .bitwiseShiftPrecedence | .additive => .additivePrecedence
  | .multiplicative => .multiplicativePrecedence | .exponential => .exponentialPrecedence

/-- Every operator of a level's table has the level's precedence. -/
theorem Level.operatorInfo_precedence {L : Level} {lexeme : String}
    (h : (L.planner.validSymbols lexeme).isSome) :
    findOperatorPrecedenceForSymbol (L.operatorInfo lexeme).symbol = L.precedence := by
  obtain ⟨symbol, hsymbol⟩ := Option.isSome_iff_exists.mp h
  rw [Level.operatorInfo, hsymbol, Option.getD_some, binaryInfo_symbol]
  cases L <;>
    · dsimp only [Level.planner, separatorPlanner, ternaryPlanner, logicalOrPlanner,
        logicalAndPlanner, comparatorPlanner, bitwisePlanner, shiftPlanner, additivePlanner,
        multiplicativePlanner, exponentialPlanner] at hsymbol
      delta separatorSymbols ternarySymbols logicalOrSymbols logicalAndSymbols comparatorSymbols
        bitwiseSymbols bitwiseShiftSymbols additiveSymbols multiplicativeSymbols
        exponentialSymbolsS at hsymbol
      split at hsymbol <;> cases hsymbol <;> rfl

/-- The precedence of the root of a derivation's tree. -/
def Derivation.rootPrecedence : Derivation → OperatorPrecedence
  | .chain L _ _ => L.precedence
  | .unary .. => .prefixPrecedence
  | .call .. | .field _ | .method .. => .functionalPrecedence
  | .group _ => .noopPrecedence
  | .literal _ | .parameter _ => .valuePrecedence

/-- A chain's stages are all of its level's precedence. -/
theorem Chain.run_precedence {nest : List (StageInfo × Stage) → Stage → Stage} {L : Level} :
    ∀ {c : Chain} {first : Stage}, c.Supported L →
      ∀ e ∈ c.run nest L first, findOperatorPrecedenceForSymbol e.1.symbol = L.precedence
  | .last lexeme operand, first, h, e, he => by
    simp only [Chain.Supported, Bool.and_eq_true] at h
    rw [Chain.run, List.mem_singleton] at he
    subst he
    exact Level.operatorInfo_precedence h.1.1
  | .cons lexeme operand rest, first, h, e, he => by
    simp only [Chain.Supported, Bool.and_eq_true] at h
    rw [Chain.run] at he
    rcases List.mem_cons.mp he with rfl | he
    · exact Level.operatorInfo_precedence h.1.1.1
    · exact Chain.run_precedence h.2 e he

theorem Chain.run_ne_nil (nest : List (StageInfo × Stage) → Stage → Stage) (L : Level)
    (first : Stage) : ∀ c : Chain, c.run nest L first ≠ []
  | .last .. | .cons .. => List.cons_ne_nil _ _

theorem literalStage_symbol (token : ExpressionToken) : (literalStage token).symbol = .LITERAL := by
  unfold literalStage
  split <;> rfl

theorem prefixInfo_precedence {lexeme : String} (h : (prefixSymbols lexeme).isSome) :
    findOperatorPrecedenceForSymbol (prefixInfo lexeme).symbol = .prefixPrecedence := by
  obtain ⟨symbol, hsymbol⟩ := Option.isSome_iff_exists.mp h
  rw [prefixInfo, hsymbol, Option.getD_some, binaryInfo_symbol, prefixSymbols_precedence hsymbol]

/-- The planned tree's root has the derivation's precedence. -/
theorem Derivation.planned_precedence {d : Derivation} (hd : d.Supported) :
    d.planned.precedence? = some d.rootPrecedence := by
  cases d with
  | chain L first rest =>
    simp only [Derivation.Supported, Bool.and_eq_true] at hd
    obtain ⟨e, run, hrun⟩ := List.exists_cons_of_ne_nil
      (Chain.run_ne_nil rightNested L (first.tree rightNested) rest)
    rw [Derivation.planned, Derivation.tree, hrun, rightNested, Stage.precedence?_node,
      Chain.run_precedence hd.2 e (hrun ▸ List.mem_cons_self e run)]
    rfl
  | unary lexeme operand =>
    simp only [Derivation.Supported, Bool.and_eq_true] at hd
    rw [Derivation.planned, Derivation.tree, Stage.precedence?_node,
      prefixInfo_precedence hd.1.1]
    rfl
  | group args => cases args <;> rfl
  | literal token =>
    rw [Derivation.planned, Derivation.tree, Stage.precedence?_node, literalStage_symbol]
    rfl
  | _ => rfl

theorem Level.precedence_injective : Function.Injective Level.precedence := by
  intro L L' h
  cases L <;> cases L' <;> first | rfl | cases h

/-- The levels have distinct precedences, none of them that of a prefix, a call, a group or
a value. -/
theorem Derivation.rootPrecedence_ne {d : Derivation} {L : Level} (h : d.minRank < L.rank) :
    d.rootPrecedence ≠ L.precedence := by
  cases d with
  | chain L' =>
    have hne : L' ≠ L := fun h' => by subst h'; exact Nat.lt_irrefl _ h
    exact fun h' => hne (Level.precedence_injective h')
  | _ => cases L <;> nofun

/-- The last operand of a chain has another precedence than the chain's stages. -/
theorem Chain.lastTree_precedence {L : Level} :
    ∀ (c : Chain), c.Supported L →
      (c.lastTree rightNested).precedence? ≠ some L.precedence
  | .last lexeme operand, h => by
    simp only [Chain.Supported, Bool.and_eq_true, decide_eq_true_eq] at h
    rw [Chain.lastTree, ← Derivation.planned, Derivation.planned_precedence h.2, ne_eq,
      Option.some.injEq]
    exact Derivation.rootPrecedence_ne h.1.2
  | .cons lexeme operand rest, h => by
    simp only [Chain.Supported, Bool.and_eq_true] at h
    exact Chain.lastTree_precedence rest h.2

/-! ## The walk over a chain -/

/-- A non-empty run closes into its left-nested chain: a single stage is its own mirror. -/
theorem closeRun_eq_leftNested {run : List (StageInfo × Stage)} (hrun : run ≠ [])
    (tail : Stage) : closeRun run tail = leftNested run tail := by
  unfold closeRun
  split
  · exact mirrorRun_eq_leftNested tail (by omega)
  · match run, hrun with
    | [_], _ => rfl
    | _ :: _ :: _, _ => simp at *

/-- A right-nested run of one precedence, over a tail of another, becomes the left-nested
run, each operand and the tail reordered on their own. -/
theorem reorderSubtree_rightNested {run : List (StageInfo × Stage)} {tail : Stage}
    {p : OperatorPrecedence} (hne : run ≠ [])
    (hrun : ∀ e ∈ run, findOperatorPrecedenceForSymbol e.1.symbol = p)
    (htail : tail.precedence? ≠ some p) :
    reorderSubtree (rightNested run tail) =
      leftNested (run.map fun e => (e.1, reorderSubtree e.2)) (reorderSubtree tail) := by
  obtain ⟨e, rest, rfl⟩ := List.exists_cons_of_ne_nil hne
  have hroot : reorderSubtree (rightNested (e :: rest) tail) =
      reorderSpine (rightNested (e :: rest) tail) p [] := by
    rw [← hrun e (List.mem_cons_self e rest)]; rfl
  rw [hroot, reorderSpine_rightNested _ _ _ hrun,
    reorderSpine_other _ _ fun info left right h => by subst h; simpa using htail,
    List.nil_append, closeRun_eq_leftNested (by simp)]

/-- A stage with no left child, over a subtree of another precedence. -/
theorem reorderSubtree_node_nil {info : StageInfo} {right : Stage}
    (h : right.precedence? ≠ some (findOperatorPrecedenceForSymbol info.symbol)) :
    reorderSubtree (.node info .nil right) = .node info .nil (reorderSubtree right) :=
  reorderSubtree_rightNested (List.cons_ne_nil (info, Stage.nil) []) (by simp) h

theorem Derivation.rootPrecedence_ne_prefix {d : Derivation} (h : d.isCall) :
    d.rootPrecedence ≠ .prefixPrecedence := by
  cases d <;> simp_all [Derivation.isCall, Derivation.rootPrecedence]

theorem Derivation.rootPrecedence_ne_noop {d : Derivation} (h : d.isGroup = false) :
    d.rootPrecedence ≠ .noopPrecedence := by
  cases d with
  | chain L => cases L <;> nofun
  | _ => simp_all [Derivation.isGroup, Derivation.rootPrecedence]

theorem Derivation.planned_precedence_ne {d : Derivation} (hd : d.Supported)
    {p : OperatorPrecedence} (hp : d.rootPrecedence ≠ p) :
    (d.tree rightNested).precedence? ≠ some p := fun h =>
  hp (Option.some.inj ((Derivation.planned_precedence hd).symm.trans h))

/-! ## The reference tree -/

mutual

/-- `reorderStages` turns the planned tree of a supported derivation into its reference
tree. -/
theorem reorderSubtree_planned : ∀ {d : Derivation}, d.Supported →
    reorderSubtree d.planned = d.reference
  | .chain L first rest, h => by
    simp only [Derivation.Supported, Bool.and_eq_true] at h
    have hfirst : reorderSubtree (first.tree rightNested) = first.tree leftNested :=
      reorderSubtree_planned h.1.2
    obtain ⟨hrun, hlast⟩ := Chain.reorderSubtree_run (first.tree rightNested) h.2
    show reorderSubtree (rightNested _ _) = leftNested _ _
    rw [reorderSubtree_rightNested (Chain.run_ne_nil _ _ _ rest) (Chain.run_precedence h.2)
        (Chain.lastTree_precedence rest h.2), hrun, hlast, hfirst]
  | .unary lexeme operand, h => by
    simp only [Derivation.Supported, Bool.and_eq_true] at h
    have hoperand : reorderSubtree (operand.tree rightNested) = operand.tree leftNested :=
      reorderSubtree_planned h.2
    show reorderSubtree (.node _ .nil _) = .node _ .nil _
    rw [reorderSubtree_node_nil, hoperand]
    rw [prefixInfo_precedence h.1.1]
    exact Derivation.planned_precedence_ne h.2 (Derivation.rootPrecedence_ne_prefix h.1.2)
  | .call f args, h => by
    show reorderSubtree (.node _ .nil _) = .node _ .nil _
    rw [reorderSubtree_node_nil, Args.reorderSubtree_tree h]
    cases args <;> exact nofun
  | .field _, _ => rfl
  | .method _ _, h => nomatch h
  | .group _, h => Args.reorderSubtree_tree h
  | .literal _, _ => reorderSubtree_node_nil (by simp)
  | .parameter _, _ => rfl

theorem Chain.reorderSubtree_run {L : Level} : ∀ {c : Chain} (first : Stage), c.Supported L →
    (c.run rightNested L first).map (fun e => (e.1, reorderSubtree e.2)) =
        c.run leftNested L (reorderSubtree first) ∧
      reorderSubtree (c.lastTree rightNested) = c.lastTree leftNested
  | .last lexeme operand, first, h => by
    simp only [Chain.Supported, Bool.and_eq_true] at h
    exact ⟨rfl, reorderSubtree_planned h.2⟩
  | .cons lexeme operand rest, first, h => by
    simp only [Chain.Supported, Bool.and_eq_true] at h
    have hoperand : reorderSubtree (operand.tree rightNested) = operand.tree leftNested :=
      reorderSubtree_planned h.1.2
    obtain ⟨hrun, hlast⟩ := Chain.reorderSubtree_run (operand.tree rightNested) h.2
    refine ⟨?_, hlast⟩
    rw [Chain.run, List.map_cons, hrun, hoperand]
    rfl

theorem Args.reorderSubtree_tree : ∀ {a : Args}, a.Supported →
    reorderSubtree (a.tree rightNested) = a.tree leftNested
  | .empty, _ => rfl
  | .contents d, h => by
    simp only [Args.Supported, Bool.and_eq_true, Bool.not_eq_true'] at h
    have hd : reorderSubtree (d.tree rightNested) = d.tree leftNested := reorderSubtree_planned h.2
    show reorderSubtree (.node _ .nil _) = .node _ .nil _
    rw [reorderSubtree_node_nil, hd]
    exact Derivation.planned_precedence_ne h.2 (Derivation.rootPrecedence_ne_noop h.1)

end

/-! ## The front end -/

/-- `reorderStages` accepts the planned tree of a supported derivation and returns its
reference tree. -/
theorem Derivation.reorderStages_planned {d : Derivation} (hd : d.Supported) :
    reorderStages d.planned = .ok d.reference := by
  rw [← reorderSubtree_planned hd]
  have hroot := Derivation.planned_precedence hd
  generalize d.planned = t at hroot ⊢
  cases t with
  | nil => cases hroot
  | node info left right => exact reorderStages_node info left right

/-- `planStages` on the tokens of a supported derivation elides the literals of its reference
tree. -/
theorem Derivation.planStages_tokens {d : Derivation} (hd : d.Supported) (world : World) :
    planStages world d.tokens = elideLiterals world d.reference := by
  simp only [planStages, Derivation.plan_planTokens hd, ok_bind, reorderStages_planned hd]

/-- On the tokens of a supported derivation, the planner builds the planned tree,
`reorderStages` turns it into the reference tree, and `planStages` is the literal elision of
the reference tree. -/
theorem planStages_reference {d : Derivation} (hd : d.Supported) (world : World) :
    plan (planFuel d.tokens) .planTokens (newTokenStream d.tokens) =
        .ok (d.planned, ⟨d.tokens, ((d.tokens.length - 1 : Nat) : Int)⟩) ∧
      reorderStages d.planned = .ok d.reference ∧
      planStages world d.tokens = elideLiterals world d.reference :=
  ⟨Derivation.plan_planTokens hd, Derivation.reorderStages_planned hd,
    Derivation.planStages_tokens hd world⟩

/-- `1 - 2 - 3`, a chain of the additive level. -/
def differenceChain : Derivation :=
  .chain .additive (.literal ⟨.NUMERIC, .float 1⟩)
    (.cons "-" (.literal ⟨.NUMERIC, .float 2⟩) (.last "-" (.literal ⟨.NUMERIC, .float 3⟩)))

theorem planStages_reference_difference :
    differenceChain.Supported ∧
      plan (planFuel differenceChain.tokens) .planTokens (newTokenStream differenceChain.tokens) =
          .ok (differenceChain.planned, ⟨differenceChain.tokens, 4⟩) ∧
        reorderStages differenceChain.planned = .ok differenceChain.reference ∧
        planStages nullWorld differenceChain.tokens =
          elideLiterals nullWorld differenceChain.reference :=
  ⟨rfl, planStages_reference (d := differenceChain) rfl nullWorld⟩

/-- The reference tree of `1 - 2 - 3` is `(1 - 2) - 3`. -/
example : differenceChain.reference =
    .node (Level.additive.operatorInfo "-")
      (.node (Level.additive.operatorInfo "-") (.node (literalStage ⟨.NUMERIC, .float 1⟩) .nil .nil)
        (.node (literalStage ⟨.NUMERIC, .float 2⟩) .nil .nil))
      (.node (literalStage ⟨.NUMERIC, .float 3⟩) .nil .nil) := rfl

/-! ## What the reorder keeps and what it changes -/

/-- `reorderStages` only re-associates: the tree it returns has the stages of its input in the
same in-order sequence, and the shape of a reordered tree when the input has the planner's.
What it changes is the association of the chains: on the plan of a supported derivation,
whose chains the planner nests to the right, it returns the derivation's reference tree, whose
chains are nested to the left. -/
theorem reorderStages_reassociates {t t' : Stage} (h : reorderStages t = .ok t') :
    t'.inorder = t.inorder ∧ (t.Planned → t'.Reordered) ∧
      ∀ d : Derivation, d.Supported → t = d.planned → t' = d.reference := by
  obtain ⟨-, rfl⟩ := reorderStages_eq h
  refine ⟨reorderSubtree_inorder _, reorderSubtree_reordered, fun d hd ht => ?_⟩
  rw [ht, reorderSubtree_planned hd]

/-- `1 - 2 - 3`: the planner's `1 - (2 - 3)` becomes `(1 - 2) - 3`, with the stages in the same
order. -/
theorem reorderStages_reassociates_difference :
    reorderStages differenceChain.planned = .ok differenceChain.reference ∧
      differenceChain.reference.inorder = differenceChain.planned.inorder ∧
      (differenceChain.planned.Planned → differenceChain.reference.Reordered) ∧
      ∀ d : Derivation, d.Supported → differenceChain.planned = d.planned →
        differenceChain.reference = d.reference :=
  have h : reorderStages differenceChain.planned = .ok differenceChain.reference := rfl
  ⟨h, reorderStages_reassociates h⟩

end Geval
