import Geval.Reorder.Mirror

/-!
# Runs of equal precedence become left-nested

The planner parses every level right-recursively: `a - b - c` comes out as the right-nested
chain `a - (b - c)` (`rightNested`). `reorderStages` walks the right spine, collects each
run of stages of one precedence, and mirrors it with `mirrorStageSubtree`.

* `mirrorRun_eq_leftNested`: a mirrored run of two or more stages is the left-nested chain
  `sₖ(…s₂(s₁(x₁, x₂), x₃)…, t)` (`leftNested`), read off the heap computed by
  `mirrorStageSubtree_apply`.
* `reorderSpine_rightNested`: the walk appends a run of one precedence to the current run,
  each operand reordered by a call of its own (`reorderSubtree`).
* `reorderStages_rightNested_run`: `reorderStages` turns a right-nested chain of `k ≥ 2`
  stages of one precedence, whose tail has another precedence, into the left-nested chain
  of the same stages, operands and tail, each reordered; the in-order sequence of stages
  and operands is unchanged.
-/

namespace Geval

/-! ## The left-nested chain -/

/-- The left-nested chain of a run given from its last stage: `(sₖ, xₖ) :: …` with tail `t`
is `sₖ(⟨the chain of the rest, ending in xₖ⟩, t)`. -/
def leftNestedRev : List (StageInfo × Stage) → Stage → Stage
  | [], tail => tail
  | (info, left) :: run, tail => .node info (leftNestedRev run left) tail

/-- The left-nested chain `sₖ(…s₂(s₁(x₁, x₂), x₃)…, t)` of a run `[(s₁, x₁), …, (sₖ, xₖ)]`:
the stages evaluated from the first. -/
def leftNested (run : List (StageInfo × Stage)) (tail : Stage) : Stage :=
  leftNestedRev run.reverse tail

/-- The stages of a tree in order: left subtree, stage, right subtree. -/
def Stage.inorder : Stage → List StageInfo
  | .nil => []
  | .node info left right => left.inorder ++ info :: right.inorder

/-- The in-order sequence of a chain: each operand before its stage, then the tail. -/
def chainOrder (run : List (StageInfo × Stage)) (tail : Stage) : List StageInfo :=
  run.flatMap (fun e => e.2.inorder ++ [e.1]) ++ tail.inorder

theorem inorder_rightNested (run : List (StageInfo × Stage)) (tail : Stage) :
    (rightNested run tail).inorder = chainOrder run tail := by
  induction run with
  | nil => simp [rightNested, chainOrder]
  | cons e run ih => simp [rightNested, Stage.inorder, ih, chainOrder]

theorem inorder_leftNestedRev (rev : List (StageInfo × Stage)) (tail : Stage) :
    (leftNestedRev rev tail).inorder = chainOrder rev.reverse tail := by
  induction rev generalizing tail with
  | nil => simp [leftNestedRev, chainOrder]
  | cons e rev ih => simp [leftNestedRev, Stage.inorder, ih, chainOrder]

theorem inorder_leftNested (run : List (StageInfo × Stage)) (tail : Stage) :
    (leftNested run tail).inorder = (rightNested run tail).inorder := by
  simp [leftNested, inorder_leftNestedRev, inorder_rightNested]

/-! ## Reading the mirrored run back -/

section ReadBack

variable (run : List (StageInfo × Stage)) (tail : Stage)

/-- The heap `mirrorRun` reads: the run's cells after `mirrorStageSubtree`. -/
def mirroredRunHeap : Heap := mirrorStageSubtree (List.range run.length) (runHeap run tail)

variable {run tail}

theorem getD_range {k j : Nat} (hj : j < k) : (List.range k)[j]?.getD 0 = j := by
  simp [List.getElem?_range hj]

/-- The operand at position `j` is read back from its address. -/
theorem readStage_operand {h : Heap} {fuel j : Nat} (hj : j < run.length) :
    readStage run tail h (fuel + 1) (pointerTo run[j].2 (run.length + j)) = run[j].2 := by
  cases hx : run[j].2 with
  | nil => rfl
  | node =>
    simp only [pointerTo, readStage, Nat.lt_irrefl, if_false, Nat.not_lt.mpr (Nat.le_add_right _ _)]
    rw [if_pos (by omega), Nat.add_sub_cancel_left, List.getElem?_eq_getElem hj]
    simp [hx]

/-- The tail is read back from its address. -/
theorem readStage_tail {h : Heap} {fuel : Nat} :
    readStage run tail h (fuel + 1) (pointerTo tail (2 * run.length)) = tail := by
  cases tail with
  | nil => rfl
  | node => simp [pointerTo, readStage, show ¬2 * run.length < run.length by omega]

theorem runHeap_apply {j : Nat} (hj : j < run.length) :
    runHeap run tail j =
      { info := run[j].1,
        leftStage := pointerTo run[j].2 (run.length + j),
        rightStage := if j + 1 < run.length then some (j + 1)
          else pointerTo tail (2 * run.length) } := by
  simp [runHeap, List.getElem?_eq_getElem hj]

/-- The cell of the `i`-th stage after the mirror: the fields of stage `k - 1 - i`, the
next stage on the left (the first operand for the last stage), and on the right the
operand of stage `k - i` (the tail for the first stage). -/
theorem mirroredRunHeap_apply (hk : 2 ≤ run.length) {i : Nat} (hi : i < run.length) :
    mirroredRunHeap run tail i =
      { info := run[run.length - 1 - i].1,
        leftStage := if i = run.length - 1 then pointerTo run[0].2 (run.length + 0)
          else some (i + 1),
        rightStage := if h0 : i = 0 then pointerTo tail (2 * run.length)
          else pointerTo run[run.length - i].2 (run.length + (run.length - i)) } := by
  have h := mirrorStageSubtree_apply (List.nodup_range run.length) (by simpa using hk)
    (runHeap run tail) (by simpa using hi)
  rw [List.getD_eq_getElem?_getD, getD_range hi] at h
  simp only [mirroredRunHeap, h, mirroredCell, List.length_range, List.getD_eq_getElem?_getD,
    getD_range hi,
    getD_range (by omega : run.length - 1 - i < run.length), getD_range (by omega : 0 < run.length),
    getD_range (by omega : run.length - 1 < run.length), runHeap_apply hi,
    runHeap_apply (by omega : run.length - 1 - i < run.length),
    runHeap_apply (by omega : 0 < run.length), runHeap_apply (by omega : run.length - 1 < run.length)]
  by_cases h0 : i = 0
  · subst h0
    simp [show run.length - 1 ≠ 0 by omega, show ¬run.length - 1 + 1 < run.length by omega,
      show ¬0 = run.length - 1 by omega, show 1 < run.length by omega]
  · simp only [getD_range (by omega : run.length - i < run.length),
      runHeap_apply (by omega : run.length - i < run.length)]
    by_cases h1 : i = run.length - 1
    · simp [h0, h1, show run.length - 1 ≠ 0 by omega]
    · simp [h0, h1, show i + 1 < run.length by omega]

theorem reverse_drop_eq_cons {i : Nat} (hi : i < run.length) :
    run.reverse.drop i = run[run.length - 1 - i] :: run.reverse.drop (i + 1) := by
  rw [List.drop_eq_getElem_cons (by simpa using hi), List.getElem_reverse]

/-- Reading the mirrored run from its `i`-th stage gives the chain of the stages from
`k - 1 - i` down to the first, hanging off the right operand the `i`-th stage received. -/
theorem readStage_mirroredRunHeap (hk : 2 ≤ run.length) (d : Nat) :
    ∀ i, i + d = run.length - 1 →
      readStage run tail (mirroredRunHeap run tail) (d + 2) (some i) =
        leftNestedRev (run.reverse.drop i)
          (if h0 : i = 0 then tail else run[run.length - i].2) := by
  induction d with
  | zero =>
    intro i hid
    have hnil : run.reverse.drop (i + 1) = [] := List.drop_eq_nil_of_le (by simp; omega)
    simp only [reverse_drop_eq_cons (by omega : i < run.length), hnil, readStage, if_pos (by omega : i < run.length),
      mirroredRunHeap_apply hk (by omega : i < run.length), if_pos (show i = run.length - 1 by omega),
      dif_neg (show i ≠ 0 by omega), leftNestedRev, Stage.node.injEq, List.get_eq_getElem,
      readStage_operand (by omega : 0 < run.length),
      readStage_operand (by omega : run.length - i < run.length)]
    exact ⟨trivial, by congr 2; omega, trivial⟩
  | succ d ih =>
    intro i hid
    simp only [reverse_drop_eq_cons (by omega : i < run.length), readStage,
      if_pos (by omega : i < run.length),
      mirroredRunHeap_apply hk (by omega : i < run.length), show i ≠ run.length - 1 by omega,
      if_false, ih (i + 1) (by omega), leftNestedRev, Stage.node.injEq,
      dif_neg (show i + 1 ≠ 0 by omega), List.get_eq_getElem]
    refine ⟨trivial, by congr 3; omega, ?_⟩
    by_cases h0 : i = 0
    · simp [h0, readStage_tail]
    · simp [h0, readStage_operand (by omega : run.length - i < run.length)]

end ReadBack

/-- A mirrored run of two or more stages is the left-nested chain of its stages. -/
theorem mirrorRun_eq_leftNested {run : List (StageInfo × Stage)} (tail : Stage)
    (hk : 2 ≤ run.length) : mirrorRun run tail = leftNested run tail := by
  have h : readStage run tail (mirroredRunHeap run tail) _ _ = _ :=
    readStage_mirroredRunHeap hk (run.length - 1) 0 (by omega)
  rw [show run.length - 1 + 2 = run.length + 1 by omega] at h
  simpa [mirrorRun, leftNested, mirroredRunHeap] using h

/-! ## The walk over the right spine -/

/-- What `reorderStages` makes of a subtree: the walk of its own spine, from its root's
precedence. A nil subtree stays nil (the walk never calls itself on one). -/
def reorderSubtree : Stage → Stage
  | .nil => .nil
  | stage@(.node info _ _) => reorderSpine stage (findOperatorPrecedenceForSymbol info.symbol) []

theorem reorderStages_node (info : StageInfo) (left right : Stage) :
    reorderStages (.node info left right) = .ok (reorderSubtree (.node info left right)) := rfl

theorem reorderSpine_node (info : StageInfo) (left right : Stage) (p : OperatorPrecedence)
    (run : List (StageInfo × Stage)) :
    reorderSpine (.node info left right) p run =
      if findOperatorPrecedenceForSymbol info.symbol = p then
        reorderSpine right p (run ++ [(info, reorderSubtree left)])
      else closeRun run (reorderSpine right (findOperatorPrecedenceForSymbol info.symbol)
        [(info, reorderSubtree left)]) := by
  cases left <;> rfl

/-- A run of stages of the walk's precedence joins the current run, each operand reordered
on its own. -/
theorem reorderSpine_rightNested {p : OperatorPrecedence} (run acc : List (StageInfo × Stage))
    (tail : Stage) (hrun : ∀ e ∈ run, findOperatorPrecedenceForSymbol e.1.symbol = p) :
    reorderSpine (rightNested run tail) p acc =
      reorderSpine tail p (acc ++ run.map fun e => (e.1, reorderSubtree e.2)) := by
  induction run generalizing acc with
  | nil => simp [rightNested]
  | cons e run ih =>
    rw [rightNested, reorderSpine_node, if_pos (hrun e (List.mem_cons_self e run)),
      ih _ fun e' he' => hrun e' (List.mem_cons_of_mem e he')]
    simp

/-- The walk closes the current run at the end of the spine or at a stage of another
precedence, which starts a walk of its own. -/
theorem reorderSpine_other {p : OperatorPrecedence} (tail : Stage) (acc : List (StageInfo × Stage))
    (htail : ∀ info left right, tail = .node info left right →
      findOperatorPrecedenceForSymbol info.symbol ≠ p) :
    reorderSpine tail p acc = closeRun acc (reorderSubtree tail) := by
  cases tail with
  | nil => rfl
  | node info left right =>
    rw [reorderSpine_node, if_neg (htail info left right rfl), reorderSubtree, reorderSpine_node,
      if_pos rfl, List.nil_append]

/-- The end of a run keeps its in-order sequence, mirrored or not. -/
theorem closeRun_inorder (run : List (StageInfo × Stage)) (tail : Stage) :
    (closeRun run tail).inorder = chainOrder run tail := by
  unfold closeRun
  split
  · rw [mirrorRun_eq_leftNested _ (by omega), inorder_leftNested, inorder_rightNested]
  · exact inorder_rightNested run tail

/-- The walk keeps the in-order sequence: the run so far, then the rest of the spine. -/
theorem reorderSpine_inorder (t : Stage) :
    ∀ (p : OperatorPrecedence) (run : List (StageInfo × Stage)),
      (reorderSpine t p run).inorder = chainOrder run t := by
  induction t with
  | nil => intro p run; exact closeRun_inorder run .nil
  | node info left right ihl ihr =>
    intro p run
    have hleft : (reorderSubtree left).inorder = left.inorder := by
      cases left with
      | nil => rfl
      | node => simpa [chainOrder] using ihl _ []
    rw [reorderSpine_node]
    split
    · simp [ihr, chainOrder, hleft, Stage.inorder]
    · simp [closeRun_inorder, ihr, chainOrder, hleft, Stage.inorder]

/-- `reorderStages` only re-associates: every tree keeps its in-order sequence of stages. -/
theorem reorderSubtree_inorder (t : Stage) : (reorderSubtree t).inorder = t.inorder := by
  cases t with
  | nil => rfl
  | node => simp [reorderSubtree, reorderSpine_inorder, chainOrder]

/-- Reordering keeps a tree non-nil. -/
theorem reorderSubtree_ne_nil {t : Stage} (ht : t ≠ .nil) : reorderSubtree t ≠ .nil := fun h => by
  have hin := reorderSubtree_inorder t
  rw [h] at hin
  cases t with
  | nil => exact ht rfl
  | node => simp [Stage.inorder] at hin

/-- `reorderStages` turns a right-nested chain `s₁(x₁, s₂(x₂, … sₖ(xₖ, t)))` of `k ≥ 2`
stages of one precedence, whose tail `t` has another precedence or is nil, into the
left-nested chain `sₖ(…s₂(s₁(x₁', x₂'), x₃')…, t')` of the same stages, where each operand
and the tail are reordered on their own; the in-order sequence of stages and operands is
unchanged. -/
theorem reorderStages_rightNested_run (run : List (StageInfo × Stage)) (tail : Stage)
    (p : OperatorPrecedence) (hk : 2 ≤ run.length)
    (hrun : ∀ e ∈ run, findOperatorPrecedenceForSymbol e.1.symbol = p)
    (htail : ∀ info left right, tail = .node info left right →
      findOperatorPrecedenceForSymbol info.symbol ≠ p) :
    reorderStages (rightNested run tail) =
        .ok (leftNested (run.map fun e => (e.1, reorderSubtree e.2)) (reorderSubtree tail)) ∧
      (leftNested (run.map fun e => (e.1, reorderSubtree e.2)) (reorderSubtree tail)).inorder =
        (rightNested (run.map fun e => (e.1, reorderSubtree e.2)) (reorderSubtree tail)).inorder := by
  refine ⟨?_, inorder_leftNested _ _⟩
  obtain ⟨e, rest, rfl⟩ : ∃ e rest, run = e :: rest := by
    cases run with
    | nil => simp at hk
    | cons e rest => exact ⟨e, rest, rfl⟩
  have hroot : reorderStages (rightNested (e :: rest) tail) =
      .ok (reorderSpine (rightNested (e :: rest) tail) p []) := by
    rw [← hrun e (List.mem_cons_self e rest)]; rfl
  rw [hroot, reorderSpine_rightNested _ _ _ hrun,
    reorderSpine_other _ _ htail, List.nil_append, closeRun, if_pos (by simpa using hk),
    mirrorRun_eq_leftNested _ (by simpa using hk)]

/-- `10 - 3 - 2`: the planner's `10 - (3 - 2)` becomes `(10 - 3) - 2`. -/
theorem reorderStages_subtraction_chain :
    reorderStages (rightNested
        [(binaryInfo .MINUS .modifierErrorFormat, .node (literalInfo (.float 10)) .nil .nil),
          (binaryInfo .MINUS .modifierErrorFormat, .node (literalInfo (.float 3)) .nil .nil)]
        (.node (literalInfo (.float 2)) .nil .nil)) =
      .ok (.node (binaryInfo .MINUS .modifierErrorFormat)
        (.node (binaryInfo .MINUS .modifierErrorFormat) (.node (literalInfo (.float 10)) .nil .nil)
          (.node (literalInfo (.float 3)) .nil .nil))
        (.node (literalInfo (.float 2)) .nil .nil)) :=
  (reorderStages_rightNested_run _ _ .additivePrecedence (by decide) (by decide)
    (by rintro info left right ⟨⟩; decide)).1

end Geval
