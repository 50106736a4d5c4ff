import Mathlib.Logic.Function.Basic
import Geval.Core.Stage

/-!
# Reordering stages of equal precedence

`reorderStages` and `mirrorStageSubtree` of `lexerState.go`. The planner parses every level
right-recursively, so `a - b - c` comes out as `a - (b - c)`; `reorderStages` walks each
right spine, collects the runs of stages of equal precedence, and mirrors every run of two
or more stages in place.

`mirrorStageSubtree` rewires pointers, so it is modelled on a heap of stage cells
(`Heap`), statement by statement. `reorderStages` is modelled on stage trees: the tree is
unshared, so the in-place walk is a functional one, and each run is mirrored by laying it
out in a heap (`runHeap`), running `mirrorStageSubtree` on it, and reading the tree back
(`readStage`). The subtrees hanging off a run are never touched by the mirror, so the heap
holds only the run's own stages; its other cells stand for the roots of those subtrees.
-/

namespace Geval

/-! ## The heap and `mirrorStageSubtree` -/

/-- A stage behind a pointer: its fields, and its children as pointers (`none` is nil). -/
structure StageCell where
  info : StageInfo
  leftStage : Option Nat := none
  rightStage : Option Nat := none
  deriving Inhabited

/-- The stages reachable from the planner's tree, by address. -/
abbrev Heap := Nat → StageCell

namespace Heap

/-- `stage.leftStage = p`. -/
def setLeft (h : Heap) (a : Nat) (p : Option Nat) : Heap :=
  Function.update h a { h a with leftStage := p }

/-- `stage.rightStage = p`. -/
def setRight (h : Heap) (a : Nat) (p : Option Nat) : Heap :=
  Function.update h a { h a with rightStage := p }

/-- The non-child fields of the stage at `a` set to `info`. -/
def setInfo (h : Heap) (a : Nat) (info : StageInfo) : Heap :=
  Function.update h a { h a with info }

end Heap

/-- Go `evaluationStage.swapWith`.
Modelled from the spec: "Swap `symbol`, `operator`, `typeChecks`, `typeErrorFormat` between
each stage and its mirror partner (value-level swap, not child pointers)" (§4.4.1). -/
def swapWith (h : Heap) (a b : Nat) : Heap :=
  let infoA := (h a).info
  let infoB := (h b).info
  (h.setInfo a infoB).setInfo b infoA

/-- The first loop of `mirrorStageSubtree`: swap the children of every listed stage. -/
def reverseChildren (stages : List Nat) (h : Heap) : Heap :=
  stages.foldl (fun h a => (h.setRight a (h a).leftStage).setLeft a (h a).rightStage) h

/-- The third loop of `mirrorStageSubtree`: for `i < n`, swap the right children of stage
`i + 1` and of its inverse stage `k - i - 1`. -/
def swapInverseRights (stage : Nat → Nat) (k n : Nat) (h : Heap) : Heap :=
  (List.range n).foldl (fun h i =>
    let front := stage (i + 1)
    let inverse := stage (k - i - 1)
    let carry := (h front).rightStage
    (h.setRight front (h inverse).rightStage).setRight inverse carry) h

/-- The last loop of `mirrorStageSubtree`: for `i < n`, `swapWith` stage `i` and its inverse
stage `k - i - 1`. -/
def swapInverseInfos (stage : Nat → Nat) (k n : Nat) (h : Heap) : Heap :=
  (List.range n).foldl (fun h i => swapWith h (stage i) (stage (k - i - 1))) h

/-- Go `mirrorStageSubtree`, on the run `stages` (root first, each the right child of the
one before). `reorderStages` calls it with at least two stages. -/
def mirrorStageSubtree (stages : List Nat) (h : Heap) : Heap :=
  let k := stages.length
  let stage := fun i => stages.getD i 0
  -- reverse all right/left
  let h := reverseChildren stages h
  -- end left swaps with root right
  let rootStage := stage 0
  let frontStage := stage (k - 1)
  let carryStage := (h frontStage).leftStage
  let h := h.setLeft frontStage (h rootStage).rightStage
  let h := h.setRight rootStage carryStage
  -- for all non-root non-end stages, right is swapped with inverse stage right in list
  let h := swapInverseRights stage k ((k - 2) / 2 + 1) h
  -- swap all other information with inverse stages
  swapInverseInfos stage k (k / 2) h

/-! ## Runs of a right spine -/

/-- The right-nested chain `s₁(x₁, s₂(x₂, … sₖ(xₖ, tail)))` of a run: each entry is a
stage's fields and its left child. -/
def rightNested : List (StageInfo × Stage) → Stage → Stage
  | [], tail => tail
  | (info, left) :: run, tail => .node info left (rightNested run tail)

/-- The pointer to a subtree laid out at address `a` (nil stays nil). -/
def pointerTo : Stage → Nat → Option Nat
  | .nil, _ => none
  | .node .., a => some a

/-- A run laid out in a heap: stage `i` at address `i`, its left child at `k + i`, and
the tail at `2k`, where `k` is the length of the run. -/
def runHeap (run : List (StageInfo × Stage)) (tail : Stage) : Heap := fun a =>
  match run[a]? with
  | some (info, left) =>
    { info, leftStage := pointerTo left (run.length + a),
      rightStage := if a + 1 < run.length then some (a + 1)
        else pointerTo tail (2 * run.length) }
  | none => default

/-- The tree a heap laid out by `runHeap` holds at a pointer: cells below `k` are stages of
the run; the other addresses are the untouched subtrees. `fuel` bounds the depth. -/
def readStage (run : List (StageInfo × Stage)) (tail : Stage) (h : Heap) :
    Nat → Option Nat → Stage
  | _, none => .nil
  | 0, some _ => .nil
  | fuel + 1, some a =>
    if a < run.length then
      .node (h a).info (readStage run tail h fuel (h a).leftStage)
        (readStage run tail h fuel (h a).rightStage)
    else if a < 2 * run.length then ((run[a - run.length]?).map Prod.snd).getD .nil
    else tail

/-- A run of two or more stages and its tail, after `mirrorStageSubtree`. -/
def mirrorRun (run : List (StageInfo × Stage)) (tail : Stage) : Stage :=
  readStage run tail (mirrorStageSubtree (List.range run.length) (runHeap run tail))
    (run.length + 1) (some 0)

/-- The end of a run in `reorderStages`: mirrored when it has more than one stage. -/
def closeRun (run : List (StageInfo × Stage)) (tail : Stage) : Stage :=
  if 1 < run.length then mirrorRun run tail else rightNested run tail

/-! ## `reorderStages` -/

/-- The loop of `reorderStages` at a stage of the right spine: `precedence` is the
precedence of the current run and `run` its stages so far. The left child of each spine
stage is reordered first, by a call of its own. -/
def reorderSpine : Stage → OperatorPrecedence → List (StageInfo × Stage) → Stage
  | .nil, _, run => closeRun run .nil
  | .node info left right, precedence, run =>
    let left := match left with
      | .nil => .nil
      | .node leftInfo _ _ => reorderSpine left (findOperatorPrecedenceForSymbol leftInfo.symbol) []
    let currentPrecedence := findOperatorPrecedenceForSymbol info.symbol
    if currentPrecedence = precedence then reorderSpine right precedence (run ++ [(info, left)])
    else closeRun run (reorderSpine right currentPrecedence [(info, left)])

/-- Go `reorderStages`; reading the symbol of a nil root panics. -/
def reorderStages : Stage → Result Stage
  | .nil => .error .nilDereference
  | root@(.node info _ _) => .ok (reorderSpine root (findOperatorPrecedenceForSymbol info.symbol) [])

end Geval
