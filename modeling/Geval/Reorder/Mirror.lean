import Mathlib.Data.List.Nodup
import Mathlib.Tactic.SplitIfs
import Geval.Core.Reorder

/-!
# `mirrorStageSubtree` on the heap

`mirrorStageSubtree` rewires a run of stages in place, in four steps: it swaps the children
of every stage, moves the first stage's left operand to the last stage, exchanges right
children between stages paired from both ends, and exchanges the other fields between
stages paired from both ends. Each step is computed cell by cell:

* `reverseChildren_apply`: the first loop swaps the children of each listed stage.
* `foldl_swapField`: the last two loops exchange one field between paired cells; after such
  a fold, a cell reads that field from the cell that the composed transpositions
  (`pairPerm`) send it to. `pairPerm_rights` and `pairPerm_infos` give those compositions in
  closed form for the two loops' pairings and bounds, `(k - 2) / 2 + 1` and `k / 2`.
* `mirrorStageSubtree_apply`: for a run of `k ≥ 2` distinct addresses, the `i`-th stage ends
  with the fields of stage `k - 1 - i` (`mirroredCell`); its left child is its old right
  child, except that the last stage takes the first stage's left operand; its right child
  is the left operand of stage `k - i`, except that the first stage takes the last stage's
  right child. `mirrorStageSubtree_of_not_mem`: no other cell changes.
-/

namespace Geval

namespace Heap

theorem setLeft_apply (h : Heap) (a : Nat) (p : Option Nat) (b : Nat) :
    h.setLeft a p b = if b = a then { h a with leftStage := p } else h b := by
  simp [setLeft, Function.update_apply]

theorem setRight_apply (h : Heap) (a : Nat) (p : Option Nat) (b : Nat) :
    h.setRight a p b = if b = a then { h a with rightStage := p } else h b := by
  simp [setRight, Function.update_apply]

theorem setInfo_apply (h : Heap) (a : Nat) (info : StageInfo) (b : Nat) :
    h.setInfo a info b = if b = a then { h a with info } else h b := by
  simp [setInfo, Function.update_apply]

end Heap

/-! ## The first loop -/

/-- A cell with its two children swapped. -/
def StageCell.flip (c : StageCell) : StageCell :=
  { c with leftStage := c.rightStage, rightStage := c.leftStage }

theorem reverseChildren_apply {stages : List Nat} (hnd : stages.Nodup) (h : Heap) (a : Nat) :
    reverseChildren stages h a = if a ∈ stages then (h a).flip else h a := by
  induction stages generalizing h with
  | nil => simp [reverseChildren]
  | cons x xs ih =>
    obtain ⟨hx, hxs⟩ := List.nodup_cons.mp hnd
    simp only [reverseChildren, List.foldl_cons] at ih ⊢
    rw [ih hxs]
    by_cases hax : a = x
    · subst hax
      simp [hx, Heap.setLeft_apply, Heap.setRight_apply, StageCell.flip]
    · simp [hax, Heap.setLeft_apply, Heap.setRight_apply]

/-! ## Folds of exchanges -/

/-- `c` with `a` and `b` exchanged. -/
def transpose (a b c : Nat) : Nat := if c = a then b else if c = b then a else c

/-- Exchanging one field between the cells at `a` and `b`: `F x y` is the cell `x` with that
field taken from `y`. -/
def swapField (F : StageCell → StageCell → StageCell) (h : Heap) (a b : Nat) : Heap :=
  fun c => F (h c) (h (transpose a b c))

/-- The composition of the transpositions of the pairs `(P i, Q i)`, `i < n`, the first
pair applied last. -/
def pairPerm (P Q : Nat → Nat) : Nat → Nat → Nat
  | 0, c => c
  | n + 1, c => pairPerm P Q n (transpose (P n) (Q n) c)

section SwapField

variable {F : StageCell → StageCell → StageCell}

/-- A fold of exchanges reads each cell's field from the cell the transpositions send it to.
`F` replaces one field: replacing it twice keeps the second value, and a cell's own value
leaves it unchanged. -/
theorem foldl_swapField (hF : ∀ x y y' z, F (F x y) (F y' z) = F x z) (hself : ∀ x, F x x = x)
    (P Q : Nat → Nat) (n : Nat) (h : Heap) (c : Nat) :
    (List.range n).foldl (fun g i => swapField F g (P i) (Q i)) h c =
      F (h c) (h (pairPerm P Q n c)) := by
  induction n generalizing c with
  | zero => simp [pairPerm, hself]
  | succ n ih =>
    simp only [List.range_succ, List.foldl_append, List.foldl_cons, List.foldl_nil, swapField,
      ih, hF, pairPerm]

end SwapField

/-- The fold of the third loop: each cell reads its right child from one other cell. -/
theorem foldl_swapRights (P Q : Nat → Nat) (n : Nat) (h : Heap) (c : Nat) :
    (List.range n).foldl
        (fun g i => swapField (fun x y => { x with rightStage := y.rightStage }) g (P i) (Q i))
        h c = { h c with rightStage := (h (pairPerm P Q n c)).rightStage } :=
  foldl_swapField (fun _ _ _ _ => rfl) (fun _ => rfl) P Q n h c

/-- The fold of the last loop: each cell reads its other fields from one other cell. -/
theorem foldl_swapInfos (P Q : Nat → Nat) (n : Nat) (h : Heap) (c : Nat) :
    (List.range n).foldl (fun g i => swapField (fun x y => { x with info := y.info }) g (P i) (Q i))
        h c = { h c with info := (h (pairPerm P Q n c)).info } :=
  foldl_swapField (fun _ _ _ _ => rfl) (fun _ => rfl) P Q n h c

/-- The step of the third loop exchanges right children. -/
theorem swapRights_eq (h : Heap) (a b : Nat) :
    (h.setRight a (h b).rightStage).setRight b (h a).rightStage =
      swapField (fun x y => { x with rightStage := y.rightStage }) h a b := by
  funext c
  simp only [Heap.setRight_apply, swapField, transpose]
  by_cases hcb : c = b <;> by_cases hca : c = a <;> simp_all

/-- `swapWith` exchanges the other fields. -/
theorem swapWith_eq (h : Heap) (a b : Nat) :
    swapWith h a b = swapField (fun x y => { x with info := y.info }) h a b := by
  funext c
  simp only [swapWith, Heap.setInfo_apply, swapField, transpose]
  by_cases hcb : c = b <;> by_cases hca : c = a <;> simp_all

/-! ## The pairings of the two exchange loops -/

/-- The third loop pairs stage `i + 1` with stage `k - i - 1`: after `n` steps (`2n ≤ k`),
stage `j` reads from stage `k - j` when one of the first `n` pairs holds it. -/
theorem pairPerm_rights {k n : Nat} (hn : 2 * n ≤ k) {j : Nat} (hj : j < k) :
    pairPerm (· + 1) (k - · - 1) n j =
      if 1 ≤ j ∧ (j ≤ n ∨ k - n ≤ j) then k - j else j := by
  induction n generalizing j with
  | zero => simp only [pairPerm]; split_ifs <;> omega
  | succ n ih =>
    simp only [pairPerm, transpose]
    split_ifs <;> rw [ih (by omega) (by omega)] <;> split_ifs <;> omega

/-- The last loop pairs stage `i` with stage `k - i - 1`: after `n` steps (`2n ≤ k`), stage
`j` reads from stage `k - 1 - j` when one of the first `n` pairs holds it. -/
theorem pairPerm_infos {k n : Nat} (hn : 2 * n ≤ k) {j : Nat} (hj : j < k) :
    pairPerm (·) (k - · - 1) n j = if j < n ∨ k - n ≤ j then k - 1 - j else j := by
  induction n generalizing j with
  | zero => simp only [pairPerm]; split_ifs <;> omega
  | succ n ih =>
    simp only [pairPerm, transpose]
    split_ifs <;> rw [ih (by omega) (by omega)] <;> split_ifs <;> omega

/-! ## Stages at distinct addresses -/

/-- Off the run, the transpositions change nothing. -/
theorem pairPerm_of_not_mem {stages : List Nat} (P Q : Nat → Nat) (n : Nat) {a : Nat}
    (ha : a ∉ stages) (hPQ : ∀ i < n, P i < stages.length ∧ Q i < stages.length) :
    pairPerm (fun i => stages.getD (P i) 0) (fun i => stages.getD (Q i) 0) n a = a := by
  have hne : ∀ i, i < stages.length → a ≠ stages.getD i 0 := fun i hi h => ha (by
    rw [h, List.getD_eq_getElem?_getD, List.getElem?_eq_getElem hi, Option.getD_some]
    exact List.getElem_mem hi)
  induction n with
  | zero => rfl
  | succ n ih =>
    obtain ⟨hP, hQ⟩ := hPQ n (Nat.lt_succ_self n)
    simp only [pairPerm, transpose, hne _ hP, hne _ hQ, if_false]
    exact ih fun i hi => hPQ i (Nat.lt_succ_of_lt hi)

section Run

variable {stages : List Nat} (hnd : stages.Nodup)
include hnd

theorem getD_inj {i j : Nat} (hi : i < stages.length) (hj : j < stages.length) :
    stages.getD i 0 = stages.getD j 0 ↔ i = j := by
  simp only [List.getD_eq_getElem?_getD, List.getElem?_eq_getElem hi,
    List.getElem?_eq_getElem hj, Option.getD_some]
  exact hnd.getElem_inj_iff

/-- On the addresses of the run, the transpositions act on positions. -/
theorem pairPerm_getD (P Q : Nat → Nat) (n : Nat)
    (hPQ : ∀ i < n, P i < stages.length ∧ Q i < stages.length) {j : Nat}
    (hj : j < stages.length) :
    pairPerm (fun i => stages.getD (P i) 0) (fun i => stages.getD (Q i) 0) n
      (stages.getD j 0) = stages.getD (pairPerm P Q n j) 0 := by
  induction n generalizing j with
  | zero => rfl
  | succ n ih =>
    obtain ⟨hP, hQ⟩ := hPQ n (Nat.lt_succ_self n)
    have ih' := fun {j} hj => ih (fun i hi => hPQ i (Nat.lt_succ_of_lt hi)) (j := j) hj
    simp only [pairPerm, transpose, getD_inj hnd hj hP, getD_inj hnd hj hQ]
    split_ifs <;> exact ih' (by assumption)

/-- The cell the `i`-th stage of a run becomes. -/
def mirroredCell (stages : List Nat) (h : Heap) (i : Nat) : StageCell :=
  let k := stages.length
  let cell := fun j => h (stages.getD j 0)
  { info := (cell (k - 1 - i)).info,
    leftStage := if i = k - 1 then (cell 0).leftStage else (cell i).rightStage,
    rightStage := if i = 0 then (cell (k - 1)).rightStage else (cell (k - i)).leftStage }

theorem mirrorStageSubtree_apply (hk : 2 ≤ stages.length) (h : Heap) {i : Nat}
    (hi : i < stages.length) :
    mirrorStageSubtree stages h (stages.getD i 0) = mirroredCell stages h i := by
  have hmem : ∀ j < stages.length, stages.getD j 0 ∈ stages := fun j hj => by
    rw [List.getD_eq_getElem?_getD, List.getElem?_eq_getElem hj, Option.getD_some]
    exact List.getElem_mem hj
  simp only [mirrorStageSubtree, swapInverseRights, swapInverseInfos, swapRights_eq,
    swapWith_eq, mirroredCell]
  rw [foldl_swapInfos,
    pairPerm_getD hnd (·) (stages.length - · - 1) _ (fun _ _ => ⟨by dsimp only; omega, by dsimp only; omega⟩) hi,
    pairPerm_infos (by omega) hi]
  have hmid : (if i < stages.length / 2 ∨ stages.length - stages.length / 2 ≤ i then
      stages.length - 1 - i else i) = stages.length - 1 - i := by split_ifs <;> omega
  rw [hmid]
  simp only [foldl_swapRights]
  rw [pairPerm_getD hnd (· + 1) (stages.length - · - 1) _
    (fun _ _ => ⟨by dsimp only; omega, by dsimp only; omega⟩) hi, pairPerm_rights (by omega) hi]
  -- the run after the first loop and the move of the end operands
  set k := stages.length
  set H : Heap := ((reverseChildren stages h).setLeft (stages.getD (k - 1) 0)
    (reverseChildren stages h (stages.getD 0 0)).rightStage).setRight (stages.getD 0 0)
    (reverseChildren stages h (stages.getD (k - 1) 0)).leftStage with hH
  have hcell : ∀ j < k, H (stages.getD j 0) =
      ⟨(h (stages.getD j 0)).info,
        if j = k - 1 then (h (stages.getD 0 0)).leftStage else (h (stages.getD j 0)).rightStage,
        if j = 0 then (h (stages.getD (k - 1) 0)).rightStage
          else (h (stages.getD j 0)).leftStage⟩ := by
    intro j hj
    simp only [hH, Heap.setRight_apply, Heap.setLeft_apply, reverseChildren_apply hnd,
      hmem _ hj, hmem 0 (by omega), hmem (k - 1) (by omega), if_true,
      getD_inj hnd hj (by omega : 0 < k), getD_inj hnd hj (by omega : k - 1 < k),
      getD_inj hnd (by omega : 0 < k) (by omega : k - 1 < k)]
    have hk0 : 0 ≠ k - 1 := by omega
    by_cases h0 : j = 0
    · subst h0; simp [hk0, StageCell.flip]
    · by_cases h1 : j = k - 1
      · subst h1; simp [h0, StageCell.flip]
      · simp [h0, h1, StageCell.flip]
  -- the first stage reads its right child from itself, the others from stage `k - i`
  obtain ⟨r, hr, hrv⟩ : ∃ r, (if 1 ≤ i ∧ (i ≤ (k - 2) / 2 + 1 ∨ k - ((k - 2) / 2 + 1) ≤ i)
      then k - i else i) = r ∧ r = if i = 0 then 0 else k - i := ⟨_, rfl, by split_ifs <;> omega⟩
  rw [hr, hcell _ hi, hcell _ (by omega : k - 1 - i < k)]
  by_cases h0 : i = 0
  · subst h0
    rw [if_pos rfl] at hrv
    subst hrv
    rw [hcell 0 (by omega)]
    simp
  · rw [if_neg h0] at hrv
    subst hrv
    rw [hcell (k - i) (by omega)]
    simp [h0, show k - i ≠ 0 by omega]

theorem mirrorStageSubtree_of_not_mem (hk : 2 ≤ stages.length) (h : Heap) {a : Nat}
    (ha : a ∉ stages) : mirrorStageSubtree stages h a = h a := by
  have hne : ∀ j < stages.length, a ≠ stages.getD j 0 := fun j hj hj' => ha (by
    rw [hj', List.getD_eq_getElem?_getD, List.getElem?_eq_getElem hj, Option.getD_some]
    exact List.getElem_mem hj)
  simp only [mirrorStageSubtree, swapInverseRights, swapInverseInfos, swapRights_eq,
    swapWith_eq, foldl_swapInfos, foldl_swapRights]
  rw [pairPerm_of_not_mem _ _ _ ha fun _ _ => ⟨by omega, by omega⟩,
    pairPerm_of_not_mem _ _ _ ha fun _ _ => ⟨by omega, by omega⟩]
  simp only [Heap.setRight_apply, Heap.setLeft_apply, reverseChildren_apply hnd,
    if_neg (hne 0 (by omega)), if_neg (hne (stages.length - 1) (by omega)), if_neg ha]

/-- `mirrorStageSubtree` on a run of `k ≥ 2` distinct stages `M₀ … Mₖ₋₁`, each the right child
of the one before, with left children `xᵢ` and the last stage's right child `t`: the first
stage keeps `t` on its right, each stage but the last takes the next one as its left child,
the last takes `x₀`, stage `i ≥ 1` takes `xₖ₋ᵢ` on its right, the fields of stage `i` move to
stage `k - 1 - i`, and no other stage changes. -/
theorem mirrorStageSubtree_run (hk : 2 ≤ stages.length) {h : Heap} {x : Nat → Option Nat}
    {t : Option Nat}
    (hright : ∀ i, i + 1 < stages.length →
      (h (stages.getD i 0)).rightStage = some (stages.getD (i + 1) 0))
    (hleft : ∀ i < stages.length, (h (stages.getD i 0)).leftStage = x i)
    (htail : (h (stages.getD (stages.length - 1) 0)).rightStage = t) :
    (mirrorStageSubtree stages h (stages.getD 0 0)).rightStage = t ∧
      (∀ i, i + 1 < stages.length → (mirrorStageSubtree stages h (stages.getD i 0)).leftStage =
        some (stages.getD (i + 1) 0)) ∧
      (mirrorStageSubtree stages h (stages.getD (stages.length - 1) 0)).leftStage = x 0 ∧
      (∀ i, 1 ≤ i → i < stages.length →
        (mirrorStageSubtree stages h (stages.getD i 0)).rightStage = x (stages.length - i)) ∧
      (∀ i < stages.length,
        (mirrorStageSubtree stages h (stages.getD (stages.length - 1 - i) 0)).info =
          (h (stages.getD i 0)).info) ∧
      ∀ a ∉ stages, mirrorStageSubtree stages h a = h a := by
  have happly := fun i (hi : i < stages.length) => mirrorStageSubtree_apply hnd hk h hi
  refine ⟨?_, fun i hi => ?_, ?_, fun i hi0 hi => ?_, fun i hi => ?_,
    fun a ha => mirrorStageSubtree_of_not_mem hnd hk h ha⟩
  · rw [happly 0 (by omega)]
    simp only [mirroredCell, if_pos rfl]
    exact htail
  · rw [happly i (by omega)]
    simp only [mirroredCell, if_neg (show i ≠ stages.length - 1 by omega)]
    exact hright i hi
  · rw [happly _ (by omega)]
    simp only [mirroredCell, if_pos rfl]
    exact hleft 0 (by omega)
  · rw [happly i hi]
    simp only [mirroredCell, if_neg (show i ≠ 0 by omega)]
    exact hleft _ (by omega)
  · rw [happly _ (by omega)]
    simp only [mirroredCell, show stages.length - 1 - (stages.length - 1 - i) = i by omega]

end Run

/-- The run of `10 - 3 - 2 - 1` as the planner builds it, laid out at addresses `0`, `1`, `2`,
with its operands at `3`, `4`, `5` and its tail at `6`. -/
def subtractionRunHeap : Heap :=
  runHeap [(binaryInfo .MINUS .modifierErrorFormat, .node (literalInfo (.float 10)) .nil .nil),
      (binaryInfo .MINUS .modifierErrorFormat, .node (literalInfo (.float 3)) .nil .nil),
      (binaryInfo .MINUS .modifierErrorFormat, .node (literalInfo (.float 2)) .nil .nil)]
    (.node (literalInfo (.float 1)) .nil .nil)

theorem mirrorStageSubtree_run_subtraction :
    [0, 1, 2].Nodup ∧ 2 ≤ [0, 1, 2].length ∧
      (∀ i, i + 1 < [0, 1, 2].length →
        (subtractionRunHeap ([0, 1, 2].getD i 0)).rightStage = some ([0, 1, 2].getD (i + 1) 0)) ∧
      (∀ i < [0, 1, 2].length,
        (subtractionRunHeap ([0, 1, 2].getD i 0)).leftStage = some (3 + i)) ∧
      (subtractionRunHeap ([0, 1, 2].getD ([0, 1, 2].length - 1) 0)).rightStage = some 6 ∧
      (mirrorStageSubtree [0, 1, 2] subtractionRunHeap ([0, 1, 2].getD 0 0)).rightStage =
        some 6 :=
  have hnd : [0, 1, 2].Nodup := by decide
  have hright : ∀ i, i + 1 < [0, 1, 2].length →
      (subtractionRunHeap ([0, 1, 2].getD i 0)).rightStage = some ([0, 1, 2].getD (i + 1) 0) := by
    intro i hi
    rcases i with _ | _ | i
    · rfl
    · rfl
    · simp at hi; omega
  have hleft : ∀ i < [0, 1, 2].length,
      (subtractionRunHeap ([0, 1, 2].getD i 0)).leftStage = some (3 + i) := by decide
  ⟨hnd, by decide, hright, hleft, rfl,
    (mirrorStageSubtree_run hnd (by decide) hright hleft rfl).1⟩

end Geval
