import Geval.Evaluate.Precompile

/-!
# The external calls of an evaluation

Every stage makes at most one external call, after those of its operands: a variable stage
looks its name up, an accessor stage walks its path, a function stage calls its function
(`StageOperator.call?`). Reading a derivation left to right therefore makes its calls in the
order of `Derivation.staticCalls`, the calls of its stages in evaluation order: operands left
to right, each function after its arguments. Short-circuits, skipped branches and faults only
leave calls out (`Derivation.calls_sublist`): no call is made that the text does not name, none
is made more often than the text names it, and none is made out of order. By
`Derivation.compile_render` the same holds of what the text compiles to
(`TEvaluate_calls_sublist`).

Only the short-circuit levels (`?`, `:`, `??`, `||`, `&&`) leave calls out of a reading that
gives a value. On an eager derivation, one with no such operator, every step reads both of its
operands, so a reading makes the derivation's calls in order, stopping only at a fault
(`Evaluation.MakesCalls`, `Derivation.makesCalls`), and so does what its text compiles to
(`TEvaluate_makesCalls`).
-/

namespace Geval

mutual

/-- The external calls of a derivation's stages, in evaluation order. -/
def Derivation.staticCalls : Derivation → List Call
  | .chain _ first rest => first.staticCalls ++ rest.staticCalls
  | .unary _ operand => operand.staticCalls
  | .call f args => args.staticCalls ++ [.call f]
  | .field path => [.access path]
  | .method path args => args.staticCalls ++ [.access path]
  | .group args => args.staticCalls
  | .literal _ => []
  | .parameter name => [.lookup name]

def Chain.staticCalls : Chain → List Call
  | .last _ operand => operand.staticCalls
  | .cons _ operand rest => operand.staticCalls ++ rest.staticCalls

def Args.staticCalls : Args → List Call
  | .empty => []
  | .contents d => d.staticCalls

end

section Steps

variable {checksTypes : Bool} {world : World} {parameters : Parameters}

theorem finishStage_calls_sublist (info : StageInfo) (left right : Value) (calls : List Call) :
    List.Sublist (finishStage checksTypes world parameters info left right calls).2
      (calls ++ info.operator.call?.toList) := by
  unfold finishStage
  split
  · exact List.sublist_append_left _ _
  · exact List.Sublist.refl _

/-- A step makes the calls of its operands, in order, then possibly its own, and no other. -/
theorem evaluateNode_calls_sublist (info : StageInfo) (left right : Evaluation) :
    List.Sublist (evaluateNode checksTypes world parameters info left right).2
      (left.2 ++ right.2 ++ info.operator.call?.toList) := by
  unfold evaluateNode
  split
  · exact (List.sublist_append_left _ _).trans (List.sublist_append_left _ _)
  · split
    · exact (List.sublist_append_left _ _).trans (List.sublist_append_left _ _)
    · exact (finishStage_calls_sublist _ _ _ _).trans
        ((List.sublist_append_left _ _).append_right _)
    · split
      · exact List.sublist_append_left _ _
      · exact finishStage_calls_sublist _ _ _ _

/-- An operator stage makes no call of its own. -/
@[simp] theorem binaryInfo_call? (symbol : OperatorSymbol) (format : TypeErrorFormat) :
    (binaryInfo symbol format).operator.call? = none := rfl

theorem literalStage_call? (token : ExpressionToken) : (literalStage token).operator.call? = none := by
  unfold literalStage
  split <;> rfl

mutual

/-- The calls a derivation's reading makes are a sublist of its calls in evaluation order. -/
theorem Derivation.calls_sublist : ∀ d : Derivation,
    List.Sublist (d.eval checksTypes world parameters).2 d.staticCalls
  | .chain L first rest => by
    rw [Derivation.eval, Derivation.staticCalls]
    exact (Chain.calls_sublist L rest _).trans
      ((Derivation.calls_sublist first).append_right _)
  | .unary _ operand => by
    rw [Derivation.eval, Derivation.staticCalls]
    refine (evaluateNode_calls_sublist _ _ _).trans ?_
    simpa [prefixInfo] using Derivation.calls_sublist operand
  | .call _ args => by
    rw [Derivation.eval, Derivation.staticCalls]
    exact (evaluateNode_calls_sublist _ _ _).trans ((Args.calls_sublist args).append_right _)
  | .field _ => evaluateNode_calls_sublist _ _ _
  | .method _ args => by
    rw [Derivation.eval, Derivation.staticCalls]
    exact (evaluateNode_calls_sublist _ _ _).trans ((Args.calls_sublist args).append_right _)
  | .group args => Args.calls_sublist args
  | .literal token => by
    rw [Derivation.eval, Derivation.staticCalls]
    refine (evaluateNode_calls_sublist _ _ _).trans ?_
    rw [literalStage_call?]
    exact List.Sublist.refl _
  | .parameter _ => evaluateNode_calls_sublist _ _ _

/-- The calls of a chain folded from `acc` are a sublist of the calls of `acc`, then of the
chain's operands in evaluation order. -/
theorem Chain.calls_sublist (L : Level) : ∀ (c : Chain) (acc : Evaluation),
    List.Sublist (c.eval checksTypes world parameters L acc).2 (acc.2 ++ c.staticCalls)
  | .last _ operand, acc => by
    rw [Chain.eval, Chain.staticCalls]
    refine (evaluateNode_calls_sublist _ _ _).trans ?_
    simpa [Level.operatorInfo] using (Derivation.calls_sublist operand).append_left acc.2
  | .cons _ operand rest, acc => by
    rw [Chain.eval, Chain.staticCalls, ← List.append_assoc]
    refine (Chain.calls_sublist L rest _).trans (List.Sublist.append_right ?_ _)
    refine (evaluateNode_calls_sublist _ _ _).trans ?_
    simpa [Level.operatorInfo] using (Derivation.calls_sublist operand).append_left acc.2

theorem Args.calls_sublist : ∀ a : Args,
    List.Sublist (a.eval checksTypes world parameters).2 a.staticCalls
  | .empty => evaluateNode_calls_sublist _ _ _
  | .contents d => by
    rw [Args.eval, Args.staticCalls]
    refine (evaluateNode_calls_sublist _ _ _).trans ?_
    simpa [noopInfo, StageOperator.call?] using Derivation.calls_sublist d

end

end Steps

/-- Whatever the text of a supported, `RegexSafe` derivation compiles to makes, on every
parameter map, nil included, only the external calls the derivation names, in its evaluation
order, and each no more often than the derivation names it: its calls are a sublist of
`Derivation.staticCalls`. -/
theorem TEvaluate_calls_sublist {tables : LexerTables}
    {functions : String → Option ExpressionFunction} {d : Derivation} {texts : List (List Char)}
    (world : World) (hd : d.Supported) (hspelled : Spelled tables functions startState d.tokens texts)
    (haccepted : checkExpressionSyntax d.tokens = .ok ()) (hregex : d.RegexSafe world.regexp) :
    ∃ e, tNewEvaluableExpressionWithFunctions tables world (String.mk (render texts)) functions =
        .ok e ∧
      ∀ parameters : Option (String → Option Value),
        List.Sublist (e.TEvaluate world parameters).2 d.staticCalls := by
  obtain ⟨e, he, heval⟩ := Derivation.compile_render world hd hspelled haccepted hregex
  exact ⟨e, he, fun parameters =>
    (e.TEvaluate_eq_evaluateChild world parameters).trans (heval _) ▸ Derivation.calls_sublist d⟩

theorem TEvaluate_calls_sublist_difference :
    ∃ e, tNewEvaluableExpressionWithFunctions asciiTables nullWorld
        (String.mk (render ["x".toList, "-".toList, "y".toList])) (fun _ => none) = .ok e ∧
      ∀ parameters : Option (String → Option Value),
        List.Sublist (e.TEvaluate nullWorld parameters).2 [.lookup "x", .lookup "y"] :=
  have hspelled : Spelled asciiTables (fun _ => none) startState xMinusY.tokens
      ["x".toList, "-".toList, "y".toList] :=
    .cons (.identifier rfl rfl (by decide) (.parameter (by decide) rfl (by decide))) rfl
      (.cons (.operator (by decide) (by decide) rfl (by decide)) rfl
        (.cons (.identifier rfl rfl (by decide) (.parameter (by decide) rfl (by decide))) rfl
          (.nil _)))
  TEvaluate_calls_sublist (d := xMinusY) nullWorld rfl hspelled rfl rfl

/-! ## Without short-circuits every call is made -/

/-- The levels whose operators may decide before their right operand: `?`, `:` and `??`, `||`,
`&&`. -/
def Level.isShortCircuit : Level → Bool
  | .ternary | .logicalOr | .logicalAnd => true
  | _ => false

mutual

/-- A derivation with no chain at a short-circuit level: each of its steps reads both of its
operands. -/
def Derivation.Eager : Derivation → Bool
  | .chain L first rest => !L.isShortCircuit && first.Eager && rest.Eager
  | .unary _ operand => operand.Eager
  | .call _ args => args.Eager
  | .field _ => true
  | .method _ args => args.Eager
  | .group args => args.Eager
  | .literal _ => true
  | .parameter _ => true

def Chain.Eager : Chain → Bool
  | .last _ operand => operand.Eager
  | .cons _ operand rest => operand.Eager && rest.Eager

def Args.Eager : Args → Bool
  | .empty => true
  | .contents d => d.Eager

end

/-- A reading makes the calls `expected` in order, stopping early only at a fault: its calls
are a prefix of `expected`, and all of `expected` when it gives a value. -/
def Evaluation.MakesCalls (reading : Evaluation) (expected : List Call) : Prop :=
  List.IsPrefix reading.2 expected ∧ ∀ v, reading.1 = .ok v → reading.2 = expected

theorem Level.isShortCircuitable_symbol {L : Level} (hL : L.isShortCircuit = false)
    (lexeme : String) : isShortCircuitable (L.operatorInfo lexeme).symbol = false := by
  cases L <;> (try cases hL) <;>
  · simp only [Level.operatorInfo, Level.planner, binaryInfo, separatorPlanner,
      comparatorPlanner, bitwisePlanner, shiftPlanner, additivePlanner, multiplicativePlanner,
      exponentialPlanner, separatorSymbols, comparatorSymbols, bitwiseSymbols,
      bitwiseShiftSymbols, additiveSymbols, multiplicativeSymbols, exponentialSymbolsS]
    split <;> rfl

theorem isShortCircuitable_prefixInfo (lexeme : String) :
    isShortCircuitable (prefixInfo lexeme).symbol = false := by
  simp only [prefixInfo, binaryInfo, prefixSymbols]
  split <;> rfl

theorem isShortCircuitable_literalStage (token : ExpressionToken) :
    isShortCircuitable (literalStage token).symbol = false := by
  unfold literalStage
  split <;> rfl

section Eager

variable {checksTypes : Bool} {world : World} {parameters : Parameters}

theorem nilReading_makesCalls : Evaluation.MakesCalls (.ok .null, []) [] :=
  ⟨List.prefix_refl _, fun _ _ => rfl⟩

theorem finishStage_makesCalls (info : StageInfo) (left right : Value) (calls : List Call) :
    (finishStage checksTypes world parameters info left right calls).MakesCalls
      (calls ++ info.operator.call?.toList) := by
  unfold finishStage
  split
  · exact ⟨List.prefix_append _ _, fun _ h => by cases h⟩
  · exact ⟨List.prefix_refl _, fun _ _ => rfl⟩

/-- A step whose symbol never decides early makes the calls of its left operand, then of its
right, then its own, stopping only at a fault. -/
theorem evaluateNode_makesCalls {info : StageInfo} (hinfo : isShortCircuitable info.symbol = false)
    {left right : Evaluation} {leftCalls rightCalls : List Call}
    (hl : left.MakesCalls leftCalls) (hr : right.MakesCalls rightCalls) :
    (evaluateNode checksTypes world parameters info left right).MakesCalls
      (leftCalls ++ rightCalls ++ info.operator.call?.toList) := by
  obtain ⟨_ | l, lc⟩ := left
  · exact ⟨hl.1.trans ((List.prefix_append _ _).trans (List.prefix_append _ _)),
      fun _ h => by cases h⟩
  obtain rfl := hl.2 l rfl
  have hproceed : shortCircuit info.symbol l = .proceed := by
    simp only [shortCircuit, hinfo, Bool.not_false, if_true]
  dsimp only [evaluateNode]
  rw [hproceed]
  obtain ⟨_ | r, rc⟩ := right
  · exact ⟨((List.prefix_append_right_inj lc).mpr hr.1).trans (List.prefix_append _ _),
      fun _ h => by cases h⟩
  obtain rfl := hr.2 r rfl
  exact finishStage_makesCalls info l r _

theorem Evaluation.MakesCalls.congr_right {reading : Evaluation} {a b : List Call}
    (h : reading.MakesCalls a) (hab : a = b) : reading.MakesCalls b :=
  hab ▸ h

mutual

/-- The reading of an eager derivation makes its calls in evaluation order, stopping only at a
fault. -/
theorem Derivation.makesCalls : ∀ {d : Derivation}, d.Eager →
    (d.eval checksTypes world parameters).MakesCalls d.staticCalls
  | .chain _ _ _, hd => by
    simp only [Derivation.Eager, Bool.and_eq_true, Bool.not_eq_true'] at hd
    exact Chain.makesCalls hd.1.1 hd.2 (Derivation.makesCalls hd.1.2)
  | .unary lexeme operand, hd => by
    rw [Derivation.eval, Derivation.staticCalls]
    exact (evaluateNode_makesCalls (isShortCircuitable_prefixInfo lexeme) nilReading_makesCalls
      (Derivation.makesCalls (d := operand) hd)).congr_right (by simp [prefixInfo])
  | .call _ args, hd =>
    evaluateNode_makesCalls (by rfl) nilReading_makesCalls (Args.makesCalls (a := args) hd)
  | .field _, _ => evaluateNode_makesCalls (by rfl) nilReading_makesCalls nilReading_makesCalls
  | .method _ args, hd =>
    evaluateNode_makesCalls (by rfl) nilReading_makesCalls (Args.makesCalls (a := args) hd)
  | .group args, hd => Args.makesCalls (a := args) hd
  | .literal token, _ => by
    rw [Derivation.eval, Derivation.staticCalls]
    exact (evaluateNode_makesCalls (isShortCircuitable_literalStage token) nilReading_makesCalls
      nilReading_makesCalls).congr_right (by rw [literalStage_call?]; rfl)
  | .parameter _, _ => evaluateNode_makesCalls (by rfl) nilReading_makesCalls nilReading_makesCalls

/-- An eager chain folded from a reading that makes `pre` makes `pre`, then the calls of the
chain's operands. -/
theorem Chain.makesCalls {L : Level} (hL : L.isShortCircuit = false) :
    ∀ {c : Chain} {acc : Evaluation} {pre : List Call}, c.Eager → acc.MakesCalls pre →
      (c.eval checksTypes world parameters L acc).MakesCalls (pre ++ c.staticCalls)
  | .last lexeme operand, _, _, hc, hacc => by
    rw [Chain.eval, Chain.staticCalls]
    exact (evaluateNode_makesCalls (L.isShortCircuitable_symbol hL lexeme) hacc
      (Derivation.makesCalls (d := operand) hc)).congr_right (by simp [Level.operatorInfo])
  | .cons lexeme _ _, _, _, hc, hacc => by
    simp only [Chain.Eager, Bool.and_eq_true] at hc
    rw [Chain.eval, Chain.staticCalls, ← List.append_assoc]
    exact Chain.makesCalls hL hc.2 ((evaluateNode_makesCalls (L.isShortCircuitable_symbol hL lexeme)
      hacc (Derivation.makesCalls hc.1)).congr_right (by simp [Level.operatorInfo]))

theorem Args.makesCalls : ∀ {a : Args}, a.Eager →
    (a.eval checksTypes world parameters).MakesCalls a.staticCalls
  | .empty, _ => evaluateNode_makesCalls (by rfl) nilReading_makesCalls nilReading_makesCalls
  | .contents d, hd => by
    rw [Args.eval, Args.staticCalls]
    exact (evaluateNode_makesCalls (by rfl) nilReading_makesCalls
      (Derivation.makesCalls (d := d) hd)).congr_right (by simp [noopInfo, StageOperator.call?])

end

end Eager

/-- Whatever the text of a supported, eager, `RegexSafe` derivation compiles to makes, on every
parameter map, nil included, the derivation's calls in evaluation order, stopping only at a
fault: with no `?`, `:`, `??`, `||` or `&&`, a value is read only after every call the text
names. -/
theorem TEvaluate_makesCalls {tables : LexerTables}
    {functions : String → Option ExpressionFunction} {d : Derivation} {texts : List (List Char)}
    (world : World) (hd : d.Supported) (heager : d.Eager)
    (hspelled : Spelled tables functions startState d.tokens texts)
    (haccepted : checkExpressionSyntax d.tokens = .ok ()) (hregex : d.RegexSafe world.regexp) :
    ∃ e, tNewEvaluableExpressionWithFunctions tables world (String.mk (render texts)) functions =
        .ok e ∧
      ∀ parameters : Option (String → Option Value),
        (e.TEvaluate world parameters).MakesCalls d.staticCalls := by
  obtain ⟨e, he, heval⟩ := Derivation.compile_render world hd hspelled haccepted hregex
  exact ⟨e, he, fun parameters =>
    (e.TEvaluate_eq_evaluateChild world parameters).trans (heval _) ▸ Derivation.makesCalls heager⟩

theorem TEvaluate_makesCalls_difference :
    ∃ e, tNewEvaluableExpressionWithFunctions asciiTables nullWorld
        (String.mk (render ["x".toList, "-".toList, "y".toList])) (fun _ => none) = .ok e ∧
      ∀ parameters : Option (String → Option Value),
        (e.TEvaluate nullWorld parameters).MakesCalls [.lookup "x", .lookup "y"] :=
  have hspelled : Spelled asciiTables (fun _ => none) startState xMinusY.tokens
      ["x".toList, "-".toList, "y".toList] :=
    .cons (.identifier rfl rfl (by decide) (.parameter (by decide) rfl (by decide))) rfl
      (.cons (.operator (by decide) (by decide) rfl (by decide)) rfl
        (.cons (.identifier rfl rfl (by decide) (.parameter (by decide) rfl (by decide))) rfl
          (.nil _)))
  TEvaluate_makesCalls (d := xMinusY) nullWorld rfl rfl hspelled rfl rfl

end Geval
