import Geval.Evaluate.Meaning

/-!
# What a chain computes

The left-to-right reading (`Derivation.eval`) folds a chain from its first operand, one
`evaluateNode` step per further operand; by `Derivation.render_means` it is what the compiled
text of the chain evaluates to. Over the operators below the fold has a closed form.

* `&&` and `||` (`Derivation.eval_logical`) and `??` (`Derivation.eval_coalesce`) short-circuit:
  the chain reads as its first operand that fails or whose value stops the operator (false for
  `&&`, true for `||`, anything but nil for `??`), with the calls of the operands up to it, and
  no operand after it is read; when none stops, as its last operand, with the calls of all
  (`firstDecisive`).
* `,` (`Derivation.eval_call_arguments`): a separator chain collects the values of its operands
  in one list, and a function called on it receives that list. The first operand's items are
  spread into it when that operand is itself a list, so `f((1, 2), 3)` calls `f` with three
  arguments.
* the arithmetic levels (`Derivation.eval_arithmetic`): a chain whose operands read floats
  reads as their left fold (`foldFloats`), each step the float `symbolOperator` returns on the
  two (`floatOperation`): Go's float arithmetic, `math.Mod` for `%`, and the amd64 integer
  conversions around the bitwise and shift operators.
* `in` (`Derivation.eval_membership`): membership in the list a separator chain collects,
  with the first operand's items spread into it as for a call.
-/

namespace Geval

/-- The operands of a chain after its first, left to right. -/
def Chain.operands : Chain → List Derivation
  | .last _ operand => [operand]
  | .cons _ operand rest => operand :: rest.operands

/-- The operator lexemes of a chain, left to right. -/
def Chain.lexemes : Chain → List String
  | .last lexeme _ => [lexeme]
  | .cons lexeme _ rest => lexeme :: rest.lexemes

theorem Chain.isSome_of_supported {L : Level} :
    ∀ {c : Chain}, c.Supported L → ∀ lexeme ∈ c.lexemes, (L.planner.validSymbols lexeme).isSome
  | .last _ _, hc, lexeme, hmem => by
    simp only [Chain.Supported, Bool.and_eq_true] at hc
    rw [List.mem_singleton.mp hmem]
    exact hc.1.1
  | .cons _ _ rest, hc, lexeme, hmem => by
    simp only [Chain.Supported, Bool.and_eq_true] at hc
    rcases List.mem_cons.mp hmem with rfl | hmem
    · exact hc.1.1.1
    · exact Chain.isSome_of_supported hc.2 lexeme hmem

/-- A step that does not short-circuit and makes no call of its own, over a right reading
whose values pass the stage's checks, runs the stage's operator after the calls of both
operands. -/
theorem evaluateNode_of_proceed {checksTypes : Bool} {world : World} {parameters : Parameters}
    (info : StageInfo) (l : Value) (hshort : shortCircuit info.symbol l = .proceed)
    (hcall : info.operator.call? = none) (calls : List Call) (reading : Evaluation)
    (hchecks : ∀ r, reading.1 = .ok r → checkStageTypes info l r = .ok ()) :
    evaluateNode checksTypes world parameters info (.ok l, calls) reading =
      (reading.1 >>= info.operator.run world parameters l, calls ++ reading.2) := by
  obtain ⟨_ | r, more⟩ := reading
  · simp only [evaluateNode, hshort]
    rfl
  · simp only [evaluateNode, hshort, finishStage, hchecks r rfl, ite_self, hcall,
      Option.toList_none, List.append_nil]
    rfl

/-! ## Reading up to the first decisive operand -/

/-- The readings of a chain's operands, the first one apart, left to right, up to the first
that fails or whose value `decides`: that reading, after the calls of the operands before it;
the last reading when none decides. The readings after the deciding one are not used. -/
def firstDecisive (decides : Value → Bool) (reading : Evaluation) : List Evaluation → Evaluation
  | [] => reading
  | next :: rest =>
    match reading with
    | (.error e, calls) => (.error e, calls)
    | (.ok v, calls) =>
      if decides v then (.ok v, calls)
      else ((firstDecisive decides next rest).1, calls ++ (firstDecisive decides next rest).2)

section FirstDecisive

variable {decides : Value → Bool}

theorem firstDecisive_error (e : Fault) (calls : List Call) :
    ∀ readings, firstDecisive decides (.error e, calls) readings = (.error e, calls)
  | [] | _ :: _ => rfl

theorem firstDecisive_decides {v : Value} (h : decides v) (calls : List Call) :
    ∀ readings, firstDecisive decides (.ok v, calls) readings = (.ok v, calls)
  | [] => rfl
  | _ :: _ => by rw [firstDecisive, if_pos h]

theorem firstDecisive_continues {v : Value} (h : decides v = false) (calls : List Call)
    (next : Evaluation) (rest : List Evaluation) :
    firstDecisive decides (.ok v, calls) (next :: rest) =
      ((firstDecisive decides next rest).1, calls ++ (firstDecisive decides next rest).2) := by
  rw [firstDecisive, if_neg (ne_true_of_eq_false h)]

/-- A reading after the calls of an operand that does not decide. -/
theorem firstDecisive_prepend (calls : List Call) (reading : Evaluation) :
    ∀ readings, firstDecisive decides (reading.1, calls ++ reading.2) readings =
      ((firstDecisive decides reading readings).1,
        calls ++ (firstDecisive decides reading readings).2)
  | [] => rfl
  | _ :: _ => by
    obtain ⟨_ | v, more⟩ := reading
    · rfl
    · cases h : decides v
      · simp only [firstDecisive_continues h, List.append_assoc]
      · simp only [firstDecisive_decides h]

end FirstDecisive

/-- Every value a reading yields is `allowed`. -/
def Evaluation.Yields (allowed : Value → Prop) (reading : Evaluation) : Prop :=
  ∀ v, reading.1 = .ok v → allowed v

section Chains

variable {checksTypes : Bool} {world : World} {parameters : Parameters} {L : Level}
  {info : StageInfo} {decides : Value → Bool} {allowed : Value → Prop}
  (hdecides : ∀ v calls right, decides v →
    evaluateNode checksTypes world parameters info (.ok v, calls) right = (.ok v, calls))
  (hcontinues : ∀ v calls (reading : Evaluation), allowed v → decides v = false →
    reading.Yields allowed →
    evaluateNode checksTypes world parameters info (.ok v, calls) reading =
      (reading.1, calls ++ reading.2))

include hdecides hcontinues

theorem evaluateNode_yields {acc reading : Evaluation} (hacc : acc.Yields allowed)
    (hreading : reading.Yields allowed) :
    (evaluateNode checksTypes world parameters info acc reading).Yields allowed := by
  obtain ⟨_ | v, calls⟩ := acc
  · intro _ h
    cases h
  · cases h : decides v
    · rw [hcontinues v calls reading (hacc v rfl) h hreading]
      exact hreading
    · rw [hdecides v calls reading h]
      exact hacc

/-- One step of a chain at the stage `info` from a reading that yields `allowed` values. -/
theorem evaluateNode_firstDecisive {acc reading : Evaluation} (hacc : acc.Yields allowed)
    (hreading : reading.Yields allowed) (readings : List Evaluation) :
    firstDecisive decides (evaluateNode checksTypes world parameters info acc reading) readings =
      firstDecisive decides acc (reading :: readings) := by
  obtain ⟨_ | v, calls⟩ := acc
  · exact (firstDecisive_error _ _ _).trans (firstDecisive_error _ _ _).symm
  · cases h : decides v
    · rw [hcontinues v calls reading (hacc v rfl) h hreading, firstDecisive_prepend,
        firstDecisive_continues h]
    · rw [hdecides v calls reading h, firstDecisive_decides h, firstDecisive_decides h]

/-- A chain whose every step is the stage `info` reads, from `acc`, up to the first decisive
reading. -/
theorem Chain.eval_firstDecisive :
    ∀ (c : Chain) {acc : Evaluation}, (∀ lexeme ∈ c.lexemes, L.operatorInfo lexeme = info) →
      acc.Yields allowed → (∀ d ∈ c.operands, (d.eval checksTypes world parameters).Yields allowed) →
      c.eval checksTypes world parameters L acc =
        firstDecisive decides acc (c.operands.map (·.eval checksTypes world parameters))
  | .last lexeme operand, _, hinfo, hacc, hoperands => by
    rw [Chain.eval, hinfo lexeme (List.mem_singleton_self _), Chain.operands, List.map_singleton,
      ← evaluateNode_firstDecisive hdecides hcontinues hacc
        (hoperands operand (List.mem_singleton_self _))]
    rfl
  | .cons lexeme operand rest, acc, hinfo, hacc, hoperands => by
    have hoperand := hoperands operand (List.mem_cons_self _ _)
    rw [Chain.eval, hinfo lexeme (List.mem_cons_self _ _), Chain.operands, List.map_cons,
      ← evaluateNode_firstDecisive hdecides hcontinues hacc hoperand]
    exact Chain.eval_firstDecisive rest (fun lexeme h => hinfo lexeme (List.mem_cons_of_mem _ h))
      (evaluateNode_yields hdecides hcontinues hacc hoperand)
      fun d h => hoperands d (List.mem_cons_of_mem operand h)

end Chains

/-! ## `&&` and `||` -/

/-- The level of the boolean operator that stops at `stop`: `&&` at false, `||` at true. -/
def logicalLevel : Bool → Level
  | false => .logicalAnd
  | true => .logicalOr

/-- The value `stop` of a boolean operator. -/
def Value.isBoolOf (stop : Bool) : Value → Bool
  | .bool b => b == stop
  | _ => false

/-- The operator of the level: `&&` or `||`. -/
def logicalSymbol : Bool → OperatorSymbol
  | false => .AND
  | true => .OR

theorem logicalLevel_operatorInfo {stop : Bool} {lexeme : String}
    (h : ((logicalLevel stop).planner.validSymbols lexeme).isSome) :
    (logicalLevel stop).operatorInfo lexeme = binaryInfo (logicalSymbol stop) .logicalErrorFormat := by
  cases stop <;>
  · simp only [logicalLevel, Level.planner, logicalAndPlanner, logicalOrPlanner, logicalAndSymbols,
      logicalOrSymbols] at h
    split at h
    · rfl
    · cases h

section Logical

variable {checksTypes : Bool} {world : World} {parameters : Parameters}

theorem evaluateNode_logical_stop (stop : Bool) {v : Value} (h : v.isBoolOf stop)
    (calls : List Call) (right : Evaluation) :
    evaluateNode checksTypes world parameters (binaryInfo (logicalSymbol stop) .logicalErrorFormat)
      (.ok v, calls) right = (.ok v, calls) := by
  cases v with
  | bool b =>
    obtain rfl : b = stop := by simpa [Value.isBoolOf] using h
    cases b <;> rfl
  | _ => cases h

theorem evaluateNode_logical_continue (stop : Bool) {v : Value} (hv : ∃ b, v = .bool b)
    (h : v.isBoolOf stop = false) (calls : List Call) (reading : Evaluation)
    (hreading : reading.Yields fun v => ∃ b, v = .bool b) :
    evaluateNode checksTypes world parameters (binaryInfo (logicalSymbol stop) .logicalErrorFormat)
      (.ok v, calls) reading = (reading.1, calls ++ reading.2) := by
  obtain ⟨b, rfl⟩ := hv
  obtain rfl : b = !stop := by cases b <;> cases stop <;> simp_all [Value.isBoolOf]
  rw [evaluateNode_of_proceed (binaryInfo (logicalSymbol stop) .logicalErrorFormat) _
    (by cases stop <;> rfl) rfl calls reading fun r hr => by
    obtain ⟨c, rfl⟩ := hreading r hr
    cases stop <;> cases c <;> rfl]
  obtain ⟨_ | r, more⟩ := reading
  · rfl
  · obtain ⟨c, rfl⟩ := hreading r rfl
    cases stop <;> cases c <;> rfl

end Logical

/-- A chain of `&&` (of `||`) whose operands read as booleans or fail reads as its first
operand that fails or reads false (true), after the calls of the operands before it, and no
operand after that one is read; when none does, as its last operand, after the calls of all. -/
theorem Derivation.eval_logical {checksTypes : Bool} {world : World} {parameters : Parameters}
    (stop : Bool) {first : Derivation} {c : Chain} (hc : c.Supported (logicalLevel stop))
    (hbool : ∀ d ∈ first :: c.operands, ∀ v, (d.eval checksTypes world parameters).1 = .ok v →
      ∃ b, v = .bool b) :
    (Derivation.chain (logicalLevel stop) first c).eval checksTypes world parameters =
      firstDecisive (Value.isBoolOf stop) (first.eval checksTypes world parameters)
        (c.operands.map (·.eval checksTypes world parameters)) :=
  Chain.eval_firstDecisive (fun _ calls right h => evaluateNode_logical_stop stop h calls right)
    (fun v calls reading (hv : ∃ b, v = .bool b) h hreading =>
      evaluateNode_logical_continue stop hv h calls reading hreading)
    c (fun lexeme h => logicalLevel_operatorInfo (Chain.isSome_of_supported hc lexeme h))
    (hbool first (List.mem_cons_self _ _)) (fun d h => hbool d (List.mem_cons_of_mem _ h))

/-- `true && false && x`: the chain stops at `false`, and `x` is never looked up. -/
theorem eval_logical_skips_lookup :
    (Derivation.chain .logicalAnd (.literal ⟨.BOOLEAN, .bool true⟩)
        (.cons "&&" (.literal ⟨.BOOLEAN, .bool false⟩) (.last "&&" (.parameter "x")))).eval
      true nullWorld (fun _ => .ok (.bool true)) = (.ok (.bool false), []) :=
  Derivation.eval_logical false
    (c := .cons "&&" (.literal ⟨.BOOLEAN, .bool false⟩) (.last "&&" (.parameter "x"))) rfl
    (by
      intro d hd v hv
      simp only [Chain.operands, List.mem_cons, List.mem_singleton, List.not_mem_nil,
        or_false] at hd
      rcases hd with rfl | rfl | rfl <;> cases hv <;> exact ⟨_, rfl⟩)

/-! ## `??` -/

section Coalesce

variable {checksTypes : Bool} {world : World} {parameters : Parameters}

theorem evaluateNode_coalesce_found {v : Value} (h : (!v.isNull) = true) (calls : List Call)
    (right : Evaluation) :
    evaluateNode checksTypes world parameters (binaryInfo .COALESCE .ternaryErrorFormat)
      (.ok v, calls) right = (.ok v, calls) := by
  cases v <;> first | rfl | cases h

theorem evaluateNode_coalesce_null (calls : List Call) (reading : Evaluation) :
    evaluateNode checksTypes world parameters (binaryInfo .COALESCE .ternaryErrorFormat)
      (.ok .null, calls) reading = (reading.1, calls ++ reading.2) := by
  rw [evaluateNode_of_proceed (binaryInfo .COALESCE .ternaryErrorFormat) .null rfl rfl calls
    reading fun _ _ => rfl]
  obtain ⟨_ | r, more⟩ := reading <;> rfl

end Coalesce

/-- A chain of `??` reads as its first operand that fails or reads a value other than nil,
after the calls of the operands before it, and no operand after that one is read; when every
operand reads nil, as its last operand, after the calls of all. -/
theorem Derivation.eval_coalesce {checksTypes : Bool} {world : World} {parameters : Parameters}
    {first : Derivation} {c : Chain} (hc : ∀ lexeme ∈ c.lexemes, lexeme = "??") :
    (Derivation.chain .ternary first c).eval checksTypes world parameters =
      firstDecisive (fun v => !v.isNull) (first.eval checksTypes world parameters)
        (c.operands.map (·.eval checksTypes world parameters)) :=
  Chain.eval_firstDecisive (fun _ calls right h => evaluateNode_coalesce_found h calls right)
    (fun v calls reading (_ : True) h _ => by
      obtain rfl : v = .null := by simpa using h
      exact evaluateNode_coalesce_null calls reading)
    c (fun lexeme h => by rw [hc lexeme h]; rfl) (fun _ _ => trivial) (fun _ _ _ _ => trivial)

/-- `x ?? y ?? z` with `x` nil and `y` true: the chain stops at `y`, and `z` is never looked
up. -/
theorem eval_coalesce_skips_lookup :
    (Derivation.chain .ternary (.parameter "x")
        (.cons "??" (.parameter "y") (.last "??" (.parameter "z")))).eval
      true nullWorld (fun name => .ok (if name = "x" then .null else .bool true)) =
      (.ok (.bool true), [.lookup "x", .lookup "y"]) :=
  Derivation.eval_coalesce (c := .cons "??" (.parameter "y") (.last "??" (.parameter "z")))
    (by
      intro lexeme h
      simpa [Chain.lexemes, or_self] using h)

/-! ## `,` and the arguments of a call -/

/-- The values a separator chain collects from its first operand: the items of a list, else
the value itself. -/
def Value.spread : Value → List Value
  | .list items => items
  | v => [v]

section Separator

variable {checksTypes : Bool} {world : World} {parameters : Parameters}

theorem evaluateNode_separate (v r : Value) (calls more : List Call) :
    evaluateNode checksTypes world parameters (Level.separator.operatorInfo ",")
      (.ok v, calls) (.ok r, more) = (.ok (.list (v.spread ++ [r])), calls ++ more) := by
  rw [evaluateNode_of_proceed (Level.separator.operatorInfo ",") v rfl rfl calls _
    fun _ _ => rfl]
  cases v <;> rfl

/-- A separator chain whose operands read values collects them after the first operand's
spread value, after the calls of all of them. -/
theorem Chain.eval_separator :
    ∀ (c : Chain) (v : Value) (calls : List Call) {readings : List (Value × List Call)},
      (∀ lexeme ∈ c.lexemes, lexeme = ",") →
      List.Forall₂ (fun d r => d.eval checksTypes world parameters = (.ok r.1, r.2)) c.operands
        readings →
      c.eval checksTypes world parameters .separator (.ok v, calls) =
        (.ok (.list (v.spread ++ readings.map (·.1))), calls ++ (readings.map (·.2)).flatten)
  | .last lexeme operand, v, calls, _, hc, .cons hread .nil => by
    rw [Chain.eval, hc lexeme (List.mem_singleton_self _), hread, evaluateNode_separate]
    simp only [List.map_cons, List.map_nil, List.flatten_cons, List.flatten_nil, List.append_nil]
  | .cons lexeme operand rest, v, calls, (r, more) :: readings, hc, .cons hread hrest => by
    rw [Chain.eval, hc lexeme (List.mem_cons_self _ _), hread, evaluateNode_separate,
      Chain.eval_separator rest _ _ (fun lexeme h => hc lexeme (List.mem_cons_of_mem _ h)) hrest]
    simp only [Value.spread, List.map_cons, List.flatten_cons, List.append_assoc,
      List.singleton_append]

end Separator

/-- A call over the value of its parenthesised arguments: the function receives the
arguments `makeFunctionStage` passes, after the calls the arguments made. -/
theorem evaluateNode_call {checksTypes : Bool} {world : World} {parameters : Parameters}
    (f : ExpressionFunction) (v : Value) (calls : List Call) :
    evaluateNode checksTypes world parameters (functionalInfo f) (.ok .null, [])
        (evaluateNode checksTypes world parameters noopInfo (.ok .null, []) (.ok v, calls)) =
      ((world.call f (functionArguments v)).mapError .error, calls ++ [.call f]) := by
  rw [evaluateNode_of_proceed noopInfo .null (by rfl) (by rfl) [] _ fun _ _ => rfl]
  cases checksTypes <;> rfl

/-- A call `f(a)` whose argument reads a value calls `f` once, after the calls of its argument:
with no argument when the value is nil, with its items when it is a list, and with the value
otherwise. -/
theorem Derivation.eval_call_single {checksTypes : Bool} {world : World}
    {parameters : Parameters} (f : ExpressionFunction) {d : Derivation} {v : Value}
    {calls : List Call} (hd : d.eval checksTypes world parameters = (.ok v, calls)) :
    (Derivation.call f (.contents d)).eval checksTypes world parameters =
      ((world.call f (functionArguments v)).mapError .error, calls ++ [.call f]) := by
  rw [Derivation.eval, Args.eval, hd, evaluateNode_call]

/-- `f(x)` with `x` nil calls `f` with no argument. -/
example :
    (Derivation.call ⟨"f"⟩ (.contents (.parameter "x"))).eval true nullWorld
        (fun _ => .ok .null) =
      ((nullWorld.call ⟨"f"⟩ []).mapError .error, [.lookup "x", .call ⟨"f"⟩]) :=
  have hx : (Derivation.parameter "x").eval true nullWorld (fun _ => .ok .null) =
      (.ok .null, [.lookup "x"]) := rfl
  Derivation.eval_call_single ⟨"f"⟩ hx

/-- A call `f(a₁, …, aₙ)` of two or more arguments that read values v₁, …, vₙ calls `f` once,
after the calls of all its arguments, on v₂, …, vₙ after the items of v₁ when v₁ is a list, and
after v₁ itself otherwise. -/
theorem Derivation.eval_call_arguments {checksTypes : Bool} {world : World}
    {parameters : Parameters} (f : ExpressionFunction) {first : Derivation} {c : Chain}
    (hc : ∀ lexeme ∈ c.lexemes, lexeme = ",") {v : Value} {calls : List Call}
    (hfirst : first.eval checksTypes world parameters = (.ok v, calls))
    {readings : List (Value × List Call)}
    (hreadings : List.Forall₂ (fun d r => d.eval checksTypes world parameters = (.ok r.1, r.2))
      c.operands readings) :
    (Derivation.call f (.contents (.chain .separator first c))).eval checksTypes world parameters =
      ((world.call f (v.spread ++ readings.map (·.1))).mapError .error,
        calls ++ (readings.map (·.2)).flatten ++ [.call f]) := by
  rw [Derivation.eval, Args.eval, Derivation.eval, hfirst,
    Chain.eval_separator c v calls hc hreadings, evaluateNode_call]
  rfl

/-- `f((1, 2), 3)`: `f` is called on three values, the items of the list `(1, 2)` spread before
the `3`. -/
theorem eval_call_arguments_spread :
    (Derivation.call ⟨"f"⟩ (.contents (.chain .separator
        (.group (.contents (.chain .separator (.literal ⟨.NUMERIC, .float 1⟩)
          (.last "," (.literal ⟨.NUMERIC, .float 2⟩)))))
        (.last "," (.literal ⟨.NUMERIC, .float 3⟩))))).eval
      true nullWorld (fun _ => .ok .null) =
      ((nullWorld.call ⟨"f"⟩ [.float 1, .float 2, .float 3]).mapError .error, [.call ⟨"f"⟩]) :=
  have hfirst : (Derivation.group (.contents (.chain .separator (.literal ⟨.NUMERIC, .float 1⟩)
      (.last "," (.literal ⟨.NUMERIC, .float 2⟩))))).eval true nullWorld (fun _ => .ok .null) =
      (.ok (.list [.float 1, .float 2]), []) := rfl
  have hthird : List.Forall₂ (fun d r => d.eval true nullWorld (fun _ => .ok .null) = (.ok r.1, r.2))
      (Chain.last "," (.literal ⟨.NUMERIC, .float 3⟩)).operands [(.float 3, [])] := .cons rfl .nil
  Derivation.eval_call_arguments ⟨"f"⟩ (c := .last "," (.literal ⟨.NUMERIC, .float 3⟩))
    (fun _ h => List.mem_singleton.mp h) hfirst hthird

/-! ## Arithmetic -/

/-- The levels whose operators map two floats to a float: bitwise, shift, additive,
multiplicative and exponential. -/
def Level.isArithmetic : Level → Bool
  | .bitwise | .shift | .additive | .multiplicative | .exponential => true
  | _ => false

/-- The operator symbol of a lexeme at a level. -/
def Level.symbol (L : Level) (lexeme : String) : OperatorSymbol :=
  (L.planner.validSymbols lexeme).getD .VALUE

/-- The operators of the arithmetic levels. -/
def arithmeticSymbols : List OperatorSymbol :=
  [.BITWISE_XOR, .BITWISE_AND, .BITWISE_OR, .BITWISE_RSHIFT, .BITWISE_LSHIFT, .PLUS, .MINUS,
    .MULTIPLY, .DIVIDE, .MODULUS, .EXPONENT]

/-- What an arithmetic operator computes on two floats: the float `symbolOperator` returns on
them. -/
def floatOperation (regexp : RegexpLibrary) (symbol : OperatorSymbol) (x y : Float) : Float :=
  match symbolOperator regexp symbol (.float x) (.float y) with
  | .ok (.float z) => z
  | _ => 0

/-- Floats folded left to right by the operators of a level: `x op₁ y₁ op₂ y₂ …` is
`((x op₁ y₁) op₂ y₂) …`. -/
def foldFloats (regexp : RegexpLibrary) (L : Level) : Float → List String → List Float → Float
  | x, lexeme :: lexemes, y :: ys =>
    foldFloats regexp L (floatOperation regexp (L.symbol lexeme) x y) lexemes ys
  | x, _, _ => x

theorem Level.operatorInfo_eq_symbol (L : Level) (lexeme : String) :
    L.operatorInfo lexeme = binaryInfo (L.symbol lexeme) L.planner.typeErrorFormat := rfl

theorem Level.symbol_mem_arithmetic {L : Level} (hL : L.isArithmetic) {lexeme : String}
    (h : (L.planner.validSymbols lexeme).isSome) : L.symbol lexeme ∈ arithmeticSymbols := by
  cases L <;> (try cases hL) <;>
  · simp only [Level.symbol, Level.planner, bitwisePlanner, shiftPlanner, additivePlanner,
      multiplicativePlanner, exponentialPlanner, bitwiseSymbols, bitwiseShiftSymbols,
      additiveSymbols, multiplicativeSymbols, exponentialSymbolsS] at h ⊢
    split at h <;> first | decide | cases h

section Arithmetic

variable {checksTypes : Bool} {world : World} {parameters : Parameters}

/-- An arithmetic step over two floats computes its float operation, after the calls of both
operands: the checks accept floats and the operator never short-circuits. -/
theorem evaluateNode_arithmetic {symbol : OperatorSymbol} (hsymbol : symbol ∈ arithmeticSymbols)
    (format : TypeErrorFormat) (x y : Float) (calls more : List Call) :
    evaluateNode checksTypes world parameters (binaryInfo symbol format) (.ok (.float x), calls)
      (.ok (.float y), more) =
        (.ok (.float (floatOperation world.regexp symbol x y)), calls ++ more) := by
  simp only [arithmeticSymbols, List.mem_cons, List.mem_singleton, List.not_mem_nil,
    or_false] at hsymbol
  rcases hsymbol with rfl | rfl | rfl | rfl | rfl | rfl | rfl | rfl | rfl | rfl | rfl <;>
  · exact evaluateNode_of_proceed _ (.float x) (by rfl) (by rfl) calls _ fun _ h => by
      cases h; rfl

/-- A chain at an arithmetic level whose operands read floats computes their left fold, after
the calls of all of them. -/
theorem Chain.eval_foldFloats {L : Level} (hL : L.isArithmetic) :
    ∀ (c : Chain) (x : Float) (calls : List Call) {readings : List (Float × List Call)},
      c.Supported L →
      List.Forall₂ (fun d r => d.eval checksTypes world parameters = (.ok (.float r.1), r.2))
        c.operands readings →
      c.eval checksTypes world parameters L (.ok (.float x), calls) =
        (.ok (.float (foldFloats world.regexp L x c.lexemes (readings.map (·.1)))),
          calls ++ (readings.map (·.2)).flatten)
  | .last lexeme operand, x, calls, _, hc, .cons hread .nil => by
    have hsymbol := L.symbol_mem_arithmetic hL
      (Chain.isSome_of_supported hc lexeme (List.mem_singleton_self _))
    rw [Chain.eval, hread, Level.operatorInfo_eq_symbol, evaluateNode_arithmetic hsymbol]
    simp only [Chain.lexemes, List.map_cons, List.map_nil, foldFloats, List.flatten_cons,
      List.flatten_nil, List.append_nil, Level.symbol]
  | .cons lexeme operand rest, x, calls, (y, more) :: readings, hc, .cons hread hrest => by
    have hsymbol := L.symbol_mem_arithmetic hL
      (Chain.isSome_of_supported hc lexeme (List.mem_cons_self _ _))
    simp only [Chain.Supported, Bool.and_eq_true] at hc
    rw [Chain.eval, hread, Level.operatorInfo_eq_symbol, evaluateNode_arithmetic hsymbol,
      Chain.eval_foldFloats hL rest _ _ hc.2 hrest]
    simp only [Chain.lexemes, List.map_cons, foldFloats, List.flatten_cons, List.append_assoc,
      Level.symbol]

end Arithmetic

/-- A chain of operators of one arithmetic level whose operands read floats `x₀, x₁, …, xₙ`
reads as the float `((x₀ op₁ x₁) op₂ x₂) … opₙ xₙ`, after the calls of all operands in order:
`a - b - c` is `(a - b) - c`, for every operator of the level. -/
theorem Derivation.eval_arithmetic {checksTypes : Bool} {world : World} {parameters : Parameters}
    {L : Level} (hL : L.isArithmetic) {first : Derivation} {c : Chain} (hc : c.Supported L)
    {x : Float} {calls : List Call}
    (hfirst : first.eval checksTypes world parameters = (.ok (.float x), calls))
    {readings : List (Float × List Call)}
    (hreadings : List.Forall₂
      (fun d r => d.eval checksTypes world parameters = (.ok (.float r.1), r.2)) c.operands
      readings) :
    (Derivation.chain L first c).eval checksTypes world parameters =
      (.ok (.float (foldFloats world.regexp L x c.lexemes (readings.map (·.1)))),
        calls ++ (readings.map (·.2)).flatten) := by
  rw [Derivation.eval, hfirst]
  exact Chain.eval_foldFloats hL c x calls hc hreadings

/-- `10 - 3 - 2` reads as `(10 - 3) - 2`. -/
theorem eval_arithmetic_difference :
    (Derivation.chain .additive (.literal ⟨.NUMERIC, .float 10⟩)
        (.cons "-" (.literal ⟨.NUMERIC, .float 3⟩) (.last "-" (.literal ⟨.NUMERIC, .float 2⟩)))).eval
      true nullWorld (fun _ => .ok .null) = (.ok (.float ((10 - 3) - 2)), []) :=
  have hreadings : List.Forall₂
      (fun d r => d.eval true nullWorld (fun _ => .ok .null) = (.ok (.float r.1), r.2))
      (Chain.cons "-" (.literal ⟨.NUMERIC, .float 3⟩)
        (.last "-" (.literal ⟨.NUMERIC, .float 2⟩))).operands [(3, []), (2, [])] :=
    .cons rfl (.cons rfl .nil)
  have hfirst : (Derivation.literal ⟨.NUMERIC, .float 10⟩).eval true nullWorld
      (fun _ => .ok .null) = (.ok (.float 10), []) := rfl
  Derivation.eval_arithmetic (L := .additive)
    (c := .cons "-" (.literal ⟨.NUMERIC, .float 3⟩) (.last "-" (.literal ⟨.NUMERIC, .float 2⟩)))
    rfl rfl hfirst hreadings

/-! ## Membership -/

section Membership

variable {checksTypes : Bool} {world : World} {parameters : Parameters}

theorem evaluateNode_in (v : Value) (items : List Value) (calls more : List Call) :
    evaluateNode checksTypes world parameters (Level.comparator.operatorInfo "in")
      (.ok v, calls) (.ok (.list items), more) =
      (.ok (.bool (items.any v.deepEqual)), calls ++ more) :=
  evaluateNode_of_proceed _ v (by rfl) (by rfl) calls _ fun _ h => by cases h; rfl

end Membership

/-- `x in (a₁, …, aₙ)`, n ≥ 2, whose operands read values: true exactly when the value of `x`
equals, structurally, one of v₂, …, vₙ or, when v₁ is a list, one of its items, else v₁;
after the calls of `x` and of the aᵢ, in order. -/
theorem Derivation.eval_membership {checksTypes : Bool} {world : World}
    {parameters : Parameters} {x first : Derivation} {c : Chain}
    (hc : ∀ lexeme ∈ c.lexemes, lexeme = ",") {v v₁ : Value} {calls calls₁ : List Call}
    (hx : x.eval checksTypes world parameters = (.ok v, calls))
    (hfirst : first.eval checksTypes world parameters = (.ok v₁, calls₁))
    {readings : List (Value × List Call)}
    (hreadings : List.Forall₂ (fun d r => d.eval checksTypes world parameters = (.ok r.1, r.2))
      c.operands readings) :
    (Derivation.chain .comparator x
        (.last "in" (.group (.contents (.chain .separator first c))))).eval
        checksTypes world parameters =
      (.ok (.bool ((v₁.spread ++ readings.map (·.1)).any v.deepEqual)),
        calls ++ (calls₁ ++ (readings.map (·.2)).flatten)) := by
  have hlist : (Derivation.group (.contents (.chain .separator first c))).eval
      checksTypes world parameters =
      (.ok (.list (v₁.spread ++ readings.map (·.1))), calls₁ ++ (readings.map (·.2)).flatten) := by
    rw [Derivation.eval, Args.eval, Derivation.eval, hfirst,
      Chain.eval_separator c v₁ calls₁ hc hreadings,
      evaluateNode_of_proceed noopInfo .null rfl rfl [] _ fun _ _ => rfl]
    rfl
  rw [Derivation.eval, hx, Chain.eval, hlist, evaluateNode_in]

/-- `1 in ((1, 2), 3)` is true: the items of the list `(1, 2)` are spread into the list it
begins. -/
theorem eval_membership_spread :
    (Derivation.chain .comparator (.literal ⟨.NUMERIC, .float 1⟩)
        (.last "in" (.group (.contents (.chain .separator
          (.group (.contents (.chain .separator (.literal ⟨.NUMERIC, .float 1⟩)
            (.last "," (.literal ⟨.NUMERIC, .float 2⟩)))))
          (.last "," (.literal ⟨.NUMERIC, .float 3⟩))))))).eval
      true nullWorld (fun _ => .ok .null) =
      (.ok (.bool ([.float 1, .float 2, .float 3].any (Value.float 1).deepEqual)), []) :=
  have hfirst : (Derivation.group (.contents (.chain .separator (.literal ⟨.NUMERIC, .float 1⟩)
      (.last "," (.literal ⟨.NUMERIC, .float 2⟩))))).eval true nullWorld (fun _ => .ok .null) =
      (.ok (.list [.float 1, .float 2]), []) := rfl
  have hthird : List.Forall₂ (fun d r => d.eval true nullWorld (fun _ => .ok .null) = (.ok r.1, r.2))
      (Chain.last "," (.literal ⟨.NUMERIC, .float 3⟩)).operands [(.float 3, [])] := .cons rfl .nil
  have hx : (Derivation.literal ⟨.NUMERIC, .float 1⟩).eval true nullWorld (fun _ => .ok .null) =
      (.ok (.float 1), []) := rfl
  Derivation.eval_membership (c := .last "," (.literal ⟨.NUMERIC, .float 3⟩))
    (fun _ h => List.mem_singleton.mp h) hx hfirst hthird

end Geval
