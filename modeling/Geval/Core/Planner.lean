import Geval.Core.Stage

/-!
# The planner

The recursive-descent planner of `lexerState.go`: the token cursor (`tokenStream`), the
precedence levels that `init` builds from `precedencePlanner` records, and the special
precedents `planFunction`, `planAccessor`, `planValue` and `planTokens`.

The Go precedents are mutually recursive closures. Each is a definition here that receives
the precedents it calls as `recurse`, and `plan` ties them together with a fuel bound.
`Geval.Planner.Safety` shows the bound `planFuel` is never reached on the token lists the
grammar checker accepts.
-/

namespace Geval

/-- Go `tokenStream`: a cursor over the tokens. `index` is a Go `int`. -/
structure TokenStream where
  tokens : List ExpressionToken
  index : Int
  deriving Repr

/-- Go `newTokenStream`. -/
def newTokenStream (tokens : List ExpressionToken) : TokenStream := ⟨tokens, 0⟩

namespace TokenStream

/-- Go `tokenStream.rewind`. -/
def rewind (t : TokenStream) : TokenStream := { t with index := t.index - 1 }

/-- Go `tokenStream.hasNext`. -/
def hasNext (t : TokenStream) : Bool := decide (t.index < t.tokens.length)

/-- Go `tokenStream.next`: `t.tokens[t.index]` panics outside `[0, length)`. -/
def next (t : TokenStream) : Result (ExpressionToken × TokenStream) :=
  match t.tokens[t.index.toNat]? with
  | some token => if 0 ≤ t.index then .ok (token, { t with index := t.index + 1 })
    else .error (.indexOutOfRange t.index)
  | none => .error (.indexOutOfRange t.index)

@[simp] theorem rewind_tokens (t : TokenStream) : t.rewind.tokens = t.tokens := rfl
@[simp] theorem rewind_index (t : TokenStream) : t.rewind.index = t.index - 1 := rfl

end TokenStream

/-- The precedents of the planner: the eleven levels that `init` builds, and the four
written by hand. -/
inductive Precedent
  | planSeparator | planTernary | planLogicalOr | planLogicalAnd | planComparator
  | planBitwise | planShift | planAdditive | planMultiplicative | planExponential
  | planPrefix | planFunction | planAccessor | planValue | planTokens
  deriving DecidableEq, Repr

/-- A planner result: the stage (possibly nil) and the cursor after it. -/
abbrev PlanResult := Result (Stage × TokenStream)

/-- Go `precedencePlanner`. `next` and `nextRight` name precedents; an absent `nextRight`
makes the level right-recursive on itself (`makePrecedentFromPlanner`). -/
structure PrecedencePlanner where
  validSymbols : SymbolMap
  validKinds : List TokenKind
  typeErrorFormat : TypeErrorFormat := .text ""
  next : Option Precedent := none
  nextRight : Option Precedent := none

section Precedents

variable (recurse : Precedent → TokenStream → PlanResult)

/-- The left operand of a level: the plan of `leftPrecedent`, or nil when there is none. -/
def planLeftOperand (leftPrecedent : Option Precedent) (stream : TokenStream) : PlanResult :=
  match leftPrecedent with
  | some p => recurse p stream
  | none => pure (.nil, stream)

/-- Go `planPrecedenceLevel`. The loop of the source runs at most once: every path through
its body breaks or returns. -/
def planPrecedenceLevel (stream : TokenStream) (typeErrorFormat : TypeErrorFormat)
    (validSymbols : SymbolMap) (validKinds : List TokenKind) (rightPrecedent : Precedent)
    (leftPrecedent : Option Precedent) : PlanResult := do
  let (leftStage, stream) ← planLeftOperand recurse leftPrecedent stream
  if stream.hasNext then
    let (token, stream) ← stream.next
    if 0 < validKinds.length ∧ token.kind ∉ validKinds then pure (leftStage, stream.rewind)
    else match token.value with
      | .string lexeme =>
        match validSymbols lexeme with
        | some symbol => do
          let (rightStage, stream) ← recurse rightPrecedent stream
          pure (.node (binaryInfo symbol typeErrorFormat) leftStage rightStage, stream)
        | none => pure (leftStage, stream.rewind)
      | _ => pure (leftStage, stream.rewind)
  else pure (leftStage, stream.rewind)

/-- Go `makePrecedentFromPlanner`: the precedent `self` generated from `planner`. -/
def makePrecedentFromPlanner (self : Precedent) (planner : PrecedencePlanner)
    (stream : TokenStream) : PlanResult :=
  planPrecedenceLevel recurse stream planner.typeErrorFormat planner.validSymbols
    planner.validKinds (planner.nextRight.getD self) planner.next

/-- Go `planFunction`. -/
def planFunction (stream : TokenStream) : PlanResult := do
  let (token, stream) ← stream.next
  if token.kind ≠ .FUNCTION then recurse .planAccessor stream.rewind
  else
    let (rightStage, stream) ← recurse .planAccessor stream
    match token.value with
    | .function f => pure (.node (functionalInfo f) .nil rightStage, stream)
    | _ => .error .typeAssertion

/-- The argument plan of an accessor: when the token after it is a `CLAUSE`, the rest of the
expression from that clause on (`planTokens`); otherwise none. -/
def planAccessorArguments (stream : TokenStream) : PlanResult :=
  if stream.hasNext then do
    let (otherToken, stream) ← stream.next
    if otherToken.kind = .CLAUSE then recurse .planTokens stream.rewind
    else pure (.nil, stream.rewind)
  else pure (.nil, stream)

/-- Go `planAccessor`. -/
def planAccessor (stream : TokenStream) : PlanResult :=
  if stream.hasNext then do
    let (token, stream) ← stream.next
    if token.kind ≠ .ACCESSOR then recurse .planValue stream.rewind
    else
      let (rightStage, stream) ← planAccessorArguments recurse stream
      match token.value with
      | .strings path => pure (.node (accessInfo path) .nil rightStage, stream)
      | _ => .error .typeAssertion
  else pure (.nil, stream)

/-- The `switch` of Go `planValue` on the kind of the token just read, with the cursor after
it. A clause reads its contents with `planTokens` and then consumes one more token,
whatever it is, as the closing parenthesis. -/
def planValueToken (token : ExpressionToken) (stream : TokenStream) : PlanResult :=
  match token.kind with
  | .CLAUSE => do
    let (ret, stream) ← recurse .planTokens stream
    let (_, stream) ← stream.next
    pure (.node noopInfo .nil ret, stream)
  | .CLAUSE_CLOSE => pure (.nil, stream.rewind)
  | .VARIABLE =>
    match token.value with
    | .string name => pure (.node (parameterInfo name) .nil .nil, stream)
    | _ => .error .typeAssertion
  | .NUMERIC | .STRING | .PATTERN | .BOOLEAN =>
    pure (.node (literalInfo token.value) .nil .nil, stream)
  | .TIME =>
    match token.value with
    | .time unix => pure (.node (literalInfo (.float (Float.ofInt unix))) .nil .nil, stream)
    | _ => .error .typeAssertion
  | .PREFIX => recurse .planPrefix stream.rewind
  | _ => fail ("Unable to plan token kind: '" ++ token.kind.tString ++ "', value: '" ++
      token.value.format ++ "'")

/-- Go `planValue`. -/
def planValue (stream : TokenStream) : PlanResult :=
  if stream.hasNext then do
    let (token, stream) ← stream.next
    planValueToken recurse token stream
  else pure (.nil, stream)

/-- Go `planTokens`. -/
def planTokens (stream : TokenStream) : PlanResult :=
  if !stream.hasNext then .ok (.nil, stream) else recurse .planSeparator stream

end Precedents

/-! ## The levels built by `init` -/

/-- `planPrefix`: a `PREFIX` token and a `planFunction` operand, with no left operand. -/
def prefixPlanner : PrecedencePlanner :=
  { validSymbols := prefixSymbols, validKinds := [.PREFIX],
    typeErrorFormat := .prefixErrorFormat, nextRight := some .planFunction }

/-- `planExponential`: its operands are `planFunction`s. -/
def exponentialPlanner : PrecedencePlanner :=
  { validSymbols := exponentialSymbolsS, validKinds := [.MODIFIER],
    typeErrorFormat := .modifierErrorFormat, next := some .planFunction }

/-- `planMultiplicative`. -/
def multiplicativePlanner : PrecedencePlanner :=
  { validSymbols := multiplicativeSymbols, validKinds := [.MODIFIER],
    typeErrorFormat := .modifierErrorFormat, next := some .planExponential }

/-- `planAdditive`. -/
def additivePlanner : PrecedencePlanner :=
  { validSymbols := additiveSymbols, validKinds := [.MODIFIER],
    typeErrorFormat := .modifierErrorFormat, next := some .planMultiplicative }

/-- `planShift`. -/
def shiftPlanner : PrecedencePlanner :=
  { validSymbols := bitwiseShiftSymbols, validKinds := [.MODIFIER],
    typeErrorFormat := .modifierErrorFormat, next := some .planAdditive }

/-- `planBitwise`. -/
def bitwisePlanner : PrecedencePlanner :=
  { validSymbols := bitwiseSymbols, validKinds := [.MODIFIER],
    typeErrorFormat := .modifierErrorFormat, next := some .planShift }

/-- `planComparator`. -/
def comparatorPlanner : PrecedencePlanner :=
  { validSymbols := comparatorSymbols, validKinds := [.COMPARATOR],
    typeErrorFormat := .comparatorErrorFormat, next := some .planBitwise }

/-- `planLogicalAnd`. -/
def logicalAndPlanner : PrecedencePlanner :=
  { validSymbols := logicalAndSymbols, validKinds := [.LOGICALOP],
    typeErrorFormat := .logicalErrorFormat, next := some .planComparator }

/-- `planLogicalOr`. -/
def logicalOrPlanner : PrecedencePlanner :=
  { validSymbols := logicalOrSymbols, validKinds := [.LOGICALOP],
    typeErrorFormat := .logicalErrorFormat, next := some .planLogicalAnd }

/-- `planTernary`. -/
def ternaryPlanner : PrecedencePlanner :=
  { validSymbols := ternarySymbols, validKinds := [.TERNARY],
    typeErrorFormat := .ternaryErrorFormat, next := some .planLogicalOr }

/-- `planSeparator`: no error format (the Go zero string). -/
def separatorPlanner : PrecedencePlanner :=
  { validSymbols := separatorSymbols, validKinds := [.SEPARATOR],
    next := some .planTernary }

/-- One unfolding of the precedents: the body of the precedent `p`. -/
def planStep (recurse : Precedent → TokenStream → PlanResult) :
    Precedent → TokenStream → PlanResult
  | .planSeparator => makePrecedentFromPlanner recurse .planSeparator separatorPlanner
  | .planTernary => makePrecedentFromPlanner recurse .planTernary ternaryPlanner
  | .planLogicalOr => makePrecedentFromPlanner recurse .planLogicalOr logicalOrPlanner
  | .planLogicalAnd => makePrecedentFromPlanner recurse .planLogicalAnd logicalAndPlanner
  | .planComparator => makePrecedentFromPlanner recurse .planComparator comparatorPlanner
  | .planBitwise => makePrecedentFromPlanner recurse .planBitwise bitwisePlanner
  | .planShift => makePrecedentFromPlanner recurse .planShift shiftPlanner
  | .planAdditive => makePrecedentFromPlanner recurse .planAdditive additivePlanner
  | .planMultiplicative =>
    makePrecedentFromPlanner recurse .planMultiplicative multiplicativePlanner
  | .planExponential => makePrecedentFromPlanner recurse .planExponential exponentialPlanner
  | .planPrefix => makePrecedentFromPlanner recurse .planPrefix prefixPlanner
  | .planFunction => planFunction recurse
  | .planAccessor => planAccessor recurse
  | .planValue => planValue recurse
  | .planTokens => planTokens recurse

/-- The precedents, unfolded at most `fuel` times. -/
def plan : Nat → Precedent → TokenStream → PlanResult
  | 0, _, _ => .error .outOfFuel
  | fuel + 1, p, stream => planStep (plan fuel) p stream

/-- The fuel `planStages` gives the planner: enough for every list the grammar checker
accepts (`Geval.Planner.Safety`). -/
def planFuel (tokens : List ExpressionToken) : Nat := 16 * (tokens.length + 2)

end Geval
