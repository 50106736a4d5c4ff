import Geval.Core.Lexer
import Geval.Core.Planner
import Geval.Core.Reorder
import Geval.Core.Elide

/-!
# Compiling and evaluating an expression

The pipeline of `part_001`: `tNewEvaluableExpressionWithFunctions` lexes, checks the
balance and the syntax, runs `optimizeTokens` (of `TokenKind.go`), and plans the stages
(`planStages`: `planTokens`, `reorderStages`, `elideLiterals`); `TEvaluate` evaluates the
plan against the caller's parameters, and `Eval` of `part_000` does both with no
parameters.
-/

namespace Geval

/-- The loop of Go `optimizeTokens` from position `index`: a `STRING` right after a `=~` or
`!~` comparator becomes a `PATTERN` of its compiled regex. -/
def optimizeTokensFrom (regexp : RegexpLibrary) :
    Nat → List ExpressionToken → Result (List ExpressionToken)
  | _, [] => .ok []
  | index, token :: rest =>
    if token.kind ≠ .COMPARATOR then
      (token :: ·) <$> optimizeTokensFrom regexp (index + 1) rest
    else match token.value with
      | .string lexeme =>
        let symbol := (comparatorSymbols lexeme).getD .VALUE
        if symbol ≠ .REQ ∧ symbol ≠ .NREQ then
          (token :: ·) <$> optimizeTokensFrom regexp (index + 1) rest
        else match rest with
          | [] => .error (.indexOutOfRange (index + 1))
          | next :: afterNext =>
            if next.kind = .STRING then
              match next.value with
              | .string source =>
                match regexp.compile source with
                | .ok pattern =>
                  -- the rewritten token is a `PATTERN`, which the loop then passes over
                  (fun tail => token :: ⟨.PATTERN, .pattern pattern⟩ :: tail) <$>
                    optimizeTokensFrom regexp (index + 2) afterNext
                | .error message => fail message
              | _ => .error .typeAssertion
            else (token :: ·) <$> optimizeTokensFrom regexp (index + 1) (next :: afterNext)
      | _ => .error .typeAssertion

/-- Go `optimizeTokens`. -/
def optimizeTokens (regexp : RegexpLibrary) (tokens : List ExpressionToken) :
    Result (List ExpressionToken) :=
  optimizeTokensFrom regexp 0 tokens

/-- Go `planStages`: plan, reorder, fold. -/
def planStages (world : World) (tokens : List ExpressionToken) : Result Stage := do
  let (stage, _) ← plan (planFuel tokens) .planTokens (newTokenStream tokens)
  let stage ← reorderStages stage
  elideLiterals world stage

/-- Go `tEvaluableExpression`. -/
structure EvaluableExpression where
  queryDateFormat : String
  checksTypes : Bool
  tokens : List ExpressionToken
  evaluationStages : Stage
  inputExpression : String

/-- Go `isoDateFormat`. -/
def isoDateFormat : String := "2006-01-02T15:04:05.999999999Z0700"

/-- Go `tNewEvaluableExpressionWithFunctions`. -/
def tNewEvaluableExpressionWithFunctions (tables : LexerTables) (world : World)
    (expression : String) (functions : String → Option ExpressionFunction) :
    Result EvaluableExpression := do
  let tokens ← parseTokens tables expression functions
  checkBalance tokens
  checkExpressionSyntax tokens
  let tokens ← optimizeTokens world.regexp tokens
  let stages ← planStages world tokens
  -- `ChecksTypes` is set once the plan is built
  pure ⟨isoDateFormat, true, tokens, stages, expression⟩

/-- Go `TNewEvaluableExpression`: an empty function table. -/
def TNewEvaluableExpression (tables : LexerTables) (world : World) (expression : String) :
    Result EvaluableExpression :=
  tNewEvaluableExpressionWithFunctions tables world expression fun _ => none

/-- Go `tEvaluableExpression.tEval`: a nil plan evaluates to nil; a nil parameter source is
replaced by the empty map, any other is wrapped in the sanitizing adapter. -/
def EvaluableExpression.tEval (e : EvaluableExpression) (world : World)
    (parameters : Option Parameters) : Evaluation :=
  match e.evaluationStages with
  | .nil => (.ok .null, [])
  | stages =>
    evaluateStage e.checksTypes world
      ((parameters.map sanitizedParameters).getD dummyParameters) stages

/-- Go `tEvaluableExpression.TEvaluate` on a parameter map (`none` is a nil map). -/
def EvaluableExpression.TEvaluate (e : EvaluableExpression) (world : World)
    (parameters : Option (String → Option Value)) : Evaluation :=
  e.tEval world (parameters.map mapParameters)

/-- Go `Eval` of the package root: compile, evaluate with no parameters, and give `false`
for a compile error, an evaluation error or a nil value. A panic is not recovered. -/
def Eval (tables : LexerTables) (world : World) (expression : String) : Result Value :=
  match TNewEvaluableExpression tables world expression with
  | .error (.error _) => .ok (.bool false)
  | .error fault => .error fault
  | .ok e =>
    match (e.TEvaluate world none).1 with
    | .ok .null | .error (.error _) => .ok (.bool false)
    | .ok value => .ok value
    | .error fault => .error fault

/-! ## Environments for closed runs -/

/-- Lexer tables for ASCII input: no letter or digit above Latin-1, and no date layout
parses. -/
def asciiTables : LexerTables := ⟨fun _ => false, fun _ => false, id, id, fun _ => none⟩

/-- An environment for closed runs: a regular expression compiles to itself and matches
every string, and every function and accessor yields nil. -/
def nullWorld : World :=
  ⟨⟨fun s => .ok ⟨s⟩, fun _ _ => true⟩, fun _ _ => .ok .null, fun _ _ _ => .ok .null⟩

end Geval
