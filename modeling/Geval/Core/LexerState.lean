import Geval.Core.TokenKind

/-!
# The grammar checker

`validLexerStates` of `lexerState.go`, the transition table that both the lexer (to tell a
prefix `-` from a subtraction) and `checkExpressionSyntax` drive, and `checkBalance` of
`TokenKind.go`, which only counts parentheses.
-/

namespace Geval

open TokenKind

/-- Go `lexerState`: a row of the transition table. -/
structure LexerState where
  isEOF : Bool
  isNullable : Bool
  kind : TokenKind
  validNextKinds : List TokenKind
  deriving Repr, Inhabited

/-- Go `validLexerStates`, in the source's order; row `0` is the start state. -/
def validLexerStates : List LexerState := [
  ⟨false, true, UNKNOWN,
    [PREFIX, NUMERIC, BOOLEAN, VARIABLE, PATTERN, FUNCTION, ACCESSOR, STRING, TIME, CLAUSE]⟩,
  ⟨false, true, CLAUSE,
    [PREFIX, NUMERIC, BOOLEAN, VARIABLE, PATTERN, FUNCTION, ACCESSOR, STRING, TIME, CLAUSE,
      CLAUSE_CLOSE]⟩,
  ⟨true, true, CLAUSE_CLOSE,
    [COMPARATOR, MODIFIER, NUMERIC, BOOLEAN, VARIABLE, STRING, PATTERN, TIME, CLAUSE,
      CLAUSE_CLOSE, LOGICALOP, TERNARY, SEPARATOR]⟩,
  ⟨true, false, NUMERIC,
    [.MODIFIER, COMPARATOR, LOGICALOP, CLAUSE_CLOSE, TERNARY, SEPARATOR]⟩,
  ⟨true, false, BOOLEAN,
    [.MODIFIER, COMPARATOR, LOGICALOP, CLAUSE_CLOSE, TERNARY, SEPARATOR]⟩,
  ⟨true, false, STRING,
    [.MODIFIER, COMPARATOR, LOGICALOP, CLAUSE_CLOSE, TERNARY, SEPARATOR]⟩,
  ⟨true, false, TIME,
    [.MODIFIER, COMPARATOR, LOGICALOP, CLAUSE_CLOSE, SEPARATOR]⟩,
  ⟨true, false, PATTERN,
    [.MODIFIER, COMPARATOR, LOGICALOP, CLAUSE_CLOSE, SEPARATOR]⟩,
  ⟨true, false, VARIABLE,
    [.MODIFIER, COMPARATOR, LOGICALOP, CLAUSE_CLOSE, TERNARY, SEPARATOR]⟩,
  ⟨false, false, MODIFIER,
    [PREFIX, NUMERIC, VARIABLE, FUNCTION, ACCESSOR, STRING, BOOLEAN, CLAUSE, CLAUSE_CLOSE]⟩,
  ⟨false, false, COMPARATOR,
    [PREFIX, NUMERIC, BOOLEAN, VARIABLE, FUNCTION, ACCESSOR, STRING, TIME, CLAUSE,
      CLAUSE_CLOSE, PATTERN]⟩,
  ⟨false, false, LOGICALOP,
    [PREFIX, NUMERIC, BOOLEAN, VARIABLE, FUNCTION, ACCESSOR, STRING, TIME, CLAUSE,
      CLAUSE_CLOSE]⟩,
  ⟨false, false, PREFIX,
    [NUMERIC, BOOLEAN, VARIABLE, FUNCTION, ACCESSOR, CLAUSE, CLAUSE_CLOSE]⟩,
  ⟨false, false, TERNARY,
    [PREFIX, NUMERIC, BOOLEAN, STRING, TIME, VARIABLE, FUNCTION, ACCESSOR, CLAUSE, SEPARATOR]⟩,
  ⟨false, false, FUNCTION, [CLAUSE]⟩,
  ⟨true, false, ACCESSOR,
    [CLAUSE, MODIFIER, COMPARATOR, LOGICALOP, CLAUSE_CLOSE, TERNARY, SEPARATOR]⟩,
  ⟨false, true, SEPARATOR,
    [PREFIX, NUMERIC, BOOLEAN, STRING, TIME, VARIABLE, FUNCTION, ACCESSOR, CLAUSE]⟩]

/-- The start state, Go `validLexerStates[0]`. -/
def startState : LexerState := validLexerStates.headD default

/-- Go `lexerState.canTransitionTo`. -/
def LexerState.canTransitionTo (state : LexerState) (kind : TokenKind) : Bool :=
  state.validNextKinds.contains kind

/-- Go `getLexerStateForToken`: the first row of the table for `kind`. -/
def getLexerStateForToken (kind : TokenKind) : Result LexerState :=
  match validLexerStates.find? (·.kind == kind) with
  | some state => .ok state
  | none => fail ("No lexer state found for token kind '" ++ kind.tString ++ "'\n")

/-- The error `checkExpressionSyntax` returns for a forbidden transition, with its special
case for a variable that looks like a call. -/
def transitionError (state : LexerState) (lastToken token : ExpressionToken) : Result Unit :=
  match lastToken.kind, token.kind with
  | .VARIABLE, .CLAUSE =>
    match lastToken.value with
    | .string name => fail ("Undefined function " ++ name)
    | _ => .error .typeAssertion
  | _, _ =>
    fail ("Cannot transition token types from " ++ state.kind.tString ++ " [" ++
      lastToken.value.format ++ "] to " ++ token.kind.tString ++ " [" ++
      token.value.format ++ "]")

/-- The loop of `checkExpressionSyntax` after some tokens: the current state and the last
token read (Go's zero token before the first). -/
def checkExpressionSyntaxFrom (state : LexerState) (lastToken : ExpressionToken) :
    List ExpressionToken → Result Unit
  | [] => if state.isEOF then .ok () else fail "Unexpected end of expression"
  | token :: rest =>
    if !state.canTransitionTo token.kind then transitionError state lastToken token
    else match getLexerStateForToken token.kind with
      | .error e => .error e
      | .ok next =>
        if !next.isNullable && token.value.isNull then
          fail ("Token kind '" ++ token.kind.tString ++ "' cannot have a nil value")
        else checkExpressionSyntaxFrom next token rest

/-- Go `checkExpressionSyntax`. -/
def checkExpressionSyntax (tokens : List ExpressionToken) : Result Unit :=
  checkExpressionSyntaxFrom startState ⟨.UNKNOWN, .null⟩ tokens

/-- The parenthesis count of `checkBalance`: `+1` per `CLAUSE`, `-1` per `CLAUSE_CLOSE`. -/
def parenCount (tokens : List ExpressionToken) : Int :=
  tokens.foldl (fun parens token =>
    match token.kind with
    | .CLAUSE => parens + 1
    | .CLAUSE_CLOSE => parens - 1
    | _ => parens) 0

/-- Go `checkBalance`. -/
def checkBalance (tokens : List ExpressionToken) : Result Unit :=
  if parenCount tokens ≠ 0 then fail "Unbalanced parenthesis" else .ok ()

end Geval
