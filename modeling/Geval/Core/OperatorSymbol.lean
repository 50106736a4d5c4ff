import Mathlib.Logic.Basic

/-!
# Operator symbols and their precedence

The semantic operators of `OperatorSymbol.go`: the symbols a stage of the plan can carry,
the precedence that `reorderStages` compares, and the lexeme tables that the lexer and
the planner consult. Go maps from lexemes to symbols are partial functions here.

The precedence enum is consulted only for equality (a run of equal precedence is
mirrored), so its order is the source's and is never compared with `<`.
-/

namespace Geval

/-- Go `tOperatorSymbol`. The constructors keep the source's constant names. -/
inductive OperatorSymbol
  | VALUE | LITERAL | NOOP
  | EQ | NEQ | GT | LT | GTE | LTE | REQ | NREQ | IN
  | AND | OR
  | PLUS | MINUS | BITWISE_AND | BITWISE_OR | BITWISE_XOR | BITWISE_LSHIFT | BITWISE_RSHIFT
  | MULTIPLY | DIVIDE | MODULUS | EXPONENT
  | NEGATE | INVERT | BITWISE_NOT
  | TERNARY_TRUE | TERNARY_FALSE | COALESCE
  | FUNCTIONAL | ACCESS | SEPARATE
  deriving DecidableEq, Repr, Inhabited

/-- Go `operatorPrecedence`. -/
inductive OperatorPrecedence
  | noopPrecedence | valuePrecedence | functionalPrecedence | prefixPrecedence
  | exponentialPrecedence | additivePrecedence | bitwisePrecedence
  | bitwiseShiftPrecedence | multiplicativePrecedence | comparatorPrecedence
  | ternaryPrecedence | logicalAndPrecedence | logicalOrPrecedence | separatePrecedence
  deriving DecidableEq, Repr

open OperatorPrecedence

/-- Go `findOperatorPrecedenceForSymbol`; `LITERAL` takes the default branch. -/
def findOperatorPrecedenceForSymbol : OperatorSymbol → OperatorPrecedence
  | .NOOP => noopPrecedence
  | .VALUE => valuePrecedence
  | .EQ | .NEQ | .GT | .LT | .GTE | .LTE | .REQ | .NREQ | .IN => comparatorPrecedence
  | .AND => logicalAndPrecedence
  | .OR => logicalOrPrecedence
  | .BITWISE_AND | .BITWISE_OR | .BITWISE_XOR => bitwisePrecedence
  | .BITWISE_LSHIFT | .BITWISE_RSHIFT => bitwiseShiftPrecedence
  | .PLUS | .MINUS => additivePrecedence
  | .MULTIPLY | .DIVIDE | .MODULUS => multiplicativePrecedence
  | .EXPONENT => exponentialPrecedence
  | .BITWISE_NOT | .NEGATE | .INVERT => prefixPrecedence
  | .COALESCE | .TERNARY_TRUE | .TERNARY_FALSE => ternaryPrecedence
  | .ACCESS | .FUNCTIONAL => functionalPrecedence
  | .SEPARATE => separatePrecedence
  | .LITERAL => valuePrecedence

/-- Go `tOperatorSymbol.String`, used when formatting type errors. -/
def OperatorSymbol.toGoString : OperatorSymbol → String
  | .NOOP => "tNOOP"
  | .VALUE => "tVALUE"
  | .EQ => "="
  | .NEQ => "!="
  | .GT => ">"
  | .LT => "<"
  | .GTE => ">="
  | .LTE => "<="
  | .REQ => "=~"
  | .NREQ => "!~"
  | .AND => "&&"
  | .OR => "||"
  | .IN => "in"
  | .BITWISE_AND => "&"
  | .BITWISE_OR => "|"
  | .BITWISE_XOR => "^"
  | .BITWISE_LSHIFT => "<<"
  | .BITWISE_RSHIFT => ">>"
  | .PLUS => "+"
  | .MINUS => "-"
  | .MULTIPLY => "*"
  | .DIVIDE => "/"
  | .MODULUS => "%"
  | .EXPONENT => "**"
  | .NEGATE => "-"
  | .INVERT => "!"
  | .BITWISE_NOT => "~"
  | .TERNARY_TRUE => "?"
  | .TERNARY_FALSE => ":"
  | .COALESCE => "??"
  | .LITERAL | .FUNCTIONAL | .ACCESS | .SEPARATE => ""

/-! ## Lexeme tables -/

/-- A Go `map[string]tOperatorSymbol`, read with the comma-ok idiom. -/
abbrev SymbolMap := String → Option OperatorSymbol

/-- Go `comparatorSymbols`. -/
def comparatorSymbols : SymbolMap
  | "==" => some .EQ
  | "!=" => some .NEQ
  | ">" => some .GT
  | ">=" => some .GTE
  | "<" => some .LT
  | "<=" => some .LTE
  | "=~" => some .REQ
  | "!~" => some .NREQ
  | "in" => some .IN
  | _ => none

/-- Go `logicalSymbols`. -/
def logicalSymbols : SymbolMap
  | "&&" => some .AND
  | "||" => some .OR
  | _ => none

/-- Go `bitwiseSymbols`. -/
def bitwiseSymbols : SymbolMap
  | "^" => some .BITWISE_XOR
  | "&" => some .BITWISE_AND
  | "|" => some .BITWISE_OR
  | _ => none

/-- Go `bitwiseShiftSymbols`. -/
def bitwiseShiftSymbols : SymbolMap
  | ">>" => some .BITWISE_RSHIFT
  | "<<" => some .BITWISE_LSHIFT
  | _ => none

/-- Go `additiveSymbols`. -/
def additiveSymbols : SymbolMap
  | "+" => some .PLUS
  | "-" => some .MINUS
  | _ => none

/-- Go `multiplicativeSymbols`. -/
def multiplicativeSymbols : SymbolMap
  | "*" => some .MULTIPLY
  | "/" => some .DIVIDE
  | "%" => some .MODULUS
  | _ => none

/-- Go `exponentialSymbolsS`. -/
def exponentialSymbolsS : SymbolMap
  | "**" => some .EXPONENT
  | _ => none

/-- Go `prefixSymbols`. -/
def prefixSymbols : SymbolMap
  | "-" => some .NEGATE
  | "!" => some .INVERT
  | "~" => some .BITWISE_NOT
  | _ => none

/-- Go `ternarySymbols`. -/
def ternarySymbols : SymbolMap
  | "?" => some .TERNARY_TRUE
  | ":" => some .TERNARY_FALSE
  | "??" => some .COALESCE
  | _ => none

/-- Go `modifierSymbols`, the lexer's table of arithmetic and bitwise lexemes. -/
def modifierSymbols : SymbolMap
  | "+" => some .PLUS
  | "-" => some .MINUS
  | "*" => some .MULTIPLY
  | "/" => some .DIVIDE
  | "%" => some .MODULUS
  | "**" => some .EXPONENT
  | "&" => some .BITWISE_AND
  | "|" => some .BITWISE_OR
  | "^" => some .BITWISE_XOR
  | ">>" => some .BITWISE_RSHIFT
  | "<<" => some .BITWISE_LSHIFT
  | _ => none

/-- Go `separatorSymbols`. -/
def separatorSymbols : SymbolMap
  | "," => some .SEPARATE
  | _ => none

/-- The `map[string]tOperatorSymbol{"&&": tAND}` literal of `planLogicalAnd`. -/
def logicalAndSymbols : SymbolMap
  | "&&" => some .AND
  | _ => none

/-- The `map[string]tOperatorSymbol{"||": tOR}` literal of `planLogicalOr`. -/
def logicalOrSymbols : SymbolMap
  | "||" => some .OR
  | _ => none

end Geval
