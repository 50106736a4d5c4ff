import Geval.Core.OperatorSymbol

/-!
# Token kinds, values and faults

`tTokenKind` of `TokenKind.go`, the dynamic values that flow through tokens and stages
(Go `interface{}`), and `Fault`, the two ways a Go function of the engine can end
without a result: a returned `error`, or a runtime panic on an index out of range.

Values that the engine only passes along are kept abstract: a compiled pattern is known
by its source, a function of the function table by its name, and a Go object reached by
an accessor by a number. What they do is supplied at evaluation time (`World`).
-/

namespace Geval

/-- Go `tTokenKind`. -/
inductive TokenKind
  | UNKNOWN | PREFIX | NUMERIC | BOOLEAN | STRING | PATTERN | TIME | VARIABLE | FUNCTION
  | SEPARATOR | ACCESSOR | COMPARATOR | LOGICALOP | MODIFIER | CLAUSE | CLAUSE_CLOSE
  | TERNARY
  deriving DecidableEq, Repr, Inhabited

/-- Go `tTokenKind.tString`. -/
def TokenKind.tString : TokenKind → String
  | .PREFIX => "tPREFIX"
  | .NUMERIC => "tNUMERIC"
  | .BOOLEAN => "tBOOLEAN"
  | .STRING => "tSTRING"
  | .PATTERN => "tPATTERN"
  | .TIME => "tTIME"
  | .VARIABLE => "tVARIABLE"
  | .FUNCTION => "tFUNCTION"
  | .SEPARATOR => "tSEPARATOR"
  | .COMPARATOR => "tCOMPARATOR"
  | .LOGICALOP => "tLOGICALOP"
  | .MODIFIER => "tMODIFIER"
  | .CLAUSE => "tCLAUSE"
  | .CLAUSE_CLOSE => "tCLAUSE_CLOSE"
  | .TERNARY => "tTERNARY"
  | .ACCESSOR => "tACCESSOR"
  | .UNKNOWN => "tUNKNOWN"

/-- A compiled regular expression (Go `*regexp.Regexp`), known by its source text. -/
structure Pattern where
  source : String
  deriving DecidableEq, Repr, Inhabited

/-- An entry of the function table (Go `tExpressionFunction`), known by its name. -/
structure ExpressionFunction where
  name : String
  deriving DecidableEq, Repr, Inhabited

/-- A Go `interface{}` as the engine meets it. `int` is a Go `int` (the evaluator's
short-circuit holder is one), `time` a `time.Time` by its Unix seconds, `strings` a
`[]string` (an accessor path), `rune` the value of a parenthesis token, `object` any
other Go value, reached only through accessors. -/
inductive Value
  | null
  | bool (b : Bool)
  | float (x : Float)
  | int (i : Int)
  | string (s : String)
  | pattern (p : Pattern)
  | list (items : List Value)
  | time (unix : Int)
  | strings (segments : List String)
  | function (f : ExpressionFunction)
  | rune (c : Char)
  | object (id : Nat)
  deriving Repr, Inhabited

namespace Value

/-- Go `value == nil`. -/
def isNull : Value → Bool
  | null => true
  | _ => false

/-- Go `isString`: the dynamic type is `string`. -/
def isString : Value → Bool
  | string _ => true
  | _ => false

/-- Go `%v` for the values that reach an error message. Floats are printed by Lean's
`Float.toString`, which differs from Go's shortest form. -/
def format : Value → String
  | null => "<nil>"
  | bool b => toString b
  | float x => toString x
  | int i => toString i
  | string s => s
  | pattern p => p.source
  | list _ => "[...]"
  | time t => toString t
  | strings ss => "[" ++ " ".intercalate ss ++ "]"
  | function f => f.name
  | rune c => toString c.toNat
  | object n => "object " ++ toString n

@[simp] theorem isNull_iff (v : Value) : v.isNull = true ↔ v = null := by
  cases v <;> simp [isNull]

end Value

/-- Go `tExpressionToken`. -/
structure ExpressionToken where
  kind : TokenKind
  value : Value
  deriving Repr, Inhabited

/-- How a Go function of the engine ends without a result. -/
inductive Fault
  /-- A returned Go `error`, with its message. -/
  | error (message : String)
  /-- A runtime panic: a slice or string read at an index outside its bounds. -/
  | indexOutOfRange (index : Int)
  /-- A runtime panic: a failed type assertion `x.(T)`. -/
  | typeAssertion
  /-- A runtime panic: a field of a nil pointer read. -/
  | nilDereference
  /-- The model's recursion bound was exhausted (never reached on the inputs the
  theorems cover; see `Geval.Planner.Safety`). -/
  | outOfFuel
  deriving DecidableEq, Repr, Inhabited

/-- A Go `error` return, or a panic. -/
abbrev Result (α : Type) := Except Fault α

/-- Failing with a Go `error` message. -/
def fail {α : Type} (message : String) : Result α := .error (.error message)

end Geval
