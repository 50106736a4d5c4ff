import Mathlib.Data.String.Basic
import Mathlib.Algebra.Group.Nat.Basic
import Mathlib.Algebra.Group.Int
import Geval.Core.Stage

/-!
# Operators and type checks

What the operator closures of a stage compute, and the type-check predicates that
`findTypeChecks` attaches. Their Go implementations (`equalStage`, `addStage`,
`ternaryIfStage`, `isFloat64`, `additionTypeCheck`, …) are in a file of the repository that
is not under src/; each is modelled from the spec (§4.4 "Operator callables"). An operand
of the wrong dynamic type, which only reaches an operator when type checks are off, fails
inside the operator as a Go type assertion does. The bitwise operators convert their floats
to integers as Go does on amd64 (`toWord`, `toUnsignedWord`: an out-of-range float gives
`math.MinInt64`), and `%` is Go's `math.Mod`, the exact remainder with the sign of the
dividend (`goMod`).

Evaluation also needs what lies outside the engine: the caller's parameters, the functions
of the function table, the reflection walk of accessors, and Go's `regexp`. They are the
fields of a `World`.
-/

namespace Geval

/-- Go's `regexp` package as the engine uses it. -/
structure RegexpLibrary where
  /-- `regexp.Compile`: the pattern, or the compiler's error text. -/
  compile : String → Except String Pattern
  /-- `(*regexp.Regexp).MatchString`. -/
  matchString : Pattern → String → Bool

/-- What evaluation calls outside the engine. -/
structure World where
  regexp : RegexpLibrary
  /-- Calling an entry of the function table with its arguments. -/
  call : ExpressionFunction → List Value → Except String Value
  /-- The reflection walk of an accessor from the parameter named by its first segment,
  along the other segments; a method at the end is called with the right operand. -/
  access : Value → List String → Value → Except String Value

/-- Go `tParameters.tGet` on a parameter source: a value or an error. -/
abbrev Parameters := String → Result Value

/-- Go `tMapParameters.tGet` on a map. -/
def mapParameters (m : String → Option Value) : Parameters := fun name =>
  match m name with
  | some value => .ok value
  | none => fail ("No parameter '" ++ name ++ "' found.")

/-- A nil `tParameters`, as `elideStage` passes: any lookup dereferences nil. -/
def nilParameters : Parameters := fun _ => .error .nilDereference

/-- The numeric normalisation of the sanitizing adapter: Go integers become `float64`.
Modelled from the spec: "normalizes fetched numeric values to double, leaving other values
unchanged" (§4.5). -/
def sanitizeValue : Value → Value
  | .int i => .float (Float.ofInt i)
  | v => v

/-- `sanitizedParameters{parameters}`. -/
def sanitizedParameters (parameters : Parameters) : Parameters := fun name =>
  (parameters name).map sanitizeValue

/-- `tDUMMY_PARAMETERS`, the empty map used when the caller passes nil. -/
def dummyParameters : Parameters := mapParameters fun _ => none

/-! ## Type checks -/

/-- The unary checks. Modelled from the spec (§4.4). -/
def TypeCheck.run : TypeCheck → Value → Bool
  | .isString, .string _ => true
  | .isRegexOrString, .string _ => true
  | .isRegexOrString, .pattern _ => true
  | .isBool, .bool _ => true
  | .isFloat64, .float _ => true
  | .isArray, .list _ => true
  | _, _ => false

/-- The combined checks: numbers or strings on both sides. Modelled from the spec: "both
operands must be numbers or both strings", "PLUS allowing number+number or
string+string" (§3, §4.4). -/
def CombinedTypeCheck.run : CombinedTypeCheck → Value → Value → Bool
  | _, .float _, .float _ => true
  | _, .string _, .string _ => true
  | _, _, _ => false

/-! ## Values -/

namespace Value

/-- Go `reflect.DeepEqual` on these values: floats compare with `==` (so `NaN` is unequal
to itself), values of different dynamic types are unequal. -/
def deepEqual : Value → Value → Bool
  | null, null => true
  | bool a, bool b => a == b
  | float a, float b => a == b
  | int a, int b => a == b
  | string a, string b => a == b
  | pattern a, pattern b => a == b
  | list as, list bs => deepEqualList as bs
  | time a, time b => a == b
  | strings a, strings b => a == b
  | function a, function b => a == b
  | rune a, rune b => a == b
  | object a, object b => a == b
  | _, _ => false
where
  deepEqualList : List Value → List Value → Bool
    | [], [] => true
    | a :: as, b :: bs => deepEqual a b && deepEqualList as bs
    | _, _ => false

end Value

/-- Go's conversion `int64(x)` of a float on amd64 (`CVTTSD2SQ`), as a two's-complement word:
`x` truncated toward zero when that fits in an `int64`, and otherwise, `NaN` included, the
"integer indefinite" `math.MinInt64`. -/
def toWord (x : Float) : Nat :=
  if -9223372036854775808 ≤ x ∧ x < 9223372036854775808 then
    if x < 0 then (2 ^ 64 - (-x).toUInt64.toNat) % 2 ^ 64 else x.toUInt64.toNat
  else 2 ^ 63

/-- Go's conversion `uint64(x)` of a float on amd64: the `int64` conversion below `2^63`, and
above it the `int64` conversion of `x - 2^63` with the top bit set (so `2^63` for `NaN` and
from `2^64` up). -/
def toUnsignedWord (x : Float) : Nat :=
  if x < 9223372036854775808 then toWord x else toWord (x - 9223372036854775808) ||| 2 ^ 63

/-- `float64` of a two's-complement word read as a signed `int64`. -/
def ofSignedWord (n : Nat) : Float :=
  if n < 2 ^ 63 then Float.ofNat n else Float.ofInt ((n : Int) - 2 ^ 64)

/-- A finite float's magnitude, exactly: `|x| = m * 2^e` with `m < 2^53`. -/
def decodeMagnitude (x : Float) : Nat × Int :=
  let (fraction, exponent) := x.abs.frExp
  ((fraction.scaleB 53).toUInt64.toNat, exponent - 53)

/-- Go `math.Mod`: `NaN` for a zero divisor, an infinite dividend or a `NaN`; otherwise the exact
remainder `x - n * y` of the truncated quotient `n`, with the sign of `x` (so `x` itself when
`|x| < |y|`, an infinite `y` included). Both magnitudes are read exactly as integers times a
common power of two, whose remainder is below `2^53`. -/
def goMod (x y : Float) : Float :=
  if y == 0 || x.isInf || x.isNaN || y.isNaN then 0 / 0
  else if x.abs < y.abs then x
  else
    let (mx, ex) := decodeMagnitude x
    let (my, ey) := decodeMagnitude y
    let e := min ex ey
    let r := (mx * 2 ^ (ex - e).toNat) % (my * 2 ^ (ey - e).toNat)
    let magnitude := r.toUInt64.toFloat.scaleB e
    if x < 0 then -magnitude else magnitude

/-! ## The operator of each symbol -/

/-- The operators of `stageSymbolMap`. Modelled from the spec (§4.4 "Operator
callables"); `TERNARY_FALSE` and `COALESCE` share `ternaryElseStage`, whose no-value is nil
(the sentinel §4.4 gives for `COALESCE`), and `ternaryIfStage` yields that nil when its
condition is false. -/
def symbolOperator (regexp : RegexpLibrary) : OperatorSymbol → Value → Value → Result Value
  | .EQ, l, r => .ok (.bool (l.deepEqual r))
  | .NEQ, l, r => .ok (.bool !(l.deepEqual r))
  | .GT, .float l, .float r => .ok (.bool (l > r))
  | .GT, .string l, .string r => .ok (.bool (l > r))
  | .LT, .float l, .float r => .ok (.bool (l < r))
  | .LT, .string l, .string r => .ok (.bool (l < r))
  | .GTE, .float l, .float r => .ok (.bool (l ≥ r))
  | .GTE, .string l, .string r => .ok (.bool (l ≥ r))
  | .LTE, .float l, .float r => .ok (.bool (l ≤ r))
  | .LTE, .string l, .string r => .ok (.bool (l ≤ r))
  | .REQ, .string l, .pattern p => .ok (.bool (regexp.matchString p l))
  | .REQ, .string l, .string r =>
    match regexp.compile r with
    | .ok p => .ok (.bool (regexp.matchString p l))
    | .error e => fail ("Unable to compile regexp pattern '" ++ r ++ "': " ++ e)
  | .NREQ, .string l, .pattern p => .ok (.bool !(regexp.matchString p l))
  | .NREQ, .string l, .string r =>
    match regexp.compile r with
    | .ok p => .ok (.bool !(regexp.matchString p l))
    | .error e => fail ("Unable to compile regexp pattern '" ++ r ++ "': " ++ e)
  | .IN, l, .list items => .ok (.bool (items.any l.deepEqual))
  | .AND, .bool l, .bool r => .ok (.bool (l && r))
  | .OR, .bool l, .bool r => .ok (.bool (l || r))
  | .PLUS, .float l, .float r => .ok (.float (l + r))
  | .PLUS, .string l, .string r => .ok (.string (l ++ r))
  | .MINUS, .float l, .float r => .ok (.float (l - r))
  | .MULTIPLY, .float l, .float r => .ok (.float (l * r))
  | .DIVIDE, .float l, .float r => .ok (.float (l / r))
  | .MODULUS, .float l, .float r => .ok (.float (goMod l r))
  | .EXPONENT, .float l, .float r => .ok (.float (l.pow r))
  | .BITWISE_AND, .float l, .float r => .ok (.float (ofSignedWord (toWord l &&& toWord r)))
  | .BITWISE_OR, .float l, .float r => .ok (.float (ofSignedWord (toWord l ||| toWord r)))
  | .BITWISE_XOR, .float l, .float r => .ok (.float (ofSignedWord (toWord l ^^^ toWord r)))
  | .BITWISE_LSHIFT, .float l, .float r =>
    .ok (.float (if 64 ≤ toUnsignedWord r then 0
      else Float.ofNat ((toUnsignedWord l <<< toUnsignedWord r) % 2 ^ 64)))
  | .BITWISE_RSHIFT, .float l, .float r =>
    .ok (.float (if 64 ≤ toUnsignedWord r then 0
      else Float.ofNat (toUnsignedWord l >>> toUnsignedWord r)))
  | .NEGATE, _, .float r => .ok (.float (-r))
  | .INVERT, _, .bool r => .ok (.bool !r)
  | .BITWISE_NOT, _, .float r => .ok (.float (ofSignedWord (2 ^ 64 - 1 - toWord r)))
  | .TERNARY_TRUE, .bool c, r => .ok (if c then r else .null)
  | .TERNARY_FALSE, l, r => .ok (if l.isNull then r else l)
  | .COALESCE, l, r => .ok (if l.isNull then r else l)
  | .SEPARATE, .list items, r => .ok (.list (items ++ [r]))
  | .SEPARATE, l, r => .ok (.list [l, r])
  | .VALUE, _, _ | .LITERAL, _, _ | .NOOP, _, _ | .FUNCTIONAL, _, _ | .ACCESS, _, _ =>
    .error .nilDereference
  | _, _, _ => .error .typeAssertion

/-- An external call an operator makes: what `evaluateStage` records for it. -/
inductive Call
  | lookup (name : String)
  | access (path : List String)
  | call (f : ExpressionFunction)
  deriving DecidableEq, Repr

/-- The external call of an operator, if it makes one. -/
def StageOperator.call? : StageOperator → Option Call
  | .parameter name => some (.lookup name)
  | .accessor path => some (.access path)
  | .function f => some (.call f)
  | _ => none

/-- The arguments `makeFunctionStage` passes: none for nil, the items of a list, or the
single value. -/
def functionArguments : Value → List Value
  | .null => []
  | .list items => items
  | v => [v]

/-- Running a stage's operator on its operands. Modelled from the spec: a parameter stage
returns the parameter's value, a literal its value, `NOOP` its right operand, a function
stage calls its function on the right operand's value list, an accessor stage walks its path
from the parameter of its first segment (§4.4). -/
def StageOperator.run (world : World) (parameters : Parameters) :
    StageOperator → Value → Value → Result Value
  | .symbol s, l, r => symbolOperator world.regexp s l r
  | .parameter name, _, _ => parameters name
  | .literal v, _, _ => .ok v
  | .noopRight, _, r => .ok r
  | .function f, _, r => (world.call f (functionArguments r)).mapError .error
  | .accessor path, _, r =>
    match path with
    | [] => .error (.indexOutOfRange 0)
    | first :: rest => do
      let target ← parameters first
      (world.access target rest r).mapError .error

end Geval
