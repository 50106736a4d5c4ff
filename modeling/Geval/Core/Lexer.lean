import Mathlib.Algebra.Group.Nat.Basic
import Mathlib.Algebra.Group.Int
import Geval.Core.LexerState

/-!
# The lexer

`parseTokens`, `readToken`, `readTokenUntilFalse` and `readUntilFalse` of `TokenKind.go`,
over a character cursor (Go `lexerStream`, declared in a file of the repository that is not
under src/: a rune slice, a position, `canRead`, `readCharacter` and `rewind`).

Go's `unicode` predicates decide Latin-1 (or ASCII, for case mapping) inline and consult
tables above it; those tables, and `tryParseTime` (Go's `time` layouts), are the fields of
`LexerTables`. `strconv.ParseUint` and `strconv.ParseFloat` are decided here on the strings
the lexer hands them (hex digits; digits and dots). `parseFloat` rounds exactly, on naturals:
the `float64` nearest the decimal value, ties to even, subnormals included, and `ErrRange` from
`2^1024` up (`Geval.Lexer.Rounding` proves that it rounds so).

The loops of the source are recursions on a fuel bound, the number of characters of the
input plus one: each iteration reads at least one character.
-/

namespace Geval

/-- Go `lexerStream`: the runes of the expression and a position. -/
structure LexerStream where
  source : List Char
  position : Int
  deriving Repr

/-- Go `newLexerStream`. -/
def newLexerStream (expression : String) : LexerStream := ⟨expression.toList, 0⟩

namespace LexerStream

/-- Go `lexerStream.canRead`. -/
def canRead (s : LexerStream) : Bool := decide (s.position < s.source.length)

/-- Go `lexerStream.readCharacter`: `source[position]` panics outside `[0, length)`. -/
def readCharacter (s : LexerStream) : Result (Char × LexerStream) :=
  match s.source[s.position.toNat]? with
  | some c => if 0 ≤ s.position then .ok (c, { s with position := s.position + 1 })
    else .error (.indexOutOfRange s.position)
  | none => .error (.indexOutOfRange s.position)

/-- Go `lexerStream.rewind`. -/
def rewind (s : LexerStream) (amount : Int) : LexerStream :=
  { s with position := s.position - amount }

end LexerStream

/-! ## Character classes -/

/-- The parts of Go's `unicode` and `time` packages the lexer consults beyond what is
decided inline. -/
structure LexerTables where
  /-- `unicode.IsLetter` above U+00FF. -/
  letterAboveLatin1 : Char → Bool
  /-- `unicode.IsDigit` above U+00FF. -/
  digitAboveLatin1 : Char → Bool
  /-- `unicode.ToUpper` above U+007F. -/
  upperAboveAscii : Char → Char
  /-- `unicode.ToLower` above U+007F. -/
  lowerAboveAscii : Char → Char
  /-- `tryParseTime`: the Unix seconds of the first layout that parses the text. -/
  tryParseTime : String → Option Int

section Classes

variable (tables : LexerTables)

/-- Go `unicode.IsSpace`: the Latin-1 list, and the White_Space table above it. -/
def isSpace (c : Char) : Bool :=
  let n := c.toNat
  if n ≤ 0xFF then n = 0x09 || n = 0x0A || n = 0x0B || n = 0x0C || n = 0x0D || n = 0x20 ||
    n = 0x85 || n = 0xA0
  else n = 0x1680 || (0x2000 ≤ n && n ≤ 0x200A) || n = 0x2028 || n = 0x2029 || n = 0x202F ||
    n = 0x205F || n = 0x3000

/-- Go `unicode.IsLetter` on Latin-1: the letters of the Latin-1 properties table. -/
def isLatin1Letter (c : Char) : Bool :=
  let n := c.toNat
  (0x41 ≤ n && n ≤ 0x5A) || (0x61 ≤ n && n ≤ 0x7A) || n = 0xAA || n = 0xB5 || n = 0xBA ||
    (0xC0 ≤ n && n ≤ 0xD6) || (0xD8 ≤ n && n ≤ 0xF6) || (0xF8 ≤ n && n ≤ 0xFF)

/-- Go `unicode.IsLetter`. -/
def isLetter (c : Char) : Bool :=
  if c.toNat ≤ 0xFF then isLatin1Letter c else tables.letterAboveLatin1 c

/-- Go `isDigit`, that is `unicode.IsDigit`. -/
def isDigit (c : Char) : Bool :=
  if c.toNat ≤ 0xFF then '0' ≤ c && c ≤ '9' else tables.digitAboveLatin1 c

/-- Go `unicode.ToUpper`. -/
def toUpper (c : Char) : Char :=
  if c.toNat ≤ 0x7F then (if 'a' ≤ c && c ≤ 'z' then Char.ofNat (c.toNat - 32) else c)
  else tables.upperAboveAscii c

/-- Go `unicode.ToLower`. -/
def toLower (c : Char) : Char :=
  if c.toNat ≤ 0x7F then (if 'A' ≤ c && c ≤ 'Z' then Char.ofNat (c.toNat + 32) else c)
  else tables.lowerAboveAscii c

/-- Go `isHexDigit`. -/
def isHexDigit (c : Char) : Bool :=
  let c := toLower tables c
  isDigit tables c || c = 'a' || c = 'b' || c = 'c' || c = 'd' || c = 'e' || c = 'f'

/-- Go `isNumeric`. -/
def isNumeric (c : Char) : Bool := isDigit tables c || c = '.'

/-- Go `isNotQuote`: shared by both quote characters. -/
def isNotQuote (c : Char) : Bool := c ≠ '\'' && c ≠ '"'

/-- Go `isNotAlphanumeric`. -/
def isNotAlphanumeric (c : Char) : Bool :=
  !(isDigit tables c || isLetter tables c || c = '(' || c = ')' || c = '[' || c = ']' ||
    !isNotQuote c)

/-- Go `isVariableName`. -/
def isVariableName (c : Char) : Bool :=
  isLetter tables c || isDigit tables c || c = '_' || c = '.'

/-- Go `isNotClosingBracket`. -/
def isNotClosingBracket (c : Char) : Bool := c ≠ ']'

end Classes

/-! ## `strconv` on the lexer's strings -/

/-- The value of an ASCII hex digit. -/
def hexDigitValue (c : Char) : Option Nat :=
  if '0' ≤ c ∧ c ≤ '9' then some (c.toNat - '0'.toNat)
  else if 'a' ≤ c ∧ c ≤ 'f' then some (c.toNat - 'a'.toNat + 10)
  else if 'A' ≤ c ∧ c ≤ 'F' then some (c.toNat - 'A'.toNat + 10)
  else none

/-- Go `strconv.ParseUint(s, 16, 64)`: ASCII hex digits, at least one, below `2^64`. -/
def parseUint16 (s : String) : Option Nat :=
  if s.isEmpty then none
  else
    (s.toList.foldlM (fun acc c => (hexDigitValue c).map (acc * 16 + ·)) 0).bind fun n =>
      if n < 2 ^ 64 then some n else none

/-- The nearest natural number to `a / d`, ties to even. -/
def rne (a d : Nat) : Nat :=
  if 2 * (a % d) < d then a / d
  else if d < 2 * (a % d) then a / d + 1
  else if a / d % 2 = 0 then a / d else a / d + 1

/-- The unit exponent of the binade of `a / d` (`a, d > 0`), in units of the smallest
subnormal `2^-1074`: the `p` for which `a / (d * 2^p)` is a 53-bit significand, or `0` below
the normal range. `Nat.log2` of the quotient is that of `a` less that of `d`, or one less. -/
def ulpExp (a d : Nat) : Nat :=
  let p := a.log2 - (d.log2 + 52)
  if 0 < p ∧ a < d * 2 ^ (p - 1 + 53) then p - 1 else p

/-- The `float64` magnitude nearest `a / (d * 2^1074)`, ties to even: a significand `m` and
unit exponent `p`, the value `m * 2^(p - 1074)`; `none` at `2^1024` and above, where
`strconv.ParseFloat` fails with `ErrRange`. -/
def roundMag (a d : Nat) : Option (Nat × Nat) :=
  let p := ulpExp a d
  let m := rne a (d * 2 ^ p)
  if m * 2 ^ p < 2 ^ 2098 then some (m, p) else none

/-- The `Float` of a significand and unit exponent. It is exact: `m ≤ 2^53` and the value is a
multiple of `2^-1074`. -/
def floatOfMag (m p : Nat) : Float := m.toUInt64.toFloat.scaleB ((p : Int) - 1074)

/-- The value of a string of ASCII digits with at most one dot and at least one digit, as a
numerator and a power of ten. -/
def decimalValue (s : String) : Option (Nat × Nat) :=
  let chars := s.toList
  let digits := chars.filter (· ≠ '.')
  if chars.count '.' ≤ 1 ∧ digits ≠ [] ∧ digits.all Char.isDigit then
    some (digits.foldl (fun acc c => acc * 10 + (c.toNat - '0'.toNat)) 0,
      10 ^ ((chars.dropWhile (· ≠ '.')).drop 1).length)
  else none

/-- Go `strconv.ParseFloat(s, 64)` on a string of digits and dots (all that `readToken` hands
it): the `float64` nearest the decimal value, ties to even, subnormals included; `none` on a
syntax error and on overflow (`ErrRange`). -/
def parseFloat (s : String) : Option Float :=
  (decimalValue s).bind fun (num, den) =>
    (roundMag (num * 2 ^ 1074) den).map fun (m, p) => floatOfMag m p

/-! ## Reading loops -/

section Reading

variable (tables : LexerTables)

/-- The loop of Go `readUntilFalse` with the text read so far: the text and whether the
loop stopped at whitespace or at a character failing `condition` (rather than at the end of
the input). A backslash escapes the next character, which is read unconditionally. -/
def readUntilFalseLoop (includeWhitespace breakWhitespace allowEscaping : Bool)
    (condition : Char → Bool) : Nat → List Char → LexerStream →
      Result (List Char × Bool × LexerStream)
  | 0, _, _ => .error .outOfFuel
  | fuel + 1, buffer, stream =>
    if !stream.canRead then .ok (buffer, false, stream)
    else match stream.readCharacter with
      | .error e => .error e
      | .ok (character, stream) =>
        if allowEscaping && character = '\\' then
          match stream.readCharacter with
          | .error e => .error e
          | .ok (character, stream) =>
            readUntilFalseLoop includeWhitespace breakWhitespace allowEscaping condition fuel
              (buffer ++ [character]) stream
        else if isSpace character && breakWhitespace && buffer ≠ [] then
          .ok (buffer, true, stream)
        else if isSpace character && !includeWhitespace then
          readUntilFalseLoop includeWhitespace breakWhitespace allowEscaping condition fuel
            buffer stream
        else if condition character then
          readUntilFalseLoop includeWhitespace breakWhitespace allowEscaping condition fuel
            (buffer ++ [character]) stream
        else .ok (buffer, true, stream.rewind 1)

/-- Go `readUntilFalse`. -/
def readUntilFalse (stream : LexerStream) (includeWhitespace breakWhitespace allowEscaping : Bool)
    (condition : Char → Bool) : Result (String × Bool × LexerStream) :=
  (readUntilFalseLoop includeWhitespace breakWhitespace allowEscaping condition
    (stream.source.length + 1) [] stream).map fun (buffer, conditioned, stream) =>
      (String.mk buffer, conditioned, stream)

/-- Go `readTokenUntilFalse`: back up to the character just read, then read a run. -/
def readTokenUntilFalse (stream : LexerStream) (condition : Char → Bool) :
    Result (String × LexerStream) :=
  (readUntilFalse (stream.rewind 1) false true true condition).map fun (s, _, stream) =>
    (s, stream)

/-- A token of `readToken` and the cursor after it. -/
abbrev TokenRead := Result (ExpressionToken × LexerStream)

/-- The branch of `readToken` for a numeric character: a `0x` hex literal, or a run of
digits and dots. -/
def readNumeric (character : Char) (stream : LexerStream) : TokenRead := do
  let decimal := fun (stream : LexerStream) => do
    let (tokenString, stream) ← readTokenUntilFalse stream (isNumeric tables)
    match parseFloat tokenString with
    | some value => pure (⟨.NUMERIC, .float value⟩, stream)
    | none => fail ("Unable to parse numeric value '" ++ tokenString ++ "' to float64\n")
  if stream.canRead && character = '0' then
    let (character, stream) ← stream.readCharacter
    if stream.canRead && character = 'x' then
      let (tokenString, _, stream) ← readUntilFalse stream false true true (isHexDigit tables)
      match parseUint16 tokenString with
      | some value => pure (⟨.NUMERIC, .float (Float.ofNat value)⟩, stream)
      | none => fail ("Unable to parse hex value '" ++ tokenString ++ "' to uint64\n")
    else decimal (stream.rewind 1)
  else decimal stream

/-- Go `getFirstRune`. -/
def getFirstRune (candidate : String) : Char := candidate.toList.headD (Char.ofNat 0)

/-- The check of `readToken` that no accessor segment after the first is unexported. -/
def checkExported (tokenString : String) : List String → Result Unit
  | [] => .ok ()
  | split :: splits =>
    let firstCharacter := getFirstRune split
    if toUpper tables firstCharacter ≠ firstCharacter then
      fail ("Unable to access unexported field '" ++ split ++ "' in token '" ++ tokenString ++ "'")
    else checkExported tokenString splits

/-- The branch of `readToken` for a letter: a boolean, `in`, a function, an accessor or a
variable, each test overriding the one before. -/
def readIdentifier (functions : String → Option ExpressionFunction) (stream : LexerStream) :
    TokenRead := do
  let (tokenString, stream) ← readTokenUntilFalse stream (isVariableName tables)
  let token : ExpressionToken :=
    if tokenString = "true" then ⟨.BOOLEAN, .bool true⟩
    else if tokenString = "false" then ⟨.BOOLEAN, .bool false⟩
    else ⟨.VARIABLE, .string tokenString⟩
  let token : ExpressionToken :=
    if tokenString = "in" ∨ tokenString = "tIN" then ⟨.COMPARATOR, .string "in"⟩ else token
  let token : ExpressionToken :=
    match functions tokenString with
    | some function => ⟨.FUNCTION, .function function⟩
    | none => token
  if '.' ∈ tokenString.toList then
    if tokenString.toList.getLast? = some '.' then
      fail ("Hanging accessor on token '" ++ tokenString ++ "'")
    else
      let splits := tokenString.splitOn "."
      checkExported tables tokenString (splits.drop 1)
      pure (⟨.ACCESSOR, .strings splits⟩, stream)
  else pure (token, stream)

/-- The branch of `readToken` for any other character: a run of symbol characters,
classified with the lexer state (a prefix only where the state admits one). -/
def readSymbol (state : LexerState) (stream : LexerStream) : TokenRead := do
  let (tokenString, stream) ← readTokenUntilFalse stream (isNotAlphanumeric tables)
  let token := fun kind => pure (⟨kind, .string tokenString⟩, stream)
  if state.canTransitionTo .PREFIX ∧ (prefixSymbols tokenString).isSome then token .PREFIX
  else if (modifierSymbols tokenString).isSome then token .MODIFIER
  else if (logicalSymbols tokenString).isSome then token .LOGICALOP
  else if (comparatorSymbols tokenString).isSome then token .COMPARATOR
  else if (ternarySymbols tokenString).isSome then token .TERNARY
  else fail ("Invalid token: '" ++ tokenString ++ "'")

/-- The body of `readToken` after it has read the non-space `character`. -/
def readTokenAt (functions : String → Option ExpressionFunction) (state : LexerState)
    (character : Char) (stream : LexerStream) : TokenRead :=
  if isNumeric tables character then readNumeric tables character stream
  else if character = ',' then .ok (⟨.SEPARATOR, .string ","⟩, stream)
  else if character = '[' then do
    let (tokenValue, completed, stream) ← readUntilFalse stream true false true isNotClosingBracket
    if !completed then fail "Unclosed parameter bracket"
    -- the loop above leaves the stream at the closing bracket, which is skipped
    else pure (⟨.VARIABLE, .string tokenValue⟩, stream.rewind (-1))
  else if isLetter tables character then readIdentifier tables functions stream
  else if !isNotQuote character then do
    let (tokenValue, completed, stream) ← readUntilFalse stream true false true isNotQuote
    if !completed then fail "Unclosed string literal"
    else
      -- advance past the terminator
      let stream := stream.rewind (-1)
      match tables.tryParseTime tokenValue with
      | some unix => pure (⟨.TIME, .time unix⟩, stream)
      | none => pure (⟨.STRING, .string tokenValue⟩, stream)
  else if character = '(' then .ok (⟨.CLAUSE, .rune character⟩, stream)
  else if character = ')' then .ok (⟨.CLAUSE_CLOSE, .rune character⟩, stream)
  else readSymbol tables state stream

/-- Go `readToken`: skip whitespace, then read one token; `none` when the input ends first
(Go's `found = false`). -/
def readTokenLoop (functions : String → Option ExpressionFunction) (state : LexerState) :
    Nat → LexerStream → Result (Option ExpressionToken × LexerStream)
  | 0, _ => .error .outOfFuel
  | fuel + 1, stream =>
    if !stream.canRead then .ok (none, stream)
    else match stream.readCharacter with
      | .error e => .error e
      | .ok (character, stream) =>
        if isSpace character then readTokenLoop functions state fuel stream
        else (readTokenAt tables functions state character stream).map fun (token, stream) =>
          (some token, stream)

/-- Go `readToken`. -/
def readToken (stream : LexerStream) (state : LexerState)
    (functions : String → Option ExpressionFunction) :
    Result (Option ExpressionToken × LexerStream) :=
  readTokenLoop tables functions state (stream.source.length + 1) stream

/-- The loop of `parseTokens`: the tokens read so far and the state of the last one. -/
def parseTokensLoop (functions : String → Option ExpressionFunction) :
    Nat → List ExpressionToken → LexerState → LexerStream → Result (List ExpressionToken)
  | 0, _, _, _ => .error .outOfFuel
  | fuel + 1, tokens, state, stream =>
    if !stream.canRead then .ok tokens
    else match readToken tables stream state functions with
      | .error e => .error e
      | .ok (none, _) => .ok tokens
      | .ok (some token, stream) =>
        match getLexerStateForToken token.kind with
        | .error e => .error e
        | .ok state => parseTokensLoop functions fuel (tokens ++ [token]) state stream

/-- Go `parseTokens`. -/
def parseTokens (expression : String) (functions : String → Option ExpressionFunction) :
    Result (List ExpressionToken) := do
  let tokens ← parseTokensLoop tables functions (expression.length + 1) [] startState
    (newLexerStream expression)
  checkBalance tokens
  pure tokens

end Reading

end Geval
