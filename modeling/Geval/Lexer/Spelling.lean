import Geval.Lexer.Delimited
import Geval.Lexer.Accessor
import Geval.Syntax.Accepted

/-!
# The lexer reads back what is written

A token is written as the text the branch of `readToken` that makes it reads
(`Spells`): a run of digits and dots that `strconv.ParseFloat` parses, `0x` and a run of hex
digits that `strconv.ParseUint` parses, a bracketed or quoted
literal with its escapes, a parenthesis, a comma, a run of identifier characters (a boolean,
`in`, a function of the table, a variable or an accessor), or a run of symbol characters. An
operator's kind depends on the state of the token before it: a prefix operator is read only
where that state admits one, and the four operator tables after `prefixSymbols` are disjoint.

`parseTokens_render`: for every token list spelled from the start state, `parseTokens` of the
texts, each followed by a space, returns the tokens, or the balance error when their
parentheses do not balance. The
proof follows the lexer's loops: a run is read up to the space after it
(`readUntilFalseLoop_run`), one lemma per branch of `readToken` (`readTokenAt_spells`), and
an induction over the token list for `parseTokensLoop` (`parseTokensLoop_spelled`).

The lexer's state is the row of the transition table that `checkExpressionSyntax` drives. So
on a list the checker accepts, a text that spells its token from every row admitting the
token's kind (`Writes`) is read back in place: `parseTokens_render_accepted`. The one fact of
the table this needs is that no row admitting an operator admits a prefix
(`canTransitionTo_prefix_of_operator`), so that a `-` the checker takes for a subtraction is
never read as a negation.
-/

namespace Geval

/-- A run `readTokenUntilFalse` reads whole: characters the condition keeps, none a space,
none a backslash (which would escape the next one). -/
def IsRun (condition : Char → Bool) (text : List Char) : Prop :=
  ∀ c ∈ text, condition c = true ∧ isSpace c = false ∧ c ≠ '\\'

instance {condition : Char → Bool} {text : List Char} : Decidable (IsRun condition text) :=
  inferInstanceAs (Decidable (∀ c ∈ text, condition c = true ∧ isSpace c = false ∧ c ≠ '\\'))

section Runs

variable {condition : Char → Bool} {source rest : List Char}

/-- The loop of `readTokenUntilFalse` reads a run up to the space after it, and steps over the
space. -/
theorem readUntilFalseLoop_run : ∀ (text : List Char) (i : Nat) (buffer : List Char) (fuel : Nat),
    source.drop i = text ++ ' ' :: rest → text.length < fuel → buffer ++ text ≠ [] →
      IsRun condition text →
      readUntilFalseLoop false true true condition fuel buffer ⟨source, i⟩ =
        .ok (buffer ++ text, true, ⟨source, ((i + text.length + 1 : Nat) : Int)⟩)
  | [], i, buffer, fuel + 1, hdrop, _, hbuffer, _ => by
    obtain ⟨hc, -⟩ := drop_eq_cons hdrop
    have hi : i < source.length := (List.getElem?_eq_some_iff.mp hc).1
    simp only [List.append_nil] at hbuffer
    have hspace : isSpace ' ' = true := rfl
    simp [readUntilFalseLoop, LexerStream.canRead_eq, hi,
      LexerStream.readCharacter_eq (Int.ofNat_nonneg i) (by simpa using hc), hbuffer, hspace]
  | c :: cs, i, buffer, fuel + 1, hdrop, hfuel, _, hrun => by
    obtain ⟨hc, hdrop⟩ := drop_eq_cons hdrop
    have hi : i < source.length := (List.getElem?_eq_some_iff.mp hc).1
    obtain ⟨hcond, hspace, hback⟩ := hrun c (List.mem_cons_self c cs)
    have ih := readUntilFalseLoop_run cs (i + 1) (buffer ++ [c]) fuel hdrop
      (by simp only [List.length_cons] at hfuel; omega) (by simp)
      fun c' hc' => hrun c' (List.mem_cons_of_mem c hc')
    simp only [readUntilFalseLoop, LexerStream.canRead_eq, Int.ofNat_lt, hi, decide_True,
      Bool.not_true, Bool.false_eq_true, if_false,
      LexerStream.readCharacter_eq (Int.ofNat_nonneg i) (by simpa using hc), hback,
      decide_False, Bool.and_false, hspace, Bool.false_and, hcond, if_true]
    rw [show (i : Int) + 1 = ((i + 1 : Nat) : Int) by push_cast; rfl, ih]
    simp only [List.append_assoc, List.singleton_append, List.length_cons]
    rw [show i + 1 + cs.length + 1 = i + (cs.length + 1) + 1 by omega]

/-- `readTokenUntilFalse`, called just after the first character of a run, reads the run and
steps over the space after it. -/
theorem readTokenUntilFalse_run {text : List Char} {p : Nat}
    (hdrop : source.drop p = text ++ ' ' :: rest) (hne : text ≠ []) (hrun : IsRun condition text) :
    readTokenUntilFalse ⟨source, ((p + 1 : Nat) : Int)⟩ condition =
      .ok (String.mk text, ⟨source, ((p + text.length + 1 : Nat) : Int)⟩) := by
  have hlen := congrArg List.length hdrop
  simp only [List.length_drop, List.length_append, List.length_cons] at hlen
  have hloop := readUntilFalseLoop_run text p [] (source.length + 1) hdrop (by omega)
    (by simpa using hne) hrun
  simp only [readTokenUntilFalse, readUntilFalse, LexerStream.rewind]
  rw [show ((p + 1 : Nat) : Int) - 1 = (p : Int) by omega, hloop]
  rfl

end Runs

section Skip

variable {tables : LexerTables} {functions : String → Option ExpressionFunction}
  {state : LexerState} {source : List Char}

/-- `readToken` steps over the spaces before a token and reads from its first character. -/
theorem readTokenLoop_spaces {c : Char} {more : List Char} (hc : isSpace c = false) :
    ∀ (ws : List Char) (i fuel : Nat), source.drop i = ws ++ c :: more →
      (∀ w ∈ ws, isSpace w = true) → ws.length < fuel →
      readTokenLoop tables functions state fuel ⟨source, i⟩ =
        (readTokenAt tables functions state c ⟨source, ((i + ws.length + 1 : Nat) : Int)⟩).map
          fun r => (some r.1, r.2)
  | [], i, fuel + 1, hdrop, _, _ => by
    obtain ⟨hci, -⟩ := drop_eq_cons hdrop
    have hi : i < source.length := (List.getElem?_eq_some_iff.mp hci).1
    simp only [readTokenLoop, LexerStream.canRead_eq, Int.ofNat_lt, hi, decide_True,
      Bool.not_true, Bool.false_eq_true, if_false,
      LexerStream.readCharacter_eq (Int.ofNat_nonneg i) (by simpa using hci), hc]
    rfl
  | w :: ws, i, fuel + 1, hdrop, hws, hfuel => by
    obtain ⟨hwi, hdrop⟩ := drop_eq_cons hdrop
    have hi : i < source.length := (List.getElem?_eq_some_iff.mp hwi).1
    have ih := readTokenLoop_spaces hc ws (i + 1) fuel hdrop
      (fun w' hw' => hws w' (List.mem_cons_of_mem w hw')) (by simp only [List.length_cons] at hfuel; omega)
    simp only [readTokenLoop, LexerStream.canRead_eq, Int.ofNat_lt, hi, decide_True,
      Bool.not_true, Bool.false_eq_true, if_false,
      LexerStream.readCharacter_eq (Int.ofNat_nonneg i) (by simpa using hwi),
      hws w (List.mem_cons_self w ws), if_true]
    rw [show (i : Int) + 1 = ((i + 1 : Nat) : Int) by push_cast; rfl, ih, List.length_cons,
      show i + 1 + ws.length = i + (ws.length + 1) by omega]

/-- `readToken` finds no token in spaces that end the input. -/
theorem readTokenLoop_end : ∀ (ws : List Char) (i fuel : Nat), source.drop i = ws →
    (∀ w ∈ ws, isSpace w = true) → ws.length < fuel →
    readTokenLoop tables functions state fuel ⟨source, i⟩ =
      .ok (none, ⟨source, ((i + ws.length : Nat) : Int)⟩)
  | [], i, fuel + 1, hdrop, _, _ => by
    have hi : source.length ≤ i := List.drop_eq_nil_iff.mp hdrop
    simp [readTokenLoop, LexerStream.canRead_eq, hi]
  | w :: ws, i, fuel + 1, hdrop, hws, hfuel => by
    obtain ⟨hwi, hdrop⟩ := drop_eq_cons hdrop
    have hi : i < source.length := (List.getElem?_eq_some_iff.mp hwi).1
    simp only [readTokenLoop, LexerStream.canRead_eq, Int.ofNat_lt, hi, decide_True,
      Bool.not_true, Bool.false_eq_true, if_false,
      LexerStream.readCharacter_eq (Int.ofNat_nonneg i) (by simpa using hwi),
      hws w (List.mem_cons_self w ws), if_true]
    rw [show (i : Int) + 1 = ((i + 1 : Nat) : Int) by push_cast; rfl,
      readTokenLoop_end ws (i + 1) fuel hdrop (fun w' hw' => hws w' (List.mem_cons_of_mem w hw'))
        (by simp only [List.length_cons] at hfuel; omega),
      List.length_cons, show i + 1 + ws.length = i + (ws.length + 1) by omega]

end Skip

/-! ## Spellings -/

/-- The table `readSymbol` looks a lexeme up in for each operator kind it gives after
`PREFIX`. -/
def symbolTable : TokenKind → SymbolMap
  | .MODIFIER => modifierSymbols
  | .LOGICALOP => logicalSymbols
  | .COMPARATOR => comparatorSymbols
  | .TERNARY => ternarySymbols
  | _ => fun _ => none

/-- What the identifier branch of `readToken` makes of a run of identifier characters. -/
inductive IdentifierToken (tables : LexerTables) (functions : String → Option ExpressionFunction) :
    String → ExpressionToken → Prop
  | function {s : String} {f : ExpressionFunction} (hdot : '.' ∉ s.toList)
      (hf : functions s = some f) : IdentifierToken tables functions s ⟨.FUNCTION, .function f⟩
  | boolean (b : Bool) (hf : functions (toString b) = none) :
      IdentifierToken tables functions (toString b) ⟨.BOOLEAN, .bool b⟩
  | comparator (hf : functions "in" = none) :
      IdentifierToken tables functions "in" ⟨.COMPARATOR, .string "in"⟩
  | parameter {s : String} (hdot : '.' ∉ s.toList) (hf : functions s = none)
      (hword : s ≠ "true" ∧ s ≠ "false" ∧ s ≠ "in" ∧ s ≠ "tIN") :
      IdentifierToken tables functions s ⟨.VARIABLE, .string s⟩
  | accessor {s : String} (hdot : '.' ∈ s.toList) (hlast : s.toList.getLast? ≠ some '.')
      (hexported : ∀ split ∈ (s.splitOn ".").drop 1,
        toUpper tables (getFirstRune split) = getFirstRune split) :
      IdentifierToken tables functions s ⟨.ACCESSOR, .strings (s.splitOn ".")⟩

/-- A text the lexer reads as the token, from the state of the token before it: one
constructor per branch of `readToken`. -/
inductive Spells (tables : LexerTables) (functions : String → Option ExpressionFunction)
    (state : LexerState) : ExpressionToken → List Char → Prop
  | numeric {c : Char} {cs : List Char} {value : Float} (hrun : IsRun (isNumeric tables) (c :: cs))
      (hvalue : parseFloat (String.mk (c :: cs)) = some value) :
      Spells tables functions state ⟨.NUMERIC, .float value⟩ (c :: cs)
  | hex {d : Char} {ds : List Char} {value : Nat} (hrun : IsRun (isHexDigit tables) (d :: ds))
      (hvalue : parseUint16 (String.mk (d :: ds)) = some value) :
      Spells tables functions state ⟨.NUMERIC, .float (Float.ofNat value)⟩ ('0' :: 'x' :: d :: ds)
  | separator : Spells tables functions state ⟨.SEPARATOR, .string ","⟩ [',']
  | bracketed (s : List Char) :
      Spells tables functions state ⟨.VARIABLE, .string (String.mk s)⟩
        ('[' :: escapeWith bracketEscaped s ++ [']'])
  | quoted {q : Char} (hq : q = '\'' ∨ q = '"') (s : List Char) :
      Spells tables functions state (quotedToken tables (String.mk s))
        (q :: escapeWith quoteEscaped s ++ [q])
  | clause : Spells tables functions state ⟨.CLAUSE, .rune '('⟩ ['(']
  | clauseClose : Spells tables functions state ⟨.CLAUSE_CLOSE, .rune ')'⟩ [')']
  | identifier {c : Char} {cs : List Char} {token : ExpressionToken} (hletter : isLetter tables c)
      (hnumeric : isNumeric tables c = false) (hrun : IsRun (isVariableName tables) (c :: cs))
      (htoken : IdentifierToken tables functions (String.mk (c :: cs)) token) :
      Spells tables functions state token (c :: cs)
  | prefixOperator {c : Char} {cs : List Char} (hfirst : c ≠ ',' ∧ c ≠ '.')
      (hrun : IsRun (isNotAlphanumeric tables) (c :: cs))
      (hstate : state.canTransitionTo .PREFIX)
      (hsymbol : (prefixSymbols (String.mk (c :: cs))).isSome) :
      Spells tables functions state ⟨.PREFIX, .string (String.mk (c :: cs))⟩ (c :: cs)
  | operator {c : Char} {cs : List Char} {kind : TokenKind} (hfirst : c ≠ ',' ∧ c ≠ '.')
      (hrun : IsRun (isNotAlphanumeric tables) (c :: cs))
      (hsymbol : (symbolTable kind (String.mk (c :: cs))).isSome)
      (hother : ¬ (state.canTransitionTo .PREFIX ∧ (prefixSymbols (String.mk (c :: cs))).isSome)) :
      Spells tables functions state ⟨kind, .string (String.mk (c :: cs))⟩ (c :: cs)

/-! ## Reading one token -/

section Branches

variable {tables : LexerTables} {functions : String → Option ExpressionFunction}
  {state : LexerState} {source rest : List Char} {p : Nat}

theorem isNumeric_x : isNumeric tables 'x' = false := rfl

theorem isSpace_space : isSpace ' ' = true := rfl

/-- The decimal branch of `readToken` reads a run of digits and dots and steps over the space
after it. -/
theorem readNumeric_run {c : Char} {cs : List Char} {value : Float}
    (hdrop : source.drop p = c :: cs ++ ' ' :: rest) (hrun : IsRun (isNumeric tables) (c :: cs))
    (hvalue : parseFloat (String.mk (c :: cs)) = some value) :
    readNumeric tables c ⟨source, ((p + 1 : Nat) : Int)⟩ =
      .ok (⟨.NUMERIC, .float value⟩, ⟨source, ((p + (c :: cs).length + 1 : Nat) : Int)⟩) := by
  have hread := readTokenUntilFalse_run hdrop (List.cons_ne_nil _ _) hrun
  have hdrop' : source.drop (p + 1) = cs ++ ' ' :: rest := (drop_eq_cons hdrop).2
  -- the character after the first is a digit, a dot or the space: never the `x` of a hex literal
  obtain ⟨c', more, hc', hnotx⟩ : ∃ c' more, source.drop (p + 1) = c' :: more ∧ c' ≠ 'x' := by
    cases cs with
    | nil => exact ⟨' ', rest, hdrop', by decide⟩
    | cons c₂ cs =>
      refine ⟨c₂, cs ++ ' ' :: rest, hdrop', fun hx => ?_⟩
      have := (hrun c₂ (List.mem_cons_of_mem c (List.mem_cons_self c₂ cs))).1
      rw [hx, isNumeric_x] at this
      cases this
  obtain ⟨hci, -⟩ := drop_eq_cons hc'
  have hi : p + 1 < source.length := (List.getElem?_eq_some_iff.mp hci).1
  unfold readNumeric
  by_cases h0 : c = '0'
  · subst h0
    simp only [LexerStream.canRead_eq, Int.ofNat_lt, hi, decide_True, Bool.true_and, if_true,
      LexerStream.readCharacter_eq (Int.ofNat_nonneg _) (by simpa using hci), ok_bind, hnotx,
      decide_False, Bool.and_false, Bool.false_eq_true, if_false, LexerStream.rewind,
      add_sub_cancel_right, hread, hvalue]
    rfl
  · simp only [h0, decide_False, Bool.and_false, Bool.false_eq_true, if_false, hread, ok_bind,
      hvalue]
    rfl

/-- The hex branch of `readToken` reads the run of hex digits after `0x` and steps over the
space after it. -/
theorem readNumeric_hex {d : Char} {ds : List Char} {value : Nat}
    (hdrop : source.drop p = '0' :: 'x' :: d :: ds ++ ' ' :: rest)
    (hrun : IsRun (isHexDigit tables) (d :: ds))
    (hvalue : parseUint16 (String.mk (d :: ds)) = some value) :
    readNumeric tables '0' ⟨source, ((p + 1 : Nat) : Int)⟩ =
      .ok (⟨.NUMERIC, .float (Float.ofNat value)⟩,
        ⟨source, ((p + ('0' :: 'x' :: d :: ds).length + 1 : Nat) : Int)⟩) := by
  have hlen := congrArg List.length hdrop
  simp only [List.length_drop, List.length_append, List.length_cons] at hlen
  obtain ⟨hx, hdrop'⟩ := drop_eq_cons (drop_eq_cons hdrop).2
  have hloop := readUntilFalseLoop_run (d :: ds) (p + 1 + 1) [] (source.length + 1) hdrop'
    (by simp only [List.length_cons]; omega) (by simp) hrun
  unfold readNumeric
  simp only [LexerStream.canRead_eq, Int.ofNat_lt, show p + 1 < source.length by omega,
    decide_True, Bool.true_and, if_true, LexerStream.readCharacter_eq (Int.ofNat_nonneg _)
      (by simpa using hx), ok_bind, Int.ofNat_lt.mpr (show p + 1 + 1 < source.length by omega),
    readUntilFalse, show ((p + 1 : Nat) : Int) + 1 = ((p + 1 + 1 : Nat) : Int) by omega, hloop,
    Except.map, List.nil_append, hvalue]
  rw [show p + 1 + 1 + (d :: ds).length + 1 = p + ('0' :: 'x' :: d :: ds).length + 1 by
    simp only [List.length_cons]; omega]
  rfl

/-- The identifier branch of `readToken` returns the token its run names. -/
theorem readIdentifier_token {stream stream' : LexerStream} {s : String} {token : ExpressionToken}
    (hread : readTokenUntilFalse stream (isVariableName tables) = .ok (s, stream'))
    (htoken : IdentifierToken tables functions s token) :
    readIdentifier tables functions stream = .ok (token, stream') := by
  simp only [readIdentifier, hread, ok_bind]
  cases htoken with
  | function hdot hf => rw [if_neg hdot]; simp only [hf]; rfl
  | boolean b hf => cases b <;> simp_all <;> rfl
  | comparator hf => simp [hf]
  | parameter hdot hf hword => rw [if_neg hdot]; simp [hf, hword]
  | accessor hdot hlast hexported =>
    rw [if_pos hdot, if_neg hlast, (checkExported_eq_ok tables).mpr hexported]
    rfl

/-! The lexemes of the operator tables: the four tables after `prefixSymbols` are disjoint,
so `readSymbol` gives a lexeme the kind of the one table that has it. -/

theorem modifierSymbols_isSome {s : String} (h : (modifierSymbols s).isSome) :
    s ∈ ["+", "-", "*", "/", "%", "**", "&", "|", "^", ">>", "<<"] := by
  unfold modifierSymbols at h
  split at h <;> simp_all

theorem logicalSymbols_isSome {s : String} (h : (logicalSymbols s).isSome) :
    s ∈ ["&&", "||"] := by
  unfold logicalSymbols at h
  split at h <;> simp_all

theorem comparatorSymbols_isSome {s : String} (h : (comparatorSymbols s).isSome) :
    s ∈ ["==", "!=", ">", ">=", "<", "<=", "=~", "!~", "in"] := by
  unfold comparatorSymbols at h
  split at h <;> simp_all

theorem ternarySymbols_isSome {s : String} (h : (ternarySymbols s).isSome) :
    s ∈ ["?", ":", "??"] := by
  unfold ternarySymbols at h
  split at h <;> simp_all

/-- The symbol branch of `readToken` reads a prefix operator where the state admits one. -/
theorem readSymbol_prefix {stream stream' : LexerStream} {s : String}
    (hread : readTokenUntilFalse stream (isNotAlphanumeric tables) = .ok (s, stream'))
    (hstate : state.canTransitionTo .PREFIX) (hsymbol : (prefixSymbols s).isSome) :
    readSymbol tables state stream = .ok (⟨.PREFIX, .string s⟩, stream') := by
  simp only [readSymbol, hread, ok_bind, hstate, hsymbol, and_self, if_true]
  rfl

/-- The symbol branch of `readToken` reads any other operator as the kind of its table. -/
theorem readSymbol_operator {stream stream' : LexerStream} {s : String} {kind : TokenKind}
    (hread : readTokenUntilFalse stream (isNotAlphanumeric tables) = .ok (s, stream'))
    (hsymbol : (symbolTable kind s).isSome)
    (hother : ¬ (state.canTransitionTo .PREFIX ∧ (prefixSymbols s).isSome)) :
    readSymbol tables state stream = .ok (⟨kind, .string s⟩, stream') := by
  simp only [readSymbol, hread, ok_bind, hother, if_false]
  cases kind
  case MODIFIER => simp only [symbolTable] at hsymbol; simp only [hsymbol, if_true]; rfl
  case LOGICALOP =>
    simp only [symbolTable] at hsymbol
    have hs := logicalSymbols_isSome hsymbol
    simp only [List.mem_cons, List.mem_singleton, List.not_mem_nil, or_false] at hs
    rcases hs with rfl | rfl <;> rfl
  case COMPARATOR =>
    simp only [symbolTable] at hsymbol
    have hs := comparatorSymbols_isSome hsymbol
    simp only [List.mem_cons, List.mem_singleton, List.not_mem_nil, or_false] at hs
    rcases hs with rfl | rfl | rfl | rfl | rfl | rfl | rfl | rfl | rfl <;> rfl
  case TERNARY =>
    simp only [symbolTable] at hsymbol
    have hs := ternarySymbols_isSome hsymbol
    simp only [List.mem_cons, List.mem_singleton, List.not_mem_nil, or_false] at hs
    rcases hs with rfl | rfl | rfl <;> rfl
  all_goals cases hsymbol

/-- A letter is none of the characters `readToken` tests before letters. -/
theorem isLetter_ne {c : Char} (h : isLetter tables c) : c ≠ ',' ∧ c ≠ '[' := by
  constructor <;> rintro rfl <;> cases h

/-- A symbol character other than `,` and `.` is none of the characters `readToken` tests
before symbols. -/
theorem isNotAlphanumeric_branches {c : Char} (h : isNotAlphanumeric tables c)
    (hfirst : c ≠ ',' ∧ c ≠ '.') :
    isNumeric tables c = false ∧ c ≠ ',' ∧ c ≠ '[' ∧ isLetter tables c = false ∧
      isNotQuote c = true ∧ c ≠ '(' ∧ c ≠ ')' := by
  simp only [isNotAlphanumeric, Bool.not_eq_true', Bool.or_eq_false_iff, decide_eq_false_iff_not,
    Bool.not_eq_false] at h
  obtain ⟨⟨⟨⟨⟨⟨hdigit, hletter⟩, hopen⟩, hclose⟩, hbracket⟩, -⟩, hquote⟩ := h
  exact ⟨by simp [isNumeric, hdigit, hfirst.2], hfirst.1, hbracket, hletter,
    by simpa using hquote, hopen, hclose⟩

/-- `readToken`, from the first character of a spelled token, returns the token and stops
after its text or after the space that follows it. -/
theorem readTokenAt_spells {t : ExpressionToken} {c : Char} {cs : List Char}
    (h : Spells tables functions state t (c :: cs)) (hdrop : source.drop p = c :: cs ++ ' ' :: rest) :
    ∃ (j : Nat) (ws : List Char), readTokenAt tables functions state c ⟨source, ((p + 1 : Nat) : Int)⟩ =
        .ok (t, ⟨source, (j : Int)⟩) ∧ source.drop j = ws ++ rest ∧ ∀ w ∈ ws, isSpace w = true := by
  have hlen := congrArg List.length hdrop
  simp only [List.length_drop, List.length_append, List.length_cons] at hlen
  -- after the text: the space, then the rest
  have hafter : source.drop (p + (c :: cs).length) = ' ' :: rest := by
    rw [← List.drop_drop, hdrop, List.drop_left]
  have hpast : source.drop (p + (c :: cs).length + 1) = rest := by
    rw [← List.drop_drop, hafter]; rfl
  have hspace : ∀ w ∈ [' '], isSpace w = true := by simp [isSpace_space]
  cases h with
  | numeric hrun hvalue =>
    refine ⟨_, [], ?_, hpast, by simp⟩
    simp only [readTokenAt, (hrun c (List.mem_cons_self c cs)).1, if_true]
    exact readNumeric_run hdrop hrun hvalue
  | hex hrun hvalue => exact ⟨_, [], readNumeric_hex hdrop hrun hvalue, hpast, by simp⟩
  | separator => exact ⟨p + 1, [' '], rfl, hafter, hspace⟩
  | clause => exact ⟨p + 1, [' '], rfl, hafter, hspace⟩
  | clauseClose => exact ⟨p + 1, [' '], rfl, hafter, hspace⟩
  | bracketed s =>
    have hdrop' : source.drop (p + 1) = escapeWith bracketEscaped s ++ ']' :: ' ' :: rest := by
      simpa using (drop_eq_cons hdrop).2
    have hloop := readUntilFalseLoop_escaped (show isNotClosingBracket ']' = false from rfl)
      (by decide) s ((p + 1 : Nat) : Int) [] (source.length + 1) (Int.ofNat_nonneg _)
      (by simpa using hdrop') (by simp at hlen; omega)
      fun c _ hc => by simp_all [bracketEscaped, isNotClosingBracket]
    refine ⟨p + 1 + (escapeWith bracketEscaped s).length + 1, [' '], ?_, ?_, hspace⟩
    · simp only [readTokenAt, show isNumeric tables '[' = false from rfl,
        show ('[' : Char) ≠ ',' by decide, if_false, if_true, readUntilFalse, hloop,
        Bool.false_eq_true, Except.map, ok_bind, Bool.not_true, List.nil_append, pure_eq_ok,
        LexerStream.rewind]
      congr 3
    · rw [show p + 1 + (escapeWith bracketEscaped s).length + 1 =
        p + ('[' :: (escapeWith bracketEscaped s).append [']']).length by
          simp only [List.length_cons, List.append_eq, List.length_append, List.length_nil]
          omega, hafter]
      rfl
  | quoted hq s =>
    obtain ⟨hnumeric, hcomma, hbracket, hletter, hquote⟩ : isNumeric tables c = false ∧
        c ≠ ',' ∧ c ≠ '[' ∧ isLetter tables c = false ∧ isNotQuote c = false := by
      rcases hq with rfl | rfl <;> exact ⟨rfl, by decide, by decide, rfl, rfl⟩
    have hdrop' : source.drop (p + 1) = escapeWith quoteEscaped s ++ c :: ' ' :: rest := by
      simpa using (drop_eq_cons hdrop).2
    have hloop := readUntilFalseLoop_escaped hquote (by rcases hq with rfl | rfl <;> decide) s
      ((p + 1 : Nat) : Int) [] (source.length + 1) (Int.ofNat_nonneg _)
      (by simpa using hdrop') (by simp at hlen; omega)
      fun c _ hc => by simp_all [quoteEscaped, isNotQuote]
    refine ⟨p + 1 + (escapeWith quoteEscaped s).length + 1, [' '], ?_, ?_, hspace⟩
    · simp only [readTokenAt, hnumeric, hcomma, hbracket, hletter, hquote, if_false,
        Bool.false_eq_true, Bool.not_false, if_true, readUntilFalse, hloop, Except.map, ok_bind,
        Bool.not_true, List.nil_append, LexerStream.rewind, quotedToken]
      rcases tables.tryParseTime (String.mk s) with _ | unix
      all_goals
        congr 3
    · rw [show p + 1 + (escapeWith quoteEscaped s).length + 1 =
        p + (c :: (escapeWith quoteEscaped s).append [c]).length by
          simp only [List.length_cons, List.append_eq, List.length_append, List.length_nil]
          omega, hafter]
      rfl
  | identifier hletter hnumeric hrun htoken =>
    refine ⟨_, [], ?_, hpast, by simp⟩
    simp only [readTokenAt, hnumeric, (isLetter_ne hletter).1, (isLetter_ne hletter).2, hletter,
      Bool.false_eq_true, if_false, if_true]
    exact readIdentifier_token (readTokenUntilFalse_run hdrop (List.cons_ne_nil _ _) hrun) htoken
  | prefixOperator hfirst hrun hstate hsymbol =>
    obtain ⟨hnumeric, hcomma, hbracket, hletter, hquote, hopen, hclose⟩ :=
      isNotAlphanumeric_branches (hrun c (List.mem_cons_self c cs)).1 hfirst
    refine ⟨_, [], ?_, hpast, by simp⟩
    simp only [readTokenAt, hnumeric, hcomma, hbracket, hletter, hquote, hopen, hclose,
      Bool.not_true, Bool.false_eq_true, if_false]
    exact readSymbol_prefix (readTokenUntilFalse_run hdrop (List.cons_ne_nil _ _) hrun) hstate
      hsymbol
  | operator hfirst hrun hsymbol hother =>
    obtain ⟨hnumeric, hcomma, hbracket, hletter, hquote, hopen, hclose⟩ :=
      isNotAlphanumeric_branches (hrun c (List.mem_cons_self c cs)).1 hfirst
    refine ⟨_, [], ?_, hpast, by simp⟩
    simp only [readTokenAt, hnumeric, hcomma, hbracket, hletter, hquote, hopen, hclose,
      Bool.not_true, Bool.false_eq_true, if_false]
    exact readSymbol_operator (readTokenUntilFalse_run hdrop (List.cons_ne_nil _ _) hrun) hsymbol
      hother

end Branches

/-! ## Token lists -/

/-- The text of a list of token texts: each followed by a space. -/
def render : List (List Char) → List Char
  | [] => []
  | text :: texts => text ++ ' ' :: render texts

theorem length_le_render : ∀ texts : List (List Char), texts.length ≤ (render texts).length
  | [] => le_rfl
  | text :: texts => by
    have := length_le_render texts
    simp only [render, List.length_cons, List.length_append]
    omega

/-- Texts the lexer reads as the tokens, each from the state of the token before it. -/
inductive Spelled (tables : LexerTables) (functions : String → Option ExpressionFunction) :
    LexerState → List ExpressionToken → List (List Char) → Prop
  | nil (state : LexerState) : Spelled tables functions state [] []
  | cons {state next : LexerState} {t : ExpressionToken} {text : List Char}
      {tokens : List ExpressionToken} {texts : List (List Char)}
      (hspells : Spells tables functions state t text)
      (hnext : getLexerStateForToken t.kind = .ok next)
      (hrest : Spelled tables functions next tokens texts) :
      Spelled tables functions state (t :: tokens) (text :: texts)

section Loop

variable {tables : LexerTables} {functions : String → Option ExpressionFunction}
  {state : LexerState} {t : ExpressionToken}

/-- Every spelling starts with a character that is not a space. -/
theorem Spells.head {text : List Char} (h : Spells tables functions state t text) :
    ∃ c cs, text = c :: cs ∧ isSpace c = false := by
  cases h with
  | numeric hrun => exact ⟨_, _, rfl, (hrun _ (List.mem_cons_self _ _)).2.1⟩
  | identifier _ _ hrun => exact ⟨_, _, rfl, (hrun _ (List.mem_cons_self _ _)).2.1⟩
  | prefixOperator _ hrun => exact ⟨_, _, rfl, (hrun _ (List.mem_cons_self _ _)).2.1⟩
  | operator _ hrun => exact ⟨_, _, rfl, (hrun _ (List.mem_cons_self _ _)).2.1⟩
  | quoted hq => exact ⟨_, _, rfl, by rcases hq with rfl | rfl <;> rfl⟩
  | _ => exact ⟨_, _, rfl, rfl⟩

theorem Spelled.length_eq {tokens : List ExpressionToken} {texts : List (List Char)}
    (h : Spelled tables functions state tokens texts) : tokens.length = texts.length := by
  induction h with
  | nil => rfl
  | cons _ _ _ ih => simp [ih]

/-- The loop of `parseTokens` reads spelled tokens back, one per iteration, whatever spaces
come before them. -/
theorem parseTokensLoop_spelled {source : List Char} :
    ∀ {state : LexerState} {tokens : List ExpressionToken} {texts : List (List Char)},
      Spelled tables functions state tokens texts →
      ∀ (acc : List ExpressionToken) (ws : List Char) (i fuel : Nat),
        source.drop i = ws ++ render texts → (∀ w ∈ ws, isSpace w = true) →
        tokens.length < fuel →
        parseTokensLoop tables functions fuel acc state ⟨source, i⟩ = .ok (acc ++ tokens)
  | _, _, _, .nil state, acc, ws, i, fuel + 1, hdrop, hws, _ => by
    rw [render, List.append_nil] at hdrop
    have hlen := congrArg List.length hdrop
    simp only [List.length_drop] at hlen
    unfold parseTokensLoop
    by_cases hi : i < source.length
    · simp only [LexerStream.canRead_eq, Int.ofNat_lt, hi, decide_True, Bool.not_true,
        Bool.false_eq_true, if_false, readToken,
        readTokenLoop_end ws i (source.length + 1) hdrop hws (by omega), List.append_nil]
    · simp [LexerStream.canRead_eq, hi]
  | _, _, _, .cons hspells hnext hrest, acc, ws, i, fuel + 1, hdrop, hws, hfuel => by
    obtain ⟨c, cs, rfl, hc⟩ := hspells.head
    rw [render, ← List.append_assoc] at hdrop
    have hlen := congrArg List.length hdrop
    simp only [List.length_drop, List.length_append, List.length_cons] at hlen
    obtain ⟨j, ws', hread, hdrop', hws'⟩ := readTokenAt_spells hspells
      (show source.drop (i + ws.length) = c :: cs ++ ' ' :: render _ by
        rw [← List.drop_drop, hdrop, List.append_assoc, List.drop_left])
    have hi : i < source.length := by omega
    unfold parseTokensLoop
    simp only [LexerStream.canRead_eq, Int.ofNat_lt, hi, decide_True, Bool.not_true,
      Bool.false_eq_true, if_false, readToken,
      readTokenLoop_spaces hc ws i (source.length + 1) (by rw [hdrop, List.append_assoc]; rfl) hws
        (by omega),
      hread, Except.map, hnext]
    rw [parseTokensLoop_spelled hrest (acc ++ [_]) ws' j fuel hdrop' hws'
      (by simp only [List.length_cons] at hfuel; omega), List.append_assoc, List.singleton_append]

end Loop

/-- `parseTokens`' loop reads a spelled token list back from its text. -/
theorem parseTokensLoop_render {tables : LexerTables}
    {functions : String → Option ExpressionFunction} {tokens : List ExpressionToken}
    {texts : List (List Char)} (hspelled : Spelled tables functions startState tokens texts) :
    parseTokensLoop tables functions ((String.mk (render texts)).length + 1) [] startState
      (newLexerStream (String.mk (render texts))) = .ok tokens := by
  have hloop := parseTokensLoop_spelled hspelled [] [] 0 ((render texts).length + 1)
    (List.drop_zero (render texts)) (by simp)
    (by have := length_le_render texts; have := hspelled.length_eq; omega)
  rwa [List.nil_append] at hloop

/-- The lexer reads every spelled token list back from its text: `parseTokens` of the tokens'
texts, each followed by a space, is the tokens, or the balance error when their parentheses do
not balance. -/
theorem parseTokens_render {tables : LexerTables} {functions : String → Option ExpressionFunction}
    {tokens : List ExpressionToken} {texts : List (List Char)}
    (hspelled : Spelled tables functions startState tokens texts) :
    parseTokens tables (String.mk (render texts)) functions =
      (checkBalance tokens).map fun _ => tokens := by
  rw [parseTokens, parseTokensLoop_render hspelled, ok_bind]
  cases checkBalance tokens <;> rfl

/-- `x - [y z]`: a name, a subtraction and a bracketed name. -/
def differenceTokens : List ExpressionToken :=
  [⟨.VARIABLE, .string "x"⟩, ⟨.MODIFIER, .string "-"⟩, ⟨.VARIABLE, .string "y z"⟩]

theorem parseTokens_render_difference :
    Spelled asciiTables (fun _ => none) startState differenceTokens
        ["x".toList, "-".toList, "[y z]".toList] ∧
      parseTokens asciiTables (String.mk (render ["x".toList, "-".toList, "[y z]".toList]))
        (fun _ => none) = (checkBalance differenceTokens).map fun _ => differenceTokens :=
  have hspelled : Spelled asciiTables (fun _ => none) startState differenceTokens
      ["x".toList, "-".toList, "[y z]".toList] :=
    .cons (.identifier rfl rfl (by decide) (.parameter (by decide) rfl (by decide))) rfl
      (.cons (.operator (by decide) (by decide) rfl (by decide)) rfl
        (.cons (.bracketed "y z".toList) rfl (.nil _)))
  ⟨hspelled, parseTokens_render hspelled⟩

/-! ## Spellings on the checker's rows -/

/-- No row of the table that admits an operator of one of the four tables after
`prefixSymbols` admits a prefix. -/
theorem canTransitionTo_prefix_of_operator : ∀ state ∈ validLexerStates,
    ∀ kind ∈ [TokenKind.MODIFIER, .LOGICALOP, .COMPARATOR, .TERNARY],
      state.canTransitionTo kind → state.canTransitionTo .PREFIX = false := by
  decide

/-- A text that spells the token from every row of the table that admits the token's kind. -/
def Writes (tables : LexerTables) (functions : String → Option ExpressionFunction)
    (t : ExpressionToken) (text : List Char) : Prop :=
  ∀ state ∈ validLexerStates, state.canTransitionTo t.kind → Spells tables functions state t text

section Writes

variable {tables : LexerTables} {functions : String → Option ExpressionFunction}
  {c : Char} {cs : List Char}

/-- A prefix operator is spelled by its run of symbol characters wherever a prefix is
admitted. -/
theorem Writes.prefixOperator (hfirst : c ≠ ',' ∧ c ≠ '.')
    (hrun : IsRun (isNotAlphanumeric tables) (c :: cs))
    (hsymbol : (prefixSymbols (String.mk (c :: cs))).isSome) :
    Writes tables functions ⟨.PREFIX, .string (String.mk (c :: cs))⟩ (c :: cs) :=
  fun _ _ hstate => .prefixOperator hfirst hrun hstate hsymbol

/-- An operator of the four tables is spelled by its run of symbol characters wherever its kind
is admitted, since no such row admits a prefix. -/
theorem Writes.operator {kind : TokenKind} (hfirst : c ≠ ',' ∧ c ≠ '.')
    (hrun : IsRun (isNotAlphanumeric tables) (c :: cs))
    (hsymbol : (symbolTable kind (String.mk (c :: cs))).isSome) :
    Writes tables functions ⟨kind, .string (String.mk (c :: cs))⟩ (c :: cs) := by
  intro state hstate hkind
  have hmem : kind ∈ [TokenKind.MODIFIER, .LOGICALOP, .COMPARATOR, .TERNARY] := by
    cases kind <;> first | decide | cases hsymbol
  have hp := canTransitionTo_prefix_of_operator state hstate kind hmem hkind
  exact .operator hfirst hrun hsymbol fun ⟨h, _⟩ => by simp_all

/-- On a list the checker accepts from a row, texts that write the tokens spell them from that
row: the lexer's state before each token is the checker's. -/
theorem Spelled.of_accepted {tokens : List ExpressionToken} {texts : List (List Char)}
    (hwrites : List.Forall₂ (Writes tables functions) tokens texts) :
    ∀ {state : LexerState} {last : ExpressionToken}, state ∈ validLexerStates →
      checkExpressionSyntaxFrom state last tokens = .ok () →
      Spelled tables functions state tokens texts := by
  induction hwrites with
  | nil => exact fun _ _ => .nil _
  | cons hw _ ih =>
    intro state _ hstate h
    obtain ⟨hcan, next, hnext, hrest⟩ := checkExpressionSyntaxFrom_cons_eq_ok h
    exact .cons (hw state hstate hcan) hnext (ih (getLexerStateForToken_mem hnext) hrest)

end Writes

/-- The lexer reads back every token list the grammar checker accepts, each token written
wherever its kind is admitted: `parseTokens` of the texts, each followed by a space, is the
tokens, or the balance error when their parentheses do not balance. -/
theorem parseTokens_render_accepted {tables : LexerTables}
    {functions : String → Option ExpressionFunction} {tokens : List ExpressionToken}
    {texts : List (List Char)} (haccepted : checkExpressionSyntax tokens = .ok ())
    (hwrites : List.Forall₂ (Writes tables functions) tokens texts) :
    parseTokens tables (String.mk (render texts)) functions =
      (checkBalance tokens).map fun _ => tokens := by
  rw [parseTokens, parseTokensLoop_render
    (Spelled.of_accepted hwrites (List.mem_cons_self _ _) haccepted), ok_bind]
  cases checkBalance tokens <;> rfl

/-- `-x - y`: the one text `-` written for a negation and for a subtraction. -/
def negatedDifference : List ExpressionToken :=
  [⟨.PREFIX, .string "-"⟩, ⟨.VARIABLE, .string "x"⟩, ⟨.MODIFIER, .string "-"⟩,
    ⟨.VARIABLE, .string "y"⟩]

theorem parseTokens_render_accepted_negation :
    checkExpressionSyntax negatedDifference = .ok () ∧
      List.Forall₂ (Writes asciiTables fun _ => none) negatedDifference
        ["-".toList, "x".toList, "-".toList, "y".toList] ∧
      parseTokens asciiTables (String.mk (render ["-".toList, "x".toList, "-".toList, "y".toList]))
        (fun _ => none) = (checkBalance negatedDifference).map fun _ => negatedDifference :=
  have haccepted : checkExpressionSyntax negatedDifference = .ok () := rfl
  have hwrites : List.Forall₂ (Writes asciiTables fun _ => none) negatedDifference
      ["-".toList, "x".toList, "-".toList, "y".toList] :=
    .cons (Writes.prefixOperator (by decide) (by decide) rfl)
      (.cons (fun _ _ _ => .identifier rfl rfl (by decide) (.parameter (by decide) rfl (by decide)))
        (.cons (Writes.operator (by decide) (by decide) rfl)
          (.cons (fun _ _ _ => .identifier rfl rfl (by decide) (.parameter (by decide) rfl (by decide)))
            .nil)))
  ⟨haccepted, hwrites, parseTokens_render_accepted haccepted hwrites⟩

end Geval
