import Geval.Planner.Grammar

/-!
# The grammar checker on the texts of the grammar

`checkExpressionSyntax` drives the transition table `validLexerStates` over the token list: it
never matches parentheses or looks further than one token back. On the token lists of the
planner's grammar (`Derivation.tokens`) it is exact up to the gaps of its table. Inside a
phrase every transition is admitted; between phrases the table refuses

* a string, time or pattern literal (or another prefix) right after a prefix operator;
* a time or pattern literal right after a modifier (`+`, `-`, `*`, `&`, `<<`, …);
* a pattern right after a logical, ternary or separator operator;
* a ternary operator right after a time or pattern literal;

and a literal token with a nil value fails the check of its non-nullable row.
`Derivation.Checkable` is a derivation with none of these, and the checker accepts the tokens
of a supported derivation exactly when it is checkable (`checkExpressionSyntax_tokens_iff`).

The proof follows the grammar. `accepts_cons` is one step of the loop; the facts about the
table (`rowOf_level_admits` and its neighbours) are closed by evaluation over the kinds that
begin and end an operand; `Derivation.accepts_append` reads a derivation's tokens phrase by
phrase, by induction over the derivation.
-/

namespace Geval

/-! ## The loop, one token at a time -/

/-- The row `getLexerStateForToken` finds for a kind; every kind has one. -/
def rowOf (kind : TokenKind) : LexerState :=
  (validLexerStates.find? (·.kind == kind)).getD startState

theorem getLexerStateForToken_rowOf (kind : TokenKind) :
    getLexerStateForToken kind = .ok (rowOf kind) := by
  cases kind <;> rfl

/-- The loop accepts `tokens` from `state`. Acceptance does not depend on the token read
before (`checkExpressionSyntaxFrom_ok_iff_last`), which only enters an error message. -/
def Accepts (state : LexerState) (tokens : List ExpressionToken) : Prop :=
  checkExpressionSyntaxFrom state ⟨.UNKNOWN, .null⟩ tokens = .ok ()

theorem checkExpressionSyntaxFrom_ok_iff_last {state : LexerState}
    {tokens : List ExpressionToken} (last last' : ExpressionToken) :
    checkExpressionSyntaxFrom state last tokens = .ok () ↔
      checkExpressionSyntaxFrom state last' tokens = .ok () := by
  cases tokens with
  | nil => rfl
  | cons token rest =>
    by_cases h : state.canTransitionTo token.kind = true <;>
      simp [checkExpressionSyntaxFrom, h, transitionError_ne_ok]

/-- One step of the loop: the row admits the token's kind, a non-nullable row a value that is
not nil, and the loop goes on from the row of the token's kind. -/
theorem accepts_cons {state : LexerState} {token : ExpressionToken}
    {rest : List ExpressionToken} :
    Accepts state (token :: rest) ↔ state.canTransitionTo token.kind = true ∧
      ((rowOf token.kind).isNullable = true ∨ token.value.isNull = false) ∧
      Accepts (rowOf token.kind) rest := by
  unfold Accepts
  rw [checkExpressionSyntaxFrom_ok_iff_last _ token,
    checkExpressionSyntaxFrom_ok_iff_last ⟨.UNKNOWN, .null⟩ token]
  cases hcan : state.canTransitionTo token.kind <;>
    cases hnullable : (rowOf token.kind).isNullable <;>
    cases hnull : token.value.isNull <;>
    simp [checkExpressionSyntaxFrom, getLexerStateForToken_rowOf, hcan, hnullable, hnull,
      transitionError_ne_ok, fail]

theorem accepts_nil {state : LexerState} : Accepts state [] ↔ state.isEOF = true := by
  unfold Accepts checkExpressionSyntaxFrom
  cases state.isEOF <;> simp [fail]

/-! ## The gaps of the table -/

/-- The kinds an operand of the grammar begins with. -/
def operandStarts : List TokenKind :=
  [.PREFIX, .NUMERIC, .BOOLEAN, .STRING, .TIME, .PATTERN, .VARIABLE, .FUNCTION, .ACCESSOR,
    .CLAUSE]

/-- The kinds an operand of the grammar ends with. -/
def operandEnds : List TokenKind :=
  [.NUMERIC, .BOOLEAN, .STRING, .TIME, .PATTERN, .VARIABLE, .ACCESSOR, .CLAUSE_CLOSE]

/-- The kinds the table refuses to begin the operand of a prefix operator. -/
def prefixRefused : List TokenKind := [.STRING, .TIME, .PATTERN, .PREFIX]

/-- The kinds the table refuses to begin an operand after an operator of the level. -/
def Level.refusedOperands : Level → List TokenKind
  | .comparator => []
  | .separator | .ternary | .logicalOr | .logicalAnd => [.PATTERN]
  | .bitwise | .shift | .additive | .multiplicative | .exponential => [.TIME, .PATTERN]

/-- The kinds the table refuses to end an operand before an operator of the level. -/
def Level.refusedBefore : Level → List TokenKind
  | .ternary => [.TIME, .PATTERN]
  | _ => []

theorem startState_admits : ∀ kind ∈ operandStarts, startState.canTransitionTo kind = true := by
  decide

theorem rowOf_prefix_admits :
    ∀ kind ∈ operandStarts, (rowOf .PREFIX).canTransitionTo kind = !prefixRefused.contains kind := by
  decide

theorem rowOf_level_admits (L : Level) :
    ∀ kind ∈ operandStarts, (rowOf L.kind).canTransitionTo kind = !L.refusedOperands.contains kind := by
  cases L <;> decide

theorem rowOf_end_admits_level (L : Level) :
    ∀ kind ∈ operandEnds, (rowOf kind).canTransitionTo L.kind = !L.refusedBefore.contains kind := by
  cases L <;> decide

theorem rowOf_clause_admits : ∀ kind ∈ operandStarts, (rowOf .CLAUSE).canTransitionTo kind = true := by
  decide

/-- An operand's last row admits `)` and may end the text. -/
theorem rowOf_end : ∀ kind ∈ operandEnds,
    (rowOf kind).canTransitionTo .CLAUSE_CLOSE = true ∧ (rowOf kind).isEOF = true := by
  decide

theorem rowOf_literal_isNullable :
    ∀ kind ∈ [TokenKind.NUMERIC, .STRING, .PATTERN, .BOOLEAN, .TIME], (rowOf kind).isNullable = false := by
  decide

/-! ## Derivations -/

/-- The kind of a derivation's first token. -/
def Derivation.firstKind : Derivation → TokenKind
  | .chain _ first _ => first.firstKind
  | .unary .. => .PREFIX
  | .call .. => .FUNCTION
  | .field _ | .method .. => .ACCESSOR
  | .group _ => .CLAUSE
  | .literal token => token.kind
  | .parameter _ => .VARIABLE

mutual

/-- The kind of a derivation's last token. -/
def Derivation.lastKind : Derivation → TokenKind
  | .chain _ _ rest => rest.lastKind
  | .unary _ operand => operand.lastKind
  | .call .. | .method .. | .group _ => .CLAUSE_CLOSE
  | .field _ => .ACCESSOR
  | .literal token => token.kind
  | .parameter _ => .VARIABLE

def Chain.lastKind : Chain → TokenKind
  | .last _ operand => operand.lastKind
  | .cons _ _ rest => rest.lastKind

end

mutual

/-- A derivation whose tokens avoid the gaps of the checker's table: no operand that the table
refuses after its operator, no operand end that it refuses before a ternary operator, and no
literal with a nil value. -/
def Derivation.Checkable : Derivation → Bool
  | .chain L first rest => first.Checkable && rest.Checkable L first.lastKind
  | .unary _ operand => !prefixRefused.contains operand.firstKind && operand.Checkable
  | .call _ args => args.Checkable
  | .field _ => true
  | .method _ args => args.Checkable
  | .group args => args.Checkable
  | .literal token => !token.value.isNull
  | .parameter _ => true

/-- A chain after an operand that ends with `before`. -/
def Chain.Checkable (L : Level) (before : TokenKind) : Chain → Bool
  | .last _ operand =>
    !L.refusedBefore.contains before && !L.refusedOperands.contains operand.firstKind &&
      operand.Checkable
  | .cons _ operand rest =>
    !L.refusedBefore.contains before && !L.refusedOperands.contains operand.firstKind &&
      operand.Checkable && rest.Checkable L operand.lastKind

def Args.Checkable : Args → Bool
  | .empty => true
  | .contents d => d.Checkable

end

theorem ExpressionToken.isLiteral_kind_mem {token : ExpressionToken} (h : token.isLiteral) :
    token.kind ∈ [TokenKind.NUMERIC, .STRING, .PATTERN, .BOOLEAN, .TIME] := by
  obtain ⟨kind, value⟩ := token
  cases kind <;> cases value <;> simp_all [ExpressionToken.isLiteral]

theorem Derivation.firstKind_mem : ∀ {d : Derivation}, d.Supported → d.firstKind ∈ operandStarts
  | .chain _ first _, hd => by
    simp only [Derivation.Supported, Bool.and_eq_true] at hd
    exact Derivation.firstKind_mem (d := first) hd.1.2
  | .literal token, hd => by
    have := ExpressionToken.isLiteral_kind_mem hd
    simp only [List.mem_cons, List.not_mem_nil, or_false] at this
    rcases this with h | h | h | h | h <;> simp [Derivation.firstKind, h, operandStarts]
  | .unary .., _ | .call .., _ | .field _, _ | .method .., _ | .group _, _ | .parameter _, _ => by
    simp [Derivation.firstKind, operandStarts]

mutual

theorem Derivation.lastKind_mem : ∀ {d : Derivation}, d.Supported → d.lastKind ∈ operandEnds
  | .chain L _ rest, hd => by
    simp only [Derivation.Supported, Bool.and_eq_true] at hd
    exact Chain.lastKind_mem L hd.2
  | .unary _ operand, hd => by
    simp only [Derivation.Supported, Bool.and_eq_true] at hd
    exact Derivation.lastKind_mem (d := operand) hd.2
  | .literal token, hd => by
    have := ExpressionToken.isLiteral_kind_mem hd
    simp only [List.mem_cons, List.not_mem_nil, or_false] at this
    rcases this with h | h | h | h | h <;> simp [Derivation.lastKind, h, operandEnds]
  | .call .., _ | .field _, _ | .method .., _ | .group _, _ | .parameter _, _ => by
    simp [Derivation.lastKind, operandEnds]

theorem Chain.lastKind_mem (L : Level) : ∀ {c : Chain}, c.Supported L → c.lastKind ∈ operandEnds
  | .last _ operand, hc => by
    simp only [Chain.Supported, Bool.and_eq_true] at hc
    exact Derivation.lastKind_mem (d := operand) hc.2
  | .cons _ _ rest, hc => by
    simp only [Chain.Supported, Bool.and_eq_true] at hc
    exact Chain.lastKind_mem L (c := rest) hc.2

end

/-! ## The checker reads a derivation phrase by phrase -/

theorem rowOf_function_admits : (rowOf .FUNCTION).canTransitionTo .CLAUSE = true := rfl

theorem rowOf_clause_admits_close : (rowOf .CLAUSE).canTransitionTo .CLAUSE_CLOSE = true := rfl

mutual

/-- The loop reads a supported derivation's tokens when its state admits the first of them and
the derivation is checkable, and it then goes on from the row of the last of them. -/
theorem Derivation.accepts_append : ∀ {d : Derivation}, d.Supported →
    ∀ (state : LexerState) (rest : List ExpressionToken),
      Accepts state (d.tokens ++ rest) ↔ state.canTransitionTo d.firstKind = true ∧
        d.Checkable = true ∧ Accepts (rowOf d.lastKind) rest
  | .chain L first c, hd, state, rest => by
    simp only [Derivation.Supported, Bool.and_eq_true] at hd
    simp only [Derivation.tokens, List.append_assoc, Derivation.accepts_append hd.1.2,
      Chain.accepts_append L hd.2 (Derivation.lastKind_mem hd.1.2), Derivation.firstKind,
      Derivation.Checkable, Derivation.lastKind, Bool.and_eq_true, and_assoc]
  | .unary lexeme operand, hd, state, rest => by
    simp only [Derivation.Supported, Bool.and_eq_true] at hd
    simp only [Derivation.tokens, List.cons_append, accepts_cons, Value.isNull, or_true,
      true_and, Derivation.accepts_append hd.2,
      rowOf_prefix_admits _ (Derivation.firstKind_mem hd.2), Derivation.firstKind,
      Derivation.Checkable, Derivation.lastKind, Bool.and_eq_true, and_assoc]
  | .call f args, hd, state, rest => by
    simp only [Derivation.tokens, List.cons_append, accepts_cons, Value.isNull, or_true,
      true_and, Args.accepts_append hd, rowOf_function_admits, Derivation.firstKind,
      Derivation.Checkable, Derivation.lastKind]
  | .field path, _, state, rest => by
    simp only [Derivation.tokens, List.cons_append, List.nil_append, accepts_cons,
      Value.isNull, or_true, true_and, Derivation.firstKind, Derivation.Checkable,
      Derivation.lastKind]
  | .method _ _, hd, _, _ => by cases hd
  | .group args, hd, state, rest => by
    simp only [Derivation.Supported] at hd
    simp only [Derivation.tokens, Args.accepts_append hd, Derivation.firstKind,
      Derivation.Checkable, Derivation.lastKind]
  | .literal token, hd, state, rest => by
    simp only [Derivation.tokens, List.cons_append, List.nil_append, accepts_cons,
      rowOf_literal_isNullable _ (ExpressionToken.isLiteral_kind_mem hd), Bool.false_eq_true,
      false_or, Derivation.firstKind, Derivation.Checkable, Derivation.lastKind,
      Bool.not_eq_true']
  | .parameter name, _, state, rest => by
    simp only [Derivation.tokens, List.cons_append, List.nil_append, accepts_cons,
      Value.isNull, or_true, true_and, Derivation.firstKind, Derivation.Checkable,
      Derivation.lastKind]

/-- A chain after an operand that ends with `before`: the loop reads it when the chain is
checkable after `before`, and goes on from the row of its last token. -/
theorem Chain.accepts_append (L : Level) : ∀ {c : Chain}, c.Supported L →
    ∀ {before : TokenKind}, before ∈ operandEnds → ∀ rest : List ExpressionToken,
      Accepts (rowOf before) (c.tokens L ++ rest) ↔ c.Checkable L before = true ∧
        Accepts (rowOf c.lastKind) rest
  | .last lexeme operand, hc, before, hbefore, rest => by
    simp only [Chain.Supported, Bool.and_eq_true] at hc
    simp only [Chain.tokens, List.cons_append, accepts_cons, Value.isNull, or_true, true_and,
      rowOf_end_admits_level L _ hbefore, Derivation.accepts_append hc.2,
      rowOf_level_admits L _ (Derivation.firstKind_mem hc.2), Chain.Checkable,
      Chain.lastKind, Bool.and_eq_true, and_assoc]
  | .cons lexeme operand c, hc, before, hbefore, rest => by
    simp only [Chain.Supported, Bool.and_eq_true] at hc
    simp only [Chain.tokens, List.cons_append, List.append_assoc, accepts_cons, Value.isNull,
      or_true, true_and, rowOf_end_admits_level L _ hbefore, Derivation.accepts_append hc.1.2,
      rowOf_level_admits L _ (Derivation.firstKind_mem hc.1.2),
      Chain.accepts_append L hc.2 (Derivation.lastKind_mem hc.1.2), Chain.Checkable,
      Chain.lastKind, Bool.and_eq_true, and_assoc]

/-- A parenthesised argument list: the loop reads it when its state admits `(` and the
contents are checkable, and goes on from the row of `)`. -/
theorem Args.accepts_append : ∀ {a : Args}, a.Supported →
    ∀ (state : LexerState) (rest : List ExpressionToken),
      Accepts state (a.tokens ++ rest) ↔ state.canTransitionTo .CLAUSE = true ∧
        a.Checkable = true ∧ Accepts (rowOf .CLAUSE_CLOSE) rest
  | .empty, _, state, rest => by
    simp only [Args.tokens, openToken, closeToken, List.cons_append, List.nil_append,
      accepts_cons, Value.isNull, or_true, true_and, rowOf_clause_admits_close,
      Args.Checkable]
  | .contents d, hd, state, rest => by
    simp only [Args.Supported, Bool.and_eq_true] at hd
    simp only [Args.tokens, openToken, closeToken, List.cons_append, List.append_assoc,
      List.singleton_append, List.nil_append, accepts_cons, Value.isNull, or_true, true_and,
      Derivation.accepts_append hd.2, rowOf_clause_admits _ (Derivation.firstKind_mem hd.2),
      (rowOf_end _ (Derivation.lastKind_mem hd.2)).1, Args.Checkable]

end

/-- `checkExpressionSyntax` accepts the tokens of a supported derivation exactly when the
derivation is checkable: the grammar checker refuses a text of the grammar only at the gaps of
its table. -/
theorem checkExpressionSyntax_tokens_iff {d : Derivation} (hd : d.Supported) :
    checkExpressionSyntax d.tokens = .ok () ↔ d.Checkable = true := by
  have h := Derivation.accepts_append hd startState []
  rw [List.append_nil, startState_admits _ (Derivation.firstKind_mem hd), accepts_nil,
    (rowOf_end _ (Derivation.lastKind_mem hd)).2] at h
  simpa only [true_and, and_true] using h

/-- `-"a"`: a prefix operator over a string literal. -/
def negatedString : Derivation := .unary "-" (.literal ⟨.STRING, .string "a"⟩)

theorem checkExpressionSyntax_negated_string :
    negatedString.Supported = true ∧ negatedString.Checkable = false ∧
      checkExpressionSyntax negatedString.tokens ≠ .ok () :=
  ⟨rfl, rfl, fun h =>
    absurd ((checkExpressionSyntax_tokens_iff (d := negatedString) rfl).mp h) (by decide)⟩

end Geval
