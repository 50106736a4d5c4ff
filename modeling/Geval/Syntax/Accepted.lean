import Geval.Core.LexerState
import Geval.Result

/-!
# What the grammar checker guarantees

`checkExpressionSyntax` runs the transition table of `validLexerStates` over the tokens and
accepts in a final (`isEOF`) state. The planner relies on two consequences:

* `opensOperand_succ_lt`: a token after which the table requires more (an operator, a
  prefix, an opening parenthesis, a function name) is never the last one;
* `head_startsExpression`: an accepted list is non-empty and begins with a token the start
  state admits, which is never a closing parenthesis.

The lexer's tokens carry values of the types the planner asserts (`wellTyped`).
-/

namespace Geval

open TokenKind

/-- The kinds after which the grammar checker requires another token. -/
def TokenKind.opensOperand : TokenKind → Bool
  | PREFIX | MODIFIER | COMPARATOR | LOGICALOP | TERNARY | SEPARATOR | CLAUSE | FUNCTION => true
  | _ => false

/-- A token whose value has the Go type `parseTokens` gives its kind; a prefix token names a
prefix operator, as `readToken` makes it. -/
def ExpressionToken.wellTyped (t : ExpressionToken) : Bool :=
  match t.kind, t.value with
  | PREFIX, .string s => (prefixSymbols s).isSome
  | NUMERIC, .float _ | BOOLEAN, .bool _ | STRING, .string _ | PATTERN, .pattern _
  | TIME, .time _ | VARIABLE, .string _ | FUNCTION, .function _ | SEPARATOR, .string _
  | ACCESSOR, .strings _ | COMPARATOR, .string _ | LOGICALOP, .string _
  | MODIFIER, .string _ | CLAUSE, .rune _ | CLAUSE_CLOSE, .rune _ | TERNARY, .string _ => true
  | _, _ => false

namespace ExpressionToken

variable {t : ExpressionToken}

theorem wellTyped_variable (h : t.wellTyped) (hk : t.kind = VARIABLE) :
    ∃ name, t.value = .string name := by
  obtain ⟨kind, value⟩ := t; subst hk; cases value <;> simp_all [wellTyped]

theorem wellTyped_function (h : t.wellTyped) (hk : t.kind = FUNCTION) :
    ∃ f, t.value = .function f := by
  obtain ⟨kind, value⟩ := t; subst hk; cases value <;> simp_all [wellTyped]

theorem wellTyped_accessor (h : t.wellTyped) (hk : t.kind = ACCESSOR) :
    ∃ path, t.value = .strings path := by
  obtain ⟨kind, value⟩ := t; subst hk; cases value <;> simp_all [wellTyped]

theorem wellTyped_time (h : t.wellTyped) (hk : t.kind = TIME) : ∃ unix, t.value = .time unix := by
  obtain ⟨kind, value⟩ := t; subst hk; cases value <;> simp_all [wellTyped]

theorem wellTyped_prefix (h : t.wellTyped) (hk : t.kind = PREFIX) :
    ∃ lexeme symbol, t.value = .string lexeme ∧ prefixSymbols lexeme = some symbol := by
  obtain ⟨kind, value⟩ := t; subst hk
  cases value <;> simp_all [wellTyped, Option.isSome_iff_exists]

end ExpressionToken

/-- The row of a kind is final only for kinds that close an operand. -/
theorem opensOperand_of_getLexerStateForToken {kind : TokenKind} {state : LexerState}
    (h : getLexerStateForToken kind = .ok state) (hEOF : state.isEOF) :
    kind.opensOperand = false := by
  cases kind <;> simp only [getLexerStateForToken, validLexerStates, List.find?] at h <;>
    cases h <;> first | rfl | simp at hEOF

/-- The loop of `checkExpressionSyntax` from any state: every opener read has a successor. -/
theorem checkExpressionSyntaxFrom_opensOperand {state : LexerState} {last : ExpressionToken} :
    ∀ {tokens : List ExpressionToken}, checkExpressionSyntaxFrom state last tokens = .ok () →
      ∀ j (hj : j < tokens.length), tokens[j].kind.opensOperand → j + 1 < tokens.length
  | [], _, j, hj, _ => absurd hj (Nat.not_lt_zero j)
  | token :: rest, h, j, hj, hopen => by
    simp only [checkExpressionSyntaxFrom] at h
    split at h
    · simp [transitionError] at h; split at h <;> (try split at h) <;> simp_all [fail]
    split at h
    · cases h
    rename_i next hnext
    split at h
    · cases h
    cases j with
    | zero =>
      cases rest with
      | nil =>
        simp only [checkExpressionSyntaxFrom] at h
        split at h
        · simp_all [opensOperand_of_getLexerStateForToken hnext]
        · cases h
      | cons => simp
    | succ j =>
      have := checkExpressionSyntaxFrom_opensOperand h j (by simpa using hj) (by simpa using hopen)
      simpa using this

theorem transitionError_ne_ok (state : LexerState) (last token : ExpressionToken) :
    transitionError state last token ≠ .ok () := by
  unfold transitionError
  split
  · split <;> simp [fail]
  · simp [fail]

/-- One step of the checker's loop that goes on: the row admits the token's kind, and the
loop goes on from the row of that kind. -/
theorem checkExpressionSyntaxFrom_cons_eq_ok {state : LexerState}
    {last token : ExpressionToken} {rest : List ExpressionToken}
    (h : checkExpressionSyntaxFrom state last (token :: rest) = .ok ()) :
    state.canTransitionTo token.kind ∧ ∃ next, getLexerStateForToken token.kind = .ok next ∧
      checkExpressionSyntaxFrom next token rest = .ok () := by
  simp only [checkExpressionSyntaxFrom] at h
  split at h
  · exact absurd h (transitionError_ne_ok _ _ _)
  split at h
  · cases h
  split at h
  · cases h
  exact ⟨by simp_all, _, ‹_›, h⟩

/-- `getLexerStateForToken` returns a row of the table. -/
theorem getLexerStateForToken_mem {kind : TokenKind} {state : LexerState}
    (h : getLexerStateForToken kind = .ok state) : state ∈ validLexerStates := by
  unfold getLexerStateForToken at h
  split at h
  · cases h; exact List.mem_of_find?_eq_some ‹_›
  · cases h

/-- Neighbouring tokens of an accepted list: the row of the first admits the kind of the
second. -/
theorem checkExpressionSyntaxFrom_adjacent {state : LexerState} {last : ExpressionToken} :
    ∀ {tokens : List ExpressionToken}, checkExpressionSyntaxFrom state last tokens = .ok () →
      ∀ (j : Nat) (u v : ExpressionToken), tokens[j]? = some u → tokens[j + 1]? = some v →
        ∃ row, getLexerStateForToken u.kind = .ok row ∧ row.canTransitionTo v.kind
  | [], _, _, _, _, hu, _ => by simp at hu
  | token :: rest, h, j, u, v, hu, hv => by
    simp only [checkExpressionSyntaxFrom] at h
    split at h
    · exact absurd h (transitionError_ne_ok _ _ _)
    split at h
    · cases h
    rename_i row hrow
    split at h
    · cases h
    cases j with
    | zero =>
      obtain ⟨w, rest, rfl⟩ : ∃ w rest', rest = w :: rest' := by
        cases rest with
        | nil => simp at hv
        | cons w rest' => exact ⟨w, rest', rfl⟩
      simp only [List.getElem?_cons_zero, Option.some.injEq, Nat.zero_add,
        List.getElem?_cons_succ] at hu hv
      subst hu hv
      refine ⟨row, hrow, ?_⟩
      simp only [checkExpressionSyntaxFrom] at h
      split at h
      · exact absurd h (transitionError_ne_ok _ _ _)
      · rename_i hcan
        cases hc : row.canTransitionTo w.kind <;> simp_all
    | succ j =>
      exact checkExpressionSyntaxFrom_adjacent h j u v (by simpa using hu) (by simpa using hv)

theorem opensOperand_succ_lt {tokens : List ExpressionToken}
    (h : checkExpressionSyntax tokens = .ok ()) (j : Nat) (hj : j < tokens.length)
    (hopen : tokens[j].kind.opensOperand) : j + 1 < tokens.length :=
  checkExpressionSyntaxFrom_opensOperand h j hj hopen

/-- The kinds the start state admits first. -/
def startsExpression (kind : TokenKind) : Bool := startState.validNextKinds.contains kind

theorem head_startsExpression {tokens : List ExpressionToken}
    (h : checkExpressionSyntax tokens = .ok ()) :
    ∃ t rest, tokens = t :: rest ∧ startsExpression t.kind := by
  match tokens, h with
  | [], h => simp [checkExpressionSyntax, checkExpressionSyntaxFrom, startState,
      validLexerStates, fail] at h
  | t :: rest, h =>
    refine ⟨t, rest, rfl, ?_⟩
    simp only [checkExpressionSyntax, checkExpressionSyntaxFrom] at h
    split at h
    · simp [transitionError, fail] at h
    · simp_all [startsExpression, LexerState.canTransitionTo]

end Geval
