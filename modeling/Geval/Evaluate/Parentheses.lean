import Geval.Evaluate.Precompile
import Geval.Evaluate.Chains

/-!
# Parentheses around a whole expression

The grammar checker counts parentheses without matching them, so wrapping an accepted text in
parentheses may change what it means (`paren_wrap_changes_value`: `true) && (false`). On the
texts of the grammar it never does. The checker accepts `( e )` whenever it accepts `e`
(`checkExpressionSyntax_parenthesised`): the row of `(` admits every kind the start row
admits, and every final row admits `)`. The parenthesised derivation reads as the derivation
(`Derivation.eval_group`), so by `Derivation.compile_render` both texts compile to expressions
that evaluate alike (`TEvaluate_render_parenthesised`).
-/

namespace Geval

/-! ## The checker accepts the parenthesised list -/

/-- The row of `(` in the checker's table. -/
def clauseState : LexerState := ⟨false, true, .CLAUSE,
  [.PREFIX, .NUMERIC, .BOOLEAN, .VARIABLE, .PATTERN, .FUNCTION, .ACCESSOR, .STRING, .TIME,
    .CLAUSE, .CLAUSE_CLOSE]⟩

theorem canTransitionTo_clause_of_start {kind : TokenKind} (h : startState.canTransitionTo kind) :
    clauseState.canTransitionTo kind := by
  cases kind <;> first | rfl | cases h

theorem canTransitionTo_close_of_isEOF :
    ∀ state ∈ validLexerStates, state.isEOF → state.canTransitionTo .CLAUSE_CLOSE := by
  decide

/-- A step of the checker that goes on depends on the state only through its row's admission
of the token, and on the rest only through the loop after it. -/
theorem checkExpressionSyntaxFrom_cons_of {state state' : LexerState}
    {last last' token : ExpressionToken} {rest rest' : List ExpressionToken}
    (h : checkExpressionSyntaxFrom state last (token :: rest) = .ok ())
    (hcan : state.canTransitionTo token.kind → state'.canTransitionTo token.kind)
    (hrest : ∀ next ∈ validLexerStates, checkExpressionSyntaxFrom next token rest = .ok () →
      checkExpressionSyntaxFrom next token rest' = .ok ()) :
    checkExpressionSyntaxFrom state' last' (token :: rest') = .ok () := by
  simp only [checkExpressionSyntaxFrom] at h ⊢
  split at h
  · exact absurd h (transitionError_ne_ok _ _ _)
  rename_i hstate
  rw [if_neg (by simpa using hcan (by simpa using hstate))]
  split at h
  · cases h
  rename_i next hnext
  split at h
  · cases h
  rename_i hnull
  rw [if_neg hnull]
  exact hrest next (getLexerStateForToken_mem hnext) h

/-- A closing parenthesis after an accepted list is accepted: the list ends in a final row,
which admits it, and its row is final. -/
theorem checkExpressionSyntaxFrom_append_close {last : ExpressionToken} :
    ∀ {state : LexerState} {tokens : List ExpressionToken}, state ∈ validLexerStates →
      checkExpressionSyntaxFrom state last tokens = .ok () →
      checkExpressionSyntaxFrom state last (tokens ++ [closeToken]) = .ok ()
  | state, [], hstate, h => by
    have hEOF : state.isEOF := by
      simp only [checkExpressionSyntaxFrom] at h
      split at h
      · assumption
      · cases h
    simp only [List.nil_append, checkExpressionSyntaxFrom, closeToken,
      canTransitionTo_close_of_isEOF state hstate hEOF]
    rfl
  | _, token :: rest, _, h =>
    checkExpressionSyntaxFrom_cons_of h id fun _ hnext hrest =>
      checkExpressionSyntaxFrom_append_close hnext hrest

/-- The checker accepts `( e )` whenever it accepts `e`. -/
theorem checkExpressionSyntax_parenthesised {tokens : List ExpressionToken}
    (h : checkExpressionSyntax tokens = .ok ()) :
    checkExpressionSyntax (openToken :: tokens ++ [closeToken]) = .ok () := by
  obtain ⟨t, rest, rfl, -⟩ := head_startsExpression h
  have hclause : checkExpressionSyntaxFrom clauseState openToken (t :: rest) = .ok () :=
    checkExpressionSyntaxFrom_cons_of h canTransitionTo_clause_of_start fun _ _ => id
  show checkExpressionSyntaxFrom clauseState openToken (t :: rest ++ [closeToken]) = .ok ()
  exact checkExpressionSyntaxFrom_append_close (List.mem_cons_of_mem _ (List.mem_cons_self _ _))
    hclause

/-! ## The parenthesised text means the same -/

/-- A group reads as its contents. -/
theorem Derivation.eval_group {checksTypes : Bool} {world : World} {parameters : Parameters}
    (d : Derivation) :
    (Derivation.group (.contents d)).eval checksTypes world parameters =
      d.eval checksTypes world parameters := by
  rw [Derivation.eval, Args.eval, evaluateNode_of_proceed noopInfo .null rfl rfl [] _
    fun _ _ => rfl]
  obtain ⟨_ | _, _⟩ := d.eval checksTypes world parameters <;> rfl

/-- Wrapping the text of a supported derivation, itself not parenthesised, in parentheses
changes nothing: both texts compile, and on every parameter map, nil included, what they compile
to evaluates alike, value, error and external calls. -/
theorem TEvaluate_render_parenthesised {tables : LexerTables}
    {functions : String → Option ExpressionFunction} {d : Derivation} {texts : List (List Char)}
    (world : World) (hd : d.Supported) (hgroup : d.isGroup = false)
    (hwrites : List.Forall₂ (Writes tables functions) d.tokens texts)
    (haccepted : checkExpressionSyntax d.tokens = .ok ()) (hregex : d.RegexSafe world.regexp) :
    ∃ e e', tNewEvaluableExpressionWithFunctions tables world (String.mk (render texts)) functions =
        .ok e ∧
      tNewEvaluableExpressionWithFunctions tables world
          (String.mk (render (['('] :: texts ++ [[')']]))) functions = .ok e' ∧
      ∀ parameters : Option (String → Option Value),
        e'.TEvaluate world parameters = e.TEvaluate world parameters := by
  have hgrouped : (Derivation.group (.contents d)).Supported := by
    simp only [Derivation.Supported, Args.Supported, hgroup, hd, Bool.not_false, Bool.and_self]
  have haccepted' := checkExpressionSyntax_parenthesised haccepted
  have hwrites' : List.Forall₂ (Writes tables functions) (openToken :: d.tokens ++ [closeToken])
      (['('] :: texts ++ [[')']]) :=
    List.rel_append (.cons (fun _ _ _ => .clause) hwrites) (.cons (fun _ _ _ => .clauseClose) .nil)
  obtain ⟨e, he, heval⟩ := Derivation.compile_render world hd
    (Spelled.of_accepted hwrites (List.mem_cons_self _ _) haccepted) haccepted hregex
  obtain ⟨e', he', heval'⟩ := Derivation.compile_render (d := .group (.contents d)) world hgrouped
    (Spelled.of_accepted hwrites' (List.mem_cons_self _ _) haccepted') haccepted' hregex
  exact ⟨e, e', he, he', fun parameters => by
    rw [e.TEvaluate_eq_evaluateChild, e'.TEvaluate_eq_evaluateChild, heval', heval,
      Derivation.eval_group]⟩

theorem TEvaluate_render_parenthesised_difference :
    ∃ e e', tNewEvaluableExpressionWithFunctions asciiTables nullWorld
        (String.mk (render ["x".toList, "-".toList, "y".toList])) (fun _ => none) = .ok e ∧
      tNewEvaluableExpressionWithFunctions asciiTables nullWorld
          (String.mk (render (['('] :: ["x".toList, "-".toList, "y".toList] ++ [[')']])))
          (fun _ => none) = .ok e' ∧
      ∀ parameters : Option (String → Option Value),
        e'.TEvaluate nullWorld parameters = e.TEvaluate nullWorld parameters :=
  have hwrites : List.Forall₂ (Writes asciiTables fun _ => none) xMinusY.tokens
      ["x".toList, "-".toList, "y".toList] :=
    .cons (fun _ _ _ => .identifier rfl rfl (by decide) (.parameter (by decide) rfl (by decide)))
      (.cons (Writes.operator (by decide) (by decide) rfl)
        (.cons (fun _ _ _ => .identifier rfl rfl (by decide) (.parameter (by decide) rfl (by decide)))
          .nil))
  TEvaluate_render_parenthesised (d := xMinusY) nullWorld rfl rfl hwrites rfl rfl

end Geval
