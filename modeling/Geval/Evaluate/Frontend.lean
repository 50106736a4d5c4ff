import Geval.Lexer.Spelling
import Geval.Reorder.Reference
import Geval.Syntax.Optimize

/-!
# Compiling the text of a derivation

`tNewEvaluableExpressionWithFunctions` lexes, checks the balance and the syntax, optimizes
and plans. On the text of a supported derivation of the planner's grammar
(`Geval.Planner.Grammar`), written token by token as the lexer reads it back
(`Geval.Lexer.Spelling`), each stage does what the derivation says: the lexer returns its
tokens, whose parentheses balance; the optimizer leaves them alone when no comparator is a
regular-expression match; and the planner with `reorderStages` builds the reference tree
(`Geval.Reorder.Reference`). So `tNewEvaluableExpressionWithFunctions_render`: the compiled
stages are the literal elision of the reference tree, whenever the grammar checker accepts the
tokens.
-/

namespace Geval

/-! ## The balance of a derivation -/

/-- A fold whose step adds an amount that depends on the token only. -/
theorem foldl_add_shift {f : Int → ExpressionToken → Int} (hf : ∀ a t, f a t = a + f 0 t) :
    ∀ (a : Int) (tokens : List ExpressionToken), tokens.foldl f a = a + tokens.foldl f 0
  | a, [] => by simp
  | a, t :: tokens => by
    rw [List.foldl_cons, List.foldl_cons, foldl_add_shift hf _ tokens,
      foldl_add_shift hf (f 0 t) tokens, hf a t]
    omega

theorem parenCount_append (l₁ l₂ : List ExpressionToken) :
    parenCount (l₁ ++ l₂) = parenCount l₁ + parenCount l₂ := by
  unfold parenCount
  rw [List.foldl_append, foldl_add_shift ?_ (List.foldl _ 0 l₁)]
  rintro a ⟨kind, _⟩
  cases kind <;> simp only [Int.zero_add] <;> omega

theorem parenCount_cons (t : ExpressionToken) (tokens : List ExpressionToken) :
    parenCount (t :: tokens) = parenCount [t] + parenCount tokens :=
  parenCount_append [t] tokens

/-- A token that is no parenthesis does not count. -/
theorem parenCount_single (t : ExpressionToken) (hopen : t.kind ≠ .CLAUSE)
    (hclose : t.kind ≠ .CLAUSE_CLOSE) : parenCount [t] = 0 := by
  simp only [parenCount, List.foldl_cons, List.foldl_nil]

theorem ExpressionToken.isLiteral_paren {t : ExpressionToken} (h : t.isLiteral) :
    t.kind ≠ .CLAUSE ∧ t.kind ≠ .CLAUSE_CLOSE := by
  obtain ⟨kind, value⟩ := t
  cases kind <;> (try cases h) <;> exact ⟨nofun, nofun⟩

theorem Level.kind_paren (L : Level) : L.kind ≠ .CLAUSE ∧ L.kind ≠ .CLAUSE_CLOSE := by
  cases L <;> exact ⟨nofun, nofun⟩

mutual

/-- The parentheses of a supported derivation balance. -/
theorem Derivation.parenCount_tokens : ∀ {d : Derivation}, d.Supported → parenCount d.tokens = 0
  | .chain L first rest, hd => by
    simp only [Derivation.Supported, Bool.and_eq_true] at hd
    rw [Derivation.tokens, parenCount_append, Derivation.parenCount_tokens hd.1.2,
      Chain.parenCount_tokens hd.2]
    rfl
  | .unary _ operand, hd => by
    simp only [Derivation.Supported, Bool.and_eq_true] at hd
    rw [Derivation.tokens, parenCount_cons, Derivation.parenCount_tokens hd.2]
    rfl
  | .call _ args, hd => by
    rw [Derivation.tokens, parenCount_cons, Args.parenCount_tokens hd]
    rfl
  | .field _, _ => rfl
  | .method .., hd => by simp [Derivation.Supported] at hd
  | .group _, hd => Args.parenCount_tokens hd
  | .literal _, hd =>
    parenCount_single _ (ExpressionToken.isLiteral_paren hd).1
      (ExpressionToken.isLiteral_paren hd).2
  | .parameter _, _ => rfl

theorem Chain.parenCount_tokens {L : Level} : ∀ {c : Chain}, c.Supported L →
    parenCount (c.tokens L) = 0
  | .last _ operand, hc => by
    simp only [Chain.Supported, Bool.and_eq_true] at hc
    rw [Chain.tokens, parenCount_cons, parenCount_single ⟨L.kind, _⟩ L.kind_paren.1 L.kind_paren.2,
      Derivation.parenCount_tokens hc.2]
    rfl
  | .cons _ operand rest, hc => by
    simp only [Chain.Supported, Bool.and_eq_true] at hc
    rw [Chain.tokens, parenCount_append, parenCount_cons,
      parenCount_single ⟨L.kind, _⟩ L.kind_paren.1 L.kind_paren.2, Derivation.parenCount_tokens hc.1.2,
      Chain.parenCount_tokens hc.2]
    rfl

theorem Args.parenCount_tokens : ∀ {a : Args}, a.Supported → parenCount a.tokens = 0
  | .empty, _ => rfl
  | .contents d, ha => by
    simp only [Args.Supported, Bool.and_eq_true] at ha
    rw [Args.tokens, parenCount_append, parenCount_cons, Derivation.parenCount_tokens ha.2]
    rfl

end

/-! ## The optimizer -/

/-- No comparator of the list is `=~` or `!~`: the lists `optimizeTokens` leaves alone. -/
def noRegexMatch (tokens : List ExpressionToken) : Bool :=
  tokens.all fun t =>
    match t.kind, t.value with
    | .COMPARATOR, .string lexeme =>
      (comparatorSymbols lexeme).getD .VALUE ≠ .REQ && (comparatorSymbols lexeme).getD .VALUE ≠ .NREQ
    | .COMPARATOR, _ => false
    | _, _ => true

/-- The optimizer leaves a list with no `=~` or `!~` comparator as it is. -/
theorem optimizeTokensFrom_of_noRegexMatch (regexp : RegexpLibrary) :
    ∀ (tokens : List ExpressionToken) (index : Nat), noRegexMatch tokens →
      optimizeTokensFrom regexp index tokens = .ok tokens
  | [], _, _ => rfl
  | t :: tokens, index, h => by
    simp only [noRegexMatch, List.all_cons, Bool.and_eq_true] at h
    have ih := optimizeTokensFrom_of_noRegexMatch regexp tokens (index + 1) h.2
    obtain ⟨kind, value⟩ := t
    by_cases hk : kind = .COMPARATOR
    · subst hk
      cases value with
      | string lexeme =>
        simp only [Bool.and_eq_true, decide_eq_true_eq] at h
        rw [optimizeTokensFrom_of_other_comparator rfl rfl h.1, ih]
        rfl
      | _ => cases h.1
    · rw [optimizeTokensFrom_of_not_comparator hk, ih]
      rfl

/-! ## The compiler -/

section Compiler

variable {tables : LexerTables} {functions : String → Option ExpressionFunction}
  {d : Derivation} {texts : List (List Char)}

/-- On the text of a supported derivation whose tokens the checker accepts, the lexer and the
two checks hand the derivation's tokens to the optimizer, and the planner gets what it makes of
them. -/
theorem tNewEvaluableExpressionWithFunctions_render_tokens (hd : d.Supported)
    (hspelled : Spelled tables functions startState d.tokens texts)
    (haccepted : checkExpressionSyntax d.tokens = .ok ()) {world : World}
    {optimized : List ExpressionToken}
    (hoptimized : optimizeTokens world.regexp d.tokens = .ok optimized) :
    tNewEvaluableExpressionWithFunctions tables world (String.mk (render texts)) functions =
      (planStages world optimized).map fun stages =>
        ⟨isoDateFormat, true, optimized, stages, String.mk (render texts)⟩ := by
  have hbalance : checkBalance d.tokens = .ok () := by
    simp [checkBalance, Derivation.parenCount_tokens hd]
  simp only [tNewEvaluableExpressionWithFunctions, parseTokens, parseTokensLoop_render hspelled,
    ok_bind, pure_bind, hbalance, haccepted, hoptimized]
  cases planStages world optimized <;> rfl

/-- Compiling the text of a supported derivation: on the texts of its tokens, when the grammar
checker accepts them and no comparator is a regular-expression match, the compiler keeps the
tokens and its stages are the literal elision of the derivation's reference tree. -/
theorem tNewEvaluableExpressionWithFunctions_render (hd : d.Supported)
    (hspelled : Spelled tables functions startState d.tokens texts)
    (haccepted : checkExpressionSyntax d.tokens = .ok ()) (hregex : noRegexMatch d.tokens)
    (world : World) :
    tNewEvaluableExpressionWithFunctions tables world (String.mk (render texts)) functions =
      (elideLiterals world d.reference).map fun stages =>
        ⟨isoDateFormat, true, d.tokens, stages, String.mk (render texts)⟩ := by
  rw [tNewEvaluableExpressionWithFunctions_render_tokens hd hspelled haccepted
    (optimizeTokensFrom_of_noRegexMatch world.regexp _ 0 hregex), Derivation.planStages_tokens hd]

end Compiler

/-- `x - y`, a chain of the additive level. -/
def xMinusY : Derivation := .chain .additive (.parameter "x") (.last "-" (.parameter "y"))

theorem tNewEvaluableExpressionWithFunctions_render_difference :
    xMinusY.Supported ∧
      Spelled asciiTables (fun _ => none) startState xMinusY.tokens
        ["x".toList, "-".toList, "y".toList] ∧
      checkExpressionSyntax xMinusY.tokens = .ok () ∧ noRegexMatch xMinusY.tokens ∧
      tNewEvaluableExpressionWithFunctions asciiTables nullWorld
          (String.mk (render ["x".toList, "-".toList, "y".toList])) (fun _ => none) =
        (elideLiterals nullWorld xMinusY.reference).map fun stages =>
          ⟨isoDateFormat, true, xMinusY.tokens, stages,
            String.mk (render ["x".toList, "-".toList, "y".toList])⟩ :=
  have hspelled : Spelled asciiTables (fun _ => none) startState xMinusY.tokens
      ["x".toList, "-".toList, "y".toList] :=
    .cons (.identifier rfl rfl (by decide) (.parameter (by decide) rfl (by decide))) rfl
      (.cons (.operator (by decide) (by decide) rfl (by decide)) rfl
        (.cons (.identifier rfl rfl (by decide) (.parameter (by decide) rfl (by decide))) rfl
          (.nil _)))
  ⟨rfl, hspelled, rfl, rfl,
    tNewEvaluableExpressionWithFunctions_render (d := xMinusY) rfl hspelled rfl rfl nullWorld⟩

end Geval
