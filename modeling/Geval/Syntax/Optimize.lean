import Mathlib.Data.List.Forall2
import Geval.Core.Expression
import Geval.Planner.Safety

/-!
# The token optimizer

`optimizeTokens` looks one token ahead of every `=~` and `!~`: a `STRING` there is compiled
and becomes a `PATTERN`. `Optimized` states that loop token by token.

* `optimizeTokens_safe`: on a list whose values have the lexer's types and whose operators
  are never last, the optimizer returns the `Optimized` list or a regular-expression error;
  its lookahead never leaves the list.
* `Optimized.plannable`: what the planner needs of a list survives the rewriting.
* `optimizeTokens_regex_operand_sum`: the rewritten token is not always the right operand
  of the comparator. In `x =~ 'a' + 'b'` the planner makes `'a' + 'b'` the operand, and the
  pattern `a` then fails the type check of `+`: the optimized expression fails where the
  unoptimized one matches `x` against `ab`.
-/

namespace Geval

/-- `=~` or `!~`: a comparator whose lexeme the optimizer reads as `REQ` or `NREQ`. -/
def ExpressionToken.IsRegexComparator (t : ExpressionToken) : Prop :=
  t.kind = .COMPARATOR ∧ ∃ lexeme, t.value = .string lexeme ∧
    ((comparatorSymbols lexeme).getD .VALUE = .REQ ∨ (comparatorSymbols lexeme).getD .VALUE = .NREQ)

/-- The loop of `optimizeTokens`, token by token: a `STRING` right after a regex comparator
becomes the `PATTERN` its text compiles to, and every other token is kept. -/
inductive Optimized (regexp : RegexpLibrary) : List ExpressionToken → List ExpressionToken → Prop
  | nil : Optimized regexp [] []
  | keep {t : ExpressionToken} {rest rest' : List ExpressionToken} :
    ¬ t.IsRegexComparator → Optimized regexp rest rest' → Optimized regexp (t :: rest) (t :: rest')
  | operand {c t : ExpressionToken} {rest rest' : List ExpressionToken} :
    c.IsRegexComparator → t.kind ≠ .STRING → Optimized regexp (t :: rest) rest' →
      Optimized regexp (c :: t :: rest) (c :: rest')
  | compile {c : ExpressionToken} {source : String} {pattern : Pattern}
    {rest rest' : List ExpressionToken} :
    c.IsRegexComparator → regexp.compile source = .ok pattern → Optimized regexp rest rest' →
      Optimized regexp (c :: ⟨.STRING, .string source⟩ :: rest)
        (c :: ⟨.PATTERN, .pattern pattern⟩ :: rest')

theorem PlannableTokens.tail {t : ExpressionToken} {rest : List ExpressionToken}
    (h : PlannableTokens (t :: rest)) : PlannableTokens rest where
  opens j u hu hopen := by
    have := h.opens (j + 1) u (by simpa using hu) hopen
    simp only [List.length_cons] at this
    omega
  typed u hu := h.typed u (List.mem_cons_of_mem t hu)

section Loop

variable {regexp : RegexpLibrary} {index : Nat} {token : ExpressionToken}
  {rest : List ExpressionToken}

/-- The loop passes over a token that is not a comparator. -/
theorem optimizeTokensFrom_of_not_comparator (hk : token.kind ≠ .COMPARATOR) :
    optimizeTokensFrom regexp index (token :: rest) =
      (token :: ·) <$> optimizeTokensFrom regexp (index + 1) rest := by
  cases rest <;> simp only [optimizeTokensFrom, if_pos hk]

/-- The loop passes over a comparator other than `=~` and `!~`. -/
theorem optimizeTokensFrom_of_other_comparator {lexeme : String} (hk : token.kind = .COMPARATOR)
    (hv : token.value = .string lexeme)
    (hsymbol : (comparatorSymbols lexeme).getD .VALUE ≠ .REQ ∧
      (comparatorSymbols lexeme).getD .VALUE ≠ .NREQ) :
    optimizeTokensFrom regexp index (token :: rest) =
      (token :: ·) <$> optimizeTokensFrom regexp (index + 1) rest := by
  cases rest <;> simp only [optimizeTokensFrom, hk, hv, ne_eq, not_true_eq_false, if_false] <;>
    rw [if_pos hsymbol]

end Loop

/-- The optimizer's loop from any position of a plannable list: its lookahead stays inside
the list, and it returns the `Optimized` list or the error of a regular expression that does
not compile. -/
theorem optimizeTokensFrom_safe (regexp : RegexpLibrary) (index : Nat)
    (tokens : List ExpressionToken) (ptokens : PlannableTokens tokens) :
    Result.Safe (Optimized regexp tokens) (optimizeTokensFrom regexp index tokens) := by
  induction index, tokens using optimizeTokensFrom.induct regexp with
  | case1 => exact .nil
  | case2 _ token rest hk ih =>
    rw [optimizeTokensFrom_of_not_comparator hk]
    exact (ih ptokens.tail).map fun rest' h => .keep (fun hc => hk hc.1) h
  | case3 _ token rest hk source hv symbol hsymbol ih =>
    rw [optimizeTokensFrom_of_other_comparator (not_not.mp hk) hv hsymbol]
    refine (ih ptokens.tail).map fun rest' h => .keep (fun ⟨_, lexeme, hv', hc⟩ => ?_) h
    rw [hv, Value.string.injEq] at hv'
    subst hv'
    rcases hc with hc | hc
    · exact hsymbol.1 hc
    · exact hsymbol.2 hc
  | case4 _ token hk =>
    -- a comparator is never last
    have := ptokens.opens 0 token rfl (by simp_all [TokenKind.opensOperand])
    simp at this
  | case5 _ token hk source hv symbol hsymbol next afterNext hnext source' hv' pattern hcompile
      ih =>
    obtain ⟨kind, value⟩ := next
    simp only at hnext hv'
    subst hnext hv'
    simp only [optimizeTokensFrom, if_neg hk, hv]
    rw [if_neg hsymbol]
    simp only [if_true, hcompile]
    refine (ih ptokens.tail.tail).map fun rest' h => .compile ⟨not_not.mp hk, source, hv, ?_⟩
      hcompile h
    simp only [ne_eq, not_and_or, not_not] at hsymbol
    exact hsymbol
  | case6 _ token hk source hv symbol hsymbol next afterNext hnext source' hv' message hcompile =>
    simp only [optimizeTokensFrom, if_neg hk, hv]
    rw [if_neg hsymbol]
    simp only [hnext, if_true, hv', hcompile, Result.safe_fail]
  | case7 _ token hk source hv symbol hsymbol next afterNext hnext hv' =>
    -- the lexer's `STRING` tokens carry strings
    have htyped := ptokens.typed next (by simp)
    obtain ⟨kind, value⟩ := next
    simp only at hnext hv'
    subst hnext
    cases value <;> simp_all [ExpressionToken.wellTyped]
  | case8 _ token hk source hv symbol hsymbol next afterNext hnext ih =>
    simp only [optimizeTokensFrom, if_neg hk, hv]
    rw [if_neg hsymbol, if_neg hnext]
    refine (ih ptokens.tail).map fun rest' h => .operand ⟨not_not.mp hk, source, hv, ?_⟩ hnext h
    simp only [ne_eq, not_and_or, not_not] at hsymbol
    exact hsymbol
  | case9 _ token rest hk hv =>
    -- the lexer's comparators carry strings
    have htyped := ptokens.typed token (by simp)
    obtain ⟨kind, value⟩ := token
    simp only [not_not] at hk
    subst hk
    cases value <;> simp_all [ExpressionToken.wellTyped]

/-- What the optimizer may do to a token's kind: keep it, or make a `STRING` a `PATTERN`. -/
def KindKept (t t' : ExpressionToken) : Prop :=
  t'.kind = t.kind ∨ t.kind = .STRING ∧ t'.kind = .PATTERN

/-- On every list, what the optimizer's loop returns keeps the kind of every token at its
position, but for `STRING`s made `PATTERN`s. -/
theorem optimizeTokensFrom_kinds (regexp : RegexpLibrary) (index : Nat)
    (tokens : List ExpressionToken) : ∀ {tokens' : List ExpressionToken},
      optimizeTokensFrom regexp index tokens = .ok tokens' →
        List.Forall₂ KindKept tokens tokens' := by
  induction index, tokens using optimizeTokensFrom.induct regexp with
  | case1 => intro _ h; cases h; exact .nil
  | case2 _ token rest hk ih =>
    intro _ h
    rw [optimizeTokensFrom_of_not_comparator hk] at h
    obtain ⟨rest', hrest, rfl⟩ := map_eq_ok.mp h
    exact .cons (.inl rfl) (ih hrest)
  | case3 _ token rest hk source hv symbol hsymbol =>
    rename_i ih
    intro _ h
    rw [optimizeTokensFrom_of_other_comparator (not_not.mp hk) hv hsymbol] at h
    obtain ⟨rest', hrest, rfl⟩ := map_eq_ok.mp h
    exact .cons (.inl rfl) (ih hrest)
  | case4 _ token hk source hv symbol =>
    rename_i hsymbol
    intro _
    simp only [optimizeTokensFrom, if_neg hk, hv]
    intro h
    rw [if_neg hsymbol] at h
    cases h
  | case5 _ token hk source hv symbol hsymbol next afterNext hnext source' hv' pattern hcompile =>
    rename_i ih
    intro _
    obtain ⟨kind, value⟩ := next
    simp only at hnext hv'
    subst hnext hv'
    simp only [optimizeTokensFrom, if_neg hk, hv]
    intro h
    rw [if_neg hsymbol] at h
    simp only [if_true, hcompile] at h
    obtain ⟨rest', hrest, rfl⟩ := map_eq_ok.mp h
    exact .cons (.inl rfl) (.cons (.inr ⟨rfl, rfl⟩) (ih hrest))
  | case6 _ token hk source hv symbol hsymbol next afterNext hnext source' hv' message =>
    rename_i hcompile
    intro _
    simp only [optimizeTokensFrom, if_neg hk, hv]
    intro h
    rw [if_neg hsymbol] at h
    simp [hnext, hv', hcompile, fail] at h
  | case7 _ token hk source hv symbol hsymbol next afterNext hnext =>
    rename_i hv'
    intro _
    simp only [optimizeTokensFrom, if_neg hk, hv]
    intro h
    rw [if_neg hsymbol] at h
    simp only [hnext, if_true] at h
    cases h
  | case8 _ token hk source hv symbol hsymbol next afterNext hnext =>
    rename_i ih
    intro _
    simp only [optimizeTokensFrom, if_neg hk, hv]
    intro h
    rw [if_neg hsymbol, if_neg hnext] at h
    obtain ⟨rest', hrest, rfl⟩ := map_eq_ok.mp h
    exact .cons (.inl rfl) (ih hrest)
  | case9 _ token rest hk hv =>
    intro _ h
    obtain ⟨kind, value⟩ := token
    simp only [not_not] at hk
    subst hk
    cases value <;> simp_all [optimizeTokensFrom]

theorem optimizeTokens_safe (regexp : RegexpLibrary) {tokens : List ExpressionToken}
    (ptokens : PlannableTokens tokens) :
    Result.Safe (Optimized regexp tokens) (optimizeTokens regexp tokens) :=
  optimizeTokensFrom_safe regexp 0 tokens ptokens

namespace Optimized

variable {regexp : RegexpLibrary}

theorem length_eq {tokens tokens' : List ExpressionToken} (h : Optimized regexp tokens tokens') :
    tokens'.length = tokens.length := by
  induction h with
  | nil => rfl
  | keep _ _ ih | compile _ _ _ ih => simp only [List.length_cons, ih]
  | operand _ _ _ ih => simp only [List.length_cons] at ih ⊢; omega

/-- The optimizer changes no token kind that opens an operand, and keeps the first token. -/
theorem opensOperand_getElem? {tokens tokens' : List ExpressionToken}
    (h : Optimized regexp tokens tokens') :
    ∀ j : Nat, tokens'[j]?.map (fun t : ExpressionToken => t.kind.opensOperand) =
      tokens[j]?.map (fun t : ExpressionToken => t.kind.opensOperand) := by
  induction h with
  | nil => simp
  | keep _ _ ih => intro j; cases j <;> simp [ih]
  | operand _ _ _ ih =>
    intro j
    cases j with
    | zero => simp
    | succ j => simpa using ih j
  | compile _ _ _ ih =>
    intro j
    rcases j with _ | _ | j
    · simp
    · simp [TokenKind.opensOperand]
    · simpa using ih j

theorem head {t : ExpressionToken} {rest tokens' : List ExpressionToken}
    (h : Optimized regexp (t :: rest) tokens') : ∃ rest', tokens' = t :: rest' := by
  cases h <;> exact ⟨_, rfl⟩

theorem wellTyped {tokens tokens' : List ExpressionToken} (h : Optimized regexp tokens tokens')
    (htyped : ∀ t ∈ tokens, t.wellTyped) : ∀ t ∈ tokens', t.wellTyped := by
  induction h with
  | nil => exact htyped
  | keep _ _ ih | operand _ _ _ ih =>
    rw [List.forall_mem_cons] at htyped ⊢
    exact ⟨htyped.1, ih htyped.2⟩
  | compile _ _ _ ih =>
    simp only [List.forall_mem_cons] at htyped ⊢
    exact ⟨htyped.1, rfl, ih htyped.2.2⟩

/-- The optimizer rewrites tokens into `PATTERN`s only. -/
theorem mem {tokens tokens' : List ExpressionToken} (h : Optimized regexp tokens tokens')
    {t : ExpressionToken} : t ∈ tokens' → t ∈ tokens ∨ t.kind = .PATTERN := by
  induction h with
  | nil => nofun
  | keep _ _ ih | operand _ _ _ ih =>
    intro ht
    rcases List.mem_cons.mp ht with rfl | ht
    · exact .inl (List.mem_cons_self _ _)
    · exact (ih ht).imp_left (List.mem_cons_of_mem _)
  | compile _ _ _ ih =>
    intro ht
    rcases List.mem_cons.mp ht with rfl | ht
    · exact .inl (List.mem_cons_self _ _)
    rcases List.mem_cons.mp ht with rfl | ht
    · exact .inr rfl
    · exact (ih ht).imp_left fun h => List.mem_cons_of_mem _ (List.mem_cons_of_mem _ h)

/-- What the planner needs of a list survives the optimizer. -/
theorem plannable {tokens tokens' : List ExpressionToken} (h : Optimized regexp tokens tokens')
    (ptokens : PlannableTokens tokens) : PlannableTokens tokens' where
  opens j u hu hopen := by
    have hk := h.opensOperand_getElem? j
    rw [hu, Option.map_some', hopen] at hk
    obtain ⟨t, ht, htk⟩ := Option.map_eq_some'.mp hk.symm
    rw [h.length_eq]
    exact ptokens.opens j t ht htk
  typed := h.wellTyped ptokens.typed

end Optimized

/-- `tNewEvaluableExpressionWithFunctions` with `optimizeTokens` left out: regular-expression
operands are then compiled at evaluation. -/
def tNewEvaluableExpressionUnoptimized (tables : LexerTables) (world : World)
    (expression : String) (functions : String → Option ExpressionFunction) :
    Result EvaluableExpression := do
  let tokens ← parseTokens tables expression functions
  checkBalance tokens
  checkExpressionSyntax tokens
  let stages ← planStages world tokens
  pure ⟨isoDateFormat, true, tokens, stages, expression⟩

/-- `x =~ 'a' + 'b'` with `x = "ab"`: optimized, `'a'` becomes a pattern, `+` rejects it and
the evaluation fails; unoptimized, `'a' + 'b'` folds to `ab` and the match succeeds. -/
theorem optimizeTokens_regex_operand_sum :
    (∃ message, ((TNewEvaluableExpression asciiTables nullWorld "x =~ 'a' + 'b'").map fun e =>
        (e.TEvaluate nullWorld (some fun _ => some (.string "ab"))).1) =
        .ok (.error (.error message))) ∧
      ((tNewEvaluableExpressionUnoptimized asciiTables nullWorld "x =~ 'a' + 'b'"
        fun _ => none).map fun e =>
        (e.TEvaluate nullWorld (some fun _ => some (.string "ab"))).1) = .ok (.ok (.bool true)) := by
  have hp : parseTokens asciiTables "x =~ 'a' + 'b'" (fun _ => none) =
      .ok [⟨.VARIABLE, .string "x"⟩, ⟨.COMPARATOR, .string "=~"⟩, ⟨.STRING, .string "a"⟩,
        ⟨.MODIFIER, .string "+"⟩, ⟨.STRING, .string "b"⟩] := by rfl
  simp only [TNewEvaluableExpression, tNewEvaluableExpressionWithFunctions,
    tNewEvaluableExpressionUnoptimized, hp]
  exact ⟨⟨_, rfl⟩, rfl⟩

end Geval
