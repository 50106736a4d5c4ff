import Geval.Core.Planner
import Geval.Result

/-!
# What a planner call did

One inversion lemma per function of the planner: everything a call that returns a plan did,
in terms of the tokens it read and the calls it made. The invariants of the planner's output
(`PlanOut` in `Geval.Reorder.Shape`, `UnaryOut` in `Geval.Planner.Unary`) are derived from
these lemmas, with no unfolding of the planner.
-/

namespace Geval

namespace TokenStream

/-- `next` reads the token at the cursor, which is inside the list, and moves past it. -/
theorem next_eq_ok {t s : TokenStream} {token : ExpressionToken}
    (h : t.next = .ok (token, s)) :
    t.tokens[t.index.toNat]? = some token ∧ 0 ≤ t.index ∧ s = ⟨t.tokens, t.index + 1⟩ := by
  unfold TokenStream.next at h
  split at h
  · split at h
    · cases h; exact ⟨‹_›, ‹_›, rfl⟩
    · cases h
  · cases h

/-- `next` reads a token of the list and keeps the list. -/
theorem next_mem {t s : TokenStream} {token : ExpressionToken}
    (h : t.next = .ok (token, s)) : token ∈ t.tokens ∧ s.tokens = t.tokens := by
  obtain ⟨htoken, -, rfl⟩ := next_eq_ok h
  exact ⟨List.getElem?_mem htoken, rfl⟩

end TokenStream

section Steps

variable {recurse : Precedent → TokenStream → PlanResult} {stream : TokenStream}
  {r : Stage × TokenStream}

/-- A level returns its left operand, with the cursor on the same list, or the stage of one of
its symbols over its left operand and the plan of its right precedent after the symbol. -/
theorem planPrecedenceLevel_eq_ok {typeErrorFormat : TypeErrorFormat} {validSymbols : SymbolMap}
    {validKinds : List TokenKind} {right : Precedent} {left : Option Precedent}
    (h : planPrecedenceLevel recurse stream typeErrorFormat validSymbols validKinds right left =
      .ok r) :
    ∃ leftStage s₁, planLeftOperand recurse left stream = .ok (leftStage, s₁) ∧
      ((r.1 = leftStage ∧ r.2.tokens = s₁.tokens) ∨
        ∃ token lexeme symbol s₂ rightStage, s₁.next = .ok (token, s₂) ∧
          (0 < validKinds.length → token.kind ∈ validKinds) ∧ token.value = .string lexeme ∧
          validSymbols lexeme = some symbol ∧ recurse right s₂ = .ok (rightStage, r.2) ∧
          r.1 = .node (binaryInfo symbol typeErrorFormat) leftStage rightStage) := by
  obtain ⟨⟨leftStage, s₁⟩, hl, h⟩ := bind_eq_ok.mp h
  refine ⟨leftStage, s₁, hl, ?_⟩
  dsimp only at h
  split at h
  · obtain ⟨⟨token, s₂⟩, hnext, h⟩ := bind_eq_ok.mp h
    -- every way back to the left operand rewinds over the token just read
    have hback : (leftStage, s₂.rewind).2.tokens = s₁.tokens := by
      simp [(TokenStream.next_eq_ok hnext).2.2]
    dsimp only at h
    split at h
    · cases h; exact .inl ⟨rfl, hback⟩
    · rename_i hkind
      split at h
      · split at h
        · rename_i lexeme hv _ symbol hsymbol
          obtain ⟨⟨rightStage, s₃⟩, hr, h⟩ := bind_eq_ok.mp h
          cases h
          exact .inr ⟨token, lexeme, symbol, s₂, rightStage, hnext,
            fun hk => not_not.mp fun hn => hkind ⟨hk, hn⟩, hv, hsymbol, hr, rfl⟩
        · cases h; exact .inl ⟨rfl, hback⟩
      · cases h; exact .inl ⟨rfl, hback⟩
  · cases h; exact .inl ⟨rfl, rfl⟩

/-- `planFunction` reads a token: a call token, and the plan of its operand after it, or
another, and the accessor level from that token. -/
theorem planFunction_eq_ok (h : planFunction recurse stream = .ok r) :
    ∃ token s₁, stream.next = .ok (token, s₁) ∧
      ((token.kind ≠ .FUNCTION ∧ recurse .planAccessor s₁.rewind = .ok r) ∨
        ∃ f rightStage, token.kind = .FUNCTION ∧ token.value = .function f ∧
          recurse .planAccessor s₁ = .ok (rightStage, r.2) ∧
          r.1 = .node (functionalInfo f) .nil rightStage) := by
  obtain ⟨⟨token, s₁⟩, hnext, h⟩ := bind_eq_ok.mp h
  refine ⟨token, s₁, hnext, ?_⟩
  dsimp only at h
  split at h
  · exact .inl ⟨‹_›, h⟩
  · rename_i hkind
    obtain ⟨⟨rightStage, s₂⟩, hr, h⟩ := bind_eq_ok.mp h
    dsimp only at h
    split at h
    · rename_i f hf
      cases h
      exact .inr ⟨f, rightStage, not_not.mp hkind, hf, hr, rfl⟩
    · cases h

/-- The arguments of an accessor: the plan of the rest of the expression from a `(` after it,
or none, with the cursor on the same list. -/
theorem planAccessorArguments_eq_ok (h : planAccessorArguments recurse stream = .ok r) :
    (r.1 = .nil ∧ r.2.tokens = stream.tokens) ∨
      ∃ token s₁, stream.next = .ok (token, s₁) ∧ token.kind = .CLAUSE ∧
        recurse .planTokens s₁.rewind = .ok r := by
  unfold planAccessorArguments at h
  split at h
  · obtain ⟨⟨token, s₁⟩, hnext, h⟩ := bind_eq_ok.mp h
    dsimp only at h
    split at h
    · exact .inr ⟨token, s₁, hnext, ‹_›, h⟩
    · cases h; exact .inl ⟨rfl, by simp [(TokenStream.next_eq_ok hnext).2.2]⟩
  · cases h; exact .inl ⟨rfl, rfl⟩

/-- `planAccessor` plans nothing at the end of the list; otherwise it reads a token: an
accessor token, and its arguments after it, or another, and the value level from that
token. -/
theorem planAccessor_eq_ok (h : planAccessor recurse stream = .ok r) :
    r = (.nil, stream) ∨
      ∃ token s₁, stream.next = .ok (token, s₁) ∧
        ((token.kind ≠ .ACCESSOR ∧ recurse .planValue s₁.rewind = .ok r) ∨
          ∃ path rightStage, token = ⟨.ACCESSOR, .strings path⟩ ∧
            planAccessorArguments recurse s₁ = .ok (rightStage, r.2) ∧
            r.1 = .node (accessInfo path) .nil rightStage) := by
  unfold planAccessor at h
  split at h
  · obtain ⟨⟨token, s₁⟩, hnext, h⟩ := bind_eq_ok.mp h
    refine .inr ⟨token, s₁, hnext, ?_⟩
    dsimp only at h
    split at h
    · exact .inl ⟨‹_›, h⟩
    · rename_i hkind
      obtain ⟨⟨rightStage, s₂⟩, hr, h⟩ := bind_eq_ok.mp h
      dsimp only at h
      split at h
      · rename_i path hpath
        cases h
        obtain ⟨kind, value⟩ := token
        simp only [ne_eq, not_not] at hkind hpath
        subst hkind hpath
        exact .inr ⟨path, rightStage, rfl, hr, rfl⟩
      · cases h
  · cases h; exact .inl rfl

/-- `planValue` plans nothing at the end of the list; otherwise it plans the token it
reads. -/
theorem planValue_eq_ok (h : planValue recurse stream = .ok r) :
    r = (.nil, stream) ∨
      ∃ token s₁, stream.next = .ok (token, s₁) ∧ planValueToken recurse token s₁ = .ok r := by
  unfold planValue at h
  split at h
  · obtain ⟨⟨token, s₁⟩, hnext, h⟩ := bind_eq_ok.mp h
    exact .inr ⟨token, s₁, hnext, h⟩
  · cases h; exact .inl rfl

/-- The plan of a value token: a parenthesis over the plan of the clause's contents, with the
token after them consumed; nothing at a `)`; the prefix level from a prefix token; or the leaf
of a variable token's name or of a literal. -/
theorem planValueToken_eq_ok {token : ExpressionToken} {s₁ : TokenStream}
    (h : planValueToken recurse token s₁ = .ok r) :
    (∃ ret s₂ closing, token.kind = .CLAUSE ∧ recurse .planTokens s₁ = .ok (ret, s₂) ∧
        s₂.next = .ok (closing, r.2) ∧ r.1 = .node noopInfo .nil ret) ∨
      r = (.nil, s₁.rewind) ∨
      (token.kind = .PREFIX ∧ recurse .planPrefix s₁.rewind = .ok r) ∨
      ∃ info, r = (.node info .nil .nil, s₁) ∧
        ((∃ name, token = ⟨.VARIABLE, .string name⟩ ∧ info = parameterInfo name) ∨
          ∃ value, info = literalInfo value) := by
  unfold planValueToken at h
  split at h
  · rename_i hclause
    obtain ⟨⟨ret, s₂⟩, hret, h⟩ := bind_eq_ok.mp h
    obtain ⟨⟨closing, s₃⟩, hnext, h⟩ := bind_eq_ok.mp h
    cases h
    exact .inl ⟨ret, s₂, closing, hclause, hret, hnext, rfl⟩
  · cases h; exact .inr (.inl rfl)
  · split at h
    · rename_i hkind _ _ hvalue
      cases h
      obtain ⟨kind, value⟩ := token
      cases hkind
      cases hvalue
      exact .inr (.inr (.inr ⟨_, rfl, .inl ⟨_, rfl, rfl⟩⟩))
    · cases h
  all_goals first
    | (cases h; exact .inr (.inr (.inr ⟨_, rfl, .inr ⟨_, rfl⟩⟩)))
    | (split at h
       · cases h; exact .inr (.inr (.inr ⟨_, rfl, .inr ⟨_, rfl⟩⟩))
       · cases h)
    | exact .inr (.inr (.inl ⟨‹_›, h⟩))
    | cases h

/-- `planTokens` plans nothing at the end of the list; otherwise it is the separator level. -/
theorem planTokens_eq_ok (h : planTokens recurse stream = .ok r) :
    r = (.nil, stream) ∨ recurse .planSeparator stream = .ok r := by
  unfold planTokens at h
  split at h
  · cases h; exact .inl rfl
  · exact .inr h

end Steps

end Geval
