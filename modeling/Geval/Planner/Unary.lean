import Geval.Reorder.Shape
import Geval.Syntax.Accepted
import Geval.Syntax.Optimize

/-!
# Prefix, call and accessor stages in a plan

On the lists the grammar checker accepts, the planner never hangs a prefix stage under a
prefix stage, nor a call or accessor stage under a call or accessor stage, as its right
operand: no prefix token follows a prefix token, a call token is always followed by `(`, and
the arguments of an accessor are planned from the `(` after it. The root of every plan says
which token it was planned from (`RootAt`), and each of these stages checks the root of its
operand against the token after its own. Such a stage is also built with no left child.

* `plan_unary`: on a list whose neighbouring tokens are so ordered (`UnaryAdjacent`), every
  plan is `NoUnaryRun`.
* `unaryAdjacent_of_accepted`, `UnaryAdjacent.of_kindKept`: every accepted list is, and so is
  what the optimizer makes of it.
-/

namespace Geval

/-- The precedences of the prefix operators and of calls and accessors. -/
def OperatorPrecedence.isUnary : OperatorPrecedence → Bool
  | .prefixPrecedence | .functionalPrecedence => true
  | _ => false

/-- No prefix, call or accessor stage has a left child, or a right child of its own
precedence. -/
def Stage.NoUnaryRun : Stage → Prop
  | .nil => True
  | .node info left right =>
    ((findOperatorPrecedenceForSymbol info.symbol).isUnary →
      left = .nil ∧ right.precedence? ≠ some (findOperatorPrecedenceForSymbol info.symbol)) ∧
    left.NoUnaryRun ∧ right.NoUnaryRun

/-- The root of a plan made from position `i` of `tokens`: a prefix stage only at a prefix
token, and a call or accessor stage only at a call or accessor token. -/
def RootAt (tokens : List ExpressionToken) (i : Int) (t : Stage) : Prop :=
  (t.precedence? = some .prefixPrecedence → ∃ u, tokens[i.toNat]? = some u ∧ u.kind = .PREFIX) ∧
  (t.precedence? = some .functionalPrecedence →
    ∃ u, tokens[i.toNat]? = some u ∧ (u.kind = .FUNCTION ∨ u.kind = .ACCESSOR))

/-- What the grammar checker guarantees of neighbouring tokens, as far as these stages go: no
prefix token follows a prefix token, and a call token is followed by `(`. -/
def UnaryAdjacent (tokens : List ExpressionToken) : Prop :=
  ∀ (k : Nat) (u v : ExpressionToken), tokens[k]? = some u → tokens[k + 1]? = some v →
    (u.kind = .PREFIX → v.kind ≠ .PREFIX) ∧ (u.kind = .FUNCTION → v.kind = .CLAUSE)

/-- What a planner call returns from position `i` of `tokens`: a plan with no unary run,
rooted as the token at `i` allows, and a cursor over the same list. -/
def UnaryOut (tokens : List ExpressionToken) (i : Int) (r : Stage × TokenStream) : Prop :=
  r.1.NoUnaryRun ∧ RootAt tokens i r.1 ∧ ∃ j, r.2 = ⟨tokens, j⟩

theorem rootAt_node {tokens : List ExpressionToken} {i : Int} {info : StageInfo}
    {left right : Stage} (h : (findOperatorPrecedenceForSymbol info.symbol).isUnary = false) :
    RootAt tokens i (.node info left right) := by
  constructor <;> intro hq <;> simp only [Stage.precedence?_node, Option.some_inj] at hq <;>
    simp [hq, OperatorPrecedence.isUnary] at h

namespace UnaryOut

variable {tokens : List ExpressionToken} {i : Int}

theorem nil (j : Int) : UnaryOut tokens i (.nil, ⟨tokens, j⟩) :=
  ⟨trivial, ⟨nofun, nofun⟩, j, rfl⟩

theorem leaf {info : StageInfo} (h : (findOperatorPrecedenceForSymbol info.symbol).isUnary = false)
    (j : Int) : UnaryOut tokens i (.node info .nil .nil, ⟨tokens, j⟩) :=
  ⟨⟨fun hu => absurd (h.symm.trans hu) Bool.false_ne_true, trivial, trivial⟩, rootAt_node h, j,
    rfl⟩

end UnaryOut

theorem TokenStream.next_at {tokens : List ExpressionToken} {i : Int} {u : ExpressionToken}
    {s : TokenStream} (h : (⟨tokens, i⟩ : TokenStream).next = .ok (u, s)) :
    tokens[i.toNat]? = some u ∧ 0 ≤ i ∧ s = ⟨tokens, i + 1⟩ :=
  TokenStream.next_eq_ok h

/-- A cursor on the list is at one of its positions. -/
theorem TokenStream.exists_mk {s : TokenStream} {tokens : List ExpressionToken}
    (h : s.tokens = tokens) : ∃ j, s = ⟨tokens, j⟩ :=
  ⟨s.index, by cases s; cases h; rfl⟩

/-- The symbols of the binary levels are neither prefix operators nor calls. -/
theorem levelSymbols_not_unary {validSymbols : SymbolMap}
    (hmap : validSymbols ∈ [separatorSymbols, ternarySymbols, logicalOrSymbols,
      logicalAndSymbols, comparatorSymbols, bitwiseSymbols, bitwiseShiftSymbols, additiveSymbols,
      multiplicativeSymbols, exponentialSymbolsS])
    {lexeme : String} {symbol : OperatorSymbol} (h : validSymbols lexeme = some symbol) :
    (findOperatorPrecedenceForSymbol symbol).isUnary = false := by
  have hbinary := levelSymbols_binary hmap h
  revert hbinary
  cases findOperatorPrecedenceForSymbol symbol <;> decide

section Planner

variable {recurse : Precedent → TokenStream → PlanResult} {tokens : List ExpressionToken}
  (hadj : UnaryAdjacent tokens)
  (hrec : ∀ q i r, recurse q ⟨tokens, i⟩ = .ok r → UnaryOut tokens i r)
include hrec

include hadj in
/-- A level passes its left operand on or builds the stage of one of its symbols; only the
prefix level, which has no left operand, builds prefix stages. -/
theorem planPrecedenceLevel_unary {i : Int} {format : TypeErrorFormat}
    {validSymbols : SymbolMap} {validKinds : List TokenKind} {right : Precedent}
    {left : Option Precedent} {r : Stage × TokenStream}
    (h : planPrecedenceLevel recurse ⟨tokens, i⟩ format validSymbols validKinds right left =
      .ok r)
    (hsymbols : ∀ lexeme symbol, validSymbols lexeme = some symbol →
      (findOperatorPrecedenceForSymbol symbol).isUnary →
        findOperatorPrecedenceForSymbol symbol = .prefixPrecedence ∧ left = none ∧
          validKinds = [.PREFIX] ∧ right = .planFunction) :
    UnaryOut tokens i r := by
  obtain ⟨leftStage, s₁, hl, hr⟩ := planPrecedenceLevel_eq_ok h
  obtain ⟨hleft, hroot, j, rfl⟩ : UnaryOut tokens i (leftStage, s₁) := by
    cases left with
    | none => cases hl; exact .nil i
    | some p => exact hrec _ _ _ hl
  rcases hr with ⟨hr₁, hout⟩ | ⟨token, _, symbol, s₂, rightStage, hnext, hkind, -, hsymbol, hr, hr₁⟩
  · exact ⟨hr₁ ▸ hleft, hr₁ ▸ hroot, TokenStream.exists_mk hout⟩
  obtain ⟨htoken, hj0, rfl⟩ := TokenStream.next_at hnext
  obtain ⟨hright, hrroot, k, hk⟩ := hrec _ _ _ hr
  rw [UnaryOut, hr₁]
  cases hu : (findOperatorPrecedenceForSymbol symbol).isUnary
  · exact ⟨⟨fun h => absurd (hu.symm.trans h) Bool.false_ne_true, hleft, hright⟩,
      rootAt_node hu, k, hk⟩
  -- a prefix stage: no left operand, and its operand is planned after the prefix token
  obtain ⟨hp, rfl, rfl, rfl⟩ := hsymbols _ _ hsymbol hu
  cases hl
  have hkind' : token.kind = .PREFIX := by simpa using hkind (by decide)
  refine ⟨⟨fun _ => ⟨rfl, fun hq => ?_⟩, hleft, hright⟩,
    ⟨fun _ => ⟨token, htoken, hkind'⟩, fun hq => ?_⟩, k, hk⟩
  · rw [binaryInfo_symbol, hp] at hq
    obtain ⟨v, hv, hvk⟩ := hrroot.1 hq
    rw [show (i + 1).toNat = i.toNat + 1 by omega] at hv
    exact (hadj _ _ _ htoken hv).1 hkind' hvk
  · simp [binaryInfo_symbol, hp] at hq

include hadj in
/-- A call stage is built at a call token, whose successor `(` roots its operand. -/
theorem planFunction_unary {i : Int} {r : Stage × TokenStream}
    (h : planFunction recurse ⟨tokens, i⟩ = .ok r) : UnaryOut tokens i r := by
  obtain ⟨token, s₁, hnext, ⟨-, h⟩ | ⟨f, rightStage, hkind, -, hr, hr₁⟩⟩ := planFunction_eq_ok h
  all_goals obtain ⟨htoken, hi0, rfl⟩ := TokenStream.next_at hnext
  · rw [TokenStream.rewind_mk, Int.add_sub_cancel] at h
    exact hrec _ _ _ h
  obtain ⟨hright, hrroot, k, hk⟩ := hrec _ _ _ hr
  rw [UnaryOut, hr₁]
  refine ⟨⟨fun _ => ⟨rfl, fun hq => ?_⟩, trivial, hright⟩,
    ⟨(fun h => by cases h), fun _ => ⟨token, htoken, .inl hkind⟩⟩, k, hk⟩
  obtain ⟨v, hv, hvk⟩ := hrroot.2 hq
  rw [show (i + 1).toNat = i.toNat + 1 by omega] at hv
  have hclause := (hadj _ _ _ htoken hv).2 hkind
  rcases hvk with hvk | hvk <;> rw [hvk] at hclause <;> cases hclause

/-- An accessor stage is built at an accessor token; its arguments, if any, are planned from
the `(` after it, which roots no call or accessor stage. -/
theorem planAccessor_unary {i : Int} {r : Stage × TokenStream}
    (h : planAccessor recurse ⟨tokens, i⟩ = .ok r) : UnaryOut tokens i r := by
  obtain rfl | ⟨token, s₁, hnext, ⟨-, h⟩ | ⟨path, rightStage, rfl, hargs, hr₁⟩⟩ :=
    planAccessor_eq_ok h
  · exact .nil _
  all_goals obtain ⟨htoken, -, rfl⟩ := TokenStream.next_at hnext
  · rw [TokenStream.rewind_mk, Int.add_sub_cancel] at h
    exact hrec _ _ _ h
  obtain ⟨hright, hrfun, k, hk⟩ : rightStage.NoUnaryRun ∧
      rightStage.precedence? ≠ some .functionalPrecedence ∧ ∃ k, r.2 = ⟨tokens, k⟩ := by
    rcases planAccessorArguments_eq_ok hargs with ⟨hnil, hout⟩ | ⟨other, s₂, hnext, hclause, hr⟩
    · obtain rfl : rightStage = .nil := hnil
      exact ⟨trivial, nofun, TokenStream.exists_mk hout⟩
    · obtain ⟨hother, -, rfl⟩ := TokenStream.next_at hnext
      rw [TokenStream.rewind_mk, Int.add_sub_cancel] at hr
      obtain ⟨hright, hrroot, k, hk⟩ := hrec _ _ _ hr
      refine ⟨hright, fun hq => ?_, k, hk⟩
      obtain ⟨v, hv, hvk⟩ := hrroot.2 hq
      rw [hother, Option.some_inj] at hv
      subst hv
      rcases hvk with hvk | hvk <;> rw [hvk] at hclause <;> cases hclause
  rw [UnaryOut, hr₁]
  exact ⟨⟨fun _ => ⟨rfl, hrfun⟩, trivial, hright⟩,
    ⟨(fun h => by cases h), fun _ => ⟨_, htoken, .inr rfl⟩⟩, k, hk⟩

/-- A value is a leaf, a parenthesis over a plan, or the plan of a prefix token. -/
theorem planValue_unary {i : Int} {r : Stage × TokenStream}
    (h : planValue recurse ⟨tokens, i⟩ = .ok r) : UnaryOut tokens i r := by
  obtain rfl | ⟨token, s₁, hnext, h⟩ := planValue_eq_ok h
  · exact .nil _
  obtain ⟨-, -, rfl⟩ := TokenStream.next_at hnext
  obtain ⟨ret, s₂, _, -, hret, hnext, hr₁⟩ | rfl | ⟨-, h⟩ | ⟨info, rfl, ⟨name, -, rfl⟩ | ⟨value, rfl⟩⟩ :=
    planValueToken_eq_ok h
  · obtain ⟨hcontents, -, k, rfl⟩ := hrec _ _ _ hret
    obtain ⟨-, -, hk⟩ := TokenStream.next_at hnext
    rw [UnaryOut, hr₁]
    exact ⟨⟨(fun h => by cases h), trivial, hcontents⟩, rootAt_node rfl, _, hk⟩
  · exact .nil _
  · rw [TokenStream.rewind_mk, Int.add_sub_cancel] at h
    exact hrec _ _ _ h
  · exact .leaf (by rfl) _
  · exact .leaf (by rfl) _

include hadj in
theorem planStep_unary {p : Precedent} {i : Int} {r : Stage × TokenStream}
    (h : planStep recurse p ⟨tokens, i⟩ = .ok r) : UnaryOut tokens i r := by
  cases p
  case planFunction => exact planFunction_unary hadj hrec h
  case planAccessor => exact planAccessor_unary hrec h
  case planValue => exact planValue_unary hrec h
  case planTokens =>
    obtain rfl | h := planTokens_eq_ok h
    · exact .nil _
    · exact hrec _ _ _ h
  case planPrefix =>
    exact planPrecedenceLevel_unary hadj hrec h fun _ _ h _ =>
      ⟨prefixSymbols_precedence h, rfl, rfl, rfl⟩
  all_goals
    exact planPrecedenceLevel_unary hadj hrec h fun _ _ h hu => absurd hu (by
      rw [levelSymbols_not_unary (by simp [separatorPlanner, ternaryPlanner, logicalOrPlanner,
        logicalAndPlanner, comparatorPlanner, bitwisePlanner, shiftPlanner, additivePlanner,
        multiplicativePlanner, exponentialPlanner]) h]
      exact Bool.false_ne_true)

end Planner

/-- On a list whose prefix and call tokens are so ordered, every plan from every position has
no unary run. -/
theorem plan_unary {tokens : List ExpressionToken} (hadj : UnaryAdjacent tokens) :
    ∀ (fuel : Nat) (p : Precedent) (i : Int) (r : Stage × TokenStream),
      plan fuel p ⟨tokens, i⟩ = .ok r → UnaryOut tokens i r
  | 0, _, _, _, h => by cases h
  | fuel + 1, _, _, _, h => planStep_unary hadj (plan_unary hadj fuel) h

/-! ## The lists the grammar checker accepts -/

/-- The grammar checker's rows of a prefix token and of a call token. -/
theorem unaryAdjacent_of_accepted {tokens : List ExpressionToken}
    (h : checkExpressionSyntax tokens = .ok ()) : UnaryAdjacent tokens := by
  intro k u v hu hv
  obtain ⟨row, hrow, hcan⟩ := checkExpressionSyntaxFrom_adjacent h k u v hu hv
  constructor
  · intro hk hvk
    rw [hk, show getLexerStateForToken .PREFIX = .ok ⟨false, false, .PREFIX,
      [.NUMERIC, .BOOLEAN, .VARIABLE, .FUNCTION, .ACCESSOR, .CLAUSE, .CLAUSE_CLOSE]⟩ from rfl]
      at hrow
    cases hrow
    rw [hvk] at hcan
    exact absurd hcan (by decide)
  · intro hk
    rw [hk, show getLexerStateForToken .FUNCTION = .ok ⟨false, false, .FUNCTION, [.CLAUSE]⟩
      from rfl] at hrow
    cases hrow
    revert hcan
    cases v.kind <;> decide

theorem kindKept_getElem? {tokens tokens' : List ExpressionToken}
    (h : List.Forall₂ KindKept tokens tokens') {k : Nat} {u' : ExpressionToken}
    (hu : tokens'[k]? = some u') : ∃ u, tokens[k]? = some u ∧ KindKept u u' := by
  obtain ⟨hk, rfl⟩ := List.getElem?_eq_some_iff.mp hu
  have hk' : k < tokens.length := h.length_eq ▸ hk
  exact ⟨tokens[k], List.getElem?_eq_getElem hk', by simpa using h.get hk' hk⟩

/-- A kind other than `STRING` and `PATTERN` is one the optimizer keeps. -/
theorem KindKept.kind_iff {t t' : ExpressionToken} {kind : TokenKind} (h : KindKept t t')
    (hs : kind ≠ .STRING) (hp : kind ≠ .PATTERN) : t'.kind = kind ↔ t.kind = kind := by
  rcases h with h | ⟨h₁, h₂⟩
  · rw [h]
  · rw [h₁, h₂]
    exact ⟨fun h => absurd h.symm hp, fun h => absurd h.symm hs⟩

/-- The optimizer keeps prefix, call and parenthesis tokens where they are. -/
theorem UnaryAdjacent.of_kindKept {tokens tokens' : List ExpressionToken}
    (h : List.Forall₂ KindKept tokens tokens') (hadj : UnaryAdjacent tokens) :
    UnaryAdjacent tokens' := by
  intro k u' v' hu' hv'
  obtain ⟨u, hu, hku⟩ := kindKept_getElem? h hu'
  obtain ⟨v, hv, hkv⟩ := kindKept_getElem? h hv'
  obtain ⟨hrepeat, hcall⟩ := hadj k u v hu hv
  refine ⟨fun hk hvk => hrepeat ((hku.kind_iff (by decide) (by decide)).mp hk)
    ((hkv.kind_iff (by decide) (by decide)).mp hvk), fun hk => ?_⟩
  exact (hkv.kind_iff (by decide) (by decide)).mpr (hcall ((hku.kind_iff (by decide) (by decide)).mp hk))

end Geval
