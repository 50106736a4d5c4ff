import Geval.Planner.Grammar

/-!
# The planner builds the planned tree of a derivation

On the tokens of a supported derivation, followed by a token no level at or below the
precedent takes, every precedent from the derivation's own level upwards returns the
derivation's planned tree (`Derivation.plans`): each level plans its left operand with the
next tighter level, takes an operator of its table and plans the rest of the chain with
itself, or stops at the token after its operand. The cursor ends after the derivation's
tokens, except at the end of the list, where the levels rewind onto the last token.

The proof goes by the derivation. A derivation is planned first by the precedent of its own
rank (`planValue` for a value, a group or a prefix, `planAccessor` for a field, `planFunction`
for a call, the chain's level for a chain), and every precedent above passes that plan on
(`Plans.climb`).
-/

namespace Geval

/-! ## Levels as precedents -/

namespace Level

/-- The precedent a level plans its left operands with: the next tighter level, and
`planFunction` below `planExponential`. -/
def next : Level → Precedent
  | separator => .planTernary | ternary => .planLogicalOr | logicalOr => .planLogicalAnd
  | logicalAnd => .planComparator | comparator => .planBitwise | bitwise => .planShift
  | shift => .planAdditive | additive => .planMultiplicative
  | multiplicative => .planExponential | exponential => .planFunction

theorem planner_next (L : Level) : L.planner.next = some L.next := by cases L <;> rfl

theorem planner_nextRight (L : Level) : L.planner.nextRight = none := by cases L <;> rfl

theorem planner_validKinds (L : Level) : L.planner.validKinds = [L.kind] := by cases L <;> rfl

theorem next_rank (L : Level) : L.next.rank + 1 = L.rank := by cases L <;> rfl

theorem planStep_precedent (recurse : Precedent → TokenStream → PlanResult) (L : Level) :
    planStep recurse L.precedent = makePrecedentFromPlanner recurse L.precedent L.planner := by
  cases L <;> rfl

theorem planner_getElem? (L : Level) : levelPlanners[13 - L.rank]? = some L.planner := by
  cases L <;> rfl

/-- A level is among the levels every precedent of its rank or above descends through. -/
theorem mem_stopLevels {L : Level} {p : Precedent} (h : L.rank ≤ p.rank) :
    L.planner ∈ p.stopLevels := by
  have hL : L.rank ≤ 13 := by cases L <;> decide
  refine List.mem_iff_getElem?.mpr ⟨13 - L.rank - (13 - p.rank), ?_⟩
  unfold Precedent.stopLevels
  rw [List.getElem?_drop, ← L.planner_getElem?]
  congr 1
  omega

end Level

theorem PrecedencePlanner.takes_string {planner : PrecedencePlanner} {K : TokenKind}
    {s : String} :
    planner.Takes ⟨K, .string s⟩ ↔ K ∈ planner.validKinds ∧ (planner.validSymbols s).isSome := by
  constructor
  · rintro ⟨hK, lexeme, hv, hs⟩
    cases hv
    exact ⟨hK, hs⟩
  · rintro ⟨hK, hs⟩
    exact ⟨hK, s, rfl, hs⟩

/-- The condition on the token after a derivation planned by `p`: no level `p` descends
through takes it, and it is not an opening parenthesis (which would make an accessor a
method call). -/
def Precedent.Follows (p : Precedent) (t : ExpressionToken) : Prop :=
  p.StopsAt t ∧ t.kind ≠ .CLAUSE

/-- An operator of a level is taken by no tighter level: the levels' tables are disjoint on
each token kind. -/
theorem Level.next_follows {L : Level} {lexeme : String}
    (h : (L.planner.validSymbols lexeme).isSome) : L.next.Follows ⟨L.kind, .string lexeme⟩ := by
  refine ⟨fun planner hp => PrecedencePlanner.takes_string.not.mpr ?_, by cases L <;> nofun⟩
  revert planner
  cases L <;>
    · dsimp only [Level.planner, separatorPlanner, ternaryPlanner, logicalOrPlanner,
        logicalAndPlanner, comparatorPlanner, bitwisePlanner, shiftPlanner, additivePlanner,
        multiplicativePlanner, exponentialPlanner] at h
      delta separatorSymbols ternarySymbols logicalOrSymbols logicalAndSymbols comparatorSymbols
        bitwiseSymbols bitwiseShiftSymbols additiveSymbols multiplicativeSymbols
        exponentialSymbolsS at h
      split at h <;> first | decide | cases h

/-! ## The cursor at a position -/

namespace TokenStream

variable {tokens : List ExpressionToken} {i : Nat}

theorem next_cast {t : ExpressionToken} (ht : tokens[i]? = some t) :
    (⟨tokens, i⟩ : TokenStream).next = .ok (t, ⟨tokens, ((i + 1 : Nat) : Int)⟩) := by
  simp [next, ht, show (0 : Int) ≤ i by omega]

theorem hasNext_cast : (⟨tokens, i⟩ : TokenStream).hasNext = decide (i < tokens.length) := by
  simp [hasNext]

@[simp] theorem rewind_cast_succ :
    (⟨tokens, ((i + 1 : Nat) : Int)⟩ : TokenStream).rewind = ⟨tokens, i⟩ := by
  simp [rewind]

end TokenStream

/-! ## One level -/

section Level

variable {recurse : Precedent → TokenStream → PlanResult} {tokens : List ExpressionToken}
  {L : Level} {i j : Nat} {stage : Stage}

/-- A level whose left operand stops at a token the level does not take returns the left
operand; at the end of the list it rewinds onto the last token. -/
theorem makePrecedentFromPlanner_pass
    (hleft : recurse L.next ⟨tokens, i⟩ = .ok (stage, ⟨tokens, j⟩))
    (hstop : ∀ t ∈ tokens[j]?, ¬ L.planner.Takes t) :
    makePrecedentFromPlanner recurse L.precedent L.planner ⟨tokens, i⟩ =
      .ok (stage, ⟨tokens, if j < tokens.length then (j : Int) else (j : Int) - 1⟩) := by
  simp only [makePrecedentFromPlanner, planPrecedenceLevel, planLeftOperand, L.planner_next,
    hleft, ok_bind, TokenStream.hasNext_cast]
  by_cases hjl : j < tokens.length
  · obtain ⟨t, ht⟩ : ∃ t, tokens[j]? = some t := ⟨_, List.getElem?_eq_getElem hjl⟩
    simp only [hjl, decide_True, if_true, TokenStream.next_cast ht, ok_bind,
      TokenStream.rewind_cast_succ, L.planner_validKinds, List.length_singleton,
      Nat.zero_lt_one, true_and, List.mem_singleton]
    split
    · rfl
    · rename_i hkind
      split
      · rename_i lexeme hv
        cases hs : L.planner.validSymbols lexeme with
        | none => rfl
        | some symbol =>
          exact absurd ⟨by simp [L.planner_validKinds, not_not.mp hkind], lexeme, hv,
            by simp [hs]⟩ (hstop t ht)
      · rfl
  · simp [hjl]

/-- A level whose left operand stops at one of its operators builds the operator's stage over
the left operand and the plan of the rest with the level itself. -/
theorem makePrecedentFromPlanner_take {lexeme : String} {symbol : OperatorSymbol}
    {r : Stage × TokenStream} (hleft : recurse L.next ⟨tokens, i⟩ = .ok (stage, ⟨tokens, j⟩))
    (hop : tokens[j]? = some ⟨L.kind, .string lexeme⟩)
    (hsymbol : L.planner.validSymbols lexeme = some symbol)
    (hright : recurse L.precedent ⟨tokens, ((j + 1 : Nat) : Int)⟩ = .ok r) :
    makePrecedentFromPlanner recurse L.precedent L.planner ⟨tokens, i⟩ =
      .ok (.node (binaryInfo symbol L.planner.typeErrorFormat) stage r.1, r.2) := by
  have hjl : j < tokens.length := (List.getElem?_eq_some_iff.mp hop).1
  simp only [makePrecedentFromPlanner, planPrecedenceLevel, planLeftOperand, L.planner_next,
    L.planner_nextRight, Option.getD_none, hleft, ok_bind, TokenStream.hasNext_cast, hjl,
    decide_True, if_true, TokenStream.next_cast hop, L.planner_validKinds, hsymbol, hright]
  simp

/-- `planPrefix` on a prefix operator: its stage over the plan of `planFunction` after it. -/
theorem planPrefix_take {lexeme : String} {symbol : OperatorSymbol} {r : Stage × TokenStream}
    (hop : tokens[i]? = some ⟨.PREFIX, .string lexeme⟩)
    (hsymbol : prefixSymbols lexeme = some symbol)
    (hright : recurse .planFunction ⟨tokens, ((i + 1 : Nat) : Int)⟩ = .ok r) :
    makePrecedentFromPlanner recurse .planPrefix prefixPlanner ⟨tokens, i⟩ =
      .ok (.node (binaryInfo symbol .prefixErrorFormat) .nil r.1, r.2) := by
  have hil : i < tokens.length := (List.getElem?_eq_some_iff.mp hop).1
  simp only [makePrecedentFromPlanner, planPrecedenceLevel, planLeftOperand, prefixPlanner,
    Option.getD_some, pure_eq_ok, ok_bind, TokenStream.hasNext_cast, hil, decide_True, if_true,
    TokenStream.next_cast hop, hsymbol, hright]
  simp

end Level

/-! ## Plans -/

/-- Where a precedent leaves the cursor after tokens that end at `k`: at `k`, except at the
end of the list, where the levels and `planTokens` rewind onto the last token. -/
def Precedent.exitAt (length k : Nat) (p : Precedent) : Nat :=
  if k < length then k else if 4 ≤ p.rank then length - 1 else length

/-- Planning `p` from position `i` returns `stage` with the cursor at `j`, whatever the fuel
above the measure of the call. -/
def Plans (tokens : List ExpressionToken) (p : Precedent) (i : Nat) (stage : Stage) (j : Nat) :
    Prop :=
  ∀ fuel : Nat, planMeasure tokens p i < fuel → plan fuel p ⟨tokens, i⟩ = .ok (stage, ⟨tokens, j⟩)

section Plans

variable {tokens : List ExpressionToken} {i k : Nat} {stage : Stage}

theorem Plans.of_step {p : Precedent} {j : Nat} (hi : i ≤ tokens.length)
    (h : ∀ n : Nat, planMeasure tokens p i ≤ n →
      planStep (plan n) p ⟨tokens, i⟩ = .ok (stage, ⟨tokens, j⟩)) :
    Plans tokens p i stage j
  | 0, hf => absurd hf (by simp only [planMeasure]; omega)
  | n + 1, hf => h n (by omega)

/-- A level passes on the plan of its next tighter level when no operator of its own
follows. -/
theorem Plans.level_step (L : Level) (hi : i < tokens.length) (hk : k ≤ tokens.length)
    (hlast : k = tokens.length → ∀ t ∈ tokens[k - 1]?, t.kind.opensOperand = false)
    (hbelow : Plans tokens L.next i stage (L.next.exitAt tokens.length k))
    (hstop : ∀ t ∈ tokens[k]?, L.precedent.StopsAt t) :
    Plans tokens L.precedent i stage (L.precedent.exitAt tokens.length k) := by
  have hrank : L.next.rank + 1 = L.precedent.rank := L.next_rank
  have hL : 4 ≤ L.precedent.rank := by cases L <;> decide
  refine Plans.of_step hi.le fun n hn => ?_
  rw [Level.planStep_precedent, makePrecedentFromPlanner_pass
    (hbelow n (by simp only [planMeasure] at hn ⊢; omega)) ?_]
  · congr
    simp only [Precedent.exitAt]
    split_ifs <;> omega
  · intro t ht
    have hmem := Level.mem_stopLevels (le_refl L.rank)
    simp only [Precedent.exitAt] at ht
    split_ifs at ht with hkl hnext
    · exact hstop t ht L.planner hmem
    · exact Precedent.StopsAt.of_not_opens (hlast (by omega) t (by rwa [show k - 1 =
        tokens.length - 1 by omega])) L.planner hmem
    · simp at ht

/-- `planAccessor` passes on the plan of `planValue` from a token that is no accessor. -/
theorem Plans.accessor_step {j : Nat} (hi : i < tokens.length)
    (ht : ∀ t ∈ tokens[i]?, t.kind ≠ .ACCESSOR) (hbelow : Plans tokens .planValue i stage j) :
    Plans tokens .planAccessor i stage j := by
  obtain ⟨t, hti⟩ : ∃ t, tokens[i]? = some t := ⟨_, List.getElem?_eq_getElem hi⟩
  refine Plans.of_step hi.le fun n hn => ?_
  simp only [planStep, planAccessor, TokenStream.hasNext_cast, hi, decide_True, if_true,
    TokenStream.next_cast hti, ok_bind, ne_eq, ht t hti, not_false_eq_true,
    TokenStream.rewind_cast_succ]
  exact hbelow n (by simp only [planMeasure, Precedent.rank] at hn ⊢; omega)

/-- `planFunction` passes on the plan of `planAccessor` from a token that is no function. -/
theorem Plans.function_step {j : Nat} (hi : i < tokens.length)
    (ht : ∀ t ∈ tokens[i]?, t.kind ≠ .FUNCTION) (hbelow : Plans tokens .planAccessor i stage j) :
    Plans tokens .planFunction i stage j := by
  obtain ⟨t, hti⟩ : ∃ t, tokens[i]? = some t := ⟨_, List.getElem?_eq_getElem hi⟩
  refine Plans.of_step hi.le fun n hn => ?_
  simp only [planStep, planFunction, TokenStream.next_cast hti, ok_bind, ne_eq, ht t hti,
    not_false_eq_true, if_true, TokenStream.rewind_cast_succ]
  exact hbelow n (by simp only [planMeasure, Precedent.rank] at hn ⊢; omega)

/-- `planTokens` inside the list is `planSeparator`. -/
theorem Plans.tokens_step {j : Nat} (hi : i < tokens.length)
    (hbelow : Plans tokens .planSeparator i stage j) : Plans tokens .planTokens i stage j := by
  refine Plans.of_step hi.le fun n hn => ?_
  simp only [planStep, planTokens, TokenStream.hasNext_cast, hi, decide_True, Bool.not_true,
    Bool.false_eq_true, if_false]
  exact hbelow n (by simp only [planMeasure, Precedent.rank] at hn ⊢; omega)

/-- The precedent of each rank. -/
def Precedent.ofRank : Nat → Precedent
  | 0 => .planPrefix | 1 => .planValue | 2 => .planAccessor | 3 => .planFunction
  | 4 => .planExponential | 5 => .planMultiplicative | 6 => .planAdditive | 7 => .planShift
  | 8 => .planBitwise | 9 => .planComparator | 10 => .planLogicalAnd | 11 => .planLogicalOr
  | 12 => .planTernary | 13 => .planSeparator | _ => .planTokens

theorem Precedent.ofRank_rank (p : Precedent) : Precedent.ofRank p.rank = p := by
  cases p <;> rfl

/-- Every precedent above the one that planned a derivation passes its plan on: the token
after the derivation is taken by no level, neither is its last token, and its first token is
no accessor and no function when the plan was made below `planAccessor` or
`planFunction`. -/
theorem Plans.climb {q : Precedent} (hq : 1 ≤ q.rank) (hi : i < tokens.length)
    (hk : k ≤ tokens.length)
    (hfirst : ∀ t ∈ tokens[i]?, (q.rank < 2 → t.kind ≠ .ACCESSOR) ∧
      (q.rank < 3 → t.kind ≠ .FUNCTION))
    (hlast : k = tokens.length → ∀ t ∈ tokens[k - 1]?, t.kind.opensOperand = false)
    (hbase : Plans tokens q i stage (q.exitAt tokens.length k)) :
    ∀ (n : Nat) (p : Precedent), p.rank = q.rank + n → (∀ t ∈ tokens[k]?, p.StopsAt t) →
      Plans tokens p i stage (p.exitAt tokens.length k)
  | 0, p, hp, _ => by
    rw [← Precedent.ofRank_rank p, hp, Nat.add_zero, Precedent.ofRank_rank]
    exact hbase
  | n + 1, p, hp, hstop => by
    have below : ∀ p' : Precedent, p'.rank + 1 = p.rank →
        Plans tokens p' i stage (p'.exitAt tokens.length k) := fun p' hp' =>
      Plans.climb hq hi hk hfirst hlast hbase n p' (by omega)
        fun t ht => (hstop t ht).mono (by omega)
    have level : ∀ L : Level, L.precedent = p →
        Plans tokens p i stage (p.exitAt tokens.length k) := by
      rintro L rfl
      exact Plans.level_step L hi hk hlast (below L.next L.next_rank) hstop
    cases p with
    | planPrefix => have hp : 0 = q.rank + (n + 1) := hp; omega
    | planValue => have hp : 1 = q.rank + (n + 1) := hp; omega
    | planAccessor =>
      have hp : 2 = q.rank + (n + 1) := hp
      exact Plans.accessor_step hi (fun t ht => (hfirst t ht).1 (by omega)) (below .planValue rfl)
    | planFunction =>
      have hp : 3 = q.rank + (n + 1) := hp
      exact Plans.function_step hi (fun t ht => (hfirst t ht).2 (by omega))
        (below .planAccessor rfl)
    | planTokens => exact Plans.tokens_step hi (below .planSeparator rfl)
    | planSeparator => exact level .separator rfl
    | planTernary => exact level .ternary rfl
    | planLogicalOr => exact level .logicalOr rfl
    | planLogicalAnd => exact level .logicalAnd rfl
    | planComparator => exact level .comparator rfl
    | planBitwise => exact level .bitwise rfl
    | planShift => exact level .shift rfl
    | planAdditive => exact level .additive rfl
    | planMultiplicative => exact level .multiplicative rfl
    | planExponential => exact level .exponential rfl

end Plans

theorem Precedent.exitAt_of_lt {p : Precedent} {length k : Nat} (h : k < length) :
    p.exitAt length k = k := if_pos h

theorem Precedent.exitAt_of_rank_lt {p : Precedent} {length k : Nat} (hp : p.rank < 4)
    (hk : k ≤ length) : p.exitAt length k = k := by
  simp only [exitAt]
  split_ifs <;> omega

/-- `planValue` plans a literal token as its leaf. -/
theorem planValueToken_literal {recurse : Precedent → TokenStream → PlanResult}
    {t : ExpressionToken} {s : TokenStream} (h : t.isLiteral) :
    planValueToken recurse t s = .ok (.node (literalStage t) .nil .nil, s) := by
  obtain ⟨kind, value⟩ := t
  cases kind <;> try cases h
  all_goals try rfl
  cases value <;> first | rfl | cases h

section Leaves

variable {tokens : List ExpressionToken} {i j : Nat} {stage : Stage}

/-- `planValue` on a leaf token: the leaf, with the cursor after it. -/
theorem Plans.value_leaf {t : ExpressionToken} {info : StageInfo} (ht : tokens[i]? = some t)
    (hleaf : ∀ recurse s, planValueToken recurse t s = .ok (.node info .nil .nil, s)) :
    Plans tokens .planValue i (.node info .nil .nil) (i + 1) := by
  have hi : i < tokens.length := (List.getElem?_eq_some_iff.mp ht).1
  refine Plans.of_step hi.le fun n _ => ?_
  simp only [planStep, planValue, TokenStream.hasNext_cast, hi, decide_True, if_true,
    TokenStream.next_cast ht, ok_bind, hleaf]

/-- `planAccessor` on a field not followed by `(`: its stage, with the cursor after it. -/
theorem Plans.field {path : List String} (ht : tokens[i]? = some ⟨.ACCESSOR, .strings path⟩)
    (hnext : ∀ t ∈ tokens[i + 1]?, t.kind ≠ .CLAUSE) :
    Plans tokens .planAccessor i (.node (accessInfo path) .nil .nil) (i + 1) := by
  have hi : i < tokens.length := (List.getElem?_eq_some_iff.mp ht).1
  refine Plans.of_step hi.le fun n _ => ?_
  simp only [planStep, planAccessor, TokenStream.hasNext_cast, hi, decide_True, if_true,
    TokenStream.next_cast ht, ok_bind, ne_eq, not_true_eq_false, if_false, planAccessorArguments]
  by_cases hj : i + 1 < tokens.length
  · obtain ⟨t, ht'⟩ : ∃ t, tokens[i + 1]? = some t := ⟨_, List.getElem?_eq_getElem hj⟩
    simp only [TokenStream.hasNext_cast, hj, decide_True, if_true, TokenStream.next_cast ht',
      ok_bind, hnext t ht', if_false, TokenStream.rewind_cast_succ, pure_eq_ok]
  · simp only [TokenStream.hasNext_cast, hj, decide_False, Bool.false_eq_true, if_false]
    rfl

/-- `planFunction` on a function token: its stage over the plan of `planAccessor` after it. -/
theorem Plans.function_take {f : ExpressionFunction}
    (ht : tokens[i]? = some ⟨.FUNCTION, .function f⟩)
    (hargs : Plans tokens .planAccessor (i + 1) stage j) :
    Plans tokens .planFunction i (.node (functionalInfo f) .nil stage) j := by
  have hi : i < tokens.length := (List.getElem?_eq_some_iff.mp ht).1
  refine Plans.of_step hi.le fun n hn => ?_
  simp only [planStep, planFunction, TokenStream.next_cast ht, ok_bind, ne_eq, not_true_eq_false,
    if_false, hargs n (by simp only [planMeasure, Precedent.rank] at hn ⊢; omega)]
  rfl

/-- `planValue` on a prefix operator hands it to `planPrefix`. -/
theorem Plans.value_prefix {lexeme : String} {symbol : OperatorSymbol}
    (ht : tokens[i]? = some ⟨.PREFIX, .string lexeme⟩) (hsymbol : prefixSymbols lexeme = some symbol)
    (hoperand : Plans tokens .planFunction (i + 1) stage j) :
    Plans tokens .planValue i (.node (binaryInfo symbol .prefixErrorFormat) .nil stage) j := by
  have hi : i < tokens.length := (List.getElem?_eq_some_iff.mp ht).1
  refine Plans.of_step hi.le fun n hn => ?_
  simp only [planStep, planValue, TokenStream.hasNext_cast, hi, decide_True, if_true,
    TokenStream.next_cast ht, ok_bind, planValueToken, TokenStream.rewind_cast_succ]
  obtain ⟨m, rfl⟩ : ∃ m, n = m + 1 := ⟨n - 1, by simp only [planMeasure, Precedent.rank] at hn; omega⟩
  exact planPrefix_take ht hsymbol
    (hoperand m (by simp only [planMeasure, Precedent.rank] at hn ⊢; omega))

/-- `planValue` on `(`: a `NOOP` stage over the plan of `planTokens` after it, with the token
where that plan stops consumed. -/
theorem Plans.clause {t : ExpressionToken} (ht : tokens[i]? = some t) (hclause : t.kind = .CLAUSE)
    (hcontents : Plans tokens .planTokens (i + 1) stage j) (hj : j < tokens.length) :
    Plans tokens .planValue i (.node noopInfo .nil stage) (j + 1) := by
  have hi : i < tokens.length := (List.getElem?_eq_some_iff.mp ht).1
  refine Plans.of_step hi.le fun n hn => ?_
  simp only [planStep, planValue, TokenStream.hasNext_cast, hi, decide_True, if_true,
    TokenStream.next_cast ht, ok_bind, planValueToken, hclause,
    hcontents n (by simp only [planMeasure, Precedent.rank] at hn ⊢; omega),
    TokenStream.next_cast (List.getElem?_eq_getElem hj)]
  rfl

end Leaves

/-! ## Positions in the list -/

section Lift

variable {tokens ds post : List ExpressionToken} {i : Nat}

theorem getElem?_of_drop (h : tokens.drop i = ds ++ post) (m : Nat) :
    tokens[i + m]? = (ds ++ post)[m]? := by
  rw [← h, List.getElem?_drop]

theorem drop_of_drop (h : tokens.drop i = ds ++ post) : tokens.drop (i + ds.length) = post := by
  rw [← List.drop_drop, h, List.drop_left]

theorem getElem?_eq_head? {l : List ExpressionToken} (h : tokens.drop i = l) :
    tokens[i]? = l.head? := by
  rw [List.head?_eq_getElem?, ← h, List.getElem?_drop, Nat.add_zero]

theorem drop_cons {t : ExpressionToken} {rest : List ExpressionToken}
    (h : tokens.drop i = t :: rest) : tokens[i]? = some t ∧ tokens.drop (i + 1) = rest :=
  ⟨getElem?_eq_head? h, drop_of_drop (show tokens.drop i = [t] ++ rest from h)⟩

theorem length_of_drop (h : tokens.drop i = ds ++ post) (hds : ds ≠ []) :
    i + ds.length + post.length = tokens.length := by
  have hlen := congrArg List.length h
  have hpos : 0 < ds.length := List.length_pos.mpr hds
  simp only [List.length_drop, List.length_append] at hlen
  omega

/-- A plan made from the start of tokens `ds` passes on to every precedent above, when the
token after `ds` stops the precedent and the last token of `ds` opens no operand. -/
theorem Plans.lift {q p : Precedent} {stage : Stage} (hdrop : tokens.drop i = ds ++ post)
    (hds : ds ≠ []) (hq : 1 ≤ q.rank) (hqp : q.rank ≤ p.rank)
    (hfirst : ∀ t ∈ ds.head?, (q.rank < 2 → t.kind ≠ .ACCESSOR) ∧
      (q.rank < 3 → t.kind ≠ .FUNCTION))
    (hlast : ∀ t ∈ ds.getLast?, t.kind.opensOperand = false)
    (hfollow : ∀ t ∈ post.head?, p.StopsAt t)
    (hbase : Plans tokens q i stage (q.exitAt tokens.length (i + ds.length))) :
    Plans tokens p i stage (p.exitAt tokens.length (i + ds.length)) := by
  have hlen := length_of_drop hdrop hds
  have hpos : 0 < ds.length := List.length_pos.mpr hds
  have hhead : tokens[i]? = ds.head? := by
    rw [List.head?_eq_getElem?, ← List.getElem?_append_left hpos, ← getElem?_of_drop hdrop,
      Nat.add_zero]
  refine Plans.climb hq (by omega) (by omega) (hhead ▸ hfirst) ?_ hbase (p.rank - q.rank) p
    (by omega) ?_
  · intro _
    rwa [show i + ds.length - 1 = i + (ds.length - 1) by omega, getElem?_of_drop hdrop,
      List.getElem?_append_left (by omega), ← List.getLast?_eq_getElem?]
  · rwa [getElem?_of_drop hdrop, List.getElem?_append_right le_rfl, Nat.sub_self,
      ← List.head?_eq_getElem?]

/-- Every precedent from `planValue` up plans nothing before a `)`. -/
theorem Plans.close {t : ExpressionToken} (ht : tokens[i]? = some t)
    (hclose : t.kind = .CLAUSE_CLOSE) {p : Precedent} (hp : 1 ≤ p.rank) : Plans tokens p i .nil i := by
  have hi : i < tokens.length := (List.getElem?_eq_some_iff.mp ht).1
  have hbase : Plans tokens .planValue i .nil i := by
    refine Plans.of_step hi.le fun n _ => ?_
    simp only [planStep, planValue, TokenStream.hasNext_cast, hi, decide_True, if_true,
      TokenStream.next_cast ht, ok_bind, planValueToken, hclose, TokenStream.rewind_cast_succ]
    rfl
  have hstops : ∀ t' ∈ tokens[i]?, p.StopsAt t' := by
    intro t' ht'
    cases ht.symm.trans ht'
    exact .of_not_opens (by rw [hclose]; rfl)
  have h := Plans.climb (q := .planValue) (le_refl _) hi hi.le
    (fun t' ht' => by cases ht.symm.trans ht'; simp [hclose]) (by omega)
    (by rwa [Precedent.exitAt_of_lt hi]) (p.rank - 1) p (by simp only [Precedent.rank] at hp ⊢; omega) hstops
  rwa [Precedent.exitAt_of_lt hi] at h

end Lift

/-! ## Derivations -/

theorem ExpressionToken.isLiteral_kind {t : ExpressionToken} (h : t.isLiteral) :
    t.kind.opensOperand = false ∧ t.kind ≠ .ACCESSOR ∧ t.kind ≠ .FUNCTION := by
  obtain ⟨kind, value⟩ := t
  cases kind <;> (try cases h) <;> exact ⟨rfl, nofun, nofun⟩

theorem Level.four_le_rank (L : Level) : 4 ≤ L.rank := by cases L <;> decide

theorem Derivation.minRank_le_of_isCall {d : Derivation} (h : d.isCall) : d.minRank ≤ 3 := by
  cases d <;> simp_all [isCall, minRank]

theorem Derivation.minRank_le (d : Derivation) : d.minRank ≤ 13 := by
  cases d with
  | chain L => show L.rank ≤ 13; cases L <;> decide
  | _ => simp [minRank]

theorem Chain.tokens_ne_nil (L : Level) (c : Chain) : c.tokens L ≠ [] := by
  cases c <;> simp [Chain.tokens]

theorem Args.tokens_ne_nil (a : Args) : a.tokens ≠ [] := by
  cases a <;> simp [Args.tokens]

theorem Derivation.tokens_ne_nil (d : Derivation) : d.tokens ≠ [] := by
  cases d <;> simp [Derivation.tokens, Chain.tokens_ne_nil, Args.tokens_ne_nil]

theorem Args.last_closes (a : Args) : ∀ t ∈ a.tokens.getLast?, t.kind.opensOperand = false := by
  have hlast : a.tokens.getLast? = some closeToken := by
    cases a
    · rfl
    · rw [Args.tokens, List.getLast?_append_of_ne_nil _ (List.cons_ne_nil _ _)]; rfl
  rw [hlast]
  rintro _ ⟨⟩
  rfl

mutual

/-- The last token of a supported derivation opens no operand. -/
theorem Derivation.last_closes : ∀ {d : Derivation}, d.Supported →
    ∀ t ∈ d.tokens.getLast?, t.kind.opensOperand = false
  | .chain L _ rest, hd => by
    simp only [Derivation.Supported, Bool.and_eq_true] at hd
    rw [Derivation.tokens, List.getLast?_append_of_ne_nil _ (rest.tokens_ne_nil L)]
    exact Chain.last_closes hd.2
  | .unary _ operand, hd => by
    simp only [Derivation.Supported, Bool.and_eq_true] at hd
    rw [Derivation.tokens, ← List.singleton_append,
      List.getLast?_append_of_ne_nil _ operand.tokens_ne_nil]
    exact Derivation.last_closes hd.2
  | .call _ args, _ => by
    rw [Derivation.tokens, ← List.singleton_append,
      List.getLast?_append_of_ne_nil _ args.tokens_ne_nil]
    exact args.last_closes
  | .field _, _ => by simp [Derivation.tokens, TokenKind.opensOperand]
  | .method .., hd => by simp [Derivation.Supported] at hd
  | .group args, _ => args.last_closes
  | .literal _, hd => by simpa [Derivation.tokens] using (ExpressionToken.isLiteral_kind hd).1
  | .parameter _, _ => by simp [Derivation.tokens, TokenKind.opensOperand]

theorem Chain.last_closes {L : Level} : ∀ {c : Chain}, c.Supported L →
    ∀ t ∈ (c.tokens L).getLast?, t.kind.opensOperand = false
  | .last _ operand, hc => by
    simp only [Chain.Supported, Bool.and_eq_true] at hc
    rw [Chain.tokens, ← List.singleton_append,
      List.getLast?_append_of_ne_nil _ operand.tokens_ne_nil]
    exact Derivation.last_closes hc.2
  | .cons _ _ rest, hc => by
    simp only [Chain.Supported, Bool.and_eq_true] at hc
    rw [Chain.tokens, List.getLast?_append_of_ne_nil _ (rest.tokens_ne_nil L)]
    exact Chain.last_closes hc.2

end

/-- The operator that starts a chain is taken by no level below the chain's. -/
theorem Chain.follows_head {L : Level} {c : Chain} (hc : c.Supported L)
    (post : List ExpressionToken) : ∀ t ∈ (c.tokens L ++ post).head?, L.next.Follows t := by
  cases c <;> simp only [Chain.Supported, Bool.and_eq_true] at hc <;>
    simpa [Chain.tokens] using Level.next_follows (by tauto)

theorem Precedent.Follows.up {p q : Precedent} {t : ExpressionToken} (h : q.Follows t)
    (hpq : p.rank ≤ q.rank) : p.Follows t :=
  ⟨h.1.mono hpq, h.2⟩

mutual

/-- Every precedent from a supported derivation's own rank up plans it as its planned tree,
when the token after it follows the precedent. -/
theorem Derivation.plans : ∀ {d : Derivation}, d.Supported →
    ∀ {tokens post : List ExpressionToken} {i : Nat} {p : Precedent}, d.minRank ≤ p.rank →
      tokens.drop i = d.tokens ++ post → (∀ t ∈ post.head?, p.Follows t) →
      Plans tokens p i d.planned (p.exitAt tokens.length (i + d.tokens.length))
  | .chain L first rest, hd, tokens, post, i, p, hp, hdrop, hfollow => by
    have hlast := Derivation.last_closes hd
    simp only [Derivation.Supported, Bool.and_eq_true, decide_eq_true_eq] at hd
    obtain ⟨⟨hrank, hfirst⟩, hrest⟩ := hd
    have hnext : L.next.rank + 1 = L.precedent.rank := L.next_rank
    have h4 : 4 ≤ L.precedent.rank := L.four_le_rank
    have hdrop' : tokens.drop i = first.tokens ++ (rest.tokens L ++ post) := by
      rw [hdrop, Derivation.tokens, List.append_assoc]
    have hlen := length_of_drop hdrop' first.tokens_ne_nil
    have hpos := List.length_pos.mpr (rest.tokens_ne_nil L)
    simp only [List.length_append] at hlen
    have hleft := Derivation.plans hfirst (p := L.next) (by simp only [Level.rank] at hrank; omega)
      hdrop' (rest.follows_head hrest post)
    rw [Precedent.exitAt_of_lt (by omega)] at hleft
    have hchain := Chain.plans hrest (drop_of_drop hdrop') hleft
      fun t ht => (hfollow t ht).up hp
    refine Plans.lift (q := L.precedent) hdrop (Derivation.tokens_ne_nil _) (by omega) hp
      (fun _ _ => ⟨fun h => absurd h (by omega), fun h => absurd h (by omega)⟩) hlast
      (fun t ht => (hfollow t ht).1) ?_
    rwa [Derivation.tokens, List.length_append, ← Nat.add_assoc]
  | .unary lexeme operand, hd, tokens, post, i, p, hp, hdrop, hfollow => by
    have hlast := Derivation.last_closes hd
    simp only [Derivation.Supported, Bool.and_eq_true, Option.isSome_iff_exists] at hd
    obtain ⟨⟨⟨symbol, hsymbol⟩, hcall⟩, hoperand⟩ := hd
    simp only [Derivation.tokens] at hdrop hlast ⊢
    obtain ⟨hop, hdrop'⟩ := drop_cons hdrop
    have hlen := length_of_drop hdrop (List.cons_ne_nil _ _)
    simp only [List.length_cons] at hlen
    have hx := Derivation.plans hoperand (p := .planFunction)
      (Derivation.minRank_le_of_isCall hcall) hdrop'
      fun t ht => ⟨.of_rank_lt (by decide), (hfollow t ht).2⟩
    rw [Precedent.exitAt_of_rank_lt (by decide) (by omega)] at hx
    have hinfo : prefixInfo lexeme = binaryInfo symbol .prefixErrorFormat := by
      simp [prefixInfo, hsymbol]
    refine Plans.lift (q := .planValue) hdrop (List.cons_ne_nil _ _) le_rfl hp (by simp) hlast
      (fun t ht => (hfollow t ht).1) ?_
    rw [Precedent.exitAt_of_rank_lt (by decide) (by simp only [List.length_cons]; omega),
      List.length_cons, ← Nat.add_assoc, Nat.add_right_comm]
    show Plans tokens .planValue i (.node (prefixInfo lexeme) .nil operand.planned) _
    rw [hinfo]
    exact Plans.value_prefix hop hsymbol hx
  | .call f args, hd, tokens, post, i, p, hp, hdrop, hfollow => by
    have hlast := Derivation.last_closes hd
    simp only [Derivation.tokens] at hdrop hlast ⊢
    obtain ⟨hop, hdrop'⟩ := drop_cons hdrop
    have hlen := length_of_drop hdrop (List.cons_ne_nil _ _)
    simp only [List.length_cons] at hlen
    have hargs := Args.plans (p := .planAccessor) hd (by decide) hdrop'
      fun t ht => ⟨.of_rank_lt (by decide), (hfollow t ht).2⟩
    rw [Precedent.exitAt_of_rank_lt (by decide) (by omega)] at hargs
    refine Plans.lift (q := .planFunction) hdrop (List.cons_ne_nil _ _) (by decide) hp
      (by simp [Precedent.rank]) hlast (fun t ht => (hfollow t ht).1) ?_
    rw [Precedent.exitAt_of_rank_lt (by decide) (by simp only [List.length_cons]; omega),
      List.length_cons, ← Nat.add_assoc, Nat.add_right_comm]
    exact Plans.function_take hop hargs
  | .field path, hd, tokens, post, i, p, hp, hdrop, hfollow => by
    have hlast := Derivation.last_closes hd
    simp only [Derivation.tokens] at hdrop hlast ⊢
    obtain ⟨hop, hdrop'⟩ := drop_cons hdrop
    have hlen := length_of_drop hdrop (List.cons_ne_nil _ _)
    refine Plans.lift (q := .planAccessor) hdrop (List.cons_ne_nil _ _) (by decide) hp
      (by simp [Precedent.rank]) hlast (fun t ht => (hfollow t ht).1) ?_
    rw [Precedent.exitAt_of_rank_lt (by decide) (by omega)]
    exact Plans.field hop fun t ht => (hfollow t (by rwa [getElem?_eq_head? hdrop'] at ht)).2
  | .method .., hd, _, _, _, _, _, _, _ => by simp [Derivation.Supported] at hd
  | .group args, hd, _, _, _, _, hp, hdrop, hfollow => Args.plans hd hp hdrop hfollow
  | .literal token, hd, tokens, post, i, p, hp, hdrop, hfollow => by
    have hlast := Derivation.last_closes hd
    have hkind := ExpressionToken.isLiteral_kind hd
    simp only [Derivation.tokens] at hdrop hlast ⊢
    obtain ⟨hop, -⟩ := drop_cons hdrop
    have hlen := length_of_drop hdrop (List.cons_ne_nil _ _)
    refine Plans.lift (q := .planValue) hdrop (List.cons_ne_nil _ _) le_rfl hp
      (fun t ht => by cases ht; exact ⟨fun _ => hkind.2.1, fun _ => hkind.2.2⟩) hlast (fun t ht => (hfollow t ht).1) ?_
    rw [Precedent.exitAt_of_rank_lt (by decide) (by omega)]
    exact Plans.value_leaf hop fun _ _ => planValueToken_literal hd
  | .parameter name, hd, tokens, post, i, p, hp, hdrop, hfollow => by
    have hlast := Derivation.last_closes hd
    simp only [Derivation.tokens] at hdrop hlast ⊢
    obtain ⟨hop, -⟩ := drop_cons hdrop
    have hlen := length_of_drop hdrop (List.cons_ne_nil _ _)
    refine Plans.lift (q := .planValue) hdrop (List.cons_ne_nil _ _) le_rfl hp (by simp) hlast
      (fun t ht => (hfollow t ht).1) ?_
    rw [Precedent.exitAt_of_rank_lt (by decide) (by omega)]
    exact Plans.value_leaf hop fun _ _ => rfl

theorem Chain.plans {L : Level} : ∀ {c : Chain}, c.Supported L →
    ∀ {tokens post : List ExpressionToken} {i m : Nat} {first : Stage},
      tokens.drop (i + m) = c.tokens L ++ post → Plans tokens L.next i first (i + m) →
      (∀ t ∈ post.head?, L.precedent.Follows t) →
      Plans tokens L.precedent i (rightNested (c.run rightNested L first) (c.lastTree rightNested))
        (L.precedent.exitAt tokens.length (i + m + (c.tokens L).length))
  | .last lexeme x, hc, tokens, post, i, m, first, hdrop, hfirst, hfollow => by
    simp only [Chain.Supported, Bool.and_eq_true, decide_eq_true_eq, Option.isSome_iff_exists]
      at hc
    obtain ⟨⟨⟨symbol, hsymbol⟩, hrank⟩, hx⟩ := hc
    simp only [Chain.tokens] at hdrop ⊢
    obtain ⟨hop, hdrop'⟩ := drop_cons hdrop
    have hlen := length_of_drop hdrop (List.cons_ne_nil _ _)
    simp only [List.length_cons] at hlen
    have hnext : L.next.rank + 1 = L.precedent.rank := L.next_rank
    have hright := Derivation.plans hx (p := L.precedent) hrank.le hdrop' hfollow
    have hinfo : L.operatorInfo lexeme = binaryInfo symbol L.planner.typeErrorFormat := by
      simp [Level.operatorInfo, hsymbol]
    refine Plans.of_step (by omega) fun n hn => ?_
    simp only [planMeasure] at hn
    rw [Level.planStep_precedent, makePrecedentFromPlanner_take
      (hfirst n (by simp only [planMeasure]; omega)) hop hsymbol
      (hright n (by simp only [planMeasure]; push_cast; omega))]
    simp only [Chain.run, Chain.lastTree, rightNested, hinfo, List.length_cons,
      show i + m + (x.tokens.length + 1) = i + m + 1 + x.tokens.length by omega]
    rfl
  | .cons lexeme x rest, hc, tokens, post, i, m, first, hdrop, hfirst, hfollow => by
    simp only [Chain.Supported, Bool.and_eq_true, decide_eq_true_eq, Option.isSome_iff_exists]
      at hc
    obtain ⟨⟨⟨⟨symbol, hsymbol⟩, hrank⟩, hx⟩, hrest⟩ := hc
    have hdrop1 : tokens.drop (i + m) =
        ⟨L.kind, .string lexeme⟩ :: (x.tokens ++ (rest.tokens L ++ post)) := by
      rw [hdrop, Chain.tokens]; simp
    obtain ⟨hop, hdrop'⟩ := drop_cons hdrop1
    have hlen := length_of_drop hdrop' x.tokens_ne_nil
    have hpos := List.length_pos.mpr (rest.tokens_ne_nil L)
    simp only [List.length_append] at hlen
    have hnext : L.next.rank + 1 = L.precedent.rank := L.next_rank
    have hleft := Derivation.plans hx (p := L.next) (by simp only [Level.rank] at hrank; omega)
      hdrop' (rest.follows_head hrest post)
    rw [Precedent.exitAt_of_lt (by omega)] at hleft
    have hright := Chain.plans hrest (drop_of_drop hdrop') hleft hfollow
    have hinfo : L.operatorInfo lexeme = binaryInfo symbol L.planner.typeErrorFormat := by
      simp [Level.operatorInfo, hsymbol]
    refine Plans.of_step (by omega) fun n hn => ?_
    simp only [planMeasure] at hn
    rw [Level.planStep_precedent, makePrecedentFromPlanner_take
      (hfirst n (by simp only [planMeasure]; omega)) hop hsymbol
      (hright n (by simp only [planMeasure]; push_cast; omega))]
    simp only [Chain.run, Chain.lastTree, rightNested, hinfo, Chain.tokens, List.length_append,
      List.length_cons, show i + m + (x.tokens.length + 1 + (rest.tokens L).length) =
        i + m + 1 + x.tokens.length + (rest.tokens L).length by omega]
    rfl

theorem Args.plans : ∀ {a : Args}, a.Supported →
    ∀ {tokens post : List ExpressionToken} {i : Nat} {p : Precedent}, 1 ≤ p.rank →
      tokens.drop i = a.tokens ++ post → (∀ t ∈ post.head?, p.Follows t) →
      Plans tokens p i (a.tree rightNested) (p.exitAt tokens.length (i + a.tokens.length))
  | .empty, _, tokens, post, i, p, hp, hdrop, hfollow => by
    obtain ⟨hopen, hdrop'⟩ := drop_cons hdrop
    obtain ⟨hclose, -⟩ := drop_cons hdrop'
    have hlen : i + 2 + post.length = tokens.length := length_of_drop hdrop (Args.tokens_ne_nil _)
    refine Plans.lift (q := .planValue) hdrop (Args.tokens_ne_nil _) le_rfl hp
      (by simp [Args.tokens, openToken]) (Args.last_closes _) (fun t ht => (hfollow t ht).1) ?_
    show Plans tokens .planValue i _ (Precedent.planValue.exitAt tokens.length (i + 2))
    rw [Precedent.exitAt_of_rank_lt (by decide) (by omega)]
    exact Plans.clause hopen rfl (Plans.close hclose rfl (by decide)) (by omega)
  | .contents d, ha, tokens, post, i, p, hp, hdrop, hfollow => by
    simp only [Args.Supported, Bool.and_eq_true] at ha
    have hdrop1 : tokens.drop i = openToken :: (d.tokens ++ (closeToken :: post)) := by
      rw [hdrop, Args.tokens]; simp
    obtain ⟨hopen, hdrop'⟩ := drop_cons hdrop1
    have hlen := length_of_drop hdrop' d.tokens_ne_nil
    simp only [List.length_cons] at hlen
    have hx := Derivation.plans ha.2 (p := .planTokens) (Nat.le_succ_of_le d.minRank_le) hdrop'
      (by rintro _ ⟨⟩; exact ⟨.of_not_opens rfl, by decide⟩)
    rw [Precedent.exitAt_of_lt (by omega)] at hx
    refine Plans.lift (q := .planValue) hdrop (Args.tokens_ne_nil _) le_rfl hp
      (by simp [Args.tokens, openToken]) (Args.last_closes _) (fun t ht => (hfollow t ht).1) ?_
    have hk : i + (Args.tokens (.contents d)).length = i + 1 + d.tokens.length + 1 := by
      simp only [Args.tokens, List.length_append, List.length_cons, List.length_nil]
      omega
    rw [hk, Precedent.exitAt_of_rank_lt (by decide) (by omega)]
    exact Plans.clause hopen rfl hx (by omega)

end

/-! ## The whole list -/

/-- On the tokens of a supported derivation, `planTokens` with the fuel `planStages` gives it
returns the derivation's planned tree, with the cursor rewound onto the last token. -/
theorem Derivation.plan_planTokens {d : Derivation} (hd : d.Supported) :
    plan (planFuel d.tokens) .planTokens (newTokenStream d.tokens) =
      .ok (d.planned, ⟨d.tokens, ((d.tokens.length - 1 : Nat) : Int)⟩) := by
  have h := @Derivation.plans d hd d.tokens [] 0 .planTokens (Nat.le_succ_of_le d.minRank_le)
    (by simp) (by simp)
  have hfuel := h (planFuel d.tokens) (by simp only [planMeasure, planFuel, Precedent.rank]; omega)
  rwa [Nat.zero_add, Precedent.exitAt, if_neg (lt_irrefl _), if_pos (by decide)] at hfuel

end Geval
