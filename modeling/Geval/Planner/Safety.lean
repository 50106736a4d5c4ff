import Geval.Core.Planner
import Geval.Syntax.Accepted

/-!
# The planner never panics

The precedents of `lexerState.go` call `tokenStream.next` without `hasNext` in two places
(`planFunction`, and after the contents of a clause in `planValue`), and
`planPrecedenceLevel` rewinds the cursor even when its loop never ran at the end of the
stream. The planner is safe all the same on the lists the grammar checker accepts, because
an operator, a prefix, an opening parenthesis or a function name is never the last token.

* `planStep_safe`: one unfolding of the precedents is safe when the precedents it calls
  are: each returns a plan with the cursor between its entry and its exit index
  (`PlanPost`), and a nil plan only at a closing parenthesis (or from `planPrefix` away from
  a prefix token).
* `plan_safe`: by induction on the fuel, with the measure `planMeasure` (the tokens left,
  then the rank of the precedent), which every call the planner makes decreases.
* `planTokens_safe`: `planFuel` is enough, and an accepted list gets a non-nil plan.
-/

namespace Geval

/-! ## The cursor -/

namespace TokenStream

theorem next_eq {tokens : List ExpressionToken} {i : Int} {t : ExpressionToken}
    (ht : tokens[i.toNat]? = some t) (h0 : 0 ≤ i) :
    (⟨tokens, i⟩ : TokenStream).next = .ok (t, ⟨tokens, i + 1⟩) := by
  simp [next, ht, h0]

theorem hasNext_eq {tokens : List ExpressionToken} {i : Int} :
    (⟨tokens, i⟩ : TokenStream).hasNext = decide (i < tokens.length) := rfl

@[simp] theorem rewind_mk (tokens : List ExpressionToken) (i : Int) :
    (⟨tokens, i⟩ : TokenStream).rewind = ⟨tokens, i - 1⟩ := rfl

end TokenStream

theorem exists_getElem?_toNat {tokens : List ExpressionToken} {i : Int} (h0 : 0 ≤ i)
    (h : i < tokens.length) : ∃ t, tokens[i.toNat]? = some t ∧ t ∈ tokens :=
  ⟨tokens[i.toNat], List.getElem?_eq_getElem (by omega), List.getElem_mem (by omega)⟩

/-! ## The measure and the postcondition -/

/-- The order in which the planner descends at one position: a precedent calls those of
lower rank without consuming a token. -/
def Precedent.rank : Precedent → Nat
  | .planPrefix => 0 | .planValue => 1 | .planAccessor => 2 | .planFunction => 3
  | .planExponential => 4 | .planMultiplicative => 5 | .planAdditive => 6 | .planShift => 7
  | .planBitwise => 8 | .planComparator => 9 | .planLogicalAnd => 10 | .planLogicalOr => 11
  | .planTernary => 12 | .planSeparator => 13 | .planTokens => 14

theorem Precedent.rank_lt (p : Precedent) : p.rank < 16 := by cases p <;> decide

/-- The last position a precedent may leave the cursor at. The levels and `planTokens`
stop before the end; `planPrefix`, `planFunction`, `planAccessor` and `planValue` may
consume the last token. -/
def Precedent.exitIndex (length : Int) : Precedent → Int
  | .planPrefix | .planFunction | .planAccessor | .planValue => length
  | _ => length - 1

/-- Where a precedent may return a nil plan: at a closing parenthesis, and `planPrefix`
away from a prefix token. -/
def Precedent.MayBeNil (p : Precedent) (token : ExpressionToken) : Prop :=
  token.kind = .CLAUSE_CLOSE ∨ (p = .planPrefix ∧ token.kind ≠ .PREFIX)

theorem Precedent.MayBeNil.lift {p q : Precedent} {t : ExpressionToken} (h : q.MayBeNil t)
    (hq : q ≠ .planPrefix) : p.MayBeNil t :=
  .inl (h.resolve_right fun h' => hq h'.1)

/-- The operator tokens of a level: a token of its kind whose lexeme is in its table. -/
def PrecedencePlanner.Takes (planner : PrecedencePlanner) (token : ExpressionToken) : Prop :=
  token.kind ∈ planner.validKinds ∧
    ∃ lexeme, token.value = .string lexeme ∧ (planner.validSymbols lexeme).isSome

/-- The binary levels, from the loosest to the tightest. -/
def levelPlanners : List PrecedencePlanner :=
  [separatorPlanner, ternaryPlanner, logicalOrPlanner, logicalAndPlanner, comparatorPlanner,
    bitwisePlanner, shiftPlanner, additivePlanner, multiplicativePlanner, exponentialPlanner]

/-- The binary levels a precedent descends through: all of them from `planTokens` and
`planSeparator`, one fewer at each level below, none below `planExponential`. -/
def Precedent.stopLevels (p : Precedent) : List PrecedencePlanner :=
  levelPlanners.drop (13 - p.rank)

/-- A precedent stops at a token that none of the levels it descends through takes. -/
def Precedent.StopsAt (p : Precedent) (token : ExpressionToken) : Prop :=
  ∀ planner ∈ p.stopLevels, ¬ planner.Takes token

namespace Precedent.StopsAt

variable {p q : Precedent} {t : ExpressionToken}

theorem mono (h : q.StopsAt t) (hpq : p.rank ≤ q.rank) : p.StopsAt t := fun planner hp => by
  refine h planner ?_
  rw [stopLevels, show 13 - p.rank = (13 - q.rank) + (13 - p.rank - (13 - q.rank)) by omega,
    ← List.drop_drop] at hp
  exact List.mem_of_mem_drop hp

theorem of_rank_lt (h : p.rank < 4) : p.StopsAt t := fun planner hp => by
  have hlength : levelPlanners.length = 10 := rfl
  rw [stopLevels, List.drop_eq_nil_of_le (by omega)] at hp
  cases hp

theorem level {planner : PrecedencePlanner} (hp : p.stopLevels = planner :: q.stopLevels)
    (hq : q.StopsAt t) (ht : ¬ planner.Takes t) : p.StopsAt t := fun planner' h => by
  rw [hp] at h
  rcases List.mem_cons.mp h with rfl | h
  · exact ht
  · exact hq _ h

/-- Every level takes operators only, so the planner stops at any other token. -/
theorem of_not_opens (h : t.kind.opensOperand = false) : p.StopsAt t := fun planner hp ht => by
  have hkinds : ∀ kinds ∈ levelPlanners.map (·.validKinds), ∀ K ∈ kinds, K.opensOperand := by
    decide
  have := hkinds _ (List.mem_map_of_mem _ (List.mem_of_mem_drop hp)) _ ht.1
  rw [h] at this
  cases this

end Precedent.StopsAt

section Safety

variable (tokens : List ExpressionToken)

/-- The fuel a precedent entered at position `i` may need. -/
def planMeasure (p : Precedent) (i : Int) : Int := p.rank + 16 * (tokens.length - i)

/-- What a precedent entered at position `i` guarantees of the plan `r.1` and the cursor
`r.2` it returns: the cursor stops at a token the precedent's levels do not take. -/
def PlanPost (p : Precedent) (i : Int) (r : Stage × TokenStream) : Prop :=
  ∃ j, r.2 = ⟨tokens, j⟩ ∧ i ≤ j ∧ j ≤ p.exitIndex tokens.length ∧
    (r.1 = .nil → ∀ t ∈ tokens[i.toNat]?, p.MayBeNil t) ∧ ∀ t ∈ tokens[j.toNat]?, p.StopsAt t

/-- `recurse` is safe on every position inside the tokens, for every precedent below a
measure. -/
def SafeBelow (recurse : Precedent → TokenStream → PlanResult) (bound : Int) : Prop :=
  ∀ q (j : Int), 0 ≤ j → j < tokens.length → planMeasure tokens q j < bound →
    Result.Safe (PlanPost tokens q j) (recurse q ⟨tokens, j⟩)

/-- The tokens the safety proof covers: no opener is last, and the values have their
kinds' types. -/
structure PlannableTokens : Prop where
  opens : ∀ j t, tokens[j]? = some t → t.kind.opensOperand → j + 1 < tokens.length
  typed : ∀ t ∈ tokens, t.wellTyped

variable {tokens}
variable {recurse : Precedent → TokenStream → PlanResult}

/-- A call at the same position descends in rank. -/
theorem planMeasure_lt_rank {p q : Precedent} {i : Int} (h : q.rank < p.rank) :
    planMeasure tokens q i < planMeasure tokens p i := by
  simp only [planMeasure]; omega

/-- A call after a consumed token may be of any rank. -/
theorem planMeasure_lt_advance {p q : Precedent} {i j : Int} (h : i < j) :
    planMeasure tokens q j < planMeasure tokens p i := by
  have := q.rank_lt; simp only [planMeasure]; omega

theorem SafeBelow.call {bound : Int} (hrec : SafeBelow tokens recurse bound) {q : Precedent}
    {j : Int} (h0 : 0 ≤ j) (hj : j < tokens.length) (hm : planMeasure tokens q j < bound) :
    Result.Safe (PlanPost tokens q j) (recurse q ⟨tokens, j⟩) :=
  hrec q j h0 hj hm

/-- The argument plan of an accessor ends inside the tokens or at their end. -/
theorem planAccessorArguments_safe {i bound : Int} (h0 : 0 ≤ i) (hi : i ≤ tokens.length)
    (hrec : SafeBelow tokens recurse bound) (hb : planMeasure tokens .planTokens i < bound) :
    Result.Safe (fun r : Stage × TokenStream => ∃ k, r.2 = ⟨tokens, k⟩ ∧ i ≤ k ∧
      k ≤ tokens.length) (planAccessorArguments recurse ⟨tokens, i⟩) := by
  unfold planAccessorArguments
  simp only [TokenStream.hasNext_eq]
  by_cases hn : i < tokens.length
  · obtain ⟨u, hu, -⟩ := exists_getElem?_toNat h0 hn
    simp only [hn, decide_True, if_true, TokenStream.next_eq hu h0, ok_bind,
      TokenStream.rewind_mk, Int.add_sub_cancel]
    split
    · refine (hrec.call h0 hn hb).mono ?_
      rintro r ⟨k, hr, hk1, hk2, -, -⟩
      exact ⟨k, hr, hk1, by simp only [Precedent.exitIndex] at hk2; omega⟩
    · exact ⟨i, rfl, Int.le_refl i, hi⟩
  · simp only [hn, decide_False, Bool.false_eq_true, if_false]
    exact ⟨i, rfl, Int.le_refl i, hi⟩

theorem planTokens_step_safe {i : Int} (h0 : 0 ≤ i) (hi : i < tokens.length)
    (hrec : SafeBelow tokens recurse (planMeasure tokens .planTokens i)) :
    Result.Safe (PlanPost tokens .planTokens i) (planTokens recurse ⟨tokens, i⟩) := by
  simp only [planTokens, TokenStream.hasNext_eq, hi, decide_True, Bool.not_true,
    Bool.false_eq_true, if_false]
  refine (hrec.call h0 hi (planMeasure_lt_rank (by decide))).mono ?_
  rintro r ⟨j, hr, hij, hj, hnil, hstop⟩
  exact ⟨j, hr, hij, hj, fun h u hu => (hnil h u hu).lift (by decide),
    hstop⟩

/-- The left operand of a level: none, or the plan of a precedent of lower rank, which
stops at a token that precedent does not take. -/
theorem planLeftOperand_safe {p : Precedent} {i : Int} (h0 : 0 ≤ i) (hi : i < tokens.length)
    (hrec : SafeBelow tokens recurse (planMeasure tokens p i)) {left : Option Precedent}
    (hleft : ∀ q ∈ left, q.rank < p.rank ∧ q ≠ .planPrefix ∧ p ≠ .planPrefix) :
    Result.Safe (fun r : Stage × TokenStream => ∃ j, r.2 = ⟨tokens, j⟩ ∧ i ≤ j ∧
      j ≤ tokens.length ∧
      (r.1 = .nil → (left = none ∧ j = i) ∨ ∀ t ∈ tokens[i.toNat]?, p.MayBeNil t) ∧
      ∀ q ∈ left, ∀ u ∈ tokens[j.toNat]?, q.StopsAt u)
      (planLeftOperand recurse left ⟨tokens, i⟩) := by
  cases left with
  | none => exact ⟨i, rfl, Int.le_refl i, Int.le_of_lt hi, fun _ => .inl ⟨rfl, rfl⟩,
      fun q h => absurd h (Option.not_mem_none q)⟩
  | some q =>
    obtain ⟨hq, hqp, -⟩ := hleft q rfl
    refine (hrec.call h0 hi (by simp only [planMeasure]; omega)).mono ?_
    rintro ⟨stage, s⟩ ⟨j, hs, hij, hj, hnil, hstopq⟩
    refine ⟨j, hs, hij, ?_, fun h => .inr fun t ht => (hnil h t ht).lift hqp, fun q' h => ?_⟩
    · cases q <;> simp only [Precedent.exitIndex] at hj <;> omega
    · cases Option.mem_def.mp h
      exact hstopq

variable (ptokens : PlannableTokens tokens)
include ptokens

/-- One level of `planPrecedenceLevel`, with an opener kind `K` and the symbols of the
level: `left` is a precedent of lower rank, or none for `planPrefix`. -/
theorem planPrecedenceLevel_safe {p right : Precedent} {i : Int} (h0 : 0 ≤ i)
    (hi : i < tokens.length) (hrec : SafeBelow tokens recurse (planMeasure tokens p i))
    {format : TypeErrorFormat} {validSymbols : SymbolMap} {K : TokenKind}
    {left : Option Precedent} (hK : K.opensOperand)
    (hleft : ∀ q ∈ left, q.rank < p.rank ∧ q ≠ .planPrefix ∧ p ≠ .planPrefix)
    (hnone : left = none → p = .planPrefix ∧ K = .PREFIX ∧ validSymbols = prefixSymbols)
    (hright : right.exitIndex tokens.length ≤ p.exitIndex tokens.length)
    (hrightRank : p.rank ≤ right.rank)
    (hlevels : p.stopLevels = [] ∨ ∃ q planner, left = some q ∧
      p.stopLevels = planner :: q.stopLevels ∧ planner.validKinds = [K] ∧
      planner.validSymbols = validSymbols)
    (hexit : tokens.length - 1 ≤ p.exitIndex tokens.length) :
    Result.Safe (PlanPost tokens p i)
      (planPrecedenceLevel recurse ⟨tokens, i⟩ format validSymbols [K] right left) := by
  obtain ⟨t, ht, htm⟩ := exists_getElem?_toNat h0 hi
  -- the level stops where its left operand stops, at a token it does not take
  have hstop : ∀ u, (∀ q ∈ left, q.StopsAt u) → (u.kind ≠ K ∨ ∀ lexeme,
      u.value = .string lexeme → validSymbols lexeme = none) → p.StopsAt u := by
    intro u hq hu
    rcases hlevels with hp | ⟨q, planner, rfl, hp, hk, hs⟩
    · intro planner h; rw [hp] at h; cases h
    · refine Precedent.StopsAt.level hp (hq q rfl) fun ⟨hku, lexeme, hv, hsome⟩ => ?_
      rw [hk, List.mem_singleton] at hku
      rcases hu with hu | hu
      · exact hu hku
      · rw [hs, hu lexeme hv] at hsome; cases hsome
  -- a level returns nil only when its left operand is nil and it has no operator
  have hnilNone : left = none → (t.kind ≠ K ∨ ∀ lexeme, t.value = .string lexeme →
      validSymbols lexeme = none) → p.MayBeNil t := by
    intro hl hk
    obtain ⟨rfl, rfl, rfl⟩ := hnone hl
    refine .inr ⟨rfl, fun hkind => ?_⟩
    obtain ⟨lexeme, symbol, hv, hs⟩ := ExpressionToken.wellTyped_prefix (ptokens.typed t htm) hkind
    rcases hk with hk | hk
    · exact hk hkind
    · rw [hk lexeme hv] at hs; cases hs
  unfold planPrecedenceLevel
  refine (planLeftOperand_safe h0 hi hrec hleft).bind ?_
  rintro ⟨leftStage, s⟩ ⟨j, rfl, hij, hj, hnil, hstopL⟩
  -- the rewinds that end the level return the left operand
  have hrewind : ∀ k, i ≤ k → k ≤ tokens.length - 1 → (leftStage = .nil → p.MayBeNil t) →
      (∀ u ∈ tokens[k.toNat]?, p.StopsAt u) → PlanPost tokens p i (leftStage, ⟨tokens, k⟩) :=
    fun k hik hk hn hs => ⟨k, rfl, hik, by omega, fun h u hu => by
      rw [ht, Option.mem_def, Option.some_inj] at hu
      exact hu ▸ hn h, hs⟩
  simp only [TokenStream.hasNext_eq]
  by_cases hn : j < tokens.length
  · obtain ⟨u, hu, -⟩ := exists_getElem?_toNat (by omega) hn
    -- the token at the level's cursor is `t` when the left operand is empty
    have hnilAt : leftStage = .nil → (u.kind ≠ K ∨ ∀ lexeme, u.value = .string lexeme →
        validSymbols lexeme = none) → p.MayBeNil t := by
      intro h hk
      rcases hnil h with ⟨hl, rfl⟩ | hm
      · rw [ht, Option.some_inj] at hu
        exact hnilNone hl (hu ▸ hk)
      · exact hm t ht
    have hstopAt : (u.kind ≠ K ∨ ∀ lexeme, u.value = .string lexeme →
        validSymbols lexeme = none) → ∀ u' ∈ tokens[j.toNat]?, p.StopsAt u' := by
      intro hk u' hu'
      rw [hu, Option.mem_def, Option.some_inj] at hu'
      exact hu' ▸ hstop u (fun q hq => hstopL q hq u hu) hk
    simp only [hn, decide_True, if_true, TokenStream.next_eq hu (by omega), ok_bind,
      TokenStream.rewind_mk, Int.add_sub_cancel, List.length_singleton, Nat.lt_irrefl,
      List.mem_singleton]
    by_cases hk : u.kind = K
    · simp only [hk, not_true_eq_false, and_false, if_false, Nat.zero_lt_one, true_and]
      -- a lexeme the level lacks, or a value that is no lexeme, rewinds
      have hrewindAt : (∀ lexeme, u.value = .string lexeme → validSymbols lexeme = none) →
          PlanPost tokens p i (leftStage, ⟨tokens, j⟩) := fun hnone =>
        hrewind j hij (by omega) (fun h => hnilAt h (.inr hnone)) (hstopAt (.inr hnone))
      split
      · rename_i lexeme hv
        split
        · have hj1 := ptokens.opens _ _ hu (hk ▸ hK)
          refine (hrec.call (by omega) (by omega) ?_).bind ?_
          · simp only [planMeasure]; have := right.rank_lt; omega
          · rintro ⟨rightStage, s⟩ ⟨k, rfl, hjk, hk', -, hstopR⟩
            exact ⟨k, rfl, by omega, by omega, fun h => (by cases h),
              fun u hu => (hstopR u hu).mono hrightRank⟩
        · rename_i hs
          exact hrewindAt fun l h' => by rw [hv, Value.string.injEq] at h'; exact h' ▸ hs
      · rename_i hv
        exact hrewindAt fun l h' => (hv l h').elim
    · simp only [hk, not_false_eq_true, and_true, Nat.zero_lt_one, if_true, pure_eq_ok,
        Result.safe_ok]
      exact hrewind j hij (by omega) (fun h => hnilAt h (.inl hk)) (hstopAt (.inl hk))
  · simp only [hn, decide_False, Bool.false_eq_true, if_false, pure_eq_ok, Result.safe_ok,
      TokenStream.rewind_mk]
    refine hrewind _ (by omega) (by omega) (fun h => ?_) fun u hu => ?_
    · rcases hnil h with ⟨-, rfl⟩ | hm
      · omega
      · exact hm t ht
    · -- the last token closes an operand
      refine .of_not_opens (Bool.eq_false_iff.mpr fun ho => ?_)
      have := ptokens.opens _ u hu ho
      omega

/-- `planFunction` reads a token without `hasNext`: it is entered inside the tokens. -/
theorem planFunction_safe {i : Int} (h0 : 0 ≤ i) (hi : i < tokens.length)
    (hrec : SafeBelow tokens recurse (planMeasure tokens .planFunction i)) :
    Result.Safe (PlanPost tokens .planFunction i) (planFunction recurse ⟨tokens, i⟩) := by
  obtain ⟨t, ht, htm⟩ := exists_getElem?_toNat h0 hi
  simp only [planFunction, TokenStream.next_eq ht h0, ok_bind, TokenStream.rewind_mk,
    Int.add_sub_cancel]
  split
  next =>
    refine (hrec.call h0 hi (planMeasure_lt_rank (by decide))).mono ?_
    rintro r ⟨j, hr, hij, hj, hnil, -⟩
    exact ⟨j, hr, hij, hj, fun h u hu => (hnil h u hu).lift (by decide),
      fun _ _ => .of_rank_lt (by decide)⟩
  next hk =>
    -- a function name is followed by its arguments
    have hk : t.kind = .FUNCTION := not_not.mp hk
    have hj1 := ptokens.opens _ _ ht (by simp [hk, TokenKind.opensOperand])
    refine (hrec.call (by omega) (by omega) (planMeasure_lt_advance (by omega))).bind ?_
    rintro ⟨rightStage, s⟩ ⟨k, rfl, hik, hk', -⟩
    obtain ⟨f, hv⟩ := ExpressionToken.wellTyped_function (ptokens.typed t htm) hk
    simp only [hv]
    exact ⟨k, rfl, by omega, hk', fun h => (by cases h), fun _ _ => .of_rank_lt (by decide)⟩

theorem planAccessor_safe {i : Int} (h0 : 0 ≤ i) (hi : i < tokens.length)
    (hrec : SafeBelow tokens recurse (planMeasure tokens .planAccessor i)) :
    Result.Safe (PlanPost tokens .planAccessor i) (planAccessor recurse ⟨tokens, i⟩) := by
  obtain ⟨t, ht, htm⟩ := exists_getElem?_toNat h0 hi
  simp only [planAccessor, TokenStream.hasNext_eq, hi, decide_True, if_true,
    TokenStream.next_eq ht h0, ok_bind, TokenStream.rewind_mk, Int.add_sub_cancel]
  split
  next =>
    refine (hrec.call h0 hi (planMeasure_lt_rank (by decide))).mono ?_
    rintro r ⟨j, hr, hij, hj, hnil, -⟩
    exact ⟨j, hr, hij, hj, fun h u hu => (hnil h u hu).lift (by decide),
      fun _ _ => .of_rank_lt (by decide)⟩
  next hk =>
    refine (planAccessorArguments_safe (i := i + 1) (by omega) (by omega) hrec
      (planMeasure_lt_advance (by omega))).bind ?_
    rintro ⟨rightStage, s⟩ ⟨k, rfl, hk1, hk2⟩
    obtain ⟨path, hv⟩ := ExpressionToken.wellTyped_accessor (ptokens.typed t htm) (not_not.mp hk)
    simp only [hv]
    exact ⟨k, rfl, by omega, hk2, fun h => (by cases h), fun _ _ => .of_rank_lt (by decide)⟩

/-- `planValue` reads the token after a clause's contents without `hasNext`: the contents end
before the last token, since an opening parenthesis is never last. -/
theorem planValue_safe {i : Int} (h0 : 0 ≤ i) (hi : i < tokens.length)
    (hrec : SafeBelow tokens recurse (planMeasure tokens .planValue i)) :
    Result.Safe (PlanPost tokens .planValue i) (planValue recurse ⟨tokens, i⟩) := by
  obtain ⟨t, ht, htm⟩ := exists_getElem?_toNat h0 hi
  have htyped := ptokens.typed t htm
  have hleaf : ∀ info, PlanPost tokens .planValue i (.node info .nil .nil, ⟨tokens, i + 1⟩) :=
    fun _ => ⟨i + 1, rfl, by omega, by simp only [Precedent.exitIndex]; omega, nofun,
      fun _ _ => .of_rank_lt (by decide)⟩
  simp only [planValue, TokenStream.hasNext_eq, hi, decide_True, if_true,
    TokenStream.next_eq ht h0, ok_bind]
  cases hk : t.kind <;> simp only [planValueToken, hk, Result.safe_fail]
  case CLAUSE =>
    have hj1 := ptokens.opens _ _ ht (by simp [hk, TokenKind.opensOperand])
    refine (hrec.call (by omega) (by omega) (planMeasure_lt_advance (by omega))).bind ?_
    rintro ⟨ret, s⟩ ⟨k, rfl, hk1, hk2, -⟩
    simp only [Precedent.exitIndex] at hk2
    obtain ⟨u, hu, -⟩ := exists_getElem?_toNat (by omega) (by omega : k < tokens.length)
    simp only [TokenStream.next_eq hu (by omega), ok_bind]
    exact ⟨k + 1, rfl, by omega, by simp only [Precedent.exitIndex]; omega, nofun,
      fun _ _ => .of_rank_lt (by decide)⟩
  case CLAUSE_CLOSE =>
    refine ⟨i, by simp, Int.le_refl i, by simp only [Precedent.exitIndex]; omega, fun _ u hu => ?_,
      fun _ _ => .of_rank_lt (by decide)⟩
    rw [ht, Option.mem_def, Option.some_inj] at hu
    exact .inl (hu ▸ hk)
  case VARIABLE =>
    obtain ⟨name, hv⟩ := ExpressionToken.wellTyped_variable htyped hk
    simp only [hv]
    exact hleaf _
  case NUMERIC | STRING | PATTERN | BOOLEAN => exact hleaf _
  case TIME =>
    obtain ⟨unix, hv⟩ := ExpressionToken.wellTyped_time htyped hk
    simp only [hv]
    exact hleaf _
  case PREFIX =>
    simp only [TokenStream.rewind_mk, Int.add_sub_cancel]
    refine (hrec.call h0 hi (planMeasure_lt_rank (by decide))).mono ?_
    rintro r ⟨j, hr, hij, hj, hnil, -⟩
    refine ⟨j, hr, hij, hj, fun h u hu => ?_, fun _ _ => .of_rank_lt (by decide)⟩
    have hc := hnil h u hu
    rw [ht, Option.mem_def, Option.some_inj] at hu
    subst hu
    rcases hc with hc | ⟨-, hc⟩ <;> simp [hk] at hc

/-- One unfolding of the precedents is safe when the calls it makes are. -/
theorem planStep_safe {p : Precedent} {i : Int} (h0 : 0 ≤ i) (hi : i < tokens.length)
    (hrec : SafeBelow tokens recurse (planMeasure tokens p i)) :
    Result.Safe (PlanPost tokens p i) (planStep recurse p ⟨tokens, i⟩) := by
  have hexit : ∀ q : Precedent, (tokens.length : Int) - 1 ≤ q.exitIndex tokens.length := fun q => by
    cases q <;> simp only [Precedent.exitIndex] <;> omega
  cases p
  case planFunction => exact planFunction_safe ptokens h0 hi hrec
  case planAccessor => exact planAccessor_safe ptokens h0 hi hrec
  case planValue => exact planValue_safe ptokens h0 hi hrec
  case planTokens => exact planTokens_step_safe h0 hi hrec
  all_goals
    simp only [planStep, makePrecedentFromPlanner]
    exact planPrecedenceLevel_safe ptokens h0 hi hrec (by decide)
      (by simp [prefixPlanner, exponentialPlanner, multiplicativePlanner, additivePlanner,
        shiftPlanner, bitwisePlanner, comparatorPlanner, logicalAndPlanner, logicalOrPlanner,
        ternaryPlanner, separatorPlanner, Precedent.rank])
      (by simp [prefixPlanner, exponentialPlanner, multiplicativePlanner, additivePlanner,
        shiftPlanner, bitwisePlanner, comparatorPlanner, logicalAndPlanner, logicalOrPlanner,
        ternaryPlanner, separatorPlanner]) (Int.le_refl _) (by decide)
      (by first | exact .inl rfl | exact .inr ⟨_, _, rfl, rfl, rfl, rfl⟩) (hexit _)

/-- The planner with fuel above the measure is safe. -/
theorem plan_safe : ∀ (fuel : Nat) (p : Precedent) (i : Int), 0 ≤ i → i < tokens.length →
    planMeasure tokens p i < fuel → Result.Safe (PlanPost tokens p i) (plan fuel p ⟨tokens, i⟩)
  | 0, p, i, _, hi, hm => absurd hm (by simp only [planMeasure]; omega)
  | fuel + 1, _, _, h0, hi, hm => planStep_safe ptokens h0 hi fun q j hj0 hj hmj =>
      plan_safe fuel q j hj0 hj (by omega)

end Safety

/-- The lists the grammar checker accepts, with the lexer's value types, are plannable. -/
theorem PlannableTokens.of_accepted {tokens : List ExpressionToken}
    (h : checkExpressionSyntax tokens = .ok ()) (htyped : ∀ t ∈ tokens, t.wellTyped) :
    PlannableTokens tokens where
  opens j t ht hopen := by
    obtain ⟨hj, rfl⟩ := List.getElem?_eq_some_iff.mp ht
    exact opensOperand_succ_lt h j hj hopen
  typed := htyped

/-- `planFuel` is enough: from the start of a plannable list whose first token may start an
expression (as in every accepted list, `head_startsExpression`), `planTokens` returns a
non-nil plan, or a Go error, with the cursor before the end. -/
theorem planTokens_safe {tokens : List ExpressionToken} (ptokens : PlannableTokens tokens)
    (h : ∃ t rest, tokens = t :: rest ∧ startsExpression t.kind) :
    Result.Safe (fun r : Stage × TokenStream => r.1 ≠ .nil ∧ r.2.tokens = tokens ∧
      0 ≤ r.2.index ∧ r.2.index < tokens.length)
      (plan (planFuel tokens) .planTokens (newTokenStream tokens)) := by
  obtain ⟨t, rest, rfl, hstart⟩ := h
  refine (plan_safe ptokens _ .planTokens 0 (Int.le_refl 0) (by simp)
    (by simp only [planMeasure, planFuel, Precedent.rank]; push_cast; omega)).mono ?_
  rintro ⟨stage, s⟩ ⟨j, rfl, hj0, hj, hnil, -⟩
  refine ⟨fun h => ?_, rfl, hj0, by simp only [Precedent.exitIndex] at hj; dsimp only; omega⟩
  rcases hnil h t (by simp) with hc | ⟨hc, -⟩
  · rw [hc] at hstart; exact absurd hstart (by decide)
  · cases hc

/-- The tokens of `true) && (false`: balanced by count, and accepted by the transition
table, which lets a closing parenthesis be followed by an operator. -/
def strayCloseTokens : List ExpressionToken :=
  [⟨.BOOLEAN, .bool true⟩, ⟨.CLAUSE_CLOSE, .rune ')'⟩, ⟨.LOGICALOP, .string "&&"⟩,
    ⟨.CLAUSE, .rune '('⟩, ⟨.BOOLEAN, .bool false⟩]

/-- On `true) && (false` the planner stops at the stray `)`: the plan is the literal `true`
and the cursor is left at position 1, so `&&` and `false` are never planned. -/
theorem planTokens_stops_at_stray_close :
    checkBalance strayCloseTokens = .ok () ∧ checkExpressionSyntax strayCloseTokens = .ok () ∧
      plan (planFuel strayCloseTokens) .planTokens (newTokenStream strayCloseTokens) =
        .ok (.node (literalInfo (.bool true)) .nil .nil, ⟨strayCloseTokens, 1⟩) :=
  ⟨rfl, rfl, rfl⟩

end Geval
