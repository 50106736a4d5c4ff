import Geval.Planner.Steps
import Geval.Reorder.Chain

/-!
# The shape of a plan

What the planner builds, and what `reorderStages` makes of it, as invariants of the stage
tree. The stages that are not operators are those of the structural precedences:
parentheses, calls and accessors, variables and literals. The planner gives them no left
child, and a variable or a literal no child at all (`Stage.Planned`). Mirroring a run of
structural stages hangs each one under the next, so after `reorderStages` a structural
stage may have a left child, but only one of its own precedence; variables and literals
stay leaves (`Stage.Reordered`).

* `plan_planOut`: every plan the planner returns, on every token list, is `Planned`, its
  accessor stages walk the paths of accessor tokens of the list, and its variable stages look up
  the names of variable tokens of the list.
* `reorderSubtree_reordered`: `reorderStages` turns a `Planned` tree into a `Reordered`
  one.
-/

namespace Geval

/-- The precedences of the stages that are not operators: parentheses, values and calls. -/
def OperatorPrecedence.isStructural : OperatorPrecedence → Bool
  | .noopPrecedence | .valuePrecedence | .functionalPrecedence => true
  | _ => false

/-- The precedence of a stage's symbol; nil has none. -/
def Stage.precedence? (stage : Stage) : Option OperatorPrecedence :=
  stage.symbol?.map findOperatorPrecedenceForSymbol

@[simp] theorem Stage.precedence?_nil : Stage.nil.precedence? = none := rfl

@[simp] theorem Stage.precedence?_node (info : StageInfo) (left right : Stage) :
    (Stage.node info left right).precedence? = some (findOperatorPrecedenceForSymbol info.symbol) :=
  rfl

@[simp] theorem binaryInfo_symbol (symbol : OperatorSymbol) (typeErrorFormat : TypeErrorFormat) :
    (binaryInfo symbol typeErrorFormat).symbol = symbol := rfl

/-- The stage fields the planner builds: the stage of a symbol of an operator level, and the
stages of a call, an accessor, a parenthesis, a variable and a literal. -/
inductive StageInfo.Planned : StageInfo → Prop
  | operator {symbol : OperatorSymbol} (typeErrorFormat : TypeErrorFormat)
    (h : (findOperatorPrecedenceForSymbol symbol).isStructural = false) :
    Planned (binaryInfo symbol typeErrorFormat)
  | functional (f : ExpressionFunction) : Planned (functionalInfo f)
  | access (path : List String) : Planned (accessInfo path)
  | noop : Planned noopInfo
  | parameter (name : String) : Planned (parameterInfo name)
  | literal (value : Value) : Planned (literalInfo value)

namespace StageInfo.Planned

variable {info : StageInfo}

/-- A planned stage of an operator precedence is the stage of a symbol. -/
theorem binary_of_not_structural (h : info.Planned)
    (hs : (findOperatorPrecedenceForSymbol info.symbol).isStructural = false) :
    ∃ symbol typeErrorFormat, info = binaryInfo symbol typeErrorFormat ∧
      (findOperatorPrecedenceForSymbol symbol).isStructural = false := by
  cases h with
  | operator typeErrorFormat h => exact ⟨_, typeErrorFormat, rfl, h⟩
  | _ => cases hs

/-- A planned `LITERAL` stage is the stage of a literal. -/
theorem literal_of_symbol (h : info.Planned) (hl : info.symbol = .LITERAL) :
    ∃ value, info = literalInfo value := by
  cases h with
  | operator _ h => simp only [binaryInfo_symbol] at hl; subst hl; cases h
  | literal value => exact ⟨value, rfl⟩
  | _ => cases hl

end StageInfo.Planned

/-! ## What the planner builds -/

/-- The shape of the planner's trees: planned stages; a stage of a structural precedence
has no left child, and a variable or a literal no right child either. -/
def Stage.Planned : Stage → Prop
  | .nil => True
  | .node info left right => info.Planned ∧
    ((findOperatorPrecedenceForSymbol info.symbol).isStructural → left = .nil) ∧
    (findOperatorPrecedenceForSymbol info.symbol = .valuePrecedence → right = .nil) ∧
    left.Planned ∧ right.Planned

namespace Stage.Planned

variable {info : StageInfo} {left right : Stage}

theorem binary {symbol : OperatorSymbol} (typeErrorFormat : TypeErrorFormat)
    (h : (findOperatorPrecedenceForSymbol symbol).isStructural = false) (hl : left.Planned)
    (hr : right.Planned) : (Stage.node (binaryInfo symbol typeErrorFormat) left right).Planned :=
  ⟨.operator typeErrorFormat h, fun hs => absurd (h.symm.trans hs) Bool.false_ne_true,
    fun hv => (by rw [binaryInfo_symbol] at hv; rw [hv] at h; cases h), hl, hr⟩

/-- A stage with a right operand only: a call, an accessor or a parenthesis. -/
theorem unary (hinfo : info.Planned)
    (hv : findOperatorPrecedenceForSymbol info.symbol ≠ .valuePrecedence) (hr : right.Planned) :
    (Stage.node info .nil right).Planned :=
  ⟨hinfo, fun _ => rfl, fun h => absurd h hv, trivial, hr⟩

theorem leaf (hinfo : info.Planned) : (Stage.node info .nil .nil).Planned :=
  ⟨hinfo, fun _ => rfl, fun _ => rfl, trivial, trivial⟩

end Stage.Planned

/-- The symbol tables of the binary operator levels give symbols of binary precedences: no
parenthesis, value, call or prefix symbol. -/
theorem levelSymbols_binary {validSymbols : SymbolMap}
    (hmap : validSymbols ∈ [separatorSymbols, ternarySymbols, logicalOrSymbols,
      logicalAndSymbols, comparatorSymbols, bitwiseSymbols, bitwiseShiftSymbols, additiveSymbols,
      multiplicativeSymbols, exponentialSymbolsS])
    {lexeme : String} {symbol : OperatorSymbol} (h : validSymbols lexeme = some symbol) :
    findOperatorPrecedenceForSymbol symbol ∉
      [.noopPrecedence, .valuePrecedence, .functionalPrecedence, .prefixPrecedence] := by
  simp only [List.mem_cons, List.mem_singleton, List.not_mem_nil, or_false] at hmap
  rcases hmap with rfl | rfl | rfl | rfl | rfl | rfl | rfl | rfl | rfl | rfl <;>
    · delta separatorSymbols ternarySymbols logicalOrSymbols logicalAndSymbols comparatorSymbols
        bitwiseSymbols bitwiseShiftSymbols additiveSymbols multiplicativeSymbols
        exponentialSymbolsS at h
      split at h <;> cases h <;> decide

/-- The symbols of the prefix level are prefix operators. -/
theorem prefixSymbols_precedence {lexeme : String} {symbol : OperatorSymbol}
    (h : prefixSymbols lexeme = some symbol) :
    findOperatorPrecedenceForSymbol symbol = .prefixPrecedence := by
  delta prefixSymbols at h
  split at h <;> cases h <;> rfl

/-- The symbols of the binary levels are of operator precedences. -/
theorem levelSymbols_not_structural {validSymbols : SymbolMap}
    (hmap : validSymbols ∈ [separatorSymbols, ternarySymbols, logicalOrSymbols,
      logicalAndSymbols, comparatorSymbols, bitwiseSymbols, bitwiseShiftSymbols, additiveSymbols,
      multiplicativeSymbols, exponentialSymbolsS])
    {lexeme : String} {symbol : OperatorSymbol} (h : validSymbols lexeme = some symbol) :
    (findOperatorPrecedenceForSymbol symbol).isStructural = false := by
  have hbinary := levelSymbols_binary hmap h
  revert hbinary
  cases findOperatorPrecedenceForSymbol symbol <;> decide

/-- Every stage of a tree satisfies `P`. -/
def Stage.Every (P : StageInfo → Prop) : Stage → Prop
  | .nil => True
  | .node info left right => P info ∧ left.Every P ∧ right.Every P

namespace Stage.Every

variable {P Q : StageInfo → Prop}

theorem mono (h : ∀ info, P info → Q info) : ∀ {t : Stage}, t.Every P → t.Every Q
  | .nil, _ => trivial
  | .node _ _ _, ⟨hi, hl, hr⟩ => ⟨h _ hi, mono h hl, mono h hr⟩

theorem and : ∀ {t : Stage}, t.Every P → t.Every Q → t.Every fun info => P info ∧ Q info
  | .nil, _, _ => trivial
  | .node _ _ _, ⟨hp, hpl, hpr⟩, ⟨hq, hql, hqr⟩ => ⟨⟨hp, hq⟩, and hpl hql, and hpr hqr⟩

end Stage.Every

/-- A property of every stage is a property of the in-order sequence. -/
theorem Stage.every_iff_inorder {P : StageInfo → Prop} {t : Stage} :
    t.Every P ↔ ∀ info ∈ t.inorder, P info := by
  induction t with
  | nil => simp [Stage.Every, Stage.inorder]
  | node info left right hl hr =>
    rw [Stage.Every, Stage.inorder, List.forall_mem_append, List.forall_mem_cons, hl, hr]
    exact and_left_comm

/-- A stage whose accessor path, if it has one, is the path of an accessor token of `tokens`,
and whose parameter name, if it has one, is the name of a variable token of `tokens`. -/
def StageInfo.NamesIn (tokens : List ExpressionToken) (info : StageInfo) : Prop :=
  (∀ path, info.operator = .accessor path →
    (⟨.ACCESSOR, .strings path⟩ : ExpressionToken) ∈ tokens) ∧
  ∀ name, info.operator = .parameter name → (⟨.VARIABLE, .string name⟩ : ExpressionToken) ∈ tokens

/-- What the planner makes of `tokens`: a tree of the planner's shape whose accessor and
variable stages name accessor and variable tokens of the list. -/
def Stage.PlanOf (tokens : List ExpressionToken) (t : Stage) : Prop :=
  t.Planned ∧ t.Every (StageInfo.NamesIn tokens)

namespace Stage.PlanOf

variable {tokens : List ExpressionToken} {info : StageInfo} {left right : Stage}

theorem nil : Stage.nil.PlanOf tokens := ⟨trivial, trivial⟩

theorem binary {symbol : OperatorSymbol} {typeErrorFormat : TypeErrorFormat}
    (h : (findOperatorPrecedenceForSymbol symbol).isStructural = false) (hl : left.PlanOf tokens)
    (hr : right.PlanOf tokens) :
    (Stage.node (binaryInfo symbol typeErrorFormat) left right).PlanOf tokens :=
  ⟨.binary _ h hl.1 hr.1, ⟨fun _ => nofun, fun _ => nofun⟩, hl.2, hr.2⟩

theorem unary (hinfo : info.Planned) (hpath : info.NamesIn tokens)
    (hv : findOperatorPrecedenceForSymbol info.symbol ≠ .valuePrecedence)
    (hr : right.PlanOf tokens) : (Stage.node info .nil right).PlanOf tokens :=
  ⟨.unary hinfo hv hr.1, hpath, trivial, hr.2⟩

theorem leaf (hinfo : info.Planned) (hpath : info.NamesIn tokens) :
    (Stage.node info .nil .nil).PlanOf tokens :=
  ⟨.leaf hinfo, hpath, trivial, trivial⟩

end Stage.PlanOf

/-- What a planner call returns from a cursor over `tokens`: a plan of `tokens`, and a
cursor over the same list. -/
def PlanOut (tokens : List ExpressionToken) (r : Stage × TokenStream) : Prop :=
  r.1.PlanOf tokens ∧ r.2.tokens = tokens

section Planner

variable {recurse : Precedent → TokenStream → PlanResult}
  (hrec : ∀ q s r, recurse q s = .ok r → PlanOut s.tokens r)
include hrec

theorem planPrecedenceLevel_planOut {stream : TokenStream} {typeErrorFormat : TypeErrorFormat}
    {validSymbols : SymbolMap} {validKinds : List TokenKind} {right : Precedent}
    {left : Option Precedent} {r : Stage × TokenStream}
    (hsymbols : ∀ lexeme symbol, validSymbols lexeme = some symbol →
      (findOperatorPrecedenceForSymbol symbol).isStructural = false)
    (h : planPrecedenceLevel recurse stream typeErrorFormat validSymbols validKinds right left =
      .ok r) : PlanOut stream.tokens r := by
  obtain ⟨leftStage, s₁, hl, hr⟩ := planPrecedenceLevel_eq_ok h
  obtain ⟨hleft, h₁⟩ : PlanOut stream.tokens (leftStage, s₁) := by
    cases left with
    | none => cases hl; exact ⟨.nil, rfl⟩
    | some p => exact hrec _ _ _ hl
  rcases hr with ⟨hr₁, hr₂⟩ | ⟨token, _, symbol, s₂, rightStage, hnext, -, -, hsymbol, hr, hr₁⟩
  · exact ⟨hr₁ ▸ hleft, hr₂.trans h₁⟩
  · obtain ⟨hright, h₃⟩ := hrec _ _ _ hr
    rw [(TokenStream.next_mem hnext).2.trans h₁] at hright h₃
    exact ⟨hr₁ ▸ .binary (hsymbols _ _ hsymbol) hleft hright, h₃⟩

theorem planFunction_planOut {stream : TokenStream} {r : Stage × TokenStream}
    (h : planFunction recurse stream = .ok r) : PlanOut stream.tokens r := by
  obtain ⟨token, s₁, hnext, ⟨-, h⟩ | ⟨f, rightStage, -, -, hr, hr₁⟩⟩ := planFunction_eq_ok h
  · exact (TokenStream.next_mem hnext).2 ▸ (hrec _ _ _ h :)
  · obtain ⟨hright, h₂⟩ := hrec _ _ _ hr
    rw [(TokenStream.next_mem hnext).2] at hright h₂
    exact ⟨hr₁ ▸ .unary (.functional f) ⟨fun _ => nofun, fun _ => nofun⟩ (fun h => by cases h)
      hright, h₂⟩

theorem planAccessor_planOut {stream : TokenStream} {r : Stage × TokenStream}
    (h : planAccessor recurse stream = .ok r) : PlanOut stream.tokens r := by
  obtain rfl | ⟨token, s₁, hnext, ⟨-, h⟩ | ⟨path, rightStage, rfl, hargs, hr₁⟩⟩ :=
    planAccessor_eq_ok h
  · exact ⟨.nil, rfl⟩
  · exact (TokenStream.next_mem hnext).2 ▸ (hrec _ _ _ h :)
  · obtain ⟨hmem, h₁⟩ := TokenStream.next_mem hnext
    -- the arguments: the plan of a whole expression, or none
    obtain ⟨hright, h₂⟩ : PlanOut stream.tokens (rightStage, r.2) := by
      rcases planAccessorArguments_eq_ok hargs with ⟨hnil, h₂⟩ | ⟨_, s₂, hnext, -, hr⟩
      · obtain rfl : rightStage = .nil := hnil
        exact ⟨.nil, h₂.trans h₁⟩
      · exact (TokenStream.next_mem hnext).2.trans h₁ ▸ (hrec _ _ _ hr :)
    exact ⟨hr₁ ▸ .unary (.access _) ⟨fun _ h => by cases h; exact hmem, fun _ => nofun⟩
      (fun h => by cases h) hright, h₂⟩

theorem planValue_planOut {stream : TokenStream} {r : Stage × TokenStream}
    (h : planValue recurse stream = .ok r) : PlanOut stream.tokens r := by
  obtain rfl | ⟨token, s₁, hnext, h⟩ := planValue_eq_ok h
  · exact ⟨.nil, rfl⟩
  obtain ⟨hmem, htokens⟩ := TokenStream.next_mem hnext
  rw [← htokens]
  obtain ⟨ret, s₂, _, -, hret, hnext, hr₁⟩ | rfl | ⟨-, h⟩ |
      ⟨info, rfl, ⟨name, rfl, rfl⟩ | ⟨value, rfl⟩⟩ := planValueToken_eq_ok h
  · -- a clause: a parenthesis over the plan of its contents
    obtain ⟨hcontents, h₂⟩ := hrec _ _ _ hret
    exact ⟨hr₁ ▸ .unary .noop ⟨fun _ => nofun, fun _ => nofun⟩ (fun h => by cases h) hcontents,
      (TokenStream.next_mem hnext).2.trans h₂⟩
  · exact ⟨.nil, rfl⟩
  · exact (hrec _ _ _ h :)
  · exact ⟨.leaf (.parameter name) ⟨fun _ => nofun, fun _ h => by cases h; rwa [htokens]⟩, rfl⟩
  · exact ⟨.leaf (.literal value) ⟨fun _ => nofun, fun _ => nofun⟩, rfl⟩

theorem planStep_planOut {p : Precedent} {stream : TokenStream} {r : Stage × TokenStream}
    (h : planStep recurse p stream = .ok r) : PlanOut stream.tokens r := by
  cases p
  case planFunction => exact planFunction_planOut hrec h
  case planAccessor => exact planAccessor_planOut hrec h
  case planValue => exact planValue_planOut hrec h
  case planTokens =>
    obtain rfl | h := planTokens_eq_ok h
    · exact ⟨.nil, rfl⟩
    · exact hrec _ _ _ h
  case planPrefix =>
    exact planPrecedenceLevel_planOut hrec (fun _ _ h => by rw [prefixSymbols_precedence h]; rfl) h
  all_goals
    exact planPrecedenceLevel_planOut hrec (fun _ _ => levelSymbols_not_structural (by
      simp [separatorPlanner, ternaryPlanner, logicalOrPlanner, logicalAndPlanner,
        comparatorPlanner, bitwisePlanner, shiftPlanner, additivePlanner, multiplicativePlanner,
        exponentialPlanner])) h

end Planner

/-- Every plan the planner returns, from every position of every token list, is a plan of
that list, and leaves the cursor on it. -/
theorem plan_planOut : ∀ (fuel : Nat) (p : Precedent) (stream : TokenStream)
    (r : Stage × TokenStream), plan fuel p stream = .ok r → PlanOut stream.tokens r
  | 0, _, _, _, h => by cases h
  | fuel + 1, _, _, _, h => planStep_planOut (plan_planOut fuel) h

/-- Every plan the planner returns, on every token list, has the planner's shape. -/
theorem plan_planned (fuel : Nat) (p : Precedent) (stream : TokenStream)
    (r : Stage × TokenStream) (h : plan fuel p stream = .ok r) : r.1.Planned :=
  (plan_planOut fuel p stream r h).1.1

/-! ## What `reorderStages` makes of a plan -/

/-- The shape of a reordered tree: planned stages; a stage of a structural precedence has no
left child or one of its own precedence; a variable or a literal has no child. -/
def Stage.Reordered : Stage → Prop
  | .nil => True
  | .node info left right => info.Planned ∧
    ((findOperatorPrecedenceForSymbol info.symbol).isStructural →
      ∀ q ∈ left.precedence?, q = findOperatorPrecedenceForSymbol info.symbol) ∧
    (findOperatorPrecedenceForSymbol info.symbol = .valuePrecedence →
      left = .nil ∧ right = .nil) ∧
    left.Reordered ∧ right.Reordered

namespace Stage.Reordered

theorem literal (value : Value) : (Stage.node (literalInfo value) .nil .nil).Reordered :=
  ⟨.literal value, fun _ _ hq => (by cases hq), fun _ => ⟨rfl, rfl⟩, trivial, trivial⟩

/-- A reordered stage whose symbol is `LITERAL` is the leaf of a literal. -/
theorem eq_literal {t : Stage} (h : t.Reordered) (hl : t.isLiteral) :
    ∃ value, t = .node (literalInfo value) .nil .nil := by
  cases t with
  | nil => cases hl
  | node info left right =>
    obtain ⟨hinfo, -, hval, -, -⟩ := h
    have hsym : info.symbol = .LITERAL := by simpa [Stage.isLiteral] using hl
    obtain ⟨value, rfl⟩ := hinfo.literal_of_symbol hsym
    obtain ⟨rfl, rfl⟩ := hval rfl
    exact ⟨value, rfl⟩

end Stage.Reordered

/-- An entry of a run of precedence `p`: a planned stage of that precedence, and its left
child reordered, which is nil for a structural stage. -/
def RunEntry (p : OperatorPrecedence) (e : StageInfo × Stage) : Prop :=
  e.1.Planned ∧ findOperatorPrecedenceForSymbol e.1.symbol = p ∧ e.2.Reordered ∧
    (p.isStructural → e.2 = .nil)

section Runs

variable {p : OperatorPrecedence}

/-- The left-nested chain of a run whose precedence is not that of values is reordered, and
its root has that precedence. -/
theorem leftNestedRev_reordered (hp : p ≠ .valuePrecedence) :
    ∀ (rev : List (StageInfo × Stage)) (tail : Stage), (∀ e ∈ rev, RunEntry p e) →
      tail.Reordered →
      (leftNestedRev rev tail).Reordered ∧
        (rev ≠ [] → (leftNestedRev rev tail).precedence? = some p)
  | [], _, _, htail => ⟨htail, fun h => absurd rfl h⟩
  | (info, left) :: rev, tail, hrev, htail => by
    obtain ⟨⟨hinfo, hprec, hleft, hnil⟩, hrev⟩ := List.forall_mem_cons.mp hrev
    obtain ⟨ih, ihp⟩ := leftNestedRev_reordered hp rev left hrev hleft
    dsimp only at hinfo hprec hleft hnil
    subst hprec
    refine ⟨⟨hinfo, fun hs q hq => ?_, fun hv => absurd hv hp, ih, htail⟩, fun _ => rfl⟩
    cases rev with
    | nil => rw [leftNestedRev, hnil hs] at hq; cases hq
    | cons e rev => exact (Option.mem_some_iff.mp (ihp (List.cons_ne_nil e rev) ▸ hq)).symm

/-- The end of a run: mirrored when it has two stages or more, which it never has at the
precedence of values; a single value stage ends its spine. -/
theorem closeRun_reordered {run : List (StageInfo × Stage)} {tail : Stage}
    (hrun : ∀ e ∈ run, RunEntry p e)
    (hvalue : p = .valuePrecedence → run.length ≤ 1 ∧ (run ≠ [] → tail = .nil))
    (htail : tail.Reordered) : (closeRun run tail).Reordered := by
  unfold closeRun
  split
  · rename_i hk
    have hp : p ≠ .valuePrecedence := fun hp => by have := (hvalue hp).1; omega
    rw [mirrorRun_eq_leftNested _ hk]
    exact (leftNestedRev_reordered hp _ _ (fun e he => hrun e (List.mem_reverse.mp he)) htail).1
  · match run, hrun, hvalue with
    | [], _, _ => exact htail
    | [(info, left)], hrun, hvalue =>
      obtain ⟨hinfo, hprec, hleft, hnil⟩ := hrun _ (List.mem_singleton_self _)
      dsimp only at hinfo hprec hleft hnil
      subst hprec
      refine ⟨hinfo, fun hs q hq => ?_, fun hv => ⟨hnil (by rw [hv]; rfl),
        (hvalue hv).2 (List.cons_ne_nil _ _)⟩, hleft, htail⟩
      rw [hnil hs] at hq; cases hq
    | _ :: _ :: _, _, _ => simp at *

end Runs

/-- The walk of a right spine makes a reordered tree of a planned one, from every run of
entries of its precedence; a run of values is a single stage at the end of its spine. -/
theorem reorderSpine_reordered {t : Stage} (ht : t.Planned) :
    ∀ {p : OperatorPrecedence} {run : List (StageInfo × Stage)}, (∀ e ∈ run, RunEntry p e) →
      (p = .valuePrecedence → run = [] ∨ run.length = 1 ∧ t = .nil) →
      (reorderSpine t p run).Reordered := by
  induction t with
  | nil =>
    intro p run hrun hvalue
    refine closeRun_reordered hrun (fun hp => ⟨?_, fun _ => rfl⟩) trivial
    rcases hvalue hp with rfl | ⟨hk, -⟩ <;> simp [*]
  | node info left right ihl ihr =>
    obtain ⟨hinfo, hstruct, hval, hl, hr⟩ := ht
    intro p run hrun hvalue
    -- the left child, reordered by a walk of its own
    have hleft : (reorderSubtree left).Reordered := by
      cases left with
      | nil => trivial
      | node => exact ihl hl (by simp) fun _ => .inl rfl
    have hentry : RunEntry (findOperatorPrecedenceForSymbol info.symbol)
        (info, reorderSubtree left) :=
      ⟨hinfo, rfl, hleft, fun hs => by rw [hstruct hs]; rfl⟩
    -- a run of values never reaches a stage
    have hrun0 : p = .valuePrecedence → run = [] := fun hp => by
      rcases hvalue hp with h | ⟨-, h⟩
      · exact h
      · cases h
    rw [reorderSpine_node]
    split
    · -- the stage joins the run
      rename_i hp
      subst hp
      refine ihr hr (fun e he => ?_) fun hv => .inr ⟨by simp [hrun0 hv], hval hv⟩
      rcases List.mem_append.mp he with he | he
      · exact hrun e he
      · rw [List.mem_singleton.mp he]; exact hentry
    · -- the run ends, and the stage starts the next one
      refine closeRun_reordered hrun (fun hp => by simp [hrun0 hp])
        (ihr hr ?_ fun hv => .inr ⟨rfl, hval hv⟩)
      simpa using hentry

/-- `reorderStages` makes a reordered tree of every planned one. -/
theorem reorderSubtree_reordered {t : Stage} (ht : t.Planned) : (reorderSubtree t).Reordered := by
  cases t with
  | nil => trivial
  | node => exact reorderSpine_reordered ht (by simp) fun _ => .inl rfl

/-- `reorderStages` accepts the non-nil trees and returns their reordered subtree. -/
theorem reorderStages_eq {t t' : Stage} (h : reorderStages t = .ok t') :
    t ≠ .nil ∧ t' = reorderSubtree t := by
  cases t with
  | nil => cases h
  | node =>
    rw [reorderStages_node] at h
    cases h
    exact ⟨nofun, rfl⟩

end Geval
