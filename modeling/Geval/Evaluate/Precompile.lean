import Geval.Evaluate.Meaning

/-!
# Precompiling regular expressions

`optimizeTokens` replaces the string token right after a `=~` or `!~` comparator by the
pattern it compiles to. On a derivation of the planner's grammar, it replaces the right operand
of such a comparator (`Derivation.precompile`), when that operand is a string literal; and it
keeps the meaning of the derivation exactly when the string token after the comparator is the
whole operand, as it is when every such operand is a string literal whose pattern compiles or
does not begin with a string token (`Derivation.RegexSafe`). A string that begins a longer
operand is precompiled all the same, and the meaning changes (`optimizeTokens_regex_operand_sum`
of `Geval.Syntax.Optimize`).

* `Derivation.optimizeTokensFrom_tokens`: on a `RegexSafe` derivation the optimizer makes the
  tokens of the precompiled derivation;
* `Derivation.eval_precompile`: the precompiled derivation reads as the derivation does,
  since `=~` and `!~` give the same result on a string and on the pattern it compiles to;
* `Derivation.render_means`: the text of a supported, `RegexSafe` derivation compiles, and
  what it compiles to evaluates, on every parameter map, as the derivation's left-to-right
  reading (`Derivation.compile_render` for the plan, `TEvaluate_eq_evaluateChild` for the
  root).
-/

namespace Geval

/-! ## The derivation the optimizer makes -/

/-- The comparators whose right operand `optimizeTokens` precompiles: `=~` and `!~`. -/
def isRegexLexeme (lexeme : String) : Bool :=
  (comparatorSymbols lexeme).getD .VALUE == .REQ || (comparatorSymbols lexeme).getD .VALUE == .NREQ

/-- A step of a chain at `L` that `optimizeTokens` precompiles: a `=~` or `!~` comparator. -/
def Level.precompiles (L : Level) (lexeme : String) : Bool :=
  L.kind == .COMPARATOR && isRegexLexeme lexeme

/-- The string of a derivation that is a string literal. -/
def Derivation.stringLiteral? : Derivation → Option String
  | .literal ⟨.STRING, .string s⟩ => some s
  | _ => none

/-- The right operand of a `=~` or `!~` step after `optimizeTokens`: a string literal becomes
the literal of the pattern it compiles to. -/
def precompileOperand (regexp : RegexpLibrary) (operand : Derivation) : Derivation :=
  match operand.stringLiteral? with
  | some s =>
    match regexp.compile s with
    | .ok p => .literal ⟨.PATTERN, .pattern p⟩
    | .error _ => operand
  | none => operand

/-- The operand of a step of a chain at `L` after `optimizeTokens`. -/
def precompileStep (regexp : RegexpLibrary) (L : Level) (lexeme : String) (operand : Derivation) :
    Derivation :=
  if L.precompiles lexeme then precompileOperand regexp operand else operand

mutual

/-- The derivation `optimizeTokens` makes: every string literal right after a `=~` or `!~`
comparator precompiled. -/
def Derivation.precompile (regexp : RegexpLibrary) : Derivation → Derivation
  | .chain L first rest => .chain L (first.precompile regexp) (rest.precompile regexp L)
  | .unary lexeme operand => .unary lexeme (operand.precompile regexp)
  | .call f args => .call f (args.precompile regexp)
  | .field path => .field path
  | .method path args => .method path (args.precompile regexp)
  | .group args => .group (args.precompile regexp)
  | .literal token => .literal token
  | .parameter name => .parameter name

def Chain.precompile (regexp : RegexpLibrary) (L : Level) : Chain → Chain
  | .last lexeme operand => .last lexeme (precompileStep regexp L lexeme (operand.precompile regexp))
  | .cons lexeme operand rest =>
    .cons lexeme (precompileStep regexp L lexeme (operand.precompile regexp))
      (rest.precompile regexp L)

def Args.precompile (regexp : RegexpLibrary) : Args → Args
  | .empty => .empty
  | .contents d => .contents (d.precompile regexp)

end

/-- The right operand of a `=~` or `!~` step that the optimizer precompiles in place: a string
literal whose pattern compiles, or an operand that does not begin with a string token. -/
def precompilesInPlace (regexp : RegexpLibrary) (operand : Derivation) : Bool :=
  match operand.stringLiteral? with
  | some s => (regexp.compile s).toBool
  | none => operand.tokens.head?.all (·.kind != .STRING)

mutual

/-- Every `=~` and `!~` step of the derivation has an operand the optimizer precompiles in
place. -/
def Derivation.RegexSafe (regexp : RegexpLibrary) : Derivation → Bool
  | .chain L first rest => first.RegexSafe regexp && rest.RegexSafe regexp L
  | .unary _ operand => operand.RegexSafe regexp
  | .call _ args | .method _ args | .group args => args.RegexSafe regexp
  | .field _ | .literal _ | .parameter _ => true

def Chain.RegexSafe (regexp : RegexpLibrary) (L : Level) : Chain → Bool
  | .last lexeme operand =>
    (!L.precompiles lexeme || precompilesInPlace regexp operand) && operand.RegexSafe regexp
  | .cons lexeme operand rest =>
    (!L.precompiles lexeme || precompilesInPlace regexp operand) && operand.RegexSafe regexp &&
      rest.RegexSafe regexp L

def Args.RegexSafe (regexp : RegexpLibrary) : Args → Bool
  | .empty => true
  | .contents d => d.RegexSafe regexp

end

/-! ## The optimizer makes the precompiled derivation -/

section Optimizer

variable {regexp : RegexpLibrary} {index : Nat} {rest : List ExpressionToken} {lexeme : String}

/-- The loop compiles the string after `=~` or `!~` and passes over both tokens. -/
theorem optimizeTokensFrom_of_regex_string {s : String} {p : Pattern}
    (hregex : isRegexLexeme lexeme) (hcompile : regexp.compile s = .ok p) :
    optimizeTokensFrom regexp index (⟨.COMPARATOR, .string lexeme⟩ :: ⟨.STRING, .string s⟩ :: rest) =
      (fun tail => ⟨.COMPARATOR, .string lexeme⟩ :: ⟨.PATTERN, .pattern p⟩ :: tail) <$>
        optimizeTokensFrom regexp (index + 2) rest := by
  have hsymbol : ¬((comparatorSymbols lexeme).getD .VALUE ≠ .REQ ∧
      (comparatorSymbols lexeme).getD .VALUE ≠ .NREQ) := by
    simpa [isRegexLexeme, or_iff_not_imp_left] using hregex
  simp only [optimizeTokensFrom, ne_eq, not_true_eq_false, if_false, if_neg hsymbol, if_true,
    hcompile]

/-- The loop passes over a `=~` or `!~` followed by a token that is not a string. -/
theorem optimizeTokensFrom_of_regex_other {next : ExpressionToken} (hregex : isRegexLexeme lexeme)
    (hnext : next.kind ≠ .STRING) :
    optimizeTokensFrom regexp index (⟨.COMPARATOR, .string lexeme⟩ :: next :: rest) =
      (⟨.COMPARATOR, .string lexeme⟩ :: ·) <$> optimizeTokensFrom regexp (index + 1) (next :: rest) := by
  have hsymbol : ¬((comparatorSymbols lexeme).getD .VALUE ≠ .REQ ∧
      (comparatorSymbols lexeme).getD .VALUE ≠ .NREQ) := by
    simpa [isRegexLexeme, or_iff_not_imp_left] using hregex
  simp only [optimizeTokensFrom, ne_eq, not_true_eq_false, if_false, if_neg hsymbol, if_neg hnext]

theorem Derivation.eq_of_stringLiteral? {d : Derivation} {s : String}
    (h : d.stringLiteral? = some s) : d = .literal ⟨.STRING, .string s⟩ := by
  unfold Derivation.stringLiteral? at h
  split at h <;> cases h
  rfl

@[simp] theorem Derivation.stringLiteral?_precompile (d : Derivation) :
    (d.precompile regexp).stringLiteral? = d.stringLiteral? := by
  cases d <;> rfl

/-- The loop passes over the operator token of a step it does not precompile. -/
theorem optimizeTokensFrom_of_not_precompiles (L : Level) (hp : L.precompiles lexeme = false) :
    optimizeTokensFrom regexp index (⟨L.kind, .string lexeme⟩ :: rest) =
      (⟨L.kind, .string lexeme⟩ :: ·) <$> optimizeTokensFrom regexp (index + 1) rest := by
  by_cases hk : L.kind = .COMPARATOR
  · refine optimizeTokensFrom_of_other_comparator hk rfl ?_
    simpa [Level.precompiles, hk, isRegexLexeme] using hp
  · exact optimizeTokensFrom_of_not_comparator hk

/-- The loop passes over a token of a kind other than `COMPARATOR`. -/
theorem optimizeTokensFrom_mk_of_ne {kind : TokenKind} (hk : kind ≠ .COMPARATOR) (value : Value) :
    optimizeTokensFrom regexp index (⟨kind, value⟩ :: rest) =
      (⟨kind, value⟩ :: ·) <$> optimizeTokensFrom regexp (index + 1) rest :=
  optimizeTokensFrom_of_not_comparator hk

/-- Two runs of the loop from the same place, mapped alike, agree. -/
theorem map_optimizeTokensFrom_congr {f g : List ExpressionToken → List ExpressionToken}
    {a b : Nat} {post : List ExpressionToken} (hfg : ∀ l, f l = g l) (hab : a = b) :
    f <$> optimizeTokensFrom regexp a post = g <$> optimizeTokensFrom regexp b post := by
  rw [funext hfg, hab]

/-- The operator token of a step: the loop precompiles the operand after it as
`precompileStep` does, and goes on after the operand. -/
theorem optimizeTokensFrom_step (L : Level) {operand : Derivation}
    (hsafe : (!L.precompiles lexeme || precompilesInPlace regexp operand) = true)
    (hoperand : ∀ index post, optimizeTokensFrom regexp index (operand.tokens ++ post) =
      ((operand.precompile regexp).tokens ++ ·) <$>
        optimizeTokensFrom regexp (index + operand.tokens.length) post)
    (post : List ExpressionToken) :
    optimizeTokensFrom regexp index (⟨L.kind, .string lexeme⟩ :: operand.tokens ++ post) =
      (⟨L.kind, .string lexeme⟩ ::
          (precompileStep regexp L lexeme (operand.precompile regexp)).tokens ++ ·) <$>
        optimizeTokensFrom regexp (index + 1 + operand.tokens.length) post := by
  cases hp : L.precompiles lexeme
  · rw [precompileStep, if_neg (by simp [hp]), List.cons_append,
      optimizeTokensFrom_of_not_precompiles L hp, hoperand, Functor.map_map]
    rfl
  -- a `=~` or `!~`: the operand is a string literal whose pattern compiles, or begins otherwise
  obtain ⟨hk, hregex⟩ : L.kind = .COMPARATOR ∧ isRegexLexeme lexeme := by
    simpa [Level.precompiles] using hp
  simp only [hp, Bool.not_true, Bool.false_or, precompilesInPlace] at hsafe
  rw [precompileStep, if_pos hp, hk]
  cases hs : operand.stringLiteral? with
  | some s =>
    simp only [hs] at hsafe
    obtain rfl := Derivation.eq_of_stringLiteral? hs
    cases hc : regexp.compile s with
    | error e => rw [hc] at hsafe; cases hsafe
    | ok p =>
      simp only [precompileOperand, Derivation.stringLiteral?_precompile, hs, hc]
      exact optimizeTokensFrom_of_regex_string hregex hc
  | none =>
    simp only [hs] at hsafe
    obtain ⟨next, more, htokens⟩ := List.exists_cons_of_ne_nil operand.tokens_ne_nil
    rw [htokens] at hsafe
    have hnext : next.kind ≠ .STRING := by simpa using hsafe
    simp only [precompileOperand, Derivation.stringLiteral?_precompile, hs]
    rw [htokens, List.cons_append, List.cons_append, optimizeTokensFrom_of_regex_other hregex hnext,
      ← List.cons_append, ← htokens, hoperand, Functor.map_map]
    rfl

mutual

/-- On a supported derivation whose `=~` and `!~` operands it precompiles in place, the
optimizer makes the tokens of the precompiled derivation, and goes on after them. -/
theorem Derivation.optimizeTokensFrom_tokens : ∀ {d : Derivation}, d.Supported →
    d.RegexSafe regexp → ∀ (index : Nat) (post : List ExpressionToken),
      optimizeTokensFrom regexp index (d.tokens ++ post) =
        ((d.precompile regexp).tokens ++ ·) <$>
          optimizeTokensFrom regexp (index + d.tokens.length) post
  | .chain L first rest, hd, h, index, post => by
    simp only [Derivation.Supported, Derivation.RegexSafe, Bool.and_eq_true] at hd h
    rw [Derivation.tokens, List.append_assoc, Derivation.optimizeTokensFrom_tokens hd.1.2 h.1,
      Chain.optimizeTokensFrom_tokens hd.2 h.2, Functor.map_map]
    exact map_optimizeTokensFrom_congr (fun _ => by simp [Derivation.precompile, Derivation.tokens])
      (by simp only [List.length_append]; omega)
  | .unary lexeme operand, hd, h, index, post => by
    simp only [Derivation.Supported, Bool.and_eq_true] at hd
    show optimizeTokensFrom regexp index (⟨.PREFIX, .string lexeme⟩ :: (operand.tokens ++ post)) =
      ((⟨.PREFIX, .string lexeme⟩ :: (operand.precompile regexp).tokens) ++ ·) <$>
        optimizeTokensFrom regexp (index + (operand.tokens.length + 1)) post
    rw [optimizeTokensFrom_mk_of_ne (show TokenKind.PREFIX ≠ .COMPARATOR by decide),
      Derivation.optimizeTokensFrom_tokens (d := operand) hd.2 h, Functor.map_map]
    exact map_optimizeTokensFrom_congr (fun _ => rfl) (by omega)
  | .call f args, hd, h, index, post => by
    show optimizeTokensFrom regexp index (⟨.FUNCTION, .function f⟩ :: (args.tokens ++ post)) =
      ((⟨.FUNCTION, .function f⟩ :: (args.precompile regexp).tokens) ++ ·) <$>
        optimizeTokensFrom regexp (index + (args.tokens.length + 1)) post
    rw [optimizeTokensFrom_mk_of_ne (show TokenKind.FUNCTION ≠ .COMPARATOR by decide),
      Args.optimizeTokensFrom_tokens (a := args) hd h, Functor.map_map]
    exact map_optimizeTokensFrom_congr (fun _ => rfl) (by omega)
  | .field _, _, _, _, _ =>
    optimizeTokensFrom_mk_of_ne (show TokenKind.ACCESSOR ≠ .COMPARATOR by decide) _
  | .method .., hd, _, _, _ => by cases hd
  | .group args, hd, h, index, post => Args.optimizeTokensFrom_tokens (a := args) hd h index post
  | .literal ⟨kind, value⟩, hd, _, _, _ => by
    cases kind <;> first
      | exact optimizeTokensFrom_mk_of_ne (by decide) value
      | cases hd
  | .parameter _, _, _, _, _ =>
    optimizeTokensFrom_mk_of_ne (show TokenKind.VARIABLE ≠ .COMPARATOR by decide) _

theorem Chain.optimizeTokensFrom_tokens {L : Level} : ∀ {c : Chain}, c.Supported L →
    c.RegexSafe regexp L → ∀ (index : Nat) (post : List ExpressionToken),
      optimizeTokensFrom regexp index (c.tokens L ++ post) =
        ((c.precompile regexp L).tokens L ++ ·) <$>
          optimizeTokensFrom regexp (index + (c.tokens L).length) post
  | .last _ operand, hc, h, index, post => by
    simp only [Chain.Supported, Chain.RegexSafe, Bool.and_eq_true] at hc h
    rw [Chain.tokens, optimizeTokensFrom_step L h.1
      (Derivation.optimizeTokensFrom_tokens hc.2 h.2)]
    exact map_optimizeTokensFrom_congr (fun _ => rfl) (by simp only [List.length_cons]; omega)
  | .cons _ operand rest, hc, h, index, post => by
    simp only [Chain.Supported, Chain.RegexSafe, Bool.and_eq_true] at hc h
    rw [Chain.tokens, List.append_assoc, List.cons_append, ← List.cons_append _ operand.tokens,
      optimizeTokensFrom_step L h.1.1 (Derivation.optimizeTokensFrom_tokens hc.1.2 h.1.2),
      Chain.optimizeTokensFrom_tokens hc.2 h.2, Functor.map_map]
    exact map_optimizeTokensFrom_congr (fun _ => by simp [Chain.precompile, Chain.tokens])
      (by simp only [List.length_cons, List.length_append]; omega)

theorem Args.optimizeTokensFrom_tokens : ∀ {a : Args}, a.Supported → a.RegexSafe regexp →
    ∀ (index : Nat) (post : List ExpressionToken),
      optimizeTokensFrom regexp index (a.tokens ++ post) =
        ((a.precompile regexp).tokens ++ ·) <$>
          optimizeTokensFrom regexp (index + a.tokens.length) post
  | .empty, _, _, index, post => by
    show optimizeTokensFrom regexp index (⟨.CLAUSE, .rune '('⟩ :: ⟨.CLAUSE_CLOSE, .rune ')'⟩ :: post) =
      _
    rw [optimizeTokensFrom_mk_of_ne (show TokenKind.CLAUSE ≠ .COMPARATOR by decide),
      optimizeTokensFrom_mk_of_ne (show TokenKind.CLAUSE_CLOSE ≠ .COMPARATOR by decide),
      Functor.map_map]
    rfl
  | .contents d, ha, h, index, post => by
    simp only [Args.Supported, Bool.and_eq_true] at ha
    rw [Args.tokens, List.cons_append, List.cons_append, List.append_assoc, List.singleton_append,
      openToken, closeToken, optimizeTokensFrom_mk_of_ne (show TokenKind.CLAUSE ≠ .COMPARATOR by decide),
      Derivation.optimizeTokensFrom_tokens ha.2 h,
      optimizeTokensFrom_mk_of_ne (show TokenKind.CLAUSE_CLOSE ≠ .COMPARATOR by decide),
      Functor.map_map, Functor.map_map]
    exact map_optimizeTokensFrom_congr
      (fun _ => by simp [Args.precompile, Args.tokens, openToken, closeToken])
      (by simp only [List.length_cons, List.length_append, List.length_nil]; omega)

end

end Optimizer

/-! ## The optimizer's output is its own fixpoint -/

theorem isRegexLexeme_of_not_ne {lexeme : String}
    (h : ¬((comparatorSymbols lexeme).getD .VALUE ≠ .REQ ∧
      (comparatorSymbols lexeme).getD .VALUE ≠ .NREQ)) : isRegexLexeme lexeme := by
  simp only [ne_eq, not_and_or, not_not] at h
  simpa only [isRegexLexeme, Bool.or_eq_true, beq_iff_eq] using h

/-- The loop returns, from any position, a list it then keeps as it is: a `STRING` it
compiled is a `PATTERN`, which it passes over, and it keeps every other token. -/
theorem optimizeTokensFrom_fixed (regexp : RegexpLibrary) (index : Nat)
    (tokens : List ExpressionToken) : ∀ {tokens' : List ExpressionToken},
      optimizeTokensFrom regexp index tokens = .ok tokens' →
        ∀ j, optimizeTokensFrom regexp j tokens' = .ok tokens' := by
  induction index, tokens using optimizeTokensFrom.induct regexp with
  | case1 => intro _ h _; cases h; rfl
  | case2 _ token rest hk ih =>
    intro _ h _
    rw [optimizeTokensFrom_of_not_comparator hk] at h
    obtain ⟨rest', hrest, rfl⟩ := map_eq_ok.mp h
    rw [optimizeTokensFrom_of_not_comparator hk, ih hrest]
    rfl
  | case3 _ token rest hk source hv symbol hsymbol =>
    rename_i ih
    intro _ h _
    rw [optimizeTokensFrom_of_other_comparator (not_not.mp hk) hv hsymbol] at h
    obtain ⟨rest', hrest, rfl⟩ := map_eq_ok.mp h
    rw [optimizeTokensFrom_of_other_comparator (not_not.mp hk) hv hsymbol, ih hrest]
    rfl
  | case4 _ token hk source hv symbol =>
    rename_i hsymbol
    intro _
    simp only [optimizeTokensFrom, if_neg hk, hv]
    intro h
    rw [if_neg hsymbol] at h
    cases h
  | case5 _ token hk source hv symbol hsymbol next afterNext hnext source' hv' pattern hcompile =>
    rename_i ih
    intro _
    obtain ⟨kind, value⟩ := next
    simp only at hnext hv'
    subst hnext hv'
    simp only [optimizeTokensFrom, if_neg hk, hv]
    intro h _
    rw [if_neg hsymbol] at h
    simp only [if_true, hcompile] at h
    obtain ⟨rest', hrest, rfl⟩ := map_eq_ok.mp h
    obtain ⟨kind, value⟩ := token
    simp only [not_not] at hk
    simp only at hv
    subst hk hv
    have hpattern : (⟨.PATTERN, .pattern pattern⟩ : ExpressionToken).kind ≠ .STRING := nofun
    rw [optimizeTokensFrom_of_regex_other (isRegexLexeme_of_not_ne hsymbol) hpattern,
      optimizeTokensFrom_mk_of_ne (show TokenKind.PATTERN ≠ .COMPARATOR from nofun), ih hrest]
    rfl
  | case6 _ token hk source hv symbol hsymbol next afterNext hnext source' hv' message =>
    rename_i hcompile
    intro _
    simp only [optimizeTokensFrom, if_neg hk, hv]
    intro h
    rw [if_neg hsymbol] at h
    simp [hnext, hv', hcompile, fail] at h
  | case7 _ token hk source hv symbol hsymbol next afterNext hnext =>
    rename_i hv'
    intro _
    simp only [optimizeTokensFrom, if_neg hk, hv]
    intro h
    rw [if_neg hsymbol] at h
    simp only [hnext, if_true] at h
    cases h
  | case8 _ token hk source hv symbol hsymbol next afterNext hnext =>
    rename_i ih
    intro _
    simp only [optimizeTokensFrom, if_neg hk, hv]
    intro h _
    rw [if_neg hsymbol, if_neg hnext] at h
    obtain ⟨rest', hrest, rfl⟩ := map_eq_ok.mp h
    -- the loop keeps the token after the comparator, which is not a `STRING`
    obtain ⟨next', more, rfl, hkind⟩ : ∃ next' more, rest' = next' :: more ∧ next'.kind ≠ .STRING := by
      cases optimizeTokensFrom_kinds regexp _ _ hrest with
      | cons hkept _ =>
        refine ⟨_, _, rfl, ?_⟩
        rcases hkept with hkept | hkept
        · rw [hkept]
          exact hnext
        · exact absurd hkept.1 hnext
    obtain ⟨kind, value⟩ := token
    simp only [not_not] at hk
    simp only at hv
    subst hk hv
    rw [optimizeTokensFrom_of_regex_other (isRegexLexeme_of_not_ne hsymbol) hkind, ih hrest]
    rfl
  | case9 _ token rest hk hv =>
    intro _ h
    obtain ⟨kind, value⟩ := token
    simp only [not_not] at hk
    subst hk
    cases value <;> simp_all [optimizeTokensFrom]

/-- `optimizeTokens` is idempotent: a list it returns, it returns unchanged. -/
theorem optimizeTokens_idempotent {regexp : RegexpLibrary} {tokens tokens' : List ExpressionToken}
    (h : optimizeTokens regexp tokens = .ok tokens') : optimizeTokens regexp tokens' = .ok tokens' :=
  optimizeTokensFrom_fixed regexp 0 tokens h 0

theorem optimizeTokens_idempotent_match :
    optimizeTokens nullWorld.regexp
        [⟨.VARIABLE, .string "x"⟩, ⟨.COMPARATOR, .string "=~"⟩, ⟨.STRING, .string "a"⟩] =
        .ok [⟨.VARIABLE, .string "x"⟩, ⟨.COMPARATOR, .string "=~"⟩, ⟨.PATTERN, .pattern ⟨"a"⟩⟩] ∧
      optimizeTokens nullWorld.regexp
          [⟨.VARIABLE, .string "x"⟩, ⟨.COMPARATOR, .string "=~"⟩, ⟨.PATTERN, .pattern ⟨"a"⟩⟩] =
        .ok [⟨.VARIABLE, .string "x"⟩, ⟨.COMPARATOR, .string "=~"⟩, ⟨.PATTERN, .pattern ⟨"a"⟩⟩] :=
  have h : optimizeTokens nullWorld.regexp
      [⟨.VARIABLE, .string "x"⟩, ⟨.COMPARATOR, .string "=~"⟩, ⟨.STRING, .string "a"⟩] =
      .ok [⟨.VARIABLE, .string "x"⟩, ⟨.COMPARATOR, .string "=~"⟩, ⟨.PATTERN, .pattern ⟨"a"⟩⟩] := rfl
  ⟨h, optimizeTokens_idempotent h⟩

/-! ## The precompiled derivation reads as the derivation -/

section Pattern

variable {symbol : OperatorSymbol} (hsymbol : symbol = .REQ ∨ symbol = .NREQ) {s : String}
  {p : Pattern}

include hsymbol

/-- The operator of `=~` or `!~` gives the same result on a string and on the pattern it
compiles to. -/
theorem symbolOperator_pattern {regexp : RegexpLibrary} (hcompile : regexp.compile s = .ok p)
    (l : Value) : symbolOperator regexp symbol l (.pattern p) = symbolOperator regexp symbol l (.string s) := by
  rcases hsymbol with rfl | rfl <;> cases l <;> try rfl
  all_goals rename_i x
  · show _ = (match regexp.compile s with
      | .ok p => .ok (.bool (regexp.matchString p x))
      | .error e => fail ("Unable to compile regexp pattern '" ++ s ++ "': " ++ e))
    rw [hcompile]
    rfl
  · show _ = (match regexp.compile s with
      | .ok p => .ok (.bool !(regexp.matchString p x))
      | .error e => fail ("Unable to compile regexp pattern '" ++ s ++ "': " ++ e))
    rw [hcompile]
    rfl

/-- The checks of `=~` and `!~` take a string and a pattern alike as the right operand. -/
theorem checkStageTypes_pattern (format : TypeErrorFormat) (l : Value) :
    checkStageTypes (binaryInfo symbol format) l (.pattern p) =
      checkStageTypes (binaryInfo symbol format) l (.string s) := by
  rcases hsymbol with rfl | rfl <;> rfl

/-- The stage of `=~` or `!~` evaluates alike over a string and over the pattern it compiles
to. -/
theorem evaluateNode_pattern {checksTypes : Bool} {world : World} {parameters : Parameters}
    (hcompile : world.regexp.compile s = .ok p) (format : TypeErrorFormat) (acc : Evaluation) :
    evaluateNode checksTypes world parameters (binaryInfo symbol format) acc (.ok (.pattern p), []) =
      evaluateNode checksTypes world parameters (binaryInfo symbol format) acc (.ok (.string s), []) := by
  obtain ⟨_ | l, calls⟩ := acc
  · rfl
  have hshort : shortCircuit symbol l = .proceed := by rcases hsymbol with rfl | rfl <;> rfl
  have hrun : StageOperator.run world parameters (binaryInfo symbol format).operator l (.pattern p) =
      StageOperator.run world parameters (binaryInfo symbol format).operator l (.string s) :=
    symbolOperator_pattern hsymbol hcompile l
  simp only [evaluateNode, binaryInfo_symbol, hshort, finishStage,
    checkStageTypes_pattern hsymbol (s := s) (p := p) format l, hrun]

end Pattern

/-- `precompileOperand` keeps its operand, or turns a string literal into the literal of the
pattern it compiles to. -/
theorem precompileOperand_cases (regexp : RegexpLibrary) (d : Derivation) :
    precompileOperand regexp d = d ∨ ∃ s p, d = .literal ⟨.STRING, .string s⟩ ∧
      regexp.compile s = .ok p ∧ precompileOperand regexp d = .literal ⟨.PATTERN, .pattern p⟩ := by
  unfold precompileOperand
  cases hs : d.stringLiteral? with
  | none => exact .inl rfl
  | some s =>
    obtain rfl := Derivation.eq_of_stringLiteral? hs
    dsimp only
    cases hc : regexp.compile s with
    | error e => exact .inl rfl
    | ok p => exact .inr ⟨s, p, rfl, hc, rfl⟩

theorem Level.eq_comparator_of_kind {L : Level} (h : L.kind = .COMPARATOR) : L = .comparator := by
  cases L <;> first | rfl | cases h

section Precompiled

variable {regexp : RegexpLibrary}

theorem Derivation.minRank_precompile (d : Derivation) :
    (d.precompile regexp).minRank = d.minRank := by
  cases d <;> rfl

theorem Derivation.isCall_precompile (d : Derivation) :
    (d.precompile regexp).isCall = d.isCall := by
  cases d <;> rfl

theorem Derivation.isGroup_precompile (d : Derivation) :
    (d.precompile regexp).isGroup = d.isGroup := by
  cases d <;> rfl

/-- The operand of a step after `optimizeTokens` is supported, of the same rank, when the
operand is. -/
theorem precompileStep_supported (regexp : RegexpLibrary) (L : Level) (lexeme : String)
    {d : Derivation} (hd : d.Supported) :
    (precompileStep regexp L lexeme d).Supported ∧
      (precompileStep regexp L lexeme d).minRank = d.minRank := by
  unfold precompileStep
  split
  · rcases precompileOperand_cases regexp d with h | ⟨s, p, rfl, -, h⟩
    · rw [h]; exact ⟨hd, rfl⟩
    · rw [h]; exact ⟨rfl, rfl⟩
  · exact ⟨hd, rfl⟩

mutual

/-- The derivation `optimizeTokens` makes of a supported derivation is supported. -/
theorem Derivation.supported_precompile : ∀ {d : Derivation}, d.Supported →
    (d.precompile regexp).Supported
  | .chain L first rest, hd => by
    simp only [Derivation.precompile, Derivation.Supported, Bool.and_eq_true, decide_eq_true_eq,
      Derivation.minRank_precompile] at hd ⊢
    exact ⟨⟨hd.1.1, Derivation.supported_precompile hd.1.2⟩, Chain.supported_precompile hd.2⟩
  | .unary _ operand, hd => by
    simp only [Derivation.precompile, Derivation.Supported, Bool.and_eq_true,
      Derivation.isCall_precompile] at hd ⊢
    exact ⟨hd.1, Derivation.supported_precompile hd.2⟩
  | .call _ args, hd => Args.supported_precompile (a := args) hd
  | .field _, _ => rfl
  | .method .., hd => by cases hd
  | .group args, hd => Args.supported_precompile (a := args) hd
  | .literal _, hd => hd
  | .parameter _, _ => rfl

theorem Chain.supported_precompile {L : Level} : ∀ {c : Chain}, c.Supported L →
    (c.precompile regexp L).Supported L
  | .last lexeme operand, hc => by
    simp only [Chain.Supported, Bool.and_eq_true, decide_eq_true_eq] at hc
    have hstep := precompileStep_supported regexp L lexeme (Derivation.supported_precompile hc.2)
    simp only [Chain.precompile, Chain.Supported, Bool.and_eq_true, decide_eq_true_eq, hstep.1,
      hstep.2, Derivation.minRank_precompile]
    exact ⟨⟨hc.1.1, hc.1.2⟩, trivial⟩
  | .cons lexeme operand rest, hc => by
    simp only [Chain.Supported, Bool.and_eq_true, decide_eq_true_eq] at hc
    have hstep := precompileStep_supported regexp L lexeme
      (Derivation.supported_precompile hc.1.2)
    simp only [Chain.precompile, Chain.Supported, Bool.and_eq_true, decide_eq_true_eq, hstep.1,
      hstep.2, Derivation.minRank_precompile, Chain.supported_precompile hc.2]
    exact ⟨⟨⟨hc.1.1.1, hc.1.1.2⟩, trivial⟩, trivial⟩

theorem Args.supported_precompile : ∀ {a : Args}, a.Supported → (a.precompile regexp).Supported
  | .empty, _ => rfl
  | .contents d, ha => by
    simp only [Args.precompile, Args.Supported, Bool.and_eq_true, Bool.not_eq_true',
      Derivation.isGroup_precompile] at ha ⊢
    exact ⟨ha.1, Derivation.supported_precompile ha.2⟩

end

end Precompiled

/-! ## The precompiled derivation means what the derivation means -/

section Reading

variable {checksTypes : Bool} {world : World} {parameters : Parameters}

theorem Derivation.eval_literal (value : Value) {kind : TokenKind} (hkind : kind ≠ .TIME) :
    (Derivation.literal ⟨kind, value⟩).eval checksTypes world parameters = (.ok value, []) := by
  have hstage : literalStage ⟨kind, value⟩ = literalInfo value := by
    unfold literalStage; split
    · rename_i h _; cases h; exact absurd rfl hkind
    · rfl
  rw [← evaluateChild_literal checksTypes world parameters value, ← hstage]
  rfl

/-- A `=~` or `!~` step whose operand is precompiled in place reads as before. -/
theorem evaluateNode_precompileStep {L : Level} {lexeme : String} {operand : Derivation}
    (hsafe : (!L.precompiles lexeme || precompilesInPlace world.regexp operand) = true)
    (hoperand : (operand.precompile world.regexp).eval checksTypes world parameters =
      operand.eval checksTypes world parameters) (acc : Evaluation) :
    evaluateNode checksTypes world parameters (L.operatorInfo lexeme) acc
        ((precompileStep world.regexp L lexeme (operand.precompile world.regexp)).eval
          checksTypes world parameters) =
      evaluateNode checksTypes world parameters (L.operatorInfo lexeme) acc
        (operand.eval checksTypes world parameters) := by
  unfold precompileStep
  split
  · rename_i hprecompiles
    rcases precompileOperand_cases world.regexp (operand.precompile world.regexp) with
      h | ⟨s, p, hs, hc, h⟩
    · rw [h, hoperand]
    · obtain rfl : operand = .literal ⟨.STRING, .string s⟩ :=
        Derivation.eq_of_stringLiteral?
          ((Derivation.stringLiteral?_precompile _).symm.trans (congrArg Derivation.stringLiteral? hs))
      simp only [Level.precompiles, Bool.and_eq_true, beq_iff_eq] at hprecompiles
      obtain rfl := Level.eq_comparator_of_kind hprecompiles.1
      have hsymbol : (comparatorSymbols lexeme).getD .VALUE = .REQ ∨
          (comparatorSymbols lexeme).getD .VALUE = .NREQ := by
        simpa [isRegexLexeme] using hprecompiles.2
      rw [h, Derivation.eval_literal _ (show TokenKind.PATTERN ≠ .TIME from nofun),
        Derivation.eval_literal _ (show TokenKind.STRING ≠ .TIME from nofun)]
      exact evaluateNode_pattern hsymbol hc _ acc
  · rw [hoperand]

mutual

/-- The derivation `optimizeTokens` makes of a `RegexSafe` derivation reads as the derivation
does. -/
theorem Derivation.eval_precompile : ∀ {d : Derivation}, d.RegexSafe world.regexp →
    (d.precompile world.regexp).eval checksTypes world parameters =
      d.eval checksTypes world parameters
  | .chain L first rest, h => by
    simp only [Derivation.RegexSafe, Bool.and_eq_true] at h
    simp only [Derivation.precompile, Derivation.eval, Derivation.eval_precompile h.1]
    exact Chain.eval_precompile h.2 _
  | .unary _ operand, h => by
    simp only [Derivation.precompile, Derivation.eval, Derivation.eval_precompile (d := operand) h]
  | .call _ args, h => by
    simp only [Derivation.precompile, Derivation.eval, Args.eval_precompile (a := args) h]
  | .field _, _ => rfl
  | .method _ args, h => by
    simp only [Derivation.precompile, Derivation.eval, Args.eval_precompile (a := args) h]
  | .group args, h => Args.eval_precompile (a := args) h
  | .literal _, _ => rfl
  | .parameter _, _ => rfl

theorem Chain.eval_precompile {L : Level} : ∀ {c : Chain}, c.RegexSafe world.regexp L →
    ∀ acc, (c.precompile world.regexp L).eval checksTypes world parameters L acc =
      c.eval checksTypes world parameters L acc
  | .last _ operand, h, acc => by
    simp only [Chain.RegexSafe, Bool.and_eq_true] at h
    exact evaluateNode_precompileStep h.1 (Derivation.eval_precompile h.2) acc
  | .cons _ operand rest, h, acc => by
    simp only [Chain.RegexSafe, Bool.and_eq_true] at h
    simp only [Chain.precompile, Chain.eval,
      evaluateNode_precompileStep h.1.1 (Derivation.eval_precompile h.1.2) acc]
    exact Chain.eval_precompile h.2 _

theorem Args.eval_precompile : ∀ {a : Args}, a.RegexSafe world.regexp →
    (a.precompile world.regexp).eval checksTypes world parameters =
      a.eval checksTypes world parameters
  | .empty, _ => rfl
  | .contents d, h => by
    simp only [Args.precompile, Args.eval, Derivation.eval_precompile (d := d) h]

end

end Reading

/-! ## What the compiled text means -/

/-- On a supported, `RegexSafe` derivation `optimizeTokens` makes the tokens of the
precompiled derivation. -/
theorem Derivation.optimizeTokens_tokens {regexp : RegexpLibrary} {d : Derivation}
    (hd : d.Supported) (hregex : d.RegexSafe regexp) :
    optimizeTokens regexp d.tokens = .ok (d.precompile regexp).tokens := by
  have h := Derivation.optimizeTokensFrom_tokens hd hregex 0 []
  rw [List.append_nil] at h
  rw [optimizeTokens, h, optimizeTokensFrom]
  simp only [Except.map_ok, List.append_nil]

/-- `TEvaluate` evaluates the plan as a child of the root: nil for a nil plan, and under the
sanitized parameters, or the empty map for nil ones. -/
theorem EvaluableExpression.TEvaluate_eq_evaluateChild (e : EvaluableExpression) (world : World)
    (parameters : Option (String → Option Value)) :
    e.TEvaluate world parameters = evaluateChild e.checksTypes world
      (((parameters.map mapParameters).map sanitizedParameters).getD dummyParameters)
      e.evaluationStages := by
  obtain ⟨_, _, _, stages, _⟩ := e
  cases stages <;> rfl

/-- The text of a supported, `RegexSafe` derivation compiles to a plan that evaluates, on every
parameter map, as the derivation reads with type checks on. -/
theorem Derivation.compile_render {tables : LexerTables}
    {functions : String → Option ExpressionFunction} {d : Derivation} {texts : List (List Char)}
    (world : World) (hd : d.Supported) (hspelled : Spelled tables functions startState d.tokens texts)
    (haccepted : checkExpressionSyntax d.tokens = .ok ()) (hregex : d.RegexSafe world.regexp) :
    ∃ e, tNewEvaluableExpressionWithFunctions tables world (String.mk (render texts)) functions =
        .ok e ∧
      ∀ parameters : Parameters, evaluateChild e.checksTypes world parameters e.evaluationStages =
        d.eval true world parameters := by
  have hd' : (d.precompile world.regexp).Supported := Derivation.supported_precompile hd
  obtain ⟨elided, helide, hfold⟩ := Derivation.elideLiterals_reference hd' world
  refine ⟨_, by
    rw [tNewEvaluableExpressionWithFunctions_render_tokens hd hspelled haccepted
      (Derivation.optimizeTokens_tokens hd hregex), Derivation.planStages_tokens hd', helide]
    rfl, fun parameters => ?_⟩
  rw [hfold.2.2.2]
  exact (Derivation.evaluateChild_reference _).trans (Derivation.eval_precompile hregex)

/-- The text of a supported derivation whose `=~` and `!~` operands the optimizer precompiles in
place means what the derivation means read left to right: it compiles, and on every parameter
map, nil included, `TEvaluate` of what it compiles to gives the left-to-right reading of the
derivation under the parameters `tEval` passes, with type checks on: value, error and external
calls alike. -/
theorem Derivation.render_means {tables : LexerTables}
    {functions : String → Option ExpressionFunction} {d : Derivation} {texts : List (List Char)}
    (world : World) (hd : d.Supported) (hspelled : Spelled tables functions startState d.tokens texts)
    (haccepted : checkExpressionSyntax d.tokens = .ok ()) (hregex : d.RegexSafe world.regexp) :
    ∃ e, tNewEvaluableExpressionWithFunctions tables world (String.mk (render texts)) functions =
        .ok e ∧
      ∀ parameters : Option (String → Option Value), e.TEvaluate world parameters =
        d.eval true world
          (((parameters.map mapParameters).map sanitizedParameters).getD dummyParameters) := by
  obtain ⟨e, he, heval⟩ := Derivation.compile_render world hd hspelled haccepted hregex
  exact ⟨e, he, fun parameters => (e.TEvaluate_eq_evaluateChild world parameters).trans (heval _)⟩

/-- `x =~ 'a'`: a variable matched against a string literal. -/
def xMatchesA : Derivation :=
  .chain .comparator (.parameter "x") (.last "=~" (.literal ⟨.STRING, .string "a"⟩))

/-- `x =~ 'a'` optimized: the string becomes its pattern, and a second pass keeps it. -/
theorem render_means_match :
    xMatchesA.Supported ∧
      Spelled asciiTables (fun _ => none) startState xMatchesA.tokens
        ["x".toList, "=~".toList, "'a'".toList] ∧
      checkExpressionSyntax xMatchesA.tokens = .ok () ∧ xMatchesA.RegexSafe nullWorld.regexp ∧
      ∃ e, tNewEvaluableExpressionWithFunctions asciiTables nullWorld
          (String.mk (render ["x".toList, "=~".toList, "'a'".toList])) (fun _ => none) = .ok e ∧
        ∀ parameters : Option (String → Option Value), e.TEvaluate nullWorld parameters =
          xMatchesA.eval true nullWorld
            (((parameters.map mapParameters).map sanitizedParameters).getD dummyParameters) :=
  have hspelled : Spelled asciiTables (fun _ => none) startState xMatchesA.tokens
      ["x".toList, "=~".toList, "'a'".toList] :=
    .cons (.identifier rfl rfl (by decide) (.parameter (by decide) rfl (by decide))) rfl
      (.cons (.operator (by decide) (by decide) rfl (by decide)) rfl
        (.cons (.quoted (.inl rfl) ['a']) rfl (.nil _)))
  ⟨rfl, hspelled, rfl, rfl, Derivation.render_means (d := xMatchesA) nullWorld rfl hspelled rfl rfl⟩

end Geval
