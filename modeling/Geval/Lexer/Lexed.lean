import Geval.Syntax.Accepted
import Geval.Core.Lexer

/-!
# What the lexer produces

Every token `parseTokens` returns is one the later stages can take: its value has the Go type
of its kind (`wellTyped`, the types the planner and the optimizer assert), and an accessor's
path, which `strings.Split` makes, is not empty (the evaluator reads its first segment).

The proof follows the lexer: one lemma per branch of `readToken` (`readNumeric`, the
identifier and symbol branches, and `readTokenAt` for the rest), then `readTokenLoop` and the
loop of `parseTokens` by induction on their fuel.
-/

namespace Geval

/-- `strings.Split` never returns an empty list: the last segment is always added. -/
theorem splitOnAux_ne_nil (s sep : String) (b i j : String.Pos) (r : List String) :
    String.splitOnAux s sep b i j r ≠ [] := by
  induction b, i, j, r using String.splitOnAux.induct s sep with
  | case1 b i j r h => rw [String.splitOnAux, if_pos h]; simp
  | case2 b i j r h hget _ _ hend ih =>
    rw [String.splitOnAux, if_neg h, if_pos hget, if_pos hend]; exact ih
  | case3 b i j r h hget _ _ hend ih =>
    rw [String.splitOnAux, if_neg h, if_pos hget, if_neg hend]; exact ih
  | case4 b i j r h hget ih => rw [String.splitOnAux, if_neg h, if_neg hget]; exact ih

theorem splitOn_ne_nil (s sep : String) : s.splitOn sep ≠ [] := by
  unfold String.splitOn
  split
  · simp
  · exact splitOnAux_ne_nil _ _ _ _ _ _

/-- A token as `readToken` makes it: its value has the type of its kind, and an accessor's
path is not empty. -/
def ExpressionToken.Lexed (t : ExpressionToken) : Prop :=
  t.wellTyped ∧ ∀ path, t.value = .strings path → path ≠ []

section Lexed

variable (tables : LexerTables)

/-- Both branches of `readNumeric` give a `NUMERIC` token with a `float64` value. -/
theorem readNumeric_eq_ok {character : Char} {stream stream' : LexerStream}
    {t : ExpressionToken} (h : readNumeric tables character stream = .ok (t, stream')) :
    ∃ x, t = ⟨.NUMERIC, .float x⟩ := by
  unfold readNumeric at h
  split at h
  on_goal 1 =>
    obtain ⟨⟨c', s₁⟩, -, h⟩ := bind_eq_ok.mp h
    dsimp only at h
    split at h
    on_goal 1 =>
      obtain ⟨⟨str, b, s₂⟩, -, h⟩ := bind_eq_ok.mp h
      dsimp only at h
      split at h
      · cases h; exact ⟨_, rfl⟩
      · cases h
  -- the decimal branch, after a `0` that no `x` follows or from any other digit
  all_goals
    obtain ⟨⟨str, s₂⟩, -, h⟩ := bind_eq_ok.mp h
    dsimp only at h
    split at h
    · cases h; exact ⟨_, rfl⟩
    · cases h

/-- The identifier branch gives a boolean, `in`, a function, a variable or an accessor whose
path is the non-empty split of the run. -/
theorem readIdentifier_lexed {functions : String → Option ExpressionFunction}
    {stream stream' : LexerStream} {t : ExpressionToken}
    (h : readIdentifier tables functions stream = .ok (t, stream')) : t.Lexed := by
  obtain ⟨⟨tokenString, s₁⟩, -, h⟩ := bind_eq_ok.mp h
  dsimp only at h
  split at h
  · split at h
    · cases h
    · obtain ⟨_, -, h⟩ := bind_eq_ok.mp h
      cases h
      exact ⟨rfl, fun _ hpath => by cases hpath; exact splitOn_ne_nil _ _⟩
  · cases h
    refine ⟨?_, fun path hpath => ?_⟩
    · split
      · rfl
      · split_ifs <;> rfl
    · split at hpath
      · cases hpath
      · split_ifs at hpath

/-- The symbol branch gives a string-valued operator token, and a prefix token only for a
prefix operator. -/
theorem readSymbol_lexed {state : LexerState} {stream stream' : LexerStream}
    {t : ExpressionToken} (h : readSymbol tables state stream = .ok (t, stream')) : t.Lexed := by
  obtain ⟨⟨tokenString, s₁⟩, -, h⟩ := bind_eq_ok.mp h
  dsimp only at h
  split_ifs at h with hsymbol
  · cases h; exact ⟨hsymbol.2, nofun⟩
  all_goals cases h <;> exact ⟨rfl, nofun⟩

theorem readTokenAt_lexed {functions : String → Option ExpressionFunction} {state : LexerState}
    {character : Char} {stream stream' : LexerStream} {t : ExpressionToken}
    (h : readTokenAt tables functions state character stream = .ok (t, stream')) : t.Lexed := by
  unfold readTokenAt at h
  split_ifs at h
  · obtain ⟨x, rfl⟩ := readNumeric_eq_ok tables h
    exact ⟨rfl, nofun⟩
  · cases h; exact ⟨rfl, nofun⟩
  · -- a bracketed variable
    obtain ⟨⟨value, completed, s₁⟩, -, h⟩ := bind_eq_ok.mp h
    dsimp only at h
    split at h
    · cases h
    · cases h; exact ⟨rfl, nofun⟩
  · exact readIdentifier_lexed tables h
  · -- a quoted string or time
    obtain ⟨⟨value, completed, s₁⟩, -, h⟩ := bind_eq_ok.mp h
    dsimp only at h
    split at h
    · cases h
    · split at h <;> cases h <;> exact ⟨rfl, nofun⟩
  · cases h; exact ⟨rfl, nofun⟩
  · cases h; exact ⟨rfl, nofun⟩
  · exact readSymbol_lexed tables h

theorem readTokenLoop_lexed {functions : String → Option ExpressionFunction}
    {state : LexerState} {t : ExpressionToken} {stream' : LexerStream} :
    ∀ {fuel : Nat} {stream : LexerStream},
      readTokenLoop tables functions state fuel stream = .ok (some t, stream') → t.Lexed
  | 0, _, h => nomatch h
  | fuel + 1, stream, h => by
    unfold readTokenLoop at h
    split at h
    · cases h
    · split at h
      · cases h
      · split at h
        · exact readTokenLoop_lexed h
        · obtain ⟨⟨t', s₁⟩, hread, h⟩ := map_eq_ok.mp h
          cases h
          exact readTokenAt_lexed tables hread

/-- The loop of `parseTokens` only appends tokens `readToken` returned. -/
theorem parseTokensLoop_lexed {functions : String → Option ExpressionFunction} :
    ∀ {fuel : Nat} {tokens tokens' : List ExpressionToken} {state : LexerState}
      {stream : LexerStream}, (∀ t ∈ tokens, t.Lexed) →
      parseTokensLoop tables functions fuel tokens state stream = .ok tokens' →
      ∀ t ∈ tokens', t.Lexed
  | 0, _, _, _, _, _, h => nomatch h
  | fuel + 1, tokens, tokens', state, stream, hlexed, h => by
    unfold parseTokensLoop at h
    split at h
    · cases h; exact hlexed
    · split at h
      · cases h
      · cases h; exact hlexed
      · rename_i token s₁ hread
        split at h
        · cases h
        · refine parseTokensLoop_lexed (fun t ht => ?_) h
          rcases List.mem_append.mp ht with ht | ht
          · exact hlexed t ht
          · rw [List.mem_singleton.mp ht]
            exact readTokenLoop_lexed tables hread

/-- Every token `parseTokens` returns is well typed, with a non-empty path if it is an
accessor. -/
theorem parseTokens_lexed {expression : String} {functions : String → Option ExpressionFunction}
    {tokens : List ExpressionToken} (h : parseTokens tables expression functions = .ok tokens) :
    ∀ t ∈ tokens, t.Lexed := by
  obtain ⟨tokens', hloop, h⟩ := bind_eq_ok.mp h
  obtain ⟨_, -, h⟩ := bind_eq_ok.mp h
  cases h
  exact parseTokensLoop_lexed tables (by simp) hloop

end Lexed

end Geval
