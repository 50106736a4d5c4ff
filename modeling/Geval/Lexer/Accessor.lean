import Geval.Core.Expression
import Geval.Result

/-!
# The accessor check of `readToken`

`readToken` reads a run of identifier characters; a run with a `.` is an accessor, whose
segments after the first name fields or methods, which must be exported. The check compares
the first rune of each such segment with its upper case (`unicode.ToUpper`): a segment passes
when `toUpper` keeps that rune. It keeps an upper-case letter, but also `_`, a digit, and the
rune 0 that `getFirstRune` gives an empty segment.

* `checkExported_eq_ok`: the check passes exactly when `toUpper` keeps the first rune of every
  segment.
* `readIdentifier_accessor_iff`: on a run with a `.`, the identifier branch returns the
  accessor of the run's segments, and nothing else, exactly when the run does not end in `.`
  and every segment after the first passes.
* `readToken_accepts_unexported_segments`: `x._y`, `x.1` and `x..Y` are read as accessors,
  while `x.y` is refused.
-/

namespace Geval

section Accessor

variable (tables : LexerTables)

/-- The check passes exactly when `toUpper` keeps the first rune of every segment; otherwise
it fails on the first segment where it does not. -/
theorem checkExported_eq_ok {tokenString : String} : ∀ {splits : List String},
    checkExported tables tokenString splits = .ok () ↔
      ∀ split ∈ splits, toUpper tables (getFirstRune split) = getFirstRune split
  | [] => by simp [checkExported]
  | split :: splits => by
    rw [checkExported, List.forall_mem_cons]
    by_cases h : toUpper tables (getFirstRune split) = getFirstRune split
    · simp only [h, ne_eq, not_true_eq_false, if_false, true_and]
      exact checkExported_eq_ok
    · simp [h]

/-- The identifier branch of `readToken` on a run with a `.`: what it returns, if anything, is
the accessor of the run's segments, and it returns exactly when the run does not end in `.`
and `toUpper` keeps the first rune of every segment after the first. -/
theorem readIdentifier_accessor_iff {functions : String → Option ExpressionFunction}
    {stream stream' : LexerStream} {tokenString : String}
    {r : ExpressionToken × LexerStream}
    (hread : readTokenUntilFalse stream (isVariableName tables) = .ok (tokenString, stream'))
    (hdot : '.' ∈ tokenString.toList) :
    readIdentifier tables functions stream = .ok r ↔
      r = (⟨.ACCESSOR, .strings (tokenString.splitOn ".")⟩, stream') ∧
        tokenString.toList.getLast? ≠ some '.' ∧
        ∀ split ∈ (tokenString.splitOn ".").drop 1,
          toUpper tables (getFirstRune split) = getFirstRune split := by
  simp only [readIdentifier, hread, ok_bind, hdot, if_true]
  split
  · rename_i hhang
    exact iff_of_false (fail_ne_ok _ _) fun h => h.2.1 hhang
  · rw [bind_eq_ok]
    constructor
    · rintro ⟨_, hcheck, hr⟩
      cases hr
      exact ⟨rfl, ‹_›, (checkExported_eq_ok tables).mp hcheck⟩
    · rintro ⟨rfl, -, hall⟩
      exact ⟨(), (checkExported_eq_ok tables).mpr hall, rfl⟩

end Accessor

/-- `x._y` read from its first letter: the run is the whole input, it has a `.`, and the
segment `_y` passes, so the identifier branch returns the accessor. -/
example :
    readIdentifier asciiTables (fun _ => none) ⟨"x._y".toList, 1⟩ =
      .ok (⟨.ACCESSOR, .strings ("x._y".splitOn ".")⟩, ⟨"x._y".toList, 4⟩) := by
  have hread : readTokenUntilFalse ⟨"x._y".toList, 1⟩ (isVariableName asciiTables) =
      .ok ("x._y", ⟨"x._y".toList, 4⟩) := rfl
  have hsegments : "x._y".splitOn "." = ["x", "_y"] := by with_unfolding_all rfl
  refine (readIdentifier_accessor_iff asciiTables hread (by decide)).mpr ⟨rfl, by decide, ?_⟩
  rw [hsegments]
  intro split hsplit
  rw [List.drop_one, List.tail_cons, List.mem_singleton] at hsplit
  subst hsplit
  rfl

/-- `x._y`, `x.1` and `x..Y` are read as accessors, with every lexer table and function table:
`toUpper` keeps `_`, `1`, and the rune 0 of the empty segment. `x.y` is refused. -/
theorem readToken_accepts_unexported_segments (tables : LexerTables)
    (functions : String → Option ExpressionFunction) :
    (readToken tables (newLexerStream "x._y") startState functions).map Prod.fst =
        .ok (some ⟨.ACCESSOR, .strings ["x", "_y"]⟩) ∧
      (readToken tables (newLexerStream "x.1") startState functions).map Prod.fst =
        .ok (some ⟨.ACCESSOR, .strings ["x", "1"]⟩) ∧
      (readToken tables (newLexerStream "x..Y") startState functions).map Prod.fst =
        .ok (some ⟨.ACCESSOR, .strings ["x", "", "Y"]⟩) ∧
      (readToken tables (newLexerStream "x.y") startState functions).map Prod.fst =
        fail "Unable to access unexported field 'y' in token 'x.y'" := by
  -- `String.splitOn` is defined by well-founded recursion, so the runs are unfolded in full
  with_unfolding_all exact ⟨rfl, rfl, rfl, rfl⟩

end Geval
