import Geval.Core.Lexer
import Geval.Result

/-!
# Where the lexer reads

`readUntilFalse` checks `canRead` before every character it reads but one: after a
backslash it reads the escaped character unconditionally. That read is the only one that
can leave the input.

* `readUntilFalseLoop_fault`: from any position inside the input, with the fuel
  `readUntilFalse` gives it, the loop either returns or reads one past the end after a
  backslash that is the last character of the input.
* `parseTokens_trailing_escape`: `'\` (a quote and a backslash) makes `parseTokens` read
  past the end of its input, for every function table.
-/

namespace Geval

namespace LexerStream

variable {source : List Char} {i : Int}

theorem readCharacter_eq {c : Char} (h0 : 0 ≤ i) (hc : source[i.toNat]? = some c) :
    (⟨source, i⟩ : LexerStream).readCharacter = .ok (c, ⟨source, i + 1⟩) := by
  simp [readCharacter, hc, h0]

theorem readCharacter_of_le (h : source.length ≤ i) :
    (⟨source, i⟩ : LexerStream).readCharacter = .error (.indexOutOfRange i) := by
  simp [readCharacter, List.getElem?_eq_none (by omega : source.length ≤ i.toNat)]

theorem canRead_eq : (⟨source, i⟩ : LexerStream).canRead = decide (i < source.length) := rfl

theorem exists_getElem?_toNat (h0 : 0 ≤ i) (h : i < source.length) :
    ∃ c, source[i.toNat]? = some c :=
  ⟨source[i.toNat], List.getElem?_eq_getElem (by omega)⟩

end LexerStream

section Loop

variable {includeWhitespace breakWhitespace allowEscaping : Bool}
  {condition : Char → Bool} {source : List Char}

/-- The reading loop faults only by reading past the end after a final backslash: every
other read is guarded by `canRead`, and the fuel covers the characters left. -/
theorem readUntilFalseLoop_fault : ∀ (fuel : Nat) (buffer : List Char) (i : Int) (f : Fault),
    0 ≤ i → i ≤ source.length → source.length - i < fuel →
    readUntilFalseLoop includeWhitespace breakWhitespace allowEscaping condition fuel buffer
      ⟨source, i⟩ = .error f →
    f = .indexOutOfRange source.length ∧ allowEscaping ∧ source.getLast? = some '\\'
  | 0, _, i, _, _, hi, hfuel, _ => absurd hfuel (by omega)
  | fuel + 1, buffer, i, f, h0, hi, hfuel, h => by
    rw [readUntilFalseLoop, LexerStream.canRead_eq] at h
    by_cases hn : i < source.length
    · obtain ⟨c, hc⟩ := LexerStream.exists_getElem?_toNat h0 hn
      simp only [hn, decide_True, Bool.not_true, Bool.false_eq_true, if_false,
        LexerStream.readCharacter_eq h0 hc] at h
      -- the reads after the first character of the step
      have hnext : ∀ buffer', readUntilFalseLoop includeWhitespace breakWhitespace allowEscaping
          condition fuel buffer' ⟨source, i + 1⟩ = .error f →
          f = .indexOutOfRange source.length ∧ allowEscaping ∧ source.getLast? = some '\\' :=
        fun buffer' => readUntilFalseLoop_fault fuel buffer' (i + 1) f (by omega) (by omega)
          (by omega)
      split at h
      · rename_i hescape
        by_cases hm : i + 1 < source.length
        · obtain ⟨c', hc'⟩ := LexerStream.exists_getElem?_toNat (by omega) hm
          simp only [LexerStream.readCharacter_eq (by omega) hc'] at h
          exact readUntilFalseLoop_fault fuel _ (i + 1 + 1) f (by omega) (by omega) (by omega) h
        · -- the escaped character would be past the end: the backslash was the last one
          simp only [LexerStream.readCharacter_of_le (by omega : source.length ≤ i + 1)] at h
          cases h
          simp only [Bool.and_eq_true, decide_eq_true_eq] at hescape
          refine ⟨by congr 1; omega, hescape.1, ?_⟩
          rw [List.getLast?_eq_getElem?, show source.length - 1 = i.toNat by omega, hc,
            hescape.2]
      · split at h
        · cases h
        · split at h
          · exact hnext _ h
          · split at h
            · exact hnext _ h
            · cases h
    · simp only [hn, decide_False, Bool.not_false, if_true] at h
      cases h

end Loop

/-- `'\`: the string literal's backslash is the last character, and the escaped character
is read at position 2, past the end of the input. -/
theorem parseTokens_trailing_escape (tables : LexerTables)
    (functions : String → Option ExpressionFunction) :
    parseTokens tables "'\\" functions = .error (.indexOutOfRange 2) :=
  rfl

end Geval
