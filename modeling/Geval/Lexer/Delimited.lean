import Geval.Core.Expression
import Geval.Lexer.Read

/-!
# Delimited literals

A bracketed name `[…]` and a quoted literal `'…'` or `"…"` are read by `readUntilFalse`
with escaping on: a backslash makes the next character literal, and the first unescaped
character failing the condition ends the literal. So the lexer decodes an encoding that puts
a backslash before every character the condition rejects and before every backslash.

* `readUntilFalseLoop_escaped`: the loop reads an encoded text back and stops at the
  closing delimiter.
* `parseTokens_bracketed`: `[` + esc(s) + `]`, with `]` and `\` escaped, is the single
  variable `s`, for every `s`.
* `parseTokens_quoted`: a quoted literal is the single string (or time) `s` when both quote
  characters are escaped: the condition of quoted literals, `isNotQuote`, is shared by the
  two quotes.
* `parseTokens_unescaped_other_quote`: escaping only the closing quote is not enough:
  `'a"b'` ends the literal at `"` and fails.
-/

namespace Geval

/-- A backslash before every character `escaped` selects. -/
def escapeWith (escaped : Char → Bool) : List Char → List Char
  | [] => []
  | c :: cs => if escaped c then '\\' :: c :: escapeWith escaped cs else c :: escapeWith escaped cs

/-- The characters escaped inside a bracketed name: the closing bracket and the backslash. -/
def bracketEscaped (c : Char) : Bool := c = ']' || c = '\\'

/-- The characters escaped inside a quoted literal: both quotes and the backslash. -/
def quoteEscaped (c : Char) : Bool := c = '\'' || c = '"' || c = '\\'

theorem drop_eq_cons {source rest : List Char} {n : Nat} {c : Char}
    (h : source.drop n = c :: rest) : source[n]? = some c ∧ source.drop (n + 1) = rest := by
  rw [← List.head?_drop, ← List.tail_drop, h]
  exact ⟨rfl, rfl⟩

section Escaped

variable {condition escaped : Char → Bool} {source post : List Char} {close : Char}

/-- Reading an encoded text: with whitespace kept, the loop returns the decoded text and
stops at the closing delimiter, when every unescaped character passes the condition and is
no backslash, and the delimiter fails the condition. -/
theorem readUntilFalseLoop_escaped (hclose : condition close = false) (hback : close ≠ '\\') :
    ∀ (s : List Char) (i : Int) (buffer : List Char) (fuel : Nat), 0 ≤ i →
      source.drop i.toNat = escapeWith escaped s ++ close :: post →
      (escapeWith escaped s).length < fuel →
      (∀ c ∈ s, escaped c = false → c ≠ '\\' ∧ condition c) →
      readUntilFalseLoop true false true condition fuel buffer ⟨source, i⟩ =
        .ok (buffer ++ s, true, ⟨source, i + (escapeWith escaped s).length⟩)
  | [], i, buffer, fuel + 1, h0, hdrop, _, _ => by
    obtain ⟨hc, -⟩ := drop_eq_cons hdrop
    have hi : i < source.length := by have := (List.getElem?_eq_some_iff.mp hc).1; omega
    simp [readUntilFalseLoop, LexerStream.canRead_eq, hi, LexerStream.readCharacter_eq h0 hc,
      hback, hclose, escapeWith, LexerStream.rewind]
  | c :: cs, i, buffer, fuel + 1, h0, hdrop, hfuel, hs => by
    have hcs : ∀ c ∈ cs, escaped c = false → c ≠ '\\' ∧ condition c :=
      fun c' hc' => hs c' (List.mem_cons_of_mem c hc')
    by_cases he : escaped c
    · -- a backslash, then the escaped character itself
      simp only [escapeWith, he, if_true, List.cons_append] at hdrop hfuel
      obtain ⟨hb, hdrop⟩ := drop_eq_cons hdrop
      obtain ⟨hc, hdrop⟩ := drop_eq_cons hdrop
      have hi : i < source.length := by have := (List.getElem?_eq_some_iff.mp hb).1; omega
      have hi' : i + 1 < source.length := by have := (List.getElem?_eq_some_iff.mp hc).1; omega
      have ih := readUntilFalseLoop_escaped hclose hback cs (i + 1 + 1) (buffer ++ [c]) fuel
        (by omega) (by rwa [show (i + 1 + 1).toNat = i.toNat + 1 + 1 by omega])
        (by simp only [List.length_cons] at hfuel; omega) hcs
      simp only [readUntilFalseLoop, LexerStream.canRead_eq, hi, decide_True, Bool.not_true,
        Bool.false_eq_true, if_false, LexerStream.readCharacter_eq h0 hb, Bool.true_and,
        decide_True, if_true, LexerStream.readCharacter_eq (by omega)
          (by rwa [show (i + 1).toNat = i.toNat + 1 by omega] : source[(i + 1).toNat]? = some c),
        ih, escapeWith, he, List.length_cons, List.append_assoc, List.singleton_append]
      rw [show i + 1 + 1 + ((escapeWith escaped cs).length : Int) =
        i + (((escapeWith escaped cs).length + 1 + 1 : Nat) : Int) by omega]
    · -- an ordinary character, kept by the condition
      have he : escaped c = false := by simpa using he
      obtain ⟨hnb, hcond⟩ := hs c (List.mem_cons_self c cs) he
      simp only [escapeWith, he, Bool.false_eq_true, if_false, List.cons_append] at hdrop hfuel
      obtain ⟨hc, hdrop⟩ := drop_eq_cons hdrop
      have hi : i < source.length := by have := (List.getElem?_eq_some_iff.mp hc).1; omega
      have ih := readUntilFalseLoop_escaped hclose hback cs (i + 1) (buffer ++ [c]) fuel
        (by omega) (by rwa [show (i + 1).toNat = i.toNat + 1 by omega])
        (by simp only [List.length_cons] at hfuel; omega) hcs
      simp only [readUntilFalseLoop, LexerStream.canRead_eq, hi, decide_True, Bool.not_true,
        Bool.false_eq_true, if_false, LexerStream.readCharacter_eq h0 hc, hnb, decide_False,
        Bool.and_false, Bool.false_and, Bool.not_true, hcond, if_true, ih, escapeWith, he,
        List.length_cons, List.append_assoc, List.singleton_append]
      rw [show i + 1 + ((escapeWith escaped cs).length : Int) =
        i + (((escapeWith escaped cs).length + 1 : Nat) : Int) by omega]

/-- `readUntilFalse` on a delimited literal, from just after its opening character: the
decoded text, and the cursor at the closing delimiter. -/
theorem readUntilFalse_delimited {s : List Char} {o : Char} (hclose : condition close = false)
    (hback : close ≠ '\\') (hs : ∀ c ∈ s, escaped c = false → c ≠ '\\' ∧ condition c) :
    readUntilFalse ⟨o :: escapeWith escaped s ++ [close], 1⟩ true false true condition =
      .ok (String.mk s, true,
        ⟨o :: escapeWith escaped s ++ [close], (escapeWith escaped s).length + 1⟩) := by
  have hread : readUntilFalseLoop true false true condition
      ((o :: escapeWith escaped s ++ [close]).length + 1) []
      ⟨o :: escapeWith escaped s ++ [close], 1⟩ = _ :=
    readUntilFalseLoop_escaped hclose hback s 1 [] _ (by decide) rfl
      (by simp only [List.length_cons, List.length_append, List.length_singleton]; omega) hs
  rw [readUntilFalse, hread, Int.add_comm]
  rfl

end Escaped

/-- `parseTokens` on an input that is one token: the token, alone. -/
theorem parseTokens_single {tables : LexerTables} {functions : String → Option ExpressionFunction}
    {src : List Char} {token : ExpressionToken} {state : LexerState}
    (htoken : readToken tables ⟨src, 0⟩ startState functions =
      .ok (some token, ⟨src, src.length⟩))
    (hstate : getLexerStateForToken token.kind = .ok state)
    (hbalance : checkBalance [token] = .ok ()) :
    parseTokens tables (String.mk src) functions = .ok [token] := by
  obtain ⟨n, hn⟩ : ∃ n, src.length = n + 1 := by
    cases src with
    | nil => simp [readToken, readTokenLoop, LexerStream.canRead_eq] at htoken
    | cons c cs => exact ⟨cs.length, rfl⟩
  simp only [parseTokens, newLexerStream, String.length, String.toList, parseTokensLoop,
    LexerStream.canRead_eq, hn, htoken, hstate, List.nil_append]
  simp [parseTokensLoop, LexerStream.canRead_eq, hn, hbalance]

section Literals

variable (tables : LexerTables) (functions : String → Option ExpressionFunction)

/-- The token a quoted literal stands for: a time when `tryParseTime` parses its text, a
string otherwise. -/
def quotedToken (s : String) : ExpressionToken :=
  match tables.tryParseTime s with
  | some unix => ⟨.TIME, .time unix⟩
  | none => ⟨.STRING, .string s⟩

theorem readToken_bracketed (state : LexerState) (s : List Char) :
    readToken tables ⟨'[' :: escapeWith bracketEscaped s ++ [']'], 0⟩ state functions =
      .ok (some ⟨.VARIABLE, .string (String.mk s)⟩,
        ⟨'[' :: escapeWith bracketEscaped s ++ [']'],
          ('[' :: escapeWith bracketEscaped s ++ [']']).length⟩) := by
  have hread : readUntilFalse ⟨'[' :: escapeWith bracketEscaped s ++ [']'], 1⟩ true false true
      isNotClosingBracket = _ :=
    readUntilFalse_delimited rfl (by decide) fun c _ hc => by
      simp_all [bracketEscaped, isNotClosingBracket]
  have hlen : (('[' :: escapeWith bracketEscaped s ++ [']']).length : Int) =
      (escapeWith bracketEscaped s).length + 1 - -1 := by simp
  have h0 : ('[' :: escapeWith bracketEscaped s ++ [']'])[(0 : Int).toNat]? = some '[' := by simp
  generalize '[' :: escapeWith bracketEscaped s ++ [']'] = src at h0 hread hlen ⊢
  have hpos : (0 : Int) < src.length := by omega
  simp only [readToken, readTokenLoop, LexerStream.canRead_eq, hpos, decide_True, Bool.not_true,
    Bool.false_eq_true, if_false, LexerStream.readCharacter_eq (Int.le_refl 0) h0,
    show isSpace '[' = false from rfl, readTokenAt, show isNumeric tables '[' = false from rfl,
    show ('[' : Char) ≠ ',' by decide, if_true, Int.zero_add, hread, Except.map, ok_bind,
    pure_eq_ok, LexerStream.rewind]
  rw [hlen]

theorem readToken_quoted (state : LexerState) {q : Char} (hq : q = '\'' ∨ q = '"')
    (s : List Char) :
    readToken tables ⟨q :: escapeWith quoteEscaped s ++ [q], 0⟩ state functions =
      .ok (some (quotedToken tables (String.mk s)),
        ⟨q :: escapeWith quoteEscaped s ++ [q], (q :: escapeWith quoteEscaped s ++ [q]).length⟩) := by
  -- a quote takes the quoted-literal branch of `readTokenAt`
  obtain ⟨hspace, hnumeric, hcomma, hbracket, hletter, hquote⟩ : isSpace q = false ∧
      isNumeric tables q = false ∧ q ≠ ',' ∧ q ≠ '[' ∧ isLetter tables q = false ∧
      isNotQuote q = false := by
    rcases hq with rfl | rfl <;> exact ⟨rfl, rfl, by decide, by decide, rfl, rfl⟩
  have hread : readUntilFalse ⟨q :: escapeWith quoteEscaped s ++ [q], 1⟩ true false true
      isNotQuote = _ :=
    readUntilFalse_delimited hquote (by rcases hq with rfl | rfl <;> decide) fun c _ hc => by
      simp_all [quoteEscaped, isNotQuote]
  have hlen : ((q :: escapeWith quoteEscaped s ++ [q]).length : Int) =
      (escapeWith quoteEscaped s).length + 1 - -1 := by simp
  have h0 : (q :: escapeWith quoteEscaped s ++ [q])[(0 : Int).toNat]? = some q := by simp
  generalize q :: escapeWith quoteEscaped s ++ [q] = src at h0 hread hlen ⊢
  have hpos : (0 : Int) < src.length := by omega
  simp only [readToken, readTokenLoop, LexerStream.canRead_eq, hpos, decide_True, Bool.not_true,
    Bool.false_eq_true, if_false, LexerStream.readCharacter_eq (Int.le_refl 0) h0, hspace,
    readTokenAt, hnumeric, hcomma, hbracket, hletter, hquote, Bool.not_false, if_true,
    Int.zero_add, hread, Except.map, ok_bind, LexerStream.rewind, quotedToken]
  rw [hlen]
  rcases tables.tryParseTime (String.mk s) with _ | unix <;> rfl

/-- The bracket law: `[` + esc(s) + `]`, with `]` and `\` escaped, lexes to the single
variable `s`, for every `s`. -/
theorem parseTokens_bracketed (s : String) :
    parseTokens tables (String.mk ('[' :: escapeWith bracketEscaped s.toList ++ [']'])) functions =
      .ok [⟨.VARIABLE, .string s⟩] :=
  parseTokens_single (readToken_bracketed tables functions startState s.toList) rfl rfl

/-- The quote law, with both quote characters and `\` escaped: a quoted literal lexes to the
single string or time `s`, for every `s` and either quote. -/
theorem parseTokens_quoted {q : Char} (hq : q = '\'' ∨ q = '"') (s : String) :
    parseTokens tables (String.mk (q :: escapeWith quoteEscaped s.toList ++ [q])) functions =
      .ok [quotedToken tables s] := by
  obtain ⟨state, hstate, hbalance⟩ : ∃ state, getLexerStateForToken (quotedToken tables s).kind =
      .ok state ∧ checkBalance [quotedToken tables s] = .ok () := by
    unfold quotedToken
    split <;> exact ⟨_, rfl, rfl⟩
  exact parseTokens_single (readToken_quoted tables functions startState hq s.toList) hstate
    hbalance

/-- `'abc'`, in single quotes, is the string `abc`. -/
theorem parseTokens_quoted_abc :
    ('\'' = '\'' ∨ '\'' = '"') ∧
      parseTokens asciiTables (String.mk ('\'' :: escapeWith quoteEscaped "abc".toList ++ ['\'']))
        (fun _ => none) = .ok [quotedToken asciiTables "abc"] :=
  ⟨.inl rfl, parseTokens_quoted asciiTables (fun _ => none) (.inl rfl) "abc"⟩

end Literals

/-- Escaping only the closing quote and the backslash is not enough: `'a"b'` ends the
literal at the unescaped `"`, and the rest `b'` opens a literal that is never closed. -/
theorem parseTokens_unescaped_other_quote :
    parseTokens asciiTables
        (String.mk ('\'' :: escapeWith (fun c => c = '\'' || c = '\\') "a\"b".toList ++ ['\'']))
        (fun _ => none) =
      fail "Unclosed string literal" :=
  rfl

end Geval
