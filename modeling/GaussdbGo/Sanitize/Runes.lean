import GaussdbGo.Sanitize.Lexer

/-!
# internal/sanitize — the lexer on valid text, rune by rune

On valid UTF-8 every `DecodeRuneInString` of the lexer decodes a whole
rune, so a pass of a state function is decided by the state, the comment
depth, the rune it reads and the rune after it. `passRunes` is that
decision: how many runes the pass takes, the state it moves to and the
depth. `pass_runes` says the byte-level pass is it, for every state other
than `placeholderState` and every rune other than a `$` before a digit;
those and the end of the input have lemmas of their own.
-/

namespace GaussdbGo.Sanitize

open GoStd.Utf8

/-- `'0' <= r && r <= '9'`. -/
def IsDigit (c : Char) : Prop := 48 ≤ c.toNat ∧ c.toNat ≤ 57

instance (c : Char) : Decidable (IsDigit c) := inferInstanceAs (Decidable (_ ∧ _))

/-- The rune after the `$`, when it is a digit: a placeholder starts. -/
def StartsWithDigit (cs : List Char) : Prop := ∃ d, cs.head? = some d ∧ IsDigit d

instance (cs : List Char) : Decidable (StartsWithDigit cs) :=
  match cs with
  | [] => isFalse (by simp [StartsWithDigit])
  | c :: _ => decidable_of_iff (IsDigit c) (by simp [StartsWithDigit])

/-- A pass of `singleQuoteState` or `doubleQuoteState` in state `st`. -/
def quoteRunes (st : LexState) (quote : Char) (nested : Nat) (c : Char) (next : Option Char) :
    Nat × LexState × Nat :=
  if c = quote then
    if next = some quote then (2, st, nested) else (1, .raw, nested)
  else (1, st, nested)

/-- One pass on valid text, in a state other than `placeholderState`, reading
`c` with `next` after it: the runes taken, the next state and the comment
depth. -/
def passRunes (st : LexState) (nested : Nat) (c : Char) (next : Option Char) :
    Nat × LexState × Nat :=
  match st with
  | .raw =>
    if c = 'e' ∨ c = 'E' then
      if next = some '\'' then (2, .escapeString, nested) else (1, .raw, nested)
    else if c = '\'' then (1, .singleQuote, nested)
    else if c = '"' then (1, .doubleQuote, nested)
    else if c = '-' then
      if next = some '-' then (2, .oneLineComment, nested) else (1, .raw, nested)
    else if c = '/' then
      if next = some '*' then (2, .multilineComment, nested) else (1, .raw, nested)
    else (1, .raw, nested)
  | .singleQuote => quoteRunes .singleQuote '\'' nested c next
  | .doubleQuote => quoteRunes .doubleQuote '"' nested c next
  | .escapeString =>
    if c = '\\' then (2, .escapeString, nested)
    else if c = '\'' then
      if next = some '\'' then (2, .escapeString, nested) else (1, .raw, nested)
    else (1, .escapeString, nested)
  | .oneLineComment =>
    if c = '\\' then (2, .oneLineComment, nested)
    else if c = '\n' ∨ c = '\r' then (1, .raw, nested)
    else (1, .oneLineComment, nested)
  | .multilineComment =>
    if c = '/' then
      if next = some '*' then (2, .multilineComment, nested + 1) else (1, .multilineComment, nested)
    else if c = '*' then
      if next = some '/' then
        if nested = 0 then (2, .raw, nested) else (2, .multilineComment, nested - 1)
      else (1, .multilineComment, nested)
    else (1, .multilineComment, nested)
  | .placeholder => (1, .placeholder, nested)

/-- The rune at the head of valid text and its width; the end of the input
reads as `(RuneError, 0)`. -/
def peek : List Char → Nat × Nat
  | [] => (RuneError, 0)
  | c :: _ => (c.toNat, (encodeRune c).length)

theorem decodeRune_encodeString (cs : List Char) : decodeRune (encodeString cs) = peek cs := by
  cases cs with
  | nil => rfl
  | cons c cs => simpa [peek] using decodeRune_encodeRune c (encodeString cs)

theorem toNat_eq_runeError {c : Char} : c.toNat = RuneError ↔ c = '�' := by
  rw [show RuneError = '�'.toNat from rfl, Char.toNat_inj]

theorem length_encodeRune_replacement :
    (encodeRune '�').length = replacementcharacterwidth := by
  decide

/-! ## What a pass on valid text decides -/

/-- Only a multi-line comment is ever nested. -/
def DepthOK (st : LexState) (n : Nat) : Prop := st = .multilineComment ∨ n = 0

/-- A `rawState` pass on a rune that starts nothing and is not a `-` before
a `-`, with no quote after it: it takes the one rune. -/
theorem passRunes_raw_plain {n : Nat} {c : Char} {next : Option Char} (h₁ : c ≠ '\'')
    (h₂ : c ≠ '"') (h₃ : c ≠ '/') (hn : next ≠ some '\'') (hdash : c = '-' → next ≠ some '-') :
    passRunes .raw n c next = (1, .raw, n) := by
  simp only [passRunes]
  split_ifs <;> simp_all

/-- A space in `rawState` is taken alone. -/
theorem passRunes_raw_space (n : Nat) (next : Option Char) :
    passRunes .raw n ' ' next = (1, .raw, n) := by
  simp [passRunes]

/-- A quote in `rawState` opens a literal. -/
theorem passRunes_raw_quote (n : Nat) (next : Option Char) :
    passRunes .raw n '\'' next = (1, .singleQuote, n) := by
  simp [passRunes]

/-- Inside a quote, a rune other than the quote is taken alone. -/
theorem quoteRunes_other {st : LexState} {quote c : Char} {n : Nat} {next : Option Char}
    (h : c ≠ quote) : quoteRunes st quote n c next = (1, st, n) := by
  simp [quoteRunes, h]

/-- Inside a quote, a doubled quote is taken as one. -/
theorem quoteRunes_doubled {st : LexState} {quote : Char} {n : Nat} :
    quoteRunes st quote n quote (some quote) = (2, st, n) := by
  simp [quoteRunes]

/-- Inside a quote, a quote before anything else closes it. -/
theorem quoteRunes_close {st : LexState} {quote : Char} {n : Nat} {next : Option Char}
    (h : next ≠ some quote) : quoteRunes st quote n quote next = (1, .raw, n) := by
  simp [quoteRunes, h]

namespace SqlLexer

/-- The lexer after a pass that took the first `p.1` runes of its valid input
`cs` and moved to state `p.2.1` at depth `p.2.2`. -/
def took (l : SqlLexer) (cs : List Char) (p : Nat × LexState × Nat) : SqlLexer :=
  { l.advance (encodeString (cs.take p.1)).length with stateFn := some p.2.1, nested := p.2.2 }

theorem decodeRune_rest {l : SqlLexer} {c : Char} {cs : List Char}
    (hr : l.rest = encodeString (c :: cs)) : decodeRune l.rest = (c.toNat, (encodeRune c).length) := by
  rw [hr, encodeString_cons]; exact decodeRune_encodeRune c _

theorem advance_rest_tail {l : SqlLexer} {c : Char} {cs : List Char}
    (hr : l.rest = encodeString (c :: cs)) : (l.advance (encodeRune c).length).rest = encodeString cs := by
  simp [hr]

@[simp] theorem advance_zero (l : SqlLexer) : l.advance 0 = l := by
  simp [advance]

@[simp] theorem took_stateFn (l : SqlLexer) (cs : List Char) (p : Nat × LexState × Nat) :
    (l.took cs p).stateFn = some p.2.1 := rfl

@[simp] theorem took_nested (l : SqlLexer) (cs : List Char) (p : Nat × LexState × Nat) :
    (l.took cs p).nested = p.2.2 := rfl

@[simp] theorem took_parts (l : SqlLexer) (cs : List Char) (p : Nat × LexState × Nat) :
    (l.took cs p).parts = l.parts := rfl

theorem took_rest {l : SqlLexer} {cs : List Char} (hr : l.rest = encodeString cs)
    (p : Nat × LexState × Nat) : (l.took cs p).rest = encodeString (cs.drop p.1) := by
  have hs : l.rest = encodeString (cs.take p.1) ++ encodeString (cs.drop p.1) := by
    rw [hr, ← encodeString_append, List.take_append_drop]
  simp only [took, advance_rest, hs, List.drop_left]

@[simp] theorem runeError_replacement (l : SqlLexer) :
    l.runeError (encodeRune '�').length = l := by
  simp [runeError, length_encodeRune_replacement]

/-- `rawState` on valid text, away from a placeholder. -/
theorem rawState_runes {l : SqlLexer} {c : Char} {cs : List Char} (hs : l.stateFn = some .raw)
    (hr : l.rest = encodeString (c :: cs)) (hd : ¬ (c = '$' ∧ StartsWithDigit cs)) :
    l.rawState = l.took (c :: cs) (passRunes .raw l.nested c cs.head?) := by
  simp only [rawState, decodeRune_rest hr, advance_rest_tail hr, decodeRune_encodeString, code, Char.toNat_inj, toNat_eq_runeError]
  cases cs with
  | nil =>
    simp +decide only [peek, passRunes, took, if_false, RuneError]
    split_ifs
    all_goals simp_all [advance]
  | cons c' cs' =>
    -- a `$` before a digit is excluded: it starts a placeholder
    have hd' : c = '$' → c'.toNat < '0'.toNat ∨ '9'.toNat < c'.toNat := by
      intro h
      simp only [StartsWithDigit, IsDigit, List.head?, Option.some.injEq, exists_eq_left', h,
        true_and] at hd
      have h0 : '0'.toNat = 48 := rfl
      have h9 : '9'.toNat = 57 := rfl
      omega
    simp only [peek, passRunes, took, List.head?, Option.some.injEq, Char.toNat_inj]
    split_ifs
    all_goals first
      | (simp_all [advance, List.take_add]; done)
      | (have hlt := hd' ‹_›; omega)

/-- A quote state on valid text. -/
theorem quoteState_runes {l : SqlLexer} {st : LexState} {quote c : Char} {cs : List Char}
    (hq : quote ≠ '�') (hs : l.stateFn = some st) (hr : l.rest = encodeString (c :: cs)) :
    l.quoteState quote = l.took (c :: cs) (quoteRunes st quote l.nested c cs.head?) := by
  have hq' : RuneError ≠ quote.toNat := fun h => hq (toNat_eq_runeError.mp h.symm)
  simp only [quoteState, decodeRune_rest hr, advance_rest_tail hr, decodeRune_encodeString, code, Char.toNat_inj, toNat_eq_runeError]
  cases cs with
  | nil =>
    simp only [peek, quoteRunes, took]
    split_ifs
    all_goals simp_all [advance]
  | cons c' cs' =>
    simp only [peek, quoteRunes, took, List.head?, Option.some.injEq, Char.toNat_inj, ne_eq]
    split_ifs
    all_goals simp_all [advance, List.take_add]

theorem singleQuoteState_runes {l : SqlLexer} {c : Char} {cs : List Char}
    (hs : l.stateFn = some .singleQuote) (hr : l.rest = encodeString (c :: cs)) :
    l.singleQuoteState = l.took (c :: cs) (passRunes .singleQuote l.nested c cs.head?) :=
  quoteState_runes (by decide) hs hr

theorem doubleQuoteState_runes {l : SqlLexer} {c : Char} {cs : List Char}
    (hs : l.stateFn = some .doubleQuote) (hr : l.rest = encodeString (c :: cs)) :
    l.doubleQuoteState = l.took (c :: cs) (passRunes .doubleQuote l.nested c cs.head?) :=
  quoteState_runes (by decide) hs hr

theorem escapeStringState_runes {l : SqlLexer} {c : Char} {cs : List Char}
    (hs : l.stateFn = some .escapeString) (hr : l.rest = encodeString (c :: cs)) :
    l.escapeStringState = l.took (c :: cs) (passRunes .escapeString l.nested c cs.head?) := by
  simp only [escapeStringState, decodeRune_rest hr, advance_rest_tail hr, decodeRune_encodeString, code, Char.toNat_inj,
    toNat_eq_runeError]
  cases cs with
  | nil =>
    simp +decide only [peek, passRunes, took, if_false, RuneError]
    split_ifs
    all_goals simp_all [advance]
  | cons c' cs' =>
    simp only [peek, passRunes, took, List.head?, Option.some.injEq, Char.toNat_inj, ne_eq]
    split_ifs
    all_goals simp_all [advance, List.take_add]

theorem oneLineCommentState_runes {l : SqlLexer} {c : Char} {cs : List Char}
    (hs : l.stateFn = some .oneLineComment) (hr : l.rest = encodeString (c :: cs)) :
    l.oneLineCommentState = l.took (c :: cs) (passRunes .oneLineComment l.nested c cs.head?) := by
  simp only [oneLineCommentState, decodeRune_rest hr, advance_rest_tail hr, decodeRune_encodeString, code, Char.toNat_inj,
    toNat_eq_runeError]
  cases cs with
  | nil =>
    simp +decide only [peek, passRunes, took, RuneError]
    split_ifs
    all_goals simp_all [advance]
  | cons c' cs' =>
    simp only [peek, passRunes, took]
    split_ifs
    all_goals simp_all [advance, List.take_add]

theorem multilineCommentState_runes {l : SqlLexer} {c : Char} {cs : List Char}
    (hs : l.stateFn = some .multilineComment) (hr : l.rest = encodeString (c :: cs)) :
    l.multilineCommentState =
      l.took (c :: cs) (passRunes .multilineComment l.nested c cs.head?) := by
  simp only [multilineCommentState, decodeRune_rest hr, advance_rest_tail hr, decodeRune_encodeString, code, Char.toNat_inj,
    toNat_eq_runeError]
  cases cs with
  | nil =>
    simp +decide only [peek, passRunes, took, if_false, RuneError]
    split_ifs
    all_goals simp_all [advance]
  | cons c' cs' =>
    simp only [peek, passRunes, took, List.head?, Option.some.injEq, Char.toNat_inj, ne_eq]
    split_ifs
    all_goals simp_all [advance, List.take_add]

/-- `rawState` at a `$` before a digit: the text before it becomes a part,
empty or not (`l.pos-l.start` counts the `$`), and a placeholder starts. -/
theorem rawState_dollar {l : SqlLexer} {d : Char} {cs : List Char}
    (hr : l.rest = encodeString ('$' :: d :: cs)) (hd : IsDigit d) :
    l.rawState = { l with
      pending := [], rest := encodeString (d :: cs), parts := l.parts ++ [.text l.pending],
      stateFn := some .placeholder, num := 0 } := by
  have hd' : '0'.toNat ≤ d.toNat ∧ d.toNat ≤ '9'.toNat := hd
  have h36 : encodeRune '$' = [36] := by decide
  simp only [rawState, decodeRune_rest hr, advance_rest_tail hr, decodeRune_encodeString, peek, hd',
    code, and_self, if_true]
  simp +decide [advance, hr, h36]

/-- `placeholderState` at a digit: it is added to `num`. -/
theorem placeholderState_digit {l : SqlLexer} {d : Char} {cs : List Char}
    (hr : l.rest = encodeString (d :: cs)) (hd : IsDigit d) :
    l.placeholderState = { l with
      pending := l.pending ++ encodeRune d, rest := encodeString cs,
      num := l.num * 10 + Int64.ofNat (d.toNat - '0'.toNat) } := by
  have hd' : '0'.toNat ≤ d.toNat ∧ d.toNat ≤ '9'.toNat := hd
  simp only [placeholderState, decodeRune_rest hr, code, hd', and_self, if_true]
  simp [advance, hr]

/-- `placeholderState` at anything but a digit, the end of the input included:
the number becomes a part. -/
theorem placeholderState_exit {l : SqlLexer} {cs : List Char} (hr : l.rest = encodeString cs)
    (hd : ¬ StartsWithDigit cs) :
    l.placeholderState =
      { l with parts := l.parts ++ [.arg l.num], pending := [], stateFn := some .raw } := by
  have hnd : ¬ ('0'.toNat ≤ (peek cs).1 ∧ (peek cs).1 ≤ '9'.toNat) := by
    cases cs with
    | nil => decide
    | cons c cs => simpa [peek, StartsWithDigit, IsDigit] using hd
  simp only [placeholderState, hr, decodeRune_encodeString, code]
  rw [if_neg hnd]

/-- A pass of a state other than `placeholderState`, on valid text and away
from a placeholder, is `passRunes`. -/
theorem pass_runes {l : SqlLexer} {st : LexState} {c : Char} {cs : List Char}
    (hs : l.stateFn = some st) (hst : st ≠ .placeholder) (hr : l.rest = encodeString (c :: cs))
    (hd : ¬ (st = .raw ∧ c = '$' ∧ StartsWithDigit cs)) :
    l.pass = l.took (c :: cs) (passRunes st l.nested c cs.head?) := by
  unfold pass
  rw [hs]
  cases st with
  | raw => exact rawState_runes hs hr (fun h => hd ⟨rfl, h⟩)
  | singleQuote => exact singleQuoteState_runes hs hr
  | doubleQuote => exact doubleQuoteState_runes hs hr
  | escapeString => exact escapeStringState_runes hs hr
  | oneLineComment => exact oneLineCommentState_runes hs hr
  | multilineComment => exact multilineCommentState_runes hs hr
  | placeholder => exact absurd rfl hst

/-- At the end of the input every state but `placeholderState` stops. -/
theorem pass_eof {l : SqlLexer} {st : LexState} (hs : l.stateFn = some st)
    (hst : st ≠ .placeholder) (hr : l.rest = []) : l.pass = l.halt := by
  have hd : decodeRune l.rest = (RuneError, 0) := by rw [hr]; rfl
  unfold pass
  rw [hs]
  cases st with
  | raw => simp +decide [rawState, hd, code, RuneError, runeError, replacementcharacterwidth]
  | singleQuote =>
    simp +decide [singleQuoteState, quoteState, hd, code, RuneError, runeError,
      replacementcharacterwidth]
  | doubleQuote =>
    simp +decide [doubleQuoteState, quoteState, hd, code, RuneError, runeError,
      replacementcharacterwidth]
  | escapeString =>
    simp +decide [escapeStringState, hd, code, RuneError, runeError, replacementcharacterwidth]
  | oneLineComment =>
    simp +decide [oneLineCommentState, hd, code, RuneError, runeError, replacementcharacterwidth]
  | multilineComment =>
    simp +decide [multilineCommentState, hd, code, RuneError, runeError,
      replacementcharacterwidth]
  | placeholder => exact absurd rfl hst

end SqlLexer

end GaussdbGo.Sanitize
