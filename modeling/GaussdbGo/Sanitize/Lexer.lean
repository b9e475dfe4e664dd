import GaussdbGo.Lib.Utf8

/-!
# internal/sanitize — the SQL lexer

`Query.init` splits a statement into raw text and `$n` placeholders by
running a state machine over its runes: the state functions `rawState`,
`singleQuoteState`, `doubleQuoteState`, `escapeStringState`,
`placeholderState`, `oneLineCommentState` and `multilineCommentState`, each a
`for` loop that reads one rune per pass and returns the next state function,
or `nil` to stop.

The model runs one pass of a state's loop per `pass`, and stays in the same
state where the Go loop goes round again; `run` is the `for l.stateFn != nil`
loop of `init`. Only two slices of the source are ever used, `l.src[l.pos:]`
(what is left to read) and `l.src[l.start:l.pos]` (the text since the last
part), so the lexer keeps those two instead of the indices: `rest` and
`pending`. `placeholderState`'s local `num` is kept as a field.

Each pass stops at the end of the input, and at a byte that does not start a
rune (`RuneError` of width other than 3): the text read so far becomes the
last part and whatever follows is dropped.
-/

namespace GaussdbGo.Sanitize

open GoStd.Utf8

/-- A byte string. -/
abbrev Bytes := List UInt8

/-- The lexer's state functions. -/
inductive LexState where
  | raw
  | singleQuote
  | doubleQuote
  | escapeString
  | placeholder
  | oneLineComment
  | multilineComment
  deriving DecidableEq, Repr

/-- A `Part`: raw SQL, or a placeholder's argument number. -/
inductive Part where
  | text (s : Bytes)
  | arg (n : Int64)
  deriving DecidableEq, Repr

/-- `replacementcharacterwidth`: a `RuneError` of this width is a literal
U+FFFD in the text, not an error. -/
def replacementcharacterwidth : Nat := 3

/-- An `sqlLexer`. -/
structure SqlLexer where
  /-- `l.src[l.start:l.pos]` -/
  pending : Bytes
  /-- `l.src[l.pos:]` -/
  rest : Bytes
  nested : Nat
  stateFn : Option LexState
  parts : List Part
  /-- the `num` of the running `placeholderState` -/
  num : Int64
  deriving DecidableEq, Repr

namespace SqlLexer

/-- `l.pos += width`. -/
def advance (l : SqlLexer) (width : Nat) : SqlLexer :=
  { l with pending := l.pending ++ l.rest.take width, rest := l.rest.drop width }

/-- The code of a character, for comparing it with a decoded rune. -/
abbrev code (c : Char) : Nat := c.toNat

/-- The `case utf8.RuneError` every state has: stop, keeping the text read
since the last part when there is any. -/
def halt (l : SqlLexer) : SqlLexer :=
  let l := if 0 < l.pending.length then { l with parts := l.parts ++ [.text l.pending], pending := [] }
    else l
  { l with stateFn := none }

/-- `case utf8.RuneError: if width != replacementcharacterwidth { ... return nil }`. -/
def runeError (l : SqlLexer) (width : Nat) : SqlLexer :=
  if width ≠ replacementcharacterwidth then l.halt else l

/-- One pass of `rawState`. -/
def rawState (l : SqlLexer) : SqlLexer :=
  let (r, width) := decodeRune l.rest
  let l := l.advance width
  if r = code 'e' ∨ r = code 'E' then
    let (nextRune, width) := decodeRune l.rest
    if nextRune = code '\'' then { l.advance width with stateFn := some .escapeString } else l
  else if r = code '\'' then { l with stateFn := some .singleQuote }
  else if r = code '"' then { l with stateFn := some .doubleQuote }
  else if r = code '$' then
    let (nextRune, _) := decodeRune l.rest
    if code '0' ≤ nextRune ∧ nextRune ≤ code '9' then
      -- `l.src[l.start:l.pos-width]`: the text before the `$`
      let l := if 0 < l.pending.length then
          { l with parts := l.parts ++ [.text (l.pending.take (l.pending.length - width))] }
        else l
      { l with pending := [], stateFn := some .placeholder, num := 0 }
    else l
  else if r = code '-' then
    let (nextRune, width) := decodeRune l.rest
    if nextRune = code '-' then { l.advance width with stateFn := some .oneLineComment } else l
  else if r = code '/' then
    let (nextRune, width) := decodeRune l.rest
    if nextRune = code '*' then { l.advance width with stateFn := some .multilineComment } else l
  else if r = RuneError then l.runeError width
  else l

/-- One pass of `singleQuoteState` (`quote = '\''`) or `doubleQuoteState`
(`quote = '"'`): a doubled quote stays inside. -/
def quoteState (quote : Char) (l : SqlLexer) : SqlLexer :=
  let (r, width) := decodeRune l.rest
  let l := l.advance width
  if r = code quote then
    let (nextRune, width) := decodeRune l.rest
    if nextRune ≠ code quote then { l with stateFn := some .raw } else l.advance width
  else if r = RuneError then l.runeError width
  else l

/-- One pass of `singleQuoteState`. -/
def singleQuoteState (l : SqlLexer) : SqlLexer := quoteState '\'' l

/-- One pass of `doubleQuoteState`. -/
def doubleQuoteState (l : SqlLexer) : SqlLexer := quoteState '"' l

/-- One pass of `placeholderState`: a digit is added to `num`; anything else
is put back, and `num` becomes a part. -/
def placeholderState (l : SqlLexer) : SqlLexer :=
  let (r, width) := decodeRune l.rest
  if code '0' ≤ r ∧ r ≤ code '9' then
    { l.advance width with num := l.num * 10 + Int64.ofNat (r - code '0') }
  else
    -- `l.pos -= width; l.start = l.pos`
    { l with parts := l.parts ++ [.arg l.num], pending := [], stateFn := some .raw }

/-- One pass of `escapeStringState`: a backslash takes the next rune with it. -/
def escapeStringState (l : SqlLexer) : SqlLexer :=
  let (r, width) := decodeRune l.rest
  let l := l.advance width
  if r = code '\\' then l.advance (decodeRune l.rest).2
  else if r = code '\'' then
    let (nextRune, width) := decodeRune l.rest
    if nextRune ≠ code '\'' then { l with stateFn := some .raw } else l.advance width
  else if r = RuneError then l.runeError width
  else l

/-- One pass of `oneLineCommentState`. -/
def oneLineCommentState (l : SqlLexer) : SqlLexer :=
  let (r, width) := decodeRune l.rest
  let l := l.advance width
  if r = code '\\' then l.advance (decodeRune l.rest).2
  else if r = code '\n' ∨ r = code '\r' then { l with stateFn := some .raw }
  else if r = RuneError then l.runeError width
  else l

/-- One pass of `multilineCommentState`: comments nest. -/
def multilineCommentState (l : SqlLexer) : SqlLexer :=
  let (r, width) := decodeRune l.rest
  let l := l.advance width
  if r = code '/' then
    let (nextRune, width) := decodeRune l.rest
    if nextRune = code '*' then { l.advance width with nested := l.nested + 1 } else l
  else if r = code '*' then
    let (nextRune, width) := decodeRune l.rest
    if nextRune ≠ code '/' then l
    else
      let l := l.advance width
      if l.nested = 0 then { l with stateFn := some .raw } else { l with nested := l.nested - 1 }
  else if r = RuneError then l.runeError width
  else l

/-- One pass of the running state function; a stopped lexer stays stopped. -/
def pass (l : SqlLexer) : SqlLexer :=
  match l.stateFn with
  | none => l
  | some .raw => l.rawState
  | some .singleQuote => l.singleQuoteState
  | some .doubleQuote => l.doubleQuoteState
  | some .escapeString => l.escapeStringState
  | some .placeholder => l.placeholderState
  | some .oneLineComment => l.oneLineCommentState
  | some .multilineComment => l.multilineCommentState

/-- `for l.stateFn != nil { l.stateFn = l.stateFn(l) }`, for at most `fuel`
passes. -/
def run : Nat → SqlLexer → SqlLexer
  | 0, l => l
  | fuel + 1, l => if l.stateFn = none then l else run fuel l.pass

/-- The lexer `init` starts: all of `sql` to read, in `rawState`. -/
def start (sql : Bytes) : SqlLexer :=
  { pending := [], rest := sql, nested := 0, stateFn := some .raw, parts := [], num := 0 }

/-! ## Every pass reads, or stops, or leaves `placeholderState` -/

@[simp] theorem advance_rest (l : SqlLexer) (w : Nat) : (l.advance w).rest = l.rest.drop w := rfl

@[simp] theorem advance_stateFn (l : SqlLexer) (w : Nat) : (l.advance w).stateFn = l.stateFn := rfl

@[simp] theorem halt_rest (l : SqlLexer) : l.halt.rest = l.rest := by
  unfold halt; split <;> rfl

@[simp] theorem halt_stateFn (l : SqlLexer) : l.halt.stateFn = none := by
  unfold halt; split <;> rfl

@[simp] theorem runeError_rest (l : SqlLexer) (w : Nat) : (l.runeError w).rest = l.rest := by
  unfold runeError; split <;> simp

/-- A pass of a state function other than `placeholderState`: it drops at
least the rune it read, and it stops on empty input. -/
structure Reads (l l' : SqlLexer) : Prop where
  drop : ∃ k, (decodeRune l.rest).2 ≤ k ∧ l'.rest = l.rest.drop k
  eof : l.rest = [] → l'.stateFn = none

theorem reads_rawState (l : SqlLexer) : Reads l l.rawState := by
  constructor
  · rcases hd : decodeRune l.rest with ⟨r, w⟩
    simp only [rawState, hd]
    repeat' split
    all_goals first
      | exact ⟨w, Nat.le_refl _, rfl⟩
      | (refine ⟨w, Nat.le_refl _, ?_⟩; simp; done)
      | (refine ⟨w + (decodeRune (l.rest.drop w)).2, Nat.le_add_right _ _, ?_⟩
         simp [List.drop_drop])
  · intro h
    simp +decide [rawState, h, runeError, RuneError, replacementcharacterwidth, code]

theorem reads_quoteState {quote : Char} (hq : code quote ≠ RuneError) (l : SqlLexer) :
    Reads l (l.quoteState quote) := by
  constructor
  · rcases hd : decodeRune l.rest with ⟨r, w⟩
    simp only [quoteState, hd]
    repeat' split
    all_goals first
      | exact ⟨w, Nat.le_refl _, rfl⟩
      | (refine ⟨w, Nat.le_refl _, ?_⟩; simp; done)
      | (refine ⟨w + (decodeRune (l.rest.drop w)).2, Nat.le_add_right _ _, ?_⟩
         simp [List.drop_drop])
  · intro h
    have hq' : RuneError ≠ code quote := fun e => hq e.symm
    simp [quoteState, h, hq', runeError, replacementcharacterwidth]

theorem reads_escapeStringState (l : SqlLexer) : Reads l l.escapeStringState := by
  constructor
  · rcases hd : decodeRune l.rest with ⟨r, w⟩
    simp only [escapeStringState, hd]
    repeat' split
    all_goals first
      | exact ⟨w, Nat.le_refl _, rfl⟩
      | (refine ⟨w, Nat.le_refl _, ?_⟩; simp; done)
      | (refine ⟨w + (decodeRune (l.rest.drop w)).2, Nat.le_add_right _ _, ?_⟩
         simp [List.drop_drop])
  · intro h
    simp +decide [escapeStringState, h, runeError, RuneError, replacementcharacterwidth, code]

theorem reads_oneLineCommentState (l : SqlLexer) : Reads l l.oneLineCommentState := by
  constructor
  · rcases hd : decodeRune l.rest with ⟨r, w⟩
    simp only [oneLineCommentState, hd]
    repeat' split
    all_goals first
      | exact ⟨w, Nat.le_refl _, rfl⟩
      | (refine ⟨w, Nat.le_refl _, ?_⟩; simp; done)
      | (refine ⟨w + (decodeRune (l.rest.drop w)).2, Nat.le_add_right _ _, ?_⟩
         simp [List.drop_drop])
  · intro h
    simp +decide [oneLineCommentState, h, runeError, RuneError, replacementcharacterwidth, code]

theorem reads_multilineCommentState (l : SqlLexer) : Reads l l.multilineCommentState := by
  constructor
  · rcases hd : decodeRune l.rest with ⟨r, w⟩
    simp only [multilineCommentState, hd]
    repeat' split
    all_goals first
      | exact ⟨w, Nat.le_refl _, rfl⟩
      | (refine ⟨w, Nat.le_refl _, ?_⟩; simp; done)
      | (refine ⟨w + (decodeRune (l.rest.drop w)).2, Nat.le_add_right _ _, ?_⟩
         simp [List.drop_drop])
  · intro h
    simp +decide [multilineCommentState, h, runeError, RuneError, replacementcharacterwidth, code]

/-- `placeholderState` reads a digit and stays, or reads nothing and
returns to `rawState`. -/
theorem placeholderState_cases (l : SqlLexer) :
    (l.placeholderState.rest.length + 1 ≤ l.rest.length ∧ l.placeholderState.stateFn = l.stateFn) ∨
      (l.placeholderState.rest = l.rest ∧ l.placeholderState.stateFn = some .raw) := by
  rcases hd : decodeRune l.rest with ⟨r, w⟩
  simp only [placeholderState, hd]
  split
  · rename_i hdig
    left
    have hne : l.rest ≠ [] := by
      intro h
      rw [h, decodeRune_nil] at hd
      injection hd with hr _
      subst hr
      revert hdig
      decide
    have hw := one_le_width hne
    rw [hd] at hw
    simp only [advance_rest, List.length_drop, advance_stateFn, and_true]
    have : 0 < l.rest.length := List.length_pos_of_ne_nil hne
    omega
  · right
    exact ⟨rfl, rfl⟩

/-- The weight of a state in `measure`: leaving `placeholderState` reads
nothing, so it weighs more than the state it returns to. -/
def weight : Option LexState → Nat
  | none => 0
  | some .placeholder => 2
  | some _ => 1

theorem weight_le_two (s : Option LexState) : weight s ≤ 2 := by
  unfold weight; split <;> omega

/-- Twice the bytes left to read, and the weight of the state. -/
def measure (l : SqlLexer) : Nat := 2 * l.rest.length + weight l.stateFn

theorem measure_lt_of_reads {l l' : SqlLexer} (h : Reads l l') (hw : weight l.stateFn = 1) :
    l'.measure < l.measure := by
  obtain ⟨k, hk, hr⟩ := h.drop
  have h2 := weight_le_two l'.stateFn
  unfold measure
  rw [hw, hr, List.length_drop]
  by_cases he : l.rest = []
  · have hs := h.eof he
    rw [hs, he]
    simp [weight]
  · have h1 := one_le_width he
    have h0 := List.length_pos_of_ne_nil he
    omega

/-- Every pass of a running lexer lowers the measure. -/
theorem measure_pass {l : SqlLexer} (h : l.stateFn ≠ none) : l.pass.measure < l.measure := by
  unfold pass
  rcases hs : l.stateFn with _ | st
  · exact absurd hs h
  cases st with
  | raw => exact measure_lt_of_reads (reads_rawState l) (by rw [hs]; rfl)
  | singleQuote => exact measure_lt_of_reads (reads_quoteState (by decide) l) (by rw [hs]; rfl)
  | doubleQuote => exact measure_lt_of_reads (reads_quoteState (by decide) l) (by rw [hs]; rfl)
  | escapeString => exact measure_lt_of_reads (reads_escapeStringState l) (by rw [hs]; rfl)
  | oneLineComment => exact measure_lt_of_reads (reads_oneLineCommentState l) (by rw [hs]; rfl)
  | multilineComment =>
    exact measure_lt_of_reads (reads_multilineCommentState l) (by rw [hs]; rfl)
  | placeholder =>
    show l.placeholderState.measure < l.measure
    unfold measure
    rcases placeholderState_cases l with ⟨hlt, hst⟩ | ⟨hr, hst⟩
    · rw [hst, hs]; omega
    · rw [hst, hs, hr]; simp [weight]

/-- With fuel for its measure, `run` stops the lexer. -/
theorem run_stops : ∀ (fuel : Nat) (l : SqlLexer), l.measure ≤ fuel → (run fuel l).stateFn = none
  | 0, l, h => by
    rcases hs : l.stateFn with _ | st
    · exact hs
    · have : weight l.stateFn = 0 := by unfold measure at h; omega
      rw [hs] at this
      cases st <;> simp [weight] at this
  | fuel + 1, l, h => by
    simp only [run]
    split
    · assumption
    · rename_i hs
      exact run_stops fuel l.pass (by have := measure_pass hs; omega)

end SqlLexer

/-- `Query.init(sql)`: the parts of `sql`. Every pass reads a byte or stops
or leaves `placeholderState`, so `2 * len(sql) + 1` passes are enough
(`run_stops`). -/
def queryParts (sql : Bytes) : List Part :=
  (SqlLexer.run (2 * sql.length + 1) (SqlLexer.start sql)).parts

end GaussdbGo.Sanitize
