import GaussdbGo.Lib.Utf8
import GaussdbGo.Lib.Strconv

/-!
# named_args.go — `@name` placeholders

`rewriteQuery` lexes a statement with a state machine of its own, close to
the one of `internal/sanitize`: the same quote, escape-string and comment
states, and `namedArgState` in place of the placeholder state. A `@` before a
letter or `_` in `rawState` starts a name, which runs over letters, digits
and `_`; each name gets the ordinal of its first appearance, and is written
back as `$` and that ordinal.

Unlike the sanitize lexer, every state stops on `utf8.RuneError` without
looking at its width, so a literal U+FFFD, three bytes of valid UTF-8, ends
the lexing like the end of the input, and the rest of the statement is never
written (`rewriteQuery_drops_after_replacement`).

The model keeps, as the sanitize lexer does, the two slices of the source it
uses, `l.src[l.start:l.pos]` and `l.src[l.pos:]`. The `nameToOrdinal` map is
the list of names in the order they were met: the ordinal of a name is its
index plus one, which is what `len(l.nameToOrdinal) + 1` gives the name
added last. `NamedArgs` is a map with distinct keys, iterated in the order of
its entries; Go leaves that order open, and it only decides which name a
strict-mode error reports.
-/

namespace GaussdbGo.NamedArgs

open GoStd.Utf8 GoStd.Strconv

/-- A byte string. -/
abbrev Bytes := List UInt8

/-- `NamedArgs` (and `StrictNamedArgs`): a map from names to arguments. -/
structure NamedArgMap (α : Type) where
  entries : List (Bytes × α)
  nodup : (entries.map Prod.fst).Nodup

/-- `na[name]`, with `none` for Go's `nil` when the name is absent. -/
def NamedArgMap.get {α : Type} (na : NamedArgMap α) (name : Bytes) : Option α :=
  na.entries.lookup name

/-- The lexer's state functions. -/
inductive LexState where
  | raw
  | singleQuote
  | doubleQuote
  | escapeString
  | namedArg
  | oneLineComment
  | multilineComment
  deriving DecidableEq, Repr

/-- An element of `l.parts`: a `string`, or a `namedArg`. -/
inductive Part where
  | text (s : Bytes)
  | namedArg (name : Bytes)
  deriving DecidableEq, Repr

/-- A `sqlLexer`. -/
structure SqlLexer where
  /-- `l.src[l.start:l.pos]` -/
  pending : Bytes
  /-- `l.src[l.pos:]` -/
  rest : Bytes
  nested : Nat
  stateFn : Option LexState
  parts : List Part
  /-- the keys of `nameToOrdinal`, by ordinal -/
  nameToOrdinal : List Bytes
  deriving DecidableEq, Repr

/-- `isLetter`. -/
def isLetter (r : Nat) : Bool :=
  (r ≥ 'a'.toNat && r ≤ 'z'.toNat) || (r ≥ 'A'.toNat && r ≤ 'Z'.toNat)

namespace SqlLexer

/-- `l.pos += width`. -/
def advance (l : SqlLexer) (width : Nat) : SqlLexer :=
  { l with pending := l.pending ++ l.rest.take width, rest := l.rest.drop width }

/-- The code of a character, for comparing it with a decoded rune. -/
abbrev code (c : Char) : Nat := c.toNat

/-- The `case utf8.RuneError` of every state but `namedArgState`: stop,
keeping the text read since the last part when there is any. -/
def halt (l : SqlLexer) : SqlLexer :=
  let l := if 0 < l.pending.length then { l with parts := l.parts ++ [.text l.pending], pending := [] }
    else l
  { l with stateFn := none }

/-- `if _, found := l.nameToOrdinal[na]; !found { l.nameToOrdinal[na] = len(l.nameToOrdinal) + 1 }`,
then `l.parts = append(l.parts, na)` and `l.start = l.pos`. -/
def addName (l : SqlLexer) (na : Bytes) : SqlLexer :=
  { l with
    nameToOrdinal := if na ∈ l.nameToOrdinal then l.nameToOrdinal else l.nameToOrdinal ++ [na]
    parts := l.parts ++ [.namedArg na]
    pending := [] }

/-- One pass of `rawState`. -/
def rawState (l : SqlLexer) : SqlLexer :=
  let (r, width) := decodeRune l.rest
  let l := l.advance width
  if r = code 'e' ∨ r = code 'E' then
    let (nextRune, width) := decodeRune l.rest
    if nextRune = code '\'' then { l.advance width with stateFn := some .escapeString } else l
  else if r = code '\'' then { l with stateFn := some .singleQuote }
  else if r = code '"' then { l with stateFn := some .doubleQuote }
  else if r = code '@' then
    let (nextRune, _) := decodeRune l.rest
    if isLetter nextRune ∨ nextRune = code '_' then
      -- `l.src[l.start:l.pos-width]`: the text before the `@`
      let l := if 0 < l.pending.length then
          { l with parts := l.parts ++ [.text (l.pending.take (l.pending.length - width))] }
        else l
      { l with pending := [], stateFn := some .namedArg }
    else l
  else if r = code '-' then
    let (nextRune, width) := decodeRune l.rest
    if nextRune = code '-' then { l.advance width with stateFn := some .oneLineComment } else l
  else if r = code '/' then
    let (nextRune, width) := decodeRune l.rest
    if nextRune = code '*' then { l.advance width with stateFn := some .multilineComment } else l
  else if r = RuneError then l.halt
  else l

/-- One pass of `namedArgState`: a letter, digit or `_` is part of the name;
anything else is put back (`l.pos -= width`) and ends it, and so does a
`RuneError`, which is kept in the name. -/
def namedArgState (l : SqlLexer) : SqlLexer :=
  let (r, width) := decodeRune l.rest
  if r = RuneError then
    let l := l.advance width
    if 0 < l.pending.length then { l.addName l.pending with stateFn := none }
    else { l with stateFn := none }
  else if ¬ (isLetter r ∨ (r ≥ code '0' ∧ r ≤ code '9') ∨ r = code '_') then
    { l.addName l.pending with stateFn := some .raw }
  else l.advance width

/-- One pass of `singleQuoteState` (`quote = '\''`) or `doubleQuoteState`
(`quote = '"'`): a doubled quote stays inside. -/
def quoteState (quote : Char) (l : SqlLexer) : SqlLexer :=
  let (r, width) := decodeRune l.rest
  let l := l.advance width
  if r = code quote then
    let (nextRune, width) := decodeRune l.rest
    if nextRune ≠ code quote then { l with stateFn := some .raw } else l.advance width
  else if r = RuneError then l.halt
  else l

/-- One pass of `singleQuoteState`. -/
def singleQuoteState (l : SqlLexer) : SqlLexer := quoteState '\'' l

/-- One pass of `doubleQuoteState`. -/
def doubleQuoteState (l : SqlLexer) : SqlLexer := quoteState '"' l

/-- One pass of `escapeStringState`: a backslash takes the next rune with it. -/
def escapeStringState (l : SqlLexer) : SqlLexer :=
  let (r, width) := decodeRune l.rest
  let l := l.advance width
  if r = code '\\' then l.advance (decodeRune l.rest).2
  else if r = code '\'' then
    let (nextRune, width) := decodeRune l.rest
    if nextRune ≠ code '\'' then { l with stateFn := some .raw } else l.advance width
  else if r = RuneError then l.halt
  else l

/-- One pass of `oneLineCommentState`. -/
def oneLineCommentState (l : SqlLexer) : SqlLexer :=
  let (r, width) := decodeRune l.rest
  let l := l.advance width
  if r = code '\\' then l.advance (decodeRune l.rest).2
  else if r = code '\n' ∨ r = code '\r' then { l with stateFn := some .raw }
  else if r = RuneError then l.halt
  else l

/-- One pass of `multilineCommentState`: comments nest. -/
def multilineCommentState (l : SqlLexer) : SqlLexer :=
  let (r, width) := decodeRune l.rest
  let l := l.advance width
  if r = code '/' then
    let (nextRune, width) := decodeRune l.rest
    if nextRune = code '*' then { l.advance width with nested := l.nested + 1 } else l
  else if r = code '*' then
    let (nextRune, width) := decodeRune l.rest
    if nextRune ≠ code '/' then l
    else
      let l := l.advance width
      if l.nested = 0 then { l with stateFn := some .raw } else { l with nested := l.nested - 1 }
  else if r = RuneError then l.halt
  else l

/-- One pass of the running state function; a stopped lexer stays stopped. -/
def pass (l : SqlLexer) : SqlLexer :=
  match l.stateFn with
  | none => l
  | some .raw => l.rawState
  | some .singleQuote => l.singleQuoteState
  | some .doubleQuote => l.doubleQuoteState
  | some .escapeString => l.escapeStringState
  | some .namedArg => l.namedArgState
  | some .oneLineComment => l.oneLineCommentState
  | some .multilineComment => l.multilineCommentState

/-- `for l.stateFn != nil { l.stateFn = l.stateFn(l) }`, for at most `fuel`
passes. -/
def run : Nat → SqlLexer → SqlLexer
  | 0, l => l
  | fuel + 1, l => if l.stateFn = none then l else run fuel l.pass

/-- The lexer `rewriteQuery` starts: all of `sql` to read, in `rawState`. -/
def start (sql : Bytes) : SqlLexer :=
  { pending := [], rest := sql, nested := 0, stateFn := some .raw, parts := [], nameToOrdinal := [] }

/-! ## Every pass reads a rune, stops, or leaves `namedArgState` -/

@[simp] theorem advance_rest (l : SqlLexer) (w : Nat) : (l.advance w).rest = l.rest.drop w := rfl

@[simp] theorem advance_stateFn (l : SqlLexer) (w : Nat) : (l.advance w).stateFn = l.stateFn := rfl

@[simp] theorem halt_rest (l : SqlLexer) : l.halt.rest = l.rest := by
  unfold halt; split <;> rfl

@[simp] theorem halt_stateFn (l : SqlLexer) : l.halt.stateFn = none := by
  unfold halt; split <;> rfl

@[simp] theorem addName_rest (l : SqlLexer) (na : Bytes) : (l.addName na).rest = l.rest := rfl

/-- The weight of a state in `measure`: leaving `namedArgState` reads
nothing, so it weighs more than `rawState`, which it returns to. -/
def weight : Option LexState → Nat
  | none => 0
  | some .namedArg => 2
  | some _ => 1

/-- Twice the bytes left to read, and the weight of the state. -/
def measure (l : SqlLexer) : Nat := 2 * l.rest.length + weight l.stateFn

/-- A rune other than `RuneError` is read from at least one byte. -/
theorem runeError_or_width (s : Bytes) :
    (decodeRune s).1 = RuneError ∨ (1 ≤ (decodeRune s).2 ∧ 1 ≤ s.length) := by
  by_cases he : s = []
  · left
    rw [he]
    rfl
  · exact .inr ⟨one_le_width he, List.length_pos_of_ne_nil he⟩

/-- Every pass of a running lexer lowers the measure. -/
theorem measure_pass {l : SqlLexer} (h : l.stateFn ≠ none) : l.pass.measure < l.measure := by
  have hw := runeError_or_width l.rest
  rcases hd : decodeRune l.rest with ⟨r, w⟩
  rw [hd] at hw
  unfold pass
  rcases hs : l.stateFn with _ | st
  · exact absurd hs h
  cases st <;>
    simp only [rawState, singleQuoteState, doubleQuoteState, quoteState, escapeStringState,
      namedArgState, oneLineCommentState, multilineCommentState, hd] <;>
    (repeat' split) <;>
    simp [measure, weight, hs, RuneError, code] at * <;>
    omega

@[simp] theorem run_stop (fuel : Nat) {l : SqlLexer} (hs : l.stateFn = none) : run fuel l = l := by
  cases fuel <;> simp [run, hs]

/-- With fuel for its measure, `run` stops the lexer. -/
theorem run_stops : ∀ (fuel : Nat) (l : SqlLexer), l.measure ≤ fuel → (run fuel l).stateFn = none
  | 0, l, h => by
    rcases hs : l.stateFn with _ | st
    · exact hs
    · have : weight l.stateFn = 0 := by unfold measure at h; omega
      rw [hs] at this
      cases st <;> simp [weight] at this
  | fuel + 1, l, h => by
    simp only [run]
    split
    · assumption
    · rename_i hs
      exact run_stops fuel l.pass (by have := measure_pass hs; omega)

end SqlLexer

/-- The errors of `rewriteQuery` in strict mode. -/
inductive RewriteError where
  /-- `argument %s found in sql query but not present in StrictNamedArgs` -/
  | notPresent (name : Bytes)
  /-- `argument %s of StrictNamedArgs not found in sql query` -/
  | notFound (name : Bytes)
  deriving DecidableEq, Repr

/-- The ordinal of a name met by the lexer. -/
def ordinal (nameToOrdinal : List Bytes) (name : Bytes) : Nat := nameToOrdinal.idxOf name + 1

/-- The `for _, p := range l.parts` loop: text as it is, a name as `$` and
its ordinal. -/
def writeParts (nameToOrdinal : List Bytes) : List Part → Bytes
  | [] => []
  | .text s :: ps => s ++ writeParts nameToOrdinal ps
  | .namedArg na :: ps => 36 :: itoa (ordinal nameToOrdinal na) ++ writeParts nameToOrdinal ps

/-- `rewriteQuery(na, sql, isStrict)`. The lexer gets `2 * len(sql) + 1`
passes (`run_stops`). -/
def rewriteQuery {α : Type} (na : NamedArgMap α) (sql : Bytes) (isStrict : Bool) :
    Except RewriteError (Bytes × List (Option α)) :=
  let l := SqlLexer.run (2 * sql.length + 1) (SqlLexer.start sql)
  let newSQL := writeParts l.nameToOrdinal l.parts
  -- `newArgs[ordinal-1], found = na[string(name)]`
  let newArgs := l.nameToOrdinal.map na.get
  match isStrict, l.nameToOrdinal.find? (fun name => (na.get name).isNone) with
  | true, some name => .error (.notPresent name)
  | _, _ =>
    match isStrict, (na.entries.map Prod.fst).find? (fun name => name ∉ l.nameToOrdinal) with
    | true, some name => .error (.notFound name)
    | _, _ => .ok (newSQL, newArgs)

/-- A literal U+FFFD at the start of a statement ends the lexing: whatever
follows it, names included, is dropped, and no argument is passed. -/
theorem rewriteQuery_drops_after_replacement {α : Type} (na : NamedArgMap α) (rest : Bytes) :
    rewriteQuery na ([0xEF, 0xBF, 0xBD] ++ rest) false = .ok ([0xEF, 0xBF, 0xBD], []) := by
  -- U+FFFD is valid UTF-8, and still decodes to `RuneError`
  have hdec : decodeRune (0xEF :: 0xBF :: 0xBD :: rest) = (RuneError, 3) :=
    decodeRune_encodeRune '�' rest
  have hpass : (SqlLexer.start ([0xEF, 0xBF, 0xBD] ++ rest)).pass =
      { pending := [], rest := rest, nested := 0, stateFn := none,
        parts := [.text [0xEF, 0xBF, 0xBD]], nameToOrdinal := [] } := by
    simp [SqlLexer.pass, SqlLexer.start, SqlLexer.rawState, hdec, SqlLexer.advance,
      SqlLexer.halt, SqlLexer.code, RuneError]
  have hrun : SqlLexer.run (2 * ([0xEF, 0xBF, 0xBD] ++ rest).length + 1)
      (SqlLexer.start ([0xEF, 0xBF, 0xBD] ++ rest)) =
        { pending := [], rest := rest, nested := 0, stateFn := none,
          parts := [.text [0xEF, 0xBF, 0xBD]], nameToOrdinal := [] } := by
    rw [SqlLexer.run, if_neg (by simp [SqlLexer.start]), hpass, SqlLexer.run_stop _ rfl]
  simp only [rewriteQuery, hrun]
  rfl

end GaussdbGo.NamedArgs
