import GaussdbGo.Sanitize.Arguments

/-!
# internal/sanitize — what sanitizing does to the lexical structure

`SanitizeSQL` promises that the arguments it writes into a statement cannot
change how the statement is read: each written argument is read from
`rawState` back to `rawState`, a quoted one as exactly one literal, and the
text around it in the same states as in the statement.

`sanitizeSQL_lexes_like_sql` proves this for every statement, valid UTF-8 or
not, and valid UTF-8 string arguments, with `formatFloat` writing bare words
as `strconv.AppendFloat` does: the statement is read as its parts
(`SqlSegment`), and the sanitized text as the same texts in the same states
with each placeholder replaced by the states of its argument
(`sanitizedStates`).

Without the second condition it fails: `QuoteString` copies the bytes of a
string as they are, and the lexer stops at the first byte that starts no
rune, inside the quotes (`sanitizeSQL_invalid_string`).
-/

namespace GaussdbGo.Sanitize

open GoStd.Utf8 SqlLexer

/-- How a part of a statement is read in the statement: a text in the states
of itself, a placeholder as its `$` in `rawState` and its digits in
`placeholderState`. -/
def SqlSegment : Part → List LexState → Prop
  | .text t, seg => seg = lexStates t
  | .arg _, seg => ∃ k, 0 < k ∧ seg = .raw :: List.replicate k .placeholder

/-- The argument a placeholder `$n` takes. -/
def argOf (args : List Arg) (n : Int64) : Arg := args.getD (n - 1).toInt.toNat .nil

/-- How a part is read once sanitized: a text in the states of itself; a
placeholder as a space, its written argument in `argStates`, and a space. -/
def sanitizedStates (formatFloat : UInt64 → Bytes) (args : List Arg) : Part → List LexState
  | .text t => lexStates t
  | .arg n =>
    match encodeArg formatFloat (argOf args n) with
    | .ok p => .raw :: argStates (argOf args n).quoted p ++ [.raw]
    | .error _ => []

theorem lexStates_nil : lexStates [] = [] := by decide

/-! ## The texts of a statement, on their own -/

namespace SqlLexer

/-- A text between placeholders is read as on its own. -/
theorem MidText.lexStates {t : Bytes} {L : List LexState} (h : MidText t L) :
    lexStates t = L := by
  obtain ⟨l', hrun, hr, hs, -, -, -⟩ :=
    h (start t) [] rfl rfl (List.append_nil t).symm (fun a ha => by simp at ha)
  have hstop := steps_eof hs (by decide) hr
  rw [lexStates_eq, (hrun.steps.trans hstop).labelsOf_eq (halt_stateFn _), List.append_nil]

/-- The last text is read as on its own. -/
theorem FinalText.lexStates {t : Bytes} {L : List LexState} (h : FinalText t L) :
    lexStates t = L := by
  obtain ⟨l', hsteps, hstop, -⟩ := h (start t) rfl rfl rfl
  rw [lexStates_eq, hsteps.labelsOf_eq hstop]

/-- The states of a statement are those of its parts, each as `SqlSegment`
says. -/
theorem SqlLexes.segments {ps : List Part} {L : List LexState} (h : SqlLexes ps L) :
    ∃ segs, L = segs.flatten ∧ List.Forall₂ SqlSegment ps segs := by
  induction h with
  | @last t L hfin =>
    by_cases ht : t = []
    · subst ht
      have hL : L = [] := by rw [← hfin.lexStates, lexStates_nil]
      exact ⟨[], by simp [hL], by simp⟩
    · exact ⟨[L], by simp, by simp [ht, SqlSegment, hfin.lexStates]⟩
  | @placeholder t L L' n k ps hmid hk _ ih =>
    obtain ⟨segs, hL', hall⟩ := ih
    refine ⟨L :: (.raw :: List.replicate k .placeholder) :: segs, by simp [hL'], ?_⟩
    exact .cons hmid.lexStates.symm (.cons ⟨k, hk, rfl⟩ hall)

end SqlLexer

/-! ## The sanitized text -/

theorem writeParts_cons {formatFloat : UInt64 → Bytes} {args : List Arg} {part : Part}
    {ps : List Part} {buf : Bytes} {argUse : List Bool} {r : Bytes × List Bool}
    (h : writeParts formatFloat args (part :: ps) buf argUse = .ok r) :
    ∃ buf₁ use₁, writePart formatFloat args buf argUse part = .ok (buf₁, use₁) ∧
      writeParts formatFloat args ps buf₁ use₁ = .ok r := by
  simp only [writeParts] at h
  rcases hw : writePart formatFloat args buf argUse part with e | ⟨buf₁, use₁⟩
  · rw [hw] at h; cases h
  · rw [hw] at h; exact ⟨buf₁, use₁, rfl, h⟩

/-- The last text of a statement is copied as it is. -/
theorem writeParts_last {formatFloat : UInt64 → Bytes} {args : List Arg} {t buf buf' : Bytes}
    {argUse use' : List Bool}
    (hw : writeParts formatFloat args (if t = [] then [] else [.text t]) buf argUse = .ok (buf', use')) :
    buf' = buf ++ t := by
  by_cases ht : t = []
  · subst ht
    simp only [if_true, writeParts] at hw
    cases hw
    simp
  · simp only [ht, if_false] at hw
    obtain ⟨buf₁, use₁, h₁, h₂⟩ := writeParts_cons hw
    simp only [writePart, writeParts] at h₁ h₂
    cases h₁
    cases h₂
    rfl

theorem toInt_nonneg_of_not_neg {a : Int64} (h : ¬a < 0) : 0 ≤ a.toInt := by
  rw [Int64.lt_iff_toInt_lt] at h
  simp at h
  omega

/-- A placeholder is written as its argument between two spaces; the argument
is one of `args`. -/
theorem writePart_arg {formatFloat : UInt64 → Bytes} {args : List Arg} {n : Int64}
    {buf buf₁ : Bytes} {argUse use₁ : List Bool}
    (h : writePart formatFloat args buf argUse (.arg n) = .ok (buf₁, use₁)) :
    ∃ p, encodeArg formatFloat (argOf args n) = .ok p ∧ argOf args n ∈ args ∧
      buf₁ = buf ++ [32] ++ p ++ [32] := by
  simp only [writePart] at h
  split_ifs at h with h₁ h₂
  rcases hp : encodeArg formatFloat (args.getD (n - 1).toInt.toNat .nil) with e | p
  · rw [hp] at h; cases h
  · rw [hp] at h
    cases h
    have hidx : (n - 1).toInt.toNat < args.length := by
      have := toInt_nonneg_of_not_neg h₁
      omega
    refine ⟨p, hp, ?_, rfl⟩
    unfold argOf
    rw [List.getD, List.getElem?_eq_getElem hidx, Option.getD_some]
    exact List.getElem_mem hidx

/-- The text `Sanitize` writes for the parts of a statement is read in
`sanitizedStates`, part by part, to the end. -/
theorem sanitized_steps {formatFloat : UInt64 → Bytes} (hf : ∀ x, PlainBytes (formatFloat x))
    {args : List Arg} (hargs : ∀ s, Arg.string s ∈ args → Valid s) {ps : List Part}
    {L : List LexState} (h : SqlLexes ps L) :
    ∀ {buf buf' : Bytes} {argUse use' : List Bool},
      writeParts formatFloat args ps buf argUse = .ok (buf', use') →
      ∃ s, buf' = buf ++ s ∧ ∀ l : SqlLexer, l.stateFn = some .raw → l.nested = 0 → l.rest = s →
        ∃ l', Steps l l' (ps.flatMap (sanitizedStates formatFloat args)) ∧ l'.stateFn = none := by
  induction h with
  | @last t L hfin =>
    intro buf buf' argUse use' hw
    refine ⟨t, writeParts_last hw, fun l hs hn hr => ?_⟩
    obtain ⟨l', hsteps, hstop, -⟩ := hfin l hs hn hr
    refine ⟨l', ?_, hstop⟩
    by_cases ht : t = []
    · subst ht
      have hL : L = [] := by rw [← hfin.lexStates, lexStates_nil]
      simpa [hL] using hsteps
    · simpa [ht, sanitizedStates, hfin.lexStates] using hsteps
  | @placeholder t L L' n k ps hmid _ _ ih =>
    intro buf buf' argUse use' hw
    obtain ⟨buf₁, use₁, h₁, hw₁⟩ := writeParts_cons hw
    obtain ⟨buf₂, use₂, h₂, hw₂⟩ := writeParts_cons hw₁
    simp only [writePart] at h₁
    cases h₁
    obtain ⟨p, hp, hmem, rfl⟩ := writePart_arg h₂
    obtain ⟨s', rfl, hrun⟩ := ih hw₂
    have harg := encodeArg_text hf (fun s hs => hargs s (hs ▸ hmem)) hp
    refine ⟨t ++ 32 :: p ++ 32 :: s', by simp, fun l hs hn hr => ?_⟩
    -- the text, before the space written after it
    obtain ⟨l₁, hrun₁, hr₁, hs₁, hn₁, -, -⟩ :=
      hmid l (32 :: p ++ 32 :: s') hs hn (by rw [hr]; simp) fun a ha => by
        simp only [List.cons_append, List.head?_cons, Option.mem_def, Option.some.injEq] at ha
        subst ha
        decide
    -- the argument between its spaces, then the rest
    obtain ⟨l₂, hsteps₂, hs₂, hn₂, hr₂⟩ := steps_written_arg harg hs₁ hn₁ hr₁
    obtain ⟨l₃, hsteps₃, hstop⟩ := hrun l₂ hs₂ hn₂ hr₂
    refine ⟨l₃, ?_, hstop⟩
    have := hrun₁.steps.trans (hsteps₂.trans hsteps₃)
    simpa [sanitizedStates, hp, hmid.lexStates] using this

/-! ## The theorems -/

/-- Sanitizing any statement with valid string arguments keeps its lexical
structure: the statement is read as its parts, and the sanitized text as the
same texts in the same states, each placeholder replaced by its argument read
from `rawState` back to `rawState` (`argStates`: a quoted argument as one
literal that closes at its own last quote). -/
theorem sanitizeSQL_lexes_like_sql (formatFloat : UInt64 → Bytes)
    (hf : ∀ x, PlainBytes (formatFloat x)) (sql : Bytes) (args : List Arg) (s : Bytes)
    (hargs : ∀ str, Arg.string str ∈ args → Valid str)
    (h : sanitizeSQL formatFloat sql args = .ok s) :
    (∃ segs, lexStates sql = segs.flatten ∧ List.Forall₂ SqlSegment (queryParts sql) segs) ∧
      lexStates s = (queryParts sql).flatMap (sanitizedStates formatFloat args) := by
  obtain ⟨ps, L, l', hlex, hsteps, hstop, hparts⟩ := sql_structure (start sql) rfl rfl rfl
  have hq : queryParts sql = ps := by
    rw [queryParts_eq, hsteps.runOf_eq hstop, hparts]
    rfl
  have hL : lexStates sql = L := by rw [lexStates_eq, hsteps.labelsOf_eq hstop]
  refine ⟨by rw [hL, hq]; exact hlex.segments, ?_⟩
  -- the sanitized text is what `writeParts` wrote
  obtain ⟨use, hw⟩ : ∃ use, writeParts formatFloat args ps []
      (List.replicate args.length false) = .ok (s, use) := by
    simp only [sanitizeSQL, Query.sanitize, newQuery, hq] at h
    rcases hw : writeParts formatFloat args ps [] (List.replicate args.length false) with
      e | ⟨buf, use⟩
    · rw [hw] at h; cases h
    · rw [hw] at h
      simp only [bind, Except.bind] at h
      split at h
      · cases h
      · cases h; exact ⟨use, rfl⟩
  obtain ⟨s', hs, hrun⟩ := sanitized_steps hf hargs hlex hw
  rw [List.nil_append] at hs
  subst hs
  obtain ⟨l'', hsteps'', hstop''⟩ := hrun (start s) rfl rfl rfl
  rw [hq, lexStates_eq, hsteps''.labelsOf_eq hstop'']

/-- `a = $1` with the string `'` (`'` is `39`): the quote is doubled, and the
sanitized text read as the statement is, the argument as one literal. -/
theorem sanitizeSQL_lexes_like_sql_quote :
    (∀ x : UInt64, PlainBytes ((fun _ => [48]) x)) ∧
      (∀ str, Arg.string str ∈ [Arg.string [39]] → Valid str) ∧
      sanitizeSQL (fun _ => [48]) [97, 32, 61, 32, 36, 49] [.string [39]] =
        .ok [97, 32, 61, 32, 32, 39, 39, 39, 39, 32] ∧
      ((∃ segs, lexStates [97, 32, 61, 32, 36, 49] = segs.flatten ∧
          List.Forall₂ SqlSegment (queryParts [97, 32, 61, 32, 36, 49]) segs) ∧
        lexStates [97, 32, 61, 32, 32, 39, 39, 39, 39, 32] =
          (queryParts [97, 32, 61, 32, 36, 49]).flatMap
            (sanitizedStates (fun _ => [48]) [.string [39]])) := by
  have hf : ∀ x : UInt64, PlainBytes ((fun _ => [48]) x) := fun _ => show PlainBytes [48] by decide
  have hargs : ∀ str, Arg.string str ∈ [Arg.string [39]] → Valid str := by
    intro str hstr
    simp only [List.mem_singleton, Arg.string.injEq] at hstr
    exact ⟨['\''], by rw [hstr]; decide⟩
  have hs : sanitizeSQL (fun _ => [48]) [97, 32, 61, 32, 36, 49] [.string [39]] =
      .ok [97, 32, 61, 32, 32, 39, 39, 39, 39, 32] := by decide
  exact ⟨hf, hargs, hs, sanitizeSQL_lexes_like_sql _ hf _ _ _ hargs hs⟩

/-- A string argument that is not valid UTF-8 is not read as one literal:
`$1` with the string `"\xff"` is written as ` '\xff' `, and the lexer stops
at the byte `0xff`, inside the quotes, before the closing quote and the
space after it. No float is written, so the `formatFloat` taken here is
arbitrary. -/
theorem sanitizeSQL_invalid_string :
    sanitizeSQL (fun _ => [48]) [36, 49] [.string [255]] = .ok [32, 39, 255, 39, 32] ∧
      lexStates [32, 39, 255, 39, 32] = [.raw, .raw, .singleQuote] :=
  ⟨rfl, by decide⟩

end GaussdbGo.Sanitize
