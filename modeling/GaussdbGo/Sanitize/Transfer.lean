import GaussdbGo.Sanitize.Parts

/-!
# internal/sanitize — the lexer on any bytes, and text moved between contexts

A Go `string` need not be valid UTF-8, and neither need the statement
`SanitizeSQL` is given. On any bytes a pass of a state other than
`placeholderState` is still decided by the state, the comment depth, the
rune it decodes and the rune decoded after it (`passOutcome`); the pass then
reads one or both of them and stops or goes on (`finish`, `pass_eq_finish`).

`TextRun.transfer` is what sanitizing rests on: passes that read text `x`
followed by `f₁`, and end where `x` ends, are the same passes, in the same
states, over `x` followed by `f₂`, when every rune decoded inside `x` decodes
the same (`AgreeOn`) and what follows `x` looks the same to the last of them
(`FollowOK`). Both hold when `x` is followed by an ASCII byte no state looks
ahead for, or by nothing (`agreeOn_ascii`), and when the input is cut right
after the byte at which the lexer stops (`agreeOn_append`).
-/

namespace GaussdbGo.Sanitize

open GoStd.Utf8

namespace SqlLexer

/-! ## A pass, by the two runes it decodes -/

/-- A rune no state looks ahead for: not a quote, `-`, `*`, `/` or a digit. -/
def NeutralRune (r : Nat) : Prop :=
  r ≠ code '\'' ∧ r ≠ code '"' ∧ r ≠ code '-' ∧ r ≠ code '*' ∧ r ≠ code '/' ∧
    ¬ (code '0' ≤ r ∧ r ≤ code '9')

instance (r : Nat) : Decidable (NeutralRune r) := inferInstanceAs (Decidable (_ ∧ _))

/-- What a pass of state `st` at depth `n` does when it decodes `cur` and,
after it, `next` (each a rune and its width): whether it reads `next` too,
and the state (`none`: it stops) and the depth it leaves. A `$` in
`rawState` is read as text: the passes here start no placeholder. -/
def passOutcome (st : LexState) (n : Nat) (cur next : Nat × Nat) :
    Bool × Option LexState × Nat :=
  -- `case utf8.RuneError` stops unless the rune is a literal U+FFFD
  let stops := cur.1 = RuneError ∧ cur.2 ≠ replacementcharacterwidth
  match st with
  | .raw =>
    if cur.1 = code 'e' ∨ cur.1 = code 'E' then
      if next.1 = code '\'' then (true, some .escapeString, n) else (false, some .raw, n)
    else if cur.1 = code '\'' then (false, some .singleQuote, n)
    else if cur.1 = code '"' then (false, some .doubleQuote, n)
    else if cur.1 = code '-' then
      if next.1 = code '-' then (true, some .oneLineComment, n) else (false, some .raw, n)
    else if cur.1 = code '/' then
      if next.1 = code '*' then (true, some .multilineComment, n) else (false, some .raw, n)
    else if stops then (false, none, n)
    else (false, some .raw, n)
  | .singleQuote =>
    if cur.1 = code '\'' then
      if next.1 ≠ code '\'' then (false, some .raw, n) else (true, some .singleQuote, n)
    else if stops then (false, none, n)
    else (false, some .singleQuote, n)
  | .doubleQuote =>
    if cur.1 = code '"' then
      if next.1 ≠ code '"' then (false, some .raw, n) else (true, some .doubleQuote, n)
    else if stops then (false, none, n)
    else (false, some .doubleQuote, n)
  | .escapeString =>
    if cur.1 = code '\\' then (true, some .escapeString, n)
    else if cur.1 = code '\'' then
      if next.1 ≠ code '\'' then (false, some .raw, n) else (true, some .escapeString, n)
    else if stops then (false, none, n)
    else (false, some .escapeString, n)
  | .oneLineComment =>
    if cur.1 = code '\\' then (true, some .oneLineComment, n)
    else if cur.1 = code '\n' ∨ cur.1 = code '\r' then (false, some .raw, n)
    else if stops then (false, none, n)
    else (false, some .oneLineComment, n)
  | .multilineComment =>
    if cur.1 = code '/' then
      if next.1 = code '*' then (true, some .multilineComment, n + 1)
      else (false, some .multilineComment, n)
    else if cur.1 = code '*' then
      if next.1 ≠ code '/' then (false, some .multilineComment, n)
      else if n = 0 then (true, some .raw, n) else (true, some .multilineComment, n - 1)
    else if stops then (false, none, n)
    else (false, some .multilineComment, n)
  | .placeholder => (false, some .placeholder, n)

/-- The bytes the pass reads: the rune, and the one after it when it takes
that too. -/
def passWidth (st : LexState) (n : Nat) (cur next : Nat × Nat) : Nat :=
  if (passOutcome st n cur next).1 then cur.2 + next.2 else cur.2

/-- Carry out a pass that reads `width` bytes: stop, with the text read since
the last part as a part, or go on in the given state and depth. -/
def finish (l : SqlLexer) (width : Nat) (o : Option LexState × Nat) : SqlLexer :=
  match o.1 with
  | none => (l.advance width).halt
  | some st => { l.advance width with stateFn := some st, nested := o.2 }

@[simp] theorem finish_rest (l : SqlLexer) (width : Nat) (o : Option LexState × Nat) :
    (l.finish width o).rest = l.rest.drop width := by
  unfold finish
  split <;> simp

@[simp] theorem finish_stateFn (l : SqlLexer) (width : Nat) (o : Option LexState × Nat) :
    (l.finish width o).stateFn = o.1 := by
  unfold finish
  split <;> simp_all

@[simp] theorem advance_nested (l : SqlLexer) (w : Nat) : (l.advance w).nested = l.nested := rfl

theorem advance_advance (l : SqlLexer) (w w' : Nat) :
    (l.advance w).advance w' = l.advance (w + w') := by
  simp only [advance, List.append_assoc, List.drop_drop, ← List.take_add]

section Finish

variable {l : SqlLexer} {w w' : Nat}

/-- A pass that reads its rune and goes on. -/
theorem finish_one {st : LexState} (hs : l.stateFn = some st) :
    l.advance w = l.finish w (some st, l.nested) := by
  show _ = { l.advance w with stateFn := some st, nested := l.nested }
  rw [← hs]
  rfl

/-- A pass that reads its rune and the one after it, and goes on. -/
theorem finish_two {st : LexState} (hs : l.stateFn = some st) :
    (l.advance w).advance w' = l.finish (w + w') (some st, l.nested) := by
  rw [advance_advance, finish_one hs]

/-- `case utf8.RuneError`. -/
theorem runeError_eq_finish {st : LexState} (hs : l.stateFn = some st) :
    (l.advance w).runeError w =
      l.finish w (if w ≠ replacementcharacterwidth then none else some st, l.nested) := by
  unfold runeError
  split
  · simp [finish, *]
  · exact finish_one hs

/-- A pass of a multi-line comment that reads two runes and changes the
depth. -/
theorem finish_two_nested {st : LexState} (hs : l.stateFn = some st) (m : Nat) :
    { (l.advance w).advance w' with nested := m } = l.finish (w + w') (some st, m) := by
  rw [advance_advance]
  show _ = { l.advance (w + w') with stateFn := some st, nested := m }
  rw [← hs]
  rfl

theorem finish_set_two (st : LexState) :
    { (l.advance w).advance w' with stateFn := some st } =
      l.finish (w + w') (some st, l.nested) := by
  rw [advance_advance]
  rfl

end Finish

section StateFns

variable {l : SqlLexer} {r w : Nat} {next : Nat × Nat}

theorem rawState_eq_finish (hs : l.stateFn = some .raw) (hnd : ¬ AtPlaceholder l)
    (hc : decodeRune l.rest = (r, w)) (hn : decodeRune (l.rest.drop w) = next) :
    l.rawState = l.finish (passWidth .raw l.nested (r, w) next)
      (passOutcome .raw l.nested (r, w) next).2 := by
  rw [AtPlaceholder, hc] at hnd
  simp only [hn] at hnd
  obtain ⟨r', w'⟩ := next
  simp only [rawState, hc, advance_rest, hn, passWidth, passOutcome]
  split_ifs <;>
    first
      | rfl
      | exact finish_one hs
      | exact finish_set_two _
      | (rw [runeError_eq_finish hs]; simp_all)
      | exact absurd ⟨‹_›, ‹_›⟩ hnd
      | simp_all [code, RuneError]

theorem quoteState_eq_finish {st : LexState} {q : Char}
    (hq : st = .singleQuote ∧ q = '\'' ∨ st = .doubleQuote ∧ q = '"') (hs : l.stateFn = some st)
    (hc : decodeRune l.rest = (r, w)) (hn : decodeRune (l.rest.drop w) = next) :
    l.quoteState q = l.finish (passWidth st l.nested (r, w) next)
      (passOutcome st l.nested (r, w) next).2 := by
  obtain ⟨r', w'⟩ := next
  rcases hq with ⟨rfl, rfl⟩ | ⟨rfl, rfl⟩ <;>
  · simp only [quoteState, hc, advance_rest, hn, passWidth, passOutcome]
    split_ifs <;>
      first
        | rfl
        | exact finish_one hs
        | exact finish_two hs
        | (rw [runeError_eq_finish hs]; simp_all)
        | simp_all [code, RuneError]

theorem escapeStringState_eq_finish (hs : l.stateFn = some .escapeString)
    (hc : decodeRune l.rest = (r, w)) (hn : decodeRune (l.rest.drop w) = next) :
    l.escapeStringState = l.finish (passWidth .escapeString l.nested (r, w) next)
      (passOutcome .escapeString l.nested (r, w) next).2 := by
  obtain ⟨r', w'⟩ := next
  simp only [escapeStringState, hc, advance_rest, hn, passWidth, passOutcome]
  split_ifs <;>
    first
      | rfl
      | exact finish_one hs
      | exact finish_two hs
      | (rw [runeError_eq_finish hs]; simp_all)
      | simp_all [code, RuneError]

theorem oneLineCommentState_eq_finish (hs : l.stateFn = some .oneLineComment)
    (hc : decodeRune l.rest = (r, w)) (hn : decodeRune (l.rest.drop w) = next) :
    l.oneLineCommentState = l.finish (passWidth .oneLineComment l.nested (r, w) next)
      (passOutcome .oneLineComment l.nested (r, w) next).2 := by
  obtain ⟨r', w'⟩ := next
  simp only [oneLineCommentState, hc, advance_rest, hn, passWidth, passOutcome]
  split_ifs <;>
    first
      | rfl
      | exact finish_one hs
      | exact finish_two hs
      | (rw [runeError_eq_finish hs]; simp_all)
      | simp_all [code, RuneError]

theorem multilineCommentState_eq_finish (hs : l.stateFn = some .multilineComment)
    (hc : decodeRune l.rest = (r, w)) (hn : decodeRune (l.rest.drop w) = next) :
    l.multilineCommentState = l.finish (passWidth .multilineComment l.nested (r, w) next)
      (passOutcome .multilineComment l.nested (r, w) next).2 := by
  obtain ⟨r', w'⟩ := next
  simp only [multilineCommentState, hc, advance_rest, advance_nested, hn, passWidth, passOutcome]
  split_ifs <;>
    first
      | rfl
      | exact finish_one hs
      | exact finish_two_nested hs _
      | exact finish_set_two _
      | (rw [runeError_eq_finish hs]; simp_all)
      | simp_all [code, RuneError]

end StateFns

/-! ## What the rune after decides -/

section Outcome

variable {st : LexState} {n : Nat} {cur a b : Nat × Nat}

/-- A pass that does not read the rune after its own decides the same when
a neutral rune follows instead. -/
theorem passOutcome_neutral (hb : NeutralRune b.1) (h : (passOutcome st n cur a).1 = false) :
    passOutcome st n cur b = passOutcome st n cur a := by
  unfold NeutralRune at hb
  cases st <;> simp only [passOutcome] at h ⊢ <;> (try split_ifs at h ⊢) <;> simp_all

/-- A pass that stops reads only its own rune, whatever follows it. -/
theorem passOutcome_stop (h : (passOutcome st n cur a).2.1 = none) :
    passOutcome st n cur b = passOutcome st n cur a ∧ (passOutcome st n cur a).1 = false := by
  cases st <;> simp only [passOutcome] at h ⊢ <;> (try split_ifs at h ⊢) <;> simp_all

/-- No pass moves to `placeholderState`. -/
theorem passOutcome_ne_placeholder (hst : st ≠ .placeholder) :
    (passOutcome st n cur a).2.1 ≠ some .placeholder := by
  cases st <;> simp only [passOutcome] <;> (try split_ifs) <;> simp_all

/-- Only a multi-line comment is ever nested. -/
theorem passOutcome_depthOK (h : DepthOK st n) {st' : LexState}
    (hs : (passOutcome st n cur a).2.1 = some st') : DepthOK st' (passOutcome st n cur a).2.2 := by
  unfold DepthOK at h ⊢
  cases st <;> simp only [passOutcome] at hs ⊢ <;> (try split_ifs at hs ⊢) <;> simp_all

end Outcome

/-- A pass of a state other than `placeholderState` that starts no
placeholder is `passOutcome` of the rune it decodes and the rune after it,
carried out by `finish`. -/
theorem pass_eq_finish {l : SqlLexer} {st : LexState} (hs : l.stateFn = some st)
    (hst : st ≠ .placeholder) (hnd : ¬ (st = .raw ∧ AtPlaceholder l)) {cur next : Nat × Nat}
    (hc : decodeRune l.rest = cur) (hn : decodeRune (l.rest.drop cur.2) = next) :
    l.pass = l.finish (passWidth st l.nested cur next) (passOutcome st l.nested cur next).2 := by
  obtain ⟨r, w⟩ := cur
  unfold pass
  rw [hs]
  cases st with
  | raw => exact rawState_eq_finish hs (fun h => hnd ⟨rfl, h⟩) hc hn
  | singleQuote => exact quoteState_eq_finish (.inl ⟨rfl, rfl⟩) hs hc hn
  | doubleQuote => exact quoteState_eq_finish (.inr ⟨rfl, rfl⟩) hs hc hn
  | escapeString => exact escapeStringState_eq_finish hs hc hn
  | oneLineComment => exact oneLineCommentState_eq_finish hs hc hn
  | multilineComment => exact multilineCommentState_eq_finish hs hc hn
  | placeholder => exact absurd rfl hst

/-- What `pass_eq_finish` gives about the bytes read: never more than there
are, and at least the rune decoded. -/
theorem passWidth_le (st : LexState) (n : Nat) (s : Bytes) :
    passWidth st n (decodeRune s) (decodeRune (s.drop (decodeRune s).2)) ≤ s.length := by
  have h₁ := decodeRune_width_le s
  have h₂ := decodeRune_width_le (s.drop (decodeRune s).2)
  rw [List.length_drop] at h₂
  unfold passWidth
  split <;> omega

theorem le_passWidth (st : LexState) (n : Nat) (cur next : Nat × Nat) :
    cur.2 ≤ passWidth st n cur next := by
  unfold passWidth
  split <;> omega

theorem finish_some {l : SqlLexer} {w : Nat} {o : Option LexState × Nat} {st : LexState}
    (h : o.1 = some st) : l.finish w o = { l.advance w with stateFn := some st, nested := o.2 } := by
  simp only [finish, h]

theorem finish_none {l : SqlLexer} {w : Nat} {o : Option LexState × Nat} (h : o.1 = none) :
    l.finish w o = (l.advance w).halt := by
  simp only [finish, h]

/-- A pass that stops decodes `RuneError`, so it is at no placeholder. -/
theorem passOutcome_stop_runeError {st : LexState} {n : Nat} {cur next : Nat × Nat}
    (h : (passOutcome st n cur next).2.1 = none) : cur.1 = RuneError := by
  cases st <;> simp only [passOutcome] at h <;> (try split_ifs at h) <;> simp_all

/-- On valid text a placeholder is a `$` before a digit. -/
theorem atPlaceholder_encodeString {l : SqlLexer} {c : Char} {cs : List Char}
    (hr : l.rest = encodeString (c :: cs)) (h : AtPlaceholder l) : c = '$' ∧ StartsWithDigit cs := by
  obtain ⟨hd, hlo, hhi⟩ := h
  have htail : l.rest.drop (decodeRune l.rest).2 = encodeString cs := by
    rw [decodeRune_rest hr, hr, encodeString_cons, List.drop_left]
  rw [htail, decodeRune_encodeString] at hlo hhi
  rw [decodeRune_rest hr] at hd
  refine ⟨Char.toNat_inj.mp hd, ?_⟩
  cases cs with
  | nil => simp [peek, RuneError, code] at hhi
  | cons d ds => exact ⟨d, rfl, hlo, hhi⟩

/-! ## Passes that go on, and the pass that stops -/

section Passes

variable {l : SqlLexer} {st : LexState}

/-- A text pass that does not stop reads at least one byte: at the end of
the input every such state stops. -/
theorem pass_rest_lt (hs : l.stateFn = some st) (hst : st ≠ .placeholder)
    (hnd : ¬ (st = .raw ∧ AtPlaceholder l)) (hgo : l.pass.stateFn ≠ none) :
    l.pass.rest.length < l.rest.length := by
  by_cases hr : l.rest = []
  · rw [pass_eof hs hst hr, halt_stateFn] at hgo
    exact absurd rfl hgo
  have hp := pass_eq_finish hs hst hnd rfl rfl
  have h₁ := one_le_width hr
  have h₂ := le_passWidth st l.nested (decodeRune l.rest) (decodeRune (l.rest.drop (decodeRune l.rest).2))
  have h₃ : 0 < l.rest.length := List.length_pos_of_ne_nil hr
  rw [hp, finish_rest, List.length_drop]
  omega

/-- A text pass that does not stop moves to a text state, at a depth that
state allows. -/
theorem pass_next (hs : l.stateFn = some st) (hst : st ≠ .placeholder)
    (hnd : ¬ (st = .raw ∧ AtPlaceholder l)) (hdep : DepthOK st l.nested) {st' : LexState}
    (hgo : l.pass.stateFn = some st') : st' ≠ .placeholder ∧ DepthOK st' l.pass.nested := by
  have hp := pass_eq_finish hs hst hnd rfl rfl
  rw [hp, finish_stateFn] at hgo
  rw [hp, finish_some hgo]
  exact ⟨fun h => passOutcome_ne_placeholder hst (hgo.trans (congrArg some h)),
    passOutcome_depthOK hdep hgo⟩

/-- A text pass that stops reads the rune it decodes and nothing after it,
and the text read since the last part becomes a part. Any lexer in the same
state and at the same depth whose input starts with the same rune stops the
same way. -/
theorem pass_stop (hs : l.stateFn = some st) (hst : st ≠ .placeholder) {cur next : Nat × Nat}
    (hc : decodeRune l.rest = cur) (hstop : (passOutcome st l.nested cur next).2.1 = none) :
    l.pass = (l.advance cur.2).halt := by
  have hnd : ¬ (st = .raw ∧ AtPlaceholder l) := by
    rintro ⟨-, hat, -⟩
    rw [hc, passOutcome_stop_runeError hstop] at hat
    exact absurd hat (by decide)
  have hp := pass_eq_finish hs hst hnd hc rfl
  obtain ⟨he, hfalse⟩ := passOutcome_stop (b := decodeRune (l.rest.drop cur.2)) hstop
  rw [hp, he, finish_none hstop]
  simp [passWidth, he, hfalse]

end Passes

/-! ## Moving text between contexts -/

/-- `x` before `f₁` and `x` before `f₂`: a rune that starts inside `x`, and
that the first decodes within `x`, is decoded the same by the second. -/
def AgreeOn (x f₁ f₂ : Bytes) : Prop :=
  ∀ y, y ≠ [] → y <:+ x → (decodeRune (y ++ f₁)).2 ≤ y.length →
    decodeRune (y ++ f₂) = decodeRune (y ++ f₁)

/-- What follows a stretch looks the same to the last pass over it: the same
rune, or a neutral one on either side, the first not the end of the input. -/
def FollowOK (f₁ f₂ : Bytes) : Prop :=
  decodeRune f₁ = decodeRune f₂ ∨
    f₁ ≠ [] ∧ NeutralRune (decodeRune f₁).1 ∧ NeutralRune (decodeRune f₂).1

/-- Nothing, or an ASCII byte: no rune runs into it. -/
def AsciiHead (f : Bytes) : Prop := ∀ a ∈ f.head?, a.toNat < 0x80

theorem asciiHead_cons {a : UInt8} (h : a.toNat < 0x80) (z : Bytes) : AsciiHead (a :: z) := by
  intro b hb
  rw [List.head?_cons, Option.mem_def, Option.some.injEq] at hb
  exact hb ▸ h

theorem AgreeOn.drop {x f₁ f₂ : Bytes} (h : AgreeOn x f₁ f₂) (k : Nat) :
    AgreeOn (x.drop k) f₁ f₂ :=
  fun y hy hsuf hw => h y hy (hsuf.trans (List.drop_suffix k x)) hw

theorem decodeRune_append_asciiHead {y f : Bytes} (hy : y ≠ []) (hf : AsciiHead f) :
    decodeRune (y ++ f) = decodeRune y := by
  cases f with
  | nil => rw [List.append_nil]
  | cons a z => exact decodeRune_append_ascii hy (hf a rfl) z

/-- Text followed by an ASCII byte or by nothing, on either side. -/
theorem agreeOn_ascii {x f₁ f₂ : Bytes} (h₁ : AsciiHead f₁) (h₂ : AsciiHead f₂) :
    AgreeOn x f₁ f₂ := by
  intro y hy _ _
  rw [decodeRune_append_asciiHead hy h₁, decodeRune_append_asciiHead hy h₂]

/-- Text with what follows it cut: the runes decoded within `x` before `g ++ d`
are decoded the same before `g` alone. -/
theorem agreeOn_append (x g d : Bytes) : AgreeOn x (g ++ d) g := by
  intro y hy _ hw
  have h₁ := decodeRune_append_of_le hy (g ++ d) hw
  have hyg : y ++ g ≠ [] := by simp [hy]
  have h₂ := decodeRune_append_of_le hyg d (by
    rw [List.append_assoc, h₁, List.length_append]
    have := decodeRune_width_le y
    omega)
  rw [List.append_assoc] at h₂
  exact h₂.symm

theorem neutralRune_of_high {r : Nat} (h : 0x80 ≤ r) : NeutralRune r := by
  simp only [NeutralRune, code]
  refine ⟨?_, ?_, ?_, ?_, ?_, ?_⟩ <;> simp <;> omega

theorem neutralRune_runeError : NeutralRune RuneError := by decide

/-- The rune that starts `k` bytes into `x` is decoded the same before `f₂` as
before `f₁`, or it runs past `x` and is neutral before `f₂`. -/
theorem decodeRune_drop_transfer {x f₁ f₂ : Bytes} (k : Nat) (hagree : AgreeOn x f₁ f₂)
    (hfollow : FollowOK f₁ f₂) :
    decodeRune (x.drop k ++ f₂) = decodeRune (x.drop k ++ f₁) ∨
      NeutralRune (decodeRune (x.drop k ++ f₂)).1 ∧
        x.length < k + (decodeRune (x.drop k ++ f₁)).2 := by
  by_cases hy : x.drop k = []
  · have hk : x.length ≤ k := by simpa using hy
    rw [hy, List.nil_append, List.nil_append]
    rcases hfollow with he | ⟨hne, -, hneu⟩
    · exact .inl he.symm
    · exact .inr ⟨hneu, by have := one_le_width hne; omega⟩
  by_cases hfit : (decodeRune (x.drop k ++ f₁)).2 ≤ (x.drop k).length
  · exact .inl (hagree _ hy (List.drop_suffix _ _) hfit)
  -- the rune runs past `x`: it starts with a byte past ASCII on both sides
  obtain ⟨b, z, hbz⟩ := List.exists_cons_of_ne_nil hy
  have hb : 0x80 ≤ b.toNat := by
    by_contra hb
    rw [hbz, List.cons_append, decodeRune_ascii (by omega)] at hfit
    simp at hfit
  refine .inr ⟨?_, ?_⟩
  · rw [hbz, List.cons_append]
    exact neutralRune_of_high (le_decodeRune_of_high hb _)
  · rw [List.length_drop] at hfit
    omega

section PassTransfer

variable {l₁ l₂ : SqlLexer} {st : LexState} {x f₁ f₂ : Bytes}

/-- One text pass over `x` before `f₁` that reads no further than `x`: over
`x` before `f₂`, in the same state and at the same depth, it starts no
placeholder either, reads as many bytes and decides the same. -/
theorem pass_transfer (hs₁ : l₁.stateFn = some st) (hst : st ≠ .placeholder)
    (hnd : ¬ (st = .raw ∧ AtPlaceholder l₁)) (hx : x ≠ []) (hr₁ : l₁.rest = x ++ f₁)
    (hin : f₁.length ≤ l₁.pass.rest.length) (hagree : AgreeOn x f₁ f₂) (hfollow : FollowOK f₁ f₂)
    (hs₂ : l₂.stateFn = some st) (hn : l₂.nested = l₁.nested) (hr₂ : l₂.rest = x ++ f₂) :
    ¬ (st = .raw ∧ AtPlaceholder l₂) ∧
      ∃ w o, w ≤ x.length ∧ l₁.pass = l₁.finish w o ∧ l₂.pass = l₂.finish w o := by
  have hlen := passWidth_le st l₁.nested (x ++ f₁)
  have hp₁ := pass_eq_finish hs₁ hst hnd (show decodeRune l₁.rest = decodeRune (x ++ f₁) by rw [hr₁])
    (by rw [hr₁])
  set cur := decodeRune (x ++ f₁) with hcur
  set next := decodeRune ((x ++ f₁).drop cur.2) with hnext
  -- the pass reads within `x`, its own rune too
  have hw : passWidth st l₁.nested cur next ≤ x.length := by
    rw [hp₁, finish_rest, hr₁, List.length_drop] at hin
    rw [List.length_append] at hin hlen
    omega
  have hc : cur.2 ≤ x.length := (le_passWidth st l₁.nested cur next).trans hw
  have hc₂ : decodeRune (x ++ f₂) = cur := hagree x hx (List.suffix_refl x) hc
  have hdrop : ∀ f, (x ++ f).drop cur.2 = x.drop cur.2 ++ f :=
    fun f => List.drop_append_of_le_length hc
  -- the rune after it, over `f₂`: the same, or neutral with the pass not reading it
  have hnext' : next = decodeRune (x.drop cur.2 ++ f₁) := by rw [hnext, hdrop]
  -- the rune after it, over `f₂`: the same, or neutral with the pass not reading it
  have hnext₂ : decodeRune ((x ++ f₂).drop cur.2) = next ∨
      NeutralRune (decodeRune ((x ++ f₂).drop cur.2)).1 ∧
        (passOutcome st l₁.nested cur next).1 = false := by
    rw [hdrop f₂]
    rcases decodeRune_drop_transfer cur.2 hagree hfollow with he | ⟨hneu, hpast⟩
    · exact .inl (he.trans hnext'.symm)
    -- a pass that read it would read past `x`
    refine .inr ⟨hneu, Bool.eq_false_iff.mpr fun h => ?_⟩
    have hwidth : passWidth st l₁.nested cur next = cur.2 + next.2 := by simp [passWidth, h]
    rw [← hnext'] at hpast
    omega
  have hout : passOutcome st l₁.nested cur (decodeRune ((x ++ f₂).drop cur.2)) =
        passOutcome st l₁.nested cur next ∧
      passWidth st l₁.nested cur (decodeRune ((x ++ f₂).drop cur.2)) =
        passWidth st l₁.nested cur next := by
    rcases hnext₂ with he | ⟨hneu, hfalse⟩
    · rw [he]
      exact ⟨rfl, rfl⟩
    · have he := passOutcome_neutral hneu hfalse
      exact ⟨he, by simp [passWidth, he, hfalse]⟩
  have hnd₂ : ¬ (st = .raw ∧ AtPlaceholder l₂) := by
    rintro ⟨rfl, hat⟩
    unfold AtPlaceholder at hat
    rw [hr₂, hc₂] at hat
    rcases hnext₂ with he | ⟨hneu, -⟩
    · rw [he] at hat
      exact hnd ⟨rfl, by unfold AtPlaceholder; rw [hr₁]; exact hat⟩
    · exact hneu.2.2.2.2.2 hat.2
  have hp₂ := pass_eq_finish hs₂ hst hnd₂ (show decodeRune l₂.rest = cur by rw [hr₂, hc₂])
    (show decodeRune (l₂.rest.drop cur.2) = decodeRune ((x ++ f₂).drop cur.2) by rw [hr₂])
  rw [hn, hout.1, hout.2] at hp₂
  exact ⟨hnd₂, _, _, hw, hp₁, hp₂⟩

end PassTransfer

/-! ## Text runs on any bytes -/

/-- Text passes on any bytes: passes of states other than `placeholderState`
that start no placeholder and do not stop the lexer, in the states `L`. -/
inductive TextRun : SqlLexer → SqlLexer → List LexState → Prop
  | refl (l : SqlLexer) : TextRun l l []
  | pass {l l' : SqlLexer} {st : LexState} {L : List LexState} :
      l.stateFn = some st → st ≠ .placeholder → ¬ (st = .raw ∧ AtPlaceholder l) →
      l.pass.stateFn ≠ none → TextRun l.pass l' L →
      TextRun l l' (List.replicate (l.rest.length - l.pass.rest.length) st ++ L)

namespace TextRun

variable {l l' l'' : SqlLexer} {L L' : List LexState}

theorem steps (h : TextRun l l' L) : Steps l l' L := by
  induction h with
  | refl => exact .refl _
  | pass hs _ _ _ _ ih => exact .pass hs ih

theorem trans (h₁ : TextRun l l' L) (h₂ : TextRun l' l'' L') : TextRun l l'' (L ++ L') := by
  induction h₁ with
  | refl => exact h₂
  | pass hs hst hnd hgo _ ih => rw [List.append_assoc]; exact .pass hs hst hnd hgo (ih h₂)

/-- A text run moves the bytes it reads to the pending text, one state a
byte. -/
theorem moves (h : TextRun l l' L) : Moves l l' ∧ l'.rest.length + L.length = l.rest.length := by
  induction h with
  | refl => exact ⟨⟨rfl, 0, by simp, by simp⟩, by simp⟩
  | @pass l l' st L hs hst hnd hgo _ ih =>
    have hm : Moves l l.pass := by
      rcases textPass_pass hs hst hnd with ⟨hm, -, -⟩ | ⟨l₁, -, he⟩
      · exact hm
      · rw [he, halt_stateFn] at hgo
        exact absurd rfl hgo
    obtain ⟨k, -, hk⟩ := hm.moved
    refine ⟨hm.trans ih.1, ?_⟩
    have := ih.2
    rw [hk, List.length_drop] at this ⊢
    simp only [List.length_append, List.length_replicate]
    omega

/-- `TextRun` is what `TextSteps` proves on valid text. -/
theorem of_textSteps (h : TextSteps l l' L) : TextRun l l' L := by
  induction h with
  | refl => exact .refl _
  | @pass l l' st c cs L hs hst hr hd _ ih =>
    have hp := pass_runes hs hst hr hd
    have hlen := length_sub_took hr (passRunes st l.nested c cs.head?)
    rw [← hp] at ih hlen
    rw [← hlen]
    exact .pass hs hst (fun ⟨h₁, h₂⟩ => hd ⟨h₁, atPlaceholder_encodeString hr h₂⟩)
      (by rw [hp]; simp) ih

/-- Moving a text run: passes over `x` before `f₁` that end where `x` ends are
the same passes, in the same states, over `x` before `f₂`, when the runes
decoded inside `x` are decoded the same (`AgreeOn`) and the last pass sees
the same after `x` (`FollowOK`). The pending text grows by `x` either way. -/
theorem transfer {l₁ l₁' : SqlLexer} (h : TextRun l₁ l₁' L) :
    ∀ {x f₁ f₂ : Bytes} {l₂ : SqlLexer}, l₁.rest = x ++ f₁ → l₁'.rest = f₁ →
      AgreeOn x f₁ f₂ → FollowOK f₁ f₂ → l₂.stateFn = l₁.stateFn → l₂.nested = l₁.nested →
      l₂.rest = x ++ f₂ →
      ∃ l₂', TextRun l₂ l₂' L ∧ l₂'.rest = f₂ ∧ l₂'.stateFn = l₁'.stateFn ∧
        l₂'.nested = l₁'.nested ∧ l₂'.pending = l₂.pending ++ x ∧ l₂'.parts = l₂.parts := by
  induction h with
  | refl l =>
    intro x f₁ f₂ l₂ hr₁ hr₁' _ _ hs₂ hn₂ hr₂
    -- no pass: `x` is empty
    have hx : x = [] := by
      have := congrArg List.length (hr₁.symm.trans hr₁')
      rw [List.length_append] at this
      exact List.eq_nil_of_length_eq_zero (by omega)
    subst hx
    exact ⟨l₂, .refl _, by simpa using hr₂, hs₂, hn₂, by simp, rfl⟩
  | @pass l l' st L hs hst hnd hgo hrun ih =>
    intro x f₁ f₂ l₂ hr₁ hr₁' hagree hfollow hs₂ hn₂ hr₂
    -- the pass reads at least one byte, and the passes after it reach `f₁`
    have hlt := pass_rest_lt hs hst hnd hgo
    have hin : f₁.length ≤ l.pass.rest.length := by
      have := hrun.moves.2
      rw [hr₁'] at this
      omega
    have hx : x ≠ [] := by
      rintro rfl
      rw [hr₁, List.nil_append] at hlt
      omega
    obtain ⟨hnd₂, w, o, hw, hp₁, hp₂⟩ :=
      pass_transfer hs hst hnd hx hr₁ hin hagree hfollow (hs₂.trans hs) hn₂ hr₂
    obtain ⟨st', ho⟩ : ∃ st', o.1 = some st' := by
      rw [hp₁, finish_stateFn] at hgo
      exact Option.ne_none_iff_exists'.mp hgo
    have hr₁p : l.pass.rest = x.drop w ++ f₁ := by
      rw [hp₁, finish_rest, hr₁, List.drop_append_of_le_length hw]
    have hr₂p : l₂.pass.rest = x.drop w ++ f₂ := by
      rw [hp₂, finish_rest, hr₂, List.drop_append_of_le_length hw]
    obtain ⟨l₂', hrun₂, hrest, hst', hn', hpend, hparts⟩ :=
      ih hr₁p hr₁' (hagree.drop w) hfollow (by rw [hp₁, hp₂, finish_stateFn, finish_stateFn])
        (by rw [hp₁, hp₂, finish_some ho, finish_some ho]) hr₂p
    refine ⟨l₂', ?_, hrest, hst', hn', ?_, ?_⟩
    · -- the pass reads `w` bytes on both sides
      have hlen : l₂.rest.length - l₂.pass.rest.length = l.rest.length - l.pass.rest.length := by
        rw [hr₂p, hr₁p, hr₁, hr₂]
        simp only [List.length_append, List.length_drop]
        omega
      rw [← hlen]
      exact .pass (hs₂.trans hs) hst hnd₂ (by rw [hp₂, finish_some ho]; simp) hrun₂
    · rw [hpend, hp₂, finish_some ho]
      simp only [advance, hr₂, List.take_append_of_le_length hw, List.append_assoc,
        List.take_append_drop]
    · rw [hparts, hp₂, finish_some ho]
      rfl

end TextRun

/-- The text passes from a state other than `placeholderState`, on any bytes:
they go on until a `rawState` pass would start a placeholder or a pass would
stop the lexer. By induction on the input left, which each pass shortens. -/
theorem textRun_phase (l : SqlLexer) {st : LexState} (hs : l.stateFn = some st)
    (hst : st ≠ .placeholder) (hdep : DepthOK st l.nested) :
    ∃ l₁ L st₁, TextRun l l₁ L ∧ l₁.stateFn = some st₁ ∧ st₁ ≠ .placeholder ∧
      DepthOK st₁ l₁.nested ∧
      (st₁ = .raw ∧ AtPlaceholder l₁ ∨ ¬ (st₁ = .raw ∧ AtPlaceholder l₁) ∧ l₁.pass.stateFn = none) := by
  by_cases hat : st = .raw ∧ AtPlaceholder l
  · exact ⟨l, [], st, .refl l, hs, hst, hdep, .inl hat⟩
  rcases hgo : l.pass.stateFn with _ | st'
  · exact ⟨l, [], st, .refl l, hs, hst, hdep, .inr ⟨hat, hgo⟩⟩
  -- the pass goes on in a text state
  have hgo' : l.pass.stateFn ≠ none := by rw [hgo]; simp
  have hlt := pass_rest_lt hs hst hat hgo'
  obtain ⟨hst', hdep'⟩ := pass_next hs hst hat hdep hgo
  obtain ⟨l₁, L, st₁, hrun, h₁⟩ := textRun_phase l.pass hgo hst' hdep'
  exact ⟨l₁, _, st₁, .pass hs hst hat hgo' hrun, h₁⟩
termination_by l.rest.length

end SqlLexer

end GaussdbGo.Sanitize
