import GaussdbGo.Sanitize.Trace

/-!
# internal/sanitize — the parts of any statement

The input is any byte string, as a Go `string` may be, and the statement is
what every pass of the lexer keeps (`Read`): the parts so far, then the part
being lexed, then the input left, make up `sql`, and the states the bytes were
read in are those of the parts, in order. A text part comes from its own bytes; a placeholder
from a `$` read in `rawState` and the digits read in `placeholderState`, with
the value they have once `num*10 + d` has wrapped in an `int`.

Passes are of three kinds: a text pass moves bytes to the pending text
(`TextPass`), a `rawState` pass at a `$` before a digit starts a placeholder
(`rawState_atPlaceholder`), and a `placeholderState` pass reads a digit or
ends the number (`placeholderState_digit_or_exit`). A text pass stops the
lexer at the first byte that starts no rune, and the input after it is never
read: the parts tile a prefix of `sql`, all of it when `sql` is valid UTF-8
(`queryParts_tile`).
-/

namespace GaussdbGo.Sanitize

open GoStd.Utf8

/-- `'0' <= r && r <= '9'`, for a byte read as a rune. -/
def IsDigitByte (b : UInt8) : Prop := 48 ≤ b.toNat ∧ b.toNat ≤ 57

instance (b : UInt8) : Decidable (IsDigitByte b) := inferInstanceAs (Decidable (_ ∧ _))

/-- The decimal value of a run of digits. -/
def decimalValue (ds : Bytes) : Nat := ds.foldl (fun n d => n * 10 + (d.toNat - 48)) 0

theorem decimalValue_snoc (ds : Bytes) (d : UInt8) :
    decimalValue (ds ++ [d]) = decimalValue ds * 10 + (d.toNat - 48) := by
  simp [decimalValue, List.foldl_append]

/-- How a part was lexed: a text from its own bytes, in whatever states; a
placeholder from its `$`, read in `rawState`, and a run of digits, read in
`placeholderState`, whose decimal value its number is as an `int` holds it. -/
def PartRead : Part → Bytes → List LexState → Prop
  | .text t, src, seg => src = t ∧ seg.length = t.length
  | .arg n, src, seg => ∃ ds, ds ≠ [] ∧ (∀ d ∈ ds, IsDigitByte d) ∧ src = 36 :: ds ∧
      seg = .raw :: List.replicate ds.length .placeholder ∧ n = Int64.ofNat (decimalValue ds)

/-- Parts, the bytes they were lexed from and the states those bytes were read
in, part by part. -/
inductive PartsRead : List Part → Bytes → List LexState → Prop
  | nil : PartsRead [] [] []
  | snoc {ps : List Part} {p : Part} {src s : Bytes} {L seg : List LexState} :
      PartsRead ps src L → PartRead p s seg → PartsRead (ps ++ [p]) (src ++ s) (L ++ seg)

namespace SqlLexer

theorem pass_eq_rawState {l : SqlLexer} (hs : l.stateFn = some .raw) : l.pass = l.rawState := by
  unfold pass; rw [hs]

theorem pass_eq_placeholderState {l : SqlLexer} (hs : l.stateFn = some .placeholder) :
    l.pass = l.placeholderState := by
  unfold pass; rw [hs]

theorem halt_parts (l : SqlLexer) :
    l.halt.parts = l.parts ++ (if l.pending = [] then [] else [.text l.pending]) := by
  unfold halt
  by_cases h : l.pending = []
  · simp [h]
  · simp [h, List.length_pos_of_ne_nil h]

/-! ## The kinds of pass -/

/-- A pass, or a stretch of one, that moves bytes from the input to the
pending text and leaves the parts as they are. -/
structure Moves (l l₁ : SqlLexer) : Prop where
  parts : l₁.parts = l.parts
  moved : ∃ k, l₁.pending = l.pending ++ l.rest.take k ∧ l₁.rest = l.rest.drop k

theorem moves_advance (l : SqlLexer) (k : Nat) : Moves l (l.advance k) :=
  ⟨rfl, k, rfl, rfl⟩

theorem Moves.trans {l l₁ l₂ : SqlLexer} (h₁ : Moves l l₁) (h₂ : Moves l₁ l₂) : Moves l l₂ := by
  obtain ⟨k₁, hp₁, hr₁⟩ := h₁.moved
  obtain ⟨k₂, hp₂, hr₂⟩ := h₂.moved
  refine ⟨h₂.parts.trans h₁.parts, k₁ + k₂, ?_, ?_⟩
  · rw [hp₂, hp₁, hr₁, List.take_add, List.append_assoc]
  · rw [hr₂, hr₁, List.drop_drop]

/-- Only the parts, the pending text and the input left matter to `Moves`. -/
theorem Moves.congr {l l₁ l₂ : SqlLexer} (h : Moves l l₁) (hp : l₂.parts = l₁.parts)
    (hpend : l₂.pending = l₁.pending) (hr : l₂.rest = l₁.rest) : Moves l l₂ := by
  obtain ⟨k, hk₁, hk₂⟩ := h.moved
  exact ⟨hp.trans h.parts, k, hpend.trans hk₁, hr.trans hk₂⟩

/-- A pass that reads text: it moves bytes to the pending text and goes on in
a state other than `placeholderState`, or stops with `halt`. -/
def TextPass (l l' : SqlLexer) : Prop :=
  (Moves l l' ∧ l'.stateFn ≠ none ∧ l'.stateFn ≠ some .placeholder) ∨
    ∃ l₁, Moves l l₁ ∧ l' = l₁.halt

theorem textPass_runeError {l l₁ : SqlLexer} (h : Moves l l₁) (hs : l₁.stateFn ≠ none)
    (hs' : l₁.stateFn ≠ some .placeholder) (w : Nat) : TextPass l (l₁.runeError w) := by
  unfold runeError
  split
  · exact .inr ⟨l₁, h, rfl⟩
  · exact .inl ⟨h, hs, hs'⟩

/-- A `rawState` pass at a `$` before a digit, by the runes it decodes. -/
def AtPlaceholder (l : SqlLexer) : Prop :=
  (decodeRune l.rest).1 = code '$' ∧
    code '0' ≤ (decodeRune (l.rest.drop (decodeRune l.rest).2)).1 ∧
      (decodeRune (l.rest.drop (decodeRune l.rest).2)).1 ≤ code '9'

/-- Every pass of a state other than `placeholderState` reads text, except a
`rawState` pass at a placeholder. -/
theorem textPass_pass {l : SqlLexer} {st : LexState} (hs : l.stateFn = some st)
    (hst : st ≠ .placeholder) (hnd : ¬ (st = .raw ∧ AtPlaceholder l)) : TextPass l l.pass := by
  unfold pass
  rw [hs]
  rcases hd : decodeRune l.rest with ⟨r, w⟩
  cases st <;>
    simp only [rawState, singleQuoteState, doubleQuoteState, quoteState, escapeStringState,
      oneLineCommentState, multilineCommentState, hd] <;>
    (repeat' split)
  all_goals first
    | exact textPass_runeError (moves_advance l w) (by simp [hs]) (by simp [hs, hst]) w
    | exact Or.inl ⟨(moves_advance l w).congr rfl rfl rfl, by simp [hs], by simp [hs, hst]⟩
    | exact Or.inl ⟨((moves_advance l w).trans (moves_advance _ _)).congr rfl rfl rfl, by simp [hs],
        by simp [hs, hst]⟩
    | exact absurd ⟨rfl, by rw [AtPlaceholder, hd]; exact ⟨‹_›, ‹_›⟩⟩ hnd
    | exact absurd rfl hst

/-- A rune from `'0'` to `'9'` is decoded from one digit byte. -/
theorem decodeRune_digit {s : List UInt8} (hlo : code '0' ≤ (decodeRune s).1)
    (hhi : (decodeRune s).1 ≤ code '9') :
    (decodeRune s).2 = 1 ∧ ∃ d t, s = d :: t ∧ IsDigitByte d ∧ (decodeRune s).1 = d.toNat := by
  rcases hd : decodeRune s with ⟨r, w⟩
  rw [hd] at hlo hhi
  have hr : r < 0x80 := by simp only [code] at hhi; exact Nat.lt_of_le_of_lt hhi (by decide)
  obtain ⟨hw, t, ht⟩ := decodeRune_eq_ascii hd hr
  have hd' : (UInt8.ofNat r).toNat = r := toNat_ofNat_small (by omega)
  refine ⟨hw, UInt8.ofNat r, t, ht, ?_, hd'.symm⟩
  simp only [code] at hlo hhi
  exact ⟨by rw [hd']; exact hlo, by rw [hd']; exact hhi⟩

/-- A `rawState` pass at a placeholder: the `$` and the digit after it are a
byte each; the text before the `$` becomes a part, empty or not, and
`placeholderState` starts with the digit still to read. -/
theorem rawState_atPlaceholder {l : SqlLexer} (h : AtPlaceholder l) :
    ∃ d t, l.rest = 36 :: d :: t ∧ IsDigitByte d ∧
      l.rawState = { l with
        parts := l.parts ++ [.text l.pending], pending := [], rest := d :: t,
        stateFn := some .placeholder, num := 0 } := by
  obtain ⟨hdollar, hlo, hhi⟩ := h
  rcases hd : decodeRune l.rest with ⟨r, w⟩
  rw [hd] at hdollar hlo hhi
  simp only [code] at hdollar
  obtain ⟨hw, t₀, ht₀⟩ := decodeRune_eq_ascii hd (by rw [hdollar]; decide)
  have h36 : UInt8.ofNat r = 36 := by rw [hdollar]; rfl
  subst hw
  have hrest : l.rest.drop 1 = t₀ := by rw [ht₀]; rfl
  rw [hrest] at hlo hhi
  obtain ⟨-, d, t, rfl, hdig, -⟩ := decodeRune_digit hlo hhi
  rw [h36] at ht₀
  refine ⟨d, t, ht₀, hdig, ?_⟩
  have hdig' : code '0' ≤ d.toNat ∧ d.toNat ≤ code '9' := hdig
  simp +decide [rawState, ht₀, decodeRune_ascii, advance, hdig', show d.toNat < 0x80 by
    unfold IsDigitByte at hdig; omega]

/-- A `placeholderState` pass: a digit byte is added to `num`; anything else
ends the number, which becomes a part, without being read. -/
theorem placeholderState_digit_or_exit (l : SqlLexer) :
    (∃ d t, l.rest = d :: t ∧ IsDigitByte d ∧
      l.placeholderState = { l with
        pending := l.pending ++ [d], rest := t, num := l.num * 10 + Int64.ofNat (d.toNat - 48) }) ∨
    ((¬ ∃ d t, l.rest = d :: t ∧ IsDigitByte d) ∧
      l.placeholderState = { l with
        parts := l.parts ++ [.arg l.num], pending := [], stateFn := some .raw }) := by
  by_cases hdig : code '0' ≤ (decodeRune l.rest).1 ∧ (decodeRune l.rest).1 ≤ code '9'
  · obtain ⟨hw, d, t, hr, hd, hrune⟩ := decodeRune_digit hdig.1 hdig.2
    refine .inl ⟨d, t, hr, hd, ?_⟩
    have hdig' : code '0' ≤ d.toNat ∧ d.toNat ≤ code '9' := hd
    simp only [placeholderState, hrune, hw, hdig', and_self, if_true]
    simp [advance, hr]
    rfl
  · refine .inr ⟨?_, ?_⟩
    · rintro ⟨d, t, hr, hd⟩
      have hasc : d.toNat < 0x80 := by unfold IsDigitByte at hd; omega
      rw [hr, decodeRune_ascii hasc] at hdig
      exact hdig hd
    · simp only [placeholderState]
      rw [if_neg hdig]

/-! ## What the lexer has read -/

/-- The part being lexed, as the bytes it comes from and the states they were
read in: in `placeholderState` its `$` and the digits read so far, whose value
`num` holds, with a digit still to read when there are none yet; otherwise the
text since the last part, which is empty once the lexer has stopped. -/
def PendingRead (l : SqlLexer) (src : Bytes) (seg : List LexState) : Prop :=
  if l.stateFn = some .placeholder then
    src = 36 :: l.pending ∧ seg = .raw :: List.replicate l.pending.length .placeholder ∧
      (∀ d ∈ l.pending, IsDigitByte d) ∧ l.num = Int64.ofNat (decimalValue l.pending) ∧
      (l.pending = [] → ∃ d t, l.rest = d :: t ∧ IsDigitByte d)
  else src = l.pending ∧ seg.length = l.pending.length ∧ (l.stateFn = none → l.pending = [])

/-- The lexer has read `sql` up to the input it has left, in the states `L`:
the parts so far, then the pending part. -/
def Read (sql : Bytes) (l : SqlLexer) (L : List LexState) : Prop :=
  ∃ src Lp s seg, PartsRead l.parts src Lp ∧ PendingRead l s seg ∧ src ++ s ++ l.rest = sql ∧
    L = Lp ++ seg

@[simp] theorem halt_pending (l : SqlLexer) : l.halt.pending = [] := by
  unfold halt
  split
  · rfl
  · rename_i h
    simpa using h

theorem read_start (sql : Bytes) : Read sql (start sql) [] :=
  ⟨[], [], [], [], .nil, by simp [PendingRead, start], rfl, rfl⟩

/-- A text pass: the bytes it reads join the pending text, which becomes a part
if the pass stops. -/
theorem Read.textPass {sql : Bytes} {l l' : SqlLexer} {L : List LexState} {st : LexState}
    (h : Read sql l L) (hs : l.stateFn = some st) (hst : st ≠ .placeholder) (hp : TextPass l l') :
    Read sql l' (L ++ List.replicate (l.rest.length - l'.rest.length) st) := by
  obtain ⟨src, Lp, s, seg, hparts, hpend, hsql, rfl⟩ := h
  have hne : l.stateFn ≠ some .placeholder := by rw [hs]; simpa using hst
  rw [PendingRead, if_neg hne] at hpend
  obtain ⟨rfl, hseg, -⟩ := hpend
  rcases hp with ⟨hm, hnone, hph⟩ | ⟨l₁, hm, rfl⟩
  · -- the lexer goes on
    obtain ⟨k, hk₁, hk₂⟩ := hm.moved
    refine ⟨src, Lp, l'.pending, seg ++ List.replicate (l.rest.length - l'.rest.length) st,
      hm.parts ▸ hparts, ?_, ?_, by rw [List.append_assoc]⟩
    · rw [PendingRead, if_neg hph]
      refine ⟨rfl, ?_, fun h => absurd h hnone⟩
      simp only [hk₁, hk₂, List.length_append, List.length_replicate, List.length_take,
        List.length_drop, hseg]
      omega
    · rw [hk₁, hk₂, ← hsql, List.append_assoc, List.append_assoc, List.append_assoc,
        List.take_append_drop]
  · -- the lexer stops: the pending text, if any, is the last part
    obtain ⟨k, hk₁, hk₂⟩ := hm.moved
    have hlen : l.rest.length - l₁.halt.rest.length = (l.rest.take k).length := by
      simp only [halt_rest, hk₂, List.length_drop, List.length_take]
      omega
    rw [hlen]
    have hstop : PendingRead l₁.halt [] [] := by simp [PendingRead]
    by_cases he : l₁.pending = []
    · have hp : l.pending = [] ∧ l.rest.take k = [] := by simpa [hk₁] using he
      refine ⟨src, Lp, [], [], ?_, hstop, ?_, ?_⟩
      · rw [halt_parts, he, if_pos rfl, List.append_nil, hm.parts]
        exact hparts
      · have hdrop : l.rest.drop k = l.rest := by
          conv_rhs => rw [← List.take_append_drop k l.rest, hp.2, List.nil_append]
        rw [halt_rest, hk₂, hdrop, ← hsql, hp.1, List.append_nil]
      · rw [hp.2, List.length_nil, List.replicate_zero, List.append_nil, List.append_nil,
          List.eq_nil_of_length_eq_zero (hseg.trans (by rw [hp.1]; rfl)), List.append_nil]
    · refine ⟨src ++ l₁.pending, Lp ++ (seg ++ List.replicate (l.rest.take k).length st), [], [],
        ?_, hstop, ?_, by simp⟩
      · rw [halt_parts, if_neg he, hm.parts]
        refine .snoc hparts ⟨rfl, ?_⟩
        simp [hk₁, hseg]
      · rw [halt_rest, hk₂, hk₁, ← hsql, List.append_nil, List.append_assoc, List.append_assoc,
          List.append_assoc, List.take_append_drop]

/-- The `$` of a placeholder: the text before it becomes a part, and the `$`
starts the next one, read in `rawState`. -/
theorem Read.atPlaceholder {sql : Bytes} {l : SqlLexer} {L : List LexState}
    (h : Read sql l L) (hs : l.stateFn = some .raw) (hat : AtPlaceholder l) :
    Read sql l.rawState (L ++ List.replicate (l.rest.length - l.rawState.rest.length) .raw) := by
  obtain ⟨src, Lp, s, seg, hparts, hpend, hsql, rfl⟩ := h
  rw [PendingRead, if_neg (by rw [hs]; decide)] at hpend
  obtain ⟨rfl, hseg, -⟩ := hpend
  obtain ⟨d, t, hr, hd, he⟩ := rawState_atPlaceholder hat
  rw [he]
  refine ⟨src ++ l.pending, Lp ++ seg, [36], [.raw], .snoc hparts ⟨rfl, hseg⟩, ?_, ?_, ?_⟩
  · rw [PendingRead, if_pos rfl]
    exact ⟨rfl, rfl, by simp, rfl, fun _ => ⟨d, t, rfl, hd⟩⟩
  · rw [← hsql, hr]
    simp
  · simp [hr]

/-- A digit of a placeholder: it joins the digits read so far, and `num`
follows their value. -/
theorem Read.placeholderDigit {sql : Bytes} {l : SqlLexer} {L : List LexState} {d : UInt8}
    {t : Bytes} (h : Read sql l L) (hs : l.stateFn = some .placeholder) (hr : l.rest = d :: t)
    (hd : IsDigitByte d) :
    Read sql { l with
        pending := l.pending ++ [d], rest := t, num := l.num * 10 + Int64.ofNat (d.toNat - 48) }
      (L ++ List.replicate (l.rest.length - t.length) .placeholder) := by
  obtain ⟨src, Lp, s, seg, hparts, hpend, hsql, rfl⟩ := h
  rw [PendingRead, if_pos hs] at hpend
  obtain ⟨rfl, rfl, hds, hnum, -⟩ := hpend
  refine ⟨src, Lp, 36 :: (l.pending ++ [d]), .raw :: List.replicate (l.pending.length + 1) .placeholder,
    hparts, ?_, ?_, ?_⟩
  · rw [PendingRead, if_pos hs]
    refine ⟨rfl, by simp, ?_, ?_, by simp⟩
    · intro e he
      rcases List.mem_append.mp he with he | he
      · exact hds e he
      · rw [List.mem_singleton.mp he]
        exact hd
    · show l.num * 10 + Int64.ofNat (d.toNat - 48) = Int64.ofNat (decimalValue (l.pending ++ [d]))
      rw [hnum, decimalValue_snoc, Int64.ofNat_add, Int64.ofNat_mul]
      rfl
  · rw [← hsql, hr]
    simp
  · simp [hr, List.replicate_succ']

/-- The end of a placeholder: the `$` and its digits become a part. -/
theorem Read.placeholderExit {sql : Bytes} {l : SqlLexer} {L : List LexState}
    (h : Read sql l L) (hs : l.stateFn = some .placeholder)
    (hnd : ¬ ∃ d t, l.rest = d :: t ∧ IsDigitByte d) :
    Read sql { l with parts := l.parts ++ [.arg l.num], pending := [], stateFn := some .raw } L := by
  obtain ⟨src, Lp, s, seg, hparts, hpend, hsql, rfl⟩ := h
  rw [PendingRead, if_pos hs] at hpend
  obtain ⟨rfl, rfl, hds, hnum, hfirst⟩ := hpend
  -- the first digit was there when the placeholder started
  have hne : l.pending ≠ [] := fun he => hnd (hfirst he)
  refine ⟨src ++ 36 :: l.pending, Lp ++ .raw :: List.replicate l.pending.length .placeholder, [], [],
    .snoc hparts ⟨l.pending, hne, hds, rfl, rfl, hnum⟩, by simp [PendingRead], ?_, by simp⟩
  rw [← hsql]
  simp

/-- Every pass keeps `Read`, with the bytes it reads in the state it runs in. -/
theorem Read.pass {sql : Bytes} {l : SqlLexer} {L : List LexState} {st : LexState}
    (h : Read sql l L) (hs : l.stateFn = some st) :
    Read sql l.pass (L ++ List.replicate (l.rest.length - l.pass.rest.length) st) := by
  by_cases hph : st = .placeholder
  · subst hph
    rw [pass_eq_placeholderState hs]
    rcases placeholderState_digit_or_exit l with ⟨d, t, hr, hd, he⟩ | ⟨hnd, he⟩
    · rw [he]
      exact h.placeholderDigit hs hr hd
    · rw [he, Nat.sub_self, List.replicate_zero, List.append_nil]
      exact h.placeholderExit hs hnd
  · by_cases hat : st = .raw ∧ AtPlaceholder l
    · obtain ⟨rfl, hat⟩ := hat
      rw [pass_eq_rawState hs]
      exact h.atPlaceholder hs hat
    · exact h.textPass hs hph (textPass_pass hs hph hat)

/-- On valid input every pass reads whole runes, and stops only at the end:
nothing decodes to an error but the end of the input, and a literal U+FFFD is
three bytes wide. -/
theorem validRest_pass {l : SqlLexer} {st : LexState} (hs : l.stateFn = some st)
    (hv : Valid l.rest) : Valid l.pass.rest ∧ (l.pass.stateFn = none → l.pass.rest = []) := by
  obtain ⟨cs, hr⟩ := hv
  by_cases hph : st = .placeholder
  · -- `placeholderState` never stops
    subst hph
    rw [pass_eq_placeholderState hs]
    by_cases hd : StartsWithDigit cs
    · obtain ⟨d, hhead, hdig⟩ := hd
      obtain ⟨cs', rfl⟩ : ∃ cs', cs = d :: cs' := by
        cases cs with
        | nil => simp at hhead
        | cons c cs' => exact ⟨cs', by simpa using hhead⟩
      rw [placeholderState_digit hr hdig]
      exact ⟨⟨cs', rfl⟩, by simp [hs]⟩
    · rw [placeholderState_exit hr hd]
      exact ⟨⟨cs, hr⟩, by simp⟩
  · cases cs with
    | nil =>
      rw [pass_eof hs hph hr, halt_rest, hr]
      exact ⟨⟨[], rfl⟩, fun _ => rfl⟩
    | cons c cs =>
      by_cases hd : st = .raw ∧ c = '$' ∧ StartsWithDigit cs
      · obtain ⟨rfl, rfl, d, hhead, hdig⟩ := hd
        obtain ⟨cs', rfl⟩ : ∃ cs', cs = d :: cs' := by
          cases cs with
          | nil => simp at hhead
          | cons e cs' => exact ⟨cs', by simpa using hhead⟩
        rw [pass_eq_rawState hs, rawState_dollar hr hdig]
        exact ⟨⟨d :: cs', rfl⟩, by simp⟩
      · rw [pass_runes hs hph hr hd]
        exact ⟨⟨_, took_rest hr _⟩, by simp⟩

/-- What the lexer has read of `sql`, and, when `sql` is valid, that it is at a
rune boundary and stops only at the end. -/
structure Lexed (sql : Bytes) (l : SqlLexer) (L : List LexState) : Prop where
  read : Read sql l L
  valid : Valid sql → Valid l.rest ∧ (l.stateFn = none → l.rest = [])

theorem lexed_start (sql : Bytes) : Lexed sql (start sql) [] :=
  ⟨read_start sql, fun hv => ⟨hv, fun h => by simp [start] at h⟩⟩

theorem Lexed.pass {sql : Bytes} {l : SqlLexer} {L : List LexState} {st : LexState}
    (h : Lexed sql l L) (hs : l.stateFn = some st) :
    Lexed sql l.pass (L ++ List.replicate (l.rest.length - l.pass.rest.length) st) :=
  ⟨h.read.pass hs, fun hv => validRest_pass hs (h.valid hv).1⟩

/-- `Lexed` holds along every stretch of a run, by induction on the stretch. -/
theorem Lexed.steps {sql : Bytes} {l l' : SqlLexer} {L L' : List LexState} (h : Lexed sql l L)
    (hsteps : Steps l l' L') : Lexed sql l' (L ++ L') := by
  induction hsteps generalizing L with
  | refl => simpa using h
  | pass hs _ ih =>
    rw [← List.append_assoc]
    exact ih (h.pass hs)

/-- The whole run from `l` is a stretch, in the states `labelsOf` records. -/
theorem steps_runOf (l : SqlLexer) : Steps l l.runOf l.labelsOf := by
  rcases hs : l.stateFn with _ | st
  · rw [show l.runOf = l from run_stop _ hs, show l.labelsOf = [] from labels_stop _ hs]
    exact .refl l
  · rw [runOf_pass hs, labelsOf_pass hs]
    exact .pass hs (steps_runOf l.pass)
termination_by l.measure
decreasing_by exact measure_pass (by rw [hs]; exact Option.some_ne_none st)

theorem runOf_stateFn (l : SqlLexer) : l.runOf.stateFn = none :=
  run_stops l.measure l (Nat.le_refl _)

end SqlLexer

open SqlLexer in
/-- `Query.init` stops on every input, and the parts it produces were lexed
from a prefix of `sql`, byte for byte: each text from itself, each placeholder
from a `$` read in `rawState` and its digits, read in `placeholderState`, with
the number their decimal value wraps to in an `int`. The prefix is the whole
of `sql` when `sql` is valid UTF-8. -/
theorem queryParts_tile (sql : Bytes) :
    (run (2 * sql.length + 1) (start sql)).stateFn = none ∧
      ∃ src rest, PartsRead (queryParts sql) src (lexStates sql) ∧ sql = src ++ rest ∧
        (Valid sql → rest = []) := by
  have hstop := runOf_stateFn (start sql)
  have hmeasure : (start sql).measure = 2 * sql.length + 1 := by
    simp [SqlLexer.measure, start, weight]
  refine ⟨hmeasure ▸ hstop, ?_⟩
  have hl := (lexed_start sql).steps (steps_runOf (start sql))
  obtain ⟨src, Lp, s, seg, hparts, hpend, hsql, hL⟩ := hl.read
  rw [PendingRead, if_neg (by rw [hstop]; simp)] at hpend
  obtain ⟨rfl, hseg, hempty⟩ := hpend
  rw [hempty hstop] at hseg hsql
  rw [List.eq_nil_of_length_eq_zero hseg, List.append_nil, List.nil_append] at hL
  rw [List.append_nil] at hsql
  refine ⟨src, (start sql).runOf.rest, ?_, hsql.symm, fun hv => (hl.valid hv).2 hstop⟩
  rw [queryParts_eq, lexStates_eq, hL]
  exact hparts

open SqlLexer in
/-- `$18446744073709551617` is lexed whole, as one placeholder whose digits
are worth `2^64 + 1`; the accumulator wraps, and the part is `$1`. -/
theorem queryParts_tile_wrapped :
    (run 43 (start [36, 49, 56, 52, 52, 54, 55, 52, 52, 48, 55, 51, 55, 48, 57, 53, 53, 49, 54, 49,
        55])).stateFn = none ∧
      queryParts [36, 49, 56, 52, 52, 54, 55, 52, 52, 48, 55, 51, 55, 48, 57, 53, 53, 49, 54, 49,
        55] = [.text [], .arg 1] ∧
      decimalValue [49, 56, 52, 52, 54, 55, 52, 52, 48, 55, 51, 55, 48, 57, 53, 53, 49, 54, 49,
        55] = 2 ^ 64 + 1 :=
  ⟨(queryParts_tile _).1, by decide, by decide⟩

end GaussdbGo.Sanitize
