import GaussdbGo.Sanitize.Transfer

/-!
# internal/sanitize — how a statement is split

On any bytes the run of the lexer over a statement alternates two kinds of
stretch: text, read by text passes up to a `$` before a digit in `rawState`
or up to the pass that stops the lexer (`textRun_phase`), and a placeholder,
read a digit a pass (`steps_placeholder`). `sql_structure` says so for every
statement: its parts are text, placeholder, text, placeholder, … and a last
text when that is not empty, and its states are those of the stretches
(`SqlLexes`).

A text between two placeholders ends in `rawState` at a `$`, an ASCII byte
no state looks ahead for; by `TextRun.transfer` it is read the same way
before any such byte, or before nothing (`MidText`). The last text ends with
the pass that stops the lexer, at the end of the input or at a byte that
starts no rune outside an escape; the input after that pass is never read,
and with it cut off the text is read the same way (`FinalText`). Either way
a text is read in `lexStates` of itself: the states of a text part do not
depend on what surrounds it.
-/

namespace GaussdbGo.Sanitize

open GoStd.Utf8

namespace SqlLexer

/-- At the end of the input a state other than `placeholderState` stops,
reading nothing. -/
theorem steps_eof {l : SqlLexer} {st : LexState} (hs : l.stateFn = some st)
    (hst : st ≠ .placeholder) (hr : l.rest = []) : Steps l l.halt [] := by
  have h := Steps.pass_eq hs (pass_eof hs hst hr) (.refl _)
  rwa [halt_rest, Nat.sub_self, List.replicate_zero, List.nil_append] at h

/-- The pass that stops the lexer, as a stretch: it reads the bytes of its
own rune, and the text read since the last part becomes a part. -/
theorem steps_stop {l : SqlLexer} {st : LexState} (hs : l.stateFn = some st)
    (hst : st ≠ .placeholder) {next : Nat × Nat}
    (hstop : (passOutcome st l.nested (decodeRune l.rest) next).2.1 = none) :
    l.pass = (l.advance (decodeRune l.rest).2).halt ∧
      Steps l l.pass (List.replicate (decodeRune l.rest).2 st) := by
  have hp := pass_stop hs hst rfl hstop
  have h := Steps.single hs
  have hw := decodeRune_width_le l.rest
  have hlen : l.rest.length - l.pass.rest.length = (decodeRune l.rest).2 := by
    rw [hp, halt_rest, advance_rest, List.length_drop]
    omega
  rw [hlen] at h
  exact ⟨hp, h⟩

theorem advance_halt_parts (l : SqlLexer) (w : Nat) :
    (l.advance w).halt.parts =
      l.parts ++
        (if l.pending ++ l.rest.take w = [] then [] else [.text (l.pending ++ l.rest.take w)]) := by
  rw [halt_parts]
  rfl

/-- Whether a text pass stops is decided by `passOutcome`. -/
theorem pass_stateFn_eq {l : SqlLexer} {st : LexState} (hs : l.stateFn = some st)
    (hst : st ≠ .placeholder) (hnd : ¬ (st = .raw ∧ AtPlaceholder l)) :
    l.pass.stateFn = (passOutcome st l.nested (decodeRune l.rest)
      (decodeRune (l.rest.drop (decodeRune l.rest).2))).2.1 := by
  rw [pass_eq_finish hs hst hnd rfl rfl, finish_stateFn]

/-- A space in `rawState`, whatever follows it: read on its own. -/
theorem steps_space {l : SqlLexer} {z : Bytes} (hs : l.stateFn = some .raw) (hr : l.rest = 32 :: z) :
    Steps l (l.advance 1) [.raw] := by
  have h32 : (32 : UInt8).toNat < 0x80 := by decide
  have hnd : ¬ (LexState.raw = .raw ∧ AtPlaceholder l) := by
    rintro ⟨-, hat, -⟩
    rw [hr, decodeRune_ascii h32] at hat
    exact absurd hat (by decide)
  have hp := pass_eq_finish hs (by decide) hnd
    (show decodeRune l.rest = (32, 1) by rw [hr, decodeRune_ascii h32]; rfl) rfl
  have hout : ∀ next, passOutcome .raw l.nested (32, 1) next = (false, some .raw, l.nested) := by
    intro next
    simp [passOutcome, code, RuneError, replacementcharacterwidth]
  rw [hout, passWidth, hout, if_neg (by simp), ← finish_one hs] at hp
  have h := Steps.single hs
  rw [hp, advance_rest, hr] at h
  simpa using h

/-- A placeholder: its digits, a pass each, then a pass that reads nothing
and leaves the number as a part. -/
theorem steps_placeholder : ∀ {ds z : Bytes} {l : SqlLexer}, l.stateFn = some .placeholder →
    l.rest = ds ++ z → (∀ d ∈ ds, IsDigitByte d) → (∀ a ∈ z.head?, ¬ IsDigitByte a) →
    ∃ l' n, Steps l l' (List.replicate ds.length .placeholder) ∧ l'.rest = z ∧
      l'.stateFn = some .raw ∧ l'.nested = l.nested ∧ l'.pending = [] ∧
      l'.parts = l.parts ++ [.arg n]
  | [], z, l, hs, hr, _, hz => by
    rw [List.nil_append] at hr
    rcases placeholderState_digit_or_exit l with ⟨d, t, hr', hd, -⟩ | ⟨-, he⟩
    · rw [hr] at hr'
      exact absurd hd (hz d (by simp [hr']))
    · have h := Steps.pass_eq hs ((pass_eq_placeholderState hs).trans he) (.refl _)
      simp only [Nat.sub_self, List.replicate_zero, List.nil_append] at h
      exact ⟨_, l.num, h, hr, rfl, rfl, rfl, rfl⟩
  | d :: ds, z, l, hs, hr, hds, hz => by
    rcases placeholderState_digit_or_exit l with ⟨d', t, hr', hd', he⟩ | ⟨hnd, -⟩
    · rw [hr, List.cons_append] at hr'
      obtain ⟨rfl, rfl⟩ := List.cons.inj hr'
      have hp := (pass_eq_placeholderState hs).trans he
      obtain ⟨l', n, hsteps, hr₁, hs₁, hn₁, hp₁, hparts₁⟩ :=
        steps_placeholder (l := l.pass) (by rw [hp]; exact hs) (by rw [hp])
          (fun e he => hds e (by simp [he])) hz
      have h := Steps.pass_eq hs rfl hsteps
      have hlen : l.rest.length - l.pass.rest.length = 1 := by
        rw [hp, hr]
        simp
      rw [hlen] at h
      rw [hp] at hn₁ hparts₁
      refine ⟨l', n, ?_, hr₁, hs₁, hn₁, hp₁, hparts₁⟩
      simpa only [List.length_cons, List.replicate_succ, List.replicate_zero, List.cons_append,
        List.nil_append] using h
    · exact absurd ⟨d, ds ++ z, by rw [hr, List.cons_append], hds d (by simp)⟩ hnd

/-- The digits at the head of some bytes. -/
theorem digits_split (ys : Bytes) :
    ∃ ds z, ys = ds ++ z ∧ (∀ d ∈ ds, IsDigitByte d) ∧ ∀ a ∈ z.head?, ¬ IsDigitByte a := by
  refine ⟨ys.takeWhile (fun b => decide (IsDigitByte b)),
    ys.dropWhile (fun b => decide (IsDigitByte b)), List.takeWhile_append_dropWhile.symm,
    fun d hd => ?_, fun a ha => ?_⟩
  · exact of_decide_eq_true (List.mem_takeWhile_imp (p := fun b => decide (IsDigitByte b)) hd)
  · have := List.head?_dropWhile_not (fun b => decide (IsDigitByte b)) ys
    rw [Option.mem_def] at ha
    rw [ha] at this
    simpa using this

/-- A placeholder read from `rawState`: the `$` ends the pending text, the
digits after it, at least one, make one argument part, and the lexer is back
in `rawState` with nothing pending. -/
theorem steps_at_placeholder {l : SqlLexer} (hs : l.stateFn = some .raw) (hat : AtPlaceholder l) :
    ∃ l' n m, 0 < m ∧ Steps l l' (.raw :: List.replicate m .placeholder) ∧
      l'.rest.length + (m + 1) = l.rest.length ∧ l'.stateFn = some .raw ∧
      l'.nested = l.nested ∧ l'.pending = [] ∧ l'.parts = l.parts ++ [.text l.pending, .arg n] := by
  obtain ⟨d, t, hr, hd, he⟩ := rawState_atPlaceholder hat
  obtain ⟨ds, z, hdz, hds, hz⟩ := digits_split (d :: t)
  have hds_ne : ds ≠ [] := by
    rintro rfl
    rw [List.nil_append] at hdz
    exact hz d (by rw [← hdz]; rfl) hd
  have hp := (pass_eq_rawState hs).trans he
  obtain ⟨l', n, hsteps, hr', hs', hn', hpend', hparts'⟩ :=
    steps_placeholder (l := l.pass) (by rw [hp]) (by rw [hp, hdz]) hds hz
  rw [hp] at hn' hparts'
  refine ⟨l', n, ds.length, List.length_pos_of_ne_nil hds_ne, ?_, ?_, hs', hn', hpend', ?_⟩
  · have h := Steps.pass_eq hs rfl hsteps
    -- the `$` is one byte, read in `rawState`
    have hlen : l.rest.length - l.pass.rest.length = 1 := by
      rw [hp, hr]
      simp
    rwa [hlen, List.replicate_one, List.singleton_append] at h
  · have := congrArg List.length hdz
    rw [hr, hr']
    simp only [List.length_append, List.length_cons] at this ⊢
    omega
  · rw [hparts']
    simp

/-! ## The texts of a statement -/

/-- Nothing, or an ASCII byte no state looks ahead for. -/
def NeutralHead (f : Bytes) : Prop := ∀ a ∈ f.head?, a.toNat < 0x80 ∧ NeutralRune a.toNat

/-- A text between two placeholders: read from `rawState` at depth 0, it
ends in `rawState` at depth 0, whatever neutral byte or end follows it. -/
def MidText (t : Bytes) (L : List LexState) : Prop :=
  ∀ (l : SqlLexer) (f : Bytes), l.stateFn = some .raw → l.nested = 0 → l.rest = t ++ f →
    NeutralHead f →
    ∃ l', TextRun l l' L ∧ l'.rest = f ∧ l'.stateFn = some .raw ∧ l'.nested = 0 ∧
      l'.pending = l.pending ++ t ∧ l'.parts = l.parts

/-- The last text: read from `rawState` at depth 0 until the lexer stops, with
the text read since the last part as a part. -/
def FinalText (t : Bytes) (L : List LexState) : Prop :=
  ∀ l : SqlLexer, l.stateFn = some .raw → l.nested = 0 → l.rest = t →
    ∃ l', Steps l l' L ∧ l'.stateFn = none ∧
      l'.parts = l.parts ++ (if l.pending ++ t = [] then [] else [.text (l.pending ++ t)])

theorem followOK_dollar {d f : Bytes} (h : NeutralHead f) : FollowOK (36 :: d) f := by
  refine .inr ⟨List.cons_ne_nil _ _, ?_, ?_⟩
  · rw [decodeRune_ascii (by decide)]
    decide
  · cases f with
    | nil => exact neutralRune_runeError
    | cons a z =>
      rw [decodeRune_ascii (h a rfl).1]
      exact (h a rfl).2

/-- A text stretch from `rawState` at depth 0 that ends at a placeholder is a
`MidText`: the `$` after it is neutral. -/
theorem midText_of_run {l l₁ : SqlLexer} {x : Bytes} {L : List LexState} (h : TextRun l l₁ L)
    (hs : l.stateFn = some .raw) (hn : l.nested = 0) (hr : l.rest = x ++ l₁.rest)
    (hat : AtPlaceholder l₁) (hs₁ : l₁.stateFn = some .raw) (hn₁ : l₁.nested = 0) :
    MidText x L := by
  obtain ⟨d, t, hr₁, -, -⟩ := rawState_atPlaceholder hat
  intro l₂ f hs₂ hn₂ hr₂ hf
  obtain ⟨l₂', hrun, hrest, hst, hnst, hpend, hparts⟩ :=
    h.transfer (hr₁ ▸ hr) hr₁ (agreeOn_ascii (asciiHead_cons (by decide) _) fun a ha => (hf a ha).1)
      (followOK_dollar hf) (hs₂.trans hs.symm) (hn₂.trans hn.symm) hr₂
  exact ⟨l₂', hrun, hrest, hst.trans hs₁, hnst.trans hn₁, hpend, hparts⟩

/-- A text stretch from `rawState` at depth 0 and the pass that then stops
the lexer are a `FinalText`, cut after the bytes that pass reads: what comes
after them is never read. -/
theorem finalText_of_run {l l₁ : SqlLexer} {x : Bytes} {L : List LexState} {st₁ : LexState}
    {next : Nat × Nat} (h : TextRun l l₁ L) (hs : l.stateFn = some .raw) (hn : l.nested = 0)
    (hr : l.rest = x ++ l₁.rest) (hs₁ : l₁.stateFn = some st₁) (hst₁ : st₁ ≠ .placeholder)
    (hstop : (passOutcome st₁ l₁.nested (decodeRune l₁.rest) next).2.1 = none) :
    FinalText (x ++ l₁.rest.take (decodeRune l₁.rest).2)
      (L ++ List.replicate (decodeRune l₁.rest).2 st₁) := by
  have hagree : AgreeOn x l₁.rest (l₁.rest.take (decodeRune l₁.rest).2) := by
    have := agreeOn_append x (l₁.rest.take (decodeRune l₁.rest).2) (l₁.rest.drop (decodeRune l₁.rest).2)
    rwa [List.take_append_drop] at this
  have hcut := decodeRune_take_width l₁.rest
  intro l₂ hs₂ hn₂ hr₂
  obtain ⟨l₂', hrun, hrest, hst, hnst, hpend, hparts⟩ :=
    h.transfer hr rfl hagree (.inl hcut.symm) (hs₂.trans hs.symm) (hn₂.trans hn.symm) hr₂
  -- the pass that stops decodes the same rune over the cut input
  have hc : decodeRune l₂'.rest = decodeRune l₁.rest := by rw [hrest, hcut]
  have hstop₂ : (passOutcome st₁ l₂'.nested (decodeRune l₂'.rest) next).2.1 = none := by
    rw [hnst, hc]
    exact hstop
  obtain ⟨hp, hsteps⟩ := steps_stop (hst.trans hs₁) hst₁ hstop₂
  refine ⟨l₂'.pass, hrun.steps.trans (hc ▸ hsteps), by rw [hp, halt_stateFn], ?_⟩
  have hall : l₂'.rest.take (decodeRune l₂'.rest).2 = l₂'.rest := by
    rw [hc, hrest, List.take_take, Nat.min_self]
  rw [hp, advance_halt_parts, hall, hpend, hparts, hrest, List.append_assoc]

/-- How a statement is lexed: its parts, and the states of its bytes. -/
inductive SqlLexes : List Part → List LexState → Prop
  | last {t : Bytes} {L : List LexState} :
      FinalText t L → SqlLexes (if t = [] then [] else [.text t]) L
  | placeholder {t : Bytes} {L L' : List LexState} {n : Int64} {k : Nat} {ps : List Part} :
      MidText t L → 0 < k → SqlLexes ps L' →
      SqlLexes (.text t :: .arg n :: ps) (L ++ .raw :: List.replicate k .placeholder ++ L')

/-- From `rawState` at the start of a part, the rest of any statement is
lexed as `SqlLexes` says. By induction on the input left, which each
placeholder shortens. -/
theorem sql_structure (l : SqlLexer) (hs : l.stateFn = some .raw) (hn : l.nested = 0)
    (hp : l.pending = []) :
    ∃ ps L l', SqlLexes ps L ∧ Steps l l' L ∧ l'.stateFn = none ∧ l'.parts = l.parts ++ ps := by
  obtain ⟨l₁, L₁, st₁, hrun, hs₁, hst₁, hdep₁, hend⟩ := textRun_phase l hs (by decide) (.inr hn)
  obtain ⟨⟨hparts₁, k, hpend₁, hrest₁⟩, hlen₁⟩ := hrun.moves
  have hr : l.rest = l.rest.take k ++ l₁.rest := by rw [hrest₁, List.take_append_drop]
  rw [hp, List.nil_append] at hpend₁
  rcases hend with ⟨rfl, hat⟩ | ⟨hnd₁, hstop⟩
  · -- a text, a placeholder, then the rest of the statement
    have hn₁ : l₁.nested = 0 := hdep₁.resolve_left (by decide)
    have hmid := midText_of_run hrun hs hn hr hat hs₁ hn₁
    obtain ⟨l₃, n, m, hm, hsteps₃, hlen₃, hs₃, hn₃, hpend₃, hparts₃⟩ := steps_at_placeholder hs₁ hat
    have hlt : l₃.rest.length < l.rest.length := by omega
    obtain ⟨ps, L', l', hlex, hsteps', hstop, hparts'⟩ :=
      sql_structure l₃ hs₃ (by rw [hn₃, hn₁]) hpend₃
    refine ⟨.text (l.rest.take k) :: .arg n :: ps, _, l', .placeholder hmid hm hlex, ?_, hstop, ?_⟩
    · simpa only [List.cons_append, List.append_assoc] using hrun.steps.trans (hsteps₃.trans hsteps')
    · rw [hparts', hparts₃, hparts₁, hpend₁]
      simp
  · -- the last text, up to the pass that stops the lexer
    have hnone := (pass_stateFn_eq hs₁ hst₁ hnd₁).symm.trans hstop
    have hfin := finalText_of_run hrun hs hn hr hs₁ hst₁ hnone
    obtain ⟨hp₁, hsteps₁⟩ := steps_stop hs₁ hst₁ hnone
    refine ⟨_, _, l₁.pass, .last hfin, hrun.steps.trans hsteps₁, hstop, ?_⟩
    rw [hp₁, advance_halt_parts, hparts₁, hpend₁]
termination_by l.rest.length

end SqlLexer

end GaussdbGo.Sanitize
