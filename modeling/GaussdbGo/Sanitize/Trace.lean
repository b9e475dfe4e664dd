import GaussdbGo.Sanitize.Runes

/-!
# internal/sanitize — the state each byte is read in

`labels` runs the lexer as `run` does and records, for every byte a pass
reads, the state the pass ran in; `lexStates src` is that record for the
whole of `src`, as `Query.init` lexes it. It is what "the bytes are lexed in
the same states" means in the statements about sanitizing.

`Steps l l' L` is a stretch of a run: from `l` to `l'`, reading bytes in the
states `L`; a statement about a whole run is assembled from stretches with
`Steps.trans` and read off with `Steps.labelsOf`. `TextSteps` is a stretch of
passes over valid text that start no placeholder, each of them `passRunes`:
how a written argument is read.
-/

namespace GaussdbGo.Sanitize

open GoStd.Utf8

namespace SqlLexer

/-- The states the bytes are read in over at most `fuel` passes: a pass that
reads `k` bytes in state `st` adds `k` copies of `st`. -/
def labels : Nat → SqlLexer → List LexState
  | 0, _ => []
  | fuel + 1, l =>
    match l.stateFn with
    | none => []
    | some st => List.replicate (l.rest.length - l.pass.rest.length) st ++ labels fuel l.pass

theorem stateFn_of_measure_le_zero {l : SqlLexer} (h : l.measure ≤ 0) : l.stateFn = none := by
  rcases hs : l.stateFn with _ | st
  · rfl
  · have : weight l.stateFn = 0 := by unfold measure at h; omega
    rw [hs] at this
    cases st <;> simp [weight] at this

theorem measure_pos {l : SqlLexer} {st : LexState} (hs : l.stateFn = some st) : 0 < l.measure := by
  unfold measure
  rw [hs]
  cases st <;> simp [weight]

@[simp] theorem labels_stop (fuel : Nat) {l : SqlLexer} (hs : l.stateFn = none) :
    labels fuel l = [] := by
  cases fuel <;> simp [labels, hs]

@[simp] theorem run_stop (fuel : Nat) {l : SqlLexer} (hs : l.stateFn = none) : run fuel l = l := by
  cases fuel <;> simp [run, hs]

/-- With fuel for its measure, `labels` does not depend on the fuel. -/
theorem labels_fuel : ∀ (f₁ f₂ : Nat) (l : SqlLexer), l.measure ≤ f₁ → l.measure ≤ f₂ →
    labels f₁ l = labels f₂ l
  | 0, f₂, l, h₁, _ => by
    have hn := stateFn_of_measure_le_zero h₁
    rw [labels_stop _ hn, labels_stop _ hn]
  | f₁ + 1, 0, l, _, h₂ => by
    have hn := stateFn_of_measure_le_zero h₂
    rw [labels_stop _ hn, labels_stop _ hn]
  | f₁ + 1, f₂ + 1, l, h₁, h₂ => by
    rcases hs : l.stateFn with _ | st
    · simp [labels, hs]
    · have hlt := measure_pass (l := l) (by rw [hs]; exact Option.some_ne_none st)
      simp only [labels, hs]
      rw [labels_fuel f₁ f₂ l.pass (by omega) (by omega)]

/-- With fuel for its measure, `run` does not depend on the fuel. -/
theorem run_fuel : ∀ (f₁ f₂ : Nat) (l : SqlLexer), l.measure ≤ f₁ → l.measure ≤ f₂ →
    run f₁ l = run f₂ l
  | 0, f₂, l, h₁, _ => by
    have hn := stateFn_of_measure_le_zero h₁
    rw [run_stop _ hn, run_stop _ hn]
  | f₁ + 1, 0, l, _, h₂ => by
    have hn := stateFn_of_measure_le_zero h₂
    rw [run_stop _ hn, run_stop _ hn]
  | f₁ + 1, f₂ + 1, l, h₁, h₂ => by
    rcases hs : l.stateFn with _ | st
    · simp [run, hs]
    · have hne : l.stateFn ≠ none := by rw [hs]; exact Option.some_ne_none st
      have hlt := measure_pass hne
      simp only [run, hne, if_false]
      exact run_fuel f₁ f₂ l.pass (by omega) (by omega)

/-- The states of the whole run from `l`. -/
def labelsOf (l : SqlLexer) : List LexState := labels l.measure l

/-- Where the whole run from `l` stops. -/
def runOf (l : SqlLexer) : SqlLexer := run l.measure l

theorem labelsOf_pass {l : SqlLexer} {st : LexState} (hs : l.stateFn = some st) :
    l.labelsOf = List.replicate (l.rest.length - l.pass.rest.length) st ++ l.pass.labelsOf := by
  have hlt := measure_pass (l := l) (by rw [hs]; exact Option.some_ne_none st)
  obtain ⟨f, hf⟩ : ∃ f, l.measure = f + 1 := ⟨l.measure - 1, by have := measure_pos hs; omega⟩
  unfold labelsOf
  rw [hf]
  simp only [labels, hs]
  rw [labels_fuel f l.pass.measure l.pass (by omega) (Nat.le_refl _)]

theorem runOf_pass {l : SqlLexer} {st : LexState} (hs : l.stateFn = some st) :
    l.runOf = l.pass.runOf := by
  have hne : l.stateFn ≠ none := by rw [hs]; exact Option.some_ne_none st
  have hlt := measure_pass hne
  obtain ⟨f, hf⟩ : ∃ f, l.measure = f + 1 := ⟨l.measure - 1, by have := measure_pos hs; omega⟩
  unfold runOf
  rw [hf]
  simp only [run, hne, if_false]
  exact run_fuel f l.pass.measure l.pass (by omega) (Nat.le_refl _)

/-- A stretch of a run: passes from `l` to `l'`, reading bytes in the states
`L`. -/
inductive Steps : SqlLexer → SqlLexer → List LexState → Prop
  | refl (l : SqlLexer) : Steps l l []
  | pass {l l' : SqlLexer} {st : LexState} {L : List LexState} :
      l.stateFn = some st → Steps l.pass l' L →
      Steps l l' (List.replicate (l.rest.length - l.pass.rest.length) st ++ L)

theorem Steps.trans {l₁ l₂ l₃ : SqlLexer} {L₁ L₂ : List LexState} (h₁ : Steps l₁ l₂ L₁)
    (h₂ : Steps l₂ l₃ L₂) : Steps l₁ l₃ (L₁ ++ L₂) := by
  induction h₁ with
  | refl => exact h₂
  | pass hs _ ih => rw [List.append_assoc]; exact .pass hs (ih h₂)

theorem Steps.labelsOf {l l' : SqlLexer} {L : List LexState} (h : Steps l l' L) :
    l.labelsOf = L ++ l'.labelsOf := by
  induction h with
  | refl => rfl
  | pass hs _ ih => rw [labelsOf_pass hs, ih, List.append_assoc]

theorem Steps.runOf {l l' : SqlLexer} {L : List LexState} (h : Steps l l' L) :
    l.runOf = l'.runOf := by
  induction h with
  | refl => rfl
  | pass hs _ ih => rw [runOf_pass hs, ih]

/-- A stretch that ends stopped is the whole run. -/
theorem Steps.labelsOf_eq {l l' : SqlLexer} {L : List LexState} (h : Steps l l' L)
    (hs : l'.stateFn = none) : l.labelsOf = L := by
  have h' : l'.labelsOf = [] := labels_stop _ hs
  rw [h.labelsOf, h', List.append_nil]

theorem Steps.runOf_eq {l l' : SqlLexer} {L : List LexState} (h : Steps l l' L)
    (hs : l'.stateFn = none) : l.runOf = l' := by
  rw [h.runOf]
  exact run_stop _ hs

/-- A pass whose result is known, then a stretch from it. -/
theorem Steps.pass_eq {l l₁ l' : SqlLexer} {st : LexState} {L : List LexState}
    (hs : l.stateFn = some st) (hp : l.pass = l₁) (h : Steps l₁ l' L) :
    Steps l l' (List.replicate (l.rest.length - l₁.rest.length) st ++ L) := by
  subst hp
  exact .pass hs h

/-- One pass, as a stretch. -/
theorem Steps.single {l : SqlLexer} {st : LexState} (hs : l.stateFn = some st) :
    Steps l l.pass (List.replicate (l.rest.length - l.pass.rest.length) st) := by
  simpa using Steps.pass hs (.refl l.pass)

/-- Passes over valid text that start no placeholder: each is `passRunes`,
and reads its runes in the state it runs in. -/
inductive TextSteps : SqlLexer → SqlLexer → List LexState → Prop
  | refl (l : SqlLexer) : TextSteps l l []
  | pass {l l' : SqlLexer} {st : LexState} {c : Char} {cs : List Char} {L : List LexState} :
      l.stateFn = some st → st ≠ .placeholder → l.rest = encodeString (c :: cs) →
      ¬ (st = .raw ∧ c = '$' ∧ StartsWithDigit cs) →
      TextSteps (l.took (c :: cs) (passRunes st l.nested c cs.head?)) l' L →
      TextSteps l l'
        (List.replicate (encodeString ((c :: cs).take (passRunes st l.nested c cs.head?).1)).length
          st ++ L)

/-- The bytes a pass on valid text reads are the encoding of the runes it
takes. -/
theorem length_took {l : SqlLexer} {cs : List Char} (hr : l.rest = encodeString cs)
    (p : Nat × LexState × Nat) :
    (l.took cs p).rest.length + (encodeString (cs.take p.1)).length = l.rest.length := by
  rw [took_rest hr, hr, ← List.take_append_drop p.1 cs, encodeString_append, List.take_append_drop,
    List.length_append]
  omega

theorem length_sub_took {l : SqlLexer} {cs : List Char} (hr : l.rest = encodeString cs)
    (p : Nat × LexState × Nat) :
    l.rest.length - (l.took cs p).rest.length = (encodeString (cs.take p.1)).length := by
  have := length_took hr p
  omega

theorem TextSteps.steps {l l' : SqlLexer} {L : List LexState} (h : TextSteps l l' L) :
    Steps l l' L := by
  induction h with
  | refl => exact .refl _
  | @pass l l' st c cs L hs hst hr hd _ ih =>
    have hp := pass_runes hs hst hr hd
    have hlen := length_sub_took hr (passRunes st l.nested c cs.head?)
    rw [← hp] at ih hlen
    rw [← hlen]
    exact .pass hs ih

theorem TextSteps.trans {l₁ l₂ l₃ : SqlLexer} {L₁ L₂ : List LexState} (h₁ : TextSteps l₁ l₂ L₁)
    (h₂ : TextSteps l₂ l₃ L₂) : TextSteps l₁ l₃ (L₁ ++ L₂) := by
  induction h₁ with
  | refl => exact h₂
  | pass hs hst hr hd _ ih => rw [List.append_assoc]; exact .pass hs hst hr hd (ih h₂)

/-- One text pass that takes `k` runes. -/
theorem TextSteps.single {l : SqlLexer} {st st' : LexState} {c : Char} {cs : List Char} {k n : Nat}
    (hs : l.stateFn = some st) (hst : st ≠ .placeholder) (hr : l.rest = encodeString (c :: cs))
    (hd : ¬ (st = .raw ∧ c = '$' ∧ StartsWithDigit cs))
    (hp : passRunes st l.nested c cs.head? = (k, st', n)) :
    TextSteps l (l.took (c :: cs) (k, st', n))
      (List.replicate (encodeString ((c :: cs).take k)).length st) := by
  have h := TextSteps.pass hs hst hr hd (.refl _)
  rwa [hp, List.append_nil] at h

end SqlLexer

/-- The state each byte of `src` is read in when `Query.init` lexes it, with
the fuel `queryParts` gives the lexer. -/
def lexStates (src : Bytes) : List LexState :=
  SqlLexer.labels (2 * src.length + 1) (SqlLexer.start src)

theorem lexStates_eq (src : Bytes) : lexStates src = (SqlLexer.start src).labelsOf := rfl

theorem queryParts_eq (src : Bytes) : queryParts src = (SqlLexer.start src).runOf.parts := rfl

end GaussdbGo.Sanitize
