import GaussdbGo.Lib.Go
import GaussdbGo.Lib.Bytes
import GaussdbGo.Lib.Machine

/-!
# bgreader — the background reader

`BGReader` wraps an `io.Reader` and, while started, reads from it on a
goroutine into a queue of `readResult`s that `Read` hands out. The model is
the reader's state with the `bgRead` goroutines that are alive, each at one
of the two points of its loop where the rest of the system can observe it:
before its unlocked call to the underlying `Read`, or holding what that call
returned until it takes the lock to append it.

`Traced` runs that state as a machine whose inputs are `Start`, `Stop`, a
returning `Read` (its locked body), and the two steps of a goroutine, each
with what the underlying reader returns where it is called; it keeps a log of
every underlying read and of every result `Read` returned. `Inv` says that at
most one goroutine is alive, that one is alive exactly while the status is
not `StatusStopped`, and that what `Read` returned, then what is queued, then
what a goroutine holds, is exactly what the underlying reader produced
(`bgReader_delivers_in_order`). Without the held result the equation fails
between a goroutine's read and its append (`read_result_held_in_flight`).
-/

namespace GaussdbGo.Bgreader

open GoStd Machine

/-- `StatusStopped`, `StatusRunning`, `StatusStopping`. -/
inductive Status where
  | stopped
  | running
  | stopping
  deriving DecidableEq, Repr

/-- `readResult`: the bytes of one underlying read and its error. -/
structure ReadResult (ε : Type) where
  buf : List UInt8
  err : Option ε
  deriving DecidableEq, Repr

/-- Where a `bgRead` goroutine is in its loop. -/
inductive Goroutine (ε : Type) where
  /-- about to call, or inside, the underlying `Read` -/
  | reading
  /-- the underlying `Read` returned `res`; the goroutine waits for the lock -/
  | holding (res : ReadResult ε)

/-- `BGReader`, with the `bgRead` goroutines that are alive. -/
structure BGReader (ε : Type) where
  status : Status
  readResults : List (ReadResult ε)
  goroutines : List (Goroutine ε)

variable {ε : Type}

namespace BGReader

/-- `New(r)`. -/
def new : BGReader ε := ⟨.stopped, [], []⟩

/-- `Start()`. -/
def start (r : BGReader ε) : BGReader ε :=
  match r.status with
  | .stopped => { r with status := .running, goroutines := r.goroutines ++ [.reading] }
  | .running => r
  | .stopping => { r with status := .running }

/-- `Stop()`. -/
def stop (r : BGReader ε) : BGReader ε :=
  match r.status with
  | .stopped => r
  | .running => { r with status := .stopping }
  | .stopping => r

@[simp] theorem start_readResults (r : BGReader ε) : r.start.readResults = r.readResults := by
  unfold start
  split <;> rfl

@[simp] theorem stop_readResults (r : BGReader ε) : r.stop.readResults = r.readResults := by
  unfold stop
  split <;> rfl

@[simp] theorem stop_goroutines (r : BGReader ε) : r.stop.goroutines = r.goroutines := by
  unfold stop
  split <;> rfl

/-- `Stop` never stops the reader itself; only the goroutine does. -/
theorem stop_status_eq_stopped (r : BGReader ε) : r.stop.status = .stopped ↔ r.status = .stopped := by
  unfold stop
  split <;> simp_all

end BGReader

/-- `readFromReadResults(p)` with `len(p) = plen`: what the call returns (the
bytes copied into `p` and the error) and the queue after it. -/
def readFromReadResults (plen : Nat) :
    List (ReadResult ε) → Go Empty (ReadResult ε × List (ReadResult ε))
  | [] => crash (.indexOutOfRange 0 0)
  | r₀ :: rest =>
    let n := min plen r₀.buf.length
    -- a buffer read to its end goes with its error; `nil` and
    -- `readResults[1:]` are both the rest of the queue
    if n = r₀.buf.length then pure (⟨r₀.buf.take n, r₀.err⟩, rest)
    else pure (⟨r₀.buf.take n, none⟩, { r₀ with buf := r₀.buf.drop n } :: rest)

/-- What the locked body of `Read(p)` does. -/
inductive ReadOutcome (ε : Type) where
  /-- `readFromReadResults(p)` returned `res`, leaving `readResults` -/
  | queued (res : ReadResult ε) (readResults : List (ReadResult ε))
  /-- `return r.r.Read(p)`: the call is the underlying reader's -/
  | direct
  /-- `r.cond.Wait()`: the call waits for a result of the background reader -/
  | waits

/-- `Read(p)` with `len(p) = plen`, up to its wait. A call that waits
resumes, once a result is queued, as a call that finds the queue non-empty. -/
def BGReader.read (r : BGReader ε) (plen : Nat) : Go Empty (ReadOutcome ε) :=
  if 0 < r.readResults.length then do
    let (res, rest) ← readFromReadResults plen r.readResults
    pure (.queued res rest)
  else if r.status = .stopped then pure .direct
  else pure .waits

/-- The locked part of one iteration of `bgRead`, appending the result `res`
of its underlying read: the reader after it and `keepReading`. -/
def BGReader.appendResult (r : BGReader ε) (res : ReadResult ε) : BGReader ε × Bool :=
  let r := { r with readResults := r.readResults ++ [res] }
  if r.status = .stopping ∨ res.err.isSome then ({ r with status := .stopped }, false)
  else (r, true)

/-! ## The reader with its goroutines and the underlying reader -/

/-- One step of the system. -/
inductive Action (ε : Type) where
  | start
  | stop
  /-- a `Read(p)` call with `len(p) = plen` that returns; `direct` is what
  `r.r.Read(p)` returns if the call reaches it -/
  | read (plen : Nat) (direct : ReadResult ε)
  /-- goroutine `i` calls the underlying `Read` on its 8192-byte buffer,
  which returns `res` -/
  | bgRead (i : Nat) (res : ReadResult ε)
  /-- goroutine `i` takes the lock and appends what it holds -/
  | bgAppend (i : Nat)

/-- The reader with the log of every result the underlying reader returned
(`produced`) and of every result `Read` returned (`returned`). -/
structure Traced (ε : Type) where
  rd : BGReader ε
  produced : List (ReadResult ε)
  returned : List (ReadResult ε)

/-- A reader from `New`, before any call. -/
def Traced.init : Traced ε := ⟨BGReader.new, [], []⟩

/-- One step; `.error ()` where the step cannot be taken: a `Read` that
waits, an underlying read longer than its buffer, a goroutine that is not at
that point of its loop. -/
def Traced.step (t : Traced ε) : Action ε → Except Unit (Traced ε)
  | .start => pure { t with rd := t.rd.start }
  | .stop => pure { t with rd := t.rd.stop }
  | .read plen direct =>
    match t.rd.read plen with
    | .ok (.queued res rest) =>
      pure { t with rd := { t.rd with readResults := rest }, returned := t.returned ++ [res] }
    | .ok .direct =>
      if direct.buf.length ≤ plen then
        pure { t with produced := t.produced ++ [direct], returned := t.returned ++ [direct] }
      else throw ()
    | .ok .waits => throw ()
    | .error _ => throw ()
  | .bgRead i res =>
    match t.rd.goroutines[i]? with
    | some .reading =>
      if res.buf.length ≤ 8192 then
        pure { t with
          rd := { t.rd with goroutines := t.rd.goroutines.set i (.holding res) }
          produced := t.produced ++ [res] }
      else throw ()
    | _ => throw ()
  | .bgAppend i =>
    match t.rd.goroutines[i]? with
    | some (.holding res) =>
      let (rd, keepReading) := t.rd.appendResult res
      -- the goroutine goes round its loop again, or returns
      pure { t with
        rd := { rd with
          goroutines := if keepReading then rd.goroutines.set i .reading
            else rd.goroutines.eraseIdx i } }
    | _ => throw ()

/-! ## The stream of bytes and errors -/

/-- One item of a reader's output: a byte, or an error where it was
returned. -/
inductive Token (ε : Type) where
  | byte (b : UInt8)
  | fail (e : ε)
  deriving DecidableEq, Repr

/-- The bytes of a read, then its error. -/
def ReadResult.tokens (r : ReadResult ε) : List (Token ε) :=
  r.buf.map .byte ++ r.err.toList.map .fail

/-- The output a sequence of reads stands for. -/
def stream (rs : List (ReadResult ε)) : List (Token ε) := rs.flatMap ReadResult.tokens

@[simp] theorem stream_nil : stream ([] : List (ReadResult ε)) = [] := rfl

@[simp] theorem stream_cons (r : ReadResult ε) (rs : List (ReadResult ε)) :
    stream (r :: rs) = r.tokens ++ stream rs := List.flatMap_cons

@[simp] theorem stream_append (rs rs' : List (ReadResult ε)) :
    stream (rs ++ rs') = stream rs ++ stream rs' := List.flatMap_append

/-- What a goroutine has read and not yet appended. -/
def Goroutine.held : Goroutine ε → List (ReadResult ε)
  | .reading => []
  | .holding res => [res]

/-- What the goroutines hold. -/
def BGReader.inFlight (r : BGReader ε) : List (ReadResult ε) := r.goroutines.flatMap Goroutine.held

/-! ## `Read` -/

/-- `readFromReadResults` hands out the front of the queue: what it returns,
then the queue after it, is the queue before it. -/
theorem readFromReadResults_tokens {plen : Nat} {q rest : List (ReadResult ε)} {res : ReadResult ε}
    (h : readFromReadResults plen q = .ok (res, rest)) : stream q = res.tokens ++ stream rest := by
  cases q with
  | nil => exact absurd h (crash_ne_ok _ _)
  | cons r₀ rs =>
    by_cases hn : min plen r₀.buf.length = r₀.buf.length
    · -- the whole buffer, with its error
      rw [readFromReadResults, if_pos hn] at h
      obtain ⟨rfl, rfl⟩ := Prod.mk.inj (Except.ok.inj h)
      simp [ReadResult.tokens, hn]
    · -- a prefix of the buffer, without the error; the rest stays in front
      rw [readFromReadResults, if_neg hn] at h
      obtain ⟨rfl, rfl⟩ := Prod.mk.inj (Except.ok.inj h)
      simp only [stream_cons, ReadResult.tokens, Option.toList_none, List.map_nil, List.append_nil,
        List.append_assoc]
      rw [← List.append_assoc (List.map Token.byte (List.take _ r₀.buf)), ← List.map_append,
        List.take_append_drop]

theorem readFromReadResults_of_read_queued {r : BGReader ε} {plen : Nat} {res : ReadResult ε} {rest : List (ReadResult ε)}
    (h : r.read plen = .ok (.queued res rest)) :
    readFromReadResults plen r.readResults = .ok (res, rest) := by
  unfold BGReader.read at h
  split at h
  · cases hq : readFromReadResults plen r.readResults with
    | error e => rw [hq] at h; cases h
    | ok p =>
      rw [hq] at h
      cases h
      rfl
  · split at h <;> cases h

/-- `Read` calls the underlying reader only with nothing queued and the
background reader stopped. -/
theorem stopped_of_read_direct {r : BGReader ε} {plen : Nat} (h : r.read plen = .ok .direct) :
    r.readResults = [] ∧ r.status = .stopped := by
  unfold BGReader.read at h
  split at h
  · cases hq : readFromReadResults plen r.readResults with
    | error e => rw [hq] at h; cases h
    | ok p => rw [hq] at h; cases h
  · split at h
    · exact ⟨List.eq_nil_of_length_eq_zero (by omega), ‹_›⟩
    · cases h

/-! ## The invariant -/

/-- At most one goroutine is alive, one is alive exactly while the status is
not `StatusStopped`, and nothing the underlying reader produced is lost,
repeated or moved: `Read` returned a prefix of it, the queue holds what
follows, and a goroutine holds the rest. -/
structure Inv (t : Traced ε) : Prop where
  one_goroutine : t.rd.goroutines.length ≤ 1
  alive_iff : t.rd.goroutines ≠ [] ↔ t.rd.status ≠ .stopped
  delivered : stream t.returned ++ stream t.rd.readResults ++ stream t.rd.inFlight = stream t.produced

theorem inv_init : Inv (Traced.init : Traced ε) where
  one_goroutine := Nat.zero_le 1
  alive_iff := by simp [Traced.init, BGReader.new]
  delivered := rfl

/-- With at most one goroutine, the one a step names is the only one. -/
theorem eq_singleton_of_getElem? {α : Type} {l : List α} {i : Nat} {a : α} (h₁ : l.length ≤ 1)
    (h : l[i]? = some a) : l = [a] ∧ i = 0 := by
  match l, i, h₁, h with
  | [b], 0, _, h => exact ⟨by simpa using h, rfl⟩

section Steps

variable {t : Traced ε} (h : Inv t)
include h

theorem Inv.goroutines_nil (hst : t.rd.status = .stopped) : t.rd.goroutines = [] := by
  by_contra hne
  exact h.alive_iff.mp hne hst

/-- A call that leaves the goroutines and the queue alone and stops the
reader exactly when it was stopped keeps the invariant. -/
theorem Inv.of_rd {r : BGReader ε} (hg : r.goroutines = t.rd.goroutines)
    (hq : r.readResults = t.rd.readResults) (hs : r.status = .stopped ↔ t.rd.status = .stopped) :
    Inv { t with rd := r } where
  one_goroutine := hg ▸ h.one_goroutine
  alive_iff := by
    show r.goroutines ≠ [] ↔ ¬ r.status = .stopped
    rw [hg, hs]
    exact h.alive_iff
  delivered := by
    simp only [BGReader.inFlight, hg, hq]
    exact h.delivered

theorem Inv.start : Inv { t with rd := t.rd.start } := by
  cases hst : t.rd.status with
  | stopped =>
    -- a new goroutine, holding nothing yet
    have hg := h.goroutines_nil hst
    have hd := h.delivered
    simp only [BGReader.inFlight, hg, List.flatMap_nil, stream_nil] at hd
    refine ⟨?_, ?_, ?_⟩ <;>
      simp [BGReader.start, hst, hg, BGReader.inFlight, Goroutine.held, hd]
  | running =>
    have hr : t.rd.start = t.rd := by simp [BGReader.start, hst]
    rw [hr]
    exact h.of_rd rfl rfl Iff.rfl
  | stopping =>
    -- the goroutine still alive is told to go on
    have hr : t.rd.start = { t.rd with status := .running } := by simp [BGReader.start, hst]
    rw [hr]
    exact h.of_rd rfl rfl (by simp [hst])

theorem Inv.stop : Inv { t with rd := t.rd.stop } :=
  h.of_rd t.rd.stop_goroutines t.rd.stop_readResults t.rd.stop_status_eq_stopped

theorem Inv.read_queued {plen : Nat} {res : ReadResult ε} {rest : List (ReadResult ε)}
    (hr : t.rd.read plen = .ok (.queued res rest)) :
    Inv { t with rd := { t.rd with readResults := rest }, returned := t.returned ++ [res] } where
  one_goroutine := h.one_goroutine
  alive_iff := h.alive_iff
  delivered := by
    -- the front of the queue moves to what `Read` returned
    show stream (t.returned ++ [res]) ++ stream rest ++ stream t.rd.inFlight = stream t.produced
    rw [← h.delivered, readFromReadResults_tokens (readFromReadResults_of_read_queued hr), stream_append, stream_cons,
      stream_nil, List.append_nil]
    simp only [List.append_assoc]

theorem Inv.read_direct {plen : Nat} (d : ReadResult ε) (hr : t.rd.read plen = .ok .direct) :
    Inv { t with produced := t.produced ++ [d], returned := t.returned ++ [d] } where
  one_goroutine := h.one_goroutine
  alive_iff := h.alive_iff
  delivered := by
    -- nothing is queued and no goroutine holds anything: the read goes straight through
    obtain ⟨hq, hst⟩ := stopped_of_read_direct hr
    have hd := h.delivered
    show stream (t.returned ++ [d]) ++ stream t.rd.readResults ++ stream t.rd.inFlight =
      stream (t.produced ++ [d])
    simp only [BGReader.inFlight, hq, h.goroutines_nil hst, List.flatMap_nil, stream_nil,
      List.append_nil] at hd ⊢
    rw [stream_append, stream_append, hd]

theorem Inv.bgRead {i : Nat} {res : ReadResult ε} (hi : t.rd.goroutines[i]? = some .reading) :
    Inv { t with
      rd := { t.rd with goroutines := t.rd.goroutines.set i (.holding res) }
      produced := t.produced ++ [res] } := by
  obtain ⟨hg, rfl⟩ := eq_singleton_of_getElem? h.one_goroutine hi
  have hd := h.delivered
  have halive := h.alive_iff
  simp only [BGReader.inFlight, hg, List.flatMap_cons, Goroutine.held, List.flatMap_nil,
    List.append_nil, stream_nil] at hd halive
  refine ⟨by simp [hg], ?_, ?_⟩
  · simpa [hg] using halive
  · -- the goroutine now holds what the underlying reader produced last
    simp [BGReader.inFlight, hg, Goroutine.held, ← hd]

theorem Inv.bgAppend {i : Nat} {res : ReadResult ε} (hi : t.rd.goroutines[i]? = some (.holding res)) :
    Inv { t with
      rd := { (t.rd.appendResult res).1 with
        goroutines := if (t.rd.appendResult res).2 then (t.rd.appendResult res).1.goroutines.set i .reading
          else (t.rd.appendResult res).1.goroutines.eraseIdx i } } := by
  obtain ⟨hg, rfl⟩ := eq_singleton_of_getElem? h.one_goroutine hi
  have hd := h.delivered
  have halive : t.rd.status ≠ .stopped := h.alive_iff.mp (by simp [hg])
  simp only [BGReader.inFlight, hg, List.flatMap_cons, Goroutine.held, List.flatMap_nil,
    List.append_nil] at hd
  by_cases hc : t.rd.status = .stopping ∨ res.err.isSome
  · -- the goroutine returns, and the reader is stopped
    refine ⟨?_, ?_, ?_⟩ <;> simp [BGReader.appendResult, hc, hg, BGReader.inFlight, ← hd]
  · -- the goroutine reads again
    refine ⟨?_, ?_, ?_⟩ <;>
      simp [BGReader.appendResult, hc, hg, halive, BGReader.inFlight, Goroutine.held, ← hd]

/-- Every step keeps the invariant. -/
theorem Inv.step {a : Action ε} {t' : Traced ε} (hs : t.step a = .ok t') : Inv t' := by
  cases a with
  | start => cases hs; exact h.start
  | stop => cases hs; exact h.stop
  | read plen d =>
    simp only [Traced.step] at hs
    split at hs
    · cases hs
      exact h.read_queued ‹_›
    · split at hs
      · cases hs
        exact h.read_direct d ‹_›
      · cases hs
    · cases hs
    · cases hs
  | bgRead i res =>
    simp only [Traced.step] at hs
    split at hs
    · split at hs
      · cases hs
        exact h.bgRead ‹_›
      · cases hs
    · cases hs
  | bgAppend i =>
    simp only [Traced.step] at hs
    split at hs
    · cases hs
      exact h.bgAppend ‹_›
    · cases hs

end Steps

/-! ## Every run -/

/-- After every run from `New`, in every interleaving of `Start`, `Stop`,
`Read` and the goroutines' steps and whatever the underlying reader returns:
at most one goroutine is alive, one is alive only while the status is not
`StatusStopped`, so a `Read` that calls the underlying reader does so with no
goroutine alive; and what `Read` returned, then what is queued, then what a
goroutine holds from its last read, is what the underlying reader produced,
in order, each error where it was produced. -/
theorem bgReader_delivers_in_order {acts : List (Action ε)} {t : Traced ε}
    (hrun : Run Traced.step Traced.init acts t) :
    t.rd.goroutines.length ≤ 1 ∧ (t.rd.goroutines ≠ [] ↔ t.rd.status ≠ .stopped) ∧
      (∀ plen, t.rd.read plen = .ok .direct → t.rd.goroutines = []) ∧
      stream t.returned ++ stream t.rd.readResults ++ stream t.rd.inFlight = stream t.produced := by
  have h : Inv t := Run.invariant (A := fun _ => True) (fun _ _ _ hs _ hst => hs.step hst) hrun
    inv_init (fun _ _ => trivial)
  exact ⟨h.one_goroutine, h.alive_iff, fun _ hr => h.goroutines_nil (stopped_of_read_direct hr).2,
    h.delivered⟩

/-- `Start`; the goroutine reads three bytes; `Stop`; it appends them and
returns; `Read` with a two-byte buffer twice; `Read` with a four-byte buffer,
which calls the underlying reader, which returns one byte and `io.EOF`. -/
theorem bgReader_delivers_in_order_run :
    ∃ t, Run Traced.step (Traced.init : Traced IOError)
        [.start, .bgRead 0 ⟨[1, 2, 3], none⟩, .stop, .bgAppend 0, .read 2 ⟨[], none⟩,
          .read 2 ⟨[], none⟩, .read 4 ⟨[4], some .eof⟩] t ∧
      t.rd.goroutines.length ≤ 1 ∧ (t.rd.goroutines ≠ [] ↔ t.rd.status ≠ .stopped) ∧
      (∀ plen, t.rd.read plen = .ok .direct → t.rd.goroutines = []) ∧
      stream t.returned ++ stream t.rd.readResults ++ stream t.rd.inFlight = stream t.produced :=
  have hrun := Run.cons rfl (.cons rfl (.cons rfl (.cons rfl (.cons rfl (.cons rfl
    (.cons rfl (.nil _)))))))
  ⟨_, hrun, bgReader_delivers_in_order hrun⟩

/-- Between a goroutine's read and its append, what `Read` returned and what
is queued fall short of what the underlying reader produced. -/
theorem read_result_held_in_flight :
    ∃ t, Run Traced.step (Traced.init : Traced IOError) [.start, .bgRead 0 ⟨[7], none⟩] t ∧
      stream t.returned ++ stream t.rd.readResults ≠ stream t.produced :=
  ⟨_, .cons rfl (.cons rfl (.nil _)), by decide⟩

end GaussdbGo.Bgreader
