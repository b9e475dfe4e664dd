import GaussdbGo.Lib.Io
import GaussdbGo.Lib.Machine
import GaussdbGo.Proto.Wire

/-!
# gaussdbproto — `chunkReader`

The buffered reader under `Frontend` and `Backend`. `Next(n)` returns the next
`n` bytes, from its buffer when they are there, else after one
`io.ReadAtLeast` into the free end of its buffer, which it first grows to `n`
bytes and compacts when needed.

The model keeps the live window `(*r.buf)[r.rp:r.wp]` and the positions that
decide how much each read asks for; the bytes outside the window are never
returned. `next_spec` is the contract the receivers rely on: whatever the
chunking of the stream, `Next(n)` returns its next `n` bytes, or an error
once fewer are left.
-/

namespace GaussdbGo.Proto

open GoStd GoStd.ChunkedReader

/-- A `chunkReader`: the underlying reader, the buffered bytes, the length of
`*r.buf`, the read and write positions, and `minBufSize`. -/
structure ChunkReader where
  r : ChunkedReader
  window : Bytes
  bufLen : Nat
  rp : Nat
  wp : Nat
  minBufSize : Nat
  deriving DecidableEq, Repr

/-- `newChunkReader(r, minBufSize)`; a size `≤ 0` means 8192. -/
def newChunkReader (r : ChunkedReader) (minBufSize : Int) : ChunkReader :=
  let minBufSize := if minBufSize ≤ 0 then 8192 else minBufSize.toNat
  { r := r, window := [], bufLen := minBufSize, rp := 0, wp := 0, minBufSize := minBufSize }

namespace ChunkReader

/-- "Reset the buffer if it is empty": a buffer of `minBufSize`, positions 0. -/
def resetIfEmpty (cr : ChunkReader) : ChunkReader :=
  if cr.rp = cr.wp then { cr with bufLen := cr.minBufSize, rp := 0, wp := 0 } else cr

/-- "buf is smaller than requested number of bytes": move the window to the
start of a buffer of `n` bytes. -/
def growTo (cr : ChunkReader) (n : Nat) : ChunkReader :=
  if cr.bufLen < n then { cr with bufLen := n, wp := cr.wp - cr.rp, rp := 0 } else cr

/-- "shift filled area to start to make enough contiguous space". -/
def compact (cr : ChunkReader) (minReadCount : Nat) : ChunkReader :=
  if cr.bufLen - cr.wp < minReadCount then { cr with wp := cr.wp - cr.rp, rp := 0 } else cr

/-- `buf = (*r.buf)[r.rp : r.rp+n : r.rp+n]; r.rp += n`. -/
def takeBuffered (cr : ChunkReader) (n : Nat) : Bytes × ChunkReader :=
  (cr.window.take n, { cr with window := cr.window.drop n, rp := cr.rp + n })

/-- "Read at least the required number of bytes from the underlying
io.Reader" into `buf[wp:]`; `r.wp` moves past what was read, error or not. -/
def fill (cr : ChunkReader) (minReadCount : Nat) : Option IOError × ChunkReader :=
  let ((got, err), r) := cr.r.readAtLeast (cr.bufLen - cr.wp) minReadCount
  (err, { cr with r := r, window := cr.window ++ got, wp := cr.wp + got.length })

/-- `chunkReader.Next(n)`. -/
def next (cr : ChunkReader) (n : Nat) : Except IOError Bytes × ChunkReader :=
  let cr := cr.resetIfEmpty
  if n ≤ cr.wp - cr.rp then
    let (b, cr) := cr.takeBuffered n
    (.ok b, cr)
  else
    let cr := cr.growTo n
    let minReadCount := n - (cr.wp - cr.rp)
    let cr := cr.compact minReadCount
    match cr.fill minReadCount with
    | (some e, cr) => (.error e, cr)
    | (none, cr) =>
      let (b, cr) := cr.takeBuffered n
      (.ok b, cr)

/-! ## The buffer invariant and the stream -/

/-- The bytes still to come: those buffered, then those the reader holds. -/
def stream (cr : ChunkReader) : Bytes := cr.window ++ cr.r.rest

/-- The window spans `[rp, wp)` of a buffer of `bufLen` bytes. -/
structure Inv (cr : ChunkReader) : Prop where
  window_length : cr.window.length = cr.wp - cr.rp
  rp_le : cr.rp ≤ cr.wp
  wp_le : cr.wp ≤ cr.bufLen
  min_pos : 0 < cr.minBufSize

theorem inv_newChunkReader (r : ChunkedReader) (minBufSize : Int) :
    (newChunkReader r minBufSize).Inv := by
  refine ⟨rfl, Nat.le_refl _, Nat.zero_le _, ?_⟩
  simp only [newChunkReader]
  split <;> omega

theorem resetIfEmpty_inv {cr : ChunkReader} (h : cr.Inv) : cr.resetIfEmpty.Inv := by
  unfold resetIfEmpty
  split
  · have hw : cr.window.length = 0 := by rw [h.window_length]; omega
    exact ⟨by simpa using hw, by simp, by simp, h.min_pos⟩
  · exact h

theorem resetIfEmpty_stream (cr : ChunkReader) : cr.resetIfEmpty.stream = cr.stream := by
  unfold resetIfEmpty; split <;> rfl

theorem growTo_inv {cr : ChunkReader} (h : cr.Inv) (n : Nat) : (cr.growTo n).Inv := by
  have := h.window_length; have := h.rp_le; have := h.wp_le; have := h.min_pos
  unfold growTo
  split
  · exact ⟨by simp; omega, by simp, by simp; omega, by simpa⟩
  · exact h

theorem growTo_stream (cr : ChunkReader) (n : Nat) : (cr.growTo n).stream = cr.stream := by
  unfold growTo; split <;> rfl

theorem le_growTo (cr : ChunkReader) (n : Nat) : n ≤ (cr.growTo n).bufLen := by
  unfold growTo
  split
  · exact Nat.le_refl n
  · omega

theorem compact_inv {cr : ChunkReader} (h : cr.Inv) (m : Nat) : (cr.compact m).Inv := by
  have := h.window_length; have := h.rp_le; have := h.wp_le; have := h.min_pos
  unfold compact
  split
  · exact ⟨by simp; omega, by simp, by simp; omega, by simpa⟩
  · exact h

theorem compact_stream (cr : ChunkReader) (m : Nat) : (cr.compact m).stream = cr.stream := by
  unfold compact; split <;> rfl

@[simp] theorem compact_window (cr : ChunkReader) (m : Nat) :
    (cr.compact m).window = cr.window := by
  unfold compact; split <;> rfl

@[simp] theorem compact_bufLen (cr : ChunkReader) (m : Nat) :
    (cr.compact m).bufLen = cr.bufLen := by
  unfold compact; split <;> rfl

/-- After `compact`, the free end of the buffer holds what is missing. -/
theorem compact_room {cr : ChunkReader} (h : cr.Inv) {n : Nat} (hn : n ≤ cr.bufLen) :
    n - (cr.wp - cr.rp) ≤ (cr.compact (n - (cr.wp - cr.rp))).bufLen -
      (cr.compact (n - (cr.wp - cr.rp))).wp := by
  have := h.rp_le; have := h.wp_le
  unfold compact
  split <;> simp <;> omega

theorem takeBuffered_spec {cr : ChunkReader} (h : cr.Inv) {n : Nat}
    (hn : n ≤ cr.window.length) :
    (cr.takeBuffered n).1 = cr.stream.take n ∧ (cr.takeBuffered n).2.stream = cr.stream.drop n ∧
      (cr.takeBuffered n).2.Inv := by
  have := h.window_length; have := h.rp_le; have := h.wp_le; have := h.min_pos
  refine ⟨?_, ?_, ⟨?_, ?_, ?_, h.min_pos⟩⟩
  · simp [takeBuffered, stream, List.take_append, hn]
  · simp [takeBuffered, stream, List.drop_append, hn]
  · simp [takeBuffered]; omega
  · simp [takeBuffered]; omega
  · simp [takeBuffered]; omega

/-- One fill with room for what is missing: the stream is unchanged, and it
fails exactly when the reader holds fewer than `m` bytes. -/
theorem fill_eq (cr : ChunkReader) (m : Nat) :
    cr.fill m =
      let res := cr.r.readAtLeast (cr.bufLen - cr.wp) m
      (res.1.2,
        { cr with r := res.2, window := cr.window ++ res.1.1, wp := cr.wp + res.1.1.length }) :=
  rfl

theorem fill_spec {cr : ChunkReader} (h : cr.Inv) {m : Nat} (hm : m ≤ cr.bufLen - cr.wp) :
    (cr.fill m).2.Inv ∧ (cr.fill m).2.stream = cr.stream ∧
      ((cr.fill m).1 = none ↔ m ≤ cr.r.rest.length) ∧
      ((cr.fill m).1 = none → cr.window.length + m ≤ (cr.fill m).2.window.length) := by
  obtain ⟨hcat, hsp, hiff, hok, -⟩ := readAtLeast_spec cr.r (cr.bufLen - cr.wp) m hm
  have := h.window_length; have := h.rp_le; have := h.wp_le
  rw [fill_eq]
  refine ⟨⟨?_, ?_, ?_, h.min_pos⟩, ?_, hiff, ?_⟩
  · dsimp only; simp only [List.length_append]; omega
  · dsimp only; omega
  · dsimp only; omega
  · simp only [stream, List.append_assoc, hcat]
  · intro hn
    dsimp only
    simp only [List.length_append]
    have := hok hn
    omega

/-- `Next(n)` returns the next `n` bytes of the stream, however it is split
into reads; with fewer left it returns an error, and loses nothing. -/
theorem next_spec {cr : ChunkReader} (h : cr.Inv) (n : Nat) :
    (cr.next n).2.Inv ∧
      (n ≤ cr.stream.length →
        (cr.next n).1 = .ok (cr.stream.take n) ∧ (cr.next n).2.stream = cr.stream.drop n) ∧
      (cr.stream.length < n → (∃ e, (cr.next n).1 = .error e) ∧ (cr.next n).2.stream = cr.stream) := by
  have h₁ := resetIfEmpty_inv h
  have hs₁ := resetIfEmpty_stream cr
  simp only [next]
  split
  · -- the buffer already holds `n` bytes
    rename_i hle
    have hw : n ≤ cr.resetIfEmpty.window.length := by rw [h₁.window_length]; exact hle
    obtain ⟨hb, hs, hi⟩ := takeBuffered_spec h₁ hw
    have hlen : n ≤ cr.stream.length := by
      rw [← hs₁]; simp only [stream, List.length_append]; omega
    refine ⟨hi, fun _ => ⟨by rw [hb, hs₁], by rw [hs, hs₁]⟩, fun hlt => absurd hlen (by omega)⟩
  · -- grow, compact, then read what is missing
    rename_i hgt
    have hwin₁ := h₁.window_length
    have h₂ := growTo_inv h₁ n
    have hbig := le_growTo cr.resetIfEmpty n
    have hs₂ := growTo_stream cr.resetIfEmpty n
    have hw₂ : (cr.resetIfEmpty.growTo n).window = cr.resetIfEmpty.window := by
      unfold growTo; split <;> rfl
    generalize cr.resetIfEmpty.growTo n = c₂ at h₂ hbig hs₂ hw₂ ⊢
    have hroom := compact_room h₂ hbig
    have h₃ := compact_inv h₂ (n - (c₂.wp - c₂.rp))
    have hs₃ := compact_stream c₂ (n - (c₂.wp - c₂.rp))
    have hw₃ := compact_window c₂ (n - (c₂.wp - c₂.rp))
    have hwin₂ := h₂.window_length
    have hlt₂ : c₂.window.length < n := by rw [hw₂, hwin₁]; omega
    generalize c₂.compact (n - (c₂.wp - c₂.rp)) = c₃ at hroom h₃ hs₃ hw₃ ⊢
    obtain ⟨h₄, hs₄, hiff, hgrow⟩ := fill_spec h₃ hroom
    have hstream : cr.stream.length = c₃.window.length + c₃.r.rest.length := by
      rw [← hs₁, ← hs₂, ← hs₃]; simp [stream]
    rcases hf : c₃.fill (n - (c₂.wp - c₂.rp)) with ⟨_ | e, c₄⟩
    · -- the read brought what was missing
      rw [hf] at h₄ hs₄ hiff hgrow
      dsimp only at h₄ hs₄ hiff hgrow ⊢
      have hw₄ := hgrow rfl
      have hrest := hiff.mp rfl
      rw [hw₃] at hw₄
      obtain ⟨hb, hs, hi⟩ := takeBuffered_spec (n := n) h₄ (by omega)
      refine ⟨hi, fun _ => ⟨by rw [hb, hs₄, hs₃, hs₂, hs₁], by rw [hs, hs₄, hs₃, hs₂, hs₁]⟩,
        fun hlt => ?_⟩
      rw [hw₃] at hstream
      omega
    · -- the stream ended first
      rw [hf] at h₄ hs₄ hiff
      dsimp only at h₄ hs₄ hiff ⊢
      have hshort : c₃.r.rest.length < n - (c₂.wp - c₂.rp) := by
        by_contra hc; exact absurd (hiff.mpr (by omega)) (by simp)
      rw [hw₃] at hstream
      refine ⟨h₄, fun hle => absurd hle (by omega),
        fun _ => ⟨⟨e, rfl⟩, by rw [hs₄, hs₃, hs₂, hs₁]⟩⟩

/-! ## A caller's run of `Next` calls

A caller asks `Next(n₁)`, …, `Next(nₖ)` in turn and keeps each buffer before
the next call (`Next` may reuse the storage, which the model does not hold).
The state of the run is the reader with the buffers returned so far. -/

/-- One `Next(n)` of the run: the buffer joins those returned so far; an error
ends the run. -/
def nextStep (s : ChunkReader × List Bytes) (n : Nat) : Except IOError (ChunkReader × List Bytes) :=
  let res := s.1.next n
  match res.1 with
  | .ok b => .ok (res.2, s.2 ++ [b])
  | .error e => .error e

/-- A `Next` that succeeds took the next `n` bytes of the stream. -/
theorem nextStep_ok {s t : ChunkReader × List Bytes} {n : Nat} (h : s.1.Inv)
    (hs : nextStep s n = .ok t) :
    t.1.Inv ∧ n ≤ s.1.stream.length ∧ t.2 = s.2 ++ [s.1.stream.take n] ∧
      t.1.stream = s.1.stream.drop n := by
  obtain ⟨hinv, hok, herr⟩ := next_spec h n
  by_cases hn : n ≤ s.1.stream.length
  · obtain ⟨hb, hst⟩ := hok hn
    simp only [nextStep, hb, Except.ok.injEq] at hs
    subst hs
    exact ⟨hinv, hn, rfl, hst⟩
  · obtain ⟨⟨e, he⟩, -⟩ := herr (by omega)
    simp only [nextStep, he, reduceCtorEq] at hs

/-- What a run of successful calls returned: one buffer a request, of its
length, and together the bytes the stream lost, in order. -/
theorem nextRun_spec {s t : ChunkReader × List Bytes} {ns : List Nat}
    (hrun : Machine.Run nextStep s ns t) (h : s.1.Inv) :
    t.1.Inv ∧ ∃ bufs, t.2 = s.2 ++ bufs ∧ bufs.map List.length = ns ∧
      bufs.flatten ++ t.1.stream = s.1.stream := by
  induction hrun with
  | nil s => exact ⟨h, [], by simp, rfl, rfl⟩
  | @cons s t u n ns hst _ ih =>
    -- the first call takes `n` bytes; the rest of the run starts after them
    obtain ⟨ht, hn, hlog, hstream⟩ := nextStep_ok h hst
    obtain ⟨hu, bufs, hulog, hlen, hcat⟩ := ih ht
    refine ⟨hu, s.1.stream.take n :: bufs, by rw [hulog, hlog]; simp, ?_, ?_⟩
    · simp only [List.map_cons, hlen, List.length_take]
      rw [Nat.min_eq_left hn]
    · rw [List.flatten_cons, List.append_assoc, hcat, hstream, List.take_append_drop]

/-- Requests the stream can answer all succeed. -/
theorem nextRun_exists {s : ChunkReader × List Bytes} (h : s.1.Inv) :
    ∀ {ns : List Nat}, ns.sum ≤ s.1.stream.length → ∃ t, Machine.Run nextStep s ns t
  | [], _ => ⟨s, .nil s⟩
  | n :: ns, hsum => by
    obtain ⟨hinv, hok, -⟩ := next_spec h n
    have hn : n ≤ s.1.stream.length := by simp only [List.sum_cons] at hsum; omega
    obtain ⟨hb, hst⟩ := hok hn
    have hstep : nextStep s n = .ok ((s.1.next n).2, s.2 ++ [s.1.stream.take n]) := by
      simp only [nextStep, hb]
    have hrest : ns.sum ≤ (s.1.next n).2.stream.length := by
      rw [hst, List.length_drop]; simp only [List.sum_cons] at hsum; omega
    obtain ⟨t, hrun⟩ := nextRun_exists (s := ((s.1.next n).2, _)) hinv hrest
    exact ⟨t, .cons hstep hrun⟩

/-- `chunkReader` delivers its stream without loss or repetition: from a new
reader over any chunking of the stream, requests `Next(n₁)`, …, `Next(nₖ)`
that all succeed return buffers of lengths `n₁`, …, `nₖ` that together are the
first `n₁ + … + nₖ` bytes of the stream, and after each call the positions
keep `rp ≤ wp ≤ len(*buf)` with the window between them. -/
theorem chunkReader_delivers_stream (r : ChunkedReader) (minBufSize : Int) (ns : List Nat)
    (t : ChunkReader × List Bytes) (hrun : Machine.Run nextStep (newChunkReader r minBufSize, []) ns t) :
    t.2.map List.length = ns ∧ t.2.flatten = r.rest.take ns.sum ∧
      ∀ k, ∃ tk, Machine.Run nextStep (newChunkReader r minBufSize, []) (ns.take k) tk ∧ tk.1.Inv := by
  have h₀ := inv_newChunkReader r minBufSize
  have hs₀ : (newChunkReader r minBufSize).stream = r.rest := rfl
  obtain ⟨-, bufs, hlog, hlen, hcat⟩ := nextRun_spec hrun h₀
  simp only [List.nil_append] at hlog
  subst hlog
  refine ⟨hlen, ?_, fun k => ?_⟩
  · -- the buffers are a prefix of the stream of their total length
    have hsum : t.2.flatten.length = ns.sum := by rw [List.length_flatten, hlen]
    rw [← hs₀, ← hcat, ← hsum, List.take_left]
  · -- each prefix of the requests is a run of its own
    rw [← List.take_append_drop k ns] at hrun
    obtain ⟨tk, hk, -⟩ := Machine.Run.split hrun
    exact ⟨tk, hk, (nextRun_spec hk h₀).1⟩

/-- Three bytes served in chunks `[1, 2]` and `[3]`, asked for as `Next(1)`
then `Next(2)`. -/
theorem chunkReader_delivers_stream_two_calls :
    ∃ t, Machine.Run nextStep (newChunkReader ⟨[[1, 2], [3]]⟩ 2, []) [1, 2] t ∧
      t.2.flatten = [1, 2, 3] := by
  obtain ⟨t, hrun⟩ : ∃ t, Machine.Run nextStep (newChunkReader ⟨[[1, 2], [3]]⟩ 2, []) [1, 2] t :=
    nextRun_exists (inv_newChunkReader _ _) (by decide)
  exact ⟨t, hrun, (chunkReader_delivers_stream _ _ _ t hrun).2.1.trans (by decide)⟩

end ChunkReader

end GaussdbGo.Proto
