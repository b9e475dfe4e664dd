import GaussdbGo.Lib.Bytes

/-!
# Readers: a stream served in chunks, and `io.ReadAtLeast`

`ChunkedReader` is an `io.Reader` over a fixed byte stream that arrives in
chunks of any sizes: a `Read(p)` returns the next chunk, cut to `len(p)`
(the rest stays for the next call), and `io.EOF` once nothing is left. Every
way of splitting a stream is one list of chunks, so a statement over all
lists is a statement over all splittings.

`readAtLeast` is `io.ReadAtLeast` on such a reader. Its loop reads until
`min` bytes are in; a `Read` that meets a chunk longer than the free space
fills the buffer, and since the buffer holds at least `min` bytes that read
ends the loop, so the loop is a recursion on the chunks.
-/

namespace GoStd

/-- An `io.Reader` serving the concatenation of `chunks`. -/
structure ChunkedReader where
  chunks : List (List UInt8)
  deriving DecidableEq, Repr

namespace ChunkedReader

/-- The bytes the reader has still to serve. -/
def rest (r : ChunkedReader) : List UInt8 := r.chunks.flatten

/-- `for n < min && err == nil { nn, err = r.Read(buf[n:]); n += nn }`, with
`got` the bytes read so far and `space = len(buf)`. -/
def readLoop (space min : Nat) : List (List UInt8) → List UInt8 →
    (List UInt8 × Option IOError) × List (List UInt8)
  | [], got => ((got, some .eof), [])
  | c :: cs, got =>
    if space - got.length < c.length then
      ((got ++ c.take (space - got.length), none), c.drop (space - got.length) :: cs)
    else if min ≤ got.length + c.length then ((got ++ c, none), cs)
    else readLoop space min cs (got ++ c)

/-- `io.ReadAtLeast(r, buf, min)` with `len(buf) = space`: the bytes read and
the error. `io.EOF` only when nothing was read, `io.ErrUnexpectedEOF` when
the stream ended after some bytes but before `min`. -/
def readAtLeast (r : ChunkedReader) (space min : Nat) :
    (List UInt8 × Option IOError) × ChunkedReader :=
  if space < min then (([], some .shortBuffer), r)
  else if min = 0 then (([], none), r)
  else
    let ((got, err), chunks) := readLoop space min r.chunks []
    let err := if min ≤ got.length then none
      else if 0 < got.length ∧ err = some .eof then some .unexpectedEOF else err
    ((got, err), ⟨chunks⟩)

/-- What the loop returns: nothing is lost or repeated, at most `space` bytes
are taken, it succeeds exactly when `min` bytes were there, and it fails only
after draining the reader. -/
theorem readLoop_stream_spec (space min : Nat) (hms : min ≤ space) :
    ∀ (chunks : List (List UInt8)) (got : List UInt8), got.length < min →
      let res := readLoop space min chunks got
      res.1.1 ++ res.2.flatten = got ++ chunks.flatten ∧
      res.1.1.length ≤ space ∧
      (res.1.2 = none → min ≤ res.1.1.length) ∧
      (res.1.2 ≠ none → res.1.2 = some .eof ∧ res.2 = [] ∧ res.1.1.length < min)
  | [], got, hg => by
    simp only [readLoop, List.flatten_nil, List.append_nil]
    exact ⟨trivial, by omega, by simp, fun _ => by simpa using hg⟩
  | c :: cs, got, hg => by
    simp only [readLoop]
    split
    · -- the chunk is longer than the free space: the read fills the buffer
      rename_i hlt
      refine ⟨?_, ?_, ?_, by simp⟩
      · simp only [List.flatten_cons, List.append_assoc]
        rw [← List.append_assoc (c.take _), List.take_append_drop]
      · simp only [List.length_append, List.length_take]
        omega
      · intro _
        simp only [List.length_append, List.length_take]
        omega
    · split
      · rename_i hle hge
        refine ⟨by simp, ?_, fun _ => by simpa using hge, by simp⟩
        simp only [List.length_append]
        omega
      · rename_i hle hlt
        have ih := readLoop_stream_spec space min hms cs (got ++ c) (by simp; omega)
        simp only [List.flatten_cons, ← List.append_assoc]
        exact ⟨ih.1, ih.2.1, ih.2.2.1, ih.2.2.2⟩

/-- `io.ReadAtLeast` with room for `min` bytes: the bytes read are a prefix of
the stream, and it succeeds exactly when the stream holds `min` bytes; if not,
it has drained the reader. -/
theorem readAtLeast_spec (r : ChunkedReader) (space min : Nat) (hms : min ≤ space) :
    let res := readAtLeast r space min
    res.1.1 ++ res.2.rest = r.rest ∧ res.1.1.length ≤ space ∧
      (res.1.2 = none ↔ min ≤ r.rest.length) ∧
      (res.1.2 = none → min ≤ res.1.1.length) ∧
      (res.1.2 ≠ none → res.2.rest = []) := by
  by_cases h0 : min = 0
  · subst h0
    simp [readAtLeast, rest]
  · have hnot : ¬ space < min := by omega
    obtain ⟨hcat, hsp, hok, herr⟩ := readLoop_stream_spec space min hms r.chunks [] (by simp; omega)
    simp only [readAtLeast, hnot, h0, if_false, rest]
    simp only [List.nil_append] at hcat
    refine ⟨hcat, hsp, ?_, ?_, ?_⟩
    · constructor
      · intro hn
        by_cases hm : min ≤ (readLoop space min r.chunks []).1.1.length
        · rw [← hcat]; simp only [List.length_append]; omega
        · simp only [hm, if_false] at hn
          split at hn
          · cases hn
          · exact absurd (hok hn) hm
      · intro hle
        by_cases hm : min ≤ (readLoop space min r.chunks []).1.1.length
        · simp [hm]
        · exfalso
          cases he : (readLoop space min r.chunks []).1.2 with
          | none => exact hm (hok he)
          | some e =>
            have := herr (by simp [he])
            rw [← hcat, this.2.1] at hle
            simp at hle
            omega
    · intro hn
      by_cases hm : min ≤ (readLoop space min r.chunks []).1.1.length
      · exact hm
      · simp only [hm, if_false] at hn
        split at hn
        · cases hn
        · exact hok hn
    · intro hn
      by_cases hm : min ≤ (readLoop space min r.chunks []).1.1.length
      · simp [hm] at hn
      · cases he : (readLoop space min r.chunks []).1.2 with
        | none => exact absurd (hok he) hm
        | some e => simp [(herr (by simp [he])).2.1]

end ChunkedReader

end GoStd
