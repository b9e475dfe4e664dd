import GaussdbGo.Proto.ChunkReader

/-!
# gaussdbproto — the receiving half of `Frontend` and `Backend`

`Frontend.Receive` and `Backend.Receive` start with the same block: unless a
header was read by an earlier call that failed on the body
(`partialMsg`), read five bytes, keep the type byte, check the length and
compute the body length. `MessageReader` is the state that block reads and
writes, shared by both peers, and `receiveHeader` is the block.

`receiveHeader_frame` and `receiveBody_frame` are what the receivers' proofs
use: on a stream that starts with a frame, the header block yields that
frame's type and body length, and the body read yields the body, whatever
the chunking of the stream.
-/

namespace GaussdbGo.Proto

open GoStd GoStd.BigEndian

/-- `translateEOFtoErrUnexpectedEOF`: a stream that ends inside a message is
an `io.ErrUnexpectedEOF`. -/
def translateEOFtoErrUnexpectedEOF (err : IOError) : ProtoError :=
  if err = .eof then .io .unexpectedEOF else .io err

/-- The fields `Receive` works on: the chunk reader and the header of the
message being received. -/
structure MessageReader where
  cr : ChunkReader
  bodyLen : Nat
  /-- `0` means no limit. -/
  maxBodyLen : Nat
  msgType : UInt8
  partialMsg : Bool
  deriving DecidableEq, Repr

namespace MessageReader

/-- The type byte and the length word of a header. -/
def parseHeader (header : Bytes) : GoP (UInt8 × Nat) := do
  let msgType ← index header 0
  let msgLength := (← uint32 (← sliceFrom header 1)).toNat
  pure (msgType, msgLength)

/-- `if !f.partialMsg { ... }`: read the header, then keep its type and
body length, and set `partialMsg`. -/
def receiveHeader (m : MessageReader) : GoP Unit × MessageReader :=
  if m.partialMsg then (pure (), m)
  else
    match m.cr.next 5 with
    | (.error e, cr) => (raise (translateEOFtoErrUnexpectedEOF e), { m with cr := cr })
    | (.ok header, cr) =>
      let m := { m with cr := cr }
      match parseHeader header with
      | .error e => (.error e, m)
      | .ok (msgType, msgLength) =>
        let m := { m with msgType := msgType }
        if msgLength < 4 then (raise (.invalidMessageLength msgLength), m)
        else
          let m := { m with bodyLen := msgLength - 4 }
          if 0 < m.maxBodyLen ∧ m.maxBodyLen < m.bodyLen then
            (raise (.exceededMaxBodyLen m.maxBodyLen m.bodyLen), m)
          else (pure (), { m with partialMsg := true })

/-- `msgBody, err := f.cr.Next(f.bodyLen)`. -/
def receiveBody (m : MessageReader) : GoP Bytes × MessageReader :=
  match m.cr.next m.bodyLen with
  | (.error e, cr) => (raise (translateEOFtoErrUnexpectedEOF e), { m with cr := cr })
  | (.ok msgBody, cr) => (pure msgBody, { m with cr := cr })

/-! ## On a stream that starts with a frame -/

/-- The first five bytes of a frame are its header. -/
theorem take_five_frame (t : UInt8) (body rest : Bytes) :
    (frame t body ++ rest).take 5 = t :: putUint32 (UInt32.ofNat (body.length + 4)) := by
  simp [frame, putUint32]

theorem drop_five_frame (t : UInt8) (body rest : Bytes) :
    (frame t body ++ rest).drop 5 = body ++ rest := by
  simp [frame, putUint32]

theorem parseHeader_header (t : UInt8) (n : Nat) (hn : n < 2 ^ 32) :
    parseHeader (t :: putUint32 (UInt32.ofNat n)) = .ok (t, n) := by
  have hx : (UInt32.ofNat n).toNat = n := UInt32.toNat_ofNat_of_lt' hn
  have hi : (index (t :: putUint32 (UInt32.ofNat n)) 0 : GoP UInt8) = .ok t := rfl
  have hs : (sliceFrom (t :: putUint32 (UInt32.ofNat n)) 1 : GoP Bytes) =
      .ok (putUint32 (UInt32.ofNat n)) :=
    sliceFrom_of_le _ (show 1 ≤ _ by simp)
  have hu : (uint32 (putUint32 (UInt32.ofNat n)) : GoP UInt32) = .ok (UInt32.ofNat n) :=
    uint32_putUint32_self _
  rw [parseHeader, hi, hs]
  show (fun a => (t, a.toNat)) <$> (uint32 (putUint32 (UInt32.ofNat n)) : GoP UInt32) = _
  rw [hu]
  show Except.ok (t, (UInt32.ofNat n).toNat) = _
  rw [hx]

/-- On a stream that starts with a frame whose body is within the limit, the
header block reads exactly the header and keeps the frame's type and body
length. -/
theorem receiveHeader_frame {m : MessageReader} {t : UInt8} {body rest : Bytes}
    (h : m.cr.Inv) (hp : m.partialMsg = false) (hs : m.cr.stream = frame t body ++ rest)
    (hlen : body.length + 4 < 2 ^ 32) (hmax : m.maxBodyLen = 0 ∨ body.length ≤ m.maxBodyLen) :
    ∃ cr, cr.Inv ∧ cr.stream = body ++ rest ∧
      m.receiveHeader =
        (.ok (), { m with cr := cr, msgType := t, bodyLen := body.length, partialMsg := true }) := by
  have h5 : 5 ≤ m.cr.stream.length := by rw [hs, List.length_append, length_frame]; omega
  obtain ⟨hinv, hok, -⟩ := ChunkReader.next_spec h 5
  obtain ⟨hb, hrest⟩ := hok h5
  refine ⟨(m.cr.next 5).2, hinv, by rw [hrest, hs, drop_five_frame], ?_⟩
  rcases hn : m.cr.next 5 with ⟨r, cr⟩
  rw [hn] at hb
  dsimp only at hb
  rw [hb, hs, take_five_frame] at hn
  have hnot : ¬ body.length + 4 < 4 := by omega
  have hmax' : ¬ (0 < m.maxBodyLen ∧ m.maxBodyLen < body.length) := by omega
  simp only [receiveHeader, hp, Bool.false_eq_true, if_false, hn,
    parseHeader_header t _ hlen, hnot, Nat.add_sub_cancel, hmax']
  rfl

/-- On a stream whose header has a length word below 4, the header block
fails, whatever follows. -/
theorem receiveHeader_short {m : MessageReader} {t : UInt8} {n : Nat} {rest : Bytes}
    (h : m.cr.Inv) (hp : m.partialMsg = false)
    (hs : m.cr.stream = t :: putUint32 (UInt32.ofNat n) ++ rest) (hn : n < 4) :
    m.receiveHeader.1 = raise (.invalidMessageLength n) := by
  have h5 : 5 ≤ m.cr.stream.length := by rw [hs]; simp
  obtain ⟨-, hok, -⟩ := ChunkReader.next_spec h 5
  obtain ⟨hb, -⟩ := hok h5
  have htake : m.cr.stream.take 5 = t :: putUint32 (UInt32.ofNat n) := by
    rw [hs, List.cons_append, List.take_succ_cons, List.take_left' (length_putUint32 _)]
  rcases hnext : m.cr.next 5 with ⟨r, cr⟩
  rw [hnext] at hb
  dsimp only at hb
  rw [hb, htake] at hnext
  simp only [receiveHeader, hp, Bool.false_eq_true, if_false, hnext,
    parseHeader_header t n (by omega), hn, if_true]

/-- With `bodyLen` bytes of body in front, the body read returns them. -/
theorem receiveBody_frame {m : MessageReader} {body rest : Bytes}
    (h : m.cr.Inv) (hs : m.cr.stream = body ++ rest) (hb : m.bodyLen = body.length) :
    ∃ cr, cr.Inv ∧ cr.stream = rest ∧ m.receiveBody = (.ok body, { m with cr := cr }) := by
  have hle : m.bodyLen ≤ m.cr.stream.length := by rw [hs, hb, List.length_append]; omega
  obtain ⟨hinv, hok, -⟩ := ChunkReader.next_spec h m.bodyLen
  obtain ⟨hbody, hrest⟩ := hok hle
  refine ⟨(m.cr.next m.bodyLen).2, hinv, by rw [hrest, hs, hb, List.drop_left], ?_⟩
  rcases hn : m.cr.next m.bodyLen with ⟨r, cr⟩
  rw [hn] at hbody
  dsimp only at hbody
  have htake : m.cr.stream.take m.bodyLen = body := by rw [hs, hb, List.take_left]
  rw [hbody, htake] at hn
  simp only [receiveBody, hn]
  rfl

end MessageReader

end GaussdbGo.Proto
