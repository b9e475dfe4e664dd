import GaussdbGo.Proto.Receive
import GaussdbGo.Proto.FrontendMessage

/-!
# gaussdbproto — `Backend.Receive` and `Backend.ReceiveStartupMessage`

The server side reads the startup packet, which has no type byte, and then
one frontend message per call. Unlike the `Frontend`, the `Backend` switches
on the type byte before it reads the body, so an unknown type fails with
`partialMsg` still set; and a `'p'` message is sorted by the `authType` the
server last set with `SetAuthType`, not by anything on the wire.

None of the frontend decoders reads what its flyweight holds, so the
flyweights are left out and each `Decode` is given a default value.

`receive_frame` and `receiveStartupMessage_packet` are the backend's
contract with the stream; the two theorems after them are inputs on which
the decoders, given the body, panic or refuse what an encoder wrote.
-/

namespace GaussdbGo.Proto

open GoStd GoStd.BigEndian GoStd.ChunkedReader

/-- A `Backend`'s receiving state. -/
structure Backend extends MessageReader where
  authType : UInt32
  deriving DecidableEq, Repr

/-- `NewBackend(r, w)`. -/
def newBackend (r : ChunkedReader) : Backend :=
  { cr := newChunkReader r 0, bodyLen := 0, maxBodyLen := 0, msgType := 0, partialMsg := false,
    authType := 0 }

/-- `minStartupPacketLen`: a single 32-bit version or code. -/
def minStartupPacketLen : Nat := 4

/-- `maxStartupPacketLen`, `MAX_STARTUP_PACKET_LENGTH`. -/
def maxStartupPacketLen : Nat := 10000

namespace Backend

/-- `SetAuthType`: `AuthTypeSHA256` is not among the types it accepts. -/
def setAuthType (b : Backend) (authType : UInt32) : GoP Unit × Backend :=
  if authType ∈ [AuthTypeOk, AuthTypeCleartextPassword, AuthTypeMD5Password, AuthTypeSCMCreds,
      AuthTypeGSS, AuthTypeGSSCont, AuthTypeSSPI, AuthTypeSASL, AuthTypeSASLContinue,
      AuthTypeSASLFinal] then
    (pure (), { b with authType := authType })
  else (raise (.authTypeNotRecognized authType), b)

/-- The `switch b.authType` for a `'p'` message; anything else, including
no type set, is a `PasswordMessage`. -/
def authResponse (authType : UInt32) : FrontendMessage :=
  if authType = AuthTypeSASL then .saslInitialResponse default
  else if authType = AuthTypeSASLContinue ∨ authType = AuthTypeSASLFinal then .saslResponse default
  else if authType = AuthTypeGSS ∨ authType = AuthTypeGSSCont then .gssResponse default
  else .passwordMessage default

/-- The `switch b.msgType` of `Receive`. -/
def selectMessage (b : Backend) : GoP FrontendMessage :=
  match Char.ofNat b.msgType.toNat with
  | 'B' => pure (.bind default)
  | 'C' => pure (.close default)
  | 'D' => pure (.describe default)
  | 'E' => pure (.execute default)
  | 'F' => pure (.functionCall default)
  | 'f' => pure (.copyFail default)
  | 'd' => pure (.copyData default)
  | 'c' => pure (.copyDone {})
  | 'H' => pure (.flush {})
  | 'P' => pure (.parse default)
  | 'p' => pure (authResponse b.authType)
  | 'Q' => pure (.query default)
  | 'S' => pure (.sync {})
  | 'X' => pure (.terminate {})
  | _ => raise (.unknownMessageType b.msgType)

/-- `Backend.Receive`. The tracer is left out. -/
def receive (b : Backend) : GoP FrontendMessage × Backend :=
  match b.receiveHeader with
  | (.error e, m) => (.error e, { b with toMessageReader := m })
  | (.ok (), m) =>
    let b := { b with toMessageReader := m }
    match b.selectMessage with
    | .error e => (.error e, b)
    | .ok msg =>
      match b.receiveBody with
      | (.error e, m) => (.error e, { b with toMessageReader := m })
      | (.ok msgBody, m) =>
        (msg.decode msgBody, { b with toMessageReader := { m with partialMsg := false } })

/-- The `switch code` of `ReceiveStartupMessage`. -/
def decodeStartupPacket (buf : Bytes) : GoP FrontendMessage := do
  let code ← uint32 buf
  if code = ProtocolVersionNumber then .startupMessage <$> StartupMessage.decode default buf
  else if code = sslRequestNumber then .sslRequest <$> SSLRequest.decode {} buf
  else if code = cancelRequestCode then .cancelRequest <$> CancelRequest.decode default buf
  else if code = gssEncReqNumber then .gssEncRequest <$> GSSEncRequest.decode {} buf
  else raise (.unknownStartupCode code)

/-- `Backend.ReceiveStartupMessage`. The size is computed as
`int(binary.BigEndian.Uint32(buf) - 4)`, in `uint32`, so a length word below
4 wraps to a size above `maxStartupPacketLen`; an error of the first read is
returned as it is, of the second as `io.ErrUnexpectedEOF`. -/
def receiveStartupMessage (b : Backend) : GoP FrontendMessage × Backend :=
  match b.cr.next 4 with
  | (.error e, cr) => (raise (.io e), { b with cr := cr })
  | (.ok buf, cr) =>
    let b := { b with cr := cr }
    match (uint32 buf : GoP UInt32) with
    | .error e => (.error e, b)
    | .ok len =>
      let msgSize := (len - 4).toNat
      if msgSize < minStartupPacketLen ∨ maxStartupPacketLen < msgSize then
        (raise (.invalidStartupPacketLength msgSize), b)
      else
        match b.cr.next msgSize with
        | (.error e, cr) => (raise (translateEOFtoErrUnexpectedEOF e), { b with cr := cr })
        | (.ok buf, cr) => (decodeStartupPacket buf, { b with cr := cr })

/-! ## On a stream that starts with a message -/

/-- On a stream that starts with a frame of a type the switch knows,
`Receive` consumes exactly that frame and decodes its body, whatever the
chunking. -/
theorem receive_frame {b : Backend} {t : UInt8} {body rest : Bytes} {msg : FrontendMessage}
    (h : b.cr.Inv) (hp : b.partialMsg = false) (hs : b.cr.stream = frame t body ++ rest)
    (hlen : body.length + 4 < 2 ^ 32) (hmax : b.maxBodyLen = 0 ∨ body.length ≤ b.maxBodyLen)
    (hsel : ({ b with msgType := t } : Backend).selectMessage = .ok msg) :
    ∃ cr, cr.Inv ∧ cr.stream = rest ∧
      b.receive =
        (msg.decode body,
          { b with cr := cr, msgType := t, bodyLen := body.length, partialMsg := false }) := by
  obtain ⟨cr₁, h₁, hs₁, hhead⟩ := MessageReader.receiveHeader_frame h hp hs hlen hmax
  obtain ⟨cr₂, h₂, hs₂, hbody⟩ :=
    MessageReader.receiveBody_frame (m := { b.toMessageReader with
      cr := cr₁, msgType := t, bodyLen := body.length, partialMsg := true }) h₁ hs₁ rfl
  refine ⟨cr₂, h₂, hs₂, ?_⟩
  -- the switch reads only the type byte and `authType`, which the header
  -- block leaves as `hsel` has them
  have hsel' : ({ b with cr := cr₁, msgType := t, bodyLen := body.length, partialMsg := true } :
      Backend).selectMessage = .ok msg := hsel
  simp only [receive, hhead, hsel', hbody]

/-- On a stream whose header has a length word below 4, `Receive` fails
with `invalidMessageLength`, whatever follows. -/
theorem receive_short {b : Backend} {t : UInt8} {n : Nat} {rest : Bytes}
    (h : b.cr.Inv) (hp : b.partialMsg = false)
    (hs : b.cr.stream = t :: putUint32 (UInt32.ofNat n) ++ rest) (hn : n < 4) :
    b.receive.1 = raise (.invalidMessageLength n) := by
  have hh := MessageReader.receiveHeader_short h hp hs hn
  unfold receive
  rcases hr : b.receiveHeader with ⟨r, m⟩
  rw [hr] at hh
  dsimp only at hh
  subst hh
  rfl

/-- A startup packet: a length word counting itself, then the body. -/
def startupPacket (body : Bytes) : Bytes := putUint32 (UInt32.ofNat (body.length + 4)) ++ body

/-- On a stream that starts with a startup packet of an accepted size,
`ReceiveStartupMessage` consumes exactly that packet and decodes its body,
whatever the chunking. -/
theorem receiveStartupMessage_packet {b : Backend} {body rest : Bytes}
    (h : b.cr.Inv) (hs : b.cr.stream = startupPacket body ++ rest)
    (hmin : minStartupPacketLen ≤ body.length) (hmax : body.length ≤ maxStartupPacketLen) :
    ∃ cr, cr.Inv ∧ cr.stream = rest ∧
      b.receiveStartupMessage = (decodeStartupPacket body, { b with cr := cr }) := by
  have hlen : (startupPacket body ++ rest).length = body.length + 4 + rest.length := by
    simp [startupPacket]; omega
  obtain ⟨h₁, hok₁, -⟩ := ChunkReader.next_spec h 4
  obtain ⟨hb₁, hs₁⟩ := hok₁ (by rw [hs, hlen]; omega)
  have htake : b.cr.stream.take 4 = putUint32 (UInt32.ofNat (body.length + 4)) := by
    rw [hs, startupPacket, List.append_assoc, List.take_left' (length_putUint32 _)]
  have hdrop : (b.cr.next 4).2.stream = body ++ rest := by
    rw [hs₁, hs, startupPacket, List.append_assoc, List.drop_left' (length_putUint32 _)]
  obtain ⟨h₂, hok₂, -⟩ := ChunkReader.next_spec h₁ body.length
  obtain ⟨hb₂, hs₂⟩ := hok₂ (by rw [hdrop, List.length_append]; omega)
  refine ⟨((b.cr.next 4).2.next body.length).2, h₂, by rw [hs₂, hdrop, List.drop_left], ?_⟩
  have hsize : (UInt32.ofNat (body.length + 4) - 4).toNat = body.length := by
    have hb : body.length + 4 < 2 ^ 32 := by
      simp only [maxStartupPacketLen] at hmax; omega
    rw [UInt32.toNat_sub_of_le _ _ (by
      rw [UInt32.le_iff_toNat_le, UInt32.toNat_ofNat_of_lt' hb]; simp)]
    rw [UInt32.toNat_ofNat_of_lt' hb]
    simp
  have hnot : ¬ (body.length < minStartupPacketLen ∨ maxStartupPacketLen < body.length) := by
    omega
  have hbody : ((b.cr.next 4).2.next body.length).1 = .ok body := by
    rw [hb₂, hdrop, List.take_left]
  rcases hn : b.cr.next 4 with ⟨r, cr⟩
  rw [hn] at hb₁ hbody
  dsimp only at hb₁ hbody
  rw [hb₁, htake] at hn
  rcases hn₂ : cr.next body.length with ⟨r₂, cr₂⟩
  rw [hn₂] at hbody
  dsimp only at hbody
  subst hbody
  simp only [receiveStartupMessage, hn, uint32_putUint32_self, hsize, hnot, if_false, hn₂]

theorem newBackend_stream (r : ChunkedReader) : (newBackend r).cr.stream = r.rest := rfl

theorem newBackend_inv (r : ChunkedReader) : (newBackend r).cr.Inv :=
  ChunkReader.inv_newChunkReader r 0

/-! ## Messages the backend does not get back -/

/-- A `FunctionCall` with a `NULL` argument, and a startup message with no
parameters, are encoded but not received as sent, however the bytes are
split into reads. `FunctionCall.Decode` reads the `-1` length as the unsigned
`4294967295` and slices the 14-byte body at `[12:4294967307]`, a panic; `StartupMessage.Decode` looks
for a key after the terminating `0` and finds the body ended. -/
theorem null_argument_and_empty_parameters_not_received (chunks₁ chunks₂ : List Bytes)
    (h₁ : FunctionCall.encode ⟨0, [], [none], 0⟩ [] = .ok chunks₁.flatten)
    (h₂ : StartupMessage.encode ⟨ProtocolVersionNumber, []⟩ [] = .ok chunks₂.flatten) :
    (newBackend ⟨chunks₁⟩).receive.1 = crash (.sliceBoundsOutOfRange 12 4294967307 14) ∧
      (newBackend ⟨chunks₂⟩).receiveStartupMessage.1 =
        raise (.invalidMessageFormat "StartupMessage" "") := by
  constructor
  · have henc : FunctionCall.encode ⟨0, [], [none], 0⟩ [] =
        .ok (frame 'F'.toUInt8 [0, 0, 0, 0, 0, 0, 0, 1, 255, 255, 255, 255, 0, 0]) := rfl
    have hs : (newBackend ⟨chunks₁⟩).cr.stream =
        frame 'F'.toUInt8 [0, 0, 0, 0, 0, 0, 0, 1, 255, 255, 255, 255, 0, 0] ++ [] := by
      rw [newBackend_stream, List.append_nil]
      exact Except.ok.inj (h₁.symm.trans henc)
    obtain ⟨cr, -, -, hrecv⟩ := receive_frame (newBackend_inv _) rfl hs (by decide) (Or.inl rfl) rfl
    rw [hrecv]
    rfl
  · have henc : StartupMessage.encode ⟨ProtocolVersionNumber, []⟩ [] =
        .ok (startupPacket [0, 3, 0, 51, 0]) := rfl
    have hs : (newBackend ⟨chunks₂⟩).cr.stream = startupPacket [0, 3, 0, 51, 0] ++ [] := by
      rw [newBackend_stream, List.append_nil]
      exact Except.ok.inj (h₂.symm.trans henc)
    obtain ⟨cr, -, -, hrecv⟩ :=
      receiveStartupMessage_packet (newBackend_inv _) hs (by decide) (by decide)
    -- the version word, then a key that ends at the terminator and no
    -- value after it
    have hv : (uint32 [0, 3, 0, 51, 0] : GoP UInt32) = .ok ProtocolVersionNumber := rfl
    have hsl : (sliceFrom [0, 3, 0, 51, 0] 4 : GoP Bytes) = .ok [0] := rfl
    have hp : StartupMessage.readParameters [] [0] =
        raise (.invalidMessageFormat "StartupMessage" "") := by
      rw [StartupMessage.readParameters]
      decide
    rw [hrecv]
    simp [decodeStartupPacket, StartupMessage.decode, hv, hsl, hp]

/-- Both inputs, each split into two reads. -/
theorem null_argument_and_empty_parameters_split :
    FunctionCall.encode ⟨0, [], [none], 0⟩ [] =
        .ok [[70, 0, 0, 0, 18, 0, 0], [0, 0, 0, 0, 0, 1, 255, 255, 255, 255, 0, 0]].flatten ∧
      StartupMessage.encode ⟨ProtocolVersionNumber, []⟩ [] = .ok [[0, 0], [0, 9, 0, 3, 0, 51, 0]].flatten ∧
      (newBackend ⟨[[70, 0, 0, 0, 18, 0, 0], [0, 0, 0, 0, 0, 1, 255, 255, 255, 255, 0, 0]]⟩).receive.1 =
        crash (.sliceBoundsOutOfRange 12 4294967307 14) ∧
      (newBackend ⟨[[0, 0], [0, 9, 0, 3, 0, 51, 0]]⟩).receiveStartupMessage.1 =
        raise (.invalidMessageFormat "StartupMessage" "") :=
  ⟨rfl, rfl, null_argument_and_empty_parameters_not_received _ _ rfl rfl⟩

/-- A `FunctionCall` frame with an empty body makes `Receive` panic, however
it is split into reads: `FunctionCall.Decode` reads the function OID without
checking that the body holds it. -/
theorem receive_functionCall_empty_panics (chunks : List Bytes)
    (hc : chunks.flatten = frame 'F'.toUInt8 []) :
    (newBackend ⟨chunks⟩).receive.1 = crash (.indexOutOfRange 3 0) := by
  have hs : (newBackend ⟨chunks⟩).cr.stream = frame 'F'.toUInt8 [] ++ [] := by
    rw [newBackend_stream, List.append_nil]
    exact hc
  obtain ⟨cr, -, -, hrecv⟩ := receive_frame (newBackend_inv _) rfl hs (by decide) (Or.inl rfl) rfl
  rw [hrecv]
  rfl

/-- The five bytes `'F' 0 0 0 4`, split into two reads. -/
theorem receive_functionCall_empty_split :
    [[70, 0, 0], [0, 4]].flatten = frame 'F'.toUInt8 [] ∧
      (newBackend ⟨[[70, 0, 0], [0, 4]]⟩).receive.1 = crash (.indexOutOfRange 3 0) :=
  ⟨rfl, receive_functionCall_empty_panics _ rfl⟩

end Backend

end GaussdbGo.Proto
