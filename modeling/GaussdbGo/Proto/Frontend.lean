import GaussdbGo.Proto.Receive
import GaussdbGo.Proto.BackendMessage

/-!
# gaussdbproto — `Frontend.Receive`

The client side of the connection reads one backend message per call: the
header block shared with the `Backend`, the body, then the switch on the
type byte, which picks the flyweight the body is decoded into. An
authentication message (`'R'`) is sorted by the first word of its body, which
is also kept as `f.authType`.

Of the thirty-one flyweights, the model keeps the two whose `Decode` reads
what they already hold (the SASL mechanism lists are appended to); every
other `Decode` overwrites its flyweight, and is given a default value.

`receive_frame` is the frontend's contract with the stream: whatever the
chunking, a call on a stream that starts with a frame consumes exactly that
frame and decodes its body by its type. It is what a statement about a
message sent over the wire starts from.
-/

namespace GaussdbGo.Proto

open GoStd GoStd.BigEndian GoStd.ChunkedReader

/-- A `Frontend`'s receiving state. -/
structure Frontend extends MessageReader where
  authenticationSASL : AuthenticationSASL
  authenticationSHA256 : AuthenticationSHA256
  authType : UInt32
  deriving DecidableEq, Repr

/-- `NewFrontend(r, w)`: a chunk reader with the default buffer size, zero
values elsewhere. -/
def newFrontend (r : ChunkedReader) : Frontend :=
  { cr := newChunkReader r 0, bodyLen := 0, maxBodyLen := 0, msgType := 0, partialMsg := false,
    authenticationSASL := default, authenticationSHA256 := default, authType := 0 }

namespace Frontend

/-- The `switch f.authType` of `findAuthenticationMessageType`. -/
def authenticationMessage (f : Frontend) : GoP BackendMessage :=
  if f.authType = AuthTypeOk then pure (.authenticationOk {})
  else if f.authType = AuthTypeCleartextPassword then pure (.authenticationCleartextPassword {})
  else if f.authType = AuthTypeMD5Password then pure (.authenticationMD5Password default)
  else if f.authType = AuthTypeSCMCreds then raise (.new "AuthTypeSCMCreds is unimplemented")
  else if f.authType = AuthTypeGSS then pure (.authenticationGSS {})
  else if f.authType = AuthTypeGSSCont then pure (.authenticationGSSContinue default)
  else if f.authType = AuthTypeSSPI then raise (.new "AuthTypeSSPI is unimplemented")
  else if f.authType = AuthTypeSASL then pure (.authenticationSASL f.authenticationSASL)
  else if f.authType = AuthTypeSHA256 then pure (.authenticationSHA256 f.authenticationSHA256)
  else if f.authType = AuthTypeSASLContinue then pure (.authenticationSASLContinue default)
  else if f.authType = AuthTypeSASLFinal then pure (.authenticationSASLFinal default)
  else raise (.unknownAuthenticationType f.authType)

/-- `findAuthenticationMessageType`: `f.authType` takes the first body word
before the switch, so it changes even when the type is then refused. -/
def findAuthenticationMessageType (f : Frontend) (src : Bytes) : GoP BackendMessage × Frontend :=
  if src.length < 4 then (raise (.new "authentication message too short"), f)
  else
    match (do uint32 (← slice src 0 4) : GoP UInt32) with
    | .error e => (.error e, f)
    | .ok authType =>
      let f := { f with authType := authType }
      (f.authenticationMessage, f)

/-- The `switch f.msgType` of `Receive`: the flyweight the body is decoded
into, or the error for a type byte it does not know. -/
def selectMessage (f : Frontend) (msgBody : Bytes) : GoP BackendMessage × Frontend :=
  match Char.ofNat f.msgType.toNat with
  | '1' => (pure (.parseComplete {}), f)
  | '2' => (pure (.bindComplete {}), f)
  | '3' => (pure (.closeComplete {}), f)
  | 'A' => (pure (.notificationResponse default), f)
  | 'c' => (pure (.copyDone {}), f)
  | 'C' => (pure (.commandComplete default), f)
  | 'd' => (pure (.copyData default), f)
  | 'D' => (pure (.dataRow default), f)
  | 'E' => (pure (.errorResponse {}), f)
  | 'G' => (pure (.copyInResponse default), f)
  | 'H' => (pure (.copyOutResponse default), f)
  | 'I' => (pure (.emptyQueryResponse {}), f)
  | 'K' => (pure (.backendKeyData default), f)
  | 'n' => (pure (.noData {}), f)
  | 'N' => (pure (.noticeResponse {}), f)
  | 'R' => f.findAuthenticationMessageType msgBody
  | 's' => (pure (.portalSuspended {}), f)
  | 'S' => (pure (.parameterStatus default), f)
  | 't' => (pure (.parameterDescription default), f)
  | 'T' => (pure (.rowDescription default), f)
  | 'V' => (pure (.functionCallResponse default), f)
  | 'W' => (pure (.copyBothResponse default), f)
  | 'Z' => (pure (.readyForQuery default), f)
  | _ => (raise (.unknownMessageType f.msgType), f)

/-- `msg.Decode` writes into the flyweight; the two kept ones take the
decoded value. -/
def keepFlyweight (f : Frontend) : BackendMessage → Frontend
  | .authenticationSASL m => { f with authenticationSASL := m }
  | .authenticationSHA256 m => { f with authenticationSHA256 := m }
  | _ => f

/-- What `Receive` does once it has the body: the switch, then `Decode`. -/
def decodeMessage (f : Frontend) (msgBody : Bytes) : GoP BackendMessage × Frontend :=
  match f.selectMessage msgBody with
  | (.error e, f) => (.error e, f)
  | (.ok msg, f) =>
    match msg.decode msgBody with
    | .error e => (.error e, f)
    | .ok msg => (.ok msg, f.keepFlyweight msg)

/-- `Frontend.Receive`. The tracer is left out. -/
def receive (f : Frontend) : GoP BackendMessage × Frontend :=
  match f.receiveHeader with
  | (.error e, m) => (.error e, { f with toMessageReader := m })
  | (.ok (), m) =>
    match m.receiveBody with
    | (.error e, m) => (.error e, { f with toMessageReader := m })
    | (.ok msgBody, m) => { f with toMessageReader := { m with partialMsg := false } }.decodeMessage msgBody

/-- On a stream that starts with a frame, `Receive` consumes exactly that
frame and decodes its body by its type byte, whatever the chunking. -/
theorem receive_frame {f : Frontend} {t : UInt8} {body rest : Bytes}
    (h : f.cr.Inv) (hp : f.partialMsg = false) (hs : f.cr.stream = frame t body ++ rest)
    (hlen : body.length + 4 < 2 ^ 32) (hmax : f.maxBodyLen = 0 ∨ body.length ≤ f.maxBodyLen) :
    ∃ cr, cr.Inv ∧ cr.stream = rest ∧
      f.receive =
        { f with cr := cr, msgType := t, bodyLen := body.length, partialMsg := false }.decodeMessage
          body := by
  obtain ⟨cr₁, h₁, hs₁, hhead⟩ := MessageReader.receiveHeader_frame h hp hs hlen hmax
  obtain ⟨cr₂, h₂, hs₂, hbody⟩ :=
    MessageReader.receiveBody_frame (m := { f.toMessageReader with
      cr := cr₁, msgType := t, bodyLen := body.length, partialMsg := true }) h₁ hs₁ rfl
  refine ⟨cr₂, h₂, hs₂, ?_⟩
  simp only [receive, hhead, hbody]

/-- A fresh `Frontend` reads the stream its reader serves. -/
theorem newFrontend_stream (r : ChunkedReader) :
    (newFrontend r).cr.stream = r.rest := rfl

theorem newFrontend_inv (r : ChunkedReader) : (newFrontend r).cr.Inv :=
  ChunkReader.inv_newChunkReader r 0

/-- A `NULL` function result does not survive the trip to a fresh
`Frontend`: `FunctionCallResponse.Decode` reads the length `-1` as the
unsigned `4294967295` and then finds the body too short, however the frame is
split into reads. -/
theorem receive_functionCallResponse_null (chunks : List Bytes)
    (hc : FunctionCallResponse.encode ⟨none⟩ [] = .ok chunks.flatten) :
    (newFrontend ⟨chunks⟩).receive.1 = raise (.invalidMessageFormat "FunctionCallResponse" "") := by
  have henc : FunctionCallResponse.encode ⟨none⟩ [] = .ok (frame 'V'.toUInt8 [255, 255, 255, 255]) :=
    finishMessage_frame [] [255, 255, 255, 255] _ (by decide)
  have hs : (newFrontend ⟨chunks⟩).cr.stream = frame 'V'.toUInt8 [255, 255, 255, 255] ++ [] := by
    rw [newFrontend_stream, List.append_nil]
    exact (Except.ok.inj (hc.symm.trans henc))
  obtain ⟨cr, -, -, hrecv⟩ :=
    receive_frame (newFrontend_inv _) rfl hs (by decide) (Or.inl rfl)
  rw [hrecv]
  rfl

/-- The frame split into three reads. -/
theorem receive_functionCallResponse_null_split :
    FunctionCallResponse.encode ⟨none⟩ [] = .ok [[86, 0, 0], [0, 8, 255], [255, 255, 255]].flatten ∧
      (newFrontend ⟨[[86, 0, 0], [0, 8, 255], [255, 255, 255]]⟩).receive.1 =
        raise (.invalidMessageFormat "FunctionCallResponse" "") :=
  ⟨rfl, receive_functionCallResponse_null _ rfl⟩

end Frontend

end GaussdbGo.Proto
