import GaussdbGo.Lib.Go
import GaussdbGo.Lib.Binary
import GaussdbGo.Lib.Bytes

/-!
# gaussdbproto — errors and framing

The errors the protocol package returns, the `gaussdbio` append helpers, and
`beginMessage`/`finishMessage`, which every length-prefixed encoder goes
through. A frame is a type byte, a big-endian `int32` counting itself and the
body, and the body; `finishMessage_frame` says so once, and each encoder's
round trip starts from it.

Go strings are byte strings, and are `Bytes` here as well: a field of type
`string` may hold any bytes, including NUL and invalid UTF-8.
-/

namespace GaussdbGo.Proto

open GoStd GoStd.BigEndian

/-- A Go `[]byte` or `string`. -/
abbrev Bytes := List UInt8

/-- The errors of package `gaussdbproto`, with the fields their `Error()`
text is built from. -/
inductive ProtoError where
  /-- `invalidMessageLenErr` -/
  | invalidMessageLen (messageType : String) (expectedLen actualLen : Int)
  /-- `invalidMessageFormatErr` -/
  | invalidMessageFormat (messageType details : String)
  /-- `errors.New(text)` -/
  | new (text : String)
  /-- an `io` sentinel, passed through -/
  | io (e : IOError)
  /-- `ExceededMaxBodyLenErr` -/
  | exceededMaxBodyLen (maxExpectedBodyLen actualBodyLen : Int)
  /-- `fmt.Errorf("invalid message length: %d", ...)` -/
  | invalidMessageLength (msgLength : Int)
  /-- `fmt.Errorf("unknown message type: %c", ...)` -/
  | unknownMessageType (msgType : UInt8)
  /-- `fmt.Errorf("unknown authentication type: %d", ...)` -/
  | unknownAuthenticationType (authType : UInt32)
  /-- `fmt.Errorf("Bad startup message version number. Expected %d, got %d", ...)` -/
  | badStartupVersion (expected got : UInt32)
  /-- `fmt.Errorf("Bad startup message last byte. Expected 0, got %d", ...)` -/
  | badStartupLastByte (got : UInt8)
  /-- `fmt.Errorf("invalid length of startup packet: %d", ...)` -/
  | invalidStartupPacketLength (msgSize : Int)
  /-- `fmt.Errorf("unknown startup message code: %d", ...)` -/
  | unknownStartupCode (code : UInt32)
  /-- `fmt.Errorf("authType not recognized: %d", ...)` -/
  | authTypeNotRecognized (authType : UInt32)
  deriving DecidableEq, Repr

/-- A protocol-package call. -/
abbrev GoP (α : Type) := Go ProtoError α

/-! ## `gaussdbio` -/

/-- `gaussdbio.AppendUint16`. -/
def appendUint16 (buf : Bytes) (n : UInt16) : Bytes := buf ++ putUint16 n

/-- `gaussdbio.AppendUint32`. -/
def appendUint32 (buf : Bytes) (n : UInt32) : Bytes := buf ++ putUint32 n

/-- `gaussdbio.AppendInt16`. -/
def appendInt16 (buf : Bytes) (n : Int16) : Bytes := appendUint16 buf n.toUInt16

/-- `gaussdbio.AppendInt32`. -/
def appendInt32 (buf : Bytes) (n : Int32) : Bytes := appendUint32 buf n.toUInt32

/-- `gaussdbio.SetInt32(buf[sp:], n)`: overwrite the four bytes at `sp`. -/
def setInt32 (buf : Bytes) (sp : Nat) (n : Int32) : Bytes :=
  buf.take sp ++ putUint32 n.toUInt32 ++ buf.drop (sp + 4)

/-! ## Frames -/

/-- `maxMessageBodyLen`, `PG_LARGE_MESSAGE_LIMIT`. -/
def maxMessageBodyLen : Nat := 0x3fffffff - 1

/-- `beginMessage`: the type byte and a length placeholder; the second result
is the placeholder's position. -/
def beginMessage (dst : Bytes) (t : UInt8) : Bytes × Nat :=
  let dst := dst ++ [t]
  (appendInt32 dst (-1), dst.length)

/-- `finishMessage`: patch the length, which counts itself and the body. -/
def finishMessage (dst : Bytes) (sp : Nat) : GoP Bytes :=
  let messageBodyLen := dst.length - sp
  if maxMessageBodyLen < messageBodyLen then raise (.new "message body too large")
  else pure (setInt32 dst sp (Int32.ofNat messageBodyLen))

/-- The frame an encoder appends: type byte, length, body. -/
def frame (t : UInt8) (body : Bytes) : Bytes :=
  t :: putUint32 (UInt32.ofNat (body.length + 4)) ++ body

theorem setInt32_placeholder (pre body : Bytes) (x : UInt32) (n : Int32) :
    setInt32 (pre ++ putUint32 x ++ body) pre.length n =
      pre ++ putUint32 n.toUInt32 ++ body := by
  have h4 : (putUint32 x).length = 4 := rfl
  have hd : (pre ++ putUint32 x ++ body).drop (pre.length + 4) = body := by
    rw [List.append_assoc, List.drop_append, List.drop_eq_nil_of_le (by omega),
      List.nil_append, List.drop_append, List.drop_eq_nil_of_le (by omega), h4]
    simp
  rw [setInt32, hd, List.append_assoc pre, List.take_left' rfl]

theorem toUInt32_ofNat (n : Nat) : (Int32.ofNat n).toUInt32 = UInt32.ofNat n := rfl

/-- Every length-prefixed encoder ends in this: the placeholder is patched
with the length of the body plus four. -/
theorem finishMessage_frame (dst body : Bytes) (t : UInt8)
    (h : body.length + 4 ≤ maxMessageBodyLen) :
    finishMessage ((beginMessage dst t).1 ++ body) (beginMessage dst t).2 =
      .ok (dst ++ frame t body) := by
  have hlen : ((beginMessage dst t).1 ++ body).length - (beginMessage dst t).2 =
      body.length + 4 := by
    simp [beginMessage, appendInt32, appendUint32]
    omega
  have hnot : ¬ maxMessageBodyLen < body.length + 4 := by omega
  simp only [finishMessage, hlen, hnot, if_false]
  simp only [beginMessage, appendInt32, appendUint32, List.append_assoc]
  rw [← List.append_assoc dst, ← List.append_assoc (dst ++ [t]),
    setInt32_placeholder (dst ++ [t]) body, toUInt32_ofNat]
  simp only [frame, List.append_assoc, List.cons_append, List.nil_append]
  rfl

theorem length_frame (t : UInt8) (body : Bytes) : (frame t body).length = body.length + 5 := by
  simp [frame]
  omega

end GaussdbGo.Proto
