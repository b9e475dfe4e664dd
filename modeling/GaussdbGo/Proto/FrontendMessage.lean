import GaussdbGo.Proto.BackendMessage

/-!
# gaussdbproto — frontend messages

The messages a client sends, with the `Decode` a `Backend` runs and the
`Encode` a `Frontend` appends, and the startup packets, which have no type
byte. `CopyData` and `CopyDone` are shared with the backend side.

The decoders are written as the Go code reads its body: a cursor `rp` into
`src` becomes the unread suffix `src[rp:]`, and every `binary.BigEndian`
read or reslice goes through the bounds-checked operations of `GoStd`, so a
decoder that trusts a count or a length it has not checked panics here where
it panics in Go.
-/

namespace GaussdbGo.Proto

open GoStd GoStd.BigEndian

/-! ## Extended query -/

structure Bind where
  DestinationPortal : Bytes
  PreparedStatement : Bytes
  ParameterFormatCodes : List Int16
  Parameters : List (Option Bytes)
  ResultFormatCodes : List Int16
  deriving DecidableEq, Repr, Inhabited

/-- The format-code loop, over `src[rp:]`. -/
def readInt16s : Nat → Bytes → GoP (List Int16)
  | 0, _ => pure []
  | n + 1, src => do
    let c ← uint16 src
    pure (c.toInt16 :: (← readInt16s n (← sliceFrom src 2)))

/-- The parameter loop of `Bind.Decode`, returning what is left after it. A
length other than `-1` is only compared with what is left, so a negative one
passes the check and reaches the reslice. -/
def Bind.decodeParameters : Nat → Bytes → GoP (List (Option Bytes) × Bytes)
  | 0, src => pure ([], src)
  | n + 1, src => do
    if src.length < 4 then raise (.invalidMessageFormat "Bind" "")
    let msgSize := (← uint32 src).toInt32.toInt
    let src ← sliceFrom src 4
    if msgSize = -1 then
      let (ps, src) ← decodeParameters n src
      pure (none :: ps, src)
    else
      if (src.length : Int) < msgSize then raise (.invalidMessageFormat "Bind" "")
      let p ← slice src 0 msgSize
      let (ps, src) ← decodeParameters n (← sliceFrom src msgSize)
      pure (some p :: ps, src)

/-- The format-code count, a check that they fit, the codes; the tail left. -/
def Bind.decodeCodes (src : Bytes) : GoP (List Int16 × Bytes) := do
  if src.length < 2 then raise (.invalidMessageFormat "Bind" "")
  let count := (← uint16 src).toNat
  let src ← sliceFrom src 2
  if src.length < count * 2 then raise (.invalidMessageFormat "Bind" "")
  let codes ← readInt16s count src
  pure (codes, ← sliceFrom src (count * 2))

def Bind.decode (_ : Bind) (src : Bytes) : GoP Bind := do
  let idx := indexByte src 0
  if idx < 0 then raise (.invalidMessageFormat "Bind" "")
  let destinationPortal ← slice src 0 idx
  let src ← sliceFrom src (idx + 1)
  let idx := indexByte src 0
  if idx < 0 then raise (.invalidMessageFormat "Bind" "")
  let preparedStatement ← slice src 0 idx
  let src ← sliceFrom src (idx + 1)
  let (parameterFormatCodes, src) ← Bind.decodeCodes src
  if src.length < 2 then raise (.invalidMessageFormat "Bind" "")
  let parameterCount := (← uint16 src).toNat
  let src ← sliceFrom src 2
  let (parameters, src) ← Bind.decodeParameters parameterCount src
  let (resultFormatCodes, _) ← Bind.decodeCodes src
  pure {
    DestinationPortal := destinationPortal, PreparedStatement := preparedStatement,
    ParameterFormatCodes := parameterFormatCodes, Parameters := parameters,
    ResultFormatCodes := resultFormatCodes }

def Bind.encode (src : Bind) (dst : Bytes) : GoP Bytes := do
  let (dst, sp) := beginMessage dst 'B'.toUInt8
  let dst := dst ++ src.DestinationPortal ++ [0] ++ src.PreparedStatement ++ [0]
  if 65535 < src.ParameterFormatCodes.length then raise (.new "too many parameter format codes")
  let dst := appendUint16 dst (UInt16.ofNat src.ParameterFormatCodes.length)
  let dst := src.ParameterFormatCodes.foldl appendInt16 dst
  if 65535 < src.Parameters.length then raise (.new "too many parameters")
  let dst := appendUint16 dst (UInt16.ofNat src.Parameters.length)
  let dst := src.Parameters.foldl encodeValue dst
  if 65535 < src.ResultFormatCodes.length then raise (.new "too many result format codes")
  let dst := appendUint16 dst (UInt16.ofNat src.ResultFormatCodes.length)
  finishMessage (src.ResultFormatCodes.foldl appendInt16 dst) sp

structure Parse where
  Name : Bytes
  Query : Bytes
  ParameterOIDs : List UInt32
  deriving DecidableEq, Repr, Inhabited

/-- The OID loop of `Parse.Decode`, each read checked against `buf.Len()`. -/
def Parse.readOIDs (buf : Buffer) : Nat → GoP (List UInt32)
  | 0 => pure []
  | n + 1 => do
    if buf.len < 4 then raise (.invalidMessageFormat "Parse" "")
    let (b, buf) := buf.next 4
    let oid ← uint32 b
    pure (oid :: (← Parse.readOIDs buf n))

def Parse.decode (_ : Parse) (src : Bytes) : GoP Parse := do
  let (name, buf) ← readCString (Buffer.new src)
  let (query, buf) ← readCString buf
  if buf.len < 2 then raise (.invalidMessageFormat "Parse" "")
  let (b, buf) := buf.next 2
  let parameterOIDCount := (← uint16 b).toNat
  pure { Name := name, Query := query, ParameterOIDs := ← Parse.readOIDs buf parameterOIDCount }

def Parse.encode (src : Parse) (dst : Bytes) : GoP Bytes := do
  let (dst, sp) := beginMessage dst 'P'.toUInt8
  let dst := dst ++ src.Name ++ [0] ++ src.Query ++ [0]
  if 65535 < src.ParameterOIDs.length then raise (.new "too many parameter oids")
  let dst := appendUint16 dst (UInt16.ofNat src.ParameterOIDs.length)
  finishMessage (src.ParameterOIDs.foldl appendUint32 dst) sp

/-- `Describe` and `Close`: an object type (`'S'` or `'P'`) and a name. -/
structure ObjectRef where
  ObjectType : UInt8
  Name : Bytes
  deriving DecidableEq, Repr, Inhabited

/-- The `Decode` the two share. -/
def decodeObjectRef (messageType : String) (src : Bytes) : GoP ObjectRef := do
  if src.length < 2 then raise (.invalidMessageFormat messageType "")
  let objectType ← index src 0
  let rest ← sliceFrom src 1
  if indexByte rest 0 ≠ (rest.length : Int) - 1 then raise (.invalidMessageFormat messageType "")
  pure { ObjectType := objectType, Name := ← slice src 1 (src.length - 1) }

/-- The `Encode` the two share. -/
def encodeObjectRef (t : UInt8) (src : ObjectRef) (dst : Bytes) : GoP Bytes :=
  let (dst, sp) := beginMessage dst t
  finishMessage (dst ++ [src.ObjectType] ++ src.Name ++ [0]) sp

abbrev Describe := ObjectRef
abbrev Close := ObjectRef

def Describe.decode (_ : Describe) (src : Bytes) : GoP Describe := decodeObjectRef "Describe" src

def Describe.encode (src : Describe) (dst : Bytes) : GoP Bytes :=
  encodeObjectRef 'D'.toUInt8 src dst

def Close.decode (_ : Close) (src : Bytes) : GoP Close := decodeObjectRef "Close" src

def Close.encode (src : Close) (dst : Bytes) : GoP Bytes := encodeObjectRef 'C'.toUInt8 src dst

structure Execute where
  Portal : Bytes
  MaxRows : UInt32
  deriving DecidableEq, Repr, Inhabited

def Execute.decode (_ : Execute) (src : Bytes) : GoP Execute := do
  let (portal, buf) ← readCString (Buffer.new src)
  if buf.len < 4 then raise (.invalidMessageFormat "Execute" "")
  let (b, _) := buf.next 4
  pure { Portal := portal, MaxRows := ← uint32 b }

def Execute.encode (src : Execute) (dst : Bytes) : GoP Bytes :=
  let (dst, sp) := beginMessage dst 'E'.toUInt8
  finishMessage (appendUint32 (dst ++ src.Portal ++ [0]) src.MaxRows) sp

structure Sync where
  deriving DecidableEq, Repr, Inhabited

def Sync.decode (dst : Sync) (src : Bytes) : GoP Sync := do
  decodeEmpty "Sync" src
  pure dst

def Sync.encode (_ : Sync) (dst : Bytes) : GoP Bytes := encodeEmpty 'S'.toUInt8 dst

structure Flush where
  deriving DecidableEq, Repr, Inhabited

def Flush.decode (dst : Flush) (src : Bytes) : GoP Flush := do
  decodeEmpty "Flush" src
  pure dst

def Flush.encode (_ : Flush) (dst : Bytes) : GoP Bytes := encodeEmpty 'H'.toUInt8 dst

structure Terminate where
  deriving DecidableEq, Repr, Inhabited

def Terminate.decode (dst : Terminate) (src : Bytes) : GoP Terminate := do
  decodeEmpty "Terminate" src
  pure dst

def Terminate.encode (_ : Terminate) (dst : Bytes) : GoP Bytes := encodeEmpty 'X'.toUInt8 dst

/-! ## Simple query and copy -/

/-- `Query` and `CopyFail`: one NUL-terminated string, and nothing after. -/
def decodeSingleString (messageType : String) (src : Bytes) : GoP Bytes := do
  let i := indexByte src 0
  if i ≠ (src.length : Int) - 1 then raise (.invalidMessageFormat messageType "")
  slice src 0 i

structure Query where
  String : Bytes
  deriving DecidableEq, Repr, Inhabited

def Query.decode (_ : Query) (src : Bytes) : GoP Query := do
  pure { String := ← decodeSingleString "Query" src }

def Query.encode (src : Query) (dst : Bytes) : GoP Bytes :=
  let (dst, sp) := beginMessage dst 'Q'.toUInt8
  finishMessage (dst ++ src.String ++ [0]) sp

structure CopyFail where
  Message : Bytes
  deriving DecidableEq, Repr, Inhabited

def CopyFail.decode (_ : CopyFail) (src : Bytes) : GoP CopyFail := do
  pure { Message := ← decodeSingleString "CopyFail" src }

def CopyFail.encode (src : CopyFail) (dst : Bytes) : GoP Bytes :=
  let (dst, sp) := beginMessage dst 'f'.toUInt8
  finishMessage (dst ++ src.Message ++ [0]) sp

/-! ## Function calls and authentication responses -/

structure FunctionCall where
  Function : UInt32
  ArgFormatCodes : List UInt16
  Arguments : List (Option Bytes)
  ResultFormatCode : UInt16
  deriving DecidableEq, Repr, Inhabited

/-- The argument-code loop, reading the body `src` at `rp`: each code must
be 0 or 1. Nothing checks that the body holds them. -/
def FunctionCall.readArgumentCodes (src : Bytes) : Nat → Nat → GoP (List UInt16 × Nat)
  | 0, rp => pure ([], rp)
  | n + 1, rp => do
    let ac ← uint16 (← sliceFrom src rp)
    if ac ≠ 0 ∧ ac ≠ 1 then raise (.invalidMessageFormat "FunctionCall" "")
    let (acs, rp) ← readArgumentCodes src n (rp + 2)
    pure (ac :: acs, rp)

/-- The argument loop, reading the body `src` at `rp`. The length is read as
`int(binary.BigEndian.Uint32(...))`, an unsigned value, so the `-1` of a
`NULL` argument is never seen, and no length is checked against the body
before `src[rp : rp+argumentLength]`. -/
def FunctionCall.readArguments (src : Bytes) : Nat → Nat → GoP (List (Option Bytes) × Nat)
  | 0, rp => pure ([], rp)
  | n + 1, rp => do
    let argumentLength : Int := (← uint32 (← sliceFrom src rp)).toNat
    let rp := rp + 4
    if argumentLength = -1 then
      let (args, rp) ← readArguments src n rp
      pure (none :: args, rp)
    else
      let argumentValue ← slice src rp (rp + argumentLength)
      let (args, rp) ← readArguments src n (rp + argumentLength).toNat
      pure (some argumentValue :: args, rp)

def FunctionCall.decode (_ : FunctionCall) (src : Bytes) : GoP FunctionCall := do
  let function ← uint32 (← sliceFrom src 0)
  let nArgumentCodes := (← uint16 (← sliceFrom src 4)).toNat
  let (argumentCodes, rp) ← FunctionCall.readArgumentCodes src nArgumentCodes 6
  let nArguments := (← uint16 (← sliceFrom src rp)).toNat
  let (arguments, rp) ← FunctionCall.readArguments src nArguments (rp + 2)
  let resultFormatCode ← uint16 (← sliceFrom src rp)
  if resultFormatCode ≠ 0 ∧ resultFormatCode ≠ 1 then
    raise (.invalidMessageFormat "FunctionCall" "")
  pure ⟨function, argumentCodes, arguments, resultFormatCode⟩

def FunctionCall.encode (src : FunctionCall) (dst : Bytes) : GoP Bytes := do
  let (dst, sp) := beginMessage dst 'F'.toUInt8
  let dst := appendUint32 dst src.Function
  if 65535 < src.ArgFormatCodes.length then raise (.new "too many arg format codes")
  let dst := appendUint16 dst (UInt16.ofNat src.ArgFormatCodes.length)
  let dst := src.ArgFormatCodes.foldl appendUint16 dst
  if 65535 < src.Arguments.length then raise (.new "too many arguments")
  let dst := appendUint16 dst (UInt16.ofNat src.Arguments.length)
  let dst := src.Arguments.foldl encodeValue dst
  finishMessage (appendUint16 dst src.ResultFormatCode) sp

structure SASLInitialResponse where
  AuthMechanism : Bytes
  Data : Bytes
  deriving DecidableEq, Repr, Inhabited

/-- Skips the four length bytes after the mechanism name without checking
that they are there. -/
def SASLInitialResponse.decode (_ : SASLInitialResponse) (src : Bytes) :
    GoP SASLInitialResponse := do
  let idx := indexByte src 0
  if idx < 0 then raise (.new "invalid SASLInitialResponse")
  let authMechanism ← slice src 0 idx
  let rp := idx + 1 + 4
  pure { AuthMechanism := authMechanism, Data := ← sliceFrom src rp }

def SASLInitialResponse.encode (src : SASLInitialResponse) (dst : Bytes) : GoP Bytes :=
  let (dst, sp) := beginMessage dst 'p'.toUInt8
  let dst := dst ++ src.AuthMechanism ++ [0]
  finishMessage (appendInt32 dst (Int32.ofNat src.Data.length) ++ src.Data) sp

/-- `SASLResponse` and `GSSResponse`: the whole body is the data. -/
structure SASLResponse where
  Data : Bytes
  deriving DecidableEq, Repr, Inhabited

def SASLResponse.decode (_ : SASLResponse) (src : Bytes) : GoP SASLResponse :=
  pure { Data := src }

def SASLResponse.encode (src : SASLResponse) (dst : Bytes) : GoP Bytes :=
  let (dst, sp) := beginMessage dst 'p'.toUInt8
  finishMessage (dst ++ src.Data) sp

structure GSSResponse where
  Data : Bytes
  deriving DecidableEq, Repr, Inhabited

def GSSResponse.decode (_ : GSSResponse) (src : Bytes) : GoP GSSResponse :=
  pure { Data := src }

def GSSResponse.encode (src : GSSResponse) (dst : Bytes) : GoP Bytes :=
  let (dst, sp) := beginMessage dst 'p'.toUInt8
  finishMessage (dst ++ src.Data) sp

structure PasswordMessage where
  Password : Bytes
  deriving DecidableEq, Repr, Inhabited

def PasswordMessage.decode (_ : PasswordMessage) (src : Bytes) : GoP PasswordMessage := do
  let (password, _) ← readCString (Buffer.new src)
  pure { Password := password }

def PasswordMessage.encode (src : PasswordMessage) (dst : Bytes) : GoP Bytes :=
  let (dst, sp) := beginMessage dst 'p'.toUInt8
  finishMessage (dst ++ src.Password ++ [0]) sp

/-! ## Startup packets -/

/-- `ProtocolVersionNumber`, version 3.51. -/
def ProtocolVersionNumber : UInt32 := 196659
def cancelRequestCode : UInt32 := 80877102
def sslRequestNumber : UInt32 := 80877103
def gssEncReqNumber : UInt32 := 80877104

structure StartupMessage where
  ProtocolVersion : UInt32
  Parameters : List (Bytes × Bytes)
  deriving DecidableEq, Repr, Inhabited

/-- The `for { ... }` loop of `StartupMessage.Decode` over `src[rp:]`: a key
and a value, each NUL-terminated, and it stops once exactly one byte is left,
which must be `0`. -/
def StartupMessage.readParameters (params : List (Bytes × Bytes)) (src : Bytes) :
    GoP (List (Bytes × Bytes)) :=
  if (0 : UInt8) ∈ src then
    let key := src.take (src.idxOf 0)
    let rest := src.drop (src.idxOf 0 + 1)
    if (0 : UInt8) ∈ rest then
      let value := rest.take (rest.idxOf 0)
      let rest' := rest.drop (rest.idxOf 0 + 1)
      let params := mapInsert params key value
      match rest' with
      | [b] => if b ≠ 0 then raise (.badStartupLastByte b) else pure params
      | _ => readParameters params rest'
    else raise (.invalidMessageFormat "StartupMessage" "")
  else raise (.invalidMessageFormat "StartupMessage" "")
termination_by src.length
decreasing_by
  all_goals simp_wf
  all_goals
    have h := List.idxOf_lt_length_of_mem ‹(0 : UInt8) ∈ src›
    omega

def StartupMessage.decode (_ : StartupMessage) (src : Bytes) : GoP StartupMessage := do
  if src.length < 4 then raise (.new "startup message too short")
  let protocolVersion ← uint32 src
  if protocolVersion ≠ ProtocolVersionNumber then
    raise (.badStartupVersion ProtocolVersionNumber protocolVersion)
  pure ⟨protocolVersion, ← StartupMessage.readParameters [] (← sliceFrom src 4)⟩

/-- The parameters are written in the map's iteration order. -/
def StartupMessage.encode (src : StartupMessage) (dst : Bytes) : GoP Bytes :=
  let sp := dst.length
  let dst := appendUint32 (appendInt32 dst (-1)) src.ProtocolVersion
  let dst := src.Parameters.foldl (fun dst kv => dst ++ kv.1 ++ [0] ++ kv.2 ++ [0]) dst
  finishMessage (dst ++ [0]) sp

structure CancelRequest where
  ProcessID : UInt32
  SecretKey : UInt32
  deriving DecidableEq, Repr, Inhabited

def CancelRequest.decode (_ : CancelRequest) (src : Bytes) : GoP CancelRequest := do
  if src.length ≠ 12 then raise (.new "bad cancel request size")
  let requestCode ← uint32 src
  if requestCode ≠ cancelRequestCode then raise (.new "bad cancel request code")
  pure ⟨← uint32 (← sliceFrom src 4), ← uint32 (← sliceFrom src 8)⟩

def CancelRequest.encode (src : CancelRequest) (dst : Bytes) : GoP Bytes :=
  pure (appendUint32 (appendUint32 (appendInt32 (appendInt32 dst 16)
    cancelRequestCode.toInt32) src.ProcessID) src.SecretKey)

/-- `SSLRequest` and `GSSEncRequest`: a bare request code. -/
def decodeRequestCode (code : UInt32) (tooShort badCode : String) (src : Bytes) : GoP Unit := do
  if src.length < 4 then raise (.new tooShort)
  let requestCode ← uint32 src
  if requestCode ≠ code then raise (.new badCode)

structure SSLRequest where
  deriving DecidableEq, Repr, Inhabited

def SSLRequest.decode (dst : SSLRequest) (src : Bytes) : GoP SSLRequest := do
  decodeRequestCode sslRequestNumber "ssl request too short" "bad ssl request code" src
  pure dst

def SSLRequest.encode (_ : SSLRequest) (dst : Bytes) : GoP Bytes :=
  pure (appendInt32 (appendInt32 dst 8) sslRequestNumber.toInt32)

structure GSSEncRequest where
  deriving DecidableEq, Repr, Inhabited

def GSSEncRequest.decode (dst : GSSEncRequest) (src : Bytes) : GoP GSSEncRequest := do
  decodeRequestCode gssEncReqNumber "gss encoding request too short"
    "bad gss encoding request code" src
  pure dst

def GSSEncRequest.encode (_ : GSSEncRequest) (dst : Bytes) : GoP Bytes :=
  pure (appendInt32 (appendInt32 dst 8) gssEncReqNumber.toInt32)

/-! ## The messages a `Backend` returns -/

/-- A `FrontendMessage`, by its dynamic type. -/
inductive FrontendMessage where
  | bind (m : Bind)
  | cancelRequest (m : CancelRequest)
  | close (m : Close)
  | copyFail (m : CopyFail)
  | copyData (m : CopyData)
  | copyDone (m : CopyDone)
  | describe (m : Describe)
  | execute (m : Execute)
  | flush (m : Flush)
  | functionCall (m : FunctionCall)
  | gssEncRequest (m : GSSEncRequest)
  | parse (m : Parse)
  | query (m : Query)
  | sslRequest (m : SSLRequest)
  | startupMessage (m : StartupMessage)
  | sync (m : Sync)
  | terminate (m : Terminate)
  | saslInitialResponse (m : SASLInitialResponse)
  | saslResponse (m : SASLResponse)
  | gssResponse (m : GSSResponse)
  | passwordMessage (m : PasswordMessage)
  deriving DecidableEq, Repr, Inhabited

/-- `msg.Encode(dst)`, by the message's dynamic type. -/
def FrontendMessage.encode : FrontendMessage → Bytes → GoP Bytes
  | .bind m => m.encode
  | .cancelRequest m => m.encode
  | .close m => Close.encode m
  | .copyFail m => m.encode
  | .copyData m => m.encode
  | .copyDone m => m.encode
  | .describe m => Describe.encode m
  | .execute m => m.encode
  | .flush m => m.encode
  | .functionCall m => m.encode
  | .gssEncRequest m => m.encode
  | .parse m => m.encode
  | .query m => m.encode
  | .sslRequest m => m.encode
  | .startupMessage m => m.encode
  | .sync m => m.encode
  | .terminate m => m.encode
  | .saslInitialResponse m => m.encode
  | .saslResponse m => m.encode
  | .gssResponse m => m.encode
  | .passwordMessage m => m.encode

/-- `msg.Decode(src)`, by the message's dynamic type. -/
def FrontendMessage.decode : FrontendMessage → Bytes → GoP FrontendMessage
  | .bind m, src => .bind <$> m.decode src
  | .cancelRequest m, src => .cancelRequest <$> m.decode src
  | .close m, src => .close <$> Close.decode m src
  | .copyFail m, src => .copyFail <$> m.decode src
  | .copyData m, src => .copyData <$> m.decode src
  | .copyDone m, src => .copyDone <$> m.decode src
  | .describe m, src => .describe <$> Describe.decode m src
  | .execute m, src => .execute <$> m.decode src
  | .flush m, src => .flush <$> m.decode src
  | .functionCall m, src => .functionCall <$> m.decode src
  | .gssEncRequest m, src => .gssEncRequest <$> m.decode src
  | .parse m, src => .parse <$> m.decode src
  | .query m, src => .query <$> m.decode src
  | .sslRequest m, src => .sslRequest <$> m.decode src
  | .startupMessage m, src => .startupMessage <$> m.decode src
  | .sync m, src => .sync <$> m.decode src
  | .terminate m, src => .terminate <$> m.decode src
  | .saslInitialResponse m, src => .saslInitialResponse <$> m.decode src
  | .saslResponse m, src => .saslResponse <$> m.decode src
  | .gssResponse m, src => .gssResponse <$> m.decode src
  | .passwordMessage m, src => .passwordMessage <$> m.decode src

end GaussdbGo.Proto
