import GaussdbGo.Proto.Wire
import GaussdbGo.Lib.Strconv

/-!
# gaussdbproto — backend messages

The messages a server sends, each with the `Decode` the `Frontend` runs on
its body and the `Encode` a `Backend` appends. A decoder takes the value the
flyweight held before (`dst`) and returns the one it holds after: most
overwrite every field, but the SASL mechanism lists are appended to, which
is exactly what a reused flyweight makes visible.

Families of near-identical Go functions (the body-less messages, the auth
messages carrying data, the three `Copy*Response`s) are one definition with
the member's own constants; each member keeps its Go name.
-/

namespace GaussdbGo.Proto

open GoStd GoStd.BigEndian

/-! ## Authentication type constants -/

def AuthTypeOk : UInt32 := 0
def AuthTypeCleartextPassword : UInt32 := 3
def AuthTypeMD5Password : UInt32 := 5
def AuthTypeSCMCreds : UInt32 := 6
def AuthTypeGSS : UInt32 := 7
def AuthTypeGSSCont : UInt32 := 8
def AuthTypeSSPI : UInt32 := 9
def AuthTypeSASL : UInt32 := 100
def AuthTypeSHA256 : UInt32 := 10
def AuthTypeSASLContinue : UInt32 := 11
def AuthTypeSASLFinal : UInt32 := 12

/-! ## Shared shapes -/

/-- The `Decode` of a message without a body. -/
def decodeEmpty (messageType : String) (src : Bytes) : GoP Unit :=
  if src.length ≠ 0 then raise (.invalidMessageLen messageType 0 src.length) else pure ()

/-- The `Encode` of a message without a body: `append(dst, t, 0, 0, 0, 4)`. -/
def encodeEmpty (t : UInt8) (dst : Bytes) : GoP Bytes := pure (dst ++ [t, 0, 0, 0, 4])

/-- The auth-type word every authentication message starts with. -/
def checkAuthType (expected : UInt32) (src : Bytes) : GoP Unit := do
  let authType ← uint32 src
  if authType ≠ expected then raise (.new "bad auth type")

/-- `Decode` of an authentication message whose body is its auth type and
then opaque data. -/
def decodeAuthData (expected : UInt32) (src : Bytes) : GoP Bytes := do
  if src.length < 4 then raise (.new "authentication message too short")
  checkAuthType expected src
  sliceFrom src 4

/-- `Encode` of an authentication message: `'R'`, the auth type, the data. -/
def encodeAuth (authType : UInt32) (data : Bytes) (dst : Bytes) : GoP Bytes :=
  let (dst, sp) := beginMessage dst 'R'.toUInt8
  finishMessage (appendUint32 dst authType ++ data) sp

/-- An authentication message is one `'R'` frame: its auth type, then its
data. -/
theorem encodeAuth_frame (authType : UInt32) (data dst : Bytes)
    (h : data.length + 8 ≤ maxMessageBodyLen) :
    encodeAuth authType data dst = .ok (dst ++ frame 'R'.toUInt8 (putUint32 authType ++ data)) := by
  simp only [encodeAuth, appendUint32, List.append_assoc]
  exact finishMessage_frame dst _ _ (by simp; omega)

/-- The `for len(authMechanisms) > 1` loop: NUL-terminated names appended to
what `dst.AuthMechanisms` already holds. The two slices at the NUL's index
are in bounds, so they are written as `take` and `drop`. -/
def readMechanisms (acc : List Bytes) (authMechanisms : Bytes) : GoP (List Bytes) :=
  if 1 < authMechanisms.length then
    if (0 : UInt8) ∈ authMechanisms then
      let idx := authMechanisms.idxOf 0
      readMechanisms (acc ++ [authMechanisms.take idx]) (authMechanisms.drop (idx + 1))
    else raise (.invalidMessageFormat "AuthenticationSASL" "unterminated string")
  else pure acc
termination_by authMechanisms.length

/-- The mechanism names, each NUL-terminated, then a final NUL. -/
def encodeMechanisms (names : List Bytes) : Bytes :=
  (names.map fun s => s ++ [0]).flatten ++ [0]

/-! ## Authentication messages -/

structure AuthenticationOk where
  deriving DecidableEq, Repr, Inhabited

def AuthenticationOk.decode (dst : AuthenticationOk) (src : Bytes) : GoP AuthenticationOk := do
  if src.length ≠ 4 then raise (.new "bad authentication message size")
  checkAuthType AuthTypeOk src
  pure dst

def AuthenticationOk.encode (_ : AuthenticationOk) (dst : Bytes) : GoP Bytes :=
  encodeAuth AuthTypeOk [] dst

structure AuthenticationCleartextPassword where
  deriving DecidableEq, Repr, Inhabited

def AuthenticationCleartextPassword.decode (dst : AuthenticationCleartextPassword)
    (src : Bytes) : GoP AuthenticationCleartextPassword := do
  if src.length ≠ 4 then raise (.new "bad authentication message size")
  checkAuthType AuthTypeCleartextPassword src
  pure dst

def AuthenticationCleartextPassword.encode (_ : AuthenticationCleartextPassword)
    (dst : Bytes) : GoP Bytes :=
  encodeAuth AuthTypeCleartextPassword [] dst

structure AuthenticationMD5Password where
  Salt : Vector UInt8 4
  deriving DecidableEq, Repr, Inhabited

def AuthenticationMD5Password.decode (_ : AuthenticationMD5Password) (src : Bytes) :
    GoP AuthenticationMD5Password := do
  if src.length ≠ 8 then raise (.new "bad authentication message size")
  checkAuthType AuthTypeMD5Password src
  -- `copy(dst.Salt[:], src[4:8])`
  pure { Salt := Vector.ofFn fun i => src.getD (4 + i) 0 }

def AuthenticationMD5Password.encode (src : AuthenticationMD5Password) (dst : Bytes) :
    GoP Bytes :=
  encodeAuth AuthTypeMD5Password src.Salt.toList dst

structure AuthenticationGSS where
  deriving DecidableEq, Repr, Inhabited

def AuthenticationGSS.decode (dst : AuthenticationGSS) (src : Bytes) : GoP AuthenticationGSS := do
  if src.length < 4 then raise (.new "authentication message too short")
  checkAuthType AuthTypeGSS src
  pure dst

def AuthenticationGSS.encode (_ : AuthenticationGSS) (dst : Bytes) : GoP Bytes :=
  encodeAuth AuthTypeGSS [] dst

structure AuthenticationGSSContinue where
  Data : Bytes
  deriving DecidableEq, Repr, Inhabited

def AuthenticationGSSContinue.decode (_ : AuthenticationGSSContinue) (src : Bytes) :
    GoP AuthenticationGSSContinue := do
  pure { Data := ← decodeAuthData AuthTypeGSSCont src }

def AuthenticationGSSContinue.encode (src : AuthenticationGSSContinue) (dst : Bytes) :
    GoP Bytes :=
  encodeAuth AuthTypeGSSCont src.Data dst

structure AuthenticationSASL where
  AuthMechanisms : List Bytes
  deriving DecidableEq, Repr, Inhabited

/-- Appends the received names to those the flyweight already holds. -/
def AuthenticationSASL.decode (dst : AuthenticationSASL) (src : Bytes) :
    GoP AuthenticationSASL := do
  if src.length < 4 then raise (.new "authentication message too short")
  checkAuthType AuthTypeSASL src
  let authMechanisms ← sliceFrom src 4
  pure { AuthMechanisms := ← readMechanisms dst.AuthMechanisms authMechanisms }

def AuthenticationSASL.encode (src : AuthenticationSASL) (dst : Bytes) : GoP Bytes :=
  encodeAuth AuthTypeSASL (encodeMechanisms src.AuthMechanisms) dst

/-- The GaussDB SHA256 challenge. `r` keeps the whole body (`dst.r =
&readBuf`), which `authSha256` reads from later. -/
structure AuthenticationSHA256 where
  AuthMechanisms : List Bytes
  r : Option Bytes
  deriving DecidableEq, Repr, Inhabited

def AuthenticationSHA256.decode (dst : AuthenticationSHA256) (src : Bytes) :
    GoP AuthenticationSHA256 := do
  if src.length < 4 then raise (.new "authentication message too short")
  checkAuthType AuthTypeSHA256 src
  if src.length < 82 then raise (.invalidMessageFormat "AuthenticationSASL" "at least 82 bytes")
  let authMechanisms ← slice src 8 82
  pure { AuthMechanisms := ← readMechanisms dst.AuthMechanisms authMechanisms, r := some src }

/-- Writes `AuthTypeSASL`, not `AuthTypeSHA256`, as the Go code does. -/
def AuthenticationSHA256.encode (src : AuthenticationSHA256) (dst : Bytes) : GoP Bytes :=
  encodeAuth AuthTypeSASL (encodeMechanisms src.AuthMechanisms) dst

structure AuthenticationSASLContinue where
  Data : Bytes
  deriving DecidableEq, Repr, Inhabited

def AuthenticationSASLContinue.decode (_ : AuthenticationSASLContinue) (src : Bytes) :
    GoP AuthenticationSASLContinue := do
  pure { Data := ← decodeAuthData AuthTypeSASLContinue src }

def AuthenticationSASLContinue.encode (src : AuthenticationSASLContinue) (dst : Bytes) :
    GoP Bytes :=
  encodeAuth AuthTypeSASLContinue src.Data dst

structure AuthenticationSASLFinal where
  Data : Bytes
  deriving DecidableEq, Repr, Inhabited

def AuthenticationSASLFinal.decode (_ : AuthenticationSASLFinal) (src : Bytes) :
    GoP AuthenticationSASLFinal := do
  pure { Data := ← decodeAuthData AuthTypeSASLFinal src }

def AuthenticationSASLFinal.encode (src : AuthenticationSASLFinal) (dst : Bytes) :
    GoP Bytes :=
  encodeAuth AuthTypeSASLFinal src.Data dst

/-! ## Body-less messages -/

structure BindComplete where
  deriving DecidableEq, Repr, Inhabited

def BindComplete.decode (dst : BindComplete) (src : Bytes) : GoP BindComplete := do
  decodeEmpty "BindComplete" src
  pure dst

def BindComplete.encode (_ : BindComplete) (dst : Bytes) : GoP Bytes :=
  encodeEmpty '2'.toUInt8 dst

structure CloseComplete where
  deriving DecidableEq, Repr, Inhabited

def CloseComplete.decode (dst : CloseComplete) (src : Bytes) : GoP CloseComplete := do
  decodeEmpty "CloseComplete" src
  pure dst

def CloseComplete.encode (_ : CloseComplete) (dst : Bytes) : GoP Bytes :=
  encodeEmpty '3'.toUInt8 dst

/-- Sent by either side. -/
structure CopyDone where
  deriving DecidableEq, Repr, Inhabited

def CopyDone.decode (dst : CopyDone) (src : Bytes) : GoP CopyDone := do
  decodeEmpty "CopyDone" src
  pure dst

def CopyDone.encode (_ : CopyDone) (dst : Bytes) : GoP Bytes :=
  encodeEmpty 'c'.toUInt8 dst

structure EmptyQueryResponse where
  deriving DecidableEq, Repr, Inhabited

def EmptyQueryResponse.decode (dst : EmptyQueryResponse) (src : Bytes) :
    GoP EmptyQueryResponse := do
  decodeEmpty "EmptyQueryResponse" src
  pure dst

def EmptyQueryResponse.encode (_ : EmptyQueryResponse) (dst : Bytes) : GoP Bytes :=
  encodeEmpty 'I'.toUInt8 dst

structure NoData where
  deriving DecidableEq, Repr, Inhabited

def NoData.decode (dst : NoData) (src : Bytes) : GoP NoData := do
  decodeEmpty "NoData" src
  pure dst

def NoData.encode (_ : NoData) (dst : Bytes) : GoP Bytes :=
  encodeEmpty 'n'.toUInt8 dst

structure ParseComplete where
  deriving DecidableEq, Repr, Inhabited

def ParseComplete.decode (dst : ParseComplete) (src : Bytes) : GoP ParseComplete := do
  decodeEmpty "ParseComplete" src
  pure dst

def ParseComplete.encode (_ : ParseComplete) (dst : Bytes) : GoP Bytes :=
  encodeEmpty '1'.toUInt8 dst

structure PortalSuspended where
  deriving DecidableEq, Repr, Inhabited

def PortalSuspended.decode (dst : PortalSuspended) (src : Bytes) : GoP PortalSuspended := do
  decodeEmpty "PortalSuspended" src
  pure dst

def PortalSuspended.encode (_ : PortalSuspended) (dst : Bytes) : GoP Bytes :=
  encodeEmpty 's'.toUInt8 dst

/-! ## Messages with a fixed layout -/

structure BackendKeyData where
  ProcessID : UInt32
  SecretKey : UInt32
  deriving DecidableEq, Repr, Inhabited

def BackendKeyData.decode (_ : BackendKeyData) (src : Bytes) : GoP BackendKeyData := do
  if src.length ≠ 8 then raise (.invalidMessageLen "BackendKeyData" 8 src.length)
  let processID ← uint32 (← slice src 0 4)
  let secretKey ← uint32 (← sliceFrom src 4)
  pure { ProcessID := processID, SecretKey := secretKey }

def BackendKeyData.encode (src : BackendKeyData) (dst : Bytes) : GoP Bytes :=
  let (dst, sp) := beginMessage dst 'K'.toUInt8
  finishMessage (appendUint32 (appendUint32 dst src.ProcessID) src.SecretKey) sp

structure ReadyForQuery where
  TxStatus : UInt8
  deriving DecidableEq, Repr, Inhabited

def ReadyForQuery.decode (_ : ReadyForQuery) (src : Bytes) : GoP ReadyForQuery := do
  if src.length ≠ 1 then raise (.invalidMessageLen "ReadyForQuery" 1 src.length)
  pure { TxStatus := ← index src 0 }

def ReadyForQuery.encode (src : ReadyForQuery) (dst : Bytes) : GoP Bytes :=
  pure (dst ++ ['Z'.toUInt8, 0, 0, 0, 5, src.TxStatus])

/-- Sent by either side. `Data` is a byte slice that may be `nil` (`none`). -/
structure CopyData where
  Data : Option Bytes
  deriving DecidableEq, Repr, Inhabited

/-- `dst.Data = src`: the message body, a slice of the read buffer, which is
never `nil`. -/
def CopyData.decode (_ : CopyData) (src : Bytes) : GoP CopyData := pure { Data := some src }

def CopyData.encode (src : CopyData) (dst : Bytes) : GoP Bytes :=
  let (dst, sp) := beginMessage dst 'd'.toUInt8
  finishMessage (dst ++ src.Data.getD []) sp

structure CommandComplete where
  CommandTag : Bytes
  deriving DecidableEq, Repr, Inhabited

def CommandComplete.decode (_ : CommandComplete) (src : Bytes) : GoP CommandComplete := do
  let idx := indexByte src 0
  if idx = -1 then
    raise (.invalidMessageFormat "CommandComplete" "unterminated string")
  if idx ≠ src.length - 1 then
    raise (.invalidMessageFormat "CommandComplete" "string terminated too early")
  pure { CommandTag := ← slice src 0 idx }

def CommandComplete.encode (src : CommandComplete) (dst : Bytes) : GoP Bytes :=
  let (dst, sp) := beginMessage dst 'C'.toUInt8
  finishMessage (dst ++ src.CommandTag ++ [0]) sp

/-! ## `CopyInResponse`, `CopyOutResponse`, `CopyBothResponse` -/

/-- `for i := 0; i < n; i++ { codes[i] = binary.BigEndian.Uint16(buf.Next(2)) }`. -/
def readUint16s (buf : Buffer) : Nat → GoP (List UInt16)
  | 0 => pure []
  | n + 1 => do
    let (b, buf) := buf.next 2
    let c ← uint16 b
    pure (c :: (← readUint16s buf n))

/-- The layout the three copy responses share. -/
structure CopyResponse where
  OverallFormat : UInt8
  ColumnFormatCodes : List UInt16
  deriving DecidableEq, Repr, Inhabited

/-- Their shared `Decode`, under the member's name for its errors. -/
def decodeCopyResponse (messageType : String) (src : Bytes) : GoP CopyResponse := do
  let buf := Buffer.new src
  if buf.len < 3 then raise (.invalidMessageFormat messageType "")
  let (b, buf) := buf.next 1
  let overallFormat ← index b 0
  let (b, buf) := buf.next 2
  let columnCount := (← uint16 b).toNat
  if buf.len ≠ columnCount * 2 then raise (.invalidMessageFormat messageType "")
  let columnFormatCodes ← readUint16s buf columnCount
  pure { OverallFormat := overallFormat, ColumnFormatCodes := columnFormatCodes }

/-- Their shared `Encode`, under the member's type byte. -/
def encodeCopyResponse (t : UInt8) (src : CopyResponse) (dst : Bytes) : GoP Bytes :=
  let (dst, sp) := beginMessage dst t
  let dst := dst ++ [src.OverallFormat]
  if 65535 < src.ColumnFormatCodes.length then raise (.new "too many column format codes")
  else
    let dst := appendUint16 dst (UInt16.ofNat src.ColumnFormatCodes.length)
    finishMessage (src.ColumnFormatCodes.foldl appendUint16 dst) sp

abbrev CopyInResponse := CopyResponse
abbrev CopyOutResponse := CopyResponse
abbrev CopyBothResponse := CopyResponse

def CopyInResponse.decode (_ : CopyInResponse) (src : Bytes) : GoP CopyInResponse :=
  decodeCopyResponse "CopyInResponse" src

def CopyInResponse.encode (src : CopyInResponse) (dst : Bytes) : GoP Bytes :=
  encodeCopyResponse 'G'.toUInt8 src dst

def CopyOutResponse.decode (_ : CopyOutResponse) (src : Bytes) : GoP CopyOutResponse :=
  decodeCopyResponse "CopyOutResponse" src

def CopyOutResponse.encode (src : CopyOutResponse) (dst : Bytes) : GoP Bytes :=
  encodeCopyResponse 'H'.toUInt8 src dst

def CopyBothResponse.decode (_ : CopyBothResponse) (src : Bytes) : GoP CopyBothResponse :=
  decodeCopyResponse "CopyBothResponse" src

def CopyBothResponse.encode (src : CopyBothResponse) (dst : Bytes) : GoP Bytes :=
  encodeCopyResponse 'W'.toUInt8 src dst

/-! ## Rows and results -/

/-- A row: each value is a byte string, or `NULL` (a nil slice); the slice of
values may itself be `nil` (`none`). -/
structure DataRow where
  Values : Option (List (Option Bytes))
  deriving DecidableEq, Repr, Inhabited

/-- The `for i := 0; i < fieldCount; i++` loop of `DataRow.Decode`, over the
unread part `src[rp:]`. -/
def DataRow.decodeValues : Nat → Bytes → GoP (List (Option Bytes))
  | 0, _ => pure []
  | n + 1, src => do
    if src.length < 4 then raise (.invalidMessageFormat "DataRow" "")
    let valueLen := (← uint32 src).toInt32.toInt
    let src ← sliceFrom src 4
    if valueLen = -1 then
      pure (none :: (← decodeValues n src))
    else
      if src.length < valueLen ∨ valueLen < 0 then raise (.invalidMessageFormat "DataRow" "")
      let value ← slice src 0 valueLen
      pure (some value :: (← decodeValues n (← sliceFrom src valueLen)))

/-- Bytes after the last value are ignored. The capacity bookkeeping of
`dst.Values` decides where the values are stored, and keeps a `nil` slice
`nil` when there are none: `cap(nil)` is 0, so `dst.Values[:0]` is taken. -/
def DataRow.decode (dst : DataRow) (src : Bytes) : GoP DataRow := do
  if src.length < 2 then raise (.invalidMessageFormat "DataRow" "")
  let fieldCount := (← uint16 src).toNat
  let values ← decodeValues fieldCount (← sliceFrom src 2)
  if dst.Values = none ∧ fieldCount = 0 then pure { Values := none }
  else pure { Values := some values }

/-- A value as `DataRow.Encode` writes it: `-1` for `NULL`, else its length
and bytes. -/
def encodeValue (dst : Bytes) : Option Bytes → Bytes
  | none => appendInt32 dst (-1)
  | some v => appendInt32 dst (Int32.ofNat v.length) ++ v

def DataRow.encode (src : DataRow) (dst : Bytes) : GoP Bytes :=
  let (dst, sp) := beginMessage dst 'D'.toUInt8
  let values := src.Values.getD []
  if 65535 < values.length then raise (.new "too many values")
  else
    let dst := appendUint16 dst (UInt16.ofNat values.length)
    finishMessage (values.foldl encodeValue dst) sp

structure FunctionCallResponse where
  Result : Option Bytes
  deriving DecidableEq, Repr, Inhabited

/-- Reads the result length as `int(binary.BigEndian.Uint32(...))`, an
unsigned value, before comparing it with `-1`. -/
def FunctionCallResponse.decode (_ : FunctionCallResponse) (src : Bytes) :
    GoP FunctionCallResponse := do
  if src.length < 4 then raise (.invalidMessageFormat "FunctionCallResponse" "")
  let resultSize : Int := (← uint32 src).toNat
  let rest ← sliceFrom src 4
  if resultSize = -1 then
    pure { Result := none }
  else
    if (rest.length : Int) ≠ resultSize then raise (.invalidMessageFormat "FunctionCallResponse" "")
    pure { Result := some rest }

def FunctionCallResponse.encode (src : FunctionCallResponse) (dst : Bytes) : GoP Bytes :=
  let (dst, sp) := beginMessage dst 'V'.toUInt8
  finishMessage (encodeValue dst src.Result) sp

structure FieldDescription where
  Name : Bytes
  TableOID : UInt32
  TableAttributeNumber : UInt16
  DataTypeOID : UInt32
  DataTypeSize : Int16
  TypeModifier : Int32
  Format : Int16
  deriving DecidableEq, Repr, Inhabited

structure RowDescription where
  Fields : List FieldDescription
  deriving DecidableEq, Repr, Inhabited

/-- The 18 fixed bytes after a field's name. -/
def FieldDescription.decodeFixed (name : Bytes) (src : Bytes) : GoP FieldDescription := do
  let tableOID ← uint32 src
  let src ← sliceFrom src 4
  let tableAttributeNumber ← uint16 src
  let src ← sliceFrom src 2
  let dataTypeOID ← uint32 src
  let src ← sliceFrom src 4
  let dataTypeSize ← uint16 src
  let src ← sliceFrom src 2
  let typeModifier ← uint32 src
  let src ← sliceFrom src 4
  let format ← uint16 src
  pure ⟨name, tableOID, tableAttributeNumber, dataTypeOID, dataTypeSize.toInt16,
    typeModifier.toInt32, format.toInt16⟩

/-- The field loop of `RowDescription.Decode`, over `src[rp:]`. -/
def RowDescription.decodeFields : Nat → Bytes → GoP (List FieldDescription)
  | 0, _ => pure []
  | n + 1, src => do
    let idx := indexByte src 0
    if idx < 0 then raise (.invalidMessageFormat "RowDescription" "")
    let name ← slice src 0 idx
    let src ← sliceFrom src (idx + 1)
    if src.length < 18 then raise (.invalidMessageFormat "RowDescription" "")
    let fd ← FieldDescription.decodeFixed name src
    pure (fd :: (← decodeFields n (← sliceFrom src 18)))

/-- `dst.Fields = dst.Fields[0:0]`, then one field per count. -/
def RowDescription.decode (_ : RowDescription) (src : Bytes) : GoP RowDescription := do
  if src.length < 2 then raise (.invalidMessageFormat "RowDescription" "")
  let fieldCount := (← uint16 src).toNat
  pure { Fields := ← decodeFields fieldCount (← sliceFrom src 2) }

def FieldDescription.append (dst : Bytes) (fd : FieldDescription) : Bytes :=
  let dst := dst ++ fd.Name ++ [0]
  let dst := appendUint32 dst fd.TableOID
  let dst := appendUint16 dst fd.TableAttributeNumber
  let dst := appendUint32 dst fd.DataTypeOID
  let dst := appendInt16 dst fd.DataTypeSize
  let dst := appendInt32 dst fd.TypeModifier
  appendInt16 dst fd.Format

def RowDescription.encode (src : RowDescription) (dst : Bytes) : GoP Bytes :=
  let (dst, sp) := beginMessage dst 'T'.toUInt8
  if 65535 < src.Fields.length then raise (.new "too many fields")
  else
    let dst := appendUint16 dst (UInt16.ofNat src.Fields.length)
    finishMessage (src.Fields.foldl FieldDescription.append dst) sp

structure ParameterDescription where
  ParameterOIDs : List UInt32
  deriving DecidableEq, Repr, Inhabited

/-- `parameterCount := buf.Len() / 4`: the count word is skipped, not read. -/
def readUint32s (buf : Buffer) : Nat → GoP (List UInt32)
  | 0 => pure []
  | n + 1 => do
    let (b, buf) := buf.next 4
    let oid ← uint32 b
    pure (oid :: (← readUint32s buf n))

def ParameterDescription.decode (_ : ParameterDescription) (src : Bytes) :
    GoP ParameterDescription := do
  let buf := Buffer.new src
  if buf.len < 2 then raise (.invalidMessageFormat "ParameterDescription" "")
  let (_, buf) := buf.next 2
  let parameterCount := buf.len / 4
  pure { ParameterOIDs := ← readUint32s buf parameterCount }

def ParameterDescription.encode (src : ParameterDescription) (dst : Bytes) : GoP Bytes :=
  let (dst, sp) := beginMessage dst 't'.toUInt8
  if 65535 < src.ParameterOIDs.length then raise (.new "too many parameter oids")
  else
    let dst := appendUint16 dst (UInt16.ofNat src.ParameterOIDs.length)
    finishMessage (src.ParameterOIDs.foldl appendUint32 dst) sp

/-! ## Text messages -/

/-- `b, err := buf.ReadBytes(0)` and `string(b[:len(b)-1])`. -/
def readCString (buf : Buffer) : GoP (Bytes × Buffer) :=
  match buf.readBytes 0 with
  | ((_, some e), _) => raise (.io e)
  | ((b, none), buf) => pure (b.dropLast, buf)

structure ParameterStatus where
  Name : Bytes
  Value : Bytes
  deriving DecidableEq, Repr, Inhabited

def ParameterStatus.decode (_ : ParameterStatus) (src : Bytes) : GoP ParameterStatus := do
  let (name, buf) ← readCString (Buffer.new src)
  let (value, _) ← readCString buf
  pure { Name := name, Value := value }

def ParameterStatus.encode (src : ParameterStatus) (dst : Bytes) : GoP Bytes :=
  let (dst, sp) := beginMessage dst 'S'.toUInt8
  finishMessage (dst ++ src.Name ++ [0] ++ src.Value ++ [0]) sp

structure NotificationResponse where
  PID : UInt32
  Channel : Bytes
  Payload : Bytes
  deriving DecidableEq, Repr, Inhabited

def NotificationResponse.decode (_ : NotificationResponse) (src : Bytes) :
    GoP NotificationResponse := do
  let buf := Buffer.new src
  if buf.len < 4 then raise (.invalidMessageFormat "NotificationResponse" "too short")
  let (b, buf) := buf.next 4
  let pid ← uint32 b
  let (channel, buf) ← readCString buf
  let (payload, _) ← readCString buf
  pure { PID := pid, Channel := channel, Payload := payload }

def NotificationResponse.encode (src : NotificationResponse) (dst : Bytes) : GoP Bytes :=
  let (dst, sp) := beginMessage dst 'A'.toUInt8
  finishMessage (appendUint32 dst src.PID ++ src.Channel ++ [0] ++ src.Payload ++ [0]) sp

/-! ## `ErrorResponse` and `NoticeResponse` -/

/-- The fields of an error or notice; the zero value is `{}`.
`UnknownFields` is the Go map in its iteration order. -/
structure ErrorResponse where
  Severity : Bytes := []
  SeverityUnlocalized : Bytes := []
  Code : Bytes := []
  Message : Bytes := []
  Detail : Bytes := []
  Hint : Bytes := []
  Position : Int32 := 0
  InternalPosition : Int32 := 0
  InternalQuery : Bytes := []
  Where : Bytes := []
  SchemaName : Bytes := []
  TableName : Bytes := []
  ColumnName : Bytes := []
  DataTypeName : Bytes := []
  ConstraintName : Bytes := []
  File : Bytes := []
  Line : Int32 := 0
  Routine : Bytes := []
  UnknownFields : List (UInt8 × Bytes) := []
  deriving DecidableEq, Repr, Inhabited

/-- `int32(n)` for `n, _ := strconv.ParseInt(v, 10, 32)`. -/
def parseInt32 (v : Bytes) : Int32 := Int32.ofInt (Strconv.parseInt v 32)

/-- The `switch k` of `ErrorResponse.Decode`: store field `k`. -/
def ErrorResponse.setField (dst : ErrorResponse) (k : UInt8) (v : Bytes) : ErrorResponse :=
  match Char.ofNat k.toNat with
  | 'S' => { dst with Severity := v }
  | 'V' => { dst with SeverityUnlocalized := v }
  | 'C' => { dst with Code := v }
  | 'M' => { dst with Message := v }
  | 'D' => { dst with Detail := v }
  | 'H' => { dst with Hint := v }
  | 'P' => { dst with Position := parseInt32 v }
  | 'p' => { dst with InternalPosition := parseInt32 v }
  | 'q' => { dst with InternalQuery := v }
  | 'W' => { dst with Where := v }
  | 's' => { dst with SchemaName := v }
  | 't' => { dst with TableName := v }
  | 'c' => { dst with ColumnName := v }
  | 'd' => { dst with DataTypeName := v }
  | 'n' => { dst with ConstraintName := v }
  | 'F' => { dst with File := v }
  | 'L' => { dst with Line := parseInt32 v }
  | 'R' => { dst with Routine := v }
  | _ => { dst with UnknownFields := mapInsert dst.UnknownFields k v }

/-- The field loop over the unread bytes: `buf.ReadByte()` for the code (a
`0` ends the message, nothing left is `io.EOF`), then `buf.ReadBytes(0)` for
the value (no NUL left is `io.EOF`). -/
def ErrorResponse.decodeFields (dst : ErrorResponse) : Bytes → GoP ErrorResponse
  | [] => raise (.io .eof)
  | k :: rest =>
    if k = 0 then pure dst
    else if (0 : UInt8) ∈ rest then
      let i := rest.idxOf 0
      decodeFields (dst.setField k (rest.take i)) (rest.drop (i + 1))
    else raise (.io .eof)
termination_by l => l.length

/-- `*dst = ErrorResponse{}`, then the fields. -/
def ErrorResponse.decode (_ : ErrorResponse) (src : Bytes) : GoP ErrorResponse :=
  ErrorResponse.decodeFields {} src

/-- One `if src.X != "" { dst = append(dst, k); ...; dst = append(dst, 0) }`. -/
def appendField (dst : Bytes) (k : Char) (v : Bytes) : Bytes :=
  if v = [] then dst else dst ++ k.toUInt8 :: v ++ [0]

/-- One numeric field: written with `strconv.Itoa` when non-zero. -/
def appendIntField (dst : Bytes) (k : Char) (v : Int32) : Bytes :=
  if v = 0 then dst else dst ++ k.toUInt8 :: Strconv.itoa v.toInt ++ [0]

/-- `ErrorResponse.appendFields`. -/
def ErrorResponse.appendFields (src : ErrorResponse) (dst : Bytes) : Bytes :=
  let dst := appendField dst 'S' src.Severity
  let dst := appendField dst 'V' src.SeverityUnlocalized
  let dst := appendField dst 'C' src.Code
  let dst := appendField dst 'M' src.Message
  let dst := appendField dst 'D' src.Detail
  let dst := appendField dst 'H' src.Hint
  let dst := appendIntField dst 'P' src.Position
  let dst := appendIntField dst 'p' src.InternalPosition
  let dst := appendField dst 'q' src.InternalQuery
  let dst := appendField dst 'W' src.Where
  let dst := appendField dst 's' src.SchemaName
  let dst := appendField dst 't' src.TableName
  let dst := appendField dst 'c' src.ColumnName
  let dst := appendField dst 'd' src.DataTypeName
  let dst := appendField dst 'n' src.ConstraintName
  let dst := appendField dst 'F' src.File
  let dst := appendIntField dst 'L' src.Line
  let dst := appendField dst 'R' src.Routine
  let dst := src.UnknownFields.foldl (fun dst e => dst ++ e.1 :: e.2 ++ [0]) dst
  dst ++ [0]

def ErrorResponse.encode (src : ErrorResponse) (dst : Bytes) : GoP Bytes :=
  let (dst, sp) := beginMessage dst 'E'.toUInt8
  finishMessage (src.appendFields dst) sp

/-- `type NoticeResponse ErrorResponse`. -/
abbrev NoticeResponse := ErrorResponse

def NoticeResponse.decode (dst : NoticeResponse) (src : Bytes) : GoP NoticeResponse :=
  ErrorResponse.decode dst src

def NoticeResponse.encode (src : NoticeResponse) (dst : Bytes) : GoP Bytes :=
  let (dst, sp) := beginMessage dst 'N'.toUInt8
  finishMessage (ErrorResponse.appendFields src dst) sp

/-! ## The messages a `Frontend` returns -/

/-- A `BackendMessage`, by its dynamic type. -/
inductive BackendMessage where
  | authenticationOk (m : AuthenticationOk)
  | authenticationCleartextPassword (m : AuthenticationCleartextPassword)
  | authenticationMD5Password (m : AuthenticationMD5Password)
  | authenticationGSS (m : AuthenticationGSS)
  | authenticationGSSContinue (m : AuthenticationGSSContinue)
  | authenticationSASL (m : AuthenticationSASL)
  | authenticationSHA256 (m : AuthenticationSHA256)
  | authenticationSASLContinue (m : AuthenticationSASLContinue)
  | authenticationSASLFinal (m : AuthenticationSASLFinal)
  | backendKeyData (m : BackendKeyData)
  | bindComplete (m : BindComplete)
  | closeComplete (m : CloseComplete)
  | commandComplete (m : CommandComplete)
  | copyBothResponse (m : CopyBothResponse)
  | copyData (m : CopyData)
  | copyInResponse (m : CopyInResponse)
  | copyOutResponse (m : CopyOutResponse)
  | copyDone (m : CopyDone)
  | dataRow (m : DataRow)
  | emptyQueryResponse (m : EmptyQueryResponse)
  | errorResponse (m : ErrorResponse)
  | functionCallResponse (m : FunctionCallResponse)
  | noData (m : NoData)
  | noticeResponse (m : NoticeResponse)
  | notificationResponse (m : NotificationResponse)
  | parameterDescription (m : ParameterDescription)
  | parameterStatus (m : ParameterStatus)
  | parseComplete (m : ParseComplete)
  | readyForQuery (m : ReadyForQuery)
  | rowDescription (m : RowDescription)
  | portalSuspended (m : PortalSuspended)
  deriving DecidableEq, Repr, Inhabited

/-- `msg.Encode(dst)`, by the message's dynamic type. -/
def BackendMessage.encode : BackendMessage → Bytes → GoP Bytes
  | .authenticationOk m => m.encode
  | .authenticationCleartextPassword m => m.encode
  | .authenticationMD5Password m => m.encode
  | .authenticationGSS m => m.encode
  | .authenticationGSSContinue m => m.encode
  | .authenticationSASL m => m.encode
  | .authenticationSHA256 m => m.encode
  | .authenticationSASLContinue m => m.encode
  | .authenticationSASLFinal m => m.encode
  | .backendKeyData m => m.encode
  | .bindComplete m => m.encode
  | .closeComplete m => m.encode
  | .commandComplete m => m.encode
  | .copyBothResponse m => CopyBothResponse.encode m
  | .copyData m => m.encode
  | .copyInResponse m => CopyInResponse.encode m
  | .copyOutResponse m => CopyOutResponse.encode m
  | .copyDone m => m.encode
  | .dataRow m => m.encode
  | .emptyQueryResponse m => m.encode
  | .errorResponse m => ErrorResponse.encode m
  | .functionCallResponse m => m.encode
  | .noData m => m.encode
  | .noticeResponse m => NoticeResponse.encode m
  | .notificationResponse m => m.encode
  | .parameterDescription m => m.encode
  | .parameterStatus m => m.encode
  | .parseComplete m => m.encode
  | .readyForQuery m => m.encode
  | .rowDescription m => m.encode
  | .portalSuspended m => m.encode

/-- `msg.Decode(src)`, by the message's dynamic type: the flyweight's own
`Decode`, from the value it holds. -/
def BackendMessage.decode : BackendMessage → Bytes → GoP BackendMessage
  | .authenticationOk m, src => .authenticationOk <$> m.decode src
  | .authenticationCleartextPassword m, src => .authenticationCleartextPassword <$> m.decode src
  | .authenticationMD5Password m, src => .authenticationMD5Password <$> m.decode src
  | .authenticationGSS m, src => .authenticationGSS <$> m.decode src
  | .authenticationGSSContinue m, src => .authenticationGSSContinue <$> m.decode src
  | .authenticationSASL m, src => .authenticationSASL <$> m.decode src
  | .authenticationSHA256 m, src => .authenticationSHA256 <$> m.decode src
  | .authenticationSASLContinue m, src => .authenticationSASLContinue <$> m.decode src
  | .authenticationSASLFinal m, src => .authenticationSASLFinal <$> m.decode src
  | .backendKeyData m, src => .backendKeyData <$> m.decode src
  | .bindComplete m, src => .bindComplete <$> m.decode src
  | .closeComplete m, src => .closeComplete <$> m.decode src
  | .commandComplete m, src => .commandComplete <$> m.decode src
  | .copyBothResponse m, src => .copyBothResponse <$> CopyBothResponse.decode m src
  | .copyData m, src => .copyData <$> m.decode src
  | .copyInResponse m, src => .copyInResponse <$> CopyInResponse.decode m src
  | .copyOutResponse m, src => .copyOutResponse <$> CopyOutResponse.decode m src
  | .copyDone m, src => .copyDone <$> m.decode src
  | .dataRow m, src => .dataRow <$> m.decode src
  | .emptyQueryResponse m, src => .emptyQueryResponse <$> m.decode src
  | .errorResponse m, src => .errorResponse <$> ErrorResponse.decode m src
  | .functionCallResponse m, src => .functionCallResponse <$> m.decode src
  | .noData m, src => .noData <$> m.decode src
  | .noticeResponse m, src => .noticeResponse <$> NoticeResponse.decode m src
  | .notificationResponse m, src => .notificationResponse <$> m.decode src
  | .parameterDescription m, src => .parameterDescription <$> m.decode src
  | .parameterStatus m, src => .parameterStatus <$> m.decode src
  | .parseComplete m, src => .parseComplete <$> m.decode src
  | .readyForQuery m, src => .readyForQuery <$> m.decode src
  | .rowDescription m, src => .rowDescription <$> m.decode src
  | .portalSuspended m, src => .portalSuspended <$> m.decode src

end GaussdbGo.Proto
