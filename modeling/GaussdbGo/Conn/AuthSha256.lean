import GaussdbGo.Conn.RfcDigest
import GaussdbGo.Proto.Backend

/-!
# gaussdbconn — `authSha256`, the answer to a GaussDB SHA256 challenge

`AuthenticationSHA256.Decode` accepts a body of at least 82 bytes and keeps
it whole; `authSha256` then reads from it the auth type, the
password-stored method and, for the methods `plain` and `sha256`, a 64-byte
salt, an 8-byte token and the iteration count, 84 bytes in all; for `md5`,
a 4-byte salt. It builds its `PasswordMessage` by hand in a `writeBuf`.

The `plain`/`sha256` branch writes one frame, `'p'`, the length, the proof
and a terminator, and the server reads it as a `PasswordMessage` carrying the
proof (`scramSha256_received`), when the body has the 84 bytes. The `md5`
branch keeps the four bytes `GaussdbConn.writeBuf` leaves for a length,
then writes a 16-bit length, the digest and two terminators: no frame of the
digest (`authSha256_md5_and_short_bodies`).
-/

namespace GaussdbGo.Conn

open GoStd GoStd.BigEndian GaussdbGo.Proto

/-- The errors `authSha256` returns. -/
inductive AuthError where
  | badAuthType
  | noPassword
  | loginDenied
  | unsupportedMethod
  deriving DecidableEq, Repr

def AuthError.message : AuthError → String
  | .badAuthType => "bad auth type"
  | .noPassword =>
    "The server requested password-based authentication, but no password was provided."
  | .loginDenied => "Invalid username/password,login denied."
  | .unsupportedMethod =>
    "The  password-stored method is not supported ,must be plain, md5 or sha256."

/-- The password-stored methods of a challenge. -/
def PlainPassword : Int := 0

def Md5Password : Int := 1

def Sha256Password : Int := 2

/-- `digest` of the `md5` branch: `"md5" + md5s(md5s(password+user)+s)`. -/
def md5Digest (P : Primitives) (password user s : Bytes) : Bytes :=
  bytesOf "md5" ++ md5s P (md5s P (password ++ user) ++ s)

/-- `GaussdbConn.authSha256(r)`: the buffer to send, and the connection
with its scratch array as `writeBuf` left it. -/
def authSha256 (P : Primitives) (g : GaussdbConn) (r : ReadBuf) :
    Go AuthError (WriteBuf × GaussdbConn) := do
  let (authType, r) ← r.int32
  if authType ≠ (AuthTypeSHA256.toNat : Int) then raise .badAuthType
  let (passwordStoredMethod, r) ← r.int32
  if g.password = [] then raise .noPassword
  if passwordStoredMethod = PlainPassword ∨ passwordStoredMethod = Sha256Password then
    let (random64code, r) ← r.next 64
    let (token, r) ← r.next 8
    let (serverIteration, _) ← r.int32
    let result ← rfc5802Algorithm P g.password random64code token [] serverIteration
      (bytesOf "sha256")
    if result = [] then raise .loginDenied
    let (_, g) ← g.writeBuf 'p'.toUInt8
    -- the buffer is replaced: `w.buf = []byte("p")`, `w.pos = 1`
    let w : WriteBuf := { buf := bytesOf "p", pos := 1 }
    pure (((w.int32 (4 + result.length + 1)).bytes result).byte 0, g)
  else if passwordStoredMethod = Md5Password then
    let (s, _) ← r.next 4
    let digest := md5Digest P g.password g.user s
    let (w, g) ← g.writeBuf 'p'.toUInt8
    pure (((w.int16 (4 + digest.length + 1)).string digest).byte 0, g)
  else raise .unsupportedMethod

/-! ## The two branches -/

section Branches

variable (P : Primitives) {g : GaussdbConn}

/-- The `plain`/`sha256` branch on a body with the 84 bytes it reads: one
`'p'` frame of the 64-digit proof and a terminator. -/
theorem authSha256_sha256 (hpw : g.password ≠ []) (hs : 5 ≤ g.scratch.length) {method : UInt32}
    (hm : method.toInt32.toInt = PlainPassword ∨ method.toInt32.toInt = Sha256Password)
    {random64code token : Bytes} (h64 : random64code.length = 64) (h8 : token.length = 8)
    (iter : UInt32) (rest : Bytes) :
    ∃ result, (rfc5802Algorithm P g.password random64code token [] iter.toInt32.toInt
          (bytesOf "sha256") : Go AuthError Bytes) = .ok result ∧
      result.length = 64 ∧ (0 : UInt8) ∉ result ∧
      authSha256 P g (putUint32 AuthTypeSHA256 ++ putUint32 method ++ random64code ++ token ++
          putUint32 iter ++ rest) =
        .ok ({ buf := frame 112 (result ++ [0]), pos := 1 },
          { g with scratch := 112 :: g.scratch.drop 1 }) := by
  obtain ⟨result, hres, hlen, h0⟩ := rfc5802Algorithm_hex (ε := AuthError) P g.password
    random64code token iter.toInt32.toInt (bytesOf "sha256")
  refine ⟨result, hres, hlen, h0, ?_⟩
  have hne : result ≠ [] := by intro h; simp [h] at hlen
  have hword : UInt32.ofInt (4 + (result.length : Int) + 1) =
      UInt32.ofNat ((result ++ [0]).length + 4) := by
    rw [← uint32_ofInt_natCast]; congr 1; simp; omega
  have hframe : ((({ buf := bytesOf "p", pos := 1 } : WriteBuf).int32
      (4 + result.length + 1)).bytes result).byte 0 = { buf := frame 112 (result ++ [0]), pos := 1 } := by
    have hp : bytesOf "p" = [112] := by decide
    simp only [WriteBuf.int32, WriteBuf.bytes, WriteBuf.byte, hword, frame, hp]
    simp
  have htype : (AuthTypeSHA256.toInt32.toInt : Int) = (AuthTypeSHA256.toNat : Int) := by decide
  simp only [authSha256, List.append_assoc, ReadBuf.int32_putUint32, ok_bind, htype, ne_eq,
    not_true_eq_false, if_false, hpw, hm, if_true, ReadBuf.next_append _ h64,
    ReadBuf.next_append _ h8, hres, hne, GaussdbConn.writeBuf_of_length _ hs, hframe]
  rfl

/-- The `md5` branch: the type byte, the four bytes of `scratch[1:5]`, a
16-bit length, the digest and two terminators. -/
theorem authSha256_md5 (hpw : g.password ≠ []) (hs : 5 ≤ g.scratch.length) {method : UInt32}
    (hm : method.toInt32.toInt = Md5Password) {s : Bytes} (h4 : s.length = 4) (rest : Bytes) :
    authSha256 P g (putUint32 AuthTypeSHA256 ++ putUint32 method ++ s ++ rest) =
      .ok (⟨112 :: (g.scratch.drop 1).take 4 ++
              putUint16 (UInt16.ofInt (4 + (md5Digest P g.password g.user s).length + 1)) ++
              md5Digest P g.password g.user s ++ [0, 0], 1⟩,
        { g with scratch := 112 :: g.scratch.drop 1 }) := by
  have htype : (AuthTypeSHA256.toInt32.toInt : Int) = (AuthTypeSHA256.toNat : Int) := by decide
  have hnot : ¬ (Md5Password = PlainPassword ∨ Md5Password = Sha256Password) := by decide
  have hp : 'p'.toUInt8 = 112 := rfl
  simp only [authSha256, List.append_assoc, ReadBuf.int32_putUint32, ok_bind, htype, ne_eq,
    not_true_eq_false, if_false, hpw, hm, hnot, if_true, ReadBuf.next_append _ h4,
    GaussdbConn.writeBuf_of_length _ hs, hp, WriteBuf.int16, WriteBuf.string, WriteBuf.byte,
    List.cons_append]
  rfl

/-- The `plain`/`sha256` branch on a body that ends inside the iteration
count: `Uint32` of the last bytes panics. -/
theorem authSha256_short_panics (hpw : g.password ≠ []) {method : UInt32}
    (hm : method.toInt32.toInt = PlainPassword ∨ method.toInt32.toInt = Sha256Password)
    {random64code token tail : Bytes} (h64 : random64code.length = 64) (h8 : token.length = 8)
    (htail : tail.length < 4) :
    authSha256 P g (putUint32 AuthTypeSHA256 ++ putUint32 method ++ random64code ++ token ++ tail) =
      crash (.indexOutOfRange 3 tail.length) := by
  have htype : (AuthTypeSHA256.toInt32.toInt : Int) = (AuthTypeSHA256.toNat : Int) := by decide
  simp only [authSha256, List.append_assoc, ReadBuf.int32_putUint32, ok_bind, htype, ne_eq,
    not_true_eq_false, if_false, hpw, hm, if_true, ReadBuf.next_append _ h64,
    ReadBuf.next_append _ h8, ReadBuf.int32_of_length_lt htail, bind_crash]

end Branches

/-- `AuthenticationSHA256.Decode` accepts no body shorter than 82 bytes. -/
theorem AuthenticationSHA256.le_length_of_decode {m m' : AuthenticationSHA256} {src : Bytes}
    (h : m.decode src = .ok m') : 82 ≤ src.length := by
  by_contra hlt
  have h82 : src.length < 82 := by omega
  unfold AuthenticationSHA256.decode at h
  by_cases h4 : src.length < 4
  · simp [h4] at h
  · rcases hc : checkAuthType AuthTypeSHA256 src with e | u
    · simp [h4, hc, bind, Except.bind] at h
    · simp [h4, hc, h82] at h

/-! ## On the server -/

/-- A `'p'` frame of a text without `0` and its terminator, on a server whose
auth type sorts `'p'` as a password message, is received as the
`PasswordMessage` of that text. -/
theorem receive_passwordMessage {b : Backend} {password rest : Bytes} (h : b.cr.Inv)
    (hp : b.partialMsg = false) (hs : b.cr.stream = frame 112 (password ++ [0]) ++ rest)
    (hlen : password.length + 5 < 2 ^ 32)
    (hmax : b.maxBodyLen = 0 ∨ password.length + 1 ≤ b.maxBodyLen)
    (hauth : Backend.authResponse b.authType = .passwordMessage default) (h0 : (0 : UInt8) ∉ password) :
    ∃ cr, cr.Inv ∧ cr.stream = rest ∧
      b.receive = (.ok (.passwordMessage { Password := password }),
        { b with cr := cr, msgType := 112, bodyLen := password.length + 1, partialMsg := false }) := by
  have hsel : ({ b with msgType := 112 } : Backend).selectMessage = .ok (.passwordMessage default) := by
    rw [← hauth]; rfl
  obtain ⟨cr, hinv, hrest, hrecv⟩ :=
    Backend.receive_frame h hp hs (by simp; omega) (by simpa using hmax) hsel
  refine ⟨cr, hinv, hrest, ?_⟩
  have hdec : (FrontendMessage.passwordMessage default).decode (password ++ [0]) =
      .ok (.passwordMessage { Password := password }) := by
    simp only [FrontendMessage.decode, PasswordMessage.decode, readCString, Buffer.new,
      Buffer.readBytes_append_of_not_mem h0, List.dropLast_concat]
    rfl
  rw [hrecv, hdec]
  simp

/-- Library functions that hash everything to zeros, of the widths the
library's have: enough to run the model on a concrete challenge. -/
def zeroPrimitives : Primitives where
  pbkdf2Key _ _ _ keyLen := List.replicate keyLen 0
  hmacSha256 _ _ := List.replicate 32 0
  sha256 _ := List.replicate 32 0
  sm3 _ := List.replicate 32 0
  md5 _ := List.replicate 16 0
  toUpper s := s
  equalFold s t := s == t
  length_hmacSha256 _ _ := rfl

/-- The answer to a `plain`/`sha256` challenge of at least 84 bytes, sent to
a server that sorts `'p'` as a password message, is received as one
`PasswordMessage` carrying the 64-digit proof `RFC5802Algorithm` computes,
and nothing after it is consumed. -/
theorem scramSha256_received (P : Primitives) {g : GaussdbConn} (hpw : g.password ≠ [])
    (hs : 5 ≤ g.scratch.length) {method : UInt32}
    (hm : method.toInt32.toInt = PlainPassword ∨ method.toInt32.toInt = Sha256Password)
    {random64code token : Bytes} (h64 : random64code.length = 64) (h8 : token.length = 8)
    (iter : UInt32) (rest more : Bytes) :
    ∃ result w g', (rfc5802Algorithm P g.password random64code token [] iter.toInt32.toInt
          (bytesOf "sha256") : Go AuthError Bytes) = .ok result ∧
      authSha256 P g (putUint32 AuthTypeSHA256 ++ putUint32 method ++ random64code ++ token ++
          putUint32 iter ++ rest) = .ok (w, g') ∧
      ∀ b : Backend, b.cr.Inv → b.partialMsg = false →
        Backend.authResponse b.authType = .passwordMessage default →
        (b.maxBodyLen = 0 ∨ 65 ≤ b.maxBodyLen) → b.cr.stream = w.buf ++ more →
        ∃ cr : ChunkReader, cr.Inv ∧ cr.stream = more ∧
          b.receive.1 = .ok (.passwordMessage { Password := result }) := by
  obtain ⟨result, hres, hlen, h0, hauth⟩ := authSha256_sha256 P hpw hs hm h64 h8 iter rest
  refine ⟨result, _, _, hres, hauth, fun b h hp ha hmax hstream => ?_⟩
  obtain ⟨cr, hinv, hrest, hrecv⟩ :=
    receive_passwordMessage h hp hstream (by omega) (by omega) ha h0
  exact ⟨cr, hinv, hrest, by rw [hrecv]⟩

/-- A `sha256` challenge of 84 bytes on a new connection with password
`secret`: answered, and the answer received whole. -/
theorem scramSha256_received_fresh :
    bytesOf "secret" ≠ [] ∧ 5 ≤ (newScratch 8192).length ∧
      ((UInt32.ofNat 2).toInt32.toInt = PlainPassword ∨
        (UInt32.ofNat 2).toInt32.toInt = Sha256Password) ∧
      (List.replicate 64 (48 : UInt8)).length = 64 ∧ (List.replicate 8 (48 : UInt8)).length = 8 ∧
      ∃ result w g', (rfc5802Algorithm zeroPrimitives (bytesOf "secret") (List.replicate 64 48)
            (List.replicate 8 48) [] (UInt32.ofNat 2048).toInt32.toInt (bytesOf "sha256") :
            Go AuthError Bytes) = .ok result ∧
        authSha256 zeroPrimitives ⟨bytesOf "secret", bytesOf "gaussdb", newScratch 8192⟩
            (putUint32 AuthTypeSHA256 ++ putUint32 (UInt32.ofNat 2) ++ List.replicate 64 48 ++
              List.replicate 8 48 ++ putUint32 (UInt32.ofNat 2048) ++ []) = .ok (w, g') ∧
        ∀ b : Backend, b.cr.Inv → b.partialMsg = false →
          Backend.authResponse b.authType = .passwordMessage default →
          (b.maxBodyLen = 0 ∨ 65 ≤ b.maxBodyLen) → b.cr.stream = w.buf ++ [] →
          ∃ cr : ChunkReader, cr.Inv ∧ cr.stream = [] ∧
            b.receive.1 = .ok (.passwordMessage { Password := result }) := by
  have hpw : bytesOf "secret" ≠ [] := by decide
  have hs : 5 ≤ (newScratch 8192).length := by
    rw [newScratch, List.length_replicate]
    decide
  have hm : (UInt32.ofNat 2).toInt32.toInt = PlainPassword ∨
      (UInt32.ofNat 2).toInt32.toInt = Sha256Password := by decide
  have h64 : (List.replicate 64 (48 : UInt8)).length = 64 := List.length_replicate
  have h8 : (List.replicate 8 (48 : UInt8)).length = 8 := List.length_replicate
  exact ⟨hpw, hs, hm, h64, h8,
    scramSha256_received zeroPrimitives hpw hs hm h64 h8 (UInt32.ofNat 2048) [] []⟩

/-! ## What the client sends -/

/-- A scratch array whose `scratch[1:5]` is zeros has the five bytes
`writeBuf` takes. -/
theorem five_le_length_of_scratch {scratch : Bytes} (hz : (scratch.drop 1).take 4 = [0, 0, 0, 0]) :
    5 ≤ scratch.length := by
  have h := congrArg List.length hz
  simp only [List.length_take, List.length_drop, List.length_cons, List.length_nil] at h
  omega

/-- The `md5` branch of `authSha256` writes no frame of its digest: the four
bytes of `scratch[1:5]` stand where the length word should be, and the buffer
is three bytes longer than the frame. On a connection, where `scratch[1:5]` is
zeros, a server reads a length word of `0` and refuses the message. And on a
body that `AuthenticationSHA256.Decode` accepts but shorter than the 84 bytes
the `plain`/`sha256` branch reads, `authSha256` panics. -/
theorem authSha256_md5_and_short_bodies (P : Primitives) {g : GaussdbConn}
    (hpw : g.password ≠ []) (hz : (g.scratch.drop 1).take 4 = [0, 0, 0, 0]) (salt : UInt32)
    (rest : Bytes) (chunks : List Bytes) {method : UInt32}
    (hm : method.toInt32.toInt = PlainPassword ∨ method.toInt32.toInt = Sha256Password)
    {challenge : Bytes} {m m' : AuthenticationSHA256}
    (hdec : m.decode (putUint32 AuthTypeSHA256 ++ putUint32 method ++ challenge) = .ok m')
    (hshort : challenge.length < 76) :
    (∃ w g', authSha256 P g (putUint32 AuthTypeSHA256 ++ putUint32 (UInt32.ofNat 1) ++
          putUint32 salt ++ rest) = .ok (w, g') ∧
        w.buf ≠ frame 112 (md5Digest P g.password g.user (putUint32 salt) ++ [0]) ∧
        (newBackend ⟨w.buf :: chunks⟩).receive.1 = raise (.invalidMessageLength 0)) ∧
      Panics (authSha256 P g (putUint32 AuthTypeSHA256 ++ putUint32 method ++ challenge)) := by
  have hs := five_le_length_of_scratch hz
  have hm1 : (UInt32.ofNat 1).toInt32.toInt = Md5Password := by decide
  refine ⟨⟨_, _, authSha256_md5 P hpw hs hm1 (length_putUint32 salt) rest, ?_, ?_⟩, ?_⟩
  · -- the buffer is three bytes longer than the frame
    intro heq
    have hlen := congrArg List.length heq
    simp only [List.length_cons, List.length_append, List.length_take, List.length_drop,
      length_putUint16, length_frame, List.length_nil] at hlen
    omega
  · -- a length word of `0`
    have hzero : ([0, 0, 0, 0] : Bytes) = putUint32 (UInt32.ofNat 0) := by decide
    set d := md5Digest P g.password g.user (putUint32 salt)
    refine @Backend.receive_short _ 112 0
      (putUint16 (UInt16.ofInt (4 + d.length + 1)) ++ d ++ [0, 0] ++ chunks.flatten)
      (Backend.newBackend_inv _) rfl ?_ (Nat.zero_lt_succ 3)
    rw [Backend.newBackend_stream, ChunkedReader.rest, List.flatten_cons, hz, hzero]
    simp only [List.cons_append, List.append_assoc]
  · -- the decoder leaves at least 74 bytes after the two words, and the branch reads 76
    have h82 := AuthenticationSHA256.le_length_of_decode hdec
    simp only [List.length_append, length_putUint32] at h82
    have hsplit : challenge =
        challenge.take 64 ++ (challenge.drop 64).take 8 ++ (challenge.drop 64).drop 8 := by
      rw [List.append_assoc, List.take_append_drop, List.take_append_drop]
    have hpanic := authSha256_short_panics P hpw hm
      (show (challenge.take 64).length = 64 by simp; omega)
      (show ((challenge.drop 64).take 8).length = 8 by simp; omega)
      (show ((challenge.drop 64).drop 8).length < 4 by simp; omega)
    rw [hsplit]
    exact ⟨_, hpanic⟩

/-- A new connection with password `secret`: an `md5` challenge with salt `0`
sent as one read, and the 82-byte `sha256` challenge whose mechanism list is
one 73-letter name. -/
theorem authSha256_md5_and_short_bodies_fresh :
    bytesOf "secret" ≠ [] ∧ ((newScratch 8192).drop 1).take 4 = [0, 0, 0, 0] ∧
      ((UInt32.ofNat 2).toInt32.toInt = PlainPassword ∨
        (UInt32.ofNat 2).toInt32.toInt = Sha256Password) ∧
      (default : AuthenticationSHA256).decode
          (putUint32 AuthTypeSHA256 ++ putUint32 (UInt32.ofNat 2) ++ (List.replicate 73 97 ++ [0])) =
        .ok ⟨[List.replicate 73 97],
          some (putUint32 AuthTypeSHA256 ++ putUint32 (UInt32.ofNat 2) ++
            (List.replicate 73 97 ++ [0]))⟩ ∧
      (List.replicate 73 (97 : UInt8) ++ [0]).length < 76 ∧
      ((∃ w g', authSha256 zeroPrimitives ⟨bytesOf "secret", bytesOf "gaussdb", newScratch 8192⟩
            (putUint32 AuthTypeSHA256 ++ putUint32 (UInt32.ofNat 1) ++ putUint32 0 ++ []) =
              .ok (w, g') ∧
          w.buf ≠ frame 112 (md5Digest zeroPrimitives (bytesOf "secret") (bytesOf "gaussdb")
            (putUint32 0) ++ [0]) ∧
          (newBackend ⟨[w.buf]⟩).receive.1 = raise (.invalidMessageLength 0)) ∧
        Panics (authSha256 zeroPrimitives ⟨bytesOf "secret", bytesOf "gaussdb", newScratch 8192⟩
          (putUint32 AuthTypeSHA256 ++ putUint32 (UInt32.ofNat 2) ++
            (List.replicate 73 97 ++ [0])))) := by
  have hpw : bytesOf "secret" ≠ [] := by decide
  have hz : ((newScratch 8192).drop 1).take 4 = [0, 0, 0, 0] := by
    simp only [newScratch, List.drop_replicate, List.take_replicate]
    rfl
  have hm : (UInt32.ofNat 2).toInt32.toInt = PlainPassword ∨
      (UInt32.ofNat 2).toInt32.toInt = Sha256Password := by decide
  have hmech : (readMechanisms [] (List.replicate 73 97 ++ [0]) : GoP (List Bytes)) =
      .ok [List.replicate 73 97] := by
    rw [readMechanisms, if_pos (by decide), if_pos (by decide)]
    have hi : (List.replicate 73 (97 : UInt8) ++ [0]).idxOf 0 = 73 := by decide
    simp only [hi]
    rw [readMechanisms, if_neg (by decide)]
    decide
  have hdec : (default : AuthenticationSHA256).decode
      (putUint32 AuthTypeSHA256 ++ putUint32 (UInt32.ofNat 2) ++ (List.replicate 73 97 ++ [0])) =
        .ok ⟨[List.replicate 73 97],
          some (putUint32 AuthTypeSHA256 ++ putUint32 (UInt32.ofNat 2) ++
            (List.replicate 73 97 ++ [0]))⟩ := by
    have hsl : (slice (putUint32 AuthTypeSHA256 ++ putUint32 (UInt32.ofNat 2) ++
        (List.replicate 73 97 ++ [0])) 8 82 : GoP Bytes) = .ok (List.replicate 73 97 ++ [0]) := by
      decide
    have hd : (default : AuthenticationSHA256).AuthMechanisms = [] := rfl
    simp only [AuthenticationSHA256.decode, hsl, hd, ok_bind, hmech]
    decide
  have hshort : (List.replicate 73 (97 : UInt8) ++ [0]).length < 76 := by simp
  exact ⟨hpw, hz, hm, hdec, hshort,
    authSha256_md5_and_short_bodies zeroPrimitives hpw hz 0 [] [] hm hdec hshort⟩

end GaussdbGo.Conn
