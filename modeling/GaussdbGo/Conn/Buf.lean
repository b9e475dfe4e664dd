import GaussdbGo.Proto.Wire

/-!
# gaussdbconn — `readBuf`, `writeBuf` and `GaussdbConn.writeBuf`

The authentication code of `gaussdbconn` reads a challenge through a
`readBuf`, the unread bytes of a message body, and builds its answer in a
`writeBuf`. A `readBuf` read panics when the body is shorter than the read:
`binary.BigEndian.Uint32` checks `b[3]`, and `(*b)[:n]` checks `n` against the
capacity of the body, which is its length (see `GoStd.Go`).

`GaussdbConn.writeBuf(b)` starts a buffer on the connection's `scratch`
array: `scratch[0] = b`, then the first five bytes, so the buffer's length
word is whatever `scratch[1:5]` holds. `scratch` is `make([]byte,
minReadBufferSize)`, all zeros, and nothing writes `scratch[1:5]`: the
appends to a buffer write through into `scratch[5:]`, which nothing reads
back, and are left out.

The functions of `buf.go` that no modelled function calls (`readBuf.int16`,
`readBuf.string`, `readBuf.byte`, `writeBuf.wrap`, `writeBuf.next`) are left
out.
-/

namespace GaussdbGo.Conn

open GoStd GoStd.BigEndian GaussdbGo.Proto

variable {ε : Type}

/-- A `readBuf`: the unread bytes of a message body. -/
abbrev ReadBuf := Bytes

namespace ReadBuf

/-- `readBuf.int32`: a signed big-endian word. -/
def int32 (b : ReadBuf) : Go ε (Int × ReadBuf) := do
  let n ← uint32 b
  let b ← sliceFrom b 4
  pure (n.toInt32.toInt, b)

/-- `readBuf.next(n)`. -/
def next (b : ReadBuf) (n : Nat) : Go ε (Bytes × ReadBuf) := do
  let v ← slice b 0 n
  let b ← sliceFrom b n
  pure (v, b)

theorem int32_putUint32 (x : UInt32) (rest : Bytes) :
    (int32 (putUint32 x ++ rest) : Go ε (Int × ReadBuf)) = .ok (x.toInt32.toInt, rest) := by
  simp only [int32, uint32_putUint32, ok_bind, sliceFrom_putUint32]
  rfl

theorem int32_of_length_lt {b : ReadBuf} (h : b.length < 4) :
    (int32 b : Go ε (Int × ReadBuf)) = crash (.indexOutOfRange 3 b.length) := by
  simp only [int32, uint32_of_length_lt b h, bind_crash]

theorem next_append {v : Bytes} (rest : Bytes) {n : Nat} (hn : v.length = n) :
    (next (v ++ rest) n : Go ε (Bytes × ReadBuf)) = .ok (v, rest) := by
  subst hn
  have hv : (slice (v ++ rest) 0 v.length : Go ε Bytes) = .ok v := by
    have h := slice_of_le (ε := ε) (v ++ rest) (Nat.zero_le v.length) (by simp)
    simpa using h
  have hr : (sliceFrom (v ++ rest) v.length : Go ε Bytes) = .ok rest := by
    have h := sliceFrom_of_le (ε := ε) (v ++ rest) (show v.length ≤ _ by simp)
    simpa using h
  simp only [next, hv, hr, ok_bind]
  rfl

end ReadBuf

/-- A `writeBuf`: the bytes written, and where the current message starts. -/
structure WriteBuf where
  buf : Bytes
  pos : Nat
  deriving DecidableEq, Repr

namespace WriteBuf

/-- `writeBuf.int32(n)`: `uint32(n)`, big-endian. -/
def int32 (b : WriteBuf) (n : Int) : WriteBuf := { b with buf := b.buf ++ putUint32 (UInt32.ofInt n) }

/-- `writeBuf.int16(n)`: `uint16(n)`, big-endian. -/
def int16 (b : WriteBuf) (n : Int) : WriteBuf := { b with buf := b.buf ++ putUint16 (UInt16.ofInt n) }

/-- `writeBuf.string(s)`: the bytes and a terminating `0`. -/
def string (b : WriteBuf) (s : Bytes) : WriteBuf := { b with buf := b.buf ++ s ++ [0] }

/-- `writeBuf.byte(c)`. -/
def byte (b : WriteBuf) (c : UInt8) : WriteBuf := { b with buf := b.buf ++ [c] }

/-- `writeBuf.bytes(v)`. -/
def bytes (b : WriteBuf) (v : Bytes) : WriteBuf := { b with buf := b.buf ++ v }

@[simp] theorem int32_buf (b : WriteBuf) (n : Int) :
    (b.int32 n).buf = b.buf ++ putUint32 (UInt32.ofInt n) := rfl

@[simp] theorem int16_buf (b : WriteBuf) (n : Int) :
    (b.int16 n).buf = b.buf ++ putUint16 (UInt16.ofInt n) := rfl

@[simp] theorem string_buf (b : WriteBuf) (s : Bytes) : (b.string s).buf = b.buf ++ s ++ [0] := rfl

@[simp] theorem byte_buf (b : WriteBuf) (c : UInt8) : (b.byte c).buf = b.buf ++ [c] := rfl

@[simp] theorem bytes_buf (b : WriteBuf) (v : Bytes) : (b.bytes v).buf = b.buf ++ v := rfl

end WriteBuf

/-- `uint32(n)` of a word that fits is the word. -/
theorem uint32_ofInt_natCast (n : Nat) : UInt32.ofInt (n : Int) = UInt32.ofNat n := by
  apply UInt32.toNat_inj.mp
  simp only [UInt32.ofInt, UInt32.toNat_ofNat']
  omega

/-- The fields of a `GaussdbConn` that authentication reads and writes. -/
structure GaussdbConn where
  /-- `config.Password` -/
  password : Bytes
  /-- `config.User` -/
  user : Bytes
  /-- `scratch`, `make([]byte, minReadBufferSize)` when the connection is made -/
  scratch : Bytes
  deriving DecidableEq, Repr

/-- `make([]byte, config.minReadBufferSize)`, the scratch array of a new
connection (`minReadBufferSize` is 8192 unless configured). -/
def newScratch (minReadBufferSize : Nat) : Bytes := List.replicate minReadBufferSize 0

/-- `GaussdbConn.writeBuf(b)`: `scratch[0] = b`, then `scratch[:5]` from
position 1. -/
def GaussdbConn.writeBuf (g : GaussdbConn) (b : UInt8) : Go ε (WriteBuf × GaussdbConn) :=
  match g.scratch with
  | [] => crash (.indexOutOfRange 0 0)
  | _ :: rest => do
    let scratch := b :: rest
    let buf ← slice scratch 0 5
    pure ({ buf := buf, pos := 1 }, { g with scratch := scratch })

/-- On a scratch array of at least five bytes, the buffer is the type byte
and the four bytes `scratch[1:5]`. -/
theorem GaussdbConn.writeBuf_of_length {g : GaussdbConn} (b : UInt8) (h : 5 ≤ g.scratch.length) :
    (g.writeBuf b : Go ε (WriteBuf × GaussdbConn)) =
      .ok ({ buf := b :: (g.scratch.drop 1).take 4, pos := 1 },
        { g with scratch := b :: g.scratch.drop 1 }) := by
  obtain ⟨password, user, scratch⟩ := g
  cases scratch with
  | nil => simp at h
  | cons x rest =>
    have hsl : (slice (b :: rest) 0 5 : Go ε Bytes) = .ok (b :: rest.take 4) := by
      have h5 := slice_of_le (ε := ε) (b :: rest) (Nat.zero_le 5) (by simpa using h)
      simpa using h5
    simp only [GaussdbConn.writeBuf, hsl, ok_bind, List.drop_one, List.tail_cons]
    rfl

end GaussdbGo.Conn
