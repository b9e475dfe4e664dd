import GaussdbGo.Lib.Go

/-!
# Big-endian byte order (`encoding/binary.BigEndian`)

`Uint16` and `Uint32` read the first two or four bytes of a slice and panic
when it is shorter (Go's `_ = b[3]` bounds-check hint); `PutUint16` and
`PutUint32` write them. The bytes are computed arithmetically, which is what
the shifts and masks of the Go code compute, and the round trips are proved
by `omega` over the digit decomposition.
-/

namespace GoStd.BigEndian

variable {ε : Type}

/-- The two bytes of `n`, most significant first. -/
def putUint16 (n : UInt16) : List UInt8 :=
  [UInt8.ofNat (n.toNat / 2 ^ 8), UInt8.ofNat n.toNat]

/-- The four bytes of `n`, most significant first. -/
def putUint32 (n : UInt32) : List UInt8 :=
  [UInt8.ofNat (n.toNat / 2 ^ 24), UInt8.ofNat (n.toNat / 2 ^ 16),
    UInt8.ofNat (n.toNat / 2 ^ 8), UInt8.ofNat n.toNat]

/-- The eight bytes of `n`, most significant first. -/
def putUint64 (n : UInt64) : List UInt8 :=
  [UInt8.ofNat (n.toNat / 2 ^ 56), UInt8.ofNat (n.toNat / 2 ^ 48),
    UInt8.ofNat (n.toNat / 2 ^ 40), UInt8.ofNat (n.toNat / 2 ^ 32),
    UInt8.ofNat (n.toNat / 2 ^ 24), UInt8.ofNat (n.toNat / 2 ^ 16),
    UInt8.ofNat (n.toNat / 2 ^ 8), UInt8.ofNat n.toNat]

/-- The value of two bytes, most significant first. -/
def ofBytes16 (b₀ b₁ : UInt8) : UInt16 :=
  UInt16.ofNat (b₀.toNat * 2 ^ 8 + b₁.toNat)

/-- The value of four bytes, most significant first. -/
def ofBytes32 (b₀ b₁ b₂ b₃ : UInt8) : UInt32 :=
  UInt32.ofNat (b₀.toNat * 2 ^ 24 + b₁.toNat * 2 ^ 16 + b₂.toNat * 2 ^ 8 + b₃.toNat)

/-- `binary.BigEndian.Uint16(b)`. -/
def uint16 : List UInt8 → Go ε UInt16
  | b₀ :: b₁ :: _ => .ok (ofBytes16 b₀ b₁)
  | b => crash (.indexOutOfRange 1 b.length)

/-- `binary.BigEndian.Uint32(b)`. -/
def uint32 : List UInt8 → Go ε UInt32
  | b₀ :: b₁ :: b₂ :: b₃ :: _ => .ok (ofBytes32 b₀ b₁ b₂ b₃)
  | b => crash (.indexOutOfRange 3 b.length)

@[simp] theorem length_putUint16 (n : UInt16) : (putUint16 n).length = 2 := rfl

@[simp] theorem length_putUint32 (n : UInt32) : (putUint32 n).length = 4 := rfl

theorem ofBytes16_putUint16 (n : UInt16) :
    ofBytes16 (UInt8.ofNat (n.toNat / 2 ^ 8)) (UInt8.ofNat n.toNat) = n := by
  apply UInt16.toNat_inj.mp
  have hn := n.toNat_lt
  simp only [ofBytes16, UInt16.toNat_ofNat', UInt8.toNat_ofNat']
  omega

theorem ofBytes32_putUint32 (n : UInt32) :
    ofBytes32 (UInt8.ofNat (n.toNat / 2 ^ 24)) (UInt8.ofNat (n.toNat / 2 ^ 16))
      (UInt8.ofNat (n.toNat / 2 ^ 8)) (UInt8.ofNat n.toNat) = n := by
  apply UInt32.toNat_inj.mp
  have hn := n.toNat_lt
  simp only [ofBytes32, UInt32.toNat_ofNat', UInt8.toNat_ofNat']
  omega

@[simp] theorem uint16_putUint16 (n : UInt16) (rest : List UInt8) :
    (uint16 (putUint16 n ++ rest) : Go ε UInt16) = .ok n := by
  simp only [putUint16, List.cons_append, List.nil_append, uint16, ofBytes16_putUint16]

@[simp] theorem uint32_putUint32 (n : UInt32) (rest : List UInt8) :
    (uint32 (putUint32 n ++ rest) : Go ε UInt32) = .ok n := by
  simp only [putUint32, List.cons_append, List.nil_append, uint32, ofBytes32_putUint32]

@[simp] theorem uint32_putUint32_self (n : UInt32) : (uint32 (putUint32 n) : Go ε UInt32) = .ok n := by
  simp only [putUint32, uint32, ofBytes32_putUint32]

/-- `src[4:]` after a big-endian word is what follows it. -/
@[simp] theorem sliceFrom_putUint32 (n : UInt32) (rest : List UInt8) :
    (sliceFrom (putUint32 n ++ rest) 4 : Go ε (List UInt8)) = .ok rest := by
  have h := sliceFrom_of_le (ε := ε) (putUint32 n ++ rest) (show 4 ≤ _ by simp)
  rw [List.drop_left' (length_putUint32 n)] at h
  exact h

theorem uint32_of_length (b : List UInt8) (h : 4 ≤ b.length) :
    ∃ n, (uint32 b : Go ε UInt32) = .ok n := by
  match b, h with
  | b₀ :: b₁ :: b₂ :: b₃ :: _, _ => exact ⟨_, rfl⟩

theorem uint32_of_length_lt (b : List UInt8) (h : b.length < 4) :
    (uint32 b : Go ε UInt32) = crash (.indexOutOfRange 3 b.length) := by
  match b, h with
  | [], _ | [_], _ | [_, _], _ | [_, _, _], _ => rfl

/-- `int32(v)` of a `uint32` that holds a count below `2^31` is that count. -/
theorem toInt_toInt32_ofNat {n : Nat} (h : n < 2 ^ 31) : (UInt32.ofNat n).toInt32.toInt = n := by
  have hn : (UInt32.ofNat n).toBitVec.toNat = n := by simp; omega
  simp only [UInt32.toInt32, Int32.toInt, BitVec.toInt, Int32.toBitVec, hn]
  split <;> omega

end GoStd.BigEndian
