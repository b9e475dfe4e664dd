import Mathlib

/-!
# Hexadecimal text (`encoding/hex`): `EncodeToString` and `DecodeString`

`encodeToString` writes two lower-case digits a byte, high half first.
`decodeString` reads digits of either case two at a time; as in Go's
`Decode`, a pair is checked first digit first, and a lone last digit is
checked before the odd length is reported. Go also returns the bytes decoded
before an error; the callers modelled drop them with the error, so the model
returns the error alone.
-/

namespace GoStd.Hex

/-- `hextable`, the digits `0123456789abcdef`. -/
def hextable : List UInt8 :=
  [0x30, 0x31, 0x32, 0x33, 0x34, 0x35, 0x36, 0x37, 0x38, 0x39, 0x61, 0x62, 0x63, 0x64, 0x65, 0x66]

/-- `hex.EncodeToString(src)`. -/
def encodeToString (src : List UInt8) : List UInt8 :=
  src.flatMap fun v => [hextable.getD (v.toNat >>> 4) 0, hextable.getD (v.toNat &&& 0x0f) 0]

/-- `reverseHexTable[c]`: the value of a digit of either case, `none` for a
byte above `0x0f` in the table. -/
def fromHexChar (c : UInt8) : Option UInt8 :=
  if 0x30 ≤ c ∧ c ≤ 0x39 then some (c - 0x30)
  else if 0x61 ≤ c ∧ c ≤ 0x66 then some (c - 0x61 + 10)
  else if 0x41 ≤ c ∧ c ≤ 0x46 then some (c - 0x41 + 10)
  else none

/-- The errors of `hex.Decode`. -/
inductive Error where
  /-- `InvalidByteError(b)` -/
  | invalidByte (b : UInt8)
  /-- `ErrLength` -/
  | errLength
  deriving DecidableEq, Repr

/-- `hex.DecodeString(s)`. -/
def decodeString : List UInt8 → Except Error (List UInt8)
  | [] => .ok []
  | [p] => if (fromHexChar p).isNone then .error (.invalidByte p) else .error .errLength
  | p :: q :: rest =>
    match fromHexChar p, fromHexChar q with
    | none, _ => .error (.invalidByte p)
    | some _, none => .error (.invalidByte q)
    | some a, some b => (decodeString rest).map ((a <<< 4 ||| b) :: ·)

/-! ## The round trip -/

/-- Each of the sixteen digits reads back as its own value. -/
theorem fromHexChar_hextable : ∀ i : Fin 16, fromHexChar (hextable.getD i 0) = some (UInt8.ofNat i) := by
  decide

/-- Two digit values put together by `a<<4 | b`. -/
theorem toNat_nibbles {a b : Nat} (ha : a < 16) (hb : b < 16) :
    (UInt8.ofNat a <<< 4 ||| UInt8.ofNat b).toNat = a * 16 + b := by
  have ha' : (UInt8.ofNat a).toNat = a := UInt8.toNat_ofNat_of_lt' (by simp [UInt8.size]; omega)
  have hb' : (UInt8.ofNat b).toNat = b := UInt8.toNat_ofNat_of_lt' (by simp [UInt8.size]; omega)
  have h4 : (4 : UInt8).toNat % 8 = 4 := rfl
  have hlt : a <<< 4 < 2 ^ 8 := by rw [Nat.shiftLeft_eq]; omega
  have hb4 : b < 2 ^ 4 := by rw [show (2 : ℕ) ^ 4 = 16 from rfl]; exact hb
  rw [UInt8.toNat_or, UInt8.toNat_shiftLeft, ha', hb', h4, Nat.mod_eq_of_lt hlt,
    ← Nat.shiftLeft_add_eq_or_of_lt hb4, Nat.shiftLeft_eq]

/-- A byte is its high half shifted up, or its low half. -/
theorem halves_or (v : UInt8) :
    UInt8.ofNat (v.toNat >>> 4) <<< 4 ||| UInt8.ofNat (v.toNat &&& 0x0f) = v := by
  have hv := v.toNat_lt
  have hhi : v.toNat >>> 4 = v.toNat / 16 := Nat.shiftRight_eq_div_pow v.toNat 4
  have hlo : v.toNat &&& 0x0f = v.toNat % 16 := Nat.and_two_pow_sub_one_eq_mod v.toNat 4
  rw [hhi, hlo, ← UInt8.toNat_inj, toNat_nibbles (by omega) (Nat.mod_lt _ (by decide))]
  omega

theorem decodeString_encodeToString (src : List UInt8) :
    decodeString (encodeToString src) = .ok src := by
  induction src with
  | nil => rfl
  | cons v src ih =>
    have hv := v.toNat_lt
    have hhi : v.toNat >>> 4 < 16 := by rw [Nat.shiftRight_eq_div_pow]; omega
    have hlo : v.toNat &&& 0x0f < 16 := Nat.lt_of_le_of_lt Nat.and_le_right (by decide)
    have ih' : decodeString (encodeToString src) = .ok src := ih
    simp only [encodeToString, List.flatMap_cons, List.cons_append, List.nil_append] at ih' ⊢
    rw [decodeString, fromHexChar_hextable ⟨_, hhi⟩, fromHexChar_hextable ⟨_, hlo⟩]
    simp only [ih']
    rw [halves_or]
    rfl

theorem length_encodeToString (src : List UInt8) :
    (encodeToString src).length = 2 * src.length := by
  induction src with
  | nil => rfl
  | cons v src ih => simp [encodeToString] at ih ⊢; omega

/-- Only the empty slice is its own hex text. -/
theorem encodeToString_eq_self_iff {src : List UInt8} : encodeToString src = src ↔ src = [] := by
  constructor
  · intro h
    have hlen := congrArg List.length h
    rw [length_encodeToString] at hlen
    exact List.eq_nil_of_length_eq_zero (by omega)
  · rintro rfl
    rfl

/-- Hex text is ASCII. -/
theorem toNat_lt_of_mem_encodeToString {src : List UInt8} {b : UInt8}
    (h : b ∈ encodeToString src) : b.toNat < 0x80 := by
  have hdigit : ∀ i, (hextable.getD i 0).toNat < 0x80 := by
    have hall : ∀ c ∈ hextable, c.toNat < 0x80 := by
      have h : hextable.all (fun c => decide (c.toNat < 0x80)) = true := by rfl
      exact fun c hc => of_decide_eq_true (List.all_eq_true.mp h c hc)
    intro i
    rw [List.getD_eq_getElem?_getD]
    cases h : hextable[i]? with
    | none => decide
    | some c => exact hall c (List.mem_of_getElem? h)
  simp only [encodeToString, List.mem_flatMap, List.mem_cons, List.not_mem_nil, or_false] at h
  obtain ⟨v, -, rfl | rfl⟩ := h
  · exact hdigit _
  · exact hdigit _

end GoStd.Hex
