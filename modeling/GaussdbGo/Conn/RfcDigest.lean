import GaussdbGo.Conn.Buf
import GaussdbGo.Lib.Utf8
import GaussdbGo.Lib.Hex

/-!
# gaussdbconn — `RFC5802Algorithm` and its helpers (`rfcdigest.go`)

The proof a client sends for the GaussDB SHA256 method: a key from PBKDF2
over the password and the server's salt, client and server keys from
HMAC-SHA256, and the client key XORed with an HMAC of the server's token,
written in lower-case hex.

The hashes, PBKDF2 and the case functions of package `strings` are the Go
library's, and are parameters here (`Primitives`); what the code relies on
about them, and what the proofs use, is that an HMAC-SHA256 sum is 32 bytes.
Go strings are their bytes.
-/

namespace GaussdbGo.Conn

open GoStd GaussdbGo.Proto

variable {ε : Type}

/-- The functions of the Go library that `rfcdigest.go` and `md5s` call. -/
structure Primitives where
  /-- `pbkdf2.Key(password, salt, iter, keyLen, sha1.New)` -/
  pbkdf2Key : Bytes → Bytes → Int → Nat → Bytes
  /-- `hmac.New(sha256.New, key)`, written `data`, summed -/
  hmacSha256 : Bytes → Bytes → Bytes
  sha256 : Bytes → Bytes
  sm3 : Bytes → Bytes
  md5 : Bytes → Bytes
  /-- `strings.ToUpper` -/
  toUpper : Bytes → Bytes
  /-- `strings.EqualFold` -/
  equalFold : Bytes → Bytes → Bool
  /-- an HMAC-SHA256 sum is 32 bytes -/
  length_hmacSha256 : ∀ key data, (hmacSha256 key data).length = 32

/-- `[]byte(s)`: the UTF-8 bytes of a string. -/
def bytesOf (s : String) : Bytes := Utf8.encodeString s.toList

/-- `charToByte(c)`: the place of `string(c)` in `"0123456789ABCDEF"` as a
byte. `string(c)` is the rune `U+00c`, so only an ASCII digit or upper-case
hex letter is found; `-1` becomes `255`. -/
def charToByte (c : UInt8) : UInt8 :=
  match (bytesOf "0123456789ABCDEF").idxOf? c with
  | some i => UInt8.ofNat i
  | none => 255

/-- The loop of `hexStringToBytes`: a byte from each pair of digits, for
`len(upperString) / 2` pairs. -/
def hexPairs : Bytes → Bytes
  | a :: b :: rest => (charToByte a <<< 4 ||| charToByte b) :: hexPairs rest
  | _ => []

def hexStringToBytes (P : Primitives) (hexString : Bytes) : Bytes :=
  if hexString = [] then [] else hexPairs (P.toUpper hexString)

def generateKFromPBKDF2 (P : Primitives) (password random64code : Bytes) (serverIteration : Int) :
    Bytes :=
  P.pbkdf2Key password (hexStringToBytes P random64code) serverIteration 32

/-- The digits of `bytesToHex` and of `%x`. -/
def hexLookup : Bytes := bytesOf "0123456789abcdef"

/-- `fmt.Sprintf("%x", v)` of a byte: its hex digits without padding. -/
def fmtHex (v : UInt8) : Bytes :=
  if v.toNat < 16 then [hexLookup.getD v.toNat 0]
  else [hexLookup.getD (v.toNat / 16) 0, hexLookup.getD (v.toNat % 16) 0]

/-- `bytesToHexString`: a byte below 16 is written as its digit then `0`. -/
def bytesToHexString (src : Bytes) : Bytes :=
  src.flatMap fun v =>
    let hv := fmtHex (v &&& 0xFF)
    if hv.length < 2 then hv ++ bytesOf "0" else hv

def getKeyFromHmac (P : Primitives) (key data : Bytes) : Bytes := P.hmacSha256 key data

def getSha256 (P : Primitives) (message : Bytes) : Bytes := P.sha256 message

def getSm3 (P : Primitives) (message : Bytes) : Bytes := P.sm3 message

/-- `XorBetweenPassword`: `password1[i] ^ password2[i]` for `i < length`,
each index checked. -/
def xorBetweenPassword (password1 password2 : Bytes) (length : Nat) : Go ε Bytes :=
  (List.range length).mapM fun (i : Nat) => do
    let a ← index password1 i
    let b ← index password2 i
    pure (a ^^^ b)

/-- `bytesToHex`: two lower-case digits a byte. -/
def bytesToHex (bytes : Bytes) : Bytes :=
  bytes.flatMap fun b =>
    let c := (b &&& 0xFF).toNat
    [hexLookup.getD (c >>> 4) 0, hexLookup.getD (c &&& 0xF) 0]

/-- `RFC5802Algorithm`. -/
def rfc5802Algorithm (P : Primitives) (password random64code token serverSignature : Bytes)
    (serverIteration : Int) (method : Bytes) : Go ε Bytes := do
  let k := generateKFromPBKDF2 P password random64code serverIteration
  let serverKey := getKeyFromHmac P k (bytesOf "Sever Key")
  let clientKey := getKeyFromHmac P k (bytesOf "Client Key")
  let storedKey :=
    if P.equalFold method (bytesOf "sha256") then getSha256 P clientKey
    else if P.equalFold method (bytesOf "sm3") then getSm3 P clientKey
    else []
  let tokenByte := hexStringToBytes P token
  let clientSignature := getKeyFromHmac P serverKey tokenByte
  if serverSignature ≠ [] ∧ serverSignature ≠ bytesToHexString clientSignature then pure []
  else
    let hmacResult := getKeyFromHmac P storedKey tokenByte
    let h ← xorBetweenPassword hmacResult clientKey clientKey.length
    pure (bytesToHex h)

/-- `md5s(s)`: the MD5 sum in lower-case hex; `%x` of a byte slice writes the
digits `bytesToHex` writes. -/
def md5s (P : Primitives) (s : Bytes) : Bytes := bytesToHex (P.md5 s)

/-! ## Widths -/

theorem length_bytesToHex (bytes : Bytes) : (bytesToHex bytes).length = 2 * bytes.length := by
  induction bytes with
  | nil => rfl
  | cons b bytes ih => simp [bytesToHex] at ih ⊢; omega

theorem zero_not_mem_hexLookup : (0 : UInt8) ∉ hexLookup := by decide

theorem getD_hexLookup_ne_zero {j : Nat} : hexLookup.getD j 0 ≠ 0 ∨ 16 ≤ j := by
  rcases Nat.lt_or_ge j 16 with h | h
  · left
    intro h0
    have hlen : hexLookup.length = 16 := by decide
    rw [List.getD_eq_getElem?_getD, List.getElem?_eq_getElem (by omega), Option.getD_some] at h0
    exact zero_not_mem_hexLookup (h0 ▸ List.getElem_mem _)
  · right; exact h

/-- Hex digits are never `0`, so a hex text ends at the terminator after it. -/
theorem zero_not_mem_bytesToHex (bytes : Bytes) : (0 : UInt8) ∉ bytesToHex bytes := by
  simp only [bytesToHex, List.mem_flatMap, List.mem_cons, List.not_mem_nil, or_false, not_exists,
    not_and]
  intro b _ h0
  have hc : (b &&& 0xFF).toNat < 256 := UInt8.toNat_lt _
  have hhi : (b &&& 0xFF).toNat >>> 4 < 16 := by rw [Nat.shiftRight_eq_div_pow]; omega
  have hlo : (b &&& 0xFF).toNat &&& 0xF < 16 := Nat.lt_of_le_of_lt Nat.and_le_right (by decide)
  rcases h0 with h0 | h0
  · rcases getD_hexLookup_ne_zero (j := (b &&& 0xFF).toNat >>> 4) with h | h
    · exact h h0.symm
    · omega
  · rcases getD_hexLookup_ne_zero (j := (b &&& 0xFF).toNat &&& 0xF) with h | h
    · exact h h0.symm
    · omega

theorem xorBetweenPassword_ok {password1 password2 : Bytes} {length : Nat}
    (h₁ : length ≤ password1.length) (h₂ : length ≤ password2.length) :
    ∃ h, (xorBetweenPassword password1 password2 length : Go ε Bytes) = .ok h ∧ h.length = length := by
  obtain ⟨h, hok, hlen⟩ := mapM_ok (l := List.range length)
    (f := fun (i : Nat) => (do
      let a ← index password1 i
      let b ← index password2 i
      pure (a ^^^ b) : Go ε UInt8)) (by
    intro i hi
    rw [List.mem_range] at hi
    refine ⟨password1[i] ^^^ password2[i], ?_⟩
    simp only [index_of_lt password1 i (by omega), index_of_lt password2 i (by omega), ok_bind]
    rfl)
  exact ⟨h, hok, by simpa using hlen⟩

/-- Without a server signature to check, the algorithm returns the hex of a
32-byte key: 64 digits, none of them `0`. -/
theorem rfc5802Algorithm_hex (P : Primitives) (password random64code token : Bytes)
    (serverIteration : Int) (method : Bytes) :
    ∃ result, (rfc5802Algorithm P password random64code token [] serverIteration method :
        Go ε Bytes) = .ok result ∧ result.length = 64 ∧ (0 : UInt8) ∉ result := by
  set clientKey := getKeyFromHmac P (generateKFromPBKDF2 P password random64code serverIteration)
    (bytesOf "Client Key")
  have hc : clientKey.length = 32 := P.length_hmacSha256 _ _
  set storedKey := if P.equalFold method (bytesOf "sha256") then getSha256 P clientKey
    else if P.equalFold method (bytesOf "sm3") then getSm3 P clientKey else []
  have hr : clientKey.length ≤ (getKeyFromHmac P storedKey (hexStringToBytes P token)).length := by
    rw [getKeyFromHmac, P.length_hmacSha256]; omega
  obtain ⟨h, hok, hlen⟩ := @xorBetweenPassword_ok ε _ _ _ hr (Nat.le_refl _)
  refine ⟨bytesToHex h, ?_, by rw [length_bytesToHex, hlen, hc], zero_not_mem_bytesToHex h⟩
  simp only [rfc5802Algorithm, ne_eq, not_true_eq_false, false_and, if_false]
  rw [hok]
  rfl


/-! ## The two hex encoders and `hexStringToBytes` -/

/-- What `strings.ToUpper` does to an ASCII byte: `a`–`z` become `A`–`Z`. -/
def asciiToUpper (c : UInt8) : UInt8 := if 97 ≤ c ∧ c ≤ 122 then c - 32 else c

/-- The hex digit of a value below 16. -/
def hexDigit (i : Nat) : UInt8 := hexLookup.getD i 0

theorem hexDigit_lt (i : Nat) : hexDigit i < 128 := by
  have hall : ∀ c ∈ hexLookup, c < 128 := by
    have h : hexLookup.all (fun c => decide (c < 128)) = true := by rfl
    exact fun c hc => of_decide_eq_true (List.all_eq_true.mp h c hc)
  unfold hexDigit
  rw [List.getD_eq_getElem?_getD]
  cases h : hexLookup[i]? with
  | none => decide
  | some c => exact hall c (List.mem_of_getElem? h)

/-- Each digit, upper-cased, is found at its own place in `0123456789ABCDEF`. -/
theorem charToByte_hexDigit : ∀ i : Fin 16, charToByte (asciiToUpper (hexDigit i)) = UInt8.ofNat i := by
  decide

theorem and_0xFF (v : UInt8) : v &&& 0xFF = v := by
  rw [← UInt8.toNat_inj, UInt8.toNat_and]
  exact (Nat.and_two_pow_sub_one_eq_mod v.toNat 8).trans (Nat.mod_eq_of_lt v.toNat_lt)

theorem bytesToHex_eq (b : Bytes) :
    bytesToHex b = b.flatMap fun v => [hexDigit (v.toNat / 16), hexDigit (v.toNat % 16)] := by
  unfold bytesToHex
  congr 1
  funext v
  dsimp only
  rw [and_0xFF, Nat.shiftRight_eq_div_pow,
    show v.toNat &&& 0xF = v.toNat % 16 from Nat.and_two_pow_sub_one_eq_mod v.toNat 4]
  rfl

/-- `bytesToHexString` writes a byte below 16 as its digit then `0`, and the
others as `bytesToHex` does. -/
theorem bytesToHexString_eq (b : Bytes) :
    bytesToHexString b = b.flatMap fun v =>
      [if v.toNat < 16 then hexDigit v.toNat else hexDigit (v.toNat / 16),
        if v.toNat < 16 then 48 else hexDigit (v.toNat % 16)] := by
  have hzero : bytesOf "0" = [48] := by decide
  unfold bytesToHexString
  congr 1
  funext v
  by_cases hv : v.toNat < 16
  · simp [and_0xFF, fmtHex, hv, hexDigit, hzero]
  · simp [and_0xFF, fmtHex, hv, hexDigit]

/-- The two digits of a byte read back as that byte. -/
theorem byte_of_hexDigits (v : UInt8) :
    charToByte (asciiToUpper (hexDigit (v.toNat / 16))) <<< 4 |||
      charToByte (asciiToUpper (hexDigit (v.toNat % 16))) = v := by
  have hv := v.toNat_lt
  have hhi : v.toNat / 16 < 16 := by omega
  have hlo : v.toNat % 16 < 16 := Nat.mod_lt _ (by decide)
  rw [charToByte_hexDigit ⟨_, hhi⟩, charToByte_hexDigit ⟨_, hlo⟩, ← UInt8.toNat_inj,
    Hex.toNat_nibbles hhi hlo]
  omega

/-- The `0` that `bytesToHexString` writes after a low byte reads back as nothing. -/
theorem charToByte_zero : charToByte (asciiToUpper 48) = 0 := by decide

/-- A low byte's digit then `0` is the two digits of `bytesToHex` only for the byte `0`. -/
theorem hexDigits_low (v : UInt8) (hv : v.toNat < 16) :
    (hexDigit v.toNat = hexDigit (v.toNat / 16) ∧ (48 : UInt8) = hexDigit (v.toNat % 16)) ↔
      v = 0 := by
  have hdigits : ∀ i : Fin 16, (hexDigit i = hexDigit 0 ∧ (48 : UInt8) = hexDigit i) ↔ (i : Nat) = 0 := by
    decide
  rw [Nat.div_eq_of_lt hv, Nat.mod_eq_of_lt hv, hdigits ⟨v.toNat, hv⟩, ← UInt8.toNat_inj]
  rfl

/-- Two flat maps writing two bytes an element are equal exactly when they
write the same two bytes for each element. -/
theorem flatMap_pair_eq_iff {α β : Type} (f g f' g' : α → β) (xs : List α) :
    (xs.flatMap fun v => [f v, g v]) = (xs.flatMap fun v => [f' v, g' v]) ↔
      ∀ v ∈ xs, f v = f' v ∧ g v = g' v := by
  induction xs with
  | nil => simp
  | cons x xs ih => simp [ih, and_assoc]

/-- `hexPairs` of upper-cased pairs reads each pair back as one byte. -/
theorem hexPairs_pairs (f g : UInt8 → UInt8) (b : Bytes) :
    hexPairs ((b.flatMap fun v => [f v, g v]).map asciiToUpper) =
      b.map fun v => charToByte (asciiToUpper (f v)) <<< 4 ||| charToByte (asciiToUpper (g v)) := by
  induction b with
  | nil => rfl
  | cons v b ih => simp only [List.flatMap_cons, List.cons_append, List.nil_append, List.map_cons,
      hexPairs, ih]

theorem hexStringToBytes_pairs (P : Primitives)
    (hup : ∀ s : Bytes, (∀ c ∈ s, c < 128) → P.toUpper s = s.map asciiToUpper)
    (f g : UInt8 → UInt8) (hf : ∀ v, f v < 128) (hg : ∀ v, g v < 128) (b : Bytes) :
    hexStringToBytes P (b.flatMap fun v => [f v, g v]) =
      b.map fun v => charToByte (asciiToUpper (f v)) <<< 4 ||| charToByte (asciiToUpper (g v)) := by
  unfold hexStringToBytes
  split_ifs with h
  · rw [List.flatMap_eq_nil_iff] at h
    cases b with
    | nil => rfl
    | cons v b => exact absurd (h v (by simp)) (by simp)
  · have hascii : ∀ c ∈ b.flatMap fun v => [f v, g v], c < 128 := by
      intro c hc
      simp only [List.mem_flatMap, List.mem_cons, List.not_mem_nil, or_false] at hc
      obtain ⟨v, -, rfl | rfl⟩ := hc
      · exact hf v
      · exact hg v
    rw [hup _ hascii, hexPairs_pairs]

/-- `bytesToHex` is read back by `hexStringToBytes`; `bytesToHexString`
agrees with it exactly on the bytes that are `0` or at least 16, and a byte
`v` below 16 comes back as `v << 4`. -/
theorem bytesToHexString_low_bytes (P : Primitives)
    (hup : ∀ s : Bytes, (∀ c ∈ s, c < 128) → P.toUpper s = s.map asciiToUpper) (b : Bytes) :
    hexStringToBytes P (bytesToHex b) = b ∧
      hexStringToBytes P (bytesToHexString b) =
        b.map (fun (v : UInt8) => if v.toNat < 16 then v <<< 4 else v) ∧
      (bytesToHexString b = bytesToHex b ↔ ∀ v ∈ b, v = 0 ∨ 16 ≤ v.toNat) := by
  have hlow : ∀ v : UInt8, (if v.toNat < 16 then hexDigit v.toNat else hexDigit (v.toNat / 16)) < 128 :=
    fun v => by split <;> exact hexDigit_lt _
  have hzero : ∀ v : UInt8, (if v.toNat < 16 then 48 else hexDigit (v.toNat % 16)) < 128 :=
    fun v => by split; · decide
                exact hexDigit_lt _
  refine ⟨?_, ?_, ?_⟩
  · rw [bytesToHex_eq, hexStringToBytes_pairs P hup _ _ (fun v => hexDigit_lt _)
      (fun v => hexDigit_lt _)]
    simp [byte_of_hexDigits]
  · rw [bytesToHexString_eq, hexStringToBytes_pairs P hup _ _ hlow hzero]
    apply List.map_congr_left
    intro v _
    by_cases hv : v.toNat < 16
    · simp only [hv, if_true, charToByte_hexDigit ⟨v.toNat, hv⟩, charToByte_zero, UInt8.or_zero,
        UInt8.ofNat_toNat]
    · simp only [hv, if_false, byte_of_hexDigits]
  · rw [bytesToHexString_eq, bytesToHex_eq, flatMap_pair_eq_iff]
    refine forall₂_congr fun v _ => ?_
    by_cases hv : v.toNat < 16
    · simp only [hv, if_true, Nat.not_le.mpr hv, or_false]
      exact hexDigits_low v hv
    · simp only [hv, if_false, true_and, Nat.le_of_not_lt hv, or_true]

/-- Library functions for the case `strings.ToUpper` sees only ASCII: it
upper-cases `a`–`z`; the sums are zero bytes of their widths. -/
def asciiPrimitives : Primitives where
  pbkdf2Key _ _ _ keyLen := List.replicate keyLen 0
  hmacSha256 _ _ := List.replicate 32 0
  sha256 _ := List.replicate 32 0
  sm3 _ := List.replicate 32 0
  md5 _ := List.replicate 16 0
  toUpper s := s.map asciiToUpper
  equalFold a b := a.map asciiToUpper == b.map asciiToUpper
  length_hmacSha256 _ _ := List.length_replicate

/-- The byte `5`: `bytesToHex` writes `05`, `bytesToHexString` writes `50`,
which reads back as `0x50`. -/
theorem bytesToHexString_low_bytes_five :
    bytesToHex [5] = [48, 53] ∧ bytesToHexString [5] = [53, 48] ∧
      hexStringToBytes asciiPrimitives (bytesToHexString [5]) = [80] :=
  have h := bytesToHexString_low_bytes asciiPrimitives (fun _ _ => rfl) [5]
  ⟨by decide, by decide, h.2.1.trans (by decide)⟩


end GaussdbGo.Conn
