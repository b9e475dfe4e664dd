import GaussdbGo.Lib.Binary
import GaussdbGo.Lib.Bytes
import GaussdbGo.Lib.Strconv

/-!
# gaussdbtype — `numeric` values

A `Numeric` is `Int * 10^Exp`, or NaN or an infinity. In binary it is a
header of four 16-bit fields (the digit count, the weight of the first digit,
the sign and the display scale) and then base-10000 digits, most significant
first; in text it is the decimal number written out, or `NaN`, `Infinity`,
`-Infinity`.

`encodeNumericBinary` first makes the exponent a multiple of 4 (with Go's
truncated `%`), then splits the scaled magnitude into whole and fractional
base-10000 digits, the fractional ones read off `frac + divisor` so that their
leading zeros survive. The binary scanner regroups the digits four at a time
into an `int64`, rescales by the difference between the display scale and
the fractional digit count (computed in `int16`), and strips trailing zeros
when the exponent is not negative. The text scanner strips trailing zeros of
a number without a point, or reads the point's position as the exponent.

`big.Int` values are integers (`ℤ`); the magnitudes the loops work on are
natural numbers. The `int16` and `uint16` header arithmetic is kept, through
`toInt16` and `% 65536`; the `int32` exponent arithmetic of the scanner stays
within `int32` on every input and is done in `ℤ`, converted once. A loop that
multiplies or divides by ten `k` times is one multiplication or division by
`10^k`.
-/

namespace GaussdbGo.Gaussdbtype

open GoStd GoStd.BigEndian GoStd.Strconv

/-- `InfinityModifier`, an `int8`. -/
abbrev InfinityModifier := Int8

/-- `Infinity`. -/
def Infinity : InfinityModifier := 1

/-- `Finite`. -/
def Finite : InfinityModifier := 0

/-- `NegativeInfinity`. -/
def NegativeInfinity : InfinityModifier := -1

/-- A `Numeric`; `Int` is `none` for a nil `*big.Int`. -/
structure Numeric where
  Int : Option ℤ
  Exp : Int32
  NaN : Bool
  InfinityModifier : InfinityModifier
  Valid : Bool
  deriving DecidableEq, Repr

/-- `Numeric{}`. -/
def Numeric.zero : Numeric :=
  { Int := none, Exp := 0, NaN := false, InfinityModifier := Finite, Valid := false }

/-- `nbase`: the base of the binary digits. -/
def nbase : Nat := 10000

def gaussdbNumericNaN : UInt64 := 0x00000000c0000000
def gaussdbNumericNaNSign : Nat := 0xc000
def gaussdbNumericPosInf : UInt64 := 0x00000000d0000000
def gaussdbNumericPosInfSign : Nat := 0xd000
def gaussdbNumericNegInf : UInt64 := 0x00000000f0000000
def gaussdbNumericNegInfSign : Nat := 0xf000

/-- `int16(x)`: the low 16 bits of `x`, two's complement. -/
def toInt16 (x : ℤ) : ℤ := x.bmod 65536

/-- `gaussdbio.AppendInt16(buf, n)`. -/
def appendInt16 (buf : List UInt8) (n : ℤ) : List UInt8 := buf ++ putUint16 (UInt16.ofInt n)

/-- The errors of the numeric scanners. -/
inductive NumericError where
  /-- `numeric incomplete %v` -/
  | incomplete (src : List UInt8)
  /-- `invalid digitsRead: %d (this can't happen)` -/
  | invalidDigitsRead (digitsRead : Nat)
  /-- `%s is not a number` -/
  | notANumber (str : List UInt8)
  deriving DecidableEq, Repr

/-! ## `encodeNumericBinary` -/

/-- The `switch n.Exp % 4` of `encodeNumericBinary`: the exponent lowered to a
multiple of 4, and the magnitude scaled to keep the value. -/
def normalizeExp (absInt : Nat) (exp : ℤ) : Nat × ℤ :=
  let r := exp.tmod 4
  if r = 1 ∨ r = -3 then (absInt * 10, exp - 1)
  else if r = 2 ∨ r = -2 then (absInt * 100, exp - 2)
  else if r = 3 ∨ r = -1 then (absInt * 1000, exp - 3)
  else (absInt, exp)

/-- `for wholePart.Cmp(big0) != 0 { wholePart.DivMod(wholePart, bigNBase, remainder); ... }`:
the base-10000 digits of `wholePart`, least significant first. -/
def wholeDigitsLoop : Nat → List Nat
  | 0 => []
  | w + 1 => ((w + 1) % nbase) :: wholeDigitsLoop ((w + 1) / nbase)
decreasing_by exact Nat.div_lt_self (Nat.succ_pos w) (by decide)

/-- `for fracPart.Cmp(big1) != 0 { ... }`: the digits of `fracPart` below its
leading `1`, least significant first. The loop is entered with `fracPart` a
power of 10000 plus less than it; from `0`, which it never meets there, Go
would not stop, and the model does. -/
def fracDigitsLoop : Nat → List Nat
  | 0 => []
  | 1 => []
  | f + 2 => ((f + 2) % nbase) :: fracDigitsLoop ((f + 2) / nbase)
decreasing_by exact Nat.div_lt_self (by omega) (by decide)

/-- The local variables of `encodeNumericBinary` once its digits are computed. -/
structure NumericDigits where
  /-- `exp`, a multiple of 4 -/
  exp : ℤ
  wholeDigits : List Nat
  fracDigits : List Nat
  deriving DecidableEq, Repr

/-- The digits `encodeNumericBinary` computes for `Int = int`, `Exp = exp`. -/
def numericDigits (int exp : ℤ) : NumericDigits :=
  let (absInt, exp) := normalizeExp int.natAbs exp
  let (wholePart, fracPart) :=
    if exp < 0 then
      let divisor := 10 ^ (-exp).toNat
      (absInt / divisor, absInt % divisor + divisor)
    else (absInt, 0)
  { exp := exp
    wholeDigits := wholeDigitsLoop wholePart
    fracDigits := if fracPart ≠ 0 then fracDigitsLoop fracPart else [] }

/-- `weight`, before it is cut to `int16` (the `int16` additions of the Go code
wrap the same way as one conversion at the end). -/
def NumericDigits.weight (d : NumericDigits) : ℤ :=
  if 0 < d.wholeDigits.length then
    (d.wholeDigits.length - 1 : ℤ) + (if 0 < d.exp then d.exp.tdiv 4 else 0)
  else d.exp.tdiv 4 - 1 + d.fracDigits.length

/-- `dscale`, before it is cut to `int16`. -/
def dscaleOf (exp : ℤ) : ℤ := if exp < 0 then -exp else 0

/-- The header fields fit their slots: the digit count in a `uint16`, the
weight and the display scale in an `int16`. -/
def NumericHeaderFits (int exp : ℤ) : Prop :=
  (numericDigits int exp).wholeDigits.length + (numericDigits int exp).fracDigits.length < 65536 ∧
    -32768 ≤ (numericDigits int exp).weight ∧ (numericDigits int exp).weight ≤ 32767 ∧
    dscaleOf exp ≤ 32767

instance (int exp : ℤ) : Decidable (NumericHeaderFits int exp) :=
  inferInstanceAs (Decidable (_ ∧ _))

/-- `encodeNumericBinary(n, buf)`; the buffer is `none` for the nil slice of
an invalid value, and a valid finite value with a nil `Int` panics. -/
def encodeNumericBinary (n : Numeric) (buf : List UInt8) : Go Empty (Option (List UInt8)) :=
  if ¬ n.Valid then .ok none
  else if n.NaN then .ok (some (buf ++ putUint64 gaussdbNumericNaN))
  else if n.InfinityModifier = Infinity then .ok (some (buf ++ putUint64 gaussdbNumericPosInf))
  else if n.InfinityModifier = NegativeInfinity then .ok (some (buf ++ putUint64 gaussdbNumericNegInf))
  else
    match n.Int with
    | none => crash .nilDereference
    | some int =>
      let sign : ℤ := if int < 0 then 16384 else 0
      let d := numericDigits int n.Exp.toInt
      let buf := appendInt16 buf (d.wholeDigits.length + d.fracDigits.length)
      let buf := appendInt16 buf (toInt16 d.weight)
      let buf := appendInt16 buf sign
      let buf := appendInt16 buf (toInt16 (dscaleOf n.Exp.toInt))
      -- the whole digits, then the fractional ones, most significant first
      let buf := d.wholeDigits.reverse.foldl (fun buf (x : Nat) => appendInt16 buf x) buf
      .ok (some (d.fracDigits.reverse.foldl (fun buf (x : Nat) => appendInt16 buf x) buf))

/-! ## `scanPlanBinaryNumericToNumericScanner` -/

/-- `binary.BigEndian.Uint16` of two bytes, as a number. -/
def be16 (b₀ b₁ : UInt8) : Nat := b₀.toNat * 256 + b₁.toNat

/-- The digit loop of `nbaseDigitsToInt64`: `k` digits of `src`, each added to
the accumulator times `nbase` (the first to zero, where Go skips the
multiplication). -/
def nbaseDigitsAccum : Nat → List UInt8 → Nat → Nat
  | k + 1, b₀ :: b₁ :: rest, accum => nbaseDigitsAccum k rest (accum * nbase + be16 b₀ b₁)
  | _, _, accum => accum

/-- `nbaseDigitsToInt64(src)`: up to four digits as one number, the bytes and
the digits read. -/
def nbaseDigitsToInt64 (src : List UInt8) : Nat × Nat × Nat :=
  let digits := min (src.length / 2) 4
  (nbaseDigitsAccum digits src 0, 2 * digits, digits)

/-- The `for i := 0; i < int(ndigits+3)/4; i++` loop, `groups` iterations
from the first one (`first`), over `src[rp:]`. -/
def accumDigits : Nat → Bool → List UInt8 → Nat → Except NumericError Nat
  | 0, _, _, accum => .ok accum
  | groups + 1, first, src, accum =>
    let (int64accum, bytesRead, digitsRead) := nbaseDigitsToInt64 src
    let scaled : Except NumericError Nat :=
      if first then .ok accum
      else if digitsRead = 1 then .ok (accum * nbase)
      else if digitsRead = 2 then .ok (accum * nbase ^ 2)
      else if digitsRead = 3 then .ok (accum * nbase ^ 3)
      else if digitsRead = 4 then .ok (accum * nbase ^ 4)
      else .error (.invalidDigitsRead digitsRead)
    match scaled with
    | .error e => .error e
    | .ok accum => accumDigits groups false (src.drop bytesRead) (accum + int64accum)

/-- The `if dscale > 0` block: `accum` multiplied or divided by ten as many
times as `dscale` and the fractional decimal digits differ, both `int16`. -/
def rescale (ndigits : Nat) (weight dscale : ℤ) (accum : Nat) (exp : ℤ) : Nat × ℤ :=
  if 0 < dscale then
    let fracNBaseDigits := toInt16 (ndigits - weight - 1)
    let fracDecimalDigits := toInt16 (fracNBaseDigits * 4)
    if fracDecimalDigits < dscale then
      let multCount := (toInt16 (dscale - fracDecimalDigits)).toNat
      (accum * 10 ^ multCount, exp - multCount)
    else if dscale < fracDecimalDigits then
      let divCount := (toInt16 (fracDecimalDigits - dscale)).toNat
      (accum / 10 ^ divCount, exp + divCount)
    else (accum, exp)
  else (accum, exp)

/-- The `if exp >= 0 { for { ... } }` loop: trailing zeros of `accum` moved
into `exp`. On `0` the Go loop never ends, which `none` stands for. -/
def stripTrailingZeros (accum : Nat) (exp : ℤ) : Option (Nat × ℤ) :=
  if h : accum = 0 then none
  else if accum % 10 = 0 then stripTrailingZeros (accum / 10) (exp + 1)
  else some (accum, exp)
termination_by accum
decreasing_by exact Nat.div_lt_self (Nat.pos_of_ne_zero h) (by decide)

/-- `scanPlanBinaryNumericToNumericScanner.Scan(src, dst)`: what it stores in
`dst`, or its error; `none` when it never returns. -/
def scanPlanBinaryNumericToNumericScanner : Option (List UInt8) → Option (Go NumericError Numeric)
  | none => some (.ok Numeric.zero)
  | some src =>
    match src with
    | n₀ :: n₁ :: w₀ :: w₁ :: s₀ :: s₁ :: d₀ :: d₁ :: rest =>
      let ndigits := be16 n₀ n₁
      let weight := toInt16 (be16 w₀ w₁)
      let sign := be16 s₀ s₁
      let dscale := toInt16 (be16 d₀ d₁)
      if sign = gaussdbNumericNaNSign then some (.ok { Numeric.zero with NaN := true, Valid := true })
      else if sign = gaussdbNumericPosInfSign then
        some (.ok { Numeric.zero with InfinityModifier := Infinity, Valid := true })
      else if sign = gaussdbNumericNegInfSign then
        some (.ok { Numeric.zero with InfinityModifier := NegativeInfinity, Valid := true })
      else if ndigits = 0 then some (.ok { Numeric.zero with Int := some 0, Valid := true })
      else if rest.length < ndigits * 2 then some (raise (.incomplete src))
      else
        match accumDigits ((ndigits + 3) % 65536 / 4) true rest 0 with
        | .error e => some (raise e)
        | .ok accum =>
          let scaled := rescale ndigits weight dscale accum ((weight - ndigits + 1) * 4)
          let stripped := if 0 ≤ scaled.2 then stripTrailingZeros scaled.1 scaled.2 else some scaled
          stripped.map fun (accum, exp) =>
            .ok { Numeric.zero with
              Int := some (if sign ≠ 0 then -(accum : ℤ) else accum), Exp := Int32.ofInt exp,
              Valid := true }
    | _ => some (raise (.incomplete src))

/-! ## Text -/

/-- `numberTextBytes` on the decimal text `intStr` of `n.Int` and `exp = n.Exp`. -/
def numberTextBytes (intStr : List UInt8) (exp : ℤ) : List UInt8 :=
  let (sign, intStr) : List UInt8 × List UInt8 := match intStr with
    | 45 :: s => ([45], s)
    | s => ([], s)
  sign ++
    if 0 < exp then intStr ++ List.replicate exp.toNat 48
    else if exp < 0 then
      if intStr.length ≤ -exp then
        ([48, 46] : List UInt8) ++ List.replicate ((-exp).toNat - intStr.length) 48 ++ intStr
      else
        let dpPos := (intStr.length + exp).toNat
        intStr.take dpPos ++ [46] ++ intStr.drop dpPos
    else intStr

/-- `n.Int.String()`: `<nil>` for a nil `*big.Int`. -/
def bigIntString : Option ℤ → List UInt8
  | none => [60, 110, 105, 108, 62]
  | some int => itoa int

/-- `encodeNumericText(n, buf)`. -/
def encodeNumericText (n : Numeric) (buf : List UInt8) : Option (List UInt8) :=
  if ¬ n.Valid then none
  else if n.NaN then some (buf ++ [78, 97, 78])
  else if n.InfinityModifier = Infinity then some (buf ++ [73, 110, 102, 105, 110, 105, 116, 121])
  else if n.InfinityModifier = NegativeInfinity then
    some (buf ++ [45, 73, 110, 102, 105, 110, 105, 116, 121])
  else some (buf ++ numberTextBytes (bigIntString n.Int) n.Exp.toInt)

/-- `new(big.Int).SetString(s, 10)`: an optional sign, then one or more
decimal digits and nothing else. -/
def setString (s : List UInt8) : Option ℤ :=
  let (neg, ds) := match s with
    | 45 :: ds => (true, ds)
    | 43 :: ds => (false, ds)
    | ds => (false, ds)
  if ds ≠ [] ∧ ∀ d ∈ ds, IsDecimalDigit d then
    some (if neg then -(digitsValue ds : ℤ) else digitsValue ds)
  else none

/-- The `for len(str) > 1 && str[len(str)-1] == '0' && str[len(str)-2] != '-'`
loop of `parseNumericString`. -/
def trimTrailingZeros (str : List UInt8) (exp : ℤ) : List UInt8 × ℤ :=
  if h : 1 < str.length ∧ str.getLast? = some 48 ∧ str[str.length - 2]? ≠ some 45 then
    trimTrailingZeros str.dropLast (exp + 1)
  else (str, exp)
termination_by str.length
decreasing_by simp only [List.length_dropLast]; omega

/-- `parseNumericString(str)`. -/
def parseNumericString (str : List UInt8) : Go NumericError (ℤ × Int32) :=
  let idx := indexByte str 46
  let (str, exp) :=
    if idx = -1 then trimTrailingZeros str 0
    else (str.take idx.toNat ++ str.drop (idx.toNat + 1), -((str.length : ℤ) - idx - 1))
  match setString str with
  | none => raise (.notANumber str)
  | some accum => .ok (accum, Int32.ofInt exp)

/-- `scanPlanTextAnyToNumericScanner.Scan(src, dst)`: what it stores in `dst`,
or its error. -/
def scanPlanTextAnyToNumericScanner : Option (List UInt8) → Go NumericError Numeric
  | none => .ok Numeric.zero
  | some src =>
    if src = [78, 97, 78] then .ok { Numeric.zero with NaN := true, Valid := true }
    else if src = [73, 110, 102, 105, 110, 105, 116, 121] then
      .ok { Numeric.zero with InfinityModifier := Infinity, Valid := true }
    else if src = [45, 73, 110, 102, 105, 110, 105, 116, 121] then
      .ok { Numeric.zero with InfinityModifier := NegativeInfinity, Valid := true }
    else
      match parseNumericString src with
      | .error e => .error e
      | .ok (num, exp) => .ok { Numeric.zero with Int := some num, Exp := exp, Valid := true }

/-! ## What a numeric stands for -/

/-- The value of a numeric: SQL `NULL`, NaN, an infinity, or a rational. -/
inductive NumericValue where
  | null
  | nan
  | infinity
  | negativeInfinity
  | finite (q : ℚ)
  deriving DecidableEq

/-- What `n` stands for, its fields read with the precedence the encoders
give them (`Valid`, `NaN`, `InfinityModifier`, then `Int * 10^Exp`); `none`
for a valid finite numeric with a nil `Int`, which no encoder can write. -/
def Numeric.denote (n : Numeric) : Option NumericValue :=
  if ¬ n.Valid then some .null
  else if n.NaN then some .nan
  else if n.InfinityModifier = Infinity then some .infinity
  else if n.InfinityModifier = NegativeInfinity then some .negativeInfinity
  else n.Int.map fun int => .finite (int * 10 ^ n.Exp.toInt)

/-- The numerics whose binary header fits: the special values, and the
finite ones with a non-nil `Int` whose digit count, weight and display scale
fit their 16-bit slots. -/
def Numeric.HeaderFits (n : Numeric) : Prop :=
  n.NaN = true ∨ n.InfinityModifier = Infinity ∨ n.InfinityModifier = NegativeInfinity ∨
    ∃ int, n.Int = some int ∧ NumericHeaderFits int n.Exp.toInt

instance (n : Numeric) : Decidable n.HeaderFits :=
  match h : n.Int with
  | some int =>
    decidable_of_iff (n.NaN = true ∨ n.InfinityModifier = Infinity ∨
        n.InfinityModifier = NegativeInfinity ∨ NumericHeaderFits int n.Exp.toInt)
      (by simp [Numeric.HeaderFits, h])
  | none =>
    decidable_of_iff (n.NaN = true ∨ n.InfinityModifier = Infinity ∨
        n.InfinityModifier = NegativeInfinity)
      (by simp [Numeric.HeaderFits, h])

/-- A valid finite numeric stands for `Int * 10^Exp`. -/
theorem Numeric.denote_finite {n : Numeric} {int : ℤ} (hv : n.Valid = true) (hnan : n.NaN = false)
    (hpos : n.InfinityModifier ≠ Infinity) (hneg : n.InfinityModifier ≠ NegativeInfinity)
    (hint : n.Int = some int) : n.denote = some (.finite (int * 10 ^ n.Exp.toInt)) := by
  simp [Numeric.denote, hv, hnan, hpos, hneg, hint]

/-- What the scanners store for a finite number, its exponent within `int32`. -/
theorem Numeric.denote_scanned {int x : ℤ} (h₁ : -2 ^ 31 ≤ x) (h₂ : x < 2 ^ 31) :
    ({ Numeric.zero with Int := some int, Exp := Int32.ofInt x, Valid := true } : Numeric).denote =
      some (.finite (int * 10 ^ x)) := by
  simp [Numeric.denote, Numeric.zero, Finite, Infinity, NegativeInfinity,
    Int32.toInt_ofInt_of_le h₁ h₂]

end GaussdbGo.Gaussdbtype
