import Mathlib
import GaussdbGo.Gaussdbtype.Numeric

/-!
# gaussdbtype — the binary `numeric` codec keeps the value

`encodeNumericBinary` writes `|Int|` scaled to the exponent lowered to a
multiple of 4 (`scaledMagnitude`), as `fracCount` fractional and some whole
base-10000 digits; `numericDigits_spec` says what those digits are in terms
of Mathlib's `Nat.digits` and `Nat.ofDigits`. The scanner reads the header
fields back (`be16_ofInt`, `toInt16_read`) and the digits as one number
(`accumDigits_digitBytes`), so that it starts from the same magnitude and
lowered exponent (`scan_encodeNumericBinary`). Its rescaling then gives the
exponent back (`rescale_exact`), except with 8192 fractional digits, where
the `int16` decimal count wraps and the lowered exponent stays
(`rescale_wrapped`); a lowered exponent that is not negative takes the
trailing zeros (`stripTrailingZeros_spec`). Either way the value is kept
(`scanBinary_encodeNumericBinary_finite`).
-/

namespace GaussdbGo.Gaussdbtype

open GoStd GoStd.BigEndian

/-! ## The digits the encoder computes -/

/-- Go's truncated `%` and the case pairs `1, -3` … of `encodeNumericBinary`
amount to the Euclidean remainder: the exponent is lowered to the multiple of
4 below it. -/
theorem normalizeExp_eq (m : Nat) (E : ℤ) :
    normalizeExp m E = (m * 10 ^ (E % 4).toNat, E - E % 4) := by
  have ht : E.tmod 4 = E % 4 ∨ E.tmod 4 = E % 4 - 4 := by
    rw [Int.tmod_eq_emod]
    split_ifs <;> simp
  have hz : E % 4 = 0 → E.tmod 4 = 0 := fun h => by
    rw [Int.tmod_eq_emod, if_pos (Or.inr (Int.dvd_of_emod_eq_zero h)), h]; rfl
  obtain h | h | h | h : E % 4 = 0 ∨ E % 4 = 1 ∨ E % 4 = 2 ∨ E % 4 = 3 := by omega
  all_goals
    simp only [normalizeExp, h]
    split_ifs <;> simp <;> omega

theorem wholeDigitsLoop_eq_digits (w : Nat) : wholeDigitsLoop w = Nat.digits nbase w := by
  fun_induction wholeDigitsLoop w with
  | case1 => simp
  | case2 w ih =>
    rw [Nat.digits_def' (by decide) (Nat.succ_pos w), ih]

theorem fracDigitsLoop_spec (k r : Nat) (hr : r < nbase ^ k) :
    (fracDigitsLoop (nbase ^ k + r)).length = k ∧
      Nat.ofDigits nbase (fracDigitsLoop (nbase ^ k + r)) = r ∧
      ∀ x ∈ fracDigitsLoop (nbase ^ k + r), x < nbase := by
  induction k generalizing r with
  | zero =>
    obtain rfl : r = 0 := by simpa using hr
    simp [fracDigitsLoop]
  | succ k ih =>
    -- one step of the loop takes the lowest digit of `r` off
    have hP : nbase ^ (k + 1) = nbase * nbase ^ k := pow_succ' _ _
    have hr' : r / nbase < nbase ^ k := Nat.div_lt_of_lt_mul (hP ▸ hr)
    have hstep : fracDigitsLoop (nbase ^ (k + 1) + r) =
        r % nbase :: fracDigitsLoop (nbase ^ k + r / nbase) := by
      have h2 : 2 ≤ nbase ^ (k + 1) := by
        rw [hP]
        exact le_trans (by decide : 2 ≤ nbase) (Nat.le_mul_of_pos_right _ (Nat.pow_pos (by decide)))
      obtain ⟨f, hf⟩ : ∃ f, nbase ^ (k + 1) + r = f + 2 := ⟨nbase ^ (k + 1) + r - 2, by omega⟩
      rw [hf, fracDigitsLoop, ← hf, hP, Nat.mul_add_mod, Nat.mul_add_div (by decide)]
    obtain ⟨hlen, hval, hlt⟩ := ih (r / nbase) hr'
    refine ⟨by simp [hstep, hlen], ?_, ?_⟩
    · rw [hstep, Nat.ofDigits_cons, hval, Nat.mod_add_div]
    · rw [hstep]
      intro x hx
      rcases List.mem_cons.mp hx with rfl | hx
      · exact Nat.mod_lt _ (by decide)
      · exact hlt x hx

/-- The magnitude `encodeNumericBinary` splits into digits: `|Int|` scaled to
the lowered exponent. -/
def scaledMagnitude (int exp : ℤ) : Nat := int.natAbs * 10 ^ (exp % 4).toNat

/-- The number of fractional base-10000 digits: minus a quarter of the
lowered exponent, or none when it is not negative. -/
def fracCount (exp : ℤ) : Nat := (-(exp / 4)).toNat

theorem ten_pow_fracCount (exp : ℤ) : 10 ^ (4 * fracCount exp) = nbase ^ fracCount exp := by
  rw [pow_mul]
  rfl

theorem numericDigits_spec (int exp : ℤ) :
    (numericDigits int exp).exp = exp - exp % 4 ∧
      (numericDigits int exp).wholeDigits =
        Nat.digits nbase (scaledMagnitude int exp / nbase ^ fracCount exp) ∧
      (numericDigits int exp).fracDigits.length = fracCount exp ∧
      Nat.ofDigits nbase (numericDigits int exp).fracDigits =
        scaledMagnitude int exp % nbase ^ fracCount exp ∧
      ∀ x ∈ (numericDigits int exp).fracDigits, x < nbase := by
  have hm : int.natAbs * 10 ^ (exp % 4).toNat = scaledMagnitude int exp := rfl
  simp only [numericDigits, normalizeExp_eq, hm]
  by_cases he : exp - exp % 4 < 0
  · -- the divisor `10^(-exp)` is `nbase^k` and the fractional part `nbase^k + r`
    have hdiv : 10 ^ (-(exp - exp % 4)).toNat = nbase ^ fracCount exp := by
      rw [← ten_pow_fracCount, fracCount]
      congr 1
      omega
    have hfrac := fracDigitsLoop_spec (fracCount exp) (scaledMagnitude int exp % nbase ^ fracCount exp)
      (Nat.mod_lt _ (Nat.pow_pos (by decide)))
    have hne : scaledMagnitude int exp % nbase ^ fracCount exp + nbase ^ fracCount exp ≠ 0 :=
      Nat.ne_of_gt (Nat.lt_add_left _ (Nat.pow_pos (by decide)))
    simp only [he, if_true, hdiv, hne, ne_eq, not_false_eq_true, wholeDigitsLoop_eq_digits]
    rw [Nat.add_comm]
    exact ⟨trivial, trivial, hfrac⟩
  · have hk : fracCount exp = 0 := by simp only [fracCount]; omega
    simp [he, hk, wholeDigitsLoop_eq_digits, Nat.mod_one]

/-! ## The bytes the encoder writes -/

/-- The bytes `appendInt16` writes for base-10000 digits, in list order. -/
def digitBytes (ds : List Nat) : List UInt8 := ds.flatMap fun x => putUint16 (UInt16.ofInt x)

@[simp] theorem digitBytes_nil : digitBytes [] = [] := rfl

theorem digitBytes_cons (x : Nat) (ds : List Nat) :
    digitBytes (x :: ds) = putUint16 (UInt16.ofInt x) ++ digitBytes ds := rfl

theorem digitBytes_append (xs ys : List Nat) :
    digitBytes (xs ++ ys) = digitBytes xs ++ digitBytes ys := by
  simp [digitBytes]

@[simp] theorem length_digitBytes (ds : List Nat) : (digitBytes ds).length = 2 * ds.length := by
  induction ds with
  | nil => rfl
  | cons x ds ih => simp only [digitBytes_cons, List.length_append, length_putUint16, ih,
      List.length_cons]; omega

theorem drop_digitBytes (r : Nat) (ds : List Nat) :
    (digitBytes ds).drop (2 * r) = digitBytes (ds.drop r) := by
  induction ds generalizing r with
  | nil => simp
  | cons x ds ih =>
    cases r with
    | zero => rfl
    | succ r =>
      rw [digitBytes_cons, show 2 * (r + 1) = 2 + 2 * r by omega, ← List.drop_drop,
        List.drop_left' (length_putUint16 _), ih, List.drop_succ_cons]

/-- The digit loops of `encodeNumericBinary` append `digitBytes`. -/
theorem foldl_appendInt16 (ds : List Nat) (buf : List UInt8) :
    ds.foldl (fun buf (x : Nat) => appendInt16 buf x) buf = buf ++ digitBytes ds := by
  induction ds generalizing buf with
  | nil => simp
  | cons x ds ih => rw [List.foldl_cons, ih, appendInt16, digitBytes_cons, List.append_assoc]

/-- What `encodeNumericBinary` writes for a finite value: the digit count,
the weight, the sign and the display scale, then the digits. -/
theorem encodeNumericBinary_finite {n : Numeric} {int : ℤ} (hv : n.Valid = true)
    (hnan : n.NaN = false) (hpos : n.InfinityModifier ≠ Infinity)
    (hneg : n.InfinityModifier ≠ NegativeInfinity) (hint : n.Int = some int) :
    encodeNumericBinary n [] = .ok (some (
      putUint16 (UInt16.ofInt ((numericDigits int n.Exp.toInt).wholeDigits.length +
        (numericDigits int n.Exp.toInt).fracDigits.length)) ++
      putUint16 (UInt16.ofInt (toInt16 (numericDigits int n.Exp.toInt).weight)) ++
      putUint16 (UInt16.ofInt (if int < 0 then 16384 else 0)) ++
      putUint16 (UInt16.ofInt (toInt16 (dscaleOf n.Exp.toInt))) ++
      digitBytes ((numericDigits int n.Exp.toInt).wholeDigits.reverse ++
        (numericDigits int n.Exp.toInt).fracDigits.reverse))) := by
  simp only [encodeNumericBinary, hv, hnan, hpos, hneg, hint, foldl_appendInt16]
  simp [appendInt16, digitBytes_append]

/-- The weight is the whole digit count less one, shifted by the lowered
exponent when it is positive. -/
theorem weight_numericDigits (int exp : ℤ) :
    (numericDigits int exp).weight =
      (numericDigits int exp).wholeDigits.length + fracCount exp + exp / 4 - 1 := by
  obtain ⟨he, -, hk, -⟩ := numericDigits_spec int exp
  have htdiv : (exp - exp % 4).tdiv 4 = exp / 4 := by
    rw [Int.tdiv_eq_ediv, if_pos (Or.inr (Int.dvd_of_emod_eq_zero (by omega)))]
    omega
  simp only [NumericDigits.weight, he, htdiv, hk, fracCount]
  split_ifs <;> omega

/-! ## Reading the header and the digits back -/

/-- A header field read back: the `uint16` the encoder wrote. -/
theorem be16_ofInt (x : ℤ) :
    be16 (UInt8.ofNat ((UInt16.ofInt x).toNat / 2 ^ 8)) (UInt8.ofNat (UInt16.ofInt x).toNat) =
      (x % 65536).toNat := by
  have hx : (UInt16.ofInt x).toNat = (x % 65536).toNat := by
    simp [UInt16.ofInt]
    omega
  have hlt : (x % 65536).toNat < 65536 := by omega
  simp only [be16, UInt8.toNat_ofNat', hx]
  omega

theorem toInt16_of_le {x : ℤ} (h₁ : -32768 ≤ x) (h₂ : x ≤ 32767) : toInt16 x = x := by
  rw [toInt16, Int.bmod_def]
  split <;> omega

/-- An `int16` field read back is the value written, inside the `int16` range. -/
theorem toInt16_read {x : ℤ} (h₁ : -32768 ≤ x) (h₂ : x ≤ 32767) :
    toInt16 ((x % 65536).toNat : ℤ) = x := by
  rw [toInt16, Int.bmod_def]
  split <;> omega

/-- A digit written by `appendInt16` is read back by `be16`. -/
theorem digitBytes_cons_read (x : Nat) (hx : x < 65536) (ds : List Nat) :
    ∃ b₀ b₁, digitBytes (x :: ds) = b₀ :: b₁ :: digitBytes ds ∧ be16 b₀ b₁ = x :=
  ⟨_, _, rfl, by rw [be16_ofInt]; omega⟩

theorem ofDigits_reverse_append (b : Nat) (xs ys : List Nat) :
    Nat.ofDigits b (xs ++ ys).reverse =
      Nat.ofDigits b xs.reverse * b ^ ys.length + Nat.ofDigits b ys.reverse := by
  rw [List.reverse_append, Nat.ofDigits_append, List.length_reverse]
  ring

/-- The inner loop of `nbaseDigitsToInt64`: `k` digits read as one number. -/
theorem nbaseDigitsAccum_digitBytes (k : Nat) (ds : List Nat) (hds : ∀ x ∈ ds, x < 65536)
    (hk : k ≤ ds.length) (a : Nat) :
    nbaseDigitsAccum k (digitBytes ds) a = a * nbase ^ k + Nat.ofDigits nbase (ds.take k).reverse := by
  induction k generalizing ds a with
  | zero => simp [nbaseDigitsAccum]
  | succ k ih =>
    obtain _ | ⟨x, ds⟩ := ds
    · simp at hk
    obtain ⟨b₀, b₁, hbytes, hx⟩ := digitBytes_cons_read x (hds x (by simp)) ds
    have hrest := ih ds (fun y hy => hds y (by simp [hy])) (by simpa using hk) (a * nbase + x)
    rw [hbytes, nbaseDigitsAccum, hx, hrest, List.take_succ_cons, Nat.ofDigits_reverse_cons,
      List.length_take_of_le (by simpa using hk)]
    ring

theorem nbaseDigitsToInt64_digitBytes (ds : List Nat) (hds : ∀ x ∈ ds, x < 65536) :
    nbaseDigitsToInt64 (digitBytes ds) =
      (Nat.ofDigits nbase (ds.take (min ds.length 4)).reverse, 2 * min ds.length 4,
        min ds.length 4) := by
  have hlen : (digitBytes ds).length / 2 = ds.length := by simp
  simp only [nbaseDigitsToInt64, hlen, nbaseDigitsAccum_digitBytes _ ds hds (Nat.min_le_left _ _),
    Nat.zero_mul, Nat.zero_add]

/-- The multiplier of a group: the accumulator moves up by as many digits as
the group has, one to four; the first group starts from zero. -/
theorem scaled_ok {first : Bool} {a r : Nat} (ha : first = true → a = 0) (h₁ : 1 ≤ r) (h₄ : r ≤ 4) :
    (if first = true then (.ok a : Except NumericError Nat)
      else if r = 1 then .ok (a * nbase)
      else if r = 2 then .ok (a * nbase ^ 2)
      else if r = 3 then .ok (a * nbase ^ 3)
      else if r = 4 then .ok (a * nbase ^ 4)
      else .error (.invalidDigitsRead r)) = .ok (a * nbase ^ r) := by
  cases first with
  | true => simp [ha rfl]
  | false =>
    obtain rfl | rfl | rfl | rfl : r = 1 ∨ r = 2 ∨ r = 3 ∨ r = 4 := by omega
    all_goals simp

/-- The group loop of the scanner reads the digits as one base-10000 number. -/
theorem accumDigits_digitBytes (ds : List Nat) (hds : ∀ x ∈ ds, x < 65536) (first : Bool) (a : Nat)
    (ha : first = true → a = 0) :
    accumDigits ((ds.length + 3) / 4) first (digitBytes ds) a =
      .ok (a * nbase ^ ds.length + Nat.ofDigits nbase ds.reverse) := by
  -- induction on the groups; each takes `min len 4` digits off the front
  generalize hg : (ds.length + 3) / 4 = g
  induction g generalizing ds first a with
  | zero =>
    obtain rfl : ds = [] := List.eq_nil_of_length_eq_zero (by omega)
    simp [accumDigits]
  | succ g ih =>
    set r := min ds.length 4 with hr
    have hr₁ : 1 ≤ r := by omega
    have hlen : ds.length = r + (ds.drop r).length := by simp only [List.length_drop]; omega
    have hval : Nat.ofDigits nbase ds.reverse =
        Nat.ofDigits nbase (ds.take r).reverse * nbase ^ (ds.drop r).length +
          Nat.ofDigits nbase (ds.drop r).reverse := by
      conv_lhs => rw [← List.take_append_drop r ds]
      exact ofDigits_reverse_append _ _ _
    have hrest := ih (ds.drop r) (fun x hx => hds x (List.mem_of_mem_drop hx)) false
      (a * nbase ^ r + Nat.ofDigits nbase (ds.take r).reverse) (by simp)
      (by simp only [List.length_drop]; omega)
    rw [accumDigits, nbaseDigitsToInt64_digitBytes ds hds, ← hr]
    simp only [scaled_ok ha hr₁ (Nat.min_le_right _ _), drop_digitBytes, hrest]
    rw [hval, hlen, pow_add]
    congr 1
    ring

/-! ## Rescaling and stripping -/

/-- Moving `j` powers of ten from the magnitude into the exponent keeps the value. -/
theorem cast_mul_pow_ten (m j : Nat) (x : ℤ) :
    ((m * 10 ^ j : ℕ) : ℚ) * 10 ^ x = m * 10 ^ (x + j) := by
  rw [zpow_add₀ (by norm_num), zpow_natCast]
  push_cast
  ring

theorem rescale_of_nonpos {ndigits : Nat} {weight dscale : ℤ} (accum : Nat) (exp : ℤ)
    (h : dscale ≤ 0) : rescale ndigits weight dscale accum exp = (accum, exp) := by
  simp [rescale, not_lt.mpr h]

/-- A negative exponent whose fractional decimal digits fit `int16`: the
scanner divides the padding of the lowered exponent back off. -/
theorem rescale_exact {W k m : Nat} {E : ℤ} (hE : E < 0) (hk : (k : ℤ) = -(E / 4))
    (hk' : k ≤ 8191) :
    rescale (W + k) (W + k + E / 4 - 1) (-E) (m * 10 ^ (E % 4).toNat) (4 * (E / 4)) = (m, E) := by
  have hf : toInt16 (((W + k : ℕ) : ℤ) - (W + k + E / 4 - 1) - 1) = k := by
    rw [toInt16_of_le (by omega) (by omega)]
    push_cast
    omega
  have hd : toInt16 ((k : ℤ) * 4) = k * 4 := toInt16_of_le (by omega) (by omega)
  have hdiv : toInt16 (k * 4 - -E) = E % 4 := by
    rw [toInt16_of_le (by omega) (by omega)]
    omega
  simp only [rescale, hf, hd, hdiv, if_pos (show (0 : ℤ) < -E by omega),
    if_neg (show ¬ (k : ℤ) * 4 < -E by omega)]
  by_cases h0 : E % 4 = 0
  · -- no padding: the display scale is the fractional digits' decimal count
    rw [if_neg (by omega), h0, Int.toNat_zero, pow_zero, Nat.mul_one, Prod.mk.injEq]
    exact ⟨rfl, by omega⟩
  · -- the padding of `E % 4` zeros is divided back off
    have hj : ((E % 4).toNat : ℤ) = E % 4 := Int.toNat_of_nonneg (Int.emod_nonneg _ (by decide))
    rw [if_pos (by omega), Nat.mul_div_cancel _ (Nat.pow_pos (by decide)), Prod.mk.injEq]
    exact ⟨rfl, by omega⟩

/-- With 8192 fractional digits their decimal count `32768` wraps to
`-32768` in `int16`, and so does the difference the scanner would multiply
by: it leaves the magnitude and the lowered exponent as they are. -/
theorem rescale_wrapped {W k m : Nat} {E : ℤ} (hk : (k : ℤ) = -(E / 4)) (hE : E / 4 = -8192)
    (hd : -E ≤ 32767) :
    rescale (W + k) (W + k + E / 4 - 1) (-E) m (4 * (E / 4)) = (m, 4 * (E / 4)) := by
  have hk8 : (k : ℤ) = 8192 := by rw [hk, hE]; rfl
  have hf : toInt16 (((W + k : ℕ) : ℤ) - (W + k + E / 4 - 1) - 1) = 8192 := by
    rw [toInt16_of_le (by omega) (by omega)]
    push_cast
    omega
  have hwrap : toInt16 (8192 * 4) = -32768 := rfl
  have hmult : toInt16 (-E - -32768) = -E - 65536 + 32768 := by
    rw [toInt16, Int.bmod_def]
    split <;> omega
  simp only [rescale, hf, hwrap, hmult, if_pos (show (0 : ℤ) < -E by omega),
    if_pos (show (-32768 : ℤ) < -E by omega)]
  rw [Int.toNat_of_nonpos (by omega), pow_zero, Nat.mul_one, Nat.cast_zero, sub_zero]

theorem stripTrailingZeros_spec (a : Nat) (x : ℤ) (ha : a ≠ 0) :
    ∃ (a' j : Nat), stripTrailingZeros a x = some (a', x + j) ∧ a = a' * 10 ^ j := by
  fun_induction stripTrailingZeros a x with
  | case1 => exact absurd rfl ha
  | case2 a x h0 h10 ih =>
    -- a trailing zero moves into the exponent
    have ha' : a / 10 ≠ 0 := by omega
    obtain ⟨a', j, hs, hv⟩ := ih ha'
    refine ⟨a', j + 1, by rw [hs]; congr 2; push_cast; ring, ?_⟩
    rw [pow_succ, ← Nat.mul_assoc, ← hv]
    omega
  | case3 a x h0 h10 => exact ⟨a, 0, by simp, by simp⟩

/-! ## The binary round trip -/

/-- The sign the scanner applies to a magnitude of the value `|int| * 10^E`
gives the value `int * 10^E`. -/
theorem signed_mul_zpow {int : ℤ} {a : Nat} {x E : ℤ}
    (h : (a : ℚ) * 10 ^ x = int.natAbs * 10 ^ E) :
    (((if int < 0 then -(a : ℤ) else a : ℤ)) : ℚ) * 10 ^ x = int * 10 ^ E := by
  rw [Nat.cast_natAbs, Int.cast_abs] at h
  split_ifs with hs
  · have hq : (int : ℚ) < 0 := by exact_mod_cast hs
    rw [abs_of_neg hq] at h
    push_cast
    linarith
  · have hq : (0 : ℚ) ≤ int := by exact_mod_cast not_lt.mp hs
    rw [abs_of_nonneg hq] at h
    push_cast
    exact h

/-- The header fields and digits the encoder writes for `int * 10^E` with
`W` whole and `k` fractional digits, read by the scanner: it gets back the
scaled magnitude with the lowered exponent, and rescales and strips them. -/
theorem scan_encodeNumericBinary {n : Numeric} {int : ℤ} {W k : Nat} (hv : n.Valid = true)
    (hnan : n.NaN = false) (hpos : n.InfinityModifier ≠ Infinity)
    (hneg : n.InfinityModifier ≠ NegativeInfinity) (hint : n.Int = some int)
    (hfits : NumericHeaderFits int n.Exp.toInt)
    (hW : (numericDigits int n.Exp.toInt).wholeDigits.length = W)
    (hk : fracCount n.Exp.toInt = k) :
    ∃ bytes, encodeNumericBinary n [] = .ok (some bytes) ∧
      scanPlanBinaryNumericToNumericScanner (some bytes) =
        if W + k = 0 then some (.ok { Numeric.zero with Int := some 0, Valid := true }) else
        let scaled := rescale (W + k) (W + k + n.Exp.toInt / 4 - 1) (dscaleOf n.Exp.toInt)
          (scaledMagnitude int n.Exp.toInt) (4 * (n.Exp.toInt / 4))
        let stripped := if 0 ≤ scaled.2 then stripTrailingZeros scaled.1 scaled.2 else some scaled
        stripped.map fun (accum, exp) =>
          .ok { Numeric.zero with
            Int := some (if int < 0 then -(accum : ℤ) else accum), Exp := Int32.ofInt exp,
            Valid := true } := by
  obtain ⟨E, hE⟩ : ∃ E, n.Exp.toInt = E := ⟨_, rfl⟩
  rw [hE] at hfits hW hk ⊢
  obtain ⟨-, hwhole, hfl, hfv, hflt⟩ := numericDigits_spec int E
  have hweight := weight_numericDigits int E
  obtain ⟨hlen, hw₁, hw₂, hd⟩ := hfits
  rw [hW, hk] at hweight
  rw [hk] at hfl hfv hwhole
  rw [hW, hfl] at hlen
  -- the header bounds: at most 32768 whole and 8192 fractional digits
  have hkE : (k : ℤ) = (-(E / 4)).toNat := by rw [← hk, fracCount]
  have hk8 : k ≤ 8192 := by
    have hE : -E ≤ 32767 ∨ 0 ≤ E := by
      unfold dscaleOf at hd
      split_ifs at hd <;> omega
    omega
  have hWk : W + k ≤ 40960 := by omega
  have hdsc : 0 ≤ dscaleOf E := by
    unfold dscaleOf
    split_ifs <;> omega
  have hdigits : ∀ x ∈ ((numericDigits int E).wholeDigits.reverse ++
      (numericDigits int E).fracDigits.reverse), x < 65536 := by
    intro x hx
    simp only [List.mem_append, List.mem_reverse] at hx
    rcases hx with hx | hx
    · rw [hwhole] at hx
      exact lt_trans (Nat.digits_lt_base (by decide) hx) (by decide)
    · exact lt_trans (hflt x hx) (by decide)
  have hval : Nat.ofDigits nbase ((numericDigits int E).wholeDigits.reverse ++
      (numericDigits int E).fracDigits.reverse).reverse = scaledMagnitude int E := by
    rw [List.reverse_append, List.reverse_reverse, List.reverse_reverse, Nat.ofDigits_append,
      hfv, hfl, hwhole, Nat.ofDigits_digits, Nat.mod_add_div]
  have hcount : ((numericDigits int E).wholeDigits.reverse ++
      (numericDigits int E).fracDigits.reverse).length = W + k := by
    simp [hW, hfl]
  -- the header fields read back
  have hnd' : (((W : ℤ) + k) % 65536).toNat = W + k := by omega
  have hsign : ((if int < 0 then (16384 : ℤ) else 0) % 65536).toNat =
      if int < 0 then 16384 else 0 := by
    split_ifs <;> rfl
  have hspecial : ∀ s ∈ [gaussdbNumericNaNSign, gaussdbNumericPosInfSign, gaussdbNumericNegInfSign],
      (if int < 0 then 16384 else 0) ≠ s := by
    split_ifs <;> decide
  have hsg : (if int < 0 then 16384 else 0) ≠ 0 ↔ int < 0 := by
    split_ifs with h <;> simp [h]
  have hwr : toInt16 ((toInt16 (numericDigits int E).weight % 65536).toNat) =
      W + k + E / 4 - 1 := by
    rw [toInt16_of_le hw₁ hw₂, toInt16_read hw₁ hw₂, hweight]
  have hdr : toInt16 ((toInt16 (dscaleOf E) % 65536).toNat) = dscaleOf E := by
    rw [toInt16_of_le (by omega) hd, toInt16_read (by omega) hd]
  have hexp : ((W : ℤ) + k + E / 4 - 1 - ((W + k : ℕ) : ℤ) + 1) * 4 = 4 * (E / 4) := by
    push_cast
    ring
  -- the digits read back
  have hacc : accumDigits ((W + k + 3) % 65536 / 4) true (digitBytes
      ((numericDigits int E).wholeDigits.reverse ++ (numericDigits int E).fracDigits.reverse)) 0 =
        .ok (scaledMagnitude int E) := by
    rw [Nat.mod_eq_of_lt (by omega), ← hcount, accumDigits_digitBytes _ hdigits true 0 (fun _ => rfl),
      hval, Nat.zero_mul, Nat.zero_add]
  refine ⟨_, encodeNumericBinary_finite hv hnan hpos hneg hint, ?_⟩
  simp only [putUint16, List.cons_append, List.nil_append, scanPlanBinaryNumericToNumericScanner,
    be16_ofInt, hE, hW, hfl, hnd', hsign, hwr, hdr, length_digitBytes, hacc, hcount, hsg, hexp]
  rw [if_neg (hspecial _ (by simp)), if_neg (hspecial _ (by simp)), if_neg (hspecial _ (by simp)),
    if_neg (show ¬ 2 * (W + k) < (W + k) * 2 by omega)]

/-- A power of ten that divides a positive number of `W` digits in base
`nbase` is below `10^(4W)`: the zeros stripped from the magnitude stay
within its digits. -/
theorem lt_of_pow_ten_dvd {m a j W : Nat} (hW : (Nat.digits nbase m).length = W)
    (hm : m = a * 10 ^ j) (ha : 0 < a) : j < 4 * W := by
  have hlt := Nat.lt_base_pow_length_digits (b := nbase) (m := m) (by decide)
  rw [hW] at hlt
  have hle : 10 ^ j ≤ m := by
    rw [hm]
    exact Nat.le_mul_of_pos_left _ ha
  have : 10 ^ j < 10 ^ (4 * W) := by
    rw [pow_mul]
    exact lt_of_le_of_lt hle hlt
  exact (Nat.pow_lt_pow_iff_right (by decide)).mp this

/-- The binary codec keeps a finite value whose header fits: the scanner
reads what `encodeNumericBinary` writes back as a numeric of the same value. -/
theorem scanBinary_encodeNumericBinary_finite {n : Numeric} {int : ℤ} (hv : n.Valid = true)
    (hnan : n.NaN = false) (hpos : n.InfinityModifier ≠ Infinity)
    (hneg : n.InfinityModifier ≠ NegativeInfinity) (hint : n.Int = some int)
    (hfits : NumericHeaderFits int n.Exp.toInt) :
    ∃ bytes m, encodeNumericBinary n [] = .ok (some bytes) ∧
      scanPlanBinaryNumericToNumericScanner (some bytes) = some (.ok m) ∧ m.denote = n.denote := by
  obtain ⟨bytes, henc, hscan⟩ :=
    scan_encodeNumericBinary hv hnan hpos hneg hint hfits rfl rfl
  rw [Numeric.denote_finite hv hnan hpos hneg hint]
  refine ⟨bytes, ?_⟩
  simp only [henc, hscan, true_and]
  obtain ⟨E, hE⟩ : ∃ E, n.Exp.toInt = E := ⟨_, rfl⟩
  have hE₁ := Int32.le_toInt n.Exp
  have hE₂ := Int32.toInt_lt n.Exp
  rw [hE] at hfits hE₁ hE₂ ⊢
  obtain ⟨-, hwhole, -, -, -⟩ := numericDigits_spec int E
  have hweight := weight_numericDigits int E
  obtain ⟨-, -, hw₂, hd⟩ := hfits
  set W := (numericDigits int E).wholeDigits.length
  set k := fracCount E
  have hkE : (k : ℤ) = (-(E / 4)).toNat := rfl
  -- the magnitude and exponent the scanner rescales are `|int| * 10^E`
  have hm' : ((scaledMagnitude int E : ℕ) : ℚ) * 10 ^ (4 * (E / 4)) = int.natAbs * 10 ^ E := by
    rw [scaledMagnitude, cast_mul_pow_ten, Int.toNat_of_nonneg (Int.emod_nonneg _ (by decide))]
    congr 2
    omega
  by_cases hnd : W + k = 0
  · -- no digits: the value is zero
    rw [if_pos hnd]
    have hW0 : W = 0 := by omega
    have hk0 : k = 0 := by omega
    have hzero : scaledMagnitude int E = 0 := by
      have h := congrArg (Nat.ofDigits nbase) hwhole
      rw [Nat.ofDigits_digits, hk0, pow_zero, Nat.div_one,
        List.eq_nil_of_length_eq_zero hW0, Nat.ofDigits_nil] at h
      exact h.symm
    have hint0 : int = 0 := by
      rcases Nat.mul_eq_zero.mp hzero with h | h
      · exact Int.natAbs_eq_zero.mp h
      · exact absurd h (pow_ne_zero _ (by decide))
    refine ⟨_, rfl, ?_⟩
    simp [Numeric.denote, Numeric.zero, Finite, Infinity, NegativeInfinity, hint0]
  rw [if_neg hnd]
  by_cases hE0 : 0 ≤ E
  · -- a lowered exponent that is not negative: trailing zeros move into it
    have hk0 : k = 0 := by omega
    rw [hk0, pow_zero, Nat.div_one] at hwhole
    have hscaled := @rescale_of_nonpos (W + k) (W + k + E / 4 - 1) (dscaleOf E)
      (scaledMagnitude int E) (4 * (E / 4)) (by simp [dscaleOf]; omega)
    have hpos' : scaledMagnitude int E ≠ 0 := by
      intro h0
      rw [h0, Nat.digits_zero] at hwhole
      exact hnd (by simp [W, hwhole, hk0])
    obtain ⟨a, j, hstrip, hmj⟩ := stripTrailingZeros_spec _ (4 * (E / 4)) hpos'
    have ha : 0 < a := Nat.pos_of_ne_zero (by rintro rfl; rw [Nat.zero_mul] at hmj; exact hpos' hmj)
    have hj : j < 4 * W := lt_of_pow_ten_dvd (by rw [← hwhole]) hmj ha
    rw [hscaled, if_pos (by omega), hstrip, Option.map_some]
    refine ⟨_, rfl, ?_⟩
    rw [Numeric.denote_scanned (by omega) (by omega)]
    congr 2
    apply signed_mul_zpow
    rw [← hm', hmj, cast_mul_pow_ten]
  · have hdE : dscaleOf E = -E := by simp [dscaleOf, show E < 0 by omega]
    have hkE' : (k : ℤ) = -(E / 4) := by omega
    rw [hdE] at hd ⊢
    by_cases hk8 : k ≤ 8191
    · -- the fractional digits' decimal count fits `int16`: the exponent comes back
      rw [scaledMagnitude, rescale_exact (by omega) hkE' hk8, if_neg (by omega), Option.map_some]
      refine ⟨_, rfl, ?_⟩
      rw [Numeric.denote_scanned hE₁ hE₂]
      congr 2
      exact signed_mul_zpow rfl
    · -- 8192 fractional digits: the count wraps and the lowered exponent stays
      have hE4 : E / 4 = -8192 := by omega
      rw [rescale_wrapped hkE' hE4 hd, if_neg (by omega), Option.map_some]
      refine ⟨_, rfl, ?_⟩
      rw [Numeric.denote_scanned (by omega) (by omega)]
      congr 2
      exact signed_mul_zpow hm'

end GaussdbGo.Gaussdbtype
