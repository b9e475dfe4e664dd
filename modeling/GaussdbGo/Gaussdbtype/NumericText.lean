import GaussdbGo.Gaussdbtype.NumericBinary

/-!
# gaussdbtype — the text `numeric` codec, and both codecs keep the value

`encodeNumericText` writes `Itoa(Int)` with the exponent applied: trailing
zeros for a positive one, a point `-Exp` digits from the end for a negative
one (after `0.` and zeros when the digits are fewer). The scanner's
`parseNumericString` reads a point back as the exponent
(`parseNumericString_point`) and otherwise moves trailing zeros into it
(`trimTrailingZeros_spec`), so a finite value comes back with the same
value whenever the exponent it ends with fits `int32`
(`scanText_encodeNumericText_finite`). A header that fits bounds the text
(`natDigits_length_add_le`), and the special values have fixed encodings
(`codecs_special`): together with the binary round trip, both codecs keep
every value whose binary header fits.
-/

namespace GaussdbGo.Gaussdbtype

open GoStd GoStd.BigEndian GoStd.Strconv

/-- The `-` that `Itoa` writes before a negative number. -/
def minusSign (neg : Bool) : List UInt8 := if neg then [45] else []

theorem not_mem_of_digits {b : UInt8} (hb : b.toNat < 48 ∨ 57 < b.toNat) {X : List UInt8}
    (hd : ∀ d ∈ X, IsDecimalDigit d) : b ∉ X := fun h => by
  have := hd b h
  simp only [IsDecimalDigit] at this
  omega

theorem setString_minusSign (neg : Bool) (X : List UInt8) (hX : X ≠ [])
    (hd : ∀ d ∈ X, IsDecimalDigit d) :
    setString (minusSign neg ++ X) = some (if neg then -(digitsValue X : ℤ) else digitsValue X) := by
  cases neg with
  | true =>
    simp only [setString, minusSign, if_true, List.singleton_append, ne_eq, hX, not_false_eq_true,
      true_and, if_pos hd]
  | false =>
    obtain ⟨x, X, rfl⟩ := List.exists_cons_of_ne_nil hX
    have hx := hd x (by simp)
    have h45 : x ≠ 45 := by rintro rfl; simp [IsDecimalDigit] at hx
    have h43 : x ≠ 43 := by rintro rfl; simp [IsDecimalDigit] at hx
    simp only [List.forall_mem_cons] at hd
    simp [setString, minusSign, h45, h43, hd]
    exact hd.2

theorem getElem?_length_sub_two (L : List UInt8) (y x : UInt8) :
    (L ++ [y, x])[(L ++ [y, x]).length - 2]? = some y := by
  simp

/-- The condition of the loop of `parseNumericString` on a signed digit run
`X₀ ++ [x]`: the last digit is a zero and is not the only digit. -/
theorem trimCondition_iff (neg : Bool) (X₀ : List UInt8) (x : UInt8)
    (hd : ∀ d ∈ X₀, IsDecimalDigit d) :
    (1 < (minusSign neg ++ X₀ ++ [x]).length ∧ (minusSign neg ++ X₀ ++ [x]).getLast? = some 48 ∧
      (minusSign neg ++ X₀ ++ [x])[(minusSign neg ++ X₀ ++ [x]).length - 2]? ≠ some 45) ↔
      x = 48 ∧ X₀ ≠ [] := by
  rcases List.eq_nil_or_concat' X₀ with rfl | ⟨Y, y, rfl⟩
  · cases neg <;> simp [minusSign]
  · have hy : y ≠ 45 := by
      rintro rfl
      have := hd 45 (by simp)
      simp [IsDecimalDigit] at this
    have hl : minusSign neg ++ (Y ++ [y]) ++ [x] = (minusSign neg ++ Y) ++ [y, x] := by simp
    rw [hl, getElem?_length_sub_two]
    simp [hy]
    omega

/-- The loop of `parseNumericString` on a signed digit run moves its trailing
zeros into the exponent, keeping at least one digit. -/
theorem trimTrailingZeros_spec (neg : Bool) (X : List UInt8) (hX : X ≠ [])
    (hd : ∀ d ∈ X, IsDecimalDigit d) (e : ℤ) :
    ∃ (X' : List UInt8) (t : Nat), trimTrailingZeros (minusSign neg ++ X) e = (minusSign neg ++ X', e + t) ∧
      X = X' ++ List.replicate t 48 ∧ X' ≠ [] := by
  -- induction on the digits from the end, the side the loop works on
  induction X using List.reverseRecOn generalizing e with
  | nil => exact absurd rfl hX
  | append_singleton X₀ x ih =>
    have hd₀ : ∀ d ∈ X₀, IsDecimalDigit d := fun d h => hd d (List.mem_append_left _ h)
    rw [trimTrailingZeros, ← List.append_assoc]
    by_cases hc : x = 48 ∧ X₀ ≠ []
    · -- a trailing zero goes
      rw [dif_pos ((trimCondition_iff neg X₀ x hd₀).mpr hc), List.dropLast_concat]
      obtain ⟨X', t, htrim, hX', hne⟩ := ih hc.2 hd₀ (e + 1)
      refine ⟨X', t + 1, by rw [htrim]; congr 1; push_cast; ring, ?_, hne⟩
      rw [hX', hc.1, List.append_assoc, List.replicate_succ']
    · rw [dif_neg (mt (trimCondition_iff neg X₀ x hd₀).mp hc)]
      exact ⟨X₀ ++ [x], 0, by simp, by simp, by simp⟩

/-- A signed number with a point: the digits around it are read as one
integer, and the exponent counts the digits after it. -/
theorem parseNumericString_point (neg : Bool) (A B : List UInt8) (hA : A ≠ [])
    (hdA : ∀ d ∈ A, IsDecimalDigit d) (hdB : ∀ d ∈ B, IsDecimalDigit d) :
    parseNumericString (minusSign neg ++ A ++ 46 :: B) =
      .ok (if neg then -(digitsValue (A ++ B) : ℤ) else digitsValue (A ++ B),
        Int32.ofInt (-(B.length : ℤ))) := by
  have h46 : (46 : UInt8) ∉ minusSign neg ++ A := by
    rw [List.mem_append, not_or]
    refine ⟨by cases neg <;> simp [minusSign], not_mem_of_digits (by decide) hdA⟩
  have hidx := indexByte_append_of_not_mem h46 B
  have htake : (minusSign neg ++ A ++ 46 :: B).take (minusSign neg ++ A).length =
      minusSign neg ++ A := List.take_left' rfl
  have hdrop : (minusSign neg ++ A ++ 46 :: B).drop ((minusSign neg ++ A).length + 1) = B := by
    rw [← List.drop_drop, List.drop_left' rfl, List.drop_one, List.tail_cons]
  have hexp : -(((minusSign neg ++ A ++ 46 :: B).length : ℤ) - (minusSign neg ++ A).length - 1) =
      -(B.length : ℤ) := by
    simp only [List.length_append, List.length_cons]
    push_cast
    ring
  have hdig : ∀ d ∈ A ++ B, IsDecimalDigit d := by
    intro d hd
    rcases List.mem_append.mp hd with h | h
    · exact hdA d h
    · exact hdB d h
  have hset := setString_minusSign neg (A ++ B) (by simp [hA]) hdig
  rw [← List.append_assoc] at hset
  simp only [parseNumericString, hidx, Int.toNat_natCast, htake, hdrop, hexp, hset,
    show ((minusSign neg ++ A).length : ℤ) ≠ -1 by omega, if_false]

/-- A signed number without a point: its trailing zeros move into the
exponent. -/
theorem parseNumericString_of_digits (neg : Bool) (X : List UInt8) (hX : X ≠ [])
    (hd : ∀ d ∈ X, IsDecimalDigit d) :
    ∃ (X' : List UInt8) (t : Nat), parseNumericString (minusSign neg ++ X) =
        .ok (if neg then -(digitsValue X' : ℤ) else digitsValue X', Int32.ofInt t) ∧
      X = X' ++ List.replicate t 48 ∧ X' ≠ [] := by
  have h46 : (46 : UInt8) ∉ minusSign neg ++ X := by
    rw [List.mem_append, not_or]
    exact ⟨by cases neg <;> simp [minusSign], not_mem_of_digits (by decide) hd⟩
  obtain ⟨X', t, htrim, hX', hne⟩ := trimTrailingZeros_spec neg X hX hd 0
  have hd' : ∀ d ∈ X', IsDecimalDigit d := fun d h => hd d (hX' ▸ List.mem_append_left _ h)
  refine ⟨X', t, ?_, hX', hne⟩
  simp only [parseNumericString, indexByte_of_not_mem h46, if_true, htrim,
    setString_minusSign neg X' hne hd', Int.zero_add]

/-- `numberTextBytes` splits off exactly the sign `Itoa` writes, since the
digits after it do not start with `-`. -/
theorem numberTextBytes_minusSign (neg : Bool) (D : List UInt8) (hD : ∀ d ∈ D, IsDecimalDigit d)
    (exp : ℤ) :
    numberTextBytes (minusSign neg ++ D) exp = minusSign neg ++
      if 0 < exp then D ++ List.replicate exp.toNat 48
      else if exp < 0 then
        if D.length ≤ -exp then [48, 46] ++ List.replicate ((-exp).toNat - D.length) 48 ++ D
        else D.take (D.length + exp).toNat ++ [46] ++ D.drop (D.length + exp).toNat
      else D := by
  cases neg with
  | true => simp [numberTextBytes, minusSign]
  | false =>
    cases D with
    | nil => simp [numberTextBytes, minusSign]
    | cons d D =>
      have h45 : d ≠ 45 := by
        rintro rfl
        have := hD 45 (by simp)
        simp [IsDecimalDigit] at this
      simp [numberTextBytes, minusSign, h45]

/-- A signed number that starts with a digit is none of `NaN`, `Infinity`,
`-Infinity`: the text scanner parses it. -/
theorem scanText_of_parse {neg : Bool} {b : UInt8} {rest : List UInt8} {num : ℤ} {exp : Int32}
    (hb : IsDecimalDigit b) (hp : parseNumericString (minusSign neg ++ b :: rest) = .ok (num, exp)) :
    scanPlanTextAnyToNumericScanner (some (minusSign neg ++ b :: rest)) =
      .ok { Numeric.zero with Int := some num, Exp := exp, Valid := true } := by
  have hN : b ≠ 78 := by rintro rfl; simp [IsDecimalDigit] at hb
  have hI : b ≠ 73 := by rintro rfl; simp [IsDecimalDigit] at hb
  have hm : b ≠ 45 := by rintro rfl; simp [IsDecimalDigit] at hb
  cases neg <;> simp_all [scanPlanTextAnyToNumericScanner, minusSign]

/-! ## The text round trip -/

/-- What the text scanner makes of a signed number it parses to a magnitude
of the value `|int| * 10^E`: a numeric standing for `int * 10^E`. -/
theorem scanText_of_value {int x E : ℤ} {rest : List UInt8} {b : UInt8} {v : Nat}
    (hb : IsDecimalDigit b)
    (hp : parseNumericString (minusSign (decide (int < 0)) ++ b :: rest) =
      .ok (if decide (int < 0) then -(v : ℤ) else v, Int32.ofInt x))
    (hx₁ : -2 ^ 31 ≤ x) (hx₂ : x < 2 ^ 31) (hval : (v : ℚ) * 10 ^ x = int.natAbs * 10 ^ E) :
    ∃ m, scanPlanTextAnyToNumericScanner (some (minusSign (decide (int < 0)) ++ b :: rest)) = .ok m ∧
      m.denote = some (.finite (int * 10 ^ E)) := by
  refine ⟨_, scanText_of_parse hb hp, ?_⟩
  rw [Numeric.denote_scanned hx₁ hx₂]
  simp only [decide_eq_true_eq]
  rw [signed_mul_zpow hval]

/-! ### The three ways `encodeNumericText` places the exponent

Each is read back with the digits of `|int|` and the exponent `E`; the sign
is written before them in every case. -/

section Written

variable {int E : ℤ} {D : List UInt8}

/-- Digits and `E` zeros after them come back as the digits without their
trailing zeros and an exponent that makes up for them. -/
theorem scanText_digits_zeros (hDne : D ≠ []) (hDd : ∀ d ∈ D, IsDecimalDigit d)
    (hDv : digitsValue D = int.natAbs) (hE0 : 0 ≤ E) (hlen : (D.length : ℤ) + E ≤ 2 ^ 31) :
    ∃ m, scanPlanTextAnyToNumericScanner
        (some (minusSign (decide (int < 0)) ++ (D ++ List.replicate E.toNat 48))) = .ok m ∧
      m.denote = some (.finite (int * 10 ^ E)) := by
  obtain ⟨b, D', hbD⟩ := List.exists_cons_of_ne_nil hDne
  have hb : IsDecimalDigit b := hDd b (by simp [hbD])
  have hX : ∀ d ∈ D ++ List.replicate E.toNat 48, IsDecimalDigit d := by
    intro d hd
    rcases List.mem_append.mp hd with h | h
    · exact hDd d h
    · rw [List.eq_of_mem_replicate h]
      decide
  obtain ⟨X', t, hp, hXX, hne⟩ :=
    parseNumericString_of_digits (decide (int < 0)) _ (by simp [hDne]) hX
  -- the zeros trimmed are at most the digits and zeros written
  have ht : (t : ℤ) < D.length + E.toNat := by
    have := congrArg List.length hXX
    simp only [List.length_append, List.length_replicate] at this
    have := List.length_pos_iff.mpr hne
    omega
  have hvalN : digitsValue X' * 10 ^ t = int.natAbs * 10 ^ E.toNat := by
    have := congrArg digitsValue hXX
    rw [digitsValue_append, digitsValue_append, digitsValue_replicate_zero,
      digitsValue_replicate_zero, hDv, List.length_replicate, List.length_replicate] at this
    omega
  have hEn : E = (E.toNat : ℤ) := (Int.toNat_of_nonneg hE0).symm
  have hval : (digitsValue X' : ℚ) * 10 ^ (t : ℤ) = int.natAbs * 10 ^ E := by
    rw [zpow_natCast, hEn, zpow_natCast]
    exact_mod_cast hvalN
  rw [hbD, List.cons_append] at hp ⊢
  exact scanText_of_value hb hp (by omega) (by omega) hval

/-- `0.`, zeros and the digits, `-E` places after the point, come back as
the digits and the exponent `E`. -/
theorem scanText_point_padded (hDd : ∀ d ∈ D, IsDecimalDigit d)
    (hDv : digitsValue D = int.natAbs) (hE₁ : -2 ^ 31 ≤ E) (hE₂ : E < 2 ^ 31)
    (hshort : (D.length : ℤ) ≤ -E) :
    ∃ m, scanPlanTextAnyToNumericScanner (some (minusSign (decide (int < 0)) ++
        ([48, 46] ++ List.replicate ((-E).toNat - D.length) 48 ++ D))) = .ok m ∧
      m.denote = some (.finite (int * 10 ^ E)) := by
  set r := (-E).toNat - D.length
  have hB : ∀ d ∈ List.replicate r 48 ++ D, IsDecimalDigit d := by
    intro d hd
    rcases List.mem_append.mp hd with h | h
    · rw [List.eq_of_mem_replicate h]
      decide
    · exact hDd d h
  have hp := parseNumericString_point (decide (int < 0)) [48] (List.replicate r 48 ++ D) (by simp)
    (by simp only [List.mem_singleton, forall_eq]; decide) hB
  have hlenB : -((List.replicate r 48 ++ D).length : ℤ) = E := by
    simp only [List.length_append, List.length_replicate, r]
    omega
  -- the leading `0` and the padding add nothing to the value
  have hdv : digitsValue ([48] ++ (List.replicate r 48 ++ D)) = int.natAbs := by
    rw [← List.append_assoc, List.singleton_append, ← List.replicate_succ, digitsValue_append,
      digitsValue_replicate_zero, hDv, Nat.zero_mul, Nat.zero_add]
  rw [hlenB, hdv, List.append_assoc, List.singleton_append] at hp
  have htext : [48, 46] ++ List.replicate r 48 ++ D = 48 :: 46 :: (List.replicate r 48 ++ D) := by
    simp
  rw [htext]
  exact scanText_of_value (by decide) hp hE₁ hE₂ rfl

/-- The digits with the point `-E` of them from the end come back as the
digits and the exponent `E`. -/
theorem scanText_point_inside (hDne : D ≠ []) (hDd : ∀ d ∈ D, IsDecimalDigit d)
    (hDv : digitsValue D = int.natAbs) (hE₁ : -2 ^ 31 ≤ E) (hE₂ : E < 2 ^ 31) (hneg : E < 0)
    (hshort : ¬ (D.length : ℤ) ≤ -E) :
    ∃ m, scanPlanTextAnyToNumericScanner (some (minusSign (decide (int < 0)) ++
        (D.take (D.length + E).toNat ++ [46] ++ D.drop (D.length + E).toNat))) = .ok m ∧
      m.denote = some (.finite (int * 10 ^ E)) := by
  obtain ⟨b, D', hbD⟩ := List.exists_cons_of_ne_nil hDne
  have hb : IsDecimalDigit b := hDd b (by simp [hbD])
  set p := (D.length + E).toNat
  obtain ⟨p', hp'⟩ : ∃ p', p = p' + 1 := ⟨p - 1, by omega⟩
  have htake : D.take p = b :: D'.take p' := by rw [hp', hbD, List.take_succ_cons]
  have hdrop : ((D.drop p).length : ℤ) = -E := by
    simp only [List.length_drop, p]
    omega
  have hdig : ∀ d ∈ D.take p, IsDecimalDigit d := fun d h => hDd d (List.mem_of_mem_take h)
  have hp := parseNumericString_point (decide (int < 0)) (D.take p) (D.drop p)
    (by simp [htake]) hdig (fun d h => hDd d (List.mem_of_mem_drop h))
  rw [List.take_append_drop, hDv, hdrop, neg_neg, htake, List.append_assoc, List.cons_append] at hp
  have htext : D.take p ++ [46] ++ D.drop p = b :: (D'.take p' ++ 46 :: D.drop p) := by
    rw [htake]
    simp
  rw [htext]
  exact scanText_of_value hb hp hE₁ hE₂ rfl

end Written

/-- The text codec keeps a finite value whose digits and exponent stay within
`int32`: the scanner reads what `encodeNumericText` writes back as a numeric
of the same value. -/
theorem scanText_encodeNumericText_finite {n : Numeric} {int : ℤ} (hv : n.Valid = true)
    (hnan : n.NaN = false) (hpos : n.InfinityModifier ≠ Infinity)
    (hneg : n.InfinityModifier ≠ NegativeInfinity) (hint : n.Int = some int)
    (hlen : ((natDigits int.natAbs).length : ℤ) + n.Exp.toInt ≤ 2 ^ 31) :
    ∃ text m, encodeNumericText n [] = some text ∧
      scanPlanTextAnyToNumericScanner (some text) = .ok m ∧ m.denote = n.denote := by
  rw [Numeric.denote_finite hv hnan hpos hneg hint]
  obtain ⟨E, hE⟩ : ∃ E, n.Exp.toInt = E := ⟨_, rfl⟩
  have hE₁ := Int32.le_toInt n.Exp
  have hE₂ := Int32.toInt_lt n.Exp
  rw [hE] at hlen hE₁ hE₂ ⊢
  obtain ⟨hDne, hDd, hDv⟩ := natDigits_spec int.natAbs
  set D := natDigits int.natAbs
  have henc : encodeNumericText n [] = some (numberTextBytes (minusSign (decide (int < 0)) ++ D) E) := by
    simp [encodeNumericText, hv, hnan, hpos, hneg, hint, hE, bigIntString, itoa, minusSign, D]
  rw [henc, numberTextBytes_minusSign _ D hDd]
  by_cases hE0 : 0 ≤ E
  · -- no point: the zeros written after the digits come back as the exponent
    have hbody : (if 0 < E then D ++ List.replicate E.toNat 48 else if E < 0 then
        (if D.length ≤ -E then [48, 46] ++ List.replicate ((-E).toNat - D.length) 48 ++ D
          else D.take (D.length + E).toNat ++ [46] ++ D.drop (D.length + E).toNat) else D) =
        D ++ List.replicate E.toNat 48 := by
      split_ifs <;> first | rfl | omega | simp [show E = 0 by omega]
    obtain ⟨m, hs, hm⟩ := scanText_digits_zeros hDne hDd hDv hE0 (by omega)
    rw [hbody]
    exact ⟨_, m, rfl, hs, hm⟩
  rw [if_neg (by omega), if_pos (by omega)]
  by_cases hshort : (D.length : ℤ) ≤ -E
  · -- `0.` and zeros pad the digits to `-E` places after the point
    obtain ⟨m, hs, hm⟩ := scanText_point_padded hDd hDv hE₁ hE₂ hshort
    rw [if_pos hshort]
    exact ⟨_, m, rfl, hs, hm⟩
  · -- the point stands `-E` digits from the end
    obtain ⟨m, hs, hm⟩ := scanText_point_inside hDne hDd hDv hE₁ hE₂ (by omega) hshort
    rw [if_neg hshort]
    exact ⟨_, m, rfl, hs, hm⟩

/-! ## Both codecs -/

/-- A header that fits bounds the text: `|int|` has at most `4(W + k) + 1`
digits, and the weight bounds the exponent by `4(32768 - W - k) + 3`. -/
theorem natDigits_length_add_le {int E : ℤ} (h : NumericHeaderFits int E) :
    ((natDigits int.natAbs).length : ℤ) + E ≤ 2 ^ 31 := by
  obtain ⟨-, hwhole, -, -, -⟩ := numericDigits_spec int E
  have hweight := weight_numericDigits int E
  obtain ⟨-, -, hw₂, -⟩ := h
  set W := (numericDigits int E).wholeDigits.length
  set k := fracCount E
  -- `|int| ≤ m' < nbase^(W + k) = 10^(4(W + k))`
  have hlt : scaledMagnitude int E < nbase ^ (W + k) := by
    have h := Nat.lt_base_pow_length_digits (b := nbase) (m := scaledMagnitude int E / nbase ^ k)
      (by decide)
    rw [← hwhole, Nat.div_lt_iff_lt_mul (Nat.pow_pos (by decide)), ← pow_add] at h
    exact h
  have hle : int.natAbs ≤ scaledMagnitude int E :=
    Nat.le_mul_of_pos_right _ (Nat.pow_pos (by decide))
  have hdigits : int.natAbs < 10 ^ (4 * (W + k) + 1) := by
    calc int.natAbs < nbase ^ (W + k) := lt_of_le_of_lt hle hlt
      _ = 10 ^ (4 * (W + k)) := by rw [pow_mul]; rfl
      _ < 10 ^ (4 * (W + k) + 1) := Nat.pow_lt_pow_right (by decide) (by omega)
  have hlen := length_natDigits_le (by omega) hdigits
  omega

/-- NaN and the infinities: each encoder writes the code its scanner reads
back as the same special value. -/
theorem codecs_special {n : Numeric} (hv : n.Valid = true)
    (hs : n.NaN = true ∨ n.InfinityModifier = Infinity ∨ n.InfinityModifier = NegativeInfinity) :
    (∃ bytes m, encodeNumericBinary n [] = .ok (some bytes) ∧
        scanPlanBinaryNumericToNumericScanner (some bytes) = some (.ok m) ∧ m.denote = n.denote) ∧
      ∃ text m, encodeNumericText n [] = some text ∧
        scanPlanTextAnyToNumericScanner (some text) = .ok m ∧ m.denote = n.denote := by
  by_cases hnan : n.NaN = true
  · have hm : ({ Numeric.zero with NaN := true, Valid := true } : Numeric).denote = n.denote := by
      simp [Numeric.denote, hv, hnan]
    exact ⟨⟨putUint64 gaussdbNumericNaN, _, by simp [encodeNumericBinary, hv, hnan], by decide, hm⟩,
      ⟨[78, 97, 78], _, by simp [encodeNumericText, hv, hnan], by decide, hm⟩⟩
  by_cases hpos : n.InfinityModifier = Infinity
  · have hm : ({ Numeric.zero with InfinityModifier := Infinity, Valid := true } : Numeric).denote =
        n.denote := by
      simp [Numeric.denote, hv, hnan, hpos, Numeric.zero]
    exact ⟨⟨putUint64 gaussdbNumericPosInf, _, by simp [encodeNumericBinary, hv, hnan, hpos],
        by decide, hm⟩,
      ⟨[73, 110, 102, 105, 110, 105, 116, 121], _, by simp [encodeNumericText, hv, hnan, hpos],
        by decide, hm⟩⟩
  have hneg : n.InfinityModifier = NegativeInfinity := by simpa [hnan, hpos] using hs
  have hne : NegativeInfinity ≠ Infinity := by decide
  have hm : ({ Numeric.zero with InfinityModifier := NegativeInfinity, Valid := true } : Numeric).denote =
      n.denote := by
    simp [Numeric.denote, hv, hnan, hneg, hne, Numeric.zero]
  exact ⟨⟨putUint64 gaussdbNumericNegInf, _, by simp [encodeNumericBinary, hv, hnan, hneg, hne],
      by decide, hm⟩,
    ⟨[45, 73, 110, 102, 105, 110, 105, 116, 121], _, by simp [encodeNumericText, hv, hnan, hneg, hne],
      by decide, hm⟩⟩

/-- The binary and text codecs keep every value whose binary header fits:
decoding either encoding gives a numeric standing for the same value, the
same special value or the same `Int * 10^Exp`. -/
theorem numeric_codecs_keep_value (n : Numeric) (hv : n.Valid = true) (hn : n.HeaderFits) :
    (∃ bytes m, encodeNumericBinary n [] = .ok (some bytes) ∧
        scanPlanBinaryNumericToNumericScanner (some bytes) = some (.ok m) ∧ m.denote = n.denote) ∧
      ∃ text m, encodeNumericText n [] = some text ∧
        scanPlanTextAnyToNumericScanner (some text) = .ok m ∧ m.denote = n.denote := by
  by_cases hs : n.NaN = true ∨ n.InfinityModifier = Infinity ∨ n.InfinityModifier = NegativeInfinity
  · exact codecs_special hv hs
  · -- a finite value: its header fits, and the text exponent stays within `int32`
    obtain ⟨int, hint, hfits⟩ : ∃ int, n.Int = some int ∧ NumericHeaderFits int n.Exp.toInt := by
      rcases hn with h | h | h | h
      · exact absurd (Or.inl h) hs
      · exact absurd (Or.inr (Or.inl h)) hs
      · exact absurd (Or.inr (Or.inr h)) hs
      · exact h
    simp only [not_or, Bool.not_eq_true] at hs
    obtain ⟨hnan, hpos, hneg⟩ := hs
    exact ⟨scanBinary_encodeNumericBinary_finite hv hnan hpos hneg hint hfits,
      scanText_encodeNumericText_finite hv hnan hpos hneg hint (natDigits_length_add_le hfits)⟩

theorem numeric_codecs_keep_value_fraction :
    ({ Int := some (-12345), Exp := -3, NaN := false, InfinityModifier := Finite, Valid := true } :
        Numeric).HeaderFits ∧
      (∃ bytes m, encodeNumericBinary
          { Int := some (-12345), Exp := -3, NaN := false, InfinityModifier := Finite, Valid := true }
          [] = .ok (some bytes) ∧
        scanPlanBinaryNumericToNumericScanner (some bytes) = some (.ok m) ∧
        m.denote = some (.finite (-12345 * 10 ^ (-3 : ℤ)))) ∧
      ∃ text m, encodeNumericText
          { Int := some (-12345), Exp := -3, NaN := false, InfinityModifier := Finite, Valid := true }
          [] = some text ∧
        scanPlanTextAnyToNumericScanner (some text) = .ok m ∧
        m.denote = some (.finite (-12345 * 10 ^ (-3 : ℤ))) := by
  -- the header: one whole digit `12`, one fractional digit `3450`, weight 0, scale 3
  have hfits : NumericHeaderFits (-12345) (-3) := by
    obtain ⟨-, hw, hf, -, -⟩ := numericDigits_spec (-12345) (-3)
    have hweight := weight_numericDigits (-12345) (-3)
    have hk : fracCount (-3) = 1 := by decide
    have hm : scaledMagnitude (-12345) (-3) = 123450 := by decide
    rw [hk, hm] at hw
    rw [hk] at hf hweight
    norm_num [nbase] at hw
    simp [NumericHeaderFits, hw, hf, hweight, dscaleOf]
  have hn : ({
      Int := some (-12345), Exp := -3, NaN := false, InfinityModifier := Finite,
      Valid := true } : Numeric).HeaderFits := Or.inr (Or.inr (Or.inr ⟨-12345, rfl, hfits⟩))
  have hden : ({
      Int := some (-12345), Exp := -3, NaN := false, InfinityModifier := Finite,
      Valid := true } : Numeric).denote = some (.finite (-12345 * 10 ^ (-3 : ℤ))) := by
    simp [Numeric.denote, Finite, Infinity, NegativeInfinity]
  rw [← hden]
  exact ⟨hn, numeric_codecs_keep_value _ rfl hn⟩

end GaussdbGo.Gaussdbtype
