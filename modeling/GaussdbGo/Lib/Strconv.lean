import Mathlib

/-!
# Decimal integers (`strconv.Itoa`, `strconv.ParseInt(s, 10, bitSize)`)

`ParseInt` follows the scan of Go's `ParseUint`: a non-digit ends it with a
syntax error and value `0`; a value past `2 ^ bitSize - 1` ends it at once with
a range error and the largest value, even when a non-digit follows. The
signed result is then clamped to the `bitSize` range. Callers that drop the
error (`n, _ := strconv.ParseInt(...)`) see only the value, which is what is
modelled.
-/

namespace GoStd.Strconv

/-- The ASCII bytes of the decimal digits of `n`. -/
def natDigits (n : Nat) : List UInt8 :=
  (Nat.toDigits 10 n).map fun c => c.toNat.toUInt8

/-- `strconv.Itoa(n)`. -/
def itoa (n : Int) : List UInt8 :=
  (if n < 0 then [45] else []) ++ natDigits n.natAbs

/-- The scan of `ParseUint(s, 10, bitSize)` from accumulated value `n`:
`none` on a syntax error, the clamped maximum on overflow. -/
def parseUintScan (maxVal : Nat) : Nat → List UInt8 → Option Nat
  | n, [] => some n
  | n, c :: cs =>
    if 48 ≤ c.toNat ∧ c.toNat ≤ 57 then
      let n₁ := n * 10 + (c.toNat - 48)
      if maxVal < n₁ then some maxVal else parseUintScan maxVal n₁ cs
    else none

/-- The value of `strconv.ParseUint(s, 10, bitSize)`, `none` for a syntax
error. -/
def parseUint (s : List UInt8) (bitSize : Nat) : Option Nat :=
  if s = [] then none else parseUintScan (2 ^ bitSize - 1) 0 s

/-- The value of `strconv.ParseInt(s, 10, bitSize)` (the error dropped). -/
def parseInt (s : List UInt8) (bitSize : Nat) : Int :=
  let cutoff : Nat := 2 ^ (bitSize - 1)
  let (neg, digits) := match s with
    | 43 :: rest => (false, rest)
    | 45 :: rest => (true, rest)
    | _ => (false, s)
  if s = [] then 0 else
  match parseUint digits bitSize with
  | none => 0
  | some un =>
    if !neg && cutoff ≤ un then (cutoff : Int) - 1
    else if neg && cutoff < un then -(cutoff : Int)
    else if neg then -(un : Int) else un

/-! ## The decimal digits `Itoa` writes -/

/-- An ASCII decimal digit. -/
def IsDecimalDigit (b : UInt8) : Prop := 48 ≤ b.toNat ∧ b.toNat ≤ 57

instance (b : UInt8) : Decidable (IsDecimalDigit b) := inferInstanceAs (Decidable (_ ∧ _))

/-- The value of a run of decimal digits. -/
def digitsValue (ds : List UInt8) : Nat := ds.foldl (fun v d => v * 10 + (d.toNat - 48)) 0

theorem foldl_digitsValue (ds : List UInt8) (v : Nat) :
    ds.foldl (fun v d => v * 10 + (d.toNat - 48)) v = v * 10 ^ ds.length + digitsValue ds := by
  induction ds generalizing v with
  | nil => simp [digitsValue]
  | cons d ds ih =>
    simp only [digitsValue, List.foldl_cons, List.length_cons, Nat.zero_mul, Nat.zero_add] at ih ⊢
    rw [ih, ih (d.toNat - 48), Nat.pow_succ]
    ring

theorem digitsValue_append (xs ys : List UInt8) :
    digitsValue (xs ++ ys) = digitsValue xs * 10 ^ ys.length + digitsValue ys := by
  rw [digitsValue, List.foldl_append, foldl_digitsValue]
  rfl

@[simp] theorem digitsValue_nil : digitsValue [] = 0 := rfl

theorem digitsValue_replicate_zero (j : Nat) : digitsValue (List.replicate j 48) = 0 := by
  induction j with
  | zero => rfl
  | succ j ih =>
    rw [List.replicate_succ', digitsValue_append, ih]
    rfl

theorem natDigits_of_lt {n : Nat} (h : n < 10) : natDigits n = [UInt8.ofNat (48 + n)] := by
  simp only [natDigits, Nat.toDigits_of_lt_base h, List.map_cons, List.map_nil, List.cons.injEq,
    and_true]
  interval_cases n <;> rfl

theorem natDigits_of_le {n : Nat} (h : 10 ≤ n) :
    natDigits n = natDigits (n / 10) ++ [UInt8.ofNat (48 + n % 10)] := by
  have hd : natDigits (n % 10) = [UInt8.ofNat (48 + n % 10)] := natDigits_of_lt (Nat.mod_lt _ (by decide))
  simp only [natDigits, Nat.toDigits_of_base_le (by decide) h, List.map_append] at hd ⊢
  rw [← hd, Nat.toDigits_of_lt_base (Nat.mod_lt _ (by decide))]

/-- `Itoa` writes decimal digits, at least one, and they read back as the
number: the induction follows `Nat.toDigits`, one digit off the end a step. -/
theorem natDigits_spec (n : Nat) :
    natDigits n ≠ [] ∧ (∀ d ∈ natDigits n, IsDecimalDigit d) ∧ digitsValue (natDigits n) = n := by
  induction n using Nat.strong_induction_on with
  | _ n ih =>
    by_cases h : n < 10
    · rw [natDigits_of_lt h]
      have h48 : (UInt8.ofNat (48 + n)).toNat = 48 + n := UInt8.toNat_ofNat_of_lt' (by simp [UInt8.size]; omega)
      refine ⟨List.cons_ne_nil _ _, ?_, ?_⟩
      · simp only [List.mem_singleton, forall_eq, IsDecimalDigit, h48]
        omega
      · simp only [digitsValue, List.foldl_cons, List.foldl_nil, h48]
        omega
    · obtain ⟨-, hdig, hval⟩ := ih (n / 10) (Nat.div_lt_self (by omega) (by decide))
      have h48 : (UInt8.ofNat (48 + n % 10)).toNat = 48 + n % 10 :=
        UInt8.toNat_ofNat_of_lt' (by simp [UInt8.size]; omega)
      rw [natDigits_of_le (by omega)]
      refine ⟨by simp, ?_, ?_⟩
      · intro d hd
        rcases List.mem_append.mp hd with hd | hd
        · exact hdig d hd
        · rw [List.mem_singleton.mp hd]
          simp only [IsDecimalDigit, h48]
          omega
      · rw [digitsValue_append, hval]
        simp only [digitsValue, List.foldl_cons, List.foldl_nil, h48, List.length_singleton]
        omega

theorem length_natDigits_le {n e : Nat} (he : 0 < e) (h : n < 10 ^ e) : (natDigits n).length ≤ e := by
  simpa [natDigits] using Nat.toDigits_length 10 n e he h

/-! ## `ParseUint` with its error -/

/-- The errors of `ParseUint`. -/
inductive NumError where
  /-- `ErrSyntax` -/
  | errSyntax
  /-- `ErrRange` -/
  | errRange
  deriving DecidableEq, Repr

/-- The scan of `ParseUint(s, 10, bitSize)` from accumulated value `n`, with
its error: a non-digit is a syntax error, a value past `maxVal` a range error
at once. -/
def parseUintScanChecked (maxVal : Nat) : Nat → List UInt8 → Except NumError Nat
  | n, [] => .ok n
  | n, c :: cs =>
    if 48 ≤ c.toNat ∧ c.toNat ≤ 57 then
      let n₁ := n * 10 + (c.toNat - 48)
      if maxVal < n₁ then .error .errRange else parseUintScanChecked maxVal n₁ cs
    else .error .errSyntax

/-- `strconv.ParseUint(s, 10, bitSize)`, with its error. -/
def parseUintChecked (s : List UInt8) (bitSize : Nat) : Except NumError Nat :=
  if s = [] then .error .errSyntax else parseUintScanChecked (2 ^ bitSize - 1) 0 s

theorem digitsValue_cons (d : UInt8) (ds : List UInt8) :
    digitsValue (d :: ds) = (d.toNat - 48) * 10 ^ ds.length + digitsValue ds := by
  have hd : digitsValue [d] = d.toNat - 48 := by simp [digitsValue]
  rw [← List.singleton_append, digitsValue_append, hd]

/-- Digits whose value fits are read to the end: each value on the way is at
most the last. -/
theorem parseUintScanChecked_digits {maxVal : Nat} :
    ∀ {ds : List UInt8} (n : Nat), (∀ d ∈ ds, IsDecimalDigit d) →
      n * 10 ^ ds.length + digitsValue ds ≤ maxVal →
      parseUintScanChecked maxVal n ds = .ok (n * 10 ^ ds.length + digitsValue ds)
  | [], n, _, _ => by simp [parseUintScanChecked]
  | d :: ds, n, hd, hle => by
    have hdig : 48 ≤ d.toNat ∧ d.toNat ≤ 57 := hd d (List.mem_cons_self ..)
    have hval : n * 10 ^ (d :: ds).length + digitsValue (d :: ds) =
        (n * 10 + (d.toNat - 48)) * 10 ^ ds.length + digitsValue ds := by
      rw [digitsValue_cons, List.length_cons, Nat.pow_succ]
      ring
    have hstep : n * 10 + (d.toNat - 48) ≤ (n * 10 + (d.toNat - 48)) * 10 ^ ds.length :=
      Nat.le_mul_of_pos_right _ (Nat.pow_pos (by decide))
    rw [hval] at hle ⊢
    rw [parseUintScanChecked, if_pos hdig]
    dsimp only
    rw [if_neg (by omega)]
    exact parseUintScanChecked_digits _ (fun d' hd' => hd d' (List.mem_cons_of_mem _ hd')) hle

/-- `Itoa` of a value that fits reads back. -/
theorem parseUintChecked_natDigits {n bitSize : Nat} (h : n < 2 ^ bitSize) :
    parseUintChecked (natDigits n) bitSize = .ok n := by
  obtain ⟨hne, hdig, hval⟩ := natDigits_spec n
  rw [parseUintChecked, if_neg hne, parseUintScanChecked_digits 0 hdig (by omega)]
  simp [hval]

/-! ## `ParseInt` with its error, and `fmt`'s zero-padded integers -/

/-- `strconv.ParseInt(s, 10, bitSize)`, with its error. -/
def parseIntChecked (s : List UInt8) (bitSize : Nat) : Except NumError Int :=
  match s with
  | [] => .error .errSyntax
  | c :: rest =>
    -- the leading sign is picked off
    let (neg, digits) :=
      if c = 43 then (false, rest) else if c = 45 then (true, rest) else (false, c :: rest)
    let cutoff : Nat := 2 ^ (bitSize - 1)
    match parseUintChecked digits bitSize with
    | .error e => .error e
    | .ok un =>
      if !neg && cutoff ≤ un then .error .errRange
      else if neg && cutoff < un then .error .errRange
      else .ok (if neg then -(un : Int) else un)

/-- `fmt.Sprintf("%0wd", n)`: the sign, then the digits padded with zeros to
the width less the sign's. -/
def sprintfZeroPad (width : Nat) (n : Int) : List UInt8 :=
  let sign : List UInt8 := if n < 0 then [45] else []
  let digits := natDigits n.natAbs
  sign ++ List.replicate (width - sign.length - digits.length) 48 ++ digits

/-- Zeros in front of a number's digits: digits still, of the same value. -/
theorem zeros_natDigits_spec (k v : Nat) :
    List.replicate k 48 ++ natDigits v ≠ [] ∧
      (∀ d ∈ List.replicate k 48 ++ natDigits v, IsDecimalDigit d) ∧
      digitsValue (List.replicate k 48 ++ natDigits v) = v := by
  obtain ⟨hne, hdig, hval⟩ := natDigits_spec v
  refine ⟨by simp [hne], fun d hd => ?_, ?_⟩
  · rcases List.mem_append.mp hd with hd | hd
    · rw [List.eq_of_mem_replicate hd]
      decide
    · exact hdig d hd
  · rw [digitsValue_append, digitsValue_replicate_zero, hval, Nat.zero_mul, Nat.zero_add]

/-- A run of digits, zeros in front allowed, reads back as its value. -/
theorem parseIntChecked_zeros {k v bitSize : Nat} (hb : 1 ≤ bitSize) (hv : v < 2 ^ (bitSize - 1)) :
    parseIntChecked (List.replicate k 48 ++ natDigits v) bitSize = .ok v := by
  obtain ⟨hne, hdig, hval⟩ := zeros_natDigits_spec k v
  have hpow : 2 ^ (bitSize - 1) ≤ 2 ^ bitSize - 1 := by
    have := Nat.pow_lt_pow_right (a := 2) (by decide) (show bitSize - 1 < bitSize by omega)
    omega
  have hparse : parseUintChecked (List.replicate k 48 ++ natDigits v) bitSize = .ok v := by
    rw [parseUintChecked, if_neg hne, parseUintScanChecked_digits 0 hdig (by omega)]
    simp [hval]
  -- the first byte is a digit, not a sign
  obtain ⟨d, ds, hds⟩ := List.exists_cons_of_ne_nil hne
  have hd : IsDecimalDigit d := hdig d (by simp [hds])
  have h43 : d ≠ 43 := fun h => by subst h; revert hd; decide
  have h45 : d ≠ 45 := fun h => by subst h; revert hd; decide
  rw [hds, parseIntChecked]
  simp only [if_neg h43, if_neg h45]
  rw [← hds, hparse]
  simp only [Bool.not_false, Bool.true_and, decide_eq_true_eq, Bool.false_and, Bool.false_eq_true,
    if_false]
  rw [if_neg (by omega)]

/-- A minus sign and a run of digits read back as the negated value. -/
theorem parseIntChecked_neg_zeros {k v bitSize : Nat} (hb : 1 ≤ bitSize) (hv : v ≤ 2 ^ (bitSize - 1)) :
    parseIntChecked (45 :: (List.replicate k 48 ++ natDigits v)) bitSize = .ok (-(v : Int)) := by
  obtain ⟨hne, hdig, hval⟩ := zeros_natDigits_spec k v
  have hpow : 2 ^ (bitSize - 1) ≤ 2 ^ bitSize - 1 := by
    have := Nat.pow_lt_pow_right (a := 2) (by decide) (show bitSize - 1 < bitSize by omega)
    omega
  have hparse : parseUintChecked (List.replicate k 48 ++ natDigits v) bitSize = .ok v := by
    rw [parseUintChecked, if_neg hne, parseUintScanChecked_digits 0 hdig (by omega)]
    simp [hval]
  rw [parseIntChecked]
  simp only [show (45 : UInt8) ≠ 43 by decide, if_false, if_true, hparse, Bool.not_true, Bool.false_and, Bool.false_eq_true, if_false, Bool.true_and,
    decide_eq_true_eq, if_true]
  rw [if_neg (by omega)]

theorem sprintfZeroPad_of_nonneg (width : Nat) {n : Int} (hn : 0 ≤ n) :
    sprintfZeroPad width n =
      List.replicate (width - (natDigits n.natAbs).length) 48 ++ natDigits n.natAbs := by
  simp only [sprintfZeroPad, if_neg (Int.not_lt.mpr hn), List.nil_append, List.length_nil,
    Nat.sub_zero]

/-- `%0wd` of a number of at most `w` digits is `w` bytes long. -/
theorem length_sprintfZeroPad {width : Nat} {n : Int} (hn : 0 ≤ n)
    (hw : (natDigits n.natAbs).length ≤ width) : (sprintfZeroPad width n).length = width := by
  rw [sprintfZeroPad_of_nonneg width hn, List.length_append, List.length_replicate]
  omega

/-- `%0wd` of a nonnegative number starts with a digit. -/
theorem sprintfZeroPad_head {width : Nat} {n : Int} (hn : 0 ≤ n) :
    ∃ c rest, sprintfZeroPad width n = c :: rest ∧ IsDecimalDigit c := by
  obtain ⟨hne, hdig, -⟩ := zeros_natDigits_spec (width - (natDigits n.natAbs).length) n.natAbs
  obtain ⟨c, rest, hc⟩ := List.exists_cons_of_ne_nil hne
  rw [sprintfZeroPad_of_nonneg width hn, hc]
  exact ⟨c, rest, rfl, hdig c (by simp [hc])⟩

/-- `%0wd` of a number in range reads back as it. -/
theorem parseIntChecked_sprintfZeroPad {bitSize : Nat} (hb : 1 ≤ bitSize) (width : Nat) {n : Int}
    (hlo : -(2 ^ (bitSize - 1) : Int) ≤ n) (hhi : n < 2 ^ (bitSize - 1)) :
    parseIntChecked (sprintfZeroPad width n) bitSize = .ok n := by
  have hcast : ((2 ^ (bitSize - 1) : Nat) : Int) = 2 ^ (bitSize - 1) := by push_cast; rfl
  dsimp only [sprintfZeroPad]
  by_cases hn : n < 0
  · rw [if_pos hn, List.singleton_append, List.cons_append,
      parseIntChecked_neg_zeros hb (by omega)]
    congr 1
    omega
  · rw [if_neg hn, List.nil_append, parseIntChecked_zeros hb (by omega)]
    congr 1
    omega

/-- `FormatInt(n, 10)` of a number in range reads back as it. -/
theorem parseIntChecked_itoa {bitSize : Nat} (hb : 1 ≤ bitSize) {n : Int}
    (hlo : -(2 ^ (bitSize - 1) : Int) ≤ n) (hhi : n < 2 ^ (bitSize - 1)) :
    parseIntChecked (itoa n) bitSize = .ok n := by
  have h : itoa n = sprintfZeroPad 0 n := by
    simp only [itoa, sprintfZeroPad, Nat.zero_sub, List.replicate_zero, List.append_nil]
  rw [h, parseIntChecked_sprintfZeroPad hb 0 hlo hhi]

/-- `%0wd` writes a minus sign and decimal digits. -/
theorem mem_sprintfZeroPad {width : Nat} {n : Int} {c : UInt8} (hc : c ∈ sprintfZeroPad width n) :
    c = 45 ∨ IsDecimalDigit c := by
  dsimp only [sprintfZeroPad] at hc
  rcases List.mem_append.mp hc with hc | hc
  · rcases List.mem_append.mp hc with hc | hc
    · split at hc
      · exact Or.inl (List.mem_singleton.mp hc)
      · cases hc
    · rw [List.eq_of_mem_replicate hc]
      exact Or.inr (by decide)
  · exact Or.inr ((natDigits_spec _).2.1 c hc)

theorem mem_itoa {n : Int} {c : UInt8} (hc : c ∈ itoa n) : c = 45 ∨ IsDecimalDigit c := by
  unfold itoa at hc
  rcases List.mem_append.mp hc with hc | hc
  · split at hc
    · exact Or.inl (List.mem_singleton.mp hc)
    · cases hc
  · exact Or.inr ((natDigits_spec _).2.1 c hc)

end GoStd.Strconv
