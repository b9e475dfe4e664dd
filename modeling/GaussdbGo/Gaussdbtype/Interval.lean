import GaussdbGo.Lib.Go
import GaussdbGo.Lib.Strconv
import GaussdbGo.Lib.Strings
import GaussdbGo.Proto.Wire

/-!
# gaussdbtype — intervals in text

An interval travels in text as `n mon ` when its months are not zero, `n day `
when its days are not zero, and its microseconds as `[-]hh:mm:ss[.ffffff]`:
the hours, minutes and seconds of the absolute value, with the sign in
front. The scanner splits the text at its blanks, reads the number and unit
pairs, and reads the last piece as the time when the pieces are odd in number.

The encoder negates a negative count of microseconds, which leaves the
smallest `int64` as it is; every field it then prints carries a sign, and the
scanner's own arithmetic wraps back to the same value.
-/

namespace GaussdbGo.Gaussdbtype

open GoStd GoStd.Strconv GoStd.Strings GaussdbGo.Proto

/-- `microsecondsPerSecond`. -/
def microsecondsPerSecond : Int64 := 1000000
/-- `microsecondsPerMinute`. -/
def microsecondsPerMinute : Int64 := 60 * microsecondsPerSecond
/-- `microsecondsPerHour`. -/
def microsecondsPerHour : Int64 := 60 * microsecondsPerMinute

/-- `Interval`, valid. -/
structure Interval where
  microseconds : Int64
  days : Int32
  months : Int32
  deriving DecidableEq, Repr

/-! ## Encoding -/

/-- The time `encodePlanIntervalCodecText.Encode` writes: the sign, then
`%02d:%02d:%02d` of the hours, minutes and seconds of the absolute value, and
`.%06d` of its microseconds unless they are zero. -/
def intervalTimeText (microseconds : Int64) : Bytes :=
  -- a negative count is negated and its sign written first
  let absMicroseconds := if microseconds < 0 then -microseconds else microseconds
  let sign : Bytes := if microseconds < 0 then [45] else []
  let hours := absMicroseconds / microsecondsPerHour
  let minutes := (absMicroseconds % microsecondsPerHour) / microsecondsPerMinute
  let seconds := (absMicroseconds % microsecondsPerMinute) / microsecondsPerSecond
  let timeStr := sprintfZeroPad 2 hours.toInt ++ 58 :: sprintfZeroPad 2 minutes.toInt ++
    58 :: sprintfZeroPad 2 seconds.toInt
  let microseconds := absMicroseconds % microsecondsPerSecond
  sign ++ timeStr ++ if microseconds ≠ 0 then 46 :: sprintfZeroPad 6 microseconds.toInt else []

/-- `encodePlanIntervalCodecText.Encode` of a valid interval. -/
def encodeIntervalText (interval : Interval) (buf : Bytes) : Bytes :=
  let buf := if interval.months ≠ 0 then buf ++ itoa interval.months.toInt ++ [32, 109, 111, 110, 32]
    else buf
  let buf := if interval.days ≠ 0 then buf ++ itoa interval.days.toInt ++ [32, 100, 97, 121, 32]
    else buf
  buf ++ intervalTimeText interval.microseconds

/-! ## Scanning -/

/-- The errors of `scanPlanTextAnyToIntervalScanner.Scan`. -/
inductive IntervalScanError where
  /-- `bad interval format` -/
  | badIntervalFormat
  /-- `bad interval hour format: %s` -/
  | badHourFormat (s : Bytes)
  /-- `bad interval minute format: %s` -/
  | badMinuteFormat (s : Bytes)
  /-- `bad interval second format: %s` -/
  | badSecondFormat (s : Bytes)
  /-- `bad interval decimal format: %s` -/
  | badDecimalFormat (s : Bytes)
  deriving DecidableEq, Repr

/-- `strconv.ParseInt(s, 10, 64)`, its error replaced by the scanner's. -/
def parseInt64 (s : Bytes) (e : IntervalScanError) : Go IntervalScanError Int64 :=
  match parseIntChecked s 64 with
  | .error _ => raise e
  | .ok v => pure (Int64.ofInt v)

/-- The loop over the number and unit pairs of the pieces, `i < len(parts)-1`:
years and months add to the months, and days set the days. -/
def intervalUnits (months days : Int32) : List Bytes → Go IntervalScanError (Int32 × Int32)
  | scalarText :: unit :: parts => do
    let scalar ← parseInt64 scalarText .badIntervalFormat
    if unit = [121, 101, 97, 114] ∨ unit = [121, 101, 97, 114, 115] then
      intervalUnits (months + (scalar * 12).toInt32) days parts
    else if unit = [109, 111, 110] ∨ unit = [109, 111, 110, 115] then
      intervalUnits (months + scalar.toInt32) days parts
    else if unit = [100, 97, 121] ∨ unit = [100, 97, 121, 115] then
      intervalUnits months scalar.toInt32 parts
    else intervalUnits months days parts
  | _ => pure (months, days)

/-- `for i := 0; i < 6-len(secFrac); i++ { uSeconds *= 10 }`. -/
def timesTen : Nat → Int64 → Int64
  | 0, u => u
  | k + 1, u => timesTen k (u * 10)

/-- `if timeParts[0][0] == '-'`: the sign, and the hours without it; an empty
hour text panics at the index. -/
def hourSign : Bytes → Go IntervalScanError (Bool × Bytes)
  | [] => crash (.indexOutOfRange 0 0)
  | c :: rest => pure (if c = 45 then (true, rest) else (false, c :: rest))

/-- The last piece read as `[-]h:m:s[.f]`, in microseconds. -/
def scanIntervalTime (part : Bytes) : Go IntervalScanError Int64 :=
  match splitN 58 part 3 with
  | [hourText, minuteText, secondText] => do
    let (negative, hourText) ← hourSign hourText
    let hours ← parseInt64 hourText (.badHourFormat hourText)
    let minutes ← parseInt64 minuteText (.badMinuteFormat minuteText)
    let (sec, secFrac, secFracFound) := cut 46 secondText
    let seconds ← parseInt64 sec (.badSecondFormat sec)
    let uSeconds ← if secFracFound then do
        let u ← parseInt64 secFrac (.badDecimalFormat secFrac)
        pure (timesTen (6 - secFrac.length) u)
      else pure 0
    let microseconds := hours * microsecondsPerHour + minutes * microsecondsPerMinute +
      seconds * microsecondsPerSecond + uSeconds
    pure (if negative then -microseconds else microseconds)
  | _ => raise .badIntervalFormat

/-- `scanPlanTextAnyToIntervalScanner.Scan` of a non-NULL text. -/
def scanIntervalText (src : Bytes) : Go IntervalScanError Interval := do
  let parts := src.splitOn 32
  let (months, days) ← intervalUnits 0 0 parts
  let microseconds ← if parts.length % 2 = 1 then scanIntervalTime (parts.getLastD []) else pure 0
  pure ⟨microseconds, days, months⟩

/-! ## The fields the encoder prints -/

/-- Division of a nonnegative `int64`, as Go truncates it. -/
theorem toInt_div_of_nonneg {x : Int64} (hx : 0 ≤ x.toInt) (y : Int64) :
    (x / y).toInt = x.toInt / y.toInt := by
  have hne : x ≠ Int64.minValue := fun h => by
    rw [h, Int64.toInt_minValue] at hx
    omega
  rw [Int64.toInt_div_of_ne_left x y hne, Int.tdiv_eq_ediv_of_nonneg hx]

/-- The remainder of a nonnegative `int64`. -/
theorem toInt_mod_of_nonneg {x : Int64} (hx : 0 ≤ x.toInt) (y : Int64) :
    (x % y).toInt = x.toInt % y.toInt := by
  rw [Int64.toInt_mod, Int.tmod_eq_emod_of_nonneg hx]

/-- Negating a count of microseconds other than the smallest gives its
absolute value. -/
theorem toInt_absMicroseconds {μs : Int64} (h : μs ≠ Int64.minValue) :
    (if μs < 0 then -μs else μs).toInt = (μs.toInt.natAbs : Int) := by
  have hmin : μs.toInt ≠ -2 ^ 63 := fun h' =>
    h (Int64.toInt_inj.mp (by rw [h', Int64.toInt_minValue]))
  have hlo := Int64.le_toInt μs
  have hhi := Int64.toInt_lt μs
  split
  · rename_i hneg
    rw [Int64.lt_iff_toInt_lt, Int64.toInt_zero] at hneg
    rw [Int64.toInt_neg, Int.bmod_eq_of_le (by omega) (by omega)]
    omega
  · rename_i hnonneg
    rw [Int64.lt_iff_toInt_lt, Int64.toInt_zero] at hnonneg
    omega

/-- What `intervalTimeText` prints of a count of microseconds other than the
smallest: the sign, then the hours, minutes, seconds and microseconds of its
absolute value `a`. -/
theorem intervalTimeText_of_ne_minValue {μs : Int64} (h : μs ≠ Int64.minValue) :
    let a : Int := μs.toInt.natAbs
    intervalTimeText μs = (if μs < 0 then [45] else []) ++
      (sprintfZeroPad 2 (a / 3600000000) ++ 58 :: sprintfZeroPad 2 (a % 3600000000 / 60000000) ++
        58 :: sprintfZeroPad 2 (a % 60000000 / 1000000)) ++
      if a % 1000000 ≠ 0 then 46 :: sprintfZeroPad 6 (a % 1000000) else [] := by
  intro a
  have habs := toInt_absMicroseconds h
  have hnn : 0 ≤ (if μs < 0 then -μs else μs).toInt := by rw [habs]; omega
  have hf : ((if μs < 0 then -μs else μs) % microsecondsPerSecond).toInt = a % 1000000 := by
    rw [toInt_mod_of_nonneg hnn, habs]
    rfl
  have hfne : ((if μs < 0 then -μs else μs) % microsecondsPerSecond ≠ 0) ↔ a % 1000000 ≠ 0 := by
    rw [ne_eq, ← Int64.toInt_inj, hf, Int64.toInt_zero]
  have hA : 0 ≤ (((if μs < 0 then -μs else μs) % microsecondsPerHour)).toInt := by
    rw [toInt_mod_of_nonneg hnn]
    exact Int.emod_nonneg _ (by decide)
  have hA' : 0 ≤ (((if μs < 0 then -μs else μs) % microsecondsPerMinute)).toInt := by
    rw [toInt_mod_of_nonneg hnn]
    exact Int.emod_nonneg _ (by decide)
  dsimp only [intervalTimeText]
  rw [toInt_div_of_nonneg hnn, toInt_div_of_nonneg hA, toInt_div_of_nonneg hA',
    toInt_mod_of_nonneg hnn, toInt_mod_of_nonneg hnn, habs, if_congr hfne rfl rfl, hf]
  rfl

/-! ## Reading the time back -/

theorem not_mem_sprintfZeroPad {c : UInt8} (hc : c ≠ 45) (hd : ¬ IsDecimalDigit c) (width : Nat)
    (n : Int) : c ∉ sprintfZeroPad width n := fun h =>
  (mem_sprintfZeroPad h).elim hc hd

theorem parseInt64_sprintfZeroPad (width : Nat) {n : Int} (hn : 0 ≤ n ∧ n < 2 ^ 63)
    (e : IntervalScanError) : parseInt64 (sprintfZeroPad width n) e = .ok (Int64.ofInt n) := by
  rw [parseInt64, parseIntChecked_sprintfZeroPad (by decide) width (by omega) (by omega)]
  rfl

/-- The sign in front of nonnegative hours is read off them. -/
theorem hourSign_sprintfZeroPad (neg : Prop) [Decidable neg] {h : Int} (hh : 0 ≤ h) :
    hourSign ((if neg then [45] else []) ++ sprintfZeroPad 2 h) = .ok (decide neg, sprintfZeroPad 2 h) := by
  by_cases hneg : neg
  · rw [if_pos hneg, List.singleton_append, hourSign, decide_eq_true hneg, if_pos rfl]
    rfl
  · obtain ⟨c, rest, hc, hdig⟩ := @sprintfZeroPad_head 2 h hh
    have h45 : c ≠ 45 := fun h => by subst h; revert hdig; decide
    rw [if_neg hneg, List.nil_append, hc, hourSign, decide_eq_false hneg, if_neg h45]
    rfl

/-- The microseconds of a time, from the Go constants. -/
theorem time_sum (h m s f : Int) :
    Int64.ofInt h * microsecondsPerHour + Int64.ofInt m * microsecondsPerMinute +
        Int64.ofInt s * microsecondsPerSecond + Int64.ofInt f =
      Int64.ofInt (h * 3600000000 + m * 60000000 + s * 1000000 + f) := by
  have hH : microsecondsPerHour = Int64.ofInt 3600000000 := by decide
  have hM : microsecondsPerMinute = Int64.ofInt 60000000 := by decide
  have hS : microsecondsPerSecond = Int64.ofInt 1000000 := by decide
  rw [hH, hM, hS, ← Int64.ofInt_mul, ← Int64.ofInt_mul, ← Int64.ofInt_mul, ← Int64.ofInt_add,
    ← Int64.ofInt_add, ← Int64.ofInt_add]

/-- The scanner reads back the time the encoder prints from its fields. -/
theorem scanIntervalTime_fields (neg : Prop) [Decidable neg] {h m s f : Int}
    (hh : 0 ≤ h ∧ h < 2 ^ 63) (hm : 0 ≤ m ∧ m < 60) (hs : 0 ≤ s ∧ s < 60)
    (hf : 0 ≤ f ∧ f < 1000000) :
    scanIntervalTime ((if neg then [45] else []) ++
      (sprintfZeroPad 2 h ++ 58 :: sprintfZeroPad 2 m ++ 58 :: sprintfZeroPad 2 s) ++
      if f ≠ 0 then 46 :: sprintfZeroPad 6 f else []) =
    .ok (if neg then -Int64.ofInt (h * 3600000000 + m * 60000000 + s * 1000000 + f)
      else Int64.ofInt (h * 3600000000 + m * 60000000 + s * 1000000 + f)) := by
  have h58 : ∀ w n, (58 : UInt8) ∉ sprintfZeroPad w n := not_mem_sprintfZeroPad (by decide) (by decide)
  have hsign : (58 : UInt8) ∉ (if neg then [45] else []) := by split <;> simp
  have hfrac : (58 : UInt8) ∉ sprintfZeroPad 2 s ++ if f ≠ 0 then 46 :: sprintfZeroPad 6 f else [] := by
    intro hmem
    rcases List.mem_append.mp hmem with hmem | hmem
    · exact h58 _ _ hmem
    · split at hmem
      · rcases List.mem_cons.mp hmem with hmem | hmem
        · cases hmem
        · exact h58 _ _ hmem
      · cases hmem
  -- the three pieces `SplitN` cuts at the colons
  have htext : (if neg then [45] else []) ++
      (sprintfZeroPad 2 h ++ 58 :: sprintfZeroPad 2 m ++ 58 :: sprintfZeroPad 2 s) ++
      (if f ≠ 0 then 46 :: sprintfZeroPad 6 f else []) =
      ((if neg then [45] else []) ++ sprintfZeroPad 2 h) ++ 58 :: (sprintfZeroPad 2 m ++
        58 :: (sprintfZeroPad 2 s ++ if f ≠ 0 then 46 :: sprintfZeroPad 6 f else [])) := by
    simp only [List.append_assoc, List.cons_append]
  rw [htext, scanIntervalTime, splitN_append (by simp [hsign, h58]), splitN_append (h58 _ _),
    splitN_of_not_mem hfrac]
  dsimp only
  have h46 : ∀ w n, (46 : UInt8) ∉ sprintfZeroPad w n := not_mem_sprintfZeroPad (by decide) (by decide)
  rw [hourSign_sprintfZeroPad neg hh.1, ok_bind, parseInt64_sprintfZeroPad 2 hh, ok_bind,
    parseInt64_sprintfZeroPad 2 ⟨hm.1, by omega⟩, ok_bind]
  by_cases hf0 : f = 0
  · -- no fraction: `Cut` finds no point
    subst hf0
    rw [if_neg (not_not.mpr rfl), List.append_nil, cut_of_not_mem (h46 _ _)]
    dsimp only
    rw [parseInt64_sprintfZeroPad 2 ⟨hs.1, by omega⟩, ok_bind, if_neg Bool.false_ne_true,
      ← time_sum h m s 0, show Int64.ofInt 0 = 0 from rfl]
    simp only [decide_eq_true_eq]
    rfl
  · -- six digits after the point: nothing to scale
    rw [if_pos hf0, cut_append (h46 _ _)]
    dsimp only
    have hlen : (sprintfZeroPad 6 f).length = 6 := length_sprintfZeroPad hf.1
      (length_natDigits_le (by decide) (by omega))
    rw [parseInt64_sprintfZeroPad 2 ⟨hs.1, by omega⟩, ok_bind, if_pos rfl,
      parseInt64_sprintfZeroPad 6 ⟨hf.1, by omega⟩, ok_bind, hlen, ← time_sum h m s f]
    simp only [decide_eq_true_eq]
    rfl

/-- The time the encoder prints is read back, the smallest `int64` too: its
negation leaves it negative, every field then prints with a sign, and the
scanner's sum wraps back to it. -/
theorem scanIntervalTime_intervalTimeText (μs : Int64) : scanIntervalTime (intervalTimeText μs) = .ok μs := by
  by_cases hmin : μs = Int64.minValue
  · subst hmin
    rfl
  have habs := toInt_absMicroseconds hmin
  have hlo := Int64.le_toInt μs
  have hhi := Int64.toInt_lt μs
  have hne : μs.toInt ≠ -2 ^ 63 := fun h' => hmin (Int64.toInt_inj.mp (by rw [h', Int64.toInt_minValue]))
  rw [intervalTimeText_of_ne_minValue hmin,
    scanIntervalTime_fields (μs < 0) ⟨by omega, by omega⟩ ⟨by omega, by omega⟩ ⟨by omega, by omega⟩
    ⟨by omega, by omega⟩]
  -- the fields add up to the absolute value
  have hsum : (μs.toInt.natAbs : Int) / 3600000000 * 3600000000 +
      (μs.toInt.natAbs : Int) % 3600000000 / 60000000 * 60000000 +
      (μs.toInt.natAbs : Int) % 60000000 / 1000000 * 1000000 + (μs.toInt.natAbs : Int) % 1000000 =
      (μs.toInt.natAbs : Int) := by omega
  rw [hsum, ← habs, Int64.ofInt_toInt]
  split
  · rw [Int64.neg_neg]
  · rfl

/-- The smallest `int64` is printed with a sign in every field. -/
example : intervalTimeText (-9223372036854775808) =
    [45, 45, 50, 53, 54, 50, 48, 52, 55, 55, 56, 56, 58, 48, 48, 58, 45, 53, 52, 46, 45, 55, 55, 53,
      56, 48, 56] := by rfl

/-! ## The whole text -/

/-- The number and unit pieces the encoder writes before the time. -/
def unitPieces (interval : Interval) : List Bytes :=
  (if interval.months ≠ 0 then [itoa interval.months.toInt, [109, 111, 110]] else []) ++
    if interval.days ≠ 0 then [itoa interval.days.toInt, [100, 97, 121]] else []

/-- The encoder's text is its pieces joined by blanks. -/
theorem encodeIntervalText_eq_intercalate (interval : Interval) :
    encodeIntervalText interval [] =
      [32].intercalate (unitPieces interval ++ [intervalTimeText interval.microseconds]) := by
  rw [intercalate_append_singleton, unitPieces, List.flatMap_append, encodeIntervalText]
  -- each of the two unit pieces is written or not
  by_cases hm : interval.months = 0 <;> by_cases hd : interval.days = 0 <;> simp [hm, hd]

theorem length_unitPieces (interval : Interval) : (unitPieces interval).length % 2 = 0 := by
  unfold unitPieces
  split <;> split <;> simp

/-- The time holds no blank. -/
theorem space_not_mem_intervalTimeText (μs : Int64) : (32 : UInt8) ∉ intervalTimeText μs := by
  have hpad : ∀ w n, (32 : UInt8) ∉ sprintfZeroPad w n := not_mem_sprintfZeroPad (by decide) (by decide)
  dsimp only [intervalTimeText]
  split <;> split <;> simp [hpad]

theorem parseInt64_itoa_int32 (x : Int32) (e : IntervalScanError) :
    parseInt64 (itoa x.toInt) e = .ok (Int64.ofInt x.toInt) := by
  have hlo := Int32.le_toInt x
  have hhi := Int32.toInt_lt x
  rw [parseInt64, parseIntChecked_itoa (by decide) (by omega) (by omega)]
  rfl

theorem toInt32_ofInt_toInt (x : Int32) : (Int64.ofInt x.toInt).toInt32 = x := by
  rw [Int64.toInt32_ofInt, Int32.ofInt_toInt]

/-- A count of months is added to the months. -/
theorem intervalUnits_mon (x months days : Int32) (parts : List Bytes) :
    intervalUnits months days (itoa x.toInt :: [109, 111, 110] :: parts) =
      intervalUnits (months + x) days parts := by
  rw [intervalUnits, parseInt64_itoa_int32, ok_bind, if_neg (by decide), if_pos (Or.inl rfl),
    toInt32_ofInt_toInt]

/-- A count of days sets the days. -/
theorem intervalUnits_day (x months days : Int32) (parts : List Bytes) :
    intervalUnits months days (itoa x.toInt :: [100, 97, 121] :: parts) =
      intervalUnits months x parts := by
  rw [intervalUnits, parseInt64_itoa_int32, ok_bind, if_neg (by decide), if_neg (by decide),
    if_pos (Or.inl rfl), toInt32_ofInt_toInt]

theorem intervalUnits_single (months days : Int32) (t : Bytes) :
    intervalUnits months days [t] = .ok (months, days) := rfl

/-- The number and unit pieces hold no blank. -/
theorem space_not_mem_unitPieces (interval : Interval) : ∀ l ∈ unitPieces interval, (32 : UInt8) ∉ l := by
  have hitoa : ∀ n : Int, (32 : UInt8) ∉ itoa n := fun n h => by
    rcases mem_itoa h with h | h
    · cases h
    · revert h; decide
  unfold unitPieces
  rw [List.forall_mem_append]
  constructor <;> split <;> simp [hitoa]

/-- The pairs before the time give the months and the days. -/
theorem intervalUnits_unitPieces (interval : Interval) (t : Bytes) :
    intervalUnits 0 0 (unitPieces interval ++ [t]) = .ok (interval.months, interval.days) := by
  unfold unitPieces
  by_cases hm : interval.months = 0 <;> by_cases hd : interval.days = 0
  · rw [if_neg (not_not.mpr hm), if_neg (not_not.mpr hd), hm, hd]
    rfl
  · rw [if_neg (not_not.mpr hm), if_pos hd, hm, List.nil_append, List.cons_append,
      List.cons_append, List.nil_append, intervalUnits_day, intervalUnits_single]
  · rw [if_pos hm, if_neg (not_not.mpr hd), hd, List.append_nil, List.cons_append,
      List.cons_append, List.nil_append, intervalUnits_mon, intervalUnits_single, Int32.zero_add]
  · rw [if_pos hm, if_pos hd]
    simp only [List.cons_append, List.nil_append]
    rw [intervalUnits_mon, intervalUnits_day, intervalUnits_single, Int32.zero_add]

/-- The interval text codec reads back every interval the encoder writes. -/
theorem scanIntervalText_encodeIntervalText (interval : Interval) :
    scanIntervalText (encodeIntervalText interval []) = .ok interval := by
  have hpieces : ∀ l ∈ unitPieces interval ++ [intervalTimeText interval.microseconds],
      (32 : UInt8) ∉ l := by
    intro l hl
    rcases List.mem_append.mp hl with hl | hl
    · exact space_not_mem_unitPieces interval l hl
    · rw [List.mem_singleton.mp hl]
      exact space_not_mem_intervalTimeText _
  rw [encodeIntervalText_eq_intercalate, scanIntervalText,
    List.splitOn_intercalate 32 hpieces (by simp), intervalUnits_unitPieces, ok_bind]
  have hodd : (unitPieces interval ++ [intervalTimeText interval.microseconds]).length % 2 = 1 := by
    have := length_unitPieces interval
    simp only [List.length_append, List.length_singleton]
    omega
  dsimp only
  rw [if_pos hodd, List.getLastD_eq_getLast?, List.getLast?_concat, Option.getD_some,
    scanIntervalTime_intervalTimeText, ok_bind]
  rfl

end GaussdbGo.Gaussdbtype
