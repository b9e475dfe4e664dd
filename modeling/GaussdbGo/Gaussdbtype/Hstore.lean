import GaussdbGo.Gaussdbtype.CompositeRoundTrip

/-!
# gaussdbtype — hstore: the text and binary codecs

An hstore travels in text as `"k"=>"v"` pairs joined by `, `, a NULL value
written `NULL`, with a backslash before every backslash and double quote of
a key or value; in binary as a pair count and, per pair, an `int32` length
and the key, and an `int32` length (`-1` for NULL) and the value.

`parseHstore` reads the text with a cursor `pos` over the string and caches
the position of the next backslash. A quoted string with no backslash before
its closing quote is cut out at once (the fast path); otherwise it is copied
byte by byte from the cached backslash on, and the cache is recomputed (the
slow path). As long as the cache is the first backslash at or after `pos`,
both paths read the string as a plain left-to-right unescaper does.

A Go map is iterated in an order of its own: the encoders take the pairs in
the order `range` visits them, and the scanners' map is kept as its entries
in the order they were stored.
-/

namespace GaussdbGo.Gaussdbtype

open GoStd GoStd.BigEndian GaussdbGo.Proto

/-- `Hstore`, not nil: its pairs in the order `range` visits them, each key
once. -/
structure Hstore where
  entries : List (Bytes × Option Bytes)
  nodup : (entries.map Prod.fst).Nodup

/-- `quoteArrayReplacer.Replace`: `quoteArrayReplacer` is built with the same
pairs as `quoteCompositeReplacer`. -/
def quoteArrayReplace (src : Bytes) : Bytes := quoteCompositeReplace src

/-! ## Encoding -/

/-- The loop of `encodePlanHstoreCodecText.Encode` over the pairs. -/
def hstoreTextLoop (firstPair : Bool) (buf : Bytes) : List (Bytes × Option Bytes) → Bytes
  | [] => buf
  | (k, v) :: pairs =>
    let buf := if firstPair then buf else buf ++ [44, 32]
    let buf := buf ++ 34 :: quoteArrayReplace k ++ [34] ++ [61, 62]
    let buf := match v with
      | none => buf ++ [78, 85, 76, 76]
      | some v => buf ++ 34 :: quoteArrayReplace v ++ [34]
    hstoreTextLoop false buf pairs

/-- `encodePlanHstoreCodecText.Encode` of a non-nil hstore: an empty one is
`[]byte{}`, whatever the buffer. -/
def encodeHstoreText (h : Hstore) (buf : Bytes) : Bytes :=
  if h.entries = [] then [] else hstoreTextLoop true buf h.entries

/-- One pair of `encodePlanHstoreCodecBinary.Encode`. -/
def appendHstorePair (buf : Bytes) (pair : Bytes × Option Bytes) : Bytes :=
  let buf := appendInt32 buf (Int32.ofNat pair.1.length) ++ pair.1
  match pair.2 with
  | none => appendInt32 buf (-1)
  | some v => appendInt32 buf (Int32.ofNat v.length) ++ v

/-- `encodePlanHstoreCodecBinary.Encode` of a non-nil hstore. -/
def encodeHstoreBinary (h : Hstore) (buf : Bytes) : Bytes :=
  h.entries.foldl appendHstorePair (appendInt32 buf (Int32.ofNat h.entries.length))

/-! ## Scanning binary -/

/-- The error of `scanPlanBinaryHstoreToHstoreScanner.Scan`. -/
inductive HstoreBinaryError where
  /-- `hstore incomplete %v` -/
  | incomplete (src : Bytes)
  deriving DecidableEq, Repr

/-- The loop of `scanPlanBinaryHstoreToHstoreScanner.Scan` over `n` more
pairs from `rp`; a length that does not fit in what is left panics at the
slice. -/
def hstoreBinaryLoop (src : Bytes) :
    Nat → Nat → List (Bytes × Option Bytes) → Go HstoreBinaryError (List (Bytes × Option Bytes))
  | 0, _, hstore => pure hstore
  | n + 1, rp, hstore => do
    if (← sliceFrom src rp).length < 4 then raise (.incomplete src) else
    let keyLen := (← uint32 (← sliceFrom src rp)).toInt32.toInt
    let rp := rp + 4
    if ((← sliceFrom src rp).length : Int) < keyLen then raise (.incomplete src) else
    let key ← slice src rp (rp + keyLen)
    let rp := rp + keyLen.toNat
    if (← sliceFrom src rp).length < 4 then raise (.incomplete src) else
    let valueLen := (← uint32 (← sliceFrom src rp)).toInt32.toInt
    let rp := rp + 4
    if 0 ≤ valueLen then
      let value ← slice src rp (rp + valueLen)
      hstoreBinaryLoop src n (rp + valueLen.toNat) (mapInsert hstore key (some value))
    else hstoreBinaryLoop src n rp (mapInsert hstore key none)

/-- `scanPlanBinaryHstoreToHstoreScanner.Scan` of a non-NULL value. A
negative count is no error for `make(Hstore, pairCount)`, but
`make([]string, pairCount)` panics on it. -/
def scanHstoreBinary (src : Bytes) : Go HstoreBinaryError (List (Bytes × Option Bytes)) := do
  if src.length < 4 then raise (.incomplete src) else
  let pairCount := (← uint32 src).toInt32.toInt
  if pairCount < 0 then crash (.makeSliceLenOutOfRange pairCount) else
  hstoreBinaryLoop src pairCount.toNat 4 []

/-! ## Scanning text -/

/-- The errors of `parseHstore`. -/
inductive HstoreTextError where
  /-- `expected '%c' ('%#v'); found end` -/
  | expectedFoundEnd (expected : UInt8)
  /-- `expected '%c' ('%#v'); found '%c' ('%#v')` -/
  | unexpectedByte (actual expected : UInt8)
  /-- `unexpected end of string` -/
  | unexpectedEndOfString
  /-- `errEOSInQuoted` -/
  | eosInQuoted
  /-- `unexpected escape in quoted string: found '%#v'` -/
  | unexpectedEscape (b : UInt8)
  /-- `found end instead of value` -/
  | endInsteadOfValue
  deriving DecidableEq, Repr

/-- `hstoreParser`. -/
structure HstoreParser where
  str : Bytes
  pos : Nat
  nextBackslash : Int
  deriving DecidableEq, Repr

namespace HstoreParser

/-- `newHSP(in)`. -/
def new (s : Bytes) : HstoreParser := ⟨s, 0, indexByte s 92⟩

/-- `p.atEnd()`. -/
def atEnd (p : HstoreParser) : Bool := p.str.length ≤ p.pos

/-- `p.consumeExpectedByte(expectedB)`. -/
def consumeExpectedByte (p : HstoreParser) (expectedB : UInt8) : Go HstoreTextError HstoreParser :=
  match p.str[p.pos]? with
  | none => raise (.expectedFoundEnd expectedB)
  | some nextB =>
    if nextB ≠ expectedB then raise (.unexpectedByte nextB expectedB)
    else pure { p with pos := p.pos + 1 }

/-- `p.consumeExpected2(one, two)`. -/
def consumeExpected2 (p : HstoreParser) (one two : UInt8) : Go HstoreTextError HstoreParser :=
  if p.str.length < p.pos + 2 then raise .unexpectedEndOfString
  else if p.str.getD p.pos 0 ≠ one then raise (.unexpectedByte (p.str.getD p.pos 0) one)
  else if p.str.getD (p.pos + 1) 0 ≠ two then raise (.unexpectedByte (p.str.getD (p.pos + 1) 0) two)
  else pure { p with pos := p.pos + 2 }

-- `h` names the read for the termination proof only
set_option linter.unusedVariables false in
/-- The loop of `consumeDoubleQuotedWithEscapes`: a backslash takes the next
byte, which must be a backslash or a double quote; a double quote ends it. -/
def escapesLoop (p : HstoreParser) (builder : Bytes) : Go HstoreTextError (Bytes × HstoreParser) :=
  match h : p.str[p.pos]? with
  | none => raise .eosInQuoted
  | some nextB =>
    if nextB = 34 then pure (builder, { p with pos := p.pos + 1 })
    else if nextB = 92 then
      match p.str[p.pos + 1]? with
      | none => raise .eosInQuoted
      | some escaped =>
        if ¬ (escaped = 92 ∨ escaped = 34) then raise (.unexpectedEscape escaped)
        else escapesLoop { p with pos := p.pos + 2 } (builder ++ [escaped])
    else escapesLoop { p with pos := p.pos + 1 } (builder ++ [nextB])
termination_by p.str.length - p.pos
decreasing_by
  all_goals
    have := (List.getElem?_eq_some_iff.mp h).1
    omega

/-- `p.consumeDoubleQuotedWithEscapes(firstBackslash)`: the bytes up to the
backslash, then the loop from it. -/
def consumeDoubleQuotedWithEscapes (p : HstoreParser) (firstBackslash : Int) :
    Go HstoreTextError (Bytes × HstoreParser) := do
  let builder ← slice p.str p.pos firstBackslash
  escapesLoop { p with pos := firstBackslash.toNat } builder

/-- `p.consumeDoubleQuoted()`, the opening quote read: the fast path when the
cached backslash is past the next quote, else the slow path, after which the
cache is recomputed (an error ends the parse, so the cache it leaves is not
modelled). -/
def consumeDoubleQuoted (p : HstoreParser) : Go HstoreTextError (Bytes × HstoreParser) := do
  let nextDoubleQuote := indexByte (← sliceFrom p.str p.pos) 34
  if nextDoubleQuote = -1 then raise .eosInQuoted else
  let nextDoubleQuote := nextDoubleQuote + p.pos
  if p.nextBackslash = -1 ∨ p.nextBackslash > nextDoubleQuote then
    let s ← slice p.str p.pos nextDoubleQuote
    pure (s, { p with pos := (nextDoubleQuote + 1).toNat })
  else
    let (s, p) ← p.consumeDoubleQuotedWithEscapes p.nextBackslash
    let nextBackslash := indexByte (← sliceFrom p.str p.pos) 92
    pure (s, { p with nextBackslash :=
      if nextBackslash ≠ -1 then nextBackslash + p.pos else nextBackslash })

/-- `p.consumePairSeparator()`. -/
def consumePairSeparator (p : HstoreParser) : Go HstoreTextError HstoreParser :=
  p.consumeExpected2 44 32

/-- `p.consumeKVSeparator()`. -/
def consumeKVSeparator (p : HstoreParser) : Go HstoreTextError HstoreParser :=
  p.consumeExpected2 61 62

/-- `p.consumeDoubleQuotedOrNull()`: `none` for `NULL`. -/
def consumeDoubleQuotedOrNull (p : HstoreParser) : Go HstoreTextError (Option Bytes × HstoreParser) :=
  if p.atEnd then raise .endInsteadOfValue else
  let next := p.str.getD p.pos 0
  if next = 78 then do
    let p ← p.consumeExpected2 78 85
    let p ← p.consumeExpected2 76 76
    pure (none, p)
  else if next ≠ 34 then raise (.unexpectedByte next 34)
  else do
    let (s, p) ← { p with pos := p.pos + 1 }.consumeDoubleQuoted
    pure (some s, p)

/-- One pass of the loop of `parseHstore`: the separator unless first, the
quoted key, `=>` and the value. -/
def parsePair (first : Bool) (p : HstoreParser) :
    Go HstoreTextError ((Bytes × Option Bytes) × HstoreParser) := do
  let p ← (if first then pure p else p.consumePairSeparator)
  let p ← p.consumeExpectedByte 34
  let (key, p) ← p.consumeDoubleQuoted
  let p ← p.consumeKVSeparator
  let (value, p) ← p.consumeDoubleQuotedOrNull
  pure ((key, value), p)

/-! ### The cursor only moves forward -/

/-- `q` reads the same string as `p`, from a position no earlier. -/
def Advances (p q : HstoreParser) : Prop := q.str = p.str ∧ p.pos ≤ q.pos

theorem Advances.trans {p q r : HstoreParser} (h₁ : Advances p q) (h₂ : Advances q r) :
    Advances p r :=
  ⟨h₂.1.trans h₁.1, Nat.le_trans h₁.2 h₂.2⟩

theorem consumeExpectedByte_ok {p q : HstoreParser} {b : UInt8}
    (h : p.consumeExpectedByte b = .ok q) : q = { p with pos := p.pos + 1 } := by
  unfold consumeExpectedByte at h
  split at h
  · cases h
  · split at h
    · cases h
    · exact (Except.ok.inj h).symm

theorem consumeExpected2_ok {p q : HstoreParser} {one two : UInt8}
    (h : p.consumeExpected2 one two = .ok q) : q = { p with pos := p.pos + 2 } := by
  unfold consumeExpected2 at h
  split at h
  · cases h
  · split at h
    · cases h
    · split at h
      · cases h
      · exact (Except.ok.inj h).symm

theorem escapesLoop_advances {p q : HstoreParser} {builder s : Bytes}
    (h : p.escapesLoop builder = .ok (s, q)) : Advances p q ∧ p.pos < q.pos := by
  fun_induction escapesLoop p builder with
  | case1 => cases h
  | case2 p builder _ =>
    -- the closing quote
    obtain ⟨-, rfl⟩ := Prod.mk.inj (Except.ok.inj h)
    exact ⟨⟨rfl, Nat.le_succ _⟩, Nat.lt_succ_self _⟩
  | case3 => cases h
  | case4 => cases h
  | case5 p builder _ _ _ _ _ ih | case6 p builder _ _ _ _ ih =>
    obtain ⟨⟨hs, hle⟩, -⟩ := ih h
    exact ⟨⟨hs, by dsimp only at hle; omega⟩, by dsimp only at hle; omega⟩

theorem consumeDoubleQuotedWithEscapes_advances {p q : HstoreParser} {fb : Int} {s : Bytes}
    (h : p.consumeDoubleQuotedWithEscapes fb = .ok (s, q)) : Advances p q ∧ p.pos < q.pos := by
  unfold consumeDoubleQuotedWithEscapes at h
  obtain ⟨builder, hslice, hloop⟩ := bind_eq_ok h
  obtain ⟨-, hle, -⟩ := bounds_of_slice_ok hslice
  obtain ⟨⟨hs, -⟩, hlt⟩ := escapesLoop_advances hloop
  exact ⟨⟨hs, by dsimp only at hlt; omega⟩, by dsimp only at hlt; omega⟩

theorem consumeDoubleQuoted_advances {p q : HstoreParser} {s : Bytes}
    (h : p.consumeDoubleQuoted = .ok (s, q)) : Advances p q ∧ p.pos < q.pos := by
  unfold consumeDoubleQuoted at h
  obtain ⟨rest, -, h⟩ := bind_eq_ok h
  have hidx := indexByte_eq_neg_one_or_nonneg rest 34
  dsimp only at h
  split at h
  · cases h
  · split at h
    · -- the fast path: the cursor moves past the quote
      obtain ⟨s', -, h⟩ := bind_eq_ok h
      obtain ⟨-, rfl⟩ := Prod.mk.inj (Except.ok.inj h)
      exact ⟨⟨rfl, by dsimp only; omega⟩, by dsimp only; omega⟩
    · -- the slow path, then the cache
      obtain ⟨⟨s', q'⟩, hslow, h⟩ := bind_eq_ok h
      obtain ⟨⟨hs, hle⟩, hlt⟩ := consumeDoubleQuotedWithEscapes_advances hslow
      obtain ⟨rest', -, h⟩ := bind_eq_ok h
      obtain ⟨-, rfl⟩ := Prod.mk.inj (Except.ok.inj h)
      exact ⟨⟨hs, hle⟩, hlt⟩

theorem consumeDoubleQuotedOrNull_advances {p q : HstoreParser} {v : Option Bytes}
    (h : p.consumeDoubleQuotedOrNull = .ok (v, q)) : Advances p q := by
  unfold consumeDoubleQuotedOrNull at h
  split at h
  · cases h
  · dsimp only at h
    split at h
    · obtain ⟨q₁, h₁, h⟩ := bind_eq_ok h
      obtain ⟨q₂, h₂, h⟩ := bind_eq_ok h
      obtain ⟨-, rfl⟩ := Prod.mk.inj (Except.ok.inj h)
      rw [consumeExpected2_ok h₂, consumeExpected2_ok h₁]
      exact ⟨rfl, by dsimp only; omega⟩
    · split at h
      · cases h
      · obtain ⟨⟨s, q₁⟩, h₁, h⟩ := bind_eq_ok h
        obtain ⟨-, rfl⟩ := Prod.mk.inj (Except.ok.inj h)
        obtain ⟨⟨hs, hle⟩, -⟩ := consumeDoubleQuoted_advances h₁
        exact ⟨hs, by dsimp only at hle ⊢; omega⟩

/-- Each pass of the loop reads at least the key's opening quote. -/
theorem parsePair_advances {first : Bool} {p q : HstoreParser} {kv : Bytes × Option Bytes}
    (h : p.parsePair first = .ok (kv, q)) : Advances p q ∧ p.pos < q.pos := by
  unfold parsePair at h
  obtain ⟨p₁, h₁, h⟩ := bind_eq_ok h
  have a₁ : Advances p p₁ := by
    split at h₁
    · exact (Except.ok.inj h₁) ▸ ⟨rfl, Nat.le_refl _⟩
    · rw [consumeExpected2_ok h₁]
      exact ⟨rfl, by dsimp only; omega⟩
  obtain ⟨p₂, h₂, h⟩ := bind_eq_ok h
  obtain ⟨⟨k, p₃⟩, h₃, h⟩ := bind_eq_ok h
  obtain ⟨p₄, h₄, h⟩ := bind_eq_ok h
  obtain ⟨⟨v, p₅⟩, h₅, h⟩ := bind_eq_ok h
  obtain ⟨-, rfl⟩ := Prod.mk.inj (Except.ok.inj h)
  have a₂ : Advances p₁ p₂ ∧ p₁.pos < p₂.pos := by
    rw [consumeExpectedByte_ok h₂]
    exact ⟨⟨rfl, by dsimp only; omega⟩, by dsimp only; omega⟩
  have a₄ : Advances p₃ p₄ := by
    rw [consumeExpected2_ok h₄]
    exact ⟨rfl, by dsimp only; omega⟩
  have a := ((a₁.trans a₂.1).trans (consumeDoubleQuoted_advances h₃).1).trans a₄
    |>.trans (consumeDoubleQuotedOrNull_advances h₅)
  exact ⟨a, Nat.lt_of_lt_of_le (Nat.lt_of_le_of_lt a₁.2 a₂.2)
    (((consumeDoubleQuoted_advances h₃).1.trans a₄).trans (consumeDoubleQuotedOrNull_advances h₅)).2⟩

end HstoreParser

-- `h` names the pass for the termination proof only
set_option linter.unusedVariables false in
/-- The loop of `parseHstore`: pairs until the end of the string, each stored
with `result[key] = value`. -/
def parseHstoreLoop (first : Bool) (p : HstoreParser) (result : List (Bytes × Option Bytes)) :
    Go HstoreTextError (List (Bytes × Option Bytes)) :=
  if hend : p.atEnd then pure result else
  match h : p.parsePair first with
  | .error e => .error e
  | .ok ((key, value), q) => parseHstoreLoop false q (mapInsert result key value)
termination_by p.str.length - p.pos
decreasing_by
  obtain ⟨⟨hs, -⟩, hlt⟩ := HstoreParser.parsePair_advances h
  simp only [HstoreParser.atEnd, decide_eq_true_eq, Nat.not_le] at hend
  rw [hs]
  omega

/-- `parseHstore(s)`. -/
def parseHstore (s : Bytes) : Go HstoreTextError (List (Bytes × Option Bytes)) :=
  parseHstoreLoop true (HstoreParser.new s) []

end GaussdbGo.Gaussdbtype
