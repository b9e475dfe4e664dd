import GaussdbGo.Lib.Unicode
import GaussdbGo.Proto.Wire

/-!
# gaussdbtype — ranges: the text and binary codecs

A range travels in binary as a flag byte and, per bounded bound, an `int32`
length and the element's bytes; in text as `[`/`(`, the lower bound's text,
`,`, the upper bound's text and `]`/`)`, or `empty`. The encoders write the
element encodings the element plan produces as they are. The text parser
reads a bound back with `rangeParseValue`, which gives `,`, brackets,
parentheses, `"` and `\` a meaning of their own, and an empty lower bound
reads as unbounded; so a bound text is read back exactly when it is plain.

The parsers read through a `bytes.Buffer` rune by rune; a `ReadRune` followed
by `UnreadRune` is a look at the next rune.
-/

namespace GaussdbGo.Gaussdbtype

open GoStd GoStd.BigEndian GaussdbGo.Proto

/-- `BoundType`: `'i'`, `'e'`, `'U'` and `'E'`. -/
inductive BoundType where
  | inclusive
  | exclusive
  | unbounded
  | empty
  deriving DecidableEq, Repr

-- `h` names the read for the termination proof only
set_option linter.unusedVariables false in
/-- `skipWhitespace(buf)` (`array.go`): the runes `unicode.IsSpace` accepts
are read over. -/
def skipWhitespace (s : Bytes) : Bytes :=
  match h : readRune s with
  | none => s
  | some (r, s') => if isSpace r then skipWhitespace s' else s
termination_by s.length
decreasing_by exact length_lt_of_readRune h

/-! ## Encoding -/

/-- A range as the encoders get it: its bound types and, per bound, what the
element's encode plan wrote, `none` for a nil element or buffer. -/
structure RangeValue where
  lowerType : BoundType
  upperType : BoundType
  lower : Option Bytes
  upper : Option Bytes
  deriving DecidableEq, Repr

/-- The errors of the range encoders. -/
inductive RangeEncodeError where
  /-- `unknown UpperType: %v` (binary), `unknown upper bound type %v` (text) -/
  | unknownUpperType (bt : BoundType)
  /-- `Lower cannot be NULL unless LowerType is Unbounded` -/
  | lowerNull
  /-- `Upper cannot be NULL unless UpperType is Unbounded` -/
  | upperNull
  deriving DecidableEq, Repr

/-- `emptyMask`, the flag of an empty range. -/
def emptyMask : UInt8 := 1
/-- `lowerInclusiveMask`. -/
def lowerInclusiveMask : UInt8 := 2
/-- `upperInclusiveMask`. -/
def upperInclusiveMask : UInt8 := 4
/-- `lowerUnboundedMask`. -/
def lowerUnboundedMask : UInt8 := 8
/-- `upperUnboundedMask`. -/
def upperUnboundedMask : UInt8 := 16

/-- A bound's element bytes after an `int32` length: `AppendInt32(buf, -1)`,
the element, then `SetInt32` of the length at the placeholder. -/
def appendBoundBinary (buf elem : Bytes) : Bytes :=
  setInt32 (appendInt32 buf (-1) ++ elem) buf.length (Int32.ofNat elem.length)

/-- `encodePlanRangeCodecRangeValuerToBinary.Encode` of a non-NULL range. -/
def encodeRangeBinary (r : RangeValue) (buf : Bytes) : Except RangeEncodeError Bytes :=
  match r.lowerType with
  | .empty => .ok (buf ++ [emptyMask])
  | lowerType =>
    let lowerFlag : UInt8 :=
      if lowerType = .inclusive then lowerInclusiveMask
      else if lowerType = .unbounded then lowerUnboundedMask else 0
    match r.upperType with
    | .empty => .error (.unknownUpperType .empty)
    | upperType =>
      let upperFlag : UInt8 :=
        if upperType = .inclusive then upperInclusiveMask
        else if upperType = .unbounded then upperUnboundedMask else 0
      let buf := buf ++ [lowerFlag ||| upperFlag]
      let lowerPart : Except RangeEncodeError Bytes :=
        if lowerType = .unbounded then .ok buf
        else match r.lower with
          | none => .error .lowerNull
          | some elem => .ok (appendBoundBinary buf elem)
      match lowerPart with
      | .error e => .error e
      | .ok buf =>
        if upperType = .unbounded then .ok buf
        else match r.upper with
          | none => .error .upperNull
          | some elem => .ok (appendBoundBinary buf elem)

/-- `encodePlanRangeCodecRangeValuerToText.Encode` of a non-NULL range. -/
def encodeRangeText (r : RangeValue) (buf : Bytes) : Except RangeEncodeError Bytes :=
  match r.lowerType with
  | .empty => .ok (buf ++ [101, 109, 112, 116, 121])
  | lowerType =>
    let buf := buf ++ [if lowerType = .inclusive then 91 else 40]
    let lowerPart : Except RangeEncodeError Bytes :=
      if lowerType = .unbounded then .ok buf
      else match r.lower with
        | none => .error .lowerNull
        | some elem => .ok (buf ++ elem)
    match lowerPart with
    | .error e => .error e
    | .ok buf =>
      let buf := buf ++ [44]
      let upperPart : Except RangeEncodeError Bytes :=
        if r.upperType = .unbounded then .ok buf
        else match r.upper with
          | none => .error .upperNull
          | some elem => .ok (buf ++ elem)
      match upperPart with
      | .error e => .error e
      | .ok buf =>
        match r.upperType with
        | .exclusive | .unbounded => .ok (buf ++ [41])
        | .inclusive => .ok (buf ++ [93])
        | .empty => .error (.unknownUpperType .empty)

/-! ## Parsing text -/

/-- `untypedTextRange`. -/
structure UntypedTextRange where
  lower : Bytes
  upper : Bytes
  lowerType : BoundType
  upperType : BoundType
  deriving DecidableEq, Repr

/-- The errors of `parseUntypedTextRange`; the reads that fail there end at
`io.EOF`. -/
inductive TextRangeError where
  /-- `invalid lower bound: EOF` -/
  | invalidLowerBound
  /-- `missing lower bound, instead got: %v` -/
  | missingLowerBound (r : Nat)
  /-- `invalid lower value: EOF` -/
  | invalidLowerValue
  /-- `missing range separator: %v`, the rune or `EOF` -/
  | missingRangeSeparator (r : Option Nat)
  /-- `invalid upper value: EOF` -/
  | invalidUpperValue
  /-- `missing upper bound: EOF`, or `missing upper bound, instead got: %v` -/
  | missingUpperBound (r : Option Nat)
  /-- `unexpected trailing data: %v` -/
  | unexpectedTrailingData (rest : Bytes)
  deriving DecidableEq, Repr

-- `h` names the read for the termination proof only
set_option linter.unusedVariables false in
/-- The loop of `rangeParseValue` over an unquoted value: a backslash takes
the rune after it, and `,`, a bracket or a parenthesis ends the value and is
left unread. `none` where the text ends first. -/
def rangeParseUnquoted (out s : Bytes) : Option (Bytes × Bytes) :=
  match h : readRune s with
  | none => none
  | some (r, s₁) =>
    if r = 92 then
      match h₁ : readRune s₁ with
      | none => none
      | some (r₁, s₂) => rangeParseUnquoted (out ++ writeRune r₁) s₂
    else if r = 44 ∨ r = 91 ∨ r = 93 ∨ r = 40 ∨ r = 41 then some (out, s)
    else rangeParseUnquoted (out ++ writeRune r) s₁
termination_by s.length
decreasing_by
  · have := length_lt_of_readRune h
    have := length_lt_of_readRune h₁
    omega
  · exact length_lt_of_readRune h

-- `h` names the read for the termination proof only
set_option linter.unusedVariables false in
/-- `rangeParseQuotedValue`: a backslash takes the rune after it, a doubled
quote is a quote, and a quote followed by anything else ends the value. -/
def rangeParseQuoted (out s : Bytes) : Option (Bytes × Bytes) :=
  match h : readRune s with
  | none => none
  | some (r, s₁) =>
    if r = 92 then
      match h₁ : readRune s₁ with
      | none => none
      | some (r₁, s₂) => rangeParseQuoted (out ++ writeRune r₁) s₂
    else if r = 34 then
      match h₁ : readRune s₁ with
      | none => none
      | some (r₁, s₂) => if r₁ ≠ 34 then some (out, s₁) else rangeParseQuoted (out ++ writeRune r₁) s₂
    else rangeParseQuoted (out ++ writeRune r) s₁
termination_by s.length
decreasing_by
  · have := length_lt_of_readRune h
    have := length_lt_of_readRune h₁
    omega
  · have := length_lt_of_readRune h
    have := length_lt_of_readRune h₁
    omega
  · exact length_lt_of_readRune h

/-- `rangeParseValue(buf)`: the value and the unread text. -/
def rangeParseValue (s : Bytes) : Option (Bytes × Bytes) :=
  match readRune s with
  | none => none
  | some (r, s₁) => if r = 34 then rangeParseQuoted [] s₁ else rangeParseUnquoted [] s

/-- The upper bound of `parseUntypedTextRange`, from the text after the
separator: its value, its type and what is left. -/
def parseUpperBound (s : Bytes) : Except TextRangeError (Bytes × BoundType × Bytes) :=
  match readRune s with
  | none => .error .invalidUpperValue
  | some (r, s₁) =>
    if r = 41 ∨ r = 93 then .ok ([], .unbounded, s₁)
    else match rangeParseValue s with
      | none => .error .invalidUpperValue
      | some (v, s₂) =>
        match readRune s₂ with
        | none => .error (.missingUpperBound none)
        | some (r, s₃) =>
          if r = 41 then .ok (v, .exclusive, s₃)
          else if r = 93 then .ok (v, .inclusive, s₃)
          else .error (.missingUpperBound (some r))

/-- `parseUntypedTextRange(src)`. -/
def parseUntypedTextRange (src : Bytes) : Except TextRangeError UntypedTextRange :=
  if src = [101, 109, 112, 116, 121] then .ok ⟨[], [], .empty, .empty⟩ else
  match readRune (skipWhitespace src) with
  | none => .error .invalidLowerBound
  | some (r, s) =>
    if r ≠ 40 ∧ r ≠ 91 then .error (.missingLowerBound r) else
    let lowerType : BoundType := if r = 40 then .exclusive else .inclusive
    match readRune s with
    | none => .error .invalidLowerValue
    | some (r, _) =>
      -- the rune is unread: a `,` makes the lower bound unbounded
      let lowerPart : Option (Bytes × BoundType × Bytes) :=
        if r = 44 then some ([], .unbounded, s)
        else (rangeParseValue s).map fun (v, s') => (v, lowerType, s')
      match lowerPart with
      | none => .error .invalidLowerValue
      | some (lower, lowerType, s) =>
        match readRune s with
        | none => .error (.missingRangeSeparator none)
        | some (r, s) =>
          if r ≠ 44 then .error (.missingRangeSeparator (some r)) else
          match parseUpperBound s with
          | .error e => .error e
          | .ok (upper, upperType, s) =>
            if skipWhitespace s ≠ [] then .error (.unexpectedTrailingData (skipWhitespace s))
            else .ok ⟨lower, upper, lowerType, upperType⟩

/-! ## Parsing binary -/

/-- `untypedBinaryRange`. -/
structure UntypedBinaryRange where
  lower : Bytes
  upper : Bytes
  lowerType : BoundType
  upperType : BoundType
  deriving DecidableEq, Repr

/-- The errors of `parseUntypedBinaryRange`. -/
inductive BinaryRangeError where
  /-- `range too short: %v` -/
  | rangeTooShort (n : Nat)
  /-- `unexpected trailing bytes parsing empty range: %v` -/
  | trailingEmpty (n : Nat)
  /-- `unexpected trailing bytes parsing unbounded range: %v` -/
  | trailingUnbounded (n : Nat)
  /-- `too few bytes for size: %v` -/
  | tooFewBytesForSize (rest : Bytes)
  /-- `unexpected trailing bytes parsing range: %v` -/
  | trailing (n : Nat)
  deriving DecidableEq, Repr

/-- The bound type the flag byte gives, inclusive before unbounded. -/
def boundTypeOfFlags (flags inclusiveMask unboundedMask : UInt8) : BoundType :=
  if flags &&& inclusiveMask > 0 then .inclusive
  else if flags &&& unboundedMask > 0 then .unbounded
  else .exclusive

/-- `parseUntypedBinaryRange(src)`; a length past the end panics at the
slice. -/
def parseUntypedBinaryRange (src : Bytes) : Go BinaryRangeError UntypedBinaryRange :=
  match src with
  | [] => raise (.rangeTooShort 0)
  | rangeType :: rest =>
    if rangeType &&& emptyMask > 0 then
      if rest ≠ [] then raise (.trailingEmpty rest.length) else pure ⟨[], [], .empty, .empty⟩
    else
      let lowerType := boundTypeOfFlags rangeType lowerInclusiveMask lowerUnboundedMask
      let upperType := boundTypeOfFlags rangeType upperInclusiveMask upperUnboundedMask
      if lowerType = .unbounded ∧ upperType = .unbounded then
        if rest ≠ [] then raise (.trailingUnbounded rest.length)
        else pure ⟨[], [], lowerType, upperType⟩
      else if rest.length < 4 then raise (.tooFewBytesForSize rest)
      else do
        let valueLen := (← uint32 rest).toNat
        let val ← slice src 5 (5 + valueLen)
        let rp := 5 + valueLen
        if lowerType = .unbounded then
          if src.length - rp > 0 then raise (.trailing (src.length - rp))
          else pure ⟨[], val, lowerType, upperType⟩
        else if upperType = .unbounded then
          if src.length - rp > 0 then raise (.trailing (src.length - rp))
          else pure ⟨val, [], lowerType, upperType⟩
        else if src.length - rp < 4 then raise (.tooFewBytesForSize (src.drop rp))
        else do
          let valueLen₂ := (← uint32 (src.drop rp)).toNat
          let upper ← slice src (rp + 4) (rp + 4 + valueLen₂)
          let rp := rp + 4 + valueLen₂
          if src.length - rp > 0 then raise (.trailing (src.length - rp))
          else pure ⟨val, upper, lowerType, upperType⟩

/-! ## Reading text back -/

/-- A byte a bound text keeps through `rangeParseValue`: ASCII, and none of
`,`, `[`, `]`, `(`, `)`, `"` and `\`. -/
def PlainByte (b : UInt8) : Prop :=
  b.toNat < 0x80 ∧ b.toNat ∉ [44, 91, 93, 40, 41, 34, 92]

instance : DecidablePred PlainByte := fun _ => inferInstanceAs (Decidable (_ ∧ _))

/-- The runes that end an unquoted value. -/
def rangeStop (r : Nat) : Prop := r = 44 ∨ r = 91 ∨ r = 93 ∨ r = 40 ∨ r = 41

instance : DecidablePred rangeStop := fun _ => inferInstanceAs (Decidable (_ ∨ _))

theorem skipWhitespace_nil : skipWhitespace [] = [] := by
  rw [skipWhitespace]
  split
  · rfl
  · rename_i h; cases h

theorem skipWhitespace_of_not_space {c : UInt8} (hc : c.toNat < 0x80) (hs : isSpace c.toNat = false)
    (rest : Bytes) : skipWhitespace (c :: rest) = c :: rest := by
  rw [skipWhitespace]
  split
  · rfl
  · rename_i r s h
    rw [readRune_ascii hc] at h
    cases h
    rw [hs, if_neg Bool.false_ne_true]

theorem rangeParseUnquoted_plain_cons {c : UInt8} (hc : PlainByte c) (out rest : Bytes) :
    rangeParseUnquoted out (c :: rest) = rangeParseUnquoted (out ++ [c]) rest := by
  obtain ⟨hlt, hnot⟩ := hc
  simp only [List.mem_cons, List.not_mem_nil, or_false, not_or] at hnot
  rw [rangeParseUnquoted]
  split
  · rename_i h; rw [readRune_ascii hlt] at h; cases h
  · rename_i r s h
    rw [readRune_ascii hlt] at h
    cases h
    rw [if_neg hnot.2.2.2.2.2.2, if_neg (by omega), writeRune_toNat hlt]

theorem rangeParseUnquoted_stop {c : UInt8} (hc : c.toNat < 0x80) (hs : rangeStop c.toNat)
    (out rest : Bytes) : rangeParseUnquoted out (c :: rest) = some (out, c :: rest) := by
  rw [rangeParseUnquoted]
  split
  · rename_i h; rw [readRune_ascii hc] at h; cases h
  · rename_i r s h
    rw [readRune_ascii hc] at h
    cases h
    have h92 : c.toNat ≠ 92 := by unfold rangeStop at hs; omega
    rw [if_neg h92]
    exact if_pos hs

/-- A plain text is copied whatever follows it. -/
theorem rangeParseUnquoted_append {t : Bytes} (ht : ∀ b ∈ t, PlainByte b) (out rest : Bytes) :
    rangeParseUnquoted out (t ++ rest) = rangeParseUnquoted (out ++ t) rest := by
  induction t generalizing out with
  | nil => rw [List.nil_append, List.append_nil]
  | cons c t ih =>
    rw [List.cons_append, rangeParseUnquoted_plain_cons (ht c (by simp)),
      ih (fun b hb => ht b (by simp [hb])), List.append_assoc, List.singleton_append]

/-- A plain nonempty bound text followed by a stop rune is read as itself. -/
theorem rangeParseValue_plain {t : Bytes} (hne : t ≠ []) (ht : ∀ b ∈ t, PlainByte b) {c : UInt8}
    (hc : c.toNat < 0x80) (hs : rangeStop c.toNat) (rest : Bytes) :
    rangeParseValue (t ++ c :: rest) = some (t, c :: rest) := by
  obtain ⟨b, t', rfl⟩ := List.exists_cons_of_ne_nil hne
  obtain ⟨hb, hnot⟩ := ht b (by simp)
  have h34 : b.toNat ≠ 34 := by simp at hnot; omega
  rw [rangeParseValue, List.cons_append, readRune_ascii hb]
  simp only [if_neg h34]
  rw [← List.cons_append, rangeParseUnquoted_append ht, List.nil_append,
    rangeParseUnquoted_stop hc hs]

/-! ## Upper bounds and whole ranges in text -/

/-- The bracket `encodeRangeText` opens a range with. -/
def lowerBracket (lt : BoundType) : UInt8 := if lt = .inclusive then 91 else 40

/-- The bracket `encodeRangeText` closes a range with. -/
def upperBracket (ut : BoundType) : UInt8 := if ut = .inclusive then 93 else 41

/-- The type the text parser gives a bound of type `t` whose text is `b`: an
empty text reads as unbounded. -/
def readBoundType (t : BoundType) (b : Bytes) : BoundType := if b = [] then .unbounded else t

theorem parseUpperBound_bracket {hi : Bytes} (hhi : ∀ b ∈ hi, PlainByte b) {ut : BoundType}
    (hu : ut ≠ .empty) (hU : ut = .unbounded → hi = []) :
    parseUpperBound (hi ++ [upperBracket ut]) = .ok (hi, readBoundType ut hi, []) := by
  have hc : (upperBracket ut).toNat < 0x80 := by cases ut <;> decide
  cases hi with
  | nil =>
    have h : (upperBracket ut).toNat = 41 ∨ (upperBracket ut).toNat = 93 := by cases ut <;> decide
    rw [parseUpperBound, List.nil_append, readRune_ascii hc]
    simp only [if_pos h]
    rfl
  | cons b hi =>
    obtain ⟨hb, hnot⟩ := hhi b (by simp)
    have h : ¬ (b.toNat = 41 ∨ b.toNat = 93) := by simp at hnot; omega
    have hstop : rangeStop (upperBracket ut).toNat := by cases ut <;> decide
    rw [parseUpperBound, List.cons_append, readRune_ascii hb]
    simp only [if_neg h]
    rw [← List.cons_append, rangeParseValue_plain (List.cons_ne_nil b hi) hhi hc hstop]
    simp only [readRune_ascii hc, readBoundType, reduceCtorEq, if_false]
    cases ut with
    | inclusive => rfl
    | exclusive => rfl
    | unbounded => cases hU rfl
    | empty => cases hu rfl

/-- A range text whose bound texts are plain is read back with its brackets'
types, an empty bound text reading as unbounded. -/
theorem parseUntypedTextRange_brackets {lo hi : Bytes} (hlo : ∀ b ∈ lo, PlainByte b)
    (hhi : ∀ b ∈ hi, PlainByte b) {lt ut : BoundType} (hl : lt ≠ .empty) (hu : ut ≠ .empty)
    (hL : lt = .unbounded → lo = []) (hU : ut = .unbounded → hi = []) :
    parseUntypedTextRange (lowerBracket lt :: (lo ++ 44 :: (hi ++ [upperBracket ut]))) =
      .ok ⟨lo, hi, readBoundType lt lo, readBoundType ut hi⟩ := by
  have ho : (lowerBracket lt).toNat < 0x80 := by cases lt <;> decide
  have hsp : isSpace (lowerBracket lt).toNat = false := by cases lt <;> decide
  have hopen : ¬ ((lowerBracket lt).toNat ≠ 40 ∧ (lowerBracket lt).toNat ≠ 91) := by
    cases lt <;> decide
  have hne : lowerBracket lt :: (lo ++ 44 :: (hi ++ [upperBracket ut])) ≠
      [101, 109, 112, 116, 121] := by
    cases lt <;> simp [lowerBracket]
  -- the separator and what follows it, read once the lower bound is
  have hsep : ∀ (v : Bytes) (t : BoundType),
      (match readRune (44 :: (hi ++ [upperBracket ut])) with
        | none => Except.error (.missingRangeSeparator none)
        | some (r, s) =>
          if r ≠ 44 then .error (.missingRangeSeparator (some r)) else
          match parseUpperBound s with
          | .error e => .error e
          | .ok (upper, upperType, s) =>
            if skipWhitespace s ≠ [] then .error (.unexpectedTrailingData (skipWhitespace s))
            else .ok ⟨v, upper, t, upperType⟩ : Except TextRangeError UntypedTextRange) =
        .ok ⟨v, hi, t, readBoundType ut hi⟩ := by
    intro v t
    rw [readRune_ascii (by decide)]
    simp only [ne_eq, not_true_eq_false, if_false, parseUpperBound_bracket hhi hu hU,
      skipWhitespace_nil]
    rfl
  rw [parseUntypedTextRange, if_neg hne, skipWhitespace_of_not_space ho hsp, readRune_ascii ho]
  simp only [if_neg hopen]
  cases lo with
  | nil =>
    simp only [List.nil_append, readRune_ascii (show (44 : UInt8).toNat < 0x80 by decide)]
    exact hsep [] .unbounded
  | cons b lo =>
    obtain ⟨hb, hnot⟩ := hlo b (by simp)
    have h44 : b.toNat ≠ 44 := by simp at hnot; omega
    have hlt : (if (lowerBracket lt).toNat = 40 then BoundType.exclusive else .inclusive) = lt := by
      cases lt with
      | inclusive => rfl
      | exclusive => rfl
      | unbounded => cases hL rfl
      | empty => cases hl rfl
    rw [List.cons_append, readRune_ascii hb]
    simp only [if_neg h44]
    rw [← List.cons_append, rangeParseValue_plain (List.cons_ne_nil b lo) hlo (by decide) (by decide)]
    simp only [Option.map_some, hlt, readBoundType, reduceCtorEq, if_false]
    exact hsep (b :: lo) lt

/-! ## What the encoders write -/

/-- The bytes a bound puts in an encoding and a parser gives back for it:
none for an unbounded bound. -/
def boundBytes (t : BoundType) (b : Bytes) : Bytes := if t = .unbounded then [] else b

theorem encodeRangeText_bounded {r : RangeValue} {lo hi : Bytes} (hl : r.lowerType ≠ .empty)
    (hu : r.upperType ≠ .empty) (hlo : r.lowerType ≠ .unbounded → r.lower = some lo)
    (hhi : r.upperType ≠ .unbounded → r.upper = some hi) (buf : Bytes) :
    encodeRangeText r buf = .ok (buf ++ lowerBracket r.lowerType ::
      (boundBytes r.lowerType lo ++ 44 :: (boundBytes r.upperType hi ++ [upperBracket r.upperType]))) := by
  obtain ⟨lt, ut, lower, upper⟩ := r
  -- the encoder matches on both bound types: each bounded pair is computed
  cases lt <;> cases ut <;> simp_all [encodeRangeText, boundBytes, lowerBracket, upperBracket]

/-- The flag byte `encodeRangeBinary` writes for bound types other than empty. -/
def rangeFlags (lt ut : BoundType) : UInt8 :=
  (if lt = .inclusive then lowerInclusiveMask else if lt = .unbounded then lowerUnboundedMask else 0) |||
    (if ut = .inclusive then upperInclusiveMask else if ut = .unbounded then upperUnboundedMask else 0)

/-- What a bound puts in the binary encoding: nothing for an unbounded bound,
else its length and its bytes. -/
def boundBinary (t : BoundType) (b : Bytes) : Bytes :=
  if t = .unbounded then [] else putUint32 (UInt32.ofNat b.length) ++ b

/-- The length placeholder patched with the element's length. -/
theorem appendBoundBinary_eq (buf elem : Bytes) :
    appendBoundBinary buf elem = buf ++ putUint32 (UInt32.ofNat elem.length) ++ elem := by
  rw [appendBoundBinary, appendInt32, appendUint32, setInt32_placeholder, toUInt32_ofNat]

theorem encodeRangeBinary_bounded {r : RangeValue} {lo hi : Bytes} (hl : r.lowerType ≠ .empty)
    (hu : r.upperType ≠ .empty) (hlo : r.lowerType ≠ .unbounded → r.lower = some lo)
    (hhi : r.upperType ≠ .unbounded → r.upper = some hi) (buf : Bytes) :
    encodeRangeBinary r buf = .ok (buf ++ rangeFlags r.lowerType r.upperType ::
      (boundBinary r.lowerType lo ++ boundBinary r.upperType hi)) := by
  obtain ⟨lt, ut, lower, upper⟩ := r
  -- the encoder matches on both bound types: each bounded pair is computed
  cases lt <;> cases ut <;> simp_all [encodeRangeBinary, appendBoundBinary_eq, rangeFlags, boundBinary]

/-- The flags of bound types other than empty are read back as those types. -/
theorem rangeFlags_spec {lt ut : BoundType} (hl : lt ≠ .empty) (hu : ut ≠ .empty) :
    rangeFlags lt ut &&& emptyMask = 0 ∧
      boundTypeOfFlags (rangeFlags lt ut) lowerInclusiveMask lowerUnboundedMask = lt ∧
      boundTypeOfFlags (rangeFlags lt ut) upperInclusiveMask upperUnboundedMask = ut := by
  cases lt <;> cases ut <;> first | contradiction | decide

/-! ## Reading binary back -/

/-- The first bound's bytes, `src[5:5+valueLen]`. -/
theorem slice_first_bound (f : UInt8) (n : UInt32) (b rest : Bytes) :
    (slice (f :: (putUint32 n ++ (b ++ rest))) 5 (5 + b.length) : Go ε Bytes) = .ok b := by
  simpa using slice_append_middle (ε := ε) (f :: putUint32 n) b rest

/-- The one bound of a half-bounded range. -/
theorem slice_only_bound (f : UInt8) (n : UInt32) (b : Bytes) :
    (slice (f :: (putUint32 n ++ b)) 5 (5 + b.length) : Go ε Bytes) = .ok b := by
  simpa using slice_first_bound (ε := ε) f n b []

/-- What follows the first bound, `src[rp:]`. -/
theorem drop_first_bound (f : UInt8) (n : UInt32) (b rest : Bytes) :
    (f :: (putUint32 n ++ (b ++ rest))).drop (5 + b.length) = rest := by
  have h : f :: (putUint32 n ++ (b ++ rest)) = (f :: putUint32 n ++ b) ++ rest := by simp
  rw [h, List.drop_left' (by simp; omega)]

/-- The second bound's bytes, `src[rp+4:rp+4+valueLen]`. -/
theorem slice_second_bound (f : UInt8) (n m : UInt32) (b c : Bytes) :
    (slice (f :: (putUint32 n ++ (b ++ (putUint32 m ++ c)))) ((5 + b.length : Nat) + 4)
      ((5 + b.length : Nat) + 4 + c.length) : Go ε Bytes) = .ok c := by
  have h := slice_append_middle (ε := ε) (f :: putUint32 n ++ b ++ putUint32 m) c []
  simp only [List.cons_append, List.append_assoc, List.append_nil, List.length_cons,
    List.length_append, length_putUint32] at h
  rw [← h]
  congr 1 <;> push_cast <;> omega

theorem parseUntypedBinaryRange_bounded {f : UInt8} (hf : f &&& emptyMask = 0) {lt ut : BoundType}
    (hlt : boundTypeOfFlags f lowerInclusiveMask lowerUnboundedMask = lt)
    (hut : boundTypeOfFlags f upperInclusiveMask upperUnboundedMask = ut)
    {lo hi : Bytes} (hlo : lo.length < 2 ^ 32) (hhi : hi.length < 2 ^ 32) :
    parseUntypedBinaryRange (f :: (boundBinary lt lo ++ boundBinary ut hi)) =
      .ok ⟨boundBytes lt lo, boundBytes ut hi, lt, ut⟩ := by
  have hne : ¬ (f &&& emptyMask > 0) := by rw [hf]; decide
  rw [parseUntypedBinaryRange]
  simp only [if_neg hne, hlt, hut]
  have hn : ∀ b : Bytes, b.length < 2 ^ 32 → (UInt32.ofNat b.length).toNat = b.length :=
    fun b hb => UInt32.toNat_ofNat_of_lt' hb
  by_cases hL : lt = .unbounded <;> by_cases hU : ut = .unbounded
  · simp [hL, hU, boundBinary, boundBytes]
    rfl
  · simp only [boundBinary, boundBytes, hL, hU, and_false, if_true, if_false, List.nil_append,
      List.length_append, length_putUint32, uint32_putUint32, ok_bind, hn hi hhi, slice_only_bound,
      List.length_cons]
    rw [if_neg (by omega), if_neg (by omega)]
    rfl
  · simp only [boundBinary, boundBytes, hL, hU, false_and, if_true, if_false, List.append_nil,
      List.length_append, length_putUint32, uint32_putUint32, ok_bind, hn lo hlo, slice_only_bound,
      List.length_cons]
    rw [if_neg (by omega), if_neg (by omega)]
    rfl
  · simp only [boundBinary, boundBytes, hL, hU, false_and, if_false, List.length_append,
      length_putUint32, List.append_assoc, uint32_putUint32, ok_bind, hn lo hlo, slice_first_bound,
      drop_first_bound, hn hi hhi, slice_second_bound, List.length_cons]
    rw [if_neg (by omega), if_neg (by omega), if_neg (by omega)]
    rfl

/-! ## Round trips -/

theorem mem_of_mem_boundBytes {t : BoundType} {b : Bytes} {c : UInt8} (h : c ∈ boundBytes t b) :
    c ∈ b := by
  unfold boundBytes at h
  split at h
  · cases h
  · exact h

theorem boundBytes_unbounded (b : Bytes) : boundBytes .unbounded b = [] := rfl

/-- The range codecs read back what they write, but for the text of a bound:
an empty range comes back empty from both; from binary a range comes back with
its bound types and bytes; from text a range whose bound texts are plain comes
back with those texts, and with each empty bound text read as unbounded. -/
theorem parseUntypedRange_encodeRange :
    (∀ r : RangeValue, r.lowerType = .empty →
      (∃ b, encodeRangeBinary r [] = .ok b ∧ parseUntypedBinaryRange b = .ok ⟨[], [], .empty, .empty⟩) ∧
      (∃ t, encodeRangeText r [] = .ok t ∧ parseUntypedTextRange t = .ok ⟨[], [], .empty, .empty⟩)) ∧
    (∀ (r : RangeValue) (lo hi : Bytes), r.lowerType ≠ .empty → r.upperType ≠ .empty →
      (r.lowerType ≠ .unbounded → r.lower = some lo) → (r.upperType ≠ .unbounded → r.upper = some hi) →
      (lo.length < 2 ^ 32 → hi.length < 2 ^ 32 →
        ∃ b, encodeRangeBinary r [] = .ok b ∧
          parseUntypedBinaryRange b =
            .ok ⟨boundBytes r.lowerType lo, boundBytes r.upperType hi, r.lowerType, r.upperType⟩) ∧
      ((∀ c ∈ lo, PlainByte c) → (∀ c ∈ hi, PlainByte c) →
        ∃ t, encodeRangeText r [] = .ok t ∧
          parseUntypedTextRange t =
            .ok ⟨boundBytes r.lowerType lo, boundBytes r.upperType hi,
              readBoundType r.lowerType (boundBytes r.lowerType lo),
              readBoundType r.upperType (boundBytes r.upperType hi)⟩)) := by
  refine ⟨fun r hr => ?_, fun r lo hi hl hu hlo hhi => ⟨fun hlo' hhi' => ?_, fun plo phi => ?_⟩⟩
  · -- an empty range is the flag alone, or the word `empty`
    obtain ⟨lt, ut, lower, upper⟩ := r
    subst hr
    exact ⟨⟨_, rfl, rfl⟩, ⟨_, rfl, by rw [List.nil_append, parseUntypedTextRange, if_pos rfl]⟩⟩
  · obtain ⟨hf, hlt, hut⟩ := rangeFlags_spec hl hu
    refine ⟨_, encodeRangeBinary_bounded hl hu hlo hhi [], ?_⟩
    rw [List.nil_append]
    exact parseUntypedBinaryRange_bounded hf hlt hut hlo' hhi'
  · refine ⟨_, encodeRangeText_bounded hl hu hlo hhi [], ?_⟩
    rw [List.nil_append]
    -- an unbounded bound writes no text
    have hL : r.lowerType = .unbounded → boundBytes r.lowerType lo = [] := fun h => by
      rw [h, boundBytes_unbounded]
    have hU : r.upperType = .unbounded → boundBytes r.upperType hi = [] := fun h => by
      rw [h, boundBytes_unbounded]
    exact parseUntypedTextRange_brackets (fun c hc => plo c (mem_of_mem_boundBytes hc))
      (fun c hc => phi c (mem_of_mem_boundBytes hc)) hl hu hL hU

/-- `[,1)`: an inclusive range whose lower bound's text is empty is read back
with an unbounded lower bound. -/
theorem parseUntypedRange_encodeRange_empty_lower :
    encodeRangeText ⟨.inclusive, .exclusive, some [], some [49]⟩ [] = .ok [91, 44, 49, 41] ∧
      parseUntypedTextRange [91, 44, 49, 41] = .ok ⟨[], [49], .unbounded, .exclusive⟩ := by
  obtain ⟨t, ht, hp⟩ := (parseUntypedRange_encodeRange.2 ⟨.inclusive, .exclusive, some [], some [49]⟩
    [] [49] nofun nofun (fun _ => rfl) (fun _ => rfl)).2 (by simp) (by simp [PlainByte])
  have he : encodeRangeText ⟨.inclusive, .exclusive, some [], some [49]⟩ [] = .ok [91, 44, 49, 41] :=
    rfl
  rw [he, Except.ok.injEq] at ht
  subst ht
  exact ⟨he, hp⟩

end GaussdbGo.Gaussdbtype
