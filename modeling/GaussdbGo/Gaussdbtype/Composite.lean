import GaussdbGo.Proto.Wire

/-!
# gaussdbtype — composite values: scanners and builders

A composite value (a row) travels in two formats. In text it is
`(f1,f2,...)`: a NULL field is empty, a field is written bare or between
double quotes, and inside quotes a doubled quote or a backslash escapes the
next byte. In binary it is a field count and, per field, an OID, an `int32`
length (`-1` for NULL) and the bytes.

`CompositeTextScanner` and `CompositeBinaryScanner` read the fields one
`Next()` at a time; `CompositeTextBuilder` and `CompositeBinaryBuilder`
write them. The builders' `AppendValue` encodes a field through the type
map's plan: here a field is what that plan produced, `none` for a nil field
or a plan that returned a nil buffer.

The text scanner's loops read `src[rp]` until a delimiter; they are kept over
the unread bytes `src[rp:]`, with `rp` beside them for the operands of the
index panic. A quoted field that runs to the end of `src` panics there
(`next_unterminated_quote`); the binary scanner checks every length it
reads and never panics (`compositeBinaryScanner_noPanic`).
-/

namespace GaussdbGo.Gaussdbtype

open GoStd GoStd.BigEndian GaussdbGo.Proto

/-- `%v` of a `[]byte`: its bytes in decimal, between brackets. -/
def fmtBytes (b : Bytes) : String :=
  "[" ++ " ".intercalate (b.map fun x => toString x.toNat) ++ "]"

/-- The errors the composite scanners keep in `err`. -/
inductive ScanError where
  /-- `fmt.Errorf("Record incomplete %v", src)` -/
  | recordIncomplete (src : Bytes)
  /-- `fmt.Errorf("Record incomplete rp=%d src=%v", rp, src)` -/
  | recordIncompleteAt (rp : Nat) (src : Bytes)
  | mustStartWithParen
  | mustEndWithParen
  deriving DecidableEq

def ScanError.message : ScanError → String
  | .recordIncomplete src => "Record incomplete " ++ fmtBytes src
  | .recordIncompleteAt rp src => "Record incomplete rp=" ++ toString rp ++ " src=" ++ fmtBytes src
  | .mustStartWithParen => "composite text format must start with \x27(\x27"
  | .mustEndWithParen => "composite text format must end with \x27)\x27"

/-! ## `CompositeTextScanner` -/

/-- A `CompositeTextScanner`; `fieldBytes` is `none` for a nil slice. -/
structure CompositeTextScanner where
  rp : Nat
  src : Bytes
  fieldBytes : Option Bytes
  err : Option ScanError

/-- `NewCompositeTextScanner(m, src)`. -/
def newCompositeTextScanner (src : Bytes) : CompositeTextScanner :=
  if src.length < 2 then ⟨0, [], none, some (.recordIncomplete src)⟩
  else if src.head? ≠ some '('.toUInt8 then ⟨0, [], none, some .mustStartWithParen⟩
  else if src.getLast? ≠ some ')'.toUInt8 then ⟨0, [], none, some .mustEndWithParen⟩
  else ⟨1, src, none, none⟩

/-- The quoted-value loop of `Next`, over the unread bytes `src[rp:]` of a
source of length `len`: the value, and `rp` just past its closing quote. -/
def scanQuoted (len : Nat) : Nat → Bytes → Bytes → Go Empty (Bytes × Nat)
  | rp, [], _ => crash (.indexOutOfRange rp len)
  | rp, ch :: rest, fieldBytes =>
    if ch = '"'.toUInt8 then
      match rest with
      | [] => crash (.indexOutOfRange (rp + 1) len)
      | c :: rest' =>
        if c = '"'.toUInt8 then scanQuoted len (rp + 2) rest' (fieldBytes ++ ['"'.toUInt8])
        else .ok (fieldBytes, rp + 1)
    else if ch = '\\'.toUInt8 then
      match rest with
      | [] => crash (.indexOutOfRange (rp + 1) len)
      | c :: rest' => scanQuoted len (rp + 2) rest' (fieldBytes ++ [c])
    else scanQuoted len (rp + 1) rest (fieldBytes ++ [ch])

/-- The unquoted-value loop of `Next`, over `src[rp:]`: the `rp` of the
first `,` or `)`. -/
def scanUnquoted (len : Nat) : Nat → Bytes → Go Empty Nat
  | rp, [] => crash (.indexOutOfRange rp len)
  | rp, ch :: rest =>
    if ch = ','.toUInt8 ∨ ch = ')'.toUInt8 then .ok rp else scanUnquoted len (rp + 1) rest

/-- `Next()`: whether a field was read, and the scanner after it. -/
def CompositeTextScanner.next (s : CompositeTextScanner) : Go Empty (Bool × CompositeTextScanner) :=
  if s.err.isSome then .ok (false, s)
  else if s.rp = s.src.length then .ok (false, s)
  else
    match s.src.drop s.rp with
    | [] => crash (.indexOutOfRange s.rp s.src.length)
    | c :: rest =>
      if c = ','.toUInt8 ∨ c = ')'.toUInt8 then
        -- null
        .ok (true, { s with rp := s.rp + 1, fieldBytes := none })
      else if c = '"'.toUInt8 then do
        let (fieldBytes, rp) ← scanQuoted s.src.length (s.rp + 1) rest []
        pure (true, { s with rp := rp + 1, fieldBytes := some fieldBytes })
      else do
        let rp ← scanUnquoted s.src.length s.rp (c :: rest)
        let fieldBytes ← slice s.src s.rp rp
        pure (true, { s with rp := rp + 1, fieldBytes := some fieldBytes })

/-! ## `CompositeBinaryScanner` -/

/-- A `CompositeBinaryScanner`. -/
structure CompositeBinaryScanner where
  rp : Nat
  src : Bytes
  fieldCount : Int32
  fieldBytes : Option Bytes
  fieldOID : UInt32
  err : Option ScanError

/-- `NewCompositeBinaryScanner(m, src)`. -/
def newCompositeBinaryScanner (src : Bytes) : Go Empty CompositeBinaryScanner :=
  if src.length < 4 then .ok ⟨0, [], 0, none, 0, some (.recordIncomplete src)⟩
  else do
    let fieldCount ← uint32 src
    pure ⟨4, src, fieldCount.toInt32, none, 0, none⟩

/-- `Next()`. -/
def CompositeBinaryScanner.next (s : CompositeBinaryScanner) :
    Go Empty (Bool × CompositeBinaryScanner) :=
  if s.err.isSome then .ok (false, s)
  else if s.rp = s.src.length then .ok (false, s)
  else do
    let rest ← sliceFrom s.src s.rp
    if rest.length < 8 then
      return (false, { s with err := some (.recordIncomplete s.src) })
    let fieldOID ← uint32 rest
    let rp := s.rp + 4
    let fieldLen := (← uint32 (← sliceFrom s.src rp)).toInt32.toInt
    let rp := rp + 4
    if 0 ≤ fieldLen then
      if ((← sliceFrom s.src rp).length : Int) < fieldLen then
        return (false, { s with fieldOID, rp, err := some (.recordIncompleteAt rp s.src) })
      let fieldBytes ← slice s.src rp (rp + fieldLen)
      pure (true, { s with fieldOID, rp := rp + fieldLen.toNat, fieldBytes := some fieldBytes })
    else
      pure (true, { s with fieldOID, rp, fieldBytes := none })

/-! ## The builders -/

/-- `quoteCompositeReplacer.Replace`: a backslash before every backslash and
double quote. -/
def quoteCompositeReplace (src : Bytes) : Bytes :=
  src.flatMap fun b =>
    if b = '\\'.toUInt8 then ['\\'.toUInt8, '\\'.toUInt8]
    else if b = '"'.toUInt8 then ['\\'.toUInt8, '"'.toUInt8]
    else [b]

/-- `quoteCompositeField`. -/
def quoteCompositeField (src : Bytes) : Bytes :=
  '"'.toUInt8 :: quoteCompositeReplace src ++ ['"'.toUInt8]

/-- The bytes whose presence makes a field quoted: `(),"\`. The model reads
`strings.ContainsAny` byte by byte, which is what it finds for ASCII
characters in any byte string. -/
def compositeSpecials : Bytes := ['('.toUInt8, ')'.toUInt8, ','.toUInt8, '"'.toUInt8, '\\'.toUInt8]

/-- `quoteCompositeFieldIfNeeded`. -/
def quoteCompositeFieldIfNeeded (src : Bytes) : Bytes :=
  if src = [] ∨ src.head? = some ' '.toUInt8 ∨ src.getLast? = some ' '.toUInt8 ∨
      src.any (· ∈ compositeSpecials) then quoteCompositeField src
  else src

/-- A `CompositeTextBuilder`. -/
structure CompositeTextBuilder where
  buf : Bytes

/-- `NewCompositeTextBuilder(m, buf)`. -/
def newCompositeTextBuilder (buf : Bytes) : CompositeTextBuilder := ⟨buf ++ ['('.toUInt8]⟩

/-- `AppendValue(oid, field)`, given what the field's plan encoded. -/
def CompositeTextBuilder.appendValue (b : CompositeTextBuilder) : Option Bytes → CompositeTextBuilder
  | none => ⟨b.buf ++ [','.toUInt8]⟩
  | some fieldBuf => ⟨b.buf ++ quoteCompositeFieldIfNeeded fieldBuf ++ [','.toUInt8]⟩

/-- `Finish()`: the last byte becomes `)`. -/
def CompositeTextBuilder.finish (b : CompositeTextBuilder) : Bytes :=
  b.buf.set (b.buf.length - 1) ')'.toUInt8

/-- A `CompositeBinaryBuilder`. -/
structure CompositeBinaryBuilder where
  buf : Bytes
  startIdx : Nat
  fieldCount : UInt32

/-- `NewCompositeBinaryBuilder(m, buf)`: room for the field count. -/
def newCompositeBinaryBuilder (buf : Bytes) : CompositeBinaryBuilder :=
  ⟨buf ++ [0, 0, 0, 0], buf.length, 0⟩

/-- `AppendValue(oid, field)`: the OID, a `-1` length, the bytes the plan
appended, and the length patched to their count. -/
def CompositeBinaryBuilder.appendValue (b : CompositeBinaryBuilder) (oid : UInt32) :
    Option Bytes → CompositeBinaryBuilder
  | none => ⟨appendInt32 (appendUint32 b.buf oid) (-1), b.startIdx, b.fieldCount + 1⟩
  | some value =>
    let buf := appendUint32 b.buf oid
    let lengthPos := buf.length
    let buf := appendInt32 buf (-1)
    let fieldBuf := buf ++ value
    ⟨setInt32 fieldBuf lengthPos (Int32.ofNat (fieldBuf.length - buf.length)), b.startIdx,
      b.fieldCount + 1⟩

/-- `Finish()`: the field count at `startIdx` (`PutUint32`, written here
through the `int32` with its bits). -/
def CompositeBinaryBuilder.finish (b : CompositeBinaryBuilder) : Bytes :=
  setInt32 b.buf b.startIdx b.fieldCount.toInt32

/-- A row built field by field from an empty buffer. -/
def buildCompositeText (fields : List (Option Bytes)) : Bytes :=
  (fields.foldl CompositeTextBuilder.appendValue (newCompositeTextBuilder [])).finish

/-- A row built field by field, with their OIDs, from an empty buffer. -/
def buildCompositeBinary (fields : List (UInt32 × Option Bytes)) : Bytes :=
  (fields.foldl (fun b f => b.appendValue f.1 f.2) (newCompositeBinaryBuilder [])).finish

/-! ## The text scanner's steps -/

theorem rp_lt_of_drop {src : Bytes} {rp : Nat} {c : UInt8} {rest : Bytes}
    (hd : src.drop rp = c :: rest) : rp < src.length := by
  have hne : src.drop rp ≠ [] := by simp [hd]
  simpa [List.drop_eq_nil_iff] using hne

/-- A source that opens with `(` and closes with `)` starts a scanner at
its first field. -/
theorem newCompositeTextScanner_eq (body : Bytes) :
    newCompositeTextScanner ('('.toUInt8 :: body ++ [')'.toUInt8]) =
      ⟨1, '('.toUInt8 :: body ++ [')'.toUInt8], none, none⟩ := by
  have hlen : ¬ ('('.toUInt8 :: body ++ [')'.toUInt8]).length < 2 := by simp
  have hlast : ('('.toUInt8 :: body ++ [')'.toUInt8]).getLast? = some ')'.toUInt8 :=
    List.getLast?_concat
  rw [newCompositeTextScanner, if_neg hlen, if_neg (by simp), hlast]
  simp

section TextSteps

variable {s : CompositeTextScanner} {c : UInt8} {rest : Bytes}

/-- At `,` or `)` the field is NULL. -/
theorem next_null (herr : s.err = none) (hd : s.src.drop s.rp = c :: rest)
    (hc : c = ','.toUInt8 ∨ c = ')'.toUInt8) :
    s.next = .ok (true, { s with rp := s.rp + 1, fieldBytes := none }) := by
  rw [CompositeTextScanner.next, if_neg (by simp [herr]), if_neg (Nat.ne_of_lt (rp_lt_of_drop hd)), hd]
  simp only [if_pos hc]

/-- At `"` the quoted-value loop reads the field. -/
theorem next_quoted (herr : s.err = none) (hd : s.src.drop s.rp = '"'.toUInt8 :: rest) :
    s.next = (scanQuoted s.src.length (s.rp + 1) rest [] >>= fun r =>
      pure (true, { s with rp := r.2 + 1, fieldBytes := some r.1 })) := by
  rw [CompositeTextScanner.next, if_neg (by simp [herr]), if_neg (Nat.ne_of_lt (rp_lt_of_drop hd)), hd]
  simp only [if_neg (show ¬('"'.toUInt8 = ','.toUInt8 ∨ '"'.toUInt8 = ')'.toUInt8) by decide)]
  rfl

/-- Anywhere else the unquoted-value loop finds the field's end. -/
theorem next_unquoted (herr : s.err = none) (hd : s.src.drop s.rp = c :: rest)
    (hc : ¬(c = ','.toUInt8 ∨ c = ')'.toUInt8)) (hq : c ≠ '"'.toUInt8) :
    s.next = (do
      let rp ← scanUnquoted s.src.length s.rp (c :: rest)
      let fieldBytes ← slice s.src s.rp rp
      pure (true, { s with rp := rp + 1, fieldBytes := some fieldBytes })) := by
  rw [CompositeTextScanner.next, if_neg (by simp [herr]), if_neg (Nat.ne_of_lt (rp_lt_of_drop hd)), hd]
  simp only [if_neg hc, if_neg hq]

end TextSteps

/-! ## The text scanner's loops -/

section QuotedLoop

variable {len rp : Nat} {acc : Bytes}

/-- A byte that is neither a double quote nor a backslash is copied. -/
theorem scanQuoted_cons {ch : UInt8} {l : Bytes} (hq : ch ≠ '"'.toUInt8) (hb : ch ≠ '\\'.toUInt8) :
    scanQuoted len rp (ch :: l) acc = scanQuoted len (rp + 1) l (acc ++ [ch]) := by
  cases l <;> simp [scanQuoted, hq, hb]

/-- A backslash takes the next byte as it is. -/
theorem scanQuoted_escape {c : UInt8} {l : Bytes} :
    scanQuoted len rp ('\\'.toUInt8 :: c :: l) acc = scanQuoted len (rp + 2) l (acc ++ [c]) := by
  rw [scanQuoted.eq_3, if_neg (by decide), if_pos rfl]

/-- A double quote followed by anything else closes the value. -/
theorem scanQuoted_close {c : UInt8} {l : Bytes} (hc : c ≠ '"'.toUInt8) :
    scanQuoted len rp ('"'.toUInt8 :: c :: l) acc = .ok (acc, rp + 1) := by
  simp [scanQuoted, hc]

/-- Bytes that are neither a double quote nor a backslash are copied. -/
theorem scanQuoted_plain {rest : Bytes} :
    ∀ {l : Bytes} {rp : Nat} {acc : Bytes}, '"'.toUInt8 ∉ l → '\\'.toUInt8 ∉ l →
      scanQuoted len rp (l ++ rest) acc = scanQuoted len (rp + l.length) rest (acc ++ l)
  | [], rp, acc, _, _ => by simp
  | ch :: l, rp, acc, hq, hb => by
    rw [List.mem_cons, not_or] at hq hb
    rw [List.cons_append, scanQuoted_cons (Ne.symm hq.1) (Ne.symm hb.1), scanQuoted_plain hq.2 hb.2]
    simp only [List.length_cons, List.append_assoc, List.singleton_append]
    rw [Nat.add_assoc, Nat.add_comm 1]

end QuotedLoop

/-- A quoted field whose closing quote is missing runs to the end of the
source and panics there. -/
theorem next_unterminated_quote (body : Bytes) (hq : '"'.toUInt8 ∉ body)
    (hb : '\\'.toUInt8 ∉ body) :
    (newCompositeTextScanner ('('.toUInt8 :: '"'.toUInt8 :: body ++ [')'.toUInt8])).next =
      crash (.indexOutOfRange (body.length + 3) (body.length + 3)) := by
  have hq' : '"'.toUInt8 ∉ body ++ [')'.toUInt8] := by simp [hq]; decide
  have hb' : '\\'.toUInt8 ∉ body ++ [')'.toUInt8] := by simp [hb]; decide
  -- the loop copies the rest of the source, `)` included, and reads past it
  have hloop := @scanQuoted_plain (body.length + 3) [] (body ++ [')'.toUInt8]) (1 + 1) [] hq' hb'
  rw [List.append_nil] at hloop
  have hd : ('('.toUInt8 :: '"'.toUInt8 :: body ++ [')'.toUInt8]).drop 1 =
      '"'.toUInt8 :: (body ++ [')'.toUInt8]) := rfl
  have hlen : ('('.toUInt8 :: '"'.toUInt8 :: body ++ [')'.toUInt8]).length = body.length + 3 := by
    simp
  rw [newCompositeTextScanner_eq, next_quoted rfl hd, hlen, hloop]
  have hend : 1 + 1 + (body ++ [')'.toUInt8]).length = body.length + 3 := by simp; omega
  rw [hend]
  rfl

/-- `(")`: a field that opens a quote and never closes it. -/
theorem next_unterminated_quote_empty :
    '"'.toUInt8 ∉ ([] : Bytes) ∧ '\\'.toUInt8 ∉ ([] : Bytes) ∧
      (newCompositeTextScanner ['('.toUInt8, '"'.toUInt8, ')'.toUInt8]).next =
        crash (.indexOutOfRange 3 3) :=
  ⟨by simp, by simp, next_unterminated_quote [] (by simp) (by simp)⟩

/-! ## The binary scanner's step -/

/-- Eight bytes or more start with eight named bytes. -/
theorem eq_eight_append {l : Bytes} (h : 8 ≤ l.length) :
    ∃ b₀ b₁ b₂ b₃ b₄ b₅ b₆ b₇ rest, l = [b₀, b₁, b₂, b₃, b₄, b₅, b₆, b₇] ++ rest := by
  rcases l with _ | ⟨b₀, _ | ⟨b₁, _ | ⟨b₂, _ | ⟨b₃, _ | ⟨b₄, _ | ⟨b₅, _ | ⟨b₆, _ | ⟨b₇, rest⟩⟩⟩⟩⟩⟩⟩⟩
  all_goals first
    | exact ⟨b₀, b₁, b₂, b₃, b₄, b₅, b₆, b₇, rest, rfl⟩
    | simp at h

section BinarySteps

variable {s : CompositeBinaryScanner}

/-- `Next` with the eight header bytes of a field there: the OID, then the
length, which `-1` or any negative value reads as NULL and which is checked
against what is left. -/
theorem CompositeBinaryScanner.next_header {b₀ b₁ b₂ b₃ b₄ b₅ b₆ b₇ : UInt8} {rest : Bytes}
    (herr : s.err = none) (hd : s.src.drop s.rp = [b₀, b₁, b₂, b₃, b₄, b₅, b₆, b₇] ++ rest) :
    s.next =
      let fieldOID := ofBytes32 b₀ b₁ b₂ b₃
      let fieldLen := (ofBytes32 b₄ b₅ b₆ b₇).toInt32.toInt
      if 0 ≤ fieldLen then
        if (rest.length : Int) < fieldLen then
          .ok (false,
            { s with
              fieldOID, rp := s.rp + 4 + 4, err := some (.recordIncompleteAt (s.rp + 4 + 4) s.src) })
        else
          .ok (true,
            { s with
              fieldOID, rp := s.rp + 4 + 4 + fieldLen.toNat, fieldBytes := some (rest.take fieldLen.toNat) })
      else .ok (true, { s with fieldOID, rp := s.rp + 4 + 4, fieldBytes := none }) := by
  have hlt := rp_lt_of_drop hd
  have hlen : s.rp + 8 + rest.length = s.src.length := by
    have := congrArg List.length hd
    simp only [List.length_drop, List.length_append, List.length_cons, List.length_nil] at this
    omega
  have hd4 : s.src.drop (s.rp + 4) = [b₄, b₅, b₆, b₇] ++ rest := by
    rw [← List.drop_drop, hd]
    rfl
  have hd8 : s.src.drop (s.rp + 4 + 4) = rest := by
    rw [← List.drop_drop, hd4]
    rfl
  have hrest := sliceFrom_of_le (ε := Empty) s.src (Nat.le_of_lt hlt)
  have hrest4 := sliceFrom_of_le (ε := Empty) s.src (show s.rp + 4 ≤ s.src.length by omega)
  have hrest8 := sliceFrom_of_le (ε := Empty) s.src (show s.rp + 4 + 4 ≤ s.src.length by omega)
  rw [hd] at hrest
  rw [hd4] at hrest4
  rw [hd8] at hrest8
  have hlong : ¬ ([b₀, b₁, b₂, b₃, b₄, b₅, b₆, b₇] ++ rest).length < 8 := by simp
  have hoid : (uint32 ([b₀, b₁, b₂, b₃, b₄, b₅, b₆, b₇] ++ rest) : Go Empty UInt32) =
      .ok (ofBytes32 b₀ b₁ b₂ b₃) := rfl
  have hfieldLen : (uint32 ([b₄, b₅, b₆, b₇] ++ rest) : Go Empty UInt32) =
      .ok (ofBytes32 b₄ b₅ b₆ b₇) := rfl
  rw [CompositeBinaryScanner.next, if_neg (by simp [herr]), if_neg (Nat.ne_of_lt hlt)]
  simp only [hrest, ok_bind]
  rw [if_neg hlong, hoid, ok_bind, hrest4, ok_bind, hfieldLen, ok_bind, hrest8]
  by_cases hpos : 0 ≤ (ofBytes32 b₄ b₅ b₆ b₇).toInt32.toInt
  · by_cases hfit : (rest.length : Int) < (ofBytes32 b₄ b₅ b₆ b₇).toInt32.toInt
    · rw [if_pos hpos, ok_bind, if_pos hfit, if_pos hpos, if_pos hfit]
      rfl
    · -- the field's bytes are the next `fieldLen` of the source
      have hslice := slice_of_le (ε := Empty) s.src
        (show s.rp + 4 + 4 ≤ s.rp + 4 + 4 + (ofBytes32 b₄ b₅ b₆ b₇).toInt32.toInt.toNat by omega)
        (by omega)
      have hhi : ((s.rp + 4 + 4 + (ofBytes32 b₄ b₅ b₆ b₇).toInt32.toInt.toNat : Nat) : Int) =
          ((s.rp + 4 + 4 : Nat) : Int) + (ofBytes32 b₄ b₅ b₆ b₇).toInt32.toInt := by omega
      rw [hhi, hd8, Nat.add_sub_cancel_left] at hslice
      rw [if_pos hpos, ok_bind, if_neg hfit, hslice, ok_bind, if_pos hpos, if_neg hfit]
      rfl
  · rw [if_neg hpos, if_neg hpos]
    rfl

/-- What the binary scanner keeps: its read position inside the source. -/
def CompositeBinaryScanner.Inv (s : CompositeBinaryScanner) : Prop := s.rp ≤ s.src.length

theorem newCompositeBinaryScanner_inv (src : Bytes) :
    ∃ s, newCompositeBinaryScanner src = .ok s ∧ s.Inv := by
  by_cases h : src.length < 4
  · refine ⟨⟨0, [], 0, none, 0, some (.recordIncomplete src)⟩, ?_, Nat.zero_le 0⟩
    rw [newCompositeBinaryScanner, if_pos h]
  · obtain ⟨n, hn⟩ := uint32_of_length (ε := Empty) src (by omega)
    refine ⟨⟨4, src, n.toInt32, none, 0, none⟩, ?_, show 4 ≤ src.length by omega⟩
    rw [newCompositeBinaryScanner, if_neg h, hn]
    rfl

/-- Every length field is checked before it is used: from a scanner at its
invariant, `Next` returns, and leaves a scanner at its invariant. -/
theorem CompositeBinaryScanner.next_inv (h : s.Inv) : ∃ b t, s.next = .ok (b, t) ∧ t.Inv := by
  unfold Inv at h
  rcases herr : s.err with _ | e
  swap
  · exact ⟨false, s, by simp [next, herr], h⟩
  by_cases hend : s.rp = s.src.length
  · exact ⟨false, s, by simp [next, hend], h⟩
  by_cases hshort : (s.src.drop s.rp).length < 8
  · -- fewer than eight bytes left: the scanner stops with an error
    refine ⟨false, { s with err := some (.recordIncomplete s.src) }, ?_, h⟩
    have hrest := sliceFrom_of_le (ε := Empty) s.src h
    rw [next, if_neg (by simp [herr]), if_neg hend]
    simp only [hrest, ok_bind, if_pos hshort]
    rfl
  obtain ⟨b₀, b₁, b₂, b₃, b₄, b₅, b₆, b₇, rest, hd⟩ := eq_eight_append (Nat.le_of_not_lt hshort)
  have hlen : s.rp + 8 + rest.length = s.src.length := by
    have := congrArg List.length hd
    simp only [List.length_drop, List.length_append, List.length_cons, List.length_nil] at this
    omega
  rw [next_header herr hd]
  dsimp only
  split
  · split
    · exact ⟨_, _, rfl, by unfold Inv; dsimp only; omega⟩
    · exact ⟨_, _, rfl, by unfold Inv; dsimp only; omega⟩
  · exact ⟨_, _, rfl, by unfold Inv; dsimp only; omega⟩

end BinarySteps

/-- Reading the fields of any source, however many times `Next` is called,
never panics: a short or lying length ends the loop with `Err()` set. -/
theorem compositeBinaryScanner_noPanic (src : Bytes) (fuel : Nat) :
    NoPanic (newCompositeBinaryScanner src >>=
      forNext CompositeBinaryScanner.next (fun s => (s.fieldOID, s.fieldBytes)) fuel) := by
  obtain ⟨s, hs, hinv⟩ := newCompositeBinaryScanner_inv src
  obtain ⟨r, hr⟩ : ∃ r, forNext CompositeBinaryScanner.next (fun s => (s.fieldOID, s.fieldBytes))
      fuel s = .ok r :=
    forNext_ok (fun _ => CompositeBinaryScanner.next_inv) fuel s hinv
  rw [hs, ok_bind, hr]
  trivial

end GaussdbGo.Gaussdbtype
