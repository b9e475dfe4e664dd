import GaussdbGo.Gaussdbtype.Range
import GaussdbGo.Gaussdbtype.Hstore
import GaussdbGo.Lib.Strconv

/-!
# gaussdbtype — arrays in text

`encodePlanArrayCodecText` writes an array as nested braces: when some lower
bound is not `1`, first `[lo:hi]` per dimension and `=`; then, for element
`i`, a `,` unless first, a `{` for each dimension whose block starts at `i`,
the element (`NULL`, or its text, quoted when it would not read back as
itself), and a `}` for each block that ends with it. The blocks are found
through `dimElemCounts`, the number of elements in a block of each
dimension.

`parseUntypedTextArray` reads the text back rune by rune: the explicit
dimensions, the opening braces of the first element (one dimension each),
then a loop that keeps the current depth `currentDim` and the shallowest
depth closed so far `counterDim`, and counts an item into a dimension only
while the two agree, so each dimension's length is counted in the first
block of that depth. `ArrayCodec.decodeText` then makes
`cardinality(Dimensions)` element slots and scans element `i` into slot `i`.
-/

namespace GaussdbGo.Gaussdbtype

open GoStd GoStd.BigEndian GoStd.Strconv GaussdbGo.Proto

/-- `ArrayDimension`. -/
structure ArrayDimension where
  length : Int32
  lowerBound : Int32
  deriving DecidableEq, Repr

/-- `cardinality(dimensions)`, in Go's 64-bit `int`. -/
def cardinality : List ArrayDimension → Int64
  | [] => 0
  | d :: ds => ds.foldl (fun n d => n * d.length.toInt64) d.length.toInt64

/-- `untypedTextArray`. -/
structure UntypedTextArray where
  elements : List Bytes
  quoted : List Bool
  dimensions : List ArrayDimension
  deriving DecidableEq, Repr

/-- What `parseUntypedTextArray` wraps after `invalid array: `: the `io.EOF`
of a read past the end, or the error of `strconv.ParseInt`. -/
inductive ArrayReadError where
  | eof
  | num (e : NumError)
  deriving DecidableEq, Repr

/-- The errors of `parseUntypedTextArray`. -/
inductive ArrayTextError where
  /-- `invalid array: %w` -/
  | invalidArray (cause : ArrayReadError)
  /-- `invalid array, expected '[' or '=' got %v` -/
  | expectedBracketOrEquals (r : Nat)
  /-- `invalid array, expected ':' got %v` -/
  | expectedColon (r : Nat)
  /-- `invalid array, expected ']' got %v` -/
  | expectedCloseBracket (r : Nat)
  /-- `invalid array, expected '{' got %v` -/
  | expectedOpenBrace (r : Nat)
  /-- `invalid array value: %w`, the `io.EOF` of a value cut short -/
  | invalidArrayValue
  /-- `unexpected trailing data: %v` -/
  | unexpectedTrailingData (rest : Bytes)
  deriving DecidableEq, Repr

/-! ## Reading values and bounds -/

-- `h` names the read for the termination proof only
set_option linter.unusedVariables false in
/-- The loop of `arrayParseInteger`: digits and minus signs are kept, the
first other rune is unread and what was kept goes to `ParseInt(s, 10, 32)`. -/
def arrayParseInteger (s buf : Bytes) : Except ArrayReadError (Int32 × Bytes) :=
  match h : readRune buf with
  | none => .error .eof
  | some (r, buf') =>
    if (48 ≤ r ∧ r ≤ 57) ∨ r = 45 then arrayParseInteger (s ++ writeRune r) buf'
    else match parseIntChecked s 32 with
      | .error e => .error (.num e)
      | .ok n => .ok (Int32.ofInt n, buf)
termination_by buf.length
decreasing_by exact length_lt_of_readRune h

-- `h` names the read for the termination proof only
set_option linter.unusedVariables false in
/-- The loop of `arrayParseValue` over an unquoted value: `,` or `}` ends
it and is unread. -/
def arrayParseUnquoted (s buf : Bytes) : Except ArrayReadError (Bytes × Bytes) :=
  match h : readRune buf with
  | none => .error .eof
  | some (r, buf') =>
    if r = 44 ∨ r = 125 then .ok (s, buf)
    else arrayParseUnquoted (s ++ writeRune r) buf'
termination_by buf.length
decreasing_by exact length_lt_of_readRune h

-- `h` and `h'` name the reads for the termination proof only
set_option linter.unusedVariables false in
/-- `arrayParseQuotedValue(buf)`: a backslash takes the rune after it; a
quote ends the value, after a look at the rune that follows it. -/
def arrayParseQuoted (s buf : Bytes) : Except ArrayReadError (Bytes × Bytes) :=
  match h : readRune buf with
  | none => .error .eof
  | some (r, buf') =>
    if r = 92 then
      match h' : readRune buf' with
      | none => .error .eof
      | some (r', buf'') => arrayParseQuoted (s ++ writeRune r') buf''
    else if r = 34 then
      match readRune buf' with
      | none => .error .eof
      | some _ => .ok (s, buf')
    else arrayParseQuoted (s ++ writeRune r) buf'
termination_by buf.length
decreasing_by
  · have := length_lt_of_readRune h
    have := length_lt_of_readRune h'
    omega
  · exact length_lt_of_readRune h

/-- `arrayParseValue(buf)`: the value, whether it was quoted, and the text
after it. -/
def arrayParseValue (buf : Bytes) : Except ArrayReadError ((Bytes × Bool) × Bytes) :=
  match readRune buf with
  | none => .error .eof
  | some (r, buf') =>
    if r = 34 then (arrayParseQuoted [] buf').map fun (v, rest) => ((v, true), rest)
    else (arrayParseUnquoted [] buf).map fun (v, rest) => ((v, false), rest)

theorem length_le_of_arrayParseInteger {s buf rest : Bytes} {n : Int32}
    (h : arrayParseInteger s buf = .ok (n, rest)) : rest.length ≤ buf.length := by
  fun_induction arrayParseInteger s buf with
  | case1 => cases h
  | case2 s buf r buf' hr _ ih =>
    have := length_lt_of_readRune hr
    have := ih h
    omega
  | case3 => simp_all
  | case4 s buf r buf' _ _ n _ =>
    obtain ⟨-, rfl⟩ := Prod.mk.inj (Except.ok.inj h)
    exact Nat.le_refl _

theorem length_le_of_arrayParseUnquoted {s buf v rest : Bytes}
    (h : arrayParseUnquoted s buf = .ok (v, rest)) : rest.length ≤ buf.length := by
  fun_induction arrayParseUnquoted s buf with
  | case1 => cases h
  | case2 s buf r buf' _ _ =>
    obtain ⟨-, rfl⟩ := Prod.mk.inj (Except.ok.inj h)
    exact Nat.le_refl _
  | case3 s buf r buf' hr _ ih =>
    have := length_lt_of_readRune hr
    have := ih h
    omega

theorem length_lt_of_arrayParseQuoted {s buf v rest : Bytes}
    (h : arrayParseQuoted s buf = .ok (v, rest)) : rest.length < buf.length := by
  fun_induction arrayParseQuoted s buf with
  | case1 => cases h
  | case2 => cases h
  | case3 s buf buf' r' buf'' hr' hr ih =>
    have := length_lt_of_readRune hr
    have := length_lt_of_readRune hr'
    have := ih h
    omega
  | case4 => simp_all
  | case5 s buf buf' _ _ hr _ =>
    obtain ⟨-, rfl⟩ := Prod.mk.inj (Except.ok.inj h)
    exact length_lt_of_readRune hr
  | case6 s buf r buf' hr _ _ ih =>
    have := length_lt_of_readRune hr
    have := ih h
    omega

/-- A value that starts with no `,` or `}` takes at least its first rune. -/
theorem length_lt_of_arrayParseValue {buf rest buf₁ : Bytes} {r : Nat} {vq : Bytes × Bool}
    (h : arrayParseValue buf = .ok (vq, rest)) (hr : readRune buf = some (r, buf₁))
    (h44 : r ≠ 44) (h125 : r ≠ 125) : rest.length < buf.length := by
  rw [arrayParseValue, hr] at h
  dsimp only at h
  have hlt := length_lt_of_readRune hr
  split at h
  · cases hq : arrayParseQuoted [] buf₁ with
    | error e => rw [hq] at h; cases h
    | ok p =>
      rw [hq] at h
      obtain ⟨-, rfl⟩ := Prod.mk.inj (Except.ok.inj h)
      have := length_lt_of_arrayParseQuoted hq
      omega
  · cases hu : arrayParseUnquoted [] buf with
    | error e => rw [hu] at h; cases h
    | ok p =>
      rw [hu] at h
      obtain ⟨-, rfl⟩ := Prod.mk.inj (Except.ok.inj h)
      -- the first rune is no stop, so the loop reads past it
      rw [arrayParseUnquoted] at hu
      split at hu
      · simp_all
      · rename_i r' buf' hr'
        rw [hr] at hr'
        obtain ⟨rfl, rfl⟩ := Prod.mk.inj (Option.some.inj hr')
        rw [if_neg (by omega)] at hu
        have := length_le_of_arrayParseUnquoted hu
        omega

/-! ## The parser -/

-- `h` to `h₅` name the reads for the termination proof only
set_option linter.unusedVariables false in
/-- The loop of `parseUntypedTextArray` over explicit dimensions
`[lower:upper]`, up to the `=`; a dimension's length is
`upper - lower + 1` in `int32`. -/
def explicitDimensionsLoop (dims : List ArrayDimension) (buf : Bytes) :
    Except ArrayTextError (List ArrayDimension × Bytes) :=
  match h : readRune buf with
  | none => .error (.invalidArray .eof)
  | some (r, buf₁) =>
    if r = 61 then .ok (dims, buf₁)
    else if r ≠ 91 then .error (.expectedBracketOrEquals r)
    else match h₂ : arrayParseInteger [] buf₁ with
      | .error e => .error (.invalidArray e)
      | .ok (lower, buf₂) =>
        match h₃ : readRune buf₂ with
        | none => .error (.invalidArray .eof)
        | some (r, buf₃) =>
          if r ≠ 58 then .error (.expectedColon r) else
          match h₄ : arrayParseInteger [] buf₃ with
          | .error e => .error (.invalidArray e)
          | .ok (upper, buf₄) =>
            match h₅ : readRune buf₄ with
            | none => .error (.invalidArray .eof)
            | some (r, buf₅) =>
              if r ≠ 93 then .error (.expectedCloseBracket r)
              else explicitDimensionsLoop (dims ++ [⟨upper - lower + 1, lower⟩]) buf₅
termination_by buf.length
decreasing_by
  have := length_lt_of_readRune h
  have := length_le_of_arrayParseInteger h₂
  have := length_lt_of_readRune h₃
  have := length_le_of_arrayParseInteger h₄
  have := length_lt_of_readRune h₅
  omega

-- `h` names the read for the termination proof only
set_option linter.unusedVariables false in
/-- The loop of `parseUntypedTextArray` over the opening braces after the
first: each makes the last dimension one long and opens another, of length
`0` and lower bound `1`. -/
def arrayOpenLoop (dims : List ArrayDimension) (buf : Bytes) :
    Except ArrayTextError (List ArrayDimension × Bytes) :=
  match h : readRune buf with
  | none => .error (.invalidArray .eof)
  | some (r, buf') =>
    if r = 123 then
      arrayOpenLoop ((dims.modify (dims.length - 1) fun d => { d with length := 1 }) ++ [⟨0, 1⟩]) buf'
    else .ok (dims, buf)
termination_by buf.length
decreasing_by exact length_lt_of_readRune h

/-- The state of the main loop of `parseUntypedTextArray`. -/
structure ArrayScan where
  currentDim : Int
  counterDim : Int
  implicitDimensions : List ArrayDimension
  elements : List Bytes
  quoted : List Bool
  deriving DecidableEq, Repr

/-- `implicitDimensions[currentDim].Length++`, when `currentDim == counterDim`. -/
def ArrayScan.count (st : ArrayScan) : List ArrayDimension :=
  if st.currentDim = st.counterDim then
    st.implicitDimensions.modify st.currentDim.toNat fun d => { d with length := d.length + 1 }
  else st.implicitDimensions

-- `h`, `hv`, `h44` and `h125` name facts for the termination proof only
set_option linter.unusedVariables false in
/-- The main loop of `parseUntypedTextArray`: `{` counts an item and goes a
level down, `}` goes a level up, a value counts an item and is kept; the
loop stops once `currentDim` is negative. -/
def arrayScanLoop (st : ArrayScan) (buf : Bytes) : Except ArrayTextError (ArrayScan × Bytes) :=
  match h : readRune buf with
  | none => .error (.invalidArray .eof)
  | some (r, buf') =>
    if r = 123 then
      let st := { st with implicitDimensions := st.count, currentDim := st.currentDim + 1 }
      if st.currentDim < 0 then .ok (st, buf') else arrayScanLoop st buf'
    else if h44 : r = 44 then
      if st.currentDim < 0 then .ok (st, buf') else arrayScanLoop st buf'
    else if h125 : r = 125 then
      let cur := st.currentDim - 1
      let ctr := if cur < st.counterDim then cur else st.counterDim
      let st := { st with currentDim := cur, counterDim := ctr }
      if st.currentDim < 0 then .ok (st, buf') else arrayScanLoop st buf'
    else
      -- the rune is unread and read again as the value's first
      match hv : arrayParseValue buf with
      | .error _ => .error .invalidArrayValue
      | .ok ((value, quoted), buf'') =>
        let st := { st with
          implicitDimensions := st.count
          quoted := st.quoted ++ [quoted]
          elements := st.elements ++ [value] }
        if st.currentDim < 0 then .ok (st, buf'') else arrayScanLoop st buf''
termination_by buf.length
decreasing_by
  all_goals first
    | exact length_lt_of_readRune h
    | exact length_lt_of_arrayParseValue hv h h44 h125

/-! ## One read of each loop

Each loop of the parser, once the rune it reads is known: the lemmas the
proofs about whole texts are built from, so that none of them unfolds a
loop again.
-/

section Steps

variable {s buf buf' : Bytes} {r : Nat}

theorem arrayParseInteger_of_readRune (h : readRune buf = some (r, buf')) :
    arrayParseInteger s buf =
      if (48 ≤ r ∧ r ≤ 57) ∨ r = 45 then arrayParseInteger (s ++ writeRune r) buf'
      else match parseIntChecked s 32 with
        | .error e => .error (.num e)
        | .ok n => .ok (Int32.ofInt n, buf) := by
  rw [arrayParseInteger]
  split
  · rename_i heq; rw [h] at heq; cases heq
  · rename_i heq; rw [h] at heq; cases heq; rfl

theorem arrayParseUnquoted_of_readRune (h : readRune buf = some (r, buf')) :
    arrayParseUnquoted s buf =
      if r = 44 ∨ r = 125 then .ok (s, buf) else arrayParseUnquoted (s ++ writeRune r) buf' := by
  rw [arrayParseUnquoted]
  split
  · rename_i heq; rw [h] at heq; cases heq
  · rename_i heq; rw [h] at heq; cases heq; rfl

theorem arrayParseQuoted_escape {r' : Nat} {buf'' : Bytes} (h : readRune buf = some (92, buf'))
    (h' : readRune buf' = some (r', buf'')) :
    arrayParseQuoted s buf = arrayParseQuoted (s ++ writeRune r') buf'' := by
  rw [arrayParseQuoted]
  split
  · rename_i heq; rw [h] at heq; cases heq
  · rename_i heq
    rw [h] at heq
    cases heq
    rw [if_pos rfl]
    split
    · rename_i heq'; rw [h'] at heq'; cases heq'
    · rename_i heq'; rw [h'] at heq'; cases heq'; rfl

theorem arrayParseQuoted_quote {x : Nat × Bytes} (h : readRune buf = some (34, buf'))
    (h' : readRune buf' = some x) : arrayParseQuoted s buf = .ok (s, buf') := by
  rw [arrayParseQuoted]
  split
  · rename_i heq; rw [h] at heq; cases heq
  · rename_i heq
    rw [h] at heq
    cases heq
    rw [if_neg (by decide), if_pos rfl, h']

theorem arrayParseQuoted_plain (h : readRune buf = some (r, buf')) (h92 : r ≠ 92) (h34 : r ≠ 34) :
    arrayParseQuoted s buf = arrayParseQuoted (s ++ writeRune r) buf' := by
  rw [arrayParseQuoted]
  split
  · rename_i heq; rw [h] at heq; cases heq
  · rename_i heq
    rw [h] at heq
    cases heq
    rw [if_neg h92, if_neg h34]

theorem arrayOpenLoop_of_readRune {dims : List ArrayDimension} (h : readRune buf = some (r, buf')) :
    arrayOpenLoop dims buf =
      if r = 123 then
        arrayOpenLoop ((dims.modify (dims.length - 1) fun d => { d with length := 1 }) ++ [⟨0, 1⟩]) buf'
      else .ok (dims, buf) := by
  rw [arrayOpenLoop]
  split
  · rename_i heq; rw [h] at heq; cases heq
  · rename_i heq; rw [h] at heq; cases heq; rfl

theorem explicitDimensionsLoop_equals {dims : List ArrayDimension} (h : readRune buf = some (61, buf')) :
    explicitDimensionsLoop dims buf = .ok (dims, buf') := by
  rw [explicitDimensionsLoop]
  split
  · rename_i heq; rw [h] at heq; cases heq
  · rename_i heq; rw [h] at heq; cases heq; rfl

/-- One explicit dimension `[lower:upper]`, each read in turn. -/
theorem explicitDimensionsLoop_dim {dims : List ArrayDimension} {b₁ b₂ b₃ b₄ b₅ : Bytes}
    {lo hi : Int32} (h₁ : readRune buf = some (91, b₁)) (h₂ : arrayParseInteger [] b₁ = .ok (lo, b₂))
    (h₃ : readRune b₂ = some (58, b₃)) (h₄ : arrayParseInteger [] b₃ = .ok (hi, b₄))
    (h₅ : readRune b₄ = some (93, b₅)) :
    explicitDimensionsLoop dims buf = explicitDimensionsLoop (dims ++ [⟨hi - lo + 1, lo⟩]) b₅ := by
  rw [explicitDimensionsLoop]
  split
  · rename_i heq; rw [h₁] at heq; cases heq
  rename_i heq; rw [h₁] at heq; cases heq
  rw [if_neg (by decide), if_neg (by decide)]
  split
  · rename_i heq; rw [h₂] at heq; cases heq
  rename_i heq; rw [h₂] at heq; cases heq
  split
  · rename_i heq; rw [h₃] at heq; cases heq
  rename_i heq; rw [h₃] at heq; cases heq
  rw [if_neg (by decide)]
  split
  · rename_i heq; rw [h₄] at heq; cases heq
  rename_i heq; rw [h₄] at heq; cases heq
  split
  · rename_i heq; rw [h₅] at heq; cases heq
  rename_i heq; rw [h₅] at heq; cases heq
  rw [if_neg (by decide)]

/-- What the main loop does after an item, a `,` or a `}`: stop once above
the outermost braces, else go on. -/
def arrayScanNext (st : ArrayScan) (buf : Bytes) : Except ArrayTextError (ArrayScan × Bytes) :=
  if st.currentDim < 0 then .ok (st, buf) else arrayScanLoop st buf

variable {st : ArrayScan}

theorem arrayScanLoop_open (h : readRune buf = some (123, buf')) :
    arrayScanLoop st buf =
      arrayScanNext { st with implicitDimensions := st.count, currentDim := st.currentDim + 1 } buf' := by
  rw [arrayScanLoop]
  split
  · rename_i heq; rw [h] at heq; cases heq
  · rename_i heq; rw [h] at heq; cases heq; rfl

theorem arrayScanLoop_comma (h : readRune buf = some (44, buf')) :
    arrayScanLoop st buf = arrayScanNext st buf' := by
  rw [arrayScanLoop]
  split
  · rename_i heq; rw [h] at heq; cases heq
  · rename_i heq; rw [h] at heq; cases heq; rfl

theorem arrayScanLoop_close (h : readRune buf = some (125, buf')) :
    arrayScanLoop st buf =
      arrayScanNext { st with
        currentDim := st.currentDim - 1
        counterDim := if st.currentDim - 1 < st.counterDim then st.currentDim - 1
          else st.counterDim } buf' := by
  rw [arrayScanLoop]
  split
  · rename_i heq; rw [h] at heq; cases heq
  · rename_i heq; rw [h] at heq; cases heq; rfl

theorem arrayScanLoop_value {v rest : Bytes} {q : Bool} (h : readRune buf = some (r, buf'))
    (h123 : r ≠ 123) (h44 : r ≠ 44) (h125 : r ≠ 125)
    (hv : arrayParseValue buf = .ok ((v, q), rest)) :
    arrayScanLoop st buf =
      arrayScanNext { st with
        implicitDimensions := st.count
        quoted := st.quoted ++ [q]
        elements := st.elements ++ [v] } rest := by
  rw [arrayScanLoop]
  split
  · rename_i heq; rw [h] at heq; cases heq
  · rename_i heq
    rw [h] at heq
    cases heq
    rw [if_neg h123, dif_neg h44, dif_neg h125]
    split
    · rename_i hv'; rw [hv] at hv'; cases hv'
    · rename_i hv'; rw [hv] at hv'; cases hv'; rfl

end Steps

/-- The explicit dimensions when the text starts with `[`, and the rune
after them; else none, and the first rune. -/
def explicitDimensions (r : Nat) (buf₁ buf : Bytes) :
    Except ArrayTextError (List ArrayDimension × Nat × Bytes) :=
  if r = 91 then do
    -- the `[` is unread and read again by the loop
    let (explicit, buf₂) ← explicitDimensionsLoop [] buf
    match readRune buf₂ with
    | none => .error (.invalidArray .eof)
    | some (r, buf₃) => pure (explicit, r, buf₃)
  else pure ([], r, buf₁)

/-- `parseUntypedTextArray(src)`. -/
def parseUntypedTextArray (src : Bytes) : Except ArrayTextError UntypedTextArray := do
  let buf := skipWhitespace src
  match readRune buf with
  | none => .error (.invalidArray .eof)
  | some (r, buf₁) =>
    let (explicit, r, buf) ← explicitDimensions r buf₁ buf
    if r ≠ 123 then .error (.expectedOpenBrace r) else
    let (implicit, buf) ← arrayOpenLoop [⟨0, 1⟩] buf
    let cur : Int := implicit.length - 1
    let (st, buf) ← arrayScanLoop ⟨cur, cur, implicit, [], []⟩ buf
    let rest := skipWhitespace buf
    if rest ≠ [] then .error (.unexpectedTrailingData rest) else
    pure ⟨st.elements, st.quoted,
      if st.elements = [] then [] else if explicit ≠ [] then explicit else st.implicitDimensions⟩

/-! ## Decoding into an array -/

/-- The text an element's scan plan gets: `nil` for an unquoted `NULL`. -/
def elementSource (s : Bytes) (quoted : Bool) : Option Bytes :=
  if s ≠ [78, 85, 76, 76] ∨ quoted then some s else none

/-- The loop of `decodeText` over the parsed elements: `ScanIndex(i)`, then
the scan of element `i` into slot `i`. -/
def scanElementsLoop : Nat → List (Bytes × Bool) → List (Option (Option Bytes)) →
    Go ArrayTextError (List (Option (Option Bytes)))
  | _, [], slots => pure slots
  | i, (s, quoted) :: elems, slots => do
    let _ ← index slots i
    scanElementsLoop (i + 1) elems (slots.set i (some (elementSource s quoted)))

/-- `ArrayCodec.decodeText` into an `Array[T]` or a `FlatArray[T]`: the
element slots, `none` where no element was scanned (the zero value), else
what the element's scan plan got. `SetDimensions` makes
`cardinality(Dimensions)` slots and panics on a negative count; the scan
plan is looked up with `ScanIndex(0)`. -/
def decodeArrayText (src : Bytes) : Go ArrayTextError (List (Option (Option Bytes))) := do
  let uta ← (parseUntypedTextArray src).mapError Fault.error
  let elementCount := cardinality uta.dimensions
  if elementCount < 0 then crash (.makeSliceLenOutOfRange elementCount.toInt) else
  let slots : List (Option (Option Bytes)) := List.replicate elementCount.toInt.toNat none
  if uta.elements = [] then pure slots else
  let _ ← index slots 0
  scanElementsLoop 0 (uta.elements.zip uta.quoted) slots

/-! ## Encoding -/

/-- `isSpace(ch)` of `array.go`: the ASCII blanks. -/
def isSpaceByte (ch : UInt8) : Bool :=
  ch = 32 || ch = 9 || ch = 10 || ch = 13 || ch = 11 || ch = 12

/-- `quoteArrayElement(src)`. -/
def quoteArrayElement (src : Bytes) : Bytes := 34 :: quoteArrayReplace src ++ [34]

/-- An ASCII letter to lower case. -/
def asciiLower (b : UInt8) : UInt8 := if 65 ≤ b ∧ b ≤ 90 then b + 32 else b

/-- `strings.EqualFold(src, "null")` for a four-byte `src`: no rune outside
ASCII folds to `n`, `u` or `l`, so it is an ASCII comparison. -/
def equalFoldNull (src : Bytes) : Bool := src.map asciiLower = [110, 117, 108, 108]

/-- The test of `quoteArrayElementIfNeeded`: empty, `null` in any case, an
ASCII blank at either end, or one of `{},"\` inside. -/
def arrayElementNeedsQuote (src : Bytes) : Bool :=
  src = [] || (src.length = 4 && equalFoldNull src) || isSpaceByte (src.headD 0) ||
    isSpaceByte (src.getLastD 0) || src.any (fun b => b ∈ [123, 125, 44, 34, 92])

/-- `quoteArrayElementIfNeeded(src)`. -/
def quoteArrayElementIfNeeded (src : Bytes) : Bytes :=
  if arrayElementNeedsQuote src then quoteArrayElement src else src

/-- `encodeTextArrayDimensions(buf, dimensions)`: nothing when every lower
bound is `1`, else `[lower:upper]` per dimension and `=`, with the upper
bound computed in `int32`. -/
def encodeTextArrayDimensions (buf : Bytes) (dims : List ArrayDimension) : Bytes :=
  if dims.all (·.lowerBound = 1) then buf
  else
    dims.foldl (fun buf d => buf ++ 91 :: itoa d.lowerBound.toInt ++ 58 ::
      itoa (d.lowerBound + d.length - 1).toInt ++ [93]) buf ++ [61]

/-- `dimElemCounts`: the number of elements in a block of each dimension,
in Go's `int`. -/
def dimElemCounts (dims : List ArrayDimension) : List Int64 :=
  dims.foldr (fun d acc => (d.length.toInt64 * acc.headD 1) :: acc) []

/-- The text of an element: `NULL` for a nil buffer. -/
def elementText : Option Bytes → Bytes
  | none => [78, 85, 76, 76]
  | some t => quoteArrayElementIfNeeded t

/-- The loop of `encodePlanArrayCodecText.Encode` over `n` more elements
from index `i`; `array.Index(i)` panics past the elements. -/
def encodeArrayLoop (elems : List (Option Bytes)) (counts : List Int64) :
    Nat → Nat → Bytes → Go Empty Bytes
  | 0, _, buf => pure buf
  | n + 1, i, buf => do
    let buf := if i > 0 then buf ++ [44] else buf
    let buf := counts.foldl (fun buf dec => if Int64.ofNat i % dec = 0 then buf ++ [123] else buf) buf
    let elem ← index elems i
    let buf := buf ++ elementText elem
    let buf := counts.foldl
      (fun buf dec => if (Int64.ofNat i + 1) % dec = 0 then buf ++ [125] else buf) buf
    encodeArrayLoop elems counts n (i + 1) buf

/-- `encodePlanArrayCodecText.Encode` of an array with dimensions `dims`
(`none` for nil) and, per index, what the element's encode plan wrote
(`none` for nil). -/
def encodeArrayText (dims : Option (List ArrayDimension)) (elems : List (Option Bytes))
    (buf : Bytes) : Go Empty (Option Bytes) :=
  match dims with
  | none => pure none
  | some dims =>
    let elementCount := cardinality dims
    if elementCount = 0 then pure (some (buf ++ [123, 125])) else
    let buf := encodeTextArrayDimensions buf dims
    some <$> encodeArrayLoop elems (dimElemCounts dims) elementCount.toInt.toNat 0 buf

end GaussdbGo.Gaussdbtype
