import GaussdbGo.Sanitize.Lexer
import GaussdbGo.Lib.Strconv

/-!
# internal/sanitize — `Query.Sanitize` and `SanitizeSQL`

`Sanitize` writes the parts of a query into one buffer: raw text as it is,
and each placeholder `$n` as the `n`-th argument between two spaces (the
spaces keep a negative number after a `-` from making a `--` comment). An
argument is written by its type: `null`, a decimal integer, a float,
`true`/`false`, a `'\x…'` hex literal for bytes, a quoted string with its
quotes doubled, or a quoted timestamp.

`strconv.AppendFloat(_, 'f', -1, 64)` (the shortest decimal that reads back
as the same float) is a parameter, `formatFloat`, of the functions that
write an argument. A `time.Time` is given by the fields `AppendFormat` reads:
its date and clock in its location, its nanoseconds and the location's
offset. The buffer pool is left out: a buffer is taken empty and its
contents returned.
-/

namespace GaussdbGo.Sanitize

open GoStd.Strconv

/-! ## Arguments -/

/-- A `time.Time` as `AppendFormat` reads it. -/
structure Time where
  year : Int
  month : Nat
  day : Nat
  hour : Nat
  minute : Nat
  second : Nat
  nanosecond : Nat
  /-- seconds east of UTC -/
  offset : Int
  deriving DecidableEq, Repr

/-- An argument of `Sanitize`, by its dynamic type. -/
inductive Arg where
  | nil
  | int64 (v : Int64)
  | float64 (bits : UInt64)
  | bool (b : Bool)
  | bytes (b : Bytes)
  | string (s : Bytes)
  | time (t : Time)
  /-- any other type, by its `%T` name -/
  | other (typeName : String)
  deriving DecidableEq, Repr

/-- The errors of `Sanitize`. -/
inductive SanitizeError where
  | firstArgument
  | insufficientArguments
  | invalidArgType (typeName : String)
  | unusedArgument (i : Nat)
  deriving DecidableEq, Repr

/-- The text of each error. -/
def SanitizeError.message : SanitizeError → String
  | .firstArgument => "first sql argument must be > 0"
  | .insufficientArguments => "insufficient arguments"
  | .invalidArgType typeName => "invalid arg type: " ++ typeName
  | .unusedArgument i => "unused argument: " ++ toString i

/-! ## Quoting -/

/-- `QuoteString(nil, str)`: the bytes between quotes, each quote doubled. -/
def quoteString (str : Bytes) : Bytes :=
  39 :: str.flatMap (fun b => if b = 39 then [39, 39] else [b]) ++ [39]

/-- A lower-case hex digit, as `hex.Encode` writes it. -/
def hexDigit (n : Nat) : UInt8 := UInt8.ofNat (if n < 10 then 48 + n else 87 + n)

/-- `hex.Encode`: two digits a byte. -/
def hexEncode (buf : Bytes) : Bytes :=
  buf.flatMap fun b => [hexDigit (b.toNat / 16), hexDigit (b.toNat % 16)]

/-- `QuoteBytes(nil, buf)`: `'\x` and the hex digits, then a quote; the
empty slice is the literal `'\x'`. -/
def quoteBytes (buf : Bytes) : Bytes :=
  if buf = [] then [39, 92, 120, 39]
  else [39, 92, 120] ++ hexEncode buf ++ [39]

/-! ## `time.Time.AppendFormat` with the layout of `Sanitize` -/

/-- `appendInt(nil, x, width)` of package `time`: a sign, then the digits
padded with zeros to `width`. -/
def appendInt (x : Int) (width : Nat) : Bytes :=
  let ds := natDigits x.natAbs
  (if x < 0 then [45] else []) ++ List.replicate (width - ds.length) 48 ++ ds

/-- The trailing zeros dropped, as `.999999999` asks. -/
def dropTrailingZeros (b : Bytes) : Bytes := (b.reverse.dropWhile (· = 48)).reverse

/-- `appendNano` for `.999999999`: nothing for a whole second, else a dot and
the nanoseconds without their trailing zeros. -/
def appendNano (nanosec : Nat) : Bytes :=
  if nanosec = 0 then [] else 46 :: dropTrailingZeros (appendInt nanosec 9)

/-- The zone as `Z07:00:00` writes it: `Z` for UTC, else the sign, hours,
minutes and seconds of the offset. -/
def appendZone (offset : Int) : Bytes :=
  if offset = 0 then [90]
  else
    let zone := offset.tdiv 60
    let sign : UInt8 := if zone < 0 then 45 else 43
    let absZone := zone.natAbs
    let absOffset := if zone < 0 then -offset else offset
    sign :: appendInt (absZone / 60) 2 ++ [58] ++ appendInt (absZone % 60) 2 ++ [58] ++
      appendInt (absOffset.tmod 60) 2

/-- `t.AppendFormat(nil, "'2006-01-02 15:04:05.999999999Z07:00:00'")`. -/
def Time.appendFormat (t : Time) : Bytes :=
  [39] ++ appendInt t.year 4 ++ [45] ++ appendInt t.month 2 ++ [45] ++ appendInt t.day 2 ++ [32] ++
    appendInt t.hour 2 ++ [58] ++ appendInt t.minute 2 ++ [58] ++ appendInt t.second 2 ++
    appendNano t.nanosecond ++ appendZone t.offset ++ [39]

/-- `t.Truncate(time.Microsecond)`: a second is a whole number of
microseconds, so only the nanoseconds change. -/
def Time.truncateMicro (t : Time) : Time :=
  { t with nanosecond := t.nanosecond - t.nanosecond % 1000 }

/-! ## `Sanitize` -/

/-- The bytes `null`, `true` and `false`. -/
def nullText : Bytes := [110, 117, 108, 108]

def trueText : Bytes := [116, 114, 117, 101]

def falseText : Bytes := [102, 97, 108, 115, 101]

/-- The type switch of `Sanitize`: how an argument is written. -/
def encodeArg (formatFloat : UInt64 → Bytes) : Arg → Except SanitizeError Bytes
  | .nil => pure nullText
  | .int64 v => pure (itoa v.toInt)
  | .float64 x => pure (formatFloat x)
  | .bool b => pure (if b then trueText else falseText)
  | .bytes b => pure (quoteBytes b)
  | .string s => pure (quoteString s)
  | .time t => pure t.truncateMicro.appendFormat
  | .other typeName => throw (.invalidArgType typeName)

/-- One part of the loop of `Sanitize`, writing into `buf` and marking the
argument it uses. -/
def writePart (formatFloat : UInt64 → Bytes) (args : List Arg) (buf : Bytes)
    (argUse : List Bool) : Part → Except SanitizeError (Bytes × List Bool)
  | .text s => pure (buf ++ s, argUse)
  | .arg n =>
    let argIdx := n - 1
    if argIdx < 0 then throw .firstArgument
    else if (args.length : Int) ≤ argIdx.toInt then throw .insufficientArguments
    else do
      let p ← encodeArg formatFloat (args.getD argIdx.toInt.toNat .nil)
      pure (buf ++ [32] ++ p ++ [32], argUse.set argIdx.toInt.toNat true)

/-- The `for _, part := range q.Parts` loop of `Sanitize`. -/
def writeParts (formatFloat : UInt64 → Bytes) (args : List Arg) :
    List Part → Bytes → List Bool → Except SanitizeError (Bytes × List Bool)
  | [], buf, argUse => pure (buf, argUse)
  | part :: parts, buf, argUse => do
    let (buf, argUse) ← writePart formatFloat args buf argUse part
    writeParts formatFloat args parts buf argUse

/-- A `Query`: the parts `init` split a statement into. -/
structure Query where
  parts : List Part
  deriving DecidableEq, Repr

/-- `NewQuery(sql)`. -/
def newQuery (sql : Bytes) : Query := ⟨queryParts sql⟩

/-- `q.Sanitize(args...)`: the parts written in order, then every argument
checked to have been used. -/
def Query.sanitize (formatFloat : UInt64 → Bytes) (q : Query) (args : List Arg) :
    Except SanitizeError Bytes := do
  let (buf, argUse) ← writeParts formatFloat args q.parts [] (List.replicate args.length false)
  match argUse.idxOf? false with
  | some i => throw (.unusedArgument i)
  | none => pure buf

/-- `SanitizeSQL(sql, args...)`. -/
def sanitizeSQL (formatFloat : UInt64 → Bytes) (sql : Bytes) (args : List Arg) :
    Except SanitizeError Bytes :=
  (newQuery sql).sanitize formatFloat args

end GaussdbGo.Sanitize
