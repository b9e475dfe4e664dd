import GaussdbGo.Proto.BackendMessage
import GaussdbGo.Lib.Hex
import GaussdbGo.Lib.Json

/-!
# gaussdbproto — messages as JSON

`MarshalJSON` and `UnmarshalJSON` of the messages whose JSON carries bytes:
`CopyData`, the three `Copy*Response`s, `FunctionCallResponse` and `DataRow`.
Each `UnmarshalJSON` first ignores a `null` document, then reads an anonymous
struct with `json.Unmarshal` and builds the message from it.

What comes back from `json.Unmarshal(json.Marshal(m))` is stated for every
message, field by field: `CopyData` gets the hex digits of its data instead of
the data, a copy response never comes back (its `OverallFormat` is not
written but is required), a byte value comes back through `readBack`, and a
`nil` function result, `CopyData` payload or slice of row values comes back
empty and not `nil`.
-/

namespace GaussdbGo.Proto

open GoStd GoStd.Json

/-- The errors an `UnmarshalJSON` returns. -/
inductive JsonError where
  | json (e : Json.Error)
  | hex (e : Hex.Error)
  /-- `errors.New(text)` -/
  | new (text : String)
  deriving DecidableEq, Repr

/-- A `json.Unmarshal` of the message's anonymous struct. -/
def liftJson {α : Type} (x : Except Json.Error α) : Go JsonError α :=
  x.mapError fun e => .error (.json e)

@[simp] theorem liftJson_ok {α : Type} (a : α) : liftJson (.ok a) = .ok a := rfl

/-! ## `CopyData` -/

/-- A `nil` slice is written as the empty string. -/
def CopyData.marshalJSON (src : CopyData) : Value :=
  .object [("Type", .str "CopyData"), ("Data", .ofString (Hex.encodeToString (src.Data.getD [])))]

/-- `dst.Data = []byte(msg.Data)`: the text is taken as it is, in a slice that
is never `nil`. -/
def CopyData.unmarshalJSON (dst : CopyData) : Value → Go JsonError CopyData
  | .null => .ok dst
  | data => do
    let fields ← liftJson (structFields "struct { Data string }" data)
    let msgData ← liftJson (decodeString "Data" (field? fields "Data"))
    pure { dst with Data := some msgData }

/-! ## `CopyInResponse`, `CopyOutResponse`, `CopyBothResponse` -/

/-- Their shared `MarshalJSON`: the type and the column format codes; the
overall format is not written. -/
def copyResponseMarshalJSON (typeName : String) (src : CopyResponse) : Value :=
  .object [("Type", .str typeName),
    ("ColumnFormatCodes", .array (src.ColumnFormatCodes.map fun c => .number c.toNat))]

/-- Their shared `UnmarshalJSON`, which requires an `OverallFormat` of one
byte. -/
def copyResponseUnmarshalJSON (typeName : String) (dst : CopyResponse) :
    Value → Go JsonError CopyResponse
  | .null => .ok dst
  | data => do
    let fields ← liftJson (structFields "struct { OverallFormat string; ColumnFormatCodes []uint16 }" data)
    let overallFormat ← liftJson (decodeString "OverallFormat" (field? fields "OverallFormat"))
    let columnFormatCodes ← liftJson (decodeSlice "ColumnFormatCodes" "[]uint16"
      (decodeUint16 "ColumnFormatCodes") (field? fields "ColumnFormatCodes"))
    match overallFormat with
    | [b] => pure { OverallFormat := b, ColumnFormatCodes := columnFormatCodes }
    | _ => raise (.new ("invalid length for " ++ typeName ++ ".OverallFormat"))

def CopyInResponse.marshalJSON (src : CopyInResponse) : Value :=
  copyResponseMarshalJSON "CopyInResponse" src

def CopyInResponse.unmarshalJSON (dst : CopyInResponse) (data : Value) :
    Go JsonError CopyInResponse :=
  copyResponseUnmarshalJSON "CopyInResponse" dst data

def CopyOutResponse.marshalJSON (src : CopyOutResponse) : Value :=
  copyResponseMarshalJSON "CopyOutResponse" src

def CopyOutResponse.unmarshalJSON (dst : CopyOutResponse) (data : Value) :
    Go JsonError CopyOutResponse :=
  copyResponseUnmarshalJSON "CopyOutResponse" dst data

def CopyBothResponse.marshalJSON (src : CopyBothResponse) : Value :=
  copyResponseMarshalJSON "CopyBothResponse" src

def CopyBothResponse.unmarshalJSON (dst : CopyBothResponse) (data : Value) :
    Go JsonError CopyBothResponse :=
  copyResponseUnmarshalJSON "CopyBothResponse" dst data

/-! ## Byte values: `FunctionCallResponse` and `DataRow` -/

/-- The `map[string]string` a byte value is written as: its hex digits under
`binary` when a byte is below 32, else its bytes under `text`. -/
def formatValue (v : Bytes) : Value :=
  if v.any (· < 32) then .object [("binary", .ofString (Hex.encodeToString v))]
  else .object [("text", .ofString v)]

/-- `getValueFromJSON(v)`. -/
def getValueFromJSON : Option (List (String × Bytes)) → Go JsonError (Option Bytes)
  | none => .ok none
  | some v =>
    match mapGet v "text" with
    | some text => .ok (some text)
    | none =>
      match mapGet v "binary" with
      | some binary => some <$> (Hex.decodeString binary).mapError fun e => .error (.hex e)
      | none => raise (.new "unknown protocol representation")

/-- A `nil` result is written as the empty text. -/
def FunctionCallResponse.marshalJSON (src : FunctionCallResponse) : Value :=
  .object [("Type", .str "FunctionCallResponse"), ("Result", formatValue (src.Result.getD []))]

def FunctionCallResponse.unmarshalJSON (dst : FunctionCallResponse) :
    Value → Go JsonError FunctionCallResponse
  | .null => .ok dst
  | data => do
    let fields ← liftJson (structFields "struct { Result map[string]string }" data)
    let result ← liftJson (decodeStringMap "Result" (field? fields "Result"))
    let result ← getValueFromJSON result
    pure { dst with Result := result }

/-- A `nil` value is written as a `nil` map, JSON `null`; the values are
written into a slice made with `make`, an array even when `Values` is `nil`. -/
def DataRow.marshalJSON (src : DataRow) : Value :=
  .object [("Type", .str "DataRow"),
    ("Values", .array ((src.Values.getD []).map fun v => match v with
      | none => .null
      | some v => formatValue v))]

def DataRow.unmarshalJSON (dst : DataRow) : Value → Go JsonError DataRow
  | .null => .ok dst
  | data => do
    let fields ← liftJson (structFields "struct { Values []map[string]string }" data)
    let values ← liftJson (decodeSlice "Values" "[]map[string]string"
      (fun v => decodeStringMap "Values" (some v)) (field? fields "Values"))
    -- `dst.Values = make([][]byte, len(msg.Values))`
    let values ← values.mapM getValueFromJSON
    pure { dst with Values := some values }

/-! ## What `json.Unmarshal` reads back -/

/-- What a byte value comes back as: itself when a byte is below 32 (it
travels as hex), else its text as a JSON string keeps it. -/
def readBack (v : Bytes) : Bytes := if v.any (· < 32) then v else validString v

theorem validString_encodeToString (v : Bytes) :
    validString (Hex.encodeToString v) = Hex.encodeToString v :=
  validString_ascii fun _ hb => Hex.toNat_lt_of_mem_encodeToString hb

/-- Valid UTF-8 and values with a byte below 32 come back unchanged. -/
theorem readBack_of_valid {v : Bytes} (h : v.any (· < 32) ∨ Utf8.Valid v) : readBack v = v := by
  unfold readBack
  split
  · rfl
  · rename_i hany
    obtain ⟨cs, rfl⟩ := h.resolve_left hany
    exact validString_encodeString cs

theorem CopyData.unmarshalJSON_marshalJSON (dst m : CopyData) :
    dst.unmarshalJSON m.marshalJSON = .ok { Data := some (Hex.encodeToString (m.Data.getD [])) } := by
  simp [unmarshalJSON, marshalJSON, structFields, field?, decodeString, Value.ofString,
    validString_encodeToString]

/-- `CopyData` comes back as it was only when its data is empty and not
`nil`. -/
theorem CopyData.json_round_trip_iff (dst m : CopyData) :
    dst.unmarshalJSON m.marshalJSON = .ok m ↔ m.Data = some [] := by
  rw [unmarshalJSON_marshalJSON, Except.ok.injEq, CopyData.mk.injEq]
  cases m.Data with
  | none => simp
  | some v => simp [Hex.encodeToString_eq_self_iff]

/-- The column format codes read back, and the missing overall format fails
the length check. -/
theorem copyResponseUnmarshalJSON_marshalJSON (typeName : String) (dst m : CopyResponse) :
    copyResponseUnmarshalJSON typeName dst (copyResponseMarshalJSON typeName m) =
      raise (.new ("invalid length for " ++ typeName ++ ".OverallFormat")) := by
  have hcodes : decodeSlice "ColumnFormatCodes" "[]uint16" (decodeUint16 "ColumnFormatCodes")
      (some (.array (m.ColumnFormatCodes.map fun c => .number c.toNat))) =
        .ok (m.ColumnFormatCodes.map id) :=
    decodeSlice_array "ColumnFormatCodes" "[]uint16" fun c _ => decodeUint16_number "ColumnFormatCodes" c
  rw [List.map_id] at hcodes
  simp [copyResponseUnmarshalJSON, copyResponseMarshalJSON, structFields, field?, List.lookup,
    decodeString, hcodes]

/-- A formatted value reads back through `getValueFromJSON` as `readBack`
of it. -/
theorem getValueFromJSON_formatValue (field : String) (v : Bytes) :
    ∃ m, decodeStringMap field (some (formatValue v)) = .ok m ∧
      getValueFromJSON m = .ok (some (readBack v)) := by
  by_cases hany : v.any (· < 32)
  · -- the hex digits under `binary` decode to the value
    refine ⟨some [("binary", Hex.encodeToString v)], ?_, ?_⟩
    · simp [formatValue, hany, decodeStringMap, Value.ofString, validString_encodeToString]
    · simp [getValueFromJSON, mapGet, List.lookup, Hex.decodeString_encodeToString, readBack, hany]
      rfl
  · refine ⟨some [("text", validString v)], ?_, ?_⟩
    · simp [formatValue, hany, decodeStringMap, Value.ofString]
    · simp [getValueFromJSON, mapGet, readBack, hany]

/-- A function result reads back as `readBack` of it, a `nil` one as empty. -/
theorem FunctionCallResponse.unmarshalJSON_marshalJSON (dst m : FunctionCallResponse) :
    dst.unmarshalJSON m.marshalJSON = .ok { Result := some (readBack (m.Result.getD [])) } := by
  obtain ⟨mp, hdec, hget⟩ := getValueFromJSON_formatValue "Result" (m.Result.getD [])
  simp [unmarshalJSON, marshalJSON, structFields, field?, hdec, hget]

/-- Each value of a row reads back as `readBack` of it, a `nil` one as `nil`,
into a slice that is not `nil`. -/
theorem DataRow.unmarshalJSON_marshalJSON (dst m : DataRow) :
    dst.unmarshalJSON m.marshalJSON =
      .ok { Values := some ((m.Values.getD []).map (Option.map readBack)) } := by
  obtain ⟨maps, hmaps, hvalues⟩ : ∃ maps,
      ((m.Values.getD []).map fun v => match v with
        | none => .null
        | some v => formatValue v).mapM (fun v => decodeStringMap "Values" (some v)) = .ok maps ∧
        maps.mapM getValueFromJSON = .ok ((m.Values.getD []).map (Option.map readBack)) :=
    mapM_mapM_of_ok fun v _ => by
      cases v with
      | none => exact ⟨none, rfl, rfl⟩
      | some v => exact getValueFromJSON_formatValue "Values" v
  have hslice : decodeSlice "Values" "[]map[string]string" (fun v => decodeStringMap "Values" (some v))
      (some (.array ((m.Values.getD []).map fun v => match v with
        | none => .null
        | some v => formatValue v))) = .ok maps := hmaps
  simp [unmarshalJSON, marshalJSON, structFields, field?, hslice, hvalues]

/-! ## Which messages come back as they were -/

theorem FunctionCallResponse.json_round_trip_iff (dst m : FunctionCallResponse) :
    dst.unmarshalJSON m.marshalJSON = .ok m ↔ ∃ v, m.Result = some v ∧ readBack v = v := by
  rw [unmarshalJSON_marshalJSON, Except.ok.injEq, FunctionCallResponse.mk.injEq]
  cases m.Result with
  | none => simp
  | some v => simp

theorem DataRow.json_round_trip_iff (dst m : DataRow) :
    dst.unmarshalJSON m.marshalJSON = .ok m ↔
      ∃ vs, m.Values = some vs ∧ ∀ v ∈ vs, ∀ w, v = some w → readBack w = w := by
  rw [unmarshalJSON_marshalJSON, Except.ok.injEq, DataRow.mk.injEq]
  cases m.Values with
  | none => simp
  | some vs =>
    simp only [Option.getD_some, Option.some.injEq, exists_eq_left']
    conv_lhs => rhs; rw [← List.map_id vs]
    rw [List.map_inj_left]
    refine forall₂_congr fun v _ => ?_
    cases v with
    | none => simp
    | some w => simp

/-- `json.Unmarshal(json.Marshal(m))` gives `m` back for a `CopyData` only
when its data is empty and not `nil`, never for a copy response, for a
function result only when it is not `nil` and `readBack` keeps it, and for a
row only when its values are not `nil` and `readBack` keeps every one. -/
theorem messages_json_round_trip :
    (∀ dst m : CopyData, dst.unmarshalJSON m.marshalJSON = .ok m ↔ m.Data = some []) ∧
      (∀ dst m : CopyInResponse, CopyInResponse.unmarshalJSON dst (CopyInResponse.marshalJSON m) =
        raise (.new "invalid length for CopyInResponse.OverallFormat")) ∧
      (∀ dst m : CopyOutResponse, CopyOutResponse.unmarshalJSON dst (CopyOutResponse.marshalJSON m) =
        raise (.new "invalid length for CopyOutResponse.OverallFormat")) ∧
      (∀ dst m : CopyBothResponse, CopyBothResponse.unmarshalJSON dst (CopyBothResponse.marshalJSON m) =
        raise (.new "invalid length for CopyBothResponse.OverallFormat")) ∧
      (∀ dst m : FunctionCallResponse, dst.unmarshalJSON m.marshalJSON = .ok m ↔
        ∃ v, m.Result = some v ∧ readBack v = v) ∧
      (∀ dst m : DataRow, dst.unmarshalJSON m.marshalJSON = .ok m ↔
        ∃ vs, m.Values = some vs ∧ ∀ v ∈ vs, ∀ w, v = some w → readBack w = w) :=
  ⟨CopyData.json_round_trip_iff,
    fun dst m => copyResponseUnmarshalJSON_marshalJSON "CopyInResponse" dst m,
    fun dst m => copyResponseUnmarshalJSON_marshalJSON "CopyOutResponse" dst m,
    fun dst m => copyResponseUnmarshalJSON_marshalJSON "CopyBothResponse" dst m,
    FunctionCallResponse.json_round_trip_iff, DataRow.json_round_trip_iff⟩

end GaussdbGo.Proto
