import GaussdbGo.Lib.Utf8

/-!
# JSON documents (`encoding/json`)

A document is modelled as the value `json.Marshal` writes and `json.Unmarshal`
reads; the text between them is not, as the round trip of the value through
its text is the library's. What the text does change is kept: `json.Marshal`
writes each byte of a Go string that does not start valid UTF-8 as `�`,
so a string reads back as `validString` of it.

`json.Unmarshal` into a struct reads each field from the object's key of the
same name (the last such key, as later ones overwrite). A JSON `null` or a
missing key leaves the field at its zero value; a value of the wrong kind is
an `UnmarshalTypeError` naming the field.
-/

namespace GoStd.Json

open GoStd.Utf8

/-- A JSON value; numbers here are integers, the only ones the modelled
messages write. -/
inductive Value where
  | null
  | bool (b : Bool)
  | number (n : Int)
  | string (s : List UInt8)
  | array (elems : List Value)
  | object (fields : List (String × Value))
  deriving Repr

/-- What a JSON value reads as in a Go string, with each byte that does not
start a valid UTF-8 sequence replaced by the encoding of U+FFFD. -/
def validString : List UInt8 → List UInt8
  | [] => []
  | b :: rest =>
    let d := decodeRune (b :: rest)
    if d.1 = RuneError ∧ d.2 = 1 then [0xEF, 0xBF, 0xBD] ++ validString rest
    else (b :: rest).take d.2 ++ validString ((b :: rest).drop d.2)
termination_by s => s.length
decreasing_by
  · simp
  · have := one_le_width (s := b :: rest) (by simp)
    simp only [List.length_drop, List.length_cons]
    omega

/-- A Go string as `json.Marshal` writes it. -/
def Value.ofString (s : List UInt8) : Value := .string (validString s)

/-- A Go string literal. -/
def Value.str (s : String) : Value := .string (encodeString s.toList)

/-- The kind `UnmarshalTypeError.Value` names. -/
def Value.kind : Value → String
  | .null => "null"
  | .bool _ => "bool"
  | .number _ => "number"
  | .string _ => "string"
  | .array _ => "array"
  | .object _ => "object"

/-- The errors of `json.Unmarshal` met here. -/
inductive Error where
  /-- `UnmarshalTypeError`: a JSON value of kind `value` for the field `field`
  of Go type `goType` -/
  | unmarshalType (value field goType : String)
  deriving DecidableEq, Repr

/-- The value of key `name` in an object, the last one written. -/
def field? (fields : List (String × Value)) (name : String) : Option Value :=
  fields.reverse.lookup name

/-- The fields of the document a struct is read from; `null` reads as no
fields. -/
def structFields (goType : String) : Value → Except Error (List (String × Value))
  | .null => .ok []
  | .object fields => .ok fields
  | v => .error (.unmarshalType v.kind "" goType)

/-- A `string` field. -/
def decodeString (field : String) : Option Value → Except Error (List UInt8)
  | none | some .null => .ok []
  | some (.string s) => .ok s
  | some v => .error (.unmarshalType v.kind field "string")

/-- A `map[string]string` field: `nil` for a missing key or `null`; the map
as its entries, later keys first to be found. -/
def decodeStringMap (field : String) : Option Value →
    Except Error (Option (List (String × List UInt8)))
  | none | some .null => .ok none
  | some (.object fields) =>
    some <$> fields.mapM fun kv =>
      match kv.2 with
      | .string s => .ok (kv.1, s)
      | .null => .ok (kv.1, [])
      | v => .error (.unmarshalType v.kind field "string")
  | some v => .error (.unmarshalType v.kind field "map[string]string")

/-- `m[key]` of a map read by `decodeStringMap`. -/
def mapGet (m : List (String × List UInt8)) (key : String) : Option (List UInt8) :=
  m.reverse.lookup key

/-- A slice field whose elements `elem` reads; `nil` for a missing key or
`null`. -/
def decodeSlice {α : Type} (field goType : String) (elem : Value → Except Error α) :
    Option Value → Except Error (List α)
  | none | some .null => .ok []
  | some (.array elems) => elems.mapM elem
  | some v => .error (.unmarshalType v.kind field goType)

/-- A `uint16` slice element; `null` reads as `0`. -/
def decodeUint16 (field : String) : Value → Except Error UInt16
  | .null => .ok 0
  | .number n =>
    if 0 ≤ n ∧ n < 65536 then .ok (UInt16.ofNat n.toNat)
    else .error (.unmarshalType "number" field "uint16")
  | v => .error (.unmarshalType v.kind field "uint16")

/-! ## Reading back what was written -/

/-- Elements each read back as `r` of what they were written from. -/
theorem mapM_map_of_ok {α β γ ε : Type} {g : α → β} {elem : β → Except ε γ} {r : α → γ} :
    ∀ {as : List α}, (∀ a ∈ as, elem (g a) = .ok (r a)) → (as.map g).mapM elem = .ok (as.map r)
  | [], _ => rfl
  | a :: as, h => by
    have ih : (as.map g).mapM elem = .ok (as.map r) :=
      mapM_map_of_ok fun a' ha' => h a' (List.mem_cons_of_mem _ ha')
    simp only [List.map_cons, List.mapM_cons, h a (List.mem_cons_self ..), ih]
    rfl

/-- Elements read in two passes, the first giving `bs` and the second `r`
of what each was written from. -/
theorem mapM_mapM_of_ok {α β γ δ ε ε' : Type} {g : α → β} {elem : β → Except ε γ}
    {k : γ → Except ε' δ} {r : α → δ} :
    ∀ {as : List α}, (∀ a ∈ as, ∃ c, elem (g a) = .ok c ∧ k c = .ok (r a)) →
      ∃ cs, (as.map g).mapM elem = .ok cs ∧ cs.mapM k = .ok (as.map r)
  | [], _ => ⟨[], rfl, rfl⟩
  | a :: as, h => by
    obtain ⟨c, hc, hk⟩ := h a (List.mem_cons_self ..)
    obtain ⟨cs, hcs, hks⟩ : ∃ cs, (as.map g).mapM elem = .ok cs ∧ cs.mapM k = .ok (as.map r) :=
      mapM_mapM_of_ok fun a' ha' => h a' (List.mem_cons_of_mem _ ha')
    refine ⟨c :: cs, ?_, ?_⟩
    · simp only [List.map_cons, List.mapM_cons, hc, hcs]
      rfl
    · simp only [List.map_cons, List.mapM_cons, hk, hks]
      rfl

theorem decodeSlice_array {α β : Type} (field goType : String) {elem : Value → Except Error α}
    {g : β → Value} {r : β → α} {bs : List β} (h : ∀ b ∈ bs, elem (g b) = .ok (r b)) :
    decodeSlice field goType elem (some (.array (bs.map g))) = .ok (bs.map r) :=
  mapM_map_of_ok h

theorem decodeUint16_number (field : String) (c : UInt16) :
    decodeUint16 field (.number c.toNat) = .ok c := by
  have hc : c.toNat < 65536 := c.toNat_lt
  simp only [decodeUint16, Int.toNat_natCast]
  rw [if_pos (by omega), UInt16.ofNat_toNat]

/-! ## Strings through `json.Marshal` -/

/-- A rune encoded in one byte is ASCII, so never U+FFFD. -/
theorem toNat_lt_of_length_encodeRune {c : Char} (h : (encodeRune c).length = 1) :
    c.toNat < 0x80 := by
  unfold encodeRune at h
  dsimp only at h
  split_ifs at h with h₁
  · exact h₁
  all_goals simp at h

/-- Valid UTF-8 reads back unchanged. -/
theorem validString_encodeString : ∀ cs : List Char, validString (encodeString cs) = encodeString cs
  | [] => by simp [validString]
  | c :: cs => by
    have hpos := length_encodeRune_pos c
    obtain ⟨b, rest, hbr⟩ : ∃ b rest, encodeRune c ++ encodeString cs = b :: rest := by
      cases h : encodeRune c with
      | nil => simp [h] at hpos
      | cons b rest => exact ⟨b, rest ++ encodeString cs, rfl⟩
    have hdec := decodeRune_encodeRune c (encodeString cs)
    have hkeep : ¬ ((decodeRune (b :: rest)).1 = RuneError ∧ (decodeRune (b :: rest)).2 = 1) := by
      rw [← hbr, hdec]
      rintro ⟨h₁, h₂⟩
      have := toNat_lt_of_length_encodeRune h₂
      simp only [RuneError] at h₁
      omega
    rw [encodeString_cons, hbr, validString, if_neg hkeep, ← hbr, hdec, List.take_left,
      List.drop_left, validString_encodeString cs]

/-- ASCII text reads back unchanged. -/
theorem validString_ascii {p : List UInt8} (h : ∀ b ∈ p, b.toNat < 0x80) : validString p = p := by
  rw [← encodeString_ascii h, validString_encodeString]

end GoStd.Json
