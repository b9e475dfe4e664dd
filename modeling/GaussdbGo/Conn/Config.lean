import GaussdbGo.Lib.Go
import GaussdbGo.Lib.Strings

/-!
# Connection strings (`config.go`): keyword/value settings

`parseKeywordValueSettings` reads `key=value` pairs separated by blanks. A
value is either unquoted, running to the next blank with a backslash taking
the byte after it along, or single-quoted, running to the next quote not taken
by a backslash. Either way its text is then unescaped by two `strings.Replace`
calls, `\\` to `\` and then `\'` to `'`. No other escape is undone: a blank
written `\ ` in an unquoted value keeps its backslash.

A quoted value whose text ends in a lone backslash makes the scan step one
byte past the end, and the slice taken there panics.
-/

namespace GaussdbGo.Conn

open GoStd GoStd.Strings

/-- The bytes `asciiSpace` marks: `\t`, `\n`, `\v`, `\f`, `\r` and space. -/
def asciiSpace : List UInt8 := [9, 10, 11, 12, 13, 32]

/-- The cutset `" \t\n\r\v\f"` keys and values are trimmed with. -/
def blankCutset : List UInt8 := [32, 9, 10, 13, 11, 12]

/-- `strings.Replace(strings.Replace(s, "\\\\", "\\", -1), "\\'", "'", -1)`. -/
def unescape (s : List UInt8) : List UInt8 :=
  replace 92 [39] [39] (replace 92 [92] [92] s)

/-- The scan of an unquoted value: the index of the first blank not taken by a
backslash, the length if there is none, and `none` where a backslash is the
last byte. -/
def unquotedEnd : List UInt8 → Option Nat
  | [] => some 0
  | c :: cs =>
    if c ∈ asciiSpace then some 0
    else if c = 92 then
      match cs with
      | [] => none
      | _ :: rest => (unquotedEnd rest).map (· + 2)
    else (unquotedEnd cs).map (· + 1)

/-- The scan of a quoted value past its opening quote: the index of the first
quote not taken by a backslash. A backslash as the last byte takes a byte past
the end, so the index is then the length plus one. -/
def quotedEnd : List UInt8 → Nat
  | [] => 0
  | c :: cs =>
    if c = 39 then 0
    else if c = 92 then
      match cs with
      | [] => 2
      | _ :: rest => quotedEnd rest + 2
    else quotedEnd cs + 1

theorem quotedEnd_quote (cs : List UInt8) : quotedEnd (39 :: cs) = 0 := by
  rw [quotedEnd.eq_def]
  simp

theorem quotedEnd_backslash (d : UInt8) (cs : List UInt8) :
    quotedEnd (92 :: d :: cs) = quotedEnd cs + 2 := by
  rw [quotedEnd.eq_def]
  simp

theorem quotedEnd_of_ne {c : UInt8} (cs : List UInt8) (h39 : c ≠ 39) (h92 : c ≠ 92) :
    quotedEnd (c :: cs) = quotedEnd cs + 1 := by
  rw [quotedEnd.eq_def]
  simp [h39, h92]

theorem unquotedEnd_backslash (d : UInt8) (cs : List UInt8) :
    unquotedEnd (92 :: d :: cs) = (unquotedEnd cs).map (· + 2) := by
  rw [unquotedEnd.eq_def]
  simp [asciiSpace]

theorem unquotedEnd_of_ne {c : UInt8} (cs : List UInt8) (hs : c ∉ asciiSpace) (h92 : c ≠ 92) :
    unquotedEnd (c :: cs) = (unquotedEnd cs).map (· + 1) := by
  rw [unquotedEnd.eq_def]
  simp [hs, h92]

theorem unquotedEnd_of_blank {cs : List UInt8} (h : ∀ c ∈ cs.head?, c ∈ asciiSpace) :
    unquotedEnd cs = some 0 := by
  cases cs with
  | nil => rfl
  | cons c cs =>
    rw [unquotedEnd.eq_def]
    simp [h c rfl]

/-- One value, from its first byte past the blanks after `=`: the value and the
text after it. -/
def parseValue (s : List UInt8) : Go String (List UInt8 × List UInt8) :=
  match s with
  | [] => .ok ([], [])
  | c :: cs =>
    if c ≠ 39 then
      match unquotedEnd s with
      | none => raise "invalid backslash"
      | some e => .ok (unescape (s.take e), s.drop (e + 1))
    else
      -- quoted string: the scan starts past the quote
      let e := quotedEnd cs
      if e = cs.length then raise "unterminated quoted string in connection info string"
      else if cs.length < e then crash (.sliceBoundsOutOfRange 0 e cs.length)
      else .ok (unescape (cs.take e), cs.drop (e + 1))

/-- `nameMap`: `dbname` is read as `database`. -/
def renameKey (key : List UInt8) : List UInt8 :=
  if key = [100, 98, 110, 97, 109, 101] then [100, 97, 116, 97, 98, 97, 115, 101] else key

theorem length_of_parseValue {s val rest : List UInt8} (h : parseValue s = .ok (val, rest)) :
    rest.length ≤ s.length := by
  unfold parseValue at h
  split at h
  · cases h
    exact Nat.zero_le _
  · dsimp only at h
    split_ifs at h
    · -- unquoted
      split at h
      · cases h
      · cases h
        simp only [List.length_drop, List.length_cons]
        omega
    · cases h
    · cases h
    · cases h
      simp only [List.length_drop, List.length_cons]
      omega

-- `h61` and `h` are read by the termination proof only
set_option linter.unusedVariables false in
/-- The loop of `parseKeywordValueSettings` over the rest of the string, from
the settings read so far; `settings[key] = val` is `mapInsert`. -/
def keywordValueLoop (settings : List (List UInt8 × List UInt8)) (s : List UInt8) :
    Go String (List (List UInt8 × List UInt8)) :=
  if s = [] then .ok settings
  else if h61 : 61 ∈ s then
    let eqIdx := s.idxOf 61
    let key := trim (s.take eqIdx) blankCutset
    match h : parseValue (trimLeft (s.drop (eqIdx + 1)) blankCutset) with
    | .ok (val, rest) =>
      let key := renameKey key
      if key = [] then raise "invalid keyword/value"
      else keywordValueLoop (mapInsert settings key val) rest
    | .error e => .error e
  else raise "invalid keyword/value"
termination_by s.length
decreasing_by
  have hrest := length_of_parseValue h
  simp only [eqIdx] at hrest
  have htrim : (trimLeft (s.drop (s.idxOf 61 + 1)) blankCutset).length ≤
      (s.drop (s.idxOf 61 + 1)).length := (List.dropWhile_suffix _).length_le
  have hidx := List.idxOf_lt_length_of_mem h61
  simp only [List.length_drop] at htrim
  omega

/-- `parseKeywordValueSettings(s)`. -/
def parseKeywordValueSettings (s : List UInt8) : Go String (List (List UInt8 × List UInt8)) :=
  keywordValueLoop [] s

theorem keywordValueLoop_nil (settings : List (List UInt8 × List UInt8)) :
    keywordValueLoop settings [] = .ok settings := by
  rw [keywordValueLoop, if_pos rfl]

/-! ## Escaped values

What a connection string writer puts after `key=`: a backslash before each
byte `special` picks, the text quoted or not. -/

/-- `\` before each byte `special` picks. -/
def escapeWith (special : UInt8 → Bool) (v : List UInt8) : List UInt8 :=
  v.flatMap fun c => if special c then [92, c] else [c]

@[simp] theorem escapeWith_nil (special : UInt8 → Bool) : escapeWith special [] = [] := rfl

theorem escapeWith_cons (special : UInt8 → Bool) (c : UInt8) (v : List UInt8) :
    escapeWith special (c :: v) = (if special c then [92, c] else [c]) ++ escapeWith special v :=
  rfl

section Escaped

variable {special : UInt8 → Bool} (h92 : special 92 = true)
include h92

/-- The first `Replace` turns each `\\` back into `\` and leaves the other
escapes alone. -/
theorem replace_backslashes_escapeWith (v : List UInt8) :
    replace 92 [92] [92] (escapeWith special v) =
      v.flatMap fun c => if c = 92 then [92] else if special c then [92, c] else [c] := by
  induction v with
  | nil => simp
  | cons c v ih =>
    rw [escapeWith_cons, List.flatMap_cons]
    by_cases hc : c = 92
    · subst hc
      rw [if_pos h92, if_pos rfl, replace_append_old, ih]
    · by_cases hs : special c
      · rw [if_pos hs, if_neg hc, List.cons_append, replace_pair_of_head_ne (by simpa),
          List.cons_append, List.nil_append, replace_cons_of_ne _ hc, ih]
        rfl
      · rw [if_neg hs, if_neg hc, List.singleton_append, replace_cons_of_ne _ hc, ih]
        rfl

variable (h39 : special 39 = true)
include h39

omit h92 in
/-- After the first `Replace` no quote stands first: a quote only ever comes
right after its backslash. -/
theorem head_ne_quote (v : List UInt8) :
    ∀ d ∈ (v.flatMap fun c => if c = 92 then [92] else if special c then [92, c] else [c]).head?,
      d ≠ 39 := by
  cases v with
  | nil => simp
  | cons c v =>
    intro d hd
    rw [List.flatMap_cons] at hd
    by_cases hc : c = 92
    · rw [if_pos hc, List.singleton_append, List.head?_cons, Option.mem_some_iff] at hd
      rw [← hd]
      decide
    · by_cases hs : special c
      · rw [if_neg hc, if_pos hs, List.cons_append, List.head?_cons, Option.mem_some_iff] at hd
        rw [← hd]
        decide
      · rw [if_neg hc, if_neg hs, List.singleton_append, List.head?_cons, Option.mem_some_iff] at hd
        rintro rfl
        exact hs (hd ▸ h39)

omit h92 in
/-- The second `Replace` turns each `\'` into `'`; a backslash from `\\` is
never taken for the start of `\'`, as no quote follows it. -/
theorem replace_quotes_escapeWith (v : List UInt8) :
    replace 92 [39] [39]
        (v.flatMap fun c => if c = 92 then [92] else if special c then [92, c] else [c]) =
      v.flatMap fun c => if c ≠ 92 ∧ c ≠ 39 ∧ special c then [92, c] else [c] := by
  induction v with
  | nil => simp
  | cons c v ih =>
    have hhead := head_ne_quote h39 v
    rw [List.flatMap_cons, List.flatMap_cons]
    by_cases hc : c = 92
    · subst hc
      simp only [if_true, List.singleton_append, ne_eq, not_true_eq_false, false_and, if_false]
      rw [replace_pair_of_head_ne hhead, ih]
    · by_cases hq : c = 39
      · subst hq
        simp only [hc, if_false, h39, if_true, ne_eq, not_true_eq_false, and_false, false_and]
        rw [replace_append_old, ih]
      · by_cases hs : special c
        · simp only [hc, hs, hq, if_false, if_true, ne_eq, not_false_eq_true, and_self]
          rw [List.cons_append, replace_pair_of_head_ne (by simpa), List.cons_append,
            List.nil_append, replace_cons_of_ne _ hc, ih]
          rfl
        · simp only [hc, hs, if_false, Bool.false_eq_true, and_false, List.singleton_append]
          rw [replace_cons_of_ne _ hc, ih]

/-- What the two `Replace` calls make of escaped text: only the escapes of
bytes other than `\` and `'` are left. -/
theorem unescape_escapeWith (v : List UInt8) :
    unescape (escapeWith special v) =
      v.flatMap fun c => if c ≠ 92 ∧ c ≠ 39 ∧ special c then [92, c] else [c] := by
  rw [unescape, replace_backslashes_escapeWith h92, replace_quotes_escapeWith h39]

/-- The quoted scan runs over escaped text: every quote in it is escaped. -/
theorem quotedEnd_escapeWith (v t : List UInt8) :
    quotedEnd (escapeWith special v ++ t) = (escapeWith special v).length + quotedEnd t := by
  induction v with
  | nil => simp
  | cons c v ih =>
    rw [escapeWith_cons]
    by_cases hs : special c
    · rw [if_pos hs, List.append_assoc, List.cons_append, List.cons_append, List.nil_append,
        quotedEnd_backslash, ih]
      simp only [List.length_append, List.length_cons, List.length_nil]
      omega
    · have hc92 : c ≠ 92 := fun h => hs (h ▸ h92)
      have hc39 : c ≠ 39 := fun h => hs (h ▸ h39)
      rw [if_neg hs, List.append_assoc, List.singleton_append, quotedEnd_of_ne _ hc39 hc92, ih]
      simp only [List.length_append, List.length_cons, List.length_nil]
      omega

end Escaped

/-- The unquoted scan runs over escaped text when every blank is escaped. -/
theorem unquotedEnd_escapeWith {special : UInt8 → Bool} (h92 : special 92 = true)
    (hblank : ∀ c ∈ asciiSpace, special c = true) (v t : List UInt8) :
    unquotedEnd (escapeWith special v ++ t) = (unquotedEnd t).map ((escapeWith special v).length + ·) := by
  induction v with
  | nil => simp
  | cons c v ih =>
    rw [escapeWith_cons]
    by_cases hs : special c
    · rw [if_pos hs, List.append_assoc, List.cons_append, List.cons_append, List.nil_append,
        unquotedEnd_backslash, ih]
      simp only [Option.map_map, List.length_append, List.length_cons, List.length_nil]
      congr 1
      funext n
      simp only [Function.comp_apply]
      omega
    · have hc92 : c ≠ 92 := fun h => hs (h ▸ h92)
      have hcs : c ∉ asciiSpace := fun h => hs (hblank c h)
      rw [if_neg hs, List.append_assoc, List.singleton_append, unquotedEnd_of_ne _ hcs hc92, ih]
      simp only [Option.map_map, List.length_append, List.length_cons, List.length_nil]
      congr 1
      funext n
      simp only [Function.comp_apply]
      omega

/-! ## One setting of the loop -/

theorem mem_blankCutset {c : UInt8} : c ∈ blankCutset ↔ c ∈ asciiSpace := by
  simp only [blankCutset, asciiSpace, List.mem_cons, List.not_mem_nil, or_false]
  tauto

theorem renameKey_ne_nil {key : List UInt8} (h : key ≠ []) : renameKey key ≠ [] := by
  unfold renameKey
  split <;> simp_all

section Key

variable {pad key : List UInt8} (hpad : ∀ c ∈ pad, c ∈ asciiSpace)
  (hkey : ∀ c ∈ key, c ≠ 61 ∧ c ∉ asciiSpace)
include hpad hkey

/-- Blanks, a key and `=`: the `=` found is the one after the key. -/
theorem idxOf_key (rest : List UInt8) : (pad ++ key ++ 61 :: rest).idxOf 61 = (pad ++ key).length := by
  have h61 : 61 ∉ pad ++ key := by
    intro h
    rcases List.mem_append.mp h with h | h
    · exact absurd (hpad 61 h) (by decide)
    · exact (hkey 61 h).1 rfl
  rw [List.idxOf_append_of_notMem h61, List.idxOf_cons_self]
  rfl

/-- What follows the `=`. -/
theorem drop_idxOf_key (rest : List UInt8) :
    (pad ++ key ++ 61 :: rest).drop ((pad ++ key ++ 61 :: rest).idxOf 61 + 1) = rest := by
  rw [idxOf_key hpad hkey, List.drop_length_add_append]
  rfl

/-- The loop reads a key and a value that parses, and goes on after it. -/
theorem keywordValueLoop_of_parseValue (settings : List (List UInt8 × List UInt8))
    (hne : key ≠ []) {rest val rest' : List UInt8}
    (hval : parseValue (trimLeft rest blankCutset) = .ok (val, rest')) :
    keywordValueLoop settings (pad ++ key ++ 61 :: rest) =
      keywordValueLoop (mapInsert settings (renameKey key) val) rest' := by
  have hmem : 61 ∈ pad ++ key ++ 61 :: rest := by simp
  have htrim : trim (pad ++ key) blankCutset = key :=
    trim_append (fun c hc => mem_blankCutset.mpr (hpad c hc))
      (fun c hc => mem_blankCutset.not.mpr (hkey c hc).2)
  rw [keywordValueLoop, if_neg (List.ne_nil_of_mem hmem), dif_pos hmem]
  simp only [idxOf_key hpad hkey, List.take_left' rfl, htrim]
  split
  · rename_i val₁ rest₁ heq
    rw [drop_idxOf_key hpad hkey, hval] at heq
    cases heq
    rw [if_neg (renameKey_ne_nil hne)]
  · rename_i e heq
    rw [drop_idxOf_key hpad hkey, hval] at heq
    cases heq

end Key

/-! ## Rendered settings

A connection string written from settings: each as `key=V`, separated by
single spaces, with `V` the value quoted with `\` and `'` escaped, or
unquoted with `\`, `'` and the blanks escaped. -/

/-- A setting as a connection string carries it, its value quoted or not. -/
structure Setting where
  key : List UInt8
  value : List UInt8
  quoted : Bool
  deriving DecidableEq, Repr

/-- The bytes a quoted value escapes: `\` and `'`. -/
def quotedSpecial (c : UInt8) : Bool := c = 92 ∨ c = 39

/-- The bytes an unquoted value escapes: `\`, `'` and the blanks. -/
def unquotedSpecial (c : UInt8) : Bool := c = 92 ∨ c = 39 ∨ c ∈ asciiSpace

/-- The text after `key=`. -/
def Setting.valueText (p : Setting) : List UInt8 :=
  if p.quoted then 39 :: escapeWith quotedSpecial p.value ++ [39]
  else escapeWith unquotedSpecial p.value

/-- `key=V`. -/
def Setting.render (p : Setting) : List UInt8 := p.key ++ 61 :: p.valueText

/-- The settings, separated by single spaces. -/
def renderSettings (ps : List Setting) : List UInt8 := [32].intercalate (ps.map Setting.render)

/-- A setting the rendering carries: a non-empty key without `=` or blanks, and
a non-empty value where it is unquoted. -/
def Setting.Valid (p : Setting) : Prop :=
  p.key ≠ [] ∧ (∀ c ∈ p.key, c ≠ 61 ∧ c ∉ asciiSpace) ∧ (p.quoted = false → p.value ≠ [])

/-- What `parseKeywordValueSettings` reads for a rendered setting: an unquoted
value keeps the backslash in front of each blank. -/
def Setting.readBack (p : Setting) : List UInt8 :=
  if p.quoted then p.value else p.value.flatMap fun c => if c ∈ asciiSpace then [92, c] else [c]

theorem unquotedSpecial_of_mem {c : UInt8} (h : c ∈ asciiSpace) : unquotedSpecial c = true := by
  simp [unquotedSpecial, h]

theorem not_mem_asciiSpace_of_special {c : UInt8} (h : c = 92 ∨ c = 39) : c ∉ asciiSpace := by
  rcases h with rfl | rfl <;> decide

theorem unescape_quoted (v : List UInt8) : unescape (escapeWith quotedSpecial v) = v := by
  rw [unescape_escapeWith (by decide) (by decide)]
  conv_rhs => rw [← List.flatMap_singleton' v]
  congr 1
  funext c
  have hnot : ¬ (c ≠ 92 ∧ c ≠ 39 ∧ quotedSpecial c = true) := by
    simp only [quotedSpecial, decide_eq_true_eq]
    tauto
  rw [if_neg hnot]

theorem unescape_unquoted (v : List UInt8) :
    unescape (escapeWith unquotedSpecial v) =
      v.flatMap fun c => if c ∈ asciiSpace then [92, c] else [c] := by
  rw [unescape_escapeWith (by decide) (by decide)]
  congr 1
  funext c
  have hiff : (c ≠ 92 ∧ c ≠ 39 ∧ unquotedSpecial c = true) ↔ c ∈ asciiSpace := by
    simp only [unquotedSpecial, decide_eq_true_eq]
    constructor
    · rintro ⟨h92, h39, h | h | h⟩
      · exact absurd h h92
      · exact absurd h h39
      · exact h
    · intro h
      refine ⟨?_, ?_, .inr (.inr h)⟩
      · rintro rfl
        exact not_mem_asciiSpace_of_special (.inl rfl) h
      · rintro rfl
        exact not_mem_asciiSpace_of_special (.inr rfl) h
  simp only [hiff]

/-- A quoted value is read back whole, and the scan stops at its closing quote. -/
theorem parseValue_quoted (v t : List UInt8) :
    parseValue (39 :: escapeWith quotedSpecial v ++ 39 :: t) = .ok (v, t) := by
  have he : quotedEnd (escapeWith quotedSpecial v ++ 39 :: t) = (escapeWith quotedSpecial v).length := by
    rw [quotedEnd_escapeWith (by decide) (by decide), quotedEnd_quote, Nat.add_zero]
  have hlen : (escapeWith quotedSpecial v ++ 39 :: t).length = (escapeWith quotedSpecial v).length + 1 + t.length := by
    simp only [List.length_append, List.length_cons]
    omega
  rw [List.cons_append, parseValue]
  simp only [ne_eq, not_true_eq_false, if_false, he, hlen]
  rw [if_neg (by omega), if_neg (by omega), List.take_left' rfl, List.drop_length_add_append,
    unescape_quoted]
  rfl

/-- An unquoted value is read to the blank after it, which is skipped. -/
theorem parseValue_unquoted {v : List UInt8} (hv : v ≠ []) {t : List UInt8}
    (ht : ∀ d ∈ t.head?, d ∈ asciiSpace) :
    parseValue (escapeWith unquotedSpecial v ++ t) =
      .ok (v.flatMap (fun c => if c ∈ asciiSpace then [92, c] else [c]), t.drop 1) := by
  obtain ⟨c, v', rfl⟩ := List.exists_cons_of_ne_nil hv
  -- the first byte is a backslash or a byte that needs none, so never a quote
  obtain ⟨c₀, cs, hcs, hc₀⟩ : ∃ c₀ cs, escapeWith unquotedSpecial (c :: v') ++ t = c₀ :: cs ∧ c₀ ≠ 39 := by
    rw [escapeWith_cons]
    by_cases hs : unquotedSpecial c
    · exact ⟨92, _, by rw [if_pos hs]; rfl, by decide⟩
    · refine ⟨c, _, by rw [if_neg hs]; rfl, ?_⟩
      rintro rfl
      exact hs (by decide)
  have hend : unquotedEnd (escapeWith unquotedSpecial (c :: v') ++ t) =
      some (escapeWith unquotedSpecial (c :: v')).length := by
    rw [unquotedEnd_escapeWith (by decide) (fun _ => unquotedSpecial_of_mem), unquotedEnd_of_blank ht]
    rfl
  rw [hcs, parseValue, if_pos hc₀, ← hcs, hend]
  dsimp only
  rw [List.take_left' rfl, List.drop_length_add_append, unescape_unquoted]

/-- The text after `key=` starts with a quote, a backslash or a byte needing no
escape: never with a blank. -/
theorem valueText_head {p : Setting} (hp : p.quoted = false → p.value ≠ []) :
    ∀ c ∈ p.valueText.head?, c ∉ asciiSpace := by
  intro c hc
  unfold Setting.valueText at hc
  split at hc
  · simp only [List.cons_append, List.head?_cons, Option.mem_some_iff] at hc
    rw [← hc]
    decide
  · rename_i hq
    obtain ⟨d, v', hdv⟩ := List.exists_cons_of_ne_nil (hp (by simpa using hq))
    rw [hdv, escapeWith_cons] at hc
    by_cases hs : unquotedSpecial d
    · simp only [hs, if_true, List.cons_append, List.head?_cons, Option.mem_some_iff] at hc
      rw [← hc]
      decide
    · simp only [hs, Bool.false_eq_true, if_false, List.singleton_append, List.head?_cons,
        Option.mem_some_iff] at hc
      rw [← hc]
      intro hd
      exact hs (by simp [unquotedSpecial, hd])

/-- One rendered setting: the loop records its key and what it reads back, and
goes on at the blank after it (a quoted value leaves the blank in place). -/
theorem keywordValueLoop_render (settings : List (List UInt8 × List UInt8)) {pad : List UInt8}
    (hpad : ∀ c ∈ pad, c ∈ asciiSpace) {p : Setting} (hp : p.Valid) {t : List UInt8}
    (ht : ∀ d ∈ t.head?, d ∈ asciiSpace) :
    keywordValueLoop settings (pad ++ p.render ++ t) =
      keywordValueLoop (mapInsert settings (renameKey p.key) p.readBack)
        (if p.quoted then t else t.drop 1) := by
  obtain ⟨hne, hkey, hval⟩ := hp
  have hlead : trimLeft (p.valueText ++ t) blankCutset = p.valueText ++ t := by
    have hhead : ∀ c ∈ (p.valueText ++ t).head?, c ∉ blankCutset := by
      intro c hc
      have hvt : p.valueText ≠ [] := by
        unfold Setting.valueText
        split
        · simp
        · rename_i hq
          obtain ⟨d, v', hdv⟩ := List.exists_cons_of_ne_nil (hval (by simpa using hq))
          rw [hdv, escapeWith_cons]
          split <;> simp
      rw [List.head?_append_of_ne_nil _ hvt] at hc
      exact mem_blankCutset.not.mpr (valueText_head hval c hc)
    exact trimLeft_of_head hhead
  have hread : parseValue (trimLeft (p.valueText ++ t) blankCutset) =
      .ok (p.readBack, if p.quoted then t else t.drop 1) := by
    rw [hlead]
    unfold Setting.valueText Setting.readBack
    cases hq : p.quoted
    · exact parseValue_unquoted (hval hq) ht
    · simp only [if_true, List.cons_append, List.append_assoc]
      exact parseValue_quoted p.value t
  have hs : pad ++ p.render ++ t = pad ++ p.key ++ 61 :: (p.valueText ++ t) := by
    simp [Setting.render]
  rw [hs, keywordValueLoop_of_parseValue hpad hkey settings hne hread]

/-- The rendered settings, after any blanks, read back one after the other. -/
theorem keywordValueLoop_renderSettings {p : Setting} {ps : List Setting}
    (hv : ∀ q ∈ p :: ps, q.Valid) (settings : List (List UInt8 × List UInt8)) {pad : List UInt8}
    (hpad : ∀ c ∈ pad, c ∈ asciiSpace) :
    keywordValueLoop settings (pad ++ renderSettings (p :: ps)) =
      .ok ((p :: ps).foldl (fun m q => mapInsert m (renameKey q.key) q.readBack) settings) := by
  induction ps generalizing p settings pad with
  | nil =>
    have hstep := keywordValueLoop_render settings hpad (hv p (List.mem_cons_self ..))
      (show ∀ d ∈ ([] : List UInt8).head?, d ∈ asciiSpace from fun _ h => nomatch h)
    rw [List.append_nil] at hstep
    simp only [renderSettings, List.map_cons, List.map_nil, List.intercalate_singleton]
    rw [hstep, List.drop_nil, ite_self, keywordValueLoop_nil]
    rfl
  | cons q qs ih =>
    have hstep := keywordValueLoop_render settings hpad (hv p (List.mem_cons_self ..))
      (show ∀ d ∈ (32 :: renderSettings (q :: qs)).head?, d ∈ asciiSpace from
        fun _ h => by simp at h; simp [← h, asciiSpace])
    have hsplit : renderSettings (p :: q :: qs) = p.render ++ 32 :: renderSettings (q :: qs) := by
      simp [renderSettings, List.intercalate_cons_cons]
    -- a quoted value leaves its blank for the next key, which `Trim` removes
    have hrest : (if p.quoted then 32 :: renderSettings (q :: qs) else (32 :: renderSettings (q :: qs)).drop 1) =
        (if p.quoted then [32] else []) ++ renderSettings (q :: qs) := by
      split <;> rfl
    have hpad' : ∀ c ∈ (if p.quoted then [32] else ([] : List UInt8)), c ∈ asciiSpace := by
      split <;> simp [asciiSpace]
    rw [hsplit, ← List.append_assoc, hstep, hrest,
      ih (fun r hr => hv r (List.mem_cons_of_mem _ hr)) _ hpad']
    rfl

/-- An unquoted value reads back as it was exactly when it has no blank. -/
theorem Setting.readBack_eq_value_iff (p : Setting) :
    p.readBack = p.value ↔ p.quoted = true ∨ ∀ c ∈ p.value, c ∉ asciiSpace := by
  unfold Setting.readBack
  cases p.quoted with
  | true => simp
  | false =>
    simp only [Bool.false_eq_true, if_false, false_or]
    induction p.value with
    | nil => simp
    | cons c v ih =>
      rw [List.flatMap_cons, List.forall_mem_cons]
      by_cases hc : c ∈ asciiSpace
      · simp only [hc, if_true, List.cons_append, List.cons.injEq, not_true_eq_false, false_and,
          iff_false, not_and]
        rintro rfl
        exact absurd hc (by decide)
      · simp only [hc, if_false, List.singleton_append, List.cons.injEq, true_and, not_false_eq_true,
          ih]

theorem parseKeywordValueSettings_renderSettings (ps : List Setting) (hv : ∀ p ∈ ps, p.Valid) :
    parseKeywordValueSettings (renderSettings ps) =
        .ok (ps.foldl (fun m p => mapInsert m (renameKey p.key) p.readBack) []) ∧
      ∀ p : Setting, p.readBack = p.value ↔ p.quoted = true ∨ ∀ c ∈ p.value, c ∉ asciiSpace := by
  refine ⟨?_, Setting.readBack_eq_value_iff⟩
  cases ps with
  | nil => exact keywordValueLoop_nil []
  | cons p ps => exact keywordValueLoop_renderSettings hv [] (List.forall_mem_nil _)

theorem parseKeywordValueSettings_renderSettings_escaped_blank :
    renderSettings [⟨[104, 111, 115, 116], [97, 32, 98], false⟩] =
        [104, 111, 115, 116, 61, 97, 92, 32, 98] ∧
      parseKeywordValueSettings (renderSettings [⟨[104, 111, 115, 116], [97, 32, 98], false⟩]) =
        .ok [([104, 111, 115, 116], [97, 92, 32, 98])] := by
  refine ⟨by decide, ?_⟩
  rw [(parseKeywordValueSettings_renderSettings [⟨[104, 111, 115, 116], [97, 32, 98], false⟩]
    (fun p hp => by
      rw [List.mem_singleton.mp hp]
      refine ⟨by decide, fun c hc => ?_, by decide⟩
      simp only [List.mem_cons, List.not_mem_nil, or_false] at hc
      rcases hc with rfl | rfl | rfl | rfl <;> decide)).1]
  decide

end GaussdbGo.Conn
