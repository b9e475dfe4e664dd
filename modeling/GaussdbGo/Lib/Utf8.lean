import Mathlib

/-!
# UTF-8 (`unicode/utf8`): `DecodeRune` and `EncodeRune`

`decodeRune` is Go's `utf8.DecodeRune` (and `DecodeRuneInString`, the same
algorithm on a string): the rune at the head of the bytes and its width,
`(RuneError, 0)` on empty input and `(RuneError, 1)` on anything that is not
a complete, shortest, non-surrogate encoding, including a sequence cut short
by the end of the input. The first-byte table and the accepted ranges of
the second byte are written out as `leadInfo`.

`encodeRune` is `utf8.EncodeRune` on a valid rune, that is on a Lean `Char`,
and `encodeString` encodes a list of them: a byte string is valid UTF-8
exactly when it is one of these. `decodeRune_encodeRune` is the round trip
every statement about valid text goes through.
-/

namespace GoStd.Utf8

/-- `utf8.RuneError`, U+FFFD. -/
def RuneError : Nat := 0xFFFD

/-- The sequence length a lead byte starts and the range of its second byte
(`first` and `acceptRanges`); `none` for a byte no sequence starts with. -/
def leadInfo (p0 : Nat) : Option (Nat × Nat × Nat) :=
  if 0xC2 ≤ p0 ∧ p0 ≤ 0xDF then some (2, 0x80, 0xBF)
  else if p0 = 0xE0 then some (3, 0xA0, 0xBF)
  else if 0xE1 ≤ p0 ∧ p0 ≤ 0xEC then some (3, 0x80, 0xBF)
  else if p0 = 0xED then some (3, 0x80, 0x9F)
  else if 0xEE ≤ p0 ∧ p0 ≤ 0xEF then some (3, 0x80, 0xBF)
  else if p0 = 0xF0 then some (4, 0x90, 0xBF)
  else if 0xF1 ≤ p0 ∧ p0 ≤ 0xF3 then some (4, 0x80, 0xBF)
  else if p0 = 0xF4 then some (4, 0x80, 0x8F)
  else none

/-- A continuation byte, `locb ≤ b ≤ hicb`. -/
def IsCont (b : UInt8) : Prop := 0x80 ≤ b.toNat ∧ b.toNat ≤ 0xBF

instance (b : UInt8) : Decidable (IsCont b) := inferInstanceAs (Decidable (_ ∧ _))

/-- The tail of a multi-byte sequence after its lead byte `p0`, with `sz`
bytes in all and a second byte in `[lo, hi]`. -/
def decodeTail (p0 sz lo hi : Nat) : List UInt8 → Nat × Nat
  | b1 :: rest =>
    if b1.toNat < lo ∨ hi < b1.toNat then (RuneError, 1)
    else if sz ≤ 2 then ((p0 % 32) * 64 + b1.toNat % 64, 2)
    else match rest with
      | b2 :: rest =>
        if ¬ IsCont b2 then (RuneError, 1)
        else if sz ≤ 3 then ((p0 % 16) * 4096 + (b1.toNat % 64) * 64 + b2.toNat % 64, 3)
        else match rest with
          | b3 :: _ =>
            if ¬ IsCont b3 then (RuneError, 1)
            else ((p0 % 8) * 262144 + (b1.toNat % 64) * 4096 + (b2.toNat % 64) * 64 +
              b3.toNat % 64, 4)
          | [] => (RuneError, 1)
      | [] => (RuneError, 1)
  | [] => (RuneError, 1)

/-- `utf8.DecodeRune(p)`: the first rune of `p` and its width. -/
def decodeRune : List UInt8 → Nat × Nat
  | [] => (RuneError, 0)
  | p0 :: rest =>
    if p0.toNat < 0x80 then (p0.toNat, 1)
    else match leadInfo p0.toNat with
      | none => (RuneError, 1)
      | some (sz, lo, hi) =>
        -- `if n < sz { return RuneError, 1 }`
        if rest.length + 1 < sz then (RuneError, 1) else decodeTail p0.toNat sz lo hi rest

/-- `utf8.EncodeRune` on a valid rune. -/
def encodeRune (c : Char) : List UInt8 :=
  let r := c.toNat
  if r < 0x80 then [UInt8.ofNat r]
  else if r < 0x800 then [UInt8.ofNat (0xC0 + r / 64), UInt8.ofNat (0x80 + r % 64)]
  else if r < 0x10000 then
    [UInt8.ofNat (0xE0 + r / 4096), UInt8.ofNat (0x80 + r / 64 % 64), UInt8.ofNat (0x80 + r % 64)]
  else
    [UInt8.ofNat (0xF0 + r / 262144), UInt8.ofNat (0x80 + r / 4096 % 64),
      UInt8.ofNat (0x80 + r / 64 % 64), UInt8.ofNat (0x80 + r % 64)]

/-- The UTF-8 bytes of a string of runes. -/
def encodeString (cs : List Char) : List UInt8 := (cs.map encodeRune).flatten

/-- Valid UTF-8: the encoding of some string of runes. -/
def Valid (s : List UInt8) : Prop := ∃ cs : List Char, s = encodeString cs

@[simp] theorem encodeString_nil : encodeString [] = [] := rfl

@[simp] theorem encodeString_cons (c : Char) (cs : List Char) :
    encodeString (c :: cs) = encodeRune c ++ encodeString cs := rfl

@[simp] theorem encodeString_append (cs ds : List Char) :
    encodeString (cs ++ ds) = encodeString cs ++ encodeString ds := by
  simp [encodeString]

@[simp] theorem decodeRune_nil : decodeRune [] = (RuneError, 0) := rfl

/-- An ASCII byte is its own rune. -/
theorem decodeRune_ascii {b : UInt8} (hb : b.toNat < 0x80) (rest : List UInt8) :
    decodeRune (b :: rest) = (b.toNat, 1) := by
  simp [decodeRune, hb]

/-- A byte from `0x80` to `0xC1`, or from `0xF5`, starts no sequence. -/
theorem decodeRune_invalid {b : UInt8} (hb : 0x80 ≤ b.toNat)
    (hl : leadInfo b.toNat = none) (rest : List UInt8) :
    decodeRune (b :: rest) = (RuneError, 1) := by
  have : ¬ b.toNat < 0x80 := by omega
  simp [decodeRune, this, hl]

theorem one_le_decodeTail (p0 sz lo hi : Nat) (rest : List UInt8) :
    1 ≤ (decodeTail p0 sz lo hi rest).2 := by
  unfold decodeTail
  repeat' split
  all_goals simp

/-- A pass over non-empty input reads at least one byte. -/
theorem one_le_width {s : List UInt8} (h : s ≠ []) : 1 ≤ (decodeRune s).2 := by
  match s, h with
  | p0 :: rest, _ =>
    simp only [decodeRune]
    repeat' split
    all_goals first | exact one_le_decodeTail _ _ _ _ _ | simp

theorem encodeRune_of_lt {c : Char} (h : c.toNat < 0x80) : encodeRune c = [UInt8.ofNat c.toNat] := by
  simp [encodeRune, h]

theorem length_encodeRune_pos (c : Char) : 0 < (encodeRune c).length := by
  simp only [encodeRune]
  split_ifs <;> simp

/-- The bytes of a rune past ASCII are all at least `0x80`, so an ASCII byte
in valid text is always a rune of its own. -/
theorem le_of_mem_encodeRune {c : Char} (hc : 0x80 ≤ c.toNat) {b : UInt8}
    (hb : b ∈ encodeRune c) : 0x80 ≤ b.toNat := by
  have hv : c.toNat < 0xd800 ∨ (0xdfff < c.toNat ∧ c.toNat < 0x110000) := c.valid
  have h8 : ∀ n : Nat, 0x80 ≤ n → n < 256 → 0x80 ≤ (UInt8.ofNat n).toNat := by
    intro n h₁ h₂
    rw [UInt8.toNat_ofNat_of_lt' h₂]
    exact h₁
  simp only [encodeRune, show ¬ c.toNat < 0x80 by omega, if_false] at hb
  split_ifs at hb <;> simp only [List.mem_cons, List.not_mem_nil, or_false] at hb <;>
    rcases hb with rfl | rfl | rfl | rfl <;> apply h8 <;> omega

theorem toNat_ofNat_small {n : Nat} (h : n < 256) : (UInt8.ofNat n).toNat = n :=
  UInt8.toNat_ofNat_of_lt' h

theorem lt_of_leadInfo {p0 : Nat} {i : Nat × Nat × Nat} (h : leadInfo p0 = some i) : ¬ p0 < 0x80 := by
  unfold leadInfo at h
  split_ifs at h <;> omega

theorem decodeRune_lead {b0 : UInt8} {sz lo hi : Nat} (h : leadInfo b0.toNat = some (sz, lo, hi))
    {rest : List UInt8} (hlen : sz ≤ rest.length + 1) :
    decodeRune (b0 :: rest) = decodeTail b0.toNat sz lo hi rest := by
  simp only [decodeRune, lt_of_leadInfo h, if_false, h]
  rw [if_neg (by omega)]

/-- A sequence of two or more bytes decodes to an error or to a rune past
ASCII. -/
theorem le_decodeTail {p0 sz lo hi : Nat} (h : leadInfo p0 = some (sz, lo, hi))
    (rest : List UInt8) : 0x80 ≤ (decodeTail p0 sz lo hi rest).1 := by
  unfold leadInfo at h
  unfold decodeTail
  split_ifs at h <;> cases h <;> (repeat' split) <;> simp only [RuneError] <;> omega

/-- A rune below `0x80` is decoded only from its own byte, one byte wide: an
ASCII character read by `DecodeRune` is that byte of the input. -/
theorem decodeRune_eq_ascii {s : List UInt8} {r w : Nat} (h : decodeRune s = (r, w))
    (hr : r < 0x80) : w = 1 ∧ ∃ t, s = UInt8.ofNat r :: t := by
  match s with
  | [] =>
    simp only [decodeRune_nil, Prod.mk.injEq, RuneError] at h
    omega
  | p0 :: rest =>
    rw [decodeRune] at h
    split at h
    · obtain ⟨rfl, rfl⟩ := Prod.mk.inj h
      exact ⟨rfl, rest, by simp⟩
    · split at h
      · simp only [Prod.mk.injEq, RuneError] at h
        omega
      · rename_i _ hl
        split at h
        · simp only [Prod.mk.injEq, RuneError] at h
          omega
        · have := le_decodeTail hl rest
          rw [h] at this
          omega

/-! ## What follows a rune -/

theorem leadInfo_spec {p0 sz lo hi : Nat} (h : leadInfo p0 = some (sz, lo, hi)) :
    2 ≤ sz ∧ sz ≤ 4 ∧ 0x80 ≤ lo := by
  unfold leadInfo at h
  split_ifs at h <;> cases h <;> omega

/-- A sequence is an error one byte wide or a rune `sz` bytes wide. -/
theorem decodeTail_cases {p0 sz lo hi : Nat} (h : leadInfo p0 = some (sz, lo, hi))
    (rest : List UInt8) :
    decodeTail p0 sz lo hi rest = (RuneError, 1) ∨ (decodeTail p0 sz lo hi rest).2 = sz := by
  obtain ⟨h2, h4, -⟩ := leadInfo_spec h
  unfold decodeTail
  repeat' split
  all_goals first | exact Or.inl rfl | (right; dsimp only; omega)

/-- A sequence whose bytes are all in `rest` decodes the same whatever
follows. -/
theorem decodeTail_append {p0 sz lo hi : Nat} (h : leadInfo p0 = some (sz, lo, hi))
    {rest : List UInt8} (hlen : sz ≤ rest.length + 1) (d : List UInt8) :
    decodeTail p0 sz lo hi (rest ++ d) = decodeTail p0 sz lo hi rest := by
  obtain ⟨h2, h4, -⟩ := leadInfo_spec h
  rcases rest with _ | ⟨b1, _ | ⟨b2, _ | ⟨b3, rest⟩⟩⟩
  · simp at hlen; omega
  · have : sz ≤ 2 := by simpa using hlen
    simp [decodeTail, this]
  · have : sz ≤ 3 := by simpa using hlen
    simp only [List.cons_append, List.nil_append, decodeTail]
    split_ifs <;> rfl
  · rfl

/-- A sequence cut short by an ASCII byte is an error. -/
theorem decodeTail_short_ascii {p0 sz lo hi : Nat} (h : leadInfo p0 = some (sz, lo, hi))
    {rest : List UInt8} (hlen : rest.length + 1 < sz) {a : UInt8} (ha : a.toNat < 0x80)
    (z : List UInt8) : decodeTail p0 sz lo hi (rest ++ a :: z) = (RuneError, 1) := by
  obtain ⟨h2, h4, hlo⟩ := leadInfo_spec h
  have hna : ¬ IsCont a := by unfold IsCont; omega
  rcases rest with _ | ⟨b1, _ | ⟨b2, _ | ⟨b3, rest⟩⟩⟩
  · simp only [List.nil_append, decodeTail]
    rw [if_pos (Or.inl (by omega))]
  · simp only [List.cons_append, List.nil_append, decodeTail, hna, not_false_eq_true, if_true]
    simp at hlen
    split_ifs <;> first | rfl | omega
  · simp only [List.cons_append, List.nil_append, decodeTail, hna, not_false_eq_true, if_true]
    simp at hlen
    split_ifs <;> first | rfl | omega
  · simp at hlen; omega

/-- A pass reads no more bytes than there are. -/
theorem decodeRune_width_le (s : List UInt8) : (decodeRune s).2 ≤ s.length := by
  match s with
  | [] => simp
  | p0 :: rest =>
    simp only [decodeRune]
    split
    · simp
    · split
      · simp
      · rename_i _ _ sz lo hi hl
        split
        · simp
        · rcases decodeTail_cases hl rest with he | he
          · rw [he]; simp
          · rw [he]; simp only [List.length_cons]; omega

/-- The rune at the head of non-empty `y`, decoded within `y`, decodes the same
whatever follows. -/
theorem decodeRune_append_of_le {y : List UInt8} (hy : y ≠ []) (d : List UInt8)
    (hw : (decodeRune (y ++ d)).2 ≤ y.length) : decodeRune (y ++ d) = decodeRune y := by
  obtain ⟨p0, rest, rfl⟩ := List.exists_cons_of_ne_nil hy
  by_cases ha : p0.toNat < 0x80
  · rw [List.cons_append, decodeRune_ascii ha, decodeRune_ascii ha]
  rcases hl : leadInfo p0.toNat with _ | ⟨sz, lo, hi⟩
  · rw [List.cons_append, decodeRune_invalid (by omega) hl, decodeRune_invalid (by omega) hl]
  by_cases hlen : sz ≤ rest.length + 1
  · rw [List.cons_append, decodeRune_lead hl (by simp; omega), decodeRune_lead hl hlen,
      decodeTail_append hl hlen]
  -- `y` is too short for the sequence: an error, and so is the decode within it
  have hshort : decodeRune (p0 :: rest) = (RuneError, 1) := by
    simp only [decodeRune, ha, if_false, hl]
    rw [if_pos (by omega)]
  rw [hshort]
  rw [List.cons_append] at hw ⊢
  simp only [decodeRune, ha, if_false, hl] at hw ⊢
  split
  · rfl
  · rename_i hlong
    rw [if_neg hlong] at hw
    rcases decodeTail_cases hl (rest ++ d) with he | he
    · exact he
    · simp only [List.length_cons] at hw
      omega

/-- A byte below `0x80` continues no sequence: after non-empty `y` it does not
change how the rune at the head of `y` decodes. -/
theorem decodeRune_append_ascii {y : List UInt8} (hy : y ≠ []) {a : UInt8} (ha : a.toNat < 0x80)
    (z : List UInt8) : decodeRune (y ++ a :: z) = decodeRune y := by
  obtain ⟨p0, rest, rfl⟩ := List.exists_cons_of_ne_nil hy
  by_cases hp : p0.toNat < 0x80
  · rw [List.cons_append, decodeRune_ascii hp, decodeRune_ascii hp]
  rcases hl : leadInfo p0.toNat with _ | ⟨sz, lo, hi⟩
  · rw [List.cons_append, decodeRune_invalid (by omega) hl, decodeRune_invalid (by omega) hl]
  by_cases hlen : sz ≤ rest.length + 1
  · rw [List.cons_append, decodeRune_lead hl (by simp; omega), decodeRune_lead hl hlen,
      decodeTail_append hl hlen]
  -- `y` ends inside the sequence, and the ASCII byte cannot continue it
  have hshort : decodeRune (p0 :: rest) = (RuneError, 1) := by
    simp only [decodeRune, hp, if_false, hl]
    rw [if_pos (by omega)]
  rw [hshort, List.cons_append]
  simp only [decodeRune, hp, if_false, hl]
  split
  · rfl
  · exact decodeTail_short_ascii hl (by omega) ha z

/-- The bytes of a rune, on their own, decode to it. -/
theorem decodeRune_take_width (s : List UInt8) :
    decodeRune (s.take (decodeRune s).2) = decodeRune s := by
  by_cases hs : s = []
  · subst hs
    rfl
  have hw := decodeRune_width_le s
  have hy : s.take (decodeRune s).2 ≠ [] := by
    have := one_le_width hs
    simp only [ne_eq, List.take_eq_nil_iff, hs, or_false]
    omega
  have h := decodeRune_append_of_le hy (s.drop (decodeRune s).2)
  rw [List.take_append_drop, List.length_take] at h
  exact (h (by omega)).symm

/-- A byte from `0x80` on decodes to an error or to a rune past ASCII. -/
theorem le_decodeRune_of_high {b : UInt8} (hb : 0x80 ≤ b.toNat) (rest : List UInt8) :
    0x80 ≤ (decodeRune (b :: rest)).1 := by
  have : ¬ b.toNat < 0x80 := by omega
  simp only [decodeRune, this, if_false]
  split
  · simp [RuneError]
  · rename_i _ hl
    split
    · simp [RuneError]
    · exact le_decodeTail hl rest

theorem decodeRune_encodeRune (c : Char) (rest : List UInt8) :
    decodeRune (encodeRune c ++ rest) = (c.toNat, (encodeRune c).length) := by
  have hv : c.toNat < 0xd800 ∨ (0xdfff < c.toNat ∧ c.toNat < 0x110000) := c.valid
  unfold encodeRune
  generalize c.toNat = r at hv ⊢
  by_cases h1 : r < 0x80
  · simp only [h1, if_true, List.cons_append, List.nil_append, List.length_singleton]
    rw [decodeRune_ascii (by rw [toNat_ofNat_small (by omega)]; exact h1), toNat_ofNat_small (by omega)]
  by_cases h2 : r < 0x800
  · -- two bytes
    have e0 := toNat_ofNat_small (n := 0xC0 + r / 64) (by omega)
    have e1 := toNat_ofNat_small (n := 0x80 + r % 64) (by omega)
    have hl : leadInfo (UInt8.ofNat (0xC0 + r / 64)).toNat = some (2, 0x80, 0xBF) := by
      simp only [leadInfo, e0]; rw [if_pos (by omega)]
    simp only [h1, h2, if_false, if_true, List.cons_append, List.nil_append, List.length_cons,
      List.length_nil]
    rw [decodeRune_lead hl (by simp)]
    simp only [decodeTail, e0, e1]
    rw [if_neg (by omega), if_pos (by omega)]
    simp only [Prod.mk.injEq, and_true]
    clear e0 e1 hl
    omega
  have e1 := toNat_ofNat_small (n := 0x80 + r / 64 % 64) (by omega)
  have e2 := toNat_ofNat_small (n := 0x80 + r % 64) (by omega)
  have c1 : IsCont (UInt8.ofNat (0x80 + r / 64 % 64)) := by simp only [IsCont, e1]; omega
  have c2 : IsCont (UInt8.ofNat (0x80 + r % 64)) := by simp only [IsCont, e2]; omega
  by_cases h3 : r < 0x10000
  · -- three bytes; the second byte is in the range the lead byte admits
    have e0 := toNat_ofNat_small (n := 0xE0 + r / 4096) (by omega)
    obtain ⟨lo, hi, hl, hlo, hhi⟩ : ∃ lo hi, leadInfo (0xE0 + r / 4096) = some (3, lo, hi) ∧
        lo ≤ 0x80 + r / 64 % 64 ∧ 0x80 + r / 64 % 64 ≤ hi := by
      unfold leadInfo
      split_ifs <;> first | omega | exact ⟨_, _, rfl, by omega, by omega⟩
    simp only [h1, h2, h3, if_false, if_true, List.cons_append, List.nil_append, List.length_cons,
      List.length_nil]
    rw [decodeRune_lead (by rw [e0]; exact hl) (by simp)]
    simp only [decodeTail, e0, e1, e2, c2, not_true, if_false]
    rw [if_neg (by omega), if_neg (by omega), if_pos (by omega)]
    simp only [Prod.mk.injEq, and_true]
    clear e0 e1 e2 c1 c2 hl
    omega
  · -- four bytes
    have e0 := toNat_ofNat_small (n := 0xF0 + r / 262144) (by omega)
    obtain ⟨lo, hi, hl, hlo, hhi⟩ : ∃ lo hi, leadInfo (0xF0 + r / 262144) = some (4, lo, hi) ∧
        lo ≤ 0x80 + r / 4096 % 64 ∧ 0x80 + r / 4096 % 64 ≤ hi := by
      unfold leadInfo
      split_ifs <;> first | omega | exact ⟨_, _, rfl, by omega, by omega⟩
    have e1' := toNat_ofNat_small (n := 0x80 + r / 4096 % 64) (by omega)
    simp only [h1, h2, h3, if_false, List.cons_append, List.nil_append, List.length_cons,
      List.length_nil]
    rw [decodeRune_lead (by rw [e0]; exact hl) (by simp)]
    simp only [decodeTail, e0, e1', e1, e2, c1, c2, not_true, if_false]
    rw [if_neg (by omega), if_neg (by omega), if_neg (by omega)]
    simp only [Prod.mk.injEq, and_true]
    clear e0 e1 e1' e2 c1 c2 hl
    omega
theorem encodeString_eq_nil {cs : List Char} : encodeString cs = [] ↔ cs = [] := by
  cases cs with
  | nil => simp
  | cons c cs =>
    have := length_encodeRune_pos c
    simp only [encodeString_cons, List.append_eq_nil_iff, reduceCtorEq, iff_false, not_and]
    intro h
    simp [h] at this

theorem toNat_charOfNat {n : Nat} (h : n < 0xd800) : (Char.ofNat n).toNat = n := by
  have hv : n.isValidChar := Or.inl h
  simp [Char.ofNat, hv, Char.ofNatAux, Char.toNat]

/-- ASCII bytes read as runes. -/
def ascii (p : List UInt8) : List Char := p.map fun b => Char.ofNat b.toNat

theorem toNat_ascii {b : UInt8} : (Char.ofNat b.toNat).toNat = b.toNat :=
  toNat_charOfNat (by have := b.toNat_lt; omega)

/-- ASCII bytes are the encoding of their runes. -/
theorem encodeString_ascii : ∀ {p : List UInt8}, (∀ b ∈ p, b.toNat < 0x80) →
    encodeString (ascii p) = p
  | [], _ => rfl
  | b :: p, h => by
    have hb : (Char.ofNat b.toNat).toNat < 0x80 := by rw [toNat_ascii]; exact h b (by simp)
    have ih := encodeString_ascii (p := p) (fun b hb => h b (by simp [hb]))
    simp only [ascii, List.map_cons, encodeString_cons] at ih ⊢
    rw [ih, encodeRune_of_lt hb, toNat_ascii, UInt8.ofNat_toNat]
    rfl

end GoStd.Utf8
