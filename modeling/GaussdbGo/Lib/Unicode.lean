import GaussdbGo.Lib.Utf8

/-!
# Runes of a `bytes.Buffer` and `unicode.IsSpace`

`ReadRune` decodes the rune at the head of the unread bytes, U+FFFD for a
byte that starts no valid sequence, and consumes its width; at the end it
returns `io.EOF`. `UnreadRune` right after it puts the rune back, so a read
followed by an unread is a look at the next rune. `WriteRune` writes the
UTF-8 encoding of a rune, so copying runes one by one keeps valid text and
turns each invalid byte into the three bytes of U+FFFD.
-/

namespace GoStd

open Utf8

/-- `unicode.IsSpace(r)`: the Latin-1 blanks and the `White_Space` runes
above them. -/
def isSpace (r : Nat) : Bool :=
  (9 ≤ r && r ≤ 13) || r = 32 || r = 0x85 || r = 0xA0 || r = 0x1680 ||
    (0x2000 ≤ r && r ≤ 0x200A) || r = 0x2028 || r = 0x2029 || r = 0x202F || r = 0x205F ||
    r = 0x3000

/-- `buf.ReadRune()` on the unread bytes: the rune and the bytes after it,
`none` at the end (`io.EOF`). -/
def readRune : List UInt8 → Option (Nat × List UInt8)
  | [] => none
  | b :: rest => some ((decodeRune (b :: rest)).1, (b :: rest).drop (decodeRune (b :: rest)).2)

/-- `WriteRune(r)`. -/
def writeRune (r : Nat) : List UInt8 := encodeRune (Char.ofNat r)

@[simp] theorem readRune_nil : readRune [] = none := rfl

/-- An ASCII byte is read as itself. -/
theorem readRune_ascii {b : UInt8} (hb : b.toNat < 0x80) (rest : List UInt8) :
    readRune (b :: rest) = some (b.toNat, rest) := by
  rw [readRune, decodeRune_ascii hb]
  rfl

/-- A read consumes at least a byte. -/
theorem length_lt_of_readRune {s rest : List UInt8} {r : Nat} (h : readRune s = some (r, rest)) :
    rest.length < s.length := by
  cases s with
  | nil => cases h
  | cons b s =>
    rw [readRune, Option.some.injEq, Prod.mk.injEq] at h
    obtain ⟨-, rfl⟩ := h
    have := one_le_width (s := b :: s) (by simp)
    simp only [List.length_drop, List.length_cons]
    omega

/-- An ASCII rune is written as its byte. -/
theorem writeRune_ascii {r : Nat} (hr : r < 0x80) : writeRune r = [UInt8.ofNat r] := by
  have h : (Char.ofNat r).toNat = r := toNat_charOfNat (by omega)
  rw [writeRune, encodeRune_of_lt (by omega), h]

/-- An ASCII byte read and written back is itself. -/
theorem writeRune_toNat {b : UInt8} (hb : b.toNat < 0x80) : writeRune b.toNat = [b] := by
  rw [writeRune_ascii hb, UInt8.ofNat_toNat]

/-- The encoding of a character is read as that character, whatever follows. -/
theorem readRune_encodeRune (c : Char) (rest : List UInt8) :
    readRune (encodeRune c ++ rest) = some (c.toNat, rest) := by
  obtain ⟨b, t, hbt⟩ := List.exists_cons_of_length_pos (length_encodeRune_pos c)
  have hd := decodeRune_encodeRune c rest
  rw [hbt, List.cons_append] at hd ⊢
  rw [readRune, hd, ← List.cons_append, ← hbt, List.drop_left]

/-- A character's code written back is the character's encoding. -/
@[simp] theorem writeRune_char (c : Char) : writeRune c.toNat = encodeRune c := by
  rw [writeRune, Char.ofNat_toNat]

end GoStd
