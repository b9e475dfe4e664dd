import Mathlib
import GaussdbGo.Lib.Go

/-!
# Byte slices: `bytes.IndexByte`, `bytes.Buffer` and the `io` sentinels

The reading half of `bytes.Buffer` as decoders use it (`ReadBytes`,
`ReadByte`, `Next`, `Len`), over the unread bytes; `IndexByte`, whose `-1`
for "absent" is where many decoders' bounds arithmetic goes wrong; and the
errors of package `io` that readers and buffers return.

The lemmas are the ones a round trip needs: reading a NUL-terminated field
back from `s ++ 0 :: rest` when `s` has no NUL in it.
-/

namespace GoStd

/-- The sentinel errors of package `io`. -/
inductive IOError where
  | eof
  | unexpectedEOF
  | shortBuffer
  deriving DecidableEq, Repr

/-- `bytes.IndexByte(s, c)`: the index of the first `c` in `s`, or `-1`. -/
def indexByte (s : List UInt8) (c : UInt8) : Int :=
  if c ∈ s then s.idxOf c else -1

theorem indexByte_append_of_not_mem {s : List UInt8} {c : UInt8} (h : c ∉ s)
    (rest : List UInt8) : indexByte (s ++ c :: rest) c = s.length := by
  have hm : c ∈ s ++ c :: rest := by simp
  simp only [indexByte, hm, if_true, List.idxOf_append_of_notMem h, List.idxOf_cons_self]
  simp

theorem indexByte_of_not_mem {s : List UInt8} {c : UInt8} (h : c ∉ s) :
    indexByte s c = -1 := by
  simp [indexByte, h]

theorem indexByte_nonneg_iff {s : List UInt8} {c : UInt8} : 0 ≤ indexByte s c ↔ c ∈ s := by
  unfold indexByte
  split <;> simp_all

theorem indexByte_eq_neg_one_or_nonneg (s : List UInt8) (c : UInt8) :
    indexByte s c = -1 ∨ 0 ≤ indexByte s c := by
  unfold indexByte
  split
  · exact Or.inr (Int.natCast_nonneg _)
  · exact Or.inl rfl

theorem indexByte_lt_length {s : List UInt8} {c : UInt8} (h : c ∈ s) :
    indexByte s c < s.length := by
  rw [indexByte, if_pos h]
  exact Int.ofNat_lt.mpr (List.idxOf_lt_length_of_mem h)

theorem indexByte_append_of_mem_left {s : List UInt8} {c : UInt8} (h : c ∈ s) (t : List UInt8) :
    indexByte (s ++ t) c = indexByte s c := by
  have hm : c ∈ s ++ t := List.mem_append_left t h
  rw [indexByte, indexByte, if_pos hm, if_pos h, List.idxOf_append_of_mem h]

/-- Past a part without `c`, the search goes on in what follows. -/
theorem indexByte_append_of_not_mem_left {s : List UInt8} {c : UInt8} (h : c ∉ s) (t : List UInt8) :
    indexByte (s ++ t) c = if c ∈ t then s.length + indexByte t c else -1 := by
  by_cases ht : c ∈ t
  · have hm : c ∈ s ++ t := List.mem_append_right s ht
    rw [if_pos ht, indexByte, indexByte, if_pos hm, if_pos ht, List.idxOf_append_of_notMem h]
    push_cast
    rfl
  · have hm : c ∉ s ++ t := by simp [h, ht]
    rw [if_neg ht, indexByte_of_not_mem hm]

/-- A list that holds `c` is cut at its first `c`. -/
theorem exists_eq_append_first {s : List UInt8} {c : UInt8} (h : c ∈ s) :
    ∃ pre post, s = pre ++ c :: post ∧ c ∉ pre := by
  induction s with
  | nil => cases h
  | cons b s ih =>
    by_cases hb : b = c
    · exact ⟨[], s, by rw [hb]; rfl, List.not_mem_nil⟩
    · have hs : c ∈ s := (List.mem_cons.mp h).resolve_left (Ne.symm hb)
      obtain ⟨pre, post, rfl, hpre⟩ := ih hs
      refine ⟨b :: pre, post, rfl, ?_⟩
      simp only [List.mem_cons, not_or]
      exact ⟨Ne.symm hb, hpre⟩

/-- A `bytes.Buffer` being read: its unread bytes. -/
structure Buffer where
  unread : List UInt8
  deriving DecidableEq, Repr

namespace Buffer

/-- `bytes.NewBuffer(src)`. -/
def new (src : List UInt8) : Buffer := ⟨src⟩

/-- `b.Len()`. -/
def len (b : Buffer) : Nat := b.unread.length

/-- `b.ReadBytes(delim)`: up to and including the first `delim`; without
one, everything left and `io.EOF`. -/
def readBytes (b : Buffer) (delim : UInt8) : (List UInt8 × Option IOError) × Buffer :=
  if delim ∈ b.unread then
    let i := b.unread.idxOf delim
    ((b.unread.take (i + 1), none), ⟨b.unread.drop (i + 1)⟩)
  else ((b.unread, some .eof), ⟨[]⟩)

/-- `b.ReadByte()`. -/
def readByte (b : Buffer) : (UInt8 × Option IOError) × Buffer :=
  match b.unread with
  | [] => ((0, some .eof), b)
  | c :: rest => ((c, none), ⟨rest⟩)

/-- `b.Next(n)`: the next `n` bytes, or all that is left. -/
def next (b : Buffer) (n : Nat) : List UInt8 × Buffer :=
  (b.unread.take n, ⟨b.unread.drop n⟩)

theorem readBytes_append_of_not_mem {s : List UInt8} {delim : UInt8} (h : delim ∉ s)
    (rest : List UInt8) :
    readBytes ⟨s ++ delim :: rest⟩ delim = ((s ++ [delim], none), ⟨rest⟩) := by
  have hm : delim ∈ s ++ delim :: rest := by simp
  have hi : (s ++ delim :: rest).idxOf delim = s.length := by
    simp [List.idxOf_append_of_notMem h]
  have ht : (s ++ delim :: rest).take (s.length + 1) = s ++ [delim] := by
    simp [List.take_append, List.take_of_length_le]
  have hd : (s ++ delim :: rest).drop (s.length + 1) = rest := by
    simp [List.drop_append]
  simp only [readBytes, hm, if_true, hi, ht, hd]

end Buffer

end GoStd
