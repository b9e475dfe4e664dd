import Mathlib

/-!
# Byte strings (`strings`): `Trim`, `TrimLeft`, `TrimRight` and `Replace`

Go strings are byte slices here. The cutsets the modelled code trims with are
ASCII, so a byte is cut exactly when it is one of the cutset's bytes.
`strings.Split` and `strings.Join` with a one-byte separator are `List.splitOn`
and `List.intercalate`, and `strings.Contains` with a one-byte needle is `∈`.

`strings.SplitN(s, sep, n)` for `n > 0` and `strings.Cut(s, sep)` with a
one-byte separator cut at the first separator; `SplitN` leaves the rest of
the string after `n - 1` cuts as its last piece.

`strings.Replace(s, old, new, -1)` replaces the occurrences of `old` from left
to right without overlap: after a match the search resumes past it. The model
takes `old` non-empty, as `o :: os`; the lemmas are the ones a scan over a
string built of tokens needs, where whether a token matches depends only on it
and the next byte.
-/

namespace GoStd.Strings

/-- `strings.TrimLeft(s, cutset)` for an ASCII `cutset`. -/
def trimLeft (s cutset : List UInt8) : List UInt8 := s.dropWhile (· ∈ cutset)

/-- `strings.TrimRight(s, cutset)` for an ASCII `cutset`. -/
def trimRight (s cutset : List UInt8) : List UInt8 := s.rdropWhile (· ∈ cutset)

/-- `strings.Trim(s, cutset)`. -/
def trim (s cutset : List UInt8) : List UInt8 := trimRight (trimLeft s cutset) cutset

/-- `strings.Replace(s, o :: os, new, -1)`. -/
def replace (o : UInt8) (os new : List UInt8) : List UInt8 → List UInt8
  | [] => []
  | c :: cs =>
    if (o :: os).isPrefixOf (c :: cs) then new ++ replace o os new ((c :: cs).drop (os.length + 1))
    else c :: replace o os new cs
termination_by s => s.length

/-! ## Trimming -/

section Trim

variable {cutset : List UInt8}

/-- Blanks in front of text that starts with a kept byte are all cut. -/
theorem trimLeft_append {pad s : List UInt8} (hpad : ∀ c ∈ pad, c ∈ cutset)
    (hs : ∀ c ∈ s.head?, c ∉ cutset) : trimLeft (pad ++ s) cutset = s := by
  rw [trimLeft, List.dropWhile_append_of_pos (by simpa using hpad)]
  cases s with
  | nil => rfl
  | cons c s => exact List.dropWhile_cons_of_neg (by simpa using hs c rfl)

/-- Text that starts with a kept byte is kept whole. -/
theorem trimLeft_of_head {s : List UInt8} (hs : ∀ c ∈ s.head?, c ∉ cutset) : trimLeft s cutset = s :=
  trimLeft_append (List.forall_mem_nil _) hs

/-- Text none of whose bytes is cut, behind blanks. -/
theorem trim_append {pad s : List UInt8} (hpad : ∀ c ∈ pad, c ∈ cutset)
    (hs : ∀ c ∈ s, c ∉ cutset) : trim (pad ++ s) cutset = s := by
  have hhead : ∀ c ∈ s.head?, c ∉ cutset := fun c hc => hs c (List.mem_of_mem_head? hc)
  rw [trim, trimLeft_append hpad hhead, trimRight, List.rdropWhile_eq_self_iff]
  intro hne
  simpa using hs _ (List.getLast_mem hne)

/-- Text none of whose bytes is cut is kept whole. -/
theorem trim_of_forall_not_mem {s : List UInt8} (hs : ∀ c ∈ s, c ∉ cutset) : trim s cutset = s :=
  trim_append (List.forall_mem_nil _) hs

end Trim

/-! ## Replacing -/

section Replace

variable {o : UInt8} {os new : List UInt8}

@[simp] theorem replace_nil : replace o os new [] = [] := by
  rw [replace]

/-- An occurrence is replaced, and the search resumes past it. -/
theorem replace_append_old (rest : List UInt8) :
    replace o os new ((o :: os) ++ rest) = new ++ replace o os new rest := by
  have hpre : (o :: os).isPrefixOf (o :: (os ++ rest)) = true := by
    simp [List.isPrefixOf_iff_prefix]
  rw [List.cons_append, replace, if_pos hpre]
  simp

/-- A byte where no occurrence starts is kept. -/
theorem replace_cons_of_not_isPrefixOf {c : UInt8} {cs : List UInt8}
    (h : ¬ (o :: os).isPrefixOf (c :: cs)) : replace o os new (c :: cs) = c :: replace o os new cs := by
  rw [replace, if_neg h]

/-- A byte other than the first of `old` is kept. -/
theorem replace_cons_of_ne {c : UInt8} (cs : List UInt8) (h : c ≠ o) :
    replace o os new (c :: cs) = c :: replace o os new cs := by
  apply replace_cons_of_not_isPrefixOf
  simp only [List.isPrefixOf_cons_cons, Bool.and_eq_true, beq_iff_eq, not_and]
  exact fun hoc => absurd hoc.symm h

/-- For a two-byte `old`: a byte not followed by the second byte of `old` is
kept. -/
theorem replace_pair_of_head_ne {o' c : UInt8} {cs : List UInt8} (h : ∀ d ∈ cs.head?, d ≠ o') :
    replace o [o'] new (c :: cs) = c :: replace o [o'] new cs := by
  apply replace_cons_of_not_isPrefixOf
  cases cs with
  | nil => simp [List.isPrefixOf]
  | cons d cs =>
    simp only [List.isPrefixOf_cons_cons, List.isPrefixOf_nil_left, Bool.and_true,
      Bool.and_eq_true, beq_iff_eq, not_and]
    exact fun _ hd => h d rfl hd.symm

end Replace

/-! ## Joining and cutting at a separator -/

/-- `strings.Join` of pieces followed by a last one: each piece with the
separator after it, then the last. -/
theorem intercalate_append_singleton (sep : UInt8) (qs : List (List UInt8)) (t : List UInt8) :
    [sep].intercalate (qs ++ [t]) = qs.flatMap (· ++ [sep]) ++ t := by
  induction qs with
  | nil => simp
  | cons q qs ih =>
    rw [List.cons_append, List.intercalate_cons_of_ne_nil (by simp), ih, List.flatMap_cons,
      List.append_assoc, List.append_assoc, List.append_assoc]

/-- `strings.SplitN(s, sep, n)` with a one-byte separator and `n ≥ 0`. -/
def splitN (sep : UInt8) (s : List UInt8) : Nat → List (List UInt8)
  | 0 => []
  | 1 => [s]
  | n + 2 =>
    if sep ∈ s then s.take (s.idxOf sep) :: splitN sep (s.drop (s.idxOf sep + 1)) (n + 1)
    else [s]

/-- `strings.Cut(s, sep)` with a one-byte separator: before, after, found. -/
def cut (sep : UInt8) (s : List UInt8) : List UInt8 × List UInt8 × Bool :=
  if sep ∈ s then (s.take (s.idxOf sep), s.drop (s.idxOf sep + 1), true) else (s, [], false)

section Cut

variable {sep : UInt8} {a : List UInt8} (ha : sep ∉ a)
include ha

/-- The first separator is the one after a piece without it. -/
theorem idxOf_append_cons (b : List UInt8) : (a ++ sep :: b).idxOf sep = a.length := by
  rw [List.idxOf_append_of_notMem ha, List.idxOf_cons_self]
  rfl

theorem splitN_append (b : List UInt8) (n : Nat) :
    splitN sep (a ++ sep :: b) (n + 2) = a :: splitN sep b (n + 1) := by
  rw [splitN, if_pos (by simp), idxOf_append_cons ha, List.take_left', List.drop_length_add_append]
  · rfl
  · rfl

theorem splitN_of_not_mem (n : Nat) : splitN sep a (n + 1) = [a] := by
  cases n with
  | zero => rfl
  | succ n => rw [splitN, if_neg ha]

theorem cut_append (b : List UInt8) : cut sep (a ++ sep :: b) = (a, b, true) := by
  rw [cut, if_pos (by simp), idxOf_append_cons ha, List.take_left', List.drop_length_add_append]
  · rfl
  · rfl

theorem cut_of_not_mem : cut sep a = (a, [], false) := by
  rw [cut, if_neg ha]

end Cut

end GoStd.Strings
