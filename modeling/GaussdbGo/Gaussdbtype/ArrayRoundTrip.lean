import GaussdbGo.Gaussdbtype.ArrayText

/-!
# gaussdbtype — text arrays written and read back

`encodePlanArrayCodecText` walks the elements by flat index `i` and opens a
brace for every dimension whose block size divides `i`, closes one for
every block size that divides `i + 1`. Read as nested blocks this is the
array as a grid: the outermost block holds `Length` blocks of the next
dimension, and so on down to the elements (`grid`). The first part of this
module proves that the flat walk writes exactly `render (grid …)`:
`gridText` is the walk over natural numbers, split by the outermost block
size and then by the chunks (`render_grid`). The second part brings the
encoder's 64-bit block sizes and indices down to these natural numbers,
the third reads the explicit `[lower:upper]=` prefix back, and the last
assembles the round trip.
-/

namespace GaussdbGo.Gaussdbtype

open GoStd GoStd.Strconv GaussdbGo.Proto Utf8 ArrayText

/-! ## Arrays as grids of blocks -/

/-- `n` pieces of `size` elements each, in order. -/
def chunks {α : Type} (size : Nat) : Nat → List α → List (List α)
  | 0, _ => []
  | n + 1, l => l.take size :: chunks size n (l.drop size)

/-- An array of dimension lengths `ls` holding `elems` in row-major order:
a block of `L` blocks of the next dimension, down to the elements. -/
def grid : List Nat → List (Option Bytes) → ArrayText
  | [], elems => element (elems.headD none)
  | L :: ls, elems => block ((chunks ls.prod L elems).map (grid ls))

/-- The block sizes of `dimElemCounts`, over natural numbers. -/
def suffixProducts : List Nat → List Nat
  | [] => []
  | L :: ls => L * ls.prod :: suffixProducts ls

theorem length_chunks {α : Type} (size n : Nat) (l : List α) : (chunks size n l).length = n := by
  induction n generalizing l with
  | zero => rfl
  | succ n ih => rw [chunks, List.length_cons, ih]

/-- Every block size below a dimension divides that dimension's. -/
theorem dvd_prod_of_mem_suffixProducts {ls : List Nat} {c : Nat} (h : c ∈ suffixProducts ls) :
    c ∣ ls.prod := by
  induction ls with
  | nil => cases h
  | cons L ls ih =>
    rw [suffixProducts, List.mem_cons] at h
    rw [List.prod_cons]
    rcases h with rfl | h
    · exact dvd_refl _
    · exact Dvd.dvd.mul_left (ih h) L

section Grid

variable {ls : List Nat}

theorem itemsLeaves_chunks (hpos : ∀ L ∈ ls, 1 ≤ L)
    (ih : ∀ ys : List (Option Bytes), ys.length = ls.prod → leaves (grid ls ys) = ys) :
    ∀ (n : Nat) (xs : List (Option Bytes)), xs.length = n * ls.prod →
      itemsLeaves ((chunks ls.prod n xs).map (grid ls)) = xs
  | 0, xs, h => by
    rw [Nat.zero_mul, List.length_eq_zero_iff] at h
    subst h
    rfl
  | n + 1, xs, h => by
    rw [chunks, List.map_cons, itemsLeaves, ih _ (by simp [h, Nat.succ_mul]),
      itemsLeaves_chunks hpos ih n _ (by simp [h, Nat.succ_mul]), List.take_append_drop]

/-- A grid holds its elements, in order. -/
theorem leaves_grid (hpos : ∀ L ∈ ls, 1 ≤ L) :
    ∀ xs : List (Option Bytes), xs.length = ls.prod → leaves (grid ls xs) = xs := by
  induction ls with
  | nil =>
    intro xs h
    obtain ⟨x, rfl⟩ := List.length_eq_one_iff.mp h
    rfl
  | cons L ls ih =>
    intro xs h
    rw [grid, leaves]
    exact itemsLeaves_chunks (fun L' h' => hpos L' (List.mem_cons_of_mem _ h'))
      (ih fun L' h' => hpos L' (List.mem_cons_of_mem _ h')) L xs (by rw [h, List.prod_cons])

/-- The first path of a grid has every dimension's length. -/
theorem firstBlocks_grid (hpos : ∀ L ∈ ls, 1 ≤ L) (L : Nat) (hL : 1 ≤ L) (xs : List (Option Bytes)) :
    (firstBlocks ((chunks ls.prod L xs).map (grid ls))).map List.length = L :: ls := by
  induction ls generalizing L xs with
  | nil =>
    obtain ⟨L, rfl⟩ : ∃ L', L = L' + 1 := ⟨L - 1, by omega⟩
    simp [chunks, grid, firstBlocks, blocksBelow, length_chunks]
  | cons L' ls ih =>
    obtain ⟨L, rfl⟩ : ∃ L'', L = L'' + 1 := ⟨L - 1, by omega⟩
    rw [chunks, List.map_cons, firstBlocks, List.map_cons, grid, blocksBelow,
      ih (fun L'' h'' => hpos L'' (List.mem_cons_of_mem _ h'')) L' (hpos L' (List.mem_cons_self ..))]
    simp [length_chunks]

end Grid

/-! ## The encoder's walk over natural numbers -/

/-- What the encoder writes for element `x` at flat index `i`, block sizes
`cs`: a comma unless first, a `{` per block starting at `i`, the element,
a `}` per block ending with it. -/
def gridPiece (cs : List Nat) (x : Option Bytes) (i : Nat) : Bytes :=
  (if 0 < i then [44] else []) ++ List.replicate (cs.countP (· ∣ i)) 123 ++ elementText x ++
    List.replicate (cs.countP (· ∣ i + 1)) 125

/-- The walk over `xs` from flat index `i`. -/
def gridText (cs : List Nat) : Nat → List (Option Bytes) → Bytes
  | _, [] => []
  | i, x :: xs => gridPiece cs x i ++ gridText cs (i + 1) xs

section GridText

variable {cs : List Nat}

theorem gridText_append (i : Nat) (xs ys : List (Option Bytes)) :
    gridText cs i (xs ++ ys) = gridText cs i xs ++ gridText cs (i + xs.length) ys := by
  induction xs generalizing i with
  | nil => rfl
  | cons x xs ih =>
    rw [List.cons_append, gridText, gridText, ih, List.append_assoc, List.length_cons,
      Nat.add_assoc, Nat.add_comm 1]

/-- Block sizes that divide `k` see index `k + j` as they see `j`. -/
theorem countP_dvd_add {k : Nat} (hk : ∀ c ∈ cs, c ∣ k) (j : Nat) :
    cs.countP (· ∣ k + j) = cs.countP (· ∣ j) :=
  List.countP_congr fun c hc => by simp [Nat.dvd_add_right (hk c hc)]

/-- Past the first element, shifting the walk by a multiple of every
block size changes nothing. -/
theorem gridText_shift {k : Nat} (hk : ∀ c ∈ cs, c ∣ k) (j : Nat) (xs : List (Option Bytes)) :
    gridText cs (k + j + 1) xs = gridText cs (j + 1) xs := by
  induction xs generalizing j with
  | nil => rfl
  | cons x xs ih =>
    have h₁ : cs.countP (· ∣ k + j + 1) = cs.countP (· ∣ j + 1) := by
      rw [Nat.add_assoc]; exact countP_dvd_add hk _
    have h₂ : cs.countP (· ∣ k + j + 1 + 1) = cs.countP (· ∣ j + 1 + 1) := by
      rw [Nat.add_assoc, Nat.add_assoc]; exact countP_dvd_add hk _
    rw [gridText, gridText, gridPiece, gridPiece, h₁, h₂, if_pos (by omega), if_pos (by omega),
      show k + j + 1 + 1 = k + (j + 1) + 1 by omega, ih]

/-- A block that starts at a multiple `k > 0` of every block size is
written as a comma and the block on its own. -/
theorem gridText_of_dvd {k : Nat} (hk : ∀ c ∈ cs, c ∣ k) (hpos : 0 < k) (x : Option Bytes)
    (xs : List (Option Bytes)) : gridText cs k (x :: xs) = 44 :: gridText cs 0 (x :: xs) := by
  have h₁ := countP_dvd_add hk 0
  have h₂ := countP_dvd_add hk 1
  rw [Nat.add_zero] at h₁
  rw [gridText, gridText, gridPiece, gridPiece, h₁, h₂, if_pos hpos, if_neg (by omega),
    show k + 1 = k + 0 + 1 by omega, gridText_shift hk 0, List.nil_append]
  rfl

theorem countP_cons_dvd (c₀ i : Nat) :
    (c₀ :: cs).countP (· ∣ i) = cs.countP (· ∣ i) + if c₀ ∣ i then 1 else 0 := by
  simp [List.countP_cons]

/-- Inside the outermost block, after its first element, the outermost
block size adds only the `}` after the last element. -/
theorem gridText_cons_inner {c₀ : Nat} :
    ∀ (i : Nat) (xs : List (Option Bytes)), 0 < i → i + xs.length = c₀ → xs ≠ [] →
      gridText (c₀ :: cs) i xs = gridText cs i xs ++ [125]
  | _, [], _, _, hne => absurd rfl hne
  | i, x :: xs, hi, hlen, _ => by
    rw [List.length_cons] at hlen
    have hopen : ¬c₀ ∣ i := fun h => by have := Nat.le_of_dvd hi h; omega
    rw [gridText, gridText, gridPiece, gridPiece, countP_cons_dvd, countP_cons_dvd, if_neg hopen,
      Nat.add_zero]
    cases xs with
    | nil =>
      -- the last element closes the outermost block
      have hclose : c₀ ∣ i + 1 := by rw [show i + 1 = c₀ by simpa using hlen]
      rw [if_pos hclose, List.replicate_succ']
      simp [gridText]
    | cons y ys =>
      have hclose : ¬c₀ ∣ i + 1 := fun h => by
        have := Nat.le_of_dvd (by omega) h
        simp at hlen
        omega
      rw [if_neg hclose, Nat.add_zero, gridText_cons_inner (i + 1) (y :: ys) (by omega)
        (by simp at hlen ⊢; omega) (List.cons_ne_nil _ _)]
      simp

/-- The outermost block size adds the outermost braces. -/
theorem gridText_cons_zero {c₀ : Nat} (x : Option Bytes) (xs : List (Option Bytes))
    (hlen : xs.length + 1 = c₀) :
    gridText (c₀ :: cs) 0 (x :: xs) = 123 :: gridText cs 0 (x :: xs) ++ [125] := by
  rw [gridText, gridText, gridPiece, gridPiece, if_neg (Nat.lt_irrefl 0), countP_cons_dvd,
    countP_cons_dvd, if_pos (dvd_zero c₀), List.replicate_succ]
  cases xs with
  | nil =>
    have hclose : c₀ ∣ 0 + 1 := by rw [← hlen]; simp
    rw [if_pos hclose, List.replicate_succ']
    simp [gridText]
  | cons y ys =>
    have hclose : ¬c₀ ∣ 0 + 1 := fun h => by
      have := Nat.le_of_dvd (by omega) h
      simp at hlen
      omega
    rw [if_neg hclose, Nat.add_zero, gridText_cons_inner 1 (y :: ys) (by omega)
      (by simp at hlen ⊢; omega) (List.cons_ne_nil _ _)]
    simp

end GridText

section Rows

variable {ls : List Nat} (hpos : ∀ L ∈ ls, 1 ≤ L)
  (ih : ∀ ys : List (Option Bytes), ys.length = ls.prod →
    render (grid ls ys) = gridText (suffixProducts ls) 0 ys)
include hpos ih

omit ih in
theorem one_le_prod : 1 ≤ ls.prod := by
  have : 0 < ls.prod := List.prod_pos fun L hL => hpos L hL
  omega

/-- The rows of a block after the first, written from a flat index that is
a multiple of every block size: each after a comma. -/
theorem gridText_chunks_rest :
    ∀ (n k : Nat) (xs : List (Option Bytes)), (∀ c ∈ suffixProducts ls, c ∣ k) → 0 < k →
      xs.length = n * ls.prod →
      gridText (suffixProducts ls) k xs = renderRest ((chunks ls.prod n xs).map (grid ls))
  | 0, _, xs, _, _, h => by
    rw [Nat.zero_mul, List.length_eq_zero_iff] at h
    subst h
    rfl
  | n + 1, k, xs, hk, hpos', h => by
    have hP := one_le_prod hpos
    have htake : (xs.take ls.prod).length = ls.prod := by simp [h, Nat.succ_mul]
    obtain ⟨y, ys, hys⟩ := List.exists_cons_of_length_pos (show 0 < (xs.take ls.prod).length by omega)
    have hrest := gridText_chunks_rest n (k + ls.prod) (xs.drop ls.prod)
      (fun c hc => Nat.dvd_add (hk c hc) (dvd_prod_of_mem_suffixProducts hc)) (by omega)
      (by simp [h, Nat.succ_mul])
    rw [← List.take_append_drop ls.prod xs, gridText_append, htake, hys, gridText_of_dvd hk hpos',
      ← hys, ← ih _ htake, hrest, List.take_append_drop, chunks, List.map_cons, renderRest,
      List.cons_append]

/-- The rows of a block, from its first. -/
theorem gridText_chunks (n : Nat) (xs : List (Option Bytes)) (hn : 1 ≤ n)
    (h : xs.length = n * ls.prod) :
    gridText (suffixProducts ls) 0 xs = renderItems ((chunks ls.prod n xs).map (grid ls)) := by
  obtain ⟨n, rfl⟩ : ∃ n', n = n' + 1 := ⟨n - 1, by omega⟩
  have hP := one_le_prod hpos
  have htake : (xs.take ls.prod).length = ls.prod := by simp [h, Nat.succ_mul]
  have hrest := gridText_chunks_rest hpos ih n ls.prod (xs.drop ls.prod)
    (fun c hc => dvd_prod_of_mem_suffixProducts hc) (by omega) (by simp [h, Nat.succ_mul])
  rw [← List.take_append_drop ls.prod xs, gridText_append, htake, Nat.zero_add, ← ih _ htake,
    hrest, List.take_append_drop, chunks, List.map_cons, renderItems]

end Rows

/-- The encoder's walk writes the grid, nested braces and all. -/
theorem render_grid : ∀ (ls : List Nat), (∀ L ∈ ls, 1 ≤ L) →
    ∀ xs : List (Option Bytes), xs.length = ls.prod →
      render (grid ls xs) = gridText (suffixProducts ls) 0 xs
  | [], _, xs, h => by
    obtain ⟨x, rfl⟩ := List.length_eq_one_iff.mp h
    simp [grid, render, gridText, gridPiece, suffixProducts]
  | L :: ls, hpos, xs, h => by
    have hpos' : ∀ L' ∈ ls, 1 ≤ L' := fun L' h' => hpos L' (List.mem_cons_of_mem _ h')
    have ih := render_grid ls hpos'
    have hL := hpos L (List.mem_cons_self ..)
    have hP := one_le_prod hpos'
    rw [List.prod_cons] at h
    obtain ⟨x, xs', rfl⟩ := List.exists_cons_of_length_pos (show 0 < xs.length by
      rw [h]; exact Nat.mul_pos hL hP)
    rw [grid, render, suffixProducts, gridText_cons_zero x xs' (by simpa using h),
      gridText_chunks hpos' ih L _ hL h, List.cons_append]

/-! ## The encoder in 64-bit arithmetic

The block sizes and the flat index are Go `int`s. Below `2^63` they do
not wrap, and `i % dec == 0` is divisibility.
-/

/-- The lengths of the dimensions, as natural numbers. -/
def dimLengths (dims : List ArrayDimension) : List Nat := dims.map (·.length.toInt.toNat)

theorem int64_mod_eq_zero_iff {i c : Nat} (hc : c < 2 ^ 63) (hi : i < 2 ^ 63) :
    Int64.ofNat i % Int64.ofNat c = 0 ↔ c ∣ i := by
  rw [← Int64.toInt_inj, Int64.toInt_mod, Int64.toInt_ofNat_of_lt hi, Int64.toInt_ofNat_of_lt hc,
    show Int64.toInt 0 = 0 from rfl, show (i : Int).tmod c = ((i % c : Nat) : Int) from rfl,
    Int.natCast_eq_zero, Nat.dvd_iff_mod_eq_zero]

theorem int64_ofNat_mul {a b : Nat} (ha : 1 ≤ a) (hb : 1 ≤ b) (h : a * b < 2 ^ 63) :
    Int64.ofNat a * Int64.ofNat b = Int64.ofNat (a * b) := by
  have ha' : a < 2 ^ 63 := lt_of_le_of_lt (Nat.le_mul_of_pos_right a hb) h
  have hb' : b < 2 ^ 63 := lt_of_le_of_lt (Nat.le_mul_of_pos_left b ha) h
  rw [← Int64.toInt_inj, Int64.toInt_mul, Int64.toInt_ofNat_of_lt ha', Int64.toInt_ofNat_of_lt hb',
    Int64.toInt_ofNat_of_lt h, ← Nat.cast_mul]
  exact Int.bmod_eq_of_le (by omega) (by omega)

/-- A positive `int32` length as a Go `int`. -/
theorem toInt64_length {d : ArrayDimension} (h : 1 ≤ d.length.toInt) :
    d.length.toInt64 = Int64.ofNat d.length.toInt.toNat := by
  have hlt := d.length.toInt_lt
  rw [← Int64.toInt_inj, Int32.toInt_toInt64, Int64.toInt_ofNat_of_lt (by omega)]
  omega

/-- The `{`s or `}`s of one element: one per block size whose test holds. -/
theorem foldl_braces (counts : List Int64) (n : Int64) (c : UInt8) :
    ∀ buf : Bytes, counts.foldl (fun buf dec => if n % dec = 0 then buf ++ [c] else buf) buf =
      buf ++ List.replicate (counts.countP fun dec => n % dec = 0) c := by
  induction counts with
  | nil => intro buf; rw [List.foldl_nil, List.countP_nil, List.replicate_zero, List.append_nil]
  | cons dec counts ih =>
    intro buf
    rw [List.foldl_cons, ih, List.countP_cons]
    split
    · rename_i h
      rw [if_pos (by simpa using h), List.replicate_succ, List.append_assoc, List.singleton_append]
    · rename_i h
      rw [if_neg (by simpa using h), Nat.add_zero]

section Walk

variable {cs : List Nat} (hcs : ∀ c ∈ cs, c < 2 ^ 63)
include hcs

theorem countP_int64_dvd {i : Nat} (hi : i < 2 ^ 63) :
    (cs.map Int64.ofNat).countP (fun dec => Int64.ofNat i % dec = 0) = cs.countP (· ∣ i) := by
  rw [List.countP_map]
  exact List.countP_congr fun c hc => by simp [int64_mod_eq_zero_iff (hcs c hc) hi]

/-- The encoder's loop writes the walk over the elements left. -/
theorem encodeArrayLoop_gridText (elems : List (Option Bytes)) (hlen : elems.length < 2 ^ 63) :
    ∀ (n i : Nat) (buf : Bytes), i + n = elems.length →
      encodeArrayLoop elems (cs.map Int64.ofNat) n i buf = .ok (buf ++ gridText cs i (elems.drop i))
  | 0, i, buf, h => by
    rw [Nat.add_zero] at h
    subst h
    rw [encodeArrayLoop, List.drop_length, gridText, List.append_nil]
    rfl
  | n + 1, i, buf, h => by
    have hi : i < elems.length := by omega
    have hopen := countP_int64_dvd hcs (i := i) (by omega)
    have hclose := countP_int64_dvd hcs (i := i + 1) (by omega)
    rw [encodeArrayLoop, index_of_lt elems i hi, ok_bind]
    dsimp only
    rw [foldl_braces, foldl_braces,
      show Int64.ofNat i + 1 = Int64.ofNat (i + 1) from (Int64.ofNat_add i 1).symm, hopen, hclose,
      encodeArrayLoop_gridText elems hlen n (i + 1) _ (by omega), List.drop_eq_getElem_cons hi,
      gridText, gridPiece]
    have hsep : (if i > 0 then buf ++ [44] else buf) = buf ++ if 0 < i then [44] else [] := by
      split <;> simp
    rw [hsep]
    simp only [List.append_assoc]

end Walk

@[simp] theorem dimLengths_cons (d : ArrayDimension) (ds : List ArrayDimension) :
    dimLengths (d :: ds) = d.length.toInt.toNat :: dimLengths ds := rfl

theorem headD_suffixProducts (ls : List Nat) :
    ((suffixProducts ls).map Int64.ofNat).headD 1 = Int64.ofNat ls.prod := by
  cases ls with
  | nil => rfl
  | cons L ls => rfl

theorem one_le_of_mem_dimLengths {dims : List ArrayDimension} (hpos : ∀ d ∈ dims, 1 ≤ d.length.toInt) :
    ∀ L ∈ dimLengths dims, 1 ≤ L := by
  intro L hL
  obtain ⟨d, hd, rfl⟩ := List.mem_map.mp hL
  have := hpos d hd
  omega

theorem foldl_cardinality (ds : List ArrayDimension) (hds : ∀ d ∈ ds, 1 ≤ d.length.toInt) :
    ∀ a : Nat, 1 ≤ a → a * (dimLengths ds).prod < 2 ^ 63 →
      ds.foldl (fun n d => n * d.length.toInt64) (Int64.ofNat a) =
        Int64.ofNat (a * (dimLengths ds).prod) := by
  induction ds with
  | nil => intro a _ _; simp [dimLengths]
  | cons d ds ih =>
    intro a ha hb
    have hds' : ∀ d' ∈ ds, 1 ≤ d'.length.toInt := fun d' h' => hds d' (List.mem_cons_of_mem _ h')
    have hd := hds d (List.mem_cons_self ..)
    have hP := one_le_prod (one_le_of_mem_dimLengths hds')
    rw [dimLengths_cons, List.prod_cons, ← Nat.mul_assoc] at hb ⊢
    have hab : a * d.length.toInt.toNat < 2 ^ 63 :=
      lt_of_le_of_lt (Nat.le_mul_of_pos_right _ (by omega)) hb
    rw [List.foldl_cons, toInt64_length hd, int64_ofNat_mul ha (by omega) hab,
      ih hds' _ (Nat.mul_pos (by omega) (by omega)) hb]

section Dims

variable {dims : List ArrayDimension} (hpos : ∀ d ∈ dims, 1 ≤ d.length.toInt)
include hpos

/-- `dimElemCounts` holds the block sizes, unwrapped while the element count
is below `2^63`. -/
theorem dimElemCounts_eq (hb : (dimLengths dims).prod < 2 ^ 63) :
    dimElemCounts dims = (suffixProducts (dimLengths dims)).map Int64.ofNat := by
  induction dims with
  | nil => rfl
  | cons d ds ih =>
    have hpos' : ∀ d' ∈ ds, 1 ≤ d'.length.toInt := fun d' h' => hpos d' (List.mem_cons_of_mem _ h')
    have hd := hpos d (List.mem_cons_self ..)
    have hP := one_le_prod (one_le_of_mem_dimLengths hpos')
    rw [dimLengths_cons, List.prod_cons] at hb
    have hrest : (dimLengths ds).prod < 2 ^ 63 :=
      lt_of_le_of_lt (Nat.le_mul_of_pos_left _ (by omega)) hb
    have ih' := ih hpos' hrest
    rw [dimElemCounts, List.foldr_cons] at *
    rw [ih', headD_suffixProducts, toInt64_length hd, int64_ofNat_mul (by omega) hP hb,
      dimLengths_cons, suffixProducts, List.map_cons]

/-- `cardinality` is the product of the lengths, while that is below `2^63`. -/
theorem cardinality_eq (hne : dims ≠ []) (hb : (dimLengths dims).prod < 2 ^ 63) :
    cardinality dims = Int64.ofNat (dimLengths dims).prod := by
  obtain ⟨d, ds, rfl⟩ := List.exists_cons_of_ne_nil hne
  have hd := hpos d (List.mem_cons_self ..)
  rw [dimLengths_cons, List.prod_cons] at hb ⊢
  rw [cardinality, toInt64_length hd,
    foldl_cardinality ds (fun d' h' => hpos d' (List.mem_cons_of_mem _ h')) _ (by omega) hb]

end Dims

/-- A nonnegative `int32` comes back from its `Nat`. -/
theorem int32_ofNat_toNat (x : Int32) (h : 0 ≤ x.toInt) : Int32.ofNat x.toInt.toNat = x := by
  have hlt := Int32.toInt_lt x
  rw [← Int32.toInt_inj, Int32.toInt_ofNat', Int.toNat_of_nonneg h]
  exact Int.bmod_eq_of_le (by simp [Int32.size]; omega) (by simp [Int32.size] at hlt ⊢; omega)

/-- With every lower bound 1 the dimensions are their lengths. -/
theorem dimLengths_map {dims : List ArrayDimension} (hpos : ∀ d ∈ dims, 1 ≤ d.length.toInt)
    (hone : dims.all (·.lowerBound = 1) = true) :
    (dimLengths dims).map (fun L => (⟨Int32.ofNat L, 1⟩ : ArrayDimension)) = dims := by
  induction dims with
  | nil => rfl
  | cons d ds ih =>
    simp only [List.all_cons, Bool.and_eq_true, decide_eq_true_eq] at hone
    obtain ⟨len, lo⟩ := d
    simp only at hone
    have hd := hpos _ (List.mem_cons_self ..)
    rw [dimLengths_cons, List.map_cons, ih (fun d h => hpos d (List.mem_cons_of_mem _ h)) hone.2,
      int32_ofNat_toNat _ (by dsimp only at hd ⊢; omega), hone.1]

/-! ## Explicit dimensions read back -/

/-- What `encodeTextArrayDimensions` writes for one dimension. -/
def dimensionText (d : ArrayDimension) : Bytes :=
  91 :: itoa d.lowerBound.toInt ++ 58 :: itoa (d.lowerBound + d.length - 1).toInt ++ [93]

theorem foldl_append_eq_flatMap {α : Type} (f : α → Bytes) :
    ∀ (l : List α) (buf : Bytes), l.foldl (fun buf a => buf ++ f a) buf = buf ++ l.flatMap f
  | [], buf => by rw [List.foldl_nil, List.flatMap_nil, List.append_nil]
  | a :: l, buf => by
    rw [List.foldl_cons, foldl_append_eq_flatMap f l, List.flatMap_cons, List.append_assoc]

theorem encodeTextArrayDimensions_custom {dims : List ArrayDimension}
    (h : dims.all (·.lowerBound = 1) = false) :
    encodeTextArrayDimensions [] dims = dims.flatMap dimensionText ++ [61] := by
  rw [encodeTextArrayDimensions, if_neg (by simp [h])]
  have hstep : (fun buf (d : ArrayDimension) => buf ++ 91 :: itoa d.lowerBound.toInt ++ 58 ::
      itoa (d.lowerBound + d.length - 1).toInt ++ [93]) = fun buf d => buf ++ dimensionText d := by
    funext buf d
    simp [dimensionText]
  rw [hstep, foldl_append_eq_flatMap, List.nil_append]

/-- Digits and minus signs are all kept. -/
theorem arrayParseInteger_append {t : Bytes} (ht : ∀ b ∈ t, b = 45 ∨ IsDecimalDigit b)
    (s rest : Bytes) : arrayParseInteger s (t ++ rest) = arrayParseInteger (s ++ t) rest := by
  induction t generalizing s with
  | nil => rw [List.nil_append, List.append_nil]
  | cons b t ih =>
    have hb : b.toNat < 0x80 ∧ ((48 ≤ b.toNat ∧ b.toNat ≤ 57) ∨ b.toNat = 45) := by
      rcases ht b (List.mem_cons_self ..) with rfl | ⟨h₁, h₂⟩
      · decide
      · omega
    rw [List.cons_append, arrayParseInteger_of_readRune (readRune_ascii hb.1 _), if_pos hb.2,
      writeRune_toNat hb.1, ih fun b' h' => ht b' (List.mem_cons_of_mem _ h'), List.append_assoc,
      List.singleton_append]

/-- A bound written by `strconv.FormatInt` is read back, up to the `:` or
`]` after it. -/
theorem arrayParseInteger_itoa (x : Int32) {c : UInt8} (hc : c = 58 ∨ c = 93) (rest : Bytes) :
    arrayParseInteger [] (itoa x.toInt ++ c :: rest) = .ok (x, c :: rest) := by
  have hstop : ¬((48 ≤ c.toNat ∧ c.toNat ≤ 57) ∨ c.toNat = 45) := by
    rcases hc with rfl | rfl <;> decide
  rw [arrayParseInteger_append (fun b hb => mem_itoa hb), List.nil_append,
    arrayParseInteger_of_readRune (readRune_ascii (by rcases hc with rfl | rfl <;> decide) _),
    if_neg hstop, parseIntChecked_itoa (by norm_num) (by have := x.le_toInt; simpa using this)
      (by have := x.toInt_lt; simpa using this)]
  simp only [Int32.ofInt_toInt]

/-- `upper - lower + 1` undoes `lower + length - 1`, in `int32`. -/
theorem length_of_bounds (d : ArrayDimension) :
    (⟨d.lowerBound + d.length - 1 - d.lowerBound + 1, d.lowerBound⟩ : ArrayDimension) = d := by
  have h : d.lowerBound + d.length - 1 - d.lowerBound + 1 = d.length := by grind
  rw [h]

/-- The explicit dimensions are read back one `[lower:upper]` at a time. -/
theorem explicitDimensionsLoop_dimensionText :
    ∀ (dims acc : List ArrayDimension) (rest : Bytes),
      explicitDimensionsLoop acc (dims.flatMap dimensionText ++ 61 :: rest) = .ok (acc ++ dims, rest)
  | [], acc, rest => by
    rw [List.flatMap_nil, List.nil_append, List.append_nil]
    exact explicitDimensionsLoop_equals (readRune_ascii (by decide) _)
  | d :: dims, acc, rest => by
    have htext : (d :: dims).flatMap dimensionText ++ 61 :: rest =
        91 :: (itoa d.lowerBound.toInt ++ 58 :: (itoa (d.lowerBound + d.length - 1).toInt ++
          93 :: (dims.flatMap dimensionText ++ 61 :: rest))) := by
      simp [dimensionText]
    rw [htext, explicitDimensionsLoop_dim (readRune_ascii (b := 91) (by decide) _)
      (arrayParseInteger_itoa _ (.inl rfl) _) (readRune_ascii (b := 58) (by decide) _)
      (arrayParseInteger_itoa _ (.inr rfl) _) (readRune_ascii (b := 93) (by decide) _),
      length_of_bounds, explicitDimensionsLoop_dimensionText dims, List.append_assoc,
      List.singleton_append]

/-- Explicit dimensions in front of a block are read as such. -/
theorem parseUntypedTextArray_dimensionText {dims : List ArrayDimension} (hdims : dims ≠ [])
    (items : List ArrayText) (hv : ValidElements (itemsLeaves items)) (hne : itemsLeaves items ≠ []) :
    parseUntypedTextArray (dims.flatMap dimensionText ++ [61] ++ (block items).render) =
      .ok ⟨((itemsLeaves items).map elementValue).map Prod.fst,
        ((itemsLeaves items).map elementValue).map Prod.snd, dims⟩ := by
  obtain ⟨d, ds, rfl⟩ := List.exists_cons_of_ne_nil hdims
  let tail := itoa d.lowerBound.toInt ++ 58 :: itoa (d.lowerBound + d.length - 1).toInt ++ [93] ++
    ds.flatMap dimensionText ++ 61 :: (block items).render
  have htext : (d :: ds).flatMap dimensionText ++ [61] ++ (block items).render = 91 :: tail := by
    simp only [List.flatMap_cons, dimensionText, List.append_assoc, List.cons_append,
      List.nil_append, tail]
  have hr : readRune (skipWhitespace (91 :: tail)) = some (91, tail) := by
    rw [skipWhitespace_of_not_space (by decide) (by decide)]
    exact readRune_ascii (b := 91) (by decide) _
  have hloop : explicitDimensionsLoop [] (91 :: tail) = .ok (d :: ds, (block items).render) := by
    rw [← htext, List.append_assoc, List.singleton_append]
    exact explicitDimensionsLoop_dimensionText (d :: ds) [] _
  -- the `[` is read twice: once to choose the branch, once by the loop
  have hE : explicitDimensions 91 tail (skipWhitespace (91 :: tail)) =
      .ok (d :: ds, 123, renderItems items ++ [125]) := by
    rw [skipWhitespace_of_not_space (by decide) (by decide), explicitDimensions, if_pos rfl]
    simp only [hloop, bind, Except.bind, render, List.cons_append]
    rw [readRune_ascii (b := 123) (by decide)]
    rfl
  rw [htext, parseUntypedTextArray_of_explicitDimensions items hv hr hE, if_neg hne,
    if_neg (List.cons_ne_nil _ _)]

/-! ## The round trip -/

section RoundTrip

variable {dims : List ArrayDimension} {elems : List (Option Bytes)} (hdims : dims ≠ [])
  (hpos : ∀ d ∈ dims, 1 ≤ d.length.toInt) (hlen : elems.length = (dimLengths dims).prod)
  (hbound : elems.length < 2 ^ 63)
include hdims hpos hlen hbound

/-- The encoder writes the explicit dimensions, if any, and the grid. -/
theorem encodeArrayText_grid :
    encodeArrayText (some dims) elems [] =
      .ok (some (encodeTextArrayDimensions [] dims ++ render (grid (dimLengths dims) elems))) := by
  have hls := one_le_of_mem_dimLengths hpos
  have hcard := cardinality_eq hpos hdims (by omega)
  have hcount : (cardinality dims).toInt.toNat = elems.length := by
    rw [hcard, Int64.toInt_ofNat_of_lt (by omega), Int.toNat_natCast, hlen]
  have hne : cardinality dims ≠ 0 := fun h => by
    rw [h] at hcount
    have := one_le_prod hls
    simp at hcount
    omega
  -- every block size divides the element count, so none wraps either
  have hcs : ∀ c ∈ suffixProducts (dimLengths dims), c < 2 ^ 63 := fun c hc =>
    lt_of_le_of_lt (Nat.le_of_dvd (one_le_prod hls) (dvd_prod_of_mem_suffixProducts hc)) (by omega)
  rw [encodeArrayText]
  dsimp only
  rw [if_neg hne, dimElemCounts_eq hpos (by omega), hcount,
    encodeArrayLoop_gridText hcs elems hbound elems.length 0 _ (Nat.zero_add _), List.drop_zero,
    ← render_grid _ hls elems hlen]
  rfl

omit hbound in
/-- The grid's block, its elements and its first path. -/
theorem grid_block : ∃ items, grid (dimLengths dims) elems = block items ∧
    itemsLeaves items = elems ∧ firstPathDims items = (dimLengths dims).map fun L => ⟨Int32.ofNat L, 1⟩ := by
  have hls := one_le_of_mem_dimLengths hpos
  obtain ⟨d, ds, rfl⟩ := List.exists_cons_of_ne_nil hdims
  have hleaves := leaves_grid hls elems hlen
  have hls' : ∀ L ∈ dimLengths ds, 1 ≤ L := fun L h => hls L (List.mem_cons_of_mem _ h)
  have hfirst := firstBlocks_grid hls' _ (hls _ (List.mem_cons_self ..)) elems
  refine ⟨(chunks (dimLengths ds).prod d.length.toInt.toNat elems).map (grid (dimLengths ds)), rfl,
    ?_, ?_⟩
  · rwa [dimLengths_cons, grid, leaves] at hleaves
  · have := congrArg (List.map fun L => (⟨Int32.ofNat L, 1⟩ : ArrayDimension)) hfirst
    rw [List.map_map] at this
    exact this

/-- The text written for an array of valid UTF-8 elements (none of them
absent) is read back as its dimensions and its element values, and
decoded into its elements, NULL exactly where the input is NULL. -/
theorem encodeArrayText_parse_round_trip (hv : ValidElements elems) :
    ∃ text, encodeArrayText (some dims) elems [] = .ok (some text) ∧
      parseUntypedTextArray text = .ok ⟨(elems.map elementValue).map Prod.fst,
        (elems.map elementValue).map Prod.snd, dims⟩ ∧
      decodeArrayText text = .ok (elems.map some) := by
  obtain ⟨items, hgrid, hleaves, hfirst⟩ := grid_block hdims hpos hlen
  have hne : elems ≠ [] := by
    have := one_le_prod (one_le_of_mem_dimLengths hpos)
    intro h
    rw [h, List.length_nil] at hlen
    omega
  have hv' : ValidElements (itemsLeaves items) := hleaves ▸ hv
  have hparse : parseUntypedTextArray (encodeTextArrayDimensions [] dims ++ render (block items)) =
      .ok ⟨(elems.map elementValue).map Prod.fst, (elems.map elementValue).map Prod.snd, dims⟩ := by
    -- the explicit dimensions are written only when a lower bound is not 1
    cases hall : dims.all (·.lowerBound = 1)
    · rw [encodeTextArrayDimensions_custom hall, ← hleaves]
      exact parseUntypedTextArray_dimensionText hdims items hv' (hleaves ▸ hne)
    · rw [encodeTextArrayDimensions, if_pos (by simpa using hall), List.nil_append,
        parseUntypedTextArray_render items hv', hleaves, if_neg hne, hfirst, dimLengths_map hpos hall]
  have hcard : cardinality dims = Int64.ofNat elems.length := by
    rw [cardinality_eq hpos hdims (by omega), hlen]
  have htoNat : (cardinality dims).toInt.toNat = elems.length := by
    rw [hcard, Int64.toInt_ofNat_of_lt hbound, Int.toNat_natCast]
  refine ⟨_, by rw [encodeArrayText_grid hdims hpos hlen hbound, hgrid], hparse, ?_⟩
  -- one slot per element, none left over
  rw [decodeArrayText_elementValues hparse hne (by rw [hcard, Int64.toInt_ofNat_of_lt hbound]; omega),
    htoNat, if_pos le_rfl, Nat.sub_self, List.replicate_zero, List.append_nil]

end RoundTrip

/-- The text "NULL" next to a NULL, under the lower bound 3: quoted, and
read back apart. -/
theorem encodeArrayText_parse_round_trip_null_text :
    ∃ text, encodeArrayText (some [⟨2, 3⟩]) [some [78, 85, 76, 76], none] [] = .ok (some text) ∧
      parseUntypedTextArray text =
        .ok ⟨[[78, 85, 76, 76], [78, 85, 76, 76]], [true, false], [⟨2, 3⟩]⟩ ∧
      decodeArrayText text = .ok [some (some [78, 85, 76, 76]), some none] := by
  have hv : ValidElements [some [78, 85, 76, 76], none] := by
    intro t ht
    simp only [List.mem_cons, Option.some.injEq, reduceCtorEq, List.not_mem_nil, or_false] at ht
    subst ht
    exact ⟨['N', 'U', 'L', 'L'], rfl⟩
  exact encodeArrayText_parse_round_trip (by decide) (by decide) (by decide) (by decide) hv

/-- The byte 0xFF starts no UTF-8 sequence: the element is written as it
is and read back as U+FFFD. -/
theorem encodeArrayText_parse_invalid_utf8 :
    encodeArrayText (some [⟨1, 1⟩]) [some [255]] [] = .ok (some [123, 255, 125]) ∧
    parseUntypedTextArray [123, 255, 125] = .ok ⟨[[239, 191, 189]], [false], [⟨1, 1⟩]⟩ := by
  have hr : readRune [255, 125] = some (0xFFFD, [125]) := rfl
  have hvalue : arrayParseValue [255, 125] = .ok (([239, 191, 189], false), [125]) := by
    rw [arrayParseValue, hr]
    dsimp only
    rw [if_neg (by decide), arrayParseUnquoted_of_readRune hr, if_neg (by decide),
      show writeRune 0xFFFD = [239, 191, 189] from rfl,
      arrayParseUnquoted_of_readRune (readRune_ascii (b := 125) (by decide) _), if_pos (by decide)]
    rfl
  have hopen : arrayOpenLoop [⟨0, 1⟩] [255, 125] = .ok ([⟨0, 1⟩], [255, 125]) := by
    rw [arrayOpenLoop_of_readRune hr, if_neg (by decide)]
  have hscan : arrayScanLoop ⟨0, 0, [⟨0, 1⟩], [], []⟩ [255, 125] =
      .ok (⟨-1, -1, [⟨1, 1⟩], [[239, 191, 189]], [false]⟩, []) := by
    rw [arrayScanLoop_value hr (by decide) (by decide) (by decide) hvalue, arrayScanNext,
      if_neg (by decide), arrayScanLoop_close (readRune_ascii (b := 125) (by decide) _),
      arrayScanNext, if_pos (by decide)]
    rfl
  refine ⟨by decide, ?_⟩
  rw [parseUntypedTextArray, skipWhitespace_of_not_space (c := 123) (by decide) (by decide),
    readRune_ascii (b := 123) (by decide)]
  simp only [explicitDimensions, bind, Except.bind]
  rw [if_neg (by decide)]
  simp only [pure, Except.pure, ne_eq, not_true_eq_false, if_false, hopen, List.length_singleton,
    Nat.cast_one, sub_self, hscan, skipWhitespace_nil]
  rw [if_neg (by decide), if_neg (List.cons_ne_nil _ _)]

end GaussdbGo.Gaussdbtype
