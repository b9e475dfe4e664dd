import GaussdbGo.Gaussdbtype.Composite

/-!
# gaussdbtype — composite builders are undone by the scanners

`CompositeTextBuilder` writes each field, quoted by
`quoteCompositeFieldIfNeeded` or bare, followed by a comma, and `Finish`
turns the last comma into `)`; `CompositeBinaryBuilder` writes the OID, the
length and the bytes of each field after a field count. Reading the result
back with the matching scanner gives the fields again, in order, NULL exactly
where they were NULL.

The binary length is read back as an `int32`: a field of `2^31` bytes or
more comes back as something else (`compositeBinary_huge_field_read_as_null`),
so the round trip holds for fields shorter than that.

Each direction is proved one field at a time (`next_field`,
`next_fieldBinary`), then by induction on the fields for the whole
`for scanner.Next()` loop.
-/

namespace GaussdbGo.Gaussdbtype

open GoStd GoStd.BigEndian GaussdbGo.Proto

/-! ## Text: what the builder writes -/

/-- What `AppendValue` writes for a field before its comma. -/
def fieldText : Option Bytes → Bytes
  | none => []
  | some t => quoteCompositeFieldIfNeeded t

theorem foldl_appendValue_buf :
    ∀ (fields : List (Option Bytes)) (b : CompositeTextBuilder),
      (fields.foldl CompositeTextBuilder.appendValue b).buf =
        b.buf ++ fields.flatMap (fun f => fieldText f ++ [','.toUInt8])
  | [], b => by simp
  | f :: fields, b => by
    rw [List.foldl_cons, foldl_appendValue_buf fields, List.flatMap_cons]
    cases f <;> simp [CompositeTextBuilder.appendValue, fieldText]

theorem set_last {α : Type} (l : List α) (a b : α) : (l ++ [a]).set ((l ++ [a]).length - 1) b = l ++ [b] := by
  simp

/-- A row of one or more fields: `(`, each field but the last with its
comma, the last field, `)`. -/
theorem buildCompositeText_snoc (fs : List (Option Bytes)) (g : Option Bytes) :
    buildCompositeText (fs ++ [g]) =
      '('.toUInt8 :: (fs.flatMap (fun f => fieldText f ++ [','.toUInt8]) ++ fieldText g) ++
        [')'.toUInt8] := by
  have hbuf := foldl_appendValue_buf (fs ++ [g]) (newCompositeTextBuilder [])
  rw [List.flatMap_append, List.flatMap_singleton] at hbuf
  have hpre : (newCompositeTextBuilder []).buf ++
      (fs.flatMap (fun f => fieldText f ++ [','.toUInt8]) ++ (fieldText g ++ [','.toUInt8])) =
      ('('.toUInt8 :: (fs.flatMap (fun f => fieldText f ++ [','.toUInt8]) ++ fieldText g)) ++
        [','.toUInt8] := by
    simp [newCompositeTextBuilder]
  -- `Finish` overwrites the last comma
  rw [buildCompositeText, CompositeTextBuilder.finish, hbuf, hpre, set_last]

/-! ## Text: the scanner's loops over what the builder wrote -/

section TextLoops

variable {len : Nat}

theorem quoteCompositeReplace_cons (b : UInt8) (t : Bytes) :
    quoteCompositeReplace (b :: t) =
      (if b = '\\'.toUInt8 then ['\\'.toUInt8, '\\'.toUInt8]
        else if b = '"'.toUInt8 then ['\\'.toUInt8, '"'.toUInt8] else [b]) ++
        quoteCompositeReplace t := by
  simp [quoteCompositeReplace]

/-- The quoted-value loop undoes `quoteCompositeReplacer` up to the closing
quote. -/
theorem scanQuoted_replace {d : UInt8} {rest : Bytes} (hd : d ≠ '"'.toUInt8) :
    ∀ (t : Bytes) (rp : Nat) (acc : Bytes),
      scanQuoted len rp (quoteCompositeReplace t ++ '"'.toUInt8 :: d :: rest) acc =
        .ok (acc ++ t, rp + (quoteCompositeReplace t).length + 1)
  | [], rp, acc => by
    simp only [quoteCompositeReplace, List.flatMap_nil, List.nil_append, List.append_nil,
      List.length_nil, Nat.add_zero]
    exact scanQuoted_close hd
  | b :: t, rp, acc => by
    rw [quoteCompositeReplace_cons]
    by_cases hb : b = '\\'.toUInt8
    · -- an escaped backslash
      subst hb
      rw [if_pos rfl]
      simp only [List.cons_append, List.nil_append]
      rw [scanQuoted_escape, scanQuoted_replace hd t]
      simp only [List.length_cons, List.append_assoc, List.singleton_append]
      congr 2
      omega
    by_cases hq : b = '"'.toUInt8
    · -- an escaped double quote
      subst hq
      rw [if_neg hb, if_pos rfl]
      simp only [List.cons_append, List.nil_append]
      rw [scanQuoted_escape, scanQuoted_replace hd t]
      simp only [List.length_cons, List.append_assoc, List.singleton_append]
      congr 2
      omega
    · rw [if_neg hb, if_neg hq]
      simp only [List.cons_append, List.nil_append]
      rw [scanQuoted_cons hq hb, scanQuoted_replace hd t]
      simp only [List.length_cons, List.append_assoc, List.singleton_append]
      congr 2
      omega

/-- The unquoted-value loop stops at the first `,` or `)`. -/
theorem scanUnquoted_plain {d : UInt8} {rest : Bytes} (hd : d = ','.toUInt8 ∨ d = ')'.toUInt8) :
    ∀ (l : Bytes) (rp : Nat), (∀ c ∈ l, ¬(c = ','.toUInt8 ∨ c = ')'.toUInt8)) →
      scanUnquoted len rp (l ++ d :: rest) = .ok (rp + l.length)
  | [], rp, _ => by simp [scanUnquoted, hd]
  | c :: l, rp, hl => by
    rw [List.cons_append, scanUnquoted, if_neg (hl c (List.mem_cons_self ..)),
      scanUnquoted_plain hd l (rp + 1) (fun c hc => hl c (List.mem_cons_of_mem _ hc))]
    simp only [List.length_cons]
    rw [Nat.add_assoc, Nat.add_comm 1]

end TextLoops

/-- A field that `quoteCompositeFieldIfNeeded` leaves bare is non-empty and
holds none of `(),"\`. -/
theorem bare_of_not_quoted {t : Bytes}
    (h : ¬(t = [] ∨ t.head? = some ' '.toUInt8 ∨ t.getLast? = some ' '.toUInt8 ∨
      t.any (· ∈ compositeSpecials))) :
    t ≠ [] ∧ ∀ c ∈ t, c ∉ compositeSpecials := by
  simp only [not_or, List.any_eq_true, not_exists, not_and, decide_eq_true_eq] at h
  exact ⟨h.1, fun c hc => h.2.2.2 c hc⟩

/-- One field and the delimiter after it are read back. -/
theorem next_field {s : CompositeTextScanner} {f : Option Bytes} {d : UInt8} {rest : Bytes}
    (herr : s.err = none) (hd : s.src.drop s.rp = fieldText f ++ d :: rest)
    (hdelim : d = ','.toUInt8 ∨ d = ')'.toUInt8) :
    s.next = .ok (true, { s with rp := s.rp + (fieldText f).length + 1, fieldBytes := f }) := by
  have hdq : d ≠ '"'.toUInt8 := by rcases hdelim with rfl | rfl <;> decide
  cases f with
  | none => exact next_null herr hd hdelim
  | some t =>
    simp only [fieldText, quoteCompositeFieldIfNeeded] at hd ⊢
    split at hd
    · -- quoted: the quoted-value loop reads up to the closing quote
      rename_i hquote
      rw [if_pos hquote]
      simp only [quoteCompositeField, List.cons_append, List.append_assoc, List.nil_append] at hd
      rw [next_quoted herr hd, scanQuoted_replace hdq, ok_bind]
      simp only [quoteCompositeField, List.length_cons, List.length_append, List.length_nil,
        List.nil_append]
      congr 3
      omega
    · -- bare: the unquoted-value loop stops at the delimiter
      rename_i hquote
      rw [if_neg hquote]
      obtain ⟨hne, hplain⟩ := bare_of_not_quoted hquote
      have hstop : ∀ c ∈ t, ¬(c = ','.toUInt8 ∨ c = ')'.toUInt8) := by
        intro c hc hcd
        apply hplain c hc
        rcases hcd with rfl | rfl <;> decide
      obtain ⟨c, t', rfl⟩ := List.exists_cons_of_ne_nil hne
      have hc : c ∉ compositeSpecials := hplain c (List.mem_cons_self ..)
      have hcq : c ≠ '"'.toUInt8 := fun h => hc (h ▸ by decide)
      rw [List.cons_append] at hd
      rw [next_unquoted herr hd (hstop c (List.mem_cons_self ..)) hcq, ← List.cons_append,
        scanUnquoted_plain hdelim _ _ hstop, ok_bind]
      have hslice := slice_of_le (ε := Empty) s.src (show s.rp ≤ s.rp + (c :: t').length by omega)
        (by
          have := congrArg List.length hd
          simp only [List.length_drop, List.length_append, List.length_cons] at this
          simp only [List.length_cons]
          omega)
      rw [hslice, Nat.add_sub_cancel_left, hd, ← List.cons_append, List.take_left, ok_bind]
      rfl

/-- Every field of a row, read by `for scanner.Next()` from the scanner at
the first of them, comes back; the last `Next` stops at the end without an
error. -/
theorem forNext_text {g : Option Bytes} :
    ∀ {fs : List (Option Bytes)} {s : CompositeTextScanner} {fuel : Nat}, s.err = none →
      s.src.drop s.rp = fs.flatMap (fun f => fieldText f ++ [','.toUInt8]) ++ fieldText g ++
        [')'.toUInt8] →
      fs.length + 1 < fuel →
      ∃ t, forNext CompositeTextScanner.next (·.fieldBytes) fuel s = .ok (fs ++ [g], t) ∧
        t.err = none
  | [], s, fuel, herr, hd, hfuel => by
    obtain ⟨k, rfl⟩ : ∃ k, fuel = k + 1 + 1 := ⟨fuel - 2, by simp at hfuel; omega⟩
    have hd₁ : s.src.drop s.rp = fieldText g ++ ')'.toUInt8 :: [] := by rw [hd]; simp
    have hnext := next_field herr hd₁ (Or.inr rfl)
    -- the `)` was the source's last byte
    have hend : s.rp + (fieldText g).length + 1 = s.src.length := by
      have := congrArg List.length hd₁
      simp only [List.length_drop, List.length_append, List.length_singleton] at this
      omega
    have hdone : ({ s with rp := s.rp + (fieldText g).length + 1, fieldBytes := g } :
        CompositeTextScanner).next =
        .ok (false, { s with rp := s.rp + (fieldText g).length + 1, fieldBytes := g }) := by
      simp [CompositeTextScanner.next, herr, hend]
    exact ⟨_, forNext_more hnext (forNext_done hdone k), herr⟩
  | f :: fs, s, fuel, herr, hd, hfuel => by
    obtain ⟨k, rfl⟩ : ∃ k, fuel = k + 1 := ⟨fuel - 1, by simp at hfuel; omega⟩
    have hd₁ : s.src.drop s.rp = (fieldText f ++ [','.toUInt8]) ++
        (fs.flatMap (fun f => fieldText f ++ [','.toUInt8]) ++ fieldText g ++ [')'.toUInt8]) := by
      rw [hd, List.flatMap_cons]
      simp only [List.append_assoc]
    have hd₂ : s.src.drop s.rp = fieldText f ++ ','.toUInt8 ::
        (fs.flatMap (fun f => fieldText f ++ [','.toUInt8]) ++ fieldText g ++ [')'.toUInt8]) := by
      rw [hd₁]
      simp
    have hnext := next_field herr hd₂ (Or.inl rfl)
    -- the next field starts after the comma
    have hd' : s.src.drop (s.rp + (fieldText f).length + 1) =
        fs.flatMap (fun f => fieldText f ++ [','.toUInt8]) ++ fieldText g ++ [')'.toUInt8] := by
      rw [Nat.add_assoc, ← List.drop_drop, hd₁, List.drop_left' (by simp)]
    obtain ⟨t, hrun, ht⟩ := @forNext_text g fs
      { s with rp := s.rp + (fieldText f).length + 1, fieldBytes := f } k
      herr hd' (by simp at hfuel; omega)
    exact ⟨t, forNext_more hnext hrun, ht⟩

/-- `CompositeTextScanner` over `CompositeTextBuilder`'s row of one or more
fields returns those fields, in order, NULL exactly where they were NULL,
with no error, once `Next` may be called one time more than there are
fields. -/
theorem compositeText_scanned_back (fields : List (Option Bytes)) (hne : fields ≠ [])
    (fuel : Nat) (hfuel : fields.length < fuel) :
    ∃ t, forNext CompositeTextScanner.next (·.fieldBytes) fuel
      (newCompositeTextScanner (buildCompositeText fields)) = .ok (fields, t) ∧ t.err = none := by
  obtain ⟨fs, g, rfl⟩ := (List.eq_nil_or_concat fields).resolve_left hne
  rw [List.concat_eq_append] at hfuel ⊢
  rw [buildCompositeText_snoc, newCompositeTextScanner_eq]
  exact forNext_text rfl rfl (by simpa using hfuel)

/-! ## Binary: what the builder writes -/

/-- What `AppendValue` writes for a field: the OID, the length (`-1` for
NULL) and the bytes. -/
def fieldBinary (oid : UInt32) : Option Bytes → Bytes
  | none => putUint32 oid ++ putUint32 (-1 : Int32).toUInt32
  | some v => putUint32 oid ++ putUint32 (UInt32.ofNat v.length) ++ v

theorem appendValue_binary (b : CompositeBinaryBuilder) (oid : UInt32) (f : Option Bytes) :
    b.appendValue oid f = ⟨b.buf ++ fieldBinary oid f, b.startIdx, b.fieldCount + 1⟩ := by
  cases f with
  | none => simp [CompositeBinaryBuilder.appendValue, fieldBinary, appendInt32, appendUint32]
  | some v =>
    -- the `-1` placeholder is patched with the number of bytes the plan appended
    have hpatch := setInt32_placeholder (b.buf ++ putUint32 oid) v (-1 : Int32).toUInt32
      (Int32.ofNat v.length)
    have hlen : (b.buf ++ putUint32 oid ++ putUint32 (-1 : Int32).toUInt32 ++ v).length -
        (b.buf ++ putUint32 oid ++ putUint32 (-1 : Int32).toUInt32).length = v.length := by
      simp
      omega
    simp only [CompositeBinaryBuilder.appendValue, appendInt32, appendUint32]
    rw [hlen, hpatch, toUInt32_ofNat]
    simp [fieldBinary]

theorem foldl_appendValue_binary :
    ∀ (fields : List (UInt32 × Option Bytes)) (b : CompositeBinaryBuilder),
      (fields.foldl (fun b f => b.appendValue f.1 f.2) b).buf =
          b.buf ++ fields.flatMap (fun f => fieldBinary f.1 f.2) ∧
        (fields.foldl (fun b f => b.appendValue f.1 f.2) b).startIdx = b.startIdx
  | [], b => by simp
  | f :: fields, b => by
    rw [List.foldl_cons, appendValue_binary]
    obtain ⟨hbuf, hidx⟩ := foldl_appendValue_binary fields ⟨b.buf ++ fieldBinary f.1 f.2, b.startIdx,
      b.fieldCount + 1⟩
    exact ⟨by rw [hbuf, List.flatMap_cons, List.append_assoc], hidx⟩

/-- A binary row: the field count, then each field. -/
theorem buildCompositeBinary_eq (fields : List (UInt32 × Option Bytes)) :
    ∃ count, buildCompositeBinary fields =
      putUint32 count ++ fields.flatMap (fun f => fieldBinary f.1 f.2) := by
  obtain ⟨hbuf, hidx⟩ := foldl_appendValue_binary fields (newCompositeBinaryBuilder [])
  rw [buildCompositeBinary, CompositeBinaryBuilder.finish]
  generalize fields.foldl (fun b f => b.appendValue f.1 f.2) (newCompositeBinaryBuilder []) = b
    at hbuf hidx ⊢
  refine ⟨b.fieldCount.toInt32.toUInt32, ?_⟩
  -- `Finish` patches the four zero bytes `NewCompositeBinaryBuilder` reserved
  have hput := setInt32_placeholder [] (fields.flatMap (fun f => fieldBinary f.1 f.2)) 0
    b.fieldCount.toInt32
  simp only [List.nil_append, List.length_nil] at hput
  rw [hbuf, hidx]
  exact hput

/-! ## Binary: the scanner over what the builder wrote -/

/-- One field is read back, NULL for the `-1` length, when its bytes are
fewer than `2^31`. -/
theorem next_fieldBinary {s : CompositeBinaryScanner} {oid : UInt32} {f : Option Bytes}
    {rest : Bytes} (herr : s.err = none) (hd : s.src.drop s.rp = fieldBinary oid f ++ rest)
    (hlen : ∀ v, f = some v → v.length < 2 ^ 31) :
    s.next = .ok (true,
      { s with fieldOID := oid, rp := s.rp + (fieldBinary oid f).length, fieldBytes := f }) := by
  cases f with
  | none =>
    rw [CompositeBinaryScanner.next_header herr hd]
    simp only [ofBytes32_putUint32]
    have hneg : ¬ 0 ≤ ((-1 : Int32).toUInt32).toInt32.toInt := by decide
    rw [if_neg hneg]
    rfl
  | some v =>
    have hv : v.length < 2 ^ 31 := hlen v rfl
    have hd' : s.src.drop s.rp = putUint32 oid ++ putUint32 (UInt32.ofNat v.length) ++ (v ++ rest) := by
      rw [hd, fieldBinary, List.append_assoc]
    rw [CompositeBinaryScanner.next_header herr hd']
    simp only [ofBytes32_putUint32, toInt_toInt32_ofNat hv]
    have hfit : ¬ (((v ++ rest).length : Nat) : Int) < (v.length : Int) := by
      rw [List.length_append]
      omega
    rw [if_pos (Int.natCast_nonneg _), if_neg hfit]
    simp only [Int.toNat_natCast, List.take_left', fieldBinary, List.length_append, length_putUint32]
    congr 3
    omega

/-- Every field of a binary row, read by `for scanner.Next()` from the
scanner at the first of them, comes back with its OID; the last `Next`
stops at the end without an error. -/
theorem forNext_binary :
    ∀ {fields : List (UInt32 × Option Bytes)} {s : CompositeBinaryScanner} {fuel : Nat},
      s.err = none → s.rp ≤ s.src.length →
      s.src.drop s.rp = fields.flatMap (fun f => fieldBinary f.1 f.2) →
      (∀ f ∈ fields, ∀ v, f.2 = some v → v.length < 2 ^ 31) → fields.length < fuel →
      ∃ t, forNext CompositeBinaryScanner.next (fun s => (s.fieldOID, s.fieldBytes)) fuel s =
        .ok (fields, t) ∧ t.err = none
  | [], s, fuel, herr, hle, hd, _, hfuel => by
    obtain ⟨k, rfl⟩ : ∃ k, fuel = k + 1 := ⟨fuel - 1, by simp at hfuel; omega⟩
    -- nothing is left: the scanner is at the end
    have hend : s.rp = s.src.length := by
      have := congrArg List.length hd
      simp only [List.length_drop, List.flatMap_nil, List.length_nil] at this
      omega
    have hdone : s.next = .ok (false, s) := by simp [CompositeBinaryScanner.next, hend]
    exact ⟨s, forNext_done hdone k, herr⟩
  | f :: fields, s, fuel, herr, hle, hd, hlen, hfuel => by
    obtain ⟨k, rfl⟩ : ∃ k, fuel = k + 1 := ⟨fuel - 1, by simp at hfuel; omega⟩
    rw [List.flatMap_cons] at hd
    have hnext := next_fieldBinary herr hd (hlen f (List.mem_cons_self ..))
    have hd' : s.src.drop (s.rp + (fieldBinary f.1 f.2).length) =
        fields.flatMap (fun f => fieldBinary f.1 f.2) := by
      rw [← List.drop_drop, hd, List.drop_left]
    have hle' : s.rp + (fieldBinary f.1 f.2).length ≤ s.src.length := by
      have := congrArg List.length hd
      simp only [List.length_drop, List.length_append] at this
      omega
    obtain ⟨t, hrun, ht⟩ := @forNext_binary fields
      { s with fieldOID := f.1, rp := s.rp + (fieldBinary f.1 f.2).length, fieldBytes := f.2 }
      k herr hle' hd' (fun g hg => hlen g (List.mem_cons_of_mem _ hg))
      (by simp at hfuel; omega)
    exact ⟨t, forNext_more hnext hrun, ht⟩

/-- `CompositeBinaryScanner` over `CompositeBinaryBuilder`'s row returns its
fields with their OIDs, in order, NULL exactly where they were NULL, with no
error, when every field is shorter than `2^31` bytes. -/
theorem compositeBinary_scanned_back (fields : List (UInt32 × Option Bytes))
    (hlen : ∀ f ∈ fields, ∀ v, f.2 = some v → v.length < 2 ^ 31) (fuel : Nat)
    (hfuel : fields.length < fuel) :
    ∃ t, (newCompositeBinaryScanner (buildCompositeBinary fields) >>=
      forNext CompositeBinaryScanner.next (fun s => (s.fieldOID, s.fieldBytes)) fuel) =
        .ok (fields, t) ∧ t.err = none := by
  obtain ⟨count, hbuild⟩ := buildCompositeBinary_eq fields
  have hnew : newCompositeBinaryScanner (buildCompositeBinary fields) =
      .ok ⟨4, buildCompositeBinary fields, count.toInt32, none, 0, none⟩ := by
    have hfour : ¬ (buildCompositeBinary fields).length < 4 := by simp [hbuild]
    rw [newCompositeBinaryScanner, if_neg hfour, hbuild, uint32_putUint32]
    rfl
  rw [hnew, ok_bind]
  refine forNext_binary rfl ?_ ?_ hlen hfuel
  · show 4 ≤ (buildCompositeBinary fields).length
    simp [hbuild]
  · show (buildCompositeBinary fields).drop 4 = _
    rw [hbuild, List.drop_left' (length_putUint32 count)]

theorem composite_builders_scanned_back (fields : List (UInt32 × Option Bytes))
    (hne : fields ≠ []) (fuel : Nat) (hfuel : fields.length < fuel) :
    (∃ t, forNext CompositeTextScanner.next (·.fieldBytes) fuel
        (newCompositeTextScanner (buildCompositeText (fields.map Prod.snd))) =
          .ok (fields.map Prod.snd, t) ∧ t.err = none) ∧
      ((∀ f ∈ fields, ∀ v, f.2 = some v → v.length < 2 ^ 31) →
        ∃ t, (newCompositeBinaryScanner (buildCompositeBinary fields) >>=
          forNext CompositeBinaryScanner.next (fun s => (s.fieldOID, s.fieldBytes)) fuel) =
            .ok (fields, t) ∧ t.err = none) :=
  ⟨compositeText_scanned_back _ (by simpa using hne) fuel (by simpa using hfuel),
    fun hlen => compositeBinary_scanned_back fields hlen fuel hfuel⟩

/-- A row of a text field with a comma in it, a NULL and an empty field. -/
theorem composite_builders_scanned_back_row :
    [((25 : UInt32), some ([97, 44, 98] : Bytes)), (25, none), (25, some [])] ≠ [] ∧
      (∀ f ∈ [((25 : UInt32), some ([97, 44, 98] : Bytes)), (25, none), (25, some [])],
        ∀ v, f.2 = some v → v.length < 2 ^ 31) ∧
      [((25 : UInt32), some ([97, 44, 98] : Bytes)), (25, none), (25, some [])].length < 4 ∧
      (∃ t, forNext CompositeTextScanner.next (·.fieldBytes) 4
          (newCompositeTextScanner (buildCompositeText [some [97, 44, 98], none, some []])) =
            .ok ([some [97, 44, 98], none, some []], t) ∧ t.err = none) ∧
      (∃ t, (newCompositeBinaryScanner
          (buildCompositeBinary [(25, some [97, 44, 98]), (25, none), (25, some [])]) >>=
        forNext CompositeBinaryScanner.next (fun s => (s.fieldOID, s.fieldBytes)) 4) =
          .ok ([(25, some [97, 44, 98]), (25, none), (25, some [])], t) ∧ t.err = none) := by
  have hlen : ∀ f ∈ [((25 : UInt32), some ([97, 44, 98] : Bytes)), (25, none), (25, some [])],
      ∀ v, f.2 = some v → v.length < 2 ^ 31 := by
    intro f hf v hv
    simp only [List.mem_cons, List.not_mem_nil, or_false] at hf
    rcases hf with rfl | rfl | rfl <;> cases hv <;> decide
  obtain ⟨htext, hbinary⟩ := composite_builders_scanned_back
    [((25 : UInt32), some ([97, 44, 98] : Bytes)), (25, none), (25, some [])] (by decide) 4 (by decide)
  exact ⟨by decide, hlen, by decide, htext, hbinary hlen⟩

/-- A field of `2^31` bytes has a length whose `int32` is negative: the
scanner reads it as NULL, and would go on to read its bytes as fields. -/
theorem compositeBinary_huge_field_read_as_null :
    ∃ s t, newCompositeBinaryScanner
        (buildCompositeBinary [(0, some (List.replicate (2 ^ 31) 0))]) = .ok s ∧
      s.next = .ok (true, t) ∧ t.fieldBytes = none := by
  obtain ⟨count, hbuild⟩ := buildCompositeBinary_eq [(0, some (List.replicate (2 ^ 31) 0))]
  simp only [List.flatMap_cons, List.flatMap_nil, List.append_nil, fieldBinary,
    List.length_replicate] at hbuild
  generalize buildCompositeBinary [(0, some (List.replicate (2 ^ 31) 0))] = src at hbuild ⊢
  have hfour : ¬ src.length < 4 := by
    rw [hbuild]
    simp only [List.length_append, length_putUint32]
    omega
  refine ⟨⟨4, src, count.toInt32, none, 0, none⟩, ?_⟩
  have hd : src.drop 4 =
      putUint32 0 ++ putUint32 (UInt32.ofNat (2 ^ 31)) ++ List.replicate (2 ^ 31) 0 := by
    rw [hbuild, List.drop_left' (length_putUint32 count)]
  -- the length field reads back as `-2^31`
  have hnext := CompositeBinaryScanner.next_header (s := ⟨4, src, count.toInt32, none, 0, none⟩)
    rfl hd
  simp only [ofBytes32_putUint32] at hnext
  have hneg : ¬ 0 ≤ (UInt32.ofNat (2 ^ 31)).toInt32.toInt := by decide
  rw [if_neg hneg] at hnext
  refine ⟨_, ?_, hnext, rfl⟩
  rw [newCompositeBinaryScanner, if_neg hfour, hbuild, uint32_putUint32]
  rfl

end GaussdbGo.Gaussdbtype
