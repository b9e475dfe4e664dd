import GaussdbGo.Gaussdbtype.Range

/-!
# gaussdbtype — multiranges in text

A multirange travels in text as `{`, its ranges' texts joined by `,`, and `}`.
The parser hands each range to `parseRange`, which reads up to the second `,`
or the first `}`: the first `,` of a range is its bound separator and belongs
to it. So the text is split by its commas and the pieces are paired, the
pieces that start after a separator read alone, and a range whose text holds
no `,` (`empty`) takes the next range with it.
-/

namespace GaussdbGo.Gaussdbtype

open GoStd GaussdbGo.Proto

/-! ## Encoding -/

/-- The error of the multirange encoder. -/
inductive MultirangeEncodeError where
  /-- `multirange cannot contain NULL element` -/
  | nullElement
  deriving DecidableEq, Repr

/-- The loop of `encodePlanMultirangeCodecText.Encode` from element `i` on:
a `,` before every element but the first, then the element's text. An element
is what its encode plan wrote, `none` for a nil element or encoding. -/
def encodeMultirangeLoop (i : Nat) (buf : Bytes) :
    List (Option Bytes) → Except MultirangeEncodeError Bytes
  | [] => .ok buf
  | elem :: elems =>
    let buf := if i > 0 then buf ++ [44] else buf
    match elem with
    | none => .error .nullElement
    | some elemBuf => encodeMultirangeLoop (i + 1) (buf ++ elemBuf) elems

/-- `encodePlanMultirangeCodecText.Encode` of a non-NULL multirange. -/
def encodeMultirangeText (elems : List (Option Bytes)) (buf : Bytes) :
    Except MultirangeEncodeError Bytes :=
  match encodeMultirangeLoop 0 (buf ++ [123]) elems with
  | .error e => .error e
  | .ok buf => .ok (buf ++ [125])

/-! ## Parsing -/

/-- The errors of `parseUntypedTextMultirange`; the reads that fail end at
`io.EOF`. -/
inductive MultirangeError where
  /-- `invalid array: EOF` -/
  | invalidArray
  /-- `invalid multirange, expected '{' got %v` -/
  | expectedBrace (r : Nat)
  /-- `invalid multirange: EOF` -/
  | invalidMultirange
  /-- `invalid multirange value: EOF` -/
  | invalidMultirangeValue
  /-- `unexpected trailing data: %v` -/
  | unexpectedTrailingData (rest : Bytes)
  deriving DecidableEq, Repr

-- `h` names the read for the termination proof only
set_option linter.unusedVariables false in
/-- `parseRange(buf)`: the runes up to a `}` or to a `,` read after
`boundSepRead`, which is left unread; the first `,` sets `boundSepRead` and is
written, as the `break` leaves the `switch` and not the loop. `none` where the
text ends first. -/
def parseRange (boundSepRead : Bool) (out s : Bytes) : Option (Bytes × Bytes) :=
  match h : readRune s with
  | none => none
  | some (r, s₁) =>
    if r = 44 ∨ r = 125 then
      if r = 44 ∧ !boundSepRead then parseRange true (out ++ writeRune r) s₁
      else some (out, s)
    else parseRange boundSepRead (out ++ writeRune r) s₁
termination_by s.length
decreasing_by
  all_goals exact length_lt_of_readRune h

/-- What `parseRange` leaves unread is part of what it was given. -/
theorem length_le_of_parseRange {b : Bool} {out s v s' : Bytes} (h : parseRange b out s = some (v, s')) :
    s'.length ≤ s.length := by
  fun_induction parseRange b out s with
  | case1 => cases h
  | case2 _ _ _ _ _ hr _ _ ih | case4 _ _ _ _ _ hr _ ih =>
    exact Nat.le_of_lt (Nat.lt_of_le_of_lt (ih h) (length_lt_of_readRune hr))
  | case3 =>
    cases h
    exact Nat.le_refl _

/-- A range read from a rune that is neither `,` nor `}` consumes that rune. -/
theorem length_lt_of_parseRange {b : Bool} {out s s₁ v s₂ : Bytes} {r : Nat}
    (hr : readRune s = some (r, s₁)) (h44 : ¬ r = 44) (h125 : ¬ r = 125)
    (h : parseRange b out s = some (v, s₂)) : s₂.length < s.length := by
  rw [parseRange] at h
  split at h
  · cases h
  · rename_i r' s₁' hr'
    rw [hr] at hr'
    cases hr'
    rw [if_neg (by omega)] at h
    exact Nat.lt_of_le_of_lt (length_le_of_parseRange h) (length_lt_of_readRune hr)

-- `h` names the reads for the termination proof only
set_option linter.unusedVariables false in
/-- The `parseValueLoop` of `parseUntypedTextMultirange`: a `,` is skipped, a
`}` ends the loop, and any other rune is put back and a range read from it. -/
def multirangeLoop (elements : List Bytes) (s : Bytes) :
    Except MultirangeError (List Bytes × Bytes) :=
  match h : readRune s with
  | none => .error .invalidMultirange
  | some (r, s₁) =>
    if h44 : r = 44 then multirangeLoop elements s₁
    else if h125 : r = 125 then .ok (elements, s₁)
    else
      match h₂ : parseRange false [] s with
      | none => .error .invalidMultirangeValue
      | some (value, s₂) => multirangeLoop (elements ++ [value]) s₂
termination_by s.length
decreasing_by
  · exact length_lt_of_readRune h
  · exact length_lt_of_parseRange h h44 h125 h₂

/-- `parseUntypedTextMultirange(src)`: the range texts between `{` and `}`. -/
def parseUntypedTextMultirange (src : Bytes) : Except MultirangeError (List Bytes) :=
  match readRune (skipWhitespace src) with
  | none => .error .invalidArray
  | some (r, s) =>
    if r ≠ 123 then .error (.expectedBrace r) else
    match multirangeLoop [] s with
    | .error e => .error e
    | .ok (elements, s) =>
      if skipWhitespace s ≠ [] then .error (.unexpectedTrailingData (skipWhitespace s))
      else .ok elements

/-! ## What the parser reads -/

/-- The ranges `parseUntypedTextMultirange` reads from the comma-separated
pieces of a multirange's text: an empty piece is a `,` skipped between ranges,
and a piece takes the next one with it, joined by the `,` between them. -/
def pairUp : List Bytes → List Bytes
  | [] => []
  | [] :: ps => pairUp ps
  | [p] => [p]
  | p :: q :: ps => (p ++ 44 :: q) :: pairUp ps

/-- A byte of a piece: ASCII, and neither `,` nor `}`. -/
def PieceByte (b : UInt8) : Prop := b.toNat < 0x80 ∧ b.toNat ≠ 44 ∧ b.toNat ≠ 125

instance : DecidablePred PieceByte := fun _ => inferInstanceAs (Decidable (_ ∧ _))

theorem parseRange_cons_piece {c : UInt8} (hc : PieceByte c) (b : Bool) (out rest : Bytes) :
    parseRange b out (c :: rest) = parseRange b (out ++ [c]) rest := by
  obtain ⟨hlt, h44, h125⟩ := hc
  rw [parseRange]
  split
  · rename_i h; rw [readRune_ascii hlt] at h; cases h
  · rename_i r s h
    rw [readRune_ascii hlt] at h
    cases h
    rw [if_neg (by omega), writeRune_toNat hlt]

theorem parseRange_append {t : Bytes} (ht : ∀ c ∈ t, PieceByte c) (b : Bool) (out rest : Bytes) :
    parseRange b out (t ++ rest) = parseRange b (out ++ t) rest := by
  induction t generalizing out with
  | nil => rw [List.nil_append, List.append_nil]
  | cons c t ih =>
    rw [List.cons_append, parseRange_cons_piece (ht c (by simp)),
      ih (fun d hd => ht d (by simp [hd])), List.append_assoc, List.singleton_append]

/-- The first `,` is the bound separator, and is kept. -/
theorem parseRange_sep (out rest : Bytes) :
    parseRange false out (44 :: rest) = parseRange true (out ++ [44]) rest := by
  rw [parseRange]
  split
  · rename_i h; rw [readRune_ascii (by decide)] at h; cases h
  · rename_i r s h
    rw [readRune_ascii (by decide)] at h
    cases h
    rw [if_pos (by decide), if_pos (by decide)]
    rfl

/-- A `,` after the separator, or a `}`, ends the range and is left unread. -/
theorem parseRange_stop {c : UInt8} (hc : c = 125 ∨ c = 44) {b : Bool} (hb : c = 44 → b = true)
    (out rest : Bytes) : parseRange b out (c :: rest) = some (out, c :: rest) := by
  have hlt : c.toNat < 0x80 := by rcases hc with rfl | rfl <;> decide
  rw [parseRange]
  split
  · rename_i h; rw [readRune_ascii hlt] at h; cases h
  · rename_i r s h
    rw [readRune_ascii hlt] at h
    cases h
    rcases hc with rfl | rfl
    · rw [if_pos (by decide), if_neg (fun h => absurd h.1 (by decide))]
    · rw [if_pos (by decide), hb rfl, if_neg (by decide)]

/-- A `,` between ranges is skipped. -/
theorem multirangeLoop_comma (elements : List Bytes) (rest : Bytes) :
    multirangeLoop elements (44 :: rest) = multirangeLoop elements rest := by
  rw [multirangeLoop]
  split
  · rename_i h; rw [readRune_ascii (by decide)] at h; cases h
  · rename_i r s h
    rw [readRune_ascii (by decide)] at h
    cases h
    rw [dif_pos (by decide)]

/-- A `}` ends the ranges. -/
theorem multirangeLoop_close (elements : List Bytes) (rest : Bytes) :
    multirangeLoop elements (125 :: rest) = .ok (elements, rest) := by
  rw [multirangeLoop]
  split
  · rename_i h; rw [readRune_ascii (by decide)] at h; cases h
  · rename_i r s h
    rw [readRune_ascii (by decide)] at h
    cases h
    rw [dif_neg (by decide), dif_pos (by decide)]

/-- Any other rune starts a range, read from that rune on. -/
theorem multirangeLoop_range {c : UInt8} (hc : PieceByte c) {rest value s₂ : Bytes}
    (h : parseRange false [] (c :: rest) = some (value, s₂)) (elements : List Bytes) :
    multirangeLoop elements (c :: rest) = multirangeLoop (elements ++ [value]) s₂ := by
  obtain ⟨hlt, h44, h125⟩ := hc
  rw [multirangeLoop]
  split
  · rename_i h; rw [readRune_ascii hlt] at h; cases h
  · rename_i r s hr
    rw [readRune_ascii hlt] at hr
    cases hr
    rw [dif_neg h44, dif_neg h125]
    split
    · rename_i h'; rw [h] at h'; cases h'
    · rename_i h'; rw [h] at h'; cases h'; rfl

/-- A range read from a piece: the piece, the `,` after it and the next piece,
up to a `}` or the `,` after that. -/
theorem parseRange_pair {p q : Bytes} (hp : ∀ c ∈ p, PieceByte c) (hq : ∀ c ∈ q, PieceByte c)
    {c : UInt8} (hc : c = 125 ∨ c = 44) (rest : Bytes) :
    parseRange false [] (p ++ 44 :: (q ++ c :: rest)) = some (p ++ 44 :: q, c :: rest) := by
  rw [parseRange_append hp, List.nil_append, parseRange_sep, parseRange_append hq,
    parseRange_stop hc (fun _ => rfl), List.append_assoc, List.singleton_append]

/-- The last piece, up to the `}`, read as a range of its own. -/
theorem parseRange_last {p : Bytes} (hp : ∀ c ∈ p, PieceByte c) (rest : Bytes) :
    parseRange false [] (p ++ 125 :: rest) = some (p, 125 :: rest) := by
  rw [parseRange_append hp, List.nil_append, parseRange_stop (Or.inl rfl) nofun]

/-- The loop reads a range from a nonempty piece. -/
theorem multirangeLoop_piece {p : Bytes} (hne : p ≠ []) (hp : ∀ c ∈ p, PieceByte c)
    {rest value s₂ : Bytes} (h : parseRange false [] (p ++ rest) = some (value, s₂))
    (elements : List Bytes) :
    multirangeLoop elements (p ++ rest) = multirangeLoop (elements ++ [value]) s₂ := by
  obtain ⟨c, p, rfl⟩ := List.exists_cons_of_ne_nil hne
  exact multirangeLoop_range (hp c (by simp)) h elements

/-- The loop over the pieces of a multirange's text, up to its `}`, gives the
pieces paired up. -/
theorem multirangeLoop_intercalate (ps : List Bytes) (hps : ∀ p ∈ ps, ∀ c ∈ p, PieceByte c)
    (elements : List Bytes) (rest : Bytes) :
    multirangeLoop elements ([44].intercalate ps ++ 125 :: rest) =
      .ok (elements ++ pairUp ps, rest) := by
  -- the induction follows `pairUp`: the cases are the pieces the loop meets
  induction ps using pairUp.induct generalizing elements with
  | case1 => rw [List.intercalate_nil, List.nil_append, multirangeLoop_close, pairUp, List.append_nil]
  | case2 ps ih =>
    -- an empty piece: the `,` after it, if any, is skipped
    cases ps with
    | nil => rw [List.intercalate_singleton, List.nil_append, multirangeLoop_close, pairUp, pairUp,
        List.append_nil]
    | cons q ps =>
      rw [List.intercalate_cons_cons, List.nil_append, List.append_assoc, List.singleton_append,
        multirangeLoop_comma, ih (fun p hp => hps p (by simp [hp])), pairUp]
  | case3 p hne =>
    have hp := hps p (by simp)
    rw [List.intercalate_singleton, multirangeLoop_piece hne hp (parseRange_last hp rest),
      multirangeLoop_close, pairUp.eq_3 p hne]
  | case4 p q ps hne ih =>
    have hp := hps p (by simp)
    have hq := hps q (by simp)
    rw [List.intercalate_cons_cons, pairUp.eq_4 p q ps hne]
    cases ps with
    | nil =>
      -- two last pieces, read as one range up to the `}`
      rw [List.intercalate_singleton, List.append_assoc, List.append_assoc, List.singleton_append,
        multirangeLoop_piece hne hp (parseRange_pair hp hq (Or.inl rfl) rest), multirangeLoop_close,
        pairUp]
    | cons r ps =>
      -- two pieces read as one range, up to the `,` before the next piece
      have htext : p ++ [44] ++ [44].intercalate (q :: r :: ps) ++ 125 :: rest =
          p ++ 44 :: (q ++ 44 :: ([44].intercalate (r :: ps) ++ 125 :: rest)) := by
        simp [List.intercalate_cons_cons]
      rw [htext, multirangeLoop_piece hne hp (parseRange_pair hp hq (Or.inr rfl) _), multirangeLoop_comma,
        ih (fun p hp => hps p (by simp [hp])), List.append_assoc, List.singleton_append]

/-- The parser on a multirange text: `{`, comma-separated pieces, `}`. -/
theorem parseUntypedTextMultirange_pieces (ps : List Bytes) (hps : ∀ p ∈ ps, ∀ c ∈ p, PieceByte c) :
    parseUntypedTextMultirange (123 :: ([44].intercalate ps ++ [125])) = .ok (pairUp ps) := by
  rw [parseUntypedTextMultirange, skipWhitespace_of_not_space (by decide) (by decide),
    readRune_ascii (by decide)]
  simp only [show (123 : UInt8).toNat = 123 from rfl, ne_eq, not_true_eq_false, if_false]
  rw [multirangeLoop_intercalate ps hps, List.nil_append]
  simp only [skipWhitespace_nil, not_true_eq_false, if_false]

/-! ## Encoding, then parsing -/

/-- The elements after the first: each after a `,`. -/
theorem encodeMultirangeLoop_some (i : Nat) (buf : Bytes) (rs : List Bytes) :
    encodeMultirangeLoop (i + 1) buf (rs.map some) = .ok (buf ++ rs.flatMap (44 :: ·)) := by
  induction rs generalizing i buf with
  | nil => simp [encodeMultirangeLoop]
  | cons r rs ih =>
    rw [List.map_cons, encodeMultirangeLoop, if_pos (Nat.succ_pos i)]
    simp only [ih, List.flatMap_cons, List.append_assoc, List.cons_append, List.nil_append]

theorem intercalate_cons_eq_flatMap (r : Bytes) (rs : List Bytes) :
    [44].intercalate (r :: rs) = r ++ rs.flatMap ((44 : UInt8) :: ·) := by
  induction rs generalizing r with
  | nil => simp
  | cons s rs ih => simp [List.intercalate_cons_cons, ih]

/-- The encoder writes the ranges' texts between braces, joined by `,`. -/
theorem encodeMultirangeText_some (rs : List Bytes) (buf : Bytes) :
    encodeMultirangeText (rs.map some) buf = .ok (buf ++ 123 :: ([44].intercalate rs ++ [125])) := by
  cases rs with
  | nil => simp [encodeMultirangeText, encodeMultirangeLoop]
  | cons r rs =>
    rw [encodeMultirangeText, List.map_cons, encodeMultirangeLoop, if_neg (Nat.lt_irrefl 0)]
    simp only [encodeMultirangeLoop_some, intercalate_cons_eq_flatMap, List.append_assoc,
      List.cons_append, List.nil_append]

/-- Range texts of one `,` each, split at it, are paired back. -/
theorem pairUp_flatMap (ps : List (Bytes × Bytes)) (hps : ∀ x ∈ ps, x.1 ≠ []) :
    pairUp (ps.flatMap fun x => [x.1, x.2]) = ps.map fun x => x.1 ++ 44 :: x.2 := by
  induction ps with
  | nil => rfl
  | cons x ps ih =>
    rw [List.flatMap_cons, List.map_cons, List.cons_append, List.cons_append, List.nil_append,
      pairUp.eq_4 _ _ _ (hps x (by simp)), ih (fun y hy => hps y (by simp [hy]))]

theorem intercalate_pairs (ps : List (Bytes × Bytes)) :
    [44].intercalate (ps.map fun x => x.1 ++ 44 :: x.2) =
      [44].intercalate (ps.flatMap fun x => [x.1, x.2]) := by
  cases ps with
  | nil => rfl
  | cons x ps =>
    simp [intercalate_cons_eq_flatMap, List.flatMap_assoc, List.flatMap_map]

/-- The multirange text codec: the encoder writes the range texts between
braces joined by `,`; the parser splits such a text at its commas and pairs
the pieces up; so the range texts come back exactly when each holds one `,`,
not at its start. -/
theorem parseUntypedTextMultirange_encodeMultirangeText :
    (∀ rs : List Bytes,
      encodeMultirangeText (rs.map some) [] = .ok (123 :: ([44].intercalate rs ++ [125]))) ∧
    (∀ ps : List Bytes, (∀ p ∈ ps, ∀ c ∈ p, PieceByte c) →
      parseUntypedTextMultirange (123 :: ([44].intercalate ps ++ [125])) = .ok (pairUp ps)) ∧
    (∀ ps : List (Bytes × Bytes),
      (∀ x ∈ ps, x.1 ≠ [] ∧ (∀ c ∈ x.1, PieceByte c) ∧ ∀ c ∈ x.2, PieceByte c) →
        ∃ t, encodeMultirangeText (ps.map fun x => some (x.1 ++ 44 :: x.2)) [] = .ok t ∧
          parseUntypedTextMultirange t = .ok (ps.map fun x => x.1 ++ 44 :: x.2)) := by
  refine ⟨fun rs => by rw [encodeMultirangeText_some, List.nil_append],
    parseUntypedTextMultirange_pieces, fun ps hps => ?_⟩
  have hmap : (ps.map fun x => some (x.1 ++ 44 :: x.2)) = (ps.map fun x => x.1 ++ 44 :: x.2).map some := by
    rw [List.map_map]
    rfl
  refine ⟨_, by rw [hmap, encodeMultirangeText_some, List.nil_append], ?_⟩
  -- the pieces are the two halves of each range text
  have hpieces : ∀ p ∈ ps.flatMap (fun x => [x.1, x.2]), ∀ c ∈ p, PieceByte c := by
    intro p hp
    obtain ⟨x, hx, hpx⟩ := List.mem_flatMap.mp hp
    rcases List.mem_pair.mp hpx with rfl | rfl
    · exact (hps x hx).2.1
    · exact (hps x hx).2.2
  rw [intercalate_pairs, parseUntypedTextMultirange_pieces _ hpieces,
    pairUp_flatMap ps (fun x hx => (hps x hx).1)]

/-- `{empty,empty}`: two empty ranges come back as the one text `empty,empty`. -/
theorem parseUntypedTextMultirange_encodeMultirangeText_empty_empty :
    encodeMultirangeText [some [101, 109, 112, 116, 121], some [101, 109, 112, 116, 121]] [] =
        .ok [123, 101, 109, 112, 116, 121, 44, 101, 109, 112, 116, 121, 125] ∧
      parseUntypedTextMultirange [123, 101, 109, 112, 116, 121, 44, 101, 109, 112, 116, 121, 125] =
        .ok [[101, 109, 112, 116, 121, 44, 101, 109, 112, 116, 121]] :=
  ⟨parseUntypedTextMultirange_encodeMultirangeText.1 [[101, 109, 112, 116, 121], [101, 109, 112, 116, 121]],
    parseUntypedTextMultirange_encodeMultirangeText.2.1 [[101, 109, 112, 116, 121], [101, 109, 112, 116, 121]]
      (by simp [PieceByte])⟩

end GaussdbGo.Gaussdbtype
