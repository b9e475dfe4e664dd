import GaussdbGo.Gaussdbtype.Array
import GaussdbGo.Gaussdbtype.HstoreRoundTrip

/-!
# gaussdbtype — what `parseUntypedTextArray` reads from nested braces

A text array is a block of items in braces, each item an element or again a
block: `ArrayText` is that shape, and `render` writes it as
`encodePlanArrayCodecText` writes its braces and elements. Read back,

* every element comes back with its text and the flag saying it was quoted,
  so that `decodeText` gets `nil` exactly for a NULL element (for texts that
  are valid UTF-8; `ReadRune` and `WriteRune` turn any other byte into
  U+FFFD);
* the dimensions are the item counts along the first path of blocks: the
  outermost block's, its first item's when that is a block, and so on down
  (`firstPathDims`). The loop counts an item only while the depth it is at
  is the shallowest one closed so far, that is, in the first block of each
  depth; the other blocks are not compared with it.

The scan is proved in two parts, as the code runs it: `arrayOpenLoop` takes
the opening braces of the first path and leaves `afterOpen`, the innermost
items followed by the rest of each enclosing block; `arrayScanLoop` then
reads an item at a time, and a block whole once its depth is below the
counting one (`arrayScanLoop_render`).
-/

namespace GaussdbGo.Gaussdbtype

open GoStd GoStd.Strconv GaussdbGo.Proto Utf8

/-- A text array: an element (`none` for NULL) or a block of items. -/
inductive ArrayText where
  | element (e : Option Bytes)
  | block (items : List ArrayText)

namespace ArrayText

mutual
/-- An item as the encoder writes it. -/
def render : ArrayText → Bytes
  | element e => elementText e
  | block items => 123 :: renderItems items ++ [125]

/-- Items separated by commas. -/
def renderItems : List ArrayText → Bytes
  | [] => []
  | t :: ts => render t ++ renderRest ts

/-- Items each after a comma: what follows the first item of a block. -/
def renderRest : List ArrayText → Bytes
  | [] => []
  | t :: ts => 44 :: (render t ++ renderRest ts)
end

mutual
/-- The elements of an item, in the order they are written. -/
def leaves : ArrayText → List (Option Bytes)
  | element e => [e]
  | block items => itemsLeaves items

/-- The elements of a list of items. -/
def itemsLeaves : List ArrayText → List (Option Bytes)
  | [] => []
  | t :: ts => leaves t ++ itemsLeaves ts
end

end ArrayText

open ArrayText

/-! ## Elements -/

/-- What the parser returns for an element: its text (`NULL` for nil) and
whether it was quoted. -/
def elementValue : Option Bytes → Bytes × Bool
  | none => ([78, 85, 76, 76], false)
  | some t => (t, arrayElementNeedsQuote t)

/-- `decodeText` hands each element's scan plan what the element was. -/
theorem elementSource_elementValue (e : Option Bytes) :
    elementSource (elementValue e).1 (elementValue e).2 = e := by
  cases e with
  | none => rfl
  | some t =>
    unfold elementSource elementValue
    by_cases hq : arrayElementNeedsQuote t = true
    · simp [hq]
    · -- an unquoted text is no `NULL`: that one is quoted
      have hnull : t ≠ [78, 85, 76, 76] := by
        rintro rfl
        exact hq (by decide)
      simp [hnull]

/-- Every element text is valid UTF-8. -/
def ValidElements (es : List (Option Bytes)) : Prop := ∀ t, some t ∈ es → Valid t

theorem ValidElements.append {es fs : List (Option Bytes)} :
    ValidElements (es ++ fs) ↔ ValidElements es ∧ ValidElements fs := by
  simp only [ValidElements, List.mem_append]
  exact ⟨fun h => ⟨fun t ht => h t (.inl ht), fun t ht => h t (.inr ht)⟩,
    fun h t ht => ht.elim (h.1 t) (h.2 t)⟩

/-! ## Reading one element -/

section Element

variable {s rest : Bytes} {c : UInt8}

/-- An ASCII byte outside a character's encoding is not that character. -/
theorem toNat_ne_of_not_mem_encodeRune {ch : Char} {b : UInt8} (hb : b.toNat < 0x80)
    (h : b ∉ encodeRune ch) : ch.toNat ≠ b.toNat := by
  intro heq
  apply h
  rw [encodeRune_of_lt (by omega), heq, UInt8.ofNat_toNat]
  exact List.mem_singleton_self b

theorem readRune_stop (hc : c = 44 ∨ c = 125) : readRune (c :: rest) = some (c.toNat, rest) := by
  apply readRune_ascii
  rcases hc with rfl | rfl <;> decide

/-- An unquoted text with no `,` or `}` is read up to the stop after it. -/
theorem arrayParseUnquoted_encodeString (cs : List Char) (h44 : (44 : UInt8) ∉ encodeString cs)
    (h125 : (125 : UInt8) ∉ encodeString cs) (hc : c = 44 ∨ c = 125) :
    arrayParseUnquoted s (encodeString cs ++ c :: rest) = .ok (s ++ encodeString cs, c :: rest) := by
  induction cs generalizing s with
  | nil =>
    have hstop : c.toNat = 44 ∨ c.toNat = 125 := by rcases hc with rfl | rfl <;> decide
    rw [encodeString_nil, List.nil_append, arrayParseUnquoted_of_readRune (readRune_stop hc),
      if_pos hstop, List.append_nil]
  | cons ch cs ih =>
    rw [encodeString_cons, List.mem_append, not_or] at h44 h125
    have h₁ : ch.toNat ≠ 44 := toNat_ne_of_not_mem_encodeRune (b := 44) (by decide) h44.1
    have h₂ : ch.toNat ≠ 125 := toNat_ne_of_not_mem_encodeRune (b := 125) (by decide) h125.1
    rw [encodeString_cons, List.append_assoc,
      arrayParseUnquoted_of_readRune (readRune_encodeRune ch _), if_neg (by omega),
      writeRune_char, ih h44.2 h125.2, List.append_assoc]

theorem quoteArrayReplace_append (t u : Bytes) :
    quoteArrayReplace (t ++ u) = quoteArrayReplace t ++ quoteArrayReplace u := by
  simp only [quoteArrayReplace, quoteCompositeReplace, List.flatMap_append]

theorem quoteArrayReplace_encodeString (ch : Char) (cs : List Char) :
    quoteArrayReplace (encodeString (ch :: cs)) =
      quoteArrayReplace (encodeRune ch) ++ quoteArrayReplace (encodeString cs) := by
  rw [encodeString_cons, quoteArrayReplace_append]

/-- Bytes of a multi-byte character are neither a backslash nor a quote. -/
theorem quoteArrayReplace_of_high {t : Bytes} (h : ∀ b ∈ t, 0x80 ≤ b.toNat) :
    quoteArrayReplace t = t := by
  induction t with
  | nil => rfl
  | cons b t ih =>
    have hb := h b (List.mem_cons_self ..)
    rw [quoteArrayReplace_cons, if_neg (fun h => by subst h; simp at hb),
      if_neg (fun h => by subst h; simp at hb),
      ih (fun b' hb' => h b' (List.mem_cons_of_mem _ hb')), List.singleton_append]

/-- A character written by `quoteArrayReplacer` is read back as itself. -/
theorem arrayParseQuoted_char (ch : Char) (more : Bytes) :
    arrayParseQuoted s (quoteArrayReplace (encodeRune ch) ++ more) =
      arrayParseQuoted (s ++ encodeRune ch) more := by
  by_cases hlt : ch.toNat < 0x80
  · -- one byte, escaped when it is a backslash or a quote
    have hb : (UInt8.ofNat ch.toNat).toNat < 0x80 := by
      rw [toNat_ofNat_small (by omega)]; exact hlt
    rw [encodeRune_of_lt hlt, quoteArrayReplace_cons]
    generalize UInt8.ofNat ch.toNat = b at hb
    simp only [quoteArrayReplace, quoteCompositeReplace, List.flatMap_nil, List.append_nil]
    split
    · subst_vars
      rw [List.cons_append, List.cons_append, List.nil_append,
        arrayParseQuoted_escape (readRune_ascii (b := 92) (by decide) _)
        (readRune_ascii (b := 92) (by decide) _), writeRune_toNat (by decide)]
    · split
      · subst_vars
        rw [List.cons_append, List.cons_append, List.nil_append,
          arrayParseQuoted_escape (readRune_ascii (b := 92) (by decide) _)
          (readRune_ascii (b := 34) (by decide) _), writeRune_toNat (by decide)]
      · rename_i h92 h34
        rw [List.singleton_append, arrayParseQuoted_plain (readRune_ascii hb _),
          writeRune_toNat hb]
        · exact fun h => h92 (UInt8.toNat_inj.mp (by rw [h]; rfl))
        · exact fun h => h34 (UInt8.toNat_inj.mp (by rw [h]; rfl))
  · -- several bytes, none of them a backslash or a quote
    rw [quoteArrayReplace_of_high fun b hb => le_of_mem_encodeRune (by omega) hb,
      arrayParseQuoted_plain (readRune_encodeRune ch more) (by omega) (by omega), writeRune_char]

/-- A quoted text is read up to its closing quote, whatever follows. -/
theorem arrayParseQuoted_quoteArrayReplace (cs : List Char) (x : Nat × Bytes)
    (hx : readRune rest = some x) :
    arrayParseQuoted s (quoteArrayReplace (encodeString cs) ++ 34 :: rest) =
      .ok (s ++ encodeString cs, rest) := by
  induction cs generalizing s with
  | nil =>
    rw [encodeString_nil, List.append_nil]
    exact arrayParseQuoted_quote (readRune_ascii (by decide) _) hx
  | cons ch cs ih =>
    rw [quoteArrayReplace_encodeString, List.append_assoc, arrayParseQuoted_char, ih,
      encodeString_cons, List.append_assoc]

/-- What a text written without quotes holds. -/
theorem plain_of_arrayElementNeedsQuote {t : Bytes} (h : arrayElementNeedsQuote t = false) :
    t ≠ [] ∧ ∀ b ∈ t, b ≠ 123 ∧ b ≠ 125 ∧ b ≠ 44 ∧ b ≠ 34 := by
  simp only [arrayElementNeedsQuote, Bool.or_eq_false_iff, decide_eq_false_iff_not,
    List.any_eq_false] at h
  refine ⟨h.1.1.1.1, fun b hb => ?_⟩
  have hb' := h.2 b hb
  simp only [List.mem_cons, List.not_mem_nil, or_false, decide_eq_true_eq, not_or] at hb'
  exact ⟨hb'.1, hb'.2.1, hb'.2.2.1, hb'.2.2.2.1⟩

/-- The unquoted `NULL` of a nil element. -/
theorem arrayParseValue_null (hc : c = 44 ∨ c = 125) :
    arrayParseValue (elementText none ++ c :: rest) = .ok (elementValue none, c :: rest) := by
  have hnull : elementText none = encodeString ['N', 'U', 'L', 'L'] := rfl
  rw [arrayParseValue, hnull, arrayParseUnquoted_encodeString _ (by decide) (by decide) hc]
  rfl

/-- A quoted element. -/
theorem arrayParseValue_quoted {cs : List Char} (hq : arrayElementNeedsQuote (encodeString cs))
    (hc : c = 44 ∨ c = 125) :
    arrayParseValue (elementText (some (encodeString cs)) ++ c :: rest) =
      .ok (elementValue (some (encodeString cs)), c :: rest) := by
  rw [elementText, quoteArrayElementIfNeeded, if_pos hq, quoteArrayElement, List.cons_append,
    List.cons_append, arrayParseValue, readRune_ascii (by decide), List.append_assoc,
    List.singleton_append]
  simp only [UInt8.reduceToNat, if_true]
  rw [arrayParseQuoted_quoteArrayReplace cs _ (readRune_stop hc), List.nil_append]
  rw [elementValue, hq]
  rfl

/-- An element written without quotes. -/
theorem arrayParseValue_plain {cs : List Char} (hq : arrayElementNeedsQuote (encodeString cs) = false)
    (hc : c = 44 ∨ c = 125) :
    arrayParseValue (elementText (some (encodeString cs)) ++ c :: rest) =
      .ok (elementValue (some (encodeString cs)), c :: rest) := by
  obtain ⟨hne, hplain⟩ := plain_of_arrayElementNeedsQuote hq
  obtain ⟨ch, cs', rfl⟩ := List.exists_cons_of_ne_nil (mt encodeString_eq_nil.mpr hne)
  have h34 : ch.toNat ≠ 34 := toNat_ne_of_not_mem_encodeRune (b := 34) (by decide)
    fun h => (hplain 34 (by rw [encodeString_cons]; exact List.mem_append_left _ h)).2.2.2 rfl
  rw [elementText, quoteArrayElementIfNeeded, if_neg (by rw [hq]; decide), arrayParseValue,
    encodeString_cons, List.append_assoc, readRune_encodeRune]
  simp only [if_neg h34]
  rw [← List.append_assoc, ← encodeString_cons, arrayParseUnquoted_encodeString _
    (fun h => (hplain 44 h).2.2.1 rfl) (fun h => (hplain 125 h).2.1 rfl) hc, List.nil_append]
  rw [elementValue, hq]
  rfl

/-- The first rune of an element is no brace or comma. -/
theorem readRune_elementText {e : Option Bytes} (hv : ValidElements [e]) (c : UInt8) (rest : Bytes) :
    ∃ r buf', readRune (elementText e ++ c :: rest) = some (r, buf') ∧
      r ≠ 123 ∧ r ≠ 44 ∧ r ≠ 125 := by
  match e with
  | none => exact ⟨78, _, readRune_ascii (by decide) _, by decide, by decide, by decide⟩
  | some t =>
    obtain ⟨cs, rfl⟩ := hv t (List.mem_singleton_self _)
    cases hq : arrayElementNeedsQuote (encodeString cs) with
    | true =>
      rw [elementText, quoteArrayElementIfNeeded, if_pos hq, quoteArrayElement, List.cons_append]
      exact ⟨34, _, readRune_ascii (by decide) _, by decide, by decide, by decide⟩
    | false =>
      obtain ⟨hne, hplain⟩ := plain_of_arrayElementNeedsQuote hq
      obtain ⟨ch, cs', rfl⟩ := List.exists_cons_of_ne_nil (mt encodeString_eq_nil.mpr hne)
      have hin : ∀ b : UInt8, b.toNat < 0x80 → b ∈ encodeRune ch → b ∈ encodeString (ch :: cs') :=
        fun b _ h => by rw [encodeString_cons]; exact List.mem_append_left _ h
      rw [elementText, quoteArrayElementIfNeeded, if_neg (by rw [hq]; decide), encodeString_cons,
        List.append_assoc, readRune_encodeRune]
      exact ⟨ch.toNat, _, rfl,
        toNat_ne_of_not_mem_encodeRune (b := 123) (by decide) fun h =>
          (hplain 123 (hin 123 (by decide) h)).1 rfl,
        toNat_ne_of_not_mem_encodeRune (b := 44) (by decide) fun h =>
          (hplain 44 (hin 44 (by decide) h)).2.2.1 rfl,
        toNat_ne_of_not_mem_encodeRune (b := 125) (by decide) fun h =>
          (hplain 125 (hin 125 (by decide) h)).2.1 rfl⟩

/-- Every element, followed by `,` or `}`, is read as its value. -/
theorem arrayParseValue_elementText {e : Option Bytes} (hv : ValidElements [e])
    (hc : c = 44 ∨ c = 125) :
    arrayParseValue (elementText e ++ c :: rest) = .ok (elementValue e, c :: rest) := by
  match e with
  | none => exact arrayParseValue_null hc
  | some t =>
    obtain ⟨cs, rfl⟩ := hv t (List.mem_singleton_self _)
    cases hq : arrayElementNeedsQuote (encodeString cs) with
    | true => exact arrayParseValue_quoted hq hc
    | false => exact arrayParseValue_plain hq hc

end Element

/-! ## The main loop over items -/

/-- A dimension `n` items longer. -/
def addLength (n : Nat) (d : ArrayDimension) : ArrayDimension :=
  { d with length := d.length + Int32.ofNat n }

theorem addLength_zero : addLength 0 = id := by
  funext d
  simp [addLength]

theorem addLength_one : addLength 1 = fun d => { d with length := d.length + 1 } := rfl

theorem addLength_addLength (m n : Nat) : addLength n ∘ addLength m = addLength (m + n) := by
  funext d
  simp only [Function.comp, addLength, Int32.ofNat_add, Int32.add_assoc]

/-- The scan state after items at the current depth holding the values
`vals`: `n` of them counted when that depth is the counting one. -/
def ArrayScan.items (st : ArrayScan) (n : Nat) (vals : List (Bytes × Bool)) : ArrayScan :=
  { st with
    implicitDimensions := if st.currentDim = st.counterDim then
        st.implicitDimensions.modify st.currentDim.toNat (addLength n)
      else st.implicitDimensions
    elements := st.elements ++ vals.map Prod.fst
    quoted := st.quoted ++ vals.map Prod.snd }

namespace ArrayScan

variable (st : ArrayScan) (n : Nat) (vals : List (Bytes × Bool))

@[simp] theorem items_currentDim : (st.items n vals).currentDim = st.currentDim := rfl

@[simp] theorem items_counterDim : (st.items n vals).counterDim = st.counterDim := rfl

@[simp] theorem items_zero_nil : st.items 0 [] = st := by
  simp [items, addLength_zero]

theorem items_items (m : Nat) (vals' : List (Bytes × Bool)) :
    (st.items m vals).items n vals' = st.items (m + n) (vals ++ vals') := by
  by_cases h : st.currentDim = st.counterDim <;>
    simp [items, h, List.modify_modify_eq, addLength_addLength]

/-- An element read at the current depth. -/
theorem items_one (v : Bytes) (q : Bool) :
    { st with
      implicitDimensions := st.count
      quoted := st.quoted ++ [q]
      elements := st.elements ++ [v] } = st.items 1 [(v, q)] := by
  by_cases h : st.currentDim = st.counterDim <;> simp [items, count, h, addLength_one]

/-- A block read at the current depth: its `{` is counted, its items one
level down are not, and its `}` brings the depth back. -/
theorem items_block (h : st.counterDim ≤ st.currentDim) :
    let inner := { st with implicitDimensions := st.count, currentDim := st.currentDim + 1 }
    let after := inner.items n vals
    { after with
      currentDim := after.currentDim - 1
      counterDim := if after.currentDim - 1 < after.counterDim then after.currentDim - 1
        else after.counterDim } = st.items 1 vals := by
  have hne : ¬st.currentDim + 1 = st.counterDim := by omega
  have hctr : ¬st.currentDim < st.counterDim := by omega
  by_cases heq : st.currentDim = st.counterDim <;>
    simp [items, count, heq, hne, hctr, addLength_one]

end ArrayScan

/-- A block's items end with `,` before each item after the first, then `}`. -/
theorem renderRest_append_close (ts : List ArrayText) (rest : Bytes) :
    ∃ c rest', renderRest ts ++ 125 :: rest = c :: rest' ∧ (c = 44 ∨ c = 125) := by
  cases ts with
  | nil => exact ⟨125, rest, rfl, .inr rfl⟩
  | cons t ts => exact ⟨44, _, by rw [renderRest, List.cons_append], .inl rfl⟩

theorem ValidElements.itemsLeaves_cons {t : ArrayText} {ts : List ArrayText}
    (h : ValidElements (itemsLeaves (t :: ts))) :
    ValidElements (leaves t) ∧ ValidElements (itemsLeaves ts) := by
  rwa [itemsLeaves, ValidElements.append] at h

section Scan

variable {st : ArrayScan} {rest : Bytes}

/-- An element at a depth inside the outermost braces. -/
theorem arrayScanLoop_element {e : Option Bytes} {c : UInt8} (hv : ValidElements [e])
    (hc : c = 44 ∨ c = 125) (hcur : 0 ≤ st.currentDim) :
    arrayScanLoop st (elementText e ++ c :: rest) =
      arrayScanLoop (st.items 1 [elementValue e]) (c :: rest) := by
  obtain ⟨r, buf', hr, h123, h44, h125⟩ := readRune_elementText hv c rest
  rw [arrayScanLoop_value hr h123 h44 h125 (arrayParseValue_elementText hv hc), arrayScanNext,
    if_neg (by simpa using hcur), ArrayScan.items_one]
  rfl

mutual

/-- An item at a depth inside the outermost braces, and at or below the
counting one, is read whole: counted once, its elements kept. -/
theorem arrayScanLoop_render (t : ArrayText) {st : ArrayScan} {c : UInt8} {rest : Bytes}
    (hv : ValidElements t.leaves) (hc : c = 44 ∨ c = 125) (hcur : 0 ≤ st.currentDim)
    (hctr : st.counterDim ≤ st.currentDim) :
    arrayScanLoop st (t.render ++ c :: rest) =
      arrayScanLoop (st.items 1 (t.leaves.map elementValue)) (c :: rest) := by
  match t with
  | element e => exact arrayScanLoop_element hv hc hcur
  | block items =>
    rw [leaves] at hv ⊢
    have htext : render (block items) ++ c :: rest = 123 :: (renderItems items ++ 125 :: c :: rest) := by
      simp [render]
    -- `{`, then the items one level down, where nothing is counted, then `}`
    rw [htext, arrayScanLoop_open (readRune_ascii (by decide) _), arrayScanNext,
      if_neg (by dsimp only; omega), arrayScanLoop_renderItems items hv (by dsimp only; omega)
        (by dsimp only; omega),
      arrayScanLoop_close (readRune_ascii (by decide) _), arrayScanNext,
      if_neg (by simp only [ArrayScan.items_currentDim]; omega), ArrayScan.items_block _ _ _ hctr]

/-- The items of a block, from its first, up to its `}`. -/
theorem arrayScanLoop_renderItems (items : List ArrayText) {st : ArrayScan} {rest : Bytes}
    (hv : ValidElements (itemsLeaves items)) (hcur : 0 ≤ st.currentDim)
    (hctr : st.counterDim ≤ st.currentDim) :
    arrayScanLoop st (renderItems items ++ 125 :: rest) =
      arrayScanLoop (st.items items.length ((itemsLeaves items).map elementValue)) (125 :: rest) := by
  match items with
  | [] => rw [renderItems, itemsLeaves, List.nil_append, List.map_nil, List.length_nil,
      ArrayScan.items_zero_nil]
  | t :: ts =>
    obtain ⟨hvt, hvs⟩ := hv.itemsLeaves_cons
    obtain ⟨c, rest', hsplit, hc⟩ := renderRest_append_close ts rest
    -- the state after the first item is at the same depths
    let st₁ := st.items 1 (t.leaves.map elementValue)
    have hcur₁ : 0 ≤ st₁.currentDim := hcur
    have hctr₁ : st₁.counterDim ≤ st₁.currentDim := hctr
    rw [renderItems, List.append_assoc, hsplit, arrayScanLoop_render t hvt hc hcur hctr, ← hsplit,
      arrayScanLoop_renderRest ts hvs hcur₁ hctr₁, ArrayScan.items_items, itemsLeaves,
      List.map_append, List.length_cons, Nat.add_comm]

/-- The items of a block after its first, up to its `}`. -/
theorem arrayScanLoop_renderRest (ts : List ArrayText) {st : ArrayScan} {rest : Bytes}
    (hv : ValidElements (itemsLeaves ts)) (hcur : 0 ≤ st.currentDim)
    (hctr : st.counterDim ≤ st.currentDim) :
    arrayScanLoop st (renderRest ts ++ 125 :: rest) =
      arrayScanLoop (st.items ts.length ((itemsLeaves ts).map elementValue)) (125 :: rest) := by
  match ts with
  | [] => rw [renderRest, itemsLeaves, List.nil_append, List.map_nil, List.length_nil,
      ArrayScan.items_zero_nil]
  | t :: ts =>
    obtain ⟨hvt, hvs⟩ := hv.itemsLeaves_cons
    obtain ⟨c, rest', hsplit, hc⟩ := renderRest_append_close ts rest
    let st₁ := st.items 1 (t.leaves.map elementValue)
    have hcur₁ : 0 ≤ st₁.currentDim := hcur
    have hctr₁ : st₁.counterDim ≤ st₁.currentDim := hctr
    rw [renderRest, List.cons_append, arrayScanLoop_comma (readRune_ascii (by decide) _),
      arrayScanNext, if_neg (by omega), List.append_assoc, hsplit,
      arrayScanLoop_render t hvt hc hcur hctr, ← hsplit,
      arrayScanLoop_renderRest ts hvs hcur₁ hctr₁, ArrayScan.items_items, itemsLeaves,
      List.map_append, List.length_cons, Nat.add_comm]

end

end Scan

/-! ## The first path of blocks -/

namespace ArrayText

mutual
/-- The first block at each depth, outermost first: a block's items, then,
while the first item is a block, that block's items. -/
def firstBlocks : List ArrayText → List (List ArrayText)
  | [] => [[]]
  | t :: ts => (t :: ts) :: blocksBelow t

/-- The first blocks inside an item: none inside an element. -/
def blocksBelow : ArrayText → List (List ArrayText)
  | element _ => []
  | block items => firstBlocks items
end

/-- How many opening braces follow the outermost one on the first path. -/
def openDepth : List ArrayText → Nat
  | [] => 0
  | element _ :: _ => 0
  | block items :: _ => openDepth items + 1

/-- The text the opening braces of the first path leave: the innermost
items, then the rest of each enclosing block. -/
def afterOpen : List ArrayText → Bytes → Bytes
  | [], rest => 125 :: rest
  | element e :: ts, rest => renderItems (element e :: ts) ++ 125 :: rest
  | block items :: ts, rest => afterOpen items (renderRest ts ++ 125 :: rest)

/-- The dimensions the open loop leaves. -/
def openDims : List ArrayText → List ArrayDimension → List ArrayDimension
  | [], dims => dims
  | element _ :: _, dims => dims
  | block items :: _, dims =>
    openDims items ((dims.modify (dims.length - 1) fun d => { d with length := 1 }) ++ [⟨0, 1⟩])

/-- The dimensions after the scan of the first path below depth `d`: the
items after the first block of each depth counted at that depth. -/
def scanDims (d : Nat) : List ArrayText → List ArrayDimension → List ArrayDimension
  | [], dims => dims
  | element _ :: ts, dims => dims.modify d (addLength (ts.length + 1))
  | block items :: ts, dims => (scanDims (d + 1) items dims).modify d (addLength ts.length)

end ArrayText

/-- The dimensions `parseUntypedTextArray` infers from a block: the item
count of the first block at each depth, with lower bound 1. -/
def firstPathDims (items : List ArrayText) : List ArrayDimension :=
  (firstBlocks items).map fun b => ⟨Int32.ofNat b.length, 1⟩

/-! ## The open loop and the scan of the first path -/

theorem modify_length_append {α : Type} (D E : List α) (x : α) (f : α → α) :
    (D ++ x :: E).modify D.length f = D ++ f x :: E := by
  induction D with
  | nil => rfl
  | cons y D ih => rw [List.cons_append, List.length_cons, List.modify_succ_cons, ih]; rfl

theorem length_openDims (items : List ArrayText) (dims : List ArrayDimension) :
    (openDims items dims).length = dims.length + openDepth items := by
  match items with
  | [] => rw [openDims, openDepth, Nat.add_zero]
  | element e :: ts => rw [openDims, openDepth, Nat.add_zero]
  | block items :: ts =>
    rw [openDims, length_openDims items, List.length_append, List.length_modify, openDepth]
    simp only [List.length_singleton]
    omega

/-- Each depth of the first path ends up with its block's item count: one
from the open loop when the block's first item is a block, the rest from
the scan. -/
theorem scanDims_openDims (items : List ArrayText) (D : List ArrayDimension) :
    scanDims D.length items (openDims items (D ++ [⟨0, 1⟩])) = D ++ firstPathDims items := by
  match items with
  | [] => rw [openDims, scanDims, firstPathDims, firstBlocks]; rfl
  | element e :: ts =>
    rw [openDims, scanDims, modify_length_append]
    simp [addLength, firstPathDims, firstBlocks, blocksBelow]
  | block items :: ts =>
    have hopen : ((D ++ [(⟨0, 1⟩ : ArrayDimension)]).modify ((D ++ [(⟨0, 1⟩ : ArrayDimension)]).length - 1)
        fun d => { d with length := 1 }) ++ [⟨0, 1⟩] = (D ++ [⟨1, 1⟩]) ++ [⟨0, 1⟩] := by
      rw [List.length_append, List.length_singleton, Nat.add_sub_cancel, modify_length_append]
    have ih := scanDims_openDims items (D ++ [⟨1, 1⟩])
    rw [List.length_append, List.length_singleton] at ih
    rw [openDims, scanDims, hopen, ih, List.append_assoc, List.singleton_append,
      modify_length_append]
    simp only [firstPathDims, firstBlocks, blocksBelow, List.map_cons, List.length_cons, addLength,
      Int32.ofNat_add]
    rw [Int32.add_comm]
    rfl

/-- The open loop takes the opening braces of the first path, one
dimension each, and stops at the first item that is no block. -/
theorem arrayOpenLoop_renderItems (items : List ArrayText) (dims : List ArrayDimension)
    (rest : Bytes) (hv : ValidElements (itemsLeaves items)) :
    arrayOpenLoop dims (renderItems items ++ 125 :: rest) =
      .ok (openDims items dims, afterOpen items rest) := by
  match items with
  | [] =>
    rw [renderItems, List.nil_append, arrayOpenLoop_of_readRune (readRune_ascii (by decide) _),
      openDims, afterOpen]
    rfl
  | element e :: ts =>
    obtain ⟨c, rest', hsplit, -⟩ := renderRest_append_close ts rest
    obtain ⟨r, buf', hr, h123, -, -⟩ :=
      readRune_elementText hv.itemsLeaves_cons.1 c rest'
    rw [renderItems, List.append_assoc, hsplit, render, arrayOpenLoop_of_readRune hr, if_neg h123,
      openDims, afterOpen, renderItems, render, List.append_assoc, hsplit]
  | block items :: ts =>
    have htext : renderItems (block items :: ts) ++ 125 :: rest =
        123 :: (renderItems items ++ 125 :: (renderRest ts ++ 125 :: rest)) := by
      simp [renderItems, render]
    rw [htext, arrayOpenLoop_of_readRune (readRune_ascii (by decide) _), if_pos (by decide),
      arrayOpenLoop_renderItems items _ _ (hv.itemsLeaves_cons.1), openDims, afterOpen]

/-- The close of a block whose items were counted. -/
theorem ArrayScan.items_close (st : ArrayScan) (n : Nat) (vals : List (Bytes × Bool))
    (h : st.counterDim = st.currentDim) :
    let after := st.items n vals
    { after with
      currentDim := after.currentDim - 1
      counterDim := if after.currentDim - 1 < after.counterDim then after.currentDim - 1
        else after.counterDim } =
    { st with
      currentDim := st.currentDim - 1
      counterDim := st.currentDim - 1
      implicitDimensions := st.implicitDimensions.modify st.currentDim.toNat (addLength n)
      elements := st.elements ++ vals.map Prod.fst
      quoted := st.quoted ++ vals.map Prod.snd } := by
  simp [items, h]

/-- The scan of what the open loop left, from the innermost depth: every
item is counted at its depth and kept, and the `}` of the block at depth
`d` ends it. -/
theorem arrayScanLoop_afterOpen (items : List ArrayText) {st : ArrayScan} {rest : Bytes} (d : Nat)
    (hv : ValidElements (itemsLeaves items)) (hcur : st.currentDim = d + openDepth items)
    (hctr : st.counterDim = st.currentDim) :
    arrayScanLoop st (afterOpen items rest) =
      arrayScanNext { st with
        currentDim := d - 1
        counterDim := d - 1
        implicitDimensions := scanDims d items st.implicitDimensions
        elements := st.elements ++ ((itemsLeaves items).map elementValue).map Prod.fst
        quoted := st.quoted ++ ((itemsLeaves items).map elementValue).map Prod.snd } rest := by
  match items with
  | [] =>
    simp only [openDepth, Nat.cast_zero, add_zero] at hcur
    rw [afterOpen, arrayScanLoop_close (readRune_ascii (by decide) _), scanDims, itemsLeaves]
    simp [hctr, hcur]
  | element e :: ts =>
    simp only [openDepth, Nat.cast_zero, add_zero] at hcur
    rw [afterOpen, arrayScanLoop_renderItems _ hv (by omega) (by omega),
      arrayScanLoop_close (readRune_ascii (by decide) _), ArrayScan.items_close _ _ _ hctr,
      scanDims, hcur]
    simp [List.map_map]
  | block items :: ts =>
    simp only [openDepth, Nat.cast_add, Nat.cast_one] at hcur
    obtain ⟨hvi, hvs⟩ := hv.itemsLeaves_cons
    rw [leaves] at hvi
    rw [afterOpen, arrayScanLoop_afterOpen items (d + 1) hvi (by omega) hctr, arrayScanNext,
      if_neg (by simp only; omega), arrayScanLoop_renderRest ts hvs (by simp only; omega)
        (by simp only; omega),
      arrayScanLoop_close (readRune_ascii (by decide) _), ArrayScan.items_close _ _ _ rfl, scanDims]
    simp [itemsLeaves, leaves, List.map_map]

/-! ## Whole texts -/

/-- A text whose explicit dimensions (if any) are followed by a block is read
as that block's elements, with the explicit dimensions when there are
any and the first-path ones otherwise (none for an array with no
element). -/
theorem parseUntypedTextArray_of_explicitDimensions {src buf₁ : Bytes} {r : Nat}
    {E : List ArrayDimension} (items : List ArrayText) (hv : ValidElements (itemsLeaves items))
    (hr : readRune (skipWhitespace src) = some (r, buf₁))
    (hE : explicitDimensions r buf₁ (skipWhitespace src) = .ok (E, 123, renderItems items ++ [125])) :
    parseUntypedTextArray src = .ok ⟨((itemsLeaves items).map elementValue).map Prod.fst,
      ((itemsLeaves items).map elementValue).map Prod.snd,
      if itemsLeaves items = [] then [] else if E = [] then firstPathDims items else E⟩ := by
  let implicit := openDims items [⟨0, 1⟩]
  have hopen : arrayOpenLoop [⟨0, 1⟩] (renderItems items ++ [125]) =
      .ok (implicit, afterOpen items []) :=
    arrayOpenLoop_renderItems items [⟨0, 1⟩] [] hv
  -- the scan starts at the innermost depth of the first path
  have hlen : (implicit.length : Int) - 1 = 0 + openDepth items := by
    rw [length_openDims, List.length_singleton]; push_cast; omega
  have hscan : arrayScanLoop ⟨implicit.length - 1, implicit.length - 1, implicit, [], []⟩
      (afterOpen items []) = _ := arrayScanLoop_afterOpen items 0 hv hlen rfl
  have hdims : scanDims 0 items implicit = firstPathDims items := scanDims_openDims items []
  rw [parseUntypedTextArray, hr]
  simp only [hE, hopen, hscan, bind, Except.bind, ne_eq, not_true_eq_false, if_false, arrayScanNext]
  -- the `}` of the outermost block ends the loop with nothing left
  rw [if_pos (by omega)]
  simp [hdims, skipWhitespace_nil, pure, Except.pure]

/-- A block with no explicit dimensions in front. -/
theorem parseUntypedTextArray_render (items : List ArrayText)
    (hv : ValidElements (itemsLeaves items)) :
    parseUntypedTextArray (block items).render = .ok ⟨((itemsLeaves items).map elementValue).map Prod.fst,
      ((itemsLeaves items).map elementValue).map Prod.snd,
      if itemsLeaves items = [] then [] else firstPathDims items⟩ := by
  have htext : (block items).render = 123 :: (renderItems items ++ [125]) := by
    rw [render, List.cons_append]
  have hskip : skipWhitespace (block items).render = (block items).render := by
    rw [htext]; exact skipWhitespace_of_not_space (by decide) (by decide) _
  have hr : readRune (skipWhitespace (block items).render) = some (123, renderItems items ++ [125]) := by
    rw [hskip, htext]; exact readRune_ascii (b := 123) (by decide) _
  have hE : explicitDimensions 123 (renderItems items ++ [125]) (skipWhitespace (block items).render) =
      .ok ([], 123, renderItems items ++ [125]) := by
    rw [explicitDimensions, if_neg (by decide)]; rfl
  rw [parseUntypedTextArray_of_explicitDimensions items hv hr hE]
  simp

/-! ## Decoding into slots -/

/-- What an element's scan plan is handed, as a slot. -/
def elementSlot (p : Bytes × Bool) : Option (Option Bytes) := some (elementSource p.1 p.2)

theorem index_replicate_none (pre : List (Option (Option Bytes))) (k : Nat) :
    (index (pre ++ List.replicate (k + 1) none) pre.length : Go ArrayTextError _) = .ok none := by
  simp [index, List.getElem_append_right]

theorem index_past (pre : List (Option (Option Bytes))) :
    (index pre pre.length : Go ArrayTextError (Option (Option Bytes))) =
      crash (.indexOutOfRange pre.length pre.length) := by
  simp [index]

/-- The element loop fills one empty slot per element. -/
theorem scanElementsLoop_fill (elems : List (Bytes × Bool)) (pre : List (Option (Option Bytes)))
    (k : Nat) (hk : elems.length ≤ k) :
    scanElementsLoop pre.length elems (pre ++ List.replicate k none) =
      .ok (pre ++ elems.map elementSlot ++ List.replicate (k - elems.length) none) := by
  induction elems generalizing pre k with
  | nil => simp [scanElementsLoop, pure, Except.pure]
  | cons p elems ih =>
    obtain ⟨k, rfl⟩ : ∃ k', k = k' + 1 := ⟨k - 1, by simp at hk; omega⟩
    have hset : (pre ++ List.replicate (k + 1) none).set pre.length (elementSlot p) =
        (pre ++ [elementSlot p]) ++ List.replicate k none := by
      simp [List.set_append_right, List.replicate_succ]
    have ih' := ih (pre ++ [elementSlot p]) k (by simp at hk; omega)
    rw [List.length_append, List.length_singleton] at ih'
    rw [scanElementsLoop, index_replicate_none, ok_bind]
    simp only [elementSlot] at hset ih'
    rw [hset, ih']
    simp [elementSlot]

/-- The element loop panics at the first element past the slots. -/
theorem scanElementsLoop_overflow (elems : List (Bytes × Bool)) (pre : List (Option (Option Bytes)))
    (k : Nat) (hk : k < elems.length) :
    scanElementsLoop pre.length elems (pre ++ List.replicate k none) =
      crash (.indexOutOfRange (pre.length + k) (pre.length + k)) := by
  induction elems generalizing pre k with
  | nil => simp at hk
  | cons p elems ih =>
    cases k with
    | zero =>
      have hpast := index_past pre
      rw [scanElementsLoop, List.replicate_zero, List.append_nil, hpast, bind_crash]
      simp
    | succ k =>
      have hset : (pre ++ List.replicate (k + 1) none).set pre.length (elementSlot p) =
          (pre ++ [elementSlot p]) ++ List.replicate k none := by
        simp [List.set_append_right, List.replicate_succ]
      have ih' := ih (pre ++ [elementSlot p]) k (by simp at hk; omega)
      rw [List.length_append, List.length_singleton] at ih'
      rw [scanElementsLoop, index_replicate_none, ok_bind]
      simp only [elementSlot] at hset ih'
      rw [hset, ih']
      congr 2 <;> push_cast <;> omega

section Decode

variable {src : Bytes} {u : UntypedTextArray}

theorem index_replicate_zero (k : Nat) :
    (index (List.replicate (k + 1) none) 0 : Go ArrayTextError (Option (Option Bytes))) = .ok none := by
  simp [index]

/-- `decodeText` once the text is parsed into elements that fit the slots. -/
theorem decodeArrayText_fill (h : parseUntypedTextArray src = .ok u)
    (hq : u.quoted.length = u.elements.length) (hc : 0 ≤ (cardinality u.dimensions).toInt)
    (hne : u.elements ≠ []) (hn : u.elements.length ≤ (cardinality u.dimensions).toInt.toNat) :
    decodeArrayText src = .ok ((u.elements.zip u.quoted).map elementSlot ++
      List.replicate ((cardinality u.dimensions).toInt.toNat - u.elements.length) none) := by
  have hlen : (u.elements.zip u.quoted).length = u.elements.length := by simp [hq]
  obtain ⟨k, hk⟩ : ∃ k, (cardinality u.dimensions).toInt.toNat = k + 1 :=
    ⟨(cardinality u.dimensions).toInt.toNat - 1, by
      have := List.length_pos_of_ne_nil hne; omega⟩
  have hfill := scanElementsLoop_fill (u.elements.zip u.quoted) [] (k + 1) (by omega)
  rw [List.nil_append, List.length_nil, List.nil_append, hlen] at hfill
  rw [decodeArrayText, h]
  simp only [Except.mapError, ok_bind]
  rw [if_neg (by rw [Int64.lt_iff_toInt_lt]; simpa using hc), if_neg hne, hk,
    index_replicate_zero, ok_bind, hfill]

/-- `decodeText` panics when the text has more elements than the slots
`cardinality(Dimensions)` makes. -/
theorem decodeArrayText_overflow (h : parseUntypedTextArray src = .ok u)
    (hq : u.quoted.length = u.elements.length) (hc : 0 ≤ (cardinality u.dimensions).toInt)
    (hne : u.elements ≠ []) (hn : (cardinality u.dimensions).toInt.toNat < u.elements.length) :
    decodeArrayText src = crash (.indexOutOfRange (cardinality u.dimensions).toInt
      (cardinality u.dimensions).toInt) := by
  have hlen : (u.elements.zip u.quoted).length = u.elements.length := by simp [hq]
  have hover := scanElementsLoop_overflow (u.elements.zip u.quoted) []
    (cardinality u.dimensions).toInt.toNat (by omega)
  rw [List.nil_append, List.length_nil, Nat.cast_zero, Int.zero_add,
    Int.toNat_of_nonneg hc] at hover
  rw [decodeArrayText, h]
  simp only [Except.mapError, ok_bind]
  rw [if_neg (by rw [Int64.lt_iff_toInt_lt]; simpa using hc), if_neg hne]
  cases hk : (cardinality u.dimensions).toInt.toNat with
  | zero =>
    -- `ScanIndex(0)` already panics when there is no slot
    have hzero : (cardinality u.dimensions).toInt = 0 := by omega
    rw [hzero]
    simp [index]
  | succ k =>
    rw [hk] at hover
    rw [index_replicate_zero, ok_bind, hover]

end Decode

/-! ## Elements and their quoted flags -/

/-- Every step of the main loop keeps one quoted flag per element. -/
theorem arrayScanLoop_lengths {st st' : ArrayScan} {buf rest : Bytes}
    (h : arrayScanLoop st buf = .ok (st', rest)) (hst : st.quoted.length = st.elements.length) :
    st'.quoted.length = st'.elements.length := by
  fun_induction arrayScanLoop st buf with
  | case1 | case8 => cases h
  | case2 | case4 | case6 | case9 =>
    -- the loop stops after a brace, a comma or a value
    obtain ⟨rfl, -⟩ := Prod.mk.inj (Except.ok.inj h)
    simp +zetaDelta [hst]
  | case3 | case5 | case7 | case10 =>
    rename_i ih
    exact ih h (by simp +zetaDelta [hst])

/-- Whatever the text, a parsed array has one quoted flag per element, so
`uta.Quoted[i]` never panics in `decodeText`. -/
theorem parseUntypedTextArray_lengths {src : Bytes} {u : UntypedTextArray}
    (h : parseUntypedTextArray src = .ok u) : u.quoted.length = u.elements.length := by
  simp only [parseUntypedTextArray, bind, Except.bind] at h
  -- each fallible step of the parse: the first read, the explicit dimensions,
  -- the opening brace, the open loop, the main loop and the trailing text
  split at h
  · cases h
  split at h
  · cases h
  split at h
  · cases h
  split at h
  · cases h
  split at h
  · cases h
  split at h
  · cases h
  rename_i hscan _
  cases h
  exact arrayScanLoop_lengths hscan rfl

/-- `decodeText` of a text parsed as the values of elements `es`: each
element in its slot when the dimensions make room for them all, else the
panic of `ScanIndex` at the first element past `cardinality(Dimensions)`. -/
theorem decodeArrayText_elementValues {src : Bytes} {es : List (Option Bytes)}
    {D : List ArrayDimension}
    (h : parseUntypedTextArray src = .ok ⟨(es.map elementValue).map Prod.fst,
      (es.map elementValue).map Prod.snd, D⟩)
    (hne : es ≠ []) (hc : 0 ≤ (cardinality D).toInt) :
    decodeArrayText src =
      if es.length ≤ (cardinality D).toInt.toNat then
        .ok (es.map some ++ List.replicate ((cardinality D).toInt.toNat - es.length) none)
      else crash (.indexOutOfRange (cardinality D).toInt (cardinality D).toInt) := by
  have hne' : (es.map elementValue).map Prod.fst ≠ [] := by simpa using hne
  have hzip : ((es.map elementValue).map Prod.fst).zip ((es.map elementValue).map Prod.snd) =
      es.map elementValue :=
    (List.zip_of_prod rfl rfl).symm
  split
  · rename_i hn
    rw [decodeArrayText_fill h (by simp) hc hne' (by simpa using hn)]
    dsimp only
    rw [hzip, List.map_map, List.length_map, List.length_map]
    congr 2
    -- each slot gets what its element was
    exact List.map_congr_left fun e _ => congrArg some (elementSource_elementValue e)
  · rename_i hn
    exact decodeArrayText_overflow h (by simp) hc hne' (by simpa using hn)

/-- `decodeText` of a block. -/
theorem decodeArrayText_render (items : List ArrayText) (hv : ValidElements (itemsLeaves items))
    (hne : itemsLeaves items ≠ []) (hc : 0 ≤ (cardinality (firstPathDims items)).toInt) :
    decodeArrayText (block items).render =
      if (itemsLeaves items).length ≤ (cardinality (firstPathDims items)).toInt.toNat then
        .ok ((itemsLeaves items).map some ++ List.replicate
          ((cardinality (firstPathDims items)).toInt.toNat - (itemsLeaves items).length) none)
      else crash (.indexOutOfRange (cardinality (firstPathDims items)).toInt
        (cardinality (firstPathDims items)).toInt) := by
  have hp := parseUntypedTextArray_render items hv
  rw [if_neg hne] at hp
  exact decodeArrayText_elementValues hp hne hc

/-! ## The shape of a parsed array -/

/-- What `parseUntypedTextArray` returns, and what `decodeText` does with
it: for every text one quoted flag per element; for every block of
elements written as the encoder writes them, the elements in order with
the dimensions of the first path of blocks, so that `decodeText` fills
one slot per element when those dimensions make room for them all and
panics at the first element past `cardinality(Dimensions)` otherwise. A
ragged block, whose later blocks hold more elements than its first,
therefore panics. -/
theorem parseUntypedTextArray_first_path_shape :
    (∀ (src : Bytes) (u : UntypedTextArray), parseUntypedTextArray src = .ok u →
      u.quoted.length = u.elements.length) ∧
    ∀ items : List ArrayText, ValidElements (itemsLeaves items) →
      parseUntypedTextArray (block items).render =
        .ok ⟨((itemsLeaves items).map elementValue).map Prod.fst,
          ((itemsLeaves items).map elementValue).map Prod.snd,
          if itemsLeaves items = [] then [] else firstPathDims items⟩ ∧
      (itemsLeaves items ≠ [] → 0 ≤ (cardinality (firstPathDims items)).toInt →
        decodeArrayText (block items).render =
          if (itemsLeaves items).length ≤ (cardinality (firstPathDims items)).toInt.toNat then
            .ok ((itemsLeaves items).map some ++ List.replicate
              ((cardinality (firstPathDims items)).toInt.toNat - (itemsLeaves items).length) none)
          else crash (.indexOutOfRange (cardinality (firstPathDims items)).toInt
            (cardinality (firstPathDims items)).toInt)) :=
  ⟨fun _ _ h => parseUntypedTextArray_lengths h,
    fun items hv => ⟨parseUntypedTextArray_render items hv, decodeArrayText_render items hv⟩⟩

/-- `{{1},{2,3}}`: three elements under the dimensions `[2][1]` of its
first path, and `decodeText` panics at `ScanIndex(2)`. -/
theorem parseUntypedTextArray_first_path_shape_ragged :
    parseUntypedTextArray [123, 123, 49, 125, 44, 123, 50, 44, 51, 125, 125] =
      .ok ⟨[[49], [50], [51]], [false, false, false], [⟨2, 1⟩, ⟨1, 1⟩]⟩ ∧
    decodeArrayText [123, 123, 49, 125, 44, 123, 50, 44, 51, 125, 125] =
      crash (.indexOutOfRange 2 2) := by
  have hv : ValidElements (itemsLeaves
      [block [element (some [49])], block [element (some [50]), element (some [51])]]) := by
    intro t ht
    simp only [itemsLeaves, leaves, List.append_nil, List.cons_append, List.nil_append,
      List.mem_cons, Option.some.injEq, List.not_mem_nil, or_false] at ht
    rcases ht with rfl | rfl | rfl
    · exact ⟨['1'], rfl⟩
    · exact ⟨['2'], rfl⟩
    · exact ⟨['3'], rfl⟩
  obtain ⟨hp, hd⟩ := parseUntypedTextArray_first_path_shape.2 _ hv
  exact ⟨hp, hd (by decide) (by decide)⟩

end GaussdbGo.Gaussdbtype
