import GaussdbGo.Gaussdbtype.Hstore

/-!
# gaussdbtype — hstore: what the parser's cache is for, and the round trips

`parseHstore` keeps in `nextBackslash` the first backslash at or after its
cursor (`HstoreParser.Inv`). While that holds, `consumeDoubleQuoted` reads a
quoted string as `unquote`, a plain left-to-right unescaper of what is left,
does on either path, and leaves the cache exact again (`resume`). Every step
of the parse keeps the invariant, so the parse of what the text encoder
writes returns the hstore's pairs.

The binary scanner reads each length through `int32`: the pairs come back
when every key and value is shorter than `2^31` bytes.
-/

namespace GaussdbGo.Gaussdbtype

open GoStd GoStd.BigEndian GaussdbGo.Proto

/-! ## The cache and the plain unescaper -/

/-- The first backslash of `str` at or after `pos`, `-1` for none: what
`newHSP` stores, and what the slow path of `consumeDoubleQuoted` stores
again. -/
def firstBackslash (str : Bytes) (pos : Nat) : Int :=
  let i := indexByte (str.drop pos) 92
  if i = -1 then -1 else i + pos

/-- Past bytes that are no backslash, the first backslash is the same. -/
theorem firstBackslash_skip {str seg t : Bytes} {pos : Nat} (hd : str.drop pos = seg ++ t)
    (hseg : 92 ∉ seg) : firstBackslash str pos = firstBackslash str (pos + seg.length) := by
  have ht : str.drop (pos + seg.length) = t := by
    rw [← List.drop_drop, hd, List.drop_left]
  unfold firstBackslash
  rw [hd, ht, indexByte_append_of_not_mem_left hseg]
  by_cases h92 : 92 ∈ t
  · have hnn := indexByte_nonneg_iff.mpr h92
    rw [if_pos h92, if_neg (by omega), if_neg (by omega)]
    push_cast
    omega
  · rw [if_neg h92, indexByte_of_not_mem h92]
    rfl

/-- A plain left-to-right reader of a double-quoted string whose opening
quote is read: a backslash takes the next byte, which must be a backslash or
a double quote, and the first other double quote ends the string. `builder`
holds what is read so far; the result is the string and what follows its
closing quote. -/
def unquote (builder : Bytes) : Bytes → Go HstoreTextError (Bytes × Bytes)
  | [] => raise .eosInQuoted
  | b :: rest =>
    if b = 34 then pure (builder, rest)
    else if b = 92 then
      match rest with
      | [] => raise .eosInQuoted
      | e :: rest =>
        if e = 92 ∨ e = 34 then unquote (builder ++ [e]) rest
        else raise (.unexpectedEscape e)
    else unquote (builder ++ [b]) rest

section Unquote

variable {builder rest : Bytes}

theorem unquote_quote : unquote builder (34 :: rest) = pure (builder, rest) := by
  cases rest <;> simp [unquote]

theorem unquote_escape {e : UInt8} (he : e = 92 ∨ e = 34) :
    unquote builder (92 :: e :: rest) = unquote (builder ++ [e]) rest := by
  simp [unquote, he]

theorem unquote_plain_cons {b : UInt8} (h34 : b ≠ 34) (h92 : b ≠ 92) :
    unquote builder (b :: rest) = unquote (builder ++ [b]) rest := by
  cases rest <;> simp [unquote, h34, h92]

/-- Bytes that are neither quote nor backslash are copied. -/
theorem unquote_plain {seg : Bytes} (hseg : ∀ b ∈ seg, b ≠ 34 ∧ b ≠ 92) :
    unquote builder (seg ++ rest) = unquote (builder ++ seg) rest := by
  induction seg generalizing builder with
  | nil => simp
  | cons b seg ih =>
    have hb := hseg b (List.mem_cons_self ..)
    rw [List.cons_append, unquote_plain_cons hb.1 hb.2,
      ih (fun c hc => hseg c (List.mem_cons_of_mem _ hc))]
    simp

theorem quoteArrayReplace_cons (b : UInt8) (t : Bytes) :
    quoteArrayReplace (b :: t) =
      (if b = 92 then [92, 92] else if b = 34 then [92, 34] else [b]) ++ quoteArrayReplace t :=
  quoteCompositeReplace_cons b t

/-- The reader undoes `quoteArrayReplacer` up to the closing quote. -/
theorem unquote_quoteArrayReplace (k : Bytes) :
    unquote builder (quoteArrayReplace k ++ 34 :: rest) = pure (builder ++ k, rest) := by
  induction k generalizing builder with
  | nil => simp [quoteArrayReplace, quoteCompositeReplace, unquote_quote]
  | cons b k ih =>
    rw [quoteArrayReplace_cons]
    by_cases h92 : b = 92
    · -- an escaped backslash
      subst h92
      rw [if_pos rfl, List.append_assoc, List.cons_append, List.cons_append, List.nil_append,
        unquote_escape (Or.inl rfl), ih]
      simp
    by_cases h34 : b = 34
    · -- an escaped double quote
      subst h34
      rw [if_neg h92, if_pos rfl, List.append_assoc, List.cons_append, List.cons_append,
        List.nil_append, unquote_escape (Or.inr rfl), ih]
      simp
    · rw [if_neg h92, if_neg h34, List.append_assoc, List.singleton_append,
        unquote_plain_cons h34 h92, ih]
      simp

end Unquote

namespace HstoreParser

/-- The cache is exact: `nextBackslash` is the first backslash at or after
the cursor. -/
structure Inv (p : HstoreParser) : Prop where
  pos_le : p.pos ≤ p.str.length
  cache : p.nextBackslash = firstBackslash p.str p.pos

theorem inv_new (s : Bytes) : (new s).Inv := by
  refine ⟨Nat.zero_le _, ?_⟩
  simp only [new, firstBackslash, List.drop_zero, Nat.cast_zero, Int.add_zero]
  split <;> simp_all

/-- The parser moved on to where `rest` is what is left, its cache exact. -/
def resume (p : HstoreParser) (rest : Bytes) : HstoreParser :=
  ⟨p.str, p.str.length - rest.length, firstBackslash p.str (p.str.length - rest.length)⟩

theorem inv_resume (p : HstoreParser) (rest : Bytes) : (p.resume rest).Inv :=
  ⟨Nat.sub_le _ _, rfl⟩

@[simp] theorem resume_str (p : HstoreParser) (rest : Bytes) : (p.resume rest).str = p.str := rfl

@[simp] theorem resume_resume (p : HstoreParser) (rest rest' : Bytes) :
    (p.resume rest).resume rest' = p.resume rest' := rfl

/-- A parser with an exact cache is its own resumption at what it has left. -/
theorem eq_resume {p : HstoreParser} (h : p.Inv) : p = p.resume (p.str.drop p.pos) := by
  have hpos : p.str.length - (p.str.drop p.pos).length = p.pos := by
    rw [List.length_drop]
    have := h.pos_le
    omega
  cases p with
  | mk str pos nb =>
    simp only [resume] at hpos ⊢
    rw [hpos, ← h.cache]

/-- Resumed at a suffix of what is left, the parser has that suffix left. -/
theorem drop_resume {p : HstoreParser} {pre rest : Bytes} (hp : p.pos ≤ p.str.length)
    (hd : p.str.drop p.pos = pre ++ rest) :
    (p.resume rest).str.drop (p.resume rest).pos = rest := by
  have hlen := congrArg List.length hd
  simp only [List.length_drop, List.length_append] at hlen
  have hpos : p.str.length - rest.length = p.pos + pre.length := by omega
  simp only [resume, hpos]
  rw [← List.drop_drop, hd, List.drop_left]

theorem drop_of_getElem? {l : Bytes} {n : Nat} {a : UInt8} (h : l[n]? = some a) :
    l.drop n = a :: l.drop (n + 1) := by
  obtain ⟨hn, rfl⟩ := List.getElem?_eq_some_iff.mp h
  exact List.drop_eq_getElem_cons hn

/-- The slow path's loop is the plain unescaper from the cursor on. -/
theorem escapesLoop_eq {p : HstoreParser} {builder : Bytes} (hp : p.pos ≤ p.str.length) :
    p.escapesLoop builder = unquote builder (p.str.drop p.pos) >>=
      fun r => pure (r.1, { p with pos := p.str.length - r.2.length }) := by
  fun_induction escapesLoop p builder with
  | case1 p builder h =>
    -- the end of the string
    rw [List.drop_eq_nil_of_le (List.getElem?_eq_none_iff.mp h)]
    rfl
  | case2 p builder h =>
    -- the closing quote
    have hlt := (List.getElem?_eq_some_iff.mp h).1
    rw [drop_of_getElem? h, unquote_quote, pure_bind, List.length_drop]
    congr 3
    omega
  | case3 p builder h₁ h₀ _ =>
    -- a backslash at the end
    rw [drop_of_getElem? h₀, List.drop_eq_nil_of_le (List.getElem?_eq_none_iff.mp h₁)]
    simp [unquote]
  | case4 p builder e h₁ hbad h₀ _ =>
    rw [drop_of_getElem? h₀, drop_of_getElem? h₁]
    simp [unquote, hbad]
  | case5 p builder e h₁ hok h₀ _ ih =>
    have hlt := (List.getElem?_eq_some_iff.mp h₁).1
    rw [ih (by dsimp only; omega), drop_of_getElem? h₀, drop_of_getElem? h₁,
      unquote_escape (not_not.mp hok)]
  | case6 p builder b h₀ hq hb ih =>
    have hlt := (List.getElem?_eq_some_iff.mp h₀).1
    rw [ih (by dsimp only; omega), drop_of_getElem? h₀, unquote_plain_cons hq hb]

/-- Within what is left, the slice from the cursor over `n` bytes. -/
theorem slice_from_pos {p : HstoreParser} {seg rest : Bytes} (hp : p.pos ≤ p.str.length)
    (hd : p.str.drop p.pos = seg ++ rest) :
    (slice p.str p.pos ((seg.length : Int) + p.pos) : Go HstoreTextError Bytes) = .ok seg := by
  have hlen := congrArg List.length hd
  simp only [List.length_drop, List.length_append] at hlen
  have hcast : ((seg.length : Int) + p.pos) = ((p.pos + seg.length : Nat) : Int) := by
    push_cast
    omega
  rw [hcast, slice_of_le _ (Nat.le_add_right _ _) (by omega), hd, Nat.add_sub_cancel_left,
    List.take_left]

/-- `consumeDoubleQuoted` reads, on either path, what the plain unescaper
reads from the cursor, and leaves the cache exact. -/
theorem consumeDoubleQuoted_eq {p : HstoreParser} (hinv : p.Inv) (hq : 34 ∈ p.str.drop p.pos) :
    p.consumeDoubleQuoted = unquote [] (p.str.drop p.pos) >>= fun r => pure (r.1, p.resume r.2) := by
  obtain ⟨seg, after, hd, hseg⟩ := exists_eq_append_first hq
  have hlen : p.str.length = p.pos + seg.length + 1 + after.length := by
    have := congrArg List.length hd
    simp only [List.length_drop, List.length_append, List.length_cons] at this
    have := hinv.pos_le
    omega
  have hslice := slice_from_pos hinv.pos_le hd
  unfold consumeDoubleQuoted
  rw [sliceFrom_of_le _ hinv.pos_le, ok_bind, hd, indexByte_append_of_not_mem hseg,
    if_neg (by omega)]
  dsimp only
  split
  · -- the fast path: no backslash before the closing quote
    rename_i hfast
    have h92 : 92 ∉ seg := by
      intro h92
      have hcache := hinv.cache
      have hlt := indexByte_lt_length h92
      have hnn := indexByte_nonneg_iff.mpr h92
      rw [firstBackslash, hd, indexByte_append_of_mem_left h92] at hcache
      rw [if_neg (by omega)] at hcache
      omega
    have hplain : ∀ b ∈ seg, b ≠ 34 ∧ b ≠ 92 := fun b hb =>
      ⟨fun h => hseg (h ▸ hb), fun h => h92 (h ▸ hb)⟩
    rw [hslice, ok_bind, unquote_plain hplain, List.nil_append, unquote_quote, pure_bind]
    have hskip := firstBackslash_skip
      (show p.str.drop p.pos = (seg ++ [34]) ++ after by rw [hd]; simp)
      (by simp [h92])
    simp only [resume, List.length_append, List.length_singleton] at hskip ⊢
    congr 3
    · omega
    · rw [hinv.cache, hskip]
      congr 1
      omega
  · -- the slow path from the cached backslash
    rename_i hslow
    have hcache := hinv.cache
    rw [firstBackslash, hd] at hcache
    have h92 : 92 ∈ seg ++ 34 :: after := by
      by_contra h92
      rw [indexByte_of_not_mem h92, if_pos rfl] at hcache
      exact hslow (Or.inl hcache)
    obtain ⟨pre, post, hpre, hpre92⟩ := exists_eq_append_first h92
    rw [hpre, indexByte_append_of_not_mem hpre92, if_neg (by omega)] at hcache
    -- the cached backslash comes before the closing quote
    have hlt : pre.length < seg.length := by
      have hle : pre.length ≤ seg.length := by omega
      refine Nat.lt_of_le_of_ne hle fun heq => ?_
      have hat := congrArg (·[pre.length]?) hpre
      simp [heq] at hat
    have hplain : ∀ b ∈ pre, b ≠ 34 ∧ b ≠ 92 := by
      have htake := congrArg (List.take pre.length) hpre
      rw [List.take_append_of_le_length hlt.le, List.take_left] at htake
      intro b hb
      refine ⟨fun h => hseg ?_, fun h => hpre92 (h ▸ hb)⟩
      rw [← h]
      exact List.mem_of_mem_take (htake ▸ hb)
    have hd' : p.str.drop p.pos = pre ++ 92 :: post := hd.trans hpre
    have hpos : (((pre.length : Int) + p.pos).toNat) = p.pos + pre.length := by omega
    have hdrop : p.str.drop (p.pos + pre.length) = 92 :: post := by
      rw [← List.drop_drop, hd', List.drop_left]
    rw [hcache, consumeDoubleQuotedWithEscapes, slice_from_pos hinv.pos_le hd', ok_bind,
      escapesLoop_eq (by dsimp only; omega)]
    dsimp only
    rw [hpos, hdrop, hpre, unquote_plain hplain, List.nil_append]
    simp only [bind_assoc, pure_bind]
    congr 1
    funext r
    -- the cache is looked up again from where the string ended
    rw [sliceFrom_of_le _ (Nat.sub_le _ _), ok_bind]
    simp only [resume, firstBackslash]
    by_cases hx : indexByte (p.str.drop (p.str.length - r.2.length)) 92 = -1 <;> simp [hx]

/-- With no closing quote left, the fast path's search fails. -/
theorem consumeDoubleQuoted_of_not_mem {p : HstoreParser} (hinv : p.Inv)
    (hq : 34 ∉ p.str.drop p.pos) : p.consumeDoubleQuoted = raise .eosInQuoted := by
  unfold consumeDoubleQuoted
  rw [sliceFrom_of_le _ hinv.pos_le, ok_bind, indexByte_of_not_mem hq, if_pos rfl]

/-! ### Each step over what the encoder wrote -/

/-- Moving the cursor over bytes that are no backslash keeps the cache. -/
theorem advance_eq_resume {p : HstoreParser} (hinv : p.Inv) {pre rest : Bytes}
    (hd : p.str.drop p.pos = pre ++ rest) (h92 : 92 ∉ pre) :
    { p with pos := p.pos + pre.length } = p.resume rest := by
  have hlen := congrArg List.length hd
  simp only [List.length_drop, List.length_append] at hlen
  have hpos : p.str.length - rest.length = p.pos + pre.length := by
    have := hinv.pos_le
    omega
  simp only [resume, hpos]
  rw [← firstBackslash_skip hd h92, ← hinv.cache]

theorem consumeExpectedByte_next {p : HstoreParser} (hinv : p.Inv) {b : UInt8} {rest : Bytes}
    (hd : p.str.drop p.pos = b :: rest) (hb : b ≠ 92) :
    p.consumeExpectedByte b = pure (p.resume rest) := by
  have hget : p.str[p.pos]? = some b := by
    rw [← Nat.add_zero p.pos, ← List.getElem?_drop, hd]
    rfl
  rw [consumeExpectedByte, hget]
  simp only [ne_eq, not_true_eq_false, if_false]
  exact congrArg pure
    (advance_eq_resume hinv (show p.str.drop p.pos = [b] ++ rest from hd) (by simp [Ne.symm hb]))

theorem consumeExpected2_next {p : HstoreParser} (hinv : p.Inv) {one two : UInt8} {rest : Bytes}
    (hd : p.str.drop p.pos = one :: two :: rest) (h₁ : one ≠ 92) (h₂ : two ≠ 92) :
    p.consumeExpected2 one two = pure (p.resume rest) := by
  have hlen := congrArg List.length hd
  simp only [List.length_drop, List.length_cons] at hlen
  have hget : ∀ i, p.str.getD (p.pos + i) 0 = (one :: two :: rest).getD i 0 := by
    intro i
    rw [List.getD_eq_getElem?_getD, List.getD_eq_getElem?_getD, ← List.getElem?_drop, hd]
  have h₀ := hget 0
  have h₁' := hget 1
  rw [Nat.add_zero] at h₀
  rw [consumeExpected2, if_neg (by omega), h₀, h₁']
  simp only [List.getD_cons_zero, List.getD_cons_succ, ne_eq, not_true_eq_false, if_false]
  exact congrArg pure (advance_eq_resume hinv (show p.str.drop p.pos = [one, two] ++ rest from hd)
    (by simp [Ne.symm h₁, Ne.symm h₂]))

theorem consumeDoubleQuoted_quoted {p : HstoreParser} (hinv : p.Inv) {k rest : Bytes}
    (hd : p.str.drop p.pos = quoteArrayReplace k ++ 34 :: rest) :
    p.consumeDoubleQuoted = pure (k, p.resume rest) := by
  rw [consumeDoubleQuoted_eq hinv (by simp [hd]), hd, unquote_quoteArrayReplace]
  rfl

/-- What the text encoder writes for a value: `NULL`, or the quoted text. -/
def valueText : Option Bytes → Bytes
  | none => [78, 85, 76, 76]
  | some v => 34 :: quoteArrayReplace v ++ [34]

/-- What the text encoder writes for one pair. -/
def pairText (kv : Bytes × Option Bytes) : Bytes :=
  34 :: quoteArrayReplace kv.1 ++ [34] ++ [61, 62] ++ valueText kv.2

theorem consumeDoubleQuotedOrNull_valueText {p : HstoreParser} (hinv : p.Inv) {v : Option Bytes}
    {rest : Bytes} (hd : p.str.drop p.pos = valueText v ++ rest) :
    p.consumeDoubleQuotedOrNull = pure (v, p.resume rest) := by
  have hlen := congrArg List.length hd
  simp only [List.length_drop, List.length_append] at hlen
  have hnotEnd : ¬ p.atEnd := by
    cases v <;> simp [atEnd, valueText] at hlen ⊢ <;> omega
  have hnext : p.str.getD p.pos 0 = (valueText v).getD 0 0 := by
    rw [List.getD_eq_getElem?_getD, ← Nat.add_zero p.pos, ← List.getElem?_drop, hd]
    cases v <;> rfl
  rw [consumeDoubleQuotedOrNull, if_neg hnotEnd]
  dsimp only
  cases v with
  | none =>
    -- `NULL`, read two bytes at a time
    rw [hnext, show (valueText none).getD 0 0 = 78 from rfl, if_pos rfl]
    have hd₁ : p.str.drop p.pos = [78, 85] ++ 76 :: 76 :: rest := hd
    have hd₂ := drop_resume hinv.pos_le hd₁
    rw [consumeExpected2_next hinv (show p.str.drop p.pos = 78 :: 85 :: 76 :: 76 :: rest from hd)
        (by decide) (by decide), pure_bind,
      consumeExpected2_next (inv_resume p _) hd₂ (by decide) (by decide)]
    rfl
  | some v =>
    rw [hnext, show (valueText (some v)).getD 0 0 = 34 from rfl, if_neg (by decide),
      if_neg (not_not.mpr rfl)]
    have hd₁ : p.str.drop p.pos = [34] ++ (quoteArrayReplace v ++ 34 :: rest) := by
      rw [hd]
      simp [valueText]
    have hquote := advance_eq_resume hinv hd₁ (by decide)
    rw [List.length_singleton] at hquote
    rw [hquote, consumeDoubleQuoted_quoted (inv_resume p _) (drop_resume hinv.pos_le hd₁)]
    rfl

/-- One pass of the loop reads back one pair the encoder wrote. -/
theorem parsePair_pairText {p : HstoreParser} (hinv : p.Inv) {first : Bool}
    {kv : Bytes × Option Bytes} {rest : Bytes}
    (hd : p.str.drop p.pos = (if first then [] else [44, 32]) ++ pairText kv ++ rest) :
    p.parsePair first = pure (kv, p.resume rest) := by
  obtain ⟨k, v⟩ := kv
  -- every step resumes the parser at a suffix of what the pair leaves
  have hat : ∀ {pre S : Bytes}, p.str.drop p.pos = pre ++ S →
      (p.resume S).str.drop (p.resume S).pos = S :=
    fun h => drop_resume hinv.pos_le h
  have hpair : p.str.drop p.pos = (if first then [] else [44, 32]) ++
      34 :: (quoteArrayReplace k ++ 34 :: 61 :: 62 :: (valueText v ++ rest)) := by
    rw [hd]
    simp [pairText]
  have hsep : (if first then pure p else p.consumePairSeparator) = (pure (p.resume
      (34 :: (quoteArrayReplace k ++ 34 :: 61 :: 62 :: (valueText v ++ rest)))) :
        Go HstoreTextError HstoreParser) := by
    cases first with
    | false => exact consumeExpected2_next hinv hpair (by decide) (by decide)
    | true =>
      have hfirst : p.str.drop p.pos =
          34 :: (quoteArrayReplace k ++ 34 :: 61 :: 62 :: (valueText v ++ rest)) := by
        simpa using hpair
      rw [if_pos rfl, ← hfirst, ← eq_resume hinv]
  have hkey : p.str.drop p.pos = ((if first then [] else [44, 32]) ++ [34]) ++
      (quoteArrayReplace k ++ 34 :: 61 :: 62 :: (valueText v ++ rest)) := by
    rw [hpair]
    simp
  have hkv : p.str.drop p.pos = ((if first then [] else [44, 32]) ++ 34 :: quoteArrayReplace k ++
      [34]) ++ 61 :: 62 :: (valueText v ++ rest) := by
    rw [hpair]
    simp
  have hval : p.str.drop p.pos = ((if first then [] else [44, 32]) ++ 34 :: quoteArrayReplace k ++
      [34, 61, 62]) ++ (valueText v ++ rest) := by
    rw [hpair]
    simp
  rw [parsePair, hsep, pure_bind,
    consumeExpectedByte_next (inv_resume _ _) (hat hpair) (by decide), pure_bind, resume_resume,
    consumeDoubleQuoted_quoted (inv_resume _ _) (hat hkey), pure_bind]
  dsimp only
  rw [consumeKVSeparator, resume_resume,
    consumeExpected2_next (inv_resume _ _) (hat hkv) (by decide) (by decide), pure_bind,
    resume_resume, consumeDoubleQuotedOrNull_valueText (inv_resume _ _) (hat hval), pure_bind,
    resume_resume]

end HstoreParser

open HstoreParser

/-! ## The parse loop over what the text encoder wrote -/

section Loop

variable {first : Bool} {p q : HstoreParser} {result : List (Bytes × Option Bytes)}

theorem parseHstoreLoop_end (h : p.atEnd) : parseHstoreLoop first p result = pure result := by
  rw [parseHstoreLoop, dif_pos h]

theorem parseHstoreLoop_pair {k : Bytes} {v : Option Bytes} (hne : ¬ p.atEnd)
    (h : p.parsePair first = .ok ((k, v), q)) :
    parseHstoreLoop first p result = parseHstoreLoop false q (mapInsert result k v) := by
  rw [parseHstoreLoop, dif_neg hne]
  split
  · rename_i heq
    rw [h] at heq
    cases heq
  · rename_i heq
    rw [h] at heq
    cases heq
    rfl

/-- After the first pair, each pair the encoder wrote is read and stored. -/
theorem parseHstoreLoop_pairs :
    ∀ {pairs : List (Bytes × Option Bytes)} {p : HstoreParser} {result}, p.Inv →
      p.str.drop p.pos = pairs.flatMap (fun kv => [44, 32] ++ pairText kv) →
      parseHstoreLoop false p result = pure (pairs.foldl (fun m kv => mapInsert m kv.1 kv.2) result)
  | [], p, result, _, hd => by
    rw [List.flatMap_nil, List.drop_eq_nil_iff] at hd
    rw [parseHstoreLoop_end (by simpa [atEnd] using hd)]
    rfl
  | kv :: pairs, p, result, hinv, hd => by
    have hd' : p.str.drop p.pos = (if false then [] else [44, 32]) ++ pairText kv ++
        pairs.flatMap (fun kv => [44, 32] ++ pairText kv) := by
      rw [hd]
      simp
    have hne : ¬ p.atEnd := by
      have hlen := congrArg List.length hd'
      simp only [List.length_drop, List.length_append] at hlen
      simp only [atEnd, decide_eq_true_eq, Nat.not_le]
      simp at hlen
      omega
    rw [parseHstoreLoop_pair hne (parsePair_pairText hinv hd'), List.foldl_cons]
    exact parseHstoreLoop_pairs (inv_resume _ _) (drop_resume hinv.pos_le hd')

end Loop

/-- One pass of the encoder's loop. -/
theorem hstoreTextLoop_cons (firstPair : Bool) (buf : Bytes) (kv : Bytes × Option Bytes)
    (pairs : List (Bytes × Option Bytes)) :
    hstoreTextLoop firstPair buf (kv :: pairs) =
      hstoreTextLoop false (buf ++ (if firstPair then [] else [44, 32]) ++ pairText kv) pairs := by
  obtain ⟨k, v⟩ := kv
  cases firstPair <;> cases v <;> simp [hstoreTextLoop, pairText, valueText]

theorem hstoreTextLoop_false (buf : Bytes) (pairs : List (Bytes × Option Bytes)) :
    hstoreTextLoop false buf pairs = buf ++ pairs.flatMap (fun kv => [44, 32] ++ pairText kv) := by
  induction pairs generalizing buf with
  | nil => simp [hstoreTextLoop]
  | cons kv pairs ih =>
    rw [hstoreTextLoop_cons, ih]
    simp

/-- `parseHstore` reads back every hstore the text encoder writes. -/
theorem parseHstore_encodeHstoreText (h : Hstore) :
    parseHstore (encodeHstoreText h []) = .ok h.entries := by
  obtain ⟨entries, nodup⟩ := h
  cases entries with
  | nil =>
    -- the empty hstore is the empty text
    rw [encodeHstoreText, if_pos rfl, parseHstore, parseHstoreLoop_end (by decide)]
    rfl
  | cons kv pairs =>
    set rest := pairs.flatMap (fun kv => [44, 32] ++ pairText kv)
    have htext : encodeHstoreText ⟨kv :: pairs, nodup⟩ [] = pairText kv ++ rest := by
      rw [encodeHstoreText, if_neg (List.cons_ne_nil _ _), hstoreTextLoop_cons, hstoreTextLoop_false]
      simp [rest]
    have hd : (new (pairText kv ++ rest)).str.drop (new (pairText kv ++ rest)).pos =
        (if true then [] else [44, 32]) ++ pairText kv ++ rest := by
      simp [new]
    have hne : ¬ (new (pairText kv ++ rest)).atEnd := by
      simp [new, atEnd, pairText]
    rw [htext, parseHstore, parseHstoreLoop_pair hne (parsePair_pairText (inv_new _) hd),
      parseHstoreLoop_pairs (inv_resume _ _) (drop_resume (Nat.zero_le _) hd),
      ← List.foldl_cons, foldl_mapInsert_of_nodup (by simpa using nodup)]
    rfl


/-! ## The binary codec -/

/-- What the binary encoder writes for a value: the length `-1` for NULL,
else the length and the bytes. -/
def valueBinary : Option Bytes → Bytes
  | none => putUint32 (-1 : Int32).toUInt32
  | some v => putUint32 (UInt32.ofNat v.length) ++ v

/-- What the binary encoder writes for one pair. -/
def pairBinary (kv : Bytes × Option Bytes) : Bytes :=
  putUint32 (UInt32.ofNat kv.1.length) ++ kv.1 ++ valueBinary kv.2

theorem appendHstorePair_eq (buf : Bytes) (kv : Bytes × Option Bytes) :
    appendHstorePair buf kv = buf ++ pairBinary kv := by
  obtain ⟨k, v⟩ := kv
  cases v <;> simp [appendHstorePair, pairBinary, valueBinary, appendInt32, appendUint32]

/-- The binary encoding: the pair count, then each pair. -/
theorem encodeHstoreBinary_eq (h : Hstore) :
    encodeHstoreBinary h [] =
      putUint32 (UInt32.ofNat h.entries.length) ++ h.entries.flatMap pairBinary := by
  have hfold : ∀ (pairs : List (Bytes × Option Bytes)) (buf : Bytes),
      pairs.foldl appendHstorePair buf = buf ++ pairs.flatMap pairBinary := by
    intro pairs
    induction pairs with
    | nil => simp
    | cons kv pairs ih =>
      intro buf
      rw [List.foldl_cons, appendHstorePair_eq, ih, List.flatMap_cons, List.append_assoc]
  rw [encodeHstoreBinary, hfold]
  rfl

section Reads

variable {src rest : Bytes} {r : Nat} {x : UInt32}

/-- The scanner's reads at a position: what is left there, its first word,
and the bytes after the word. -/
theorem reads_at (hd : src.drop r = putUint32 x ++ rest) :
    (sliceFrom src r : Go HstoreBinaryError Bytes) = .ok (putUint32 x ++ rest) ∧
      (uint32 (putUint32 x ++ rest) : Go HstoreBinaryError UInt32) = .ok x ∧
      (sliceFrom src (r + 4 : Nat) : Go HstoreBinaryError Bytes) = .ok rest := by
  have hlen := congrArg List.length hd
  simp only [List.length_drop, List.length_append, length_putUint32] at hlen
  have h₄ : src.drop (r + 4) = rest := by
    rw [← List.drop_drop, hd, List.drop_left' (length_putUint32 x)]
  have hr : r + 4 ≤ src.length := by omega
  refine ⟨?_, uint32_putUint32 x rest, ?_⟩
  · rw [sliceFrom_of_le _ (by omega), hd]
  · rw [sliceFrom_of_le _ hr, h₄]

/-- The slice of the next `b.length` bytes is `b`. -/
theorem slice_at {b : Bytes} (hr : r ≤ src.length) (hd : src.drop r = b ++ rest) :
    (slice src (r : Int) (r + (b.length : Int)) : Go HstoreBinaryError Bytes) = .ok b := by
  have hlen := congrArg List.length hd
  simp only [List.length_drop, List.length_append] at hlen
  have h := slice_of_le (ε := HstoreBinaryError) src (Nat.le_add_right r b.length) (by omega)
  push_cast at h
  rw [h, hd, Nat.add_sub_cancel_left, List.take_left]

end Reads

/-- One pass of the scanner's loop over a key shorter than `2^31` bytes and
the value's length word `x`: a negative length stores NULL, any other takes
that many bytes. -/
theorem hstoreBinaryLoop_key {src k rest : Bytes} {x : UInt32} {n rp : Nat}
    {acc : List (Bytes × Option Bytes)}
    (hd : src.drop rp = putUint32 (UInt32.ofNat k.length) ++ k ++ putUint32 x ++ rest)
    (hk : k.length < 2 ^ 31) :
    hstoreBinaryLoop src (n + 1) rp acc =
      if 0 ≤ x.toInt32.toInt then do
        let value ← slice src (rp + 8 + k.length : Nat) ((rp + 8 + k.length : Nat) + x.toInt32.toInt)
        hstoreBinaryLoop src n (rp + 8 + k.length + x.toInt32.toInt.toNat)
          (mapInsert acc k (some value))
      else hstoreBinaryLoop src n (rp + 8 + k.length) (mapInsert acc k none) := by
  have h₀ : src.drop rp = putUint32 (UInt32.ofNat k.length) ++ (k ++ (putUint32 x ++ rest)) := by
    rw [hd]
    simp
  obtain ⟨hs₀, hu₀, hs₄⟩ := reads_at h₀
  have h₄ : src.drop (rp + 4) = k ++ (putUint32 x ++ rest) := by
    rw [← List.drop_drop, h₀, List.drop_left' (length_putUint32 _)]
  have h₈ : src.drop (rp + 4 + k.length) = putUint32 x ++ rest := by
    rw [← List.drop_drop, h₄, List.drop_left]
  obtain ⟨hs₈, hu₈, -⟩ := reads_at h₈
  have hlen := congrArg List.length h₀
  simp only [List.length_drop, List.length_append, length_putUint32] at hlen
  have hpos : rp + 4 + k.length + 4 = rp + 8 + k.length := by omega
  rw [hstoreBinaryLoop]
  simp only [hs₀, ok_bind]
  rw [if_neg (by simp), hu₀, ok_bind, hs₄, ok_bind, toInt_toInt32_ofNat hk,
    if_neg (by simp; omega), slice_at (by omega) h₄, ok_bind, Int.toNat_natCast,
    hs₈, ok_bind, if_neg (by simp), ok_bind, hu₈, ok_bind, hpos]

/-- A pair whose key and value are shorter than `2^31` bytes is read back
and stored. -/
theorem hstoreBinaryLoop_pair {src : Bytes} {n rp : Nat} {acc : List (Bytes × Option Bytes)}
    {k : Bytes} {v : Option Bytes} {rest : Bytes}
    (hd : src.drop rp = pairBinary (k, v) ++ rest) (hk : k.length < 2 ^ 31)
    (hv : ∀ w, v = some w → w.length < 2 ^ 31) :
    hstoreBinaryLoop src (n + 1) rp acc =
      hstoreBinaryLoop src n (rp + (pairBinary (k, v)).length) (mapInsert acc k v) := by
  cases v with
  | none =>
    -- the length `-1`: NULL
    have hneg : ¬ 0 ≤ ((-1 : Int32).toUInt32).toInt32.toInt := by decide
    have hd' : src.drop rp = putUint32 (UInt32.ofNat k.length) ++ k ++
        putUint32 (-1 : Int32).toUInt32 ++ rest := by
      rw [hd]
      simp only [pairBinary, valueBinary]
    rw [hstoreBinaryLoop_key hd' hk, if_neg hneg]
    congr 1
    simp [pairBinary, valueBinary]
    omega
  | some w =>
    have hw := hv w rfl
    have hd' : src.drop rp = putUint32 (UInt32.ofNat k.length) ++ k ++
        putUint32 (UInt32.ofNat w.length) ++ (w ++ rest) := by
      rw [hd]
      simp [pairBinary, valueBinary]
    have hlen := congrArg List.length hd'
    simp only [List.length_drop, List.length_append, length_putUint32] at hlen
    have h₈ : src.drop (rp + 8 + k.length) = w ++ rest := by
      have hpre : rp + 8 + k.length = rp + (putUint32 (UInt32.ofNat k.length) ++ k ++
          putUint32 (UInt32.ofNat w.length)).length := by
        simp
        omega
      rw [hpre, ← List.drop_drop, hd', List.drop_left]
    rw [hstoreBinaryLoop_key hd' hk, toInt_toInt32_ofNat hw, if_pos (Int.natCast_nonneg _),
      slice_at (by omega) h₈, ok_bind, Int.toNat_natCast]
    congr 1
    simp [pairBinary, valueBinary]
    omega

/-- Every pair of the encoding is read back and stored, in order. -/
theorem hstoreBinaryLoop_pairs {src rest : Bytes} :
    ∀ {pairs : List (Bytes × Option Bytes)} {rp : Nat} {acc : List (Bytes × Option Bytes)},
      src.drop rp = pairs.flatMap pairBinary ++ rest →
      (∀ kv ∈ pairs, kv.1.length < 2 ^ 31 ∧ ∀ w, kv.2 = some w → w.length < 2 ^ 31) →
      hstoreBinaryLoop src pairs.length rp acc =
        pure (pairs.foldl (fun m kv => mapInsert m kv.1 kv.2) acc)
  | [], _, _, _, _ => rfl
  | kv :: pairs, rp, acc, hd, hlen => by
    have hd' : src.drop rp = pairBinary kv ++ (pairs.flatMap pairBinary ++ rest) := by
      rw [hd, List.flatMap_cons, List.append_assoc]
    obtain ⟨hk, hv⟩ := hlen kv (List.mem_cons_self ..)
    rw [List.length_cons, hstoreBinaryLoop_pair hd' hk hv, List.foldl_cons]
    exact hstoreBinaryLoop_pairs (by rw [← List.drop_drop, hd', List.drop_left])
      (fun kv h => hlen kv (List.mem_cons_of_mem _ h))

/-- The scanner over a count below `2^31` and what follows it. -/
theorem scanHstoreBinary_count {m : Nat} (hm : m < 2 ^ 31) (body : Bytes) :
    scanHstoreBinary (putUint32 (UInt32.ofNat m) ++ body) =
      hstoreBinaryLoop (putUint32 (UInt32.ofNat m) ++ body) m 4 [] := by
  rw [scanHstoreBinary, if_neg (by simp), uint32_putUint32, ok_bind]
  dsimp only
  rw [toInt_toInt32_ofNat hm, if_neg (by omega), Int.toNat_natCast]

/-- The binary scanner reads back every hstore of fewer than `2^31` pairs
whose keys and values are shorter than `2^31` bytes. -/
theorem scanHstoreBinary_encodeHstoreBinary (h : Hstore)
    (hlen : ∀ kv ∈ h.entries, kv.1.length < 2 ^ 31 ∧ ∀ w, kv.2 = some w → w.length < 2 ^ 31)
    (hcount : h.entries.length < 2 ^ 31) :
    scanHstoreBinary (encodeHstoreBinary h []) = .ok h.entries := by
  have hd : (putUint32 (UInt32.ofNat h.entries.length) ++ h.entries.flatMap pairBinary).drop 4 =
      h.entries.flatMap pairBinary ++ [] := by
    rw [List.drop_left' (length_putUint32 _), List.append_nil]
  rw [encodeHstoreBinary_eq, scanHstoreBinary_count hcount, hstoreBinaryLoop_pairs hd hlen,
    foldl_mapInsert_of_nodup (by simpa using h.nodup)]
  rfl

/-- A value of `2^31` bytes has a length whose `int32` is negative: the
scanner stores NULL for it, and the value's bytes are left unread. -/
theorem scanHstoreBinary_huge_value_read_as_null :
    scanHstoreBinary (encodeHstoreBinary
      ⟨[([], some (List.replicate (2 ^ 31) 0))], List.nodup_singleton _⟩ []) = .ok [([], none)] := by
  have hd : (putUint32 (UInt32.ofNat 1) ++ pairBinary ([], some (List.replicate (2 ^ 31) 0))).drop 4 =
      putUint32 (UInt32.ofNat ([] : Bytes).length) ++ [] ++ putUint32 (UInt32.ofNat (2 ^ 31)) ++
        List.replicate (2 ^ 31) 0 := by
    -- rewritten step by step: a simp set with its list simprocs would build the value
    rw [List.drop_left' (length_putUint32 _), pairBinary, valueBinary, List.length_replicate,
      List.append_nil, List.append_assoc]
  have hneg : ¬ 0 ≤ (UInt32.ofNat (2 ^ 31)).toInt32.toInt := by decide
  rw [encodeHstoreBinary_eq, List.length_singleton, List.flatMap_singleton,
    scanHstoreBinary_count (by decide), hstoreBinaryLoop_key hd (by decide), if_neg hneg]
  rfl

/-- Both codecs read back what they write, the binary one for keys, values
and counts below `2^31`; and under the cache invariant `consumeDoubleQuoted`
reads, on both of its paths, what the plain unescaper reads. -/
theorem hstore_codecs_round_trip :
    (∀ h : Hstore, parseHstore (encodeHstoreText h []) = .ok h.entries) ∧
      (∀ h : Hstore,
        (∀ kv ∈ h.entries, kv.1.length < 2 ^ 31 ∧ ∀ w, kv.2 = some w → w.length < 2 ^ 31) →
          h.entries.length < 2 ^ 31 → scanHstoreBinary (encodeHstoreBinary h []) = .ok h.entries) ∧
      (∀ p : HstoreParser, p.Inv → 34 ∈ p.str.drop p.pos →
        p.consumeDoubleQuoted =
          unquote [] (p.str.drop p.pos) >>= fun r => pure (r.1, p.resume r.2)) :=
  ⟨parseHstore_encodeHstoreText, scanHstoreBinary_encodeHstoreBinary,
    fun _ hinv hq => consumeDoubleQuoted_eq hinv hq⟩

/-- An hstore with a quote and a backslash in a value, and a NULL. -/
theorem hstore_codecs_round_trip_escapes :
    parseHstore (encodeHstoreText ⟨[([97], some [34, 92]), ([98], none)], by decide⟩ []) =
        .ok [([97], some [34, 92]), ([98], none)] ∧
      scanHstoreBinary (encodeHstoreBinary ⟨[([97], some [34, 92]), ([98], none)], by decide⟩ []) =
        .ok [([97], some [34, 92]), ([98], none)] := by
  have hlen : ∀ kv ∈ [(([97] : Bytes), some ([34, 92] : Bytes)), ([98], none)],
      kv.1.length < 2 ^ 31 ∧ ∀ w, kv.2 = some w → w.length < 2 ^ 31 := by
    intro kv hkv
    simp only [List.mem_cons, List.not_mem_nil, or_false] at hkv
    rcases hkv with rfl | rfl <;> simp
  exact ⟨hstore_codecs_round_trip.1 _, hstore_codecs_round_trip.2.1 _ hlen (by decide)⟩

end GaussdbGo.Gaussdbtype
