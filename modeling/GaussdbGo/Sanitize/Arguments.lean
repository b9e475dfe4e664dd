import GaussdbGo.Sanitize.Segments
import GaussdbGo.Sanitize.Sanitize

/-!
# internal/sanitize — how a written argument is lexed

Every argument `Sanitize` writes is one of two shapes (`ArgText`): a quoted
literal, `'` and the runes of its content with each quote doubled and `'`
(strings, byte strings in hex, timestamps), or a bare word of letters,
digits, `+`, `-` and `.` with no `--` in it (`null`, `true`, `false`,
integers, and floats when `formatFloat` writes such words).

Between the two spaces `Sanitize` puts around it, either shape is lexed from
`rawState` back to `rawState` (`steps_arg`): a bare word all in `rawState`,
a quoted literal opened in `rawState` and read to its own closing quote in
`singleQuoteState`, each doubled quote taken as one. Both shapes are valid
text, so they are lexed the same whatever bytes follow the space after them
(`steps_written_arg`). A string argument is the one whose content is not
checked: it has to be valid UTF-8 for this.
-/

namespace GaussdbGo.Sanitize

open GoStd.Utf8 GoStd.Strconv

/-! ## Bare words -/

/-- The code of a rune or byte a bare word may hold. -/
def WordCode (n : Nat) : Prop :=
  (48 ≤ n ∧ n ≤ 57) ∨ (65 ≤ n ∧ n ≤ 90) ∨ (97 ≤ n ∧ n ≤ 122) ∨ n = 43 ∨ n = 45 ∨ n = 46

instance (n : Nat) : Decidable (WordCode n) := inferInstanceAs (Decidable (_ ∨ _))

/-- The codes of a bare word: letters, digits, `+`, `-` and `.`, and no `--`. -/
def PlainCodes (ns : List Nat) : Prop :=
  (∀ n ∈ ns, WordCode n) ∧ ns.IsChain (fun a b => ¬ (a = 45 ∧ b = 45))

instance (ns : List Nat) : Decidable (PlainCodes ns) := inferInstanceAs (Decidable (_ ∧ _))

/-- A bare word of bytes. -/
def PlainBytes (p : Bytes) : Prop := PlainCodes (p.map UInt8.toNat)

instance (p : Bytes) : Decidable (PlainBytes p) := inferInstanceAs (Decidable (PlainCodes _))

theorem PlainCodes.tail {n : Nat} {ns : List Nat} (h : PlainCodes (n :: ns)) : PlainCodes ns :=
  ⟨fun m hm => h.1 m (by simp [hm]), by
    rcases ns with _ | ⟨m, ns⟩
    · exact .nil
    · exact (List.isChain_cons_cons.mp h.2).2⟩

/-- A word with no `-` after its first code has no `--`. -/
theorem isChain_of_tail_ne : ∀ {ns : List Nat}, (∀ m ∈ ns.tail, m ≠ 45) →
    ns.IsChain (fun a b => ¬ (a = 45 ∧ b = 45))
  | [], _ => .nil
  | [_], _ => .singleton _
  | a :: b :: ns, h => by
    refine List.isChain_cons_cons.mpr ⟨fun hab => h b (by simp) hab.2, ?_⟩
    exact isChain_of_tail_ne (fun m hm => h m (by simp_all))

/-! ## Quoted literals -/

/-- The runes of a quoted literal's content, each quote doubled. -/
def quoteChars (b : List Char) : List Char :=
  b.flatMap fun c => if c = '\'' then ['\'', '\''] else [c]

@[simp] theorem quoteChars_nil : quoteChars [] = [] := rfl

theorem quoteChars_cons (c : Char) (b : List Char) :
    quoteChars (c :: b) = (if c = '\'' then ['\'', '\''] else [c]) ++ quoteChars b := by
  simp [quoteChars]

theorem quoteChars_of_not_mem {b : List Char} (h : '\'' ∉ b) : quoteChars b = b := by
  induction b with
  | nil => rfl
  | cons c b ih =>
    simp only [List.mem_cons, not_or] at h
    rw [quoteChars_cons, if_neg (Ne.symm h.1), ih h.2]
    rfl

namespace SqlLexer

/-! ## Lexing bare words and quoted literals -/

/-- The lexer is in state `st` at depth `n` with the valid text `cs` left. -/
structure At (l : SqlLexer) (st : LexState) (n : Nat) (cs : List Char) : Prop where
  stateFn : l.stateFn = some st
  nested : l.nested = n
  rest : l.rest = encodeString cs

/-- One text pass that takes `k` runes. -/
theorem At.pass {l : SqlLexer} {st st' : LexState} {n n' k : Nat} {c : Char} {cs : List Char}
    (h : At l st n (c :: cs)) (hst : st ≠ .placeholder)
    (hd : ¬ (st = .raw ∧ c = '$' ∧ StartsWithDigit cs))
    (hp : passRunes st n c cs.head? = (k, st', n')) :
    ∃ l', TextSteps l l' (List.replicate (encodeString ((c :: cs).take k)).length st) ∧
      At l' st' n' ((c :: cs).drop k) := by
  rw [← h.nested] at hp
  exact ⟨_, TextSteps.single h.stateFn hst h.rest hd hp, ⟨took_stateFn _ _ _, took_nested _ _ _,
    took_rest h.rest _⟩⟩

/-- A space in `rawState`. -/
theorem At.space {l : SqlLexer} {n : Nat} {z : List Char} (h : At l .raw n (' ' :: z)) :
    ∃ l', TextSteps l l' [.raw] ∧ At l' .raw n z := by
  obtain ⟨l', h', hat⟩ := h.pass (by decide) (by simp) (passRunes_raw_space n z.head?)
  have h1 : (encodeRune ' ').length = 1 := by decide
  exact ⟨l', by simpa [h1] using h', by simpa using hat⟩

/-- A bare word in `rawState`, before a space: all in `rawState`. -/
theorem steps_plain : ∀ {w z : List Char} {l : SqlLexer} {n : Nat},
    At l .raw n (w ++ ' ' :: z) → PlainCodes (w.map Char.toNat) →
    ∃ l', TextSteps l l' (List.replicate (encodeString w).length .raw) ∧ At l' .raw n (' ' :: z)
  | [], z, l, n, h, _ => ⟨l, .refl l, by simpa using h⟩
  | c :: w, z, l, n, h, hw => by
    have hc : WordCode c.toNat := hw.1 _ (by simp)
    have hne : ∀ d : Char, d.toNat ≠ c.toNat → d ≠ c := fun d h e => h (by rw [e])
    -- the rune after `c` is a word rune or the space, and not a second `-` after a `-`
    have hnext : (w ++ ' ' :: z).head? ≠ some '\'' ∧
        (c = '-' → (w ++ ' ' :: z).head? ≠ some '-') := by
      rcases w with _ | ⟨d, w⟩
      · simp
      · have hd : WordCode d.toNat := hw.1 _ (by simp)
        have hcd : ¬ (c.toNat = 45 ∧ d.toNat = 45) := (List.isChain_cons_cons.mp hw.2).1
        simp only [List.cons_append, List.head?_cons, ne_eq, Option.some.injEq]
        refine ⟨fun e => ?_, fun e e' => hcd ⟨by rw [e]; rfl, by rw [e']; rfl⟩⟩
        rw [e] at hd
        revert hd
        decide
    have hp : passRunes .raw n c (w ++ ' ' :: z).head? = (1, .raw, n) := by
      unfold WordCode at hc
      exact passRunes_raw_plain (hne '\'' (by simp; omega)).symm (hne '"' (by simp; omega)).symm
        (hne '/' (by simp; omega)).symm hnext.1 hnext.2
    have hd : ¬ (LexState.raw = .raw ∧ c = '$' ∧ StartsWithDigit (w ++ ' ' :: z)) := by
      rintro ⟨-, rfl, -⟩
      revert hc
      decide
    obtain ⟨l₁, h₁, hat₁⟩ := h.pass (by decide) hd hp
    obtain ⟨l', h', hat'⟩ := steps_plain (by simpa using hat₁) hw.tail
    refine ⟨l', ?_, hat'⟩
    have := h₁.trans h'
    simpa [← List.replicate_add] using this

/-- The content of a quoted literal in `singleQuoteState`, up to its closing
quote. -/
theorem steps_quoted_body : ∀ {b z : List Char} {l : SqlLexer} {n : Nat},
    At l .singleQuote n (quoteChars b ++ '\'' :: z) →
    ∃ l', TextSteps l l' (List.replicate (encodeString (quoteChars b)).length .singleQuote) ∧
      At l' .singleQuote n ('\'' :: z)
  | [], z, l, n, h => ⟨l, .refl l, by simpa using h⟩
  | c :: b, z, l, n, h => by
    by_cases hc : c = '\''
    · -- a doubled quote: one pass takes both
      subst hc
      rw [quoteChars_cons, if_pos rfl] at h
      have h' : At l .singleQuote n ('\'' :: '\'' :: (quoteChars b ++ '\'' :: z)) := by simpa using h
      obtain ⟨l₁, h₁, hat₁⟩ := h'.pass (by decide) (by simp)
        (show passRunes .singleQuote n '\'' (some '\'') = (2, .singleQuote, n) from quoteRunes_doubled)
      obtain ⟨l', h', hat'⟩ := steps_quoted_body (b := b) (by simpa using hat₁)
      refine ⟨l', ?_, hat'⟩
      have := h₁.trans h'
      rw [quoteChars_cons, if_pos rfl]
      simpa [← List.replicate_add, Nat.add_assoc] using this
    · rw [quoteChars_cons, if_neg hc] at h
      have h' : At l .singleQuote n (c :: (quoteChars b ++ '\'' :: z)) := by simpa using h
      obtain ⟨l₁, h₁, hat₁⟩ := h'.pass (by decide) (by simp)
        (show passRunes .singleQuote n c _ = (1, .singleQuote, n) from quoteRunes_other hc)
      obtain ⟨l', h', hat'⟩ := steps_quoted_body (b := b) (by simpa using hat₁)
      refine ⟨l', ?_, hat'⟩
      have := h₁.trans h'
      rw [quoteChars_cons, if_neg hc]
      simpa [← List.replicate_add] using this

/-- A quoted literal in `rawState`, before a space: opened in `rawState`,
read to its own closing quote in `singleQuoteState`, and back in
`rawState`. -/
theorem steps_quoted {b z : List Char} {l : SqlLexer}
    (h : At l .raw 0 (('\'' :: quoteChars b) ++ ('\'' :: ' ' :: z))) :
    ∃ l', TextSteps l l'
      (.raw :: List.replicate ((encodeString (quoteChars b)).length + 1) .singleQuote) ∧
      At l' .raw 0 (' ' :: z) := by
  have h' : At l .raw 0 ('\'' :: (quoteChars b ++ '\'' :: ' ' :: z)) := by simpa using h
  obtain ⟨l₁, h₁, hat₁⟩ := h'.pass (by decide) (by simp) (passRunes_raw_quote 0 _)
  obtain ⟨l₂, h₂, hat₂⟩ := steps_quoted_body (b := b) (by simpa using hat₁)
  obtain ⟨l₃, h₃, hat₃⟩ := hat₂.pass (by decide) (by simp)
    (show passRunes .singleQuote 0 '\'' (some ' ') = (1, .raw, 0) from quoteRunes_close (by simp))
  refine ⟨l₃, ?_, by simpa using hat₃⟩
  have := h₁.trans (h₂.trans h₃)
  have h1 : (encodeRune '\'').length = 1 := by decide
  simpa [h1, List.replicate_succ'] using this

end SqlLexer

/-! ## The two shapes `Sanitize` writes -/

/-- Whether `Sanitize` writes an argument as a quoted literal. -/
def Arg.quoted : Arg → Bool
  | .bytes _ | .string _ | .time _ => true
  | _ => false

/-- A written argument: a quoted literal with its quotes doubled, or a bare
word. -/
inductive ArgText : Bool → Bytes → Prop
  | quoted (b : List Char) : ArgText true (encodeString ('\'' :: quoteChars b ++ ['\'']))
  | plain (w : List Char) : PlainCodes (w.map Char.toNat) → ArgText false (encodeString w)

/-- A byte of valid text is a quote only as the rune `'`. -/
theorem not_mem_encodeRune_quote {c : Char} (h : c ≠ '\'') : (39 : UInt8) ∉ encodeRune c := by
  intro hm
  by_cases hc : c.toNat < 0x80
  · rw [encodeRune_of_lt hc, List.mem_singleton] at hm
    have h39 := congrArg UInt8.toNat hm
    rw [toNat_ofNat_small (by omega)] at h39
    exact h (Char.toNat_inj.mp h39.symm)
  · have := le_of_mem_encodeRune (by omega) hm
    revert this
    decide

theorem flatMap_double_of_not_mem : ∀ {p : Bytes}, (39 : UInt8) ∉ p →
    p.flatMap (fun b => if b = 39 then [39, 39] else [b]) = p
  | [], _ => rfl
  | b :: p, h => by
    simp only [List.mem_cons, not_or] at h
    simp [Ne.symm h.1, flatMap_double_of_not_mem h.2]

/-- `QuoteString` on valid text doubles exactly the rune `'`. -/
theorem quoteString_encodeString (b : List Char) :
    quoteString (encodeString b) = encodeString ('\'' :: quoteChars b ++ ['\'']) := by
  have hbody : (encodeString b).flatMap (fun x => if x = 39 then [39, 39] else [x]) =
      encodeString (quoteChars b) := by
    induction b with
    | nil => rfl
    | cons c b ih =>
      rw [encodeString_cons, List.flatMap_append, ih, quoteChars_cons, encodeString_append]
      by_cases hc : c = '\''
      · subst hc
        have hq : (encodeRune '\'').flatMap (fun x => if x = 39 then [39, 39] else [x]) =
            encodeString ['\'', '\''] := by decide
        rw [if_pos rfl, hq]
      · rw [if_neg hc, flatMap_double_of_not_mem (not_mem_encodeRune_quote hc)]
        simp
  have hq : encodeRune '\'' = [39] := by decide
  simp [quoteString, hbody, hq]

/-- ASCII text without a quote, between quotes, is a quoted literal. -/
theorem quoted_ascii {body : Bytes} (h : ∀ x ∈ body, x.toNat < 0x80 ∧ x ≠ 39) :
    ArgText true ([39] ++ body ++ [39]) := by
  have hnq : '\'' ∉ ascii body := by
    intro hm
    obtain ⟨x, hx, he⟩ := List.mem_map.mp hm
    have h39 : x.toNat = 39 := by rw [← toNat_ascii (b := x), he]; rfl
    exact (h x hx).2 (UInt8.toNat_inj.mp h39)
  have henc : encodeString (ascii body) = body := encodeString_ascii (fun x hx => (h x hx).1)
  have hq : encodeRune '\'' = [39] := by decide
  have := ArgText.quoted (ascii body)
  rwa [quoteChars_of_not_mem hnq, List.cons_append, encodeString_cons, encodeString_append, henc,
    encodeString_cons, hq, encodeString_nil, List.append_nil, ← List.append_assoc] at this

/-- An ASCII bare word. -/
theorem plain_ascii {p : Bytes} (h : PlainBytes p) : ArgText false p := by
  have hlt : ∀ x ∈ p, x.toNat < 0x80 := by
    intro x hx
    have := h.1 x.toNat (List.mem_map_of_mem hx)
    unfold WordCode at this
    omega
  have hcodes : (ascii p).map Char.toNat = p.map UInt8.toNat := by
    simp only [ascii, List.map_map]
    exact List.map_congr_left (fun x _ => toNat_ascii)
  have := ArgText.plain (ascii p) (by rw [hcodes]; exact h)
  rwa [encodeString_ascii hlt] at this

theorem mem_natDigits {x : UInt8} {n : Nat} (h : x ∈ natDigits n) : 48 ≤ x.toNat ∧ x.toNat ≤ 57 := by
  obtain ⟨c, hc, rfl⟩ := List.mem_map.mp h
  have hd := Nat.isDigit_of_mem_toDigits (by decide) (by decide) hc
  have h48 : 48 ≤ c.toNat ∧ c.toNat ≤ 57 := by
    simp [Char.isDigit] at hd
    exact hd
  show 48 ≤ (UInt8.ofNat c.toNat).toNat ∧ (UInt8.ofNat c.toNat).toNat ≤ 57
  rw [toNat_ofNat_small (by omega)]
  exact h48

/-- `strconv.AppendInt` writes a bare word: a sign and digits. -/
theorem plainBytes_itoa (i : Int) : PlainBytes (itoa i) := by
  have hdig : ∀ m ∈ (natDigits i.natAbs).map UInt8.toNat, 48 ≤ m ∧ m ≤ 57 := by
    intro m hm
    obtain ⟨x, hx, rfl⟩ := List.mem_map.mp hm
    exact mem_natDigits hx
  refine ⟨?_, isChain_of_tail_ne ?_⟩
  · intro m hm
    simp only [itoa, List.map_append, List.mem_append] at hm
    rcases hm with hm | hm
    · split at hm <;> simp_all [WordCode]
    · exact Or.inl (hdig m hm)
  · intro m hm
    have hm' : m ∈ (natDigits i.natAbs).map UInt8.toNat := by
      unfold itoa at hm
      split at hm
      · simpa using hm
      · exact List.mem_of_mem_tail hm
    have := hdig m hm'
    omega

theorem hexDigit_ascii {n : Nat} (h : n < 16) : (hexDigit n).toNat < 0x80 ∧ hexDigit n ≠ 39 := by
  have hv : (hexDigit n).toNat = if n < 10 then 48 + n else 87 + n := by
    unfold hexDigit
    split_ifs <;> exact toNat_ofNat_small (by omega)
  refine ⟨by rw [hv]; split_ifs <;> omega, fun h39 => ?_⟩
  have h' : (hexDigit n).toNat = 39 := by rw [h39]; rfl
  rw [hv] at h'
  split_ifs at h' <;> omega

/-- `QuoteBytes` writes a quoted literal of ASCII. -/
theorem argText_quoteBytes (buf : Bytes) : ArgText true (quoteBytes buf) := by
  have heq : quoteBytes buf = [39] ++ ([92, 120] ++ hexEncode buf) ++ [39] := by
    unfold quoteBytes
    split_ifs with h
    · simp [h, hexEncode]
    · simp
  rw [heq]
  apply quoted_ascii
  intro x hx
  simp only [List.mem_append, hexEncode, List.mem_flatMap] at hx
  rcases hx with hx | ⟨b, -, hx⟩
  · simp only [List.mem_cons, List.not_mem_nil, or_false] at hx
    rcases hx with rfl | rfl <;> decide
  · simp only [List.mem_cons, List.not_mem_nil, or_false] at hx
    rcases hx with rfl | rfl
    · exact hexDigit_ascii (by have := b.toNat_lt; omega)
    · exact hexDigit_ascii (Nat.mod_lt _ (by decide))

/-- The bytes a timestamp is written with: digits, signs and separators. -/
def TimeCode (n : Nat) : Prop :=
  (48 ≤ n ∧ n ≤ 57) ∨ n = 32 ∨ n = 43 ∨ n = 45 ∨ n = 46 ∨ n = 58 ∨ n = 90

theorem timeCode_appendInt {x : UInt8} {i : Int} {w : Nat} (h : x ∈ appendInt i w) :
    TimeCode x.toNat := by
  simp only [appendInt, List.mem_append, List.mem_replicate] at h
  rcases h with (h | ⟨-, rfl⟩) | h
  · split at h <;> simp_all [TimeCode]
  · simp [TimeCode]
  · exact Or.inl (mem_natDigits h)

theorem timeCode_appendNano {x : UInt8} {n : Nat} (h : x ∈ appendNano n) : TimeCode x.toNat := by
  unfold appendNano at h
  split_ifs at h
  · simp at h
  · rcases List.mem_cons.mp h with rfl | h
    · simp [TimeCode]
    · have hsub : (dropTrailingZeros (appendInt n 9)).Sublist (appendInt n 9) := by
        have := (List.dropWhile_sublist (fun x : UInt8 => decide (x = 48))
          (l := (appendInt n 9).reverse)).reverse
        rwa [List.reverse_reverse] at this
      exact timeCode_appendInt (hsub.subset h)

theorem timeCode_appendZone {x : UInt8} {o : Int} (h : x ∈ appendZone o) : TimeCode x.toNat := by
  unfold appendZone at h
  split_ifs at h
  · simp_all [TimeCode]
  · simp only [List.cons_append, List.mem_cons, List.mem_append, List.not_mem_nil, or_false] at h
    rcases h with h | ((((h | h) | h) | h) | h)
    · split at h <;> simp_all [TimeCode]
    all_goals first | exact timeCode_appendInt h | simp_all [TimeCode]

/-- `AppendFormat` with the layout of `Sanitize` writes a quoted literal of
ASCII. -/
theorem argText_appendFormat (t : Time) : ArgText true t.appendFormat := by
  have heq : t.appendFormat = [39] ++ (appendInt t.year 4 ++ [45] ++ appendInt t.month 2 ++ [45] ++
      appendInt t.day 2 ++ [32] ++ appendInt t.hour 2 ++ [58] ++ appendInt t.minute 2 ++ [58] ++
      appendInt t.second 2 ++ appendNano t.nanosecond ++ appendZone t.offset) ++ [39] := by
    simp [Time.appendFormat]
  rw [heq]
  apply quoted_ascii
  intro x hx
  have hc : TimeCode x.toNat := by
    simp only [List.mem_append, or_assoc] at hx
    rcases hx with h | h | h | h | h | h | h | h | h | h | h | h | h
    all_goals first
      | exact timeCode_appendInt h
      | exact timeCode_appendNano h
      | exact timeCode_appendZone h
      | simp_all [TimeCode]
  unfold TimeCode at hc
  refine ⟨by omega, fun h39 => ?_⟩
  rw [h39] at hc
  revert hc
  decide

/-- Every argument `Sanitize` writes has one of the two shapes, provided
`formatFloat` writes bare words and a string argument is valid UTF-8. -/
theorem encodeArg_text {formatFloat : UInt64 → Bytes} (hf : ∀ x, PlainBytes (formatFloat x))
    {a : Arg} {p : Bytes} (hv : ∀ s, a = .string s → Valid s)
    (h : encodeArg formatFloat a = .ok p) : ArgText a.quoted p := by
  cases a with
  | nil => cases h; exact plain_ascii (by decide)
  | int64 v => cases h; exact plain_ascii (plainBytes_itoa _)
  | float64 x => cases h; exact plain_ascii (hf x)
  | bool b => cases h; cases b <;> exact plain_ascii (by decide)
  | bytes buf => cases h; exact argText_quoteBytes buf
  | string s =>
    cases h
    obtain ⟨b, rfl⟩ := hv s rfl
    rw [quoteString_encodeString]
    exact .quoted b
  | time t => cases h; exact argText_appendFormat _
  | other typeName => cases h

/-- The states a written argument is read in: a quoted literal is opened in
`rawState` and read to its closing quote in `singleQuoteState`; a bare word
is read in `rawState`. -/
def argStates (quoted : Bool) (p : Bytes) : List LexState :=
  if quoted then .raw :: List.replicate (p.length - 1) .singleQuote
  else List.replicate p.length .raw

open SqlLexer in
/-- A written argument after the space before it: lexed from `rawState` back
to `rawState`, in `argStates`, and up to the space after it. -/
theorem steps_arg {q : Bool} {p : Bytes} (hp : ArgText q p) :
    ∃ pc, p = encodeString pc ∧ ∀ (l : SqlLexer) (z : List Char),
      At l .raw 0 (' ' :: pc ++ ' ' :: z) →
      ∃ l', TextSteps l l' (.raw :: argStates q p) ∧ At l' .raw 0 (' ' :: z) := by
  cases hp with
  | quoted b =>
    refine ⟨_, rfl, fun l z h => ?_⟩
    obtain ⟨l₁, h₁, hat₁⟩ := h.space
    obtain ⟨l₂, h₂, hat₂⟩ := steps_quoted (b := b) (z := z) (by simpa using hat₁)
    refine ⟨l₂, ?_, hat₂⟩
    have := h₁.trans h₂
    have hq : (encodeRune '\'').length = 1 := by decide
    have hlen : (encodeString ('\'' :: quoteChars b ++ ['\''])).length - 1 =
        (encodeString (quoteChars b)).length + 1 := by
      simp [hq]
    simp only [argStates, if_true]
    rw [hlen]
    simpa using this
  | plain w hw =>
    refine ⟨w, rfl, fun l z h => ?_⟩
    obtain ⟨l₁, h₁, hat₁⟩ := h.space
    obtain ⟨l₂, h₂, hat₂⟩ := steps_plain hat₁ hw
    refine ⟨l₂, ?_, hat₂⟩
    simpa [argStates] using h₁.trans h₂

theorem encodeRune_space : encodeRune ' ' = [32] := by decide

open SqlLexer in
/-- A written argument between the two spaces around it, before any bytes:
lexed from `rawState` back to `rawState`, in `argStates`. It is valid text,
lexed as on its own whatever follows the space after it. -/
theorem steps_written_arg {q : Bool} {p : Bytes} (hp : ArgText q p) {l : SqlLexer} {s : Bytes}
    (hs : l.stateFn = some .raw) (hn : l.nested = 0) (hr : l.rest = 32 :: p ++ 32 :: s) :
    ∃ l', Steps l l' (.raw :: argStates q p ++ [.raw]) ∧ l'.stateFn = some .raw ∧
      l'.nested = 0 ∧ l'.rest = s := by
  obtain ⟨pc, rfl, harg⟩ := steps_arg hp
  have h32 : (32 : UInt8).toNat < 0x80 := by decide
  -- the argument on its own, up to the space after it
  obtain ⟨l₀', hsteps₀, hat₀⟩ :=
    harg { l with rest := encodeString (' ' :: pc ++ [' ']) } [] ⟨hs, hn, rfl⟩
  -- moved before the rest of the input
  have hr₀ : ({ l with rest := encodeString (' ' :: pc ++ [' ']) } : SqlLexer).rest =
      encodeString (' ' :: pc) ++ [32] := by
    simp [encodeRune_space]
  have hr₀' : l₀'.rest = [32] := by rw [hat₀.rest]; simp [encodeRune_space]
  have hagree : AgreeOn (encodeString (' ' :: pc)) [32] (32 :: s) :=
    agreeOn_ascii (asciiHead_cons h32 _) (asciiHead_cons h32 _)
  have hfollow : FollowOK [32] (32 :: s) := .inl (by rw [decodeRune_ascii h32, decodeRune_ascii h32])
  have hs₂ : l.stateFn = ({ l with rest := encodeString (' ' :: pc ++ [' ']) } : SqlLexer).stateFn :=
    rfl
  have hr₂ : l.rest = encodeString (' ' :: pc) ++ 32 :: s := by rw [hr]; simp [encodeRune_space]
  obtain ⟨l₁, hrun₁, hr₁, hs₁, hn₁, -, -⟩ :=
    (TextRun.of_textSteps hsteps₀).transfer hr₀ hr₀' hagree hfollow hs₂ rfl hr₂
  rw [hat₀.stateFn] at hs₁
  rw [hat₀.nested] at hn₁
  -- then the space after it
  exact ⟨l₁.advance 1, hrun₁.steps.trans (steps_space hs₁ hr₁), hs₁, hn₁, by simp [hr₁]⟩

end GaussdbGo.Sanitize
