import Mathlib

/-!
# Hosts in URLs (`net/url`) and `host:port` pairs (`net`)

`url.Parse` checks the host of a URL's authority with `parseHost`: what
follows the last `:` (after the closing `]` of a bracketed IPv6 literal) must
be a port of decimal digits, and the host must be made of the bytes allowed
there, with `%XX` escaping only non-ASCII bytes or `%25`. A bracketed literal
may carry a zone after `%25`, whose escapes are checked as the zone's.
`unescape` checks every escape and byte first and decodes after, so it
reports the first fault from the left.

`net.SplitHostPort` splits at the last colon, a bracketed host for IPv6.
-/

namespace GoStd

/-- `strings.LastIndexByte(s, c)`, `none` for `-1`. -/
def lastIndex? (s : List UInt8) (c : UInt8) : Option Nat :=
  if c ∈ s then some (s.length - 1 - s.reverse.idxOf c) else none

/-- `strings.Index(s, sub)`, `none` for `-1`. -/
def index? (s sub : List UInt8) : Option Nat :=
  (List.range (s.length + 1)).find? fun i => sub.isPrefixOf (s.drop i)

theorem lastIndex?_append_cons {a b : List UInt8} {c : UInt8} (hb : c ∉ b) :
    lastIndex? (a ++ c :: b) c = some a.length := by
  have hmem : c ∈ a ++ c :: b := by simp
  have hrev : (a ++ c :: b).reverse.idxOf c = b.length := by
    rw [List.reverse_append, List.reverse_cons, List.append_assoc, List.singleton_append,
      List.idxOf_append_of_notMem (by simpa using hb), List.idxOf_cons_self, List.length_reverse]
    rfl
  rw [lastIndex?, if_pos hmem, hrev]
  simp only [List.length_append, List.length_cons, Option.some.injEq]
  omega

theorem lastIndex?_of_not_mem {s : List UInt8} {c : UInt8} (h : c ∉ s) : lastIndex? s c = none := by
  rw [lastIndex?, if_neg h]

namespace Url

/-- The errors `url.Parse` reports for a host. -/
inductive Error where
  /-- `EscapeError`: a bad `%` escape -/
  | escape (s : List UInt8)
  /-- `InvalidHostError`: a byte not allowed in a host -/
  | invalidHost (s : List UInt8)
  /-- `missing ']' in host` -/
  | missingBracket
  /-- `invalid port %q after host` -/
  | invalidPort (colonPort : List UInt8)
  deriving DecidableEq, Repr

/-- The parts of a URL `unescape` is called for here. -/
inductive Encoding where
  | host
  | zone
  deriving DecidableEq, Repr

/-- `ishex(c)`. -/
def ishex (c : UInt8) : Bool :=
  (48 ≤ c && c ≤ 57) || (97 ≤ c && c ≤ 102) || (65 ≤ c && c ≤ 70)

/-- `unhex(c)`. -/
def unhex (c : UInt8) : UInt8 :=
  if 48 ≤ c ∧ c ≤ 57 then c - 48
  else if 97 ≤ c ∧ c ≤ 102 then c - 97 + 10
  else if 65 ≤ c ∧ c ≤ 70 then c - 65 + 10
  else 0

/-- `shouldEscape(c, encodeHost)`, the same for `encodeZone`: letters, digits,
`-_.~` and `!$&'()*+,;=:[]<>"` stand for themselves. -/
def shouldEscapeHost (c : UInt8) : Bool :=
  !((97 ≤ c && c ≤ 122) || (65 ≤ c && c ≤ 90) || (48 ≤ c && c ≤ 57) ||
    c ∈ [33, 36, 38, 39, 40, 41, 42, 43, 44, 59, 61, 58, 91, 93, 60, 62, 34] ||
    c ∈ [45, 95, 46, 126])

/-- `validOptionalPort(port)`: empty, or `:` and decimal digits. -/
def validOptionalPort : List UInt8 → Bool
  | [] => true
  | c :: ds => c = 58 && ds.all fun d => 48 ≤ d && d ≤ 57

theorem validOptionalPort_digits {ds : List UInt8} (h : ∀ d ∈ ds, (48 ≤ d && d ≤ 57) = true) :
    validOptionalPort (58 :: ds) = true := by
  simpa [validOptionalPort] using h

theorem validOptionalPort_of_mem {ds : List UInt8} {c : UInt8} (hc : c ∈ ds)
    (hnd : (48 ≤ c && c ≤ 57) = false) : validOptionalPort (58 :: ds) = false := by
  simp only [validOptionalPort, decide_true, Bool.true_and, List.all_eq_false]
  exact ⟨c, hc, by simp [hnd]⟩

/-- The checking pass of `unescape(s, mode)`: the first fault, if any. -/
def unescapeCheck (mode : Encoding) : List UInt8 → Option Error
  | [] => none
  | 37 :: a :: b :: rest =>
    if ishex a && ishex b then
      -- in a host, `%` may only escape a non-ASCII byte, or be `%25`
      if mode = .host && unhex a < 8 && [a, b] ≠ [50, 53] then some (.escape [37, a, b])
      -- in a zone, only what could stand unescaped, a space, or `%25`
      else if mode = .zone && [a, b] ≠ [50, 53] && (unhex a <<< 4 ||| unhex b) ≠ 32 &&
          shouldEscapeHost (unhex a <<< 4 ||| unhex b) then some (.escape [37, a, b])
      else unescapeCheck mode rest
    else some (.escape [37, a, b])
  | 37 :: rest => some (.escape (37 :: rest))
  -- `+` is passed over without the byte check, which it passes anyway
  | c :: rest =>
    if c < 0x80 && shouldEscapeHost c then some (.invalidHost [c]) else unescapeCheck mode rest

/-- The decoding pass of `unescape`, after a successful check. -/
def unescapeDecode : List UInt8 → List UInt8
  | 37 :: a :: b :: rest => (unhex a <<< 4 ||| unhex b) :: unescapeDecode rest
  | c :: rest => c :: unescapeDecode rest
  | [] => []

/-- `unescape(s, mode)` for a host or a zone. -/
def unescape (mode : Encoding) (s : List UInt8) : Except Error (List UInt8) :=
  match unescapeCheck mode s with
  | some e => .error e
  | none => .ok (unescapeDecode s)

/-- `parseHost(host)`. -/
def parseHost (host : List UInt8) : Except Error (List UInt8) :=
  if host.head? = some 91 then
    -- an IP literal, with an optional zone after `%25` and port after `]`
    match lastIndex? host 93 with
    | none => .error .missingBracket
    | some i =>
      let colonPort := host.drop (i + 1)
      if !validOptionalPort colonPort then .error (.invalidPort colonPort)
      else
        match index? (host.take i) [37, 50, 53] with
        | some zone => do
          let host1 ← unescape .host (host.take zone)
          let host2 ← unescape .zone ((host.take i).drop zone)
          let host3 ← unescape .host (host.drop i)
          pure (host1 ++ host2 ++ host3)
        | none => unescape .host host
  else
    match lastIndex? host 58 with
    | some i =>
      let colonPort := host.drop i
      if !validOptionalPort colonPort then .error (.invalidPort colonPort)
      else unescape .host host
    | none => unescape .host host

/-- A byte that stands for itself in a host without escaping. -/
def HostByte (c : UInt8) : Prop := c ≠ 37 ∧ shouldEscapeHost c = false

instance (c : UInt8) : Decidable (HostByte c) := inferInstanceAs (Decidable (_ ∧ _))

theorem unescapeCheck_cons {mode : Encoding} {c : UInt8} (hc : HostByte c) (rest : List UInt8) :
    unescapeCheck mode (c :: rest) = unescapeCheck mode rest := by
  obtain ⟨h37, hesc⟩ := hc
  rw [unescapeCheck.eq_def]
  split
  · rename_i heq
    cases heq
  · rename_i heq
    exact absurd (List.cons.inj heq).1 h37
  · rename_i heq
    exact absurd (List.cons.inj heq).1 h37
  · rename_i heq
    obtain ⟨rfl, rfl⟩ := List.cons.inj heq
    simp [hesc]

theorem unescapeDecode_cons {c : UInt8} (h37 : c ≠ 37) (rest : List UInt8) :
    unescapeDecode (c :: rest) = c :: unescapeDecode rest := by
  rw [unescapeDecode.eq_def]
  split
  · rename_i heq
    exact absurd (List.cons.inj heq).1 h37
  · rename_i heq
    obtain ⟨rfl, rfl⟩ := List.cons.inj heq
    rfl
  · rename_i heq
    cases heq

/-- Text of bytes that stand for themselves is its own unescaping. -/
theorem unescape_of_hostBytes (mode : Encoding) {s : List UInt8} (h : ∀ c ∈ s, HostByte c) :
    unescape mode s = .ok s := by
  have hcheck : unescapeCheck mode s = none ∧ unescapeDecode s = s := by
    induction s with
    | nil => exact ⟨rfl, rfl⟩
    | cons c s ih =>
      have hc := h c (List.mem_cons_self ..)
      obtain ⟨ihc, ihd⟩ := ih fun c' hc' => h c' (List.mem_cons_of_mem _ hc')
      exact ⟨(unescapeCheck_cons hc s).trans ihc, (unescapeDecode_cons hc.1 s).trans (by rw [ihd])⟩
  rw [unescape, hcheck.1, hcheck.2]

/-- A host that is not an IP literal, of bytes that stand for themselves and
with no colon, is accepted as it is. -/
theorem parseHost_of_no_colon {host : List UInt8} (h : ∀ c ∈ host, HostByte c ∧ c ≠ 91 ∧ c ≠ 58) :
    parseHost host = .ok host := by
  have hhead : host.head? ≠ some 91 := fun hh => (h _ (List.mem_of_mem_head? hh)).2.1 rfl
  rw [parseHost, if_neg hhead, lastIndex?_of_not_mem fun hm => (h 58 hm).2.2 rfl]
  exact unescape_of_hostBytes .host fun c hc => (h c hc).1

/-- A host that is not an IP literal, of bytes that stand for themselves, with
its last colon followed by what `validOptionalPort` checks. -/
theorem parseHost_of_last_colon {a b : List UInt8} (ha : ∀ c ∈ a, HostByte c)
    (ha91 : a.head? ≠ some 91) (hb : ∀ c ∈ b, HostByte c ∧ c ≠ 58) :
    parseHost (a ++ 58 :: b) =
      if validOptionalPort (58 :: b) then .ok (a ++ 58 :: b) else .error (.invalidPort (58 :: b)) := by
  have hhead : (a ++ 58 :: b).head? ≠ some 91 := by
    cases a with
    | nil => simp
    | cons c a => simpa using ha91
  have hall : ∀ c ∈ a ++ 58 :: b, HostByte c := by
    intro c hc
    rcases List.mem_append.mp hc with hc | hc
    · exact ha c hc
    · rcases List.mem_cons.mp hc with rfl | hc
      · decide
      · exact (hb c hc).1
  rw [parseHost, if_neg hhead, lastIndex?_append_cons fun hm => (hb 58 hm).2 rfl]
  simp only [List.drop_left]
  split <;> rename_i hv
  · have hv' : validOptionalPort (58 :: b) = false := by simpa using hv
    rw [if_neg (by simp [hv'])]
  · have hv' : validOptionalPort (58 :: b) = true := by simpa using hv
    rw [if_pos hv']
    exact unescape_of_hostBytes .host hall

end Url

namespace Net

/-- `AddrError{Err: err, Addr: addr}`. -/
structure AddrError where
  err : String
  addr : List UInt8
  deriving DecidableEq, Repr

/-- `net.SplitHostPort(hostport)`. -/
def splitHostPort (hostport : List UInt8) : Except AddrError (List UInt8 × List UInt8) :=
  match lastIndex? hostport 58 with
  | none => .error ⟨"missing port in address", hostport⟩
  | some i =>
    -- the host, and where a `[` and a `]` may no longer stand
    let found : Except AddrError (List UInt8 × Nat × Nat) :=
      if hostport.head? = some 91 then
        match hostport.idxOf? 93 with
        | none => .error ⟨"missing ']' in address", hostport⟩
        | some e =>
          if e + 1 = hostport.length then .error ⟨"missing port in address", hostport⟩
          else if e + 1 = i then .ok ((hostport.take e).drop 1, 1, e + 1)
          else if hostport[e + 1]? = some 58 then .error ⟨"too many colons in address", hostport⟩
          else .error ⟨"missing port in address", hostport⟩
      else
        let host := hostport.take i
        if 58 ∈ host then .error ⟨"too many colons in address", hostport⟩ else .ok (host, 0, 0)
    match found with
    | .error e => .error e
    | .ok (host, j, k) =>
      if 91 ∈ hostport.drop j then .error ⟨"unexpected '[' in address", hostport⟩
      else if 93 ∈ hostport.drop k then .error ⟨"unexpected ']' in address", hostport⟩
      else .ok (host, hostport.drop (i + 1))

/-- `host:port` with no colon or bracket in either part splits at its colon. -/
theorem splitHostPort_append {host port : List UInt8}
    (hh : ∀ c ∈ host, c ≠ 58 ∧ c ≠ 91 ∧ c ≠ 93) (hp : ∀ c ∈ port, c ≠ 58 ∧ c ≠ 91 ∧ c ≠ 93) :
    splitHostPort (host ++ 58 :: port) = .ok (host, port) := by
  have hhead : (host ++ 58 :: port).head? ≠ some 91 := by
    cases host with
    | nil => simp
    | cons c host => simpa using (hh c (List.mem_cons_self ..)).2.1
  have hno : ∀ b, b ≠ 58 → (∀ c ∈ host, c ≠ b) → (∀ c ∈ port, c ≠ b) → b ∉ host ++ 58 :: port := by
    intro b hb hhb hpb hm
    rcases List.mem_append.mp hm with hm | hm
    · exact hhb b hm rfl
    · rcases List.mem_cons.mp hm with rfl | hm
      · exact hb rfl
      · exact hpb b hm rfl
  rw [splitHostPort, lastIndex?_append_cons fun hm => (hp 58 hm).1 rfl]
  simp only [if_neg hhead, List.take_left, List.drop_zero, if_neg fun hm => (hh 58 hm).1 rfl]
  rw [if_neg (hno 91 (by decide) (fun c hc => (hh c hc).2.1) (fun c hc => (hp c hc).2.1)),
    if_neg (hno 93 (by decide) (fun c hc => (hh c hc).2.2) (fun c hc => (hp c hc).2.2)),
    List.drop_length_add_append]
  rfl

end Net

end GoStd
