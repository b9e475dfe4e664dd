import GaussdbGo.Proto.Wire

/-!
# gaussdbgo — `LargeObject.Write` and `LargeObject.Read`

`Write(p)` sends `p` to `lowrite` in chunks of at most
`maxLargeObjectMessageLength` bytes and checks each count the server
returns; `Read(p)` asks `loread` for that many bytes at a time and scans each
answer into `PreallocBytes(p[nTotal:])`, which copies it into `p` when it
fits and allocates a new slice when it does not.

The server is any function from the call's number and request to an answer,
so a statement over every server is one over every sequence of answers.
Each loop also returns its calls, each request with its answer, which is what
the statements about chunk sizes and returned bytes read.
-/

namespace GaussdbGo

open GaussdbGo.Proto

variable {ε : Type}

/-- `maxLargeObjectMessageLength`. -/
def maxLargeObjectMessageLength : Nat := 1024 * 1024 * 1024 - 1024

/-- The errors `Write` and `Read` return: the query's own, `errors.New`, and
`io.EOF`. -/
inductive LoError (ε : Type) where
  | query (e : ε)
  | new (text : String)
  | eof
  deriving DecidableEq, Repr

/-! ## `Write` -/

/-- The loop of `Write` after `nTotal` bytes, its `k`-th call next: the
chunks sent with the server's answers, then `(n, err)`. -/
def writeLoop (p : Bytes) (server : Nat → Bytes → Except ε Int) (k nTotal : Nat) :
    List (Bytes × Except ε Int) × Int × Option (LoError ε) :=
  if p.length - nTotal = 0 then ([], nTotal, none)
  else
    let expected := min (p.length - nTotal) maxLargeObjectMessageLength
    let chunk := (p.drop nTotal).take expected
    let answer := server k chunk
    match answer with
    | .error e => ([(chunk, answer)], nTotal, some (.query e))
    | .ok n =>
      if n < 0 then ([(chunk, answer)], nTotal, some (.new "failed to write to large object"))
      -- `nTotal += n` comes before the two comparisons
      else if n < expected then
        ([(chunk, answer)], nTotal + n, some (.new "short write to large object"))
      else if n > expected then
        ([(chunk, answer)], nTotal + n, some (.new "invalid write to large object"))
      else
        let rest := writeLoop p server (k + 1) (nTotal + expected)
        ((chunk, answer) :: rest.1, rest.2)
termination_by p.length - nTotal
decreasing_by simp only [maxLargeObjectMessageLength]; omega

/-- `LargeObject.Write(p)`. -/
def write (p : Bytes) (server : Nat → Bytes → Except ε Int) :
    List (Bytes × Except ε Int) × Int × Option (LoError ε) :=
  writeLoop p server 0 0

/-! ## `Read` -/

/-- `PreallocBytes(p[off:]).ScanBytes(v)`, seen through `p`: `p` after the
copy and `len(*b)`. A value that does not fit goes to a new slice and leaves
`p` as it was. -/
def PreallocBytes.scanBytes (p : Bytes) (off : Nat) : Option Bytes → Bytes × Nat
  | none => (p, 0)
  | some v =>
    if v.length ≤ p.length - off then (p.take off ++ v ++ p.drop (off + v.length), v.length)
    else (p, v.length)

theorem PreallocBytes.length_scanBytes (p : Bytes) (off : Nat) (v : Option Bytes) :
    (scanBytes p off v).1.length = p.length := by
  unfold scanBytes
  split
  · rfl
  · split
    · simp only [List.length_append, List.length_take, List.length_drop]
      omega
    · rfl

/-- What `QueryRow(...).Scan(&res)` does for one `loread`: the query fails
before a row is scanned, or the row's value is scanned and closing the rows
then reports `err`. -/
inductive ReadAnswer (ε : Type) where
  | error (e : ε)
  | row (v : Option Bytes) (err : Option ε)

/-- The loop of `Read` after `nTotal` bytes, its `k`-th call next: the
requested counts with the server's answers, then `p` and `(n, err)`. -/
def readLoop (server : Nat → Nat → ReadAnswer ε) (k : Nat) (p : Bytes) (nTotal : Nat) :
    List (Nat × ReadAnswer ε) × Bytes × Int × Option (LoError ε) :=
  if p.length - nTotal = 0 then ([], p, nTotal, none)
  else
    let expected := min (p.length - nTotal) maxLargeObjectMessageLength
    let answer := server k expected
    match answer with
    -- `res` is still `p[nTotal:]`, so `nTotal += len(res)` makes it `len(p)`
    | .error e => ([(expected, answer)], p, nTotal + (p.length - nTotal), some (.query e))
    | .row v err =>
      let res := PreallocBytes.scanBytes p nTotal v
      match err with
      | some e => ([(expected, answer)], res.1, nTotal + res.2, some (.query e))
      | none =>
        if res.2 < expected then ([(expected, answer)], res.1, nTotal + res.2, some .eof)
        else if res.2 > expected then
          ([(expected, answer)], res.1, nTotal + res.2, some (.new "invalid read of large object"))
        else
          let rest := readLoop server (k + 1) res.1 (nTotal + res.2)
          ((expected, answer) :: rest.1, rest.2)
termination_by p.length - nTotal
decreasing_by
  -- the count scanned is the one asked for, and `p` keeps its length
  have := PreallocBytes.length_scanBytes p nTotal v
  simp only [res, expected, maxLargeObjectMessageLength] at *
  omega

/-- `LargeObject.Read(p)`. -/
def read (server : Nat → Nat → ReadAnswer ε) (p : Bytes) :
    List (Nat × ReadAnswer ε) × Bytes × Int × Option (LoError ε) :=
  readLoop server 0 p 0

/-! ## What every run of `Write` keeps -/

/-- The count a call asks for is positive, at most the limit, and fits what
is left of `p`. -/
theorem expected_spec {p : Bytes} {nTotal : Nat} (h : ¬ p.length - nTotal = 0) :
    0 < min (p.length - nTotal) maxLargeObjectMessageLength ∧
      min (p.length - nTotal) maxLargeObjectMessageLength ≤ maxLargeObjectMessageLength ∧
      min (p.length - nTotal) maxLargeObjectMessageLength ≤ p.length - nTotal := by
  simp only [maxLargeObjectMessageLength]
  omega

/-- The properties a `Write` result has from `nTotal` bytes on. -/
structure WriteSpec (p : Bytes) (nTotal : Nat)
    (r : List (Bytes × Except ε Int) × Int × Option (LoError ε)) : Prop where
  chunk_pos : ∀ c ∈ r.1, 0 < c.1.length
  chunk_le : ∀ c ∈ r.1, c.1.length ≤ maxLargeObjectMessageLength
  /-- the chunks sent are, in order, the next bytes of `p` -/
  chunks_prefix : (r.1.map Prod.fst).flatten <+: p.drop nTotal
  le_n : (nTotal : Int) ≤ r.2.1
  n_of_ok : r.2.2 = none → r.2.1 = p.length
  /-- only a server that acknowledges more than was sent makes `n` pass `len(p)` -/
  n_le : r.2.1 ≤ p.length ∨ r.2.2 = some (.new "invalid write to large object")

/-- A call that ends the loop: its chunk, and a count and error that say so. -/
theorem WriteSpec.last {p : Bytes} {nTotal : Nat} (h : ¬ p.length - nTotal = 0)
    (a : Except ε Int) {n : Int} {err : LoError ε} (hn : (nTotal : Int) ≤ n)
    (hle : n ≤ p.length ∨ err = .new "invalid write to large object") :
    WriteSpec p nTotal
      ([((p.drop nTotal).take (min (p.length - nTotal) maxLargeObjectMessageLength), a)], n, some err) := by
  obtain ⟨hpos, hmax, hfit⟩ := expected_spec h
  refine ⟨?_, ?_, ?_, hn, by simp, ?_⟩
  · simp only [List.mem_singleton, forall_eq, List.length_take, List.length_drop]
    omega
  · simp only [List.mem_singleton, forall_eq, List.length_take, List.length_drop]
    omega
  · simpa using List.take_prefix _ _
  · rcases hle with hle | hle
    · exact .inl hle
    · exact .inr (by rw [hle])

/-- A call acknowledged whole, before the rest of the run from after its
chunk. -/
theorem WriteSpec.cons {p : Bytes} {nTotal : Nat} (hdone : ¬ p.length - nTotal = 0)
    (a : Except ε Int) {rest : List (Bytes × Except ε Int) × Int × Option (LoError ε)}
    (ih : WriteSpec p (nTotal + min (p.length - nTotal) maxLargeObjectMessageLength) rest) :
    WriteSpec p nTotal
      (((p.drop nTotal).take (min (p.length - nTotal) maxLargeObjectMessageLength), a) :: rest.1,
        rest.2) := by
  obtain ⟨hpos, hmax, hfit⟩ := expected_spec hdone
  set expected := min (p.length - nTotal) maxLargeObjectMessageLength
  have hchunk : ((p.drop nTotal).take expected).length = expected := by
    simp only [List.length_take, List.length_drop]; omega
  refine ⟨?_, ?_, ?_, ?_, ih.n_of_ok, ih.n_le⟩
  · simp only [List.mem_cons, forall_eq_or_imp, hchunk]
    exact ⟨hpos, ih.chunk_pos⟩
  · simp only [List.mem_cons, forall_eq_or_imp, hchunk]
    exact ⟨hmax, ih.chunk_le⟩
  · have hsplit : p.drop nTotal = (p.drop nTotal).take expected ++ p.drop (nTotal + expected) := by
      rw [← List.drop_drop, List.take_append_drop]
    have := (List.prefix_append_right_inj ((p.drop nTotal).take expected)).mpr ih.chunks_prefix
    rw [← hsplit] at this
    simpa only [List.map_cons, List.flatten_cons] using this
  · have := ih.le_n
    push_cast at this
    show (nTotal : Int) ≤ rest.2.1
    omega

/-- The bytes an answer returned. -/
def ReadAnswer.bytes : ReadAnswer ε → Bytes
  | .error _ => []
  | .row v _ => v.getD []

/-- The answer is a row whose value fits the count asked for. -/
def ReadAnswer.Fits (expected : Nat) : ReadAnswer ε → Prop
  | .error _ => False
  | .row v _ => (v.getD []).length ≤ expected

/-- A value that fits is copied into `p` at `off`. -/
theorem PreallocBytes.scanBytes_fit (p : Bytes) (off : Nat) (v : Option Bytes)
    (hv : (v.getD []).length ≤ p.length - off) :
    scanBytes p off v = (p.take off ++ v.getD [] ++ p.drop (off + (v.getD []).length), (v.getD []).length) := by
  cases v with
  | none => simp [scanBytes]
  | some v => simp only [Option.getD_some] at hv ⊢; simp [scanBytes, hv]

/-- The bytes before `off` are never touched. -/
theorem PreallocBytes.take_scanBytes (p : Bytes) {off : Nat} (h : off ≤ p.length) (v : Option Bytes) :
    (scanBytes p off v).1.take off = p.take off := by
  unfold scanBytes
  split
  · rfl
  · split
    · rw [List.append_assoc, List.take_append_of_le_length (by simp; omega), List.take_take,
        Nat.min_self]
    · rfl

/-- The properties a `Read` result has from `nTotal` bytes on. -/
structure ReadSpec (p : Bytes) (nTotal : Nat)
    (r : List (Nat × ReadAnswer ε) × Bytes × Int × Option (LoError ε)) : Prop where
  request_pos : ∀ c ∈ r.1, 0 < c.1
  request_le : ∀ c ∈ r.1, c.1 ≤ maxLargeObjectMessageLength
  length_buf : r.2.1.length = p.length
  take_buf : r.2.1.take nTotal = p.take nTotal
  le_n : (nTotal : Int) ≤ r.2.2.1
  n_of_ok : r.2.2.2 = none → r.2.2.1 = p.length
  /-- when every answer was a row that fits its request, `p[0:n]` is what came before
  and then the bytes the server returned -/
  fits : (∀ c ∈ r.1, c.2.Fits c.1) →
    r.2.2.1 ≤ p.length ∧ r.2.1.take r.2.2.1.toNat = p.take nTotal ++ r.1.flatMap (·.2.bytes)

/-- A row that ends the loop, with its error. -/
theorem ReadSpec.last {p : Bytes} {nTotal : Nat} (h : ¬ p.length - nTotal = 0)
    (v : Option Bytes) (err' : Option ε) (err : LoError ε) :
    ReadSpec p nTotal ([(min (p.length - nTotal) maxLargeObjectMessageLength, .row v err')],
      (PreallocBytes.scanBytes p nTotal v).1, nTotal + (PreallocBytes.scanBytes p nTotal v).2,
      some err) := by
  obtain ⟨hpos, hmax, hfit⟩ := expected_spec h
  refine ⟨fun c hc => by rw [List.mem_singleton.mp hc]; exact hpos,
    fun c hc => by rw [List.mem_singleton.mp hc]; exact hmax, PreallocBytes.length_scanBytes _ _ _,
    PreallocBytes.take_scanBytes _ (by omega) _, Int.le_add_of_nonneg_right (Int.natCast_nonneg _),
    by simp, fun hall => ?_⟩
  have hv : (v.getD []).length ≤ p.length - nTotal :=
    Nat.le_trans (hall _ (List.mem_singleton_self _)) hfit
  rw [PreallocBytes.scanBytes_fit p nTotal v hv]
  refine ⟨by simp only; omega, ?_⟩
  simp only [List.flatMap_cons, List.flatMap_nil, List.append_nil, ReadAnswer.bytes]
  rw [show ((nTotal : Int) + ((v.getD []).length : Int)).toNat = nTotal + (v.getD []).length by omega]
  rw [List.take_append_of_le_length (by simp only [List.length_append, List.length_take]; omega),
    List.take_of_length_le (by simp only [List.length_append, List.length_take]; omega)]

/-- A row that brought every byte asked for, before the rest of the run from
after those bytes. -/
theorem ReadSpec.cons {p : Bytes} {nTotal : Nat} (h : nTotal ≤ p.length)
    (hdone : ¬ p.length - nTotal = 0) {v : Option Bytes} {err : Option ε}
    (hres : (PreallocBytes.scanBytes p nTotal v).2 =
      min (p.length - nTotal) maxLargeObjectMessageLength)
    {rest : List (Nat × ReadAnswer ε) × Bytes × Int × Option (LoError ε)}
    (ih : ReadSpec (PreallocBytes.scanBytes p nTotal v).1
      (nTotal + (PreallocBytes.scanBytes p nTotal v).2) rest) :
    ReadSpec p nTotal
      ((min (p.length - nTotal) maxLargeObjectMessageLength, .row v err) :: rest.1, rest.2) := by
  obtain ⟨hpos, hmax, hfit⟩ := expected_spec hdone
  set res := PreallocBytes.scanBytes p nTotal v with hres_def
  have hlen : res.1.length = p.length := PreallocBytes.length_scanBytes p nTotal v
  have hprefix : res.1.take nTotal = p.take nTotal := PreallocBytes.take_scanBytes p h v
  have hle : ((nTotal + res.2 : Nat) : Int) ≤ rest.2.2.1 := ih.le_n
  refine ⟨?_, ?_, ih.length_buf.trans hlen, ?_, ?_, fun hok => (ih.n_of_ok hok).trans (by rw [hlen]),
    fun hall => ?_⟩
  · simp only [List.mem_cons, forall_eq_or_imp]
    exact ⟨hpos, ih.request_pos⟩
  · simp only [List.mem_cons, forall_eq_or_imp]
    exact ⟨hmax, ih.request_le⟩
  · -- neither this row nor the rest touches the bytes before `nTotal`
    have := congrArg (List.take nTotal) ih.take_buf
    rw [List.take_take, List.take_take, Nat.min_eq_left (by omega), hprefix] at this
    exact this
  · show (nTotal : Int) ≤ rest.2.2.1
    omega
  · simp only [List.mem_cons, forall_eq_or_imp] at hall
    obtain ⟨hfirst, hrest⟩ := hall
    have hv : (v.getD []).length ≤ p.length - nTotal := Nat.le_trans hfirst hfit
    have hscan := PreallocBytes.scanBytes_fit p nTotal v hv
    have hres₁ : res.1 = p.take nTotal ++ v.getD [] ++ p.drop (nTotal + (v.getD []).length) :=
      congrArg Prod.fst hscan
    have hres₂ : res.2 = (v.getD []).length := congrArg Prod.snd hscan
    obtain ⟨hn, htake⟩ := ih.fits hrest
    refine ⟨by rw [hlen] at hn; exact hn, ?_⟩
    show rest.2.1.take rest.2.2.1.toNat = p.take nTotal ++
      ((min (p.length - nTotal) maxLargeObjectMessageLength, ReadAnswer.row v err) :: rest.1).flatMap
        (·.2.bytes)
    rw [htake, List.flatMap_cons, ReadAnswer.bytes, hres₁, hres₂,
      List.take_append_of_le_length (by simp only [List.length_append, List.length_take]; omega),
      List.take_of_length_le (by simp only [List.length_append, List.length_take]; omega),
      List.append_assoc]

theorem readLoop_spec (server : Nat → Nat → ReadAnswer ε) (k : Nat) (p : Bytes) (nTotal : Nat)
    (h : nTotal ≤ p.length) : ReadSpec p nTotal (readLoop server k p nTotal) := by
  fun_induction readLoop server k p nTotal with
  | case1 k p nTotal hdone =>
    refine ⟨by simp, by simp, rfl, rfl, Int.le_refl _, fun _ => by simp; omega, fun _ => ?_⟩
    have hn : p.length = nTotal := by omega
    simp [hn]
  | case2 k p nTotal hdone expected answer e hans =>
    -- the query failed before a row: `p` is as it was, yet `n` is `len(p)`
    obtain ⟨hpos, hmax, hfit⟩ := expected_spec hdone
    refine ⟨fun c hc => by rw [List.mem_singleton.mp hc]; exact hpos,
      fun c hc => by rw [List.mem_singleton.mp hc]; exact hmax, rfl, rfl, by simp only; omega, by simp,
      fun hall => ?_⟩
    have := hall _ (List.mem_singleton_self _)
    rw [hans] at this
    exact this.elim
  | case3 k p nTotal hdone expected answer v res e hans =>
    rw [hans]
    exact ReadSpec.last hdone v (some e) (.query e)
  | case4 k p nTotal hdone expected answer v res hshort hans =>
    rw [hans]
    exact ReadSpec.last hdone v none .eof
  | case5 k p nTotal hdone expected answer v res hshort hover hans =>
    rw [hans]
    exact ReadSpec.last hdone v none (.new "invalid read of large object")
  | case6 k p nTotal hdone expected answer v res hshort hover rest hans ih =>
    -- the row brought the `expected` bytes asked for; the rest of the run starts after them
    have hres : res.2 = expected := by omega
    have hlen : res.1.length = p.length := PreallocBytes.length_scanBytes p nTotal v
    rw [hans]
    exact ReadSpec.cons h hdone hres (ih (by rw [hlen, hres]; simp only [expected]; omega))

/-- Two bytes read from a server that answers every request with that many
sevens. -/
theorem readLoop_spec_filled :
    0 ≤ ([0, 0] : Bytes).length ∧
      ReadSpec [0, 0] 0
        (readLoop (fun _ n => (.row (some (List.replicate n 7)) none : ReadAnswer Unit)) 0 [0, 0] 0) :=
  ⟨by decide, readLoop_spec _ 0 _ 0 (by decide)⟩

/-! ## Where the `io` contracts break -/

/-- For every non-empty `p`, a server that acknowledges one byte more than
`p` holds makes `Write` return `n = len(p) + 1`, and a server whose first
`loread` fails makes `Read` return `n = len(p)` with `p` as it was, although
no byte was read. -/
theorem largeObject_counts_bytes_not_transferred (p : Bytes) (hp : p ≠ []) (e : ε) :
    (write p fun _ _ => (.ok (p.length + 1) : Except ε Int)).2 =
        (((p.length + 1 : Nat) : Int), some (.new "invalid write to large object")) ∧
      (read (fun _ _ => .error e) p).2 = (p, (p.length : Int), some (.query e)) := by
  have hlen : p.length - 0 ≠ 0 := by have := List.length_pos_of_ne_nil hp; omega
  have hmin : min (p.length - 0) maxLargeObjectMessageLength ≤ p.length := by omega
  constructor
  · -- the count passes the chunk, whose size is at most `len(p)`
    rw [write, writeLoop, if_neg hlen]
    simp only
    rw [if_neg (by omega), if_neg (by omega), if_pos (by omega)]
    simp
  · rw [read, readLoop, if_neg hlen]
    simp

theorem largeObject_counts_bytes_not_transferred_seven :
    [(7 : UInt8)] ≠ [] ∧
      (write [7] fun _ _ => (.ok 2 : Except Unit Int)).2 = (2, some (.new "invalid write to large object")) ∧
      (read (fun _ _ => .error ()) [7]).2 = ([7], 1, some (.query ())) :=
  ⟨by decide, largeObject_counts_bytes_not_transferred [7] (by decide) ()⟩

end GaussdbGo
