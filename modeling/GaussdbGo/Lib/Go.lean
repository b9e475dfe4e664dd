import Mathlib

/-!
# Go run-time outcomes

A Go call ends in one of three ways: it returns its results, it returns a
non-nil `error`, or it panics at run time (a failed bounds check, `make`
with a negative size, an explicit `panic`). `Go ε α` is `Except` over the
two ways of failing, so "a decoder never faults" reads "its result is never
`.panic`" and can be stated and proved like any other property of a pure
function.

Slices are modelled as lists whose capacity is their length. That is what the
modelled code sees: every message body comes out of a full slice expression
`buf[rp : rp+n : rp+n]`, so a reslice past `len` faults exactly when it
passes `cap`.
-/

namespace GoStd

/-- The run-time panics the modelled code can raise, with the operands Go
prints in the panic message. -/
inductive Panic where
  | indexOutOfRange (i len : Int)
  | sliceBoundsOutOfRange (lo hi cap : Int)
  | makeSliceLenOutOfRange (len : Int)
  /-- a field read through a `nil` pointer -/
  | nilDereference
  | explicit (msg : String)
  deriving DecidableEq, Repr

/-- The two ways a Go call fails: a returned error, or a panic. -/
inductive Fault (ε : Type) where
  | error (e : ε)
  | panic (p : Panic)
  deriving DecidableEq, Repr

/-- A Go call with error type `ε` and results `α`. -/
abbrev Go (ε α : Type) := Except (Fault ε) α

variable {ε α β : Type}

/-- `return ..., err`. -/
def raise (e : ε) : Go ε α := .error (.error e)

/-- A run-time panic. -/
def crash (p : Panic) : Go ε α := .error (.panic p)

/-- The call did not panic: it returned a value or an error. -/
def NoPanic : Go ε α → Prop
  | .error (.panic _) => False
  | _ => True

instance (r : Go ε α) : Decidable (NoPanic r) := by
  unfold NoPanic; split <;> infer_instance

/-- The call panicked. -/
def Panics (r : Go ε α) : Prop := ∃ p, r = crash p

@[simp] theorem noPanic_ok (a : α) : NoPanic (ε := ε) (.ok a) := trivial

@[simp] theorem noPanic_raise (e : ε) : NoPanic (α := α) (raise e) := trivial

@[simp] theorem not_noPanic_crash (p : Panic) : ¬ NoPanic (ε := ε) (α := α) (crash p) :=
  fun h => h

@[simp] theorem ok_bind (a : α) (f : α → Go ε β) : (.ok a >>= f) = f a := rfl

@[simp] theorem map_ok (a : α) (f : α → β) : (f <$> .ok a : Go ε β) = .ok (f a) := rfl

@[simp] theorem map_raise (e : ε) (f : α → β) : (f <$> raise e : Go ε β) = raise e := rfl

@[simp] theorem map_crash (p : Panic) (f : α → β) : (f <$> crash p : Go ε β) = crash p := rfl

@[simp] theorem bind_raise (e : ε) (f : α → Go ε β) : (raise e >>= f) = raise e := rfl

@[simp] theorem bind_crash (p : Panic) (f : α → Go ε β) : (crash p >>= f) = crash p := rfl

@[simp] theorem crash_ne_ok (p : Panic) (a : α) : (crash p : Go ε α) ≠ .ok a := nofun

@[simp] theorem raise_ne_ok (e : ε) (a : α) : (raise e : Go ε α) ≠ .ok a := nofun

@[simp] theorem raise_ne_crash (e : ε) (p : Panic) : (raise e : Go ε α) ≠ crash p := nofun

/-- A bind panics-free when its first step is and every continuation is. -/
theorem NoPanic.bind {x : Go ε α} {f : α → Go ε β} (hx : NoPanic x)
    (hf : ∀ a, x = .ok a → NoPanic (f a)) : NoPanic (x >>= f) := by
  match x, hx with
  | .ok a, _ => exact hf a rfl
  | .error (.error e), _ => trivial

/-- Peel a successful bind apart. -/
theorem bind_eq_ok {x : Go ε α} {f : α → Go ε β} {b : β} (h : (x >>= f) = .ok b) :
    ∃ a, x = .ok a ∧ f a = .ok b := by
  match x, h with
  | .ok a, h => exact ⟨a, rfl, h⟩

/-- A `for` loop over `l` whose body returns a value at every element returns
one value an element. -/
theorem mapM_ok {f : α → Go ε β} :
    ∀ {l : List α}, (∀ a ∈ l, ∃ b, f a = .ok b) → ∃ bs, l.mapM f = .ok bs ∧ bs.length = l.length
  | [], _ => ⟨[], rfl, rfl⟩
  | a :: l, h => by
    obtain ⟨b, hb⟩ := h a (List.mem_cons_self ..)
    obtain ⟨bs, hbs, hlen⟩ := mapM_ok (fun x hx => h x (List.mem_cons_of_mem a hx))
    refine ⟨b :: bs, ?_, by simp [hlen]⟩
    simp only [List.mapM_cons, hb, hbs]
    rfl

/-! ## Slices -/

/-- `s[i]`. -/
def index (s : List α) (i : Int) : Go ε α :=
  if h : 0 ≤ i ∧ i.toNat < s.length then .ok (s.get ⟨i.toNat, h.2⟩)
  else crash (.indexOutOfRange i s.length)

/-- `s[lo:hi]`, with `cap(s) = len(s)`. -/
def slice (s : List α) (lo hi : Int) : Go ε (List α) :=
  if 0 ≤ lo ∧ lo ≤ hi ∧ hi ≤ s.length then .ok ((s.drop lo.toNat).take (hi - lo).toNat)
  else crash (.sliceBoundsOutOfRange lo hi s.length)

/-- `s[lo:]`. -/
def sliceFrom (s : List α) (lo : Int) : Go ε (List α) := slice s lo s.length

theorem index_of_lt (s : List α) (i : Nat) (h : i < s.length) :
    (index s i : Go ε α) = .ok s[i] := by
  simp [index, h]

theorem slice_of_le (s : List α) {lo hi : Nat} (h₁ : lo ≤ hi) (h₂ : hi ≤ s.length) :
    (slice s lo hi : Go ε (List α)) = .ok ((s.drop lo).take (hi - lo)) := by
  have h : ((hi : Int) - lo).toNat = hi - lo := by omega
  simp [slice, h₁, h₂, h]

theorem sliceFrom_of_le (s : List α) {lo : Nat} (h : lo ≤ s.length) :
    (sliceFrom s lo : Go ε (List α)) = .ok (s.drop lo) := by
  rw [sliceFrom, slice_of_le s h (Nat.le_refl _)]
  exact congrArg _ (List.take_of_length_le (by simp))

/-- A slice that does not panic has its bounds in order. -/
theorem bounds_of_slice_ok {s r : List α} {lo hi : Int} (h : (slice s lo hi : Go ε (List α)) = .ok r) :
    0 ≤ lo ∧ lo ≤ hi ∧ hi ≤ s.length := by
  unfold slice at h
  split at h
  · assumption
  · cases h

/-- The slice over a part of a list is that part. -/
theorem slice_append_middle (pre mid post : List α) :
    (slice (pre ++ mid ++ post) pre.length (pre.length + mid.length) : Go ε (List α)) = .ok mid := by
  have h := slice_of_le (ε := ε) (pre ++ mid ++ post) (Nat.le_add_right pre.length mid.length)
    (by simp)
  push_cast at h
  rw [h, Nat.add_sub_cancel_left, List.append_assoc, List.drop_left, List.take_left]

/-! ## Maps -/

/-- `m[k] = v`, on a map kept as its entries in iteration order: an existing
key keeps its place. -/
def mapInsert {κ ν : Type} [DecidableEq κ] (m : List (κ × ν)) (k : κ) (v : ν) : List (κ × ν) :=
  if m.any (fun e => e.1 = k) then m.map fun e => if e.1 = k then (k, v) else e
  else m ++ [(k, v)]

theorem mapInsert_of_not_mem {κ ν : Type} [DecidableEq κ] {m : List (κ × ν)} {k : κ}
    (h : k ∉ m.map Prod.fst) (v : ν) : mapInsert m k v = m ++ [(k, v)] := by
  have hany : m.any (fun e => e.1 = k) = false := by
    simp only [List.any_eq_false, decide_eq_true_eq]
    exact fun e he hk => h (hk ▸ List.mem_map_of_mem he)
  rw [mapInsert, hany]
  rfl

/-- Storing entries with keys new to the map and to each other appends them
in order. -/
theorem foldl_mapInsert_of_nodup {κ ν : Type} [DecidableEq κ] :
    ∀ {m pairs : List (κ × ν)}, (m.map Prod.fst ++ pairs.map Prod.fst).Nodup →
      pairs.foldl (fun m kv => mapInsert m kv.1 kv.2) m = m ++ pairs
  | m, [], _ => by simp
  | m, kv :: pairs, h => by
    have hk : kv.1 ∉ m.map Prod.fst := by
      intro hm
      exact (List.nodup_append.mp h).2.2 _ hm _ (List.mem_cons_self ..) rfl
    rw [List.foldl_cons, mapInsert_of_not_mem hk, foldl_mapInsert_of_nodup]
    · simp
    · simpa using h

/-! ## Iterators -/

/-- `for it.Next() { out = append(out, get(it)) }`, for at most `fuel` calls
of `Next`: the loop over a Go iterator whose `Next` says whether it moved to
a new item, each item read with an accessor. -/
def forNext {σ β : Type} (next : σ → Go ε (Bool × σ)) (get : σ → β) : Nat → σ → Go ε (List β × σ)
  | 0, s => .ok ([], s)
  | fuel + 1, s => do
    let (more, s) ← next s
    if more then
      let (items, s') ← forNext next get fuel s
      pure (get s :: items, s')
    else pure ([], s)

section Iterators

variable {σ β : Type} {next : σ → Go ε (Bool × σ)} {get : σ → β}

theorem forNext_more {s t u : σ} {items : List β} {fuel : Nat} (h : next s = .ok (true, t))
    (hrest : forNext next get fuel t = .ok (items, u)) :
    forNext next get (fuel + 1) s = .ok (get t :: items, u) := by
  simp only [forNext, h, ok_bind, if_true, hrest]
  rfl

theorem forNext_done {s t : σ} (h : next s = .ok (false, t)) (fuel : Nat) :
    forNext next get (fuel + 1) s = .ok ([], t) := by
  simp only [forNext, h, ok_bind, Bool.false_eq_true, if_false]
  rfl

/-- An iterator whose `Next` returns from every state at `I` to a state at
`I` returns from its loop, whatever the number of rounds. -/
theorem forNext_ok {I : σ → Prop} (hstep : ∀ s, I s → ∃ b t, next s = .ok (b, t) ∧ I t) :
    ∀ (fuel : Nat) (s : σ), I s → ∃ r, forNext next get fuel s = .ok r
  | 0, s, _ => ⟨([], s), rfl⟩
  | fuel + 1, s, hs => by
    obtain ⟨b, t, hnext, ht⟩ := hstep s hs
    cases b with
    | false => exact ⟨_, forNext_done hnext fuel⟩
    | true =>
      obtain ⟨⟨items, u⟩, hrest⟩ := forNext_ok hstep fuel t ht
      exact ⟨_, forNext_more hnext hrest⟩

end Iterators

end GoStd
