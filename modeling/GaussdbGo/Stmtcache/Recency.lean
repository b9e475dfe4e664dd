import GaussdbGo.Stmtcache.Invariant

/-!
# internal/stmtcache — recency, and what every run of `LRUCache` keeps

`PushFront` on a store and `MoveToFront` on a hit keep the list in the order
of the descriptions' last touches, most recent first, so the `Back()` that
`invalidateOldest` takes is the least recently touched. A touch is what the
code moves to the front: a `Get` that finds the description, and the `Put`
that stores it. A `Put` of an SQL already cached does nothing
(`put_present_not_refreshed`): it is no touch.

The times are ghost state: `Timed` is the cache with a clock counting calls
and the time of each description's last touch, and `timedStep` is `step` on
the cache with the times updated beside it (`timedStep_cache`). `Recent` is
the order of the list by those times. `Sound` gathers what the cache
promises at a state: the map and the list agree, the length bound, no SQL
twice among the cached and the invalidated, what leaves the cache stays
invalidated exactly once until `RemoveInvalidated`, and an eviction takes the
least recently touched; `lruCache_sound` proves it at the end of every run
from `NewLRUCache(cap)`.
-/

namespace GaussdbGo.Stmtcache

open GoStd Indexed Machine

variable {α : Type}

instance (sql : α → String) (op : Op α) : Decidable (PutsNonEmpty sql op) := by
  cases op <;> unfold PutsNonEmpty <;> infer_instance

/-- The description a call touches: the one a `Get` finds, and the one a
`Put` stores, which is one whose SQL is neither cached nor invalidated. -/
def touches (sql : α → String) (c : LRUCache α) : Op α → Option α
  | .get key => c.m key
  | .put sd => if sql sd ∈ (c.l ++ c.invalidStmts).map sql then none else some sd
  | _ => none

/-- The cache, a clock that counts calls, and the time of each
description's last touch. -/
structure Timed (α : Type) where
  cache : LRUCache α
  clock : Nat
  touched : α → Nat

/-- `NewLRUCache(cap)` at time `0`. -/
def newTimed (cap : Nat) : Timed α := ⟨newLRUCache cap, 0, fun _ => 0⟩

/-- The list in the order of the last touches, most recent first, all
before the clock. -/
structure Recent (t : Timed α) : Prop where
  sorted : t.cache.l.Pairwise (fun a b => t.touched b < t.touched a)
  before : ∀ x ∈ t.cache.l, t.touched x < t.clock

/-! ## Keeping the order -/

section Order

variable {l s : List α} {f g : α → Nat} {clock : Nat}

/-- A sublist of an ordered list, with the same times, is ordered. -/
theorem recent_sublist (hs : s.Sublist l) (hg : ∀ x ∈ s, g x = f x)
    (hl : l.Pairwise (fun a b => f b < f a)) (hb : ∀ x ∈ l, f x < clock) :
    s.Pairwise (fun a b => g b < g a) ∧ ∀ x ∈ s, g x < clock + 1 := by
  refine ⟨?_, fun x hx => ?_⟩
  · have hs' := hl.sublist hs
    exact hs'.imp_of_mem (fun ha hb hab => by rw [hg _ ha, hg _ hb]; exact hab)
  · rw [hg x hx]; exact Nat.lt_succ_of_lt (hb x (hs.subset hx))

/-- A description touched now, in front of such a sublist. -/
theorem recent_cons {x : α} (hs : s.Sublist l) (hx : x ∉ s) (hg : ∀ y ∈ s, g y = f y)
    (hgx : g x = clock) (hl : l.Pairwise (fun a b => f b < f a)) (hb : ∀ y ∈ l, f y < clock) :
    (x :: s).Pairwise (fun a b => g b < g a) ∧ ∀ y ∈ x :: s, g y < clock + 1 := by
  obtain ⟨hsorted, hbefore⟩ := recent_sublist hs hg hl hb
  refine ⟨List.pairwise_cons.mpr ⟨fun y hy => ?_, hsorted⟩, fun y hy => ?_⟩
  · rw [hgx, hg y hy]; exact hb y (hs.subset hy)
  · rcases List.mem_cons.mp hy with rfl | hy
    · rw [hgx]; exact Nat.lt_succ_self _
    · exact hbefore y hy

end Order

variable [DecidableEq α]

/-- The times after a call at `clock` that touches `sd`. -/
def retouch (touched : α → Nat) (clock : Nat) : Option α → α → Nat
  | some sd => fun x => if x = sd then clock else touched x
  | none => touched

/-- The timed state after the call `op` from `t`, which leaves the cache `c`. -/
def Timed.next (sql : α → String) (t : Timed α) (op : Op α) (c : LRUCache α) : Timed α :=
  ⟨c, t.clock + 1, retouch t.touched t.clock (touches sql t.cache op)⟩

/-- One call on the cache, with the times updated beside it. -/
def timedStep (sql : α → String) (t : Timed α) (op : Op α) : Go Empty (Timed α) := do
  let c ← step sql t.cache op
  pure (t.next sql op c)

variable {sql : α → String}

theorem retouch_other {touched : α → Nat} {clock : Nat} {sd x : α} (h : x ≠ sd) :
    retouch touched clock (some sd) x = touched x := by
  simp [retouch, h]

/-! ## The ghost times ride along -/

theorem timedStep_eq {t : Timed α} {op : Op α} {c : LRUCache α} (h : step sql t.cache op = .ok c) :
    timedStep sql t op = .ok (t.next sql op c) := by
  simp only [timedStep, h]
  rfl

/-- The cache of a timed run runs the calls as `step` does. -/
theorem timedStep_cache {t u : Timed α} {op : Op α} (h : timedStep sql t op = .ok u) :
    step sql t.cache op = .ok u.cache := by
  rcases hs : step sql t.cache op with e | c
  · simp only [timedStep, hs] at h; cases h
  · rw [timedStep_eq hs] at h
    cases h
    rfl

theorem run_cache {t u : Timed α} {ops : List (Op α)} (h : Run (timedStep sql) t ops u) :
    Run (step sql) t.cache ops u.cache := by
  induction h with
  | nil => exact .nil _
  | cons hs _ ih => exact .cons (timedStep_cache hs) ih

/-- No call changes the capacity. -/
theorem step_cap {c c' : LRUCache α} {op : Op α} (h : step sql c op = .ok c') : c'.cap = c.cap := by
  cases op with
  | put sd =>
    simp only [step, LRUCache.put] at h
    split_ifs at h
    · cases h
    · cases h; rfl
    · cases h; rfl
    · -- the eviction, then the store
      simp only [LRUCache.invalidateOldest] at h
      split at h
      · cases h
      · cases h; rfl
    · cases h; rfl
  | get key =>
    simp only [step, LRUCache.get] at h
    split at h <;> cases h <;> rfl
  | invalidate key =>
    simp only [step, LRUCache.invalidate] at h
    split at h <;> cases h <;> rfl
  | _ => cases h; rfl


/-- The timed state after a call is the state `timedStep` builds from its cache. -/
theorem timedStep_next {t u : Timed α} {op : Op α} (h : timedStep sql t op = .ok u) :
    u = t.next sql op u.cache := by
  have h' := timedStep_eq (timedStep_cache h)
  rw [h] at h'
  exact Except.ok.inj h'

/-! ## Every call keeps the order -/

/-- A call that touches nothing and leaves a sublist of the list. -/
theorem Recent.next_sublist {t : Timed α} {op : Op α} {c : LRUCache α} (hr : Recent t)
    (hnone : touches sql t.cache op = none) (hsub : c.l.Sublist t.cache.l) :
    Recent (t.next sql op c) := by
  obtain ⟨h₁, h₂⟩ := recent_sublist (g := retouch t.touched t.clock (touches sql t.cache op))
    hsub (fun _ _ => by rw [hnone]; rfl) hr.sorted hr.before
  exact ⟨h₁, h₂⟩

/-- A call that touches `sd` and leaves it in front of a sublist of the list. -/
theorem Recent.next_touch {t : Timed α} {op : Op α} {c : LRUCache α} {sd : α} {s : List α}
    (hr : Recent t) (htouch : touches sql t.cache op = some sd) (hl : c.l = sd :: s)
    (hsub : s.Sublist t.cache.l) (hsd : sd ∉ s) : Recent (t.next sql op c) := by
  have hg : ∀ y ∈ s, retouch t.touched t.clock (some sd) y = t.touched y :=
    fun y hy => retouch_other (fun hys => hsd (hys ▸ hy))
  obtain ⟨h₁, h₂⟩ := recent_cons hsub hsd hg (by simp [retouch]) hr.sorted hr.before
  constructor <;> simp only [Timed.next, htouch, hl]
  · exact h₁
  · exact h₂

/-- Every call from a cache at the invariant keeps the list in the order of
the last touches: a hit and a store put the touched description in front of
what stays, every other call keeps a sublist and touches nothing. -/
theorem Recent.after {t u : Timed α} {op : Op α} (hinv : Inv sql t.cache) (hr : Recent t)
    (h : timedStep sql t op = .ok u) : Recent u := by
  have hs := timedStep_cache h
  rw [timedStep_next h]
  generalize u.cache = c at hs ⊢
  have hnd : t.cache.l.Nodup := List.Nodup.of_map sql hinv.nodup_l
  cases op with
  | get key =>
    rcases hm : t.cache.m key with _ | sd
    · simp only [step, get_miss hm] at hs
      obtain rfl := Except.ok.inj hs
      exact hr.next_sublist hm (List.Sublist.refl _)
    · simp only [step, get_hit hm] at hs
      obtain rfl := Except.ok.inj hs
      exact hr.next_touch hm rfl List.erase_sublist hnd.not_mem_erase
  | put sd =>
    have hsd : sql sd ≠ "" := by
      intro hsd
      simp [step, LRUCache.put, hsd] at hs
    by_cases hfresh : sql sd ∈ (t.cache.l ++ t.cache.invalidStmts).map sql
    · rw [step, put_cached_or_invalidated hinv hsd hfresh] at hs
      obtain rfl := Except.ok.inj hs
      exact hr.next_sublist (by simp only [touches, if_pos hfresh]) (List.Sublist.refl _)
    · have hsd_not : sd ∉ t.cache.l := fun hin => hfresh
        (List.mem_map.mpr ⟨sd, List.mem_append_left _ hin, rfl⟩)
      have htouch : touches sql t.cache (.put sd) = some sd := by simp only [touches, if_neg hfresh]
      obtain ⟨c', hput, -, -, hroom, hfull⟩ := put_store hinv hsd hfresh
      rw [step, hput] at hs
      obtain rfl := Except.ok.inj hs
      rcases Nat.lt_or_ge t.cache.l.length t.cache.cap with hlt | hge
      · exact hr.next_touch htouch (hroom hlt).1 (List.Sublist.refl _) hsd_not
      · -- full: the back entry left, the rest stays behind the new one
        obtain ⟨ys, x, hl, hl', -⟩ := hfull (Nat.le_antisymm hinv.length_le hge)
        have hsub : ys.Sublist t.cache.l := hl ▸ List.sublist_append_left ys [x]
        exact hr.next_touch htouch hl' hsub (fun hin => hsd_not (hsub.subset hin))
  | invalidate key =>
    simp only [step] at hs
    obtain rfl := Except.ok.inj hs
    rcases hm : t.cache.m key with _ | sd
    · exact hr.next_sublist rfl (by simp [LRUCache.invalidate, hm])
    · exact hr.next_sublist rfl (by rw [invalidate_hit hm]; exact List.erase_sublist)
  | invalidateAll =>
    simp only [step] at hs
    obtain rfl := Except.ok.inj hs
    exact hr.next_sublist rfl (List.nil_sublist _)
  | getInvalidated =>
    simp only [step] at hs
    obtain rfl := Except.ok.inj hs
    exact hr.next_sublist rfl (List.Sublist.refl _)
  | removeInvalidated =>
    simp only [step] at hs
    obtain rfl := Except.ok.inj hs
    exact hr.next_sublist rfl (List.Sublist.refl _)

/-- When a `Put` takes a description out of the cache, it is the least
recently touched of the cache. -/
theorem evicts_least_recent {t u : Timed α} (hinv : Inv sql t.cache) (hr : Recent t) {sd : α}
    (h : timedStep sql t (.put sd) = .ok u) {e : α} (he : e ∈ t.cache.l) (hgone : e ∉ u.cache.l) :
    ∀ e' ∈ t.cache.l, e' ≠ e → t.touched e < t.touched e' := by
  have hs := timedStep_cache h
  have hsd : sql sd ≠ "" := by
    intro hsd
    simp [step, LRUCache.put, hsd] at hs
  by_cases hfresh : sql sd ∈ (t.cache.l ++ t.cache.invalidStmts).map sql
  · rw [step, put_cached_or_invalidated hinv hsd hfresh] at hs
    rw [← Except.ok.inj hs] at hgone
    exact absurd he hgone
  obtain ⟨c', hput, -, -, hroom, hfull⟩ := put_store hinv hsd hfresh
  rw [step, hput] at hs
  rw [← Except.ok.inj hs] at hgone
  rcases Nat.lt_or_ge t.cache.l.length t.cache.cap with hlt | hge
  · -- with room, nothing leaves
    rw [(hroom hlt).1] at hgone
    exact absurd (List.mem_cons_of_mem _ he) hgone
  · -- full: what leaves is the back entry, after every other in the order
    obtain ⟨ys, x, hl, hl', -⟩ := hfull (Nat.le_antisymm hinv.length_le hge)
    have hex : e = x := by
      rw [hl, List.mem_append, List.mem_singleton] at he
      rw [hl'] at hgone
      rcases he with he | he
      · exact absurd (List.mem_cons_of_mem _ he) hgone
      · exact he
    subst hex
    intro e' he' hne
    have hsorted := hr.sorted
    rw [hl, List.pairwise_append] at hsorted
    rw [hl, List.mem_append, List.mem_singleton] at he'
    rcases he' with he' | he'
    · exact hsorted.2.2 e' he' e (List.mem_singleton_self _)
    · exact absurd he' hne

/-! ## Every run -/

/-- What the cache promises at a state: the map and the list agree; the list
holds at most `cap`; no SQL twice among the cached and the invalidated; a
run of calls without `RemoveInvalidated` keeps the invalidated, and a
description that leaves the cache is among them exactly once; and a `Put`
that takes a description out of the cache takes the least recently touched. -/
structure Sound (sql : α → String) (u : Timed α) : Prop where
  indexes : Indexes sql u.cache.m u.cache.l
  len_le : u.cache.len ≤ u.cache.cap
  nodup : ((u.cache.l ++ u.cache.invalidStmts).map sql).Nodup
  leaves : ∀ (mid : List (Op α)) (v : Timed α),
    (∀ op ∈ mid, PutsNonEmpty sql op ∧ op ≠ .removeInvalidated) → Run (timedStep sql) u mid v →
      u.cache.invalidStmts <+: v.cache.invalidStmts ∧
        ∀ sd ∈ u.cache.l, sd ∉ v.cache.l → v.cache.invalidStmts.count sd = 1
  evicts_least_recent : ∀ (sd : α) (v : Timed α), timedStep sql u (.put sd) = .ok v →
    ∀ e ∈ u.cache.l, e ∉ v.cache.l → ∀ e' ∈ u.cache.l, e' ≠ e → u.touched e < u.touched e'

theorem sound_of_recent {u : Timed α} (hinv : Inv sql u.cache) (hr : Recent u) : Sound sql u where
  indexes := hinv.indexes
  len_le := hinv.length_le
  nodup := hinv.nodup
  leaves := fun _ _ hmid hrun =>
    ⟨(run_keeps (run_cache hrun) hinv hmid).1,
      fun _ hsd hgone => leaves_invalidated_once (run_cache hrun) hinv hmid hsd hgone⟩
  evicts_least_recent := fun _ _ h _ he hgone => evicts_least_recent hinv hr h he hgone

/-- Starting from `NewLRUCache(cap)` with `cap > 0`, every sequence of calls
whose `Put`s have non-empty SQL runs without a panic, and the cache it ends
in keeps every promise of `Sound`. -/
theorem lruCache_sound (cap : Nat) (hcap : 0 < cap) (ops : List (Op α))
    (hops : ∀ op ∈ ops, PutsNonEmpty sql op) :
    ∃ u, Run (timedStep sql) (newTimed cap) ops u ∧ u.cache.cap = cap ∧ Sound sql u := by
  have hinit : Inv sql (newTimed cap : Timed α).cache ∧ Recent (newTimed cap : Timed α) ∧
      (newTimed cap : Timed α).cache.cap = cap :=
    ⟨inv_newLRUCache hcap, ⟨List.Pairwise.nil, fun _ hx => by cases hx⟩, rfl⟩
  obtain ⟨u, hrun, hinv, hr, hcap'⟩ :=
    Run.exists_of_total (I := fun t : Timed α => Inv sql t.cache ∧ Recent t ∧ t.cache.cap = cap)
      (fun t op ⟨hinv, hr, hc⟩ hop => by
        obtain ⟨c, hs, hinv', -⟩ := hinv.step hop
        refine ⟨_, timedStep_eq hs, hinv', Recent.after hinv hr (timedStep_eq hs), ?_⟩
        rw [← hc]
        exact step_cap hs) hinit hops
  exact ⟨u, hrun, hcap', sound_of_recent hinv hr⟩

/-- The cache with capacity 2, the SQL texts as their descriptions, and
`Put(a)`, `Get(a)`, `Put(b)`, `Put(c)`, `Invalidate(c)`, `GetInvalidated`,
`RemoveInvalidated`. -/
theorem lruCache_sound_example :
    0 < 2 ∧ (∀ op ∈ [Op.put "a", .get "a", .put "b", .put "c", .invalidate "c", .getInvalidated,
        .removeInvalidated], PutsNonEmpty id op) ∧
      ∃ u, Run (timedStep id) (newTimed 2)
        [.put "a", .get "a", .put "b", .put "c", .invalidate "c", .getInvalidated,
          .removeInvalidated] u ∧ u.cache.cap = 2 ∧ Sound id u :=
  ⟨by decide, by decide, lruCache_sound 2 (by decide) _ (by decide)⟩

/-- A `Put` of an SQL already cached does not count as a use: with capacity
2, `Put(a)`, `Put(b)`, `Put(a)`, `Put(c)` evicts `a`, though `b` was last
passed to `Put` before `a` was. -/
theorem put_present_not_refreshed :
    ∃ c : LRUCache String, Run (step id) (newLRUCache 2) [.put "a", .put "b", .put "a", .put "c"] c ∧
      c.l = ["c", "b"] ∧ c.invalidStmts = ["a"] :=
  ⟨_, .cons rfl (.cons rfl (.cons rfl (.cons rfl (.nil _)))), rfl, rfl⟩

end GaussdbGo.Stmtcache
