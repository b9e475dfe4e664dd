import Mathlib
import GaussdbGo.Stmtcache.LRUCache

/-!
# internal/stmtcache — the invariant of `LRUCache` over every run

`Inv` is what every state reachable from `NewLRUCache(cap)` satisfies, for
`cap > 0` and every sequence of calls whose `Put`s have non-empty SQL: the
map finds exactly the listed descriptions, each under its SQL; the list
holds at most `cap`; and no SQL is listed twice, among the cached and the
invalidated together, so none is both cached and invalidated and none is
invalidated twice.

`Keeps c c'` is what each call but `RemoveInvalidated` does to the
invalidated: it keeps them, and a description it takes out of the cache is
among them. Every run without `RemoveInvalidated` keeps, so a description
that leaves the cache is in `GetInvalidated` from then on until the next
`RemoveInvalidated`, exactly once (`leaves_invalidated_once`).

Each call's effect is first stated as a spec lemma of its own
(`get_hit`, `invalidateOldest_eq`, `put_store`, `invalidate_hit`); the
invariant and `Keeps` are derived from those.
-/

namespace GaussdbGo.Stmtcache

open GoStd Indexed Machine

variable {α : Type}

/-- The invariant of a reachable cache. -/
structure Inv (sql : α → String) (c : LRUCache α) : Prop where
  cap_pos : 0 < c.cap
  length_le : c.l.length ≤ c.cap
  indexes : Indexes sql c.m c.l
  nodup : ((c.l ++ c.invalidStmts).map sql).Nodup

/-- The calls the cache is made for: a `Put` of a description with SQL. -/
def PutsNonEmpty (sql : α → String) : Op α → Prop
  | .put sd => sql sd ≠ ""
  | _ => True

/-- From `c` to `c'`: the invalidated are kept, and each cached description
is still cached or among the invalidated. -/
def Keeps (c c' : LRUCache α) : Prop :=
  c.invalidStmts <+: c'.invalidStmts ∧ ∀ sd ∈ c.l, sd ∈ c'.l ∨ sd ∈ c'.invalidStmts

variable {sql : α → String} {c : LRUCache α}

/-! ## Consequences of the invariant -/

theorem Inv.nodup_l (h : Inv sql c) : (c.l.map sql).Nodup := by
  have hnd := h.nodup
  rw [List.map_append, List.nodup_append] at hnd
  exact hnd.1

theorem Inv.nodup_invalid (h : Inv sql c) : c.invalidStmts.Nodup := by
  have hnd := h.nodup
  rw [List.map_append, List.nodup_append] at hnd
  exact List.Nodup.of_map sql hnd.2.1

theorem Keeps.refl (c : LRUCache α) : Keeps c c := ⟨List.prefix_refl _, fun _ hsd => Or.inl hsd⟩

theorem Keeps.trans {c₁ c₂ c₃ : LRUCache α} (h₁ : Keeps c₁ c₂) (h₂ : Keeps c₂ c₃) : Keeps c₁ c₃ := by
  refine ⟨h₁.1.trans h₂.1, fun sd hsd => ?_⟩
  rcases h₁.2 sd hsd with h | h
  · exact h₂.2 sd h
  · exact Or.inr (List.IsPrefix.mem h h₂.1)

theorem keeps_of_perm {c' : LRUCache α} (hp : c.l.Perm c'.l) (hi : c'.invalidStmts = c.invalidStmts) :
    Keeps c c' :=
  ⟨hi ▸ List.prefix_refl _, fun _ hsd => Or.inl (hp.mem_iff.mp hsd)⟩

/-! ## One call at a time -/

/-- Taking a listed description out of the cache into the invalidated. -/
theorem Inv.move (h : Inv sql c) {a b : List α} {x : α} (hl : c.l = a ++ x :: b) :
    Inv sql
      { c with
        invalidStmts := c.invalidStmts ++ [x], m := update c.m (sql x) none, l := a ++ b } where
  cap_pos := h.cap_pos
  length_le := by
    have := h.length_le
    rw [hl] at this
    simp only [List.length_append, List.length_cons] at this ⊢
    omega
  indexes := by
    have hi := h.indexes
    have hnd := h.nodup_l
    rw [hl] at hi hnd
    exact hi.remove hnd
  nodup := by
    have hp := (perm_move a b c.invalidStmts x).map sql
    rw [← hl] at hp
    exact hp.nodup_iff.mpr h.nodup

theorem keeps_move {a b : List α} {x : α} (hl : c.l = a ++ x :: b) (m : String → Option α) :
    Keeps c { c with invalidStmts := c.invalidStmts ++ [x], m := m, l := a ++ b } := by
  refine ⟨List.prefix_append _ _, fun sd hsd => ?_⟩
  rw [hl, List.mem_append, List.mem_cons] at hsd
  rcases hsd with hsd | rfl | hsd
  · exact Or.inl (List.mem_append_left _ hsd)
  · exact Or.inr (List.mem_append_right _ (List.mem_singleton_self _))
  · exact Or.inl (List.mem_append_right _ hsd)

/-- Storing a description under an SQL found nowhere in a cache with room. -/
theorem Inv.store (h : Inv sql c) {sd : α} (hroom : c.l.length < c.cap)
    (hfresh : sql sd ∉ (c.l ++ c.invalidStmts).map sql) :
    Inv sql { c with l := sd :: c.l, m := update c.m (sql sd) (some sd) } where
  cap_pos := h.cap_pos
  length_le := by simp only [List.length_cons]; omega
  indexes := by
    refine h.indexes.insert ?_
    rcases hm : c.m (sql sd) with _ | v
    · rfl
    · obtain ⟨hv, hkv⟩ := h.indexes.mem hm
      exact absurd (List.mem_map.mpr ⟨v, List.mem_append_left _ hv, hkv⟩) hfresh
  nodup := by
    rw [List.cons_append, List.map_cons]
    exact List.nodup_cons.mpr ⟨hfresh, h.nodup⟩

theorem keeps_store (sd : α) (m : String → Option α) : Keeps c { c with l := sd :: c.l, m := m } :=
  ⟨List.prefix_refl _, fun _ hsd => Or.inl (List.mem_cons_of_mem _ hsd)⟩

/-- `invalidateOldest` on a list ending in `x`. -/
theorem invalidateOldest_eq {ys : List α} {x : α} (hl : c.l = ys ++ [x]) :
    c.invalidateOldest sql = .ok
      { c with
        invalidStmts := c.invalidStmts ++ [x], m := update c.m (sql x) none, l := ys } := by
  simp only [LRUCache.invalidateOldest, hl, List.getLast?_concat, List.dropLast_concat]
  rfl

/-- `Put` of a description whose SQL is neither cached nor invalidated, on a
cache at the invariant: the oldest entry is invalidated when the cache is
full, then the description is stored in front. -/
theorem put_store (h : Inv sql c) {sd : α} (hsd : sql sd ≠ "")
    (hfresh : sql sd ∉ (c.l ++ c.invalidStmts).map sql) :
    ∃ c', c.put sql sd = .ok c' ∧ Inv sql c' ∧ Keeps c c' ∧
      (c.l.length < c.cap → c'.l = sd :: c.l ∧ c'.invalidStmts = c.invalidStmts) ∧
      (c.l.length = c.cap → ∃ ys x, c.l = ys ++ [x] ∧ c'.l = sd :: ys ∧
        c'.invalidStmts = c.invalidStmts ++ [x]) := by
  have hm : c.m (sql sd) = none := by
    rcases hm : c.m (sql sd) with _ | v
    · rfl
    · obtain ⟨hv, hkv⟩ := h.indexes.mem hm
      exact absurd (List.mem_map.mpr ⟨v, List.mem_append_left _ hv, hkv⟩) hfresh
  have hany : c.invalidStmts.any (fun invalidSD => sql invalidSD = sql sd) = false := by
    simp only [List.any_eq_false, decide_eq_true_eq]
    intro v hv hkv
    exact hfresh (List.mem_map.mpr ⟨v, List.mem_append_right _ hv, hkv⟩)
  by_cases hfull : c.l.length = c.cap
  · -- full: the back entry goes to the invalidated first
    have hne : c.l ≠ [] := by
      intro hnil; rw [hnil] at hfull; exact absurd hfull.symm (Nat.ne_of_gt h.cap_pos)
    obtain ⟨ys, x, hl⟩ : ∃ ys x, c.l = ys ++ [x] :=
      ⟨c.l.dropLast, c.l.getLast hne, (List.dropLast_append_getLast hne).symm⟩
    have hl' : c.l = ys ++ x :: [] := hl
    have h₁ := h.move hl'
    have hk₁ := keeps_move hl' (update c.m (sql x) none)
    simp only [List.append_nil] at h₁ hk₁
    have hroom₁ : ys.length < c.cap := by rw [hl] at hfull; simp at hfull; omega
    have hfresh₁ : sql sd ∉ (ys ++ (c.invalidStmts ++ [x])).map sql := by
      have hp := (perm_move ys [] c.invalidStmts x).map sql
      rw [List.append_nil, ← hl'] at hp
      exact fun hmem => hfresh (hp.mem_iff.mp hmem)
    have hput : c.put sql sd = .ok
        { c with
          invalidStmts := c.invalidStmts ++ [x], l := sd :: ys,
          m := update (update c.m (sql x) none) (sql sd) (some sd) } := by
      simp only [LRUCache.put, hsd, if_false, hm, Option.isSome_none, Bool.false_eq_true, hany,
        hfull, if_true, invalidateOldest_eq hl, ok_bind]
      rfl
    exact ⟨_, hput, h₁.store hroom₁ hfresh₁, hk₁.trans (keeps_store _ _),
      fun hlt => absurd hfull (Nat.ne_of_lt hlt), fun _ => ⟨ys, x, hl, rfl, rfl⟩⟩
  · have hroom : c.l.length < c.cap := Nat.lt_of_le_of_ne h.length_le hfull
    refine ⟨_, ?_, h.store hroom hfresh, keeps_store _ _, fun _ => ⟨rfl, rfl⟩,
      fun heq => absurd heq hfull⟩
    simp only [LRUCache.put, hsd, if_false, hm, Option.isSome_none, Bool.false_eq_true, hany,
      hfull]
    rfl

/-- `Put` of a description whose SQL is cached or invalidated does nothing. -/
theorem put_cached_or_invalidated (h : Inv sql c) {sd : α} (hsd : sql sd ≠ "")
    (hin : sql sd ∈ (c.l ++ c.invalidStmts).map sql) : c.put sql sd = .ok c := by
  rw [List.map_append, List.mem_append] at hin
  rcases hin with hin | hin
  · have hsome : (c.m (sql sd)).isSome = true := by
      obtain ⟨v, hv, hkv⟩ := List.mem_map.mp hin
      rw [← hkv, h.indexes.find hv]; rfl
    simp [LRUCache.put, hsd, hsome]
    rfl
  · have hany : c.invalidStmts.any (fun invalidSD => sql invalidSD = sql sd) = true := by
      obtain ⟨v, hv, hkv⟩ := List.mem_map.mp hin
      exact List.any_eq_true.mpr ⟨v, hv, by simp [hkv]⟩
    simp [LRUCache.put, hsd, hany]
    rfl

theorem Inv.put (h : Inv sql c) {sd : α} (hsd : sql sd ≠ "") :
    ∃ c', c.put sql sd = .ok c' ∧ Inv sql c' ∧ Keeps c c' := by
  by_cases hfresh : sql sd ∈ (c.l ++ c.invalidStmts).map sql
  · exact ⟨c, put_cached_or_invalidated h hsd hfresh, h, Keeps.refl c⟩
  · obtain ⟨c', hput, hinv, hkeep, -, -⟩ := put_store h hsd hfresh
    exact ⟨c', hput, hinv, hkeep⟩

theorem Inv.invalidateAll (h : Inv sql c) : Inv sql c.invalidateAll ∧ Keeps c c.invalidateAll := by
  refine ⟨⟨h.cap_pos, Nat.zero_le _, indexes_empty, ?_⟩, List.prefix_append _ _, fun sd hsd => ?_⟩
  · simp only [LRUCache.invalidateAll, List.nil_append]
    exact ((List.perm_append_comm).map sql).nodup_iff.mp h.nodup
  · exact Or.inr (List.mem_append_right _ hsd)

theorem Inv.removeInvalidated (h : Inv sql c) : Inv sql c.removeInvalidated := by
  refine ⟨h.cap_pos, h.length_le, h.indexes, ?_⟩
  simpa [LRUCache.removeInvalidated] using h.nodup_l

theorem inv_newLRUCache {cap : Nat} (hcap : 0 < cap) : Inv sql (newLRUCache cap : LRUCache α) :=
  ⟨hcap, Nat.zero_le _, indexes_empty, List.nodup_nil⟩

variable [DecidableEq α]

/-- `Get` of a cached SQL moves its description to the front. -/
theorem get_hit {key : String} {sd : α} (hm : c.m key = some sd) :
    c.get key = (some sd, { c with l := sd :: c.l.erase sd }) := by
  simp [LRUCache.get, hm]

theorem get_miss {key : String} (hm : c.m key = none) : c.get key = (none, c) := by
  simp [LRUCache.get, hm]

theorem Inv.get (h : Inv sql c) (key : String) : Inv sql (c.get key).2 ∧ Keeps c (c.get key).2 := by
  rcases hm : c.m key with _ | sd
  · rw [get_miss hm]; exact ⟨h, Keeps.refl c⟩
  · rw [get_hit hm]
    have hp : c.l.Perm (sd :: c.l.erase sd) := List.perm_cons_erase (h.indexes.mem hm).1
    refine ⟨⟨h.cap_pos, ?_, h.indexes.perm hp, ?_⟩, keeps_of_perm hp rfl⟩
    · rw [← hp.length_eq]; exact h.length_le
    · exact ((hp.append_right _).map sql).nodup_iff.mp h.nodup

/-- `Invalidate` of a cached SQL. -/
theorem invalidate_hit {key : String} {sd : α} (hm : c.m key = some sd) :
    c.invalidate key =
      { c with
        m := update c.m key none, invalidStmts := c.invalidStmts ++ [sd], l := c.l.erase sd } := by
  simp [LRUCache.invalidate, hm]

theorem Inv.invalidate (h : Inv sql c) (key : String) :
    Inv sql (c.invalidate key) ∧ Keeps c (c.invalidate key) := by
  rcases hm : c.m key with _ | sd
  · simp only [LRUCache.invalidate, hm]; exact ⟨h, Keeps.refl c⟩
  · obtain ⟨hsd, hkey⟩ := h.indexes.mem hm
    obtain ⟨a, b, -, hl, herase⟩ := List.exists_erase_eq hsd
    rw [invalidate_hit hm, herase, ← hkey]
    exact ⟨h.move hl, keeps_move hl _⟩

/-- Every allowed call from a cache at the invariant succeeds and keeps it. -/
theorem Inv.step (h : Inv sql c) {op : Op α} (hop : PutsNonEmpty sql op) :
    ∃ c', step sql c op = .ok c' ∧ Inv sql c' ∧ (op ≠ .removeInvalidated → Keeps c c') := by
  cases op with
  | get key => exact ⟨_, rfl, (h.get key).1, fun _ => (h.get key).2⟩
  | put sd =>
    obtain ⟨c', hput, hinv, hkeep⟩ := h.put hop
    exact ⟨c', hput, hinv, fun _ => hkeep⟩
  | invalidate key => exact ⟨_, rfl, (h.invalidate key).1, fun _ => (h.invalidate key).2⟩
  | invalidateAll => exact ⟨_, rfl, h.invalidateAll.1, fun _ => h.invalidateAll.2⟩
  | getInvalidated => exact ⟨c, rfl, h, fun _ => Keeps.refl c⟩
  | removeInvalidated => exact ⟨_, rfl, h.removeInvalidated, fun hne => absurd rfl hne⟩

/-! ## Every run -/

theorem step_inv {c c' : LRUCache α} {op : Op α} (h : Inv sql c) (hop : PutsNonEmpty sql op)
    (hs : step sql c op = .ok c') : Inv sql c' := by
  obtain ⟨c'', hs', hinv, -⟩ := h.step hop
  rw [hs] at hs'
  cases hs'
  exact hinv

/-- Every state a run of allowed calls reaches from a cache at the invariant
is at the invariant. -/
theorem run_inv {c c' : LRUCache α} {ops : List (Op α)} (hrun : Run (step sql) c ops c')
    (h : Inv sql c) (hops : ∀ op ∈ ops, PutsNonEmpty sql op) : Inv sql c' :=
  hrun.invariant (fun _ _ _ => step_inv) h hops

/-- Every allowed call sequence runs from a cache at the invariant: no call
panics. -/
theorem exists_run {ops : List (Op α)} (h : Inv sql c) (hops : ∀ op ∈ ops, PutsNonEmpty sql op) :
    ∃ c', Run (step sql) c ops c' ∧ Inv sql c' :=
  Run.exists_of_total (fun _ _ hc hop => by
    obtain ⟨c', hs, hinv, -⟩ := hc.step hop
    exact ⟨c', hs, hinv⟩) h hops

/-- `Put`, `Invalidate` and `GetInvalidated` of one statement, from a new
cache of capacity one. -/
theorem exists_run_put_invalidate :
    Inv id (newLRUCache 1 : LRUCache String) ∧
      (∀ op ∈ [Op.put "a", .invalidate "a", .getInvalidated], PutsNonEmpty id op) ∧
      ∃ c', Run (step id) (newLRUCache 1) [Op.put "a", .invalidate "a", .getInvalidated] c' ∧
        Inv id c' := by
  have hinv : Inv id (newLRUCache 1 : LRUCache String) := inv_newLRUCache (by decide)
  have hops : ∀ op ∈ [Op.put "a", .invalidate "a", .getInvalidated], PutsNonEmpty id op := by
    intro op hop
    simp only [List.mem_cons, List.not_mem_nil, or_false] at hop
    rcases hop with rfl | rfl | rfl <;> simp [PutsNonEmpty]
  exact ⟨hinv, hops, exists_run hinv hops⟩

/-- A run of allowed calls without `RemoveInvalidated` keeps. -/
theorem run_keeps {c c' : LRUCache α} {ops : List (Op α)} (hrun : Run (step sql) c ops c')
    (h : Inv sql c) (hops : ∀ op ∈ ops, PutsNonEmpty sql op ∧ op ≠ .removeInvalidated) :
    Keeps c c' := by
  refine hrun.rel (I := Inv sql) (A := fun op => PutsNonEmpty sql op ∧ op ≠ .removeInvalidated)
    (fun _ _ _ hc hop hs => step_inv hc hop.1 hs) Keeps.refl (fun _ _ _ => Keeps.trans)
    (fun c₁ op c₂ hc hop hs => ?_) h hops
  obtain ⟨c₃, hs', -, hkeep⟩ := hc.step hop.1
  rw [hs] at hs'
  cases hs'
  exact hkeep hop.2

/-- A description cached at the start of a run without `RemoveInvalidated`
and not at its end is among the invalidated at the end, exactly once. -/
theorem leaves_invalidated_once {c c' : LRUCache α} {ops : List (Op α)}
    (hrun : Run (step sql) c ops c') (h : Inv sql c)
    (hops : ∀ op ∈ ops, PutsNonEmpty sql op ∧ op ≠ .removeInvalidated) {sd : α}
    (hsd : sd ∈ c.l) (hgone : sd ∉ c'.l) : c'.invalidStmts.count sd = 1 := by
  have h' := run_inv hrun h (fun op hop => (hops op hop).1)
  rcases (run_keeps hrun h hops).2 sd hsd with hin | hin
  · exact absurd hin hgone
  · exact List.count_eq_one_of_mem h'.nodup_invalid hin

end GaussdbGo.Stmtcache
