import Mathlib

/-!
# A list indexed by a map

A structure that keeps its values in a list (for their order) and finds
them through a map from keys is consistent when the map finds exactly the
listed values, each under its own key: `Indexes key m l`. With no key listed
twice, this survives the three things such a structure does to both sides at
once: insert a value under a fresh key, remove a value and its key, and
reorder the list.

The map is a function from keys; `update m k v` is `m[k] = v` (or
`delete(m, k)` for `v = none`).
-/

namespace Indexed

variable {κ α : Type}

variable (key : α → κ)

/-- `m` finds exactly the values of `l`, each under its key. -/
def Indexes (m : κ → Option α) (l : List α) : Prop :=
  ∀ k v, m k = some v ↔ v ∈ l ∧ key v = k

variable {key}

theorem indexes_empty : Indexes key (fun _ => none) ([] : List α) := by
  intro k v
  simp

theorem Indexes.find {m : κ → Option α} {l : List α} (h : Indexes key m l) {v : α} (hv : v ∈ l) :
    m (key v) = some v :=
  (h _ _).mpr ⟨hv, rfl⟩

theorem Indexes.mem {m : κ → Option α} {l : List α} (h : Indexes key m l) {k : κ} {v : α}
    (hm : m k = some v) : v ∈ l ∧ key v = k :=
  (h k v).mp hm

/-- Reordering the list keeps the index. -/
theorem Indexes.perm {m : κ → Option α} {l l' : List α} (h : Indexes key m l) (hp : l.Perm l') :
    Indexes key m l' := by
  intro k v
  rw [h k v, hp.mem_iff]

/-- Moving a listed value to the end of another list is a permutation of the
two lists together. -/
theorem perm_move (a b rest : List α) (x : α) :
    ((a ++ b) ++ (rest ++ [x])).Perm ((a ++ x :: b) ++ rest) := by
  have h₁ : ((a ++ b) ++ (rest ++ [x])).Perm (x :: ((a ++ b) ++ rest)) := by
    rw [← List.append_assoc]
    exact List.perm_append_singleton _ _
  have h₂ : ((a ++ x :: b) ++ rest).Perm (x :: ((a ++ b) ++ rest)) := by
    rw [List.append_assoc, List.append_assoc]
    exact List.perm_middle
  exact h₁.trans h₂.symm

variable [DecidableEq κ]

/-- `m[k] = v`, or `delete(m, k)` for `none`. -/
def update (m : κ → Option α) (k : κ) (v : Option α) : κ → Option α :=
  fun k' => if k' = k then v else m k'

@[simp] theorem update_same (m : κ → Option α) (k : κ) (v : Option α) : update m k v k = v := by
  simp [update]

theorem update_other (m : κ → Option α) {k k' : κ} (v : Option α) (h : k' ≠ k) :
    update m k v k' = m k' := by
  simp [update, h]

/-- A value inserted under a fresh key, in front of the list. -/
theorem Indexes.insert {m : κ → Option α} {l : List α} (h : Indexes key m l) {v : α}
    (hfresh : m (key v) = none) : Indexes key (update m (key v) (some v)) (v :: l) := by
  intro k w
  by_cases hk : k = key v
  · subst hk
    simp only [update_same, Option.some.injEq, List.mem_cons]
    constructor
    · rintro rfl; exact ⟨Or.inl rfl, rfl⟩
    · rintro ⟨rfl | hw, hkw⟩
      · rfl
      · rw [← hkw, h.find hw] at hfresh; cases hfresh
  · rw [update_other _ _ hk, h k w, List.mem_cons]
    constructor
    · rintro ⟨hw, hkw⟩; exact ⟨Or.inr hw, hkw⟩
    · rintro ⟨rfl | hw, hkw⟩
      · exact absurd hkw.symm hk
      · exact ⟨hw, hkw⟩

/-- A listed value removed with its key, when no key is listed twice. -/
theorem Indexes.remove {m : κ → Option α} {a b : List α} {x : α} (h : Indexes key m (a ++ x :: b))
    (hnd : ((a ++ x :: b).map key).Nodup) : Indexes key (update m (key x) none) (a ++ b) := by
  have hx : x ∈ a ++ x :: b := by simp
  intro k w
  by_cases hk : k = key x
  · subst hk
    simp only [update_same, reduceCtorEq, false_iff, not_and]
    intro hw hkw
    -- the only listed value under `key x` is `x`, which is no longer listed
    have hw' : w ∈ a ++ x :: b := by
      rw [List.mem_append] at hw ⊢
      rcases hw with hw | hw
      · exact Or.inl hw
      · exact Or.inr (List.mem_cons_of_mem _ hw)
    have hwx : w = x := List.inj_on_of_nodup_map hnd hw' hx hkw
    subst hwx
    rw [List.map_append, List.map_cons, List.nodup_append] at hnd
    rw [List.mem_append] at hw
    rcases hw with hw | hw
    · exact hnd.2.2 _ (List.mem_map_of_mem hw) _ (List.mem_cons_self ..) rfl
    · exact (List.nodup_cons.mp hnd.2.1).1 (List.mem_map_of_mem hw)
  · rw [update_other _ _ hk, h k w]
    simp only [List.mem_append, List.mem_cons]
    constructor
    · rintro ⟨hw | rfl | hw, hkw⟩
      · exact ⟨Or.inl hw, hkw⟩
      · exact absurd hkw.symm hk
      · exact ⟨Or.inr hw, hkw⟩
    · rintro ⟨hw | hw, hkw⟩
      · exact ⟨Or.inl hw, hkw⟩
      · exact ⟨Or.inr (Or.inr hw), hkw⟩

end Indexed
