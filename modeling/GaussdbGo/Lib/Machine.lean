import Mathlib

/-!
# Runs of a deterministic state machine

A machine is a step function `step : σ → ι → Except ε σ`: from a state, an
input leads to the next state or to a failure. `Run step s is t` says that
from `s` the inputs `is` lead to `t`, every step succeeding; a state *on* a
run is one where a prefix of the inputs leads.

The rules here are the ones a proof about every run needs: runs split, a
predicate every allowed step keeps holds after every allowed run
(`Run.invariant`), a machine whose allowed steps from invariant states never
fail has a run for every allowed input list (`Run.exists_of_total`), a
preorder every allowed step moves along relates the two ends of a run
(`Run.rel`), and a measure that an allowed step from every state of a region
lowers leads out of the region (`Run.exists_exit`).
-/

namespace Machine

variable {σ ι ε : Type}

/-- `Run step s is t`: from `s`, the inputs `is` lead to `t`. -/
inductive Run (step : σ → ι → Except ε σ) : σ → List ι → σ → Prop
  | nil (s : σ) : Run step s [] s
  | cons {s t u : σ} {i : ι} {is : List ι} :
    step s i = .ok t → Run step t is u → Run step s (i :: is) u

variable {step : σ → ι → Except ε σ}

theorem Run.split {s u : σ} {is js : List ι} (h : Run step s (is ++ js) u) :
    ∃ t, Run step s is t ∧ Run step t js u := by
  induction is generalizing s with
  | nil => exact ⟨s, .nil s, h⟩
  | cons i is ih =>
    cases h with
    | cons hs hrest =>
      obtain ⟨t, h₁, h₂⟩ := ih hrest
      exact ⟨t, .cons hs h₁, h₂⟩

theorem Run.single {s t : σ} {i : ι} (h : step s i = .ok t) : Run step s [i] t := .cons h (.nil t)

section Rules

variable {I : σ → Prop} {A : ι → Prop}

/-- A predicate every allowed step keeps holds after every allowed run. -/
theorem Run.invariant (hstep : ∀ s i t, I s → A i → step s i = .ok t → I t)
    {s t : σ} {is : List ι} (h : Run step s is t) (hs : I s) (hA : ∀ i ∈ is, A i) : I t := by
  induction h with
  | nil => exact hs
  | cons hst _ ih =>
    exact ih (hstep _ _ _ hs (hA _ (List.mem_cons_self ..)) hst)
      (fun i hi => hA i (List.mem_cons_of_mem _ hi))

/-- A machine whose allowed steps from invariant states succeed and keep the
invariant has a run for every allowed input list. -/
theorem Run.exists_of_total (hstep : ∀ s i, I s → A i → ∃ t, step s i = .ok t ∧ I t) :
    ∀ {s : σ} {is : List ι}, I s → (∀ i ∈ is, A i) → ∃ t, Run step s is t ∧ I t
  | s, [], hs, _ => ⟨s, .nil s, hs⟩
  | s, i :: is, hs, hA => by
    obtain ⟨t, hst, ht⟩ := hstep s i hs (hA i (List.mem_cons_self ..))
    obtain ⟨u, hrun, hu⟩ := Run.exists_of_total hstep ht
      (fun j hj => hA j (List.mem_cons_of_mem _ hj))
    exact ⟨u, .cons hst hrun, hu⟩

/-- A reflexive and transitive relation that every allowed step from an
invariant state moves along relates the two ends of every allowed run. -/
theorem Run.rel {R : σ → σ → Prop} (hinv : ∀ s i t, I s → A i → step s i = .ok t → I t)
    (hrefl : ∀ s, R s s) (htrans : ∀ s t u, R s t → R t u → R s u)
    (hstep : ∀ s i t, I s → A i → step s i = .ok t → R s t)
    {s u : σ} {is : List ι} (h : Run step s is u) (hs : I s) (hA : ∀ i ∈ is, A i) : R s u := by
  induction h with
  | nil => exact hrefl _
  | cons hst _ ih =>
    have hA₀ := hA _ (List.mem_cons_self ..)
    exact htrans _ _ _ (hstep _ _ _ hs hA₀ hst)
      (ih (hinv _ _ _ hs hA₀ hst) (fun i hi => hA i (List.mem_cons_of_mem _ hi)))

/-- A machine that, from every invariant state in the region `P`, can take
an allowed step that keeps the invariant and lowers the measure `μ` leaves
`P` by an allowed run. -/
theorem Run.exists_exit {P : σ → Prop} (μ : σ → Nat)
    (hstep : ∀ s, I s → P s → ∃ i t, A i ∧ step s i = .ok t ∧ I t ∧ μ t < μ s) :
    ∀ s, I s → ∃ is t, Run step s is t ∧ (∀ i ∈ is, A i) ∧ I t ∧ ¬P t := by
  intro s hs
  -- by strong induction on the measure of the state the run starts from
  induction hμ : μ s using Nat.strong_induction_on generalizing s with
  | _ n ih =>
    by_cases hp : P s
    · obtain ⟨i, t, hA, hst, ht, hlt⟩ := hstep s hs hp
      obtain ⟨is, u, hrun, hAs, hu, hexit⟩ := ih (μ t) (hμ ▸ hlt) t ht rfl
      refine ⟨i :: is, u, .cons hst hrun, fun j hj => ?_, hu, hexit⟩
      rcases List.mem_cons.mp hj with rfl | hj
      · exact hA
      · exact hAs j hj
    · exact ⟨[], s, .nil s, nofun, hs, hp⟩

end Rules

end Machine
