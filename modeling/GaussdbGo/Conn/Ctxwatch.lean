import GaussdbGo.Lib.Go
import GaussdbGo.Lib.Machine

/-!
# ctxwatch — watching a context for cancellation

`ContextWatcher.Watch(ctx)` starts a goroutine that waits in a `select` for
either `ctx.Done()` or a send on the unbuffered `unwatchChan`; on the first it
calls `HandleCancel(ctx)`, sets `onCancelWasCalled` without the lock, and then
waits for the send. `Unwatch()` makes that send under the lock, so it returns
only after the goroutine has received it, and then reads the flag to decide on
`HandleUnwatchAfterCancel()`.

The model is the watcher's two fields with the program counters of its one
caller and of the watcher goroutines, and the cancellation of contexts as
steps of the environment; `World` adds a log of the handler's calls and of
the caller's. `Inv` fixes, for every reachable state, which watch each
goroutine belongs to and what the log of the current watch is, and from it
every run's log is a prefix of one of two orders per watch
(`contextWatcher_confines_cancel`).
-/

namespace GaussdbGo.Ctxwatch

open GoStd Machine

/-- A `context.Context`, by the identity its cancellation is reported under,
and whether `ctx.Done()` is non-nil (a context with no `Done` channel is
never cancelled). -/
structure Ctx where
  id : Nat
  hasDone : Bool
  deriving DecidableEq, Repr

/-- `ContextWatcher`: the fields its methods read and write. -/
structure ContextWatcher where
  watchInProgress : Bool
  onCancelWasCalled : Bool
  deriving DecidableEq, Repr

/-- `NewContextWatcher(handler)`. -/
def newContextWatcher : ContextWatcher := ⟨false, false⟩

namespace ContextWatcher

/-- `Watch(ctx)`: the watcher after it, and whether it starts the goroutine. -/
def watch (cw : ContextWatcher) (ctx : Ctx) : Go Empty (ContextWatcher × Bool) :=
  if cw.watchInProgress then crash (.explicit "Watch already in progress")
  else
    let cw := { cw with onCancelWasCalled := false }
    if ctx.hasDone then pure ({ cw with watchInProgress := true }, true)
    else pure ({ cw with watchInProgress := false }, false)

/-- The part of `Unwatch()` after its send on `unwatchChan`: whether it calls
`HandleUnwatchAfterCancel()`, and the watcher after it. -/
def afterSend (cw : ContextWatcher) : Bool × ContextWatcher :=
  (cw.onCancelWasCalled, { cw with watchInProgress := false })

/-- With no watch in progress, `Watch` clears the flag and starts the
goroutine exactly when the context has a `Done` channel. -/
theorem watch_eq {cw : ContextWatcher} (hw : cw.watchInProgress = false) (ctx : Ctx) :
    cw.watch ctx = .ok (⟨ctx.hasDone, false⟩, ctx.hasDone) := by
  cases hd : ctx.hasDone <;> simp [watch, hw, hd] <;> rfl

end ContextWatcher

/-! ## The watcher with its caller and goroutines -/

/-- Where the goroutine of a watch is. -/
inductive GoroutinePC where
  /-- in its `select` -/
  | selecting
  /-- inside `HandleCancel(ctx)` -/
  | handling
  /-- after setting `onCancelWasCalled`, at `<-cw.unwatchChan` -/
  | waiting
  deriving DecidableEq, Repr

/-- A goroutine started by the `watch`-th `Watch`, for its context. -/
structure Goroutine where
  watch : Nat
  ctx : Ctx
  pc : GoroutinePC
  deriving DecidableEq, Repr

/-- Where the one caller is: between an `Unwatch` and the next `Watch`,
between a `Watch` and its `Unwatch`, in `Unwatch` waiting for its send to be
received, or in `Unwatch` after it. -/
inductive CallerPC where
  | idle
  | watching
  | sending
  | sent
  deriving DecidableEq, Repr

/-- What the log records: cancellations, and the calls the caller makes and
the handler receives, each with the number of its watch. -/
inductive Event where
  | cancelled (id : Nat)
  | watch (w : Nat) (ctx : Ctx)
  | handleCancel (w : Nat) (ctx : Ctx)
  | handleCancelReturned (w : Nat)
  | handleUnwatchAfterCancel (w : Nat)
  | unwatchReturned (w : Nat)
  deriving DecidableEq, Repr

/-- One step of the system. -/
inductive Action where
  /-- the caller calls `Watch(ctx)` -/
  | watch (ctx : Ctx)
  /-- the caller calls `Unwatch()`, which returns at once or blocks in its send -/
  | unwatch
  /-- the context with this identity is cancelled -/
  | cancel (id : Nat)
  /-- goroutine `i`'s `select` takes `<-ctx.Done()` and calls `HandleCancel` -/
  | selectDone (i : Nat)
  /-- `HandleCancel` returns to goroutine `i`, which sets `onCancelWasCalled` -/
  | handleCancelReturn (i : Nat)
  /-- goroutine `i` receives the caller's send, in its `select` or after
  `HandleCancel`, and returns -/
  | handOff (i : Nat)
  /-- the rest of `Unwatch()` after its send -/
  | unwatchFinish
  deriving DecidableEq, Repr

/-- The watcher, its caller and its goroutines, with the context of the last
`Watch`, the number of `Watch` calls, and the log. -/
structure World where
  cw : ContextWatcher
  goroutines : List Goroutine
  caller : CallerPC
  ctx : Ctx
  watches : Nat
  log : List Event

/-- A watcher from `NewContextWatcher`, before any call. -/
def World.init : World := ⟨newContextWatcher, [], .idle, ⟨0, false⟩, 0, []⟩

/-- One step; `.error ()` where it cannot be taken: a call the caller is not
at, a goroutine not at that point, a `Done` channel not yet closed, or
`Watch` panicking. -/
def World.step (t : World) : Action → Except Unit World
  | .watch ctx =>
    if t.caller = .idle then
      match t.cw.watch ctx with
      | .ok (cw, started) =>
        pure { t with
          cw := cw
          goroutines := if started then t.goroutines ++ [⟨t.watches, ctx, .selecting⟩]
            else t.goroutines
          caller := .watching
          ctx := ctx
          watches := t.watches + 1
          log := t.log ++ [.watch t.watches ctx] }
      | .error _ => throw ()
    else throw ()
  | .unwatch =>
    if t.caller = .watching then
      if t.cw.watchInProgress then pure { t with caller := .sending }
      else pure { t with caller := .idle, log := t.log ++ [.unwatchReturned (t.watches - 1)] }
    else throw ()
  | .cancel id => pure { t with log := t.log ++ [.cancelled id] }
  | .selectDone i =>
    match t.goroutines[i]? with
    | some g =>
      if g.pc = .selecting ∧ Event.cancelled g.ctx.id ∈ t.log then
        pure { t with
          goroutines := t.goroutines.set i { g with pc := .handling }
          log := t.log ++ [.handleCancel g.watch g.ctx] }
      else throw ()
    | none => throw ()
  | .handleCancelReturn i =>
    match t.goroutines[i]? with
    | some g =>
      if g.pc = .handling then
        pure { t with
          cw := { t.cw with onCancelWasCalled := true }
          goroutines := t.goroutines.set i { g with pc := .waiting }
          log := t.log ++ [.handleCancelReturned g.watch] }
      else throw ()
    | none => throw ()
  | .handOff i =>
    match t.goroutines[i]? with
    | some g =>
      if t.caller = .sending ∧ (g.pc = .selecting ∨ g.pc = .waiting) then
        pure { t with goroutines := t.goroutines.eraseIdx i, caller := .sent }
      else throw ()
    | none => throw ()
  | .unwatchFinish =>
    if t.caller = .sent then
      let (afterCancel, cw) := t.cw.afterSend
      pure { t with
        cw := cw
        caller := .idle
        log := t.log ++ (if afterCancel then [.handleUnwatchAfterCancel (t.watches - 1)] else []) ++
          [.unwatchReturned (t.watches - 1)] }
    else throw ()

/-! ## What each step does -/

section StepCases

variable {t t' : World}

theorem step_watch {ctx : Ctx} (hs : t.step (.watch ctx) = .ok t') :
    t.caller = .idle ∧ ∃ cw started, t.cw.watch ctx = .ok (cw, started) ∧
      t' = { t with
        cw := cw
        goroutines := if started then t.goroutines ++ [⟨t.watches, ctx, .selecting⟩]
          else t.goroutines
        caller := .watching
        ctx := ctx
        watches := t.watches + 1
        log := t.log ++ [.watch t.watches ctx] } := by
  simp only [World.step] at hs
  split at hs
  · rename_i hc
    split at hs
    · rename_i cw started hw
      cases hs
      exact ⟨hc, cw, started, hw, rfl⟩
    · cases hs
  · cases hs

theorem step_unwatch (hs : t.step .unwatch = .ok t') :
    t.caller = .watching ∧
      (t.cw.watchInProgress = true ∧ t' = { t with caller := .sending } ∨
        t.cw.watchInProgress = false ∧
          t' = { t with caller := .idle, log := t.log ++ [.unwatchReturned (t.watches - 1)] }) := by
  simp only [World.step] at hs
  split at hs
  · rename_i hc
    split at hs
    · cases hs
      exact ⟨hc, Or.inl ⟨‹_›, rfl⟩⟩
    · rename_i hw
      cases hs
      exact ⟨hc, Or.inr ⟨by simpa using hw, rfl⟩⟩
  · cases hs

theorem step_selectDone {i : Nat} (hs : t.step (.selectDone i) = .ok t') :
    ∃ g, t.goroutines[i]? = some g ∧ g.pc = .selecting ∧ Event.cancelled g.ctx.id ∈ t.log ∧
      t' = { t with
        goroutines := t.goroutines.set i { g with pc := .handling }
        log := t.log ++ [.handleCancel g.watch g.ctx] } := by
  simp only [World.step] at hs
  split at hs
  · rename_i g hi
    split at hs
    · rename_i hg
      cases hs
      exact ⟨g, hi, hg.1, hg.2, rfl⟩
    · cases hs
  · cases hs

theorem step_handleCancelReturn {i : Nat} (hs : t.step (.handleCancelReturn i) = .ok t') :
    ∃ g, t.goroutines[i]? = some g ∧ g.pc = .handling ∧
      t' = { t with
        cw := { t.cw with onCancelWasCalled := true }
        goroutines := t.goroutines.set i { g with pc := .waiting }
        log := t.log ++ [.handleCancelReturned g.watch] } := by
  simp only [World.step] at hs
  split at hs
  · rename_i g hi
    split at hs
    · cases hs
      exact ⟨g, hi, ‹_›, rfl⟩
    · cases hs
  · cases hs

theorem step_handOff {i : Nat} (hs : t.step (.handOff i) = .ok t') :
    ∃ g, t.goroutines[i]? = some g ∧ t.caller = .sending ∧ (g.pc = .selecting ∨ g.pc = .waiting) ∧
      t' = { t with goroutines := t.goroutines.eraseIdx i, caller := .sent } := by
  simp only [World.step] at hs
  split at hs
  · rename_i g hi
    split at hs
    · rename_i hg
      cases hs
      exact ⟨g, hi, hg.1, hg.2, rfl⟩
    · cases hs
  · cases hs

theorem step_unwatchFinish (hs : t.step .unwatchFinish = .ok t') :
    t.caller = .sent ∧
      t' = { t with
        cw := t.cw.afterSend.2
        caller := .idle
        log := t.log ++ (if t.cw.afterSend.1 then [.handleUnwatchAfterCancel (t.watches - 1)] else []) ++
          [.unwatchReturned (t.watches - 1)] } := by
  simp only [World.step] at hs
  split at hs
  · cases hs
    exact ⟨‹_›, rfl⟩
  · cases hs

/-- From an `Unwatch` in progress every step keeps the watch, and either
leaves the `Unwatch` in progress or is its return, which it logs. -/
theorem unwatching_step (hu : t.caller = .sending ∨ t.caller = .sent) {a : Action}
    (hs : t.step a = .ok t') :
    t'.watches = t.watches ∧ (t'.caller = .sending ∨ t'.caller = .sent ∨
      t'.caller = .idle ∧ Event.unwatchReturned (t.watches - 1) ∈ t'.log) := by
  have hkeep : t.caller = .sending ∨ t.caller = .sent ∨
      t.caller = .idle ∧ Event.unwatchReturned (t.watches - 1) ∈ t'.log := by
    rcases hu with hu | hu
    · exact Or.inl hu
    · exact Or.inr (Or.inl hu)
  cases a with
  | watch ctx =>
    obtain ⟨hc, -⟩ := step_watch hs
    rcases hu with hu | hu <;> rw [hu] at hc <;> cases hc
  | unwatch =>
    obtain ⟨hc, -⟩ := step_unwatch hs
    rcases hu with hu | hu <;> rw [hu] at hc <;> cases hc
  | cancel id =>
    cases hs
    exact ⟨rfl, hkeep⟩
  | selectDone i =>
    obtain ⟨g, -, -, -, rfl⟩ := step_selectDone hs
    exact ⟨rfl, hkeep⟩
  | handleCancelReturn i =>
    obtain ⟨g, -, -, rfl⟩ := step_handleCancelReturn hs
    exact ⟨rfl, hkeep⟩
  | handOff i =>
    obtain ⟨g, -, -, -, rfl⟩ := step_handOff hs
    exact ⟨rfl, Or.inr (Or.inl rfl)⟩
  | unwatchFinish =>
    obtain ⟨-, rfl⟩ := step_unwatchFinish hs
    exact ⟨rfl, Or.inr (Or.inr ⟨rfl, by simp⟩)⟩

end StepCases

/-! ## The order of each watch's calls -/

/-- The watch an event belongs to; a cancellation belongs to none. -/
def Event.watch? : Event → Option Nat
  | .cancelled _ => none
  | .watch w _ => some w
  | .handleCancel w _ => some w
  | .handleCancelReturned w => some w
  | .handleUnwatchAfterCancel w => some w
  | .unwatchReturned w => some w

/-- The events of watch `w`, in order. -/
def project (w : Nat) (log : List Event) : List Event := log.filter (·.watch? = some w)

@[simp] theorem project_nil (w : Nat) : project w [] = [] := rfl

@[simp] theorem project_append (w : Nat) (l l' : List Event) :
    project w (l ++ l') = project w l ++ project w l' := List.filter_append ..

@[simp] theorem project_cons (w : Nat) (e : Event) (l : List Event) :
    project w (e :: l) = if e.watch? = some w then e :: project w l else project w l := by
  by_cases h : e.watch? = some w <;> simp [project, h]

/-- A watch that ended without `HandleCancel`. -/
def uncancelledWatch (w : Nat) (c : Ctx) : List Event := [.watch w c, .unwatchReturned w]

/-- A watch whose context was cancelled while it was watched. -/
def cancelledWatch (w : Nat) (c : Ctx) : List Event :=
  [.watch w c, .handleCancel w c, .handleCancelReturned w, .handleUnwatchAfterCancel w,
    .unwatchReturned w]

/-- The events of watch `w` so far follow one of the two orders: no
`HandleCancel` at all, or one, with the watch's own context, returning before
the `HandleUnwatchAfterCancel` that `Unwatch` makes before it returns; and
nothing after `Unwatch` returns. -/
def WatchOrder (w : Nat) (l : List Event) : Prop :=
  ∃ c, l <+: uncancelledWatch w c ∨ l <+: cancelledWatch w c

/-- The events of a watch that has ended. -/
def WatchDone (w : Nat) (l : List Event) : Prop :=
  ∃ c, l = uncancelledWatch w c ∨ l = cancelledWatch w c

theorem WatchDone.order {w : Nat} {l : List Event} (h : WatchDone w l) : WatchOrder w l := by
  obtain ⟨c, rfl | rfl⟩ := h
  · exact ⟨c, Or.inl (List.prefix_refl _)⟩
  · exact ⟨c, Or.inr (List.prefix_refl _)⟩

/-- Every `HandleCancel` comes after the cancellation of its context. -/
def CancelledBefore (log : List Event) : Prop :=
  ∀ pre w c post, log = pre ++ .handleCancel w c :: post → Event.cancelled c.id ∈ pre

/-- Appending an event keeps `CancelledBefore` when the event is not a
`HandleCancel` whose context has not been cancelled. -/
theorem CancelledBefore.append {log : List Event} (h : CancelledBefore log) {e : Event}
    (he : ∀ w c, e = .handleCancel w c → Event.cancelled c.id ∈ log) :
    CancelledBefore (log ++ [e]) := by
  intro pre w c post hsplit
  rcases List.eq_nil_or_concat post with rfl | ⟨post', x, rfl⟩
  · -- the new event is this `HandleCancel`
    obtain ⟨rfl, rfl⟩ : log = pre ∧ e = .handleCancel w c := by simpa using hsplit
    exact he w c rfl
  · rw [List.concat_eq_append, ← List.cons_append, ← List.append_assoc] at hsplit
    exact h pre w c post' (List.append_inj' hsplit rfl).1

theorem CancelledBefore.append_list {log : List Event} (h : CancelledBefore log) :
    ∀ {es : List Event}, (∀ e ∈ es, ∀ w c, e = .handleCancel w c → Event.cancelled c.id ∈ log) →
      CancelledBefore (log ++ es)
  | [], _ => by simpa using h
  | e :: es, hes => by
    rw [← List.singleton_append, ← List.append_assoc]
    exact (h.append (hes e (List.mem_cons_self ..))).append_list fun e' he' w c hc =>
      List.mem_append_left _ (hes e' (List.mem_cons_of_mem _ he') w c hc)

/-! ## The invariant -/

/-- The caller, the goroutines and the two fields together: no watch; a
watch of a context with no `Done` channel, with no goroutine; a watch with its
one goroutine, the flag set exactly once the goroutine has returned from
`HandleCancel`; or an `Unwatch` past its send, the goroutine gone. -/
inductive Phase (t : World) : Prop
  | idle (hc : t.caller = .idle) (hg : t.goroutines = []) (hw : t.cw.watchInProgress = false)
  | noDone (hc : t.caller = .watching) (hg : t.goroutines = []) (hw : t.cw.watchInProgress = false)
      (hf : t.cw.onCancelWasCalled = false)
  | running (g : Goroutine) (hc : t.caller = .watching ∨ t.caller = .sending)
      (hg : t.goroutines = [g]) (hw : t.cw.watchInProgress = true)
      (hf : t.cw.onCancelWasCalled = true ↔ g.pc = .waiting)
  | sent (hc : t.caller = .sent) (hg : t.goroutines = []) (hw : t.cw.watchInProgress = true)

theorem Phase.congr {t t' : World} (h : Phase t) (hc : t'.caller = t.caller)
    (hg : t'.goroutines = t.goroutines) (hcw : t'.cw = t.cw) : Phase t' := by
  rcases h with ⟨hc₀, hg₀, hw₀⟩ | ⟨hc₀, hg₀, hw₀, hf₀⟩ | ⟨g, hc₀, hg₀, hw₀, hf₀⟩ | ⟨hc₀, hg₀, hw₀⟩
  · exact .idle (hc ▸ hc₀) (hg ▸ hg₀) (hcw ▸ hw₀)
  · exact .noDone (hc ▸ hc₀) (hg ▸ hg₀) (hcw ▸ hw₀) (hcw ▸ hf₀)
  · exact .running g (hc ▸ hc₀) (hg ▸ hg₀) (hcw ▸ hw₀) (hcw ▸ hf₀)
  · exact .sent (hc ▸ hc₀) (hg ▸ hg₀) (hcw ▸ hw₀)

/-- The events of the current watch, as the state determines them. -/
def World.currentLog (t : World) : List Event :=
  let w := t.watches - 1
  .watch w t.ctx ::
    ((if t.cw.onCancelWasCalled then [.handleCancel w t.ctx, .handleCancelReturned w]
      else if t.goroutines.any (·.pc = .handling) then [.handleCancel w t.ctx] else []) ++
    (if t.caller = .idle then
      (if t.cw.onCancelWasCalled then [.handleUnwatchAfterCancel w] else []) ++ [.unwatchReturned w]
     else []))

/-- Once its `Unwatch` has returned, a watch's events are complete. -/
theorem currentLog_done {t : World} (hc : t.caller = .idle) (hg : t.goroutines = []) :
    WatchDone (t.watches - 1) t.currentLog := by
  cases hf : t.cw.onCancelWasCalled
  · exact ⟨t.ctx, Or.inl (by simp [World.currentLog, hc, hg, hf, uncancelledWatch])⟩
  · exact ⟨t.ctx, Or.inr (by simp [World.currentLog, hc, hf, cancelledWatch])⟩

/-- The current watch's `Unwatch` is logged as returned only once the caller
is idle. -/
theorem caller_idle_of_returned {t : World} {w : Nat}
    (hm : Event.unwatchReturned w ∈ t.currentLog) : t.caller = .idle := by
  by_contra hc
  simp only [World.currentLog, hc, if_false, List.append_nil, List.mem_cons, reduceCtorEq,
    false_or] at hm
  split_ifs at hm <;> simp at hm

/-- Every goroutine belongs to the current watch; the log of every earlier
watch is complete, that of the current one is what the state says, and no
later watch has any; and every `HandleCancel` follows its cancellation. -/
structure Inv (t : World) : Prop where
  phase : Phase t
  fresh : t.watches = 0 → t.caller = .idle
  current : ∀ g ∈ t.goroutines, g.watch + 1 = t.watches ∧ g.ctx = t.ctx
  log_old : ∀ w, w + 1 < t.watches → WatchDone w (project w t.log)
  log_cur : 0 < t.watches → project (t.watches - 1) t.log = t.currentLog
  log_new : ∀ w, t.watches ≤ w → project w t.log = []
  cancelled : CancelledBefore t.log

theorem inv_init : Inv World.init where
  phase := .idle rfl rfl rfl
  fresh _ := rfl
  current := nofun
  log_old _ h := absurd h (Nat.not_lt_zero _)
  log_cur h := absurd h (Nat.lt_irrefl 0)
  log_new _ _ := rfl
  cancelled pre _ _ _ h := by cases pre <;> simp [World.init] at h

theorem project_eq_nil {w : Nat} {es : List Event} (h : ∀ e ∈ es, e.watch? ≠ some w) :
    project w es = [] :=
  List.filter_eq_nil_iff.mpr fun e he => by simpa using h e he

/-- A step that keeps the number of watches and the current context, and
appends `es`, events of the current watch or cancellations, keeps `Inv` once
its phase, its goroutines and the current watch's events are right. -/
theorem Inv.of_append {t t' : World} (h : Inv t) {es : List Event} (hphase : Phase t')
    (hfresh : t'.watches = 0 → t'.caller = .idle) (hw : t'.watches = t.watches) (hctx : t'.ctx = t.ctx)
    (hcur : ∀ g ∈ t'.goroutines, g.watch + 1 = t.watches ∧ g.ctx = t.ctx)
    (hlog : t'.log = t.log ++ es)
    (hes : ∀ e ∈ es, e.watch? = none ∨ (0 < t.watches ∧ e.watch? = some (t.watches - 1)))
    (hcl : 0 < t.watches → t'.currentLog = t.currentLog ++ project (t.watches - 1) es)
    (hcanc : ∀ e ∈ es, ∀ w c, e = .handleCancel w c → Event.cancelled c.id ∈ t.log) : Inv t' where
  phase := hphase
  fresh := hfresh
  current := by
    rw [hw, hctx]
    exact hcur
  log_old w hlt := by
    rw [hw] at hlt
    -- the new events are not this earlier watch's
    have hnil : project w es = [] := project_eq_nil fun e he => by
      rcases hes e he with he' | ⟨_, he'⟩
      · simp [he']
      · simp only [he', ne_eq, Option.some.injEq]
        omega
    rw [hlog, project_append, hnil, List.append_nil]
    exact h.log_old w hlt
  log_cur hpos := by
    rw [hw] at hpos ⊢
    rw [hlog, project_append, h.log_cur hpos, hcl hpos]
  log_new w hle := by
    rw [hw] at hle
    have hnil : project w es = [] := project_eq_nil fun e he => by
      rcases hes e he with he' | ⟨_, he'⟩
      · simp [he']
      · simp only [he', ne_eq, Option.some.injEq]
        omega
    rw [hlog, project_append, h.log_new w hle, hnil]
    rfl
  cancelled := hlog ▸ h.cancelled.append_list hcanc

/-- The goroutine a step names is the only one. -/
theorem Phase.goroutine {t : World} (h : Phase t) {i : Nat} {g : Goroutine}
    (hi : t.goroutines[i]? = some g) :
    i = 0 ∧ (t.caller = .watching ∨ t.caller = .sending) ∧ t.goroutines = [g] ∧
      t.cw.watchInProgress = true ∧ (t.cw.onCancelWasCalled = true ↔ g.pc = .waiting) := by
  rcases h with ⟨_, hg, _⟩ | ⟨_, hg, _, _⟩ | ⟨g₀, hc, hg, hw, hf⟩ | ⟨_, hg, _⟩
  · simp [hg] at hi
  · simp [hg] at hi
  · rw [hg] at hi
    match i, hi with
    | 0, hi =>
      obtain rfl : g₀ = g := by simpa using hi
      exact ⟨rfl, hc, hg, hw, hf⟩
  · simp [hg] at hi

section PhaseCases

variable {t : World} (h : Phase t)
include h

theorem Phase.of_idle (hc : t.caller = .idle) : t.goroutines = [] ∧ t.cw.watchInProgress = false := by
  rcases h with ⟨-, hg, hw⟩ | ⟨hc', -, -, -⟩ | ⟨_, hc', -, -, -⟩ | ⟨hc', -, -⟩
  · exact ⟨hg, hw⟩
  · simp [hc] at hc'
  · simp [hc] at hc'
  · simp [hc] at hc'

theorem Phase.of_watching (hc : t.caller = .watching) (hw : t.cw.watchInProgress = false) :
    t.goroutines = [] ∧ t.cw.onCancelWasCalled = false := by
  rcases h with ⟨hc', -, -⟩ | ⟨-, hg, -, hf⟩ | ⟨_, -, -, hw', -⟩ | ⟨hc', -, -⟩
  · simp [hc] at hc'
  · exact ⟨hg, hf⟩
  · simp [hw] at hw'
  · simp [hc] at hc'

/-- A watch in progress has its goroutine until the hand-off. -/
theorem Phase.of_running (hc : t.caller = .watching ∨ t.caller = .sending)
    (hw : t.caller = .sending ∨ t.cw.watchInProgress = true) :
    ∃ g, t.goroutines = [g] ∧ t.cw.watchInProgress = true ∧
      (t.cw.onCancelWasCalled = true ↔ g.pc = .waiting) := by
  rcases h with ⟨hc', -, -⟩ | ⟨hc', -, hw', -⟩ | ⟨g, -, hg, hw', hf⟩ | ⟨hc', -, -⟩
  · rcases hc with hc | hc <;> simp [hc] at hc'
  · rcases hw with hw | hw
    · simp [hw] at hc'
    · simp [hw] at hw'
  · exact ⟨g, hg, hw', hf⟩
  · rcases hc with hc | hc <;> simp [hc] at hc'

theorem Phase.of_sent (hc : t.caller = .sent) : t.goroutines = [] ∧ t.cw.watchInProgress = true := by
  rcases h with ⟨hc', -, -⟩ | ⟨hc', -, -, -⟩ | ⟨_, hc', -, -, -⟩ | ⟨-, hg, hw⟩
  · simp [hc] at hc'
  · simp [hc] at hc'
  · simp [hc] at hc'
  · exact ⟨hg, hw⟩

/-- A goroutine is alive only while its watch is. -/
theorem Phase.caller_of_mem {g : Goroutine} (hg : g ∈ t.goroutines) :
    t.caller = .watching ∨ t.caller = .sending := by
  rcases h with ⟨-, hg', -⟩ | ⟨-, hg', -, -⟩ | ⟨_, hc, -, -, -⟩ | ⟨-, hg', -⟩
  · simp [hg'] at hg
  · simp [hg'] at hg
  · exact hc
  · simp [hg'] at hg

end PhaseCases

section Steps

variable {t : World} (h : Inv t)
include h

theorem Inv.pos_of_ne_idle (hc : t.caller ≠ .idle) : 0 < t.watches :=
  Nat.pos_of_ne_zero fun h0 => hc (h.fresh h0)

theorem Inv.cancel (id : Nat) : Inv { t with log := t.log ++ [.cancelled id] } :=
  h.of_append (h.phase.congr rfl rfl rfl) h.fresh rfl rfl h.current rfl
    (by simp [Event.watch?]) (fun _ => by simp [World.currentLog, Event.watch?]) (by simp)

theorem Inv.unwatch_send (hc : t.caller = .watching) (hw : t.cw.watchInProgress = true) :
    Inv { t with caller := .sending } := by
  obtain ⟨g, hg, -, hf⟩ := h.phase.of_running (Or.inl hc) (Or.inr hw)
  have hphase : Phase { t with caller := .sending } := .running g (Or.inr rfl) hg hw hf
  refine h.of_append hphase (fun h0 => absurd (h.fresh h0) (by rw [hc]; decide)) rfl
    rfl h.current (List.append_nil _).symm (by simp) (fun _ => ?_) (by simp)
  simp [World.currentLog, hc]

theorem Inv.unwatch_return (hc : t.caller = .watching) (hw : t.cw.watchInProgress = false) :
    Inv { t with caller := .idle, log := t.log ++ [.unwatchReturned (t.watches - 1)] } := by
  have hpos := h.pos_of_ne_idle (by rw [hc]; decide)
  -- with no goroutine the watch ends at once
  obtain ⟨hg, hf⟩ := h.phase.of_watching hc hw
  refine h.of_append (.idle rfl hg hw) (fun _ => rfl) rfl rfl h.current rfl
    (by simp [Event.watch?, hpos]) (fun _ => ?_) (by simp)
  simp [World.currentLog, hc, hg, hf, Event.watch?]

theorem Inv.selectDone {i : Nat} {g : Goroutine} (hi : t.goroutines[i]? = some g)
    (hsel : g.pc = .selecting) (hcan : Event.cancelled g.ctx.id ∈ t.log) :
    Inv { t with
      goroutines := t.goroutines.set i { g with pc := .handling }
      log := t.log ++ [.handleCancel g.watch g.ctx] } := by
  obtain ⟨rfl, hc, hg, hw, hf⟩ := h.phase.goroutine hi
  obtain ⟨hgw, hgc⟩ := h.current g (by simp [hg])
  have hf' : t.cw.onCancelWasCalled = false := by simpa [hsel] using hf
  have hpos : 0 < t.watches := by omega
  have hni : t.caller ≠ .idle := by rcases hc with h' | h' <;> rw [h'] <;> decide
  refine h.of_append (.running { g with pc := .handling } hc (by simp [hg]) hw (by simp [hf']))
    (fun h0 => absurd h0 (Nat.pos_iff_ne_zero.mp hpos)) rfl rfl (fun g' hg' => by simp [hg] at hg'; simp [hg', hgw, hgc]) rfl
    (by simp [Event.watch?, hpos]; omega) (fun _ => ?_) (by simp [hcan])
  -- the goroutine is now inside `HandleCancel`
  simp [World.currentLog, hg, hf', hsel, hni, Event.watch?, hgc, ← hgw]

theorem Inv.handleCancelReturn {i : Nat} {g : Goroutine} (hi : t.goroutines[i]? = some g)
    (hhan : g.pc = .handling) :
    Inv { t with
      cw := { t.cw with onCancelWasCalled := true }
      goroutines := t.goroutines.set i { g with pc := .waiting }
      log := t.log ++ [.handleCancelReturned g.watch] } := by
  obtain ⟨rfl, hc, hg, hw, hf⟩ := h.phase.goroutine hi
  obtain ⟨hgw, hgc⟩ := h.current g (by simp [hg])
  have hf' : t.cw.onCancelWasCalled = false := by simpa [hhan] using hf
  have hpos : 0 < t.watches := by omega
  have hni : t.caller ≠ .idle := by rcases hc with h' | h' <;> rw [h'] <;> decide
  refine h.of_append (.running { g with pc := .waiting } hc (by simp [hg]) hw (by simp))
    (fun h0 => absurd h0 (Nat.pos_iff_ne_zero.mp hpos)) rfl rfl (fun g' hg' => by simp [hg] at hg'; simp [hg', hgw, hgc]) rfl
    (by simp [Event.watch?, hpos]; omega) (fun _ => ?_) (by simp)
  -- `HandleCancel` has returned and the flag is set
  simp [World.currentLog, hg, hf', hhan, hni, Event.watch?, ← hgw]

theorem Inv.handOff {i : Nat} {g : Goroutine} (hi : t.goroutines[i]? = some g)
    (hs : t.caller = .sending) (hpc : g.pc = .selecting ∨ g.pc = .waiting) :
    Inv { t with goroutines := t.goroutines.eraseIdx i, caller := .sent } := by
  obtain ⟨rfl, -, hg, hw, hf⟩ := h.phase.goroutine hi
  have hnh : g.pc ≠ .handling := by rcases hpc with h' | h' <;> rw [h'] <;> decide
  refine h.of_append (.sent rfl (by simp [hg]) hw) (fun h0 => absurd (h.fresh h0) (by rw [hs]; decide))
    rfl rfl (fun g' hg' => by simp [hg] at hg') (List.append_nil _).symm (by simp) (fun _ => ?_)
    (by simp)
  -- the goroutine is gone; what it did stays in the flag
  simp [World.currentLog, hg, hs, hnh]

theorem Inv.unwatchFinish (hs : t.caller = .sent) :
    Inv { t with
      cw := t.cw.afterSend.2
      caller := .idle
      log := t.log ++ (if t.cw.afterSend.1 then [.handleUnwatchAfterCancel (t.watches - 1)] else []) ++
        [.unwatchReturned (t.watches - 1)] } := by
  have hpos := h.pos_of_ne_idle (by rw [hs]; decide)
  have hg := (h.phase.of_sent hs).1
  rw [List.append_assoc]
  refine h.of_append (.idle rfl hg rfl) (fun _ => rfl) rfl rfl h.current rfl ?_ (fun _ => ?_) ?_
  · intro e he
    cases hf : t.cw.onCancelWasCalled <;> simp [ContextWatcher.afterSend, hf] at he <;>
      rcases he with rfl | rfl <;> simp [Event.watch?, hpos]
  · cases hf : t.cw.onCancelWasCalled <;>
      simp [World.currentLog, ContextWatcher.afterSend, hs, hg, hf, Event.watch?]
  · intro e he w c
    cases hf : t.cw.onCancelWasCalled <;> simp [ContextWatcher.afterSend, hf] at he <;>
      rcases he with rfl | rfl <;> simp

theorem Inv.watch (hc : t.caller = .idle) (ctx : Ctx) :
    Inv { t with
      cw := ⟨ctx.hasDone, false⟩
      goroutines := if ctx.hasDone then t.goroutines ++ [⟨t.watches, ctx, .selecting⟩]
        else t.goroutines
      caller := .watching
      ctx := ctx
      watches := t.watches + 1
      log := t.log ++ [.watch t.watches ctx] } := by
  obtain ⟨hg, -⟩ := h.phase.of_idle hc
  refine ⟨?_, fun h0 => absurd h0 (Nat.succ_ne_zero _), ?_, fun v hv => ?_, fun _ => ?_,
    fun v hv => ?_, h.cancelled.append fun _ _ he => by cases he⟩
  · -- a goroutine exactly for a context with a `Done` channel
    cases hd : ctx.hasDone
    · exact .noDone rfl (by simp [hg]) rfl rfl
    · exact .running ⟨t.watches, ctx, .selecting⟩ (Or.inl rfl) (by simp [hg]) rfl (by simp)
  · intro g hg'
    cases hd : ctx.hasDone <;> simp [hd, hg] at hg'
    simp [hg']
  · -- the watch that was current is now an earlier one, and complete
    have hv' : v + 1 < t.watches + 1 := hv
    show WatchDone v (project v (t.log ++ [.watch t.watches ctx]))
    have hne : t.watches ≠ v := by omega
    rw [project_append, project_cons, project_nil, if_neg (by simp [Event.watch?, hne]),
      List.append_nil]
    by_cases hold : v + 1 < t.watches
    · exact h.log_old v hold
    · have hv' : v = t.watches - 1 := by omega
      rw [hv', h.log_cur (by omega)]
      exact currentLog_done hc hg
  · show project (t.watches + 1 - 1) (t.log ++ [.watch t.watches ctx]) = _
    rw [Nat.add_sub_cancel, project_append, h.log_new _ (Nat.le_refl _)]
    cases hd : ctx.hasDone <;> simp [World.currentLog, Event.watch?, hg]
  · have hv' : t.watches + 1 ≤ v := hv
    show project v (t.log ++ [.watch t.watches ctx]) = []
    have hne : t.watches ≠ v := by omega
    rw [project_append, h.log_new v (by omega)]
    simp [Event.watch?, hne]

/-- Every step keeps the invariant. -/
theorem Inv.step {a : Action} {t' : World} (hs : t.step a = .ok t') : Inv t' := by
  cases a with
  | watch ctx =>
    obtain ⟨hc, cw, started, hw, rfl⟩ := step_watch hs
    rw [ContextWatcher.watch_eq (h.phase.of_idle hc).2] at hw
    cases hw
    exact h.watch hc ctx
  | unwatch =>
    obtain ⟨hc, ⟨hw, rfl⟩ | ⟨hw, rfl⟩⟩ := step_unwatch hs
    · exact h.unwatch_send hc hw
    · exact h.unwatch_return hc hw
  | cancel id =>
    cases hs
    exact h.cancel id
  | selectDone i =>
    obtain ⟨g, hi, hsel, hcan, rfl⟩ := step_selectDone hs
    exact h.selectDone hi hsel hcan
  | handleCancelReturn i =>
    obtain ⟨g, hi, hhan, rfl⟩ := step_handleCancelReturn hs
    exact h.handleCancelReturn hi hhan
  | handOff i =>
    obtain ⟨g, hi, hc, hpc, rfl⟩ := step_handOff hs
    exact h.handOff hi hc hpc
  | unwatchFinish =>
    obtain ⟨hc, rfl⟩ := step_unwatchFinish hs
    exact h.unwatchFinish hc

end Steps

/-! ## Every `Unwatch` returns -/

/-- The most steps a goroutine at this point takes before it returns. -/
def GoroutinePC.stepsLeft : GoroutinePC → Nat
  | .selecting => 3
  | .handling => 2
  | .waiting => 1

/-- The most steps of the watcher an `Unwatch` in progress takes before it
returns: its goroutine's, the hand-off included, and its own last one. -/
def World.unwatchLeft (t : World) : Nat :=
  match t.caller with
  | .sending => 1 + (t.goroutines.map (·.pc.stepsLeft)).sum
  | .sent => 1
  | _ => 0

theorem sending_of_goroutine {t : World} (hu : t.caller = .sending ∨ t.caller = .sent)
    (hc : t.caller = .watching ∨ t.caller = .sending) : t.caller = .sending := by
  rcases hu with hu | hu
  · exact hu
  · rw [hu] at hc
    simp at hc

section Liveness

variable {t : World} (h : Inv t)
include h

/-- An `Unwatch` in progress is never stuck: the watcher can take a step. -/
theorem Inv.unwatch_progress (hu : t.caller = .sending ∨ t.caller = .sent) :
    ∃ a t', (∀ id, a ≠ .cancel id) ∧ t.step a = .ok t' := by
  rcases hu with hs | hs
  · -- the goroutine either takes the send or returns from `HandleCancel`
    obtain ⟨g, hg, -, -⟩ := h.phase.of_running (Or.inr hs) (Or.inl hs)
    cases hpc : g.pc with
    | selecting =>
      exact ⟨.handOff 0, { t with goroutines := t.goroutines.eraseIdx 0, caller := .sent }, nofun,
        by simp [World.step, hg, hs, hpc]; rfl⟩
    | handling =>
      exact ⟨.handleCancelReturn 0,
        { t with
          cw := { t.cw with onCancelWasCalled := true }
          goroutines := t.goroutines.set 0 { g with pc := .waiting }
          log := t.log ++ [.handleCancelReturned g.watch] }, nofun, by simp [World.step, hg, hpc]; rfl⟩
    | waiting =>
      exact ⟨.handOff 0, { t with goroutines := t.goroutines.eraseIdx 0, caller := .sent }, nofun,
        by simp [World.step, hg, hs, hpc]; rfl⟩
  · exact ⟨.unwatchFinish, _, nofun, by simp [World.step, hs]; rfl⟩

/-- Every step of the watcher brings an `Unwatch` in progress nearer to
returning; cancellations are the only other steps it allows. -/
theorem Inv.unwatchLeft_lt (hu : t.caller = .sending ∨ t.caller = .sent) {a : Action}
    (ha : ∀ id, a ≠ .cancel id) {t' : World} (hs : t.step a = .ok t') :
    t'.unwatchLeft < t.unwatchLeft := by
  cases a with
  | watch ctx =>
    obtain ⟨hc, -⟩ := step_watch hs
    rcases hu with hu | hu <;> rw [hu] at hc <;> cases hc
  | unwatch =>
    obtain ⟨hc, -⟩ := step_unwatch hs
    rcases hu with hu | hu <;> rw [hu] at hc <;> cases hc
  | cancel id => exact absurd rfl (ha id)
  | selectDone i =>
    obtain ⟨g, hi, hsel, -, rfl⟩ := step_selectDone hs
    obtain ⟨rfl, hc, hg, -, -⟩ := h.phase.goroutine hi
    simp [World.unwatchLeft, sending_of_goroutine hu hc, hg, hsel, GoroutinePC.stepsLeft]
  | handleCancelReturn i =>
    obtain ⟨g, hi, hhan, rfl⟩ := step_handleCancelReturn hs
    obtain ⟨rfl, hc, hg, -, -⟩ := h.phase.goroutine hi
    simp [World.unwatchLeft, sending_of_goroutine hu hc, hg, hhan, GoroutinePC.stepsLeft]
  | handOff i =>
    obtain ⟨g, hi, hs', -, rfl⟩ := step_handOff hs
    obtain ⟨rfl, -, hg, -, -⟩ := h.phase.goroutine hi
    cases hpc : g.pc <;> simp [World.unwatchLeft, hs', hg, hpc, GoroutinePC.stepsLeft]
  | unwatchFinish =>
    obtain ⟨hc, rfl⟩ := step_unwatchFinish hs
    simp [World.unwatchLeft, hc]

/-- From idle, `Watch` never panics: no watch is in progress. -/
theorem Inv.watch_ok (hc : t.caller = .idle) (ctx : Ctx) : ∃ t', t.step (.watch ctx) = .ok t' := by
  obtain ⟨-, hw⟩ := h.phase.of_idle hc
  simp only [World.step, if_pos hc, ContextWatcher.watch_eq hw]
  exact ⟨_, rfl⟩

/-- An `Unwatch` in progress returns: the watcher's own steps lead to the
caller idle, with the goroutine gone, the return logged and no new watch. -/
theorem Inv.unwatch_returns (hu : t.caller = .sending ∨ t.caller = .sent) :
    ∃ acts t', Run World.step t acts t' ∧ (∀ a ∈ acts, ∀ id, a ≠ .cancel id) ∧
      t'.caller = .idle ∧ t'.goroutines = [] ∧ t'.watches = t.watches ∧
      Event.unwatchReturned (t.watches - 1) ∈ t'.log := by
  -- along the run the watch stays, and the `Unwatch` goes on or has returned
  let I (s : World) : Prop := Inv s ∧ s.watches = t.watches ∧
    (s.caller = .sending ∨ s.caller = .sent ∨
      s.caller = .idle ∧ Event.unwatchReturned (t.watches - 1) ∈ s.log)
  have hstep : ∀ s, I s → s.caller = .sending ∨ s.caller = .sent → ∃ a s',
      (∀ id, a ≠ .cancel id) ∧ s.step a = .ok s' ∧ I s' ∧ s'.unwatchLeft < s.unwatchLeft := by
    rintro s ⟨hs, hw, -⟩ hsu
    obtain ⟨a, s', ha, hst⟩ := hs.unwatch_progress hsu
    obtain ⟨hw', hc'⟩ := unwatching_step hsu hst
    rw [hw] at hc'
    exact ⟨a, s', ha, hst, ⟨hs.step hst, hw'.trans hw, hc'⟩, hs.unwatchLeft_lt hsu ha hst⟩
  obtain ⟨acts, t', hrun, hacts, ⟨h', hw, hc⟩, hexit⟩ :=
    Run.exists_exit World.unwatchLeft hstep t ⟨h, rfl, hu.elim Or.inl (Or.inr ∘ Or.inl)⟩
  -- the run stops once the `Unwatch` is no longer in progress: it has returned
  rcases hc with hc | hc | ⟨hc, hret⟩
  · exact absurd (Or.inl hc) hexit
  · exact absurd (Or.inr hc) hexit
  · exact ⟨acts, t', hrun, hacts, hc, (h'.phase.of_idle hc).1, hw, hret⟩

/-- Every `Unwatch` returns: from a watch, or an `Unwatch` in progress, the
caller's `Unwatch` and the watcher's own steps lead to the caller idle, with
no goroutine alive, the return logged and no new watch. -/
theorem Inv.returns (hc : t.caller ≠ .idle) :
    ∃ acts t', Run World.step t acts t' ∧ (∀ a ∈ acts, ∀ id, a ≠ .cancel id) ∧
      t'.caller = .idle ∧ t'.goroutines = [] ∧ t'.watches = t.watches ∧
      Event.unwatchReturned (t.watches - 1) ∈ t'.log := by
  cases hcaller : t.caller with
  | idle => exact absurd hcaller hc
  | watching =>
    -- `Unwatch` returns at once with no goroutine, or starts its send
    cases hw : t.cw.watchInProgress with
    | false =>
      have hs : t.step .unwatch =
          .ok { t with caller := .idle, log := t.log ++ [.unwatchReturned (t.watches - 1)] } := by
        simp [World.step, hcaller, hw]
        rfl
      exact ⟨[.unwatch], _, .single hs, by simp, rfl, (h.phase.of_watching hcaller hw).1, rfl,
        by simp⟩
    | true =>
      have hs : t.step .unwatch = .ok { t with caller := .sending } := by
        simp [World.step, hcaller, hw]
        rfl
      obtain ⟨acts, t', hrun, hacts, hrest⟩ := (h.step hs).unwatch_returns (Or.inl rfl)
      refine ⟨.unwatch :: acts, t', .cons hs hrun, fun a ha => ?_, hrest⟩
      rcases List.mem_cons.mp ha with rfl | ha
      · exact fun _ => nofun
      · exact hacts a ha
  | sending => exact h.unwatch_returns (Or.inl hcaller)
  | sent => exact h.unwatch_returns (Or.inr hcaller)

/-- The current watch's events so far follow one of the two orders. -/
theorem Inv.currentLog_order : WatchOrder (t.watches - 1) t.currentLog := by
  rcases h.phase with ⟨hc, hg, _⟩ | ⟨hc, hg, _, hf⟩ | ⟨g, hc, hg, _, hf⟩ | ⟨hc, hg, _⟩
  · exact (currentLog_done hc hg).order
  · exact ⟨t.ctx, Or.inl (by simp [World.currentLog, hc, hg, hf, uncancelledWatch])⟩
  · have hni : t.caller ≠ .idle := by rcases hc with h' | h' <;> rw [h'] <;> decide
    refine ⟨t.ctx, Or.inr ?_⟩
    cases hpc : g.pc <;> simp_all [World.currentLog, cancelledWatch]
  · refine ⟨t.ctx, Or.inr ?_⟩
    cases hf : t.cw.onCancelWasCalled <;> simp [World.currentLog, hc, hg, hf, cancelledWatch]

/-- Every watch's events so far follow one of the two orders. -/
theorem Inv.watchOrder (w : Nat) : WatchOrder w (project w t.log) := by
  by_cases hold : w + 1 < t.watches
  · exact (h.log_old w hold).order
  by_cases hcur : w + 1 = t.watches
  · have hw : w = t.watches - 1 := by omega
    rw [hw, h.log_cur (by omega)]
    exact h.currentLog_order
  · rw [h.log_new w (by omega)]
    exact ⟨t.ctx, Or.inl (List.nil_prefix)⟩

/-- Once a watch's `Unwatch` has returned, its events are one of the two
orders in full. -/
theorem Inv.watchDone_of_returned {w : Nat} (hw : Event.unwatchReturned w ∈ t.log) :
    WatchDone w (project w t.log) := by
  have hp : Event.unwatchReturned w ∈ project w t.log :=
    List.mem_filter.mpr ⟨hw, by simp [Event.watch?]⟩
  by_cases hold : w + 1 < t.watches
  · exact h.log_old w hold
  by_cases hnew : t.watches ≤ w
  · rw [h.log_new w hnew] at hp
    cases hp
  -- the current watch: its `Unwatch` has returned, so the caller is idle
  have hw' : w = t.watches - 1 := by omega
  rw [hw', h.log_cur (by omega)] at hp ⊢
  have hc := caller_idle_of_returned hp
  exact currentLog_done hc (h.phase.of_idle hc).1

end Liveness

/-! ## Every run -/

/-- What the watcher promises in every state reached from
`NewContextWatcher`: each watch's events so far follow one of the two
orders, so `HandleCancel` happens at most once, with the watch's own context,
and returns before the watch's `HandleUnwatchAfterCancel`, after which the
`Unwatch` returns and the watch has no more events; once that `Unwatch` has
returned the order is complete, so `HandleUnwatchAfterCancel` was called
exactly once if `HandleCancel` was and not at all otherwise; `HandleCancel`
follows the cancellation of its context; no goroutine is alive between an
`Unwatch` and the next `Watch`, and that `Watch` does not panic; every
`Unwatch` returns, by the watcher's own steps, leaving no goroutine alive;
an `Unwatch` in progress can always go on, and every step of the watcher
brings it nearer to returning; and the unlocked write and read of
`onCancelWasCalled` are never both possible: the caller reads it only once
the goroutine is gone, and the goroutine writes it only while the caller is
watching or waiting for the hand-off. -/
structure CancelConfined (t : World) : Prop where
  order : ∀ w, WatchOrder w (project w t.log)
  done : ∀ w, Event.unwatchReturned w ∈ t.log → WatchDone w (project w t.log)
  cancelled : CancelledBefore t.log
  idle_alone : t.caller = .idle → t.goroutines = []
  watch_ok : t.caller = .idle → ∀ ctx, ∃ t', t.step (.watch ctx) = .ok t'
  returns : t.caller ≠ .idle → ∃ acts t', Run World.step t acts t' ∧
    (∀ a ∈ acts, ∀ id, a ≠ .cancel id) ∧ t'.caller = .idle ∧ t'.goroutines = [] ∧
    t'.watches = t.watches ∧ Event.unwatchReturned (t.watches - 1) ∈ t'.log
  progress : t.caller = .sending ∨ t.caller = .sent →
    (∃ a t', (∀ id, a ≠ .cancel id) ∧ t.step a = .ok t') ∧
      ∀ a t', (∀ id, a ≠ .cancel id) → t.step a = .ok t' → t'.unwatchLeft < t.unwatchLeft
  sent_alone : t.caller = .sent → t.goroutines = []
  handling_watched : ∀ g ∈ t.goroutines, g.pc = .handling → t.caller = .watching ∨ t.caller = .sending

/-- For every run from `NewContextWatcher` in which one caller alternates
`Watch` and `Unwatch`, with every cancellation of every context at any time
and every scheduling of the goroutines, the state reached keeps the
watcher's promises. -/
theorem contextWatcher_confines_cancel {acts : List Action} {t : World}
    (hrun : Run World.step World.init acts t) : CancelConfined t := by
  have h : Inv t := Run.invariant (A := fun _ => True) (fun _ _ _ hs _ hst => hs.step hst) hrun
    inv_init (fun _ _ => trivial)
  exact {
    order := h.watchOrder
    done := fun _ => h.watchDone_of_returned
    cancelled := h.cancelled
    idle_alone := fun hc => (h.phase.of_idle hc).1
    watch_ok := h.watch_ok
    returns := h.returns
    progress := fun hu => ⟨h.unwatch_progress hu, fun _ _ ha hs => h.unwatchLeft_lt hu ha hs⟩
    sent_alone := fun hc => (h.phase.of_sent hc).1
    handling_watched := fun _ hg _ => h.phase.caller_of_mem hg }

/-- A watch whose context is cancelled, then one unwatched before its
context is cancelled: the first logs `HandleCancel`, its return and
`HandleUnwatchAfterCancel` before its `Unwatch` returns, the second nothing
but its `Unwatch`. -/
theorem contextWatcher_confines_cancel_run :
    ∃ t, Run World.step World.init
        [.watch ⟨1, true⟩, .cancel 1, .selectDone 0, .handleCancelReturn 0, .unwatch, .handOff 0,
          .unwatchFinish, .watch ⟨2, true⟩, .unwatch, .handOff 0, .unwatchFinish, .cancel 2] t ∧
      t.log = [.watch 0 ⟨1, true⟩, .cancelled 1, .handleCancel 0 ⟨1, true⟩,
        .handleCancelReturned 0, .handleUnwatchAfterCancel 0, .unwatchReturned 0,
        .watch 1 ⟨2, true⟩, .unwatchReturned 1, .cancelled 2] ∧
      CancelConfined t :=
  have hrun := Run.cons rfl (.cons rfl (.cons rfl (.cons rfl (.cons rfl (.cons rfl (.cons rfl
    (.cons rfl (.cons rfl (.cons rfl (.cons rfl (.cons rfl (.nil _))))))))))))
  ⟨_, hrun, rfl, contextWatcher_confines_cancel hrun⟩

end GaussdbGo.Ctxwatch
