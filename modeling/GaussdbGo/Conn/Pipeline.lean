import Mathlib

/-!
# gaussdbconn — the pipeline's request bookkeeping (`pipelineState`)

A pipeline queues one event per request it sends (`Prepare`, `QueryParams`,
`QueryPrepared`, `Deallocate`, `Sync`; a flush request is not queued), marks
events `WasSentToServer` when `Flush` writes the buffer out, and
`BeforeFlushOrSync` when a flush or sync request follows them. `GetResults`
takes the front event off only once it is both, and after an `ErrorResponse`
skips events up to the next sync.

Both marks are set by a loop from the back of the queue that stops at the
first event already marked (`markBack`); that is all of the unmarked events
exactly when the marked ones form a prefix (`markBack_eq_map`), which every
operation keeps.

`Tracked` runs the state beside the history the marks stand for: the queued
request types in push order, how many were taken off, how many had been
pushed at the last `RegisterSendingToServer` and at the last flush or sync
request, and whether a `HandleError` waits for its sync; the history takes
requests off as `expectedExtract`, the statement of what
`ExtractFrontRequestType` is for, says. `Tracks` says the queue and the error
are exactly what that history predicts; it holds after every sequence of
operations (`tracks_foldl`), and gives what the bookkeeping is for (`Sound`):
`ExtractFrontRequestType` hands back the queued requests in push order, only
once sent and flushed, and after an error skips the requests before the next
sync and returns that sync.
-/

namespace GaussdbGo.Conn

/-- `pipelineRequestType`. -/
inductive PipelineRequestType where
  | nil
  | prepare
  | queryParams
  | queryPrepared
  | deallocate
  | syncRequest
  | flushRequest
  deriving DecidableEq, Repr

/-- `pipelineRequestEvent`. -/
structure PipelineRequestEvent where
  requestType : PipelineRequestType
  wasSentToServer : Bool
  beforeFlushOrSync : Bool
  deriving DecidableEq, Repr

/-- `pipelineState`; the queue is the `list.List`, front first, and `ε` the
`*GaussdbError` it keeps. -/
structure PipelineState (ε : Type) where
  requestEventQueue : List PipelineRequestEvent
  lastRequestType : PipelineRequestType
  gaussdbErr : Option ε
  expectedReadyForQueryCount : Int

/-- The loop of `RegisterSendingToServer` and
`registerFlushingBufferOnServer`, over the queue read from the back: set the
mark of each event, until one already has it. -/
def markBack {α : Type} (flag : α → Bool) (set : α → α) : List α → List α
  | [] => []
  | e :: es => if flag e then e :: es else set e :: markBack flag set es

variable {ε : Type}

namespace PipelineState

/-- `Init()`. -/
def init (s : PipelineState ε) : PipelineState ε :=
  { s with requestEventQueue := [], lastRequestType := .nil }

/-- `RegisterSendingToServer()`. -/
def registerSendingToServer (s : PipelineState ε) : PipelineState ε :=
  { s with
    requestEventQueue := (markBack (·.wasSentToServer) (fun e => { e with wasSentToServer := true })
      s.requestEventQueue.reverse).reverse }

/-- `registerFlushingBufferOnServer()`. -/
def registerFlushingBufferOnServer (s : PipelineState ε) : PipelineState ε :=
  { s with
    requestEventQueue := (markBack (·.beforeFlushOrSync)
      (fun e => { e with beforeFlushOrSync := true }) s.requestEventQueue.reverse).reverse }

/-- `PushBackRequestType(req)`. -/
def pushBackRequestType (s : PipelineState ε) (req : PipelineRequestType) : PipelineState ε :=
  if req = .nil then s
  else
    let s := if req ≠ .flushRequest then
      { s with requestEventQueue := s.requestEventQueue ++ [⟨req, false, false⟩] } else s
    let s := if req = .flushRequest ∨ req = .syncRequest then s.registerFlushingBufferOnServer
      else s
    let s := { s with lastRequestType := req }
    if req = .syncRequest then
      { s with expectedReadyForQueryCount := s.expectedReadyForQueryCount + 1 }
    else s

/-- The `for` loop of `ExtractFrontRequestType`, over the queue: the result,
the queue after it and the error after it. -/
def extractLoop (err : Option ε) :
    List PipelineRequestEvent → PipelineRequestType × List PipelineRequestEvent × Option ε
  | [] => (.nil, [], err)
  | val :: rest =>
    if !(val.wasSentToServer && val.beforeFlushOrSync) then (.nil, val :: rest, err)
    else
      let err := if val.requestType = .syncRequest then none else err
      if err.isNone then (val.requestType, rest, err) else extractLoop err rest

/-- `ExtractFrontRequestType()`. -/
def extractFrontRequestType (s : PipelineState ε) : PipelineRequestType × PipelineState ε :=
  let (r, q, err) := extractLoop s.gaussdbErr s.requestEventQueue
  (r, { s with requestEventQueue := q, gaussdbErr := err })

/-- `HandleError(err)`, with the non-nil error the pipeline passes. -/
def handleError (s : PipelineState ε) (err : ε) : PipelineState ε := { s with gaussdbErr := some err }

/-- `HandleReadyForQuery()`. -/
def handleReadyForQuery (s : PipelineState ε) : PipelineState ε :=
  { s with expectedReadyForQueryCount := s.expectedReadyForQueryCount - 1 }

/-- `PendingSync()`. -/
def pendingSync (s : PipelineState ε) : Bool :=
  let notPendingSync :=
    match s.requestEventQueue.getLast? with
    | some val => val.requestType = .syncRequest && val.wasSentToServer
    | none => s.lastRequestType = .syncRequest || s.lastRequestType = .nil
  !notPendingSync

/-- `ExpectedReadyForQuery()`. -/
def expectedReadyForQuery (s : PipelineState ε) : Int := s.expectedReadyForQueryCount

end PipelineState

/-- The state of the `Pipeline` that `StartPipeline` makes: the zero value,
then `Init()`. -/
def newPipelineState : PipelineState ε := (⟨[], .nil, none, 0⟩ : PipelineState ε).init

/-- The operations the pipeline calls on its state. -/
inductive PipelineOp (ε : Type) where
  | pushBackRequestType (req : PipelineRequestType)
  | registerSendingToServer
  | handleError (err : ε)
  | handleReadyForQuery
  | extractFrontRequestType

/-- One operation; `ExtractFrontRequestType`'s result is read off
`extractFrontRequestType`. -/
def PipelineState.step (s : PipelineState ε) : PipelineOp ε → PipelineState ε
  | .pushBackRequestType req => s.pushBackRequestType req
  | .registerSendingToServer => s.registerSendingToServer
  | .handleError err => s.handleError err
  | .handleReadyForQuery => s.handleReadyForQuery
  | .extractFrontRequestType => s.extractFrontRequestType.2

/-! ## The backward marking loop -/

/-- The marked events come first: every event before a marked one is
marked. -/
def MarkedPrefix {α : Type} (flag : α → Bool) (l : List α) : Prop :=
  l.Pairwise (fun a b => flag b → flag a)

/-- Read from the back, the unmarked events come first; the loop marks them
all and stops at the first marked one, after which all are marked. -/
theorem markBack_eq_map {α : Type} {flag : α → Bool} {set : α → α}
    (hset : ∀ e, flag e → set e = e) :
    ∀ {l : List α}, l.Pairwise (fun a b => flag a → flag b) → markBack flag set l = l.map set
  | [], _ => rfl
  | e :: es, h => by
    rw [List.pairwise_cons] at h
    by_cases he : flag e
    · -- every later event is marked too, so nothing changes
      have hes : es.map set = es := by
        conv_rhs => rw [← List.map_id es]
        exact List.map_congr_left fun x hx => hset x (h.1 x hx he)
      rw [markBack, if_pos he, List.map_cons, hset e he, hes]
    · rw [markBack, if_neg he, List.map_cons, markBack_eq_map hset h.2]

/-- On a queue whose marked events form a prefix, the backward loop marks
every event. -/
theorem markBack_reverse {α : Type} {flag : α → Bool} {set : α → α}
    (hset : ∀ e, flag e → set e = e) {l : List α} (h : MarkedPrefix flag l) :
    (markBack flag set l.reverse).reverse = l.map set := by
  rw [markBack_eq_map hset (List.pairwise_reverse.mpr h), List.map_reverse, List.reverse_reverse]

/-! ## `ExtractFrontRequestType` -/

/-- What `ExtractFrontRequestType` is for, over the requests ready at the
front of the queue (sent and flushed, in push order) and whether an error
waits for its sync: with no error, the first ready request; after an error,
the ready requests before the first ready sync are skipped and the sync is
returned, clearing the error, or, with no sync ready, all of them are skipped
and the error kept. The request returned (nil for none), how many requests
are taken off, and whether the error remains. -/
def expectedExtract (failed : Bool) (ready : List PipelineRequestType) :
    PipelineRequestType × Nat × Bool :=
  if failed then
    match ready.findIdx? (· == .syncRequest) with
    | some k => (.syncRequest, k + 1, false)
    | none => (.nil, ready.length, true)
  else
    match ready with
    | r :: _ => (r, 1, false)
    | [] => (.nil, 0, false)

/-- After an error, a ready sync is returned. -/
theorem expectedExtract_sync (rs : List PipelineRequestType) :
    expectedExtract true (.syncRequest :: rs) = (.syncRequest, 1, false) := by
  simp [expectedExtract, List.findIdx?_cons]

/-- After an error, a ready request that is not a sync is skipped. -/
theorem expectedExtract_skip {r : PipelineRequestType} (hr : r ≠ .syncRequest)
    (rs : List PipelineRequestType) :
    expectedExtract true (r :: rs) =
      ((expectedExtract true rs).1, (expectedExtract true rs).2.1 + 1, (expectedExtract true rs).2.2) := by
  have hne : (r == .syncRequest) = false := beq_eq_false_iff_ne.mpr hr
  simp only [expectedExtract, if_true, List.findIdx?_cons, hne, Bool.false_eq_true, if_false]
  cases rs.findIdx? (· == .syncRequest) <;> simp

/-- Never more requests are taken off than are ready. -/
theorem expectedExtract_taken_le (failed : Bool) (rs : List PipelineRequestType) :
    (expectedExtract failed rs).2.1 ≤ rs.length := by
  cases failed
  · cases rs <;> simp [expectedExtract]
  · simp only [expectedExtract, if_true]
    split
    · rename_i k hk
      exact (List.findIdx?_eq_some_iff_getElem.mp hk).1
    · exact Nat.le_refl _

/-- An error remains only if there was one. -/
theorem expectedExtract_failed {failed : Bool} {rs : List PipelineRequestType}
    (h : (expectedExtract failed rs).2.2 = true) : failed = true := by
  cases failed
  · cases rs <;> simp [expectedExtract] at h
  · rfl

section ExtractLoop

variable {err : Option ε} {e : PipelineRequestEvent} {q : List PipelineRequestEvent}

/-- A front event not both sent and flushed stops the loop. -/
theorem extractLoop_blocked (hq : ∀ e ∈ q.head?, ¬(e.wasSentToServer ∧ e.beforeFlushOrSync)) :
    PipelineState.extractLoop err q = (.nil, q, err) := by
  cases q with
  | nil => rfl
  | cons e q =>
    have he : ¬(e.wasSentToServer ∧ e.beforeFlushOrSync) := hq e rfl
    simp [PipelineState.extractLoop, he]

/-- A ready sync is returned, and clears the error. -/
theorem extractLoop_sync (he : e.wasSentToServer ∧ e.beforeFlushOrSync)
    (hs : e.requestType = .syncRequest) :
    PipelineState.extractLoop err (e :: q) = (.syncRequest, q, none) := by
  simp [PipelineState.extractLoop, he, hs]

/-- With no error, a ready request is returned. -/
theorem extractLoop_front (he : e.wasSentToServer ∧ e.beforeFlushOrSync) :
    PipelineState.extractLoop (none : Option ε) (e :: q) = (e.requestType, q, none) := by
  simp [PipelineState.extractLoop, he]

/-- After an error, a ready request that is not a sync is skipped. -/
theorem extractLoop_skip {x : ε} (he : e.wasSentToServer ∧ e.beforeFlushOrSync)
    (hs : e.requestType ≠ .syncRequest) :
    PipelineState.extractLoop (some x) (e :: q) = PipelineState.extractLoop (some x) q := by
  simp [PipelineState.extractLoop, he, hs]

end ExtractLoop

/-- On a queue whose ready events, each sent and flushed, are followed by one
that is not, the loop does what `expectedExtract` says of their requests:
it returns that request, takes that many events off the front, and keeps the
error exactly when `expectedExtract` keeps it. -/
theorem extractLoop_expected {pre post : List PipelineRequestEvent}
    (hpre : ∀ e ∈ pre, e.wasSentToServer ∧ e.beforeFlushOrSync)
    (hpost : ∀ e ∈ post.head?, ¬(e.wasSentToServer ∧ e.beforeFlushOrSync)) :
    ∀ (err : Option ε), PipelineState.extractLoop err (pre ++ post) =
      ((expectedExtract err.isSome (pre.map (·.requestType))).1,
        (pre ++ post).drop (expectedExtract err.isSome (pre.map (·.requestType))).2.1,
        if (expectedExtract err.isSome (pre.map (·.requestType))).2.2 then err else none)
  | none => by
    cases pre with
    | nil => simp [expectedExtract, extractLoop_blocked hpost]
    | cons e pre =>
      rw [List.cons_append, extractLoop_front (hpre e (List.mem_cons_self ..))]
      simp [expectedExtract]
  | some x => by
    -- after an error the loop walks the ready events up to the first sync
    induction pre with
    | nil => simp [expectedExtract, extractLoop_blocked hpost]
    | cons e pre ih =>
      have he := hpre e (List.mem_cons_self ..)
      have ih := ih fun e' he' => hpre e' (List.mem_cons_of_mem _ he')
      rw [List.cons_append]
      by_cases hs : e.requestType = .syncRequest
      · rw [extractLoop_sync he hs, List.map_cons, hs, Option.isSome_some, expectedExtract_sync]
        rfl
      · rw [extractLoop_skip he hs, ih, List.map_cons, Option.isSome_some, expectedExtract_skip hs,
          List.drop_succ_cons]

/-! ## The history the marks stand for -/

/-- The state with its history: `types`, every queued request in push
order; `removed`, how many of them were taken off the front; `sentUpTo` and
`flushedUpTo`, how many had been queued at the last
`RegisterSendingToServer` and at the last flush or sync request; `syncs`
and `readies`, the sync requests pushed and the `HandleReadyForQuery`
calls; `failed`, whether a `HandleError` has not yet been answered by a
returned sync. -/
structure Tracked (ε : Type) where
  st : PipelineState ε
  types : List PipelineRequestType
  removed : Nat
  sentUpTo : Nat
  flushedUpTo : Nat
  syncs : Nat
  readies : Nat
  failed : Bool

/-- The requests `ExtractFrontRequestType` may take next: those not yet
taken off that were pushed before the last `RegisterSendingToServer` and no
later than the last flush or sync request, in push order. -/
def Tracked.ready (t : Tracked ε) : List PipelineRequestType :=
  (t.types.drop t.removed).take (min t.sentUpTo t.flushedUpTo - t.removed)

/-- One operation, with its history; the history of an
`ExtractFrontRequestType` is what `expectedExtract` says of it. -/
def Tracked.step (t : Tracked ε) : PipelineOp ε → Tracked ε
  | .pushBackRequestType req =>
    let types := if req = .nil ∨ req = .flushRequest then t.types else t.types ++ [req]
    { t with
      st := t.st.pushBackRequestType req
      types := types
      flushedUpTo := if req = .flushRequest ∨ req = .syncRequest then types.length else t.flushedUpTo
      syncs := if req = .syncRequest then t.syncs + 1 else t.syncs }
  | .registerSendingToServer =>
    { t with st := t.st.registerSendingToServer, sentUpTo := t.types.length }
  | .handleError err => { t with st := t.st.handleError err, failed := true }
  | .handleReadyForQuery => { t with st := t.st.handleReadyForQuery, readies := t.readies + 1 }
  | .extractFrontRequestType =>
    { t with
      st := t.st.extractFrontRequestType.2
      removed := t.removed + (expectedExtract t.failed t.ready).2.1
      failed := (expectedExtract t.failed t.ready).2.2 }

/-- `StartPipeline`'s state, with no history. -/
def newTracked : Tracked ε := ⟨newPipelineState, [], 0, 0, 0, 0, 0, false⟩

/-- The event the history predicts for the `i`-th queued request: sent if
it was queued before the last `RegisterSendingToServer`, flushed if it was
queued no later than the last flush or sync request (a sync request counts
for itself). -/
def Tracked.eventAt (t : Tracked ε) (i : Nat) : PipelineRequestEvent :=
  ⟨t.types.getD i .nil, decide (i < t.sentUpTo), decide (i < t.flushedUpTo)⟩

/-- The events the history predicts in the queue: the requests not yet taken
off, in push order. -/
def Tracked.pending (t : Tracked ε) : List PipelineRequestEvent :=
  (List.range' t.removed (t.types.length - t.removed)).map t.eventAt

/-- The queue is what the history predicts, and an error is kept exactly
while the history has one. -/
structure Tracks (t : Tracked ε) : Prop where
  queue_eq : t.st.requestEventQueue = t.pending
  failed_eq : t.st.gaussdbErr.isSome = t.failed
  removed_le : t.removed ≤ t.types.length
  sent_le : t.sentUpTo ≤ t.types.length
  flushed_le : t.flushedUpTo ≤ t.types.length
  types_queued : ∀ r ∈ t.types, r ≠ .nil ∧ r ≠ .flushRequest
  count_eq : t.st.expectedReadyForQueryCount = (t.syncs : Int) - t.readies

namespace Tracked

variable (t : Tracked ε)

/-! ## What the history predicts -/

/-- Events predicted further back are marked whenever a later one is. -/
theorem pending_markedPrefix {flag : PipelineRequestEvent → Bool}
    (hmono : ∀ i j, i < j → flag (t.eventAt j) → flag (t.eventAt i)) : MarkedPrefix flag t.pending :=
  List.pairwise_map.mpr (List.Pairwise.imp (fun hij => hmono _ _ hij) List.pairwise_lt_range')

theorem pending_sent_prefix : MarkedPrefix (·.wasSentToServer) t.pending :=
  t.pending_markedPrefix fun i j hij h => by
    simp only [eventAt, decide_eq_true_eq] at h ⊢
    omega

theorem pending_flushed_prefix : MarkedPrefix (·.beforeFlushOrSync) t.pending :=
  t.pending_markedPrefix fun i j hij h => by
    simp only [eventAt, decide_eq_true_eq] at h ⊢
    omega

/-- A history with the same requests predicts the same queue up to `f`
when it predicts `f` of each event. -/
theorem pending_map {u : Tracked ε} {f : PipelineRequestEvent → PipelineRequestEvent}
    (hr : u.removed = t.removed) (hl : u.types.length = t.types.length)
    (h : ∀ i, i < t.types.length → u.eventAt i = f (t.eventAt i)) : u.pending = t.pending.map f := by
  rw [pending, pending, List.map_map, hr, hl]
  refine List.map_congr_left fun i hi => h i ?_
  rw [List.mem_range'_1] at hi
  omega

/-- `RegisterSendingToServer` marks what the last registration predicts. -/
theorem pending_registerSending :
    (markBack (·.wasSentToServer) (fun e => { e with wasSentToServer := true })
        t.pending.reverse).reverse = { t with sentUpTo := t.types.length }.pending := by
  rw [markBack_reverse (fun e he => ?_) t.pending_sent_prefix]
  · refine Eq.symm (pending_map t rfl rfl fun i hi => ?_)
    simp [eventAt, hi]
  · cases e
    simp_all

/-- `registerFlushingBufferOnServer` marks what the last flush predicts. -/
theorem pending_registerFlushing :
    (markBack (·.beforeFlushOrSync) (fun e => { e with beforeFlushOrSync := true })
        t.pending.reverse).reverse = { t with flushedUpTo := t.types.length }.pending := by
  rw [markBack_reverse (fun e he => ?_) t.pending_flushed_prefix]
  · refine Eq.symm (pending_map t rfl rfl fun i hi => ?_)
    simp [eventAt, hi]
  · cases e
    simp_all

/-- A pushed request is predicted at the back, neither sent nor flushed. -/
theorem pending_push (req : PipelineRequestType) (hr : t.removed ≤ t.types.length)
    (hs : t.sentUpTo ≤ t.types.length) (hf : t.flushedUpTo ≤ t.types.length) :
    { t with types := t.types ++ [req] }.pending = t.pending ++ [⟨req, false, false⟩] := by
  have hn : t.types.length + 1 - t.removed = t.types.length - t.removed + 1 := by omega
  simp only [pending, List.length_append, List.length_singleton, hn, List.range'_1_concat,
    List.map_append, List.map_singleton]
  congr 1
  · refine List.map_congr_left fun i hi => ?_
    rw [List.mem_range'_1] at hi
    have hi' : i < t.types.length := by omega
    simp [eventAt, List.getD_eq_getElem?_getD, List.getElem?_append_left hi']
  · have hlast : t.removed + (t.types.length - t.removed) = t.types.length := by omega
    simp [eventAt, List.getD_eq_getElem?_getD, hlast, Nat.not_lt.mpr hs, Nat.not_lt.mpr hf]

/-- Taking `k` events off the front predicts the queue from `removed + k`. -/
theorem pending_drop (k : Nat) :
    t.pending.drop k = { t with removed := t.removed + k }.pending := by
  simp only [pending, ← List.map_drop, List.drop_range', Nat.mul_one, Nat.sub_sub]
  rfl

theorem length_pending : t.pending.length = t.types.length - t.removed := by
  rw [pending, List.length_map, List.length_range']

theorem getElem_pending {i : Nat} (hi : i < t.pending.length) :
    t.pending[i] = t.eventAt (t.removed + i) := by
  simp [pending, List.getElem_range']

/-- The predicted queue holds the requests not yet taken off, in push
order. -/
theorem pending_types (hr : t.removed ≤ t.types.length) :
    t.pending.map (·.requestType) = t.types.drop t.removed := by
  refine List.ext_getElem (by simp [length_pending]) fun i h₁ h₂ => ?_
  rw [List.length_map] at h₁
  rw [List.getElem_map, getElem_pending, List.getElem_drop]
  have hi : t.removed + i < t.types.length := by
    rw [length_pending] at h₁
    omega
  simp [eventAt, List.getD_eq_getElem?_getD, List.getElem?_eq_getElem hi]

/-- The predicted queue is the events of the ready requests, each sent and
flushed, followed by events of which the first is not both. -/
theorem pending_split (hr : t.removed ≤ t.types.length) :
    ∃ pre post, t.pending = pre ++ post ∧
      (∀ e ∈ pre, e.wasSentToServer ∧ e.beforeFlushOrSync) ∧
      (∀ e ∈ post.head?, ¬(e.wasSentToServer ∧ e.beforeFlushOrSync)) ∧
      pre.map (·.requestType) = t.ready := by
  -- the ready events are those predicted below both marks
  let n := min t.sentUpTo t.flushedUpTo - t.removed
  refine ⟨t.pending.take n, t.pending.drop n, (List.take_append_drop n t.pending).symm, ?_, ?_, ?_⟩
  · intro e he
    obtain ⟨i, hi, rfl⟩ := List.mem_iff_getElem.mp he
    have hi' : i < n := by
      rw [List.length_take] at hi
      omega
    rw [List.getElem_take, getElem_pending]
    simp only [eventAt, decide_eq_true_eq]
    omega
  · intro e he
    rw [List.head?_drop] at he
    obtain ⟨hlt, rfl⟩ := List.getElem?_eq_some_iff.mp he
    rw [getElem_pending]
    simp only [eventAt, decide_eq_true_eq]
    omega
  · rw [List.map_take, pending_types t hr]
    rfl

/-! ## The history's steps -/

theorem step_push_nil : t.step (.pushBackRequestType .nil) = t := by
  simp [step, PipelineState.pushBackRequestType]

theorem step_push_flush : t.step (.pushBackRequestType .flushRequest) =
    { t with
      st := { t.st.registerFlushingBufferOnServer with lastRequestType := .flushRequest }
      flushedUpTo := t.types.length } := by
  simp [step, PipelineState.pushBackRequestType]

theorem step_push_sync : t.step (.pushBackRequestType .syncRequest) =
    { t with
      st := { ({ t.st with
          requestEventQueue := t.st.requestEventQueue ++ [⟨.syncRequest, false, false⟩] } :
            PipelineState ε).registerFlushingBufferOnServer with
        lastRequestType := .syncRequest
        expectedReadyForQueryCount := t.st.expectedReadyForQueryCount + 1 }
      types := t.types ++ [.syncRequest]
      flushedUpTo := (t.types ++ [PipelineRequestType.syncRequest]).length
      syncs := t.syncs + 1 } := by
  simp [step, PipelineState.pushBackRequestType, PipelineState.registerFlushingBufferOnServer]

theorem step_push_queued {req : PipelineRequestType} (hn : req ≠ .nil) (hf : req ≠ .flushRequest)
    (hs : req ≠ .syncRequest) : t.step (.pushBackRequestType req) =
    { t with
      st := { t.st with
        requestEventQueue := t.st.requestEventQueue ++ [⟨req, false, false⟩]
        lastRequestType := req }
      types := t.types ++ [req] } := by
  simp [step, PipelineState.pushBackRequestType, hn, hf, hs]

end Tracked

/-! ## Every operation keeps `Tracks` -/

theorem tracks_newTracked : Tracks (newTracked : Tracked ε) where
  queue_eq := rfl
  failed_eq := rfl
  removed_le := Nat.le_refl _
  sent_le := Nat.le_refl _
  flushed_le := Nat.le_refl _
  types_queued := nofun
  count_eq := by simp [newTracked, newPipelineState, PipelineState.init]

namespace Tracks

variable {t : Tracked ε} (h : Tracks t)
include h

/-- Every queued event is a request that was queued: neither nil nor a
flush. -/
theorem mem_queue {e : PipelineRequestEvent} (he : e ∈ t.st.requestEventQueue) :
    e.requestType ≠ .nil ∧ e.requestType ≠ .flushRequest := by
  rw [h.queue_eq, Tracked.pending, List.mem_map] at he
  obtain ⟨i, hi, rfl⟩ := he
  rw [List.mem_range'_1] at hi
  have hi' : i < t.types.length := by omega
  have hmem : t.types.getD i .nil ∈ t.types := by
    simp [List.getD_eq_getElem?_getD, List.getElem?_eq_getElem hi']
  exact h.types_queued _ hmem

theorem push_flush : Tracks (t.step (.pushBackRequestType .flushRequest)) := by
  rw [Tracked.step_push_flush]
  exact { h with
    queue_eq := by
      show (markBack _ _ t.st.requestEventQueue.reverse).reverse = _
      rw [h.queue_eq]
      exact t.pending_registerFlushing
    flushed_le := Nat.le_refl _ }

theorem push_sync : Tracks (t.step (.pushBackRequestType .syncRequest)) := by
  rw [Tracked.step_push_sync]
  -- the sync is queued first, then every event up to it is marked flushed
  have hq : t.st.requestEventQueue ++ [(⟨.syncRequest, false, false⟩ : PipelineRequestEvent)] =
      { t with types := t.types ++ [PipelineRequestType.syncRequest] }.pending := by
    rw [h.queue_eq, t.pending_push _ h.removed_le h.sent_le h.flushed_le]
  refine ⟨?_, h.failed_eq, ?_, ?_, ?_, ?_, ?_⟩
  · show (markBack _ _ (t.st.requestEventQueue ++ [_]).reverse).reverse = _
    rw [hq]
    exact Tracked.pending_registerFlushing _
  · simpa using Nat.le_succ_of_le h.removed_le
  · simpa using Nat.le_succ_of_le h.sent_le
  · simp
  · intro r hr
    rcases List.mem_append.mp hr with hr | hr
    · exact h.types_queued r hr
    · rw [List.mem_singleton.mp hr]
      decide
  · show t.st.expectedReadyForQueryCount + 1 = ((t.syncs + 1 : Nat) : Int) - t.readies
    rw [h.count_eq]
    omega

theorem push_queued {req : PipelineRequestType} (hn : req ≠ .nil) (hf : req ≠ .flushRequest)
    (hs : req ≠ .syncRequest) : Tracks (t.step (.pushBackRequestType req)) := by
  rw [Tracked.step_push_queued t hn hf hs]
  refine ⟨?_, h.failed_eq, ?_, ?_, ?_, ?_, h.count_eq⟩
  · show t.st.requestEventQueue ++ _ = _
    rw [h.queue_eq]
    exact (t.pending_push req h.removed_le h.sent_le h.flushed_le).symm
  · simpa using Nat.le_succ_of_le h.removed_le
  · simpa using Nat.le_succ_of_le h.sent_le
  · simpa using Nat.le_succ_of_le h.flushed_le
  · intro r hr
    rcases List.mem_append.mp hr with hr | hr
    · exact h.types_queued r hr
    · rw [List.mem_singleton.mp hr]
      exact ⟨hn, hf⟩

theorem push (req : PipelineRequestType) : Tracks (t.step (.pushBackRequestType req)) := by
  by_cases hn : req = .nil
  · rw [hn, Tracked.step_push_nil]
    exact h
  by_cases hf : req = .flushRequest
  · rw [hf]
    exact h.push_flush
  by_cases hs : req = .syncRequest
  · rw [hs]
    exact h.push_sync
  exact h.push_queued hn hf hs

theorem registerSending : Tracks (t.step .registerSendingToServer) :=
  { h with
    queue_eq := by
      show (markBack _ _ t.st.requestEventQueue.reverse).reverse = _
      rw [h.queue_eq]
      exact t.pending_registerSending
    sent_le := Nat.le_refl _ }

/-- `ExtractFrontRequestType` does what `expectedExtract` says of the ready
requests: it returns that request, takes that many events off the front of
the queue, and keeps the error exactly when `expectedExtract` keeps one. -/
theorem extractFront : t.st.extractFrontRequestType =
    ((expectedExtract t.failed t.ready).1,
      { t.st with
        requestEventQueue := t.pending.drop (expectedExtract t.failed t.ready).2.1
        gaussdbErr := if (expectedExtract t.failed t.ready).2.2 then t.st.gaussdbErr else none }) := by
  obtain ⟨pre, post, hsplit, hpre, hpost, hready⟩ := t.pending_split h.removed_le
  have hloop := extractLoop_expected hpre hpost t.st.gaussdbErr
  rw [h.failed_eq, hready, ← hsplit] at hloop
  rw [PipelineState.extractFrontRequestType, h.queue_eq, hloop]

theorem extract : Tracks (t.step .extractFrontRequestType) := by
  have hk := expectedExtract_taken_le t.failed t.ready
  have hready : t.ready.length ≤ t.types.length - t.removed := by simp [Tracked.ready]
  refine ⟨?_, ?_, ?_, h.sent_le, h.flushed_le, h.types_queued, h.count_eq⟩
  · show t.st.extractFrontRequestType.2.requestEventQueue =
      { t with removed := t.removed + (expectedExtract t.failed t.ready).2.1 }.pending
    rw [h.extractFront, ← Tracked.pending_drop]
  · -- the error stays only where `expectedExtract` keeps it, and then it was there
    show t.st.extractFrontRequestType.2.gaussdbErr.isSome = (expectedExtract t.failed t.ready).2.2
    rw [h.extractFront]
    cases hf : (expectedExtract t.failed t.ready).2.2
    · rfl
    · simp [h.failed_eq, expectedExtract_failed hf]
  · show t.removed + (expectedExtract t.failed t.ready).2.1 ≤ t.types.length
    have hr := h.removed_le
    omega

theorem handleReadyForQuery : Tracks (t.step .handleReadyForQuery) :=
  { h with
    count_eq := by
      show t.st.expectedReadyForQueryCount - 1 = (t.syncs : Int) - ((t.readies + 1 : Nat) : Int)
      rw [h.count_eq]
      omega }

/-- One step keeps `Tracks`. -/
theorem step : ∀ op, Tracks (t.step op)
  | .pushBackRequestType req => h.push req
  | .registerSendingToServer => h.registerSending
  | .handleError _ => { h with failed_eq := rfl }
  | .handleReadyForQuery => h.handleReadyForQuery
  | .extractFrontRequestType => h.extract

end Tracks

/-- A whole run keeps `Tracks`. -/
theorem tracks_foldl : ∀ (ops : List (PipelineOp ε)) {t : Tracked ε}, Tracks t →
    Tracks (ops.foldl Tracked.step t)
  | [], _, h => h
  | op :: ops, _, h => tracks_foldl ops (h.step op)

theorem Tracked.st_step (t : Tracked ε) (op : PipelineOp ε) : (t.step op).st = t.st.step op := by
  cases op <;> rfl

/-- The history only watches: its state is the pipeline's own. -/
theorem Tracked.st_foldl : ∀ (ops : List (PipelineOp ε)) (t : Tracked ε),
    (ops.foldl Tracked.step t).st = ops.foldl PipelineState.step t.st
  | [], _ => rfl
  | op :: ops, t => by
    rw [List.foldl_cons, List.foldl_cons, Tracked.st_foldl ops, Tracked.st_step]

/-! ## Soundness -/

/-- What the pipeline's bookkeeping promises in a state reached with history
`t`: the marks form prefixes; the queue is what the history predicts, and an
error is kept exactly while a `HandleError` waits for its sync; the next
`ExtractFrontRequestType` does what `expectedExtract` says of the ready
requests (those pushed before the last `RegisterSendingToServer` and no
later than the last flush or sync request): the request it returns, the
events it takes off, and whether the error stays; and `ExpectedReadyForQuery`
is the number of syncs pushed minus the `HandleReadyForQuery` calls. -/
structure Sound (t : Tracked ε) : Prop where
  sent_prefix : MarkedPrefix (·.wasSentToServer) t.st.requestEventQueue
  flushed_prefix : MarkedPrefix (·.beforeFlushOrSync) t.st.requestEventQueue
  queue_eq : t.st.requestEventQueue = t.pending
  failed_eq : t.st.gaussdbErr.isSome = t.failed
  extract : t.st.extractFrontRequestType.1 = (expectedExtract t.failed t.ready).1 ∧
    t.st.extractFrontRequestType.2.requestEventQueue =
      t.pending.drop (expectedExtract t.failed t.ready).2.1 ∧
    t.st.extractFrontRequestType.2.gaussdbErr.isSome = (expectedExtract t.failed t.ready).2.2
  expected : t.st.expectedReadyForQuery = (t.syncs : Int) - t.readies

theorem Tracks.sound {t : Tracked ε} (h : Tracks t) : Sound t where
  sent_prefix := h.queue_eq ▸ t.pending_sent_prefix
  flushed_prefix := h.queue_eq ▸ t.pending_flushed_prefix
  queue_eq := h.queue_eq
  failed_eq := h.failed_eq
  extract := ⟨by rw [h.extractFront], by rw [h.extractFront], h.extract.failed_eq⟩
  expected := h.count_eq

/-- After every sequence of pipeline operations from `StartPipeline`, the
state is sound for the history of that sequence, and it is the state the
operations themselves produce. -/
theorem pipelineState_sound (ops : List (PipelineOp ε)) :
    Sound (ops.foldl Tracked.step newTracked) ∧
      (ops.foldl Tracked.step newTracked).st = ops.foldl PipelineState.step newPipelineState :=
  ⟨(tracks_foldl ops tracks_newTracked).sound, Tracked.st_foldl ops newTracked⟩

end GaussdbGo.Conn
