import Laso.Core.Machine
import Laso.Workers.Changes

/-!
# Submissions of worker jobs

The machine of the worker manager in one process. Its state is the stored jobs, the two sets of
submissions under way, and the calls of `submit` and `submit_async` with the point each has reached. A
call goes from block to block: it waits for the mutex of its worker (`enter`), looks for the job
(`look`), admits a new one (`admitting`), is about to call the worker (`send`), has its answer (`record`).
`submit_async` ends by starting a thread for the rest (`launch`), which is a call of its own.

What all the other functions of the manager do to the stored jobs they do in the blocks of
`JobChange`, and the machine lets any of these happen at any time. So every interleaving of
`refresh`, `cancel`, worker events and tool calls with the submissions is among its runs. A process
that ends loses its calls and its sets, and the jobs stay.

`submits`, `cancels` and `served` record what adapters were asked and which job a caller was given.
-/

namespace Laso

open Table Option

/-- A request to a worker, without what is only passed on to the worker. -/
structure WorkerRequest where
  idempotencyKey : String
  capability : String := ""
  taskType : String := ""
  deadline : String := ""
  runId : String := ""
  nodeId : String := ""
  attempt : Nat := 1
  parentWorkerJobId : String := ""
  parentToolCallId : String := ""
  parentToolTurnId : String := ""
  parentProviderSessionId : String := ""
  classification : Option String := none
  nodeWorkId : Option String := none
  nodeWorkAttemptId : Option String := none
  requiredTool : Option String := none
  artifactIds : List String := []
  deriving DecidableEq, Repr

def optionalText (text : String) : Option String := if text = "" then none else some text

def WorkerRequest.job (r : WorkerRequest) (worker : String) : JobRecord where
  id := durableJobId r.idempotencyKey
  workerId := worker
  runId := r.runId
  nodeId := r.nodeId
  attempt := r.attempt
  idempotencyKey := r.idempotencyKey
  requestMetadata := {
    taskType := r.taskType
    capability := r.capability
    deadline := r.deadline
    artifactIds := r.artifactIds
    parentWorkerJobId := optionalText r.parentWorkerJobId
    parentToolCallId := optionalText r.parentToolCallId
    parentCodexTurnId := optionalText r.parentToolTurnId
    parentCodexSessionId := optionalText r.parentProviderSessionId
    classification := r.classification
    nodeWorkId := r.nodeWorkId
    nodeWorkAttemptId := r.nodeWorkAttemptId
    requiredTool := r.requiredTool }

def SilentChange : Type := { c : JobChange // c.usage = none ∧ c.reports = none }

/-- How a call came about: `submit`, `submit_async`, or the thread that the latter has started. -/
inductive SubmitKind where
  | submit | async | dispatch
  deriving DecidableEq, Repr

/-- The points a call can have reached. `retry` says that the job was found without a handle and is
handed to its worker again. -/
inductive SubmitPoint where
  | enter
  | look
  | admitting
  /-- `reserved` says that the call has entered its job in `async_submissions_`. -/
  | launch (reserved : Bool)
  | settle
  | send (retry : Bool)
  | record (retry : Bool) (x : WorkerSubmission)
  /-- The external job is to be cancelled. -/
  | withdraw (x : WorkerSubmission)
  | change (c : SilentChange)
  | leave
  /-- The mutex is free again, and the job still in `async_submissions_`. -/
  | release
  | done

/-- The call holds the mutex for the submissions to its worker. -/
def SubmitPoint.holds : SubmitPoint → Bool
  | .enter | .release | .done => false
  | _ => true

/-- A call; `worker` is what its request resolves to, `handle` what the worker has answered. -/
structure SubmitCall where
  request : WorkerRequest
  worker : String
  kind : SubmitKind
  point : SubmitPoint := .enter
  handle : Option WorkerSubmission := none

variable (c : SubmitCall)

def SubmitCall.jobId : String := durableJobId c.request.idempotencyKey

/-- The job that a call inserts, when its second write has been made. -/
def SubmitCall.submitting : JobRecord :=
  { c.request.job c.worker with state := .submitting }

/-- What a call finds outside: a failing store, also between two writes of a block, the state of the
worker, and its answers. -/
structure SubmitAnswer where
  fault : Bool := false
  lateFault : Bool := false
  available : Bool := true
  launched : Bool := true
  submission : Except WorkerExn WorkerSubmission := .error .other
  acknowledged : Bool := false
  now : String := ""

/-- The manager of one process and the store. -/
structure ManagerState where
  jobs : Table JobRecord := Table.empty
  calls : List SubmitCall := []
  /-- `async_submissions_`. -/
  async : List String := []
  /-- `active_submissions_`. -/
  active : List String := []
  submits : List (String × String) := []
  cancels : List (String × String) := []
  served : List (SubmitCall × JobRecord) := []

def WorkerExn.caught (retry : Bool) (now : String) : WorkerExn → SubmitPoint
  | .submissionCancelled => .change ⟨.finalize now, rfl, rfl⟩
  | .transport message timedOut => .change ⟨.submissionFailed message timedOut now, rfl, rfl⟩
  | .error e =>
    if retry then .change ⟨.fail "Worker retry submission failed" now, rfl, rfl⟩
    else if e.code = .storage then .leave
    else .change ⟨.fail (if e.code = .plugin then boundedError e.message
      else "Worker submission failed") now, rfl, rfl⟩
  | .other => .change ⟨.fail (if retry then "Worker retry submission failed"
      else "Worker submission failed") now, rfl, rfl⟩

namespace ManagerState

variable (cfg : ManagerConfig) (s : ManagerState) (i : Nat) (c : SubmitCall) (a : SubmitAnswer)

/-- A submission of the job is under way in this process. -/
def busy (id : String) : Bool := s.async.contains id || s.active.contains id

def stored (id : String) (x : JobChange) : Option JobRecord := do
  let j ← s.jobs.get id
  let j' ← (x.rewrite cfg (jobPage s.jobs j.runId) (s.busy id) j).toOption.join
  (j.storedAs cfg j').toOption

variable (j : JobRecord)

def put : ManagerState := { s with jobs := s.jobs.put j }

/-- A change of a job; it stores nothing when it is refused. -/
def change (id : String) (x : JobChange) : ManagerState :=
  match s.stored cfg id x with
  | some j => s.put j
  | none => s

def move (p : SubmitPoint) : ManagerState := { s with calls := s.calls.set i { c with point := p } }

def serve : ManagerState :=
  match s.jobs.get c.jobId with
  | some j => { s with served := s.served ++ [(c, j)] }
  | none => s

/-- `submit_impl` enters its job in `active_submissions_`. -/
def enterActive : ManagerState :=
  if c.kind = .async then s else { s with active := s.active.insert c.jobId }

/-- `submit_impl` takes its job out of `active_submissions_`. -/
def leaveActive : ManagerState :=
  if c.kind = .async then s else { s with active := s.active.erase c.jobId }

def full (worker : String) : Bool :=
  let active := (jobPage s.jobs "").filter fun j => j.active
  decide (cfg.maxActive ≤ active.length ∨
    cfg.maxPerWorker ≤ (active.filter fun j => j.workerId = worker).length)

/-- The job that asks for this one is not there any more, or is over. -/
def orphaned (r : WorkerRequest) : Bool :=
  r.parentWorkerJobId != "" && match s.jobs.get r.parentWorkerJobId with
    | none => true
    | some p => p.runId != r.runId || p.cancellationRequested || p.state.isTerminal

/-- The job of a call is inserted, and the call enters it in `async_submissions_`. -/
def reserve : ManagerState := { s.put c.submitting with async := s.async.insert c.jobId }

/-- A new job: `claim` inserts it, and a second write has it in the state `Submitting`. A job that
another call has inserted meanwhile is returned as it is. -/
def admitting : ManagerState :=
  if a.fault ∨ s.full cfg c.worker ∨
      (c.kind = .async ∧ s.orphaned c.request) then s.move i c .leave
  else match s.jobs.get c.jobId with
    | some _ => (s.serve c).move i c .leave
    | none =>
      if a.lateFault then (s.put (c.request.job c.worker)).move i c .leave
      else if c.kind = .async then
        ((s.reserve c).serve c).move i c (.launch (!s.async.contains c.jobId))
      else (s.put c.submitting).move i c .settle

/-- `submit` finds a job under the identifier of its request. -/
def found : ManagerState :=
  if j.state.isTerminal ∨ j.state = .unknown then (s.serve c).move i c .leave
  else if j.isOpen then
    if s.async.contains c.jobId then (s.serve c).move i c .leave
    else s.move i c (.change ⟨.forget, rfl, rfl⟩)
  else if j.cancellationRequested ∧ j.externalJobId = "" then
    s.move i c (.change ⟨.finalize a.now, rfl, rfl⟩)
  else if a.available = false then s.move i c .leave
  -- The job is brought up to date before it is returned.
  else if j.externalJobId ≠ "" then (s.serve c).move i c .leave
  else if cfg.supportsRecovery c.worker = false then s.move i c (.change ⟨.giveUp, rfl, rfl⟩)
  else s.move i c (.send true)

/-- `submit_async` finds a job under the identifier of its request. -/
def foundAsync : ManagerState :=
  if j.state.isTerminal ∨ j.state = .unknown ∨ j.externalJobId ≠ "" then
    (s.serve c).move i c .leave
  else if j.state = .submitting ∧ s.async.contains c.jobId = false then
    s.move i c (.change ⟨.forget, rfl, rfl⟩)
  else (s.serve c).move i c (.launch false)

/-- The thread of `submit_async` finds its job. -/
def foundInitial : ManagerState :=
  if j.isOpen = false then s.move i c .leave
  else if j.cancellationRequested then s.move i c (.change ⟨.finalize a.now, rfl, rfl⟩)
  else if a.available = false then s.move i c .leave
  else s.move i c .settle

def look : ManagerState :=
  if a.fault ∨ (c.kind = .async ∧ a.available = false) then s.move i c .leave
  else match s.jobs.get c.jobId with
    | none => match c.kind with
      | .submit => s.move i c (if a.available then .admitting else .leave)
      | .async => s.admitting cfg i c a
      | .dispatch => s.move i c .leave
    | some j =>
      if j.idempotencyKey ≠ c.request.idempotencyKey ∨ j.workerId ≠ c.worker then s.move i c .leave
      else match c.kind with
        | .submit => s.found cfg i c a j
        | .async => s.foundAsync i c j
        | .dispatch => s.foundInitial i c a j

/-- The thread for the rest of the submission is started. -/
def spawn : ManagerState :=
  { s with
    async := s.async.insert c.jobId
    calls := s.calls.set i { c with point := .leave } ++
      [{ c with kind := .dispatch, point := .enter }] }

/-- The end of `submit_async`. -/
def launch (reserved : Bool) : ManagerState :=
  if reserved = false ∧ s.async.contains c.jobId then s.move i c .leave
  else if a.launched then s.spawn i c
  else
    { s with async := s.async.erase c.jobId }.move i c (.change ⟨.unscheduled a.now, rfl, rfl⟩)

/-- `record_submission` up to the cancellation of the external job. -/
def record (retry : Bool) (x : WorkerSubmission) : ManagerState :=
  if x.externalJobId = "" ∨ 512 < x.externalJobId.utf8ByteSize then
    s.move i c (WorkerExn.caught retry a.now
      (.transport "Worker returned an invalid external job id" false))
  else if a.fault then s.move i c (WorkerExn.caught retry a.now (.error ⟨.storage, "Storage error"⟩))
  else match s.jobs.get c.jobId with
    | none => s.move i c .leave
    | some j => match j.recorded cfg (jobPage s.jobs j.runId) x a.now with
      | .error e => s.move i c (e.caught retry a.now)
      | .ok none => (s.serve c).move i c .leave
      | .ok (some (j', cancelling)) => match j.storedAs cfg j' with
        | .error e => s.move i c (WorkerExn.caught retry a.now (.error e))
        | .ok j'' =>
          if cancelling then (s.put j'').move i c (.withdraw x)
          else ((s.put j'').serve c).move i c .leave

def step : Option ManagerState :=
  match c.point with
  | .enter =>
    if s.calls.any (fun d => d.point.holds && d.worker == c.worker) then none
    else some ((s.enterActive c).move i c .look)
  | .look => some (s.look cfg i c a)
  | .admitting => some (s.admitting cfg i c a)
  | .launch reserved => some (s.launch i c a reserved)
  | .settle =>
    if a.fault then some (s.move i c .leave)
    else
      let s' := s.change cfg c.jobId (.finalize a.now)
      if (s'.jobs.get c.jobId).any fun j => j.state.isTerminal then
        some ((s'.serve c).move i c .leave)
      else some (s'.move i c (.send false))
  | .send retry =>
    let s' := { s with submits := s.submits ++ [(c.worker, c.request.idempotencyKey)] }
    match a.submission with
    | .ok x => some (s'.move i { c with handle := some x } (.record retry x))
    | .error e => some (s'.move i c (e.caught retry a.now))
  | .record retry x => some (s.record cfg i c a retry x)
  | .withdraw x =>
    some ({ s with cancels := s.cancels ++ [(c.worker, x.externalJobId)] }.move i c
      (.change ⟨.acknowledge a.acknowledged a.now, rfl, rfl⟩))
  | .change x =>
    if a.fault then some (s.move i c .leave)
    else some (((s.change cfg c.jobId x.1).serve c).move i c .leave)
  | .leave =>
    some ((s.leaveActive c).move i c (if c.kind = .dispatch then .release else .done))
  | .release => some ({ s with async := s.async.erase c.jobId }.move i c .done)
  | .done => none

end ManagerState

inductive ManagerStep where
  /-- `submit` is called with a request that resolves to a worker. -/
  | submit (r : WorkerRequest) (worker : String)
  /-- `submit_async` is called. -/
  | submitAsync (r : WorkerRequest) (worker : String)
  /-- A call goes on. -/
  | call (i : Nat) (a : SubmitAnswer)
  /-- Any other function of the manager stores a job again. -/
  | change (id : String) (x : JobChange)
  /-- The process ends and starts again. -/
  | restart

def managerMachine (cfg : ManagerConfig) : Machine ManagerState ManagerStep
  | s, .submit r worker => some { s with
      calls := s.calls ++ [{ request := r, worker, kind := .submit }] }
  | s, .submitAsync r worker => some { s with
      calls := s.calls ++ [{ request := r, worker, kind := .async }] }
  | s, .call i a => s.calls[i]?.bind fun c => s.step cfg i c a
  | s, .change id x => some (s.change cfg id x)
  | s, .restart => some { s with calls := [], async := [], active := [] }

/-! ## What a step can do -/

namespace ManagerState

variable {cfg : ManagerConfig} {s : ManagerState} {i : Nat} {c : SubmitCall} {p : SubmitPoint}
  {id : String} {x : JobChange}

@[simp] lemma served_move : (s.move i c p).served = s.served := rfl

@[simp] lemma jobs_move : (s.move i c p).jobs = s.jobs := rfl

@[simp] lemma submits_move : (s.move i c p).submits = s.submits := rfl

@[simp] lemma calls_move : (s.move i c p).calls = s.calls.set i { c with point := p } := rfl

lemma serve_eq (s : ManagerState) (c : SubmitCall) :
    s.serve c = { s with served := (s.serve c).served } := by
  unfold serve
  split <;> rfl

@[simp] lemma jobs_serve : (s.serve c).jobs = s.jobs := by rw [serve_eq]

@[simp] lemma calls_serve : (s.serve c).calls = s.calls := by rw [serve_eq]

@[simp] lemma submits_serve : (s.serve c).submits = s.submits := by rw [serve_eq]

/-- Entering a job in `active_submissions_` changes nothing else. -/
lemma enterActive_eq (s : ManagerState) (c : SubmitCall) :
    s.enterActive c = { s with active := (s.enterActive c).active } := by
  unfold enterActive
  split <;> rfl

lemma leaveActive_eq (s : ManagerState) (c : SubmitCall) :
    s.leaveActive c = { s with active := (s.leaveActive c).active } := by
  unfold leaveActive
  split <;> rfl

lemma stored_eq_some {j'' : JobRecord} (h : s.stored cfg id x = some j'') :
    ∃ j j', s.jobs.get id = some j ∧
      x.rewrite cfg (jobPage s.jobs j.runId) (s.busy id) j = .ok (some j') ∧ j'' = j'.trimmed ∧
      (j.state = j'.state ∨ validWorkerJobTransition j.state j'.state) := by
  simp only [stored, bind_eq_bind, bind_eq_some_iff] at h
  obtain ⟨j, hj, j', hj', hstored⟩ := h
  have hrewrite : x.rewrite cfg (jobPage s.jobs j.runId) (s.busy id) j = .ok (some j') := by
    cases hr : x.rewrite cfg (jobPage s.jobs j.runId) (s.busy id) j with
    | error e => simp [hr, Except.toOption] at hj'
    | ok o => simpa [hr, Except.toOption] using hj'
  have hok : j.storedAs cfg j' = .ok j'' := by
    cases hs : j.storedAs cfg j' with
    | error e => simp [hs, Except.toOption] at hstored
    | ok o => simpa [hs, Except.toOption] using hstored
  obtain ⟨rfl, hstate⟩ := JobRecord.storedAs_eq_ok hok
  exact ⟨j, j', hj, hrewrite, rfl, hstate⟩

lemma change_cases (cfg : ManagerConfig) (s : ManagerState) (id : String) (x : JobChange) :
    s.change cfg id x = s ∨ ∃ j j', s.jobs.get id = some j ∧
      x.Effect cfg (jobPage s.jobs j.runId) j j' ∧
      (j.state = j'.state ∨ validWorkerJobTransition j.state j'.state) ∧
      s.change cfg id x = s.put j'.trimmed := by
  unfold change
  cases hstored : s.stored cfg id x with
  | none => exact .inl rfl
  | some j'' =>
    obtain ⟨j, j', hj, hrewrite, rfl, hstate⟩ := stored_eq_some hstored
    exact .inr ⟨j, j', hj, JobChange.effect hrewrite, hstate, rfl⟩

lemma change_eq (s : ManagerState) (id : String) (x : JobChange) :
    s.change cfg id x = { s with jobs := (s.change cfg id x).jobs } := by
  unfold change
  split <;> rfl

@[simp] lemma calls_change : (s.change cfg id x).calls = s.calls := by rw [change_eq]

@[simp] lemma submits_change : (s.change cfg id x).submits = s.submits := by rw [change_eq]

@[simp] lemma served_change : (s.change cfg id x).served = s.served := by rw [change_eq]

end ManagerState

def SubmitCall.Names (j : JobRecord) : Prop :=
  j.idempotencyKey = c.request.idempotencyKey ∧ j.workerId = c.worker

/-- Points at which a call has nothing more to do than to store a change or to end. -/
def SubmitPoint.Ending : SubmitPoint → Prop
  | .leave | .change _ | .release | .done => True
  | _ => False

lemma WorkerExn.ending_caught (retry : Bool) (now : String) (e : WorkerExn) :
    (e.caught retry now).Ending := by
  unfold caught
  split
  · trivial
  · trivial
  · split
    · trivial
    · split <;> trivial
  · trivial

/-- How a call that has found its job goes on without returning it. -/
inductive Finds (cfg : ManagerConfig) (c : SubmitCall) (j : JobRecord) : SubmitPoint → Prop where
  | change (x : SilentChange) : Finds cfg c j (.change x)
  | settle : c.kind = .dispatch → j.isOpen → Finds cfg c j .settle
  | resend : cfg.supportsRecovery c.worker → Finds cfg c j (.send true)

open ManagerState in
inductive CallStep (cfg : ManagerConfig) (s : ManagerState) (i : Nat) (c : SubmitCall) :
    ManagerState → Prop where
  | enter : c.point = .enter → (∀ d ∈ s.calls, d.point.holds → d.worker ≠ c.worker) →
      CallStep cfg s i c ((s.enterActive c).move i c .look)
  | leave : c.point.holds → CallStep cfg s i c (s.move i c .leave)
  | admitting : c.point = .look → c.kind = .submit → CallStep cfg s i c (s.move i c .admitting)
  | find {j : JobRecord} {p : SubmitPoint} : c.point = .look → s.jobs.get c.jobId = some j →
      c.Names j → Finds cfg c j p → CallStep cfg s i c (s.move i c p)
  | answer {j : JobRecord} {p : SubmitPoint} : c.point = .look → s.jobs.get c.jobId = some j →
      c.Names j → p = .leave ∨ (p = .launch false ∧ c.kind = .async) →
      CallStep cfg s i c ((s.serve c).move i c p)
  | lose {j : JobRecord} : c.point = .admitting → s.jobs.get c.jobId = some j →
      CallStep cfg s i c ((s.serve c).move i c .leave)
  | insert : c.point = .look ∨ c.point = .admitting → s.full cfg c.worker = false →
      s.jobs.get c.jobId = none →
      CallStep cfg s i c ((s.put (c.request.job c.worker)).move i c .leave)
  | submit : c.point = .look ∨ c.point = .admitting → s.full cfg c.worker = false →
      s.jobs.get c.jobId = none → CallStep cfg s i c ((s.put c.submitting).move i c .settle)
  | reserve {b : Bool} : c.point = .look ∨ c.point = .admitting → c.kind = .async →
      s.full cfg c.worker = false → s.jobs.get c.jobId = none →
      CallStep cfg s i c (((s.reserve c).serve c).move i c (.launch b))
  | launch {b : Bool} : c.point = .launch b → (b = false → c.jobId ∉ s.async) →
      CallStep cfg s i c (s.spawn i c)
  | unscheduled {b : Bool} {x : SilentChange} : c.point = .launch b →
      CallStep cfg s i c (move { s with async := s.async.erase c.jobId } i c (.change x))
  | settle {now : String} : c.point = .settle →
      CallStep cfg s i c ((s.change cfg c.jobId (.finalize now)).move i c (.send false))
  | settled {now : String} : c.point = .settle →
      CallStep cfg s i c (((s.change cfg c.jobId (.finalize now)).serve c).move i c .leave)
  | send {b : Bool} {c' : SubmitCall} {p : SubmitPoint} : c.point = .send b →
      (c' = c ∧ p.Ending ∨ ∃ x, c' = { c with handle := some x } ∧ p = .record b x) →
      CallStep cfg s i c (move { s with
        submits := s.submits ++ [(c.worker, c.request.idempotencyKey)] } i c' p)
  | refuse {b : Bool} {x : WorkerSubmission} {p : SubmitPoint} : c.point = .record b x →
      p.Ending → CallStep cfg s i c (s.move i c p)
  | ignore {b : Bool} {x : WorkerSubmission} : c.point = .record b x →
      CallStep cfg s i c ((s.serve c).move i c .leave)
  | record {b : Bool} {x : WorkerSubmission} {j j' j'' : JobRecord} {y : Bool} {now : String}
      {s' : ManagerState} : c.point = .record b x → x.externalJobId ≠ "" →
      s.jobs.get c.jobId = some j → j.recorded cfg (jobPage s.jobs j.runId) x now = .ok (some (j', y)) →
      j.storedAs cfg j' = .ok j'' → s' = (s.put j'').move i c (.withdraw x) ∨
        s' = ((s.put j'').serve c).move i c .leave → CallStep cfg s i c s'
  | withdraw {x : WorkerSubmission} {y : SilentChange} : c.point = .withdraw x →
      CallStep cfg s i c (move { s with
        cancels := s.cancels ++ [(c.worker, x.externalJobId)] } i c (.change y))
  | change {x : SilentChange} : c.point = .change x →
      CallStep cfg s i c (((s.change cfg c.jobId x.1).serve c).move i c .leave)
  | finish {p : SubmitPoint} : c.point = .leave → p = .release ∨ p = .done →
      CallStep cfg s i c ((s.leaveActive c).move i c p)
  | release : c.point = .release →
      CallStep cfg s i c (move { s with async := s.async.erase c.jobId } i c .done)

namespace CallStep

variable {cfg : ManagerConfig} {s s' : ManagerState} {i : Nat} {c : SubmitCall} {a : SubmitAnswer}

lemma of_admitting (hpoint : c.point = .look ∧ s.jobs.get c.jobId = none ∨ c.point = .admitting) :
    CallStep cfg s i c (s.admitting cfg i c a) := by
  have hpoint' : c.point = .look ∨ c.point = .admitting := hpoint.imp And.left id
  have hholds : c.point.holds := by
    rcases hpoint' with h | h <;> rw [h] <;> rfl
  unfold ManagerState.admitting
  split
  · exact .leave hholds
  rename_i hrefused
  have hroom : s.full cfg c.worker = false := by
    simp only [not_or, Bool.not_eq_true] at hrefused
    exact hrefused.2.1
  split
  · rename_i j hget
    rcases hpoint with ⟨-, hnone⟩ | hpoint
    · rw [hnone] at hget
      cases hget
    · exact .lose hpoint hget
  rename_i hget
  split
  · exact .insert hpoint' hroom hget
  split
  · rename_i hkind
    exact .reserve hpoint' hkind hroom hget
  · exact .submit hpoint' hroom hget

lemma of_look (hpoint : c.point = .look) : CallStep cfg s i c (s.look cfg i c a) := by
  have hleave : CallStep cfg s i c (s.move i c .leave) := .leave (by rw [hpoint]; rfl)
  unfold ManagerState.look
  split
  · exact hleave
  split
  · rename_i hget
    split
    · rename_i hkind
      split
      · exact .admitting hpoint hkind
      · exact hleave
    · exact .of_admitting (.inl ⟨hpoint, hget⟩)
    · exact hleave
  rename_i j hget
  split
  · exact hleave
  rename_i hnames
  simp only [not_or, not_not] at hnames
  have hreturn : CallStep cfg s i c ((s.serve c).move i c .leave) :=
    .answer hpoint hget hnames (.inl rfl)
  have hchange : ∀ x, CallStep cfg s i c (s.move i c (.change x)) :=
    fun x => .find hpoint hget hnames (.change x)
  split
  · unfold ManagerState.found
    split_ifs with h₁ h₂ h₃ h₄ h₅ h₆ h₇
    · exact hreturn
    · exact hreturn
    · exact hchange _
    · exact hchange _
    · exact hleave
    · exact hreturn
    · exact hchange _
    · exact .find hpoint hget hnames (.resend (by simpa using h₇))
  · rename_i hkind
    unfold ManagerState.foundAsync
    split_ifs
    · exact hreturn
    · exact hchange _
    · exact .answer hpoint hget hnames (.inr ⟨rfl, hkind⟩)
  rename_i hkind
  unfold ManagerState.foundInitial
  split_ifs with h₁ h₂ h₃
  · exact hleave
  · exact hchange _
  · exact hleave
  · exact .find hpoint hget hnames (.settle hkind (by simpa using h₁))

lemma of_launch {b : Bool} (hpoint : c.point = .launch b) :
    CallStep cfg s i c (s.launch i c a b) := by
  unfold ManagerState.launch
  split_ifs with hreserved hlaunched
  · exact .leave (by rw [hpoint]; rfl)
  · refine .launch hpoint fun hb hmem => hreserved ⟨hb, List.contains_iff_mem.mpr hmem⟩
  · exact .unscheduled hpoint

lemma of_record {b : Bool} {x : WorkerSubmission} (hpoint : c.point = .record b x) :
    CallStep cfg s i c (s.record cfg i c a b x) := by
  unfold ManagerState.record
  split_ifs with hx
  · exact .refuse hpoint (WorkerExn.ending_caught _ _ _)
  · exact .refuse hpoint (WorkerExn.ending_caught _ _ _)
  split
  · exact .refuse hpoint trivial
  rename_i j hget
  split
  · exact .refuse hpoint (WorkerExn.ending_caught _ _ _)
  · exact .ignore hpoint
  rename_i j' cancelling hrecorded
  split
  · exact .refuse hpoint (WorkerExn.ending_caught _ _ _)
  rename_i j'' hstored
  refine .record hpoint (fun hempty => hx (.inl hempty)) hget hrecorded hstored ?_
  split
  · exact .inl rfl
  · exact .inr rfl

/-- **Every step of a call is one of these.** -/
lemma of_step (h : s.step cfg i c a = some s') : CallStep cfg s i c s' := by
  unfold ManagerState.step at h
  split at h
  · rename_i hpoint
    split at h
    · cases h
    rename_i hfree
    cases h
    refine .enter hpoint fun d hd hholds hworker => hfree (List.any_eq_true.mpr ⟨d, hd, ?_⟩)
    simp [hholds, hworker]
  · rename_i hpoint
    exact some.inj h ▸ .of_look hpoint
  · rename_i hpoint
    exact some.inj h ▸ .of_admitting (.inr hpoint)
  · rename_i hpoint
    exact some.inj h ▸ .of_launch hpoint
  · rename_i hpoint
    simp only at h
    split_ifs at h
    · exact some.inj h ▸ .leave (by rw [hpoint]; rfl)
    · exact some.inj h ▸ .settled hpoint
    · exact some.inj h ▸ .settle hpoint
  · rename_i hpoint
    split at h
    · exact some.inj h ▸ .send hpoint (.inr ⟨_, rfl, rfl⟩)
    · exact some.inj h ▸ .send hpoint (.inl ⟨rfl, WorkerExn.ending_caught _ _ _⟩)
  · rename_i hpoint
    exact some.inj h ▸ .of_record hpoint
  · rename_i hpoint
    exact some.inj h ▸ .withdraw hpoint
  · rename_i hpoint
    split at h
    · exact some.inj h ▸ .leave (by rw [hpoint]; rfl)
    · exact some.inj h ▸ .change hpoint
  · rename_i hpoint
    refine some.inj h ▸ .finish hpoint ?_
    split
    · exact .inl rfl
    · exact .inr rfl
  · rename_i hpoint
    exact some.inj h ▸ .release hpoint
  · cases h

end CallStep

/-! ## What happens to the stored jobs -/

def ManagerState.told (s : ManagerState) :
    ManagerStep → Option (String × Option WorkerUsage × Option WorkerJobState)
  | .change id x => some (id, x.usage, x.reports)
  | .call i _ => s.calls[i]?.bind fun c => match c.point with
    | .record _ x => some (c.jobId, some x.usage, some x.state)
    | _ => none
  | _ => none

/-- How a step changes the stored jobs: not at all, by a rewritten job, or by a new one when there is
room for it. -/
inductive JobsStep (cfg : ManagerConfig) (s : ManagerState) (l : ManagerStep) :
    Table JobRecord → Prop where
  | same : JobsStep cfg s l s.jobs
  | rewrite {j j' : JobRecord} {u : Option WorkerUsage} {r : Option WorkerJobState} :
      (u = none ∧ r = none) ∨ s.told l = some (j.id, u, r) → s.jobs.get j.id = some j →
      Rewrites cfg (jobPage s.jobs j.runId) u r j j' →
      (j.state = j'.state ∨ validWorkerJobTransition j.state j'.state) →
      JobsStep cfg s l (s.jobs.put j'.trimmed)
  | insert {i : Nat} {a : SubmitAnswer} {c : SubmitCall} {j : JobRecord} : l = .call i a →
      s.calls[i]? = some c → c.point = .look ∨ c.point = .admitting →
      j = c.request.job c.worker ∨ j = c.submitting → s.full cfg j.workerId = false →
      s.jobs.get j.id = none → JobsStep cfg s l (s.jobs.put j)

namespace JobsStep

variable {cfg : ManagerConfig} {s s' : ManagerState} {l : ManagerStep} {id : String} {x : JobChange}

lemma of_change
    (htold : (x.usage = none ∧ x.reports = none) ∨ s.told l = some (id, x.usage, x.reports)) :
    JobsStep cfg s l (s.change cfg id x).jobs := by
  rcases s.change_cases cfg id x with h | ⟨j, j', hj, heffect, hstate, h⟩
  · rw [h]
    exact .same
  have hid : j.id = id := key_of_get hj
  subst hid
  rw [h]
  exact .rewrite htold hj heffect hstate

/-- **Inversion.** -/
lemma of_step (h : managerMachine cfg s l = some s') : JobsStep cfg s l s'.jobs := by
  cases l with
  | submit | submitAsync | restart =>
    cases h
    exact .same
  | change id x =>
    cases h
    exact .of_change (.inr rfl)
  | call i a =>
  obtain ⟨c, hc, hstep⟩ := bind_eq_some_iff.mp h
  cases CallStep.of_step hstep with
  | insert hpoint hroom hget => exact .insert rfl hc hpoint (.inl rfl) hroom hget
  | submit hpoint hroom hget => exact .insert rfl hc hpoint (.inr rfl) hroom hget
  | reserve hpoint _ hroom hget =>
    rw [ManagerState.jobs_move, ManagerState.jobs_serve]
    exact .insert rfl hc hpoint (.inr rfl) hroom hget
  | settle _ => exact .of_change (.inl ⟨rfl, rfl⟩)
  | settled _ =>
    rw [ManagerState.jobs_move, ManagerState.jobs_serve]
    exact .of_change (.inl ⟨rfl, rfl⟩)
  | @change y _ =>
    rw [ManagerState.jobs_move, ManagerState.jobs_serve]
    exact .of_change (.inl y.2)
  | @record b x j j' j'' y now _ hpoint hx hget hrecorded hstored hs' =>
    have hjobs : s'.jobs = s.jobs.put j'' := by
      rcases hs' with rfl | rfl <;> simp [ManagerState.put]
    obtain ⟨rfl, hstate⟩ := JobRecord.storedAs_eq_ok hstored
    have hid : j.id = c.jobId := key_of_get hget
    rw [hjobs]
    refine .rewrite (.inr ?_) (hid ▸ hget) (JobRecord.rewrites_recorded hx hrecorded).1 hstate
    simp [ManagerState.told, hc, hpoint, hid]
  | enter =>
    rw [ManagerState.enterActive_eq]
    exact .same
  | finish =>
    rw [ManagerState.leaveActive_eq]
    exact .same
  | answer | lose | ignore =>
    rw [ManagerState.jobs_move, ManagerState.jobs_serve]
    exact .same
  | _ => exact .same

/-- **What a step keeps of a job.** Jobs are never removed, so a relation that every rewriting
respects relates each job with what is stored under its identifier afterwards. -/
lemma rows {jobs : Table JobRecord} {R : JobRecord → JobRecord → Prop} (h : JobsStep cfg s l jobs)
    (hrefl : ∀ j, R j j)
    (hrewrite : ∀ {j j' u r}, (u = none ∧ r = none) ∨ s.told l = some (j.id, u, r) →
      s.jobs.get j.id = some j → Rewrites cfg (jobPage s.jobs j.runId) u r j j' →
      (j.state = j'.state ∨ validWorkerJobTransition j.state j'.state) → R j j'.trimmed) :
    ∀ id j, s.jobs.get id = some j → ∃ j', jobs.get id = some j' ∧ R j j' := by
  intro id j hj
  cases h with
  | same => exact ⟨j, hj, hrefl j⟩
  | @rewrite i i' u r htold hi hrewrites hstate =>
    have hid : i'.trimmed.id = i.id := hrewrites.same.id
    by_cases heq : i.id = id
    · subst heq
      obtain rfl : i = j := Option.mem_unique hi hj
      refine ⟨i'.trimmed, ?_, hrewrite htold hi hrewrites hstate⟩
      rw [← hid]
      exact get_put_self s.jobs i'.trimmed
    · have hne : i'.trimmed.id ≠ id := by rwa [hid]
      exact ⟨j, (get_put_ne hne).trans hj, hrefl j⟩
  | @insert _ _ _ i _ _ _ _ _ hnone =>
  have hne : i.id ≠ id := by
    rintro rfl
    rw [hnone] at hj
    cases hj
  exact ⟨j, (get_put_ne hne).trans hj, hrefl j⟩

/-- **What holds of every stored job.** It holds of new jobs and of everything that has passed
`persist`. -/
lemma rows_of_reach {P : JobRecord → Prop} (htrimmed : ∀ j : JobRecord, P j.trimmed)
    (hnew : ∀ c : SubmitCall, P (c.request.job c.worker) ∧ P c.submitting)
    (h : (managerMachine cfg).Reach Machine.always {} s) : ∀ j ∈ s.jobs.rows, P j := by
  refine h.invariant (I := fun s => ∀ j ∈ s.jobs.rows, P j) (by simp [Table.empty]) ?_
  intro s l t hall _ hstep j hj
  have hjobs := JobsStep.of_step hstep
  generalize t.jobs = jobs at hjobs hj
  cases hjobs with
  | same => exact hall j hj
  | @rewrite i i' u r htold hi hrewrites hstate =>
    rcases mem_rows_put.mp hj with rfl | ⟨hmem, -⟩
    · exact htrimmed i'
    · exact hall j hmem
  | @insert _ _ c _ _ _ _ hjob =>
  rcases mem_rows_put.mp hj with rfl | ⟨hmem, -⟩
  · rcases hjob with rfl | rfl
    · exact (hnew c).1
    · exact (hnew c).2
  · exact hall j hmem

end JobsStep

end Laso
