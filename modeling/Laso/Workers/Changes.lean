import Laso.Workers.Records

/-!
# Changes of a worker job

`WorkerManager` writes a stored job only in blocks that hold the mutex of its state. Such a block
reads the job, computes a new version of it from what it has read and from what a worker, an operator
or the clock has said, and stores it. A `JobChange` is one of these blocks, `JobChange.rewrite` the
version it computes. The block that records the answer to a submission is `JobRecord.recorded`; it
belongs to the call that has submitted the job.

`Rewrites` says once how any of these blocks can rewrite a job; `JobChange.effect` and
`JobRecord.rewrites_recorded` show that they keep to it.
-/

namespace Laso

open JobRecord Option

/-! ## New versions of a record -/

namespace JobRecord

variable (j : JobRecord)

def outcomeUnknown (error : String) : JobRecord :=
  { j with state := .unknown, error }

def failedWith (kind : WorkerFailureKind) (error now : String) : JobRecord :=
  { j with state := .failed, failureKind := kind, error, completedAt := now }

def cancellationDone (target : CancellationTarget) (now : String) : JobRecord :=
  { j with
    state := target.state
    cancellationAcknowledged := true
    cancellationError := ""
    completedAt := now }

variable (cfg : ManagerConfig) (j : JobRecord) (x : WorkerStatus)

/-- The final result of a tool call is recorded in a completed job. -/
def retrieved : JobRecord :=
  { j with
    result := x.result
    requestMetadata := { j.requestMetadata with codexToolResultRetrieved := true }
    resultMetadata :=
      if x.metadata.object?.isSome ∧ cfg.dump x.metadata ≤ maxMetadataBytes then x.metadata
      else j.resultMetadata
    error := if x.error = "" then j.error else boundedError x.error
    artifacts :=
      if x.artifacts.isEmpty = false ∧ x.artifacts.length ≤ cfg.maxArtifacts then x.artifacts
      else j.artifacts
    usage := j.usage.merge x.usage }

def reported :
    Except WorkerExn JobRecord :=
  { j with
    state := x.state
    result :=
      if x.result.isNull = false ∧ cfg.dump x.result ≤ maxResultBytes then x.result else j.result
    resultMetadata :=
      if x.metadata.object?.isSome ∧ cfg.dump x.metadata ≤ maxMetadataBytes then x.metadata
      else j.resultMetadata
    usage := j.usage.merge x.usage
    artifacts :=
      if x.artifacts.isEmpty = false ∧ x.artifacts.length ≤ cfg.maxArtifacts then x.artifacts
      else j.artifacts
    error := if x.error = "" then j.error else boundedError x.error }.continued x.continuation

/-- A job that has used more than the budget allows fails; `kind` is the reason that is recorded when
it has failed otherwise. -/
def charged (cfg : ManagerConfig) (rows : List JobRecord)
    (kind : WorkerFailureKind → WorkerFailureKind) (j : JobRecord) : JobRecord :=
  match j.budgetViolation cfg rows with
  | some violation => j.overBudget violation
  | none => if j.state = .failed then { j with failureKind := kind j.failureKind } else j

def stampedEnd (now : String) : JobRecord :=
  if j.state.isTerminal then { j with completedAt := now } else j

/-- The time at which a job has ended, unless it is known. -/
def endedAt (now : String) : JobRecord :=
  if j.completedAt = "" then j.stampedEnd now else j

/-- The result of a tool call has come with the status. -/
def marked (received : Bool) : JobRecord :=
  if x.state = .completed ∧ received ∧ j.requestMetadata.parentWorkerJobId.isSome then
    { j with requestMetadata := { j.requestMetadata with codexToolResultRetrieved := true } }
  else j

/-- The metadata with the progress of the job; a document that is no object has no fields to set. -/
def progressMetadata (progress : Json) :
    Except WorkerExn Json :=
  if maxMetadataBytes < cfg.dump progress then .ok j.resultMetadata
  else match j.resultMetadata with
    | .obj fields => .ok (.obj (upsert Prod.fst fields ("progress", progress)))
    | .null => .ok (.obj [("progress", progress)])
    | _ => .error .other

variable (e : WorkerEvent)

def progressed :
    Except WorkerExn JobRecord := do
  let metadata ← j.progressMetadata cfg e.progress
  return { j with resultMetadata := metadata, usage := j.usage.add e.usage }

def advanced (now : String) : Except WorkerExn JobRecord :=
  match eventState e.type with
  | .completed =>
    { j with
      state := .completed
      result := e.result
      resultMetadata := e.metadata
      artifacts := e.artifacts
      usage := j.usage.add e.usage }.continued e.continuation
  | .failed => .ok { j with state := .failed, error := boundedError e.error, failureKind := .job }
  | .cancelled => .ok { j with state := .cancelled, cancellationAcknowledged := true }
  | .running =>
    .ok { j with state := .running, startedAt := if j.startedAt = "" then now else j.startedAt }
  | next => .ok { j with state := next }

/-- What an event of the job's worker changes, unless it is about another handle. -/
def withEvent : Option JobRecord :=
  if e.sourceId ≠ cfg.eventSource j.workerId then none
  else if e.externalJobId = "" then some j
  else if boundedIdentifier e.externalJobId 512 = false then none
  else if j.externalJobId = "" then some { j with externalJobId := e.externalJobId }
  else if e.externalJobId = j.externalJobId then some j
  else none

def submitted (x : WorkerSubmission) : Except WorkerExn JobRecord :=
  { j with
    externalJobId := x.externalJobId
    state := x.state
    resultMetadata := x.metadata
    result := if x.result.isNull then j.result else x.result
    artifacts := if x.artifacts.isEmpty then j.artifacts else x.artifacts
    error := if x.error = "" then j.error else boundedError x.error
    usage := j.usage.merge x.usage }.continued x.continuation

/-- The first block of `record_submission`: what it stores, and whether the external job has to be
cancelled because the cancellation of the job was requested meanwhile. A job that is over is left
alone. -/
def recorded (cfg : ManagerConfig) (rows : List JobRecord) (j : JobRecord) (x : WorkerSubmission)
    (now : String) : Except WorkerExn (Option (JobRecord × Bool)) :=
  if j.state.isTerminal then .ok none
  else do
    let j' ← j.submitted x
    return some ((j'.charged cfg rows fun _ => .job).stampedEnd now,
      j'.cancellationRequested && !j'.state.isTerminal)

end JobRecord

/-! ## The blocks -/

/-- `list` of worker jobs: the first rows, of one run if it is named. -/
def jobPage (jobs : Table JobRecord) (run : String) : List JobRecord :=
  (jobs.rows.filter fun j => decide (run = "" ∨ j.runId = run)).take 10000

/-- Blocks of the manager that store a job again. -/
inductive JobChange where
  /-- `retire_superseded_distributed_jobs_locked`, with the stored work of the job. -/
  | retire (work : NodeWork) (now : String)
  /-- `fence_stale_submission_locked`. -/
  | fence
  /-- `finalize_pending_cancellation`. -/
  | finalize (now : String)
  /-- The second block of `record_submission`. -/
  | acknowledge (acknowledged : Bool) (now : String)
  /-- `reconcile` fills in the result of a tool call. -/
  | retrieve (final : WorkerStatus)
  /-- `reconcile` for a job that its worker does not know. -/
  | lose
  /-- `reconcile` for any other status, and whether the final result has come with it. -/
  | report (status : WorkerStatus) (received : Bool) (now : String)
  /-- `reconcile` after a failure of the transport. -/
  | transportFailed (message now : String)
  /-- `submit_impl` and `submit_async` find a submission that nobody is at. -/
  | forget
  /-- `submit_impl` finds a job without a handle whose worker cannot recover submissions. -/
  | giveUp
  /-- `submit_impl` after a failure of the transport. -/
  | submissionFailed (message : String) (timedOut : Bool) (now : String)
  /-- A submission has failed otherwise. -/
  | fail (error now : String)
  /-- `submit_async` cannot start its thread. -/
  | unscheduled (now : String)
  /-- The first block of `cancel`. -/
  | requestCancel (target : CancellationTarget) (reason : String)
  /-- The second block of `cancel`. -/
  | endCancel (target : CancellationTarget) (acknowledged : Bool) (error now : String)
  /-- `apply_event`. -/
  | event (e : WorkerEvent) (now : String)
  /-- `handle_tool_call` stores a reservation or the evidence of a tool call. -/
  | toolCalls (reservations : List ToolReservation) (calls : List ToolAttestation)

/-- The version of a job that a block stores, if it stores one. `rows` are the jobs of the run, and
`busy` says that a submission of the job is under way in this process. -/
def JobChange.rewrite (cfg : ManagerConfig) (rows : List JobRecord) (busy : Bool) (j : JobRecord) :
    JobChange → Except WorkerExn (Option JobRecord)
  | .retire work now =>
    let workId := j.requestMetadata.nodeWorkId.getD ""
    let attemptId := j.requestMetadata.nodeWorkAttemptId.getD ""
    if j.state.isTerminal ∨ workId = "" ∨ attemptId = "" ∨ work.id ≠ workId ∨
        (work.state = .running ∧ work.attemptId = attemptId) then .ok none
    else .ok (j.failedWith .transport "Worker attempt was superseded or lost its node lease" now)
  | .fence =>
    if j.isOpen = false ∨ busy then .ok none
    else .ok (j.outcomeUnknown
      ("Worker submission was interrupted before its external job ID was recorded; " ++
        "the outcome is unknown and it will not be resubmitted"))
  | .finalize now =>
    if j.state.isTerminal ∨ j.cancellationRequested = false ∨ j.externalJobId ≠ "" then .ok none
    else .ok (j.cancellationDone j.cancellationTarget now)
  | .acknowledge acknowledged now =>
    if j.state.isTerminal then .ok none
    else if acknowledged then .ok (j.cancellationDone j.cancellationTarget now)
    else if j.cancellationError = "" then
      .ok (some { j with cancellationError := "Worker did not acknowledge cancellation" })
    else .ok j
  | .retrieve final =>
    if j.needsResult ∧ final.state = .completed ∧ final.result.isNull = false ∧
        cfg.dump final.result ≤ maxResultBytes then .ok (j.retrieved cfg final)
    else .ok none
  | .lose =>
    if j.state.isTerminal ∨ j.state = .unknown then .ok none
    else .ok (j.outcomeUnknown
      "Worker process no longer knows this job; it will not be resubmitted")
  | .report status received now =>
    -- A job without a handle is not asked for, and a handle stays.
    if j.state.isTerminal ∨ j.externalJobId = "" ∨ status.state = .unknown ∨
        (validWorkerJobTransition j.state status.state = false ∧ j.state ≠ status.state) then .ok none
    else do
      let j' := (← j.reported cfg status).charged cfg rows
        fun kind => if kind = .none then .job else kind
      return some ((j'.endedAt now).marked status received)
  | .transportFailed message now =>
    if j.state.isTerminal then .ok none
    else .ok (j.failedWith .transport (boundedError message) now)
  | .forget =>
    if j.isOpen then .ok (j.outcomeUnknown
      "Worker submission outcome is unknown after restart; it will not be resubmitted")
    else .ok none
  | .giveUp => .ok (j.outcomeUnknown
      "External submission outcome is unknown; adapter recovery is unavailable")
  | .submissionFailed message timedOut now =>
    if j.state.isTerminal ∨ j.cancellationRequested then .ok none
    else .ok (some { j with
      state := if timedOut then .timedOut else .failed
      failureKind := .transport
      error := boundedError message
      completedAt := now })
  | .fail error now =>
    if j.state.isTerminal then .ok none else .ok (j.failedWith .job error now)
  | .unscheduled now =>
    if j.isOpen = false then .ok none
    else if j.cancellationRequested then .ok (j.cancellationDone j.cancellationTarget now)
    else .ok (j.failedWith .job "Worker submission could not be scheduled" now)
  | .requestCancel target reason =>
    if j.state.isTerminal then .ok none
    else .ok (some { j with
      cancellationRequested := true
      cancellationTarget := target
      cancellationError := boundedError reason
      requestMetadata := { j.requestMetadata with
        reservations := j.requestMetadata.reservations.map fun r => { r with state := "cancelled" } } })
  | .endCancel target acknowledged error now =>
    if j.state.isTerminal then .ok none
    else if acknowledged then .ok (j.cancellationDone target now)
    else .ok (some { j with
      cancellationError :=
        if error ≠ "" then error
        else match target with
          | .timedOut => "Worker did not acknowledge timeout cancellation"
          | .cancelled => "Worker did not acknowledge cancellation" })
  | .event e now =>
    match j.withEvent cfg e with
    | none => .ok none
    | some j =>
      let next := eventState e.type
      if j.state.isTerminal then .ok none
      else if e.type = "worker.job.progress" then do
        return some (((← j.progressed cfg e).charged cfg rows id).stampedEnd now)
      else if next = .unknown ∨
          (next ≠ j.state ∧ validWorkerJobTransition j.state next = false) then .ok none
      else do
        return some (((← j.advanced e now).charged cfg rows id).stampedEnd now)
  | .toolCalls reservations calls =>
    .ok (some { j with requestMetadata := { j.requestMetadata with reservations, calls } })

/-! ## What a change can do -/

def JobChange.usage : JobChange → Option WorkerUsage
  | .retrieve final => some final.usage
  | .report status _ _ => some status.usage
  | .event e _ => e.usage
  | _ => none

def JobChange.reports : JobChange → Option WorkerJobState
  | .report status _ _ => some status.state
  | .event e _ => some (eventState e.type)
  | _ => none

structure SameJob (j j' : JobRecord) : Prop where
  id : j'.id = j.id
  worker : j'.workerId = j.workerId
  run : j'.runId = j.runId
  key : j'.idempotencyKey = j.idempotencyKey
  parent : j'.requestMetadata.parentWorkerJobId = j.requestMetadata.parentWorkerJobId

lemma SameJob.refl (j : JobRecord) : SameJob j j := ⟨rfl, rfl, rfl, rfl, rfl⟩

lemma SameJob.trans {j j' j'' : JobRecord} (h : SameJob j j') (h' : SameJob j' j'') :
    SameJob j j'' :=
  ⟨h'.id.trans h.id, h'.worker.trans h.worker, h'.run.trans h.run, h'.key.trans h.key,
    h'.parent.trans h.parent⟩

lemma SameJob.trimmed {j j' : JobRecord} (h : SameJob j j') : SameJob j j'.trimmed :=
  h.trans ⟨rfl, rfl, rfl, rfl, rfl⟩

/-- Two versions of a job with the same outcome. -/
structure SameOutcome (j j' : JobRecord) : Prop where
  result : j'.result = j.result
  error : j'.error = j.error
  usage : j'.usage = j.usage
  artifacts : j'.artifacts = j.artifacts
  completedAt : j'.completedAt = j.completedAt
  failureKind : j'.failureKind = j.failureKind

/-- A result has been retrieved: usage is reported, but no state. -/
structure Retrieval (usage : Option WorkerUsage) (reports : Option WorkerJobState)
    (j j' : JobRecord) : Prop where
  told : usage.isSome ∧ reports = none
  needed : j.needsResult
  failureKind : j'.failureKind = j.failureKind

/-- The usage of a job is within the budget, given the jobs of its run, or the job has failed for
it. -/
def Charged (cfg : ManagerConfig) (rows : List JobRecord) (j : JobRecord) : Prop :=
  j.budgetViolation cfg rows = none ∨ (j.state = .failed ∧ j.failureKind = .budget)

/-- How a job can be rewritten when the given usage and state are reported: what it was submitted
with stays, it is not opened again, a job that is over keeps its outcome, and new usage has been
compared with the budget, unless it came with the result of a tool call. -/
structure Rewrites (cfg : ManagerConfig) (rows : List JobRecord) (usage : Option WorkerUsage)
    (reports : Option WorkerJobState) (j j' : JobRecord) : Prop where
  same : SameJob j j'
  flag : j.requestMetadata.codexToolResultRetrieved → j'.requestMetadata.codexToolResultRetrieved
  closed : j'.isOpen → j.isOpen
  state : j'.state = j.state ∨ j'.state.isTerminal ∨ j'.state = .unknown ∨ reports = some j'.state
  outcome : j.state.isTerminal → j'.state = j.state →
    SameOutcome j j' ∨ Retrieval usage reports j j'
  usage : j'.usage = j.usage ∨ ∃ u, usage = some u ∧ j'.usage = j.usage.merge u ∧
    (Retrieval usage reports j j' ∨ Charged cfg rows j')

/-- What a block makes of a job. -/
abbrev JobChange.Effect (cfg : ManagerConfig) (rows : List JobRecord) (c : JobChange)
    (j j' : JobRecord) : Prop := Rewrites cfg rows c.usage c.reports j j'

section Effects

variable {cfg : ManagerConfig} {rows : List JobRecord} {busy : Bool} {c : JobChange}
  {j j' : JobRecord}

lemma CancellationTarget.isTerminal_state (target : CancellationTarget) :
    target.state.isTerminal := by
  cases target <;> rfl

lemma JobRecord.live_of_isOpen (h : j.isOpen) : j.state.isTerminal = false := by
  simp only [isOpen, Bool.and_eq_true, beq_iff_eq] at h
  rw [h.1]
  rfl

lemma outcome_of_live (h : j.state.isTerminal = false) {P : Prop} (hj : j.state.isTerminal) :
    P := by
  rw [h] at hj
  cases hj

lemma JobChange.Effect.of_plain (hsame : SameJob j j')
    (hflag : j'.requestMetadata.codexToolResultRetrieved =
      j.requestMetadata.codexToolResultRetrieved)
    (hext : j'.externalJobId = j.externalJobId) (husage : j'.usage = j.usage)
    (hstate : j'.state = j.state ∨ j'.state.isTerminal ∨ j'.state = .unknown)
    (hout : j.state.isTerminal → j'.state = j.state → SameOutcome j j') :
    c.Effect cfg rows j j' where
  same := hsame
  flag h := hflag.trans h
  closed hopen := by
    simp only [isOpen, hext, Bool.and_eq_true, beq_iff_eq] at hopen ⊢
    rcases hstate with h | h | h
    · exact ⟨h ▸ hopen.1, hopen.2⟩
    · rw [hopen.1] at h
      cases h
    · exact absurd (hopen.1.symm.trans h) (by decide)
  state := by
    rcases hstate with h | h | h
    · exact .inl h
    · exact .inr (.inl h)
    · exact .inr (.inr (.inl h))
  outcome hj hsame := .inl (hout hj hsame)
  usage := .inl husage

lemma JobChange.Effect.of_end (hlive : j.state.isTerminal = false) (hsame : SameJob j j')
    (hmeta : j'.requestMetadata = j.requestMetadata) (hext : j'.externalJobId = j.externalJobId)
    (husage : j'.usage = j.usage) (hend : j'.state.isTerminal) : c.Effect cfg rows j j' :=
  .of_plain hsame (by rw [hmeta]) hext husage (.inr (.inl hend)) fun h => outcome_of_live hlive h

lemma JobChange.Effect.failedWith (hlive : j.state.isTerminal = false) (kind : WorkerFailureKind)
    (error now : String) : c.Effect cfg rows j (j.failedWith kind error now) :=
  .of_end hlive ⟨rfl, rfl, rfl, rfl, rfl⟩ rfl rfl rfl rfl

lemma JobChange.Effect.cancellationDone (hlive : j.state.isTerminal = false)
    (target : CancellationTarget) (now : String) :
    c.Effect cfg rows j (j.cancellationDone target now) :=
  .of_end hlive ⟨rfl, rfl, rfl, rfl, rfl⟩ rfl rfl rfl target.isTerminal_state

/-- Something is only noted in a job that is not over. -/
lemma JobChange.Effect.noted (hlive : j.state.isTerminal = false) (hsame : SameJob j j')
    (hflag : j'.requestMetadata.codexToolResultRetrieved =
      j.requestMetadata.codexToolResultRetrieved) (hext : j'.externalJobId = j.externalJobId)
    (husage : j'.usage = j.usage) (hstate : j'.state = j.state) : c.Effect cfg rows j j' :=
  .of_plain hsame hflag hext husage (.inl hstate) fun h => outcome_of_live hlive h

/-- The outcome of a job becomes unknown; the store refuses that for one that is over. -/
lemma JobChange.Effect.outcomeUnknown (error : String) :
    c.Effect cfg rows j (j.outcomeUnknown error) := by
  refine .of_plain ⟨rfl, rfl, rfl, rfl, rfl⟩ rfl rfl rfl (.inr (.inr rfl)) fun hj hstate => ?_
  rw [← hstate] at hj
  cases hj

lemma JobRecord.continued_eq_ok {x : Option OpaqueContinuation} (h : j.continued x = .ok j') :
    ∃ y, j' = { j with continuation := y } := by
  unfold continued at h
  split at h
  · exact ⟨j.continuation, (Except.ok.inj h).symm⟩
  split at h
  · cases h
  · exact ⟨_, (Except.ok.inj h).symm⟩

/-- The last part of a report: the budget, the time of the end and the mark of a tool call. -/
structure Concluded (cfg : ManagerConfig) (rows : List JobRecord) (j j' : JobRecord) : Prop where
  same : SameJob j j'
  flag : j.requestMetadata.codexToolResultRetrieved → j'.requestMetadata.codexToolResultRetrieved
  ext : j'.externalJobId = j.externalJobId
  usage : j'.usage = j.usage
  state : j'.state = j.state ∨ j'.state = .failed
  charged : Charged cfg rows j'

lemma Concluded.of_charged (cfg : ManagerConfig) (rows : List JobRecord)
    (kind : WorkerFailureKind → WorkerFailureKind) (j : JobRecord) :
    Concluded cfg rows j (j.charged cfg rows kind) := by
  unfold JobRecord.charged
  split
  · exact ⟨⟨rfl, rfl, rfl, rfl, rfl⟩, id, rfl, rfl, .inr rfl, .inr ⟨rfl, rfl⟩⟩
  rename_i hviolation
  split
  · exact ⟨⟨rfl, rfl, rfl, rfl, rfl⟩, id, rfl, rfl, .inl rfl, .inl hviolation⟩
  · exact ⟨.refl j, id, rfl, rfl, .inl rfl, .inl hviolation⟩

lemma Concluded.stampedEnd (h : Concluded cfg rows j j') (now : String) :
    Concluded cfg rows j (j'.stampedEnd now) := by
  unfold JobRecord.stampedEnd
  split
  · exact ⟨h.same.trans ⟨rfl, rfl, rfl, rfl, rfl⟩, h.flag, h.ext, h.usage, h.state, h.charged⟩
  · exact h

lemma Concluded.endedAt (h : Concluded cfg rows j j') (now : String) :
    Concluded cfg rows j (j'.endedAt now) := by
  unfold JobRecord.endedAt
  split
  · exact h.stampedEnd now
  · exact h

lemma Concluded.marked (h : Concluded cfg rows j j') (x : WorkerStatus) (received : Bool) :
    Concluded cfg rows j (j'.marked x received) := by
  unfold JobRecord.marked
  split
  · exact ⟨h.same.trans ⟨rfl, rfl, rfl, rfl, rfl⟩, fun _ => rfl, h.ext, h.usage, h.state, h.charged⟩
  · exact h

/-- A report on a job that is not over. `j₁` is the job with what is reported. -/
lemma Rewrites.of_report {usage : Option WorkerUsage} {reports : Option WorkerJobState}
    {j₁ : JobRecord} (h : Concluded cfg rows j₁ j') (hlive : j.state.isTerminal = false)
    (hsame : SameJob j j₁) (hmeta : j₁.requestMetadata = j.requestMetadata)
    (hclosed : j₁.isOpen → j.isOpen)
    (hstate : j₁.state = j.state ∨ reports = some j₁.state)
    (husage : j₁.usage = j.usage ∨ ∃ u, usage = some u ∧ j₁.usage = j.usage.merge u) :
    Rewrites cfg rows usage reports j j' where
  same := hsame.trans h.same
  flag hflag := h.flag (hmeta ▸ hflag)
  closed hopen := by
    rcases h.state with hstate' | hfailed
    · refine hclosed ?_
      rwa [isOpen, hstate', h.ext] at hopen
    have hlive' := live_of_isOpen hopen
    rw [hfailed] at hlive'
    cases hlive'
  state := by
    rcases h.state with h' | h'
    · rw [h']
      exact hstate.imp id fun hreports => .inr (.inr hreports)
    · rw [h']
      exact .inr (.inl rfl)
  outcome hj := outcome_of_live hlive hj
  usage := by
    rw [h.usage]
    exact husage.imp id fun ⟨u, hu, hmerge⟩ => ⟨u, hu, hmerge, .inr h.charged⟩

lemma WorkerUsage.add_cases (u : WorkerUsage) (x : Option WorkerUsage) :
    u.add x = u ∨ ∃ v, x = some v ∧ u.add x = u.merge v := by
  cases x with
  | none => exact .inl rfl
  | some v => exact .inr ⟨v, rfl, rfl⟩

variable {e : WorkerEvent} {now : String}

lemma JobRecord.withEvent_eq_some (h : j.withEvent cfg e = some j') :
    ∃ ext, j' = { j with externalJobId := ext } ∧ (j.externalJobId ≠ "" → ext = j.externalJobId) := by
  unfold withEvent at h
  split at h
  · cases h
  split at h
  · exact ⟨_, (some.inj h).symm, fun _ => rfl⟩
  split at h
  · cases h
  split at h
  · rename_i hempty
    exact ⟨_, (some.inj h).symm, fun hne => absurd hempty hne⟩
  split at h
  · exact ⟨_, (some.inj h).symm, fun _ => rfl⟩
  · cases h

lemma JobRecord.progressed_eq_ok (h : j.progressed cfg e = .ok j') :
    ∃ metadata, j' = { j with resultMetadata := metadata, usage := j.usage.add e.usage } := by
  obtain ⟨metadata, -, h⟩ := bind_eq_ok.mp h
  exact ⟨metadata, (pure_eq_ok.mp h).symm⟩

lemma JobRecord.advanced_eq_ok (h : j.advanced e now = .ok j') :
    SameJob j j' ∧ j'.requestMetadata = j.requestMetadata ∧ j'.externalJobId = j.externalJobId ∧
      j'.state = eventState e.type ∧
      (j'.usage = j.usage ∨ ∃ u, e.usage = some u ∧ j'.usage = j.usage.merge u) := by
  unfold advanced at h
  split at h
  · rename_i hstate
    obtain ⟨_, rfl⟩ := continued_eq_ok h
    exact ⟨⟨rfl, rfl, rfl, rfl, rfl⟩, rfl, rfl, hstate.symm, j.usage.add_cases e.usage⟩
  all_goals
    cases h
    refine ⟨⟨rfl, rfl, rfl, rfl, rfl⟩, rfl, rfl, ?_, .inl rfl⟩
    first
      | rfl
      | exact Eq.symm ‹_›

lemma JobChange.Effect.of_event
    (h : (JobChange.event e now).rewrite cfg rows busy j = .ok (some j')) :
    (JobChange.event e now).Effect cfg rows j j' := by
  simp only [rewrite] at h
  split at h
  · cases h
  rename_i j₁ hevent
  obtain ⟨ext, rfl, hext⟩ := withEvent_eq_some hevent
  have hclosed : ∀ {j₂ : JobRecord}, j₂.externalJobId = ext → j₂.isOpen →
      j₂.state = j.state → j.isOpen := by
    intro j₂ hext₂ hopen hstate
    simp only [isOpen, Bool.and_eq_true, beq_iff_eq] at hopen ⊢
    refine ⟨hstate ▸ hopen.1, ?_⟩
    by_contra hne
    exact hne ((hext hne).symm.trans (hext₂.symm.trans hopen.2))
  split at h
  · cases h
  rename_i hlive
  have hlive : j.state.isTerminal = false := by simpa using hlive
  split at h
  · -- progress
    obtain ⟨j₂, hj₂, h⟩ := bind_eq_ok.mp h
    have hconcluded := (Concluded.of_charged cfg rows id j₂).stampedEnd now
    rw [some.inj (pure_eq_ok.mp h)] at hconcluded
    obtain ⟨metadata, rfl⟩ := progressed_eq_ok hj₂
    exact .of_report hconcluded hlive ⟨rfl, rfl, rfl, rfl, rfl⟩ rfl
      (fun hopen => hclosed rfl hopen rfl) (.inl rfl) (j.usage.add_cases e.usage)
  split at h
  · cases h
  obtain ⟨j₂, hj₂, h⟩ := bind_eq_ok.mp h
  obtain ⟨hsame, hmeta, hext₂, hstate, husage⟩ := advanced_eq_ok hj₂
  obtain rfl := some.inj (pure_eq_ok.mp h)
  have hconcluded := (Concluded.of_charged cfg rows id j₂).stampedEnd now
  refine .of_report hconcluded hlive ⟨hsame.id, hsame.worker, hsame.run, hsame.key, hsame.parent⟩
    hmeta (fun hopen => ?_) (.inr (congrArg some hstate.symm)) husage
  -- no event reports that a job is being submitted
  simp only [isOpen, Bool.and_eq_true, beq_iff_eq] at hopen
  have hsubmitting := hstate.symm.trans hopen.1
  unfold eventState at hsubmitting
  split_ifs at hsubmitting

lemma JobChange.Effect.of_status {status : WorkerStatus} {received : Bool}
    (h : (JobChange.report status received now).rewrite cfg rows busy j = .ok (some j')) :
    (JobChange.report status received now).Effect cfg rows j j' := by
  simp only [rewrite] at h
  split at h
  · cases h
  rename_i hreports
  simp only [not_or, Bool.not_eq_true] at hreports
  obtain ⟨hlive, hhandle, -, -⟩ := hreports
  obtain ⟨j₁, hj₁, h⟩ := bind_eq_ok.mp h
  have hconcluded := ((Concluded.of_charged cfg rows (fun kind => if kind = .none then .job else kind)
    j₁).endedAt now).marked status received
  rw [some.inj (pure_eq_ok.mp h)] at hconcluded
  obtain ⟨_, rfl⟩ := continued_eq_ok hj₁
  refine .of_report hconcluded hlive ⟨rfl, rfl, rfl, rfl, rfl⟩ rfl (fun hopen => ?_) (.inr rfl)
    (.inr ⟨status.usage, rfl, rfl⟩)
  simp [isOpen, hhandle] at hopen

lemma JobChange.Effect.of_retrieve {final : WorkerStatus}
    (h : (JobChange.retrieve final).rewrite cfg rows busy j = .ok (some j')) :
    (JobChange.retrieve final).Effect cfg rows j j' := by
  simp only [rewrite] at h
  split at h
  · rename_i hneeded
    cases h
    have hretrieval : Retrieval (some final.usage) none j (j.retrieved cfg final) :=
      ⟨⟨rfl, rfl⟩, hneeded.1, rfl⟩
    exact ⟨⟨rfl, rfl, rfl, rfl, rfl⟩, fun _ => rfl, fun hopen => hopen, .inl rfl,
      fun _ _ => .inr hretrieval, .inr ⟨final.usage, rfl, rfl, .inl hretrieval⟩⟩
  · cases h

/-- What the worker answers to a request to cancel ends the job or is only noted. -/
lemma JobChange.Effect.of_acknowledge {answer : Bool}
    (h : (JobChange.acknowledge answer now).rewrite cfg rows busy j = .ok (some j')) :
    (JobChange.acknowledge answer now).Effect cfg rows j j' := by
  simp only [rewrite] at h
  split at h
  · cases h
  rename_i hover
  have hlive : j.state.isTerminal = false := by simpa using hover
  split_ifs at h
  · cases h
    exact .cancellationDone hlive _ _
  all_goals
    cases h
    exact .noted hlive ⟨rfl, rfl, rfl, rfl, rfl⟩ rfl rfl rfl rfl

lemma JobChange.Effect.of_endCancel {target : CancellationTarget} {answer : Bool} {error : String}
    (h : (JobChange.endCancel target answer error now).rewrite cfg rows busy j = .ok (some j')) :
    (JobChange.endCancel target answer error now).Effect cfg rows j j' := by
  simp only [rewrite] at h
  split at h
  · cases h
  rename_i hover
  have hlive : j.state.isTerminal = false := by simpa using hover
  split at h
  · cases h
    exact .cancellationDone hlive _ _
  · cases h
    exact .noted hlive ⟨rfl, rfl, rfl, rfl, rfl⟩ rfl rfl rfl rfl

/-- **What a change can do.** -/
lemma JobChange.effect (h : c.rewrite cfg rows busy j = .ok (some j')) :
    c.Effect cfg rows j j' := by
  cases c with
  | event e now => exact .of_event h
  | report status received now => exact .of_status h
  | retrieve final => exact .of_retrieve h
  | retire work now =>
    simp only [rewrite] at h
    split at h
    · cases h
    rename_i hlive
    cases h
    exact .failedWith (by simpa using mt .inl hlive) _ _ _
  | fence | lose =>
    simp only [rewrite] at h
    split at h
    · cases h
    · cases h
      exact .outcomeUnknown _
  | finalize now =>
    simp only [rewrite] at h
    split at h
    · cases h
    rename_i hlive
    cases h
    exact .cancellationDone (by simpa using mt .inl hlive) _ _
  | acknowledge acknowledged now => exact .of_acknowledge h
  | transportFailed | fail =>
    simp only [rewrite] at h
    split at h
    · cases h
    rename_i hlive
    cases h
    exact .failedWith (by simpa using hlive) _ _ _
  | forget =>
    simp only [rewrite] at h
    split at h
    · cases h
      exact .outcomeUnknown _
    · cases h
  | giveUp =>
    cases h
    exact .outcomeUnknown _
  | submissionFailed message timedOut now =>
    simp only [rewrite] at h
    split at h
    · cases h
    rename_i hlive
    cases h
    exact .of_end (by simpa using mt .inl hlive) ⟨rfl, rfl, rfl, rfl, rfl⟩ rfl rfl rfl
      (by cases timedOut <;> rfl)
  | unscheduled now =>
    simp only [rewrite] at h
    split at h
    · cases h
    rename_i hopen
    have hlive := live_of_isOpen (by simpa using hopen)
    split at h
    · cases h
      exact .cancellationDone hlive _ _
    · cases h
      exact .failedWith hlive _ _ _
  | requestCancel target reason =>
    simp only [rewrite] at h
    split at h
    · cases h
    rename_i hlive
    cases h
    exact .noted (by simpa using hlive) ⟨rfl, rfl, rfl, rfl, rfl⟩ rfl rfl rfl rfl
  | endCancel target acknowledged error now => exact .of_endCancel h
  | toolCalls reservations calls =>
    cases h
    exact .of_plain ⟨rfl, rfl, rfl, rfl, rfl⟩ rfl rfl rfl (.inl rfl)
      fun _ _ => ⟨rfl, rfl, rfl, rfl, rfl, rfl⟩

lemma JobRecord.rewrites_recorded {x : WorkerSubmission} {y : Bool}
    (hx : x.externalJobId ≠ "") (h : j.recorded cfg rows x now = .ok (some (j', y))) :
    Rewrites cfg rows (some x.usage) (some x.state) j j' ∧ j'.externalJobId = x.externalJobId := by
  unfold recorded at h
  split at h
  · cases h
  rename_i hlive
  obtain ⟨j₁, hj₁, h⟩ := bind_eq_ok.mp h
  have hconcluded := (Concluded.of_charged cfg rows (fun _ => .job) j₁).stampedEnd now
  rw [(Prod.mk.inj (some.inj (pure_eq_ok.mp h))).1] at hconcluded
  obtain ⟨_, rfl⟩ := continued_eq_ok hj₁
  refine ⟨.of_report hconcluded (by simpa using hlive) ⟨rfl, rfl, rfl, rfl, rfl⟩ rfl (fun hopen => ?_)
    (.inr rfl) (.inr ⟨x.usage, rfl, rfl⟩), hconcluded.ext⟩
  simp [isOpen, hx] at hopen

end Effects

end Laso
