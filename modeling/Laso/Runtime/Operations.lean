import Mathlib.Data.List.Sort
import Laso.Runtime.Requests

/-!
# The operations of the runtime

The functions of `runtime.cpp` that read and write runs, as code over the calls of `Req`. Each of
them holds the process-wide mutex from its first call to its last (the claim loop apart, which
takes it for short stretches). What the mutex is worth depends on the deployment: with one process
it makes an operation one step, with several processes sharing the store it orders nothing between
them, and every single call is a step.

Code whose variable is a `Run` is a C++ function that takes the run by reference: when it throws,
the caller's run keeps what was assigned to it before.
-/

namespace Laso

/-- Code of the runtime with a variable of type `σ`. -/
abbrev Op (σ : Type) := Code reqSig Exn σ

namespace Op

variable {σ α : Type}

def ask (q : Req) : Op σ q.Resp := Code.call (S := reqSig) q

def uuid : Op σ String := ask .uuid

/-- Continue with a value read from the store, or throw the error of the read. -/
def orThrow : Except Error α → Op σ α
  | .ok a => pure a
  | .error e => throw (.error e)

lemma keeps_orThrow {G : Type} {W : Watch reqSig G} {I : G → σ → Prop} (x : Except Error α) :
    W.Keeps I (orThrow x : Op σ α) := by
  cases x with
  | ok a => exact W.keeps_pure a
  | error e => exact W.keeps_throw _

/-- Throw an `Error`. -/
def fail (code : ErrorCode) (message : String) : Op σ α := throw (Exn.of code message)

/-- `storage.get` of a run. -/
def getRun (id : String) : Op σ Run := do orThrow (← ask (.getRun id))

/-- `storage.get` of a run that is only looked at. -/
def peekRun (id : String) : Op σ Run := do orThrow (← ask (.peekRun id))

end Op

open Op

/-! ## Checkpoints -/

/-- The node an event is about: that of the last attempt among its records, if there is one. -/
def eventNode (r : Run) (records : List Record) : String :=
  records.foldl (fun node record => match record with
    | .attempt a => a.nodeId
    | _ => node) r.activeNode

def checkpointEvent (r : Run) (type : String) (records : List Record) : Event where
  runId := r.id
  pipelineId := r.pipelineId
  nodeId := eventNode r records
  type := if r.state = .cancelled ∧ type = "run.completed" then "run.cancelled" else type
  state := r.state

variable (cfg : Config)

/-- The commit of a checkpoint: the completion of a session run settles its turn, an owned run is
written under its lease, any other without a check. -/
def commitRun (r : Run) (records : List Record) : Op Run (Except Error Nat) :=
  if r.sessionId ≠ "" ∧ terminal r.state then
    ask (.commitSessionRun records r.ownerInstanceId r.fencingToken)
  else if cfg.coordination ∧ r.ownerInstanceId ≠ "" then
    ask (.commitOwned records ("run:" ++ r.id) r.ownerInstanceId r.fencingToken)
  else
    ask (.commit records)

/-- A checkpoint begins by merging the stored cancellation flag into the copy. -/
def mergeCancellation : Op Run Unit := do
  let r ← get
  match ← ask (.readCancellation r.id) with
  | .ok flag => set { r with cancellationRequested := r.cancellationRequested || flag }
  | .error e => if e.code = .notFound then pure () else throw (.error e)

/-- A checkpoint ends with the outcome of its commit: a conflict means that the lease is lost. -/
def concludeCommit (result : Except Error Nat) : Op Run Unit := do
  let r ← get
  match result with
  | .ok version => set { r with version := version }
  | .error e =>
    if cfg.coordination ∧ e.code = .conflict then ask (.loseOwnership r.id) else pure ()
    throw (.error e)

/-- `checkpoint`: merge the stored cancellation flag, then write the run with the records and an
event in one commit. -/
def checkpoint (type : String) (records : List Record := []) : Op Run Unit := do
  mergeCancellation
  let r ← get
  let result ← commitRun cfg r (records ++ [.run r, .event (checkpointEvent r type records)])
  concludeCommit cfg result

/-- `transition`: the new state is assigned before the checkpoint that may fail. -/
def transition (state : RunState) (type : String) (records : List Record := []) :
    Op Run Unit := do
  let r ← get
  if validTransition r.state state then
    set { r with state := state }
    checkpoint cfg type records
  else
    fail .execution "Invalid run state transition"

def onRun {σ α : Type} (r : Run) (x : Op Run α) : Op σ Run := do
  let (_, r) ← Code.localVar r x
  return r

/-! ## Creating and scheduling runs -/

/-- `schedule`. -/
def schedule {σ : Type} (r : Run) (lease : Option LeaseRecord) : Op σ Unit := do
  orThrow (← ask (.schedule r lease))

variable {σ : Type} (cfg : Config)

/-- A single owner starts a queued run itself; with several instances the run waits to be claimed. -/
def startLocally (r : Run) : Op σ Unit :=
  if cfg.coordination = false then schedule r none else pure ()

/-- What `run` is called with. -/
structure RunRequest where
  pipeline : PipelineDefinition
  resolved : List (String × String) := []
  input : Json := .obj []
  metadata : Json := .obj []
  actor : String := "local"
  parentId : String := ""
  parentNodeId : String := ""
  parentMessageId : String := ""
  depth : Nat := 0
  initiationType : String := "manual"
  sessionId : String := ""
  sessionTurnId : String := ""

def admitMode {σ : Type} (q : RunRequest) (p : Proc) : Op σ Unit :=
  let parent := if q.parentId = "" then none else p.active.get q.parentId
  if p.mode = .active then pure ()
  else if p.mode ≠ .draining ∨ parent.elim true ActiveRun.ownershipLost then
    fail .unavailable "Instance is not accepting new work"
  else if cfg.coordination then
    match parent.bind ActiveRun.lease with
    | none => fail .conflict "Owned continuation has no current lease"
    | some lease => do orThrow (← ask (.requireCurrent lease))
  else pure ()

/-- A single owner bounds the runs it executes, several instances the runs that are queued. -/
def admitCapacity {σ : Type} (p : Proc) : Op σ Unit :=
  if p.stopping ∨ (cfg.coordination = false ∧ cfg.maxRuns ≤ p.active.rows.length) then
    fail .capacity "Concurrent run limit reached"
  else if cfg.coordination then do
    let runs ← orThrow (← ask .listRuns)
    if cfg.maxPendingRuns ≤ runs.countP (fun r => r.state = .queued) then
      fail .capacity "Distributed run queue is full"
    else pure ()
  else pure ()

/-- The admission checks of `run`. -/
def admitRun {σ : Type} (q : RunRequest) : Op σ Unit := do
  let p ← ask .process
  admitMode cfg q p
  admitCapacity cfg p

def newRun (q : RunRequest) (checked : PipelineDefinition) (id messageId : String) : Run where
  id := id
  pipelineId := checked.name
  pipelineVersion := checked.version
  definition := checked.source
  resolvedSubpipelines := q.resolved
  actor := q.actor
  parentId := q.parentId
  parentNodeId := q.parentNodeId
  parentMessageId := q.parentMessageId
  subpipelineDepth := q.depth
  initiationType := q.initiationType
  sessionId := q.sessionId
  sessionTurnId := q.sessionTurnId
  message :=
    { id := messageId
      runId := id
      pipelineId := checked.name
      nodeId := "input"
      payload := q.input
      metadata := q.metadata
      provenance := if q.parentMessageId = "" then []
        else [{ node := q.parentNodeId, parentMessage := q.parentMessageId }] }

/-- Store a new run; that of a session turn is bound to the turn in the same transaction. -/
def createRun (r : Run) : Op σ Run :=
  if r.sessionId = "" then onRun r (checkpoint cfg "run.created")
  else do
    match ← orThrow (← ask (.bindSessionTurnRun r)) with
    | some version => pure { r with version := version }
    | none => fail .conflict "Session run is already bound"

/-- `run`: create a queued run and, with a single owner, start executing it. -/
def run (q : RunRequest) : Op σ String := do
  admitRun cfg q
  Code.ofExcept (← ask (.external .admission))
  let checked ← Code.ofExcept (cfg.parse q.pipeline.source)
  if cfg.maxSubpipelineDepth < q.depth then
    fail .execution "Subpipeline nesting limit exceeded"
  else pure ()
  Code.ofExcept (← ask (.external (.schema checked.inputSchema q.input)))
  let id ← uuid
  let messageId ← uuid
  let r ← createRun cfg (newRun q checked id messageId)
  startLocally cfg r
  return id

/-! ## Approvals -/

/-- `approved`, on the run's approvals: one of them approves the current visit of its node. -/
def approvedIn (r : Run) (approvals : List Approval) : Bool :=
  approvals.any fun a =>
    a.nodeId = r.activeNode ∧ a.visit = r.visits r.activeNode ∧ a.decision = .approved

/-- `approved`. -/
def approved {σ : Type} (r : Run) : Op σ Bool := do
  let approvals ← orThrow (← ask (.listApprovals r.id))
  return approvedIn r approvals

/-- `wait_approval`: ask for a decision and park the run, in one commit. -/
def waitApproval (n : NodeDefinition) (reason : String) : Op Run Unit := do
  let r ← get
  let id ← uuid
  let attemptId ← uuid
  transition cfg .waitingApproval "approval.requested"
    [.approval { id, runId := r.id, nodeId := n.id, reason, action := n.type ++ ":" ++ n.binding,
                 visit := r.visits n.id },
     .attempt { id := attemptId, runId := r.id, nodeId := n.id, state := .waitingApproval }]

/-! ## Resuming -/

/-- A run that waits for an approval resumes only when it has been given. -/
def resumeReady {σ : Type} (r : Run) : Op σ Bool :=
  if r.state = .waitingApproval then approved r else pure true

def requeue (r : Run) : Op σ Run :=
  if r.state ≠ .queued then onRun r (transition cfg .queued "run.resumed") else pure r

/-- `resume`. -/
def resume {σ : Type} (cfg : Config) (id : String) : Op σ Unit := do
  let p ← ask .process
  if p.mode ≠ .active then fail .unavailable "Instance is not accepting new work" else pure ()
  let r ← getRun id
  let p ← ask .process
  if (p.active.get id).isSome then
    fail .conflict "Run is still leaving its checkpoint; retry shortly"
  else if r.state.parked = false then fail .conflict "Run cannot resume from this state"
  else pure ()
  let ready ← resumeReady r
  if ready = false then fail .policy "Approval is pending"
  else if r.cancellationRequested then
    fail .conflict "Run cancellation has already been requested"
  else if p.stopping ∨ (cfg.coordination = false ∧ cfg.maxRuns ≤ p.active.rows.length) then
    fail .capacity "Concurrent run limit reached"
  else pure ()
  let r ← requeue cfg r
  startLocally cfg r

/-- `finish_parent`: a paused parent continues when its child is over. With several instances the
parent is written back as it was read, without a lease. -/
def finishParent (child : Run) : Op σ Unit := do
  let p ← ask .process
  if child.parentId = "" ∨ terminal child.state = false ∨ p.stopping then pure ()
  else
    let parent ← getRun child.parentId
    let p ← ask .process
    if parent.state = .paused ∧ (p.active.get parent.id).isNone then
      if cfg.coordination then
        let _ ← orThrow (← ask (.commit [.run { parent with state := .queued }]))
      else resume cfg parent.id
    else pure ()

/-! ## Deciding -/

/-- The attempts that wait for this decision, with the decision applied. -/
def settleAttempts (a : Approval) (approve : Bool) (attempts : List NodeExecution) : List Record :=
  (attempts.filter fun x => x.nodeId = a.nodeId ∧ x.state = .waitingApproval).map fun x =>
    .attempt { x with state := if approve then .completed else .failed }

/-- With several instances the run of a decided approval gives up its owner, so that the decision
does not need the executor's lease and any instance can claim the run afterwards. -/
def disown (r : Run) : Run :=
  if cfg.coordination then { r with toOwnership := {} } else r

/-- The end of `decide`: the decision is written with the run, which continues or fails. -/
def applyDecision (approve : Bool) (r : Run) (records : List Record) :
    Op σ Unit := do
  if approve then
    let r ← onRun r (transition cfg .queued "approval.approved" records)
    startLocally cfg r
  else
    let r ← onRun { r with error := "Human approval rejected" }
      (transition cfg .failed "approval.rejected" records)
    finishParent cfg r

variable (id : String)

/-- `decide`. -/
def decideApproval (approve : Bool)
    (actor comment : String) : Op σ Unit := do
  if 128 < actor.utf8ByteSize ∨ 2048 < comment.utf8ByteSize then
    fail .validation "Approval annotation exceeds limit"
  else pure ()
  let a ← orThrow (← ask (.getApproval id))
  let r ← getRun a.runId
  if a.decision ≠ .pending ∨ r.state ≠ .waitingApproval ∨ r.activeNode ≠ a.nodeId then
    fail .conflict "Approval is no longer pending"
  else pure ()
  let p ← ask .process
  if (p.active.get r.id).isSome then
    fail .conflict "Approval checkpoint is settling; retry shortly"
  else if approve ∧
      (p.stopping ∨ (cfg.coordination = false ∧ cfg.maxRuns ≤ p.active.rows.length)) then
    fail .capacity "Concurrent run limit reached"
  else pure ()
  let attempts ← orThrow (← ask (.listAttempts r.id))
  applyDecision cfg approve (disown cfg r) (.approval { a with
        decision := if approve then .approved else .rejected, actor := actor, comment := comment }
      :: settleAttempts a approve attempts)

/-! ## Cancelling -/

/-- The children of a run as `std::set` orders them: the child its cursor waits for and every run
that names it as its parent. -/
def childIds (r : Run) (runs : List Run) : List String :=
  (((if r.childId = "" then [] else [r.childId]) ++
    (runs.filter fun c => c.parentId = r.id).map fun c => c.id).dedup).insertionSort (· ≤ ·)

/-- Cancel the branches of a distributed group that have not started and stop those that run in
this process. -/
def cancelNodeWork {σ : Type} : List NodeWork → Op σ Unit
  | [] => pure ()
  | work :: rest => do
    if work.state = .queued then
      let _ ← orThrow (← ask (.commit [.nodeWork
        { work with state := .cancelled, error := "Parent run cancellation requested" }]))
    else if work.state = .running then ask (.requestNodeStop work.id)
    else pure ()
    cancelNodeWork rest

def releaseQuietly {σ : Type} (lease : LeaseRecord) : Op σ Unit := do
  match ← ask (.release lease) with
  | .ok _ => pure ()
  | .error _ => pure ()

/-- The end of `cancel_locked` with several instances: a run that executes here is told to stop; a
parked one is written back as cancelled from the copy read at the beginning. -/
def cancelParked {σ : Type} (r : Run) : Op σ Unit := do
  let p ← ask .process
  if (p.active.get r.id).isSome then
    ask (.requestStop r.id)
    if r.state.parked then
      let _ ← onRun r (transition cfg .cancelled "run.cancelled")
    else pure ()
  else if r.state.parked then
    let r := { r with cancellationRequested := true }
    if r.sessionId = "" then
      let _ ← orThrow (← ask (.commit [.run { r with state := .cancelled }]))
    else
      match ← orThrow (← ask (.acquire ("run:" ++ r.id))) with
      | none => pure ()
      | some lease =>
        let r := { r with
          ownerInstanceId := lease.ownerInstance, fencingToken := lease.fencingToken }
        tryCatch (do let _ ← onRun r (transition cfg .cancelled "run.cancelled")) (fun e => do
            releaseQuietly lease
            throw e)
        releaseQuietly lease
  else pure ()

/-- The loop of `cancel_locked` over the children that are not over. -/
def cancelChildren {σ : Type} (cancelOne : String → Op σ Unit) : List String → Op σ Unit
  | [] => pure ()
  | childId :: rest => do
    let child ← peekRun childId
    if terminal child.state then pure () else cancelOne child.id
    cancelChildren cancelOne rest

/-- `cancel_locked` with several instances: the request is recorded first, then passed on. -/
def cancelDistributed {σ : Type} (cancelOne : String → Op σ Unit) (r : Run) :
    Op σ Unit := do
  orThrow (← ask (.requestCancellation r.id))
  let works ← orThrow (← ask (.listNodeWork r.id))
  cancelNodeWork works
  let runs ← orThrow (← ask .listRuns)
  cancelChildren cancelOne (childIds r runs)
  cancelParked cfg r

def withdrawn (approvals : List Approval) : List Record :=
  (approvals.filter fun a => a.decision = .pending).map fun a =>
    .approval { a with decision := .cancelled }

/-- `cancel_locked` of a single owner: pending approvals are withdrawn with the request; a run that
executes is told to stop and ends itself, any other ends here. -/
def cancelLocal {σ : Type} (cancelOne : String → Op σ Unit) (r : Run) :
    Op σ Unit := do
  let approvals ← orThrow (← ask (.listApprovals r.id))
  let r ← onRun { r with cancellationRequested := true }
    (checkpoint cfg "run.cancellation_requested" (withdrawn approvals))
  let runs ← orThrow (← ask .listRuns)
  cancelChildren cancelOne (childIds r runs)
  let p ← ask .process
  if (p.active.get r.id).isSome then
    ask (.requestStop r.id)
    if r.state.parked then
      let _ ← onRun r (transition cfg .cancelled "run.cancelled")
    else pure ()
  else
    let _ ← onRun r (transition cfg .cancelled "run.cancelled")

/-- `cancel_locked`. The variable is the set of runs visited so far; `fuel` bounds the depth of the
recursion over children, which the source leaves to the call stack. -/
def cancelLocked (cfg : Config) : Nat → String → Op (List String) Unit
  | 0, _ => do
    let nothing ← ask .halt
    nomatch nothing
  | fuel + 1, id => do
    let visited ← get
    if id ∈ visited then fail .conflict "Run cancellation cycle detected" else pure ()
    set (id :: visited)
    let r ← getRun id
    if terminal r.state then fail .conflict "Run is already terminal"
    else if cfg.coordination then cancelDistributed cfg (cancelLocked cfg fuel) r
    else cancelLocal cfg (cancelLocked cfg fuel) r

/-- `cancel`. -/
def cancel (fuel : Nat) (id : String) : Op σ Unit := do
  let _ ← Code.localVar [] (cancelLocked cfg fuel id)

/-! ## Distributed parallel groups -/

/-- `distributed_parallel_ready`: the group the run waits for exists and none of its branches is
still to be done. -/
def distributedParallelReady {σ : Type} (r : Run) : Op σ Bool := do
  if r.pendingParallelGroup = "" then return false
  else
    let works ← orThrow (← ask (.listNodeWork r.id))
    let group := works.filter fun w => w.groupId = r.pendingParallelGroup
    return !group.isEmpty && group.all fun w => w.state.isTerminal

/-- The first branch of a group that did not deliver a result, as an error. -/
def missingResult (works : List NodeWork) : Option Exn :=
  (works.find? fun w => w.state ≠ .completed ∨ w.result.isNone).map fun w =>
    executionError (if w.error = "" then "Distributed parallel branch failed" else w.error)

/-- `reconcile_distributed_parallel`: collect the results of a finished group and move the run to
its join. -/
def reconcileDistributedParallel : Op Run Unit := do
  let r ← get
  if r.pendingParallelGroup = "" then pure ()
  else
    let all ← orThrow (← ask (.collectWork r.id))
    let works := (all.filter fun w => w.groupId = r.pendingParallelGroup).insertionSort
      (fun a b => a.index ≤ b.index)
    if works.isEmpty then throw (executionError "Distributed parallel work is missing") else pure ()
    match missingResult works with
    | some e => throw e
    | none => pure ()
    let results := works.filterMap NodeWork.result
    set { r with
      message := { r.message with
        payload := .arr (results.map Message.payload)
        provenance := r.message.provenance ++ results.flatMap Message.provenance }
      steps := (works.map NodeWork.steps).foldl max 0 }
    -- workspace manifests in the results are checked against their fences and stored files
    let r ← get
    Code.ofExcept (← ask (.external (.artifacts r.message)))
    set { r with
      frames := []
      activeNode := r.pendingParallelJoin
      preparedJoin := r.pendingParallelJoin
      pendingParallelGroup := ""
      pendingParallelJoin := "" }

/-! ## Sections of the executor -/

/-- The first section of `execute`. The executor adopts the stored record, whoever wrote it;
`false` means that there is nothing to execute. -/
def beginExecution (id : String) : Op Run Bool := do
  let current ← orThrow (← ask (.adoptRun id))
  if terminal current.state then return false
  else
    set current
    if current.cancellationRequested then
      transition cfg .cancelled "run.cancelled"
      return false
    else
      transition cfg .starting "run.starting"
      transition cfg .running "run.started"
      reconcileDistributedParallel
      return true

/-- The approval section of `execute`: a last look at the stop request before the run parks. -/
def parkForApproval (n : NodeDefinition) (reason : String) : Op Run Unit := do
  let r ← get
  Code.ofExcept (← ask (.check (.run r.id)))
  waitApproval cfg n reason

/-- The state of an attempt that ended with an exception. -/
def attemptState : Exn → NodeState
  | .error e =>
    match e.code with
    | .timeout => .timedOut
    | .cancellation => .cancelled
    | _ => .failed
  | .other => .failed

lemma attemptState_ne (e : Exn) : attemptState e ≠ .completed ∧ attemptState e ≠ .running := by
  cases e with
  | error e =>
    simp only [attemptState]
    split <;> simp
  | other => simp [attemptState]

def endState : Exn → RunState
  | .error e =>
    match e.code with
    | .timeout => .timedOut
    | .cancellation => .cancelled
    | _ => .failed
  | .other => .failed

def endEvent : Exn → String
  | .error e =>
    match e.code with
    | .timeout => "run.timed_out"
    | .cancellation => "run.cancelled"
    | _ => "run.failed"
  | .other => "run.failed"

def endMessage : Exn → String
  | .error e =>
    match e.code with
    | .timeout => "Execution deadline exceeded"
    | .cancellation => "Execution cancelled"
    | _ => "Pipeline execution failed"
  | .other => "Unexpected pipeline failure"

/-- An exception that no attempt has recorded gets one. -/
def recordFailure (e : Exn) : Op Run Unit := do
  let r ← get
  let id ← uuid
  checkpoint cfg "node.failed"
    [.attempt { id, runId := r.id, nodeId := r.activeNode, state := attemptState e,
                error := "Node preparation failed" }]

/-- A child the run was waiting for is cancelled with it. -/
def cancelOpenChild (fuel : Nat) : Op Run Unit := do
  let r ← get
  if r.childId ≠ "" then
    let child ← peekRun r.childId
    if terminal child.state then pure () else cancel cfg fuel child.id
  else pure ()

/-- The final transition of the error section. It is skipped when the state in memory is terminal
already, whether or not that state has been stored. -/
def endRun (e : Exn) : Op Run Unit := do
  modify fun r => { r with error := endMessage e }
  let r ← get
  if terminal r.state then pure ()
  else transition cfg (endState e) (endEvent e)

/-- The error section of `execute`. -/
def failExecution (fuel : Nat) (attemptRecorded : Bool) (e : Exn) :
    Op Run Unit := do
  if attemptRecorded = false then recordFailure cfg e else pure ()
  cancelOpenChild cfg fuel
  endRun cfg e

/-- A run whose executor ended with an exception has failed, unless it is over or parked. -/
def closeFailed (failed lost : Bool) (ended : Run) : Op σ Run :=
  if failed ∧ lost = false ∧ terminal ended.state = false ∧
      ended.state ≠ .waitingApproval ∧ ended.state ≠ .paused then
    onRun { ended with error := "Unhandled executor failure" } (transition cfg .failed "run.failed")
  else pure ended

/-- A run that paused for a child which is over by now continues at once. -/
def continueAfterChild (ended : Run) : Op σ Unit := do
  let p ← ask .process
  if ended.state = .paused ∧ ended.childId ≠ "" ∧ p.stopping = false then
    let child ← peekRun ended.childId
    if terminal child.state then resume cfg ended.id else pure ()
  else pure ()

/-- The lease of an executor is released after the completion handler has used it. -/
def releaseEntry (entry : Option ActiveRun) : Op σ Unit :=
  match entry.bind ActiveRun.lease with
  | some lease =>
    if cfg.coordination then do
      let _ ← orThrow (← ask (.release lease))
    else pure ()
  | none => pure ()

/-- The completion handler of `schedule`; `failed` says whether the executor ended with an
exception. Whatever it throws itself is logged and dropped. -/
def complete (failed : Bool) : Op σ Unit := do
  let p ← ask .process
  let entry := p.active.get id
  ask (.eraseActive id)
  tryCatch (do
      let ended ← getRun id
      let ended ← closeFailed cfg failed (entry.elim false ActiveRun.ownershipLost) ended
      finishParent cfg ended
      continueAfterChild cfg ended
      releaseEntry cfg entry)
    (fun _ => pure ())

/-! ## Claiming -/

/-- A paused run cannot be claimed while the branches or the child it waits for are running. -/
def stillWaiting {σ : Type} (r : Run) : Op σ Bool := do
  if r.state ≠ .paused then return false
  else if r.pendingParallelGroup ≠ "" then
    let ready ← distributedParallelReady r
    return !ready
  else if r.childId ≠ "" then
    let child ← peekRun r.childId
    return !terminal child.state
  else return false

/-- Runs that `claim_loop` leaves alone. -/
def notClaimable {σ : Type} (r : Run) : Op σ Bool :=
  if terminal r.state ∨ r.state = .waitingApproval then pure true else stillWaiting r

variable (lease : LeaseRecord)

def takeOver (r : Run) : Run :=
  { r with
    state := .queued
    ownerInstanceId := lease.ownerInstance
    fencingToken := lease.fencingToken }

/-- What `claim_loop` does with a run whose lease it holds: reread it, take it over from its last
checkpoint and execute it. -/
def claimOwned : Op σ Unit := do
  let r ← getRun id
  let skip ← notClaimable r
  if skip then
    let _ ← orThrow (← ask (.release lease))
  else
    let version ← orThrow (← ask (.commitOwned [.run (takeOver lease r)] lease.resourceKey
      lease.ownerInstance lease.fencingToken))
    let p ← ask .process
    if p.stopping ∨ cfg.maxRuns ≤ p.active.rows.length then
      let _ ← orThrow (← ask (.release lease))
    else
      -- the lease has been moved into the call: if it throws, there is none left to release
      tryCatch (schedule { takeOver lease r with version := version } (some lease))
        (fun _ => pure ())

/-- Try to claim one run; whatever goes wrong, the lease is given back. -/
def claimOne : Op σ Unit := do
  match ← ask (.acquire ("run:" ++ id)) with
  | .ok (some lease) => tryCatch (claimOwned cfg id lease) (fun _ => releaseQuietly lease)
  | _ => pure ()

/-- The loop of one pass of `claim_loop` over its candidates. -/
def claimEach {σ : Type} (cfg : Config) : List Run → Op σ Unit
  | [] => pure ()
  | r :: rest => do
    let p ← ask .process
    if p.mode ≠ .active then pure ()
    else
      let skip ← tryCatch (notClaimable r) (fun _ => pure true)
      if skip then claimEach cfg rest
      else
        let p ← ask .process
        if p.stopping ∨ cfg.maxRuns ≤ p.active.rows.length ∨
            (p.active.get r.id).isSome then
          pure ()
        else
          claimOne cfg r.id
          claimEach cfg rest

/-- One pass of `claim_loop` over queued and abandoned runs. -/
def claimPass : Op σ Unit := do
  let p ← ask .process
  if p.stopping ∨ cfg.maxRuns ≤ p.active.rows.length ∨ p.mode ≠ .active then pure ()
  else
    match ← ask .listRuns with
    | .ok runs => claimEach cfg (runs.take cfg.claimBatchSize)
    | .error _ => pure ()

/-! ## Claiming distributed work -/

/-- Whether `claim_loop` tries to claim the work: its run waits for this group and is not being
cancelled, or the work was left running by a run that has been. -/
def workClaimable {σ : Type} (work : NodeWork) : Op σ Bool := do
  let r ← peekRun work.runId
  let cleanup := r.cancellationRequested ∧ terminal r.state ∧ work.state = .running
  let able ← ask (.external (.canExecute work.requiredWorkerId work.requiredCapability))
  return decide ((cleanup ∨ able.isOk) ∧
    (cleanup ∨ (terminal r.state = false ∧ r.cancellationRequested = false)) ∧
    r.pendingParallelGroup = work.groupId)

def acquireFirst {σ : Type} : List String → Op σ (Option LeaseRecord)
  | [] => pure none
  | key :: rest => do
    match ← orThrow (← ask (.acquire key)) with
    | some lease => pure (some lease)
    | none => acquireFirst rest

def releaseAll {σ : Type} : List LeaseRecord → Op σ Unit
  | [] => pure ()
  | lease :: rest => do
    let _ ← orThrow (← ask (.release lease))
    releaseAll rest

/-- The attempt of an earlier claim that did not end is recorded as failed. -/
def expiredAttempt {σ : Type} (work : NodeWork) : Op σ (List Record) := do
  if work.state = .running ∧ work.attemptId ≠ "" then
    match ← ask (.getAttempt work.attemptId) with
    | .ok previous =>
      if previous.state = .running then
        return [.attempt { previous with
          state := .failed
          error := "Distributed node work lease expired before attempt completed" }]
      else return []
    | .error e => if e.code = .notFound then return [] else throw (.error e)
  else return []

/-- What `claim_loop` does with work whose lease and slots it holds. -/
def claimWorkOwned (slots : List LeaseRecord) : Op σ Unit := do
  let work ← orThrow (← ask (.getNodeWork id))
  if work.state.isTerminal then releaseAll (slots ++ [lease])
  else
    let expired ← expiredAttempt work
    let attemptId ← uuid
    let work := { work with
      state := .running, attempt := work.attempt + 1, attemptId
      ownerInstanceId := lease.ownerInstance, fencingToken := lease.fencingToken }
    let _ ← orThrow (← ask (.commitOwned (expired ++ [.nodeWork work]) ("node:" ++ work.id)
      lease.ownerInstance lease.fencingToken))
    let p ← ask .process
    if p.stopping ∨ cfg.maxNodes ≤ p.activeNodes.rows.length then
      releaseAll (slots ++ [lease])
    else orThrow (← ask (.scheduleWork work lease slots))

variable (work : NodeWork)

/-- Acquire the slots for work whose lease is held, then claim it. -/
def claimWorkSlots (lease : LeaseRecord) :
    Op σ Unit := do
  match ← acquireFirst ((List.range cfg.maxNodes).map fun i => "node-slot:" ++ toString i) with
  | none => releaseAll [lease]
  | some global =>
    tryCatch (do
        match ← acquireFirst ((List.range cfg.maxNodesPerRun).map fun i =>
            "run-node-slot:" ++ work.runId ++ ":" ++ toString i) with
        | none => releaseAll [global, lease]
        | some slot =>
          tryCatch (claimWorkOwned cfg work.id lease [slot, global]) (fun e => do
              releaseQuietly slot
              throw e))
      (fun e => do
        releaseQuietly global
        throw e)

/-- Try to claim one branch; whatever goes wrong, its leases are given back. -/
def claimWork : Op σ Unit := do
  match ← ask (.acquire ("node:" ++ work.id)) with
  | .ok (some lease) => tryCatch (claimWorkSlots cfg work lease) (fun _ => releaseQuietly lease)
  | _ => pure ()

/-- The loop of one pass of `claim_loop` over distributed work. -/
def claimEachWork {σ : Type} (cfg : Config) : List NodeWork → Op σ Unit
  | [] => pure ()
  | work :: rest => do
    let p ← ask .process
    if p.mode ≠ .active then pure ()
    else
      let claimable ← tryCatch (workClaimable work) (fun _ => pure false)
      if claimable = false then claimEachWork cfg rest
      else
        let p ← ask .process
        if p.stopping ∨ cfg.maxNodes ≤ p.activeNodes.rows.length ∨
            (p.activeNodes.get work.id).isSome then
          pure ()
        else
          claimWork cfg work
          claimEachWork cfg rest

/-- The part of `claim_loop` that claims distributed work. -/
def claimWorkPass : Op σ Unit := do
  match ← ask .scanNodeWork with
  | .ok works => claimEachWork cfg (works.take cfg.claimBatchSize)
  | .error _ => pure ()

/-! ## Supervising distributed work -/

/-- The attempt of a worker job that has ended without completing. -/
def reconciledAttempt (job : WorkerJob) (a : NodeExecution) : NodeExecution :=
  let state : NodeState := match job.state with
    | .cancelled => .cancelled
    | .timedOut => .timedOut
    | _ => .failed
  { a with
    state
    error := if job.error ≠ "" then job.error else match state with
      | .timedOut => "Worker job timed out"
      | .cancelled => "Worker job cancelled"
      | _ => "Worker job failed" }

/-- The work whose attempt has ended so: cancelled, back in the queue or failed. -/
def reconciledWork (r : Run) (a : NodeExecution) (retry : Bool) (work : NodeWork) : NodeWork :=
  if a.state = .cancelled ∨ r.cancellationRequested ∨ terminal r.state then
    { work with state := .cancelled, error := "Worker cancellation reconciled" }
  else if retry then
    { work with
      state := .queued, error := "Worker attempt reconciled for retry"
      ownerInstanceId := "", attemptId := "", fencingToken := 0 }
  else { work with state := .failed, error := a.error }

/-- The attempt of the work that has a worker job: the one named in the work or, if it names none,
the last one that is running. -/
def jobAttempt (attempts : List NodeExecution) : Option NodeExecution :=
  let candidates := attempts.filter fun a => a.nodeId = work.nodeId ∧ a.workerJobId ≠ ""
  match candidates.find? fun a => a.id = work.attemptId with
  | some a => some a
  | none =>
    if work.attemptId = "" then (candidates.filter fun a => a.state = .running).getLast? else none

def retriesWork {σ : Type} (r : Run) (a : NodeExecution) (work : NodeWork) :
    Op σ Bool :=
  match cfg.parse r.definition with
  | .error (.error _) => pure false
  | .error .other => throw .other
  | .ok p => pure (match p.nodes.get work.nodeId with
    | none => false
    | some n => decide (work.attempt < n.retry.maxAttempts ∧ a.state ≠ .cancelled ∧
        r.cancellationRequested = false ∧ terminal r.state = false))

/-- After a reconciling commit the entry of the work is dropped and its leases are released. -/
def dropActiveNode {σ : Type} (id : String) (lease : LeaseRecord) : Op σ Unit := do
  let p ← ask .process
  match p.activeNodes.get id with
  | none => pure ()
  | some active =>
    ask (.requestNodeStop id)
    ask (.eraseActiveNode id)
    releaseEach (active.slots ++ [active.workLease])
  releaseQuietly lease
where
  /-- Release some leases, ignoring errors. -/
  releaseEach {σ : Type} : List LeaseRecord → Op σ Unit
    | [] => pure ()
    | lease :: rest => do
      releaseQuietly lease
      releaseEach rest

/-- The second try of a reconciling commit, under a lease of its own. -/
def reconcileAgain {σ : Type} (r : Run) (a : NodeExecution) (retry : Bool)
    (observed : NodeWork) : Op σ Unit := do
  let p ← ask .process
  if p.mode ≠ .active then pure ()
  else
    match ← orThrow (← ask (.acquire ("node:" ++ observed.id))) with
    | none => pure ()
    | some lease =>
      tryCatch (do
          let current ← orThrow (← ask (.getNodeWork observed.id))
          if current.state ≠ .running ∨ current.attemptId ≠ observed.attemptId then
            let _ ← orThrow (← ask (.release lease))
          else
            let _ ← orThrow (← ask (.commitOwned
              [.attempt a, .nodeWork (reconciledWork r a retry current)] ("node:" ++ current.id)
              lease.ownerInstance lease.fencingToken))
            dropActiveNode current.id lease)
        (fun _ => releaseQuietly lease)

/-- Write the attempt and the work whose worker job has ended, under the lease the work was claimed
with or, if that is not valid any more, under a new one. -/
def reconcileCommit {σ : Type} (r : Run) (job : WorkerJob) (a : NodeExecution)
    (current : NodeWork) (lease : LeaseRecord) : Op σ Unit := do
  let a := reconciledAttempt job a
  let retry ← retriesWork cfg r a current
  match ← ask (.commitOwned [.attempt a, .nodeWork (reconciledWork r a retry current)]
      ("node:" ++ current.id) lease.ownerInstance lease.fencingToken) with
  | .ok _ => dropActiveNode current.id lease
  | .error e => if e.code ≠ .conflict then pure () else reconcileAgain r a retry current

/-- `reconcile_terminal_worker`: distributed work that nobody here executes any more, and whose
worker job has ended without completing. -/
def reconcileTerminalWorker {σ : Type} (observed : NodeWork) (lease : LeaseRecord) :
    Op σ Unit := do
  if cfg.components.workersAvailable = false ∨ observed.state ≠ .running then pure ()
  else
    let r ← peekRun observed.runId
    let attempts ← orThrow (← ask (.listAttempts observed.runId))
    match jobAttempt observed attempts with
    | none => pure ()
    | some a =>
      let job ← orThrow (← ask (.workerJob a.workerJobId))
      if job.state.isTerminal = false ∨ job.state = .completed then pure ()
      else
        let current ← orThrow (← ask (.getNodeWork observed.id))
        if current.state ≠ .running ∨ current.attemptId ≠ observed.attemptId then pure ()
        else
          let p ← ask .process
          if (p.activeNodes.get current.id).isSome then pure ()
          else reconcileCommit cfg r job a current lease

/-- Tell work to stop whose run has been cancelled or is over. -/
def stopWork {σ : Type} (id : String) : Op σ Unit := do
  let work ← orThrow (← ask (.getNodeWork id))
  let r ← peekRun work.runId
  if r.cancellationRequested ∨ terminal r.state then ask (.requestNodeStop id)
  else pure ()

/-- `catch (const Error &)` that goes on. -/
def ignoreError {σ : Type} : Exn → Op σ Unit
  | .error _ => pure ()
  | .other => throw .other

/-- The part of `lease_loop` that looks after distributed work, for the entries of `active_nodes_`
at its beginning. -/
def superviseEach (cfg : Config) {σ : Type} : List ActiveNode → Op σ Unit
  | [] => pure ()
  | node :: rest => do
    tryCatch (do
        let observed ← orThrow (← ask (.getNodeWork node.id))
        reconcileTerminalWorker cfg observed node.workLease)
      ignoreError
    tryCatch (stopWork node.id) ignoreError
    superviseEach cfg rest

/-- One round of `lease_loop` over distributed work; renewals are steps of the machine. -/
def supervise {σ : Type} : Op σ Unit := do
  let p ← ask .process
  if p.stopping then pure () else superviseEach cfg p.activeNodes.rows

/-! ## Recovery of a single owner -/

def interruptedAttempts (attempts : List NodeExecution) : List Record :=
  (attempts.filter fun a => a.state = .running).map fun a =>
    .attempt { a with state := .failed, error := "Interrupted by process termination" }

/-- A run the restart interrupted waits for an explicit resume. -/
def interrupt (r : Run) : Run :=
  { r with
    state := .paused
    error := "Process stopped during execution; explicit resume may replay the unfinished node" }

/-- One run of `recover_history`. -/
def recoverRun {σ : Type} (r : Run) : Op σ Unit := do
  if terminal r.state then pure ()
  else if r.cancellationRequested then
    let r := { r with state := .cancelled }
    let _ ← orThrow (← ask (.commit [.run r, .event (checkpointEvent r "run.cancelled" [])]))
  else if r.state.parked then pure ()
  else
    let attempts ← orThrow (← ask (.listAttempts r.id))
    let _ ← orThrow (← ask (.commit ([.run (interrupt r),
      .event (checkpointEvent (interrupt r) "run.recovery_required" [])] ++
        interruptedAttempts attempts)))

/-- The loop of `recover_history`. -/
def recoverEach {σ : Type} : List Run → Op σ Unit
  | [] => pure ()
  | r :: rest => do
    recoverRun r
    recoverEach rest

/-- `recover_history`, at the start of a process that is the only owner of its store. -/
def recoverHistory : Op σ Unit := do
  if cfg.coordination then pure ()
  else
    let runs ← orThrow (← ask .scanRuns)
    recoverEach runs

end Laso
