import Laso.Runtime.Operations

/-!
# The executor

`execute` and the functions of `execution.cpp` around it. Between the sections that take the
runtime's mutex an executor works on its private copy of the run, so its code is written over the
calls of `Call`: whole sections, and single unprotected calls (`Call.direct`). `Call.expand` gives
the code of a section; what is a step of the system, a section or each call inside it, is decided
by the machine that runs the executor.

* `execute` is the main loop over nodes: preparation, approval gate, attempts with retries,
  subpipelines, routing and the error path.
* `executeParallel` hands the branches of a parallel node to other instances or runs them here;
  `executeBranch` is the loop of one branch.

Loops without a bound in the source take `fuel`; when it is used up the coroutine does nothing
more (`Req.halt` is never answered), so that every finite behaviour of the source is a behaviour of
the model for some fuel.
-/

namespace Laso

open Code

inductive Call where
  | direct (q : Req)
  | begin (r : Run)
  | checkpoint (r : Run) (type : String) (records : List Record)
  | transition (r : Run) (state : RunState) (type : String) (records : List Record)
  | park (r : Run) (n : NodeDefinition) (reason : String)
  | fail (r : Run) (fuel : Nat) (attemptRecorded : Bool) (e : Exn)
  | run (q : RunRequest)
  | complete (id : String) (failed : Bool)

/-- The type of the answer to a call: sections that work on a run return it as they leave it. -/
def Call.Resp : Call → Type
  | .direct q => q.Resp
  | .begin _ => Except Exn Bool × Run
  | .checkpoint _ _ _ => Except Exn Unit × Run
  | .transition _ _ _ _ => Except Exn Unit × Run
  | .park _ _ _ => Except Exn Unit × Run
  | .fail _ _ _ _ => Except Exn Unit × Run
  | .run _ => Except Exn String × Unit
  | .complete _ _ => Except Exn Unit × Unit

def callSig : Sig := ⟨Call, Call.Resp⟩

variable (cfg : Config)

def Call.expand : (c : Call) → Prog reqSig c.Resp
  | .direct q => Prog.req (S := reqSig) q
  | .begin r => (beginExecution cfg r.id).prog r
  | .checkpoint r type records => (Laso.checkpoint cfg type records).prog r
  | .transition r state type records => (Laso.transition cfg state type records).prog r
  | .park r n reason => (parkForApproval cfg n reason).prog r
  | .fail r fuel attemptRecorded e => (failExecution cfg fuel attemptRecorded e).prog r
  | .run q => (Laso.run cfg q).prog ()
  | .complete id failed => (Laso.complete cfg id failed).prog ()

/-- Code of an executor with variables `σ`. -/
abbrev Exec (σ : Type) := Code callSig Exn σ

/-- The variables of `execute`. -/
structure Frame where
  r : Run
  attemptRecorded : Bool := false
  attempt : NodeExecution := { id := "" }

namespace Exec

variable {σ α : Type}

def direct (q : Req) : Exec σ q.Resp := call (S := callSig) (.direct q)

def uuid : Exec σ String := direct .uuid

def try_ (x : Except Exn α) : Exec σ α := Code.ofExcept x

/-- Continue with a value read from the store, or throw the error of the read. -/
def fetch (x : Except Error α) : Exec σ α :=
  match x with
  | .ok a => pure a
  | .error e => throw (.error e)

/-- Throw an `Error`. -/
def fail (code : ErrorCode) (message : String) : Exec σ α := throw (Exn.of code message)

def modifyRun (f : Run → Run) : Exec Frame Unit := modify fun v => { v with r := f v.r }

/-- Take over the outcome of a function on the run: its exception and the run it left. -/
def onOutcome (x : Except Exn α × Run) : Exec Frame α := do
  modify fun v => { v with r := x.2 }
  try_ x.1

/-- `checkpoint` of the private copy. -/
def checkpointRun (type : String) (records : List Record := []) : Exec Frame Unit := do
  let v ← get
  onOutcome (← call (S := callSig) (.checkpoint v.r type records))

/-- `transition` of the private copy. -/
def transitionRun (state : RunState) (type : String) (records : List Record := []) :
    Exec Frame Unit := do
  let v ← get
  onOutcome (← call (S := callSig) (.transition v.r state type records))

/-- `context.check()`. -/
def check : Exec Frame Unit := do
  let v ← get
  try_ (← direct (.check (.run v.r.id)))

def halt : Exec σ α := do
  let nothing ← direct .halt
  nomatch nothing

/-- `pipeline.nodes.at`. -/
def nodeAt (p : PipelineDefinition) (id : String) : Exec σ NodeDefinition :=
  match p.nodes.get id with
  | some n => pure n
  | none => throw .other

end Exec

open Exec

/-! ## Preparing a node -/

def labelNode (n : NodeDefinition) : Exec Frame Unit := do
  modifyRun fun r => { r with provider := "", model := "", tool := "", plugin := "" }
  if n.type = "agent" then
    match cfg.components.models n.binding with
    | some binding =>
      modifyRun fun r => { r with provider := binding.provider, model := binding.model }
    | none => pure ()
  else if n.type = "tool" then
    modifyRun fun r => { r with tool := n.binding }
    let m ← try_ (registered (cfg.components.tools n.binding))
    modifyRun fun r => { r with plugin := m.plugin }
  else if n.type = "worker" ∧ cfg.components.workersAvailable then
    let worker ← try_ (← direct (.resolveWorker n))
    modifyRun fun r => { r with worker := worker.1 }
  else pure ()

def reachNode (n : NodeDefinition) : Exec Frame JoinStep := do
  let v ← get
  let step ← onOutcome (prepareJoin n v.r)
  match step with
  | .ready => return .ready
  | .waiting =>
    checkpointRun "join.waiting"
    return .waiting

/-- The approval gate. `false` means that the run has been parked. -/
def approvalGate (n : NodeDefinition) : Exec Frame Bool := do
  let v ← get
  let policy ← try_ (← direct (.permission n v.r))
  if policy.decision = .deny then fail .policy "Operation denied by policy" else pure ()
  if n.type = "approval" ∨ policy.decision = .requireApproval then
    let approvals ← fetch (← direct (.listApprovals v.r.id))
    if approvedIn v.r approvals then return true
    else
      onOutcome (← call (S := callSig) (.park v.r n
        (if n.type = "approval" then n.reason else policy.reason)))
      return false
  else return true

/-! ## Node bodies -/

inductive Body where
  | done (result : NodeResult)
  | parked

def linkChild (id pipelineId : String) (version : Nat) : Exec Frame Unit :=
  modify fun v => { v with attempt := { v.attempt with
    childRunId := id, childPipelineId := pipelineId, childPipelineVersion := version } }

/-- Park a parent that waits for its child: record the waiting attempt, then pause. Unlike the
approval gate this takes no look at the stop request inside the section. -/
def pauseForChild : Exec Frame Body := do
  modify fun v => { v with attempt := { v.attempt with state := .waitingApproval } }
  let v ← get
  checkpointRun "subpipeline.waiting" [.attempt v.attempt]
  transitionRun .paused "subpipeline.waiting"
  return .parked

/-- With a single owner the parent polls its child until it is over or parked itself. -/
def awaitChild : Nat → Exec Frame Body
  | 0 => halt
  | fuel + 1 => do
    check
    let v ← get
    let child ← fetch (← direct (.peekRun v.r.childId))
    if terminal child.state then
      if child.state ≠ .completed then
        fail .execution "Subpipeline did not complete successfully"
      else return .done { message := child.message }
    else if child.state = .waitingApproval ∨ child.state = .paused then pauseForChild
    else
      check
      awaitChild fuel

def startChild (resolved : List (String × String)) (n : NodeDefinition) :
    Exec Frame Unit := do
  let v ← get
  if cfg.maxSubpipelineDepth ≤ v.r.subpipelineDepth then
    fail .execution "Subpipeline nesting limit exceeded"
  else pure ()
  let child ← try_ (← direct (.resolvePipeline v.r n ((resolved.lookup n.id).getD n.binding)))
  let (created, _) ← call (S := callSig) (.run
    { pipeline := child, input := v.r.message.payload, actor := v.r.actor, parentId := v.r.id
      parentNodeId := n.id, parentMessageId := v.r.message.id
      depth := v.r.subpipelineDepth + 1, initiationType := v.r.initiationType })
  let id ← try_ created
  modifyRun fun r => { r with
    childId := id, childPipelineId := child.name, childPipelineVersion := child.version
    childRuns := r.childRuns ++ [id] }
  linkChild id child.name child.version
  let v ← get
  checkpointRun "subpipeline.started" [.attempt v.attempt]

def currentChild : Exec Frame (Option Run) := do
  let v ← get
  if v.r.childId = "" then return none
  else
    let child ← fetch (← direct (.peekRun v.r.childId))
    return some child

/-- Continue with the child recorded in the cursor, or create one; a child that ended without
completing is replaced. A child that has completed gives the result. -/
def prepareChild (resolved : List (String × String)) (n : NodeDefinition) :
    Exec Frame (Option NodeResult) := do
  match ← currentChild with
  | none =>
    startChild cfg resolved n
    return none
  | some child =>
    if child.state = .completed then
      linkChild child.id child.pipelineId child.pipelineVersion
      return some { message := child.message }
    else if terminal child.state then
      modifyRun fun r => { r with childId := "" }
      startChild cfg resolved n
      return none
    else
      linkChild child.id child.pipelineId child.pipelineVersion
      return none

variable (fuel : Nat)

/-- The body of a subpipeline node: with several instances the parent pauses and is claimed again
when the child is over. -/
def subpipelineBody (resolved : List (String × String))
    (n : NodeDefinition) : Exec Frame Body := do
  let v ← get
  try_ (← direct (.external (.schema n.inputSchema v.r.message.payload)))
  match ← prepareChild cfg resolved n with
  | some result => return .done result
  | none => if cfg.coordination then pauseForChild else awaitChild fuel

/-- The body of any other node, under the concurrency limits of nodes. -/
def nodeBody (n : NodeDefinition) (number : Nat) : Exec Frame Body := do
  check
  check
  let v ← get
  try_ (← direct (.external (.schema n.inputSchema v.r.message.payload)))
  let result ← try_ (← direct (.nodeExecute v.r n number))
  return .done result

variable (p : PipelineDefinition)

def checkBody (n : NodeDefinition) : Body → Exec Frame Body
  | .parked => return .parked
  | .done result => do
    check
    try_ (← direct (.external (.schema n.outputSchema result.message.payload)))
    if n.type = "output" then
      try_ (← direct (.external (.schema p.outputSchema result.message.payload)))
    else pure ()
    return .done result

variable (cfg : Config) (fuel : Nat) (p : PipelineDefinition) (resolved : List (String × String))

/-- The body of an attempt with the checks on its result. -/
def attemptBody (n : NodeDefinition) (number : Nat) : Exec Frame Body := do
  let body ← if n.type = "subpipeline" then subpipelineBody cfg fuel resolved n
    else nodeBody n number
  checkBody p n body

/-! ## Parallel groups -/

/-- The targets of a node's edges, the last edge first. -/
def successors (id : String) : List String :=
  ((p.edges.filter fun e => e.fromNode = id).map fun e => e.toNode).reverse

/-- Whether a branch can be executed by any instance: up to its join it has no node that needs the
executor. The search visits each edge at most once, which bounds the fuel it needs. -/
def distributable (p : PipelineDefinition) : Nat → List String → List String → Except Exn Bool
  | _, [], _ => .ok true
  | 0, _ :: _, _ => .ok true
  | fuel + 1, id :: pending, visited =>
    if id ∈ visited then distributable p fuel pending visited
    else match p.nodes.get id with
      | none => .error .other
      | some n =>
        if n.type = "join" then distributable p fuel pending (id :: visited)
        else if n.type ≠ "function" ∧ n.type ≠ "validator" ∧ n.type ≠ "router" ∧
            n.type ≠ "worker" then
          .ok false
        else distributable p fuel (successors p id ++ pending) (id :: visited)

/-- `worker_requirement`: the one worker and capability a branch needs, `none` when its nodes ask
for different ones. -/
def workerRequirement (p : PipelineDefinition) :
    Nat → List String → List String → Option (String × String) →
      Except Exn (Option (String × String))
  | _, [], _, found => .ok (some (found.getD ("", "")))
  | 0, _ :: _, _, found => .ok (some (found.getD ("", "")))
  | fuel + 1, id :: pending, visited, found =>
    if id ∈ visited then workerRequirement p fuel pending visited found
    else match p.nodes.get id with
      | none => .error .other
      | some n =>
        if n.type = "join" then workerRequirement p fuel pending (id :: visited) found
        else if n.type = "worker" then
          if found.elim true (fun f => f = (n.binding, n.capability)) then
            workerRequirement p fuel (successors p id ++ pending) (id :: visited)
              (some (n.binding, n.capability))
          else .ok none
        else workerRequirement p fuel (successors p id ++ pending) (id :: visited) found

def allDistributable (p : PipelineDefinition) : List ExecutionToken → Except Exn Bool
  | [] => .ok true
  | token :: rest =>
    match distributable p (p.edges.length + 1) [token.nodeId] [] with
    | .ok true => allDistributable p rest
    | other => other

def groupWork (p : PipelineDefinition) (r : Run) (group join : String) :
    Nat → List ExecutionToken → Exec Frame (List Record)
  | _, [] => pure []
  | index, token :: rest => do
    try_ (← direct (.external (.artifacts token.message)))
    match ← try_ (workerRequirement p (p.edges.length + 1) [token.nodeId] [] none) with
    | none => fail .execution "Distributed branch requires incompatible worker capabilities"
    | some (workerId, capability) =>
      let work : NodeWork :=
        { id := group ++ ":" ++ toString index, runId := r.id, groupId := group
          nodeId := token.nodeId, join, index, token, steps := r.steps
          requiredWorkerId := workerId, requiredCapability := capability }
      let records ← groupWork p r group join (index + 1) rest
      return .nodeWork work :: records

def awaitBranches (group : String) : Nat → Exec Frame (List (Option Message))
  | 0 => halt
  | fuel + 1 => do
    match ← direct (.parallelState group) with
    | none => throw .other
    | some g =>
      if g.completed = g.outputs.length then
        modifyRun fun r => { r with steps := g.steps }
        if g.failed then throw (Exn.of g.code g.error) else return g.outputs
      else awaitBranches group fuel

/-- Join the outputs of a local group into one message. -/
def collectOutputs : List (Option Message) → List Json → Message → Except Exn Unit × Message
  | [], payloads, m => (.ok (), { m with payload := .arr payloads })
  | none :: _, payloads, m =>
    (.error (executionError "Parallel branch output missing"), { m with payload := .arr payloads })
  | some output :: rest, payloads, m =>
    collectOutputs rest (payloads ++ [output.payload])
      { m with provenance := m.provenance ++ output.provenance }

/-- Hand the branches to other instances: store their work and park the run. -/
def distributeGroup (tokens : List ExecutionToken) : Exec Frame Bool := do
  let group ← uuid
  let v ← get
  let n ← nodeAt p v.r.activeNode
  let records ← groupWork p v.r group n.join 0 tokens
  modifyRun fun r => { r with
    pendingParallelGroup := group, pendingParallelJoin := n.join, state := .paused }
  checkpointRun "parallel.waiting" records
  return true

/-- Run the branches in this process and continue at their join. -/
def runGroup (p : PipelineDefinition) (resolved : List (String × String))
    (tokens : List ExecutionToken) : Exec Frame Bool := do
  let group ← uuid
  let v ← get
  direct (.openGroup group v.r.id tokens.length v.r.steps)
  direct (.spawnBranches (tokens.map fun token =>
    { pipeline := p, resolved, token, group, depth := v.r.subpipelineDepth
      sessionId := v.r.sessionId }))
  let outputs ← awaitBranches group fuel
  let v ← get
  let m := collectOutputs outputs [] v.r.message
  onOutcome (m.1, { v.r with message := m.2 })
  let n ← nodeAt p v.r.activeNode
  modifyRun fun r => { r with frames := [], activeNode := n.join, preparedJoin := n.join }
  return false

/-- `execute_parallel`. `true` means that the group has been handed to other instances and the run
is parked. -/
def executeParallel : Exec Frame Bool := do
  let v ← get
  modifyRun fun r => { r with ready := [] }
  if cfg.coordination then
    if (← try_ (allDistributable p v.r.ready)) then distributeGroup p v.r.ready
    else runGroup fuel p resolved v.r.ready
  else runGroup fuel p resolved v.r.ready

/-! ## Attempts -/

inductive Next where
  | again
  | finished
  deriving DecidableEq, Repr

/-- Begin an attempt: a worker node waits for its worker before the attempt is recorded, a tool or
a model is called after it. -/
def startAttempt (n : NodeDefinition) (number : Nat) : Exec Frame Unit := do
  try_ (← direct (.external (.deadline n)))
  if n.type = "worker" then transitionRun .waitingWorker "worker.submitting" else pure ()
  let id ← uuid
  modify fun v => { v with
    attempt := { id, runId := v.r.id, nodeId := n.id, attempt := number } }
  let v ← get
  checkpointRun "node.started" [.attempt v.attempt]
  modify fun v => { v with attemptRecorded := true }
  if n.type = "tool" then transitionRun .waitingTool "tool.called" else pure ()
  if n.type = "agent" then transitionRun .waitingModel "model.called" else pure ()

/-- The event with which a run returns from waiting for a component. -/
def returnEvent (n : NodeDefinition) (failed : Bool) : String :=
  (if n.type = "tool" then "tool" else if n.type = "worker" then "worker" else "model") ++
    (if failed then ".failed" else ".completed")

def returnToRunning (n : NodeDefinition) (failed : Bool) : Exec Frame Unit := do
  let v ← get
  if v.r.state = .waitingTool ∨ v.r.state = .waitingModel ∨ v.r.state = .waitingWorker then
    transitionRun .running (returnEvent n failed)
  else pure ()

def failureCode : Exn → ErrorCode
  | .error e => e.code
  | .other => .execution

/-- The text recorded with a failed attempt. Validation failures and the failures of workers and
subpipelines keep their message (without the details of a schema violation). -/
def failureText (n : NodeDefinition) (e : Exn) : String :=
  match failureCode e, e with
  | .timeout, _ => "Node deadline exceeded"
  | .cancellation, _ => "Node cancelled"
  | .validation, .error err => err.message
  | _, .error err =>
    if n.type = "worker" ∨ n.type = "subpipeline" then err.message else "Node execution failed"
  | _, .other => "Node execution failed"

/-- Record a failed attempt and decide whether to try again: not after a cancellation or a timeout,
and not after the last attempt. -/
def failAttempt (n : NodeDefinition) (last : Bool) (e : Exn) : Exec Frame Unit := do
  modify fun v => { v with attempt := { v.attempt with
    state := attemptState (.error ⟨failureCode e, ""⟩), error := failureText n e } }
  let v ← get
  checkpointRun "node.failed" [.attempt v.attempt]
  if failureCode e = .cancellation ∨ failureCode e = .timeout ∨ last then
    fail (failureCode e) (failureText n e)
  else
    transitionRun .retrying "node.retrying"
    check
    transitionRun .running "run.running"

def boundProvenance (l : List ProvenanceRecord) : List ProvenanceRecord := l.drop (l.length - 256)

/-- The result of a completed node becomes the message of the run. -/
def acceptResult (n : NodeDefinition) (result : NodeResult) (id : String) (r : Run) : Run :=
  { r with
    steps := r.steps + 1
    nodeVisits := bumpVisits r.nodeVisits n.id
    message := { result.message with
      id, runId := r.id, pipelineId := r.pipelineId, nodeId := n.id
      provenance := boundProvenance
        (result.message.provenance ++ [{ node := n.id, parentMessage := r.message.id }]) }
    childId := if n.type = "subpipeline" then "" else r.childId }

def completionRecords (v : Frame) : List Record := [.attempt v.attempt, .message v.r.message]

inductive Routed where
  | continuing (more : Bool)
  | parked

/-- Some branch of a parallel node starts with an approval. -/
def hasApprovalBranch (n : NodeDefinition) : Except Exn Bool :=
  (p.edges.filter fun e => e.fromNode = n.id).foldlM (fun found e =>
    match p.nodes.get e.toNode with
    | none => .error .other
    | some target => .ok (found || target.type == "approval")) false

/-- Route the run on from a completed node. Approval branches of a parallel node are executed one
after the other by the main loop, which can park; other branches run as a group. -/
def route (p : PipelineDefinition) (resolved : List (String × String))
    (n : NodeDefinition) (condition : String) (records : List Record) : Exec Frame Routed := do
  if n.type = "parallel" then
    let approvalBranch ← try_ (hasApprovalBranch p n)
    let group ← uuid
    let v ← get
    let more ← onOutcome (advance p n condition group v.r)
    if approvalBranch then
      let v ← get
      let more ← onOutcome (let (more, r) := nextReady v.r; (.ok more, r))
      return .continuing more
    else
      let parked ← executeParallel cfg fuel p resolved
      if parked then
        checkpointRun "node.completed" records
        return .parked
      else return .continuing more
  else
    let group ← uuid
    let v ← get
    let more ← onOutcome (advance p n condition group v.r)
    return .continuing more

/-- Finish a completed node: route, and record the result with the new cursor in one commit. A
routing failure is recorded with the result before it ends the run. -/
def finishNode (n : NodeDefinition) (result : NodeResult) :
    Exec Frame Next := do
  modify fun v => { v with attempt := { v.attempt with state := .completed } }
  let id ← uuid
  modifyRun (acceptResult n result id)
  let v ← get
  let records := completionRecords v
  let routed ← tryCatch (route cfg fuel p resolved n result.condition records)
    (fun e => do
      checkpointRun "node.completed" records
      throw e)
  -- a local group has changed the message it started from
  let v ← get
  let records := if n.type = "parallel" ∧ v.r.message.id = id then completionRecords v else records
  match routed with
  | .parked => return .finished
  | .continuing false =>
    transitionRun .completed "run.completed" records
    return .finished
  | .continuing true =>
    checkpointRun "node.completed" records
    return .again

def attempts (cfg : Config) (fuel : Nat) (p : PipelineDefinition)
    (resolved : List (String × String)) (n : NodeDefinition) : Nat → Exec Frame Next
  | 0 => fail .execution "Node did not complete"
  | left + 1 => do
    startAttempt n (n.retry.maxAttempts - left)
    match ← (attemptBody cfg fuel p resolved n (n.retry.maxAttempts - left)).capture with
    | .ok .parked => return .finished
    | .ok (.done result) =>
      returnToRunning n false
      finishNode cfg fuel p resolved n result
    | .error e =>
      returnToRunning n true
      failAttempt n (left = 0) e
      attempts cfg fuel p resolved n left

/-! ## The main loop -/

/-- A session run loads the context of its session before each node. -/
def loadContext : Exec Frame Unit := do
  let v ← get
  if v.r.sessionId ≠ "" then try_ (← direct (.external .sessionContext)) else pure ()

/-- One iteration: prepare the active node, ask for permission, execute it. -/
def iteration : Exec Frame Next := do
  modify fun v => { v with attemptRecorded := false }
  loadContext
  check
  let v ← get
  let n ← nodeAt p v.r.activeNode
  labelNode cfg n
  match ← reachNode n with
  | .waiting => return .again
  | .ready =>
    let v ← get
    if p.maxSteps ≤ v.r.steps then fail .execution "Pipeline step limit exceeded" else pure ()
    if (← approvalGate n) then
      try_ (← direct (.external (.makeNode n)))
      attempts cfg fuel p resolved n n.retry.maxAttempts
    else return .finished

def mainLoop (cfg : Config) (p : PipelineDefinition) (resolved : List (String × String)) :
    Nat → Exec Frame Unit
  | 0 => halt
  | fuel + 1 => do
    match ← iteration cfg fuel p resolved with
    | .again => mainLoop cfg p resolved fuel
    | .finished => pure ()

/-- The error path of `execute`. -/
def errorPath (e : Exn) : Exec Frame Unit := do
  let v ← get
  onOutcome (← call (S := callSig) (.fail v.r fuel v.attemptRecorded e))

/-- `execute` after the definition has been parsed. -/
def execute : Exec Frame Unit :=
  tryCatch (do
      let v ← get
      let started ← onOutcome (← call (S := callSig) (.begin v.r))
      if started then mainLoop cfg p resolved fuel else pure ())
    (errorPath fuel)

/-- The coroutine `schedule` starts for a run, with its completion handler. A definition that does
not parse throws before the error path is in place. -/
def executor (r : Run) : Prog callSig Unit := do
  let failed ← match cfg.parse r.definition with
    | .error _ => pure true
    | .ok p => do
      let (result, _) ← (execute cfg fuel p r.resolvedSubpipelines).prog { r }
      pure (match result with | .ok _ => false | .error _ => true)
  let _ ← Prog.req (S := callSig) (.complete r.id failed)

/-! ## Branches -/

/-- The variables of `execute_branch`. -/
structure BranchVars where
  branch : Run
  attempt : NodeExecution := { id := "" }

variable (job : BranchJob)

/-- Write records of a branch, under the lease of distributed work. -/
def persist (records : List Record) : Exec BranchVars Unit := do
  let result ← match job.work with
    | some (lease, workId, _) =>
      direct (.commitOwned records ("node:" ++ workId) lease.ownerInstance lease.fencingToken)
    | none => direct (.commit records)
  let _ ← fetch result

/-- `context.check()` of a branch. -/
def checkBranch : Exec BranchVars Unit := do
  let v ← get
  try_ (← direct (.check (match job.work with
    | some (_, workId, _) => .work workId job.group
    | none => .branch v.branch.id job.group)))

def awaitBranchChild (job : BranchJob) (childId : String) : Nat → Exec BranchVars NodeResult
  | 0 => halt
  | fuel + 1 => do
    checkBranch job
    let child ← fetch (← direct (.peekRun childId))
    if terminal child.state then
      if child.state ≠ .completed then
        fail .execution "Subpipeline did not complete successfully"
      else return { message := child.message }
    else
      checkBranch job
      awaitBranchChild job childId fuel

/-- The worker of a node has been given a job: its identifier is recorded with the attempt, so that
any instance can find out how the job has ended. -/
def recordJob (n : NodeDefinition) : Exec BranchVars Unit := do
  if n.type = "worker" then
    match ← direct (.startJob n) with
    | none => pure ()
    | some id =>
      modify fun v => { v with attempt := { v.attempt with workerJobId := id } }
      let v ← get
      persist job [.attempt v.attempt]
  else pure ()

def branchBody (job : BranchJob) (n : NodeDefinition) (number : Nat) :
    Exec BranchVars NodeResult := do
  let v ← get
  if n.type = "subpipeline" then
    try_ (← direct (.external (.schema n.inputSchema v.branch.message.payload)))
    if cfg.maxSubpipelineDepth ≤ job.depth then
      fail .execution "Subpipeline nesting limit exceeded"
    else pure ()
    let child ← try_ (← direct (.resolvePipeline v.branch n
      ((job.resolved.lookup n.id).getD n.binding)))
    let (created, _) ← call (S := callSig) (.run
      { pipeline := child, input := v.branch.message.payload, actor := v.branch.actor
        parentId := v.branch.id, parentNodeId := n.id, parentMessageId := v.branch.message.id
        depth := job.depth + 1 })
    let id ← try_ created
    modify fun v => { v with attempt := { v.attempt with
      childRunId := id, childPipelineId := child.name, childPipelineVersion := child.version } }
    awaitBranchChild job id fuel
  else
    checkBranch job
    checkBranch job
    try_ (← direct (.external (.schema n.inputSchema v.branch.message.payload)))
    recordJob job n
    try_ (← direct (.nodeExecute v.branch n number))

def branchRoute (n : NodeDefinition) (condition : String) (b : Run) :
    Except Exn Unit × Run :=
  match outgoingEdges p n condition with
  | [e] =>
    let b' := countEdge e b
    if e.maxIterations ≠ 0 ∧ e.maxIterations < edgeCount e b' then
      (.error (executionError "Edge iteration limit exceeded"), b')
    else (.ok (), { b' with activeNode := e.toNode })
  | _ => (.error (executionError "Parallel branch has ambiguous routing"), b)

def checkBranchResult (n : NodeDefinition) (result : NodeResult) :
    Exec BranchVars Unit := do
  checkBranch job
  try_ (← direct (.external (.schema n.outputSchema result.message.payload)))
  if n.type = "output" then
    try_ (← direct (.external (.schema job.pipeline.outputSchema result.message.payload)))
  else pure ()

/-- The result becomes the message of the branch, is recorded, and routes the branch on. -/
def acceptBranchResult (n : NodeDefinition) (result : NodeResult) :
    Exec BranchVars Unit := do
  let id ← uuid
  modify fun v => { v with
    attempt := { v.attempt with state := .completed }
    branch := { v.branch with
      nodeVisits := bumpVisits v.branch.nodeVisits n.id
      message := { result.message with
        id, runId := v.branch.id, pipelineId := v.branch.pipelineId, nodeId := n.id
        provenance := result.message.provenance ++
          [{ node := n.id, parentMessage := v.branch.message.id }] } } }
  let v ← get
  persist job [.attempt v.attempt, .message v.branch.message]
  let routed := branchRoute job.pipeline n result.condition v.branch
  modify fun v => { v with branch := routed.2 }
  try_ routed.1

/-- One attempt of a branch: body, checks, records and routing. -/
def branchAttempt (job : BranchJob) (n : NodeDefinition)
    (number : Nat) : Exec BranchVars Unit := do
  let result ← branchBody cfg fuel job n number
  checkBranchResult job n result
  acceptBranchResult job n result

/-- Record a failed attempt of a branch and decide whether to try again. -/
def failBranchAttempt (last : Bool) (e : Error) : Exec BranchVars Unit := do
  modify fun v => { v with attempt := { v.attempt with
    state := attemptState (.error e)
    error := match e.code with
      | .cancellation => "Node cancelled"
      | .timeout => "Node deadline exceeded"
      | .validation => e.message
      | _ => "Node execution failed" } }
  let v ← get
  persist job [.attempt v.attempt]
  if e.code = .cancellation ∨ last then throw (.error e) else checkBranch job

/-- The attempts of a node of a branch. Only an `Error` is retried. -/
def branchAttempts (cfg : Config) (fuel : Nat) (job : BranchJob) (n : NodeDefinition) :
    Nat → Exec BranchVars Unit
  | 0 => fail .execution "Parallel branch did not complete"
  | left + 1 => do
    let number := n.retry.maxAttempts - left
    try_ (← direct (.external (.deadline n)))
    let fresh ← uuid
    modify fun v => { v with attempt :=
      { id := if number = 1 then job.work.elim fresh (fun w => if w.2.2 = "" then fresh else w.2.2)
          else fresh
        runId := v.branch.id, nodeId := n.id, attempt := number } }
    let v ← get
    persist job [.attempt v.attempt]
    match ← (branchAttempt cfg fuel job n number).capture with
    | .ok _ => pure ()
    | .error .other => throw .other
    | .error (.error e) =>
      failBranchAttempt job (left = 0) e
      branchAttempts cfg fuel job n left

/-- The policy of a branch: there is no way to park, so a node that needs an approval is refused. -/
def branchGate (n : NodeDefinition) : Exec BranchVars Unit := do
  let v ← get
  let policy ← try_ (← direct (.permission n v.branch))
  if policy.decision = .deny then fail .policy "Operation denied by policy"
  else if policy.decision = .requireApproval ∨ n.type = "approval" then
    fail .policy "Approval is not supported inside a concurrent branch"
  else pure ()

/-- The loop over the nodes of a branch, up to its join. -/
def branchLoop (cfg : Config) (job : BranchJob) : Nat → Exec BranchVars Unit
  | 0 => halt
  | fuel + 1 => do
    let v ← get
    let n ← nodeAt job.pipeline v.branch.activeNode
    if n.type = "join" then
      let index := if job.work.isNone then (v.branch.frames.getLast?).elim 0 BranchFrame.index
        else 0
      try_ (← direct (.branchArrive job.group index v.branch.message))
    else
      try_ (← direct (.branchStep job.group job.pipeline.maxSteps))
      checkBranch job
      branchGate n
      try_ (← direct (.external (.makeNode n)))
      branchAttempts cfg fuel job n n.retry.maxAttempts
      branchLoop cfg job fuel

/-- The run record a branch works on. Its visit counters start empty. -/
def branchRun : Run where
  id := job.token.message.runId
  pipelineId := job.token.message.pipelineId
  definition := job.pipeline.source
  activeNode := job.token.nodeId
  message := job.token.message
  frames := job.token.frames
  actor := "parallel"
  subpipelineDepth := job.depth
  sessionId := job.sessionId

/-- `execute_branch`: the loop, whose exception is recorded in the group. -/
def executeBranch {σ : Type} (cfg : Config) (fuel : Nat) (job : BranchJob) : Exec σ Unit := do
  let (result, _) ← localVar { branch := branchRun job } (branchLoop cfg job fuel).capture
  match result with
  | .ok _ => pure ()
  | .error (.error e) => direct (.branchFail job.group e.message e.code)
  | .error .other => direct (.branchFail job.group "Parallel branch failed" .execution)

/-! ## Distributed branches -/

def commitNodeOwned {σ : Type} (work : NodeWork) (lease : LeaseRecord) : Exec σ Unit := do
  let _ ← fetch (← direct (.commitOwned [.nodeWork work] ("node:" ++ work.id) lease.ownerInstance
    lease.fencingToken))

variable (work : NodeWork)

/-- The work of a run that has been cancelled or is over. -/
def cancelledWork : NodeWork :=
  { work with state := .cancelled, error := "Parent run cancellation requested" }

variable (lease : LeaseRecord)

def performWork :
    Exec Unit Unit := do
  let r ← fetch (← direct (.peekRun work.runId))
  if r.cancellationRequested ∨ terminal r.state then
    let current ← fetch (← direct (.getNodeWork work.id))
    commitNodeOwned (cancelledWork current) lease
  else
    let p ← try_ (cfg.parse r.definition)
    let group ← uuid
    direct (.openGroup group r.id 1 work.steps)
    try_ (← direct (.external (.artifacts work.token.message)))
    executeBranch cfg fuel
      { pipeline := p, resolved := r.resolvedSubpipelines, token := work.token, group
        depth := r.subpipelineDepth, sessionId := r.sessionId
        work := some (lease, work.id, work.attemptId) }
    let completed ← fetch (← direct (.getNodeWork work.id))
    let current ← fetch (← direct (.peekRun work.runId))
    if current.cancellationRequested ∨ terminal current.state then
      commitNodeOwned (cancelledWork completed) lease
    else
      match ← direct (.parallelState group) with
      | none => throw .other
      | some g =>
        if g.failed then throw (Exn.of g.code g.error)
        else match g.outputs.head?.join with
          | none => fail .execution "Distributed node work produced no output"
          | some m =>
            commitNodeOwned { completed with
              result := some m, steps := g.steps, state := .completed, error := ""
              ownerInstanceId := lease.ownerInstance, fencingToken := lease.fencingToken } lease

/-- `execute_distributed_work`. A storage error leaves the work to be recovered; any other one is
recorded if the lease still allows it. -/
def executeDistributedWork :
    Exec Unit Unit := do
  match ← (performWork cfg fuel work lease).capture with
  | .ok _ => pure ()
  | .error e =>
    if failureCode e = .storage then pure ()
    else
      tryCatch (do
          let current ← fetch (← direct (.getNodeWork work.id))
          commitNodeOwned { current with
            state := if failureCode e = .cancellation then .cancelled else .failed
            error := match e with
              | .error err => err.message
              | .other => "Distributed node work failed"
            ownerInstanceId := lease.ownerInstance, fencingToken := lease.fencingToken } lease)
        (fun _ => pure ())

/-- Release leases after the work is done, ignoring errors. -/
def releaseSlots : List LeaseRecord → Exec Unit Unit
  | [] => pure ()
  | lease :: rest => do
    let _ ← direct (.release lease)
    releaseSlots rest

def finishWork (id : String) (leases : List LeaseRecord) : Exec Unit Unit := do
  direct (.eraseActiveNode id)
  releaseSlots leases

def workExecutor (slots : List LeaseRecord) : Exec Unit Unit := do
  let _ ← (executeDistributedWork cfg fuel work lease).capture
  finishWork work.id (slots ++ [lease])

end Laso
