import Laso.Core.Table

/-!
# Records of the runtime

The durable records (`Run`, `NodeExecution`, `NodeWork`, `WorkerJob`, `Approval`, `Event`), the
pipeline definition they are interpreted against, and the two tables of the run life cycle,
`terminal` and `validTransition`.

Wall-clock fields (creation, update and lease times, durations) are left out: no function of the
model reads them. A run record groups its fields into its **cursor** (where execution stands), its
**ownership** (the lease under which an instance executes it) and its **origin** (what created
it), so that two records can be compared on one group.
-/

namespace Laso

inductive ErrorCode where
  | configuration | validation | plugin | storage | provider | tool | policy | execution
  | timeout | cancellation | notFound | conflict | capacity | unavailable
  deriving DecidableEq, Repr

/-- An `Error`: a code and a message that is safe to show. -/
structure Error where
  code : ErrorCode
  message : String
  deriving DecidableEq, Repr

/-- What the code throws: an `Error`, or any other C++ exception. -/
inductive Exn where
  | error (e : Error)
  | other
  deriving DecidableEq, Repr

/-- Throw an `Error` with a code and message. -/
def Exn.of (code : ErrorCode) (message : String) : Exn := .error ⟨code, message⟩

/-- JSON documents (numbers are the integers the runtime itself produces). -/
inductive Json where
  | null
  | bool (b : Bool)
  | num (n : Int)
  | str (s : String)
  | arr (items : List Json)
  | obj (fields : List (String × Json))

mutual

def Json.beq : Json → Json → Bool
  | .null, .null => true
  | .bool a, .bool b => a == b
  | .num a, .num b => a == b
  | .str a, .str b => a == b
  | .arr a, .arr b => Json.beqItems a b
  | .obj a, .obj b => Json.beqFields a b
  | _, _ => false

def Json.beqItems : List Json → List Json → Bool
  | [], [] => true
  | a :: as, b :: bs => Json.beq a b && Json.beqItems as bs
  | _, _ => false

def Json.beqFields : List (String × Json) → List (String × Json) → Bool
  | [], [] => true
  | (k, a) :: as, (l, b) :: bs => k == l && Json.beq a b && Json.beqFields as bs
  | _, _ => false

end

instance : BEq Json := ⟨Json.beq⟩

/-- `value(key, default)` on an object for a string default: the field if present. It throws when
the document is not an object or the field is not a string. -/
def Json.stringOr (j : Json) (field default : String) : Except Exn String :=
  match j with
  | .obj fields =>
    match fields.lookup field with
    | none => .ok default
    | some (.str s) => .ok s
    | some _ => .error .other
  | _ => .error .other

/-! ## Run states -/

inductive RunState where
  | queued | starting | running | waitingTool | waitingModel | waitingWorker | waitingApproval
  | retrying | paused | completed | failed | cancelled | timedOut
  deriving DecidableEq, Repr

def terminal : RunState → Bool
  | .completed | .failed | .cancelled | .timedOut => true
  | _ => false

/-- The transition table enforced by `Runtime::transition`. -/
def validTransition (source target : RunState) : Bool :=
  if terminal source then false
  else match source with
    | .queued => target == .starting || target == .cancelled || target == .failed
    | .starting =>
      target == .running || target == .failed || target == .cancelled || target == .timedOut
    | .running =>
      target == .completed || target == .waitingModel || target == .waitingTool ||
      target == .waitingWorker || target == .waitingApproval || target == .retrying ||
      target == .paused || target == .failed || target == .cancelled || target == .timedOut
    | .waitingApproval => target == .queued || target == .failed || target == .cancelled
    | .paused => target == .queued || target == .failed || target == .cancelled
    | .waitingTool | .waitingModel | .waitingWorker | .retrying =>
      target == .running || target == .failed || target == .cancelled || target == .timedOut
    | _ => false

/-- The states in which no executor works on the run although it is not over. -/
def RunState.parked : RunState → Bool
  | .waitingApproval | .paused | .queued => true
  | _ => false

lemma validTransition_of_terminal {a b : RunState} (h : terminal a) :
    validTransition a b = false := by
  simp [validTransition, h]

lemma not_terminal_of_validTransition {a b : RunState} (h : validTransition a b) :
    terminal a = false := by
  cases ht : terminal a with
  | false => rfl
  | true => simp [validTransition_of_terminal ht] at h

/-! ## Pipelines -/

structure RetryPolicy where
  maxAttempts : Nat := 1
  deriving DecidableEq, Repr

structure NodeDefinition where
  id : String
  type : String
  binding : String := ""
  reason : String := ""
  field : String := ""
  join : String := ""
  inputSchema : String := ""
  outputSchema : String := ""
  schema : String := ""
  capability : String := ""
  requiredTool : String := ""
  retry : RetryPolicy := {}
  maxIterations : Nat := 0
  deriving DecidableEq, Repr

instance : Keyed NodeDefinition := ⟨NodeDefinition.id⟩

structure EdgeDefinition where
  fromNode : String
  toNode : String
  condition : String := ""
  maxIterations : Nat := 0
  deriving DecidableEq, Repr

/-- A parsed pipeline. The nodes form a table keyed by their ids. -/
structure PipelineDefinition where
  name : String
  source : String := ""
  inputSchema : String := ""
  outputSchema : String := ""
  schemaVersion : Nat := 1
  version : Nat := 1
  maxSteps : Nat := 1000
  nodes : Table NodeDefinition
  edges : List EdgeDefinition

/-! ## Messages and execution cursors -/

structure ProvenanceRecord where
  node : String := ""
  tool : String := ""
  model : String := ""
  provider : String := ""
  artifact : String := ""
  parentMessage : String := ""
  validation : String := ""
  worker : String := ""
  deriving DecidableEq, Repr

structure Message where
  id : String := ""
  runId : String := ""
  pipelineId : String := ""
  nodeId : String := ""
  type : String := "laso.data"
  payload : Json := .obj []
  metadata : Json := .obj []
  provenance : List ProvenanceRecord := []
  deriving BEq

instance : Inhabited Message := ⟨{}⟩

instance : Keyed Message := ⟨Message.id⟩

/-- Membership of a token in an open parallel group. -/
structure BranchFrame where
  group : String
  join : String
  width : Nat
  index : Nat
  deriving DecidableEq, Repr

/-- A unit of pending work: a node to execute, on a message, inside some parallel groups. -/
structure ExecutionToken where
  nodeId : String
  message : Message
  frames : List BranchFrame
  deriving BEq

/-- Messages that have arrived at a join, by branch index in increasing order. -/
structure JoinCheckpoint where
  messages : List (Nat × Message) := []

structure Cursor where
  activeNode : String := "input"
  message : Message := {}
  frames : List BranchFrame := []
  ready : List ExecutionToken := []
  joins : Table (String × JoinCheckpoint) := Table.empty
  preparedJoin : String := ""
  nodeVisits : Table (String × Nat) := Table.empty
  edgeVisits : Table (String × Nat) := Table.empty
  steps : Nat := 0
  pendingParallelGroup : String := ""
  pendingParallelJoin : String := ""
  childId : String := ""
  childPipelineId : String := ""
  childPipelineVersion : Nat := 0
  childRuns : List String := []

/-- The lease under which an instance executes the run. -/
structure Ownership where
  ownerInstanceId : String := ""
  fencingToken : Nat := 0
  deriving DecidableEq, Repr

/-- What created the run, and the definition it executes. -/
structure Origin where
  id : String
  pipelineId : String := ""
  pipelineVersion : Nat := 1
  definition : String := ""
  resolvedSubpipelines : List (String × String) := []
  actor : String := "local"
  parentId : String := ""
  parentNodeId : String := ""
  parentMessageId : String := ""
  subpipelineDepth : Nat := 0
  initiationType : String := "manual"
  sessionId : String := ""
  sessionTurnId : String := ""
  deriving DecidableEq, Repr

/-- Names of the components the active node uses, for display. -/
structure Labels where
  provider : String := ""
  model : String := ""
  tool : String := ""
  plugin : String := ""
  worker : String := ""
  workerJobId : String := ""
  deriving DecidableEq, Repr

/-- A run record. The field `version` is not in the source: it numbers the writes of run records,
and a copy carries the number of the write it was read from (0 before the first one), so that one
can tell which stored record a copy is based on. No code reads it. -/
structure Run extends Origin, Cursor, Ownership, Labels where
  state : RunState := .queued
  cancellationRequested : Bool := false
  error : String := ""
  version : Nat := 0

instance : Keyed Run := ⟨fun r => r.id⟩

@[simp] lemma Run.key_eq (r : Run) : Keyed.key r = r.id := rfl

/-- How often a node has been completed by the run; a missing entry counts as zero. -/
def Cursor.visits (c : Cursor) (node : String) : Nat :=
  match c.nodeVisits.get node with
  | some (_, n) => n
  | none => 0

/-! ## Other records -/

inductive NodeState where
  | running | completed | failed | waitingApproval | cancelled | timedOut
  deriving DecidableEq, Repr

structure NodeExecution where
  id : String
  runId : String := ""
  nodeId : String := ""
  error : String := ""
  childRunId : String := ""
  childPipelineId : String := ""
  childPipelineVersion : Nat := 0
  workerJobId : String := ""
  attempt : Nat := 1
  state : NodeState := .running
  deriving DecidableEq, Repr

instance : Keyed NodeExecution := ⟨NodeExecution.id⟩

inductive ApprovalDecision where
  | pending | approved | rejected | cancelled
  deriving DecidableEq, Repr

/-- A request for a human decision about one visit of one node of a run; `version` numbers its
writes as it does for runs. -/
structure Approval where
  id : String
  runId : String := ""
  nodeId : String := ""
  reason : String := ""
  action : String := ""
  decision : ApprovalDecision := .pending
  actor : String := ""
  comment : String := ""
  visit : Nat := 0
  version : Nat := 0
  deriving DecidableEq, Repr

instance : Keyed Approval := ⟨Approval.id⟩

@[simp] lemma Approval.key_eq (a : Approval) : Keyed.key a = a.id := rfl

inductive NodeWorkState where
  | queued | running | completed | failed | cancelled
  deriving DecidableEq, Repr

def NodeWorkState.isTerminal : NodeWorkState → Bool
  | .completed | .failed | .cancelled => true
  | _ => false

/-- One branch of a parallel group, executed by whichever instance claims it. -/
structure NodeWork where
  id : String
  runId : String := ""
  groupId : String := ""
  nodeId : String := ""
  join : String := ""
  ownerInstanceId : String := ""
  attemptId : String := ""
  error : String := ""
  requiredCapability : String := ""
  requiredWorkerId : String := ""
  index : Nat := 0
  attempt : Nat := 0
  steps : Nat := 0
  fencingToken : Nat := 0
  state : NodeWorkState := .queued
  token : ExecutionToken
  result : Option Message := none

instance : Keyed NodeWork := ⟨NodeWork.id⟩

@[simp] lemma NodeWork.key_eq (w : NodeWork) : Keyed.key w = w.id := rfl

/-- Work that waits in the queue or has been cancelled. -/
def NodeWork.Idle (w : NodeWork) : Prop := w.state = .queued ∨ w.state = .cancelled

/-- `valid_node_work_transition`. A running branch may go back to the queue: a fenced recovery
requeues an attempt whose worker job has ended. -/
def validNodeWorkTransition (source target : NodeWorkState) : Bool :=
  source == target ||
    match source with
    | .queued => target == .running || target == .cancelled
    | .running =>
      target == .queued || target == .completed || target == .failed || target == .cancelled
    | _ => false

/-- `equivalent_terminal_node_work`. -/
def equivalentTerminalNodeWork (left right : NodeWork) : Bool :=
  left.id == right.id && left.runId == right.runId && left.groupId == right.groupId &&
    left.nodeId == right.nodeId && left.join == right.join &&
    left.requiredWorkerId == right.requiredWorkerId &&
    left.requiredCapability == right.requiredCapability &&
    left.ownerInstanceId == right.ownerInstanceId && left.state == right.state &&
    left.attempt == right.attempt && left.attemptId == right.attemptId &&
    left.fencingToken == right.fencingToken && left.error == right.error &&
    left.steps == right.steps && left.token == right.token && left.result == right.result &&
    left.state.isTerminal

lemma isTerminal_of_equivalent {left right : NodeWork}
    (h : equivalentTerminalNodeWork left right) : right.state.isTerminal := by
  simp only [equivalentTerminalNodeWork, Bool.and_eq_true, beq_iff_eq] at h
  have hstate : left.state = right.state := by tauto
  rw [← hstate]
  exact h.2

inductive WorkerJobState where
  | created | submitting | queued | running | waiting | completed | failed | cancelled | timedOut
  | unknown
  deriving DecidableEq, Repr

/-- `worker_job_terminal`. -/
def WorkerJobState.isTerminal : WorkerJobState → Bool
  | .completed | .failed | .cancelled | .timedOut => true
  | _ => false

/-- `valid_worker_job_transition`. -/
def validWorkerJobTransition (source target : WorkerJobState) : Bool :=
  if source.isTerminal then false
  else match source with
    | .created =>
      target == .submitting || target == .failed || target == .cancelled || target == .unknown
    | .submitting =>
      target == .queued || target == .running || target == .completed || target == .failed ||
      target == .cancelled || target == .timedOut || target == .unknown
    | .queued | .running | .waiting | .unknown =>
      target == .running || target == .waiting || target == .completed || target == .failed ||
      target == .cancelled || target == .timedOut || target == .unknown
    | _ => false

structure WorkerJob where
  id : String
  workerId : String := ""
  runId : String := ""
  nodeId : String := ""
  attempt : Nat := 1
  state : WorkerJobState := .created
  error : String := ""
  result : Json := .obj []

structure Event where
  runId : String
  pipelineId : String
  nodeId : String
  type : String
  state : RunState
  deriving DecidableEq, Repr

inductive Record where
  | run (r : Run)
  | attempt (a : NodeExecution)
  | message (m : Message)
  | approval (a : Approval)
  | nodeWork (w : NodeWork)
  | event (e : Event)

end Laso
