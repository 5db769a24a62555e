import Laso.Sessions.Continuations
import Laso.Workers.Jobs

/-!
# Records of worker jobs

A `JobRecord` is what the manager of worker jobs stores about a job: `ManagedJob` with all that is
reported about it. The functions here are the ones the manager applies to a record it has read:
`WorkerUsage.merge` adds a usage report, `budgetViolation` compares the usage of a run with the
configured budget, and `persisted` is what `persist` hands to the store.
-/

namespace Laso

inductive WorkerFailureKind where
  | none | job | transport | budget
  deriving DecidableEq, Repr

inductive CancellationTarget where
  | cancelled | timedOut
  deriving DecidableEq, Repr

def CancellationTarget.state : CancellationTarget → WorkerJobState
  | .cancelled => .cancelled
  | .timedOut => .timedOut

def maxUInt64 : Nat := 2 ^ 64 - 1

def maxUsageMetric : Nat := 1000000000000000

/-- What a worker says it has used. Missing values have not been reported. -/
structure WorkerUsage where
  queueDurationMs : Option Nat := none
  wallDurationMs : Option Nat := none
  inputTokens : Option Nat := none
  outputTokens : Option Nat := none
  totalTokens : Option Nat := none
  toolCalls : Option Nat := none
  actionCount : Option Nat := none
  costUnits : Option Rat := none
  provider : String := ""
  model : String := ""
  executor : String := ""
  metadata : List (String × Json) := []

namespace WorkerUsage

variable (u : WorkerUsage)

/-- The sum of the tokens, if both numbers are reported and the sum has 64 bits. -/
def tokenSum : Option Nat :=
  match u.inputTokens, u.outputTokens with
  | some input, some output => if input ≤ maxUInt64 - output then some (input + output) else none
  | _, _ => none

/-- `total_tokens`. -/
def total : Option Nat := u.totalTokens <|> u.tokenSum

def renewed (old new : String) : String := if new = "" then old else new

/-- `merge_usage`: a sum that is not reported is derived once and then kept. -/
def merge (target incoming : WorkerUsage) : WorkerUsage :=
  let merged : WorkerUsage := {
    queueDurationMs := incoming.queueDurationMs <|> target.queueDurationMs
    wallDurationMs := incoming.wallDurationMs <|> target.wallDurationMs
    inputTokens := incoming.inputTokens <|> target.inputTokens
    outputTokens := incoming.outputTokens <|> target.outputTokens
    totalTokens := incoming.totalTokens <|> target.totalTokens
    toolCalls := incoming.toolCalls <|> target.toolCalls
    actionCount := incoming.actionCount <|> target.actionCount
    costUnits := incoming.costUnits <|> target.costUnits
    provider := renewed target.provider incoming.provider
    model := renewed target.model incoming.model
    executor := renewed target.executor incoming.executor
    metadata := incoming.metadata.foldl (upsert Prod.fst) target.metadata }
  { merged with totalTokens := merged.total }

def add : Option WorkerUsage → WorkerUsage
  | none => u
  | some incoming => u.merge incoming

end WorkerUsage

/-- A reservation of a tool call in the job that makes it. -/
structure ToolReservation where
  callKey : String
  sessionId : String
  turnId : String
  childWorkerJobId : String
  state : String := "reserved"
  resultRetrieved : Bool := false
  deriving DecidableEq, Repr

/-- The evidence of a tool call in the job that has made it. -/
structure ToolAttestation where
  childWorkerJobId : String
  workerId : String
  runId : String
  callKey : String
  sessionId : String
  turnId : String
  deriving DecidableEq, Repr

/-- What a job was submitted with, and the tool calls it has made. -/
structure RequestMetadata where
  taskType : String := ""
  capability : String := ""
  deadline : String := ""
  artifactIds : List String := []
  parentWorkerJobId : Option String := none
  parentToolCallId : Option String := none
  parentCodexTurnId : Option String := none
  parentCodexSessionId : Option String := none
  classification : Option String := none
  nodeWorkId : Option String := none
  nodeWorkAttemptId : Option String := none
  requiredTool : Option String := none
  codexToolResultRetrieved : Bool := false
  reservations : List ToolReservation := []
  calls : List ToolAttestation := []
  deriving DecidableEq, Repr

structure JobRecord extends ManagedJob where
  startedAt : String := ""
  completedAt : String := ""
  cancellationError : String := ""
  cancellationTarget : CancellationTarget := .cancelled
  failureKind : WorkerFailureKind := .none
  cancellationRequested : Bool := false
  cancellationAcknowledged : Bool := false
  requestMetadata : RequestMetadata := {}
  resultMetadata : Json := .obj []
  artifacts : List Json := []
  usage : WorkerUsage := {}
  continuation : Option OpaqueContinuation := none

instance : Keyed JobRecord := ⟨fun j => j.id⟩

variable (j : JobRecord)

@[simp] lemma JobRecord.key_eq : Keyed.key j = j.id := rfl

/-- `browser_tool_child_needs_result`. -/
def JobRecord.needsResult : Bool :=
  j.state == .completed && j.requestMetadata.parentWorkerJobId.isSome && j.externalJobId != "" &&
    !j.requestMetadata.codexToolResultRetrieved

/-- The submission of the job is under way or was interrupted: no handle is recorded. -/
def JobRecord.isOpen : Bool := j.state == .submitting && j.externalJobId == ""

/-- The first bytes of a text, as far as they make up characters. -/
def takeBytes : Nat → List Char → List Char
  | _, [] => []
  | n, c :: rest => if c.utf8Size ≤ n then c :: takeBytes (n - c.utf8Size) rest else []

/-- `bounded_error`. -/
def boundedError (text : String) : String :=
  if text.utf8ByteSize ≤ 512 then text else String.ofList (takeBytes 512 text.toList)

/-- `bounded_identifier`. -/
def boundedIdentifier (text : String) (maximum : Nat) : Bool :=
  text != "" && decide (text.utf8ByteSize ≤ maximum) &&
    text.toList.all fun c => c.isAlphanum || c == '-' || c == '_' || c == '.' || c == ':'

structure WorkerSubmission where
  externalJobId : String
  state : WorkerJobState := .queued
  metadata : Json := .obj []
  usage : WorkerUsage := {}
  result : Json := .null
  artifacts : List Json := []
  error : String := ""
  continuation : Option OpaqueContinuation := none

structure WorkerStatus where
  state : WorkerJobState := .unknown
  result : Json := .null
  metadata : Json := .obj []
  artifacts : List Json := []
  error : String := ""
  usage : WorkerUsage := {}
  continuation : Option OpaqueContinuation := none

/-- An event of a worker about a job; `usage` is none if the payload has no such field. -/
structure WorkerEvent where
  type : String
  sourceId : String := ""
  jobId : String
  externalJobId : String := ""
  progress : Json := .obj []
  usage : Option WorkerUsage := none
  result : Json := .obj []
  metadata : Json := .obj []
  continuation : Option OpaqueContinuation := none
  artifacts : List Json := []
  error : String := "Worker failed"

/-- `event_state`. -/
def eventState (type : String) : WorkerJobState :=
  if type = "worker.job.started" then .running
  else if type = "worker.job.completed" then .completed
  else if type = "worker.job.failed" then .failed
  else if type = "worker.job.cancelled" then .cancelled
  else .unknown

inductive WorkerExn where
  | submissionCancelled
  | transport (message : String) (timedOut : Bool)
  | error (e : Error)
  | other
  deriving DecidableEq, Repr

/-- `apply_continuation`. -/
def JobRecord.continued : Option OpaqueContinuation → Except WorkerExn JobRecord
  | none => .ok j
  | some c =>
    if c.providerId = "" ∨ 256 < c.providerId.utf8ByteSize ∨ c.providerVersion = "" ∨
        128 < c.providerVersion.utf8ByteSize ∨ c.state = "" ∨ 64 * 1024 < c.state.utf8ByteSize then
      .error (.transport "Worker returned invalid continuation state" false)
    else .ok { j with continuation := some c }

/-- The document is `null`. -/
def Json.isNull : Json → Bool
  | .null => true
  | _ => false

def Json.object? : Json → Option (List (String × Json))
  | .obj fields => some fields
  | _ => none

/-- The settings of the manager and what is fixed about its workers: which of them can recover
submissions, and the source of their events. `dump` is the length of a document as text. -/
structure ManagerConfig extends JobLimits where
  maxArtifacts : Nat := 16
  maxWallTimeMs : Nat := 0
  maxTokensPerRun : Nat := 0
  maxCostUnitsPerRun : Rat := 0
  dump : Json → Nat := fun _ => 0
  supportsRecovery : String → Bool := fun _ => false
  eventSource : String → String := fun _ => ""

def maxResultBytes : Nat := 1024 * 1024

def maxMetadataBytes : Nat := 64 * 1024

/-- The lengths of artifacts, each and together, are within the limit. -/
def artifactsFit (dump : Json → Nat) : Nat → List Json → Bool
  | _, [] => true
  | used, a :: rest =>
    decide (dump a ≤ maxMetadataBytes ∧ used ≤ maxMetadataBytes - dump a) &&
      artifactsFit dump (used + dump a) rest

/-- What `persist` stores: texts are cut, and only a completed job has a continuation. -/
def JobRecord.trimmed : JobRecord :=
  { j with
    error := boundedError j.error
    cancellationError := boundedError j.cancellationError
    continuation := if j.state = .completed then j.continuation else none }

variable (cfg : ManagerConfig)

/-- `persist` without the write. -/
def JobRecord.persisted (j : JobRecord) : Except Error JobRecord := do
  require (artifactsFit cfg.dump 0 j.artifacts)
    ⟨.validation, "Worker artifact metadata exceeds limit"⟩
  require (cfg.dump j.result ≤ maxResultBytes ∧ cfg.dump j.resultMetadata ≤ maxMetadataBytes ∧
      j.artifacts.length ≤ cfg.maxArtifacts)
    ⟨.validation, "Worker result exceeds limit"⟩
  require (cfg.dump (.obj j.usage.metadata) ≤ maxMetadataBytes)
    ⟨.validation, "Worker usage metadata exceeds limit"⟩
  return j.trimmed

/-- The record `j'` replaces the stored `j`: the store refuses a state that does not follow. -/
def JobRecord.storedAs (j j' : JobRecord) : Except Error JobRecord := do
  let j' ← j'.persisted cfg
  require (j.state = j'.state ∨ validWorkerJobTransition j.state j'.state)
    ⟨.conflict, "Invalid worker job state transition"⟩
  return j'

lemma JobRecord.storedAs_eq_ok {cfg : ManagerConfig} {j j' j'' : JobRecord}
    (h : j.storedAs cfg j' = .ok j'') : j'' = j'.trimmed ∧
      (j.state = j'.state ∨ validWorkerJobTransition j.state j'.state) := by
  simp only [storedAs, persisted, bind_eq_ok, require_eq_ok, pure_eq_ok] at h
  obtain ⟨_, ⟨-, -, -, -, -, -, rfl⟩, -, hstate, rfl⟩ := h
  exact ⟨rfl, hstate⟩

/-! ## Budgets -/

/-- The tokens of the other jobs of a run, or nothing if the sum has more than 64 bits. -/
def priorTokens (id : String) : Nat → List JobRecord → Option Nat
  | sum, [] => some sum
  | sum, j :: rest =>
    if j.id = id then priorTokens id sum rest
    else match j.usage.total with
      | none => priorTokens id sum rest
      | some tokens =>
        if sum ≤ maxUInt64 - tokens then priorTokens id (sum + tokens) rest else none

def priorCost (id : String) (rows : List JobRecord) : Rat :=
  ((rows.filter fun j => j.id ≠ id).map fun j => j.usage.costUnits.getD 0).sum

/-- The checks of `budget_violation` on the report itself. -/
def WorkerUsage.violation (u : WorkerUsage) : Option String :=
  let exceeds (metric : Option Nat) : Bool := metric.any fun n => decide (maxUsageMetric < n)
  if exceeds u.queueDurationMs || exceeds u.wallDurationMs || exceeds u.inputTokens ||
      exceeds u.outputTokens || exceeds u.totalTokens || exceeds u.toolCalls ||
      exceeds u.actionCount then
    some "reported worker usage exceeds the representable limit"
  else if maxMetadataBytes < cfg.dump (.obj u.metadata) then
    some "worker usage metadata exceeds the limit"
  else if 128 < u.provider.utf8ByteSize ∨ 128 < u.model.utf8ByteSize ∨
      128 < u.executor.utf8ByteSize then
    some "worker usage identity exceeds the limit"
  else if u.costUnits.any (fun c => decide (c < 0 ∨ (maxUsageMetric : Rat) < c)) then
    some "reported worker cost_units is invalid"
  else if cfg.maxWallTimeMs ≠ 0 ∧
      u.wallDurationMs.any (fun n => decide (cfg.maxWallTimeMs < n)) then
    some "worker wall-time budget exceeded"
  else none

/-- `budget_violation` reads the jobs of the run only if there is a budget. -/
def ManagerConfig.hasBudget : Bool :=
  cfg.maxTokensPerRun != 0 || cfg.maxCostUnitsPerRun != 0

/-- The checks of `budget_violation` against the jobs of the run. -/
def WorkerUsage.runViolation (rows : List JobRecord) (id : String)
    (u : WorkerUsage) : Option String :=
  match priorTokens id 0 rows with
  | none => some "worker token budget exceeded"
  | some prior =>
    if cfg.maxTokensPerRun ≠ 0 ∧ u.total.any (fun tokens =>
        decide (cfg.maxTokensPerRun < prior ∨ cfg.maxTokensPerRun - prior < tokens)) then
      some "worker token budget exceeded"
    else if cfg.maxCostUnitsPerRun ≠ 0 ∧ u.costUnits.any (fun cost =>
        decide (cfg.maxCostUnitsPerRun < priorCost id rows + cost)) then
      some "worker cost_units budget exceeded"
    else none

/-- `budget_violation`, given the jobs of the run. -/
def JobRecord.budgetViolation (rows : List JobRecord) (j : JobRecord) :
    Option String :=
  j.usage.violation cfg <|> if cfg.hasBudget then j.usage.runViolation cfg rows j.id else none

def JobRecord.overBudget (violation : String) : JobRecord :=
  { j with state := .failed, failureKind := .budget, error := violation }

end Laso
