import Laso.Core.Program
import Laso.Scheduler.Calls

/-!
# The scheduler

The code of `LocalScheduler`. Its functions run under the mutex of the scheduler, one at a time.

* `processDue` looks at every schedule that is due: it claims the occurrence, decides about misfires
  and overlaps, and launches a run.
* `processTrigger` does the same for one event and one trigger.
* `handleEvent` hands a published event to all triggers and, when it says that a run is over, lets a
  queued occurrence go.
* The rest creates and changes schedules and triggers, and replays what is stored after a restart.
-/

namespace Laso

/-- Code of the scheduler. -/
abbrev SchedOp (σ : Type) := Code schedSig Error σ

variable {σ : Type}

def query (q : SchedReq) : SchedOp σ q.Resp := Code.call (S := schedSig) q

/-- `emit_event`. -/
def emitEvent (e : SourceEvent) : SchedOp σ Unit := query (.receive e)

/-- `commit`, which throws when it is refused. -/
def commitRecords (records : List SchedRecord) : SchedOp σ Unit := do
  Code.ofExcept (← query (.commit records))

def dueText : Option Stamp → String
  | some due => Nat.repr due
  | none => ""

variable (type : String)

/-- `scheduler_event`. -/
def schedulerEvent (s : ScheduleDefinition) (due : Option Stamp := none)
    (extra : List (String × Json) := []) : SchedOp σ SourceEvent := do
  let (id, time) ← query .event
  return {
    id, type, time, pipelineId := s.pipelineId
    metadata := .obj ([("schedule_id", .str s.id), ("pipeline_version", .num s.pipelineVersion),
      ("due_at", .str (dueText due))] ++ extra) }

/-- The first event of a chain of events that cause each other. -/
def SourceEvent.root (e : SourceEvent) : String := if e.rootEventId = "" then e.id else e.rootEventId

variable (t : TriggerDefinition)

/-- `trigger_event`. -/
def triggerEvent (source : SourceEvent)
    (extra : List (String × Json) := []) : SchedOp σ SourceEvent := do
  let (id, time) ← query .event
  let e : SourceEvent := {
    id, type, time, pipelineId := t.pipelineId
    metadata := .obj ([("trigger_id", .str t.id), ("event_id", .str source.id),
      ("root_event_id", .str source.root)] ++ extra) }
  if source.id = "" then return e
  else return { e with
    causationId := source.id, rootEventId := source.root, triggerDepth := source.triggerDepth }

/-! ## Schedules -/

/-- `active_schedule_run`: the scan sees the first ten thousand runs. -/
def activeScheduleRun (scheduleId : String) : SchedOp σ Bool := do
  let runs ← Code.ofExcept (← query (.listRuns 10000))
  return runs.any fun r => r.scheduleId == scheduleId && !terminal r.state

variable (id : String)

/-- What is stored about an occurrence. The result says whether the pass goes on with it; the
variable is the record as the pass knows it. -/
def findOccurrence : SchedOp (Option ScheduleOccurrence) Bool :=
  tryCatch (do
    let o ← Code.ofExcept (← query (.getOccurrence id))
    set (some o)
    if o.status.final then return false
    if o.status = .claimed then
      -- An interrupted launch: its run is looked for.
      let runs ← Code.ofExcept (← query (.listRuns 10000))
      match runs.find? (fun r => r.scheduleOccurrenceId == id) with
      | some r =>
        commitRecords [.occurrence { o with status := .started, runId := r.id }]
        return false
      | none =>
        set (some { o with status := .pending })
        return true
    return true)
  fun e => if e.code = .notFound then pure true else throw e

/-- Claim an occurrence that is not stored; one that is pending or queued is claimed already. -/
def claimDue (s : ScheduleDefinition) (due : Stamp) : Option ScheduleOccurrence → SchedOp σ Bool
  | none => do Code.ofExcept (← query (.claimOccurrence (recordValue .claimed s due)))
  | some o => pure (decide (o.status = .pending ∨ o.status = .queued))

variable (dump : Json → Nat)

/-- The schedule after an occurrence: a one-time schedule is over. -/
def ScheduleDefinition.advance (s : ScheduleDefinition) (due : Stamp) :
    Except Error ScheduleDefinition :=
  if s.type = .oneTime then
    .ok { s with lastDueAt := some due, nextDueAt := none, enabled := false }
  else do
    let next ← nextScheduleDue dump s due
    .ok { s with lastDueAt := some due, nextDueAt := next }

lemma Validating.advance (s : ScheduleDefinition) (due : Stamp) :
    Validating (s.advance dump due) := by
  unfold ScheduleDefinition.advance
  split
  · exact ok _
  · exact bind (nextScheduleDue _ _ _) fun _ => ok _

/-- Skip the occurrences that are due as well, at most `n`. -/
def skipMissed (dump : Json → Nat) (now : WallTime) : Nat → ScheduleDefinition →
    Except Error ScheduleDefinition
  | 0, s => .ok s
  | n + 1, s =>
    match s.nextDueAt with
    | none => .ok s
    | some t =>
      if isDue (some t) now then do
        let next ← nextScheduleDue dump s t
        skipMissed dump now n { s with missedCount := s.missedCount + 1, nextDueAt := next }
      else .ok s

def ScheduleDefinition.missed (now : WallTime) (s : ScheduleDefinition)
    (due : Stamp) : Except Error ScheduleDefinition := do
  let s ← { s with missedCount := s.missedCount + 1 }.advance dump due
  if s.type = .oneTime then .ok s else skipMissed dump now 10000 s

/-- Store a schedule with the record of an occurrence and an event about it. -/
def recordOccurrence (s : ScheduleDefinition) (due : Stamp) (status : LaunchStatus)
    (runId : String := "") (extra : List (String × Json) := []) : SchedOp σ Unit := do
  let e ← schedulerEvent type s (some due) extra
  commitRecords [.schedule s, .occurrence (recordValue status s due runId), .event e]
  emitEvent e

def ScheduleDefinition.request (s : ScheduleDefinition) (due : Stamp) : LaunchRequest where
  pipelineId := s.pipelineId
  pipelineVersion := s.pipelineVersion
  input := s.input
  initiationType := "schedule"
  scheduleId := s.id
  scheduleOccurrenceId := occurrenceId s.id due
  dueAt := some due

variable (cfg : SchedConfig)

/-- Launch an occurrence. The variable counts the launches of the pass. -/
def launchOccurrence (now : WallTime) (s : ScheduleDefinition) (due : Stamp) :
    SchedOp Nat Unit :=
  tryCatch (do
    let runId ← Code.ofExcept (← query (.dispatch (s.request due)))
    let s ← Code.ofExcept ({ s with
      queued := false, queuedDueAt := none
      lastStartedAt := some (WallTime.stamp now) }.advance cfg.dump due)
    recordOccurrence "schedule.run_created" s due .started runId [("run_id", .str runId)]
    modify (· + 1))
  fun e => do
    commitRecords [.occurrence
      (recordValue (if e.code = .capacity then .pending else .failed) s due)]
    if e.code ≠ .capacity then modify (· + 1)

/-- The occurrence overlaps with a run of the schedule; one that is queued has waited already. -/
def overlaps (s : ScheduleDefinition) : SchedOp σ Bool :=
  if s.queued then pure false else activeScheduleRun s.id

/-- What becomes of an occurrence that the pass has claimed. -/
def handleDue (now : WallTime) (s : ScheduleDefinition) (due : Stamp) :
    SchedOp Nat Unit := do
  if isLate due now ∧ s.misfirePolicy = .skip then
    let s ← Code.ofExcept (s.missed cfg.dump now due)
    recordOccurrence "schedule.misfired" s due .skipped ""
      [("policy", .str "SKIP"), ("missed", .num s.missedCount)]
  else
    if ← overlaps s then
      match s.overlapPolicy with
      | .skip =>
        let s ← Code.ofExcept (s.advance cfg.dump due)
        recordOccurrence "schedule.skipped" s due .skipped "" [("reason", .str "overlap")]
      | .queueOne =>
        let s ← Code.ofExcept ({ s with queued := true, queuedDueAt := some due }.advance
          cfg.dump due)
        recordOccurrence "schedule.skipped" s due .queued "" [("reason", .str "overlap_queued")]
      | .allow => launchOccurrence cfg now s due
    else launchOccurrence cfg now s due

def processSchedule (now : WallTime) (s : ScheduleDefinition) :
    SchedOp Nat Unit :=
  if s.deleted ∨ (s.enabled = false ∧ s.queued = false) then pure ()
  else match s.effectiveDue with
    | none => pure ()
    | some due =>
      if s.queued = false ∧ isDue (some due) now = false then pure ()
      else do
        let (goOn, existing) ← Code.localVar none (findOccurrence (occurrenceId s.id due))
        if goOn then
          if ← claimDue s due existing then handleDue cfg now s due

/-- The loop of `process_due`, which stops at the limit of launches. -/
def processSchedules (cfg : SchedConfig) (now : WallTime) : List ScheduleDefinition → SchedOp Nat Unit
  | [] => pure ()
  | s :: rest => do
    if cfg.maxPendingLaunches ≤ (← get) then pure ()
    else
      processSchedule cfg now s
      processSchedules cfg now rest

/-- `process_due`. -/
def processDue : SchedOp Nat Unit := do
  let now ← query .now
  let schedules ← Code.ofExcept (← query (.listSchedules (cfg.maxPendingLaunches + 1)))
  processSchedules cfg now schedules

/-! ## Triggers -/

def Json.path? : Json → List String → Option Json
  | j, [] => some j
  | .obj fields, name :: rest =>
    match fields.find? (fun field => field.1 == name) with
    | some field => field.2.path? rest
    | none => none
  | _, _ :: _ => none

variable (t : TriggerDefinition)

def TriggerDefinition.matches (e : SourceEvent) : Bool :=
  t.enabled && !t.deleted && e.id != "" && !decide (e.time < t.createdAt) && t.eventType == e.type &&
    t.filters.all fun filter =>
      match e.metadata.path? ((splitChars '.' filter.1.toList).map String.ofList) with
      | some actual => actual == filter.2
      | none => false

def SourceEvent.json (e : SourceEvent) : Json :=
  .obj [("id", .str e.id), ("run_id", .str e.runId), ("pipeline_id", .str e.pipelineId),
    ("type", .str e.type), ("time", .str e.time), ("causation_id", .str e.causationId),
    ("root_event_id", .str e.rootEventId), ("trigger_depth", .num e.triggerDepth),
    ("metadata", e.metadata)]

def TriggerDefinition.request (e : SourceEvent) : LaunchRequest where
  pipelineId := t.pipelineId
  pipelineVersion := t.pipelineVersion
  input := .obj [("event", e.json)]
  initiationType := "event"
  triggerId := t.id
  eventId := e.id
  rootEventId := e.root
  triggerDepth := e.triggerDepth + 1

def newDelivery (e : SourceEvent) : TriggerDelivery where
  id := deliveryId t.id e.id
  triggerId := t.id
  eventId := e.id
  status := .claimed

/-- What is stored about a delivery: nothing more is to be done (`none`), or the record of a
delivery that is claimed already. -/
def findDelivery : SchedOp σ (Option (Option TriggerDelivery)) :=
  tryCatch (do
    let d ← Code.ofExcept (← query (.getDelivery id))
    if d.status.final then return none
    if d.status = .pending ∨ d.status = .claimed then return some (some d)
    return some none)
  fun e => if e.code = .notFound then pure (some none) else throw e

def launchDelivery (source : SourceEvent) (d : TriggerDelivery) :
    SchedOp σ Unit :=
  tryCatch (do
    let runId ← Code.ofExcept (← query (.dispatch (t.request source)))
    let e ← triggerEvent "trigger.run_created" t source [("run_id", .str runId)]
    commitRecords [.delivery { d with status := .started, runId }, .event e]
    emitEvent e)
  fun e => commitRecords
    [.delivery { d with status := if e.code = .capacity then .pending else .failed }]

/-- `process_trigger`. -/
def processTrigger (source : SourceEvent) :
    SchedOp σ Unit := do
  if t.matches source = false then pure ()
  else if cfg.maxTriggerDepth ≤ source.triggerDepth then
    emitEvent (← triggerEvent "trigger.skipped" t source [("reason", .str "depth")])
  else
    match ← findDelivery (deliveryId t.id source.id) with
    | none => pure ()
    | some (some d) => launchDelivery t source d
    | some none =>
      if ← Code.ofExcept (← query (.claimDelivery (newDelivery t source))) then
        launchDelivery t source (newDelivery t source)

def ignoreErrors (x : SchedOp σ Unit) : SchedOp σ Unit := tryCatch x fun _ => pure ()

/-- The triggers of `handle_event`. -/
def deliver (cfg : SchedConfig) (e : SourceEvent) : List TriggerDefinition → SchedOp σ Unit
  | [] => pure ()
  | t :: rest => do
    ignoreErrors (processTrigger cfg t e)
    deliver cfg e rest

/-- The schedule has nothing queued, or what is queued has to wait for a run. -/
def staysQueued (s : ScheduleDefinition) : SchedOp σ Bool :=
  if s.queued then activeScheduleRun s.id else pure true

/-- A run of a schedule is over: an occurrence that waits for it becomes due. -/
def reconcileCompletion (e : SourceEvent) : SchedOp σ Unit := do
  let r ← Code.ofExcept (← query (.getRun e.runId))
  if r.scheduleId = "" then pure ()
  else
    let s ← Code.ofExcept (← query (.getSchedule r.scheduleId))
    let s := { s with lastCompletedRunId := r.id }
    if ← staysQueued s then commitRecords [.schedule s]
    else commitRecords [.schedule { s with
      nextDueAt := s.queuedDueAt, queued := false, queuedDueAt := none }]

def completionTypes : List String := ["run.completed", "run.failed", "run.cancelled", "run.timed_out"]

/-- `handle_event`. -/
def handleEvent (e : SourceEvent) : SchedOp σ Unit := do
  let triggers ← Code.ofExcept (← query (.listTriggers cfg.maxEventDeliveries))
  deliver cfg e triggers
  if e.type ∈ completionTypes then ignoreErrors (reconcileCompletion e)

/-- The deliveries of `replay_pending_deliveries`. -/
def replayDeliveries (cfg : SchedConfig) : List TriggerDelivery → SchedOp σ Unit
  | [] => pure ()
  | d :: rest => do
    if d.status = .pending then
      ignoreErrors (do
        let t ← Code.ofExcept (← query (.getTrigger d.triggerId))
        let e ← Code.ofExcept (← query (.getEvent d.eventId))
        processTrigger cfg t e)
    replayDeliveries cfg rest

/-- `replay_pending_deliveries`. -/
def replayPendingDeliveries : SchedOp σ Unit := do
  replayDeliveries cfg (← Code.ofExcept (← query (.listDeliveries cfg.maxEventDeliveries)))

/-- `receive_event` for each of some events. -/
def receiveAll : List SourceEvent → SchedOp σ Unit
  | [] => pure ()
  | e :: rest => do
    query (.receive e)
    receiveAll rest

/-- `replay_events`. -/
def replayEvents : SchedOp σ Unit := do
  receiveAll (← Code.ofExcept (← query (.listEvents cfg.maxEventDeliveries)))

/-! ## Operations of the user -/

def storeSchedule (s : ScheduleDefinition) (due : Option Stamp := none) :
    SchedOp σ Unit := do
  let e ← schedulerEvent type s due
  commitRecords [.schedule s, .event e]
  emitEvent e

/-- `create_schedule`. -/
def createSchedule (s : ScheduleDefinition) : SchedOp σ Unit := do
  Code.ofExcept (validateSchedule cfg.dump s)
  match ← query (.getSchedule s.id) with
  | .ok _ => throw ⟨.conflict, "Schedule already exists"⟩
  | .error e =>
    if e.code = .notFound then storeSchedule "schedule.created" s s.nextDueAt else throw e

/-- `update_schedule`: the caller's record replaces the stored one. -/
def updateSchedule (s : ScheduleDefinition) : SchedOp σ Unit := do
  Code.ofExcept (validateSchedule cfg.dump s)
  let _ ← Code.ofExcept (← query (.getSchedule s.id))
  storeSchedule "schedule.updated" s s.nextDueAt

/-- The time of a schedule that is enabled or disabled: one without a time gets one when it is
enabled. -/
def timeWhenEnabled (s : ScheduleDefinition) (enabled : Bool) :
    SchedOp σ (Option Stamp) :=
  if enabled ∧ s.nextDueAt = none then
    if s.type = .oneTime then pure s.at_
    else do
      let now ← query .now
      Code.ofExcept (nextScheduleDue cfg.dump s (WallTime.stamp now))
  else pure s.nextDueAt

/-- `set_schedule_enabled`. -/
def setScheduleEnabled (id : String) (enabled : Bool) : SchedOp σ Unit := do
  let s ← Code.ofExcept (← query (.getSchedule id))
  if s.deleted ∧ enabled then throw ⟨.conflict, "Deleted schedule cannot be enabled"⟩
  else
    let next ← timeWhenEnabled cfg s enabled
    storeSchedule (if enabled then "schedule.enabled" else "schedule.disabled")
      { s with nextDueAt := next, enabled }

/-- `delete_schedule`: the record is kept. -/
def deleteSchedule : SchedOp σ Unit := do
  let s ← Code.ofExcept (← query (.getSchedule id))
  storeSchedule "schedule.deleted" { s with enabled := false, deleted := true }

def maxMatchBytes : Nat := 16 * 1024

def Json.scalar : Json → Bool
  | .arr _ | .obj _ => false
  | _ => true

def eventTypeChar (c : Char) : Bool := c.isAlphanum || c == '_' || c == '.' || c == '-'

/-- `validate_trigger`. -/
def validateTrigger : Except Error Unit := do
  require (t.id ≠ "" ∧ t.id.utf8ByteSize ≤ 128 ∧ t.name ≠ "" ∧ t.name.utf8ByteSize ≤ 128 ∧
      t.pipelineId ≠ "" ∧ t.pipelineId.utf8ByteSize ≤ 128 ∧ t.pipelineVersion ≠ 0 ∧
      t.eventType ≠ "" ∧ t.eventType.utf8ByteSize ≤ 128 ∧
      t.eventType.toList.all eventTypeChar ∧ t.filters.length ≤ 32 ∧
      dump (.obj t.filters) ≤ maxMatchBytes)
    ⟨.validation, "Invalid event trigger definition"⟩
  require (t.filters.all (fun filter =>
      filter.1 != "" && decide (filter.1.utf8ByteSize ≤ 128) && filter.2.scalar))
    ⟨.validation, "Event trigger filters must use scalar values"⟩

/-- Store a trigger with an event about it, which is caused by a new one. -/
def storeTrigger : SchedOp σ Unit := do
  let (id, time) ← query .event
  let e ← triggerEvent type t { id, time, type := "" }
  commitRecords [.trigger t, .event e]
  emitEvent e

/-- `create_trigger`. -/
def createTrigger : SchedOp σ Unit := do
  Code.ofExcept (validateTrigger cfg.dump t)
  match ← query (.getTrigger t.id) with
  | .ok _ => throw ⟨.conflict, "Trigger already exists"⟩
  | .error e => if e.code = .notFound then storeTrigger "trigger.created" t else throw e

/-- `update_trigger`. -/
def updateTrigger : SchedOp σ Unit := do
  Code.ofExcept (validateTrigger cfg.dump t)
  let old ← Code.ofExcept (← query (.getTrigger t.id))
  storeTrigger "trigger.updated" { t with createdAt := old.createdAt }

/-- `set_trigger_enabled`. -/
def setTriggerEnabled (enabled : Bool) : SchedOp σ Unit := do
  let t ← Code.ofExcept (← query (.getTrigger id))
  if t.deleted ∧ enabled then throw ⟨.conflict, "Deleted trigger cannot be enabled"⟩
  else storeTrigger (if enabled then "trigger.enabled" else "trigger.disabled") { t with enabled }

/-- `delete_trigger`. -/
def deleteTrigger : SchedOp σ Unit := do
  let t ← Code.ofExcept (← query (.getTrigger id))
  storeTrigger "trigger.deleted" { t with enabled := false, deleted := true }

end Laso
