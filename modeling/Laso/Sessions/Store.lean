import Laso.Core.Transaction
import Laso.Runtime.Storage
import Mathlib.Algebra.Group.Nat.Defs
import Mathlib.Data.List.Sort

/-!
# The transactions of agent sessions

A session is a row, its turns and its event journal; the transactions of `PostgresStorage` on them
lock the session row first, so each one is a function on the tables. A turn is submitted, claimed
by a dispatcher, bound to a run and settled when the run ends; closing a session settles the turns
that do not run. Context generations and the snapshot that is taken when a run is bound belong to
the same tables.

A failing transaction returns an error and no tables. Every event a transaction inserts is numbered
from the counter of the session row; `ids` are the identifiers drawn for the events, by number.
The length of a document is a parameter (`SessionCodec`); times are left out.
-/

namespace Laso

inductive SessionState where
  | opened | closing | closed
  deriving DecidableEq, Repr

inductive SessionTurnState where
  | queued | claimed | running | succeeded | failed | cancelled
  deriving DecidableEq, Repr

def SessionTurnState.settled : SessionTurnState → Bool
  | .succeeded | .failed | .cancelled => true
  | _ => false

def SessionTurnState.active : SessionTurnState → Bool
  | .claimed | .running => true
  | _ => false

/-- The outcome of a turn whose run ended in this state. -/
def sessionOutcome : RunState → SessionTurnState
  | .completed => .succeeded
  | .cancelled => .cancelled
  | _ => .failed

structure AgentSession where
  id : String
  pipelineId : String := ""
  state : SessionState := .opened
  activeTurnId : String := ""
  activeRunId : String := ""
  dispatchGeneration : Nat := 0
  nextSequence : Nat := 1
  deriving DecidableEq, Repr

instance : Keyed AgentSession := ⟨AgentSession.id⟩

/-- A turn: one input of a session and what became of it. -/
structure SessionTurn where
  id : String := ""
  sessionId : String := ""
  sequence : Nat := 0
  idempotencyKey : String
  input : Json
  pipelineId : String := ""
  state : SessionTurnState := .queued
  runId : String := ""
  dispatchOwner : String := ""
  dispatchFencingToken : Nat := 0
  dispatchAttempt : Nat := 0
  cancellationRequested : Bool := false
  result : Json := .null
  error : String := ""

instance : Keyed SessionTurn := ⟨SessionTurn.id⟩

inductive SessionEventType where
  | inputAccepted | turnClaimed | turnStarted | turnCompleted | turnFailed | turnCancelled
  | turnCancelRequested | sessionClosing | sessionClosed
  deriving DecidableEq, Repr

structure SessionEvent where
  id : String
  sessionId : String
  sequence : Nat
  type : SessionEventType
  turnId : String := ""
  runId : String := ""
  payload : Json := .obj []

/-- A derived context of a session, up to one of its turns. -/
structure SessionContextGeneration where
  id : String
  sessionId : String
  generation : Nat
  predecessorId : String
  throughTurnSequence : Nat
  representationKind : String
  representationVersion : String
  idempotencyKey : String
  payload : Json

instance : Keyed SessionContextGeneration := ⟨SessionContextGeneration.id⟩

/-- Whether the state a provider keeps between turns is the one in use. -/
inductive ContinuationScope where
  | candidate | current | discarded
  deriving DecidableEq, Repr

/-- State a provider keeps between the turns of a session. `runId` is the run that produced a
candidate, and the session itself once the state is in use. -/
structure SessionContinuation where
  id : String
  scope : ContinuationScope
  runId : String
  sessionId : String
  turnId : String := ""
  sourceRunId : String := ""
  providerId : String
  providerVersion : String
  state : String
  deriving DecidableEq, Repr

instance : Keyed SessionContinuation := ⟨SessionContinuation.id⟩

/-- What a run was given of its session when it was bound. -/
structure RunContextSnapshot where
  runId : String
  sessionId : String
  sessionTurnId : String
  turnSequence : Nat
  historyThroughTurnSequence : Nat
  contextGenerationId : String := ""
  contextGeneration : Nat := 0
  contextGenerationPredecessorId : String := ""
  contextThroughTurnSequence : Nat := 0
  representationKind : String := ""
  representationVersion : String := ""
  /-- Provider, its version and its state. -/
  providerContinuations : List (String × String × String) := []
  deriving DecidableEq, Repr

instance : Keyed RunContextSnapshot := ⟨RunContextSnapshot.runId⟩

/-- A record of a checkpoint of a session run. -/
inductive SessionRecord where
  | record (r : Record)
  | continuation (c : SessionContinuation)

/-- The tables of sessions beside the other tables. -/
structure SessionDb where
  core : Db := {}
  sessions : Table AgentSession := Table.empty
  turns : Table SessionTurn := Table.empty
  events : List SessionEvent := []
  generations : Table SessionContextGeneration := Table.empty
  snapshots : Table RunContextSnapshot := Table.empty
  continuations : Table SessionContinuation := Table.empty

inductive Selection where
  /-- No turn can be claimed. -/
  | nothing
  /-- The dispatcher has claimed the active turn already. -/
  | held (turn : SessionTurn)
  | free (turn : SessionTurn)

structure SessionCodec where
  session : AgentSession → Nat
  turn : SessionTurn → Nat
  event : SessionEvent → Nat

/-- The largest number a `BIGINT` column holds. -/
def maxSequence : Nat := 2 ^ 63 - 1

def maxStored : Nat := 4 * 1024 * 1024

def maxEvent : Nat := 2 * 1024 * 1024

/-! ## What becomes of a turn -/

namespace SessionTurn

variable (turn : SessionTurn)

/-- The turn after its claim; the number of the attempt is a 32-bit counter. -/
def claim (owner : String) (fence : Nat) : SessionTurn :=
  { turn with
    state := .claimed, dispatchOwner := owner, dispatchFencingToken := fence
    dispatchAttempt := (turn.dispatchAttempt + 1) % 2 ^ 32 }

def unclaim : SessionTurn :=
  { turn with dispatchOwner := "", dispatchFencingToken := 0 }

def bind (runId : String) : SessionTurn :=
  { turn.unclaim with state := .running, runId }

def complete (r : Run) : SessionTurn :=
  let outcome := sessionOutcome r.state
  { turn.unclaim with
    state := outcome
    result := r.message.payload
    error :=
      if outcome = .failed then "execution_failed"
      else if outcome = .cancelled then "execution_cancelled"
      else turn.error }

def cancel : SessionTurn :=
  { turn.unclaim with state := .cancelled, error := "session_closed" }

end SessionTurn

namespace SessionDb

variable (codec : SessionCodec)

/-! ## Statements -/

variable (db : SessionDb) (sessionId : String)

def turnsOf : List SessionTurn :=
  db.turns.rows.filter fun t => t.sessionId = sessionId

/-- The turns of a session in the order of their numbers. -/
def turnsInOrder : List SessionTurn :=
  (db.turnsOf sessionId).insertionSort fun a b => a.sequence ≤ b.sequence

def lastTurnSequence : Nat :=
  ((db.turnsOf sessionId).map SessionTurn.sequence).foldl max 0

def eventsOf : List SessionEvent :=
  db.events.filter fun e => e.sessionId = sessionId

def lockSession : Except Error AgentSession :=
  match db.sessions.get sessionId with
  | some session => .ok session
  | none => .error ⟨.notFound, "Agent session not found"⟩

def lockTurn (turnId : String) : Except Error SessionTurn :=
  match db.turns.get turnId with
  | some turn => .ok turn
  | none => .error ⟨.notFound, "Session turn not found"⟩

/-- `serialize`: stored documents are limited. -/
def serialize (length : Nat) : Except Error Unit :=
  require (length ≤ maxStored) ⟨.storage, "Stored record exceeds limit"⟩

def updateSession (session : AgentSession) : Except Error SessionDb := do
  serialize (codec.session session)
  return { db with sessions := db.sessions.put session }

def updateTurn (turn : SessionTurn) : Except Error SessionDb := do
  serialize (codec.turn turn)
  return { db with turns := db.turns.put turn }

def insertTurn (turn : SessionTurn) : Except Error SessionDb := do
  serialize (codec.turn turn)
  require ((db.turns.get turn.id).isNone) ⟨.conflict, "PostgreSQL uniqueness conflict"⟩
  return { db with turns := db.turns.put turn }

/-- The identifiers of events are a primary key, and the column of their numbers is bounded. -/
def insertEvent (event : SessionEvent) : Except Error SessionDb := do
  serialize (codec.event event)
  require (event.sequence ≤ maxSequence) ⟨.storage, "PostgreSQL operation failed"⟩
  require (∀ e ∈ db.events, e.id ≠ event.id) ⟨.conflict, "PostgreSQL uniqueness conflict"⟩
  return { db with events := db.events ++ [event] }

variable (now : Nat)

/-- The check that a lease is current, made by transactions on behalf of a lease holder. -/
def requireLease (resource owner : String) (token : Nat)
    (message : String) : Except Error Unit :=
  require (token = 0 ∨ db.core.leases.holdsAt now resource owner token) ⟨.conflict, message⟩

/-! ## Submitting a turn -/

/-- `submit_session_turn`. Answers whether the turn is new. -/
def submitSessionTurn (sessionId turnId : String) (turn : SessionTurn)
    (ids : Nat → String) : Except Error (Bool × SessionDb) := do
  require (sessionId ≠ "" ∧ sessionId.utf8ByteSize ≤ 128 ∧ turnId ≠ "" ∧
    turnId.utf8ByteSize ≤ 256 ∧ codec.turn turn ≤ 1024 * 1024) ⟨.validation, "Invalid session turn"⟩
  let session ← db.lockSession sessionId
  match db.turns.get turnId with
  | some prior =>
    require (prior.sessionId = sessionId ∧ prior.idempotencyKey = turn.idempotencyKey ∧
      (prior.input == turn.input)) ⟨.conflict, "Session turn idempotency key was reused"⟩
    return (false, db)
  | none =>
    require (session.state = .opened) ⟨.conflict, "Agent session is closed"⟩
    let eventSequence := session.nextSequence
    require (eventSequence ≤ maxSequence) ⟨.capacity, "Agent session sequence is exhausted"⟩
    let last := db.lastTurnSequence sessionId
    require (last < maxSequence) ⟨.capacity, "Agent session turn sequence is exhausted"⟩
    let event : SessionEvent :=
      { id := ids eventSequence, sessionId, sequence := eventSequence, type := .inputAccepted,
        turnId, payload := .obj [("input", turn.input)] }
    require (codec.event event ≤ maxEvent) ⟨.validation, "Session event exceeds limit"⟩
    let db ← db.insertTurn codec { turn with id := turnId, sessionId, sequence := last + 1 }
    let db ← db.insertEvent codec event
    let db ← db.updateSession codec { session with nextSequence := eventSequence + 1 }
    return (true, db)

/-! ## Claiming a turn -/

/-- The turn to claim: the active one if its claim can be taken over, else the first queued one. -/
def selectTurn (session : AgentSession) (owner : String) (fencingToken : Nat) :
    Except Error Selection :=
  if session.activeTurnId ≠ "" then
    match db.turns.get session.activeTurnId with
    | none => .error ⟨.storage, "Active session turn is missing"⟩
    | some turn =>
      if turn.state ≠ .claimed ∨ turn.runId ≠ "" then .ok .nothing
      else if turn.dispatchOwner = owner ∧ turn.dispatchFencingToken =
          (if 0 < fencingToken then fencingToken else session.dispatchGeneration) then
        .ok (.held turn)
      else if 0 < fencingToken ∧ fencingToken ≤ turn.dispatchFencingToken then .ok .nothing
      else .ok (.free turn)
  else
    match (db.turnsInOrder session.id).find? fun t => t.state = .queued with
    | none => .ok .nothing
    | some turn => .ok (.free turn)

/-- `claim_next_session_turn`: with a token, on behalf of the holder of the session's lease. -/
def claimNextSessionTurn (sessionId owner : String)
    (fencingToken : Nat) (leaseExpiresAt : String) (ids : Nat → String) :
    Except Error (Option SessionTurn × SessionDb) := do
  require (sessionId ≠ "" ∧ owner ≠ "" ∧ (fencingToken = 0 ∨ leaseExpiresAt ≠ ""))
    ⟨.validation, "Invalid session dispatch ownership"⟩
  db.requireLease now ("session:" ++ sessionId) owner fencingToken "Session dispatch lease is stale"
  let session ← db.lockSession sessionId
  if session.state ≠ .opened then return (none, db)
  else match ← db.selectTurn session owner fencingToken with
    | .nothing => return (none, db)
    | .held turn => return (some turn, db)
    | .free turn =>
      let fence := if 0 < fencingToken then fencingToken else session.dispatchGeneration + 1
      let turn := turn.claim owner fence
      let db ← db.updateTurn codec turn
      let db ← db.insertEvent codec
        { id := ids session.nextSequence, sessionId, sequence := session.nextSequence
          type := .turnClaimed, turnId := turn.id
          payload := .obj [("dispatch_attempt", .num turn.dispatchAttempt),
            ("state", .str "claimed")] }
      let db ← db.updateSession codec { session with
        activeTurnId := turn.id
        dispatchGeneration := session.dispatchGeneration + 1
        nextSequence := session.nextSequence + 1 }
      return (some turn, db)

/-! ## Binding a run -/

/-- The generation of a session that was inserted last. -/
def latestGeneration : Option SessionContextGeneration :=
  (db.generations.rows.filter fun g => g.sessionId = sessionId).getLast?

def currentContinuations :
    List (String × String × String) :=
  (db.continuations.rows.filter fun c => c.runId = sessionId ∧ c.scope = .current ∧
    c.sessionId = sessionId ∧ c.providerId ≠ "" ∧ c.providerVersion ≠ "" ∧ c.state ≠ "").map
      fun c => (c.providerId, c.providerVersion, c.state)

def snapshot (turn : SessionTurn) (runId : String) :
    Except Error RunContextSnapshot :=
  let base : RunContextSnapshot :=
    { runId, sessionId := turn.sessionId, sessionTurnId := turn.id, turnSequence := turn.sequence
      historyThroughTurnSequence := turn.sequence
      providerContinuations := db.currentContinuations turn.sessionId }
  match db.latestGeneration turn.sessionId with
  | none => .ok base
  | some g =>
    if turn.sequence ≤ g.throughTurnSequence then
      .error ⟨.conflict, "Session context generation is ahead of this turn"⟩
    else .ok { base with
      contextGenerationId := g.id
      contextGeneration := g.generation
      contextGenerationPredecessorId := g.predecessorId
      contextThroughTurnSequence := g.throughTurnSequence
      representationKind := g.representationKind
      representationVersion := g.representationVersion }

def insertSnapshot (s : RunContextSnapshot) : Except Error SessionDb := do
  require ((db.snapshots.get s.runId).isNone) ⟨.conflict, "PostgreSQL uniqueness conflict"⟩
  return { db with snapshots := db.snapshots.put s }

/-- `bind_session_turn_run`: the run is created, the turn runs. Answers `false` when the turn has
this run already. -/
def bindSessionTurnRun (sessionId turnId : String) (r : Run)
    (runEvent : Event) (owner : String) (fencingToken : Nat) (ids : Nat → String) :
    Except Error (Bool × SessionDb) := do
  require (sessionId ≠ "" ∧ turnId ≠ "" ∧ owner ≠ "" ∧ r.sessionId = sessionId ∧
    r.sessionTurnId = turnId) ⟨.validation, "Invalid session run binding"⟩
  db.requireLease now ("session:" ++ sessionId) owner fencingToken "Session dispatch lease is stale"
  let session ← db.lockSession sessionId
  let turn ← db.lockTurn turnId
  require (turn.sessionId = sessionId) ⟨.conflict, "Session turn belongs to another session"⟩
  if turn.state = .running ∧ turn.runId = r.id then return (false, db)
  else
    let fence := if 0 < fencingToken then fencingToken else session.dispatchGeneration
    require (session.state = .opened ∧ session.activeTurnId = turnId ∧ turn.state = .claimed ∧
      turn.dispatchOwner = owner ∧ turn.dispatchFencingToken = fence ∧ turn.runId = "")
      ⟨.conflict, "Session turn claim is no longer current"⟩
    let core ← db.core.writeRecords [.run r, .event runEvent]
    let db := { db with core }
    let s ← db.snapshot turn r.id
    let db ← db.insertSnapshot s
    let db ← db.updateTurn codec (turn.bind r.id)
    let db ← db.insertEvent codec
      { id := ids session.nextSequence, sessionId, sequence := session.nextSequence
        type := .turnStarted, turnId, runId := r.id
        payload := .obj [("run_id", .str r.id), ("state", .str "running")] }
    let db ← db.updateSession codec { session with
      activeRunId := r.id, nextSequence := session.nextSequence + 1 }
    return (true, db)

/-! ## Completing the run of a turn -/

def runOf : List SessionRecord → Option Run
  | [] => none
  | .record (.run r) :: _ => some r
  | _ :: rest => runOf rest

/-- `write_records` for a checkpoint of a session run. -/
def writeRecords (db : SessionDb) : List SessionRecord → Except Error SessionDb
  | [] => .ok db
  | .record r :: rest => do
    let core ← db.core.writeRecord r
    writeRecords { db with core } rest
  | .continuation c :: rest => do
    require (c.id ≠ "") ⟨.validation, "Record id is empty"⟩
    writeRecords { db with continuations := db.continuations.put c } rest

/-- The event that reports the outcome of a run. A result that is too long stays in the run. -/
def completionEvent (r : Run) (turn : SessionTurn) (sequence : Nat) (id : String) : SessionEvent :=
  let base (fields : List (String × Json)) : SessionEvent :=
    { id, sessionId := r.sessionId, sequence, turnId := r.sessionTurnId, runId := r.id
      type := match turn.state with
        | .succeeded => .turnCompleted
        | .cancelled => .turnCancelled
        | _ => .turnFailed
      payload := .obj fields }
  let run : String × Json := ("run_id", .str r.id)
  match turn.state with
  | .succeeded =>
    let state : String × Json := ("state", .str "succeeded")
    let event := base [("result", r.message.payload), run, state]
    if maxEvent < codec.event event then base [("result_in_run", .bool true), run, state]
    else event
  | outcome =>
    let state : String × Json :=
      ("state", .str (if outcome = .cancelled then "cancelled" else "failed"))
    let event := base [("error", .str turn.error), run, state]
    if maxEvent < codec.event event then
      base [("error", .str turn.error), ("result_in_run", .bool true), run, state]
    else event

variable (db : SessionDb) (session : AgentSession) (ids : Nat → String)

/-- `append_event` of a session that is being closed: the next event of its journal. -/
def appendEvent (type : SessionEventType) (turnId runId : String) (payload : Json) :
    Except Error (AgentSession × SessionDb) := do
  require (session.nextSequence ≤ maxSequence) ⟨.capacity, "Agent session sequence is exhausted"⟩
  let db ← db.insertEvent codec
    { id := ids session.nextSequence, sessionId := session.id, sequence := session.nextSequence
      type, turnId, runId, payload }
  return ({ session with nextSequence := session.nextSequence + 1 }, db)

/-- The end of the run of a session that is closing closes it. -/
def closeIfClosing :
    Except Error (AgentSession × SessionDb) :=
  if session.state = .closing then
    db.appendEvent codec { session with state := .closed } ids .sessionClosed "" ""
      (.obj [("state", .str "closed")])
  else .ok (session, db)

/-- `commit_session_run`: the last checkpoint of a session run settles its turn, and closes the
session if that was requested. -/
def commitSessionRun (db : SessionDb) (now : Nat) (records : List SessionRecord) (owner : String)
    (fencingToken : Nat) (ids : Nat → String) : Except Error SessionDb := do
  require (¬((fencingToken = 0 ∧ owner ≠ "") ∨ (0 < fencingToken ∧ owner = "")))
    ⟨.validation, "Invalid session run ownership proof"⟩
  match runOf records with
  | none => .error ⟨.validation, "Session completion has no run record"⟩
  | some r =>
    require (r.sessionId ≠ "" ∧ r.sessionTurnId ≠ "" ∧ terminal r.state)
      ⟨.validation, "Invalid session completion"⟩
    db.requireLease now ("run:" ++ r.id) owner fencingToken "Run ownership is no longer valid"
    let session ← db.lockSession r.sessionId
    let turn ← db.lockTurn r.sessionTurnId
    if turn.state = sessionOutcome r.state ∧ turn.runId = r.id then return db
    else
      require (session.activeRunId = r.id ∧ session.activeTurnId = r.sessionTurnId ∧
        turn.sessionId = r.sessionId ∧ turn.runId = r.id ∧ turn.state = .running)
        ⟨.conflict, "Session completion is no longer current"⟩
      let turn := turn.complete r
      let db ← db.writeRecords records
      let db ← db.updateTurn codec turn
      let db ← db.insertEvent codec
        (completionEvent codec r turn session.nextSequence (ids session.nextSequence))
      let session := { session with
        activeTurnId := "", activeRunId := "", nextSequence := session.nextSequence + 1 }
      let (session, db) ← db.closeIfClosing codec session ids
      db.updateSession codec session

/-! ## Closing a session -/

/-- `persist_turn`: the turn is cancelled, and the journal says so. -/
def cancelTurn (turn : SessionTurn) : Except Error (AgentSession × SessionDb) := do
  let db ← db.updateTurn codec turn.cancel
  db.appendEvent codec session ids .turnCancelled turn.id ""
    (.obj [("reason", .str "session_closed"), ("state", .str "cancelled")])

def cancelTurns (hasActiveRun : Bool) (ids : Nat → String) :
    List SessionTurn → AgentSession → SessionDb → Except Error (AgentSession × SessionDb)
  | [], session, db => .ok (session, db)
  | turn :: rest, session, db => do
    if turn.state = .queued ∨ (hasActiveRun = false ∧ turn.state = .claimed) then
      let (session, db) ← db.cancelTurn codec session ids turn
      cancelTurns hasActiveRun ids rest session db
    else cancelTurns hasActiveRun ids rest session db

/-- The active turn of a session with a run: its cancellation is requested. -/
def requestTurnCancellation :
    Except Error (AgentSession × SessionDb) :=
  if session.activeTurnId ≠ "" then
    match db.turns.get session.activeTurnId with
    | none => .error ⟨.storage, "Active session turn is missing"⟩
    | some turn => do
      let db ← db.updateTurn codec { turn with cancellationRequested := true }
      db.appendEvent codec session ids .turnCancelRequested session.activeTurnId
        session.activeRunId (.obj [("state", .str "cancellation_requested")])
  else .ok (session, db)

def cancelClaim :
    Except Error (AgentSession × SessionDb) :=
  match db.turns.get session.activeTurnId with
  | none => .ok (session, db)
  | some turn =>
    if turn.state = .claimed ∨ turn.state = .queued then db.cancelTurn codec session ids turn
    else .ok (session, db)

def dropActiveTurn :
    Except Error (AgentSession × SessionDb) :=
  if session.activeTurnId ≠ "" then do
    let (session, db) ← db.cancelClaim codec session ids
    return ({ session with activeTurnId := "" }, db)
  else .ok (session, db)

/-- Closing a session with a run: the end of the run will close it. -/
def closeLater :
    Except Error (AgentSession × SessionDb) := do
  let (session, db) ← db.requestTurnCancellation codec session ids
  cancelTurns codec true ids (db.turnsInOrder session.id) session db

def closeNow :
    Except Error (AgentSession × SessionDb) := do
  let (session, db) ← db.dropActiveTurn codec session ids
  let (session, db) ← cancelTurns codec false ids (db.turnsInOrder session.id) session db
  db.appendEvent codec { session with activeRunId := "" } ids .sessionClosed "" ""
    (.obj [("state", .str "closed")])

def beginClosing :
    Except Error (AgentSession × SessionDb) := do
  let hasActiveRun : Bool := session.activeRunId ≠ ""
  let session := { session with state := if hasActiveRun then .closing else .closed }
  let (session, db) ← db.appendEvent codec session ids .sessionClosing "" ""
    (.obj [("state", .str "closing")])
  if hasActiveRun then db.closeLater codec session ids else db.closeNow codec session ids

/-- `close_agent_session`. A session whose active turn runs is closed by the end of the run. -/
def closeAgentSession (db : SessionDb) (sessionId : String) (ids : Nat → String) :
    Except Error (Bool × SessionDb) := do
  require (sessionId ≠ "" ∧ sessionId.utf8ByteSize ≤ 128) ⟨.validation, "Invalid agent session id"⟩
  let session ← db.lockSession sessionId
  if session.state = .closed then return (false, db)
  else if session.state = .closing then
    let db ← db.updateSession codec session
    return (true, db)
  else
    let (session, db) ← db.beginClosing codec session ids
    let db ← db.updateSession codec session
    return (true, db)

end SessionDb

end Laso
