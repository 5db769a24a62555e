import Laso.Core.Program
import Laso.Scheduler.Definitions
import Laso.Runtime.Requests

/-!
# What the scheduler calls

`LocalScheduler` uses the store, the clock and the service that starts runs. `SchedReq` are its
calls, `SchedWorld.perform` says what they do.

The claim of an occurrence, the launch of its run and the record of the launch are three
transactions. `perform` notes every launch that succeeds in `launches` and the last reading of the
clock in `clock`; no code reads either.
-/

namespace Laso

inductive SchedRecord where
  | schedule (s : ScheduleDefinition)
  | occurrence (o : ScheduleOccurrence)
  | trigger (t : TriggerDefinition)
  | delivery (d : TriggerDelivery)
  | event (e : SourceEvent)

/-- A request to start a run, with its origin. -/
structure LaunchRequest where
  pipelineId : String
  pipelineVersion : Nat := 1
  input : Json := .obj []
  initiationType : String
  scheduleId : String := ""
  scheduleOccurrenceId : String := ""
  dueAt : Option Stamp := none
  triggerId : String := ""
  eventId : String := ""
  rootEventId : String := ""
  triggerDepth : Nat := 0

/-- The tables the scheduler uses. A new run has a fresh identifier, so runs are only appended. -/
structure SchedDb where
  schedules : Table ScheduleDefinition := Table.empty
  occurrences : Table ScheduleOccurrence := Table.empty
  triggers : Table TriggerDefinition := Table.empty
  deliveries : Table TriggerDelivery := Table.empty
  events : Table SourceEvent := Table.empty
  runs : List RunRow := []

/-- The settings of the scheduler; `dump` is the length of a document as text. -/
structure SchedConfig where
  maxPendingLaunches : Nat := 128
  maxTriggerDepth : Nat := 16
  maxEventDeliveries : Nat := 1024
  dump : Json → Nat := fun _ => 0
  uuids : UuidSource := sampleUuids

/-- Calls of the scheduler. `event` is the identifier and the time of a new event; with `receive` an
event that is published comes back to the scheduler, which is subscribed to all of them. -/
inductive SchedReq where
  | now
  | event
  | listSchedules (limit : Nat)
  | getSchedule (id : String)
  | getOccurrence (id : String)
  | claimOccurrence (o : ScheduleOccurrence)
  | listRuns (limit : Nat)
  | getRun (id : String)
  | listTriggers (limit : Nat)
  | getTrigger (id : String)
  | listDeliveries (limit : Nat)
  | getDelivery (id : String)
  | claimDelivery (d : TriggerDelivery)
  | listEvents (limit : Nat)
  | getEvent (id : String)
  | commit (records : List SchedRecord)
  | dispatch (request : LaunchRequest)
  | receive (e : SourceEvent)

def SchedReq.Resp : SchedReq → Type
  | .now => WallTime
  | .event => String × String
  | .listSchedules _ => Except Error (List ScheduleDefinition)
  | .getSchedule _ => Except Error ScheduleDefinition
  | .getOccurrence _ => Except Error ScheduleOccurrence
  | .claimOccurrence _ => Except Error Bool
  | .listRuns _ => Except Error (List RunRow)
  | .getRun _ => Except Error RunRow
  | .listTriggers _ => Except Error (List TriggerDefinition)
  | .getTrigger _ => Except Error TriggerDefinition
  | .listDeliveries _ => Except Error (List TriggerDelivery)
  | .getDelivery _ => Except Error TriggerDelivery
  | .claimDelivery _ => Except Error Bool
  | .listEvents _ => Except Error (List SourceEvent)
  | .getEvent _ => Except Error SourceEvent
  | .commit _ => Except Error Unit
  | .dispatch _ => Except Error String
  | .receive _ => Unit

def schedSig : Sig := ⟨SchedReq, SchedReq.Resp⟩

/-- The store, the events waiting for the scheduler, the last reading of the clock and the launches
so far, the newest first. -/
structure SchedWorld where
  db : SchedDb := {}
  pending : List SourceEvent := []
  issued : Nat := 0
  clock : WallTime := 0
  launches : List LaunchRequest := []

/-- What the world does not determine about a call. -/
structure SchedOracle where
  /-- The database refuses the call, without effect. -/
  fault : Option Error := none
  /-- The service refuses to start the run. -/
  refusal : Option Error := none
  /-- The clock. -/
  time : WallTime := 0

namespace SchedDb

/-- `list`, in the order of insertion. -/
def list {α : Type} (rows : List α) (limit : Nat) : Except Error (List α) :=
  if 10000 < limit then .error ⟨.validation, "Pagination limit exceeded"⟩
  else .ok (rows.take limit)

/-- `get`. -/
def find {α : Type} : Option α → Except Error α
  | some a => .ok a
  | none => .error ⟨.notFound, "Record not found"⟩

variable {α : Type} [Keyed α]

/-- `claim`: insert a row unless there is one. -/
def claim (t : Table α) (a : α) : Except Error Bool × Table α :=
  if Keyed.key a = "" then (.error ⟨.validation, "Record id is empty"⟩, t)
  else if (t.get (Keyed.key a)).isSome then (.ok false, t)
  else (.ok true, t.put a)

def recordId : SchedRecord → String
  | .schedule s => s.id
  | .occurrence o => o.id
  | .trigger t => t.id
  | .delivery d => d.id
  | .event e => e.id

def write (db : SchedDb) : SchedRecord → SchedDb
  | .schedule s => { db with schedules := db.schedules.put s }
  | .occurrence o => { db with occurrences := db.occurrences.put o }
  | .trigger t => { db with triggers := db.triggers.put t }
  | .delivery d => { db with deliveries := db.deliveries.put d }
  | .event e => { db with events := db.events.put e }

/-- `commit`: all records or none. -/
def commit (db : SchedDb) (records : List SchedRecord) : Except Error Unit × SchedDb :=
  if records.any (fun record => recordId record = "") then
    (.error ⟨.validation, "Record id is empty"⟩, db)
  else (.ok (), records.foldl write db)

end SchedDb

namespace SchedWorld

def read {α : Type} (o : SchedOracle) (w : SchedWorld) (x : Except Error α) :
    Except Error α × SchedWorld :=
  (match o.fault with | some e => .error e | none => x, w)

def transact {α : Type} (o : SchedOracle) (w : SchedWorld) (x : Except Error α × SchedDb) :
    Except Error α × SchedWorld :=
  match o.fault with
  | some e => (.error e, w)
  | none => (x.1, { w with db := x.2 })

def rowOf (id : String) (q : LaunchRequest) : RunRow :=
  { id, scheduleId := q.scheduleId, scheduleOccurrenceId := q.scheduleOccurrenceId
    triggerId := q.triggerId, eventId := q.eventId }

variable (cfg : SchedConfig) (o : SchedOracle) (w : SchedWorld)

/-- `dispatch_`: the service creates a run, or refuses to. -/
def dispatch (q : LaunchRequest) :
    Except Error String × SchedWorld :=
  match o.refusal with
  | some e => (.error e, w)
  | none =>
    let id := cfg.uuids.draw w.issued
    (.ok id, { w with
      db := { w.db with runs := w.db.runs ++ [rowOf id q] }
      issued := w.issued + 1, launches := q :: w.launches })

/-- `receive_event`: the event is posted unless too many are waiting. -/
def receive (cfg : SchedConfig) (w : SchedWorld) (e : SourceEvent) : SchedWorld :=
  if cfg.maxEventDeliveries ≤ w.pending.length then w
  else { w with pending := w.pending ++ [e] }

def perform :
    (q : SchedReq) → q.Resp × SchedWorld
  | .now => (o.time, { w with clock := o.time })
  | .event => ((cfg.uuids.draw w.issued, (WallTime.stamp o.time).format),
    { w with issued := w.issued + 1 })
  | .listSchedules limit => w.read o (SchedDb.list w.db.schedules.rows limit)
  | .getSchedule id => w.read o (SchedDb.find (w.db.schedules.get id))
  | .getOccurrence id => w.read o (SchedDb.find (w.db.occurrences.get id))
  | .claimOccurrence x =>
    w.transact o ((SchedDb.claim w.db.occurrences x).1,
      { w.db with occurrences := (SchedDb.claim w.db.occurrences x).2 })
  | .listRuns limit => w.read o (SchedDb.list w.db.runs limit)
  | .getRun id => w.read o (SchedDb.find (w.db.runs.find? fun r => decide (r.id = id)))
  | .listTriggers limit => w.read o (SchedDb.list w.db.triggers.rows limit)
  | .getTrigger id => w.read o (SchedDb.find (w.db.triggers.get id))
  | .listDeliveries limit => w.read o (SchedDb.list w.db.deliveries.rows limit)
  | .getDelivery id => w.read o (SchedDb.find (w.db.deliveries.get id))
  | .claimDelivery x =>
    w.transact o ((SchedDb.claim w.db.deliveries x).1,
      { w.db with deliveries := (SchedDb.claim w.db.deliveries x).2 })
  | .listEvents limit => w.read o (SchedDb.list w.db.events.rows limit)
  | .getEvent id => w.read o (SchedDb.find (w.db.events.get id))
  | .commit records => w.transact o (w.db.commit records)
  | .dispatch q => w.dispatch cfg o q
  | .receive e => ((), w.receive cfg e)

end SchedWorld

end Laso
