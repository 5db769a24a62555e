import Mathlib.Tactic.Common
import Laso.Core.Machine
import Laso.Core.Numerals
import Laso.Core.Table
import Laso.Core.Types

/-!
# Events from outside

Sources hand events to `EventIngress::submit`. A call is admitted while there is room, checks the
event, stores it and publishes it. An event with an identifier of its own is stored together with a
claim on the pair of source and identifier; where the claim is there already, the call answers with the
event of that claim.

The machine has any number of processes on one store, each with any number of calls. A call takes a
step for each block that holds the mutex of the counters and for each call of the store; in between,
everything else may happen. Identifiers of events come from a source that does not repeat itself: the
call with the number `i` draws `ids i`.
-/

namespace Laso

/-- Limits, and what the checks use of other components: the parser and printer of JSON, the reader of
timestamps, and the schema validator. -/
structure IngressConfig where
  maxPending : Nat := 128
  maxPerSource : Nat := 32
  parse : String → Option Json
  dump : Json → Nat
  readTimestamp : String → Except Exn Unit
  validate : String → Json → String → Except Exn Unit
  ids : Nat → String
  ids_injective : Function.Injective ids

/-- The arguments of `submit`. -/
structure IngressRequest where
  sourceId : String
  pluginName : String
  componentName : String
  schemaReference : String
  eventJson : String

structure IngressEvent where
  id : String
  type : String
  occurredAt : String
  ingestedAt : String
  sourceId : String
  sourcePlugin : String
  sourceComponent : String
  externalEventId : String
  causationId : String
  rootEventId : String
  payload : Json
  metadata : Json

instance : Keyed IngressEvent := ⟨IngressEvent.id⟩

def IngressEvent.pair (e : IngressEvent) : String × String := (e.sourceId, e.externalEventId)

/-- The pair that a request is about: the source it is submitted for and the `external_id` of its
JSON. -/
def IngressRequest.pair (cfg : IngressConfig) (r : IngressRequest) : Option (String × String) :=
  match cfg.parse r.eventJson with
  | some (.obj fields) =>
    match (fields.lookup "external_id").getD (.str "") with
    | .str external => some (r.sourceId, external)
    | _ => none
  | _ => none

structure EventClaim where
  id : String
  sourceId : String
  externalEventId : String
  eventId : String
  acceptedAt : String

instance : Keyed EventClaim := ⟨EventClaim.id⟩

def claimId (source external : String) : String := "external-event:" ++ withLength source external

def IngressEvent.claim (e : IngressEvent) : EventClaim where
  id := claimId e.sourceId e.externalEventId
  sourceId := e.sourceId
  externalEventId := e.externalEventId
  eventId := e.id
  acceptedAt := e.ingestedAt

inductive IngressStatus where
  | accepted | duplicate | rejected | backpressured | stopped
  deriving DecidableEq, Repr

structure IngressResult where
  status : IngressStatus := .rejected
  eventId : String := ""
  message : String
  deriving DecidableEq, Repr

def IngressResult.rejected (message : String) : IngressResult :=
  { message := String.ofList (message.toList.take 512) }

/-! ## The checks -/

/-- How the checks end before there is an event: with an answer, or by an exception. -/
inductive IngressStop where
  | rejected (message : String)
  | thrown (e : Exn)
  | json

/-- `identifier`, and the check of an event type. -/
def isEventName (text : String) (maximum : Nat) : Bool :=
  decide (text.utf8ByteSize ≤ maximum) && match text.toList with
    | [] => false
    | c :: rest => c.isAlphanum && rest.all fun c => c.isAlphanum || ['_', '.', ':', '-'].contains c

/-- `input.value(name, default)` for a text. -/
def textField (fields : List (String × Json)) (name default : String) : Except IngressStop String :=
  match fields.lookup name with
  | none => .ok default
  | some (.str s) => .ok s
  | some _ => .error .json

def setField (fields : List (String × Json)) (name value : String) : List (String × Json) :=
  fields.filter (fun f => f.1 ≠ name) ++ [(name, .str value)]

/-- The event that a request asks for; it has no identifier yet. -/
def IngressRequest.checked (cfg : IngressConfig) (r : IngressRequest) (now : String) :
    Except IngressStop IngressEvent := do
  if !([r.sourceId, r.pluginName, r.componentName].all fun name => isEventName name 256) then
    throw (.rejected "Event source identity is invalid")
  if 1024 * 1024 < r.eventJson.utf8ByteSize then
    throw (.rejected "Event payload exceeds ingress size limit")
  let input ← match cfg.parse r.eventJson with
    | some (.obj fields) => pure fields
    | _ => throw (.rejected "Event must be a JSON object")
  if ["source_id", "source", "source_plugin", "source_component"].any
      fun name => (input.lookup name).isSome then
    throw (.rejected "Event source identity is assigned by LASO")
  let type ← match input.lookup "type" with
    | some (.str type) => pure type
    | _ => throw (.rejected "Event type is required")
  if !isEventName type 128 then throw (.rejected "Event type is invalid")
  let externalId ← textField input "external_id" ""
  if 256 < externalId.utf8ByteSize then
    throw (.rejected "External event id exceeds the size limit")
  let occurredAt ← textField input "occurred_at" now
  (cfg.readTimestamp occurredAt).mapError .thrown
  let payload := (input.lookup "payload").getD (.obj [])
  let metadata ← match (input.lookup "metadata").getD (.obj []) with
    | .obj fields =>
      if 64 * 1024 < cfg.dump (.obj fields) then
        throw (.rejected "Event metadata is invalid or too large")
      else pure fields
    | _ => throw (.rejected "Event metadata is invalid or too large")
  if 1024 * 1024 < cfg.dump payload then
    throw (.rejected "Event payload exceeds ingress size limit")
  let causation ← textField input "causation_id" ""
  let root ← textField input "root_event_id" ""
  if 256 < causation.utf8ByteSize ∨ 256 < root.utf8ByteSize then
    throw (.rejected "Event causation metadata exceeds the size limit")
  match input.lookup "trigger_depth" with
  | none | some (.num 0) => pure ()
  | _ => throw (.rejected "Event trigger depth is assigned by LASO")
  if r.schemaReference ≠ "" then
    (cfg.validate r.schemaReference payload r.sourceId).mapError .thrown
  let metadata := setField (setField (setField metadata "source_id" r.sourceId)
    "source_plugin" r.pluginName) "source_component" r.componentName
  if 64 * 1024 < cfg.dump (.obj metadata) then
    throw (.rejected "Event metadata exceeds the size limit")
  return {
    id := ""
    type, occurredAt
    ingestedAt := now
    sourceId := r.sourceId
    sourcePlugin := r.pluginName
    sourceComponent := r.componentName
    externalEventId := externalId
    causationId := causation
    rootEventId := root
    payload
    metadata := .obj metadata }

def IngressEvent.identified (id : String) (e : IngressEvent) : IngressEvent :=
  { e with id, rootEventId := if e.rootEventId = "" then id else e.rootEventId }

/-- What the handlers of `submit` make of an exception. -/
def IngressStop.message : IngressStop → String
  | .rejected message => message
  | .thrown (.error e) => if e.code = .validation then e.message else "Event ingestion failed"
  | .thrown .other => "Event ingestion failed"
  | .json => "Event JSON is invalid"

/-! ## Processes, calls and the store -/

inductive IngressPoint where
  | admitting
  | check
  | store
  /-- The claim was there; the stored one is read. -/
  | find
  | duplicate (eventId : String)
  | accept
  | publish
  /-- A handler counts the rejection. -/
  | handle (message : String)
  | release (result : IngressResult)
  | done (result : IngressResult)
  /-- The process has ended. -/
  | lost
  deriving DecidableEq, Repr

/-- A call. Once the checks are passed it has its event; the flags say whether it has stored and
published it. -/
structure IngressCall where
  process : Nat
  request : IngressRequest
  point : IngressPoint := .admitting
  event : Option IngressEvent := none
  stored : Bool := false
  published : Bool := false

/-- The process of a call ends; what was answered before stays so. -/
def IngressCall.lose (c : IngressCall) : IngressCall :=
  { c with point := match c.point with
    | .done result => .done result
    | _ => .lost }

/-- An `EventIngress`; a source stands in `inFlight` once for each of its calls. -/
structure Ingress where
  accepting : Bool := true
  pending : Nat := 0
  inFlight : List String := []
  accepted : Nat := 0
  rejected : Nat := 0
  deduplicated : Nat := 0
  backpressured : Nat := 0

structure IngressState where
  processes : Nat → Ingress := fun _ => {}
  claims : Table EventClaim := Table.empty
  events : Table IngressEvent := Table.empty
  calls : List IngressCall := []

/-- What a call meets: the store fails before or after its transaction; and the time. -/
structure IngressAnswer where
  fault : Bool := false
  lostReply : Bool := false
  now : String := ""

inductive IngressStep where
  | submit (p : Nat) (r : IngressRequest)
  | call (i : Nat) (a : IngressAnswer)
  | stop (p : Nat)
  | restart (p : Nat)

namespace IngressState

variable (cfg : IngressConfig) (s : IngressState) (i : Nat) (c : IngressCall) (a : IngressAnswer)

def go (c : IngressCall) (p : IngressPoint) : IngressState :=
  { s with calls := s.calls.set i { c with point := p } }

/-- A block that holds the mutex of the process of a call. -/
def count (f : Ingress → Ingress) : IngressState :=
  { s with processes := Function.update s.processes c.process (f (s.processes c.process)) }

def admitting : IngressState :=
  let q := s.processes c.process
  if q.accepting = false then
    s.go i c (.done { status := .stopped, message := "Event ingress is stopped" })
  else if cfg.maxPending ≤ q.pending ∨ cfg.maxPerSource ≤ q.inFlight.count c.request.sourceId then
    (s.count c fun q => { q with backpressured := q.backpressured + 1 }).go i c
      (.done { status := .backpressured, message := "Event ingress capacity is exhausted" })
  else
    (s.count c fun q => { q with
      pending := q.pending + 1, inFlight := c.request.sourceId :: q.inFlight }).go i c .check

/-- The transaction that stores an event, with its claim if it has a name of its own. -/
def insert (e : IngressEvent) : IngressState :=
  { s with
    events := s.events.put e
    claims := if e.externalEventId = "" then s.claims else s.claims.put e.claim }

def store (e : IngressEvent) : IngressState :=
  if a.fault then s.go i c (.handle "Event ingestion failed")
  else if e.externalEventId ≠ "" ∧ (s.claims.get e.claim.id).isSome then s.go i c .find
  else (s.insert e).go i { c with stored := true }
    (if a.lostReply then .handle "Event ingestion failed" else .accept)

def step : Option IngressState :=
  match c.point with
  | .admitting => some (s.admitting cfg i c)
  | .check => some (match c.request.checked cfg a.now with
    | .ok e => s.go i { c with event := some (e.identified (cfg.ids i)) } .store
    | .error (.rejected message) => s.go i c (.release (.rejected message))
    | .error e => s.go i c (.handle e.message))
  | .store => c.event.map (s.store i c a)
  | .find => c.event.map fun e => match s.claims.get e.claim.id with
    | some claim =>
      if a.fault then s.go i c (.handle "Event ingestion failed")
      else s.go i c (.duplicate claim.eventId)
    | none => s.go i c (.handle "Event ingestion failed")
  | .duplicate id =>
    some ((s.count c fun q => { q with deduplicated := q.deduplicated + 1 }).go i c (.release
      { status := .duplicate, eventId := id, message := "External event was already accepted" }))
  | .accept =>
    some ((s.count c fun q => { q with accepted := q.accepted + 1 }).go i c .publish)
  -- `EventBus::publish` is `noexcept`: what its subscribers throw is dropped
  | .publish => c.event.map fun e => s.go i { c with published := true }
      (.release { status := .accepted, eventId := e.id, message := "Event accepted" })
  | .handle message =>
    some ((s.count c fun q => { q with rejected := q.rejected + 1 }).go i c
      (.release (.rejected message)))
  | .release result =>
    some ((s.count c fun q => { q with
      pending := q.pending - 1, inFlight := q.inFlight.erase c.request.sourceId }).go i c
      (.done result))
  | .done _ | .lost => none

end IngressState

def ingressMachine (cfg : IngressConfig) : Machine IngressState IngressStep
  | s, .submit p r => some { s with calls := s.calls ++ [{ process := p, request := r }] }
  | s, .call i a => s.calls[i]?.bind fun c => s.step cfg i c a
  | s, .stop p => some { s with
      processes := Function.update s.processes p { s.processes p with accepting := false } }
  | s, .restart p => some { s with
      processes := Function.update s.processes p {}
      calls := s.calls.map fun c => if c.process = p then c.lose else c }

end Laso
