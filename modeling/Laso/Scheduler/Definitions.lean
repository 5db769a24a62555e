import Laso.Core.Numerals
import Laso.Core.Table
import Laso.Scheduler.Cron

/-!
# Schedules, triggers and their records

A schedule names a pipeline and the times at which it is to be run, a trigger the events. What has
become of an occurrence of a schedule, or of an event for a trigger, is kept in a record of its own
under an identifier made of both (`occurrenceId`, `deliveryId`).

`nextScheduleDue` is the time after a given one at which a schedule is due again; it is later than
that one (`lt_of_nextScheduleDue`).
-/

namespace Laso

inductive ScheduleType where
  | oneTime | interval | cron
  deriving DecidableEq, Repr

/-- What to do with an occurrence that has been missed. -/
inductive MisfirePolicy where
  | skip | runOnce
  deriving DecidableEq, Repr

/-- What to do with an occurrence while a run of the schedule is active. -/
inductive OverlapPolicy where
  | allow | skip | queueOne
  deriving DecidableEq, Repr

/-- A schedule. Its times are empty or timestamps. -/
structure ScheduleDefinition where
  id : String
  name : String := ""
  pipelineId : String := ""
  pipelineVersion : Nat := 1
  type : ScheduleType
  at_ : Option Stamp := none
  intervalMs : String := ""
  cron : String := ""
  input : Json := .obj []
  enabled : Bool := true
  deleted : Bool := false
  queued : Bool := false
  nextDueAt : Option Stamp := none
  lastDueAt : Option Stamp := none
  lastStartedAt : Option Stamp := none
  lastCompletedRunId : String := ""
  queuedDueAt : Option Stamp := none
  misfirePolicy : MisfirePolicy := .skip
  overlapPolicy : OverlapPolicy := .allow
  missedCount : Nat := 0

instance : Keyed ScheduleDefinition := ⟨ScheduleDefinition.id⟩

variable (s : ScheduleDefinition)

@[simp] lemma ScheduleDefinition.key_eq : Keyed.key s = s.id := rfl

/-- States of an occurrence of a schedule or of a delivery of an event. -/
inductive LaunchStatus where
  | claimed | pending | queued | started | skipped | failed
  deriving DecidableEq, Repr

/-- States in which nothing more is done about an occurrence or a delivery. -/
def LaunchStatus.final : LaunchStatus → Bool
  | .started | .skipped | .failed => true
  | _ => false

structure ScheduleOccurrence where
  id : String
  scheduleId : String
  dueAt : Stamp
  status : LaunchStatus
  runId : String := ""
  deriving DecidableEq, Repr

instance : Keyed ScheduleOccurrence := ⟨ScheduleOccurrence.id⟩

@[simp] lemma ScheduleOccurrence.key_eq (o : ScheduleOccurrence) : Keyed.key o = o.id := rfl

def occurrenceId (scheduleId : String) (due : Stamp) : String := scheduleId ++ "|" ++ Nat.repr due

/-- **The identifier names the schedule and the time.** -/
lemma occurrenceId_inj {a b : String} {s t : Stamp} (h : occurrenceId a s = occurrenceId b t) :
    a = b ∧ s = t := by
  have hlist := congrArg String.toList h
  simp only [occurrenceId, String.toList_append, List.append_assoc] at hlist
  obtain ⟨hab, hst⟩ := append_repr_inj (by decide) hlist
  exact ⟨String.toList_inj.mp hab, hst⟩

/-- `record_value`. -/
def recordValue (status : LaunchStatus) (s : ScheduleDefinition) (due : Stamp)
    (runId : String := "") : ScheduleOccurrence :=
  { id := occurrenceId s.id due, scheduleId := s.id, dueAt := due, status, runId }

/-- A trigger. The filters are dotted paths into the metadata of an event, with the value there. -/
structure TriggerDefinition where
  id : String
  name : String := ""
  pipelineId : String := ""
  pipelineVersion : Nat := 1
  eventType : String := ""
  filters : List (String × Json) := []
  enabled : Bool := true
  deleted : Bool := false
  createdAt : String := ""

instance : Keyed TriggerDefinition := ⟨TriggerDefinition.id⟩

@[simp] lemma TriggerDefinition.key_eq (t : TriggerDefinition) : Keyed.key t = t.id := rfl

/-- A published event as the scheduler reads it. -/
structure SourceEvent where
  id : String
  runId : String := ""
  pipelineId : String := ""
  type : String
  time : String := ""
  causationId : String := ""
  rootEventId : String := ""
  triggerDepth : Nat := 0
  metadata : Json := .obj []

instance : Keyed SourceEvent := ⟨SourceEvent.id⟩

@[simp] lemma SourceEvent.key_eq (e : SourceEvent) : Keyed.key e = e.id := rfl

/-- The record of an event delivered to a trigger. -/
structure TriggerDelivery where
  id : String
  triggerId : String
  eventId : String
  status : LaunchStatus
  runId : String := ""
  deriving DecidableEq, Repr

instance : Keyed TriggerDelivery := ⟨TriggerDelivery.id⟩

@[simp] lemma TriggerDelivery.key_eq (d : TriggerDelivery) : Keyed.key d = d.id := rfl

def deliveryId (triggerId eventId : String) : String := triggerId ++ "|" ++ eventId

structure RunRow where
  id : String
  scheduleId : String := ""
  scheduleOccurrenceId : String := ""
  triggerId : String := ""
  eventId : String := ""
  state : RunState := .queued
  deriving DecidableEq, Repr

/-! ## Times -/

/-- `std::isspace`. -/
def isSpace (c : Char) : Bool := c.isWhitespace || c == '\x0b' || c == '\x0c'

/-- The length of an interval as `std::stoll` reads it: blanks, a sign and digits. -/
def intervalDigits (text : List Char) : Except Error Int :=
  let unsigned (digits : List Char) : Except Error Int := do
    require (digits ≠ [] ∧ digits.all Char.isDigit)
      ⟨.validation, "Interval must be a positive bounded millisecond duration"⟩
    return (decimal digits : Int)
  match text.dropWhile isSpace with
  | '-' :: digits => do return -(← unsigned digits)
  | '+' :: digits => unsigned digits
  | digits => unsigned digits

def maxInterval : Nat := 365 * 24 * 60 * 60 * 1000

/-- `interval_value`. -/
def intervalValue : Except Error Nat := do
  require (s.intervalMs ≠ "") ⟨.validation, "Interval schedule requires interval_ms"⟩
  let value ← intervalDigits s.intervalMs.toList
  require (0 < value ∧ value ≤ maxInterval)
    ⟨.validation, "Interval must be a positive bounded millisecond duration"⟩
  return value.toNat

def maxScheduleInput : Nat := 1024 * 1024

/-- `validate_schedule`; `dump` is the length of a document as text. -/
def validateSchedule (dump : Json → Nat) (s : ScheduleDefinition) : Except Error Unit := do
  require (s.id ≠ "" ∧ s.id.utf8ByteSize ≤ 128 ∧ s.name ≠ "" ∧ s.name.utf8ByteSize ≤ 128 ∧
      s.pipelineId ≠ "" ∧ s.pipelineId.utf8ByteSize ≤ 128 ∧ s.pipelineVersion ≠ 0 ∧
      dump s.input ≤ maxScheduleInput)
    ⟨.validation, "Invalid schedule identity or input"⟩
  match s.type with
  | .oneTime => require (s.at_.isSome) ⟨.validation, "One-time schedule requires at"⟩
  | .interval => let _ ← intervalValue s
  | .cron => let _ ← parseCron s.cron

/-- `next_schedule_due`, after a given time; a one-time schedule is not due again. -/
def nextScheduleDue (dump : Json → Nat) (s : ScheduleDefinition) (after : Stamp) :
    Except Error (Option Stamp) := do
  validateSchedule dump s
  match s.type with
  | .oneTime => return none
  | .cron => return some (← cronNext s.cron after)
  | .interval => return some (after + (← intervalValue s))

/-- `is_due`. -/
def isDue (due : Option Stamp) (now : WallTime) : Bool :=
  match due with
  | none => false
  | some t => decide (Stamp.instant t ≤ now)

/-- `is_late`: more than a second. -/
def isLate (due : Stamp) (now : WallTime) : Bool :=
  decide (1000000000 < now - Stamp.instant due)

def ScheduleDefinition.recurring : Bool := s.type != .oneTime

/-- The time the scheduler looks at: that of the queued occurrence if there is one. -/
def ScheduleDefinition.effectiveDue : Option Stamp :=
  if s.queued then s.queuedDueAt else s.nextDueAt

variable {dump : Json → Nat} {s : ScheduleDefinition} {after next : Stamp}

lemma pos_of_intervalValue {n : Nat} (h : intervalValue s = .ok n) : 0 < n := by
  obtain ⟨-, -, h⟩ := bind_eq_ok.mp h
  obtain ⟨value, -, h⟩ := bind_eq_ok.mp h
  obtain ⟨_, hvalue, h⟩ := bind_eq_ok.mp h
  obtain ⟨hpos, -⟩ := require_eq_ok.mp hvalue
  cases h
  omega

/-- **A schedule is due again later.** -/
lemma lt_of_nextScheduleDue (h : nextScheduleDue dump s after = .ok (some next)) : after < next := by
  obtain ⟨-, -, h⟩ := bind_eq_ok.mp h
  cases htype : s.type with
  | oneTime =>
    rw [htype] at h
    cases h
  | cron =>
    rw [htype] at h
    obtain ⟨t, ht, h⟩ := bind_eq_ok.mp h
    cases h
    exact lt_of_cronNext ht
  | interval =>
  rw [htype] at h
  obtain ⟨n, hn, h⟩ := bind_eq_ok.mp h
  cases h
  exact Nat.lt_add_of_pos_right (pos_of_intervalValue hn)

lemma isSome_of_nextScheduleDue {due : Option Stamp} (h : nextScheduleDue dump s after = .ok due)
    (hs : s.recurring) : ∃ next, due = some next ∧ after < next := by
  cases due with
  | some next => exact ⟨next, rfl, lt_of_nextScheduleDue h⟩
  | none =>
  obtain ⟨-, -, h⟩ := bind_eq_ok.mp h
  cases htype : s.type with
  | oneTime =>
    rw [ScheduleDefinition.recurring, htype] at hs
    cases hs
  | cron =>
    rw [htype] at h
    obtain ⟨t, ht, h⟩ := bind_eq_ok.mp h
    cases h
  | interval =>
    rw [htype] at h
    obtain ⟨n, hn, h⟩ := bind_eq_ok.mp h
    cases h

namespace Validating

lemma intervalDigits (text : List Char) : Validating (Laso.intervalDigits text) := by
  unfold Laso.intervalDigits
  split
  · exact bind (bind (require _ _) fun _ => pure _) fun _ => pure _
  · exact bind (require _ _) fun _ => pure _
  · exact bind (require _ _) fun _ => pure _

lemma intervalValue (s : ScheduleDefinition) : Validating (Laso.intervalValue s) :=
  bind (require _ _) fun _ => bind (intervalDigits _) fun _ => bind (require _ _) fun _ => pure _

lemma validateSchedule (dump : Json → Nat) (s : ScheduleDefinition) :
    Validating (Laso.validateSchedule dump s) := by
  refine bind (require _ _) fun _ => ?_
  split
  · exact require _ _
  · exact bind (intervalValue s) fun _ => pure _
  · exact bind (parseCron _) fun _ => pure _

/-- **Whatever prevents the next occurrence is an error of validation.** -/
lemma nextScheduleDue (dump : Json → Nat) (s : ScheduleDefinition) (after : Stamp) :
    Validating (Laso.nextScheduleDue dump s after) := by
  refine bind (validateSchedule dump s) fun _ => ?_
  split
  · exact pure _
  · exact bind (cronNext _ _) fun _ => pure _
  · exact bind (intervalValue s) fun _ => pure _

end Validating

end Laso
