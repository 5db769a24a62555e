import Laso.Scheduler.Process

/-!
# Schedules and triggers do not interfere

The scheduler keeps records of two kinds: schedules with their occurrences, and deliveries to
triggers. The code for triggers makes no call that touches the former (`SchedReq.Aside`), the code
for schedules none that touches the latter (`SchedReq.Besides`), and what concerns the definitions
of triggers and events only does neither (`SchedReq.Neutral`). An invariant of one side has to be
proved for the code of that side.
-/

namespace Laso

/-- Records that are neither schedules nor occurrences. -/
def SchedRecord.Aside : SchedRecord → Prop
  | .schedule _ | .occurrence _ => False
  | .trigger _ | .delivery _ | .event _ => True

/-- Calls that change neither the schedules nor their occurrences nor their runs. -/
def SchedReq.Aside : SchedReq → Prop
  | .now | .claimOccurrence _ => False
  | .commit records => ∀ record ∈ records, record.Aside
  | .dispatch q => (q.scheduleId = "" ∧ q.scheduleOccurrenceId = "") ∧ q.dueAt = none
  | _ => True

/-- Records that are not deliveries. -/
def SchedRecord.Besides : SchedRecord → Prop
  | .delivery _ => False
  | .schedule _ | .occurrence _ | .trigger _ | .event _ => True

/-- Calls that change no delivery and launch no trigger. -/
def SchedReq.Besides : SchedReq → Prop
  | .claimDelivery _ => False
  | .commit records => ∀ record ∈ records, record.Besides
  | .dispatch q => q.initiationType ≠ "event"
  | _ => True

/-- Calls of neither side. -/
def SchedReq.Neutral (q : SchedReq) : Prop := q.Aside ∧ q.Besides

variable {σ : Type} {A : SchedReq → Prop}

/-- Code that makes one call. -/
lemma SchedOp.only_query {q : SchedReq} (h : A q) :
    Code.Only (S := schedSig) A (query q : SchedOp σ q.Resp) := Code.Only.call h

/-- One call, whose answer is decoded or thrown, then the rest. -/
lemma SchedOp.only_ask {α β : Type} {q : SchedReq} {r : q.Resp → Except Error α} {f : α → SchedOp σ β}
    (h : A q) (hf : ∀ x, Code.Only (S := schedSig) A (f x)) :
    Code.Only (S := schedSig) A (query q >>= fun answer => Code.ofExcept (r answer) >>= f) :=
  .bind (SchedOp.only_query h) fun _ => .bind (.ofExcept _) hf

lemma SchedOp.only_commit {records : List SchedRecord} (h : A (.commit records)) :
    Code.Only (S := schedSig) A (commitRecords records : SchedOp σ Unit) :=
  .bind (SchedOp.only_query h) fun _ => .ofExcept _

/-- What is thrown is ignored, the calls were still made. -/
lemma SchedOp.only_ignoreErrors {x : SchedOp σ Unit} (h : Code.Only (S := schedSig) A x) :
    Code.Only A (ignoreErrors x) := .tryCatch h fun _ => .pure _

/-! ## Neither side -/

namespace SchedReq.Neutral

lemma emitEvent (e : SourceEvent) : (Laso.emitEvent e : SchedOp σ Unit).Only Neutral :=
  SchedOp.only_query ⟨trivial, trivial⟩

lemma triggerEvent (type : String) (t : TriggerDefinition) (e : SourceEvent)
    (extra : List (String × Json)) :
    (Laso.triggerEvent type t e extra : SchedOp σ SourceEvent).Only Neutral :=
  .bind (SchedOp.only_query ⟨trivial, trivial⟩) fun _ => .ite (.pure _) (.pure _)

lemma schedulerEvent (type : String) (s : ScheduleDefinition) (due : Option Stamp)
    (extra : List (String × Json)) :
    (Laso.schedulerEvent type s due extra : SchedOp σ SourceEvent).Only Neutral :=
  .bind (SchedOp.only_query ⟨trivial, trivial⟩) fun _ => .pure _

/-- The trigger and its event are committed, then the event is posted. -/
lemma storeTrigger (type : String) (t : TriggerDefinition) :
    (Laso.storeTrigger type t : SchedOp σ Unit).Only Neutral := by
  refine .bind (SchedOp.only_query ⟨trivial, trivial⟩) fun _ => .bind (triggerEvent _ _ _ _) fun e => ?_
  refine .bind (SchedOp.only_commit ⟨?_, ?_⟩) fun _ => emitEvent e
  · simp [SchedReq.Aside, SchedRecord.Aside]
  · simp [SchedReq.Besides, SchedRecord.Besides]

variable (cfg : SchedConfig)

lemma createTrigger (t : TriggerDefinition) :
    (Laso.createTrigger cfg t : SchedOp σ Unit).Only Neutral := by
  refine .bind (.ofExcept _) fun _ => .bind (SchedOp.only_query ⟨trivial, trivial⟩) fun x => ?_
  split
  · exact .throw _
  · exact .ite (storeTrigger _ _) (.throw _)

lemma updateTrigger (t : TriggerDefinition) :
    (Laso.updateTrigger cfg t : SchedOp σ Unit).Only Neutral :=
  .bind (.ofExcept _) fun _ => .bind (SchedOp.only_query ⟨trivial, trivial⟩) fun _ =>
    .bind (.ofExcept _) fun _ => storeTrigger _ _

lemma setTriggerEnabled (id : String) (enabled : Bool) :
    (Laso.setTriggerEnabled id enabled : SchedOp σ Unit).Only Neutral :=
  SchedOp.only_ask ⟨trivial, trivial⟩ fun _ =>
    .ite (.throw _) (storeTrigger _ _)

lemma deleteTrigger (id : String) : (Laso.deleteTrigger id : SchedOp σ Unit).Only Neutral :=
  SchedOp.only_ask ⟨trivial, trivial⟩ fun _ => storeTrigger _ _

/-- Events received again go into the queue of the server only. -/
lemma receiveAll (l : List SourceEvent) : (Laso.receiveAll l : SchedOp σ Unit).Only Neutral := by
  induction l with
  | nil => exact .pure _
  | cons e rest ih => exact .bind (SchedOp.only_query ⟨trivial, trivial⟩) fun _ => ih

lemma replayEvents : (Laso.replayEvents cfg : SchedOp σ Unit).Only Neutral :=
  SchedOp.only_ask ⟨trivial, trivial⟩ fun _ => receiveAll _

end SchedReq.Neutral

/-! ## Triggers -/

namespace SchedReq.Aside

lemma of_neutral {α : Type} {x : SchedOp σ α} (h : x.Only Neutral) : x.Only Aside :=
  h.mono fun _ hq => hq.1

/-- The run of a trigger names no schedule. -/
lemma launchDelivery (t : TriggerDefinition) (e : SourceEvent) (d : TriggerDelivery) :
    (Laso.launchDelivery t e d : SchedOp σ Unit).Only Aside := by
  refine .tryCatch ?_ fun _ => SchedOp.only_commit (by simp [Aside, SchedRecord.Aside])
  refine SchedOp.only_ask ⟨⟨rfl, rfl⟩, rfl⟩ fun _ => ?_
  refine .bind (of_neutral (Neutral.triggerEvent _ _ _ _)) fun _ => ?_
  exact .bind (SchedOp.only_commit (by simp [Aside, SchedRecord.Aside])) fun _ =>
    of_neutral (Neutral.emitEvent _)

/-- A missing delivery is an answer, any other error is thrown. -/
lemma findDelivery (id : String) :
    (Laso.findDelivery id : SchedOp σ (Option (Option TriggerDelivery))).Only Aside := by
  refine .tryCatch ?_ fun _ => .ite (.pure _) (.throw _)
  exact SchedOp.only_ask trivial fun _ =>
    .ite (.pure _) (.ite (.pure _) (.pure _))

variable (cfg : SchedConfig)

/-- A trigger reads and writes its delivery and launches its run. -/
lemma processTrigger (t : TriggerDefinition) (e : SourceEvent) :
    (Laso.processTrigger cfg t e : SchedOp σ Unit).Only Aside := by
  refine .ite (.pure _) (.ite ?_ ?_)
  · exact .bind (of_neutral (Neutral.triggerEvent _ _ _ _)) fun _ => of_neutral (Neutral.emitEvent _)
  refine .bind (findDelivery _) fun found => ?_
  split
  · exact .pure _
  · exact launchDelivery _ _ _
  · exact SchedOp.only_ask trivial fun _ =>
      .ite (launchDelivery _ _ _) (.pure _)

lemma deliver (e : SourceEvent) (l : List TriggerDefinition) :
    (Laso.deliver cfg e l : SchedOp σ Unit).Only Aside := by
  induction l with
  | nil => exact .pure _
  | cons t rest ih =>
    exact .bind (SchedOp.only_ignoreErrors (processTrigger cfg t e)) fun _ => ih

/-- Per delivery: the trigger and the event are read again. -/
lemma replayDeliveries (l : List TriggerDelivery) :
    (Laso.replayDeliveries cfg l : SchedOp σ Unit).Only Aside := by
  induction l with
  | nil => exact .pure _
  | cons d rest ih =>
    refine .ite (.bind (SchedOp.only_ignoreErrors ?_) fun _ => ih) ih
    exact SchedOp.only_ask trivial fun _ =>
      SchedOp.only_ask trivial fun _ => processTrigger cfg _ _

lemma replayPendingDeliveries : (Laso.replayPendingDeliveries cfg : SchedOp σ Unit).Only Aside :=
  SchedOp.only_ask trivial fun _ => replayDeliveries cfg _

end SchedReq.Aside

/-! ## Schedules -/

namespace SchedReq.Besides

lemma of_neutral {α : Type} {x : SchedOp σ α} (h : x.Only Neutral) : x.Only Besides :=
  h.mono fun _ hq => hq.2

variable (id : String)

lemma activeScheduleRun : (Laso.activeScheduleRun id : SchedOp σ Bool).Only Besides :=
  SchedOp.only_ask trivial fun _ => .pure _

/-- An occurrence left claimed is looked up among the runs. -/
lemma findOccurrence : (Laso.findOccurrence id).Only Besides := by
  refine .tryCatch ?_ fun _ => .ite (.pure _) (.throw _)
  refine SchedOp.only_ask trivial fun _ => ?_
  refine .bind (.set _) fun _ => .ite (.pure _) (.ite ?_ (.pure _))
  refine SchedOp.only_ask trivial fun _ => ?_
  split
  · exact .bind (SchedOp.only_commit (by simp [Besides, SchedRecord.Besides])) fun _ => .pure _
  · exact .bind (.set _) fun _ => .pure _

lemma claimDue (s : ScheduleDefinition) (due : Stamp) (found : Option ScheduleOccurrence) :
    (Laso.claimDue s due found : SchedOp σ Bool).Only Besides := by
  cases found with
  | none => exact .bind (SchedOp.only_query trivial) fun _ => .ofExcept _
  | some _ => exact .pure _

/-- Schedule, occurrence and event are one commit. -/
lemma recordOccurrence (type : String) (s : ScheduleDefinition) (due : Stamp)
    (status : LaunchStatus) (runId : String) (extra : List (String × Json)) :
    (Laso.recordOccurrence type s due status runId extra : SchedOp σ Unit).Only Besides :=
  .bind (of_neutral (Neutral.schedulerEvent _ _ _ _)) fun _ =>
    .bind (SchedOp.only_commit (by simp [Besides, SchedRecord.Besides])) fun _ =>
      of_neutral (Neutral.emitEvent _)

variable (cfg : SchedConfig) (now : WallTime)

/-- The run of a schedule is not started by an event. -/
lemma launchOccurrence (s : ScheduleDefinition) (due : Stamp) :
    (Laso.launchOccurrence cfg now s due).Only Besides := by
  refine .tryCatch ?_ fun _ => ?_
  · have hrequest : Besides (.dispatch (s.request due)) := by
      simp [Besides, ScheduleDefinition.request]
    exact SchedOp.only_ask hrequest fun _ =>
      .bind (.ofExcept _) fun _ => .bind (recordOccurrence _ _ _ _ _ _) fun _ => .modify _
  · exact .bind (SchedOp.only_commit (by simp [Besides, SchedRecord.Besides])) fun _ =>
      .ite (.modify _) (.pure _)

/-- A missed or overlapping occurrence is recorded, others are launched. -/
lemma handleDue (s : ScheduleDefinition) (due : Stamp) :
    (Laso.handleDue cfg now s due).Only Besides := by
  refine .ite (.bind (.ofExcept _) fun _ => recordOccurrence _ _ _ _ _ _) ?_
  refine .bind (.ite (.pure _) (activeScheduleRun _)) fun _ =>
    .ite ?_ (launchOccurrence cfg now s due)
  split
  · exact .bind (.ofExcept _) fun _ => recordOccurrence _ _ _ _ _ _
  · exact .bind (.ofExcept _) fun _ => recordOccurrence _ _ _ _ _ _
  · exact launchOccurrence cfg now s due

lemma processSchedule (s : ScheduleDefinition) : (Laso.processSchedule cfg now s).Only Besides := by
  refine .ite (.pure _) ?_
  split
  · exact .pure _
  · exact .ite (.pure _) (.bind (.localVar (findOccurrence _)) fun _ =>
      .ite (.bind (claimDue _ _ _) fun _ => .ite (handleDue _ _ _ _) (.pure _)) (.pure _))

/-- The pass over the schedules, by induction on the page. -/
lemma processSchedules (l : List ScheduleDefinition) :
    (Laso.processSchedules cfg now l).Only Besides := by
  induction l with
  | nil => exact .pure _
  | cons s rest ih =>
    exact .bind .get fun _ => .ite (.pure _) (.bind (processSchedule cfg now s) fun _ => ih)

lemma processDue : (Laso.processDue cfg).Only Besides :=
  .bind (SchedOp.only_query trivial) fun _ => .bind (SchedOp.only_query trivial) fun _ =>
    .bind (.ofExcept _) fun _ => processSchedules cfg _ _

/-- The end of a run is noted in its schedule, which may take up a queued occurrence. -/
lemma reconcileCompletion (e : SourceEvent) :
    (Laso.reconcileCompletion e : SchedOp σ Unit).Only Besides := by
  refine SchedOp.only_ask trivial fun _ => .ite (.pure _) ?_
  refine SchedOp.only_ask trivial fun _ => ?_
  refine .bind (.ite (activeScheduleRun _) (.pure _)) fun _ => .ite ?_ ?_
  · exact SchedOp.only_commit (by simp [Besides, SchedRecord.Besides])
  · exact SchedOp.only_commit (by simp [Besides, SchedRecord.Besides])

lemma storeSchedule (type : String) (s : ScheduleDefinition) (due : Option Stamp) :
    (Laso.storeSchedule type s due : SchedOp σ Unit).Only Besides :=
  .bind (of_neutral (Neutral.schedulerEvent _ _ _ _)) fun _ =>
    .bind (SchedOp.only_commit (by simp [Besides, SchedRecord.Besides])) fun _ =>
      of_neutral (Neutral.emitEvent _)

lemma createSchedule (s : ScheduleDefinition) :
    (Laso.createSchedule cfg s : SchedOp σ Unit).Only Besides := by
  refine .bind (.ofExcept _) fun _ => .bind (SchedOp.only_query trivial) fun x => ?_
  split
  · exact .throw _
  · exact .ite (storeSchedule _ _ _) (.throw _)

lemma updateSchedule (s : ScheduleDefinition) :
    (Laso.updateSchedule cfg s : SchedOp σ Unit).Only Besides :=
  .bind (.ofExcept _) fun _ => .bind (SchedOp.only_query trivial) fun _ =>
    .bind (.ofExcept _) fun _ => storeSchedule _ _ _

lemma setScheduleEnabled (id : String) (enabled : Bool) :
    (Laso.setScheduleEnabled cfg id enabled : SchedOp σ Unit).Only Besides := by
  refine SchedOp.only_ask trivial fun _ => .ite (.throw _) ?_
  refine .bind (.ite (.ite (.pure _) ?_) (.pure _)) fun _ => storeSchedule _ _ _
  exact .bind (SchedOp.only_query trivial) fun _ => .ofExcept _

lemma deleteSchedule : (Laso.deleteSchedule id : SchedOp σ Unit).Only Besides :=
  SchedOp.only_ask trivial fun _ => storeSchedule _ _ _

end SchedReq.Besides

end Laso
