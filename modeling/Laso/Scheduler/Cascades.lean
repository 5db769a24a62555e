import Laso.Scheduler.Coverage
import Laso.Scheduler.Deliveries

/-!
# Cascades

A run that a trigger has started publishes events, and these can start further runs. To end such a
cascade a run carries the number of launches that led to it, its `trigger_depth`: the request made
for an event has the depth of the event plus one (`TriggerDefinition.request`), the events of the
run have its depth, and no run is started for an event at `max_trigger_depth`.

`Launch` is one call of `process_trigger` that started a run, `Launch.Causes` says which events it
causes. Three of them do not have the depth of the run: "trigger.run_created" has that of the event
before it, the children that a parallel branch starts begin at zero, and so do the events that
`recover_history` writes for a run. Along any other chain of launches the depth grows
(`Launch.depth_lt`), and the chain is no longer than `max_trigger_depth`
(`cascade_length_le`).
-/

namespace Laso

open List Watch

/-! ## The depth of a run -/

/-- What `Runtime::run` reads of the document it is given as the origin of a run. -/
structure RunOrigin where
  initiationType : Option String := none
  triggerId : Option String := none
  eventId : Option String := none
  rootEventId : Option String := none
  triggerDepth : Option Nat := none

/-- The fields of a run that say what has caused it. -/
structure RunCause where
  initiationType : String
  triggerId : String
  eventId : String
  rootEventId : String
  triggerDepth : Nat

def RunOrigin.cause (o : RunOrigin) : RunCause where
  initiationType := o.initiationType.getD "manual"
  triggerId := o.triggerId.getD ""
  eventId := o.eventId.getD ""
  rootEventId := o.rootEventId.getD ""
  triggerDepth := o.triggerDepth.getD 0

/-- The origin that `process_trigger` passes on. -/
def LaunchRequest.origin (q : LaunchRequest) : RunOrigin where
  initiationType := some q.initiationType
  triggerId := some q.triggerId
  eventId := some q.eventId
  rootEventId := some q.rootEventId
  triggerDepth := some q.triggerDepth

/-- A run starts a child for a subpipeline: in its own loop or in a branch of a parallel group. -/
inductive ChildStart where
  | loop | branch
  deriving DecidableEq, Repr

variable (r : RunCause)

/-- The origin of a child: `execute_branch` passes none. -/
def RunCause.childOrigin : ChildStart → RunOrigin
  | .loop => {
      initiationType := some r.initiationType
      triggerDepth := some r.triggerDepth
      rootEventId := some r.rootEventId
      triggerId := some r.triggerId
      eventId := some r.eventId }
  | .branch => {}

/-- The cause of a descendant, given how it and the runs above it were started. -/
def RunCause.descendant (path : List ChildStart) : RunCause :=
  path.foldl (fun r start => (r.childOrigin start).cause) r

/-- Code that writes an event of a run: the runtime, or `recover_history` when the service starts,
with a run that was to be cancelled or with one that was interrupted. -/
inductive RunEventWriter where
  | runtime
  | recovery (cancelled : Bool)
  deriving DecidableEq, Repr

/-- An event of a run. The recovery leaves the fields about causes empty. -/
def RunCause.event (e : SourceEvent) : RunEventWriter → SourceEvent
  | .runtime => { e with
      causationId := e.runId, rootEventId := r.rootEventId, triggerDepth := r.triggerDepth }
  | .recovery cancelled => { e with
      type := if cancelled then "run.cancelled" else "run.recovery_required"
      causationId := "", rootEventId := "", triggerDepth := 0, metadata := .obj [] }

/-- **Children started by the loop of a run keep its depth.** -/
lemma triggerDepth_descendant {path : List ChildStart} (hpath : .branch ∉ path) (r : RunCause) :
    (r.descendant path).triggerDepth = r.triggerDepth := by
  induction path generalizing r with
  | nil => rfl
  | cons start path ih =>
    cases start with
    | branch => exact absurd mem_cons_self hpath
    | loop =>
      have hrest : ChildStart.branch ∉ path := fun h => hpath (mem_cons_of_mem _ h)
      exact ih hrest _

/-! ## Launches -/

/-- A call of `process_trigger` that has started a run. -/
structure Launch (cfg : SchedConfig) where
  trigger : TriggerDefinition
  source : SourceEvent
  request : LaunchRequest
  runId : String
  history : SchedHistory
  makes : ((processTrigger cfg trigger source : SchedOp Unit Unit).prog ()).Makes history
  started : (⟨.dispatch request, (.ok runId : Except Error String)⟩ : (q : SchedReq) × q.Resp) ∈
    history

/-- What an event has been caused by: a run and one of its descendants, or the scheduler. -/
inductive EventCause where
  | run (path : List ChildStart) (writer : RunEventWriter)
  | scheduler

/-- The launch causes the event: its run or a descendant writes it, or `process_trigger` stores or
publishes it. -/
inductive Launch.Causes {cfg : SchedConfig} (l : Launch cfg) : EventCause → SourceEvent → Prop where
  | run (path : List ChildStart) (writer : RunEventWriter) (e : SourceEvent) :
      Causes l (.run path writer) ((l.request.origin.cause.descendant path).event e writer)
  | published {e : SourceEvent} (h : ⟨.receive e, ()⟩ ∈ l.history) : Causes l .scheduler e
  | stored {e : SourceEvent} {records : List SchedRecord} {r : Except Error Unit}
      (h : (⟨.commit records, r⟩ : (q : SchedReq) × q.Resp) ∈ l.history) (he : .event e ∈ records) :
      Causes l .scheduler e

/-- Every launch is for an event that the launch before it causes. -/
def Cascade {cfg : SchedConfig} (launches : List (Launch cfg)) : Prop :=
  launches.IsChain fun l l' => ∃ c, l.Causes c l'.source

/-- No branch of a parallel group starts a run on the way, and the event is not written when the
service starts. -/
def EventCause.Counted : EventCause → Prop
  | .run path writer => ChildStart.branch ∉ path ∧ writer = .runtime
  | .scheduler => True

/-- Every launch is for an event that the launch before it causes, in a way that keeps count. -/
def CountedCascade {cfg : SchedConfig} (launches : List (Launch cfg)) : Prop :=
  launches.IsChain fun l l' => ∃ c, c.Counted ∧ l.Causes c l'.source

/-- Calls of `process_trigger`: runs are started for events below the limit only, and unless the
event is at the limit the events about it say that a run was created. -/
def TriggerCalls (cfg : SchedConfig) (t : TriggerDefinition) (source : SourceEvent) :
    SchedReq → Prop
  | .dispatch q =>
    q = t.request source ∧ t.matches source ∧ source.triggerDepth < cfg.maxTriggerDepth
  | .receive e =>
    source.triggerDepth < cfg.maxTriggerDepth → e.type = "trigger.run_created"
  | .commit records => ∀ e, .event e ∈ records → e.type = "trigger.run_created"
  | _ => True

namespace TriggerCalls

variable {cfg : SchedConfig} {t : TriggerDefinition} {source : SourceEvent} {σ : Type}

/-- The observer of `process_trigger`. -/
abbrev triggerWatch (cfg : SchedConfig) (t : TriggerDefinition) (source : SourceEvent) :
    Watch schedSig Unit :=
  Watch.noting (fun _ _ _ => ()) (fun _ _ _ => True) fun _ q => TriggerCalls cfg t source q

lemma wp_triggerEvent {t' : TriggerDefinition} {e : SourceEvent} {type : String}
    {extra : List (String × Json)} {v : σ} :
    (triggerWatch cfg t source).wp (triggerEvent type t' e extra)
      (fun e' _ _ => e'.type = type) (fun _ _ _ => False) () v := by
  refine of_bind (of_call ⟨trivial, fun r _ _ => ?_⟩)
  refine of_if ?_ ?_
  · exact rfl
  · exact rfl

lemma wp_commitDelivery {d : TriggerDelivery} {v : σ} :
    (triggerWatch cfg t source).Safe (commitRecords [.delivery d] : SchedOp σ Unit) () v := by
  refine of_bind (of_call ⟨fun e he => ?_, fun r _ _ => ?_⟩)
  · simp at he
  cases r with
  | ok _ => trivial
  | error _ => trivial

lemma wp_launchDelivery (hmatched : t.matches source)
    (hdepth : source.triggerDepth < cfg.maxTriggerDepth) (d : TriggerDelivery) (v : σ) :
    (triggerWatch cfg t source).Safe (launchDelivery t source d : SchedOp σ Unit) () v := by
  refine (wp_tryCatch _ _).mpr (of_bind
    (of_call ⟨⟨rfl, hmatched, hdepth⟩, fun r _ _ => of_bind ?_⟩))
  cases r with
  | error _ => exact wp_commitDelivery
  | ok runId =>
  refine of_bind (wp_mono wp_triggerEvent (fun e _ _ he => ?_) fun _ _ _ h => h.elim)
  refine of_bind (of_bind
    (of_call ⟨fun e' he' => ?_, fun r _ _ => ?_⟩))
  · have heq : e' = e := by simpa using he'
    rw [heq]
    exact he
  cases r with
  | error _ => exact wp_commitDelivery
  | ok _ => exact of_call ⟨fun _ => he, fun _ _ _ => trivial⟩

lemma wp_findDelivery {id : String} {v : σ} : (triggerWatch cfg t source).Safe
      (findDelivery id : SchedOp σ (Option (Option TriggerDelivery))) () v := by
  refine (wp_tryCatch _ _).mpr (of_bind (of_call ⟨trivial, fun r _ _ => of_bind ?_⟩))
  cases r with
  | ok d =>
    refine of_if trivial ?_
    refine of_if trivial trivial
  | error e => refine of_if trivial trivial

/-- **The calls of `process_trigger`.** -/
lemma wp_processTrigger (v : σ) :
    (triggerWatch cfg t source).Safe (processTrigger cfg t source : SchedOp σ Unit) () v := by
  refine of_ite ⟨fun _ => trivial, fun hmatches => of_ite ⟨fun hlimit => ?_, fun hlimit => ?_⟩⟩
  · refine of_bind (wp_mono wp_triggerEvent (fun e _ _ _ => ?_) fun _ _ _ h => h.elim)
    exact of_call ⟨fun hbelow => absurd hlimit (by omega), fun _ _ _ => trivial⟩
  have hmatched : t.matches source := by simpa using hmatches
  have hdepth : source.triggerDepth < cfg.maxTriggerDepth := by omega
  refine of_bind (wp_imp wp_findDelivery fun found _ v' _ => ?_)
  match found with
  | none => trivial
  | some (some d) => exact wp_launchDelivery hmatched hdepth d v'
  | some none =>
    refine of_bind (of_call ⟨trivial, fun r _ _ => of_bind ?_⟩)
    cases r with
    | error _ => trivial
    | ok claimed =>
      refine of_if ?_ trivial
      exact wp_launchDelivery hmatched hdepth _ v'

end TriggerCalls

namespace Launch

variable {cfg : SchedConfig} (l : Launch cfg)

lemma triggerCalls {q : SchedReq} {r : q.Resp} (h : ⟨q, r⟩ ∈ l.history) :
    TriggerCalls cfg l.trigger l.source q := by
  have hthroughout := Throughout.of_sat (TriggerCalls.wp_processTrigger ()) l.makes
    (Throughout.of_forall fun _ _ _ => trivial)
  obtain ⟨_, hq⟩ := hthroughout.of_mem h
  exact hq

lemma request_eq : l.request = l.trigger.request l.source := (l.triggerCalls l.started).1

def depth : Nat := l.request.triggerDepth

lemma depth_eq : l.depth = l.source.triggerDepth + 1 := by
  rw [depth, l.request_eq]
  rfl

/-- **No run is started beyond the limit.** -/
lemma depth_le : l.depth ≤ cfg.maxTriggerDepth := by
  have hdepth := (l.triggerCalls l.started).2.2
  rw [l.depth_eq]
  exact hdepth

lemma eventType_eq : l.trigger.eventType = l.source.type := by
  have hmatched := (l.triggerCalls l.started).2.1
  simp only [TriggerDefinition.matches, Bool.and_eq_true, beq_iff_eq] at hmatched
  exact hmatched.1.2

variable {l} {l' : Launch cfg} {c : EventCause}

lemma Causes.type_eq {e : SourceEvent} (h : l.Causes .scheduler e) :
    e.type = "trigger.run_created" := by
  cases h with
  | published h => exact l.triggerCalls h (l.triggerCalls l.started).2.2
  | stored h he => exact l.triggerCalls h _ he

/-- **The depth grows along a cascade.** -/
lemma depth_lt (hc : c.Counted) (h : l.Causes c l'.source)
    (htype : l'.trigger.eventType ≠ "trigger.run_created") : l.depth < l'.depth := by
  have hnext := l'.depth_eq
  generalize hsource : l'.source = source at h hnext
  cases h with
  | run path writer e =>
    obtain ⟨hpath, rfl⟩ := hc
    have hkept : ((l.request.origin.cause.descendant path).event e .runtime).triggerDepth =
        l.depth := triggerDepth_descendant hpath _
    omega
  | published h => exact absurd (l'.eventType_eq.trans (hsource ▸ Causes.type_eq (.published h))) htype
  | stored h he => exact absurd (l'.eventType_eq.trans (hsource ▸ Causes.type_eq (.stored h he))) htype

lemma depth_add_length_le {rest : List (Launch cfg)} (h : CountedCascade (l :: rest))
    (htypes : ∀ l' ∈ rest, l'.trigger.eventType ≠ "trigger.run_created") :
    l.depth + rest.length ≤ cfg.maxTriggerDepth := by
  induction rest generalizing l with
  | nil => exact l.depth_le
  | cons l' rest ih =>
    obtain ⟨⟨c, hc, hcauses⟩, hrest⟩ := isChain_cons_cons.mp h
    have hlt := depth_lt hc hcauses (htypes l' mem_cons_self)
    have hle := ih hrest fun l'' hl'' => htypes l'' (mem_cons_of_mem _ hl'')
    rw [length_cons]
    omega

end Launch

/-- **Cascades are bounded.** After the first launch no trigger waits for "trigger.run_created", no
branch of a parallel group starts a run on the way, and no event is written when the service starts. -/
theorem cascade_length_le (cfg : SchedConfig) (launches : List (Launch cfg))
    (h : CountedCascade launches)
    (htypes : ∀ l ∈ launches.tail, l.trigger.eventType ≠ "trigger.run_created") :
    launches.length ≤ cfg.maxTriggerDepth := by
  cases launches with
  | nil => exact Nat.zero_le _
  | cons l rest =>
  have hle := Launch.depth_add_length_le h htypes
  have hpos := l.depth_eq
  rw [length_cons]
  omega

/-! ## Runs -/

variable (t : TriggerDefinition) (source : SourceEvent) (id : String)

/-- The event about the run "r" that a trigger has started. -/
def createdEvent : SourceEvent where
  id
  type := "trigger.run_created"
  pipelineId := t.pipelineId
  metadata := .obj [("trigger_id", .str t.id), ("event_id", .str source.id),
    ("root_event_id", .str source.root), ("run_id", .str "r")]
  causationId := source.id
  rootEventId := source.root
  triggerDepth := source.triggerDepth

/-- An event is delivered for the first time, and the run "r" is started. -/
def launchHistory : SchedHistory :=
  [⟨.getDelivery (deliveryId t.id source.id),
      (.error ⟨.notFound, "Record not found"⟩ : Except Error TriggerDelivery)⟩,
    ⟨.claimDelivery (newDelivery t source), (.ok true : Except Error Bool)⟩,
    ⟨.dispatch (t.request source), (.ok "r" : Except Error String)⟩,
    ⟨.event, (id, "")⟩,
    ⟨.commit [.delivery { newDelivery t source with status := .started, runId := "r" },
      .event (createdEvent t source id)], (.ok () : Except Error Unit)⟩,
    ⟨.receive (createdEvent t source id), ()⟩]

def echoTrigger : TriggerDefinition where
  id := "echo"
  name := "echo"
  pipelineId := "p"
  eventType := "trigger.run_created"

def firstLaunch (limit : Nat) : Launch { maxTriggerDepth := limit + 1 } where
  trigger := sampleTrigger
  source := sampleEvent
  request := sampleTrigger.request sampleEvent
  runId := "r"
  history := launchHistory sampleTrigger sampleEvent "e1"
  makes := .cons (.cons (.cons (.cons (.cons (.cons (.nil _))))))
  started := by simp [launchHistory]

def secondLaunch : Launch { maxTriggerDepth := 1 } where
  trigger := echoTrigger
  source := createdEvent sampleTrigger sampleEvent "e1"
  request := echoTrigger.request (createdEvent sampleTrigger sampleEvent "e1")
  runId := "r"
  history := launchHistory echoTrigger (createdEvent sampleTrigger sampleEvent "e1") "e2"
  makes := .cons (.cons (.cons (.cons (.cons (.cons (.nil _))))))
  started := by simp [launchHistory]

/-- At most one launch is allowed, and the second follows from the first: the event about a launch
does not count it. -/
theorem echo_exceeds_limit :
    ∃ launches : List (Launch { maxTriggerDepth := 1 }), Cascade launches ∧ 1 < launches.length := by
  refine ⟨[firstLaunch 0, secondLaunch], ?_, by decide⟩
  refine isChain_cons_cons.mpr ⟨⟨.scheduler, .published ?_⟩, isChain_singleton _⟩
  simp [firstLaunch, secondLaunch, launchHistory]

/-- The end of a child that the first run has started in its loop. -/
def childEnd : SourceEvent :=
  ((firstLaunch 1).request.origin.cause.descendant [.loop]).event
    { id := "e3", runId := "child", type := "run.completed" } .runtime

def followTrigger : TriggerDefinition where
  id := "follow"
  name := "follow"
  pipelineId := "p"
  eventType := "run.completed"

def followLaunch : Launch { maxTriggerDepth := 2 } where
  trigger := followTrigger
  source := childEnd
  request := followTrigger.request childEnd
  runId := "r"
  history := launchHistory followTrigger childEnd "e4"
  makes := .cons (.cons (.cons (.cons (.cons (.cons (.nil _))))))
  started := by simp [launchHistory]

/-- The end of a child of the first run starts a second one, as many as there may be. -/
theorem cascade_length_le_follow : CountedCascade [firstLaunch 1, followLaunch] ∧
    followLaunch.trigger.eventType ≠ "trigger.run_created" ∧
      [firstLaunch 1, followLaunch].length ≤ 2 := by
  have hchain : CountedCascade [firstLaunch 1, followLaunch] :=
    isChain_cons_cons.mpr ⟨⟨.run [.loop] .runtime, ⟨by decide, rfl⟩, .run [.loop] .runtime _⟩,
      isChain_singleton _⟩
  have htype : followLaunch.trigger.eventType ≠ "trigger.run_created" := by decide
  exact ⟨hchain, htype, cascade_length_le _ _ hchain (by simpa using htype)⟩

end Laso
