import Mathlib.Algebra.BigOperators.Group.List.Basic
import Laso.Workers.Records

/-!
# The counts of the operator diagnostics

`PostgresStorage::operator_diagnostics` groups the stored runs and worker jobs by the member `state` of
their bodies. Runs are written with that member, and are counted exactly. A worker job is written with
its state under `status`: the grouping finds nothing in any job (`workerJobStates_eq`).
-/

namespace Laso

open List Table

def RunState.text : RunState → String
  | .queued => "Queued"
  | .starting => "Starting"
  | .running => "Running"
  | .waitingTool => "WaitingTool"
  | .waitingModel => "WaitingModel"
  | .waitingWorker => "WaitingWorker"
  | .waitingApproval => "WaitingApproval"
  | .retrying => "Retrying"
  | .paused => "Paused"
  | .completed => "Completed"
  | .failed => "Failed"
  | .cancelled => "Cancelled"
  | .timedOut => "TimedOut"

def WorkerJobState.text : WorkerJobState → String
  | .created => "Created"
  | .submitting => "Submitting"
  | .queued => "Queued"
  | .running => "Running"
  | .waiting => "Waiting"
  | .completed => "Completed"
  | .failed => "Failed"
  | .cancelled => "Cancelled"
  | .timedOut => "TimedOut"
  | .unknown => "Unknown"

/-- The values of the members that are not looked at, and the text of a value that is no string. -/
structure RecordCodec where
  run : Run → String → Json
  job : JobRecord → String → Json
  dump : Json → String

/-- An entry of `run_states` or `worker_job_states`. -/
structure StateCount where
  name : String
  count : Nat

instance : Keyed StateCount := ⟨StateCount.name⟩

/-- The members `to_json` writes for a run. -/
def runMembers : List String :=
  ["id", "pipeline_id", "pipeline_version", "definition", "active_node", "created_at", "updated_at",
    "actor", "error", "parent_id", "parent_node_id", "parent_message_id", "session_id",
    "session_turn_id", "child_id", "child_pipeline_id", "child_pipeline_version",
    "subpipeline_depth", "initiation_type", "schedule_id", "schedule_occurrence_id", "due_at",
    "trigger_id", "event_id", "root_event_id", "owner_instance_id", "fencing_token",
    "lease_expires_at", "claimed_at", "last_renewed_at", "pending_parallel_group",
    "pending_parallel_join", "trigger_depth", "child_runs", "resolved_subpipelines", "state",
    "cancellation_requested", "message", "edge_visits", "node_visits", "frames", "ready", "joins",
    "prepared_join", "provider", "model", "tool", "plugin", "worker", "worker_job_id", "steps"]

/-- The members `to_json` writes for a worker job. -/
def jobMembers : List String :=
  ["id", "worker_id", "run_id", "node_id", "idempotency_key", "external_job_id", "attempt", "status",
    "cancellation_target_state", "failure_kind", "submitted_at", "started_at", "completed_at",
    "error", "cancellation_error", "cancellation_requested", "cancellation_acknowledged",
    "request_metadata", "result", "result_metadata", "artifacts", "usage"]

namespace RecordCodec

variable (c : RecordCodec)

def runJson (r : Run) : Json :=
  .obj (runMembers.map fun k => (k, if k = "state" then .str r.state.text else c.run r k))

def jobJson (j : JobRecord) : Json :=
  .obj ((jobMembers ++ if j.continuation.isSome then ["_continuation_candidate"] else []).map
    fun k => (k, if k = "status" then .str j.state.text else c.job j k))

/-- `body::jsonb->>'state'`. -/
def bodyState : Json → Option String
  | .obj fields =>
    match fields.lookup "state" with
    | none | some .null => none
    | some (.str s) => some s
    | some v => some (c.dump v)
  | _ => none

/-- `COUNT(*)` for each value, and the object made of the rows whose value is not null. -/
def stateCounts (bodies : List Json) : Table StateCount :=
  let states := bodies.map c.bodyState
  let rows := states.dedup.map fun s => (s, states.count s)
  (rows.filterMap fun row => row.1.map (⟨·, row.2⟩)).foldl put empty

def runStates (runs : List Run) : Table StateCount := c.stateCounts (runs.map c.runJson)

def workerJobStates (jobs : List JobRecord) : Table StateCount :=
  c.stateCounts (jobs.map c.jobJson)

end RecordCodec

/-- The object has the number of records for each state that some record is in, no other entry, and
its values add up to the number of records. -/
structure Counts (counts : Table StateCount) (states : List String) : Prop where
  exact : ∀ name, (counts.get name).map StateCount.count =
    if name ∈ states then some (states.count name) else none
  total : (counts.rows.map StateCount.count).sum = states.length

section Lemmas

variable {c : RecordCodec}

lemma bodyState_runJson (r : Run) : c.bodyState (c.runJson r) = some r.state.text := by
  simp [RecordCodec.bodyState, RecordCodec.runJson, runMembers, lookup_cons]

lemma bodyState_jobJson (j : JobRecord) : c.bodyState (c.jobJson j) = none := by
  cases h : j.continuation <;>
    simp [RecordCodec.bodyState, RecordCodec.jobJson, jobMembers, h, lookup_cons]

lemma rows_foldl_put {entries : List StateCount} {t : Table StateCount}
    (h : ((t.rows ++ entries).map StateCount.name).Nodup) :
    (entries.foldl put t).rows = t.rows ++ entries := by
  induction entries generalizing t with
  | nil => simp
  | cons a rest ih =>
    have hnone : t.get (Keyed.key a) = none := by
      refine Option.eq_none_iff_forall_not_mem.mpr fun b hb => ?_
      have hkey : b.name = a.name := key_of_get hb
      rw [map_append, map_cons] at h
      have hnot := (nodup_append.mp h).2.2 b.name (mem_map_of_mem (mem_of_get hb))
      exact hnot a.name mem_cons_self hkey
    have hput := rows_put_of_none hnone
    rw [foldl_cons, ih (by rwa [hput, append_assoc]), hput, append_assoc]
    rfl

/-- **The grouping counts every record whose body has a state.** -/
lemma counts_of_bodyState {bodies : List Json} {states : List String}
    (h : bodies.map c.bodyState = states.map some) : Counts (c.stateCounts bodies) states := by
  have hrows : (c.stateCounts bodies).rows = states.dedup.map fun s => ⟨s, states.count s⟩ := by
    rw [RecordCodec.stateCounts, h, rows_foldl_put] <;>
      simp [dedup_map_of_injective (Option.some_injective _), filterMap_map, Function.comp_def,
        count_map_of_injective _ _ (Option.some_injective _), empty, nodup_dedup]
  constructor
  · intro name
    split
    · rename_i hname
      have hin : ⟨name, states.count name⟩ ∈ (c.stateCounts bodies).rows := by
        rw [hrows]
        exact mem_map.mpr ⟨name, mem_dedup.mpr hname, rfl⟩
      exact congrArg _ (mem_rows_iff.mp hin)
    rename_i hname
    refine Option.map_eq_none_iff.mpr (Option.eq_none_iff_forall_not_mem.mpr fun a ha => ?_)
    have hin := mem_of_get ha
    rw [hrows] at hin
    obtain ⟨s, hs, rfl⟩ := mem_map.mp hin
    exact hname ((show s = name from key_of_get ha) ▸ mem_dedup.mp hs)
  · rw [hrows, map_map]
    exact sum_map_count_dedup_eq_length states

lemma workerJobStates_eq (jobs : List JobRecord) : c.workerJobStates jobs = empty := by
  have hnone : ∀ s ∈ (jobs.map c.jobJson).map c.bodyState, s = none := by
    simp [bodyState_jobJson]
  simp only [RecordCodec.workerJobStates, RecordCodec.stateCounts]
  rw [filterMap_eq_nil_iff.mpr]
  · rfl
  · intro row hrow
    obtain ⟨s, hs, rfl⟩ := mem_map.mp hrow
    rw [hnone s (mem_dedup.mp hs)]
    rfl

end Lemmas

/-- **The runs are counted exactly; the worker jobs are only if there are none.** -/
theorem diagnostics_counts (c : RecordCodec) (runs : List Run) (jobs : List JobRecord) :
    Counts (c.runStates runs) (runs.map (·.state.text)) ∧
      (Counts (c.workerJobStates jobs) (jobs.map (·.state.text)) ↔ jobs = []) := by
  refine ⟨counts_of_bodyState (by simp [bodyState_runJson]), fun h => ?_, ?_⟩
  · have htotal := h.total
    rw [workerJobStates_eq, length_map] at htotal
    exact length_eq_zero_iff.mp htotal.symm
  · rintro rfl
    exact counts_of_bodyState rfl

/-- A job is running, and no state is reported. -/
theorem worker_job_uncounted :
    ¬Counts (RecordCodec.workerJobStates ⟨fun _ _ => .null, fun _ _ => .null, fun _ => ""⟩
      [{ id := "job", state := .running }]) ["Running"] := by
  intro h
  have htotal := h.total
  rw [workerJobStates_eq] at htotal
  cases htotal

end Laso
