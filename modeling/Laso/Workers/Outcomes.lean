import Laso.Workers.Submissions

/-!
# Outcomes of worker jobs

A job that is over keeps its outcome. The store checks the states only, so the rest is in the blocks
of the manager: each of them leaves a job that is over alone, with two exceptions. The reservations of
tool calls may be written to it, which are no part of the outcome. And `reconcile` asks again for the
result of a completed job that serves a tool call, unless it has been marked as retrieved, and writes
what it gets over result, error, usage and artifacts.

`OutcomeKept` relates a job with a later version of itself, given what has been retrieved in between,
and `worker_job_outcomes_kept` says that any two states of a run are related by it. What is retrieved
need not have been missing: an event may have completed the job with a result
(`worker_job_result_replaced`).
-/

namespace Laso

open Machine

/-- The later version `j'` of a job `j`, when only results as in `delivered` have been retrieved. -/
structure OutcomeKept (cfg : ManagerConfig) (delivered : WorkerStatus → Prop) (j j' : JobRecord) :
    Prop where
  path : Relation.ReflTransGen (fun a b => validWorkerJobTransition a b) j.state j'.state
  parent : j'.requestMetadata.parentWorkerJobId = j.requestMetadata.parentWorkerJobId
  flag : j.requestMetadata.codexToolResultRetrieved → j'.requestMetadata.codexToolResultRetrieved
  ended : j.state.isTerminal → j'.state = j.state ∧ j'.completedAt = j.completedAt ∧
      (SameOutcome j j' ∨ j.state = .completed ∧ j.requestMetadata.parentWorkerJobId.isSome ∧
        j.requestMetadata.codexToolResultRetrieved = false ∧
        j'.requestMetadata.codexToolResultRetrieved ∧
        ∃ final, delivered final ∧ final.state = .completed ∧ final.result.isNull = false ∧
          SameOutcome (j.retrieved cfg final).trimmed j')

lemma SameOutcome.trans {j j' j'' : JobRecord} (h : SameOutcome j j') (h' : SameOutcome j' j'') :
    SameOutcome j j'' :=
  ⟨h'.result.trans h.result, h'.error.trans h.error, h'.usage.trans h.usage,
    h'.artifacts.trans h.artifacts, h'.completedAt.trans h.completedAt,
    h'.failureKind.trans h.failureKind⟩

/-- What a retrieval makes of the outcome depends on the outcome only. -/
lemma SameOutcome.retrieved {j j' : JobRecord} (h : SameOutcome j j') (cfg : ManagerConfig)
    (final : WorkerStatus) :
    SameOutcome (j.retrieved cfg final).trimmed (j'.retrieved cfg final).trimmed where
  result := rfl
  error := by simp only [JobRecord.trimmed, JobRecord.retrieved, h.error]
  usage := congrArg (·.merge final.usage) h.usage
  artifacts := by simp only [JobRecord.trimmed, JobRecord.retrieved, h.artifacts]
  completedAt := h.completedAt
  failureKind := h.failureKind

namespace OutcomeKept

variable {cfg : ManagerConfig} {D D' : WorkerStatus → Prop} {j j' j'' : JobRecord}

lemma refl (j : JobRecord) : OutcomeKept cfg D j j :=
  ⟨.refl, rfl, id, fun _ => ⟨rfl, rfl, .inl ⟨rfl, rfl, rfl, rfl, rfl, rfl⟩⟩⟩

lemma mono (h : OutcomeKept cfg D j j') (hD : ∀ x, D x → D' x) : OutcomeKept cfg D' j j' where
  path := h.path
  parent := h.parent
  flag := h.flag
  ended hj := by
    obtain ⟨hstate, hend, hout⟩ := h.ended hj
    refine ⟨hstate, hend, hout.imp_right ?_⟩
    rintro ⟨hcompleted, hparent, hnot, hdone, final, hfinal, hrest⟩
    exact ⟨hcompleted, hparent, hnot, hdone, final, hD final hfinal, hrest⟩

lemma trans (h : OutcomeKept cfg D j j') (h' : OutcomeKept cfg D j' j'') :
    OutcomeKept cfg D j j'' where
  path := h.path.trans h'.path
  parent := h'.parent.trans h.parent
  flag hflag := h'.flag (h.flag hflag)
  ended hj := by
    obtain ⟨hstate, hend, hout⟩ := h.ended hj
    obtain ⟨hstate', hend', hout'⟩ := h'.ended (hstate ▸ hj)
    refine ⟨hstate'.trans hstate, hend'.trans hend, ?_⟩
    rcases hout' with hsame' | ⟨hcompleted, hparent, hnot, hdone, final, hfinal, hok, hnull, hnew⟩
    · rcases hout with hsame | ⟨hcompleted, hparent, hnot, hdone, final, hfinal, hok, hnull, hnew⟩
      · exact .inl (hsame.trans hsame')
      · exact .inr ⟨hcompleted, hparent, hnot, h'.flag hdone, final, hfinal, hok, hnull,
          hnew.trans hsame'⟩
    -- the mark is not set, so nothing has been retrieved before
    have hunmarked : ¬j'.requestMetadata.codexToolResultRetrieved := by simp [hnot]
    rcases hout with hsame | ⟨-, -, -, hmarked, -⟩
    · refine .inr ⟨hstate ▸ hcompleted, h.parent ▸ hparent, ?_, hdone, final, hfinal, hok, hnull,
        (hsame.retrieved cfg final).trans hnew⟩
      exact Bool.eq_false_iff.mpr fun hflag => hunmarked (h.flag hflag)
    · exact absurd hmarked hunmarked

/-- A rewriting that is no retrieval. -/
lemma of_rewrites {rows : List JobRecord} {u : Option WorkerUsage}
    {r : Option WorkerJobState} (hbounded : boundedError j.error = j.error)
    (h : Rewrites cfg rows u r j j') (hplain : ¬(u.isSome ∧ r = none))
    (hstate : j.state = j'.state ∨ validWorkerJobTransition j.state j'.state) :
    OutcomeKept cfg D j j'.trimmed where
  path := by
    rcases hstate with hstate | hstate
    · change Relation.ReflTransGen _ j.state j'.state
      rw [hstate]
    · exact .single hstate
  parent := h.same.parent
  flag := h.flag
  ended hj := by
    have hsame : j'.state = j.state := by
      rcases hstate with hstate | hstate
      · exact hstate.symm
      · simp [validWorkerJobTransition, hj] at hstate
    rcases h.outcome hj hsame with hout | hout
    · refine ⟨hsame, hout.completedAt, .inl ⟨hout.result, ?_, hout.usage, hout.artifacts,
        hout.completedAt, hout.failureKind⟩⟩
      change boundedError j'.error = j.error
      rw [hout.error, hbounded]
    · exact absurd hout.told hplain

/-- A retrieval. -/
lemma of_retrieve {rows : List JobRecord} {busy : Bool} {final : WorkerStatus} (hfinal : D final)
    (h : (JobChange.retrieve final).rewrite cfg rows busy j = .ok (some j')) :
    OutcomeKept cfg D j j'.trimmed := by
  simp only [JobChange.rewrite] at h
  split at h
  · rename_i hneeded
    cases h
    obtain ⟨hneeded, hok, hnull, -⟩ := hneeded
    simp only [JobRecord.needsResult, Bool.and_eq_true, beq_iff_eq, Bool.not_eq_true'] at hneeded
    exact ⟨.refl, rfl, fun _ => rfl, fun _ => ⟨rfl, rfl, .inr ⟨hneeded.1.1.1, hneeded.1.1.2, hneeded.2,
      rfl, final, hfinal, hok, hnull, ⟨rfl, rfl, rfl, rfl, rfl, rfl⟩⟩⟩⟩
  · cases h

end OutcomeKept

/-! ## Stored errors have the permitted length -/

lemma utf8Len_takeBytes_le (n : Nat) (l : List Char) : String.utf8Len (takeBytes n l) ≤ n := by
  induction l generalizing n with
  | nil => exact Nat.zero_le n
  | cons c rest ih =>
    unfold takeBytes
    split
    · have := ih (n - c.utf8Size)
      rw [String.utf8Len_cons]
      omega
    · exact Nat.zero_le n

lemma boundedError_boundedError (text : String) :
    boundedError (boundedError text) = boundedError text := by
  have hsize : (boundedError text).utf8ByteSize ≤ 512 := by
    unfold boundedError
    split
    · assumption
    · rw [String.utf8ByteSize_ofList]
      exact utf8Len_takeBytes_le 512 _
  rw [boundedError, if_pos hsize]

/-- What is stored has passed `persist`. -/
def ManagerState.Bounded (s : ManagerState) : Prop :=
  ∀ j ∈ s.jobs.rows, boundedError j.error = j.error

namespace ManagerState

variable {cfg : ManagerConfig} {s t : ManagerState} {l : ManagerStep}

lemma Bounded.of_reach (h : (managerMachine cfg).Reach always {} s) : s.Bounded :=
  JobsStep.rows_of_reach (fun j => boundedError_boundedError j.error) (fun _ => ⟨rfl, rfl⟩) h

/-- The step is `reconcile` with the result of a tool call. -/
def retrievedBy (id : String) (l : ManagerStep) (final : WorkerStatus) : Prop :=
  l = .change id (.retrieve final)

lemma told_retrieve {j : String} {u : Option WorkerUsage} (hl : ∀ id final, ¬retrievedBy id l final)
    (h : s.told l = some (j, u, none)) : u = none := by
  unfold told at h
  split at h
  · rename_i id x
    cases x with
    | retrieve final => exact absurd rfl (hl id final)
    | report | event => cases h
    | _ =>
      cases h
      rfl
  · obtain ⟨c, -, hc⟩ := Option.bind_eq_some_iff.mp h
    split at hc <;> cases hc
  · cases h

/-- **Step lemma.** -/
lemma Bounded.kept (h : s.Bounded) (hstep : managerMachine cfg s l = some t) :
    ∀ id j, s.jobs.get id = some j →
      ∃ j', t.jobs.get id = some j' ∧ OutcomeKept cfg (retrievedBy id l) j j' := by
  by_cases hl : ∃ id final, retrievedBy id l final
  · obtain ⟨id', final, rfl⟩ := hl
    intro id j hj
    cases hstep
    unfold change
    cases hstored : s.stored cfg id' (.retrieve final) with
    | none => exact ⟨j, hj, .refl j⟩
    | some stored =>
    obtain ⟨i, i', hi, hrewrite, rfl, -⟩ := stored_eq_some hstored
    have hid : i'.trimmed.id = id' :=
      (JobChange.effect hrewrite).same.id.trans (Table.key_of_get hi)
    by_cases heq : id' = id
    · subst heq
      obtain rfl : i = j := Option.mem_unique hi hj
      exact ⟨i'.trimmed, hid ▸ Table.get_put_self s.jobs i'.trimmed, .of_retrieve rfl hrewrite⟩
    · exact ⟨j, (Table.get_put_ne (by rwa [← hid] at heq)).trans hj, .refl j⟩
  · have hplain := fun id final hl' => hl ⟨id, final, hl'⟩
    intro id
    refine (JobsStep.of_step hstep).rows OutcomeKept.refl (fun htold hj hrewrites hstate =>
      .of_rewrites (h _ (Table.mem_of_get hj)) hrewrites ?_ hstate) id
    rintro ⟨hsome, rfl⟩
    rcases htold with ⟨rfl, -⟩ | htold
    · cases hsome
    · rw [told_retrieve hplain htold] at hsome
      cases hsome

end ManagerState

/-- On the way from one state to the other `reconcile` has been given this result of the job. -/
def ResultDelivered (cfg : ManagerConfig) (s t : ManagerState) (id : String)
    (final : WorkerStatus) : Prop :=
  ∃ u u', (managerMachine cfg).Reach always s u ∧
    managerMachine cfg u (.change id (.retrieve final)) = some u' ∧
    (managerMachine cfg).Reach always u' t

/-- **Outcomes are final.** Between any two states of a run the state of a stored job moves along
valid transitions. A job that is over keeps its state, the time of its end and its outcome, except
that the outcome of a completed job for a tool call is written again, once, when its result is
retrieved; then it is what `retrieved` makes of it with the result that was delivered. -/
theorem worker_job_outcomes_kept {cfg : ManagerConfig} {s t : ManagerState}
    (hs : (managerMachine cfg).Reach always {} s)
    (ht : (managerMachine cfg).Reach always s t) :
    ∀ id j, s.jobs.get id = some j →
      ∃ j', t.jobs.get id = some j' ∧ OutcomeKept cfg (ResultDelivered cfg s t id) j j' := by
  intro id j hj
  induction ht with
  | refl => exact ⟨j, hj, .refl j⟩
  | @step t u l ht hl hstep ih =>
    obtain ⟨j', hj', hkept⟩ := ih
    obtain ⟨j'', hj'', hkept'⟩ := (ManagerState.Bounded.of_reach (hs.trans ht)).kept hstep id j' hj'
    refine ⟨j'', hj'', (hkept.mono ?_).trans (hkept'.mono ?_)⟩
    · rintro final ⟨v, v', hv, hretrieve, hv'⟩
      exact ⟨v, v', hv, hretrieve, hv'.step hl hstep⟩
    · rintro final rfl
      exact ⟨t, u, ht, hstep, .refl⟩

/-! ## A result that is replaced -/

def sampleManager : ManagerConfig where
  maxActive := 2
  maxPerWorker := 2

/-- A request, for the job `parent` if it is named. -/
def sampleRequest (key : String) (parent : String := "") : WorkerRequest where
  idempotencyKey := key
  runId := "run"
  parentWorkerJobId := parent

/-- A call of `submit` and all its steps; the worker answers with the handle `handle`. -/
def submitSteps (r : WorkerRequest) (i : Nat) (handle : String) : List ManagerStep :=
  [.submit r "w", .call i {}, .call i {}, .call i {}, .call i {},
    .call i { submission := .ok { externalJobId := handle } }, .call i {}, .call i {}]

def completedEvent (key : String) (result : Json) : WorkerEvent where
  type := "worker.job.completed"
  jobId := durableJobId key
  result := result

/-- The number that is the result of a job. -/
def JobRecord.number (j : JobRecord) : Option Int :=
  match j.result with
  | .num n => some n
  | _ => none

/-- An event completes a job for a tool call with a result, and the result that its worker is asked
for afterwards replaces it. -/
lemma replaced_run : ∃ s t, (managerMachine sampleManager).Reach always {} s ∧
      (managerMachine sampleManager).Reach always s t ∧
      (s.jobs.get (durableJobId "k")).map (fun j => (j.state, j.number)) =
        some (.completed, some 1) ∧
      (t.jobs.get (durableJobId "k")).map (fun j => (j.state, j.number)) =
        some (.completed, some 2) :=
  exists_reach_reach (submitSteps (sampleRequest "k" "parent") 0 "x" ++
      [.change (durableJobId "k") (.event (completedEvent "k" (.num 1)) "")])
    [.change (durableJobId "k") (.retrieve { state := .completed, result := .num 2 })]
    (by decide +kernel)

/-- A job that is completed with a result has another result later. -/
theorem worker_job_result_replaced : ∃ s t, (managerMachine sampleManager).Reach always {} s ∧
      (managerMachine sampleManager).Reach always s t ∧
      ∃ j j', s.jobs.get (durableJobId "k") = some j ∧ t.jobs.get (durableJobId "k") = some j' ∧
        j.state = .completed ∧ j.number = some 1 ∧ j'.number = some 2 := by
  obtain ⟨s, t, hs, ht, hj, hj'⟩ := replaced_run
  obtain ⟨j, hget, hvalue⟩ := Option.map_eq_some_iff.mp hj
  obtain ⟨j', hget', hvalue'⟩ := Option.map_eq_some_iff.mp hj'
  simp only [Prod.mk.injEq] at hvalue hvalue'
  exact ⟨s, t, hs, ht, j, j', hget, hget', hvalue.1, hvalue.2, hvalue'.2⟩

/-- In the same run the new outcome is made with the result that was delivered. -/
theorem worker_job_outcomes_kept_retrieved :
    ∃ s t, (managerMachine sampleManager).Reach always {} s ∧
      (managerMachine sampleManager).Reach always s t ∧
      ∃ j j', s.jobs.get (durableJobId "k") = some j ∧ t.jobs.get (durableJobId "k") = some j' ∧
        j.state.isTerminal = true ∧ ∃ final,
          ResultDelivered sampleManager s t (durableJobId "k") final ∧
          SameOutcome (j.retrieved sampleManager final).trimmed j' := by
  obtain ⟨s, t, hs, ht, hj, hlater⟩ := replaced_run
  obtain ⟨j, hget, hvalue⟩ := Option.map_eq_some_iff.mp hj
  obtain ⟨j', hget', hkept⟩ := worker_job_outcomes_kept hs ht _ j hget
  simp only [hget', Option.map_some, Option.some.injEq, Prod.mk.injEq] at hvalue hlater
  have hover : j.state.isTerminal = true := by
    rw [hvalue.1]
    rfl
  rcases (hkept.ended hover).2.2 with hsame | ⟨-, -, -, -, final, hfinal, -, -, hnew⟩
  · have hnumber : j'.number = j.number := by rw [JobRecord.number, hsame.result, JobRecord.number]
    rw [hlater.2, hvalue.2] at hnumber
    cases hnumber
  · exact ⟨s, t, hs, ht, j, j', hget, hget', hover, final, hfinal, hnew⟩

end Laso
