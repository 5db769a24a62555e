import Laso.Workers.Outcomes

/-!
# The continuation of a completed worker job

`reconcile` asks for the status of a job and, when that says completed without a result, for the
result. It works on a copy of the record: the continuation of the result is put into that copy, and
then the copy is thrown away, because the record is read again under the mutex. Only the continuation
of the status is put into what was read. `JobRecord.reconciled` is the block `reconcile` ends with.

Everything else of the result is merged into the status first (`WorkerStatus.withResult`), so a worker
that gives its continuation with the result completes the job and loses the continuation.
-/

namespace Laso

open Option

/-- A status together with the result that was asked for, and whether that has come. -/
def WorkerStatus.withResult (x final : WorkerStatus) : WorkerStatus × Bool :=
  let received := decide (final.state = .completed) && !final.result.isNull
  ({ x with
    result := if received then final.result else x.result
    metadata :=
      match final.metadata with
      | .obj (field :: fields) =>
        .obj ((field :: fields).foldl (upsert Prod.fst) (x.metadata.object?.getD []))
      | _ => x.metadata
    error := if final.error = "" then x.error else final.error
    artifacts := if final.artifacts.isEmpty then x.artifacts else final.artifacts
    usage := x.usage.merge final.usage }, received)

namespace JobRecord

/-- The result is asked for when the status is completed and has none, and always for a tool call. -/
def asksResult (j : JobRecord) (status : WorkerStatus) : Bool :=
  decide (status.state = .completed) &&
    (status.result.isNull || j.requestMetadata.parentWorkerJobId.isSome)

/-- The block that `reconcile` ends with, for the copy `j` of the record it was given, when the worker
answers its calls with `status` and `final`. -/
def reconciled (j : JobRecord) (failTransport : Bool) (status final : WorkerStatus) (now : String) :
    Option JobChange :=
  if j.needsResult then some (.retrieve final)
  else if j.state.isTerminal ∨ j.externalJobId = "" then none
  else if j.asksResult status then
    -- the copy with the continuation is not used any more
    match j.continued final.continuation with
    | .ok _ => some (.report (status.withResult final).1 (status.withResult final).2 now)
    | .error (.transport message _) =>
      if failTransport then some (.transportFailed message now) else none
    | .error _ => none
  else if status.state = .unknown then some .lose
  else some (.report status false now)

def lastContinuation (j : JobRecord) (status final : WorkerStatus) : Option OpaqueContinuation :=
  if j.asksResult status then final.continuation.or status.continuation else status.continuation

variable {cfg : ManagerConfig} {rows : List JobRecord} {busy : Bool} {j j' : JobRecord}

lemma continuation_continued {x : Option OpaqueContinuation} (h : j.continued x = .ok j') :
    j'.continuation = x.or j.continuation := by
  unfold continued at h
  split at h
  · rw [← Except.ok.inj h, none_or]
  split at h
  · cases h
  · rw [← Except.ok.inj h, some_or]

lemma continuation_charged (kind : WorkerFailureKind → WorkerFailureKind) :
    (j.charged cfg rows kind).continuation = j.continuation := by
  unfold charged
  split
  · rfl
  · split <;> rfl

lemma continuation_marked (x : WorkerStatus) (received : Bool) (now : String) :
    ((j.endedAt now).marked x received).continuation = j.continuation := by
  have hended : (j.endedAt now).continuation = j.continuation := by
    unfold endedAt stampedEnd
    split
    · split <;> rfl
    · rfl
  rw [← hended]
  unfold marked
  split <;> rfl

lemma continuation_report {x : WorkerStatus} {received : Bool} {now : String}
    (h : (JobChange.report x received now).rewrite cfg rows busy j = .ok (some j')) :
    j'.continuation = x.continuation.or j.continuation := by
  simp only [JobChange.rewrite] at h
  split at h
  · cases h
  obtain ⟨j₁, hj₁, hrest⟩ := bind_eq_ok.mp h
  obtain rfl := Option.some.inj (pure_eq_ok.mp hrest)
  rw [continuation_marked, continuation_charged, continuation_continued hj₁]

/-- A block of `reconcile` that completes a job keeps the continuation of the status. -/
lemma continuation_reconciled {value : JobRecord} {failTransport : Bool} {status final : WorkerStatus}
    {now : String} {x : JobChange} (hx : value.reconciled failTransport status final now = some x)
    (h : x.rewrite cfg rows busy j = .ok (some j')) (hj : j.state ≠ .completed)
    (hj' : j'.state = .completed) : j'.continuation = status.continuation.or j.continuation := by
  unfold reconciled at hx
  split at hx
  · -- only a completed job is given its result
    cases hx
    simp only [JobChange.rewrite] at h
    split at h
    · rename_i hneeds
      simp only [needsResult, Bool.and_eq_true, beq_iff_eq] at hneeds
      exact absurd hneeds.1.1.1.1 hj
    · cases h
  split at hx
  · cases hx
  split at hx
  · split at hx
    · cases hx
      exact (continuation_report h).trans rfl
    · split at hx
      · cases hx
        simp only [JobChange.rewrite] at h
        split at h
        · cases h
        · rw [← Option.some.inj (Except.ok.inj h)] at hj'
          cases hj'
      · cases hx
    · cases hx
  split at hx
  · cases hx
    simp only [JobChange.rewrite] at h
    split at h
    · cases h
    · rw [← Option.some.inj (Except.ok.inj h)] at hj'
      cases hj'
  · cases hx
    exact continuation_report h

end JobRecord

/-- **Which continuation is kept.** A `reconcile` has read a job, and after any steps of the manager its
last block completes the job. The stored job then has the continuation the worker has reported last if
and only if the result was not asked for, had no continuation, or had that of the status. -/
theorem worker_continuation_kept {cfg : ManagerConfig} {s t : ManagerState} {id now : String}
    {value j j' : JobRecord} {failTransport : Bool} {status final : WorkerStatus} {x : JobChange}
    (hs : (managerMachine cfg).Reach Machine.always {} s) (hvalue : s.jobs.get id = some value)
    (hx : value.reconciled failTransport status final now = some x)
    (ht : (managerMachine cfg).Reach Machine.always s t) (hj : t.jobs.get id = some j)
    (hopen : j.state ≠ .completed) (hj' : (t.change cfg id x).jobs.get id = some j')
    (hcompleted : j'.state = .completed) :
    (∀ c, value.lastContinuation status final = some c → j'.continuation = some c) ↔
      (value.asksResult status = true →
        final.continuation = none ∨ final.continuation = status.continuation) := by
  -- a job that is not completed has no continuation
  have hnone : j.continuation = none :=
    JobsStep.rows_of_reach (P := fun j => j.state ≠ .completed → j.continuation = none)
      (fun j hstate => if_neg hstate) (fun _ => ⟨fun _ => rfl, fun _ => rfl⟩) (hs.trans ht)
      j (Table.mem_of_get hj) hopen
  have hkept : j'.continuation = status.continuation := by
    unfold ManagerState.change at hj'
    cases hstored : t.stored cfg id x with
    | none =>
      rw [hstored, hj] at hj'
      exact absurd (Option.some.inj hj' ▸ hcompleted) hopen
    | some j'' =>
    obtain ⟨i, i', hi, hrewrite, rfl, -⟩ := ManagerState.stored_eq_some hstored
    obtain rfl : i = j := Option.mem_unique hi hj
    have hid : i'.trimmed.id = id :=
      (JobChange.effect hrewrite).same.id.trans (Table.key_of_get hi)
    rw [hstored] at hj'
    subst hid
    obtain rfl : i'.trimmed = j' := Option.mem_unique (Table.get_put_self t.jobs i'.trimmed) hj'
    have hcontinuation := JobRecord.continuation_reconciled hx hrewrite hopen hcompleted
    rw [hnone, or_none] at hcontinuation
    exact (if_pos hcompleted).trans hcontinuation
  rw [hkept]
  unfold JobRecord.lastContinuation
  cases value.asksResult status <;> cases hfinal : final.continuation <;> simp [eq_comm]

def sampleContinuation : OpaqueContinuation := ⟨"provider", "1", "state"⟩

def completedStatus (result : Json) (c : Option OpaqueContinuation) : WorkerStatus where
  state := .completed
  result := result
  continuation := c

/-- A job is submitted, and is completed without a result first; `a` and `c` are the continuations
that come with the status and with the result. -/
lemma completing_run (a c : Option OpaqueContinuation)
    (h : a = none ∧ c = some sampleContinuation ∨ a = some sampleContinuation ∧ c = none) :
    ∃ s value x j', (managerMachine sampleManager).Reach Machine.always {} s ∧
      s.jobs.get (durableJobId "k") = some value ∧ value.state ≠ .completed ∧
      value.lastContinuation (completedStatus .null a) (completedStatus (.num 1) c) =
        some sampleContinuation ∧
      value.reconciled true (completedStatus .null a) (completedStatus (.num 1) c) "" = some x ∧
      (s.change sampleManager (durableJobId "k") x).jobs.get (durableJobId "k") = some j' ∧
      j'.state = .completed ∧ j'.continuation = a := by
  obtain ⟨s, hs, hrun⟩ := Machine.exists_reach (C := Machine.always)
    (M := managerMachine sampleManager) (s := {})
    (f := fun s => (s.jobs.get (durableJobId "k")).bind fun value =>
      (value.reconciled true (completedStatus .null a) (completedStatus (.num 1) c) "").bind fun x =>
        ((s.change sampleManager (durableJobId "k") x).jobs.get (durableJobId "k")).map fun j' =>
          (value.state == .completed,
            value.lastContinuation (completedStatus .null a) (completedStatus (.num 1) c), j'.state,
            j'.continuation))
    (v := some (false, some sampleContinuation, .completed, a)) (submitSteps (sampleRequest "k") 0 "x")
    (by rcases h with ⟨rfl, rfl⟩ | ⟨rfl, rfl⟩ <;> decide +kernel)
  obtain ⟨value, hvalue, hrest⟩ := bind_eq_some_iff.mp hrun
  obtain ⟨x, hx, hrest⟩ := bind_eq_some_iff.mp hrest
  obtain ⟨j', hj', heq⟩ := map_eq_some_iff.mp hrest
  simp only [Prod.mk.injEq, beq_eq_false_iff_ne] at heq
  exact ⟨s, value, x, j', hs, hvalue, heq.1, heq.2.1, hx, hj', heq.2.2.1, heq.2.2.2⟩

/-- The worker gives its continuation with the result, and the completed job has none. -/
theorem worker_continuation_lost :
    ∃ s value x j', (managerMachine sampleManager).Reach Machine.always {} s ∧
      s.jobs.get (durableJobId "k") = some value ∧
      value.lastContinuation (completedStatus .null none)
        (completedStatus (.num 1) sampleContinuation) = some sampleContinuation ∧
      value.reconciled true (completedStatus .null none)
        (completedStatus (.num 1) sampleContinuation) "" = some x ∧
      (s.change sampleManager (durableJobId "k") x).jobs.get (durableJobId "k") = some j' ∧
      j'.state = .completed ∧ j'.continuation = none := by
  obtain ⟨s, value, x, j', hs, hvalue, -, hlast, hx, hj', hstate, hnone⟩ :=
    completing_run _ _ (.inl ⟨rfl, rfl⟩)
  exact ⟨s, value, x, j', hs, hvalue, hlast, hx, hj', hstate, hnone⟩

/-- The continuation comes with the status, and is kept. -/
theorem worker_continuation_kept_status :
    ∃ s, ∃ j' : JobRecord, (managerMachine sampleManager).Reach Machine.always {} s ∧
      j'.state = .completed ∧ j'.continuation = some sampleContinuation := by
  obtain ⟨s, value, x, j', hs, hvalue, hopen, hlast, hx, hj', hstate, -⟩ :=
    completing_run _ _ (.inr ⟨rfl, rfl⟩)
  exact ⟨s, j', hs, hstate, (worker_continuation_kept hs hvalue hx .refl hvalue hopen hj'
    hstate).mpr (fun _ => .inl rfl) _ hlast⟩

end Laso
