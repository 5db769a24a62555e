import Laso.Core.Numerals
import Laso.Core.Machine
import Laso.Core.Transaction

/-!
# Jobs of worker nodes

A worker node hands its input to an external worker as a job and waits for the result. The job is
identified by the key `idempotencyKey`, which the node assembles from its context, and stored under
the hash `durableJobId` of that key. `submitAsync` creates the job or, when one with the same key
exists, returns it, whatever it was submitted for.

**What identifies a job.** The key names the run, the node, the attempt and the distributed attempt,
and not the visit. For one node of one run it determines the last two
(`idempotencyKey_inj`), because a decimal number contains no colon.

**Who is served by which job.** The manager's steps are those of `jobMachine`. A job keeps its key
(`JobsOk`), and two keys with one hash are told apart by the stored key. So two executions of a node
share a job exactly when they agree in attempt and distributed attempt
(`worker_jobs_differ_iff`): the second visit of a node in a loop starts with attempt 1 again and gets
the job, and the result, of the first visit (`second_visit_gets_first_result`).

The comparison of the stored key is made before the job is inserted. The two steps are apart in the
model, since another process may insert between them.
-/

namespace Laso

open List Table

/-- What the body of a node knows about the execution it serves. -/
structure ExecutionContext where
  runId : String
  nodeId : String
  visit : Nat := 1
  attempt : Nat := 1
  /-- The attempt at the distributed work the node is executed in, if it is. -/
  distributedAttemptId : String := ""
  deriving DecidableEq, Repr

/-- The context of an attempt at a node: the visit is the one after those completed. -/
def executionContext (r : Run) (n : NodeDefinition) (attempt : Nat)
    (distributedAttemptId : String) : ExecutionContext where
  runId := r.id
  nodeId := n.id
  visit := r.visits n.id + 1
  attempt := attempt
  distributedAttemptId := distributedAttemptId

def ExecutionContext.idempotencyKey (c : ExecutionContext) : String :=
  let key := c.runId ++ ":" ++ c.nodeId ++ ":" ++ c.attempt.repr
  if c.distributedAttemptId = "" then key else key ++ ":" ++ c.distributedAttemptId

/-- One byte of the hash of `durable_job_id`. -/
def hashByte (hash : UInt64) (byte : UInt8) : UInt64 := (hash ^^^ byte.toUInt64) * 1099511628211

/-- The identifier of the job with a key: a hash of its bytes in hexadecimal. -/
def durableJobId (key : String) : String :=
  let hash := key.toByteArray.data.toList.foldl hashByte 1469598103934665603
  "worker-" ++ String.ofList (Nat.toDigits 16 hash.toNat)

/-- `job_id_for`. -/
def jobIdFor (key : String) : Except Error String := do
  require (0 < key.utf8ByteSize ∧ key.utf8ByteSize ≤ 512)
    ⟨.validation, "Invalid worker idempotency key"⟩
  return durableJobId key

/-- A worker job with the fields that only the manager reads. -/
structure ManagedJob extends WorkerJob where
  idempotencyKey : String := ""
  externalJobId : String := ""

instance : Keyed ManagedJob := ⟨fun j => j.id⟩

variable (j : ManagedJob)

@[simp] lemma ManagedJob.key_eq : Keyed.key j = j.id := rfl

/-- A job whose outcome is open and that occupies a slot. -/
def ManagedJob.active : Bool := !j.state.isTerminal && j.state != .unknown

/-- A job that no process is known to have handed to its worker. -/
def ManagedJob.forgotten : ManagedJob :=
  { j with
    state := .unknown
    error := "Worker submission outcome is unknown after restart; it will not be resubmitted" }

/-- A submission that has found no job under its identifier and is about to insert one. -/
structure Submission where
  inst : String
  context : ExecutionContext
  workerId : String

def Submission.job (s : Submission) : ManagedJob where
  id := durableJobId s.context.idempotencyKey
  workerId := s.workerId
  runId := s.context.runId
  nodeId := s.context.nodeId
  attempt := s.context.attempt
  idempotencyKey := s.context.idempotencyKey

structure Waiting where
  inst : String
  context : ExecutionContext
  jobId : String

structure JobLimits where
  maxActive : Nat
  maxPerWorker : Nat

/-- The stored jobs, the submissions each process has under way (`dispatching` is
`async_submissions_`), and the executions that wait for a job. `served` and `answers` record which
job each execution was given and what it returned for it. -/
structure JobSystem where
  jobs : Table ManagedJob := empty
  dispatching : List (String × String) := []
  submissions : List Submission := []
  waiting : List Waiting := []
  served : List (ExecutionContext × String) := []
  answers : List (ExecutionContext × String × Except Error Json) := []

namespace JobSystem

variable (s : JobSystem)

/-- An execution is given a job and begins to wait for it. -/
def serve (inst : String) (c : ExecutionContext) (j : ManagedJob) : JobSystem :=
  { s with
    waiting := s.waiting ++ [⟨inst, c, j.id⟩]
    served := s.served ++ [(c, j.id)] }

/-- The slots that are taken, in all and by one worker. -/
def activeJobs : List ManagedJob := s.jobs.rows.filter ManagedJob.active

/-- `submit_async` when a job is stored under the identifier. A submission of which nothing is known
has its outcome recorded as unknown. -/
def reuse (inst worker : String) (c : ExecutionContext) (j : ManagedJob) :
    Except Error JobSystem := do
  require (j.idempotencyKey = c.idempotencyKey) ⟨.conflict, "Worker idempotency key collision"⟩
  require (j.workerId = worker) ⟨.conflict, "Worker idempotency key belongs to another worker"⟩
  if j.state.isTerminal ∨ j.state = .unknown ∨ j.externalJobId ≠ "" then
    return s.serve inst c j
  else if j.state = .submitting ∧ (inst, j.id) ∉ s.dispatching then
    return { s with jobs := s.jobs.put j.forgotten }.serve inst c j.forgotten
  else
    -- Nothing has been handed to the worker yet: unless this process is at it, it dispatches the job.
    return { s with dispatching := s.dispatching.insert (inst, j.id) }.serve inst c j

/-- `submit_async` up to the insertion of the job, for a request that is within its limits and
resolves to an available worker. The node asks for the identifier of the job beforehand. -/
def submitAsync (limits : JobLimits) (s : JobSystem) (inst worker : String)
    (c : ExecutionContext) : Except Error JobSystem := do
  let id ← jobIdFor c.idempotencyKey
  match s.jobs.get id with
  | some j => s.reuse inst worker c j
  | none =>
    require (s.activeJobs.length < limits.maxActive) ⟨.capacity, "Worker job capacity is exhausted"⟩
    require ((s.activeJobs.filter fun j => j.workerId = worker).length < limits.maxPerWorker)
      ⟨.capacity, "Worker-specific job capacity is exhausted"⟩
    return { s with submissions := s.submissions ++ [⟨inst, c, worker⟩] }

/-- The insertion: `claim` does nothing when there is a job under the identifier by now, and that
job is returned. The state `Submitting` is stored by a commit of its own. -/
def insert (p : Submission) : JobSystem :=
  match s.jobs.get p.job.id with
  | some j => s.serve p.inst p.context j
  | none =>
    { s with
      jobs := s.jobs.put p.job
      dispatching := s.dispatching ++ [(p.inst, p.job.id)] }.serve p.inst p.context p.job

end JobSystem

/-- What a worker node returns for the job it waits for, once that is decided. -/
def ManagedJob.outcome : Option (Except Error Json) :=
  match j.state with
  | .completed => some (.ok j.result)
  | .failed => some (.error ⟨.execution, if j.error = "" then "Worker job failed" else j.error⟩)
  | .cancelled => some (.error ⟨.cancellation, "Worker job was cancelled"⟩)
  | .timedOut => some (.error ⟨.timeout, "Worker job exceeded its deadline"⟩)
  | .unknown => some (.error ⟨.execution, "Worker job recovery state is unknown"⟩)
  | _ => none

structure JobUpdate where
  state : WorkerJobState
  externalJobId : String := ""
  error : String := ""
  result : Json := .obj []

/-- A new version of a job. What it was submitted with is kept. -/
def ManagedJob.update (u : JobUpdate) : ManagedJob :=
  { j with state := u.state, externalJobId := u.externalJobId, error := u.error, result := u.result }

/-- Steps of the manager and the nodes it serves. -/
inductive JobStep where
  /-- A node body submits its job. -/
  | submit (inst worker : String) (c : ExecutionContext)
  /-- A submission inserts its job. -/
  | insert (i : Nat)
  /-- A version of a job is stored: its submission is recorded, its state is refreshed, it is
  cancelled. -/
  | persist (id : String) (u : JobUpdate)
  /-- The submission of a job to its worker has ended. -/
  | dispatched (inst id : String)
  /-- A process ends and starts again. -/
  | restart (inst : String)
  /-- A node body looks at its job. -/
  | poll (i : Nat)

def jobMachine (limits : JobLimits) : Machine JobSystem JobStep
  | s, .submit inst worker c => (s.submitAsync limits inst worker c).toOption
  | s, .insert i => do
    let p ← s.submissions[i]?
    return { s with submissions := s.submissions.eraseIdx i }.insert p
  | s, .persist id u => do
    let j ← s.jobs.get id
    guard (j.state = u.state ∨ validWorkerJobTransition j.state u.state)
    return { s with jobs := s.jobs.put (j.update u) }
  | s, .dispatched inst id =>
    some { s with dispatching := s.dispatching.filter (· ≠ (inst, id)) }
  | s, .restart inst =>
    some { s with
      dispatching := s.dispatching.filter (·.1 ≠ inst)
      submissions := s.submissions.filter (·.inst ≠ inst)
      waiting := s.waiting.filter (·.inst ≠ inst) }
  | s, .poll i => do
    let w ← s.waiting[i]?
    let j ← s.jobs.get w.jobId
    let answer ← j.outcome
    return { s with
      waiting := s.waiting.eraseIdx i
      answers := s.answers ++ [(w.context, w.jobId, answer)] }

section Keys

variable {c c' : ExecutionContext}

def ExecutionContext.keySuffix (c : ExecutionContext) : List Char :=
  if c.distributedAttemptId = "" then [] else ':' :: c.distributedAttemptId.toList

lemma toList_idempotencyKey (c : ExecutionContext) :
    c.idempotencyKey.toList = (c.runId.toList ++ ':' :: c.nodeId.toList ++ [':']) ++
      (c.attempt.repr.toList ++ c.keySuffix) := by
  unfold ExecutionContext.idempotencyKey ExecutionContext.keySuffix
  split <;> simp

lemma takeWhile_repr_append (c : ExecutionContext) :
    (c.attempt.repr.toList ++ c.keySuffix).takeWhile (fun ch => decide (ch ≠ ':')) =
      c.attempt.repr.toList := by
  rw [takeWhile_append_of_pos fun _ hch => decide_eq_true (ne_of_mem_repr (by decide) hch)]
  unfold ExecutionContext.keySuffix
  split <;> simp

lemma distributedAttemptId_eq_of_keySuffix (h : c.keySuffix = c'.keySuffix) :
    c.distributedAttemptId = c'.distributedAttemptId := by
  unfold ExecutionContext.keySuffix at h
  split at h <;> split at h
  · simp_all
  · simp at h
  · simp at h
  · exact String.toList_inj.mp (List.cons.inj h).2

/-- For one node of one run, the key determines the attempt and the distributed attempt, and
nothing else. -/
lemma idempotencyKey_inj (hrun : c.runId = c'.runId) (hnode : c.nodeId = c'.nodeId) :
    c.idempotencyKey = c'.idempotencyKey ↔
      (c.attempt, c.distributedAttemptId) = (c'.attempt, c'.distributedAttemptId) := by
  constructor
  · intro h
    have hlist := congrArg String.toList h
    rw [toList_idempotencyKey, toList_idempotencyKey, hrun, hnode] at hlist
    have htail := append_cancel_left hlist
    have hrepr : c.attempt.repr.toList = c'.attempt.repr.toList := by
      rw [← takeWhile_repr_append c, htail, takeWhile_repr_append c']
    rw [hrepr] at htail
    rw [repr_toList_inj hrepr,
      distributedAttemptId_eq_of_keySuffix (append_cancel_left htail)]
  · intro h
    obtain ⟨hattempt, hdist⟩ := Prod.mk.inj h
    unfold ExecutionContext.idempotencyKey
    rw [hrun, hnode, hattempt, hdist]

end Keys

/-- No submission loses the insertion of its job to a job with another key and the same hash. -/
def Unrivalled (s : JobSystem) : JobStep → Prop
  | .insert i => ∀ p ∈ s.submissions[i]?, ∀ j ∈ s.jobs.get p.job.id,
      j.idempotencyKey = p.context.idempotencyKey
  | _ => True

/-- A job is stored under the hash of its key, and serves executions with that key. -/
structure JobsOk (s : JobSystem) : Prop where
  hashed : ∀ j ∈ s.jobs.rows, j.id = durableJobId j.idempotencyKey
  served : ∀ e ∈ s.served, ∃ j, s.jobs.get e.2 = some j ∧ j.idempotencyKey = e.1.idempotencyKey
  waiting : ∀ w ∈ s.waiting, (w.context, w.jobId) ∈ s.served
  answers : ∀ a ∈ s.answers, (a.1, a.2.1) ∈ s.served

namespace JobsOk

variable {s : JobSystem} {inst worker : String} {c : ExecutionContext} {j j' : ManagedJob}

lemma initial : JobsOk {} where
  hashed j hj := absurd hj (by simp [empty])
  served := nofun
  waiting := nofun
  answers := nofun

variable {s' : JobSystem} {limits : JobLimits}

section

variable (h : JobsOk s)
include h

lemma of_le (hjobs : s'.jobs = s.jobs)
    (hserved : s'.served = s.served) (hwaiting : ∀ w ∈ s'.waiting, w ∈ s.waiting)
    (hanswers : ∀ a ∈ s'.answers, a ∈ s.answers ∨ (a.1, a.2.1) ∈ s.served) : JobsOk s' where
  hashed := hjobs ▸ h.hashed
  served := by
    rw [hjobs, hserved]
    exact h.served
  waiting w hw := hserved ▸ h.waiting w (hwaiting w hw)
  answers a ha := hserved ▸ (hanswers a ha).elim (h.answers a) id

lemma serve (hj : s.jobs.get j.id = some j')
    (hkey : j'.idempotencyKey = c.idempotencyKey) : JobsOk (s.serve inst c j) where
  hashed := h.hashed
  served := by
    intro e he
    rcases List.mem_append.mp he with he | he
    · exact h.served e he
    · obtain rfl := mem_singleton.mp he
      exact ⟨j', hj, hkey⟩
  waiting := by
    intro w hw
    rcases List.mem_append.mp hw with hw | hw
    · exact mem_append_left _ (h.waiting w hw)
    · obtain rfl := mem_singleton.mp hw
      exact mem_append_right _ (mem_singleton_self _)
  answers a ha := mem_append_left _ (h.answers a ha)

lemma put (hid : j.id = durableJobId j.idempotencyKey)
    (hold : ∀ i ∈ s.jobs.get j.id, i.idempotencyKey = j.idempotencyKey) :
    JobsOk { s with jobs := s.jobs.put j } where
  hashed i hi := by
    rcases mem_rows_put.mp hi with rfl | ⟨hmem, -⟩
    · exact hid
    · exact h.hashed i hmem
  served := by
    intro e he
    obtain ⟨i, hi, hkey⟩ := h.served e he
    by_cases heq : j.id = e.2
    · refine ⟨j, heq ▸ get_put_self s.jobs j, ?_⟩
      rw [← hkey, hold i (heq ▸ hi)]
    · exact ⟨i, (get_put_ne heq).trans hi, hkey⟩
  waiting := h.waiting
  answers := h.answers

lemma replace (hj : s.jobs.get j.id = some j) (hid : j'.id = j.id)
    (hkey : j'.idempotencyKey = j.idempotencyKey) : JobsOk { s with jobs := s.jobs.put j' } := by
  refine h.put ?_ fun i hi => ?_
  · rw [hid, hkey]
    exact h.hashed j (mem_of_get hj)
  · rw [hid, hj] at hi
    rw [hkey, Option.some.inj hi]

lemma reuse (hget : s.jobs.get j.id = some j)
    (hs' : s.reuse inst worker c j = .ok s') : JobsOk s' := by
  simp only [JobSystem.reuse, bind_eq_ok, require_eq_ok] at hs'
  obtain ⟨-, hkey, -, -, hs'⟩ := hs'
  split at hs'
  · rw [← pure_eq_ok.mp hs']
    exact h.serve hget hkey
  split at hs'
  · rw [← pure_eq_ok.mp hs']
    have hnew : JobsOk { s with jobs := s.jobs.put j.forgotten } := h.replace hget rfl rfl
    exact hnew.serve (get_put_self s.jobs j.forgotten) hkey
  · rw [← pure_eq_ok.mp hs']
    have hsame : JobsOk { s with dispatching := s.dispatching.insert (inst, j.id) } :=
      h.of_le rfl rfl (fun _ hw => hw) fun _ ha => .inl ha
    exact hsame.serve hget hkey

lemma submitAsync (hs' : s.submitAsync limits inst worker c = .ok s') : JobsOk s' := by
  simp only [JobSystem.submitAsync, jobIdFor, bind_eq_ok, require_eq_ok, pure_eq_ok] at hs'
  obtain ⟨id, ⟨-, -, rfl⟩, hs'⟩ := hs'
  split at hs'
  · rename_i j hj
    have hid : j.id = durableJobId c.idempotencyKey := key_of_get hj
    exact h.reuse (hid ▸ hj) hs'
  simp only [bind_eq_ok, require_eq_ok, pure_eq_ok] at hs'
  obtain ⟨-, -, -, -, rfl⟩ := hs'
  exact h.of_le rfl rfl (fun _ hw => hw) fun _ ha => .inl ha

lemma insert {p : Submission} (hrival : ∀ j ∈ s.jobs.get p.job.id,
    j.idempotencyKey = p.context.idempotencyKey) :
    JobsOk (s.insert p) := by
  unfold JobSystem.insert
  split
  · rename_i j hj
    have hid : j.id = p.job.id := key_of_get hj
    exact h.serve (hid ▸ hj) (hrival j hj)
  rename_i hnone
  have hput : JobsOk { s with jobs := s.jobs.put p.job } :=
    h.put rfl fun i hi => absurd (hnone.symm.trans hi) nofun
  have hsame : JobsOk { s with
      jobs := s.jobs.put p.job
      dispatching := s.dispatching ++ [(p.inst, p.job.id)] } :=
    hput.of_le rfl rfl (fun _ hw => hw) fun _ ha => .inl ha
  exact hsame.serve (get_put_self s.jobs p.job) rfl

/-- **Step lemma.** -/
lemma step {l : JobStep} (hrival : Unrivalled s l) (hs' : jobMachine limits s l = some s') :
    JobsOk s' := by
  cases l with
  | submit inst worker c =>
    simp only [jobMachine] at hs'
    cases hsub : s.submitAsync limits inst worker c with
    | error e => simp [hsub, Except.toOption] at hs'
    | ok t =>
      simp only [hsub, Except.toOption, Option.some.injEq] at hs'
      exact hs' ▸ h.submitAsync hsub
  | insert i =>
    simp only [jobMachine, Option.bind_eq_bind, Option.bind_eq_some_iff, Option.pure_def,
      Option.some.injEq] at hs'
    obtain ⟨p, hp, rfl⟩ := hs'
    have hsame : JobsOk { s with submissions := s.submissions.eraseIdx i } :=
      h.of_le rfl rfl (fun _ hw => hw) fun _ ha => .inl ha
    exact hsame.insert (hrival p hp)
  | persist id u =>
    simp only [jobMachine, Option.bind_eq_bind, Option.bind_eq_some_iff, Option.pure_def,
      Option.some.injEq] at hs'
    obtain ⟨j, hj, -, -, rfl⟩ := hs'
    rw [← (key_of_get hj)] at hj
    exact h.replace hj rfl rfl
  | dispatched inst id =>
    obtain rfl := Option.some.inj hs'
    exact h.of_le rfl rfl (fun _ hw => hw) fun _ ha => .inl ha
  | restart inst =>
    obtain rfl := Option.some.inj hs'
    exact h.of_le rfl rfl (fun _ hw => mem_of_mem_filter hw) fun _ ha => .inl ha
  | poll i =>
  simp only [jobMachine, Option.bind_eq_bind, Option.bind_eq_some_iff, Option.pure_def,
    Option.some.injEq] at hs'
  obtain ⟨w, hw, j, hj, answer, hanswer, rfl⟩ := hs'
  refine h.of_le rfl rfl (fun _ hv => List.mem_of_mem_eraseIdx hv) fun a ha => ?_
  rcases List.mem_append.mp ha with ha | ha
  · exact .inl ha
  · obtain rfl := mem_singleton.mp ha
    exact .inr (h.waiting w (mem_of_getElem? hw))

end

/-- **Run lemma.** -/
lemma of_reach (h : (jobMachine limits).Reach Unrivalled {} s) : JobsOk s :=
  h.invariant initial fun _ _ _ hok hc hstep => hok.step hc hstep

lemma served_eq_iff {e e' : ExecutionContext × String} (h : JobsOk s) (he : e ∈ s.served)
    (he' : e' ∈ s.served) : e.2 = e'.2 ↔ e.1.idempotencyKey = e'.1.idempotencyKey := by
  obtain ⟨j, hj, hkey⟩ := h.served e he
  obtain ⟨j', hj', hkey'⟩ := h.served e' he'
  have hid : j.id = e.2 := key_of_get hj
  have hid' : j'.id = e'.2 := key_of_get hj'
  constructor
  · intro heq
    rw [heq, hj'] at hj
    rw [← hkey, ← hkey', Option.some.inj hj]
  intro heq
  rw [← hid, ← hid', h.hashed j (mem_of_get hj), h.hashed j' (mem_of_get hj'), hkey, hkey', heq]

end JobsOk

/-- Two executions of a node in a run are served by different jobs exactly when they differ in the
attempt or the distributed attempt, and every answer comes from a job that serves the execution it
is given to. The number of the visit has no part in it. -/
theorem worker_jobs_differ_iff {limits : JobLimits} {s : JobSystem}
    (h : (jobMachine limits).Reach Unrivalled {} s) :
    (∀ e ∈ s.served, ∀ e' ∈ s.served, e.1.runId = e'.1.runId → e.1.nodeId = e'.1.nodeId →
      (e.2 ≠ e'.2 ↔ (e.1.attempt, e.1.distributedAttemptId) ≠
        (e'.1.attempt, e'.1.distributedAttemptId))) ∧
    ∀ a ∈ s.answers, (a.1, a.2.1) ∈ s.served := by
  have hok := JobsOk.of_reach h
  refine ⟨fun e he e' he' hrun hnode => not_congr ?_, hok.answers⟩
  exact (hok.served_eq_iff he he').trans (idempotencyKey_inj hrun hnode)

def askNode : NodeDefinition := { id := "ask", type := "worker" }

/-- The execution of the worker node by a run that has completed it `visits` times. -/
def askContext (visits attempt : Nat) : ExecutionContext :=
  executionContext { id := "run", nodeVisits := empty.put ("ask", visits) } askNode attempt ""

/-- One process submits a job for an execution, the worker completes it, and the node returns. -/
def askSteps (c : ExecutionContext) (result : Json) : List JobStep :=
  let id := durableJobId c.idempotencyKey
  [.submit "A" "worker" c, .insert 0, .persist id { state := .submitting },
    .persist id { state := .running, externalJobId := "job" },
    .persist id { state := .completed, externalJobId := "job", result := result },
    .dispatched "A" id, .poll 0]

instance (s : JobSystem) : ∀ l, Decidable (Unrivalled s l) := by
  rintro ⟨⟩ <;> dsimp only [Unrivalled] <;> infer_instance

/-- Two attempts at one visit are served by two jobs. -/
theorem worker_jobs_differ_iff_attempts : ∃ s, (jobMachine ⟨4, 4⟩).Reach Unrivalled {} s ∧
      ∃ e ∈ s.served, ∃ e' ∈ s.served, e.1 = askContext 0 1 ∧ e'.1 = askContext 0 2 ∧
        e.2 ≠ e'.2 := by
  obtain ⟨s, hs, hserved⟩ := Machine.exists_reach (C := Unrivalled) (M := jobMachine ⟨4, 4⟩) (s := {})
    (f := fun s => s.served.map Prod.fst) (v := [askContext 0 1, askContext 0 2])
    (askSteps (askContext 0 1) .null ++ askSteps (askContext 0 2) .null) (by decide +kernel)
  have hmem : ∀ c ∈ s.served.map Prod.fst, ∃ e ∈ s.served, e.1 = c := by simp
  rw [hserved] at hmem
  obtain ⟨e, he, hc⟩ := hmem (askContext 0 1) (by simp)
  obtain ⟨e', he', hc'⟩ := hmem (askContext 0 2) (by simp)
  refine ⟨s, hs, e, he, e', he', hc, hc', ?_⟩
  rw [(worker_jobs_differ_iff hs).1 e he e' he' (by rw [hc, hc']; rfl) (by rw [hc, hc']; rfl), hc, hc']
  decide

/-- A node in a loop: its second visit is served by the job of the first one, and returns the result
the worker gave for the first one. -/
theorem second_visit_gets_first_result : ∃ s, (jobMachine ⟨4, 4⟩).Reach Unrivalled {} s ∧
      ∃ id, s.served = [(askContext 0 1, id), (askContext 1 1, id)] ∧
        (askContext 0 1).visit ≠ (askContext 1 1).visit ∧
        s.answers.map (fun a => (a.1, a.2.1)) = [(askContext 0 1, id), (askContext 1 1, id)] ∧
        s.answers.map (fun a => a.2.2.toOption.any (· == .num 7)) = [true, true] := by
  obtain ⟨s, hs, hv⟩ := Machine.exists_reach (C := Unrivalled) (M := jobMachine ⟨4, 4⟩) (s := {})
    (f := fun s => (s.served, s.answers.map (fun a => (a.1, a.2.1)),
      s.answers.map fun a => a.2.2.toOption.any (· == .num 7)))
    (v := ([(askContext 0 1, durableJobId "run:ask:1"), (askContext 1 1, durableJobId "run:ask:1")],
      [(askContext 0 1, durableJobId "run:ask:1"), (askContext 1 1, durableJobId "run:ask:1")],
      [true, true]))
    (askSteps (askContext 0 1) (.num 7) ++ [.submit "A" "worker" (askContext 1 1), .poll 0])
    (by decide +kernel)
  simp only [Prod.mk.injEq] at hv
  exact ⟨s, hs, _, hv.1, by decide, hv.2.1, hv.2.2⟩

end Laso
