import Laso.Workers.Outcomes

/-!
# Slots of worker jobs

A new job is admitted when fewer than `maxActive` jobs, and fewer than `maxPerWorker` of its worker,
occupy a slot. Counting and inserting are one block, so this bounds the slots that are taken at that
moment. It bounds them for good if no job comes back to a slot it has given up: a job whose outcome is
unknown occupies none, and a status, an event or the answer to a submission can have it running
again. And the count must see all jobs: it reads the first 10000.

`workers_within_capacity` is the bound for runs without the two, `worker_capacity_exceeded` a run in
which a lost job comes back.
-/

namespace Laso

open List Table ManagerState

def WorkerJobState.occupies (state : WorkerJobState) : Bool := !state.isTerminal && state != .unknown

variable (s : ManagerState)

/-- The slots that are taken, by the jobs of some workers. -/
def ManagerState.slots (p : String → Bool) : Nat :=
  s.jobs.rows.countP fun j => j.active && p j.workerId

/-- The step is told that a job whose outcome was unknown is at work. -/
def ManagerState.revives (l : ManagerStep) : Bool :=
  match s.told l with
  | some (id, _, some r) => (s.jobs.get id).any fun j => j.state == .unknown && r.occupies
  | _ => false

/-- No lost job comes back, and a call that may insert a job sees all that are stored. -/
def Steady : ManagerStep → Prop
  | .call i a => s.revives (.call i a) = false ∧
      ∀ c ∈ s.calls[i]?, c.point matches .look | .admitting → s.jobs.rows.length ≤ 10000
  | l => s.revives l = false

instance (s : ManagerState) (l : ManagerStep) : Decidable (Steady s l) := by
  cases l <;> unfold Steady <;> infer_instance

section Counting

variable {α : Type} [Keyed α] {t : Table α} {a b : α} {p : α → Bool}

/-- Replacing a row by one that is not counted unless the old one was does not raise the count. -/
lemma countP_put_le (h : t.get (Keyed.key a) = some b) (hp : p a → p b) :
    (t.put a).rows.countP p ≤ t.rows.countP p := by
  rw [rows_put_of_get h, countP_map]
  refine countP_mono_left fun c hc hcount => ?_
  simp only [Function.comp_apply] at hcount
  split at hcount
  · rename_i hkey
    have hget := mem_rows_iff.mp hc
    rw [hkey, h] at hget
    rw [← Option.some.inj hget]
    exact hp hcount
  · exact hcount

lemma countP_put_of_none (h : t.get (Keyed.key a) = none) :
    (t.put a).rows.countP p ≤ t.rows.countP p + 1 := by
  rw [rows_put_of_none h, countP_append]
  have := countP_le_length (p := p) (l := [a])
  simp only [length_singleton] at this
  omega

lemma countP_put_of_not (h : t.get (Keyed.key a) = none) (hp : p a = false) :
    (t.put a).rows.countP p = t.rows.countP p := by
  rw [rows_put_of_none h, countP_append]
  simp [hp]

end Counting

variable {cfg : ManagerConfig} {s t : ManagerState} {l : ManagerStep}

structure WithinCapacity (cfg : ManagerConfig) (s : ManagerState) : Prop where
  all : s.slots (fun _ => true) ≤ cfg.maxActive
  each : ∀ worker, s.slots (· = worker) ≤ cfg.maxPerWorker

variable {u : Option WorkerUsage}

lemma Rewrites.active_of_active {rows : List JobRecord}
    {r : Option WorkerJobState} {j j' : JobRecord} (h : Rewrites cfg rows u r j j')
    (hstate : j.state = j'.state ∨ validWorkerJobTransition j.state j'.state)
    (hsteady : ∀ r', r = some r' → j.state = .unknown → r'.occupies = false)
    (hactive : j'.active) : j.active := by
  simp only [ManagedJob.active, Bool.and_eq_true, Bool.not_eq_true', bne_iff_ne] at hactive ⊢
  rcases h.state with hsame | hover | hlost | htold
  · rwa [← hsame]
  · rw [hactive.1] at hover
    cases hover
  · exact absurd hlost hactive.2
  rcases hstate with hsame | hvalid
  · rwa [hsame]
  refine ⟨?_, fun hunknown => ?_⟩
  · by_contra hover
    simp [validWorkerJobTransition, hover] at hvalid
  · have hfree := hsteady _ htold hunknown
    simp [WorkerJobState.occupies, hactive.1, hactive.2] at hfree

lemma Steady.told {id : String} {r : WorkerJobState} {j : JobRecord}
    (h : Steady s l) (htold : s.told l = some (id, u, some r)) (hj : s.jobs.get id = some j)
    (hunknown : j.state = .unknown) : r.occupies = false := by
  have hnot : s.revives l = false := by
    cases l with
    | call i a => exact h.1
    | _ => exact h
  simpa [revives, htold, hj, hunknown] using hnot

lemma ManagerState.slots_of_full {worker : String} (h : s.full cfg worker = false)
    (hlen : s.jobs.rows.length ≤ 10000) :
    s.slots (fun _ => true) < cfg.maxActive ∧ s.slots (· = worker) < cfg.maxPerWorker := by
  have hpage : jobPage s.jobs "" = s.jobs.rows := by
    simp only [jobPage, true_or, decide_true, filter_true]
    exact take_of_length_le hlen
  simp only [full, hpage, decide_eq_false_iff_not, not_or, not_le] at h
  simp only [slots, countP_eq_length_filter, Bool.and_true]
  refine ⟨h.1, ?_⟩
  simpa [Bool.and_comm] using h.2

/-- A limit on the slots of some workers is kept if there is room whenever one of them gets a job. -/
lemma ManagerState.slots_step {p : String → Bool} {limit : Nat} (h : s.slots p ≤ limit)
    (hroom : ∀ worker, s.full cfg worker = false → s.jobs.rows.length ≤ 10000 → p worker →
      s.slots p < limit)
    (hsteady : Steady s l) (hstep : managerMachine cfg s l = some t) : t.slots p ≤ limit := by
  have hjobs := JobsStep.of_step hstep
  unfold slots at h ⊢
  generalize t.jobs = jobs at hjobs
  cases hjobs with
  | same => exact h
  | @rewrite j j' u r htold hj hrewrites hstate =>
    have hactive := hrewrites.active_of_active hstate fun r' hr hunknown => by
      rcases htold with ⟨-, hnone⟩ | htold
      · rw [hnone] at hr
        cases hr
      · subst hr
        exact hsteady.told htold hj hunknown
    have hid : j'.trimmed.id = j.id := hrewrites.same.id
    have hworker : j'.trimmed.workerId = j.workerId := hrewrites.same.worker
    refine (countP_put_le (b := j) ?_ fun hcount => ?_).trans h
    · rw [JobRecord.key_eq, hid, hj]
    · rw [hworker, Bool.and_eq_true] at hcount
      rw [hactive hcount.1, hcount.2, Bool.and_self]
  | @insert i a c j hl hc hpoint hnew hfull hnone =>
  subst hl
  cases hp : p j.workerId with
  | false =>
    rw [countP_put_of_not hnone (by rw [hp, Bool.and_false])]
    exact h
  | true =>
    have hlen := hsteady.2 c hc (by rcases hpoint with hpoint | hpoint <;> rw [hpoint])
    exact (countP_put_of_none hnone).trans (hroom _ hfull hlen hp)

/-- **Step lemma.** -/
lemma WithinCapacity.step (h : WithinCapacity cfg s) (hsteady : Steady s l)
    (hstep : managerMachine cfg s l = some t) : WithinCapacity cfg t where
  all := slots_step h.all (fun _ hfull hlen _ => (s.slots_of_full hfull hlen).1) hsteady hstep
  each worker := by
    refine slots_step (h.each worker) (fun worker' hfull hlen heq => ?_) hsteady hstep
    obtain rfl : worker' = worker := by simpa using heq
    exact (s.slots_of_full hfull hlen).2

/-- **Capacity.** In every run in which no lost job comes back and the count at each admission sees
all stored jobs, the limits are kept in every state. -/
theorem workers_within_capacity {cfg : ManagerConfig} {s : ManagerState}
    (h : (managerMachine cfg).Reach Steady {} s) :
    (s.jobs.rows.filter fun j => j.active).length ≤ cfg.maxActive ∧
      ∀ worker, (s.jobs.rows.filter fun j => j.active && j.workerId == worker).length ≤
        cfg.maxPerWorker := by
  have hwithin : WithinCapacity cfg s := by
    refine h.invariant ⟨?_, fun _ => ?_⟩ fun _ _ _ hok hc hstep => hok.step hc hstep
    · simp [slots, Table.empty]
    · simp [slots, Table.empty]
  refine ⟨?_, fun worker => ?_⟩
  · simpa [slots, countP_eq_length_filter] using hwithin.all
  have heach := hwithin.each worker
  rw [slots, countP_eq_length_filter] at heach
  exact heach

def oneSlot : ManagerConfig where
  maxActive := 1
  maxPerWorker := 1

/-- The first job is lost, a second one gets its slot, and an event has the first one at work. -/
def revivedSteps : List ManagerStep :=
  submitSteps (sampleRequest "a") 0 "x" ++ [.change (durableJobId "a") .lose] ++
    submitSteps (sampleRequest "b") 1 "y" ++
    [.change (durableJobId "a") (.event
      { type := "worker.job.started", jobId := durableJobId "a" } "")]

/-- With one slot, two jobs are at work. -/
theorem worker_capacity_exceeded : ∃ s, (managerMachine oneSlot).Reach Machine.always {} s ∧
      (s.jobs.rows.filter fun j => j.active).length = 2 :=
  Machine.exists_reach revivedSteps (by decide +kernel)

/-- Up to the event there is one. -/
theorem workers_within_capacity_lost :
    ∃ s, (managerMachine oneSlot).Reach Steady {} s ∧ s.jobs.rows.length = 2 ∧
      (s.jobs.rows.filter fun j => j.active).length ≤ 1 := by
  obtain ⟨s, hs, hlen⟩ := Machine.exists_reach (C := Steady) (M := managerMachine oneSlot)
    (s := {}) (f := fun s => s.jobs.rows.length) (v := 2) revivedSteps.dropLast (by decide +kernel)
  exact ⟨s, hs, hlen, (workers_within_capacity hs).1⟩

end Laso
