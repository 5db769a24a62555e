import Mathlib.Algebra.Order.BigOperators.Group.List
import Laso.Workers.Outcomes

/-!
# Each job is handed to its worker once

A worker that cannot recover submissions must not be given a job twice. The right to hand over a job
comes with its insertion: the call that has inserted it goes on to call the worker, or leaves that to
the thread it starts. Everyone else finds the job stored and returns it. A thread that is started for
a job looks again, and calls the worker only if the job is still open, in the state `Submitting` and
without a handle; and a job is never opened again.

So a job is handed over twice only when a second thread is started for an open job
(`worker_submitted_twice`): `submit_async` has seen the job entered in `async_submissions_`, and by the
time it is to start its own thread the entry is gone, while a failing store has left the job open.

`Once` counts the calls that may still hand over a job together with those that have done so.
`Matched` says that a call that goes on with a stored job has compared its key and its worker, which
is not so when an insertion is lost.
-/

namespace Laso

open List Table ManagerState SubmitCall Option

/-- The call may hand its job to the worker; a started thread only if the job is open. -/
def SubmitCall.mayCall (opened : Bool) (c : SubmitCall) : Bool :=
  match c.point, c.kind with
  | .launch reserved, _ => reserved
  | .settle, _ => true
  | .send _, _ => true
  | .enter, .dispatch => opened
  | .look, .dispatch => opened
  | _, _ => false

variable (s : ManagerState)

def ManagerState.opened (id : String) : Bool :=
  (s.jobs.get id).any fun j => j.isOpen

variable (cfg : ManagerConfig)

/-- What a call counts for with a job, given whether it is open. -/
def SubmitCall.weight (id : String) (opened : Bool) (c : SubmitCall) : Nat :=
  if c.jobId = id ∧ cfg.supportsRecovery c.worker = false ∧ c.mayCall opened then 1 else 0

/-- How often a job has been handed to a worker that cannot recover submissions. -/
def ManagerState.handedOver (s : ManagerState) (id : String) : Nat :=
  s.submits.countP fun e => decide (durableJobId e.2 = id) && !cfg.supportsRecovery e.1

/-- How often a job has been and may still be handed to such a worker. -/
def ManagerState.rights (s : ManagerState) (id : String) : Nat :=
  (s.calls.map (weight cfg id (s.opened id))).sum + s.handedOver cfg id

/-- The condition: no thread is started for an open job by a call that has not entered it, and no
insertion is lost to a job with another key or of another worker. -/
def Undisputed : ManagerStep → Prop
  | .call i _ => ∀ c ∈ s.calls[i]?,
      ((c.point matches .launch false) → c.jobId ∉ s.async → s.opened c.jobId = false) ∧
      ((c.point matches .admitting) → ∀ j ∈ s.jobs.get c.jobId,
        j.idempotencyKey = c.request.idempotencyKey ∧ j.workerId = c.worker)
  | _ => True

instance (s : ManagerState) : ∀ l, Decidable (Undisputed s l) := by
  rintro ⟨⟩ <;> dsimp only [Undisputed] <;> infer_instance

section Weights

variable {cfg : ManagerConfig} {s s' t : ManagerState} {i : Nat} {c c' : SubmitCall} {b b' : Bool}
  {id : String}

lemma SubmitCall.mayCall_mono (hb : b → b') (h : c.mayCall b) :
    c.mayCall b' := by
  unfold mayCall at h ⊢
  split at h <;> simp_all

lemma SubmitCall.weight_eq_zero (h : c.mayCall b = false) : c.weight cfg id b = 0 := by
  rw [weight, if_neg]
  rintro ⟨-, -, hmay⟩
  rw [h] at hmay
  cases hmay

lemma SubmitCall.weight_le (hjob : c'.jobId = c.jobId) (hworker : c'.worker = c.worker)
    (h : c.jobId = id → cfg.supportsRecovery c.worker = false → c'.mayCall b' →
      c.mayCall b) : c'.weight cfg id b' ≤ c.weight cfg id b := by
  unfold weight
  rw [hjob, hworker]
  split
  · rename_i hcounts
    rw [if_pos ⟨hcounts.1, hcounts.2.1, h hcounts.1 hcounts.2.1 hcounts.2.2⟩]
  · exact Nat.zero_le _

lemma sum_map_set_le {α : Type} {f g : α → Nat} {rows : List α} {k : Nat} {x : α} (y : α)
    (h : rows[k]? = some x) (hle : ∀ z, f z ≤ g z) :
    ((rows.set k y).map f).sum + g x ≤ (rows.map g).sum + f y := by
  induction rows generalizing k with
  | nil => simp at h
  | cons z rest ih =>
    cases k with
    | zero =>
      obtain rfl : z = x := by simpa using h
      have := sum_le_sum (l := rest) fun z _ => hle z
      simp only [set_cons_zero, map_cons, sum_cons]
      omega
    | succ k =>
    have := ih (by simpa using h)
    have := hle z
    simp only [set_cons_succ, map_cons, sum_cons]
    omega

lemma SubmitCall.weight_mono (hb : b → b') (c : SubmitCall) :
    c.weight cfg id b ≤ c.weight cfg id b' :=
  weight_le rfl rfl fun _ _ => mayCall_mono hb

end Weights

/-- Jobs have been rewritten: none has come or gone, and none has been opened. -/
def Rewritten (jobs jobs' : Table JobRecord) : Prop :=
  ∀ id, (jobs.get id = none → jobs'.get id = none) ∧ ∀ j, jobs.get id = some j →
    ∃ j', jobs'.get id = some j' ∧ SameJob j j' ∧ (j'.isOpen → j.isOpen)

namespace Rewritten

variable {cfg : ManagerConfig} {s t : ManagerState} {id : String}

lemma refl (jobs : Table JobRecord) : Rewritten jobs jobs :=
  fun _ => ⟨id, fun j hj => ⟨j, hj, .refl j, id⟩⟩

lemma put {rows : List JobRecord} {u : Option WorkerUsage} {r : Option WorkerJobState}
    {j j' : JobRecord} {jobs : Table JobRecord} (hj : jobs.get j.id = some j)
    (h : Rewrites cfg rows u r j j') : Rewritten jobs (jobs.put j'.trimmed) := by
  have hkey : j'.trimmed.id = j.id := h.same.id
  intro id
  by_cases hid : j'.trimmed.id = id
  · subst hid
    refine ⟨fun hnone => ?_, fun i hi => ⟨j'.trimmed, get_put_self jobs j'.trimmed, ?_⟩⟩
    · rw [hkey, hj] at hnone
      cases hnone
    · obtain rfl : j = i := Option.mem_unique hj (hkey ▸ hi)
      exact ⟨h.same.trimmed, h.closed⟩
  · rw [get_put_ne hid]
    exact refl jobs id

lemma change (cfg : ManagerConfig) (s : ManagerState) (id : String) (x : JobChange) :
    Rewritten s.jobs (s.change cfg id x).jobs := by
  rcases s.change_cases cfg id x with h | ⟨j, j', hj, heffect, -, h⟩
  · rw [h]
    exact refl s.jobs
  have hid : j.id = id := key_of_get hj
  rw [h]
  exact put (hid ▸ hj) heffect

lemma opened (h : Rewritten s.jobs t.jobs) (hopen : t.opened id) : s.opened id := by
  unfold ManagerState.opened at hopen ⊢
  cases hj : s.jobs.get id with
  | none =>
    rw [(h id).1 hj] at hopen
    cases hopen
  | some j =>
    obtain ⟨j', hj', -, hclosed⟩ := (h id).2 j hj
    rw [hj'] at hopen
    exact hclosed hopen

lemma isSome (h : Rewritten s.jobs t.jobs) (hs : (s.jobs.get id).isSome) :
    (t.jobs.get id).isSome := by
  obtain ⟨j, hj⟩ := isSome_iff_exists.mp hs
  obtain ⟨j', hj', -⟩ := (h id).2 j hj
  rw [hj']
  rfl

end Rewritten

/-- Every job has been or may be handed over at most once, and only once it is stored. -/
structure Once (cfg : ManagerConfig) (s : ManagerState) : Prop where
  one : ∀ id, s.rights cfg id ≤ 1
  calls : ∀ c ∈ s.calls, c.mayCall true → (s.jobs.get c.jobId).isSome
  submits : ∀ e ∈ s.submits, (s.jobs.get (durableJobId e.2)).isSome

namespace Once

variable {cfg : ManagerConfig} {s t : ManagerState} {l : ManagerStep} {i : Nat} {c c' : SubmitCall}

lemma rights_eq_zero (h : Once cfg s) {id : String} (hnone : s.jobs.get id = none) (b : Bool) :
    (s.calls.map (weight cfg id b)).sum = 0 ∧ s.handedOver cfg id = 0 := by
  refine ⟨sum_eq_zero fun n hn => ?_, countP_eq_zero.mpr fun e he hcount => ?_⟩
  · obtain ⟨c, hc, rfl⟩ := mem_map.mp hn
    rw [weight, if_neg]
    rintro ⟨rfl, -, hmay⟩
    have hsome := h.calls c hc (mayCall_mono (fun _ => rfl) hmay)
    rw [hnone] at hsome
    cases hsome
  · simp only [Bool.and_eq_true, decide_eq_true_eq] at hcount
    have hsome := h.submits e he
    rw [hcount.1, hnone] at hsome
    cases hsome

lemma of_call (h : Once cfg s) (hc : s.calls[i]? = some c) {new : List SubmitCall}
    {sent : List (String × String)} (hcalls : t.calls = s.calls.set i c' ++ new)
    (hsubmits : t.submits = s.submits ++ sent) (hjobs : Rewritten s.jobs t.jobs)
    (hle : ∀ id, c'.weight cfg id (t.opened id) + (new.map (weight cfg id (t.opened id))).sum +
      sent.countP (fun e => decide (durableJobId e.2 = id) && !cfg.supportsRecovery e.1) ≤
        c.weight cfg id (s.opened id))
    (hstored : (∀ d ∈ c' :: new, d.mayCall true → (s.jobs.get d.jobId).isSome) ∧
      ∀ e ∈ sent, (s.jobs.get (durableJobId e.2)).isSome) : Once cfg t where
  one id := by
    have hmono : ∀ d : SubmitCall, d.weight cfg id (t.opened id) ≤ d.weight cfg id (s.opened id) :=
      weight_mono hjobs.opened
    have hset := sum_map_set_le c' hc hmono
    have hone := h.one id
    have := hle id
    simp only [rights, handedOver, hcalls, hsubmits, map_append,
      sum_append, countP_append] at hone ⊢
    omega
  calls d hd hcan := by
    refine hjobs.isSome ?_
    rcases mem_append.mp (hcalls ▸ hd) with hd | hd
    · rcases mem_or_eq_of_mem_set hd with hd | rfl
      · exact h.calls d hd hcan
      · exact hstored.1 d mem_cons_self hcan
    · exact hstored.1 d (mem_cons_of_mem _ hd) hcan
  submits e he := by
    refine hjobs.isSome ?_
    rcases mem_append.mp (hsubmits ▸ he) with he | he
    · exact h.submits e he
    · exact hstored.2 e he

variable {p : SubmitPoint}

section

variable (h : Once cfg s) (hc : s.calls[i]? = some c)
include h hc

/-- A call goes on while jobs are rewritten; its worker may be called if that was so before. -/
lemma of_move (hcalls : t.calls = s.calls.set i { c with point := p })
    (hsubmits : t.submits = s.submits)
    (hjobs : Rewritten s.jobs t.jobs)
    (hmay : cfg.supportsRecovery c.worker = false →
      mayCall (t.opened c.jobId) { c with point := p } → c.mayCall (s.opened c.jobId))
    (hstored : mayCall true { c with point := p } → (s.jobs.get c.jobId).isSome) : Once cfg t := by
  have hcalls' : t.calls = s.calls.set i { c with point := p } ++ [] := by rw [hcalls, append_nil]
  refine h.of_call hc hcalls' (hsubmits.trans (append_nil _).symm) hjobs (fun id => ?_)
    ⟨fun d hd => mem_singleton.mp hd ▸ hstored, nofun⟩
  exact weight_le rfl rfl fun hid => hid ▸ hmay

lemma of_stop (hcalls : t.calls = s.calls.set i { c with point := p })
    (hsubmits : t.submits = s.submits)
    (hjobs : Rewritten s.jobs t.jobs)
    (hp : mayCall true { c with point := p } = false) : Once cfg t := by
  refine h.of_move hc hcalls hsubmits hjobs (fun _ hmay => ?_) fun hmay => ?_
  · rw [mayCall_mono (fun _ => rfl) hmay] at hp
    cases hp
  · rw [hp] at hmay
    cases hmay

lemma of_serve {s₀ : ManagerState} (hcalls : s₀.calls = s.calls) (hsubmits : s₀.submits = s.submits)
    (hjobs : Rewritten s.jobs s₀.jobs)
    (hp : mayCall true { c with point := p } = false) :
    Once cfg ((s₀.serve c).move i c p) := by
  refine h.of_stop hc ?_ ?_ ?_ hp
  · rw [calls_move, calls_serve, hcalls]
  · rw [submits_move, submits_serve, hsubmits]
  · rwa [jobs_move, jobs_serve]

lemma of_insert {j : JobRecord}
    (hnone : s.jobs.get c.jobId = none) (hid : j.id = c.jobId) (hjobs : t.jobs = s.jobs.put j)
    (hcalls : t.calls = s.calls.set i { c with point := p }) (hsubmits : t.submits = s.submits) :
    Once cfg t := by
  have hstored : ∀ id, (s.jobs.get id).isSome ∨ id = c.jobId →
      (t.jobs.get id).isSome := by
    intro id hsome
    rw [hjobs, get_put]
    split
    · rfl
    · rename_i hne
      exact hsome.resolve_right fun heq => hne (hid.trans heq.symm)
  have hset : ∀ id, _ := fun id => sum_map_set_le (g := weight cfg id (t.opened id))
    { c with point := p } hc fun _ => le_rfl
  refine ⟨fun id => ?_, fun d hd hcan => ?_,
    fun e he => hstored _ (.inl (h.submits e (hsubmits ▸ he)))⟩
  · have hset := hset id
    simp only [rights, handedOver, hcalls, hsubmits]
    by_cases hother : c.jobId = id
    · -- nothing could be done with the job before
      subst hother
      have hzero := h.rights_eq_zero hnone (t.opened c.jobId)
      have hone : weight cfg c.jobId (t.opened c.jobId) { c with point := p } ≤ 1 := by
        unfold weight
        split <;> omega
      rw [handedOver] at hzero
      omega
    have hne : j.id ≠ id := by rwa [hid]
    have hopened : t.opened id = s.opened id := by
      rw [ManagerState.opened, hjobs, get_put_ne hne, ManagerState.opened]
    have hzero : weight cfg id (t.opened id) { c with point := p } = 0 :=
      if_neg fun hcounts => hother hcounts.1
    have hone := h.one id
    rw [hopened] at hset hzero ⊢
    simp only [rights, handedOver] at hone
    omega
  · rw [hcalls] at hd
    rcases mem_or_eq_of_mem_set hd with hd | rfl
    · exact hstored _ (.inl (h.calls d hd hcan))
    · exact hstored _ (.inr rfl)

end

lemma of_begin (h : Once cfg s) {d : SubmitCall} (hd : d.mayCall true = false) :
    Once cfg { s with calls := s.calls ++ [d] } where
  one id := by
    have hzero : d.weight cfg id (s.opened id) = 0 := by
      refine weight_eq_zero (Bool.eq_false_iff.mpr fun hcan => ?_)
      rw [mayCall_mono (fun _ => rfl) hcan] at hd
      cases hd
    have hone := h.one id
    simp only [rights, map_append, sum_append, map_singleton, sum_singleton] at hone ⊢
    change _ + d.weight cfg id (s.opened id) + _ ≤ 1
    rw [hzero]
    exact hone
  calls c hc hcan := by
    rcases mem_append.mp hc with hc | hc
    · exact h.calls c hc hcan
    · rw [mem_singleton.mp hc, hd] at hcan
      cases hcan
  submits := h.submits

lemma mayCall_of_ending (hp : p.Ending) (b : Bool) (c : SubmitCall) :
    mayCall b { c with point := p } = false := by
  cases p <;> simp_all [SubmitPoint.Ending, mayCall]

lemma mayCall_look (hpoint : c.point = .enter) (b : Bool) :
    mayCall b { c with point := .look } = c.mayCall b := by
  rw [mayCall, mayCall, hpoint]
  cases c.kind <;> rfl

lemma of_send (h : Once cfg s) (hc : s.calls[i]? = some c) {retry : Bool} {d : SubmitCall}
    (hpoint : c.point = .send retry)
    (hd : mayCall true { d with point := p } = false) :
    Once cfg (move { s with
      submits := s.submits ++ [(c.worker, c.request.idempotencyKey)] } i d p) := by
  have hcan : c.mayCall true := by simp [mayCall, hpoint]
  have hcalls : (s.calls.set i { d with point := p }) = s.calls.set i { d with point := p } ++ [] :=
    (append_nil _).symm
  refine h.of_call hc hcalls rfl (.refl s.jobs) (fun id => ?_) ⟨fun e he hmay => ?_, fun e he => ?_⟩
  · have hzero : weight cfg id (s.opened id) { d with point := p } = 0 := by
      refine weight_eq_zero (Bool.eq_false_iff.mpr fun hmay => ?_)
      rw [mayCall_mono (fun _ => rfl) hmay] at hd
      cases hd
    change weight cfg id (s.opened id) { d with point := p } + _ + _ ≤ _
    rw [hzero]
    simp [weight, mayCall, hpoint, jobId]
  · rw [mem_singleton.mp he, hd] at hmay
    cases hmay
  · rw [mem_singleton.mp he]
    exact h.calls c (mem_of_getElem? hc) hcan

/-- The thread for a submission is started, by the call that has the right to it, or for a job that is
not open. -/
lemma of_spawn (h : Once cfg s) (hc : s.calls[i]? = some c) {b : Bool}
    (hpoint : c.point = .launch b) (hb : b = false → s.opened c.jobId = false)
    (hstored : (s.jobs.get c.jobId).isSome) : Once cfg (s.spawn i c) := by
  refine h.of_call hc rfl (append_nil _).symm (.refl s.jobs) (fun id => ?_)
    ⟨fun d hd _ => ?_, nofun⟩
  · have hle : weight cfg id (s.opened id)
        { c with kind := .dispatch, point := .enter } ≤ c.weight cfg id (s.opened id) := by
      refine weight_le rfl rfl fun hid _ hopen => ?_
      cases b with
      | true => simp [mayCall, hpoint]
      | false =>
        simp only [mayCall, ← hid, hb rfl] at hopen
        cases hopen
    have hzero : weight cfg id (s.opened id) { c with point := .leave } = 0 :=
      weight_eq_zero rfl
    change weight cfg id (s.opened id) { c with point := .leave } +
      (weight cfg id (s.opened id) { c with kind := .dispatch, point := .enter } + 0) + 0 ≤ _
    omega
  · rcases mem_cons.mp hd with rfl | hd
    · exact hstored
    · rw [mem_singleton.mp hd]
      exact hstored

end Once

/-! ## Calls go on with the job they ask for -/

/-- Points at which a call has found or inserted its job. -/
def SubmitPoint.knows : SubmitPoint → Bool
  | .launch _ | .settle | .send _ | .record _ _ | .withdraw _ | .change _ => true
  | _ => false

/-- The job of a call is stored, with its key and its worker. -/
def ManagerState.Known (c : SubmitCall) : Prop :=
  ∃ j, s.jobs.get c.jobId = some j ∧ c.Names j

/-- Calls know the jobs they go on with, and callers are given the jobs they ask for. -/
structure Matched (s : ManagerState) : Prop where
  calls : ∀ c ∈ s.calls, c.point.knows → s.Known c
  served : ∀ e ∈ s.served, e.1.Names e.2

namespace Matched

variable {cfg : ManagerConfig} {s t : ManagerState} {l : ManagerStep} {i : Nat} {c c' : SubmitCall}

lemma known_of_step (hstep : managerMachine cfg s l = some t) (h : s.Known c) : t.Known c := by
  obtain ⟨j, hj, hkey, hworker⟩ := h
  obtain ⟨j', hj', hsame⟩ := (JobsStep.of_step hstep).rows SameJob.refl
    (fun _ _ hrewrites _ => hrewrites.same.trimmed) c.jobId j hj
  exact ⟨j', hj', hsame.key.trans hkey, hsame.worker.trans hworker⟩

lemma served_serve (s : ManagerState) (c : SubmitCall) :
    (s.serve c).served = s.served ∨ ∃ j, s.jobs.get c.jobId = some j ∧
      (s.serve c).served = s.served ++ [(c, j)] := by
  unfold serve
  split
  · rename_i j hj
    exact .inr ⟨j, hj, rfl⟩
  · exact .inl rfl

lemma of_call (h : Matched s) (hstep : managerMachine cfg s l = some t)
    (hcalls : t.calls = s.calls.set i c') (hsame : c'.request = c.request ∧ c'.worker = c.worker)
    (hserved : t.served = s.served ∨ ∃ j, t.jobs.get c.jobId = some j ∧
      t.served = s.served ++ [(c, j)])
    (hknown : t.Known c ∨ (c'.point.knows = false ∧ t.served = s.served)) : Matched t where
  calls d hd hknows := by
    rw [hcalls] at hd
    rcases mem_or_eq_of_mem_set hd with hd | rfl
    · exact known_of_step hstep (h.calls d hd hknows)
    rcases hknown with ⟨j, hj, hkey, hworker⟩ | ⟨hnot, -⟩
    · refine ⟨j, ?_, ?_, ?_⟩
      · rwa [jobId, hsame.1]
      · rw [hkey, hsame.1]
      · rw [hworker, hsame.2]
    · rw [hnot] at hknows
      cases hknows
  served e he := by
    rcases hknown with ⟨j, hj, hnames⟩ | ⟨-, heq⟩
    · rcases hserved with heq | ⟨i, hi, heq⟩
      · exact h.served e (heq ▸ he)
      rcases mem_append.mp (heq ▸ he) with he | he
      · exact h.served e he
      · obtain rfl := mem_singleton.mp he
        obtain rfl : j = i := Option.mem_unique hj hi
        exact hnames
    · exact h.served e (heq ▸ he)

lemma of_serve {s₀ : ManagerState} {p : SubmitPoint} (h : Matched s)
    (hstep : managerMachine cfg s l = some ((s₀.serve c).move i c p)) (hcalls : s₀.calls = s.calls)
    (hserved : s₀.served = s.served) (hknown : ((s₀.serve c).move i c p).Known c) :
    Matched ((s₀.serve c).move i c p) := by
  have hcalls' : ((s₀.serve c).move i c p).calls = s.calls.set i { c with point := p } := by
    rw [calls_move, calls_serve, hcalls]
  refine h.of_call (c := c) hstep hcalls' ⟨rfl, rfl⟩ ?_ (.inl hknown)
  have hserve := served_serve s₀ c
  rw [hserved] at hserve
  simpa using hserve

lemma of_callStep (h : Matched s) (hstep : managerMachine cfg s l = some t)
    (hc : s.calls[i]? = some c) (hcall : CallStep cfg s i c t)
    (hcond : c.point = .admitting → ∀ j, s.jobs.get c.jobId = some j → c.Names j) : Matched t := by
  have hmem := mem_of_getElem? hc
  -- what the call knew before it still knows
  have hknown : c.point.knows → t.Known c :=
    fun hknows => known_of_step hstep (h.calls c hmem hknows)
  cases hcall with
  | find _ hget hnames =>
    exact h.of_call hstep rfl ⟨rfl, rfl⟩ (.inl rfl) (.inl (known_of_step hstep ⟨_, hget, hnames⟩))
  | answer _ hget hnames =>
    exact h.of_serve hstep rfl rfl (known_of_step hstep ⟨_, hget, hnames⟩)
  | lose hpoint hget =>
    exact h.of_serve hstep rfl rfl (known_of_step hstep ⟨_, hget, hcond hpoint _ hget⟩)
  | submit =>
    exact h.of_call hstep rfl ⟨rfl, rfl⟩ (.inl rfl)
      (.inl ⟨c.submitting, get_put_self s.jobs c.submitting, rfl, rfl⟩)
  | reserve =>
    refine h.of_serve hstep rfl rfl ⟨c.submitting, ?_, rfl, rfl⟩
    rw [jobs_move, jobs_serve]
    exact get_put_self s.jobs c.submitting
  | launch hpoint =>
    refine ⟨fun d hd hknows => ?_, h.served⟩
    rcases mem_append.mp hd with hd | hd
    · rcases mem_or_eq_of_mem_set hd with hd | rfl
      · exact known_of_step hstep (h.calls d hd hknows)
      · cases hknows
    · rw [mem_singleton.mp hd] at hknows
      cases hknows
  | unscheduled hpoint =>
    exact h.of_call hstep rfl ⟨rfl, rfl⟩ (.inl rfl) (.inl (hknown (by rw [hpoint]; rfl)))
  | settle hpoint =>
    rw [change_eq] at hstep hknown ⊢
    exact h.of_call hstep rfl ⟨rfl, rfl⟩ (.inl rfl) (.inl (hknown (by rw [hpoint]; rfl)))
  | settled hpoint | change hpoint =>
    exact h.of_serve hstep (by simp) (by simp) (hknown (by rw [hpoint]; rfl))
  | @send b c' p hpoint hc' =>
    refine h.of_call hstep rfl ?_ (.inl rfl) (.inl (hknown (by rw [hpoint]; rfl)))
    rcases hc' with ⟨rfl, -⟩ | ⟨x, rfl, -⟩ <;> exact ⟨rfl, rfl⟩
  | refuse hpoint | withdraw hpoint =>
    exact h.of_call hstep rfl ⟨rfl, rfl⟩ (.inl rfl) (.inl (hknown (by rw [hpoint]; rfl)))
  | ignore hpoint =>
    exact h.of_serve hstep rfl rfl (hknown (by rw [hpoint]; rfl))
  | record hpoint _ _ _ _ hs' =>
    have hknown := hknown (by rw [hpoint]; rfl)
    rcases hs' with rfl | rfl
    · exact h.of_call hstep rfl ⟨rfl, rfl⟩ (.inl rfl) (.inl hknown)
    · exact h.of_serve hstep rfl rfl hknown
  | enter =>
    rw [enterActive_eq] at hstep ⊢
    exact h.of_call hstep rfl ⟨rfl, rfl⟩ (.inl rfl) (.inr ⟨rfl, rfl⟩)
  | finish _ hp =>
    rw [leaveActive_eq] at hstep ⊢
    refine h.of_call hstep rfl ⟨rfl, rfl⟩ (.inl rfl) (.inr ⟨?_, rfl⟩)
    rcases hp with rfl | rfl <;> rfl
  | leave | admitting | insert | release =>
    exact h.of_call hstep rfl ⟨rfl, rfl⟩ (.inl rfl) (.inr ⟨rfl, rfl⟩)

/-- **Step lemma.** -/
lemma step (h : Matched s) (hcond : Undisputed s l) (hstep : managerMachine cfg s l = some t) :
    Matched t := by
  cases l with
  | submit | submitAsync =>
    cases hstep
    refine ⟨fun d hd hknows => ?_, h.served⟩
    rcases mem_append.mp hd with hd | hd
    · exact h.calls d hd hknows
    · rw [mem_singleton.mp hd] at hknows
      cases hknows
  | restart =>
    cases hstep
    exact ⟨fun d hd => absurd hd not_mem_nil, h.served⟩
  | change id x =>
    obtain rfl : s.change cfg id x = t := some.inj hstep
    refine ⟨fun d hd hknows => ?_, fun e he => h.served e (by simpa using he)⟩
    exact known_of_step hstep (h.calls d (by simpa using hd) hknows)
  | call i a =>
    obtain ⟨c, hc, hcall⟩ := bind_eq_some_iff.mp hstep
    exact h.of_callStep hstep hc (.of_step hcall) fun hpoint => (hcond c hc).2 (by rw [hpoint])

end Matched

/-! ## Jobs are handed over once -/

namespace Once

variable {cfg : ManagerConfig} {s t : ManagerState} {l : ManagerStep} {i : Nat} {c : SubmitCall}

lemma of_callStep (h : Once cfg s) (hmatched : Matched s) (hc : s.calls[i]? = some c)
    (hcall : CallStep cfg s i c t)
    (hcond : c.point = .launch false → c.jobId ∉ s.async → s.opened c.jobId = false) :
    Once cfg t := by
  have hmem := mem_of_getElem? hc
  have hsame : Rewritten s.jobs s.jobs := .refl s.jobs
  cases hcall with
  | enter hpoint =>
    rw [enterActive_eq]
    exact h.of_move hc rfl rfl hsame (fun _ hmay => mayCall_look hpoint _ ▸ hmay)
      fun hmay => h.calls c hmem (mayCall_look hpoint _ ▸ hmay)
  | find hpoint hget hnames hfinds =>
    have hstored : (s.jobs.get c.jobId).isSome := by
      rw [hget]
      rfl
    refine h.of_move hc rfl rfl hsame (fun hrecovery hmay => ?_) fun _ => hstored
    cases hfinds with
    | change x => cases hmay
    | settle hkind hopen => simp [mayCall, hpoint, hkind, ManagerState.opened, hget, hopen]
    | resend hcan =>
      rw [hrecovery] at hcan
      cases hcan
  | answer hpoint hget hnames hp =>
    refine h.of_serve hc rfl rfl hsame ?_
    rcases hp with rfl | ⟨rfl, -⟩ <;> rfl
  | insert _ _ hnone => exact h.of_insert hc hnone rfl rfl rfl rfl
  | submit _ _ hnone => exact h.of_insert hc hnone rfl rfl rfl rfl
  | @reserve b _ _ _ hnone =>
    refine h.of_insert (j := c.submitting) (p := .launch b) hc hnone rfl ?_ ?_ ?_
    all_goals simp [ManagerState.reserve, ManagerState.put]
  | @launch b hpoint hreserved =>
    obtain ⟨j, hj, -⟩ := hmatched.calls c hmem (by rw [hpoint]; rfl)
    exact h.of_spawn hc hpoint (fun hb => hcond (hb ▸ hpoint) (hreserved hb)) (by rw [hj]; rfl)
  | @settle now hpoint =>
    have hrewritten := Rewritten.change cfg s c.jobId (.finalize now)
    rw [change_eq]
    refine h.of_move hc rfl rfl hrewritten (fun _ _ => ?_) fun _ => h.calls c hmem ?_
    all_goals simp [mayCall, hpoint]
  | settled | change =>
    exact h.of_serve hc (calls_change ..) (submits_change ..) (.change cfg s c.jobId _) rfl
  | @send b c' p hpoint hc' =>
    refine h.of_send hc hpoint ?_
    rcases hc' with ⟨rfl, hp⟩ | ⟨x, rfl, rfl⟩
    · exact mayCall_of_ending hp true _
    · rfl
  | refuse _ hp => exact h.of_stop hc rfl rfl hsame (mayCall_of_ending hp true c)
  | @record b x j j' j'' y now _ _ hx hget hrecorded hstored hs' =>
    obtain ⟨rfl, -⟩ := JobRecord.storedAs_eq_ok hstored
    have hid : j.id = c.jobId := key_of_get hget
    have hrewritten : Rewritten s.jobs (s.jobs.put j'.trimmed) :=
      .put (hid ▸ hget) (JobRecord.rewrites_recorded hx hrecorded).1
    rcases hs' with rfl | rfl
    · exact h.of_stop hc rfl rfl hrewritten rfl
    · exact h.of_serve hc rfl rfl hrewritten rfl
  | finish _ hp =>
    rw [leaveActive_eq]
    refine h.of_stop hc rfl rfl hsame ?_
    rcases hp with rfl | rfl <;> rfl
  | lose | ignore => exact h.of_serve hc rfl rfl hsame rfl
  | leave | admitting | unscheduled | withdraw | release => exact h.of_stop hc rfl rfl hsame rfl

/-- **Step lemma.** -/
lemma step (h : Once cfg s) (hmatched : Matched s) (hcond : Undisputed s l)
    (hstep : managerMachine cfg s l = some t) : Once cfg t := by
  cases l with
  | submit | submitAsync =>
    cases hstep
    exact h.of_begin rfl
  | restart =>
    cases hstep
    refine ⟨fun id => ?_, fun d hd => absurd hd not_mem_nil, h.submits⟩
    have hone := h.one id
    simp only [rights, handedOver, map_nil, sum_nil] at hone ⊢
    omega
  | change id x =>
    obtain rfl : s.change cfg id x = t := some.inj hstep
    have hrewritten := Rewritten.change cfg s id x
    refine ⟨fun id' => ?_, fun d hd hcan => ?_, fun e he => ?_⟩
    · have hle : (s.calls.map (weight cfg id' ((s.change cfg id x).opened id'))).sum ≤
          (s.calls.map (weight cfg id' (s.opened id'))).sum :=
        sum_le_sum fun d _ => weight_mono hrewritten.opened d
      have hone := h.one id'
      simp only [rights, handedOver, calls_change, submits_change] at hone ⊢
      omega
    · exact hrewritten.isSome (h.calls d (by simpa using hd) hcan)
    · exact hrewritten.isSome (h.submits e (by simpa using he))
  | call i a =>
    obtain ⟨c, hc, hcall⟩ := bind_eq_some_iff.mp hstep
    exact h.of_callStep hmatched hc (.of_step hcall) fun hpoint =>
      (hcond c hc).1 (by rw [hpoint])

/-- **Run lemma.** -/
lemma of_reach (h : (managerMachine cfg).Reach Undisputed {} s) : Once cfg s ∧ Matched s := by
  have honce : Once cfg {} := ⟨fun _ => Nat.zero_le 1, fun _ hc => absurd hc not_mem_nil,
      fun _ he => absurd he not_mem_nil⟩
  have hmatched : Matched {} :=
    ⟨fun _ hc => absurd hc not_mem_nil, fun _ he => absurd he not_mem_nil⟩
  exact h.invariant (I := fun s => Once cfg s ∧ Matched s) ⟨honce, hmatched⟩
    fun _ _ _ hok hc hstep => ⟨hok.1.step hok.2 hc hstep, hok.2.step hc hstep⟩

end Once

/-- **At most once.** In every run in which no second thread is started for an open job and no
insertion is lost to another request's job, a worker that cannot recover submissions is called at
most once for a key, and every caller is given a job with the key and the worker of its request. -/
theorem worker_submitted_once {cfg : ManagerConfig} {s : ManagerState}
    (h : (managerMachine cfg).Reach Undisputed {} s) :
    (∀ worker key, cfg.supportsRecovery worker = false → s.submits.count (worker, key) ≤ 1) ∧
      ∀ e ∈ s.served, e.2.idempotencyKey = e.1.request.idempotencyKey ∧ e.2.workerId = e.1.worker := by
  obtain ⟨honce, hmatched⟩ := Once.of_reach h
  refine ⟨fun worker key hrecovery => ?_, hmatched.served⟩
  have hone := honce.one (durableJobId key)
  have hle : s.submits.count (worker, key) ≤ s.handedOver cfg (durableJobId key) := by
    refine countP_mono_left fun e _ he => ?_
    obtain rfl : e = (worker, key) := by simpa using he
    simp [hrecovery]
  rw [rights] at hone
  omega

/-- Every call of `submit_async` is followed by the steps of its caller and, at the next index, by
those of its thread up to the call of the worker, which answers with the handle `handle`. -/
def dispatchSteps (i : Nat) (handle : String) : List ManagerStep :=
  [.call i {}, .call i {}, .call i {}, .call i {}, .call (i + 1) {}, .call (i + 1) {},
    .call (i + 1) {}, .call (i + 1) { submission := .ok { externalJobId := handle } }]

/-- The handle of the first call cannot be stored, so the job stays as it was inserted. A second
caller looks before the first thread takes the job out of `async_submissions_`, and launches after. -/
def resubmittedSteps : List ManagerStep :=
  [.submitAsync (sampleRequest "k") "w"] ++ dispatchSteps 0 "x" ++
    [.call 1 { fault := true }, .call 1 {},
      .submitAsync (sampleRequest "k") "w", .call 2 {}, .call 2 {}, .call 1 {}, .call 2 {}, .call 2 {},
      .call 3 {}, .call 3 {}, .call 3 {}, .call 3 { submission := .ok { externalJobId := "y" } }]

/-- A worker that cannot recover submissions is called twice for a key. -/
theorem worker_submitted_twice : sampleManager.supportsRecovery "w" = false ∧
      ∃ s, (managerMachine sampleManager).Reach Machine.always {} s ∧
        s.submits = [("w", "k"), ("w", "k")] :=
  ⟨rfl, Machine.exists_reach resubmittedSteps (by decide +kernel)⟩

/-- With the second call made after the first thread is done, the worker is called once. -/
theorem worker_submitted_once_async :
    ∃ s, (managerMachine sampleManager).Reach Undisputed {} s ∧ s.served.length = 3 ∧
      s.submits.count ("w", "k") ≤ 1 ∧
      ∀ e ∈ s.served, e.2.idempotencyKey = e.1.request.idempotencyKey ∧ e.2.workerId = e.1.worker := by
  obtain ⟨s, hs, hlen⟩ := Machine.exists_reach (C := Undisputed) (M := managerMachine sampleManager)
    (s := {}) (f := fun s => s.served.length) (v := 3)
    ([.submitAsync (sampleRequest "k") "w"] ++ dispatchSteps 0 "x" ++
      [.call 1 {}, .call 1 {}, .call 1 {}, .submitAsync (sampleRequest "k") "w", .call 2 {}, .call 2 {},
        .call 2 {}])
    (by decide +kernel)
  have honce := worker_submitted_once hs
  exact ⟨s, hs, hlen, honce.1 "w" "k" rfl, honce.2⟩

end Laso
