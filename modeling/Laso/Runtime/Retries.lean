import Laso.Runtime.MainLoop

/-!
# Which attempts are followed by another

Four pieces of code decide whether a node is tried again: the main loop of an executor
(`failAttempt`), the loop of a branch (`failBranchAttempt`), executed in the process of the run or
elsewhere, and `reconcileTerminalWorker`, which puts distributed work back into the queue when the
worker job of its attempt has ended. No attempt is to follow one that was recorded as timed out or
cancelled.

The main loop keeps to this whatever its calls are answered: between the start of an attempt and
its end the code writes no attempt in a final state (`Open` is kept by every function but
`failAttempt`), and `failAttempt` throws after writing one. Branches and the reconciliation look
for cancellations only, so for them it depends on where deadlines pass.
-/

namespace Laso

open Exec Watch Visit

/-! ## The main loop -/

/-- The observer of the main loop: any answers, and the rule of retries. -/
def retryWatch : Watch callSig Visit :=
  Watch.noting (S := callSig) note (fun _ _ _ => True) Unrepeated

/-- No attempt of the visit has been recorded in a final state, and none is about to be. -/
def Open (g : Visit) (v : Frame) : Prop := g.stopped = false ∧ v.attempt.state.final = false

variable {cfg : Config} {g : Visit} {v : Frame} {α : Type}

lemma Visit.store_stopped {records : List Record} (h : Tame records) :
    (g.store records).stopped = g.stopped := by
  have hnone : ((attemptsOf records).any fun a => a.state.final) = false := by
    simpa [Tame] using h
  simp [store, hnone]

variable {c : Call}

lemma Visit.note_open (answer : c.Resp) (h : Tame c.writes) (hg : g.stopped = false) :
    (g.note c answer).stopped = false := by
  unfold note
  split <;> first | exact hg | rfl | exact (store_stopped h).trans hg

lemma keeps_tame (h : Tame c.writes) :
    retryWatch.Keeps Open (Code.call (S := callSig) c : Exec Frame _) := by
  refine keeps_call fun g v hopen => ⟨fun hstop => absurd hstop (by rw [hopen.1]; decide), ?_⟩
  rintro answer _ ⟨-, rfl⟩
  exact ⟨note_open answer h hopen.1, hopen.2⟩

lemma retry_blind : Blind retryWatch (fun a => a.state.final = false) Open where
  same _ _ h hsame := hsame h
  frame _ _ _ h hv := ⟨h.1, hv⟩
  attempt _ _ h := h.2
  call c g v h _ hwrites := by
    refine ⟨fun hstop => absurd hstop (by rw [h.1]; decide), ?_⟩
    rintro answer _ ⟨-, rfl⟩
    exact ⟨note_open answer hwrites h.1, h.2⟩

lemma retry_routine : Routine retryWatch Open := retry_blind.routine

/-- An attempt that ended in a final state is the last: `failAttempt` throws after recording it. -/
lemma failAttempt_retry (n : NodeDefinition) (last : Bool) (e : Exn) (h : Open g v) :
    retryWatch.wp (failAttempt n last e) (fun _ => Open) (fun _ _ _ => True) g v := by
  simp only [failAttempt, wp_bind, wp_modify, wp_get, checkpointRun]
  refine (wp_call _).mpr ⟨fun hstop => absurd hstop (by rw [h.1]; decide), ?_⟩
  rintro ⟨res, r'⟩ _ ⟨-, rfl⟩
  cases res with
  | error e' => trivial
  | ok _ =>
  refine (wp_ite _ _).mpr ⟨fun _ => trivial, fun hagain => ?_⟩
  have hfinal : (attemptState (.error ⟨failureCode e, ""⟩)).final = false := by
    rw [Bool.eq_false_iff]
    intro hf
    rcases attemptState_final hf with hc | hc
    · exact hagain (.inl hc)
    · exact hagain (.inr (.inl hc))
  have hrest : retryWatch.Keeps Open (do
      transitionRun .retrying "node.retrying"
      check
      transitionRun .running "run.running") :=
    keeps_bind (retry_routine.transitionRun _ _) fun _ =>
      keeps_bind retry_routine.check fun _ => retry_routine.transitionRun _ _
  refine wp_imp_ok (hrest _ _ ⟨?_, hfinal⟩) fun _ _ _ h => h
  exact (store_stopped (tame_attempt hfinal)).trans h.1

variable (fuel : Nat) (p : PipelineDefinition) (resolved : List (String × String))

lemma main_retry :
    MainLaw retryWatch (fun a => a.state.final = false) Open fun _ _ _ => True where
  toBlind := retry_blind
  thrown _ _ _ _ := trivial
  make _ := keeps_tame tame_nil
  deadline _ := keeps_tame tame_nil
  run _ := keeps_tame tame_nil
  fails n last e _ _ h := failAttempt_retry n last e h

lemma Visit.unrepeated_of_quiet (hin : c.input = none) (hwrites : c.writes = []) :
    g.Unrepeated c := fun _ => ⟨hin, by rw [hwrites]; nofun⟩

lemma execute_retry (h : Open g v) : retryWatch.Safe (execute cfg fuel p resolved) g v := by
  simp only [execute, wp_tryCatch, wp_bind, wp_get]
  have herror : ∀ (e : Exn) (g : Visit) (v : Frame), retryWatch.Safe (errorPath fuel e) g v := by
    intro e g v
    simp only [errorPath, wp_bind, wp_get]
    refine (wp_call _).mpr ⟨unrepeated_of_quiet rfl rfl, ?_⟩
    rintro ⟨_ | _, _⟩ _ _ <;> trivial
  refine wp_mono (keeps_tame (c := .begin v.r) tame_nil g v h) (fun begun g v h => ?_)
    fun e g v _ => herror e g v
  refine wp_mono (retry_routine.outcome begun g v h) (fun started g v h => ?_)
    fun e g v _ => herror e g v
  refine (wp_ite _ _).mpr ⟨fun _ => ?_, fun _ => trivial⟩
  exact wp_mono (main_retry.mainLoop p resolved fuel h) (fun _ _ _ _ => trivial)
    fun e g v _ => herror e g v

/-- **The main loop does not retry timeouts and cancellations.** -/
theorem executor_retry (fuel : Nat) (r : Run) :
    retryWatch.Sat (executor cfg fuel r) (fun _ _ => True) {} := by
  have hcomplete : ∀ (failed : Bool) (g : Visit), retryWatch.Sat
      ((Prog.req (S := callSig) (.complete r.id failed)).bind fun _ => Prog.ret ())
      (fun _ _ => True) g :=
    fun _ _ => ⟨unrepeated_of_quiet rfl rfl, fun _ _ _ => trivial⟩
  unfold executor
  split
  · exact hcomplete true {}
  · refine sat_bind.mpr (Sat.mono (execute_retry fuel _ _ ⟨rfl, rfl⟩) fun res g _ => ?_)
    exact hcomplete _ g

/-! ## Reconciling distributed work -/

/-- What `reconcileTerminalWorker` has read about the work it looks at. -/
structure Review where
  run : Option Run := none
  /-- Worker jobs of attempts that are recorded as timed out or cancelled. -/
  ended : List String := []
  /-- The attempt has timed out, or is recorded as timed out or cancelled although its job has not
  been cancelled. -/
  lapsed : Bool := false

def Req.owned : Req → List Record
  | .commitOwned records _ _ _ => records
  | _ => []

def Req.work : (q : Req) → q.Resp → Option NodeWork
  | .getNodeWork _, .ok w => some w
  | _, _ => none

namespace Review

def note (g : Review) : (q : Req) → q.Resp → Review
  | .peekRun _, .ok r => { g with run := some r }
  | .listAttempts _, .ok attempts =>
    { g with ended := (attempts.filter fun a => a.state.final).map NodeExecution.workerJobId }
  | .workerJob id, .ok job =>
    { g with
      lapsed := decide (job.state = .timedOut ∨ (id ∈ g.ended ∧ job.state ≠ .cancelled)) }
  | _, _ => g

/-- Work is not put back into the queue after an attempt that was recorded as timed out or
cancelled. -/
def NotRequeued (g : Review) (q : Req) : Prop :=
  (∃ w ∈ worksOf q.owned, w.state = .queued) → g.lapsed = false ∧ Tame q.owned

/-- The work has no attempt left, or its run is cancelled or over. -/
def spent (cfg : Config) (r : Run) (w : NodeWork) : Bool :=
  r.cancellationRequested || terminal r.state ||
    match cfg.parse r.definition with
    | .error _ => true
    | .ok p =>
      match p.nodes.get w.nodeId with
      | none => true
      | some n => decide (n.retry.maxAttempts ≤ w.attempt)

def Timely (cfg : Config) (g : Review) (q : Req) (answer : q.Resp) : Prop :=
  ∀ w ∈ q.work answer, g.lapsed → ∀ r ∈ g.run, spent cfg r w

/-- Every call and its answer are as `P` says, given what has been read before. -/
abbrev Always (P : Review → (q : Req) → q.Resp → Prop) (es : List ((q : Req) × q.Resp)) : Prop :=
  Throughout (S := reqSig) Review.note P {} es

end Review

def reviewWatch (cfg : Config) : Watch reqSig Review :=
  Watch.noting (S := reqSig) Review.note (Review.Timely cfg) Review.NotRequeued

section Reconcile

variable {σ : Type} {s : σ} {g : Review} {q : Req}

lemma Review.notRequeued_of_nil (h : q.owned = []) : g.NotRequeued q := by
  rintro ⟨w, hw, -⟩
  rw [h] at hw
  cases hw

variable {E : Exn → Review → σ → Prop}

lemma review_wp_ask {Q : q.Resp → Review → σ → Prop}
    (ha : g.NotRequeued q) (hQ : ∀ a, Review.Timely cfg g q a → Q a (g.note q a) s) :
    (reviewWatch cfg).wp (Op.ask q) Q E g s := by
  refine ⟨ha, ?_⟩
  rintro a _ ⟨hgiven, rfl⟩
  exact hQ a hgiven

lemma review_wp_orThrow {x : Except Error α} {Q : α → Review → σ → Prop}
    (hQ : ∀ a, x = .ok a → Q a g s) (hE : ∀ e, E e g s) :
    (reviewWatch cfg).wp (Op.orThrow x) Q E g s := by
  cases x with
  | ok a => exact hQ a rfl
  | error e => exact hE _

lemma notRequeued_reconciled {r : Run} {a : NodeExecution} {retry : Bool} {w : NodeWork}
    (key owner : String) (token : Nat)
    (h : retry → g.lapsed = false ∧ a.state ≠ .timedOut) :
    g.NotRequeued (.commitOwned [.attempt a, .nodeWork (reconciledWork r a retry w)] key owner
      token) := by
  rintro ⟨w', hw', hqueued⟩
  cases List.mem_singleton.mp hw'
  unfold reconciledWork at hqueued
  split at hqueued
  · cases hqueued
  rename_i hopen
  split at hqueued
  · rename_i hretry
    obtain ⟨hlapsed, htimeout⟩ := h hretry
    refine ⟨hlapsed, fun b hb => ?_⟩
    cases List.mem_singleton.mp hb
    cases hstate : a.state with
    | cancelled => exact absurd (.inl hstate) hopen
    | timedOut => exact absurd hstate htimeout
    | _ => rfl
  · cases hqueued

/-- The attempt may be retried if the work is put back into the queue. -/
def Reviewed (retry : Bool) (a : NodeExecution) (g : Review) (_ : σ) : Prop :=
  retry → g.lapsed = false ∧ a.state ≠ .timedOut

variable {retry : Bool} {a : NodeExecution}

lemma keeps_reviewed (hq : q.owned = [])
    (hlapsed : ∀ (g : Review) (answer : q.Resp), (g.note q answer).lapsed = g.lapsed) :
    (reviewWatch cfg).Keeps (Reviewed retry a) (Op.ask q : Op σ _) := by
  refine keeps_call fun g s h => ⟨Review.notRequeued_of_nil hq, ?_⟩
  rintro answer _ ⟨-, rfl⟩ hretry
  exact ⟨(hlapsed g answer).trans (h hretry).1, (h hretry).2⟩

lemma keeps_releaseQuietly (lease : LeaseRecord) :
    (reviewWatch cfg).Keeps (Reviewed retry a) (releaseQuietly lease : Op σ Unit) := by
  refine keeps_bind (keeps_reviewed rfl fun _ _ => rfl) fun released => ?_
  cases released <;> exact keeps_pure _

lemma keeps_releaseEach (leases : List LeaseRecord) :
    (reviewWatch cfg).Keeps (Reviewed retry a) (dropActiveNode.releaseEach leases : Op σ Unit) := by
  induction leases with
  | nil => exact keeps_pure _
  | cons lease rest ih => exact keeps_bind (keeps_releaseQuietly lease) fun _ => ih

lemma keeps_dropActiveNode (id : String) (lease : LeaseRecord) :
    (reviewWatch cfg).Keeps (Reviewed retry a) (dropActiveNode id lease : Op σ Unit) := by
  refine keeps_bind (keeps_reviewed rfl fun _ _ => rfl) fun p => ?_
  split
  · exact keeps_releaseQuietly lease
  refine keeps_bind (keeps_reviewed rfl fun _ _ => rfl) fun _ => ?_
  refine keeps_bind (keeps_reviewed rfl fun _ _ => rfl) fun _ => ?_
  exact keeps_bind (keeps_releaseEach _) fun _ => keeps_releaseQuietly lease

lemma keeps_reconcilingCommit (r : Run) (w : NodeWork) (key owner : String) (token : Nat) :
    (reviewWatch cfg).Keeps (Reviewed retry a) (Op.ask (.commitOwned
      [.attempt a, .nodeWork (reconciledWork r a retry w)] key owner token) : Op σ _) := by
  refine keeps_call fun g s h => ⟨notRequeued_reconciled key owner token h, ?_⟩
  rintro answer _ ⟨-, rfl⟩
  exact h

lemma keeps_reconcileAgain (r : Run) (observed : NodeWork) :
    (reviewWatch cfg).Keeps (Reviewed retry a) (reconcileAgain r a retry observed : Op σ Unit) := by
  refine keeps_bind (keeps_reviewed rfl fun _ _ => rfl) fun p =>
    keeps_if (keeps_pure _) ?_
  refine keeps_bind (keeps_reviewed rfl fun _ _ => rfl) fun _ =>
    keeps_bind (Op.keeps_orThrow _) fun lease => ?_
  cases lease with
  | none => exact keeps_pure _
  | some lease =>
  refine keeps_tryCatch ?_ fun _ => keeps_releaseQuietly lease
  refine keeps_bind (keeps_reviewed rfl fun _ _ => rfl)
    fun _ => keeps_bind (Op.keeps_orThrow _) fun current => keeps_if ?_ ?_
  · exact keeps_bind (keeps_reviewed rfl fun _ _ => rfl)
      fun _ => keeps_bind (Op.keeps_orThrow _) fun _ => keeps_pure _
  · exact keeps_bind (keeps_reconcilingCommit r current _ _ _) fun _ =>
      keeps_bind (Op.keeps_orThrow _) fun _ => keeps_dropActiveNode _ _

lemma retriesWork_review (r : Run) (a : NodeExecution) (w : NodeWork) :
    (reviewWatch cfg).wp (retriesWork cfg r a w)
      (fun retry g' _ => g' = g ∧ (retry → Review.spent cfg r w = false))
      (fun _ _ _ => True) g s := by
  unfold retriesWork
  split
  · exact ⟨rfl, nofun⟩
  · trivial
  rename_i p hp
  refine ⟨rfl, fun hretry => ?_⟩
  split at hretry
  · cases hretry
  rename_i n hn
  obtain ⟨hleft, -, hflag, hopen⟩ := of_decide_eq_true hretry
  simp [Review.spent, hp, hn, hflag, hopen, hleft]

variable {job : WorkerJob}

lemma reconciledAttempt_timedOut {a : NodeExecution}
    (h : (reconciledAttempt job a).state = .timedOut) : job.state = .timedOut := by
  simp only [reconciledAttempt] at h
  split at h
  · cases h
  · assumption
  · cases h

lemma reconcileCommit_review {r : Run} {current : NodeWork}
    (a : NodeExecution) (lease : LeaseRecord) (hjob : job.state = .timedOut → g.lapsed)
    (hspent : g.lapsed → Review.spent cfg r current) :
    (reviewWatch cfg).Safe (reconcileCommit cfg r job a current lease) g s := by
  simp only [reconcileCommit, wp_bind]
  refine wp_imp_ok (retriesWork_review r _ current) ?_
  rintro retry g s ⟨rfl, hretry⟩
  have hreviewed : Reviewed retry (reconciledAttempt job a) g s := by
    intro h
    have hlapsed : g.lapsed = false := by
      rw [Bool.eq_false_iff]
      exact fun ho => absurd (hspent ho) (by rw [hretry h]; decide)
    refine ⟨hlapsed, fun ht => ?_⟩
    exact absurd (hjob (reconciledAttempt_timedOut ht)) (by rw [hlapsed]; decide)
  refine wp_imp_ok (keeps_reconcilingCommit r current _ _ _ g s hreviewed) fun answer g s h => ?_
  cases answer with
  | ok _ =>
    exact wp_imp_ok (keeps_dropActiveNode _ _ g s h) fun _ _ _ _ => trivial
  | error e =>
    refine (wp_ite _ _).mpr ⟨fun _ => trivial, fun _ => ?_⟩
    exact wp_imp_ok (keeps_reconcileAgain r current g s h) fun _ _ _ _ => trivial

/-- **Work is put back into the queue** only after attempts that did not time out, provided that
deadlines pass in the last attempt of the work. -/
theorem reconcileTerminalWorker_review (observed : NodeWork) (lease : LeaseRecord) :
    (reviewWatch cfg).Sat ((reconcileTerminalWorker cfg observed lease).prog s) (fun _ _ => True)
      {} := by
  have hcode : (reviewWatch cfg).Safe (reconcileTerminalWorker cfg observed lease) {} s := by
    refine (wp_ite _ _).mpr ⟨fun _ => trivial, fun _ => ?_⟩
    simp only [wp_bind, Op.peekRun]
    refine review_wp_ask (Review.notRequeued_of_nil rfl) fun answer _ =>
      review_wp_orThrow ?_ fun _ => trivial
    rintro r rfl
    refine review_wp_ask (Review.notRequeued_of_nil rfl) fun answer _ =>
      review_wp_orThrow ?_ fun _ => trivial
    rintro attempts rfl
    split
    · trivial
    rename_i a _
    refine (wp_bind _ _).mpr (review_wp_ask (Review.notRequeued_of_nil rfl) fun answer _ => ?_)
    refine (wp_bind _ _).mpr (review_wp_orThrow ?_ fun _ => trivial)
    rintro job rfl
    refine (wp_ite _ _).mpr ⟨fun _ => trivial, fun _ => ?_⟩
    refine (wp_bind _ _).mpr (review_wp_ask (Review.notRequeued_of_nil rfl) fun answer hgiven => ?_)
    refine (wp_bind _ _).mpr (review_wp_orThrow ?_ fun _ => trivial)
    rintro current rfl
    refine (wp_ite _ _).mpr ⟨fun _ => trivial, fun _ => ?_⟩
    refine (wp_bind _ _).mpr (review_wp_ask (Review.notRequeued_of_nil rfl) fun p _ => ?_)
    refine (wp_ite _ _).mpr ⟨fun _ => trivial, fun _ => ?_⟩
    refine reconcileCommit_review a lease (fun ht => ?_) fun hlapsed => ?_
    · exact decide_eq_true (.inl ht)
    · exact hgiven current rfl hlapsed r rfl
  exact Sat.mono hcode fun _ _ _ => trivial

end Reconcile

/-! ## The rule of retries -/

instance (g : Visit) (c : Call) : Decidable (g.Unrepeated c) :=
  inferInstanceAs (Decidable (g.stopped →
    c.input = none ∧ ∀ a ∈ attemptsOf c.writes, a.state ≠ .running))

instance (g : Visit) (c : Call) (answer : c.Resp) : Decidable (g.Timely c answer) :=
  inferInstanceAs (Decidable (c.failure answer = some .timeout → g.limit ≤ g.begun))

instance (records : List Record) : Decidable (Tame records) :=
  inferInstanceAs (Decidable (∀ a ∈ attemptsOf records, a.state.final = false))

instance (g : Review) (q : Req) : Decidable (g.NotRequeued q) :=
  inferInstanceAs (Decidable ((∃ w ∈ worksOf q.owned, w.state = .queued) →
    g.lapsed = false ∧ Tame q.owned))

instance (g : Review) (q : Req) (answer : q.Resp) : Decidable (g.Timely cfg q answer) :=
  inferInstanceAs (Decidable (∀ w ∈ q.work answer, g.lapsed → ∀ r ∈ g.run, Review.spent cfg r w))

instance (P : Review → (q : Req) → q.Resp → Prop) [check : ∀ g q answer, Decidable (P g q answer)]
    (es : List ((q : Req) × q.Resp)) : Decidable (Review.Always P es) :=
  Throughout.decidable (S := reqSig) Review.note check {} es

variable (ended : WorkerJobState)

/-- Answers to the calls of a reconciliation: an instance finds the attempt `attempt` of the work
`work` and its job, which has ended in some state. -/
def jobAnswers (work : NodeWork) :
    (q : Req) → Unit → Option (q.Resp × Unit)
  | .peekRun _, _ => some (.ok { id := "run", state := .paused }, ())
  | .listAttempts _, _ =>
    some (.ok [{ id := "attempt", nodeId := work.nodeId, workerJobId := "job" }], ())
  | .workerJob _, _ => some (.ok { id := "job", state := ended }, ())
  | .getNodeWork _, _ => some (.ok work, ())
  | .process, _ => some ({}, ())
  | .commitOwned _ _ _ _, _ => some (.ok 0, ())
  | .release _, _ => some (.ok true, ())
  | _, _ => none

def retryFork (type : String) : PipelineDefinition :=
  forkPipeline [{ id := "a", type, retry := { maxAttempts := 2 } },
    { id := "b", type, retry := { maxAttempts := 2 } }]

/-- The history of the first branch when the first execution of its node fails. -/
def retryHistory (code : ErrorCode) : List ((c : Call) × c.Resp) :=
  branchHistory (retryFork "function") "a" (failFirst ⟨code, ""⟩) 30

/-- Distributed work of the first branch that has been claimed some times. -/
def claimedWork (claims : Nat) : NodeWork where
  id := "group:0"
  runId := "run"
  groupId := "group"
  nodeId := "a"
  join := "join"
  index := 0
  token := { nodeId := "a", message := {}, frames := [] }
  steps := 0
  state := .running
  attempt := claims
  attemptId := "attempt"

def reviewHistory (claims : Nat) : List ((q : Req) × q.Resp) :=
  ((reconcileTerminalWorker (pipelineConfig (retryFork "worker")) (claimedWork claims)
    ⟨"node:group:0", "A", 1, true⟩).prog ()).trace (S := reqSig)
    (jobAnswers ended (claimedWork claims)) 10 ()

lemma makes_reviewHistory (claims : Nat) :
    ((reconcileTerminalWorker (pipelineConfig (retryFork "worker")) (claimedWork claims)
      ⟨"node:group:0", "A", 1, true⟩).prog ()).Makes (reviewHistory ended claims) :=
  Prog.makes_trace _ _ _ _

/-- A branch repeats a node that has timed out, and so does an instance that finds the worker job
of distributed work timed out. -/
theorem timeouts_retried : (((executeBranch (pipelineConfig (retryFork "function")) 10
        (sampleBranch (retryFork "function") "a")).prog ()).Makes (retryHistory .timeout) ∧
      ¬Always (fun g c _ => g.Unrepeated c)
        (sampleBranch (retryFork "function") "a").start (retryHistory .timeout)) ∧
    ((reconcileTerminalWorker (pipelineConfig (retryFork "worker")) (claimedWork 1)
        ⟨"node:group:0", "A", 1, true⟩).prog ()).Makes (reviewHistory .timedOut 1) ∧
      ¬Review.Always (fun g q _ => g.NotRequeued q) (reviewHistory .timedOut 1) :=
  ⟨⟨makes_branchHistory _ _ _ _, by decide +kernel⟩, makes_reviewHistory _ _, by decide +kernel⟩

/-- **Timeouts and cancellations are not retried**: by the main loop in no case; by a branch, local
or distributed, if deadlines pass in the last attempt of a visit only; by the reconciliation of
distributed work if attempts time out only when none is left. -/
theorem timeouts_not_retried (cfg : Config) (fuel : Nat) :
    (∀ (r : Run) (es : List ((c : Call) × c.Resp)), (executor cfg fuel r).Makes es →
      Always (fun g c _ => g.Unrepeated c) {} es) ∧
    (∀ (job : BranchJob) (es : List ((c : Call) × c.Resp)),
      ((executeBranch cfg fuel job).prog ()).Makes es → Always Timely job.start es →
      Always (fun g c _ => g.Unrepeated c) job.start es) ∧
    ∀ (observed : NodeWork) (lease : LeaseRecord) (es : List ((q : Req) × q.Resp)),
      ((reconcileTerminalWorker cfg observed lease).prog ()).Makes es →
      Review.Always (Review.Timely cfg) es → Review.Always (fun g q _ => g.NotRequeued q) es := by
  refine ⟨fun r es hes => ?_, fun job es hes htimely => ?_, fun observed lease es hes htimely => ?_⟩
  · exact Throughout.of_sat (executor_retry fuel r) hes (Throughout.of_forall fun _ _ _ => trivial)
  · have hgiven : Always (Given false true job.pipeline) job.start es :=
      htimely.mono fun _ _ _ h => ⟨nofun, fun _ => h⟩
    exact (Throughout.of_sat (executeBranch_visit fuel fun h =>
      absurd h Bool.false_ne_true) hes hgiven).mono
      fun _ _ _ h => h.2 rfl
  · exact Throughout.of_sat (reconcileTerminalWorker_review observed lease) hes htimely

/-- A branch whose node fails in its first attempt and is repeated, and distributed work that is put
back into the queue after its job has failed. -/
theorem timeouts_not_retried_failed : (Always (fun g c _ => g.Unrepeated c)
        (sampleBranch (retryFork "function") "a").start (retryHistory .tool) ∧
      (retryHistory .tool).length = 25) ∧
    Review.Always (fun g q _ => g.NotRequeued q) (reviewHistory .failed 1) ∧
    Review.Always (fun g q _ => g.NotRequeued q) (reviewHistory .timedOut 2) :=
  ⟨⟨(timeouts_not_retried (pipelineConfig (retryFork "function")) 10).2.1 _ _
      (makes_branchHistory _ _ _ _) (by decide +kernel), by decide +kernel⟩,
    (timeouts_not_retried (pipelineConfig (retryFork "worker")) 10).2.2 _ _ _
      (makes_reviewHistory _ _) (by decide +kernel),
    (timeouts_not_retried (pipelineConfig (retryFork "worker")) 10).2.2 _ _ _
      (makes_reviewHistory _ _) (by decide +kernel)⟩

end Laso
