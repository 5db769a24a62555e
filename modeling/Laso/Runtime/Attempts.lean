import Laso.Runtime.BranchLaw

/-!
# Attempts of a node visit

A visit of a node is a series of attempts. An attempt that fails is recorded and, within the retry
policy of the node, followed by another. This module reads the history of an executor visit by
visit (`Visit`) and states two rules.

* **Inputs** (`Stable`): the attempts of a visit get the same message, and an attempt that has been
  stored as completed is not stored as failed later.
* **Retries** (`Unrepeated`): once an attempt has been recorded as timed out or cancelled, the
  visit has no further attempt.

A branch keeps them under conditions only. In `execute_branch` the result replaces the message of
the branch, and is recorded, inside the block whose errors lead to the next attempt. So an error
after this point (the record cannot be written, no single edge leads on) repeats the node on its
own result and overwrites the completed attempt. And the retry rule of a branch stops at
cancellations, where the one of the main loop stops at timeouts too.
-/

namespace Laso

open Exec List Watch

def NodeState.unsuccessful : NodeState → Bool
  | .failed | .timedOut | .cancelled => true
  | _ => false

/-- The attempt has ended in a way that is not to be retried. -/
def NodeState.final : NodeState → Bool
  | .timedOut | .cancelled => true
  | _ => false

namespace Call

def writes : Call → List Record
  | .direct (.commit records) => records
  | .direct (.commitOwned records _ _ _) => records
  | .checkpoint _ _ records => records
  | .transition _ _ _ records => records
  | _ => []

def drawn : (c : Call) → c.Resp → Option String
  | .direct .uuid, id => some id
  | _, _ => none

/-- The message a node body is executed on: a subpipeline is looked up for its input. -/
def input : Call → Option Message
  | .direct (.nodeExecute b _ _) => some b.message
  | .direct (.resolvePipeline b _ _) => some b.message
  | _ => none

/-- The code of the error a call of an attempt is answered with. -/
def failure : (c : Call) → c.Resp → Option ErrorCode
  | .direct (.commit _), .error e => some e.code
  | .direct (.commitOwned _ _ _ _), .error e => some e.code
  | .direct (.peekRun _), .error e => some e.code
  | .direct (.check _), .error e => some (failureCode e)
  | .direct (.external _), .error e => some (failureCode e)
  | .direct (.resolvePipeline _ _ _), .error e => some (failureCode e)
  | .direct (.nodeExecute _ _ _), .error e => some (failureCode e)
  | .run _, (.error e, _) => some (failureCode e)
  | _, _ => none

end Call

/-! ## Reading a history -/

/-- The current visit of a node, and what is known of the attempts of the executor. -/
structure Visit where
  /-- The message its attempts were executed on. -/
  input : Option Message := none
  /-- The attempts begun, and how many the node may have. -/
  begun : Nat := 0
  limit : Nat := 0
  /-- An attempt of the visit has been recorded as timed out or cancelled. -/
  stopped : Bool := false
  /-- Attempts that have been stored as completed. -/
  completed : List String := []
  /-- Identifiers drawn so far. -/
  issued : List String := []

namespace Visit

variable (g : Visit)

def enter : Visit := { g with input := none, begun := 0, limit := 0, stopped := false }

def store (records : List Record) : Visit :=
  { g with
    completed := ((attemptsOf records).filter fun a => a.state = .completed).map NodeExecution.id ++
      g.completed
    stopped := g.stopped || (attemptsOf records).any fun a => a.state.final }

def note : (c : Call) → c.Resp → Visit
  | .direct (.branchStep _ _), _ => g.enter
  | .direct (.external (.makeNode _)), _ => g.enter
  | .direct (.external (.deadline n)), _ =>
    { g with begun := g.begun + 1, limit := n.retry.maxAttempts }
  | .direct (.nodeExecute b _ _), _ => { g with input := some b.message }
  | .direct (.resolvePipeline b _ _), _ => { g with input := some b.message }
  | .direct .uuid, id => { g with issued := id :: g.issued }
  | .direct (.commit records), .ok _ => g.store records
  | .direct (.commitOwned records _ _ _), .ok _ => g.store records
  | .checkpoint _ _ records, (.ok _, _) => g.store records
  | .transition _ _ _ records, (.ok _, _) => g.store records
  | _, _ => g

/-- The attempts of the visit get one message, and no completed attempt is stored as failed. -/
def Stable (c : Call) : Prop :=
  (∀ m ∈ g.input, ∀ m' ∈ c.input, m' = m) ∧
    ∀ a ∈ attemptsOf c.writes, a.id ∈ g.completed → a.state.unsuccessful = false

/-- No attempt is begun or executed after one that was recorded as timed out or cancelled. -/
def Unrepeated (c : Call) : Prop :=
  g.stopped → c.input = none ∧ ∀ a ∈ attemptsOf c.writes, a.state ≠ .running

/-- Every call of a history and its answer are as `P` says, given the visit they are made in. -/
abbrev Always (P : Visit → (c : Call) → c.Resp → Prop) (g : Visit)
    (es : List ((c : Call) × c.Resp)) : Prop :=
  Throughout (S := callSig) Visit.note P g es

instance (P : Visit → (c : Call) → c.Resp → Prop) [check : ∀ g c answer, Decidable (P g c answer)]
    (g : Visit) (es : List ((c : Call) × c.Resp)) : Decidable (Always P g es) :=
  Throughout.decidable (S := callSig) Visit.note check g es

/-- Identifiers are drawn from a source that does not repeat itself. -/
def Fresh (c : Call) (answer : c.Resp) : Prop := ∀ id ∈ c.drawn answer, id ∉ g.issued

instance (g : Visit) (c : Call) (answer : c.Resp) : Decidable (g.Fresh c answer) :=
  inferInstanceAs (Decidable (∀ id ∈ c.drawn answer, id ∉ g.issued))

/-- No error comes between a result and the next node: the result can be written, and one edge
leads on from the node. -/
def orderly (p : PipelineDefinition) : (c : Call) → c.Resp → Bool
  | .direct (.commit records), .error _ => decide (∀ a ∈ attemptsOf records, a.state ≠ .completed)
  | .direct (.commitOwned records _ _ _), .error _ =>
    decide (∀ a ∈ attemptsOf records, a.state ≠ .completed)
  | .direct (.nodeExecute b n _), .ok result => (branchRoute p n result.condition b).1.isOk
  | .direct (.resolvePipeline b n _), .ok _ => (branchRoute p n "" b).1.isOk
  | _, _ => true

/-- Deadlines pass in the last attempt of a visit only. -/
def Timely (c : Call) (answer : c.Resp) : Prop :=
  c.failure answer = some .timeout → g.limit ≤ g.begun

end Visit

/-! ## The observer of branches -/

namespace Visit

/-- What is assumed of the answers: for the rule of inputs (`orderly`) and of retries (`timely`). -/
def Given (orderly timely : Bool) (p : PipelineDefinition) (g : Visit) (c : Call)
    (answer : c.Resp) : Prop :=
  (orderly → g.Fresh c answer ∧ Visit.orderly p c answer) ∧
    (timely → g.Timely c answer)

def Allow (orderly timely : Bool) (g : Visit) (c : Call) : Prop :=
  (orderly → g.Stable c) ∧ (timely → g.Unrepeated c)

end Visit

def visitWatch (orderly timely : Bool) (p : PipelineDefinition) : Watch callSig Visit :=
  Watch.noting (S := callSig) Visit.note (Visit.Given orderly timely p) (Visit.Allow orderly timely)

variable {orderly timely : Bool} {p : PipelineDefinition} {cfg : Config} {g : Visit} {σ α : Type}

section Rules

variable {s : σ} {Q : α → Visit → σ → Prop} {E : Exn → Visit → σ → Prop}

lemma visit_wp_direct {q : Req} {Q : q.Resp → Visit → σ → Prop}
    (ha : g.Allow orderly timely (.direct q))
    (hQ : ∀ a, g.Given orderly timely p (.direct q) a → Q a (g.note (.direct q) a) s) :
    (visitWatch orderly timely p).wp (direct q) Q E g s := by
  refine ⟨ha, ?_⟩
  rintro a _ ⟨hgiven, rfl⟩
  exact hQ a hgiven

lemma Visit.allow_of_quiet {c : Call} (hin : c.input = none) (hwrites : c.writes = []) :
    g.Allow orderly timely c := by
  refine ⟨fun _ => ⟨?_, ?_⟩, fun _ _ => ⟨hin, ?_⟩⟩
  · rw [hin]
    nofun
  · rw [hwrites]
    nofun
  · rw [hwrites]
    nofun

/-- An exception that is a timeout comes in the last attempt. -/
def Visit.Due (timely : Bool) (g : Visit) (e : Exn) : Prop :=
  timely → failureCode e = .timeout → g.limit ≤ g.begun

lemma Visit.Given.due {c : Call} {answer : c.Resp} {e : Exn}
    (h : g.Given orderly timely p c answer) (hf : c.failure answer = some (failureCode e)) :
    g.Due timely e := fun ht he => h.2 ht (by rw [hf, he])

lemma visit_wp_halt : (visitWatch orderly timely p).wp (halt : Exec σ α) Q E g s :=
  of_bind (visit_wp_direct (Visit.allow_of_quiet rfl rfl) nofun)

lemma visit_wp_uuid {Q : String → Visit → σ → Prop}
    (hQ : ∀ id, (orderly → id ∉ g.issued) → Q id { g with issued := id :: g.issued } s) :
    (visitWatch orderly timely p).wp uuid Q E g s :=
  visit_wp_direct (Visit.allow_of_quiet rfl rfl) fun id hgiven =>
    hQ id fun ho => (hgiven.1 ho).1 id rfl

lemma visit_wp_check {scope : Scope} {Q : Unit → Visit → σ → Prop} (hQ : Q () g s)
    (hE : ∀ e, g.Due timely e → E e g s) :
    (visitWatch orderly timely p).wp (direct (.check scope))
      (fun a g' s' => (visitWatch orderly timely p).wp (try_ a) Q E g' s') E g s := by
  refine visit_wp_direct (Visit.allow_of_quiet rfl rfl) fun a hgiven => ?_
  cases a with
  | ok _ => exact hQ
  | error e => exact hE e (hgiven.due rfl)

lemma visit_wp_schema {name : String} {payload : Json} {Q : Unit → Visit → σ → Prop}
    (hQ : Q () g s) (hE : ∀ e, g.Due timely e → E e g s) :
    (visitWatch orderly timely p).wp (direct (.external (.schema name payload)))
      (fun a g' s' => (visitWatch orderly timely p).wp (try_ a) Q E g' s') E g s := by
  refine visit_wp_direct (Visit.allow_of_quiet rfl rfl) fun a hgiven => ?_
  cases a with
  | ok _ => exact hQ
  | error e => exact hE e (hgiven.due rfl)

lemma visit_wp_peekRun {id : String} {Q : Run → Visit → σ → Prop} (hQ : ∀ r, Q r g s)
    (hE : ∀ e, g.Due timely e → E e g s) :
    (visitWatch orderly timely p).wp (direct (.peekRun id))
      (fun a g' s' => (visitWatch orderly timely p).wp (fetch a) Q E g' s') E g s := by
  refine visit_wp_direct (Visit.allow_of_quiet rfl rfl) fun a hgiven => ?_
  cases a with
  | ok r => exact hQ r
  | error e => exact hE (.error e) (hgiven.due rfl)

end Rules

variable {Q : Unit → Visit → BranchVars → Prop} {E : Exn → Visit → BranchVars → Prop}

lemma checkBranch_visit {v : BranchVars} (job : BranchJob) (hQ : Q () g v)
    (hE : ∀ e, g.Due timely e → E e g v) :
    (visitWatch orderly timely p).wp (checkBranch job) Q E g v := by
  exact visit_wp_check hQ hE

lemma persist_visit {v : BranchVars} (job : BranchJob) {records : List Record}
    (hstable : orderly → ∀ a ∈ attemptsOf records, a.id ∈ g.completed →
      a.state.unsuccessful = false)
    (hgoing : timely → g.stopped → ∀ a ∈ attemptsOf records, a.state ≠ .running)
    (hQ : Q () (g.store records) v)
    (hE : ∀ e, g.Due timely e →
      (orderly → ∀ a ∈ attemptsOf records, a.state ≠ .completed) → E e g v) :
    (visitWatch orderly timely p).wp (persist job records) Q E g v := by
  unfold persist
  split
  all_goals
    refine of_bind (visit_wp_direct ?_ fun answer hgiven => ?_)
    · exact ⟨fun ho => ⟨nofun, hstable ho⟩, fun ht hs => ⟨rfl, hgoing ht hs⟩⟩
    cases answer with
    | ok _ => exact hQ
    | error e => exact hE (.error e) (hgiven.due rfl) fun ho => of_decide_eq_true (hgiven.1 ho).2

/-! ## Branches -/

/-- A distributed branch that has been given an attempt has one node: the first attempts of all its
nodes are recorded under the identifier of that attempt. -/
def BranchJob.Single (job : BranchJob) : Prop :=
  ∀ w ∈ job.work, w.2.2 = "" ∨ ∀ e ∈ job.pipeline.edges, e.fromNode = job.token.nodeId →
    ∀ n, job.pipeline.nodes.get e.toNode = some n → n.type = "join"

/-- Every identifier of a completed attempt has been drawn, or was given to the branch. -/
structure Visit.Known (job : BranchJob) (g : Visit) : Prop where
  completed : ∀ id ∈ g.completed, id ∈ g.issued
  given : ∀ w ∈ job.work, w.2.2 ∈ g.issued

/-- A branch in a visit of the node `n`, with `left` attempts left. -/
structure InVisit (orderly timely : Bool) (job : BranchJob) (n : NodeDefinition) (left : Nat)
    (g : Visit) (v : BranchVars) : Prop where
  known : g.Known job
  count : g.begun + left = n.retry.maxAttempts
  input : orderly → ∀ m ∈ g.input, m = v.branch.message
  unused : orderly → ∀ w ∈ job.work, w.2.2 = "" ∨ (w.2.2 ∉ g.completed ∧ n.id = job.token.nodeId)
  going : timely → g.stopped = false

/-- A branch that has begun an attempt of the node `n`. -/
structure Begun (orderly timely : Bool) (job : BranchJob) (n : NodeDefinition) (left : Nat)
    (g : Visit) (v : BranchVars) : Prop extends InVisit orderly timely job n left g v where
  limit : g.limit = n.retry.maxAttempts
  own : v.attempt.id ∈ g.issued
  unfinished : orderly → v.attempt.id ∉ g.completed

/-- A branch in an attempt of the node `n`. -/
structure Trying (orderly timely : Bool) (job : BranchJob) (n : NodeDefinition) (left : Nat)
    (g : Visit) (v : BranchVars) : Prop extends Begun orderly timely job n left g v where
  running : v.attempt.state = .running

structure AtHead (orderly : Bool) (job : BranchJob) (g : Visit) (v : BranchVars) : Prop where
  known : g.Known job
  unused : orderly → ∀ w ∈ job.work, w.2.2 = "" ∨
    (w.2.2 ∉ g.completed ∧ v.branch.activeNode = job.token.nodeId) ∨
    ∀ n, job.pipeline.nodes.get v.branch.activeNode = some n → n.type = "join"

variable {job : BranchJob} {n : NodeDefinition} {left : Nat} {v : BranchVars}

lemma Visit.due_execution (message : String) : g.Due timely (Exn.of .execution message) :=
  fun _ h => nomatch h

lemma Trying.executed (h : Trying orderly timely job n left g v) :
    Trying orderly timely job n left { g with input := some v.branch.message } v :=
  { h with
    known := ⟨h.known.completed, h.known.given⟩
    input := fun _ _ hm => (Option.mem_some_iff.mp hm).symm }

lemma awaitBranchChild_visit (childId : String) (fuel : Nat) :
    (visitWatch orderly timely p).wp (awaitBranchChild job childId fuel)
      (fun result g' v' => g' = g ∧ v' = v ∧ result.condition = "")
      (fun e g' v' => g' = g ∧ v' = v ∧ g.Due timely e) g v := by
  induction fuel with
  | zero => exact visit_wp_halt
  | succ fuel ih =>
    simp only [awaitBranchChild, wp_bind]
    refine checkBranch_visit job (visit_wp_peekRun (fun child => ?_) ?_) ?_
    · simp only [wp_ite, wp_bind]
      refine ⟨fun _ => ⟨fun _ => ?_, fun _ => ?_⟩, fun _ => checkBranch_visit job ih ?_⟩
      · exact ⟨rfl, rfl, Visit.due_execution _⟩
      · exact ⟨rfl, rfl, rfl⟩
      · exact fun e he => ⟨rfl, rfl, he⟩
    · exact fun e he => ⟨rfl, rfl, he⟩
    · exact fun e he => ⟨rfl, rfl, he⟩

variable {a : NodeExecution}

/-- Writing a record of the current attempt that is not completed changes what is known only if the
attempt has ended for good. -/
lemma Visit.store_attempt (ha : a.state ≠ .completed) :
    g.store [.attempt a] = { g with stopped := g.stopped || a.state.final } := by
  simp [Visit.store, ha]

section

variable (h : Trying orderly timely job n left g v)
include h

lemma Trying.persist_running (hid : a.id = v.attempt.id) (ha : a.state = .running) (hQ : Q () g v)
    (hE : ∀ e, g.Due timely e → E e g v) :
    (visitWatch orderly timely p).wp (persist job [.attempt a]) Q E g v := by
  refine persist_visit job ?_ ?_ ?_ fun e he _ => hE e he
  · intro ho b hb hdone
    cases mem_singleton.mp hb
    exact absurd (hid ▸ hdone) (h.unfinished ho)
  · intro ht hstop
    exact absurd hstop (by rw [h.going ht]; decide)
  · rw [Visit.store_attempt (by rw [ha]; decide), ha]
    simpa [NodeState.final] using hQ

lemma recordJob_visit :
    (visitWatch orderly timely p).wp (recordJob job n)
      (fun _ g' v' => Trying orderly timely job n left g' v' ∧ v'.branch = v.branch)
      (fun e g' v' => Begun orderly timely job n left g' v' ∧ g'.Due timely e) g v := by
  simp only [recordJob, wp_ite, wp_bind]
  refine ⟨fun _ => visit_wp_direct (Visit.allow_of_quiet rfl rfl) fun started _ => ?_,
    fun _ => ⟨h, rfl⟩⟩
  cases started with
  | none => exact ⟨h, rfl⟩
  | some id =>
    have h' : Trying orderly timely job n left g
        { v with attempt := { v.attempt with workerJobId := id } } := { h with }
    exact h'.persist_running rfl h'.running ⟨h', rfl⟩ fun e he => ⟨h'.toBegun, he⟩

lemma Trying.allow_input {c : Call} (hin : c.input = some v.branch.message) (hwrites : c.writes = []) :
    g.Allow orderly timely c := by
  refine ⟨fun ho => ⟨?_, by rw [hwrites]; nofun⟩, fun ht hstop => ?_⟩
  · rw [hin]
    rintro m hm m' ⟨⟩
    exact (h.input ho m hm).symm
  · exact absurd hstop (by rw [h.going ht]; decide)

end

variable (fuel : Nat)

lemma branchBody_visit (number : Nat) (h : Trying orderly timely job n left g v) :
    (visitWatch orderly timely p).wp (branchBody cfg fuel job n number)
      (fun result g' v' => Trying orderly timely job n left g' v' ∧ v'.branch = v.branch ∧
        (orderly → (branchRoute p n result.condition v.branch).1.isOk))
      (fun e g' v' => Begun orderly timely job n left g' v' ∧ g'.Due timely e) g v := by
  simp only [branchBody, wp_bind, wp_get, wp_ite]
  refine ⟨fun _ => ?_, fun _ => ?_⟩
  · refine visit_wp_schema ⟨fun _ => ?_, fun _ => ?_⟩ fun e he => ⟨h.toBegun, he⟩
    · exact ⟨h.toBegun, Visit.due_execution _⟩
    refine visit_wp_direct (h.allow_input rfl rfl) fun answer hgiven => ?_
    cases answer with
    | error e => exact ⟨h.executed.toBegun, hgiven.due rfl⟩
    | ok child =>
    refine of_call ⟨Visit.allow_of_quiet rfl rfl, ?_⟩
    rintro ⟨created, x⟩ _ ⟨hrun, rfl⟩
    cases created with
    | error e => exact ⟨h.executed.toBegun, hrun.due rfl⟩
    | ok id =>
    refine wp_mono (awaitBranchChild_visit id fuel) ?_ ?_
    · rintro result _ _ ⟨rfl, rfl, hcondition⟩
      exact ⟨{ h.executed with }, rfl, fun ho => hcondition ▸ (hgiven.1 ho).2⟩
    · rintro e _ _ ⟨rfl, rfl, he⟩
      exact ⟨{ h.executed.toBegun with }, he⟩
  refine checkBranch_visit job (checkBranch_visit job ?_ fun e he => ⟨h.toBegun, he⟩) fun e he =>
    ⟨h.toBegun, he⟩
  refine visit_wp_schema ?_ fun e he => ⟨h.toBegun, he⟩
  refine wp_imp (recordJob_visit h) ?_
  rintro _ g' v' ⟨h', hbranch⟩
  refine visit_wp_direct (h'.allow_input (by rw [hbranch]; rfl) rfl) fun answer hgiven => ?_
  have hexec : Trying orderly timely job n left { g' with input := some v.branch.message } v' :=
    hbranch ▸ h'.executed
  cases answer with
  | error e => exact ⟨hexec.toBegun, hgiven.due rfl⟩
  | ok result => exact ⟨hexec, hbranch, fun ho => (hgiven.1 ho).2⟩

lemma checkBranchResult_visit (result : NodeResult)
    (h : Trying orderly timely job n left g v) :
    (visitWatch orderly timely p).wp (checkBranchResult job n result)
      (fun _ g' v' => g' = g ∧ v' = v)
      (fun e g' v' => Begun orderly timely job n left g' v' ∧ g'.Due timely e) g v := by
  simp only [checkBranchResult, wp_bind]
  refine checkBranch_visit job (visit_wp_schema ?_ fun e he => ⟨h.toBegun, he⟩) fun e he =>
    ⟨h.toBegun, he⟩
  simp only [wp_ite, wp_bind]
  exact ⟨fun _ => visit_wp_schema ⟨rfl, rfl⟩ fun e he => ⟨h.toBegun, he⟩, fun _ => ⟨rfl, rfl⟩⟩

lemma branchRoute_congr (p : PipelineDefinition) (n : NodeDefinition) (condition : String)
    {b b' : Run} (h : b.edgeVisits = b'.edgeVisits) :
    (branchRoute p n condition b).1 = (branchRoute p n condition b').1 := by
  have hcount : ∀ e, edgeCount e (countEdge e b) = edgeCount e (countEdge e b') := by
    intro e
    by_cases he : e.maxIterations = 0
    · simp only [countEdge, he, if_true, edgeCount, h]
    · simp only [countEdge, he, if_false, edgeCount, h]
  unfold branchRoute
  split
  · rename_i e _
    simp only [hcount]
    split <;> rfl
  · rfl

variable {condition : String}

lemma branchRoute_target {p : PipelineDefinition} {n : NodeDefinition}
    {b : Run} (h : (branchRoute p n condition b).1.isOk) :
    ∃ e ∈ p.edges, e.fromNode = n.id ∧ (branchRoute p n condition b).2.activeNode = e.toNode := by
  unfold branchRoute at h ⊢
  split
  · rename_i e he
    have hmem : e ∈ outgoingEdges p n condition := by simp [he]
    simp only [outgoingEdges, mem_filter, decide_eq_true_eq] at hmem
    simp only [he] at h ⊢
    split
    · rename_i hlimit
      rw [if_pos hlimit] at h
      exact absurd h Bool.false_ne_true
    · exact ⟨e, hmem.1, hmem.2.1, rfl⟩
  · rename_i hne
    split at h
    · exact absurd (by assumption) (hne _)
    · exact absurd h Bool.false_ne_true

lemma branchRoute_due {p : PipelineDefinition} {n : NodeDefinition} {b : Run}
    {e : Exn} (h : (branchRoute p n condition b).1 = .error e) : g.Due timely e := by
  unfold branchRoute at h
  split at h
  · simp only at h
    split at h
    · cases h
      exact Visit.due_execution _
    · cases h
  · cases h
    exact Visit.due_execution _

lemma Visit.Known.issue (h : g.Known job) (id : String) :
    Visit.Known job { g with issued := id :: g.issued } :=
  ⟨fun x hx => mem_cons_of_mem _ (h.completed x hx), fun w hw => mem_cons_of_mem _ (h.given w hw)⟩

lemma Visit.store_completed {m : Message} (ha : a.state = .completed) :
    g.store [.attempt a, .message m] = { g with completed := a.id :: g.completed } := by
  simp [Visit.store, attemptsOf, Record.attempt?, ha, NodeState.final]

/-- An accepted result leads the branch to its next node; under the condition on errors nothing
comes in between. -/
lemma acceptBranchResult_visit (result : NodeResult) (hsingle : orderly → job.Single)
    (h : Trying orderly timely job n left g v)
    (hroute : orderly → (branchRoute job.pipeline n result.condition v.branch).1.isOk) :
    (visitWatch orderly timely job.pipeline).wp (acceptBranchResult job n result)
      (fun _ => AtHead orderly job)
      (fun e g' v' => Begun orderly timely job n left g' v' ∧ g'.Due timely e) g v := by
  simp only [acceptBranchResult, wp_bind]
  refine visit_wp_uuid fun id _ => ?_
  simp only [wp_modify, wp_get]
  have hknown := h.known.issue id
  refine persist_visit job ?_ ?_ ?_ ?_
  · intro _ a ha _
    cases mem_singleton.mp ha
    rfl
  · intro _ _ a ha
    cases mem_singleton.mp ha
    simp
  · rw [Visit.store_completed rfl]
    generalize hb : ({ v.branch with nodeVisits := _, message := _ } : Run) = b
    have hedges : v.branch.edgeVisits = b.edgeVisits := by rw [← hb]
    rw [branchRoute_congr _ _ _ hedges] at hroute
    have hdone : Visit.Known job { g with
        issued := id :: g.issued, completed := v.attempt.id :: g.completed } := by
      refine ⟨?_, hknown.given⟩
      rintro x (_ | ⟨_, hx⟩)
      · exact mem_cons_of_mem _ h.own
      · exact hknown.completed x hx
    cases hr : (branchRoute job.pipeline n result.condition b).1 with
    | error e =>
      rw [hr] at hroute
      cases orderly with
      | true => exact absurd (hroute rfl) Bool.false_ne_true
      | false =>
        refine ⟨⟨⟨hdone, h.count, (by simp), (by simp), h.going⟩, h.limit, ?_, by simp⟩, ?_⟩
        · exact mem_cons_of_mem _ h.own
        · exact branchRoute_due hr
    | ok _ =>
    refine ⟨hdone, fun ho w hw => ?_⟩
    have hok : (branchRoute job.pipeline n result.condition b).1.isOk := by
      rw [hr]
      rfl
    obtain ⟨e, he, hfrom, hto⟩ := branchRoute_target hok
    rcases hsingle ho w hw, h.unused ho w hw with ⟨hempty | hjoin, hempty' | ⟨-, hnode⟩⟩
    · exact .inl hempty
    · exact .inl hempty
    · exact .inl hempty'
    refine .inr (.inr ?_)
    rw [show _ = e.toNode from hto]
    exact hjoin e he (hfrom.trans hnode)
  intro e he hrefused
  cases orderly with
  | true => exact absurd rfl (hrefused rfl _ mem_cons_self)
  | false =>
    exact ⟨⟨⟨hknown, h.count, (by simp), (by simp), h.going⟩, h.limit,
      mem_cons_of_mem _ h.own, by simp⟩, he⟩

lemma branchAttempt_visit (number : Nat) (hsingle : orderly → job.Single)
    (h : Trying orderly timely job n left g v) :
    (visitWatch orderly timely job.pipeline).wp (branchAttempt cfg fuel job n number)
      (fun _ => AtHead orderly job)
      (fun e g' v' => Begun orderly timely job n left g' v' ∧ g'.Due timely e) g v := by
  simp only [branchAttempt, wp_bind]
  refine wp_imp (branchBody_visit fuel number h) ?_
  rintro result g v' ⟨h, hbranch, hroute⟩
  rw [← hbranch] at hroute
  refine wp_imp (checkBranchResult_visit result h) ?_
  rintro _ _ _ ⟨rfl, rfl⟩
  exact acceptBranchResult_visit result hsingle h hroute

lemma attemptState_final {e : Error} (h : (attemptState (.error e)).final) :
    e.code = .cancellation ∨ e.code = .timeout := by
  unfold attemptState at h
  cases hc : e.code <;> simp_all [NodeState.final]

/-- A failed attempt is recorded, and followed by another if it was neither cancelled nor the last;
that it was not timed out then is the condition on deadlines. -/
lemma failBranchAttempt_visit {last : Bool} (hlast : left = 0 ↔ last) (e : Error)
    (h : Begun orderly timely job n left g v) (hdue : g.Due timely (.error e)) :
    (visitWatch orderly timely p).wp (failBranchAttempt job last e)
      (fun _ => InVisit orderly timely job n left) (fun _ _ _ => True) g v := by
  simp only [failBranchAttempt, wp_bind, wp_modify, wp_get]
  refine persist_visit job ?_ ?_ ?_ fun _ _ _ => trivial
  · intro ho a ha hdone
    cases mem_singleton.mp ha
    exact absurd hdone (h.unfinished ho)
  · intro _ _ a ha
    cases mem_singleton.mp ha
    exact (attemptState_ne (.error e)).2
  rw [Visit.store_attempt (attemptState_ne (.error e)).1, wp_ite]
  refine ⟨fun _ => trivial, fun hagain => checkBranch_visit job ?_ fun _ _ => trivial⟩
  refine { h with known := ⟨h.known.completed, h.known.given⟩, going := fun ht => ?_ }
  cases hfinal : (attemptState (.error e)).final with
  | false => simp [h.going ht]
  | true =>
  -- a timeout before the last attempt
  rcases attemptState_final hfinal with hcode | hcode
  · exact absurd (.inl hcode) hagain
  have hend := hdue ht hcode
  have hcount := h.count
  have hlimit := h.limit
  exact absurd (.inr (hlast.mp (by omega))) hagain

variable {fresh : String} {number : Nat}

lemma attemptId_unused
    (h : InVisit orderly timely job n left g v) (hfresh : orderly → fresh ∉ g.issued) (ho : orderly) :
    (if number = 1 then job.work.elim fresh (fun w => if w.2.2 = "" then fresh else w.2.2)
      else fresh) ∉ g.completed := by
  have hnew : fresh ∉ g.completed := fun hc => hfresh ho (h.known.completed fresh hc)
  split
  · cases hw : job.work with
    | none => exact hnew
    | some w =>
      simp only [Option.elim_some]
      split
      · exact hnew
      · rename_i hne
        exact ((h.unused ho w hw).resolve_left hne).1
  · exact hnew

lemma attemptId_issued (h : g.Known job) :
    (if number = 1 then job.work.elim fresh (fun w => if w.2.2 = "" then fresh else w.2.2)
      else fresh) ∈ fresh :: g.issued := by
  split
  · cases hw : job.work with
    | none => exact mem_cons_self
    | some w =>
      simp only [Option.elim_some]
      split
      · exact mem_cons_self
      · exact mem_cons_of_mem _ (h.given w hw)
  · exact mem_cons_self

lemma branchAttempts_visit (hsingle : orderly → job.Single)
    (h : InVisit orderly timely job n left g v) :
    (visitWatch orderly timely job.pipeline).wp (branchAttempts cfg fuel job n left)
      (fun _ => AtHead orderly job) (fun _ _ _ => True) g v := by
  induction left generalizing g v with
  | zero => trivial
  | succ left ih =>
    simp only [branchAttempts, wp_bind]
    refine visit_wp_direct (Visit.allow_of_quiet rfl rfl) fun deadline _ => ?_
    cases deadline with
    | error e => trivial
    | ok _ =>
    refine visit_wp_uuid fun fresh hfresh => ?_
    simp only [wp_modify, wp_get, wp_capture]
    have hcount := h.count
    have htrying : Trying orderly timely job n left
        { g with
          begun := g.begun + 1, limit := n.retry.maxAttempts, issued := fresh :: g.issued }
        { v with attempt :=
          { id := if n.retry.maxAttempts - left = 1 then
              job.work.elim fresh (fun w => if w.2.2 = "" then fresh else w.2.2) else fresh
            runId := v.branch.id, nodeId := n.id, attempt := n.retry.maxAttempts - left } } :=
      { known := ⟨(h.known.issue fresh).completed, (h.known.issue fresh).given⟩
        count := by
          show g.begun + 1 + left = _
          omega
        input := h.input
        unused := h.unused
        going := h.going
        limit := rfl
        own := attemptId_issued h.known
        unfinished := attemptId_unused (g := g) h hfresh
        running := rfl }
    refine htrying.persist_running rfl rfl ?_ fun _ _ => trivial
    refine wp_mono (branchAttempt_visit fuel _ hsingle htrying) (fun _ _ _ h => h) ?_
    rintro e g v ⟨h, hdue⟩
    cases e with
    | other => trivial
    | error e =>
      simp only [wp_bind]
      exact wp_imp_ok (failBranchAttempt_visit (by simp) e h hdue) fun _ _ _ h => ih h

lemma branchGate_visit (n : NodeDefinition) :
    (visitWatch orderly timely p).wp (branchGate n) (fun _ g' v' => g' = g ∧ v' = v)
      (fun _ _ _ => True) g v := by
  simp only [branchGate, wp_bind, wp_get]
  refine visit_wp_direct (Visit.allow_of_quiet rfl rfl) fun answer _ => ?_
  cases answer with
  | error e => trivial
  | ok policy =>
    exact of_if trivial (of_if trivial (⟨rfl, rfl⟩))

lemma AtHead.enter (h : AtHead orderly job g v)
    (hn : job.pipeline.nodes.get v.branch.activeNode = some n) (hjoin : n.type ≠ "join") :
    InVisit orderly timely job n n.retry.maxAttempts g.enter v where
  known := ⟨h.known.completed, h.known.given⟩
  count := Nat.zero_add _
  input := fun _ => nofun
  unused := by
    intro ho w hw
    rcases h.unused ho w hw with hempty | ⟨hunused, hnode⟩ | hnext
    · exact .inl hempty
    · exact .inr ⟨hunused, (Table.key_of_get hn).trans hnode⟩
    · exact absurd (hnext n hn) hjoin
  going := fun _ => rfl

lemma branchLoop_visit (hsingle : orderly → job.Single)
    (h : AtHead orderly job g v) :
    (visitWatch orderly timely job.pipeline).Safe (branchLoop cfg job fuel) g v := by
  induction fuel generalizing g v with
  | zero => exact visit_wp_halt
  | succ fuel ih =>
    simp only [branchLoop, wp_bind, wp_get]
    unfold nodeAt
    split
    · rename_i n hn
      refine of_ite ⟨fun _ => ?_, fun hjoin => ?_⟩
      · simp only [wp_bind]
        refine visit_wp_direct (Visit.allow_of_quiet rfl rfl) fun arrived _ => ?_
        cases arrived <;> trivial
      simp only [wp_bind]
      refine visit_wp_direct (Visit.allow_of_quiet rfl rfl) fun counted _ => ?_
      cases counted with
      | error e => trivial
      | ok _ =>
      refine checkBranch_visit job ?_ fun _ _ => trivial
      refine wp_imp_ok (branchGate_visit n) ?_
      rintro _ _ _ ⟨rfl, rfl⟩
      refine visit_wp_direct (Visit.allow_of_quiet rfl rfl) fun made _ => ?_
      cases made with
      | error e => trivial
      | ok _ =>
        refine of_ok ?_
        exact wp_imp_ok (branchAttempts_visit fuel hsingle (h.enter hn hjoin)) fun _ _ _ h => ih h
    · trivial

def BranchJob.start (job : BranchJob) : Visit where
  issued := job.work.toList.map fun w => w.2.2

/-- **Branches keep the rules of attempts.** -/
theorem executeBranch_visit (hsingle : orderly → job.Single) :
    (visitWatch orderly timely job.pipeline).Sat ((executeBranch cfg fuel job).prog ())
      (fun _ _ => True) job.start := by
  have hstart : AtHead orderly job job.start { branch := branchRun job } := by
    refine ⟨⟨nofun, fun w hw => ?_⟩, fun _ w _ => .inr (.inl ⟨nofun, rfl⟩)⟩
    exact mem_map.mpr ⟨w, Option.mem_toList.mpr hw, rfl⟩
  have hrun : (visitWatch orderly timely job.pipeline).Safe
    (executeBranch cfg fuel job) job.start () := by
    simp only [executeBranch, wp_bind, wp_localVar, wp_capture]
    refine wp_mono (branchLoop_visit fuel hsingle hstart) (fun _ _ _ _ => trivial) ?_
    intro e g v _
    cases e with
    | error | other =>
      exact visit_wp_direct (Visit.allow_of_quiet rfl rfl) fun _ _ => trivial
  exact Watch.Sat.mono hrun fun _ _ _ => trivial

/-- Answers to the calls of a branch in which nothing fails; the state counts the identifiers
drawn. -/
def smoothAnswers : (c : Call) → Nat → Option (c.Resp × Nat)
  | .direct .uuid, k => some (sampleUuids.draw k, k + 1)
  | .direct (.branchStep _ _), k => some (.ok (), k)
  | .direct (.branchArrive _ _ _), k => some (.ok (), k)
  | .direct (.branchFail _ _ _), k => some ((), k)
  | .direct (.check _), k => some (.ok (), k)
  | .direct (.external _), k => some (.ok (), k)
  | .direct (.permission _ _), k => some (.ok ⟨.allow, ""⟩, k)
  | .direct (.commit _), k => some (.ok 0, k)
  | .direct (.commitOwned _ _ _ _), k => some (.ok 0, k)
  | .direct (.nodeExecute b _ _), k => some (.ok { message := b.message }, k)
  | _, _ => none

/-- The same answers, but the first execution of a node fails. -/
def failFirst (e : Error) : (c : Call) → Nat → Option (c.Resp × Nat)
  | .direct (.nodeExecute _ _ 1), k => some (.error (.error e), k)
  | c, k => smoothAnswers c k

def sampleBranch (p : PipelineDefinition) (node : String) : BranchJob where
  pipeline := p
  resolved := []
  token := { nodeId := node, message := { runId := "run" }, frames := [] }
  group := "group"
  depth := 0
  sessionId := ""

/-- The first `k` calls of such a branch with these answers. -/
def branchHistory (p : PipelineDefinition) (node : String)
    (answers : (c : Call) → Nat → Option (c.Resp × Nat)) (k : Nat) : List ((c : Call) × c.Resp) :=
  ((executeBranch (pipelineConfig p) 10 (sampleBranch p node)).prog ()).trace (S := callSig) answers k 0

lemma makes_branchHistory (p : PipelineDefinition) (node : String)
    (answers : (c : Call) → Nat → Option (c.Resp × Nat)) (k : Nat) :
    ((executeBranch (pipelineConfig p) 10 (sampleBranch p node)).prog ()).Makes
      (branchHistory p node answers k) :=
  Prog.makes_trace (S := callSig) answers k _ 0

def nestedFork : PipelineDefinition where
  name := "nested"
  nodes := (((((((Table.empty.put { id := "input", type := "input" }).put
    { id := "fork", type := "parallel", join := "join" }).put
    { id := "inner", type := "parallel", join := "join", retry := { maxAttempts := 2 } }).put
    { id := "a", type := "function" }).put { id := "b", type := "function" }).put
    { id := "c", type := "function" }).put { id := "join", type := "join" }).put
    { id := "output", type := "output" }
  edges := [⟨"input", "fork", "", 0⟩, ⟨"fork", "inner", "", 0⟩, ⟨"fork", "c", "", 0⟩,
    ⟨"inner", "a", "", 0⟩, ⟨"inner", "b", "", 0⟩, ⟨"a", "join", "", 0⟩, ⟨"b", "join", "", 0⟩,
    ⟨"c", "join", "", 0⟩, ⟨"join", "output", "", 0⟩]

/-- Two edges lead on from the inner parallel node, so its branch cannot be routed. The completed
attempt is stored as failed, and the node is executed once more, on the message it has produced. -/
theorem branch_attempts_unstable :
    let es := branchHistory nestedFork "inner" smoothAnswers 24
    ((executeBranch (pipelineConfig nestedFork) 10
      (sampleBranch nestedFork "inner")).prog ()).Makes es ∧
      Visit.Always Visit.Fresh (sampleBranch nestedFork "inner").start es ∧
      ¬Visit.Always (fun g c _ => ∀ m ∈ g.input, ∀ m' ∈ c.input, m' = m)
        (sampleBranch nestedFork "inner").start es ∧
      ¬Visit.Always (fun g c _ => ∀ a ∈ attemptsOf c.writes, a.id ∈ g.completed →
        a.state.unsuccessful = false) (sampleBranch nestedFork "inner").start es := by
  refine ⟨makes_branchHistory _ _ _ _, by decide +kernel, fun h => ?_, by decide +kernel⟩
  -- messages are told apart by their identifiers
  have hids : Visit.Always (fun g c _ => ∀ m ∈ g.input, ∀ m' ∈ c.input, m'.id = m.id)
      (sampleBranch nestedFork "inner").start (branchHistory nestedFork "inner" smoothAnswers 24) :=
    h.mono fun g c _ h m hm m' hm' => congrArg Message.id (h m hm m' hm')
  revert hids
  decide +kernel

/-- **Inputs of attempts.** In a branch, all attempts of a visit get the same message and a
completed attempt stays completed, provided that no error follows the result of a node: the result
can be written, one edge leads on, and the attempt given to a distributed branch is used for one
node. -/
theorem branch_attempts_stable (cfg : Config) (fuel : Nat) (job : BranchJob)
    (es : List ((c : Call) × c.Resp))
    (hes : ((executeBranch cfg fuel job).prog ()).Makes es)
    (hfresh : Visit.Always Visit.Fresh job.start es)
    (horderly : Visit.Always (fun _ c answer => Visit.orderly job.pipeline c answer = true)
      job.start es)
    (hsingle : job.Single) : Visit.Always (fun g c _ => g.Stable c) job.start es := by
  have hgiven : Visit.Always (Visit.Given true false job.pipeline) job.start es :=
    (hfresh.and horderly).mono fun _ _ _ h => ⟨fun _ => h, nofun⟩
  exact (Throughout.of_sat (executeBranch_visit fuel fun _ => hsingle) hes hgiven).mono
    fun _ _ _ h => h.1 rfl

/-- A node that fails once: its second attempt is executed on the same message. -/
theorem branch_attempts_stable_retry :
    let p := forkPipeline [{ id := "a", type := "function", retry := { maxAttempts := 2 } },
      { id := "b", type := "function" }]
    let es := branchHistory p "a" (failFirst ⟨.tool, "unreachable"⟩) 30
    Visit.Always (fun g c _ => g.Stable c) (sampleBranch p "a").start es ∧ es.length = 25 :=
  ⟨branch_attempts_stable _ 10 _ _ (makes_branchHistory _ _ _ _) (by decide +kernel)
    (by decide +kernel) nofun, by decide +kernel⟩

end Laso
