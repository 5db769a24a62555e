import Laso.Core.Machine
import Laso.Policy.Engine

/-!
# Worker interactions

A worker may ask for an approval, a permission or an answer. `handleInteraction` records the
request, lets the configured policy decide it at once or leaves it pending, and then waits for an
operator (`resolveInteraction`), for the cancellation of the worker job (`cancelJob`) or for the
deadline (`expire`). Each of these holds the interaction mutex while it reads and writes the
store, so each is one step of the machine `interactionMachine`.

The policy context of a request is built with positional initialisers, and the seventh one, which
says whether the request is of type approval, is the field `worker_node` and not
`approval_required`. The model keeps that (`interactionContext`): an approval request is treated
as one from a worker node, and nothing marks it as requiring an approval.

So an approval request is approved without an operator unless the deployment's rules happen to
stop it. `approval_needs_operator` says exactly when they do.
-/

namespace Laso

open Option

inductive WorkerInteractionType where
  | approval | permission | question
  deriving DecidableEq, Repr

inductive WorkerInteractionState where
  | pending | approved | denied | answered | cancelled | expired
  deriving DecidableEq, Repr

structure WorkerInteractionRequest where
  requestId : String
  workerJobId : String
  workerId : String := ""
  externalJobId : String := ""
  sessionId : String := ""
  type : WorkerInteractionType := .question
  title : String := ""
  summary : String := ""
  deadline : String := ""
  risk : String := ""
  category : String := ""
  payload : Json := .obj []

structure WorkerInteraction where
  id : String
  workerJobId : String := ""
  workerId : String := ""
  runId : String := ""
  externalJobId : String := ""
  sessionId : String := ""
  type : WorkerInteractionType := .question
  state : WorkerInteractionState := .pending
  title : String := ""
  summary : String := ""
  deadline : String := ""
  risk : String := ""
  category : String := ""
  payload : Json := .obj []
  response : Json := .obj []
  reason : String := ""
  actor : String := ""

instance : Keyed WorkerInteraction := ⟨WorkerInteraction.id⟩

variable (i : WorkerInteraction)

@[simp] lemma WorkerInteraction.key_eq : Keyed.key i = i.id := rfl

def WorkerInteractionState.name : WorkerInteractionState → String
  | .pending => "pending"
  | .approved => "approved"
  | .denied => "denied"
  | .answered => "answered"
  | .cancelled => "cancelled"
  | .expired => "expired"

/-- `value(key, default)` on an object for a Boolean default. -/
def Json.boolOr (j : Json) (field : String) (default : Bool) : Except Exn Bool :=
  match j with
  | .obj fields =>
    match fields.lookup field with
    | none => .ok default
    | some (.bool b) => .ok b
    | some _ => .error .other
  | _ => .error .other

/-- What a manager is configured with: an optional policy, the size limits of the protocol, and the
run of each worker job. -/
structure InteractionEnv where
  policy : Option PolicyEngine
  requestWithinLimits : WorkerInteractionRequest → Bool
  decisionWithinLimits : String → Json → String → String → Bool
  runOfJob : String → Option String

/-- The policy context `handle_interaction` builds. Positional initialisation leaves
`approvalRequired` at its default and sets `workerNode` for approval requests. -/
def interactionContext (request : WorkerInteractionRequest) : Except Exn PolicyContext := do
  let resource ← request.payload.stringOr "resource" "worker.permission"
  let classification ← request.payload.stringOr "classification" "public"
  let network ← request.payload.boolOr "network" false
  let remote ← request.payload.boolOr "remote" false
  return { resource, classification, network, remote, workerNode := request.type == .approval }

variable (env : InteractionEnv)

def interactionPolicy (request : WorkerInteractionRequest) :
    Except Exn PolicyResult :=
  match request.type, env.policy with
  | .question, _ => .ok ⟨.requireApproval, "Human answer required"⟩
  | _, some engine => (interactionContext request).map engine.evaluate
  | _, none => .ok ⟨.requireApproval, "Human decision required"⟩

def decisionResponse (decision reason : String) : Json :=
  .obj [("decision", .str decision), ("reason", .str reason)]

/-- The record of a new request before the policy decision. -/
def recordRequest (request : WorkerInteractionRequest) :
    WorkerInteraction where
  id := request.requestId
  workerJobId := request.workerJobId
  workerId := request.workerId
  runId := (env.runOfJob request.workerJobId).getD ""
  externalJobId := request.externalJobId
  sessionId := request.sessionId
  type := request.type
  title := request.title
  summary := request.summary
  deadline := request.deadline
  risk := request.risk
  category := request.category
  payload := request.payload

/-- The record with the policy decision applied: allowed and denied requests are settled here. -/
def applyPolicy (result : PolicyResult) : WorkerInteraction :=
  match result.decision with
  | .allow =>
    let state := if i.type = .question then .answered else .approved
    { i with
      state := state
      reason := result.reason
      response := decisionResponse state.name result.reason }
  | .deny =>
    { i with
      state := .denied
      reason := result.reason
      response := decisionResponse "denied" result.reason }
  | .requireApproval => i

/-- The store of interactions, with a log of the operator decisions accepted so far. -/
structure Interactions where
  records : Table WorkerInteraction := Table.empty
  decisions : List (String × WorkerInteractionState) := []

namespace Interactions

def expired (i : WorkerInteraction) : WorkerInteraction :=
  { i with
    state := .expired
    reason := "Worker interaction deadline expired"
    response := decisionResponse "expired" "Worker interaction deadline expired" }

variable (s : Interactions)

def store (i : WorkerInteraction) : Interactions :=
  { s with records := s.records.put i }

variable (env : InteractionEnv) (s : Interactions) (request : WorkerInteractionRequest)

/-- The record `handle_interaction` continues with and the store that holds it: the one stored
under the request's identifier, or a new one. An identifier reused with other content, a payload
with fields of the wrong type and a failed commit throw. -/
def recordInteraction (createFails : Bool) :
    Option (WorkerInteraction × Interactions) :=
  match s.records.get request.requestId with
  | some i =>
    if i.workerJobId = request.workerJobId ∧ i.type = request.type then some (i, s) else none
  | none =>
    match interactionPolicy env request with
    | .error _ => none
    | .ok result =>
      let i := applyPolicy (recordRequest env request) result
      if createFails then none else some (i, s.store i)

/-- The part of `handle_interaction` before the wait. `pastDeadline` is the comparison of the
request's deadline with the present; a failed commit throws and leaves the store as it was. -/
def handleInteraction
    (pastDeadline createFails expireFails : Bool) :
    Interactions :=
  if !env.requestWithinLimits request then s
  else match recordInteraction env s request createFails with
    | none => s
    | some (i, s') =>
      if i.state ≠ .pending then s'
      else if i.deadline ≠ "" && pastDeadline && !expireFails then s'.store (expired i)
      else s'

def expire (id : String) : Interactions :=
  match s.records.get id with
  | some i => if i.state = .pending then s.store (expired i) else s
  | none => s

/-- `resolve_interaction`: an operator settles a pending request. -/
def resolveInteraction (id : String)
    (state : WorkerInteractionState) (payload : Json) (actor reason : String) :
    Except Error Interactions :=
  if id.isEmpty || !env.decisionWithinLimits id payload actor reason || state = .pending then
    .error ⟨.validation, "Invalid worker interaction decision"⟩
  else match s.records.get id with
    | none => .error ⟨.notFound, "Record not found"⟩
    | some i =>
      if i.state ≠ .pending then
        .error ⟨.conflict, "Worker interaction is no longer pending"⟩
      else if i.type ≠ .question ∧ state = .answered then
        .error ⟨.validation, "Only questions accept an answer"⟩
      else if i.type = .question ∧ (state = .approved ∨ state = .denied) then
        .error ⟨.validation, "Questions require an answer or cancellation"⟩
      else
        .ok { s.store { i with
                state := state
                response := .obj [("decision", .str state.name), ("payload", payload),
                  ("reason", .str reason)]
                reason := reason
                actor := actor } with
            decisions := (id, state) :: s.decisions }

/-- The loop of `WorkerManager::cancel` over the requests of a job. -/
def cancelRows (jobId reason : String) : List WorkerInteraction → Interactions → Interactions
  | [], s => s
  | i :: rest, s =>
    cancelRows jobId reason rest (if i.workerJobId = jobId ∧ i.state = .pending then
        s.store { i with
          state := .cancelled
          reason := reason
          response := decisionResponse "cancelled" reason }
      else s)

/-- Cancelling a worker job cancels its pending requests among the first 10000. -/
def cancelJob (jobId reason : String) : Interactions :=
  cancelRows jobId reason (s.records.rows.take 10000) s

end Interactions

/-- What can happen to the interaction store. -/
inductive InteractionEvent where
  | handle (request : WorkerInteractionRequest) (pastDeadline createFails expireFails : Bool)
  | expire (id : String)
  | resolve (id : String) (state : WorkerInteractionState) (payload : Json) (actor reason : String)
  | cancelJob (jobId reason : String)

/-- The interaction service: requests, waits that end, operator decisions and job cancellations in
any order. -/
def interactionMachine : Machine Interactions InteractionEvent
  | s, .handle request pastDeadline createFails expireFails =>
    some (s.handleInteraction env request pastDeadline createFails expireFails)
  | s, .expire id => some (s.expire id)
  | s, .resolve id state payload actor reason =>
    match s.resolveInteraction env id state payload actor reason with
    | .ok s' => some s'
    | .error _ => some s
  | s, .cancelJob jobId reason => some (s.cancelJob jobId reason)

/-! ## Who approves an approval request -/

/-- Every approved approval request was approved by an operator. -/
def ApprovedByOperator (s : Interactions) : Prop :=
  ∀ i ∈ s.records.rows, i.type = .approval → i.state = .approved → (i.id, .approved) ∈ s.decisions

/-- The deployment keeps the policy from settling this request: there is no policy, or an egress
check denies it, or a rule for its resource denies it or requires an approval. -/
def needsOperator (request : WorkerInteractionRequest) : Bool :=
  match env.policy, interactionContext request with
  | some engine, .ok c =>
    engine.deniesEgress c || engine.hasRule c.resource .deny ||
      engine.hasRule c.resource .requireApproval
  | _, _ => true

variable {request : WorkerInteractionRequest}

lemma interactionContext_approvalRequired {c : PolicyContext}
    (h : interactionContext request = .ok c) : c.approvalRequired = false := by
  unfold interactionContext at h
  cases h1 : request.payload.stringOr "resource" "worker.permission" <;>
    cases h2 : request.payload.stringOr "classification" "public" <;>
    cases h3 : request.payload.boolOr "network" false <;>
    cases h4 : request.payload.boolOr "remote" false <;>
    simp [h1, h2, h3, h4, bind, Except.bind, pure, Except.pure] at h
  rw [← h]

/-- The policy settles an approval request favourably exactly when nothing in the deployment stops
it. -/
lemma interactionPolicy_allow_iff (request : WorkerInteractionRequest)
    (ht : request.type = .approval) :
    (∃ result, interactionPolicy env request = .ok result ∧ result.decision = .allow) ↔
      needsOperator env request = false := by
  unfold interactionPolicy needsOperator
  rw [ht]
  cases hp : env.policy with
  | none => simp
  | some engine =>
  cases hc : interactionContext request with
  | error e => simp [Except.map]
  | ok c =>
  have hreq := interactionContext_approvalRequired hc
  simp only [Except.map, Except.ok.injEq, exists_eq_left', PolicyEngine.evaluate_decision, hreq]
  cases engine.deniesEgress c <;> cases engine.hasRule c.resource .deny <;>
    cases engine.hasRule c.resource .requireApproval <;> simp

lemma applyPolicy_id (result : PolicyResult) :
    (applyPolicy i result).id = i.id ∧ (applyPolicy i result).type = i.type := by
  unfold applyPolicy
  split <;> exact ⟨rfl, rfl⟩

lemma applyPolicy_approved {i : WorkerInteraction} {result : PolicyResult}
    (hi : i.state = .pending) (h : (applyPolicy i result).state = .approved) :
    result.decision = .allow := by
  unfold applyPolicy at h
  split at h
  · assumption
  · simp at h
  · simp [hi] at h

namespace ApprovedByOperator

variable {s : Interactions} {i : WorkerInteraction}

lemma store (h : ApprovedByOperator s)
    (hi : i.type = .approval → i.state = .approved → (i.id, .approved) ∈ s.decisions) :
    ApprovedByOperator (s.store i) := by
  intro j hj
  rcases Table.mem_rows_put.mp hj with rfl | ⟨hj, -⟩
  · exact hi
  · exact h j hj

lemma store_of_not_approved (h : ApprovedByOperator s) (hi : i.state ≠ .approved) :
    ApprovedByOperator (s.store i) :=
  h.store fun _ ha => absurd ha hi

lemma expire (h : ApprovedByOperator s) (id : String) : ApprovedByOperator (s.expire id) := by
  unfold Interactions.expire
  split
  · split
    · exact h.store_of_not_approved (by simp [Interactions.expired])
    · exact h
  · exact h

variable {env : InteractionEnv} {s' : Interactions}

lemma resolveInteraction {id : String} {state : WorkerInteractionState}
    {payload : Json} {actor reason : String} (h : ApprovedByOperator s)
    (hr : s.resolveInteraction env id state payload actor reason = .ok s') :
    ApprovedByOperator s' := by
  unfold Interactions.resolveInteraction at hr
  split at hr
  · simp at hr
  split at hr
  · simp at hr
  rename_i j hj
  split_ifs at hr
  simp only [Except.ok.injEq] at hr
  subst hr
  intro k hk htype hstate
  rcases Table.mem_rows_put.mp hk with rfl | ⟨hk, -⟩
  · have hid : j.id = id := Table.key_of_get hj
    simp only at hstate
    simp [hid, hstate]
  · exact List.mem_cons_of_mem _ (h k hk htype hstate)

lemma cancelRows (jobId reason : String) (rows : List WorkerInteraction)
    (h : ApprovedByOperator s) : ApprovedByOperator (Interactions.cancelRows jobId reason rows s) := by
  induction rows generalizing s with
  | nil => exact h
  | cons i rest ih =>
    refine ih ?_
    split
    · exact h.store_of_not_approved (by simp)
    · exact h

variable {request : WorkerInteractionRequest}

/-- Recording a request keeps the law when the deployment keeps the policy from approving it. -/
lemma recordInteraction
    {createFails : Bool} (h : ApprovedByOperator s)
    (hn : request.type = .approval → needsOperator env request)
    (hr : s.recordInteraction env request createFails = some (i, s')) : ApprovedByOperator s' := by
  unfold Interactions.recordInteraction at hr
  split at hr
  · split at hr
    · simp only [some.injEq, Prod.mk.injEq] at hr
      exact hr.2 ▸ h
    · simp at hr
  split at hr
  · simp at hr
  rename_i result hres
  split at hr
  · simp at hr
  simp only [some.injEq, Prod.mk.injEq] at hr
  rw [← hr.2]
  refine h.store fun htype hstate => ?_
  have ht : request.type = .approval := (applyPolicy_id _ result).2.symm.trans htype
  have hfalse := (interactionPolicy_allow_iff env request ht).mp
    ⟨result, hres, applyPolicy_approved rfl hstate⟩
  simp [hn ht] at hfalse

lemma handleInteraction
    (pastDeadline createFails expireFails : Bool) (h : ApprovedByOperator s)
    (hn : request.type = .approval → needsOperator env request) :
    ApprovedByOperator (s.handleInteraction env request pastDeadline createFails expireFails) := by
  unfold Interactions.handleInteraction
  split
  · exact h
  split
  · exact h
  rename_i hr
  have h' := h.recordInteraction hn hr
  split_ifs
  · exact h'
  · exact h'.store_of_not_approved (by simp [Interactions.expired])
  · exact h'

end ApprovedByOperator

/-- The condition on an event: a new approval request is one that the deployment leaves to an
operator. -/
def InteractionEvent.LeftToOperator : InteractionEvent → Prop
  | .handle request _ _ _ => request.type = .approval → needsOperator env request
  | _ => True

lemma approvedByOperator_step {env : InteractionEnv} {s s' : Interactions} {e : InteractionEvent}
    (h : ApprovedByOperator s) (he : e.LeftToOperator env)
    (hstep : interactionMachine env s e = some s') : ApprovedByOperator s' := by
  cases e with
  | handle request pastDeadline createFails expireFails =>
    simp only [interactionMachine, some.injEq] at hstep
    exact hstep ▸ h.handleInteraction _ _ _ he
  | expire id =>
    simp only [interactionMachine, some.injEq] at hstep
    exact hstep ▸ h.expire id
  | resolve id state payload actor reason =>
    simp only [interactionMachine] at hstep
    split at hstep
    · rename_i hr
      simp only [some.injEq] at hstep
      exact hstep ▸ h.resolveInteraction hr
    · simp only [some.injEq] at hstep
      exact hstep ▸ h
  | cancelJob jobId reason =>
    simp only [interactionMachine, some.injEq] at hstep
    exact hstep ▸ h.cancelRows jobId reason _

/-- A first approval request that nothing in the deployment stops is approved on the spot. -/
lemma handleInteraction_approves {env : InteractionEnv}
    (ht : request.type = .approval) (hl : env.requestWithinLimits request)
    (hn : needsOperator env request = false) (pastDeadline expireFails : Bool) :
    ∃ i, Interactions.handleInteraction env {} request pastDeadline false expireFails =
      Interactions.store {} i ∧ i.type = .approval ∧ i.state = .approved := by
  obtain ⟨result, hres, hallow⟩ := (interactionPolicy_allow_iff env request ht).mpr hn
  have hstate : (applyPolicy (recordRequest env request) result).state = .approved := by
    simp [applyPolicy, hallow, recordRequest, ht]
  refine ⟨applyPolicy (recordRequest env request) result, ?_, ?_, hstate⟩
  · simp [Interactions.handleInteraction, Interactions.recordInteraction, hl, hres, hstate]
  · exact (applyPolicy_id _ result).2.trans ht

/-- **Approval requests and operators.** In every run of the interaction service whose approval
requests are all left to an operator by the deployment, an approval request is approved only by an
operator. The condition on a request is exact: an approval request within the limits of the
protocol keeps the law if and only if it meets the condition. -/
theorem approval_needs_operator (env : InteractionEnv) :
    (∀ s, (interactionMachine env).Reach (fun _ e => e.LeftToOperator env) {} s →
      ApprovedByOperator s) ∧
    ∀ request : WorkerInteractionRequest, request.type = .approval →
      env.requestWithinLimits request = true →
      ((∀ pastDeadline createFails expireFails, ApprovedByOperator
          (Interactions.handleInteraction env {} request pastDeadline createFails expireFails)) ↔
        needsOperator env request = true) := by
  have hinit : ApprovedByOperator {} := by
    intro i hi
    simp [Table.empty] at hi
  refine ⟨fun s hs => hs.invariant hinit fun t e u ht he hu => approvedByOperator_step ht he hu,
    fun request ht hl => ⟨fun h => ?_, fun h _ _ _ => hinit.handleInteraction _ _ _ fun _ => h⟩⟩
  by_contra hn
  obtain ⟨i, hstore, htype, hstate⟩ :=
    handleInteraction_approves ht hl (Bool.not_eq_true _ ▸ hn) false false
  have hmem : i ∈ (Interactions.store {} i).records.rows := Table.mem_rows_put.mpr (.inl rfl)
  have hlaw := h false false false
  rw [hstore] at hlaw
  have hdecided := hlaw i hmem htype hstate
  simp [Interactions.store] at hdecided

/-- A deployment without rules, with the limits of the protocol left open. -/
def openEnv : InteractionEnv where
  policy := some {}
  requestWithinLimits _ := true
  decisionWithinLimits _ _ _ _ := true
  runOfJob _ := none

/-- A deployment that requires an approval for everything. -/
def guardedEnv : InteractionEnv :=
  { openEnv with policy := some { rules := [⟨"*", .requireApproval⟩] } }

/-- Under a policy without rules, an approval request with an empty payload is approved although
no operator has decided anything. -/
theorem approval_request_approved_by_policy :
    ∃ s, (interactionMachine openEnv).Reach Machine.always {} s ∧ s.decisions = [] ∧
      (s.records.get "q").map (fun i => (i.type, i.state)) = some (.approval, .approved) :=
  ⟨_, Machine.Reach.refl.step (l := .handle
    { requestId := "q", workerJobId := "job", type := .approval } false false false) trivial rfl,
    rfl, by decide⟩

/-- Under a rule that requires an approval, the request waits, and the operator's decision is what
approves it. -/
theorem approval_needs_operator_guarded :
    ∃ s, (interactionMachine guardedEnv).Reach (fun _ e => e.LeftToOperator guardedEnv) {} s ∧
      (s.records.get "q").map (fun i => (i.type, i.state)) = some (.approval, .approved) ∧
      ApprovedByOperator s := by
  have h : (interactionMachine guardedEnv).Reach (fun _ e => e.LeftToOperator guardedEnv) {} _ :=
    (Machine.Reach.refl.step (l := .handle
      { requestId := "q", workerJobId := "job", type := .approval } false false false)
        (fun _ => by decide) rfl).step
      (l := .resolve "q" .approved (.obj []) "operator" "") trivial rfl
  exact ⟨_, h, by decide, (approval_needs_operator guardedEnv).1 _ h⟩

end Laso
