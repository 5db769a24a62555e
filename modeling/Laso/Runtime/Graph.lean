import Laso.Policy.Engine
import Mathlib.Algebra.Group.Nat.Defs

/-!
# Moving through the pipeline graph

The functions of `graph.cpp`: what a run does to its cursor when a node has completed (`advance`),
when it takes the next ready token (`nextReady`) and when it reaches a join (`prepareJoin`), and
the policy question asked before a node runs (`permission`).

They change the run in place and may throw half way through, so each returns its outcome together
with the run as it is then.
-/

namespace Laso

def executionError (message : String) : Exn := Exn.of .execution message

/-- Count a visit of a node. A run ends after `max_steps` visits, so these counters stay small. -/
def bumpVisits (t : Table (String × Nat)) (k : String) : Table (String × Nat) :=
  t.put (k, (match t.get k with | some (_, n) => n | none => 0) + 1)

/-- `next_ready`: continue with the first ready token. -/
def nextReady (r : Run) : Bool × Run :=
  match r.ready with
  | [] => (false, r)
  | token :: rest =>
    (true, { r with
      ready := rest
      activeNode := token.nodeId
      message := token.message
      frames := token.frames
      preparedJoin := "" })

/-- Insert an arrival in the order of the branch index, unless the index has arrived before. -/
def arrive (index : Nat) (m : Message) : List (Nat × Message) → Option (List (Nat × Message))
  | [] => some [(index, m)]
  | (i, m') :: rest =>
    if index = i then none
    else if index < i then some ((index, m) :: (i, m') :: rest)
    else (arrive index m rest).map ((i, m') :: ·)

/-- What reaching a node means for a run that may have to wait at a join. -/
inductive JoinStep where
  /-- The node can be executed. -/
  | ready
  /-- Other branches are missing; the run continues with another token after a checkpoint. -/
  | waiting
  deriving DecidableEq, Repr

/-- `prepare_join` up to its checkpoint. -/
def prepareJoin (n : NodeDefinition) (r : Run) : Except Exn JoinStep × Run :=
  if n.type ≠ "join" ∨ r.preparedJoin = n.id then (.ok .ready, r)
  else match r.frames.getLast? with
    | none => (.error (executionError "Join reached outside its matching parallel group"), r)
    | some frame =>
      if frame.join ≠ n.id then
        (.error (executionError "Join reached outside its matching parallel group"), r)
      else
        let arrived := match r.joins.get frame.group with
          | some (_, checkpoint) => checkpoint.messages
          | none => []
        match arrive frame.index r.message arrived with
        | none =>
          (.error (executionError "Parallel branch arrived twice"),
            { r with joins := r.joins.put (frame.group, ⟨arrived⟩) })
        | some arrived' =>
          if arrived'.length = frame.width then
            (.ok .ready, { r with
                message := { r.message with payload := .arr (arrived'.map (·.2.payload)) }
                frames := r.frames.dropLast
                joins := r.joins.erase frame.group
                preparedJoin := n.id })
          else
            match nextReady { r with joins := r.joins.put (frame.group, ⟨arrived'⟩) } with
            | (true, r') => (.ok .waiting, r')
            | (false, r') => (.error (executionError "Join has missing branches"), r')

variable (p : PipelineDefinition)

def outgoingEdges (n : NodeDefinition) (condition : String) :
    List EdgeDefinition :=
  p.edges.filter fun e => e.fromNode = n.id ∧ (e.condition = "" ∨ e.condition = condition)

variable (e : EdgeDefinition)

/-- The key of `edge_visits`; edges between the same nodes share it. -/
def EdgeDefinition.key : String := e.fromNode ++ "->" ++ e.toNode

def edgeCount (r : Run) : Nat :=
  match r.edgeVisits.get e.key with
  | some (_, n) => n
  | none => 0

/-- `++edge_visits[key]` for an edge with a limit. The counters are `unsigned` and wrap. -/
def countEdge (r : Run) : Run :=
  if e.maxIterations = 0 then r
  else { r with edgeVisits := r.edgeVisits.put (e.key, (edgeCount e r + 1) % 2 ^ 32) }

/-- The loop of `advance` over the selected edges: count the traversal, then queue a token for the
target. -/
def followEdges (n : NodeDefinition) (group : String) (width : Nat) :
    Nat → List EdgeDefinition → Run → Except Exn Unit × Run
  | _, [], r => (.ok (), r)
  | i, e :: rest, r =>
    let r' := countEdge e r
    if e.maxIterations ≠ 0 ∧ e.maxIterations < edgeCount e r' then
      (.error (executionError "Edge iteration limit exceeded"), r')
    else
      let frames := if n.type = "parallel" then r'.frames ++ [⟨group, n.join, width, i⟩]
        else r'.frames
      followEdges n group width (i + 1) rest
        { r' with ready := r'.ready ++ [⟨e.toNode, r'.message, frames⟩] }

/-- `advance`: route the run on from a completed node. `true` means that there is more to do;
`group` is the identifier drawn for a new parallel group. -/
def advance (n : NodeDefinition) (condition group : String) (r : Run) :
    Except Exn Bool × Run :=
  if n.type = "output" then
    if r.frames.isEmpty ∧ r.ready.isEmpty ∧ r.joins.rows.isEmpty then (.ok false, r)
    else (.error (executionError "Parallel branches must converge before output"), r)
  else
    let outgoing := outgoingEdges p n condition
    if outgoing.isEmpty then (.error (executionError "No matching outgoing edge"), r)
    else if n.type ≠ "parallel" ∧ outgoing.length ≠ 1 then
      (.error (executionError "Ambiguous routing result"), r)
    else match followEdges n group outgoing.length 0 outgoing r with
      | (.error e, r') => (.error e, r')
      | (.ok _, r') =>
        if 256 < r'.ready.length then
          (.error (executionError "Ready branch limit exceeded"), r')
        else if n.type = "parallel" then (.ok true, r')
        else
          let (more, r'') := nextReady r'
          (.ok more, r'')

/-! ## What moving through the graph leaves alone -/

/-- The messages a run works on name it as their run. -/
structure Run.OwnMessages (r : Run) : Prop where
  message : r.message.runId = r.id
  ready : ∀ t ∈ r.ready, t.message.runId = r.id

/-- A change of the cursor that keeps who the run is and what it has visited. -/
structure Moved (r r' : Run) : Prop where
  id : r'.id = r.id
  ownership : r'.toOwnership = r.toOwnership
  version : r'.version = r.version
  state : r'.state = r.state
  nodeVisits : r'.nodeVisits = r.nodeVisits
  messages : r.OwnMessages → r'.OwnMessages

lemma Moved.refl (r : Run) : Moved r r := ⟨rfl, rfl, rfl, rfl, rfl, fun h => h⟩

lemma Moved.trans {a b c : Run} (h : Moved a b) (h' : Moved b c) : Moved a c :=
  ⟨h'.id.trans h.id, h'.ownership.trans h.ownership, h'.version.trans h.version,
    h'.state.trans h.state, h'.nodeVisits.trans h.nodeVisits, h'.messages ∘ h.messages⟩

lemma nextReady_moved (r : Run) : Moved r (nextReady r).2 := by
  unfold nextReady
  split
  · exact Moved.refl r
  rename_i token rest hr
  refine ⟨rfl, rfl, rfl, rfl, rfl, fun h => ?_⟩
  have hmem : ∀ t, t = token ∨ t ∈ rest → t.message.runId = r.id := fun t ht =>
    h.ready t (hr ▸ List.mem_cons.mpr ht)
  exact ⟨hmem token (.inl rfl), fun t ht => hmem t (.inr ht)⟩

lemma prepareJoin_moved (n : NodeDefinition) (r : Run) : Moved r (prepareJoin n r).2 := by
  have hjoins : ∀ t, Moved r { r with joins := t } := fun t =>
    ⟨rfl, rfl, rfl, rfl, rfl, fun h => ⟨h.message, h.ready⟩⟩
  unfold prepareJoin
  split
  · exact Moved.refl r
  split
  · exact Moved.refl r
  rename_i frame _
  split
  · exact Moved.refl r
  simp only
  split
  · exact hjoins _
  split
  · exact ⟨rfl, rfl, rfl, rfl, rfl, fun h => ⟨h.message, h.ready⟩⟩
  · -- the arrival is recorded, then the run continues with another token
    split <;> rename_i r' hnext <;>
      exact (congrArg Prod.snd hnext) ▸ (hjoins _).trans (nextReady_moved _)

variable {worker : Except Exn (String × Bool)} {n : NodeDefinition}

lemma prepareJoin_ready {r : Run} :
    (prepareJoin n r).1 = .ok .ready → (prepareJoin n r).2.activeNode = r.activeNode := by
  unfold prepareJoin
  split
  · exact fun _ => rfl
  split
  · exact fun _ => rfl
  split
  · exact fun _ => rfl
  simp only
  split
  · exact fun _ => rfl
  split
  · exact fun _ => rfl
  · split <;> exact fun h => nomatch h

lemma countEdge_moved (r : Run) : Moved r (countEdge e r) := by
  unfold countEdge
  split
  · exact Moved.refl r
  · exact ⟨rfl, rfl, rfl, rfl, rfl, fun h => ⟨h.message, h.ready⟩⟩

lemma followEdges_moved (n : NodeDefinition) (group : String) (width : Nat)
    (edges : List EdgeDefinition) (i : Nat) (r : Run) :
    Moved r (followEdges n group width i edges r).2 := by
  induction edges generalizing i r with
  | nil => exact Moved.refl r
  | cons e rest ih =>
    have hcount := countEdge_moved e r
    unfold followEdges
    simp only
    split
    · exact hcount
    refine (hcount.trans ?_).trans (ih _ _)
    refine ⟨rfl, rfl, rfl, rfl, rfl, fun h => ⟨h.message, ?_⟩⟩
    intro t ht
    rcases List.mem_append.mp ht with ht | ht
    · exact h.ready t ht
    · rw [List.mem_singleton.mp ht]
      exact h.message

lemma advance_moved (n : NodeDefinition) (condition group : String)
    (r : Run) : Moved r (advance p n condition group r).2 := by
  unfold advance
  split
  · split <;> exact Moved.refl r
  simp only
  split
  · exact Moved.refl r
  split
  · exact Moved.refl r
  have hfollow := followEdges_moved n group (outgoingEdges p n condition).length
    (outgoingEdges p n condition) 0 r
  split
  · rename_i e r' h
    rw [h] at hfollow
    exact hfollow
  rename_i r' h
  rw [h] at hfollow
  split
  · exact hfollow
  split
  · exact hfollow
  · exact hfollow.trans (nextReady_moved r')

/-! ## Policy of a node -/

structure ToolMetadata where
  network : Bool := false
  approvalRequired : Bool := false
  plugin : String := ""
  deriving DecidableEq, Repr

/-- What the registry knows about a model provider. -/
structure ProviderMetadata where
  network : Bool := false
  remote : Bool := false
  deriving DecidableEq, Repr

structure ModelBinding where
  provider : String
  model : String
  deriving DecidableEq, Repr

/-- The registered components a pipeline can name. -/
structure Components where
  tools : String → Option ToolMetadata := fun _ => none
  models : String → Option ModelBinding := fun _ => none
  providers : String → Option ProviderMetadata := fun _ => none
  workersAvailable : Bool := true

/-- `Registry::get`. -/
def registered {α : Type} (entry : Option α) : Except Exn α :=
  match entry with
  | some a => .ok a
  | none => .error (Exn.of .notFound "Registration not found")

/-- The context in which the policy sees a node of a run; `worker` is the outcome of resolving the
node's worker, its identifier and whether it is remote. -/
def permissionContext (reg : Components) (worker : Except Exn (String × Bool)) (n : NodeDefinition)
    (r : Run) : Except Exn PolicyContext := do
  let classification ← r.message.metadata.stringOr "classification" "public"
  let c : PolicyContext :=
    { pipelineId := r.pipelineId, nodeId := n.id, resource := n.binding, classification }
  if n.type = "tool" then
    let m ← registered (reg.tools n.binding)
    return { c with network := m.network, approvalRequired := m.approvalRequired }
  else if n.type = "agent" then
    match reg.models n.binding with
    | none => .error (Exn.of .provider "Logical model not configured")
    | some binding =>
      let m ← registered (reg.providers binding.provider)
      return { c with remote := m.remote, network := m.network || m.remote }
  else if n.type = "worker" then
    if reg.workersAvailable then
      let (workerId, remote) ← worker
      return { c with workerNode := true, resource := workerId, remote, network := remote }
    else .error (executionError "Worker manager is unavailable")
  else return c

/-- `permission`: the policy decision about executing a node of a run on its current message. -/
def permission (reg : Components) (engine : PolicyEngine) (worker : Except Exn (String × Bool))
    (n : NodeDefinition) (r : Run) : Except Exn PolicyResult :=
  (permissionContext reg worker n r).map engine.evaluate

variable {reg : Components} {r r' : Run}

/-- The resource that the policy sees and whether its component asks for approval do not depend on
the run. -/
lemma permissionContext_resource {c c' : PolicyContext}
    (h : permissionContext reg worker n r = .ok c) (h' : permissionContext reg worker n r' = .ok c') :
    c.resource = c'.resource ∧ c.approvalRequired = c'.approvalRequired := by
  unfold permissionContext at h h'
  cases hs : r.message.metadata.stringOr "classification" "public" with
  | error e =>
    rw [hs] at h
    cases h
  | ok level =>
  cases hs' : r'.message.metadata.stringOr "classification" "public" with
  | error e =>
    rw [hs'] at h'
    cases h'
  | ok level' =>
  rw [hs] at h
  rw [hs'] at h'
  simp only [bind, Except.bind, pure, Except.pure] at h h'
  by_cases htool : n.type = "tool"
  · rw [if_pos htool] at h h'
    cases ht : registered (reg.tools n.binding) <;> rw [ht] at h h' <;> cases h
    cases h'
    exact ⟨rfl, rfl⟩
  rw [if_neg htool] at h h'
  by_cases hagent : n.type = "agent"
  · rw [if_pos hagent] at h h'
    cases hm : reg.models n.binding with
    | none =>
      rw [hm] at h
      cases h
    | some binding =>
    rw [hm] at h h'
    dsimp only at h h'
    cases hp : registered (reg.providers binding.provider) <;> rw [hp] at h h' <;> cases h
    cases h'
    exact ⟨rfl, rfl⟩
  rw [if_neg hagent] at h h'
  by_cases hworker : n.type = "worker"
  · rw [if_pos hworker] at h h'
    by_cases havailable : reg.workersAvailable
    · rw [if_pos havailable] at h h'
      cases worker <;> cases h
      cases h'
      exact ⟨rfl, rfl⟩
    · rw [if_neg havailable] at h
      cases h
  · rw [if_neg hworker] at h h'
    cases h
    cases h'
    exact ⟨rfl, rfl⟩

variable {engine : PolicyEngine}

/-- The message of the run decides whether a node is denied, not whether it needs an approval. -/
lemma permission_allow
    {policy policy' : PolicyResult} (h : permission reg engine worker n r = .ok policy)
    (hallow : policy.decision = .allow) (h' : permission reg engine worker n r' = .ok policy') :
    policy'.decision ≠ .requireApproval := by
  unfold permission at h h'
  cases hc : permissionContext reg worker n r with
  | error e =>
    rw [hc] at h
    cases h
  | ok c =>
  cases hc' : permissionContext reg worker n r' with
  | error e =>
    rw [hc'] at h'
    cases h'
  | ok c' =>
  rw [hc] at h
  rw [hc'] at h'
  cases h
  cases h'
  obtain ⟨hresource, hrequired⟩ := permissionContext_resource hc hc'
  rw [PolicyEngine.evaluate_decision] at hallow ⊢
  rw [hresource, hrequired] at hallow
  split at hallow
  · cases hallow
  split at hallow
  · cases hallow
  rename_i hnone
  split <;> decide

lemma permission_congr
    (hmessage : r.message = r'.message) (hpipeline : r.pipelineId = r'.pipelineId) :
    permission reg engine worker n r = permission reg engine worker n r' := by
  unfold permission permissionContext
  rw [hmessage, hpipeline]

/-! ## Limits of edges -/

/-- The next traversal does not make a counter wrap. -/
def Run.SmallCounts (r : Run) : Prop := ∀ e : EdgeDefinition, edgeCount e r + 1 < 2 ^ 32

/-- A run with small counters led along `edges` by `advance`, with anything in between that keeps its
counts. -/
inductive Walk : Run → List EdgeDefinition → Prop where
  | start (r : Run) (small : r.SmallCounts) : Walk r []
  | other {r r' : Run} {edges : List EdgeDefinition} (h : Walk r edges)
      (same : r'.edgeVisits = r.edgeVisits) : Walk r' edges
  | advance {r r' : Run} {edges : List EdgeDefinition} {n : NodeDefinition} {more : Bool}
      {condition group : String} (h : Walk r edges) (inner : n.type ≠ "output")
      (step : advance p n condition group r = (.ok more, r')) :
      Walk r' (edges ++ outgoingEdges p n condition)

lemma edgeCount_countEdge {d : EdgeDefinition} (hd : d.maxIterations ≠ 0) (hsmall : r.SmallCounts)
    (e : EdgeDefinition) : edgeCount e (countEdge d r) =
      if d.key = e.key then edgeCount d r + 1 else edgeCount e r := by
  have hcount := hsmall d
  rw [countEdge, if_neg hd, Nat.mod_eq_of_lt hcount, edgeCount]
  simp only [Table.get_put, Keyed.key]
  by_cases hkey : d.key = e.key
  · rw [if_pos hkey, if_pos hkey]
  · rw [if_neg hkey, if_neg hkey, edgeCount]

/-- The counter may be higher: edges between the same nodes share it. -/
structure Counted (e : EdgeDefinition) (edges : List EdgeDefinition) (r : Run) : Prop where
  small : r.SmallCounts
  count : edges.count e ≤ edgeCount e r
  limit : edges.count e ≤ e.maxIterations

section

variable {e : EdgeDefinition} {edges : List EdgeDefinition}

/-- An edge that is followed has been counted, and the counter is within its limit. -/
lemma Counted.countEdge {d : EdgeDefinition} (he : e.maxIterations ≠ 0) (h : Counted e edges r)
    (hd : d.maxIterations + 1 < 2 ^ 32)
    (hlimit : ¬(d.maxIterations ≠ 0 ∧ d.maxIterations < edgeCount d (countEdge d r))) :
    Counted e (edges ++ [d]) (countEdge d r) := by
  by_cases hfree : d.maxIterations = 0
  · have hne : d ≠ e := fun heq => he (heq ▸ hfree)
    rw [Laso.countEdge, if_pos hfree]
    exact ⟨h.small, by simpa [hne] using h.count, by simpa [hne] using h.limit⟩
  have hcount := edgeCount_countEdge hfree h.small
  have hle := Nat.le_of_not_lt (not_and.mp hlimit hfree)
  have hself := hcount d
  rw [if_pos rfl] at hself
  refine ⟨fun e' => ?_, ?_, ?_⟩
  · have hold := h.small e'
    rw [hcount e']
    split <;> omega
  all_goals
    have hold := h.count
    have hbound := h.limit
    rw [List.count_append, List.count_singleton]
    split
    · rename_i heq
      obtain rfl : d = e := by simpa using heq
      omega
  · rw [hcount e]
    split
    · rename_i hkey
      have hshared : edgeCount e r = edgeCount d r := by rw [edgeCount, edgeCount, hkey]
      omega
    · exact hold
  · exact hbound

lemma Counted.followEdges {group : String} {width i : Nat} {u : Unit} {rest : List EdgeDefinition}
    (he : e.maxIterations ≠ 0) (hrest : ∀ d ∈ rest, d.maxIterations + 1 < 2 ^ 32)
    (h : Counted e edges r) (hstep : followEdges n group width i rest r = (.ok u, r')) :
    Counted e (edges ++ rest) r' := by
  induction rest generalizing i r edges with
  | nil =>
    cases hstep
    rwa [List.append_nil]
  | cons d rest ih =>
    simp only [Laso.followEdges] at hstep
    split at hstep
    · cases hstep
    rename_i hlimit
    have hnext := h.countEdge he (hrest d List.mem_cons_self) hlimit
    rw [List.append_cons]
    refine ih (fun d' hd' => hrest d' (List.mem_cons_of_mem _ hd')) ?_ hstep
    exact ⟨hnext.small, hnext.count, hnext.limit⟩

/-- **Limits of edges are kept** however the run is led. -/
theorem edge_followed_le_limit (hp : ∀ d ∈ p.edges, d.maxIterations + 1 < 2 ^ 32)
    (he : e.maxIterations ≠ 0) (h : Walk p r edges) : edges.count e ≤ e.maxIterations := by
  have hcounted : Counted e edges r := by
    induction h with
    | start r small => exact ⟨small, Nat.zero_le _, Nat.zero_le _⟩
    | other _ same ih =>
      obtain ⟨hsmall, hcount, hlimit⟩ := ih
      unfold Run.SmallCounts edgeCount at hsmall
      unfold edgeCount at hcount
      rw [← same] at hsmall hcount
      exact ⟨hsmall, hcount, hlimit⟩
    | advance _ inner step ih =>
    unfold Laso.advance at step
    rw [if_neg inner] at step
    simp only at step
    split at step
    · cases step
    split at step
    · cases step
    split at step
    · cases step
    rename_i hfollow
    have hafter := ih.followEdges he (fun d hd => hp d (List.mem_of_mem_filter hd)) hfollow
    split at step
    · cases step
    split at step
    · cases step
      exact hafter
    · cases step
      unfold nextReady
      split
      · exact hafter
      · exact ⟨hafter.small, hafter.count, hafter.limit⟩
  exact hcounted.limit

end

def loopOnce : PipelineDefinition := { name := "p", nodes := .empty, edges := [⟨"a", "a", "", 1⟩] }

theorem edge_followed_le_limit_once : ∃ r edges, Walk loopOnce r edges ∧
    edges.count ⟨"a", "a", "", 1⟩ = 1 ∧ edges.count ⟨"a", "a", "", 1⟩ ≤ 1 :=
  have h : Walk loopOnce _ _ := .advance (.start { id := "r" } fun e => by simp [edgeCount])
    (by decide) (show advance _ { id := "a", type := "function" } "" "" _ = (.ok true, _) from rfl)
  ⟨_, _, h, rfl, edge_followed_le_limit _ (by decide) (by decide) h⟩

end Laso
