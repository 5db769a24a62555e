import Laso.Core.Numerals
import Laso.Runtime.Operations
import Laso.Sessions.Generations

/-!
# The state providers keep between turns

A provider of an agent or a worker may keep state between the turns of a session. What a node stages
is held in the memory of the executor of its run until the node is completed, is then stored as a
candidate of the run together with the result of the node, and becomes the state of the session when
the run completes; a run that ends otherwise drops its candidates. A new run gets the states of the
session in its snapshot.

`continuationMachine` models these three stages with the attempts of nodes, restarts of executors
and the transactions of the session. What they are for is said by `inUse`, over the runs that have
ended: the state last staged by a completed node in the latest completed run that staged one.
-/

namespace Laso

open List Option Table

/-- State a provider keeps, opaque to everybody else. -/
structure OpaqueContinuation where
  providerId : String
  providerVersion : String
  state : String
  deriving DecidableEq, Repr

instance : Keyed OpaqueContinuation := ⟨OpaqueContinuation.providerId⟩

def maxContinuation : Nat := 64 * 1024

/-- The fields of a state are filled, and its length is within the limit. -/
def OpaqueContinuation.Valid (c : OpaqueContinuation) : Prop :=
  c.providerId ≠ "" ∧ c.providerVersion ≠ "" ∧ c.state ≠ "" ∧ c.state.utf8ByteSize ≤ maxContinuation

namespace Continuations

open SessionDb

/-! ## What states are for -/

/-- A run of a session that is over, with what its completed nodes staged, in their order. -/
structure Ended where
  sessionId : String
  runId : String
  completed : Bool
  staged : List OpaqueContinuation

def lastFor (staged : List OpaqueContinuation) (provider : String) : Option OpaqueContinuation :=
  (staged.filter fun c => c.providerId = provider).getLast?

/-- The state of a provider in a session: the last one staged in the latest completed run that
staged one. -/
def inUse (past : List Ended) (sessionId provider : String) : Option OpaqueContinuation :=
  ((past.filter fun e => e.sessionId = sessionId ∧ e.completed).filterMap fun e =>
    lastFor e.staged provider).getLast?

/-! ## Nodes -/

/-- Nodes of a pipeline by what they do with the state of a provider: agents whose provider keeps
none, agents whose provider keeps some, workers (which always do), agents and workers that cannot
take part in a session, and all others. Providers are given with their version. -/
inductive SessionNode where
  | stateless
  | agent (provider version : String)
  | worker (provider version : String)
  | unsupported (message : String)
  | other
  deriving DecidableEq, Repr

def SessionNode.provider : SessionNode → Option (String × String)
  | .agent provider version | .worker provider version => some (provider, version)
  | _ => none

def SessionNode.stores : SessionNode → Bool
  | .other => false
  | _ => true

/-- The nodes of a pipeline; a valid one has at most 256. -/
structure SessionPipeline where
  nodes : List (String × SessionNode)
  small : nodes.length ≤ 256

namespace SessionPipeline

def node (p : SessionPipeline) (id : String) : Option SessionNode :=
  (p.nodes.find? fun n => n.1 = id).map Prod.snd

def providers (p : SessionPipeline) : List String :=
  p.nodes.filterMap fun n => n.2.provider.map Prod.fst

end SessionPipeline

/-! ## The three stages -/

/-- `stage_provider_continuation`. -/
def stageProviderContinuation (byProvider : Table OpaqueContinuation) (c : OpaqueContinuation) :
    Except Error (Table OpaqueContinuation) := do
  require (c.providerId ≠ "" ∧ c.providerId.utf8ByteSize ≤ 256 ∧ c.providerVersion ≠ "" ∧
    c.providerVersion.utf8ByteSize ≤ 128 ∧ c.state ≠ "" ∧ c.state.utf8ByteSize ≤ maxContinuation)
    ⟨.provider, "Provider returned invalid continuation state"⟩
  return byProvider.put c

/-- `session_continuation_id`. -/
def sessionContinuationId (sessionId providerId : String) : String :=
  "current:" ++ withLength sessionId providerId

/-- `run_continuation_candidate_id`. -/
def runContinuationCandidateId (runId providerId : String) : String :=
  "candidate:" ++ withLength runId providerId

def candidate (runId sessionId turnId : String) (c : OpaqueContinuation) : SessionContinuation where
  id := runContinuationCandidateId runId c.providerId
  scope := .candidate
  runId := runId
  sessionId := sessionId
  turnId := turnId
  providerId := c.providerId
  providerVersion := c.providerVersion
  state := c.state

/-- `collect` of a terminal checkpoint: a candidate takes the place of an earlier one of its
provider. -/
def collect (r : Run) (candidates : List SessionContinuation) (c : SessionContinuation) :
    Except Error (List SessionContinuation) :=
  if c.scope ≠ .candidate then .ok candidates
  else do
    require (c.sessionId = r.sessionId ∧ c.runId = r.id ∧ c.turnId = r.sessionTurnId)
      ⟨.storage, "Stored provider continuation is invalid"⟩
    require (c.providerId ≠ "" ∧ c.providerVersion ≠ "" ∧ c.state ≠ "" ∧
      c.state.utf8ByteSize ≤ maxContinuation) ⟨.storage, "Stored provider continuation is invalid"⟩
    return upsert SessionContinuation.providerId candidates c

def promoted (r : Run) (c : SessionContinuation) : SessionContinuation :=
  { c with
    id := sessionContinuationId r.sessionId c.providerId, scope := .current, runId := r.sessionId
    sourceRunId := r.id }

def discarded (r : Run) (c : SessionContinuation) : SessionContinuation :=
  { c with id := runContinuationCandidateId r.id c.providerId, scope := .discarded, state := "" }

/-- What a terminal checkpoint writes for its candidates. -/
def settled (r : Run) (candidates : List SessionContinuation) : List SessionContinuation :=
  candidates.flatMap fun c =>
    if r.state = .completed then [promoted r c, discarded r c] else [discarded r c]

variable (db : SessionDb)

def withStoredRequest (r : Run) : Run :=
  { r with
    cancellationRequested := r.cancellationRequested ||
      (db.core.runs.get r.id).any fun stored => stored.cancellationRequested }

variable (codec : SessionCodec)

/-- `checkpoint` of a session run: `records` and `candidates` are those of the step. -/
def checkpoint (coordination : Bool) (db : SessionDb) (now : Nat) (r : Run)
    (type : String) (records : List Record) (candidates : List SessionContinuation)
    (ids : Nat → String) : Except Error SessionDb :=
  let written := withStoredRequest db r
  let final : List SessionRecord :=
    [.record (.run written), .record (.event (checkpointEvent written type records))]
  if r.sessionId ≠ "" ∧ terminal r.state then do
    let stored := (db.continuations.rows.filter fun c => c.runId = r.id).take 10000
    let collected ← (stored ++ candidates).foldlM (collect r) []
    db.commitSessionRun codec now
      (records.map .record ++ (settled r collected).map .continuation ++ final) r.ownerInstanceId
      r.fencingToken ids
  else if coordination ∧ r.ownerInstanceId ≠ "" then do
    require (r.fencingToken ≠ 0) ⟨.validation, "Invalid run ownership proof"⟩
    db.requireLease now ("run:" ++ r.id) r.ownerInstanceId r.fencingToken
      "Run ownership is no longer valid"
    db.writeRecords (records.map .record ++ candidates.map .continuation ++ final)
  else db.writeRecords (records.map .record ++ candidates.map .continuation ++ final)

/-- `read` of a stored continuation. -/
def readContinuation (id : String) (scope : ContinuationScope)
    (runId sessionId providerId : String) : Except Error (Option OpaqueContinuation) :=
  match db.continuations.get id with
  | none => .ok none
  | some c => do
    require (c.scope = scope ∧ c.sessionId = sessionId ∧ c.providerId = providerId ∧
      (scope = .candidate → c.runId = runId)) ⟨.storage, "Stored provider continuation is invalid"⟩
    require (c.providerVersion ≠ "" ∧ c.state ≠ "" ∧ c.state.utf8ByteSize ≤ maxContinuation)
      ⟨.storage, "Stored provider continuation is invalid"⟩
    return some ⟨providerId, c.providerVersion, c.state⟩

/-- `load_provider_continuation`. Runs that were bound before snapshots were introduced have none
and read the state of the session. -/
def loadProviderContinuation (r : Run) (snapshot : Option RunContextSnapshot)
    (providerId : String) : Except Error (Option OpaqueContinuation) := do
  match ← readContinuation db (runContinuationCandidateId r.id providerId) .candidate r.id
    r.sessionId providerId with
  | some c => return some c
  | none =>
    match snapshot with
    | none =>
      readContinuation db (sessionContinuationId r.sessionId providerId) .current r.id r.sessionId
        providerId
    | some snapshot =>
      match snapshot.providerContinuations.lookup providerId with
      | none => return none
      | some (version, state) =>
        require (version ≠ "" ∧ state ≠ "" ∧ state.utf8ByteSize ≤ maxContinuation)
          ⟨.storage, "Stored provider continuation is invalid"⟩
        return some ⟨providerId, version, state⟩

/-! ## Attempts of nodes -/

/-- What agents and workers whose provider keeps state have in common: the state is loaded, the
provider answers with a new one, which is staged. Returns what was staged as well. -/
def converse (r : Run) (incompatible invalid provider version : String)
    (generate : Option OpaqueContinuation → Option OpaqueContinuation)
    (byProvider : Table OpaqueContinuation) :
    Except Error (List OpaqueContinuation × Table OpaqueContinuation) := do
  let prior ← loadProviderContinuation db r (db.snapshots.get r.id) provider
  require (∀ c ∈ prior, c.providerId = provider ∧ c.providerVersion = version)
    ⟨.provider, incompatible⟩
  match generate prior with
  | none => .error ⟨.provider, invalid⟩
  | some c =>
    require (c.state ≠ "" ∧ c.state.utf8ByteSize ≤ maxContinuation ∧ c.providerId = provider ∧
      c.providerVersion = version) ⟨.provider, invalid⟩
    let byProvider ← stageProviderContinuation byProvider c
    return ([c], byProvider)

/-- `execute` of a node of a session run, as far as the state of providers is concerned. -/
def executeNode (r : Run) (node : SessionNode)
    (generate : Option OpaqueContinuation → Option OpaqueContinuation)
    (byProvider : Table OpaqueContinuation) :
    Except Error (List OpaqueContinuation × Table OpaqueContinuation) :=
  match node with
  | .stateless => do
    require (generate none = none)
      ⟨.provider, "Stateless provider returned unexpected continuation state"⟩
    return ([], byProvider)
  | .agent provider version =>
    converse db r "Stored provider continuation is incompatible"
      "Provider returned invalid continuation state" provider version generate byProvider
  | .worker provider version =>
    converse db r "Stored worker continuation is incompatible"
      "Worker returned invalid session continuation state" provider version generate byProvider
  | .unsupported message => .error ⟨.provider, message⟩
  | .other => .ok ([], byProvider)

/-! ## Any sequence of runs -/

/-- The memory of a thread that executes a run: the node whose attempts it makes, what is staged,
and what the last attempt has staged if it succeeded. -/
structure Executor where
  runId : String := ""
  node : Option String := none
  byProvider : Table OpaqueContinuation := empty
  returned : Option (List OpaqueContinuation) := none

/-- The tables and the threads. What the completed nodes of each run staged, and the runs that have
ended, are recorded beside them. -/
structure System where
  db : SessionDb := {}
  executors : String → Executor := fun _ => {}
  staged : String → List OpaqueContinuation := fun _ => []
  past : List Ended := []

/-- What clients, dispatchers and threads do. -/
inductive Label where
  | session (call : SessionCall)
  /-- A thread starts or resumes a run. -/
  | execute (thread runId : String)
  /-- An attempt of a node. -/
  | attempt (thread node : String) (r : Run)
      (generate : Option OpaqueContinuation → Option OpaqueContinuation)
  /-- The checkpoint of a node whose last attempt succeeded. -/
  | complete (thread : String) (r : Run) (type : String) (now : Nat) (records : List Record)
      (ids : Nat → String)
  /-- Any other checkpoint of a run. -/
  | checkpoint (r : Run) (type : String) (now : Nat) (records : List Record) (ids : Nat → String)

def Label.Completes : Label → Prop
  | .complete _ r _ _ _ _ | .checkpoint r _ _ _ _ => r.state = .completed
  | _ => False

/-- The transactions of clients and dispatchers. Identifiers of runs and sessions are drawn at
random; the completion of a run is a checkpoint. -/
def clientCall (db : SessionDb) : SessionCall → Option SessionDb
  | .complete _ _ _ _ _ => none
  | .other core generations _ _ => some { db with core, generations }
  | .create id pipelineId =>
    if (db.snapshots.get id).isSome then none else sessionMachine codec db (.create id pipelineId)
  | .bind now id turnId r runEvent owner token ids =>
    if (db.sessions.get r.id).isSome then none
    else sessionMachine codec db (.bind now id turnId r runEvent owner token ids)
  | call => sessionMachine codec db call

/-- The run was bound to a turn of a session, and is the only one its checkpoint writes. -/
def Bound (r : Run) (records : List Record) : Prop :=
  ((db.snapshots.get r.id).any fun snap =>
    snap.sessionId = r.sessionId ∧ snap.sessionTurnId = r.sessionTurnId) ∧
    Db.runRecord records = none

instance (db : SessionDb) (r : Run) (records : List Record) : Decidable (Bound db r records) :=
  inferInstanceAs (Decidable (_ ∧ _))

def Running (runId turnId : String) : Prop :=
  ((db.turns.get turnId).any fun t => t.state = .running ∧ t.runId = runId)

instance (db : SessionDb) (runId turnId : String) : Decidable (Running db runId turnId) :=
  inferInstanceAs (Decidable (_ = _))

/-- The outcome of a checkpoint; the first terminal one ends the run. -/
def System.settle (s : System) (r : Run) (new : List OpaqueContinuation) :
    Except Error SessionDb → System
  | .error _ => s
  | .ok db =>
    let staged := s.staged r.id ++ new
    { s with
      db
      staged := Function.update s.staged r.id staged
      past :=
        if terminal r.state ∧ Running s.db r.id r.sessionTurnId then
          s.past ++ [⟨r.sessionId, r.id, r.state = .completed, staged⟩]
        else s.past }

/-- Clients, dispatchers and any number of threads that execute runs. A thread makes attempts of one
node until it completes it. -/
def continuationMachine (coordination : Bool)
    (pipelineOf : String → SessionPipeline) : Machine System Label := fun s label =>
  match label with
  | .session call => (clientCall codec s.db call).map fun db => { s with db }
  | .execute thread runId =>
    some { s with executors := Function.update s.executors thread { runId } }
  | .attempt thread id r generate =>
    let e := s.executors thread
    match (pipelineOf e.runId).node id with
    | none => none
    | some node =>
      if r.id = e.runId ∧ Bound s.db r [] ∧ (e.node = none ∨ e.node = some id) then
        let e' : Executor := match executeNode s.db r node generate e.byProvider with
          | .ok (returned, byProvider) =>
            { e with node := some id, byProvider, returned := some returned }
          | .error _ => { e with node := some id, returned := none }
        some { s with executors := Function.update s.executors thread e' }
      else none
  | .complete thread r type now records ids =>
    let e := s.executors thread
    match e.node.bind (pipelineOf e.runId).node, e.returned with
    | some node, some returned =>
      if r.id = e.runId ∧ Bound s.db r records then
        let candidates := if node.stores then
            e.byProvider.rows.map (candidate r.id r.sessionId r.sessionTurnId)
          else []
        let byProvider := if node.stores then empty else e.byProvider
        let executors := Function.update s.executors thread { runId := e.runId, byProvider }
        some ({ s with executors }.settle r returned
          (checkpoint codec coordination s.db now r type records candidates ids))
      else none
    | _, _ => none
  | .checkpoint r type now records ids =>
    if Bound s.db r records then
      some (s.settle r [] (checkpoint codec coordination s.db now r type records [] ids))
    else none

/-! ## The last state of a provider -/

section Abstract

variable {l l' : List OpaqueContinuation} {c : OpaqueContinuation} {p sid : String}
  {past : List Ended}

lemma lastFor_append : lastFor (l ++ l') p = (lastFor l' p).or (lastFor l p) := by
  simp [lastFor, getLast?_append]

lemma mem_of_lastFor (h : lastFor l p = some c) : c ∈ l ∧ c.providerId = p := by
  obtain ⟨hmem, hp⟩ := mem_filter.mp (mem_of_getLast? h)
  exact ⟨hmem, of_decide_eq_true hp⟩

lemma inUse_concat (e : Ended) : inUse (past ++ [e]) sid p =
      if e.sessionId = sid ∧ e.completed then (lastFor e.staged p).or (inUse past sid p)
      else inUse past sid p := by
  unfold inUse
  rw [filter_append, filterMap_append, getLast?_append]
  by_cases h : e.sessionId = sid ∧ e.completed
  · rw [if_pos h, filter_cons_of_pos (by simpa using h), filter_nil]
    cases hl : lastFor e.staged p <;> simp [hl]
  · rw [if_neg h, filter_cons_of_neg (by simpa using h), filter_nil]
    rfl

end Abstract

/-! ## Identifiers -/

section Identifiers

variable {a b p q : String}

lemma sessionContinuationId_inj (h : sessionContinuationId a p = sessionContinuationId b q) :
    a = b ∧ p = q :=
  withLength_inj (eq_of_append_of_size h rfl).2

lemma runContinuationCandidateId_inj
    (h : runContinuationCandidateId a p = runContinuationCandidateId b q) : a = b ∧ p = q :=
  withLength_inj (eq_of_append_of_size h rfl).2

lemma sessionContinuationId_ne : sessionContinuationId a p ≠ runContinuationCandidateId b q := by
  intro h
  have hchars := congrArg String.toList h
  simp [sessionContinuationId, runContinuationCandidateId] at hchars

end Identifiers

/-! ## What a checkpoint writes -/

variable {codec : SessionCodec} {coordination : Bool} {db db' : SessionDb} {r : Run} {now : Nat}
  {type : String} {records : List Record} {ids : Nat → String}

/-- The continuations among the records of a checkpoint. -/
def continuationsIn : List SessionRecord → List SessionContinuation :=
  List.filterMap fun
    | .continuation c => some c
    | .record _ => none

variable {written : List SessionRecord} {k : StepKind}

@[simp] lemma continuationsIn_records (l : List Record) :
    continuationsIn (l.map .record) = [] := by
  simp [continuationsIn, filterMap_map]

@[simp] lemma continuationsIn_continuations (l : List SessionContinuation) :
    continuationsIn (l.map .continuation) = l := by
  simp [continuationsIn, filterMap_map]

lemma writeRecords_continuations (h : db.writeRecords written = .ok db') :
    db'.continuations = (continuationsIn written).foldl put db.continuations := by
  induction written generalizing db with
  | nil =>
    cases h
    rfl
  | cons record rest ih =>
    cases record with
    | record r =>
      obtain ⟨core, -, h⟩ := bind_eq_ok.mp h
      have hrest := ih h
      exact hrest
    | continuation c =>
      obtain ⟨_, -, h⟩ := bind_eq_ok.mp h
      have hrest := ih h
      exact hrest

lemma runOf_records (hrecords : Db.runRecord records = none) (cs : List SessionContinuation)
    (r : Run) (rest : List SessionRecord) :
    runOf (records.map .record ++ cs.map .continuation ++ .record (.run r) :: rest) = some r := by
  have hcs : runOf (cs.map .continuation ++ .record (.run r) :: rest) = some r := by
    induction cs with
    | nil => rfl
    | cons c cs ih => exact ih
  induction records with
  | nil => exact hcs
  | cons record records ih =>
    cases record <;> first | exact ih hrecords | cases hrecords

lemma sessionOutcome_ne_running (state : RunState) : sessionOutcome state ≠ .running := by
  cases state <;> nofun

/-- A successful completion found the turn settled with this outcome, or settles the running turn
of this run. -/
lemma commitSessionRun_cases {owner : String} {token : Nat}
    (h : db.commitSessionRun codec now written owner token ids = .ok db')
    (hrun : runOf written = some r) :
    db' = db ∧ ¬Running db r.id r.sessionTurnId ∨
      Running db r.id r.sessionTurnId ∧ ¬Running db' r.id r.sessionTurnId ∧
        (db.sessions.get r.sessionId).isSome ∧
        db'.continuations = (continuationsIn written).foldl put db.continuations := by
  simp only [commitSessionRun, bind_eq_ok] at h
  obtain ⟨_, -, h⟩ := h
  simp only [hrun, bind_eq_ok, lockSession_eq_ok, lockTurn_eq_ok] at h
  obtain ⟨_, -, _, -, s, hs, t, ht, h⟩ := h
  split at h
  · rename_i hsettled
    cases h
    refine .inl ⟨rfl, fun hrunning => ?_⟩
    simp only [Running, ht, any_some, decide_eq_true_eq] at hrunning
    exact sessionOutcome_ne_running r.state (hsettled.1.symm.trans hrunning.1)
  simp only [bind_eq_ok, require_eq_ok, updateTurn_eq_ok, insertEvent_eq_ok,
    updateSession_eq_ok] at h
  obtain ⟨_, hcurrent, db₁, hrecords, _, ⟨-, rfl⟩, _, ⟨-, rfl⟩, ⟨s', db₂⟩, hclose, -, rfl⟩ := h
  have hafter : db₂.turns = db₁.turns.put (t.complete r) ∧
      db₂.continuations = db₁.continuations := by
    unfold closeIfClosing at hclose
    split at hclose
    · obtain ⟨_, -, -, -, rfl, -⟩ := appendEvent_eq_ok hclose
      exact ⟨rfl, rfl⟩
    · cases hclose
      exact ⟨rfl, rfl⟩
  refine .inr ⟨?_, ?_, by simp [hs], hafter.2.trans (writeRecords_continuations hrecords)⟩
  · simp [Running, ht, hcurrent]
  intro hrunning
  have hget : db₂.turns.get r.sessionTurnId = some (t.complete r) := by
    rw [hafter.1, ← (key_of_get ht)]
    exact get_put_self _ _
  simp only [Running, hget, any_some, decide_eq_true_eq] at hrunning
  exact sessionOutcome_ne_running r.state hrunning.1

/-! ## Turns that run -/

lemma running_iff {runId turnId : String} :
    Running db runId turnId ↔
      ∃ t, db.turns.get turnId = some t ∧ t.state = .running ∧ t.runId = runId := by
  simp [Running, Option.any_eq_true]

lemma running_of_step {v v' : SessionView} {u : SessionTurn}
    (hstep : SessionStep k v v') (hk : k ≠ .bind) (hu : u ∈ v'.turns) (hrunning : u.state = .running) :
    ∃ t ∈ v.turns, t.state = .running ∧ t.id = u.id ∧ t.runId = u.runId := by
  -- a turn that is replaced by one that does not run is not the one in question
  have hreplace : ∀ t', t'.state ≠ .running → v'.turns = v.turns.map (replaceTurn t') →
      ∃ t ∈ v.turns, t.state = .running ∧ t.id = u.id ∧ t.runId = u.runId := by
    intro t' ht' hturns
    rw [hturns] at hu
    obtain ⟨t, ht, rfl⟩ := mem_map.mp hu
    unfold replaceTurn at hrunning ⊢
    split at hrunning
    · exact absurd hrunning ht'
    rename_i hne
    rw [if_neg hne]
    exact ⟨t, ht, hrunning, rfl, rfl⟩
  cases hstep with
  | submit t e appends type opened fresh queued number turns session =>
    rw [turns] at hu
    rcases mem_append.mp hu with hu | hu
    · exact ⟨u, hu, hrunning, rfl, rfl⟩
    · rw [mem_singleton.mp hu, queued.1] at hrunning
      cases hrunning
  | claim t owner fence e appends type opened mem first unbound turns session =>
    exact hreplace _ (by simp [SessionTurn.claim]) turns
  | bind => exact absurd rfl hk
  | complete t r e es appends type mem active running turns session closed =>
    exact hreplace _ (sessionOutcome_ne_running r.state) turns
  | closing es appends types opened run turns session =>
    rw [turns] at hu
    obtain ⟨t, ht, rfl⟩ := mem_map.mp hu
    split at hrunning
    · cases hrunning
    rename_i hqueued
    rw [if_neg hqueued]
    split at hrunning <;> rename_i hid
    · rw [if_pos hid]
      exact ⟨t, ht, hrunning, rfl, rfl⟩
    · rw [if_neg hid]
      exact ⟨t, ht, hrunning, rfl, rfl⟩
  | close es last appends types type opened idle turns session =>
  rw [turns] at hu
  obtain ⟨t, ht, rfl⟩ := mem_map.mp hu
  split at hrunning
  · cases hrunning
  rename_i hpending
  rw [if_neg hpending]
  exact ⟨t, ht, hrunning, rfl, rfl⟩

lemma running_of_effect {runId turnId : String} (heffect : SessionDb.Effect k db db')
    (hk : k ≠ .bind) (h : Running db' runId turnId) : Running db runId turnId := by
  obtain ⟨u, hu, hrunning, hrun⟩ := running_iff.mp h
  have hid : u.id = turnId := key_of_get hu
  have hmem : u ∈ db'.turnsOf u.sessionId := mem_turnsOf.mpr ⟨hid.symm ▸ hu, rfl⟩
  -- the turn is in the session that did the step, or in one that is the same
  have hbefore : ∃ t ∈ db.turns.rows, t.state = .running ∧ t.id = u.id ∧ t.runId = u.runId := by
    rcases heffect with hsame | ⟨v, v', hstepped⟩
    · rw [(hsame _).turns] at hmem
      exact ⟨u, mem_of_mem_filter hmem, hrunning, rfl, rfl⟩
    by_cases hsession : u.sessionId = v.session.id
    · obtain ⟨s, hs, rfl⟩ := map_eq_some_iff.mp hstepped.before
      obtain ⟨s', hs', rfl⟩ := map_eq_some_iff.mp hstepped.after
      obtain ⟨t, ht, hfound⟩ := running_of_step hstepped.step hk
        (show u ∈ db'.turnsOf s'.id from (hsession.trans (id_of_get hs').symm) ▸ hmem) hrunning
      exact ⟨t, mem_of_mem_filter ht, hfound⟩
    · rw [(hstepped.others _ hsession).turns] at hmem
      exact ⟨u, mem_of_mem_filter hmem, hrunning, rfl, rfl⟩
  obtain ⟨t, ht, hstate, htid, htrun⟩ := hbefore
  refine running_iff.mpr ⟨t, ?_, hstate, htrun.trans hrun⟩
  rw [← hid, ← htid]
  exact mem_rows_iff.mp ht

lemma sessions_of_effect (heffect : SessionDb.Effect k db db') (id : String) :
    (db'.sessions.get id).isSome = (db.sessions.get id).isSome := by
  rcases heffect with hsame | ⟨v, v', hstepped⟩
  · rw [(hsame id).session]
  by_cases hid : id = v.session.id
  · obtain ⟨s, hs, -⟩ := map_eq_some_iff.mp hstepped.before
    obtain ⟨s', hs', -⟩ := map_eq_some_iff.mp hstepped.after
    rw [hid, hs, hs']
    rfl
  · rw [(hstepped.others id hid).session]

/-! ## Snapshots -/

def content (c : SessionContinuation) : OpaqueContinuation :=
  ⟨c.providerId, c.providerVersion, c.state⟩

structure SnapshotOk (snap : RunContextSnapshot) : Prop where
  session : snap.sessionId ≠ ""
  valid : ∀ p version state, snap.providerContinuations.lookup p = some (version, state) →
    OpaqueContinuation.Valid ⟨p, version, state⟩

lemma bind_captures {token : Nat} {sid turnId owner : String} {runEvent : Event}
    (h : db.bindSessionTurnRun codec now sid turnId r runEvent owner token ids = .ok (true, db')) :
    ∃ snap, db.snapshots.get r.id = none ∧ snap.runId = r.id ∧ snap.sessionId = sid ∧ sid ≠ "" ∧
      snap.providerContinuations = db.currentContinuations sid ∧
      db'.snapshots = db.snapshots.put snap ∧ db'.continuations = db.continuations := by
  simp only [bindSessionTurnRun, bind_eq_ok, require_eq_ok, lockTurn_eq_ok] at h
  obtain ⟨_, hvalid, _, -, s, -, t, -, _, hsession, h⟩ := h
  split at h
  · cases h
  simp only [bind_eq_ok, require_eq_ok, pure_eq_ok, insertSnapshot, updateTurn_eq_ok,
    insertEvent_eq_ok, updateSession_eq_ok, Prod.mk.injEq, isNone_iff_eq_none] at h
  obtain ⟨_, -, core, -, snap, hsnapshot, _, ⟨_, hfresh, rfl⟩, _, ⟨-, rfl⟩, _, ⟨-, rfl⟩, _, ⟨-, rfl⟩,
    -, rfl⟩ := h
  have hfields : snap.runId = r.id ∧ snap.sessionId = t.sessionId ∧
      snap.providerContinuations = db.currentContinuations t.sessionId := by
    unfold SessionDb.snapshot at hsnapshot
    split at hsnapshot
    · cases hsnapshot
      exact ⟨rfl, rfl, rfl⟩
    split at hsnapshot
    · cases hsnapshot
    · cases hsnapshot
      exact ⟨rfl, rfl, rfl⟩
  obtain ⟨hrun, hsid, hstates⟩ := hfields
  refine ⟨snap, hrun ▸ hfresh, hrun, hsid.trans hsession, hvalid.1, hsession ▸ hstates, rfl, rfl⟩

end Continuations

end Laso
