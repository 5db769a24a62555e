import Laso.Core.Program
import Laso.Runtime.Graph
import Laso.Runtime.Storage

/-!
# What the runtime asks of its surroundings

`Req` lists the calls the runtime makes to anything outside the function that makes them: the
store, the coordination tables, the memory it shares with the other coroutines of its process
(`Proc`), and the components whose behaviour the runtime does not determine (node bodies, schemas,
clocks). `perform` says what one call does to the world. Where the answer is not determined by the
world, it is taken from an `Oracle`, which also decides whether a call to the database fails.
-/

namespace Laso

open Table

/-- What a node body returns: the next message and the routing condition. -/
structure NodeResult where
  message : Message := {}
  condition : String := ""

/-- Progress of a parallel group whose branches run in one process. -/
structure ParallelState where
  id : String
  runId : String
  outputs : List (Option Message)
  steps : Nat
  completed : Nat := 0
  failed : Bool := false
  error : String := ""
  code : ErrorCode := .execution
  stop : Bool := false

instance : Keyed ParallelState := ⟨ParallelState.id⟩

/-- An entry of `active_`. -/
structure ActiveRun where
  id : String
  stop : Bool := false
  ownershipLost : Bool := false
  lease : Option LeaseRecord := none
  deriving DecidableEq, Repr

instance : Keyed ActiveRun := ⟨ActiveRun.id⟩

@[simp] lemma ActiveRun.key_eq (a : ActiveRun) : Keyed.key a = a.id := rfl

/-- An entry of `active_nodes_`: distributed work that executes here, with the leases it is executed
under. -/
structure ActiveNode where
  id : String
  stop : Bool := false
  workLease : LeaseRecord
  slots : List LeaseRecord := []
  deriving DecidableEq, Repr

instance : Keyed ActiveNode := ⟨ActiveNode.id⟩

inductive MaintenanceMode where
  | active | draining | maintenance
  deriving DecidableEq, Repr

structure Proc where
  active : Table ActiveRun := empty
  activeNodes : Table ActiveNode := empty
  parallels : Table ParallelState := empty
  stopping : Bool := false
  mode : MaintenanceMode := .active

/-- A branch to be executed: the token, the group it belongs to and, for distributed work, the
lease, the work and the attempt it is executed under. -/
structure BranchJob where
  pipeline : PipelineDefinition
  resolved : List (String × String)
  token : ExecutionToken
  group : String
  depth : Nat
  sessionId : String
  work : Option (LeaseRecord × String × String) := none

/-- Coroutines started by a call. Distributed work comes with the lease it is claimed under and the
leases of the capacity slots it occupies. -/
inductive Spawn where
  | executor (r : Run)
  | branch (job : BranchJob)
  | work (work : NodeWork) (lease : LeaseRecord) (slots : List LeaseRecord)

/-- Identifiers are drawn from a source that never repeats itself. -/
structure UuidSource where
  draw : Nat → String
  draw_injective : Function.Injective draw
  draw_ne_empty : ∀ n, draw n ≠ ""

/-- The identifiers `u`, `uu`, `uuu` and so on. -/
def sampleUuids : UuidSource where
  draw n := String.ofList (List.replicate (n + 1) 'u')
  draw_injective a b h := by simpa using congrArg String.length h
  draw_ne_empty n h := by simpa using congrArg String.length h

/-- The configuration shared by all instances, with the registered pipelines and components. -/
structure Config where
  coordination : Bool
  maxRuns : Nat := 16
  maxPendingRuns : Nat := 1024
  maxNodes : Nat := 64
  maxNodesPerRun : Nat := 16
  maxSubpipelineDepth : Nat := 16
  claimBatchSize : Nat := 8
  leaseTtlMs : Nat := 30000
  parse : String → Except Exn PipelineDefinition
  resolvePipeline : String → Except Exn PipelineDefinition
  components : Components := {}
  policy : PolicyEngine := {}
  uuids : UuidSource

/-- A pipeline with one node between its input and its output. -/
def samplePipeline (node : NodeDefinition) : PipelineDefinition where
  name := "sample"
  nodes := ((empty.put { id := "input", type := "input" }).put node).put
    { id := "output", type := "output" }
  edges := [⟨"input", node.id, "", 0⟩, ⟨node.id, "output", "", 0⟩]

/-- A pipeline that forks into branches of one node each. -/
def forkPipeline (branches : List NodeDefinition) : PipelineDefinition where
  name := "fork"
  nodes := branches.foldl put ((((empty.put { id := "input", type := "input" }).put
    { id := "fork", type := "parallel", join := "join" }).put { id := "join", type := "join" }).put
    { id := "output", type := "output" })
  edges := [⟨"input", "fork", "", 0⟩] ++ branches.map (fun n => ⟨"fork", n.id, "", 0⟩) ++
    branches.map (fun n => ⟨n.id, "join", "", 0⟩) ++ [⟨"join", "output", "", 0⟩]

def twoFunctions : PipelineDefinition :=
  forkPipeline [{ id := "left", type := "function" }, { id := "right", type := "function" }]

/-- Several instances without rules of policy that execute one pipeline. -/
def pipelineConfig (p : PipelineDefinition) : Config where
  coordination := true
  parse _ := .ok p
  resolvePipeline _ := .ok p
  uuids := sampleUuids

def sampleConfig (node : NodeDefinition) : Config := pipelineConfig (samplePipeline node)

/-- Which stop request a deadline check observes. -/
inductive Scope where
  | run (id : String)
  | branch (id group : String)
  | work (id group : String)

inductive External where
  /-- Size limits and input schema of a new run. -/
  | admission
  /-- Loading the session context of a node. -/
  | sessionContext
  /-- Looking a component up and building the node. -/
  | makeNode (n : NodeDefinition)
  /-- The deadline of an attempt, from the metadata of its component. -/
  | deadline (n : NodeDefinition)
  /-- Validating a payload against a schema and the size limit. -/
  | schema (name : String) (payload : Json)
  /-- Moving workspace files to the artifact store. -/
  | artifacts (m : Message)
  /-- Asking whether some worker can execute distributed work. -/
  | canExecute (worker capability : String)

/-- Calls of the runtime. `getRun`, `adoptRun` and `peekRun` are the same read of the store, as are
`listRuns` and `scanRuns`: a copy obtained by `getRun` or `scanRuns` may be written back later, the
one an executor starts from is obtained by `adoptRun`, and those of `peekRun` and `listRuns` are
only looked at. `collectWork` is the read of `listNodeWork` with which an executor collects the
results of a group. `startJob` asks whether the node has handed a job to a worker. -/
inductive Req where
  | getRun (id : String)
  | adoptRun (id : String)
  | peekRun (id : String)
  | readCancellation (id : String)
  | listRuns
  | scanRuns
  | listNodeWork (runId : String)
  | collectWork (runId : String)
  | scanNodeWork
  | getNodeWork (id : String)
  | getAttempt (id : String)
  | getApproval (id : String)
  | listApprovals (runId : String)
  | listAttempts (runId : String)
  | commit (records : List Record)
  | commitOwned (records : List Record) (key owner : String) (token : Nat)
  | commitSessionRun (records : List Record) (owner : String) (token : Nat)
  | bindSessionTurnRun (r : Run)
  | requestCancellation (id : String)
  | acquire (key : String)
  | release (lease : LeaseRecord)
  | requireCurrent (lease : LeaseRecord)
  | process
  | requestStop (id : String)
  | requestNodeStop (id : String)
  | loseOwnership (id : String)
  | eraseActive (id : String)
  | schedule (r : Run) (lease : Option LeaseRecord)
  | scheduleWork (work : NodeWork) (lease : LeaseRecord) (slots : List LeaseRecord)
  | eraseActiveNode (id : String)
  | openGroup (group runId : String) (width steps : Nat)
  | spawnBranches (jobs : List BranchJob)
  | parallelState (group : String)
  | branchStep (group : String) (limit : Nat)
  | branchArrive (group : String) (index : Nat) (m : Message)
  | branchFail (group message : String) (code : ErrorCode)
  | uuid
  | check (scope : Scope)
  | external (what : External)
  | resolveWorker (n : NodeDefinition)
  | permission (n : NodeDefinition) (r : Run)
  | resolvePipeline (r : Run) (n : NodeDefinition) (name : String)
  | startJob (n : NodeDefinition)
  | workerJob (id : String)
  | nodeExecute (r : Run) (n : NodeDefinition) (attempt : Nat)
  | halt

def Req.Resp : Req → Type
  | .getRun _ => Except Error Run
  | .adoptRun _ => Except Error Run
  | .peekRun _ => Except Error Run
  | .readCancellation _ => Except Error Bool
  | .listRuns => Except Error (List Run)
  | .scanRuns => Except Error (List Run)
  | .listNodeWork _ => Except Error (List NodeWork)
  | .collectWork _ => Except Error (List NodeWork)
  | .scanNodeWork => Except Error (List NodeWork)
  | .getNodeWork _ => Except Error NodeWork
  | .getAttempt _ => Except Error NodeExecution
  | .getApproval _ => Except Error Approval
  | .listApprovals _ => Except Error (List Approval)
  | .listAttempts _ => Except Error (List NodeExecution)
  | .commit _ => Except Error Nat
  | .commitOwned _ _ _ _ => Except Error Nat
  | .commitSessionRun _ _ _ => Except Error Nat
  | .bindSessionTurnRun _ => Except Error (Option Nat)
  | .requestCancellation _ => Except Error Unit
  | .acquire _ => Except Error (Option LeaseRecord)
  | .release _ => Except Error Bool
  | .requireCurrent _ => Except Error Unit
  | .process => Proc
  | .requestStop _ => Unit
  | .requestNodeStop _ => Unit
  | .loseOwnership _ => Unit
  | .eraseActive _ => Unit
  | .schedule _ _ => Except Error Unit
  | .scheduleWork _ _ _ => Except Error Unit
  | .eraseActiveNode _ => Unit
  | .openGroup _ _ _ _ => Unit
  | .spawnBranches _ => Unit
  | .parallelState _ => Option ParallelState
  | .branchStep _ _ => Except Exn Unit
  | .branchArrive _ _ _ => Except Exn Unit
  | .branchFail _ _ _ => Unit
  | .uuid => String
  | .check _ => Except Exn Unit
  | .external _ => Except Exn Unit
  | .resolveWorker _ => Except Exn (String × Bool)
  | .permission _ _ => Except Exn PolicyResult
  | .resolvePipeline _ _ _ => Except Exn PipelineDefinition
  | .startJob _ => Option String
  | .workerJob _ => Except Error WorkerJob
  | .nodeExecute _ _ _ => Except Exn NodeResult
  | .halt => Empty

def reqSig : Sig := ⟨Req, Req.Resp⟩

/-- Everything the instances share, and the memory of each of them. -/
structure World where
  db : Db := {}
  procs : String → Proc := fun _ => {}
  issued : Nat := 0
  spawned : List Spawn := []

/-- What the world does not determine about the answer to a call. -/
structure Oracle where
  /-- The database refuses the call, without effect. -/
  fault : Option Error := none
  /-- How the database clock moves during the call. -/
  ticks : Ticks := {}
  /-- A component throws, or a deadline has passed. -/
  exn : Option Exn := none
  /-- What a node body returns. -/
  result : NodeResult := {}
  /-- The worker a node resolves to, and whether it is remote. -/
  worker : String × Bool := ("", false)
  /-- The job a node has handed to a worker, if it has an identifier. -/
  job : WorkerJob := { id := "" }

namespace World

variable (w : World)

def setProc (inst : String) (p : Proc) : World :=
  { w with procs := Function.update w.procs inst p }

/-- Change one active run of a process, if it is there. -/
def updateActive (inst id : String) (f : ActiveRun → ActiveRun) : World :=
  match (w.procs inst).active.get id with
  | none => w
  | some a => w.setProc inst { w.procs inst with active := (w.procs inst).active.put (f a) }

/-- Change one parallel group of a process, if it is there. -/
def updateParallel (inst group : String) (f : ParallelState → ParallelState) : World :=
  match (w.procs inst).parallels.get group with
  | none => w
  | some g => w.setProc inst { w.procs inst with parallels := (w.procs inst).parallels.put (f g) }

/-- The stop request of an executor or of a branch of it. -/
def stopRequested (inst : String) : Scope → Bool
  | .run id => ((w.procs inst).active.get id).elim false ActiveRun.stop
  | .branch id group =>
    ((w.procs inst).active.get id).elim false ActiveRun.stop ||
      ((w.procs inst).parallels.get group).elim false ParallelState.stop
  | .work id group =>
    ((w.procs inst).activeNodes.get id).elim false ActiveNode.stop ||
      ((w.procs inst).parallels.get group).elim false ParallelState.stop

end World

/-- `schedule`: enter the run into `active_` and start its executor. -/
def scheduleRun (cfg : Config) (inst : String) (w : World) (r : Run) (lease : Option LeaseRecord) :
    Except Error Unit × World :=
  let p := w.procs inst
  if (p.active.get r.id).isSome then (.error ⟨.conflict, "Run already executing"⟩, w)
  else if p.stopping || cfg.maxRuns ≤ p.active.rows.length then
    (.error ⟨.capacity, "Concurrent run limit reached"⟩, w)
  else if cfg.coordination && lease.isNone then
    (.error ⟨.conflict, "Distributed run is missing an ownership lease"⟩, w)
  else
    (.ok (), { w.setProc inst { p with active := p.active.put { id := r.id, lease := lease } } with
        spawned := w.spawned ++ [.executor r] })

variable (inst : String) (w : World)

/-- Enter claimed work into `active_nodes_` and start executing it. -/
def scheduleNodeWork (work : NodeWork) (lease : LeaseRecord)
    (slots : List LeaseRecord) : Except Error Unit × World :=
  let p := w.procs inst
  if (p.activeNodes.get work.id).isSome then
    (.error ⟨.conflict, "Node work is already executing"⟩, w)
  else
    (.ok (), { w.setProc inst { p with
          activeNodes := p.activeNodes.put { id := work.id, workLease := lease, slots } } with
        spawned := w.spawned ++ [.work work lease slots] })

variable {α : Type}

variable (o : Oracle) (w : World)

/-- A call on the store, which the database may refuse. -/
def onDb (f : Db → Except Error α × Db) :
    Except Error α × World :=
  match o.fault with
  | some e => (.error e, w)
  | none => ((f w.db).1, { w with db := (f w.db).2 })

/-- A read of the store, which the database may refuse. -/
def readDb (f : Db → Except Error α) : Except Error α × World :=
  (match o.fault with | some e => .error e | none => f w.db, w)

/-- A call on the lease table, which the database may refuse. -/
def onLeases (f : Leases → Except Error α × Leases) :
    Except Error α × World :=
  onDb o w fun db => ((f db.leases).1, { db with leases := (f db.leases).2 })

/-- A component that the world does not describe: it throws or not. -/
def consult (a : α) : Except Exn α × World :=
  (match o.exn with | some e => .error e | none => .ok a, w)

/-- `ExecutionContext::check`: a stop request comes first, then the deadline. -/
def checkStop (inst : String) (o : Oracle) (w : World) (scope : Scope) : Except Exn Unit × World :=
  (if w.stopRequested inst scope then .error (Exn.of .cancellation "Execution cancelled")
    else if o.exn.isSome then .error (Exn.of .timeout "Execution deadline exceeded")
    else .ok (), w)

/-- A step of a branch counts towards the limit of its group. -/
def branchStep (group : String) (limit : Nat) :
    Except Exn Unit × World :=
  match (w.procs inst).parallels.get group with
  | none => (.error .other, w)
  | some g =>
    if limit ≤ g.steps then (.error (executionError "Pipeline step limit exceeded"), w)
    else (.ok (), w.updateParallel inst group fun g => { g with steps := g.steps + 1 })

def branchArrive (group : String) (index : Nat) (m : Message) :
    Except Exn Unit × World :=
  match (w.procs inst).parallels.get group with
  | none => (.error .other, w)
  | some g =>
    match g.outputs.getD index (some m) with
    | some _ => (.error (executionError "Parallel branch arrived twice"), w)
    | none =>
      (.ok (), w.updateParallel inst group fun g =>
        { g with outputs := g.outputs.set index (some m), completed := g.completed + 1 })

/-- A branch ends with an exception: the first one is kept, the others are told to stop. -/
def branchFail (group message : String) (code : ErrorCode) : World :=
  w.updateParallel inst group fun g =>
    { g with
      failed := true
      error := if g.failed then g.error else message
      code := if g.failed then g.code else code
      completed := g.completed + 1
      stop := true }

/-- The page of the branches of a run that is read. -/
def Db.nodeWorkOf (db : Db) (runId : String) : List NodeWork :=
  (db.nodeWork.rows.filter fun x => x.runId = runId).take 10000

/-- What a call made by the instance `inst` does, and its answer. -/
def perform (cfg : Config) (inst : String) (o : Oracle) (w : World) :
    (q : Req) → Option (q.Resp × World)
  | .getRun id => some (readDb o w fun db => db.getRun id)
  | .adoptRun id => some (readDb o w fun db => db.getRun id)
  | .peekRun id => some (readDb o w fun db => db.getRun id)
  | .readCancellation id =>
    some (readDb o w fun db => (db.getRun id).map Run.cancellationRequested)
  | .listRuns => some (readDb o w fun db => .ok db.runs.rows)
  | .scanRuns => some (readDb o w fun db => .ok db.runs.rows)
  | .listNodeWork runId => some (readDb o w fun db => .ok (db.nodeWorkOf runId))
  | .collectWork runId => some (readDb o w fun db => .ok (db.nodeWorkOf runId))
  | .scanNodeWork => some (readDb o w fun db => .ok db.nodeWork.rows)
  | .getNodeWork id => some (readDb o w fun db => db.getNodeWork id)
  | .getAttempt id => some (readDb o w fun db => db.getAttempt id)
  | .getApproval id => some (readDb o w fun db => db.getApproval id)
  | .listApprovals runId =>
    some (readDb o w fun db => .ok (db.approvals.rows.filter fun x => x.runId = runId))
  | .listAttempts runId =>
    some (readDb o w fun db => .ok (db.attempts.rows.filter fun x => x.runId = runId))
  | .commit records => some (onDb o w fun db => db.commit records)
  | .commitOwned records key owner token =>
    some (onDb o w fun db => db.commitOwned o.ticks records key owner token)
  | .commitSessionRun records owner token =>
    some (onDb o w fun db => db.commitSessionRun o.ticks records owner token)
  | .bindSessionTurnRun r => some (onDb o w fun db => db.bindSessionTurnRun r)
  | .requestCancellation id => some (onDb o w fun db => db.requestCancellation id)
  | .acquire key => some (onLeases o w fun l => l.acquire o.ticks inst key cfg.leaseTtlMs)
  | .release lease => some (onLeases o w fun l => l.release o.ticks inst lease)
  | .requireCurrent lease => some (onLeases o w fun l => l.requireCurrent o.ticks inst lease)
  | .process => some (w.procs inst, w)
  | .requestStop id => some ((), w.updateActive inst id fun a => { a with stop := true })
  | .requestNodeStop id =>
    some ((), match (w.procs inst).activeNodes.get id with
      | none => w
      | some a => w.setProc inst
          { w.procs inst with activeNodes := (w.procs inst).activeNodes.put { a with stop := true } })
  | .loseOwnership id =>
    some ((), w.updateActive inst id fun a => { a with ownershipLost := true, stop := true })
  | .eraseActive id =>
    some ((), w.setProc inst { w.procs inst with active := (w.procs inst).active.erase id })
  | .schedule r lease => some (scheduleRun cfg inst w r lease)
  | .scheduleWork work lease slots => some (scheduleNodeWork inst w work lease slots)
  | .eraseActiveNode id =>
    some ((), w.setProc inst
      { w.procs inst with activeNodes := (w.procs inst).activeNodes.erase id })
  | .openGroup group runId width steps =>
    some ((), w.setProc inst { w.procs inst with
        parallels := (w.procs inst).parallels.put
          { id := group, runId, outputs := List.replicate width none, steps } })
  | .spawnBranches jobs => some ((), { w with spawned := w.spawned ++ jobs.map .branch })
  | .parallelState group => some ((w.procs inst).parallels.get group, w)
  | .branchStep group limit => some (branchStep inst w group limit)
  | .branchArrive group index m => some (branchArrive inst w group index m)
  | .branchFail group message code => some ((), branchFail inst w group message code)
  | .uuid => some (cfg.uuids.draw w.issued, { w with issued := w.issued + 1 })
  | .check scope => some (checkStop inst o w scope)
  | .external _ => some (consult o w ())
  | .resolveWorker _ => some (consult o w o.worker)
  | .permission n r =>
    some (Laso.permission cfg.components cfg.policy (consult o w o.worker).1 n r, w)
  | .resolvePipeline _ _ name => some (cfg.resolvePipeline name, w)
  | .startJob _ => some (if o.job.id = "" then none else some o.job.id, w)
  | .workerJob id => some (readDb o w fun _ => .ok { o.job with id := id })
  | .nodeExecute _ _ _ => some (consult o w o.result)
  | .halt => none

/-! ## What is known of an answer in advance -/

/-- Facts about the answer to a call that hold in every state of the world. -/
def Req.Plausible : (q : Req) → q.Resp → Prop
  | .getRun id, .ok r => r.id = id
  | .adoptRun id, .ok r => r.id = id
  | .peekRun id, .ok r => r.id = id
  | .getApproval id, .ok a => a.id = id
  | .listApprovals id, .ok approvals => ∀ a ∈ approvals, a.runId = id
  | .getNodeWork id, .ok w => w.id = id
  | .acquire key, .ok (some lease) => lease.resourceKey = key ∧ lease.ownerInstance ≠ ""
  | _, _ => True

variable {id : String} {o : Oracle} {db : Db}

lemma Db.getRun_eq_ok {r : Run} : db.getRun id = .ok r ↔ db.runs.get id = some r := by
  unfold Db.getRun
  cases db.runs.get id <;> simp

lemma Db.getApproval_eq_ok {a : Approval} :
    db.getApproval id = .ok a ↔ db.approvals.get id = some a := by
  unfold Db.getApproval
  cases db.approvals.get id <;> simp

lemma Db.getNodeWork_eq_ok {w : NodeWork} :
    db.getNodeWork id = .ok w ↔ db.nodeWork.get id = some w := by
  unfold Db.getNodeWork
  cases db.nodeWork.get id <;> simp

lemma Leases.acquire_lease {l : Leases} {t : Ticks} {owner resource : String} {ttl : Nat}
    {lease : LeaseRecord} (h : (l.acquire t owner resource ttl).1 = .ok (some lease)) :
    lease.resourceKey = resource ∧ lease.ownerInstance = owner := by
  unfold Leases.acquire at h
  split at h
  · cases h
  · cases h
  split at h
  · split at h
    · cases h
      exact ⟨rfl, rfl⟩
    split at h
    · split at h
      · cases h
        exact ⟨rfl, rfl⟩
      · cases h
    · cases h
  · cases h

variable {f : Db → Except Error α}

lemma readDb_ok {w : World} {a : α} (h : (readDb o w f).1 = .ok a) : f w.db = .ok a := by
  unfold readDb at h
  cases hf : o.fault with
  | none => simpa [hf] using h
  | some e => simp [hf] at h

lemma readDb_eq {w w' : World} {a : α} (h : readDb o w f = (.ok a, w')) : f w.db = .ok a ∧ w' = w :=
  ⟨readDb_ok (congrArg Prod.fst h), (congrArg Prod.snd h).symm⟩

lemma perform_plausible {cfg : Config} {inst : String} {w w' : World} {q : Req}
    {r : q.Resp} (hinst : inst ≠ "") (h : perform cfg inst o w q = some (r, w')) :
    q.Plausible r := by
  cases q with
  | getRun id | adoptRun id | peekRun id =>
    cases r with
    | error e => trivial
    | ok r =>
      exact key_of_get (Db.getRun_eq_ok.mp (readDb_ok (congrArg Prod.fst (Option.some.inj h))))
  | getApproval id =>
    cases r with
    | error e => trivial
    | ok a =>
      exact key_of_get (Db.getApproval_eq_ok.mp (readDb_ok (congrArg Prod.fst (Option.some.inj h))))
  | getNodeWork id =>
    cases r with
    | error e => trivial
    | ok x =>
      exact key_of_get (Db.getNodeWork_eq_ok.mp (readDb_ok (congrArg Prod.fst (Option.some.inj h))))
  | listApprovals id =>
    cases r with
    | error e => trivial
    | ok approvals =>
    have hl := readDb_ok (congrArg Prod.fst (Option.some.inj h))
    simp only [Except.ok.injEq] at hl
    intro a ha
    rw [← hl] at ha
    simpa using (List.mem_filter.mp ha).2
  | acquire key =>
    rcases r with e | _ | lease
    · trivial
    · trivial
    have h' : onLeases o w (fun l => l.acquire o.ticks inst key cfg.leaseTtlMs) =
      (.ok (some lease), w') := Option.some.inj h
    unfold onLeases onDb at h'
    cases hf : o.fault with
    | none =>
      rw [hf] at h'
      have hl := Leases.acquire_lease (congrArg Prod.fst h')
      exact ⟨hl.1, hl.2 ▸ hinst⟩
    | some e =>
      rw [hf] at h'
      cases h'
  | _ => trivial

end Laso
