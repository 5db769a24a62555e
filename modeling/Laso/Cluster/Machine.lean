import Laso.Core.Machine
import Laso.Cluster.Effects
import Laso.Cluster.SectionLaw

/-!
# Several instances on one store

The machine of a deployment: instances share the store, each runs any number of coroutines, and
one step of the machine is one call of one coroutine. Nothing orders the calls of different
coroutines, so the machine has every interleaving of the operations of all instances: clients'
operations, the claim loop, executors and branches. Instances crash and start again, leases are
renewed and lapse, the database may refuse any call.

`ClusterOk` is the invariant everything else rests on: every coroutine keeps to the law of writes
from what it has seen on, and what it has seen are copies of stored rows.
-/

namespace Laso

open List

/-- A coroutine of an instance. `seen` is not in the source: it records what its calls returned. -/
structure Thread where
  inst : String
  part : Part
  seen : Seen := {}
  prog : Prog reqSig Unit

structure Cluster where
  world : World := {}
  threads : List Thread := []

inductive Operation where
  | run (q : RunRequest)
  | resume (id : String)
  | cancel (fuel : Nat) (id : String)
  | decide (id : String) (approve : Bool) (actor comment : String)
  | claim
  | claimWork
  | supervise
  | recover

def Prog.discard {S : Sig} {α : Type} (p : Prog S α) : Prog S Unit := p.bind fun _ => .ret ()

def Operation.prog (cfg : Config) : Operation → Prog reqSig Unit
  | .run q => ((Laso.run cfg q).prog ()).discard
  | .resume id => ((Laso.resume cfg id).prog ()).discard
  | .cancel fuel id => ((Laso.cancel cfg fuel id).prog ()).discard
  | .decide id approve actor comment => ((decideApproval cfg id approve actor comment).prog ()).discard
  | .claim => ((claimPass cfg).prog ()).discard
  | .claimWork => ((claimWorkPass cfg).prog ()).discard
  | .supervise => ((Laso.supervise cfg).prog ()).discard
  | .recover => ((recoverHistory cfg).prog ()).discard

/-- The coroutine of a spawn request. An executor knows the record it was started with, and the
coroutine of distributed work what has been claimed for it. -/
def Spawn.thread (cfg : Config) (inst : String) (fuel : Nat) : Spawn → Thread
  | .executor r =>
    { inst, part := .executor, seen := { runs := [r] }
      prog := (Laso.executor cfg fuel r).expand (Call.expand cfg) }
  | .branch job =>
    { inst, part := .branch
      prog := ((executeBranch cfg fuel job).prog ()).discard.expand (Call.expand cfg) }
  | .work w lease slots =>
    { inst, part := .branch, seen := { duty := some (w.id, lease.fencingToken) }
      prog := ((workExecutor cfg fuel w lease slots).prog ()).discard.expand (Call.expand cfg) }

inductive Action where
  /-- An instance starts an operation. -/
  | launch (inst : String) (op : Operation)
  /-- A coroutine makes its next call; coroutines it starts get this fuel. -/
  | call (i : Nat) (o : Oracle) (fuel : Nat)
  /-- An instance dies. -/
  | crash (inst : String)
  /-- An instance changes its maintenance mode or begins to stop. -/
  | maintain (inst : String) (mode : MaintenanceMode) (stopping : Bool)
  /-- The lease loop of an instance finds the lease of a run lost. -/
  | lose (inst id : String)
  /-- Any other use of the coordination tables: renewals, registration of instances. -/
  | coordinate (t : Ticks) (c : Leases.Call)

namespace Cluster

def call (cfg : Config) (c : Cluster) (i : Nat) (o : Oracle) (fuel : Nat) : Option Cluster :=
  match c.threads[i]? with
  | none => none
  | some t =>
    match t.prog with
    | .ret _ => none
    | .call q k =>
      (perform cfg t.inst o c.world q).map fun x =>
        { world := { x.2 with spawned := [] }
          threads := c.threads.set i { t with seen := t.seen.note q x.1, prog := k x.1 } ++
            x.2.spawned.map (Spawn.thread cfg t.inst fuel) }

def nextCall (c : Cluster) (i : Nat) : Option (Thread × Req) :=
  match c.threads[i]? with
  | none => none
  | some t =>
    match t.prog with
    | .ret _ => none
    | .call q _ => some (t, q)

lemma mem_of_nextCall {c : Cluster} {i : Nat} {t : Thread} {q : Req}
    (h : c.nextCall i = some (t, q)) : t ∈ c.threads := by
  unfold nextCall at h
  split at h
  · cases h
  rename_i hget
  split at h <;> cases h
  exact mem_of_getElem? hget

def step (cfg : Config) : Machine Cluster Action
  | c, .launch inst op =>
    if inst = "" then none
    else some { c with threads := c.threads ++ [{ inst, part := .control, prog := op.prog cfg }] }
  | c, .call i o fuel => c.call cfg i o fuel
  | c, .crash inst =>
    some { world := c.world.setProc inst {}
           threads := c.threads.filter fun t => t.inst ≠ inst }
  | c, .maintain inst mode stopping =>
    some { c with world := c.world.setProc inst { c.world.procs inst with mode, stopping } }
  | c, .lose inst id =>
    some { c with world := c.world.updateActive inst id fun a =>
      { a with ownershipLost := true, stop := true } }
  | c, .coordinate t call =>
    some { c with world := { c.world with db :=
      { c.world.db with leases := (c.world.db.leases.perform t call).2 } } }

end Cluster

/-! ## The invariant -/

/-- The same record up to the cancellation flag, which is also set in place. -/
def SameButFlag (x b : Run) : Prop :=
  x = { b with cancellationRequested := x.cancellationRequested }

/-- What has been seen are copies of stored rows and answers of the configured policy. -/
structure SeenOk (cfg : Config) (db : Db) (g : Seen) : Prop where
  runs : ∀ b ∈ g.runs, b.OwnMessages ∧ db.runLedger.Copy SameButFlag b
  approvals : ∀ a ∈ g.approvals, db.approvalLedger.Copy Eq a
  policies : ∀ n r policy, (n, r, policy) ∈ g.policies →
    ∃ worker, permission cfg.components cfg.policy worker n r = .ok policy

structure DbOk (db : Db) : Prop where
  messages : ∀ id r, db.runs.get id = some r → r.OwnMessages
  runs : db.runLedger.Sound
  approvals : db.approvalLedger.Sound

/-- A coroutine keeps to the law from what it has seen on. -/
structure ThreadOk (cfg : Config) (db : Db) (t : Thread) : Prop where
  inst : t.inst ≠ ""
  law : (lawWatch cfg t.part).Sat t.prog (fun _ _ => True) t.seen
  seen : SeenOk cfg db t.seen

structure ClusterOk (cfg : Config) (c : Cluster) : Prop where
  db : DbOk c.world.db
  spawned : c.world.spawned = []
  threads : ∀ t ∈ c.threads, ThreadOk cfg c.world.db t

variable {cfg : Config} {part : Part} {g : Seen} {db db' : Db} {now : Nat} {q : Req} {a : q.Resp}
  {inst : String} {o : Oracle} {w w' : World} {fenced : Prop}

lemma SameButFlag.refl (r : Run) : SameButFlag r r := rfl

lemma SameButFlag.withFlag {x b : Run} (h : SameButFlag x b) (flag : Bool) :
    SameButFlag { x with cancellationRequested := flag } b := by
  unfold SameButFlag at h ⊢
  rw [h]

lemma SeenOk.effect (h : SeenOk cfg db g) (he : Effect now db db' q a) : SeenOk cfg db' g := by
  cases he with
  | quiet same _ =>
    refine { h with runs := fun b hb => ⟨(h.runs b hb).1, ?_⟩, approvals := fun x hx => ?_ }
    · rw [same.runLedger]
      exact (h.runs b hb).2
    · rw [same.approvalLedger]
      exact h.approvals x hx
  | write wrote _ _ =>
    refine { h with runs := fun b hb => ⟨(h.runs b hb).1, ?_⟩, approvals := fun x hx => ?_ }
    · rw [wrote.runLedger]
      exact (h.runs b hb).2.writeAll _
    · rw [wrote.approvalLedger]
      exact (h.approvals x hx).writeAll _
  | flag _ flagged =>
  refine { h with runs := fun b hb => ⟨(h.runs b hb).1, ?_⟩, approvals := fun x hx => ?_ }
  · rw [flagged.runLedger]
    exact (h.runs b hb).2.modify flagged.stored rfl rfl fun hsame => hsame.withFlag true
  · rw [flagged.approvalLedger]
    exact h.approvals x hx

lemma Seen.Allow.lawful (h : g.Allow cfg part q) : Lawful cfg part g q.fence q.records := by
  cases q with
  | commit | commitOwned => exact h.1
  | commitSessionRun records owner token => exact .inr h.1
  | bindSessionTurnRun r => exact .inr ⟨r, rfl, h.1⟩
  | _ => exact .inl plain_nil

variable {t : Thread} {r : Run}

lemma Seen.Allow.held (h : g.Allow cfg part q) (hf : q.Fenced now db.leases)
    (hfence : q.fence) (hr : r ∈ runsOf q.records) : ∃ owner token,
      q.credentials = some (owner, token) ∧
        db.leases.holdsAt now ("run:" ++ r.id) owner token := by
  cases q with
  | commitOwned records key owner token => exact ⟨owner, token, rfl, h.2.1 r hr ▸ hf⟩
  | commitSessionRun records owner token => exact ⟨owner, token, rfl, hf hfence r hr⟩
  | _ => exact hfence.elim

lemma DbOk.effect (h : DbOk db) (hallow : g.Allow cfg part q) (he : Effect now db db' q a) :
    DbOk db' := by
  cases he with
  | quiet same _ =>
    refine ⟨fun id r hr => h.messages id r ?_, ?_, ?_⟩
    · rwa [same.runs] at hr
    · rw [same.runLedger]
      exact h.runs
    · rw [same.approvalLedger]
      exact h.approvals
  | write wrote _ _ =>
    refine ⟨fun id r hr => ?_, ?_, ?_⟩
    · have hget : (db.runLedger.writeAll (runsOf q.records)).rows.get id = some r := by
        rw [← wrote.runLedger]
        exact hr
      rcases Ledger.get_writeAll hget with hold | ⟨x, hx, hrx, -⟩
      · exact h.messages id r hold
      rcases hallow.lawful with hplain | ⟨y, hy, hground⟩
      · rw [hplain.1] at hx
        cases hx
      · rw [hy, mem_singleton] at hx
        rw [hrx, hx]
        exact ⟨hground.messages.1, hground.messages.2⟩
    · rw [wrote.runLedger]
      exact h.runs.writeAll _
    · rw [wrote.approvalLedger]
      exact h.approvals.writeAll _
  | @flag r _ flagged =>
  refine ⟨fun id x hx => ?_, ?_, ?_⟩
  · rw [flagged.runs, Table.get_put] at hx
    split at hx
    · cases hx
      have hm := h.messages _ r flagged.stored
      exact ⟨hm.1, hm.2⟩
    · exact h.messages id x hx
  · rw [flagged.runLedger]
    exact h.runs.modify flagged.stored rfl
  · rw [flagged.approvalLedger]
    exact h.approvals

/-! ## What a call adds to what has been seen -/

lemma SeenOk.look (h : SeenOk cfg db g) (id : String) (flag : Bool) :
    SeenOk cfg db (g.look id flag) :=
  ⟨h.runs, h.approvals, h.policies⟩

lemma SeenOk.spend (h : SeenOk cfg db g) (key : String) (token : Nat) (works : List NodeWork) :
    SeenOk cfg db (g.spend key token works) :=
  ⟨h.runs, h.approvals, h.policies⟩

lemma SeenOk.saw (h : SeenOk cfg db g) (hm : r.OwnMessages)
    (hcopy : db.runLedger.Copy SameButFlag r) : SeenOk cfg db (g.saw r) := by
  refine ⟨fun b hb => ?_, h.approvals, h.policies⟩
  rcases mem_cons.mp hb with rfl | hb
  · exact ⟨hm, hcopy⟩
  · exact h.runs b hb

lemma SeenOk.scan {rs : List Run} (h : SeenOk cfg db g)
    (hrs : ∀ r ∈ rs, r.OwnMessages ∧ db.runLedger.Copy SameButFlag r) :
    SeenOk cfg db (rs.foldr (fun r g => g.saw r) g) := by
  induction rs with
  | nil => exact h
  | cons r rest ih =>
    have hr := hrs r mem_cons_self
    exact (ih fun x hx => hrs x (mem_cons_of_mem r hx)).saw hr.1 hr.2

lemma DbOk.read {id : String} (h : DbOk db) (hr : db.runs.get id = some r) :
    r.OwnMessages ∧ db.runLedger.Copy SameButFlag r :=
  ⟨h.messages id r hr, .read h.runs hr (.refl r)⟩

variable {records : List Record}

lemma Db.Wrote.journal_length (h : db.Wrote db' records)
    (hr : runsOf records = [r]) : db'.journal.length = db.journal.length + 1 := by
  have hw := congrArg Ledger.writes h.runLedger
  rw [hr] at hw
  exact hw

lemma SeenOk.wrote (h : SeenOk cfg db' g) (hl : Lawful cfg part g fenced records)
    (hw : db.Wrote db' records) : SeenOk cfg db' (g.wrote records db'.journal.length) := by
  rcases hl with hplain | ⟨r, hr, hground⟩
  · unfold Seen.wrote
    rw [hplain.1]
    exact h
  unfold Seen.wrote
  rw [hr]
  refine h.saw ⟨hground.messages.1, hground.messages.2⟩ ?_
  have hcopy := Ledger.Copy.written db.runLedger r SameButFlag.refl
  rw [hw.journal_length hr, hw.runLedger, hr]
  exact hcopy

lemma SeenOk.listed {l : List Approval} (h : SeenOk cfg db g)
    (hl : ∀ x ∈ l, db.approvalLedger.Copy Eq x) :
    SeenOk cfg db { g with approvals := l ++ g.approvals } :=
  ⟨h.runs, fun y hy => (mem_append.mp hy).elim (hl y) (h.approvals y), h.policies⟩

lemma SeenOk.commit {a : Except Error Nat} (h : SeenOk cfg db' g)
    (hallow : g.Allow cfg part (.commit records)) (he : Effect now db db' (.commit records) a) :
    SeenOk cfg db' (g.note (.commit records) a) := by
  cases he with
  | quiet _ refused =>
    cases a with
    | error e => exact h
    | ok version => exact refused.elim
  | write wrote accepted _ =>
    cases accepted
    exact h.wrote hallow.lawful wrote
  | flag request _ => cases request

/-- A commit under a lease is noted with its token even if it is refused. -/
lemma SeenOk.commitOwned {key owner : String} {token : Nat} {a : Except Error Nat}
    (h : SeenOk cfg db' g) (hallow : g.Allow cfg part (.commitOwned records key owner token))
    (he : Effect now db db' (.commitOwned records key owner token) a) :
    SeenOk cfg db' (g.note (.commitOwned records key owner token) a) := by
  cases he with
  | quiet _ refused =>
    cases a with
    | error e => exact h.spend key token []
    | ok version => exact refused.elim
  | write wrote accepted _ =>
    cases accepted
    exact (h.wrote hallow.lawful wrote).spend key token _
  | flag request _ => cases request

/-- **What is seen are copies of stored rows.** -/
lemma SeenOk.note (h : SeenOk cfg w.db g) (hdb : DbOk w.db) (hallow : g.Allow cfg part q)
    (hperform : perform cfg inst o w q = some (a, w')) : SeenOk cfg w'.db (g.note q a) := by
  have he := perform_effect hallow hperform
  have h' := h.effect he
  cases q with
  | getRun id =>
    cases a with
    | error e => exact h'
    | ok r =>
      obtain ⟨hr, rfl⟩ := readDb_eq (Option.some.inj hperform)
      have hread := hdb.read (Db.getRun_eq_ok.mp hr)
      exact h.saw hread.1 hread.2
  | adoptRun id =>
    cases a with
    | error e => exact h'
    | ok r =>
    obtain ⟨hr, rfl⟩ := readDb_eq (Option.some.inj hperform)
    have hread := hdb.read (Db.getRun_eq_ok.mp hr)
    have hsaw := h.saw hread.1 hread.2
    exact ⟨hsaw.runs, hsaw.approvals, hsaw.policies⟩
  | scanRuns =>
    cases a with
    | error e => exact h'
    | ok rs =>
      obtain ⟨hr, rfl⟩ := readDb_eq (Option.some.inj hperform)
      cases hr
      exact h.scan fun r hr => hdb.read (Table.mem_rows_iff.mp hr)
  | readCancellation id =>
    cases a with
    | ok flag => exact h'.look id flag
    | error e =>
    show SeenOk cfg w'.db (if e.code = .notFound then g.look id false else g)
    split
    · exact h'.look id false
    · exact h'
  | getApproval id =>
    cases a with
    | error e => exact h'
    | ok x =>
    obtain ⟨hx, rfl⟩ := readDb_eq (Option.some.inj hperform)
    have hcopy := Ledger.Copy.read hdb.approvals (Db.getApproval_eq_ok.mp hx) (R := Eq) rfl
    exact h.listed fun y hy => mem_singleton.mp hy ▸ hcopy
  | listApprovals id =>
    cases a with
    | error e => exact h'
    | ok listed =>
    obtain ⟨hx, rfl⟩ := readDb_eq (Option.some.inj hperform)
    have hlisted := h.listed (l := listed) fun y hy => by
      cases hx
      exact .read hdb.approvals (Table.mem_rows_iff.mp (mem_filter.mp hy).1) rfl
    exact ⟨hlisted.runs, hlisted.approvals, hlisted.policies⟩
  | commit records => exact h'.commit hallow he
  | commitOwned records key owner token => exact h'.commitOwned hallow he
  | getNodeWork id =>
    cases a with
    | error e => exact h'
    | ok x => exact ⟨h'.runs, h'.approvals, h'.policies⟩
  | acquire key =>
    rcases a with e | _ | lease
    · exact h'
    · exact h'
    · exact ⟨h'.runs, h'.approvals, h'.policies⟩
  | bindSessionTurnRun r =>
    cases he with
    | quiet _ refused =>
      rcases a with e | _ | version
      · exact h'
      · exact h'
      · exact refused.elim
    | write wrote accepted _ =>
      cases accepted
      exact h'.wrote hallow.lawful wrote
    | flag request _ => cases request
  | uuid => exact h'.look a false
  | permission n r =>
    cases a with
    | error e => exact h'
    | ok policy =>
    refine ⟨h'.runs, h'.approvals, fun n' r' policy' hmem => ?_⟩
    rcases mem_cons.mp hmem with heq | hmem
    · cases heq
      exact ⟨_, congrArg Prod.fst (Option.some.inj hperform)⟩
    · exact h'.policies n' r' policy' hmem
  | _ => exact h'

lemma perform_sound (hdb : DbOk w.db) (h : perform cfg inst o w q = some (a, w')) : q.Sound a := by
  cases q with
  | getRun id | adoptRun id =>
    cases a with
    | error e => trivial
    | ok r =>
      obtain ⟨hr, rfl⟩ := readDb_eq (Option.some.inj h)
      exact hdb.messages id r (Db.getRun_eq_ok.mp hr)
  | scanRuns =>
    cases a with
    | error e => trivial
    | ok rs =>
      obtain ⟨hr, rfl⟩ := readDb_eq (Option.some.inj h)
      cases hr
      exact fun r hr => hdb.messages r.id r (Table.mem_rows_iff.mp hr)
  | _ => trivial

/-! ## New coroutines -/

inductive Spawns (w w' : World) (q : Req) : Prop where
  | none (h : w'.spawned = w.spawned)
  | executor {r : Run} {lease : Option LeaseRecord} (request : q = .schedule r lease)
      (h : w'.spawned = w.spawned ++ [.executor r])
  | branches {jobs : List BranchJob} (h : w'.spawned = w.spawned ++ jobs.map .branch)
  | work {x : NodeWork} {lease : LeaseRecord} {slots : List LeaseRecord}
      (request : q = .scheduleWork x lease slots) (h : w'.spawned = w.spawned ++ [.work x lease slots])

lemma onDb_spawned {α : Type} (o : Oracle) (w : World) (f : Db → Except Error α × Db) :
    (onDb o w f).2.spawned = w.spawned := by
  unfold onDb
  split <;> rfl

@[simp] lemma World.updateActive_spawned (w : World) (inst id : String)
    (f : ActiveRun → ActiveRun) : (w.updateActive inst id f).spawned = w.spawned := by
  unfold updateActive
  split <;> rfl

@[simp] lemma World.updateParallel_spawned (w : World) (inst group : String)
    (f : ParallelState → ParallelState) : (w.updateParallel inst group f).spawned = w.spawned := by
  unfold updateParallel
  split <;> rfl

lemma branchStep_spawned (inst : String) (w : World) (group : String) (limit : Nat) :
    (branchStep inst w group limit).2.spawned = w.spawned := by
  unfold branchStep
  split
  · rfl
  split
  · rfl
  · exact World.updateParallel_spawned _ _ _ _

lemma branchArrive_spawned (inst : String) (w : World) (group : String) (index : Nat)
    (m : Message) : (branchArrive inst w group index m).2.spawned = w.spawned := by
  unfold branchArrive
  split
  · rfl
  split
  · rfl
  · exact World.updateParallel_spawned _ _ _ _

lemma scheduleRun_spawned (cfg : Config) (inst : String) (w : World) (r : Run)
    (lease : Option LeaseRecord) : (scheduleRun cfg inst w r lease).2.spawned = w.spawned ∨
      (scheduleRun cfg inst w r lease).2.spawned = w.spawned ++ [.executor r] := by
  unfold scheduleRun
  dsimp only
  split
  · exact .inl rfl
  split
  · exact .inl rfl
  split
  · exact .inl rfl
  · exact .inr rfl

lemma scheduleNodeWork_spawned (inst : String) (w : World) (x : NodeWork) (lease : LeaseRecord)
    (slots : List LeaseRecord) : (scheduleNodeWork inst w x lease slots).2.spawned = w.spawned ∨
      (scheduleNodeWork inst w x lease slots).2.spawned = w.spawned ++ [.work x lease slots] := by
  unfold scheduleNodeWork
  dsimp only
  split
  · exact .inl rfl
  · exact .inr rfl

lemma perform_spawns (h : perform cfg inst o w q = some (a, w')) : Spawns w w' q := by
  cases q with
  | schedule r lease =>
    have hw : (scheduleRun cfg inst w r lease).2 = w' := congrArg Prod.snd (Option.some.inj h)
    rcases scheduleRun_spawned cfg inst w r lease with hs | hs
    · exact .none (hw ▸ hs)
    · exact .executor rfl (hw ▸ hs)
  | scheduleWork x lease slots =>
    have hw : (scheduleNodeWork inst w x lease slots).2 = w' :=
      congrArg Prod.snd (Option.some.inj h)
    rcases scheduleNodeWork_spawned inst w x lease slots with hs | hs
    · exact .none (hw ▸ hs)
    · exact .work rfl (hw ▸ hs)
  | spawnBranches jobs =>
    exact .branches (congrArg (fun x => x.2.spawned) (Option.some.inj h)).symm
  | halt => cases h
  | _ =>
  refine .none ((congrArg (fun x => x.2.spawned) (Option.some.inj h)).symm.trans ?_)
  first
    | rfl
    | exact onDb_spawned _ _ _
    | exact World.updateActive_spawned _ _ _ _
    | exact World.updateParallel_spawned _ _ _ _
    | exact branchStep_spawned _ _ _ _
    | exact branchArrive_spawned _ _ _ _ _
    | (dsimp only; split <;> rfl)

lemma SeenOk.ofRuns {runs : List Run} {duty : Option (String × Nat)}
    (h : ∀ b ∈ runs, b.OwnMessages ∧ db.runLedger.Copy SameButFlag b) :
    SeenOk cfg db { runs, duty } where
  runs := h
  approvals _ hmem := absurd hmem not_mem_nil
  policies _ _ _ hmem := absurd hmem not_mem_nil

lemma ThreadOk.spawn {s : Spawn} (hinst : inst ≠ "") (hseen : SeenOk cfg db g)
    (hallow : g.Allow cfg part q) (hw : w.spawned = []) (hspawns : Spawns w w' q)
    (hs : s ∈ w'.spawned) (fuel : Nat) : ThreadOk cfg db (s.thread cfg inst fuel) := by
  have hnothing : ∀ duty, SeenOk cfg db { duty } := fun _ =>
    .ofRuns nofun
  have hdiscard : ∀ {root : String} {duty : Option (String × Nat)} {β : Type} {p : Prog callSig β},
      (branchWatch root duty).Sat p (fun _ _ => True) {} →
        (branchWatch root duty).Sat p.discard (fun _ _ => True) {} := fun h => Watch.sat_bind.mpr h
  cases hspawns with
  | none h =>
    rw [h, hw] at hs
    cases hs
  | executor request h =>
    subst request
    rw [h, hw, nil_append, mem_singleton] at hs
    subst hs
    obtain ⟨hr, hm, hq, howner⟩ := hallow
    refine ⟨hinst, executor_law fuel hq hm mem_cons_self howner, .ofRuns fun b hb => ?_⟩
    rw [mem_singleton.mp hb]
    exact hseen.runs _ hr
  | branches h =>
    rw [h, hw, nil_append, mem_map] at hs
    obtain ⟨job, -, rfl⟩ := hs
    exact ⟨hinst, branch_law (hdiscard (branch_sat fuel job)) rfl, hnothing _⟩
  | work _ h =>
    rw [h, hw, nil_append, mem_singleton] at hs
    subst hs
    exact ⟨hinst, branch_law (hdiscard (distributed_sat fuel _ _ _)) rfl, hnothing _⟩

/-! ## Steps of the deployment -/

variable {c c' : Cluster} {l : Action}

/-- What a step does to the runs and approvals of the store: nothing, or a permitted call of some
coroutine has its effect. -/
inductive StepEffect (cfg : Config) (c c' : Cluster) : Action → Prop where
  | quiet {l : Action} (same : c.world.db.Wrote c'.world.db []) : StepEffect cfg c c' l
  | call {i fuel : Nat} {o : Oracle} {t : Thread} {q : Req} {a : q.Resp}
      (next : c.nextCall i = some (t, q)) (ok : ThreadOk cfg c.world.db t)
      (allow : t.seen.Allow cfg t.part q)
      (effect : Effect (c.world.db.leases.clock + o.ticks.first) c.world.db c'.world.db q a) :
      StepEffect cfg c c' (.call i o fuel)

lemma Db.Wrote.dbOk (h : db.Wrote db' []) (hdb : DbOk db) : DbOk db' := by
  refine ⟨fun id r hr => hdb.messages id r ?_, ?_, ?_⟩
  · rwa [h.runs] at hr
  · rw [h.runLedger]
    exact hdb.runs
  · rw [h.approvalLedger]
    exact hdb.approvals

lemma Db.Wrote.seenOk (h : db.Wrote db' []) (hseen : SeenOk cfg db g) : SeenOk cfg db' g := by
  have heffect : Effect 0 db db' .process ({} : Proc) := .quiet h trivial
  exact hseen.effect heffect

lemma ThreadOk.quiet (h : ThreadOk cfg db t) (hw : db.Wrote db' []) : ThreadOk cfg db' t :=
  ⟨h.inst, h.law, hw.seenOk h.seen⟩

lemma Operation.law (op : Operation) :
    (lawWatch cfg .control).Sat (op.prog cfg) (fun _ _ => True) g := by
  have hdiscard : ∀ {α : Type} {x : Op Unit α}, Obeys cfg .control x g () →
      (lawWatch cfg .control).Sat (x.prog ()).discard (fun _ _ => True) g := fun h =>
    Watch.sat_bind.mpr (Watch.Sat.mono h fun _ _ _ => trivial)
  cases op with
  | run q => exact hdiscard (run_law q)
  | resume id => exact hdiscard (resume_law id)
  | cancel fuel id => exact hdiscard (obeys_of_wp (cancel_law fuel id))
  | decide id approve actor comment => exact hdiscard (decideApproval_law id approve actor comment)
  | claim => exact hdiscard claimPass_law
  | claimWork => exact hdiscard claimWorkPass_law
  | supervise => exact hdiscard supervise_law
  | recover => exact hdiscard recoverHistory_law

lemma ClusterOk.allow {i : Nat} (hok : ClusterOk cfg c)
    (h : c.nextCall i = some (t, q)) : t.seen.Allow cfg t.part q := by
  have hlaw := (hok.threads t (Cluster.mem_of_nextCall h)).law
  unfold Cluster.nextCall at h
  split at h
  · cases h
  split at h <;> cases h
  rename_i hprog
  rw [hprog] at hlaw
  exact hlaw.1

/-- **A call of a coroutine keeps the invariant** and has one of the effects of permitted calls. -/
lemma ClusterOk.call {i fuel : Nat} (hok : ClusterOk cfg c)
    (h : c.call cfg i o fuel = some c') :
    ClusterOk cfg c' ∧ StepEffect cfg c c' (.call i o fuel) := by
  unfold Cluster.call at h
  split at h
  · cases h
  rename_i t hget
  have ht := hok.threads t (mem_of_getElem? hget)
  split at h
  · cases h
  rename_i q k hprog
  obtain ⟨⟨a, w'⟩, hperform, rfl⟩ := Option.map_eq_some_iff.mp h
  have hlaw := ht.law
  rw [hprog] at hlaw
  have he := perform_effect hlaw.1 hperform
  refine ⟨⟨hok.db.effect hlaw.1 he, rfl, fun t' ht' => ?_⟩, .call ?_ ht hlaw.1 he⟩
  · rcases mem_append.mp ht' with hold | hnew
    · rcases mem_or_eq_of_mem_set hold with hold | rfl
      · have hother := hok.threads t' hold
        exact ⟨hother.inst, hother.law, hother.seen.effect he⟩
      · have hnote := ht.seen.note hok.db hlaw.1 hperform
        refine ⟨ht.inst, hlaw.2 a _ ⟨?_, ?_, rfl⟩, hnote⟩
        · exact perform_plausible ht.inst hperform
        · exact perform_sound hok.db hperform
    · obtain ⟨s, hs, rfl⟩ := mem_map.mp hnew
      exact .spawn ht.inst (ht.seen.effect he) hlaw.1 hok.spawned (perform_spawns hperform) hs fuel
  · unfold Cluster.nextCall
    rw [hget]
    simp only [hprog]

/-- **Every step keeps the invariant.** -/
lemma ClusterOk.step (hok : ClusterOk cfg c) (h : Cluster.step cfg c l = some c') :
    ClusterOk cfg c' ∧ StepEffect cfg c c' l := by
  cases l with
  | launch inst op =>
    simp only [Cluster.step] at h
    split at h
    · cases h
    rename_i hinst
    cases h
    refine ⟨⟨hok.db, hok.spawned, fun t ht => ?_⟩, .quiet (.refl _)⟩
    rcases mem_append.mp ht with hold | hnew
    · exact hok.threads t hold
    · rw [mem_singleton.mp hnew]
      exact ⟨hinst, op.law, .ofRuns nofun⟩
  | call i o fuel => exact hok.call h
  | crash inst =>
    cases h
    exact ⟨⟨hok.db, hok.spawned, fun t ht => hok.threads t (mem_filter.mp ht).1⟩, .quiet (.refl _)⟩
  | maintain inst mode stopping =>
    cases h
    exact ⟨⟨hok.db, hok.spawned, hok.threads⟩, .quiet (.refl _)⟩
  | lose inst id =>
    cases h
    have hw : c.world.db.Wrote (c.world.updateActive inst id fun a =>
        { a with ownershipLost := true, stop := true }).db [] := by
      rw [World.updateActive_db]
      exact .refl _
    refine ⟨⟨hw.dbOk hok.db, ?_, fun t ht => (hok.threads t ht).quiet hw⟩, .quiet hw⟩
    exact (World.updateActive_spawned _ _ _ _).trans hok.spawned
  | coordinate t call =>
  cases h
  have hw : c.world.db.Wrote { c.world.db with
      leases := (c.world.db.leases.perform t call).2 } [] :=
    .leasesOnly _ (c.world.db.leases.perform_level t call).mono
  exact ⟨⟨hw.dbOk hok.db, hok.spawned, fun t ht => (hok.threads t ht).quiet hw⟩, .quiet hw⟩

def Cluster.init : Cluster := {}

lemma clusterOk_init : ClusterOk cfg .init where
  db := ⟨fun _ _ h => (Option.some_ne_none _ h.symm).elim,
    fun _ _ h => (Option.some_ne_none _ h.symm).elim,
    fun _ _ h => (Option.some_ne_none _ h.symm).elim⟩
  spawned := rfl
  threads _ h := absurd h not_mem_nil

/-- **Every reachable deployment is in order.** -/
theorem clusterOk_of_reach {C : Cluster → Action → Prop}
    (h : Machine.Reach (Cluster.step cfg) C .init c) : ClusterOk cfg c :=
  h.invariant clusterOk_init fun _ _ _ hok _ hstep => (hok.step hstep).1

/-! ## Writes of current copies -/

/-- The store holds the record this copy was made from: a copy of a record that is still stored
under its version. -/
lemma ThreadOk.current {approvals : List Approval} {r x : Run}
    (ht : ThreadOk cfg db t) (hdb : DbOk db) (hs : Source cfg t.part t.seen fenced approvals r)
    (hx : db.runs.get r.id = some x) (hv : x.version = r.version) :
    ∃ b, Copied cfg t.part t.seen fenced approvals b r ∧ SameButFlag x b := by
  rcases hs with ⟨hnew, -⟩ | ⟨b, hb⟩
  · -- stored records have positive versions
    have hpos := (hdb.runs r.id x hx).1
    exact absurd hpos (by simp [Numbered.number, (hv.trans hnew)])
  obtain ⟨y, hy, hsame⟩ := (ht.seen.runs b hb.seen).2.stored
  have hxy : x = y := by
    have hy' : db.runs.get r.id = some y := by
      rw [hb.id]
      exact hy
    exact Option.mem_unique hx hy'
  subst hxy
  exact ⟨b, hb, hsame (hv.trans hb.version)⟩

lemma Db.Wrote.get_run (h : db.Wrote db' records)
    (hr : runsOf records = [r]) (id : String) :
    db'.runs.get id =
      if r.id = id then some { r with version := db.journal.length + 1 } else db.runs.get id := by
  have hrows : db'.runs = (db.runLedger.write r).rows := by
    have hl := congrArg Ledger.rows h.runLedger
    rw [hr] at hl
    exact hl
  rw [hrows]
  exact Ledger.get_write db.runLedger r id

/-! ## What coroutines have seen after a step -/

/-- What a coroutine has seen after a step: what it had seen before, the answer to the call it has
just made, or, for a new one, some runs. -/
inductive SeenStep (cfg : Config) (c c' : Cluster) : Action → Seen → Prop where
  | old {l : Action} {t : Thread} (mem : t ∈ c.threads) : SeenStep cfg c c' l t.seen
  | new {l : Action} {runs : List Run} {duty : Option (String × Nat)} :
      SeenStep cfg c c' l { runs, duty }
  | note {i fuel : Nat} {o : Oracle} {t : Thread} {q : Req} {a : q.Resp} {w' : World}
      (next : c.nextCall i = some (t, q)) (mem : t ∈ c.threads)
      (performed : perform cfg t.inst o c.world q = some (a, w'))
      (db : c'.world.db = w'.db) : SeenStep cfg c c' (.call i o fuel) (t.seen.note q a)

lemma Spawn.thread_seen (s : Spawn) (fuel : Nat) :
    ∃ (runs : List Run) (duty : Option (String × Nat)),
      (s.thread cfg inst fuel).seen = { runs, duty } := by
  cases s with
  | executor r => exact ⟨[r], none, rfl⟩
  | branch job => exact ⟨[], none, rfl⟩
  | work w lease slots => exact ⟨[], _, rfl⟩

lemma seen_step (h : Cluster.step cfg c l = some c') (ht : t ∈ c'.threads) :
    SeenStep cfg c c' l t.seen := by
  cases l with
  | launch inst op =>
    simp only [Cluster.step] at h
    split at h
    · cases h
    cases h
    rcases mem_append.mp ht with hold | hnew
    · exact .old hold
    · rw [mem_singleton.mp hnew]
      exact .new
  | call i o fuel =>
    simp only [Cluster.step, Cluster.call] at h
    split at h
    · cases h
    rename_i x hget
    split at h
    · cases h
    rename_i q k hprog
    obtain ⟨⟨a, w'⟩, hperform, rfl⟩ := Option.map_eq_some_iff.mp h
    rcases mem_append.mp ht with hold | hnew
    · rcases mem_or_eq_of_mem_set hold with hold | rfl
      · exact .old hold
      · refine .note ?_ (mem_of_getElem? hget) hperform rfl
        unfold Cluster.nextCall
        rw [hget]
        simp only [hprog]
    · obtain ⟨s, -, rfl⟩ := mem_map.mp hnew
      obtain ⟨runs, duty, hseen⟩ := s.thread_seen fuel
      rw [hseen]
      exact .new
  | crash inst =>
    cases h
    exact .old (mem_filter.mp ht).1
  | maintain | lose | coordinate =>
    cases h
    exact .old ht

/-! ## A sample deployment -/

/-- Two instances register, and the first one is asked to run the pipeline. The coroutine with the
number 0 handles this request. -/
def pipelineStart (p : PipelineDefinition) : List Action :=
  [.coordinate {} (.setInstance "A" .active), .coordinate {} (.setInstance "B" .active),
    .launch "A" (.run { pipeline := p })]

def sampleStart (node : NodeDefinition) : List Action := pipelineStart (samplePipeline node)

def calls (i n : Nat) : List Action := List.replicate n (.call i {} 100)

end Laso
