import Laso.Cluster.Seen
import Laso.Coordination.Fencing

/-!
# Effects of single calls

What one call does to the runs, the approvals and the node work of the store: nothing, the write of
its records, or the recording of a cancellation request (`perform_effect`); fencing tokens never
decrease. Every invariant of the store across
instances is derived from this and from the law of writes.
-/

namespace Laso

open Option

def Req.records : Req → List Record
  | .commit records => records
  | .commitOwned records _ _ _ => records
  | .commitSessionRun records _ _ => records
  | .bindSessionTurnRun r => [.run r]
  | _ => []

/-- The answer says that the records were written, the last run with this number. -/
def Req.Accepted (version : Nat) : (q : Req) → q.Resp → Prop
  | .commit _, a => a = .ok version
  | .commitOwned _ _ _ _, a => a = .ok version
  | .commitSessionRun _ _ _, a => a = .ok version
  | .bindSessionTurnRun _, a => a = .ok (some version)
  | _, _ => False

/-- The answer does not say that the records were written. The completion of a session run may be
answered positively because the turn has been settled before. -/
def Req.Refused : (q : Req) → q.Resp → Prop
  | .commit _, .ok _ => False
  | .commitOwned _ _ _ _, .ok _ => False
  | .bindSessionTurnRun _, .ok (some _) => False
  | _, _ => True

def Req.fence : Req → Prop
  | .commitOwned _ _ _ _ => True
  | .commitSessionRun _ owner _ => owner ≠ ""
  | _ => False

/-- The owner and the fencing token under which a call writes. -/
def Req.credentials : Req → Option (String × Nat)
  | .commitOwned _ _ owner token => some (owner, token)
  | .commitSessionRun _ owner token => some (owner, token)
  | _ => none

/-- The lease under which a call writes is current at the time the call checks it. -/
def Req.Fenced (now : Nat) (l : Leases) : Req → Prop
  | .commitOwned _ key owner token => l.holdsAt now key owner token
  | .commitSessionRun records owner token => owner ≠ "" → ∀ r ∈ runsOf records,
      l.holdsAt now ("run:" ++ r.id) owner token
  | _ => True

namespace Db

variable {db db' db'' : Db} {records : List Record}

lemma Wrote.leasesOnly (db : Db) {leases : Leases}
    (h : ∀ key, db.leases.level key ≤ leases.level key) : Wrote db { db with leases := leases } [] :=
  ⟨rfl, rfl, rfl, rfl, .refl _, h⟩

lemma Wrote.advance (db : Db) (t : Ticks) : Wrote db { db with leases := db.leases.advance t } [] :=
  .leasesOnly db fun _ => le_rfl

lemma Wrote.runLedger (h : Wrote db db' records) :
    db'.runLedger = db.runLedger.writeAll (runsOf records) := by
  rw [← runLedger_foldl]
  exact congrArg₂ Ledger.mk h.runs (congrArg List.length h.journal)

lemma Wrote.approvalLedger (h : Wrote db db' records) :
    db'.approvalLedger = db.approvalLedger.writeAll (approvalsOf records) := by
  rw [← approvalLedger_foldl]
  exact congrArg₂ Ledger.mk h.approvals h.approvalWrites

variable {t : Ticks}

lemma Wrote.ofAdvance
    (h : Wrote { db with leases := db.leases.advance t } db' records) : Wrote db db' records := by
  have hr := foldl_putRun_congr (runsOf records)
    (a := { db with leases := db.leases.advance t }) (b := db) rfl rfl
  have ha := foldl_putApproval_congr (approvalsOf records)
    (a := { db with leases := db.leases.advance t }) (b := db) rfl rfl
  exact ⟨h.runs.trans hr.1, h.journal.trans hr.2, h.approvals.trans ha.1,
    h.approvalWrites.trans ha.2, h.works, h.levels⟩

variable {res : Except Error Nat}

lemma commit_effect (h : db.commit records = (res, db')) :
    ((∃ e, res = .error e) ∧ Wrote db db' []) ∨
      (res = .ok db'.journal.length ∧ Wrote db db' records) := by
  unfold commit settle at h
  split at h
  · rename_i mid hw
    cases h
    exact .inr ⟨rfl, writeRecords_wrote hw⟩
  · cases h
    exact .inl ⟨⟨_, rfl⟩, .refl db⟩

lemma commitOwned_effect {key owner : String} {token : Nat}
    (h : db.commitOwned t records key owner token = (res, db')) :
    ((∃ e, res = .error e) ∧ Wrote db db' []) ∨
      (res = .ok db'.journal.length ∧ Wrote db db' records ∧
        db.leases.holdsAt (db.leases.clock + t.first) key owner token) := by
  unfold commitOwned at h
  split at h
  · cases h
    exact .inl ⟨⟨_, rfl⟩, .advance db t⟩
  rename_i hproof
  have hcommit : commit { db with leases := db.leases.advance t } records = (res, db') := by
    simpa [commit] using h
  rcases commit_effect hcommit with ⟨he, hw⟩ | ⟨hok, hw⟩
  · exact .inl ⟨he, hw.ofAdvance⟩
  refine .inr ⟨hok, hw.ofAdvance, ?_⟩
  unfold Leases.ownershipProof at hproof
  split at hproof
  · cases hproof
  split at hproof
  · assumption
  · cases hproof

variable {r : Run}

lemma commitSessionRun_effect {owner : String} {token : Nat} (hr : runsOf records = [r])
    (h : db.commitSessionRun t records owner token = (res, db')) :
    Wrote db db' [] ∨ (res = .ok db'.journal.length ∧ Wrote db db' records ∧
        (owner ≠ "" → db.leases.holdsAt (db.leases.clock + t.first) ("run:" ++ r.id) owner token =
          true)) := by
  unfold commitSessionRun at h
  split at h
  · cases h
    exact .inl (.refl db)
  rename_i hproof
  rw [runRecord_eq, hr] at h
  simp only [List.head?_cons] at h
  split at h
  · cases h
    exact .inl (.refl db)
  split at h
  · cases h
    exact .inl (.advance db t)
  rename_i hheld
  split at h
  · cases h
    exact .inl (.advance db t)
  split at h
  · cases h
    exact .inl (.advance db t)
  split at h
  · cases h
    exact .inl (.advance db t)
  split at h
  · cases h
    exact .inl (.advance db t)
  rename_i mid hw
  cases h
  have hwrote := (writeRecords_wrote hw).ofAdvance
  refine .inr ⟨rfl, { hwrote with }, ?_⟩
  intro howner
  -- a proof with an owner and no token is refused at the start
  have htoken : 0 < token := by
    by_contra hzero
    exact hproof (.inl ⟨by omega, howner⟩)
  simpa [htoken] using hheld

lemma bindSessionTurnRun_effect {res : Except Error (Option Nat)}
    (h : db.bindSessionTurnRun r = (res, db')) :
    ((∃ e, res = .error e) ∧ Wrote db db' []) ∨
      (res = .ok (some db'.journal.length) ∧ Wrote db db' [.run r]) := by
  unfold bindSessionTurnRun at h
  split at h
  · cases h
    exact .inl ⟨⟨_, rfl⟩, .refl db⟩
  split at h
  · cases h
    exact .inl ⟨⟨_, rfl⟩, .refl db⟩
  rename_i mid hw
  cases h
  have hwrote := writeRecords_wrote hw
  exact .inr ⟨rfl, { hwrote with }⟩

structure Flagged (db db' : Db) (r : Run) : Prop where
  stored : db.runs.get r.id = some r
  live : terminal r.state = false
  runs : db'.runs = db.runs.put { r with cancellationRequested := true }
  journal : db'.journal = db.journal
  approvals : db'.approvals = db.approvals
  approvalWrites : db'.approvalWrites = db.approvalWrites
  works : db'.nodeWork = db.nodeWork
  leases : db'.leases = db.leases

lemma Flagged.runLedger (h : Flagged db db' r) : db'.runLedger =
    ⟨db.runLedger.rows.put { r with cancellationRequested := true }, db.runLedger.writes⟩ :=
  congrArg₂ Ledger.mk h.runs (congrArg List.length h.journal)

lemma Flagged.approvalLedger (h : Flagged db db' r) : db'.approvalLedger = db.approvalLedger :=
  congrArg₂ Ledger.mk h.approvals h.approvalWrites

lemma requestCancellation_effect {res : Except Error Unit} {id : String}
    (h : db.requestCancellation id = (res, db')) :
    Wrote db db' [] ∨ ∃ r, r.id = id ∧ Flagged db db' r := by
  unfold requestCancellation at h
  split at h
  · cases h
    exact .inl (.refl db)
  split at h
  · cases h
    exact .inl (.refl db)
  rename_i r hr
  split at h
  · cases h
    exact .inl (.refl db)
  rename_i hlive
  cases h
  have hid : r.id = id := Table.key_of_get hr
  exact .inr ⟨r, hid, ⟨hid ▸ hr, by simpa using hlive, rfl, rfl, rfl, rfl, rfl, rfl⟩⟩

end Db

/-! ## One call -/

/-- What a call has done to the runs and approvals of the store. -/
inductive Effect (now : Nat) (db db' : Db) (q : Req) (a : q.Resp) : Prop where
  | quiet (same : db.Wrote db' []) (refused : q.Refused a)
  | write (wrote : db.Wrote db' q.records) (accepted : q.Accepted db'.journal.length a)
      (fenced : q.Fenced now db.leases)
  | flag {r : Run} (request : q = .requestCancellation r.id) (flagged : db.Flagged db' r)

variable {w w' : World} {o : Oracle}

lemma onDb_cases {α : Type} {f : Db → Except Error α × Db}
    {res : Except Error α} (h : onDb o w f = (res, w')) :
    ((∃ e, res = .error e) ∧ w' = w) ∨ f w.db = (res, w'.db) := by
  unfold onDb at h
  split at h
  · cases h
    exact .inl ⟨⟨_, rfl⟩, rfl⟩
  · cases h
    exact .inr rfl

lemma onLeases_wrote {α : Type} {f : Leases → Except Error α × Leases}
    {res : Except Error α} (hf : ∀ key, w.db.leases.level key ≤ (f w.db.leases).2.level key)
    (h : onLeases o w f = (res, w')) : w.db.Wrote w'.db [] := by
  rcases onDb_cases h with ⟨-, rfl⟩ | hdb
  · exact .refl _
  have hw : w'.db = { w.db with leases := (f w.db.leases).2 } := (congrArg Prod.snd hdb).symm
  rw [hw]
  exact .leasesOnly w.db hf

@[simp] lemma World.updateActive_db (w : World) (inst id : String) (f : ActiveRun → ActiveRun) :
    (w.updateActive inst id f).db = w.db := by
  unfold updateActive
  split <;> rfl

@[simp] lemma World.updateParallel_db (w : World) (inst group : String)
    (f : ParallelState → ParallelState) : (w.updateParallel inst group f).db = w.db := by
  unfold updateParallel
  split <;> rfl

lemma scheduleRun_db (cfg : Config) (inst : String) (w : World) (r : Run)
    (lease : Option LeaseRecord) : (scheduleRun cfg inst w r lease).2.db = w.db := by
  unfold scheduleRun
  dsimp only
  split
  · rfl
  split
  · rfl
  split <;> rfl

lemma scheduleNodeWork_db (inst : String) (w : World) (work : NodeWork) (lease : LeaseRecord)
    (slots : List LeaseRecord) : (scheduleNodeWork inst w work lease slots).2.db = w.db := by
  unfold scheduleNodeWork
  dsimp only
  split <;> rfl

lemma branchStep_db (inst : String) (w : World) (group : String) (limit : Nat) :
    (branchStep inst w group limit).2.db = w.db := by
  unfold branchStep
  split
  · rfl
  split
  · rfl
  · exact World.updateParallel_db _ _ _ _

lemma branchArrive_db (inst : String) (w : World) (group : String) (index : Nat) (m : Message) :
    (branchArrive inst w group index m).2.db = w.db := by
  unfold branchArrive
  split
  · rfl
  split
  · rfl
  · exact World.updateParallel_db _ _ _ _

/-- **What one call does.** -/
lemma perform_effect {cfg : Config} {part : Part} {g : Seen} {inst : String} {q : Req} {a : q.Resp}
    (hallow : g.Allow cfg part q)
    (h : perform cfg inst o w q = some (a, w')) :
    Effect (w.db.leases.clock + o.ticks.first) w.db w'.db q a := by
  cases q with
  | commit records =>
    rcases onDb_cases (some.inj h) with ⟨⟨e, rfl⟩, rfl⟩ | hdb
    · exact .quiet (.refl _) trivial
    rcases Db.commit_effect hdb with ⟨⟨e, rfl⟩, hsame⟩ | ⟨hok, hw⟩
    · exact .quiet hsame trivial
    · exact .write hw hok trivial
  | commitOwned records key owner token =>
    rcases onDb_cases (some.inj h) with ⟨⟨e, rfl⟩, rfl⟩ | hdb
    · exact .quiet (.refl _) trivial
    rcases Db.commitOwned_effect hdb with ⟨⟨e, rfl⟩, hsame⟩ | ⟨hok, hw, hheld⟩
    · exact .quiet hsame trivial
    · exact .write hw hok hheld
  | commitSessionRun records owner token =>
    rcases onDb_cases (some.inj h) with ⟨⟨e, rfl⟩, rfl⟩ | hdb
    · exact .quiet (.refl _) trivial
    obtain ⟨r, hr, -⟩ := hallow.1
    rcases Db.commitSessionRun_effect hr hdb with hsame | ⟨hok, hw, hheld⟩
    · exact .quiet hsame trivial
    refine .write hw hok fun howner x hx => ?_
    rw [hr, List.mem_singleton] at hx
    exact hx ▸ hheld howner
  | bindSessionTurnRun r =>
    rcases onDb_cases (some.inj h) with ⟨⟨e, rfl⟩, rfl⟩ | hdb
    · exact .quiet (.refl _) trivial
    rcases Db.bindSessionTurnRun_effect hdb with ⟨⟨e, rfl⟩, hsame⟩ | ⟨hok, hw⟩
    · exact .quiet hsame trivial
    · exact .write hw hok trivial
  | requestCancellation id =>
    rcases onDb_cases (some.inj h) with ⟨⟨e, rfl⟩, rfl⟩ | hdb
    · exact .quiet (.refl _) trivial
    rcases Db.requestCancellation_effect hdb with hsame | ⟨r, rfl, hflag⟩
    · exact .quiet hsame trivial
    · exact .flag rfl hflag
  | acquire key =>
    exact .quiet (onLeases_wrote (Leases.level_le_acquire _ _ _ _ _) (some.inj h)) trivial
  | release lease =>
    exact .quiet (onLeases_wrote (fun key => (Leases.level_release _ _ _ _ key).ge)
      (some.inj h)) trivial
  | requireCurrent lease =>
    exact .quiet (onLeases_wrote (fun key => (Leases.level_requireCurrent _ _ _ _ key).ge)
      (some.inj h)) trivial
  | halt => cases h
  | _ =>
  -- the other calls read the store or work on the memory of the process
  refine .quiet ?_ trivial
  have hdb : w'.db = w.db := by
    refine (congrArg (fun x => x.2.db) (some.inj h)).symm.trans ?_
    first
      | rfl
      | exact World.updateActive_db _ _ _ _
      | exact World.updateParallel_db _ _ _ _
      | exact scheduleRun_db _ _ _ _ _
      | exact scheduleNodeWork_db _ _ _ _ _
      | exact branchStep_db _ _ _ _
      | exact branchArrive_db _ _ _ _ _
      | (dsimp only; split <;> rfl)
  rw [hdb]
  exact .refl _

end Laso
