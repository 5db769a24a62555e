import Laso.Coordination.Lease
import Laso.Core.Ledger

/-!
# The store

The durable tables of the runtime and what one storage call does to them. A call is one database
transaction; a refused one changes nothing.

For the sake of statements about histories `journal` lists every run record written as a whole,
newest first, and `approvalWrites` counts the approvals written; no call reads them. A record is
stored with the number of its write as its version, and a commit answers with the number of the
last write of a run, so that the copy in memory can carry it too.

Session turns appear as far as a run's completion depends on them: whether the turn bound to the
run is still running or has been settled. The session row names the run of its running turn, so
the two are updated together.
-/

namespace Laso

open List Table

/-- States of the session turn a run executes. -/
inductive TurnState where
  | running | succeeded | failed | cancelled
  deriving DecidableEq, Repr

/-- The outcome of a turn whose run ended in this state. -/
def turnOutcome : RunState → TurnState
  | .completed => .succeeded
  | .cancelled => .cancelled
  | _ => .failed

instance : Numbered Run where
  number := Run.version
  stamp n r := { r with version := n }
  key_stamp _ _ := rfl
  number_stamp _ _ := rfl

instance : Numbered Approval where
  number := Approval.version
  stamp n a := { a with version := n }
  key_stamp _ _ := rfl
  number_stamp _ _ := rfl

structure Db where
  runs : Table Run := empty
  journal : List Run := []
  approvalWrites : Nat := 0
  attempts : Table NodeExecution := empty
  messages : Table Message := empty
  approvals : Table Approval := empty
  nodeWork : Table NodeWork := empty
  turns : Table (String × TurnState) := empty
  leases : Leases := {}

namespace Db

variable (db : Db)

def putRun (r : Run) : Db :=
  let r := { r with version := db.journal.length + 1 }
  { db with runs := db.runs.put r, journal := r :: db.journal }

def putApproval (a : Approval) : Db :=
  { db with
    approvals := db.approvals.put { a with version := db.approvalWrites + 1 }
    approvalWrites := db.approvalWrites + 1 }

def runLedger : Ledger Run := ⟨db.runs, db.journal.length⟩

def approvalLedger : Ledger Approval := ⟨db.approvals, db.approvalWrites⟩

/-- The rule of `write_records` for node work: terminal work may only be written again as it is,
other work only along a valid transition. `none` means that there is nothing to write. -/
def checkNodeWork (w : NodeWork) : Except Error (Option NodeWork) :=
  match db.nodeWork.get w.id with
  | none => .ok (some w)
  | some old =>
    if old.state.isTerminal then
      if equivalentTerminalNodeWork old w then .ok none
      else .error ⟨.conflict, "Terminal node work is immutable"⟩
    else if validNodeWorkTransition old.state w.state then .ok (some w)
    else .error ⟨.conflict, "Invalid node work state transition"⟩

/-- One record of `write_records`. There is no check for runs and approvals. -/
def writeRecord : Record → Except Error Db
  | .run r =>
    if r.id = "" then .error ⟨.validation, "Record id is empty"⟩ else .ok (db.putRun r)
  | .attempt a =>
    if a.id = "" then .error ⟨.validation, "Record id is empty"⟩
    else .ok { db with attempts := db.attempts.put a }
  | .message m =>
    if m.id = "" then .error ⟨.validation, "Record id is empty"⟩
    else .ok { db with messages := db.messages.put m }
  | .approval a =>
    if a.id = "" then .error ⟨.validation, "Record id is empty"⟩
    else .ok (db.putApproval a)
  | .nodeWork w =>
    if w.id = "" then .error ⟨.validation, "Record id is empty"⟩
    else match db.checkNodeWork w with
      | .error e => .error e
      | .ok none => .ok db
      | .ok (some w) => .ok { db with nodeWork := db.nodeWork.put w }
  | .event _ => .ok db

/-- `write_records`: all records in order, or none of them. -/
def writeRecords (db : Db) : List Record → Except Error Db
  | [] => .ok db
  | record :: rest =>
    match db.writeRecord record with
    | .error e => .error e
    | .ok db' => db'.writeRecords rest

/-- The outcome of a transaction: a refused one leaves the tables as they were. -/
def settle : Except Error Db → Except Error Nat × Db
  | .ok db' => (.ok db'.journal.length, db')
  | .error e => (.error e, db)

/-- `commit`. -/
def commit (records : List Record) : Except Error Nat × Db :=
  db.settle (db.writeRecords records)

/-- `commit_owned`: the lease check and the write are one transaction. -/
def commitOwned (t : Ticks) (records : List Record) (key owner : String) (token : Nat) :
    Except Error Nat × Db :=
  let db' := { db with leases := db.leases.advance t }
  match db.leases.ownershipProof t key owner token with
  | .error e => (.error e, db')
  | .ok _ => db'.settle (db'.writeRecords records)

def runRecord : List Record → Option Run
  | [] => none
  | .run r :: _ => some r
  | _ :: rest => runRecord rest

/-- `commit_session_run`: the terminal checkpoint of a session run settles its turn in the same
transaction. A turn that already has this outcome for this run ends the call without a write. -/
def commitSessionRun (t : Ticks) (records : List Record) (owner : String) (token : Nat) :
    Except Error Nat × Db :=
  if (token = 0 ∧ owner ≠ "") ∨ (0 < token ∧ owner = "") then
    (.error ⟨.validation, "Invalid session run ownership proof"⟩, db)
  else match runRecord records with
    | none => (.error ⟨.validation, "Session completion has no run record"⟩, db)
    | some r =>
      if r.sessionId = "" ∨ r.sessionTurnId = "" ∨ terminal r.state = false then
        (.error ⟨.validation, "Invalid session completion"⟩, db)
      else
        let db' := { db with leases := db.leases.advance t }
        if 0 < token ∧
            db.leases.holdsAt (db.leases.clock + t.first) ("run:" ++ r.id) owner token = false then
          (.error ⟨.conflict, "Run ownership is no longer valid"⟩, db')
        else match db.turns.get r.id with
          | none => (.error ⟨.notFound, "Session turn not found"⟩, db')
          | some (_, prior) =>
            if prior = turnOutcome r.state then (.ok db'.journal.length, db')
            else if prior ≠ .running then
              (.error ⟨.conflict, "Session completion is no longer current"⟩, db')
            else match db'.writeRecords records with
              | .error e => (.error e, db')
              | .ok db'' =>
                (.ok db''.journal.length,
                  { db'' with turns := db''.turns.put (r.id, turnOutcome r.state) })

/-- `bind_session_turn_run`, for a turn that is claimed and not yet bound: the run record is
created and the turn runs. The answer `none` would say that the turn had a run already. -/
def bindSessionTurnRun (r : Run) : Except Error (Option Nat) × Db :=
  if r.sessionId = "" ∨ r.sessionTurnId = "" then
    (.error ⟨.validation, "Invalid session run binding"⟩, db)
  else match db.writeRecords [.run r] with
    | .error e => (.error e, db)
    | .ok db' =>
      (.ok (some db'.journal.length), { db' with turns := db'.turns.put (r.id, .running) })

variable (db : Db) (id : String)

/-- `request_cancellation`: under the row lock, a run that is not over gets its flag set. -/
def requestCancellation : Except Error Unit × Db :=
  if id = "" then (.error ⟨.validation, "Run id is empty"⟩, db)
  else match db.runs.get id with
    | none => (.error ⟨.notFound, "Run not found"⟩, db)
    | some r =>
      if terminal r.state then (.ok (), db)
      else (.ok (), { db with runs := db.runs.put { r with cancellationRequested := true } })

/-- `get` of a run. -/
def getRun : Except Error Run :=
  match db.runs.get id with
  | some r => .ok r
  | none => .error ⟨.notFound, "Record not found"⟩

/-- `get` of node work. -/
def getNodeWork : Except Error NodeWork :=
  match db.nodeWork.get id with
  | some w => .ok w
  | none => .error ⟨.notFound, "Record not found"⟩

/-- `get` of an attempt. -/
def getAttempt : Except Error NodeExecution :=
  match db.attempts.get id with
  | some a => .ok a
  | none => .error ⟨.notFound, "Record not found"⟩

/-- `get` of an approval. -/
def getApproval : Except Error Approval :=
  match db.approvals.get id with
  | some a => .ok a
  | none => .error ⟨.notFound, "Record not found"⟩

end Db

/-! ## What a transaction writes -/

def Record.run? : Record → Option Run
  | .run r => some r
  | _ => none

def Record.approval? : Record → Option Approval
  | .approval a => some a
  | _ => none

def Record.nodeWork? : Record → Option NodeWork
  | .nodeWork w => some w
  | _ => none

def Record.attempt? : Record → Option NodeExecution
  | .attempt a => some a
  | _ => none

variable (records : List Record)

def runsOf : List Run := records.filterMap Record.run?

def approvalsOf : List Approval := records.filterMap Record.approval?

def worksOf : List NodeWork := records.filterMap Record.nodeWork?

def attemptsOf : List NodeExecution := records.filterMap Record.attempt?

def Plain : Prop := runsOf records = [] ∧ approvalsOf records = []

def Shelved : Prop := ∀ w ∈ worksOf records, w.Idle

@[simp] lemma runsOf_nil : runsOf [] = [] := rfl

variable (a b : List Record)

@[simp] lemma runsOf_append : runsOf (a ++ b) = runsOf a ++ runsOf b :=
  filterMap_append

@[simp] lemma approvalsOf_nil : approvalsOf [] = [] := rfl

@[simp] lemma approvalsOf_append :
    approvalsOf (a ++ b) = approvalsOf a ++ approvalsOf b :=
  filterMap_append

variable (x : Record) (rest : List Record)

@[simp] lemma runsOf_cons :
    runsOf (x :: rest) = x.run?.toList ++ runsOf rest := by
  cases x <;> rfl

@[simp] lemma approvalsOf_cons :
    approvalsOf (x :: rest) = x.approval?.toList ++ approvalsOf rest := by
  cases x <;> rfl

attribute [simp] Record.run? Record.approval? Record.nodeWork? Record.attempt?

@[simp] lemma worksOf_nil : worksOf [] = [] := rfl

@[simp] lemma worksOf_append : worksOf (a ++ b) = worksOf a ++ worksOf b :=
  filterMap_append

@[simp] lemma worksOf_cons :
    worksOf (x :: rest) = x.nodeWork?.toList ++ worksOf rest := by
  cases x <;> rfl

@[simp] lemma attemptsOf_nil : attemptsOf [] = [] := rfl

@[simp] lemma attemptsOf_append : attemptsOf (a ++ b) = attemptsOf a ++ attemptsOf b :=
  filterMap_append

@[simp] lemma attemptsOf_cons :
    attemptsOf (x :: rest) = x.attempt?.toList ++ attemptsOf rest := by
  cases x <;> rfl

@[simp] lemma plain_nil : Plain [] := ⟨rfl, rfl⟩

lemma shelved_of_nil {records : List Record} (h : worksOf records = []) : Shelved records := by
  intro w hw
  rw [h] at hw
  cases hw

lemma shelved_singleton {w : NodeWork} (h : w.Idle) : Shelved [.nodeWork w] := by
  intro x hx
  rw [mem_singleton.mp hx]
  exact h

lemma shelved_nil : Shelved [] := shelved_of_nil rfl

lemma Shelved.append {a b : List Record} (ha : Shelved a) (hb : Shelved b) : Shelved (a ++ b) := by
  intro w hw
  rw [worksOf_append, mem_append] at hw
  exact hw.elim (ha w) (hb w)

/-- Records written beside a run: no runs, no approvals, and node work only for the queue. -/
def Side : Prop := Plain records ∧ Shelved records

lemma side_nil : Side [] := ⟨plain_nil, shelved_nil⟩

lemma Side.queue {w : NodeWork} {records : List Record} (h : Side records)
    (hw : w.state = .queued) : Side (.nodeWork w :: records) := by
  refine ⟨⟨h.1.1, h.1.2⟩, fun x hx => ?_⟩
  rcases mem_cons.mp hx with rfl | hx
  · exact .inl hw
  · exact h.2 x hx

lemma side_attempts {α : Type} (l : List α) (f : α → NodeExecution) :
    Side (l.map fun x => .attempt (f x)) := by
  refine ⟨⟨?_, ?_⟩, shelved_of_nil ?_⟩
  · simp [runsOf, filterMap_map, Function.comp_def]
  · simp [approvalsOf, filterMap_map, Function.comp_def]
  · simp [worksOf, filterMap_map, Function.comp_def]

lemma side_attempt (a : NodeExecution) : Side [.attempt a] := ⟨⟨rfl, rfl⟩, shelved_of_nil rfl⟩

lemma Db.runRecord_eq : Db.runRecord records = (runsOf records).head? := by
  induction records with
  | nil => rfl
  | cons x rest ih => cases x <;> simp [Db.runRecord, ih]

namespace Db

variable {db db' : Db} {records : List Record}

/-- What a transaction does to the table of node work: rows in a terminal state stay, any other row
may be replaced by one of the records; a single record is written along a valid transition. -/
structure Worked (t t' : Table NodeWork) (works : List NodeWork) : Prop where
  row : ∀ id, t'.get id = t.get id ∨ ∃ w ∈ works, w.id = id ∧ t'.get id = some w ∧
    ∀ x, t.get id = some x → x.state.isTerminal = false
  one : ∀ w, works = [w] →
    (∃ x, t.get w.id = some x ∧ equivalentTerminalNodeWork x w) ∨
    (t'.get w.id = some w ∧
      ∀ x, t.get w.id = some x → validNodeWorkTransition x.state w.state)

lemma Worked.refl (t : Table NodeWork) : Worked t t [] := ⟨fun _ => .inl rfl, nofun⟩

lemma Worked.trans {t t' t'' : Table NodeWork} {a b : List NodeWork} (h : Worked t t' a)
    (h' : Worked t' t'' b) : Worked t t'' (a ++ b) where
  row id := by
    rcases h'.row id with hsame | ⟨w, hw, hid, hget, hlive⟩
    · rw [hsame]
      refine (h.row id).imp_right ?_
      rintro ⟨w, hw, hrest⟩
      exact ⟨w, mem_append_left b hw, hrest⟩
    · refine .inr ⟨w, mem_append_right a hw, hid, hget, ?_⟩
      rcases h.row id with hsame | ⟨_, _, _, _, hlive'⟩
      · rwa [hsame] at hlive
      · exact hlive'
  one w hw := by
    rcases append_eq_singleton_iff.mp hw with ⟨rfl, rfl⟩ | ⟨rfl, rfl⟩
    · have hsame : t'.get w.id = t.get w.id := (h.row w.id).resolve_right (by simp)
      rw [← hsame]
      exact h'.one w rfl
    have hsame : t''.get w.id = t'.get w.id := (h'.row w.id).resolve_right (by simp)
    rw [hsame]
    exact h.one w rfl

/-- The runs, approvals and node work after some records have been written. -/
structure Wrote (db db' : Db) (records : List Record) : Prop where
  runs : db'.runs = ((runsOf records).foldl putRun db).runs
  journal : db'.journal = ((runsOf records).foldl putRun db).journal
  approvals : db'.approvals = ((approvalsOf records).foldl putApproval db).approvals
  approvalWrites : db'.approvalWrites = ((approvalsOf records).foldl putApproval db).approvalWrites
  works : Worked db.nodeWork db'.nodeWork (worksOf records)
  levels : ∀ key, db.leases.level key ≤ db'.leases.level key

lemma Wrote.refl (db : Db) : Wrote db db [] := ⟨rfl, rfl, rfl, rfl, .refl _, fun _ => le_rfl⟩

lemma foldl_putRun_congr (rs : List Run) {a b : Db} (h : a.runs = b.runs)
    (h' : a.journal = b.journal) :
    (rs.foldl putRun a).runs = (rs.foldl putRun b).runs ∧
      (rs.foldl putRun a).journal = (rs.foldl putRun b).journal := by
  induction rs generalizing a b with
  | nil => exact ⟨h, h'⟩
  | cons r rest ih => exact ih (by simp [putRun, h, h']) (by simp [putRun, h'])

lemma foldl_putApproval_congr (as : List Approval) {a b : Db} (h : a.approvals = b.approvals)
    (h' : a.approvalWrites = b.approvalWrites) :
    (as.foldl putApproval a).approvals = (as.foldl putApproval b).approvals ∧
      (as.foldl putApproval a).approvalWrites = (as.foldl putApproval b).approvalWrites := by
  induction as generalizing a b with
  | nil => exact ⟨h, h'⟩
  | cons r rest ih => exact ih (by simp [putApproval, h, h']) (by simp [putApproval, h'])

lemma runLedger_foldl (rs : List Run) (db : Db) :
    (rs.foldl putRun db).runLedger = db.runLedger.writeAll rs := by
  induction rs generalizing db with
  | nil => rfl
  | cons r rest ih => exact ih (db.putRun r)

lemma approvalLedger_foldl (as : List Approval) (db : Db) :
    (as.foldl putApproval db).approvalLedger = db.approvalLedger.writeAll as := by
  induction as generalizing db with
  | nil => rfl
  | cons a rest ih => exact ih (db.putApproval a)

lemma worked_writeRecord {w : NodeWork} (h : db.writeRecord (.nodeWork w) = .ok db') :
    Worked db.nodeWork db'.nodeWork [w] := by
  simp only [writeRecord, checkNodeWork] at h
  split at h
  · cases h
  cases hget : db.nodeWork.get w.id with
  | none =>
    rw [hget] at h
    cases h
    refine ⟨fun id => ?_, ?_⟩
    · by_cases hid : w.id = id
      · subst hid
        exact .inr ⟨w, by simp, rfl, get_put_self _ w, by simp [hget]⟩
      · exact .inl (get_put_ne hid)
    · rintro _ ⟨⟩
      exact .inr ⟨get_put_self _ w, by simp [hget]⟩
  | some old =>
  simp only [hget] at h
  by_cases hterm : old.state.isTerminal
  · simp only [hterm, if_true] at h
    by_cases heq : equivalentTerminalNodeWork old w
    · simp only [heq, if_true] at h
      cases h
      refine ⟨fun _ => .inl rfl, ?_⟩
      rintro _ ⟨⟩
      exact .inl ⟨old, hget, heq⟩
    · simp only [heq, Bool.false_eq_true, if_false] at h
      cases h
  simp only [hterm, if_false, Bool.false_eq_true] at h
  split at h
  · cases h
  · rename_i hnone; split at hnone <;> cases hnone
  rename_i hsome
  split at hsome <;> cases hsome
  rename_i hvalid
  cases h
  have hlive : ∀ x, db.nodeWork.get w.id = some x → x = old := fun x hx =>
    Option.mem_unique hx hget
  refine ⟨fun id => ?_, ?_⟩
  · by_cases hid : w.id = id
    · subst hid
      refine .inr ⟨w, by simp, rfl, get_put_self _ w, fun x hx => ?_⟩
      rw [hlive x hx]
      simpa using hterm
    · exact .inl (get_put_ne hid)
  · rintro _ ⟨⟩
    refine .inr ⟨get_put_self _ w, fun x hx => ?_⟩
    rw [hlive x hx]
    exact hvalid

lemma writeRecord_wrote {x : Record} (h : db.writeRecord x = .ok db') : Wrote db db' [x] := by
  cases x with
  | run | approval | attempt | message =>
    simp only [writeRecord] at h
    split at h <;> cases h
    exact ⟨rfl, rfl, rfl, rfl, .refl _, fun _ => le_rfl⟩
  | nodeWork w =>
    have hworks := worked_writeRecord h
    simp only [writeRecord] at h
    split at h
    · cases h
    · split at h <;> cases h <;> exact ⟨rfl, rfl, rfl, rfl, hworks, fun _ => le_rfl⟩
  | event e =>
    cases h
    exact ⟨rfl, rfl, rfl, rfl, .refl _, fun _ => le_rfl⟩

/-- **What a transaction writes.** The runs and approvals among its records, and nothing else of
these tables. -/
lemma writeRecords_wrote (h : db.writeRecords records = .ok db') : Wrote db db' records := by
  induction records generalizing db with
  | nil =>
    cases h
    exact .refl _
  | cons x rest ih =>
    simp only [writeRecords] at h
    split at h
    · cases h
    rename_i mid hx
    have w := writeRecord_wrote hx
    have w' := ih h
    have hr := foldl_putRun_congr (runsOf rest) w.runs w.journal
    have ha := foldl_putApproval_congr (approvalsOf rest) w.approvals w.approvalWrites
    rw [← foldl_append, ← runsOf_append] at hr
    rw [← foldl_append, ← approvalsOf_append] at ha
    exact ⟨w'.runs.trans hr.1, w'.journal.trans hr.2, w'.approvals.trans ha.1,
      w'.approvalWrites.trans ha.2, worksOf_append [x] rest ▸ w.works.trans w'.works,
      fun key => (w.levels key).trans (w'.levels key)⟩

lemma Worked.terminal {t t' : Table NodeWork} {works : List NodeWork} {id : String} {x : NodeWork}
    (h : Worked t t' works) (hx : t.get id = some x) (hterm : x.state.isTerminal) :
    t'.get id = some x := by
  rcases h.row id with hsame | ⟨_, _, _, _, hlive⟩
  · rw [hsame, hx]
  · rw [hlive x hx] at hterm
    cases hterm

lemma writeRecords_refuses {w x : NodeWork} (hw : w ∈ worksOf records)
    (hx : db.nodeWork.get w.id = some x) (hterm : x.state.isTerminal)
    (hne : equivalentTerminalNodeWork x w = false) : ∃ e, db.writeRecords records = .error e := by
  induction records generalizing db with
  | nil => cases hw
  | cons record rest ih =>
    cases hr : db.writeRecord record with
    | error e => exact ⟨e, by simp [writeRecords, hr]⟩
    | ok mid =>
    have hmid := (writeRecord_wrote hr).works.terminal hx hterm
    rw [worksOf_cons, mem_append] at hw
    rcases hw with hw | hw
    · -- this very record is refused
      cases record with
      | nodeWork y =>
        obtain rfl : w = y := mem_singleton.mp hw
        simp only [writeRecord, checkNodeWork, hx, hterm, hne, if_true] at hr
        split at hr <;> cases hr
      | _ => cases hw
    · obtain ⟨e, he⟩ := ih hw hmid
      exact ⟨e, by simp [writeRecords, hr, he]⟩

end Db

end Laso
