import Laso.Core.ReadCommitted
import Laso.Runtime.Storage

/-!
# The guards of `write_records`

Pipeline revisions, worker jobs and node work are checked before they are written: a `SELECT` of
the stored body decides whether the `INSERT … ON CONFLICT DO UPDATE` that follows is made. These
are two statements of a transaction under read committed, so the rows are those of
`ReadCommitted`, with the checks of `write_records` as guards. The check of a worker job looks at the
states only: a job that is over can be replaced by another one in the same state, unless the callers
see to it (`Row.Agrees`).
-/

namespace Laso

/-- A row written by `write_records`. Of a worker job the check reads the state in the stored body. The
tables without a check are kept together as `plain`. -/
inductive Row where
  | pipeline (id body : String)
  | workerJob (id : String) (state : WorkerJobState) (body : String)
  | nodeWork (work : NodeWork)
  | plain (table id body : String)

inductive RowKey where
  | pipeline (id : String)
  | workerJob (id : String)
  | nodeWork (id : String)
  | plain (table id : String)
  deriving DecidableEq

def Row.key : Row → RowKey
  | .pipeline id _ => .pipeline id
  | .workerJob id _ _ => .workerJob id
  | .nodeWork work => .nodeWork work.id
  | .plain table id _ => .plain table id

/-- `record.id`. -/
def Row.id : Row → String
  | .pipeline id _ => id
  | .workerJob id _ _ => id
  | .nodeWork work => work.id
  | .plain _ id _ => id

/-- The check of a row against the stored one; `false` means that nothing is written. -/
def Row.check (existing : Option Row) : Row → Except Error Bool
  | .pipeline _ body =>
    match existing with
    | some (.pipeline _ old) =>
      if old = body then .ok true else .error ⟨.conflict, "Pipeline revision is immutable"⟩
    | _ => .ok true
  | .workerJob _ state _ =>
    match existing with
    | some (.workerJob _ old _) =>
      if old = state ∨ validWorkerJobTransition old state then .ok true
      else .error ⟨.conflict, "Invalid worker job state transition"⟩
    | _ => .ok true
  | .nodeWork work =>
    match existing with
    | some (.nodeWork old) =>
      if old.state.isTerminal then
        if equivalentTerminalNodeWork old work then .ok false
        else .error ⟨.conflict, "Terminal node work is immutable"⟩
      else if validNodeWorkTransition old.state work.state then .ok true
      else .error ⟨.conflict, "Invalid node work state transition"⟩
    | _ => .ok true
  | .plain _ _ _ => .ok true

/-- The loop body of `write_records` up to the `INSERT`. -/
def Row.guard (existing : Option Row) (x : Row) : Except Error Bool :=
  if x.id = "" then .error ⟨.validation, "Record id is empty"⟩ else x.check existing

/-- The rows of `write_records` and their guards. -/
def rowRules : ReadCommitted.Rules RowKey Row Error := ⟨Row.key, Row.guard⟩

/-- What a stored row promises about the rows that replace it: a pipeline revision, terminal node work
and a terminal worker job stay as they are. -/
def Row.Kept : Row → Row → Prop
  | .pipeline id body, new => new = .pipeline id body
  | .workerJob id state body, new => state.isTerminal → new = .workerJob id state body
  | .nodeWork work, new => work.state.isTerminal → new = .nodeWork work
  | .plain _ _ _, _ => True

/-- A worker job that is over is written again as it is, or in another state. -/
def Row.Agrees : Row → Row → Prop
  | .workerJob _ state body, .workerJob _ state' body' =>
    state.isTerminal → state' = state → body' = body
  | _, _ => True

instance : ∀ x y : Row, Decidable (x.Agrees y) := by
  rintro ⟨⟩ ⟨⟩ <;> dsimp only [Row.Agrees] <;> infer_instance

lemma Row.Kept.refl : ∀ x : Row, x.Kept x
  | .pipeline _ _ => rfl
  | .workerJob _ _ _ => fun _ => rfl
  | .nodeWork _ => fun _ => rfl
  | .plain _ _ _ => trivial

lemma Row.Kept.trans : ∀ x y z : Row, x.Kept y → y.Kept z → x.Kept z
  | .pipeline _ _, _, _, rfl, hz => hz
  | .workerJob _ _ _, y, z, hy, hz | .nodeWork _, y, z, hy, hz => fun hterminal => by
    obtain rfl := hy hterminal
    exact hz hterminal
  | .plain _ _ _, _, _, _, _ => trivial

lemma Row.kept_of_check {old x : Row} (hkey : old.key = x.key) (hagrees : old.Agrees x)
    (hcheck : x.check (some old) = .ok true) : old.Kept x := by
  cases old with
  | pipeline id stored =>
    cases x with
    | pipeline id' body =>
      cases hkey
      simp only [Row.check] at hcheck
      split at hcheck
      · rename_i hsame
        rw [hsame, Row.Kept]
      · cases hcheck
    | _ => cases hkey
  | workerJob id stored text =>
    cases x with
    | workerJob id' state body =>
      cases hkey
      intro hterminal
      simp only [Row.check] at hcheck
      split at hcheck
      · rename_i hstep
        rcases hstep with rfl | hvalid
        · rw [hagrees hterminal rfl]
        · simp [validWorkerJobTransition, hterminal] at hvalid
      · cases hcheck
    | _ => cases hkey
  | nodeWork stored =>
    cases x with
    | nodeWork work =>
      intro hterminal
      simp only [Row.check, hterminal, if_true] at hcheck
      split at hcheck <;> cases hcheck
    | _ => cases hkey
  | plain => trivial

lemma rowRules_enforces : ReadCommitted.Enforces rowRules Row.Agrees Row.Kept where
  refl := Row.Kept.refl
  trans := Row.Kept.trans
  guard old x hkey hagrees hguard := by
    simp only [rowRules, Row.guard] at hguard
    split at hguard
    · cases hguard
    · exact Row.kept_of_check hkey hagrees hguard

/-- **What is stored for good stays.** In every run in which no row is committed by another
transaction between the `SELECT` of its check and its `INSERT`, and no worker job that is over is given
another body by a writer that keeps its state, the stored body of a pipeline revision, stored terminal
node work and a stored terminal worker job never change. -/
theorem stored_rows_kept {s s' : ReadCommitted.Store RowKey Row} {k : RowKey} {old : Row}
    (hs : (ReadCommitted.step rowRules).Reach (ReadCommitted.Undisturbed rowRules Row.Agrees) {} s)
    (hs' : (ReadCommitted.step rowRules).Reach (ReadCommitted.Undisturbed rowRules Row.Agrees) s s')
    (hold : s.committed k = some old) : ∃ new, s'.committed k = some new ∧ old.Kept new :=
  ReadCommitted.keeps_of_reach rowRules_enforces hs hs' hold

section Samples

open ReadCommitted

/-- The stored body of the sample pipeline, the stored job and the stored state of the sample work. -/
structure StoredOutcomes where
  pipeline : Option String
  job : Option (WorkerJobState × String)
  work : Option NodeWorkState
  deriving DecidableEq

def storedOutcomes (s : Store RowKey Row) : StoredOutcomes where
  pipeline := (s.committed (.pipeline "p@1")).bind fun
    | .pipeline _ body => some body
    | _ => none
  job := (s.committed (.workerJob "job")).bind fun
    | .workerJob _ state body => some (state, body)
    | _ => none
  work := (s.committed (.nodeWork "work")).bind fun
    | .nodeWork work => some work.state
    | _ => none

def sampleWork (state : NodeWorkState) : Row :=
  .nodeWork { id := "work", state, token := { nodeId := "a", message := { id := "m" }, frames := [] } }

/-- A running job and a running branch are stored; then two transactions for each of a new
revision, the job and the branch read the stored row before either of them has written it. -/
def checksPassed : List (Statement Row) :=
  [.begin [.workerJob "job" .running "", sampleWork .running], .guard 0, .write 0, .guard 0, .write 0,
    .commit 0,
    .begin [.pipeline "p@1" "first"], .begin [.pipeline "p@1" "second"],
    .begin [.workerJob "job" .completed "first"], .begin [.workerJob "job" .failed "second"],
    .begin [sampleWork .completed], .begin [sampleWork .failed],
    .guard 1, .guard 2, .guard 3, .guard 4, .guard 5, .guard 6]

/-- A transaction with one row, from its start to its end, if it is the `i`-th one. -/
def writesAlone (i : Nat) (row : Row) : List (Statement Row) :=
  [.begin [row], .guard i, .write i, .commit i]

/-- The guards of two transactions pass before either writes, and the second one overwrites the
terminal rows that the first one has committed. The body of a completed job is also overwritten by a
transaction that is alone. -/
theorem stored_rows_replaced :
    (∃ s s', (step rowRules).Reach Machine.always {} s ∧ (step rowRules).Reach Machine.always s s' ∧
      storedOutcomes s = ⟨some "first", some (.completed, "first"), some .completed⟩ ∧
      storedOutcomes s' = ⟨some "second", some (.failed, "second"), some .failed⟩) ∧
    ∃ s s', (step rowRules).Reach Machine.always {} s ∧ (step rowRules).Reach Machine.always s s' ∧
      storedOutcomes s = ⟨none, some (.completed, "first"), none⟩ ∧
      storedOutcomes s' = ⟨none, some (.completed, "second"), none⟩ :=
  ⟨Machine.exists_reach_reach
    (checksPassed ++ [.write 1, .write 3, .write 5, .commit 1, .commit 3, .commit 5])
    [.write 2, .write 4, .write 6, .commit 2, .commit 4, .commit 6] (by decide +kernel),
  Machine.exists_reach_reach (writesAlone 0 (.workerJob "job" .completed "first"))
    (writesAlone 1 (.workerJob "job" .completed "second")) (by decide +kernel)⟩

/-- The second transaction checks the job after the first one has committed: it is refused. The third
one writes the job as it is. -/
theorem stored_rows_kept_completed : ∃ s s' id,
    (step rowRules).Reach (Undisturbed rowRules Row.Agrees) {} s ∧
      (step rowRules).Reach (Undisturbed rowRules Row.Agrees) s s' ∧
      s'.committed (.workerJob "job") = some (.workerJob id .completed "first") := by
  have hrun : ∃ s s', (step rowRules).Reach (Undisturbed rowRules Row.Agrees) {} s ∧
      (step rowRules).Reach (Undisturbed rowRules Row.Agrees) s s' ∧
      storedOutcomes s = ⟨none, some (.completed, "first"), none⟩ ∧ s'.open_.length = 3 := by
    refine Machine.exists_reach_reach (.begin [.workerJob "job" .completed "first"] ::
      .begin [.workerJob "job" .failed "second"] :: [.guard 0, .write 0, .commit 0])
      (.guard 1 :: writesAlone 2 (.workerJob "job" .completed "first")) ?_
    decide +kernel
  obtain ⟨s, s', hs, hs', hstored, -⟩ := hrun
  obtain ⟨old, hold, hjob⟩ := Option.bind_eq_some_iff.mp (congrArg StoredOutcomes.job hstored)
  cases old with
  | workerJob id state body =>
    obtain ⟨rfl, rfl⟩ := Prod.mk.inj (Option.some.inj hjob)
    obtain ⟨new, hnew, hkept⟩ := stored_rows_kept hs hs' hold
    exact ⟨s, s', id, hs, hs', hnew.trans (congrArg some (hkept rfl))⟩
  | _ => cases hjob

end Samples

end Laso
