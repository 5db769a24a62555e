import Laso.Runtime.Executor

/-!
# What an executor knows of its run

An executor works on a private copy of its run. Its **view** is what it may rely on while other
operations work on the stored record: the record its copy is based on (the one it adopted or its
last successful write), and the policy answers and approvals it has seen.

`execWatch` says which calls an executor makes in which view, and what a section does to the view.
It is the contract between the code of the executor on one side and the sections on the other:
`Laso.Runtime.ExecutorLaw` proves that the code keeps to it, and the machine that runs executors
proves that its sections have the effects stated here.
-/

namespace Laso

/-- Answers of the policy, with the node and the run they are about. -/
abbrev Answers := List (NodeDefinition × Run × PolicyResult)

structure View where
  /-- The record the private copy is based on. -/
  base : Run
  /-- Answers of the policy so far. -/
  policies : Answers := []
  /-- Approvals read so far. -/
  approvals : List Approval := []
  /-- The run's approvals as listed since its last write. -/
  listing : Option (List Approval) := none

variable (u : View)

def View.saved (r : Run) : View := { u with base := r, listing := none }

def View.note : (q : Req) → q.Resp → View
  | .permission n r, .ok policy => { u with policies := (n, r, policy) :: u.policies }
  | .listApprovals _, .ok approvals =>
    { u with approvals := approvals ++ u.approvals, listing := some approvals }
  | _, _ => u

/-- A private copy of the record `b`. A copy of a record that waits for an approval is only
written back as it is or to end the run. -/
structure Follows (b r : Run) : Prop where
  id : r.id = b.id
  ownership : r.toOwnership = b.toOwnership
  version : r.version = b.version
  visits : ∀ n, b.visits n ≤ r.visits n
  messages : r.OwnMessages
  waiting : b.state = .waitingApproval →
    r.toCursor = b.toCursor ∧ (r.state = .waitingApproval ∨ terminal r.state)

structure Writable (r : Run) : Prop where
  live : terminal u.base.state = false
  follows : Follows u.base r

/-- An approval that has been given for the current visit of a node of a run. -/
def Approval.Grants (a : Approval) (r : Run) (node : String) : Prop :=
  a.runId = r.id ∧ a.nodeId = node ∧ a.visit = r.visits node ∧ a.decision = .approved

/-- The node may be executed on the current message of the run: the policy was asked about it and
does not deny it and, if the node needs an approval, one has been given for this visit. -/
def ClearedBy (policies : Answers) (approvals : List Approval) (r : Run) (n : NodeDefinition) :
    Prop :=
  ∃ r₀ policy, (n, r₀, policy) ∈ policies ∧ r₀.message = r.message ∧
    r₀.pipelineId = r.pipelineId ∧ policy.decision ≠ .deny ∧
    (n.type = "approval" ∨ policy.decision = .requireApproval → ∃ a ∈ approvals, a.Grants r n.id)

/-- The run counts the visit of the node that it was cleared for. -/
def CountedBy (policies : Answers) (approvals : List Approval) (r : Run) (node : String) : Prop :=
  ∃ n r₀, n.id = node ∧ r₀.id = r.id ∧ ClearedBy policies approvals r₀ n ∧
    r.visits node = r₀.visits node + 1

/-- The node has been cleared by what the executor has seen. -/
def Cleared (r : Run) (n : NodeDefinition) : Prop :=
  ClearedBy u.policies u.approvals r n

/-- Records that may be written with the copy `r`. An attempt is completed together with the count
of its visit; only a run that has been paused for a distributed group has counted it before. -/
structure Enclosed (r : Run) (records : List Record) : Prop where
  side : Side records
  counted : ∀ a ∈ attemptsOf records, a.state = .completed →
    CountedBy u.policies u.approvals r a.nodeId ∧
      (u.base.state = .paused ∨ u.base.visits a.nodeId < r.visits a.nodeId)

def Saved (r r' : Run) : Prop :=
  ∃ flag version, r' = { r with cancellationRequested := flag, version := version }

def Touched (r r' : Run) : Prop := ∃ flag, r' = { r with cancellationRequested := flag }

def View.AllowDirect : Req → Prop
  | .nodeExecute r n _ => Cleared u r n
  | .resolvePipeline r n _ => Cleared u r n
  | .listApprovals id => id = u.base.id
  | .peekRun _ | .uuid | .check _ | .external _ | .resolveWorker _ | .permission _ _
  | .openGroup _ _ _ _ | .spawnBranches _ | .parallelState _ | .halt => True
  | _ => False

def View.Allow : Call → Prop
  | .direct q => u.AllowDirect q
  | .checkpoint r _ records => Writable u r ∧ Enclosed u r records
  | .transition r _ _ records =>
    Writable u r ∧ Enclosed u r records ∧ u.base.state ≠ .waitingApproval
  | .park r n _ =>
    Writable u r ∧ r.state = .running ∧ u.base.state = .running ∧ n.id = r.activeNode ∧
      ∃ approvals, u.listing = some approvals ∧ approvedIn r approvals = false
  | .fail r _ _ _ => Writable u r
  | .begin _ | .run _ | .complete _ _ => True

/-- An execution that begins: it fails, or finds the run ended, or adopts a record of it. -/
def View.BeginStep (r : Run) (res : Except Exn Bool) (r' : Run) (u' : View) : Prop :=
  ((∃ e, res = .error e) ∧ r' = r ∧ u' = u) ∨ res = .ok false ∨
  ∃ b, u' = u.saved b ∧ terminal b.state = false ∧ Follows b r' ∧
    ∀ more, res = .ok more → more ∧ b.state = .running ∧ r'.state = .running

/-- The effect of the calls of an executor on its view. -/
def View.Step : (c : Call) → c.Resp → View → Prop
  | .direct q, answer, u' => q.Plausible answer ∧ u' = u.note q answer
  | .begin r, (res, r'), u' => u.BeginStep r res r' u'
  | .checkpoint r _ _, (res, r'), u' =>
    (res = .ok () ∧ Saved r r' ∧ u' = u.saved r') ∨ ((∃ e, res = .error e) ∧ Touched r r' ∧ u' = u)
  | .transition r state _ _, (res, r'), u' =>
    (res = .ok () ∧ Saved { r with state := state } r' ∧ u' = u.saved r') ∨
    ((∃ e, res = .error e) ∧ (r' = r ∨ Touched { r with state := state } r') ∧ u' = u)
  | .park r _ _, (res, r'), u' =>
    (res = .ok () ∧ Saved { r with state := .waitingApproval } r' ∧ u' = u.saved r') ∨
    ((∃ e, res = .error e) ∧ (r' = r ∨ Touched { r with state := .waitingApproval } r') ∧ u' = u)
  | .run _, _, u' => u' = u
  | .fail _ _ _ _, _, _ | .complete _ _, _, _ => True

def execWatch : Watch callSig View where
  Step u c answer u' := u.Step c answer u'
  Allow u c := u.Allow c

end Laso
