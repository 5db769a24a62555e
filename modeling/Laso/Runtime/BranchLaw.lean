import Laso.Runtime.BranchLoop
import Laso.Runtime.View

/-!
# Branches keep their contract

A branch of a parallel group, executed in the process of its run or by another instance, writes no
run and no approval, creates children of its run only, and executes no node that is an approval or
for which the policy has asked for one.

The policy is asked once for each node, before the attempts. An attempt that fails after the
result has replaced the message of the branch is repeated on the new message, so the contract ties
the answer to the node and not to the message.
-/

namespace Laso

open Exec Watch

/-- The policy has allowed a branch to execute the node. -/
def Permitted (answers : Answers) (n : NodeDefinition) : Prop :=
  n.type ≠ "approval" ∧ ∃ r₀ policy, (n, r₀, policy) ∈ answers ∧ policy.decision = .allow

/-- What a branch has seen: answers of the policy and node work. -/
structure Sight where
  answers : Answers := []
  works : List NodeWork := []

def Sight.note (u : Sight) : (q : Req) → q.Resp → Sight
  | .permission n r, .ok policy => { u with answers := (n, r, policy) :: u.answers }
  | .getNodeWork _, .ok w => { u with works := w :: u.works }
  | _, _ => u

/-- The result of node work, written under the lease `key` with this token: a copy of a record the
branch has read, with the token of the lease the work was claimed under. -/
structure Delivers (works : List NodeWork) (duty : Option (String × Nat)) (key : String)
    (token : Nat) (w : NodeWork) : Prop where
  state : w.state = .completed ∨ w.state = .failed
  resource : key = "node:" ++ w.id
  fence : w.fencingToken = token
  claimed : duty = some (w.id, token)
  copy : ∃ b ∈ works, b.id = w.id ∧ b.attemptId = w.attemptId

/-- Calls a branch of the run `root` makes; `duty` is the node work it executes, with the token of
the lease this was claimed under. -/
def Sight.Allow (root : String) (duty : Option (String × Nat)) (u : Sight) : Call → Prop
  | .direct (.nodeExecute r n _) => r.id = root ∧ Permitted u.answers n
  | .direct (.resolvePipeline r n _) => r.id = root ∧ Permitted u.answers n
  | .direct (.commit records) => Plain records ∧ Shelved records
  | .direct (.commitOwned records key _ token) =>
    Plain records ∧
      (Shelved records ∨ ∃ w, worksOf records = [w] ∧ Delivers u.works duty key token w)
  | .direct (.peekRun _) | .direct (.getNodeWork _) | .direct .uuid | .direct (.check _)
  | .direct (.external _) | .direct (.permission _ _) | .direct (.openGroup _ _ _ _)
  | .direct (.parallelState _) | .direct (.branchStep _ _) | .direct (.branchArrive _ _ _)
  | .direct (.branchFail _ _ _) | .direct (.eraseActiveNode _) | .direct (.release _)
  | .direct (.startJob _) | .direct .halt => True
  | .run q => q.parentId = root ∧ q.sessionId = ""
  | _ => False

def branchWatch (root : String) (duty : Option (String × Nat)) : Watch callSig Sight where
  Step u c answer u' :=
    match c, answer with
    | .direct q, answer => q.Plausible answer ∧ u' = u.note q answer
    | _, _ => u' = u
  Allow u c := u.Allow root duty c

variable {root : String} {duty : Option (String × Nat)} {cfg : Config} {u u' : Sight}
  {v : BranchVars} {σ α : Type}

section Rules

variable {s : σ} {Q : α → Sight → σ → Prop} {E : Exn → Sight → σ → Prop}

section

variable {q : Req} {Q : q.Resp → Sight → σ → Prop} (ha : u.Allow root duty (.direct q))
include ha

lemma branch_wp_plausible (hQ : ∀ a, q.Plausible a → Q a (u.note q a) s) :
    (branchWatch root duty).wp (direct q) Q E u s := by
  refine ⟨ha, ?_⟩
  rintro a _ ⟨hp, rfl⟩
  exact hQ a hp

lemma branch_wp_direct (hQ : ∀ a, Q a (u.note q a) s) :
    (branchWatch root duty).wp (direct q) Q E u s :=
  branch_wp_plausible ha fun a _ => hQ a

end

lemma branch_wp_uuid {Q : String → Sight → σ → Prop} (hQ : ∀ id, Q id u s) :
    (branchWatch root duty).wp uuid Q E u s :=
  branch_wp_direct trivial hQ

lemma branch_wp_halt : (branchWatch root duty).wp (halt : Exec σ α) Q E u s :=
  of_bind (branch_wp_direct trivial nofun)

lemma branch_wp_try {x : Except Exn α} (hQ : ∀ a, Q a u s) (hE : ∀ e, E e u s) :
    (branchWatch root duty).wp (try_ x) Q E u s := by
  cases x with
  | ok a => exact hQ a
  | error e => exact hE e

lemma branch_wp_fetch {x : Except Error α} (hQ : ∀ a, Q a u s) (hE : ∀ e, E (.error e) u s) :
    (branchWatch root duty).wp (fetch x) Q E u s := by
  cases x with
  | ok a => exact hQ a
  | error e => exact hE e

lemma branch_wp_external {what : External} {Q : Unit → Sight → σ → Prop} (hQ : Q () u s)
    (hE : ∀ e, E e u s) :
    (branchWatch root duty).wp (direct (.external what))
      (fun a u' s' => (branchWatch root duty).wp (try_ a) Q E u' s') E u s :=
  branch_wp_direct trivial fun _ => branch_wp_try (fun _ => hQ) hE

end Rules

def OnBranch (root : String) (_ : Sight) (v : BranchVars) : Prop := v.branch.id = root

def AtNode (root : String) (n : NodeDefinition) (u : Sight) (v : BranchVars) : Prop :=
  v.branch.id = root ∧ Permitted u.answers n

variable {Q : Unit → Sight → BranchVars → Prop} {E : Exn → Sight → BranchVars → Prop} {s : Unit}

variable (job : BranchJob)

lemma checkBranch_wp (hQ : Q () u v)
    (hE : ∀ e, E e u v) : (branchWatch root duty).wp (checkBranch job) Q E u v := by
  simp only [checkBranch, wp_bind, wp_get]
  exact branch_wp_direct trivial fun _ => branch_wp_try (fun _ => hQ) hE

lemma persist_wp {records : List Record} (hp : Plain records) (hw : worksOf records = [])
    (hQ : Q () u v) (hE : ∀ e, E e u v) : (branchWatch root duty).wp (persist job records) Q E u v := by
  unfold persist
  split
  · refine of_bind (branch_wp_direct ?_ fun _ => of_bind ?_)
    · exact ⟨hp, .inl (shelved_of_nil hw)⟩
    · exact branch_wp_fetch (fun _ => hQ) fun _ => hE _
  refine of_bind (branch_wp_direct ?_ fun _ => of_bind ?_)
  · exact ⟨hp, shelved_of_nil hw⟩
  · exact branch_wp_fetch (fun _ => hQ) fun _ => hE _

variable {n : NodeDefinition}

lemma AtNode.onBranch (h : AtNode root n u v) : OnBranch root u v := h.1

lemma Permitted.noted {q : Req} (h : Permitted u.answers n) (a : q.Resp) :
    Permitted (u.note q a).answers n := by
  obtain ⟨htype, r, policy, hmem, hallow⟩ := h
  refine ⟨htype, r, policy, ?_, hallow⟩
  unfold Sight.note
  split
  · exact List.mem_cons_of_mem _ hmem
  all_goals exact hmem

lemma atNode_routine : BranchRoutine (branchWatch root duty) (·.id = root) n (AtNode root n) where
  branch _ _ h := h.1
  attempt _ _ _ h := h
  direct q u v h hq := by
    refine ⟨?_, ?_⟩
    · unfold Req.OfBranch at hq
      split at hq
      all_goals first | trivial | exact absurd hq id | skip
      · exact ⟨⟨rfl, rfl⟩, shelved_of_nil rfl⟩
      · exact ⟨⟨rfl, rfl⟩, .inl (shelved_of_nil rfl)⟩
      · exact ⟨hq.1, hq.2 ▸ h.2⟩
      · exact ⟨hq.1, hq.2 ▸ h.2⟩
    · rintro answer _ ⟨-, rfl⟩
      exact ⟨h.1, h.2.noted answer⟩
  run q r u v h hr hparent hsession := by
    refine ⟨⟨hparent.trans hr, hsession⟩, ?_⟩
    rintro answer _ rfl
    exact h

variable (fuel : Nat)

lemma branchRoute_id (p : PipelineDefinition) (n : NodeDefinition) (condition : String) (b : Run) :
    (branchRoute p n condition b).2.id = b.id := by
  unfold branchRoute
  split
  · have hc := (countEdge_moved ‹EdgeDefinition› b).id
    simp only
    split
    · exact hc
    · exact hc
  · rfl

lemma acceptBranchResult_wp (result : NodeResult) (h : AtNode root n u v) :
    (branchWatch root duty).wp (acceptBranchResult job n result) (fun _ => AtNode root n)
      (fun _ => AtNode root n) u v := by
  simp only [acceptBranchResult, wp_bind]
  refine branch_wp_uuid fun id => ?_
  refine persist_wp job ⟨rfl, rfl⟩ rfl ?_ fun _ => h
  have hroute : ∀ b : Run, b.id = root →
      (branchRoute job.pipeline n result.condition b).2.id = root := fun b hb =>
    (branchRoute_id job.pipeline n result.condition b).trans hb
  exact branch_wp_try (fun _ => ⟨hroute _ h.1, h.2⟩) fun _ => ⟨hroute _ h.1, h.2⟩

lemma branchGate_wp (n : NodeDefinition) (h : OnBranch root u v) :
    (branchWatch root duty).wp (branchGate n) (fun _ => AtNode root n)
      (fun _ => OnBranch root) u v := by
  simp only [branchGate, wp_bind, wp_get]
  refine branch_wp_direct trivial fun answer => ?_
  cases answer with
  | error e => exact h
  | ok policy =>
  refine of_ite ⟨fun _ => h, fun hdeny => ?_⟩
  refine of_ite ⟨fun _ => h, fun hneed => ⟨h, fun ht => hneed (.inr ht), ?_⟩⟩
  refine ⟨v.branch, policy, List.mem_cons_self, ?_⟩
  cases hd : policy.decision with
  | allow => rfl
  | deny => exact absurd hd hdeny
  | requireApproval => exact absurd (.inl hd) hneed

lemma branchLoop_wp (h : OnBranch root u v) :
    (branchWatch root duty).wp (branchLoop cfg job fuel) (fun _ => OnBranch root)
      (fun _ => OnBranch root) u v := by
  induction fuel generalizing u v with
  | zero => exact branch_wp_halt
  | succ fuel ih =>
    simp only [branchLoop, wp_bind, wp_get]
    unfold nodeAt
    split
    · refine of_if ?_ ?_
      · simp only [wp_bind]
        exact branch_wp_direct trivial fun _ => branch_wp_try (fun _ => h) fun _ => h
      simp only [wp_bind]
      refine branch_wp_direct trivial fun _ => branch_wp_try (fun _ => ?_) fun _ => h
      refine checkBranch_wp job ?_ fun _ => h
      refine wp_imp (branchGate_wp _ h) ?_
      intro _ u v h
      refine branch_wp_external ?_ fun _ => h.onBranch
      exact wp_mono (atNode_routine.branchAttempts fuel
        (fun result _ _ h => acceptBranchResult_wp job result h) _ h) (fun _ _ _ h => ih h.onBranch)
        fun _ _ _ h => h.onBranch
    · exact h

lemma executeBranch_wp {s : σ} (fuel : Nat) (job : BranchJob)
    (hroot : job.token.message.runId = root) :
    (branchWatch root duty).Safe (executeBranch cfg fuel job) u s := by
  simp only [executeBranch, wp_bind, wp_localVar, wp_capture]
  refine wp_mono (branchLoop_wp job fuel hroot) (fun _ _ _ _ => trivial) ?_
  intro e u v _
  cases e with
  | error | other => exact branch_wp_direct trivial fun _ => trivial

/-! ## Distributed branches -/

lemma commitNodeOwned_wp {Q : Unit → Sight → σ → Prop} {E : Exn → Sight → σ → Prop} {s : σ}
    {work : NodeWork} {lease : LeaseRecord}
    (h : work.Idle ∨ Delivers u.works duty ("node:" ++ work.id) lease.fencingToken work)
    (hQ : Q () u s) (hE : ∀ e, E e u s) :
    (branchWatch root duty).wp (commitNodeOwned work lease) Q E u s := by
  simp only [commitNodeOwned, wp_bind]
  refine branch_wp_direct ⟨⟨rfl, rfl⟩, ?_⟩ fun _ =>
    branch_wp_fetch (fun _ => hQ) fun _ => hE _
  exact h.imp shelved_singleton fun hresult => ⟨work, rfl, hresult⟩

lemma branch_wp_getNodeWork {id : String} {Q : NodeWork → Sight → σ → Prop}
    {E : Exn → Sight → σ → Prop} {s : σ}
    (hQ : ∀ w, w.id = id → Q w { u with works := w :: u.works } s) (hE : ∀ e, E (.error e) u s) :
    (branchWatch root duty).wp (direct (.getNodeWork id))
      (fun a u' s' => (branchWatch root duty).wp (fetch a) Q E u' s') E u s := by
  refine branch_wp_plausible trivial fun a hp => ?_
  cases a with
  | ok w => exact hQ w hp
  | error e => exact hE e

lemma Delivers.ofRead {b w : NodeWork} {works : List NodeWork} {token : Nat} (hb : b ∈ works)
    (hid : w.id = b.id) (hattempt : w.attemptId = b.attemptId)
    (hstate : w.state = .completed ∨ w.state = .failed) (hfence : w.fencingToken = token) :
    Delivers works (some (b.id, token)) ("node:" ++ w.id) token w where
  state := hstate
  resource := rfl
  fence := hfence
  claimed := by rw [hid]
  copy := ⟨b, hb, hid.symm, hattempt.symm⟩

lemma idle_cancelledWork (work : NodeWork) : (cancelledWork work).Idle := .inr rfl

variable (fuel : Nat) (work : NodeWork) (lease : LeaseRecord)

section

variable (hroot : work.token.message.runId = root) (hduty : duty = some (work.id, lease.fencingToken))
include hroot hduty

lemma performWork_wp :
    (branchWatch root duty).Safe (performWork cfg fuel work lease) u s := by
  simp only [performWork, wp_bind]
  refine branch_wp_direct trivial fun _ => branch_wp_fetch (fun r => ?_) fun _ => trivial
  refine of_if ?_ ?_
  · simp only [wp_bind]
    refine branch_wp_getNodeWork (fun current _ => ?_) fun _ => trivial
    exact commitNodeOwned_wp (.inl (idle_cancelledWork current)) trivial fun _ => trivial
  simp only [wp_bind]
  refine branch_wp_try (fun p => branch_wp_uuid fun group => ?_) fun _ => trivial
  refine of_bind (branch_wp_direct trivial fun _ => ?_)
  simp only [wp_bind]
  refine branch_wp_external ?_ fun _ => trivial
  refine wp_imp_ok (executeBranch_wp fuel _ hroot) ?_
  intro _ u _ _
  refine branch_wp_getNodeWork (fun completed hid => ?_) fun _ => trivial
  refine branch_wp_direct trivial fun _ => branch_wp_fetch (fun current => ?_) fun _ => trivial
  refine of_if ?_ ?_
  · exact commitNodeOwned_wp (.inl (idle_cancelledWork completed)) trivial fun _ => trivial
  simp only [wp_bind]
  refine branch_wp_direct trivial fun state => ?_
  rcases state with _ | g
  · trivial
  refine of_if trivial ?_
  split
  · trivial
  rw [hduty, ← hid]
  refine commitNodeOwned_wp (.inr ?_) trivial fun _ => trivial
  exact .ofRead List.mem_cons_self rfl rfl (.inl rfl) rfl

lemma executeDistributedWork_wp :
    (branchWatch root duty).Safe (executeDistributedWork cfg fuel work lease) u s := by
  simp only [executeDistributedWork, wp_bind, wp_capture]
  refine wp_mono (performWork_wp fuel work lease hroot hduty) (fun _ _ _ _ => trivial) ?_
  intro e u s _
  simp only [wp_ite, wp_tryCatch, wp_bind]
  refine ⟨fun _ => trivial, fun _ => ?_⟩
  refine branch_wp_getNodeWork (fun current hid => ?_) fun _ => trivial
  rw [hduty, ← hid]
  refine commitNodeOwned_wp ?_ trivial fun _ => trivial
  by_cases hcancel : failureCode e = .cancellation
  · exact .inl (.inr (if_pos hcancel))
  · exact .inr (.ofRead List.mem_cons_self rfl rfl (.inr (if_neg hcancel)) rfl)

end

/-- **Branches keep their contract.** -/
theorem branch_sat (job : BranchJob) :
    (branchWatch job.token.message.runId duty).Sat ((executeBranch cfg fuel job).prog ())
      (fun _ _ => True) u :=
  Watch.Sat.mono (executeBranch_wp fuel job rfl) fun _ _ _ => trivial

lemma releaseSlots_wp (leases : List LeaseRecord) :
    (branchWatch root duty).Safe (releaseSlots leases) u s := by
  induction leases generalizing u s with
  | nil => trivial
  | cons lease rest ih =>
    exact of_bind (branch_wp_direct trivial fun _ => ih)

lemma workExecutor_wp (slots : List LeaseRecord) (hroot : work.token.message.runId = root)
    (hduty : duty = some (work.id, lease.fencingToken)) :
    (branchWatch root duty).Safe (workExecutor cfg fuel work lease slots) u s := by
  have hfinish : ∀ (u : Sight) (s : Unit), (branchWatch root duty).Safe
      (finishWork work.id (slots ++ [lease])) u s :=
    fun u s => of_bind (branch_wp_direct trivial fun _ => releaseSlots_wp _)
  simp only [workExecutor, wp_bind, wp_capture]
  exact wp_mono (executeDistributedWork_wp fuel work lease hroot hduty)
    (fun _ u s _ => hfinish u s) fun _ u s _ => hfinish u s

/-- **So do distributed branches.** -/
theorem distributed_sat (slots : List LeaseRecord) :
    (branchWatch work.token.message.runId (some (work.id, lease.fencingToken))).Sat
      ((workExecutor cfg fuel work lease slots).prog ()) (fun _ _ => True) u :=
  Watch.Sat.mono (workExecutor_wp fuel work lease slots rfl rfl) fun _ _ _ => trivial

end Laso
