import Laso.Runtime.Executor

/-!
# The routine parts of a branch

What `Routine` is for the main loop, `BranchRoutine` is for the loop of a branch: most of its
functions ask components and write the current attempt, and leave alone the node, the message and
the counters of the branch. The functions that do more are `acceptBranchResult`, which takes over
a result and moves on, and `branchLoop` itself, which counts the step and arrives at the join.

A law of branches is then an instance of `BranchRoutine` for the condition that holds at a node,
and the cases of these two.
-/

namespace Laso

open Exec Watch

/-- Calls made at the node `n` for the sake of a run with the property `P`. -/
def Req.OfBranch (P : Run → Prop) (n : NodeDefinition) : Req → Prop
  | .check _ | .external _ | .permission _ _ | .uuid | .peekRun _ | .startJob _ | .halt
  | .commit [.attempt _] | .commitOwned [.attempt _] _ _ _ => True
  | .resolvePipeline r m _ | .nodeExecute r m _ => P r ∧ m = n
  | _ => False

/-- Executing the node `n`, up to its result, keeps the condition `I`. -/
structure BranchRoutine {G : Type} (W : Watch callSig G) (P : Run → Prop) (n : NodeDefinition)
    (I : G → BranchVars → Prop) : Prop where
  branch : ∀ g v, I g v → P v.branch
  attempt : ∀ g v a, I g v → I g { v with attempt := a }
  direct : ∀ q g v, I g v → q.OfBranch P n →
    W.Allow g (.direct q) ∧ ∀ answer g', W.Step g (.direct q) answer g' → I g' v
  run : ∀ q r g v, I g v → P r → q.parentId = r.id → q.sessionId = "" →
    W.Allow g (.run q) ∧ ∀ answer g', W.Step g (.run q) answer g' → I g' v

namespace BranchRoutine

variable {G α : Type} {W : Watch callSig G} {P : Run → Prop} {n : NodeDefinition}
  {I : G → BranchVars → Prop} {cfg : Config}

lemma call (h : BranchRoutine W P n I) {q : Req} (hq : q.OfBranch P n) :
    W.Keeps I (Exec.direct q : Exec BranchVars _) := keeps_call fun g v hI => h.direct q g v hI hq

lemma wp_call (h : BranchRoutine W P n I) {q : Req} (hq : q.OfBranch P n) {g : G} {v : BranchVars}
    (hI : I g v) {Q : q.Resp → G → BranchVars → Prop} {E : Exn → G → BranchVars → Prop}
    (hQ : ∀ answer g', I g' v → Q answer g' v) : W.wp (Exec.direct q) Q E g v :=
  ⟨(h.direct q g v hI hq).1, fun a g' hs => hQ a g' ((h.direct q g v hI hq).2 a g' hs)⟩

lemma setAttempt (h : BranchRoutine W P n I) {f : BranchVars → NodeExecution} :
    W.Keeps I (modify fun v => { v with attempt := f v } : Exec BranchVars PUnit) :=
  keeps_modify fun g v hI => h.attempt g v (f v) hI

lemma fetch (x : Except Error α) : W.Keeps I (Exec.fetch x : Exec BranchVars α) := by
  cases x with
  | ok a => exact keeps_pure a
  | error e => exact keeps_throw _

section

variable (h : BranchRoutine W P n I)
include h

lemma halt : W.Keeps I (Exec.halt : Exec BranchVars α) := keeps_bind (h.call trivial) nofun

lemma external {what : External} {rest : Unit → Exec BranchVars α}
    (hrest : ∀ a, W.Keeps I (rest a)) :
    W.Keeps I (do let a ← Exec.direct (.external what); try_ a >>= rest) :=
  keeps_bind (h.call trivial) fun _ => keeps_bind (keeps_ofExcept _) hrest

variable (job : BranchJob)

lemma checkBranch : W.Keeps I (checkBranch job) :=
  keeps_get_bind fun _ _ _ => keeps_bind (h.call trivial) fun _ => keeps_ofExcept _

/-- The attempt is stored, under the claim if there is one. -/
lemma persist (a : NodeExecution) : W.Keeps I (persist job [.attempt a]) := by
  unfold Laso.persist
  split
  · exact keeps_bind (h.call trivial) fun _ => keeps_bind (fetch _) fun _ => keeps_pure _
  · exact keeps_bind (h.call trivial) fun _ => keeps_bind (fetch _) fun _ => keeps_pure _

/-- By induction on the fuel. -/
lemma awaitBranchChild (childId : String) (fuel : Nat) :
    W.Keeps I (awaitBranchChild job childId fuel) := by
  induction fuel with
  | zero => exact h.halt
  | succ fuel ih =>
    refine keeps_bind (h.checkBranch job) fun _ => keeps_bind (h.call trivial) fun _ =>
      keeps_bind (fetch _) fun child => ?_
    refine keeps_if (keeps_if (keeps_throw _) (keeps_pure _)) ?_
    exact keeps_bind (h.checkBranch job) fun _ => ih

lemma recordJob (n : NodeDefinition) : W.Keeps I (recordJob job n) := by
  refine keeps_if (keeps_bind (h.call trivial) fun started => ?_) (keeps_pure _)
  cases started with
  | none => exact keeps_pure _
  | some id => exact keeps_bind h.setAttempt fun _ => keeps_get_bind fun _ _ _ => h.persist job _

/-- The node is executed, or its subpipeline. -/
lemma branchBody (fuel : Nat) (job : BranchJob) (number : Nat) :
    W.Keeps I (branchBody cfg fuel job n number) := by
  refine keeps_get_bind fun g v hI => ?_
  have hbranch : P v.branch := h.branch g v hI
  refine keeps_if ?_ ?_
  · refine h.external fun _ => keeps_when (fun _ => keeps_throw _) fun _ => ?_
    refine keeps_bind (h.call ⟨hbranch, rfl⟩) fun _ => keeps_bind (keeps_ofExcept _) fun _ =>
      keeps_bind (keeps_call fun g v hI => h.run _ _ g v hI hbranch rfl rfl) fun created => ?_
    exact keeps_bind (keeps_ofExcept _) fun _ => keeps_bind h.setAttempt fun _ =>
      h.awaitBranchChild job _ fuel
  · refine keeps_bind (h.checkBranch job) fun _ => keeps_bind (h.checkBranch job) fun _ => ?_
    exact h.external fun _ => keeps_bind (h.recordJob job n) fun _ =>
      keeps_bind (h.call ⟨hbranch, rfl⟩) fun _ => keeps_ofExcept _

lemma checkBranchResult (n : NodeDefinition) (result : NodeResult) :
    W.Keeps I (checkBranchResult job n result) := by
  refine keeps_bind (h.checkBranch job) fun _ => h.external fun _ => ?_
  exact keeps_if (keeps_bind (h.call trivial) fun _ => keeps_ofExcept _) (keeps_pure _)

/-- A failure is stored before the next attempt. -/
lemma failBranchAttempt (last : Bool) (e : Error) : W.Keeps I (failBranchAttempt job last e) := by
  refine keeps_bind h.setAttempt fun _ => keeps_get_bind fun _ _ _ =>
    keeps_bind (h.persist job _) fun _ => ?_
  exact keeps_if (keeps_throw _) <| h.checkBranch job

lemma branchGate (n : NodeDefinition) : W.Keeps I (branchGate n) := by
  refine keeps_get_bind fun _ _ _ => keeps_bind (h.call trivial) fun _ =>
    keeps_bind (keeps_ofExcept _) fun policy => ?_
  exact keeps_if (keeps_throw _) <| keeps_if (keeps_throw _) (keeps_pure _)

/-- The attempts at a node: a result that is accepted leads on (`J`), everything else leaves the
branch at the node. -/
lemma branchAttempts {J : G → BranchVars → Prop} {job : BranchJob} (fuel : Nat)
    (haccept : ∀ result g v, I g v →
      W.wp (acceptBranchResult job n result) (fun _ => J) (fun _ => I) g v)
    (left : Nat) {g : G} {v : BranchVars} (hI : I g v) :
    W.wp (branchAttempts cfg fuel job n left) (fun _ => J) (fun _ => I) g v := by
  induction left generalizing g v with
  | zero => exact hI
  | succ left ih =>
    have hattempt : ∀ number g v, I g v →
        W.wp (branchAttempt cfg fuel job n number) (fun _ => J) (fun _ => I) g v := by
      intro number g v hI
      refine (wp_bind _ _).mpr (wp_imp (h.branchBody fuel job number g v hI) ?_)
      intro result g v hI
      exact (wp_bind _ _).mpr (wp_imp (h.checkBranchResult job n result g v hI)
        fun _ => haccept result)
    simp only [Laso.branchAttempts, wp_bind]
    refine h.wp_call (q := .external (.deadline n)) trivial hI fun a g hI => ?_
    refine wp_imp (keeps_ofExcept a g v hI) fun _ g v hI => ?_
    refine h.wp_call (q := .uuid) trivial hI fun fresh g hI => ?_
    simp only [wp_modify, wp_get]
    refine wp_imp (h.persist job _ g _ (h.attempt g v _ hI)) fun _ g v hI => ?_
    refine (wp_capture _).mpr (wp_mono (hattempt _ g v hI) (fun _ _ _ hJ => hJ) ?_)
    intro e g v hI
    cases e with
    | other => exact hI
    | error e =>
      exact (wp_bind _ _).mpr (wp_imp (h.failBranchAttempt job _ e g v hI) fun _ g v hI => ih hI)

end

end BranchRoutine

end Laso
