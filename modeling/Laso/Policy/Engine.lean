import Laso.Core.Types

/-!
# Policy evaluation

`PolicyEngine.evaluate` decides whether an operation is allowed, denied or needs a human approval.
Egress checks come first; then every rule that names the resource or `*` is folded over the
default, a denying rule ending the scan.

`PolicyEngine.evaluate_decision` gives the decision in closed form: which of the three it is
depends on the egress checks and on whether some matching rule denies or requires approval, not on
the order of the rules.
-/

namespace Laso

inductive PolicyDecision where
  | allow | deny | requireApproval
  deriving DecidableEq, Repr

def PolicyDecision.stricter : PolicyDecision → PolicyDecision → PolicyDecision
  | .allow, d | d, .allow => d
  | .requireApproval, .requireApproval => .requireApproval
  | _, _ => .deny

structure PolicyContext where
  pipelineId : String := ""
  nodeId : String := ""
  resource : String := ""
  classification : String := "public"
  network : Bool := false
  remote : Bool := false
  workerNode : Bool := false
  approvalRequired : Bool := false
  deriving DecidableEq, Repr

structure PolicyResult where
  decision : PolicyDecision
  reason : String
  deriving DecidableEq, Repr

structure PolicyRule where
  resource : String
  decision : PolicyDecision := .deny
  deriving DecidableEq, Repr

structure PolicyEngine where
  rules : List PolicyRule := []
  allowNetwork : Bool := false
  allowRemoteWorkers : List String := []
  deriving DecidableEq, Repr

/-- A rule applies to a resource that it names, or to all with `*`. -/
def PolicyRule.applies (rule : PolicyRule) (resource : String) : Bool :=
  rule.resource == resource || rule.resource == "*"

namespace PolicyEngine

def evaluateRules (resource : String) : PolicyDecision → List PolicyRule → PolicyResult
  | decision, [] =>
    ⟨decision, if decision = .requireApproval then "Human approval required"
      else "Allowed local operation"⟩
  | decision, rule :: rest =>
    if rule.applies resource then
      match rule.decision with
      | .deny => ⟨.deny, "Denied by deployment policy"⟩
      | .requireApproval => evaluateRules resource .requireApproval rest
      | .allow => evaluateRules resource decision rest
    else evaluateRules resource decision rest

variable (engine : PolicyEngine) (c : PolicyContext)

/-- A remote worker that the deployment lists as trusted. -/
def trustedRemoteWorker : Bool :=
  c.remote && c.workerNode && engine.allowRemoteWorkers.contains c.resource

def evaluate : PolicyResult :=
  if (c.network || c.remote) && !engine.allowNetwork && !engine.trustedRemoteWorker c then
    ⟨.deny, "Network access is disabled"⟩
  else if c.remote && !c.workerNode && c.classification != "public" then
    ⟨.deny, "Non-public data cannot leave the process through remote models"⟩
  else
    evaluateRules c.resource (if c.approvalRequired then .requireApproval else .allow) engine.rules

def hasRule (engine : PolicyEngine) (resource : String) (d : PolicyDecision) : Bool :=
  engine.rules.any fun rule => rule.applies resource && rule.decision == d

def deniesEgress : Bool :=
  ((c.network || c.remote) && !engine.allowNetwork && !engine.trustedRemoteWorker c) ||
    (c.remote && !c.workerNode && c.classification != "public")

lemma evaluateRules_decision (resource : String) (start : PolicyDecision) (hs : start ≠ .deny)
    (rules : List PolicyRule) :
    (evaluateRules resource start rules).decision =
      if rules.any fun rule => rule.applies resource && rule.decision == .deny then .deny
      else if rules.any fun rule => rule.applies resource && rule.decision == .requireApproval then
        .requireApproval
      else start := by
  induction rules generalizing start with
  | nil => simp [evaluateRules]
  | cons rule rest ih =>
    unfold evaluateRules
    by_cases ha : rule.applies resource
    · cases hd : rule.decision with
      | allow => simp [ha, hd, ih start hs]
      | deny => simp [ha, hd]
      | requireApproval => simp [ha, hd, ih .requireApproval (by decide)]
    · simp [ha, ih start hs]

lemma evaluate_of_deniesEgress {engine : PolicyEngine} {c : PolicyContext}
    (h : engine.deniesEgress c) : (engine.evaluate c).decision = .deny := by
  unfold evaluate
  split
  · rfl
  rename_i hn
  have hr : (c.remote && !c.workerNode && c.classification != "public") := by
    unfold deniesEgress at h
    simpa [hn] using h
  simp [hr]

lemma evaluate_of_not_deniesEgress {engine : PolicyEngine} {c : PolicyContext}
    (h : engine.deniesEgress c = false) :
    engine.evaluate c =
      evaluateRules c.resource (if c.approvalRequired then .requireApproval else .allow)
        engine.rules := by
  unfold deniesEgress at h
  rw [Bool.or_eq_false_iff] at h
  simp [evaluate, h.1, h.2]

/-- **The decision in closed form.** -/
theorem evaluate_decision : (engine.evaluate c).decision =
      if engine.deniesEgress c || engine.hasRule c.resource .deny then .deny
      else if c.approvalRequired || engine.hasRule c.resource .requireApproval then
        .requireApproval
      else .allow := by
  cases he : engine.deniesEgress c with
  | true => simp [evaluate_of_deniesEgress he]
  | false =>
    rw [evaluate_of_not_deniesEgress he, evaluateRules_decision _ _ (by split <;> decide)]
    cases c.approvalRequired <;> simp [hasRule]

/-- **Lists of rules add up** to the stricter of their decisions, so a rule never permits more. -/
theorem evaluate_append (rules rules' : List PolicyRule) :
    ({ engine with rules := rules ++ rules' }.evaluate c).decision =
      ({ engine with rules }.evaluate c).decision.stricter
        ({ engine with rules := rules' }.evaluate c).decision := by
  have hegress : ∀ rs, deniesEgress { engine with rules := rs } c = engine.deniesEgress c :=
    fun _ => rfl
  have happend : ∀ d, hasRule { engine with rules := rules ++ rules' } c.resource d =
      (hasRule { engine with rules } c.resource d ||
        hasRule { engine with rules := rules' } c.resource d) := fun _ => List.any_append
  simp only [evaluate_decision, hegress, happend]
  grind [PolicyDecision.stricter]

end PolicyEngine

end Laso
