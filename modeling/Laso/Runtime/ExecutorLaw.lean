import Laso.Runtime.View

/-!
# Executors keep their contract

The code of the executor makes only the calls that `execWatch` permits, whatever the answers
(`executor_sat`).

The main loop works in these conditions on the view and the frame: `Idle` between nodes, where copy
and base are both running; `Ready` when a node has been cleared, and `Engaged` inside one of its
attempts, where copy and base agree and may be waiting for a component; `Caught` after an exception,
where a failed checkpoint may have left the copy in a state that was never stored. Once a result is
accepted the copy counts the visit, while its base does not (`Tallied`), until both are stored
together with the completed attempt.
-/

namespace Laso

open Exec Watch RunState

variable {cfg : Config} {u u' : View} {v v' : Frame} {α : Type}

/-! ## Proof rules for the calls of an executor -/

section Rules

variable {σ : Type} {s : σ} {Q : α → View → σ → Prop} {E : Exn → View → σ → Prop}

/-- A direct call is permitted, and any plausible answer is noted. -/
@[simp] lemma wp_direct (q : Req) {Q : q.Resp → View → σ → Prop} :
    execWatch.wp (direct q) Q E u s ↔
      u.AllowDirect q ∧ ∀ a, q.Plausible a → Q a (u.note q a) s := by
  refine and_congr Iff.rfl ⟨fun h a ha => h a _ ⟨ha, rfl⟩, ?_⟩
  rintro h a _ ⟨ha, rfl⟩
  exact h a ha

@[simp] lemma wp_uuid {Q : String → View → σ → Prop} :
    execWatch.wp uuid Q E u s ↔ ∀ id, Q id u s := by
  refine (wp_direct .uuid).trans ⟨fun h id => h.2 id trivial, fun h => ⟨trivial, fun id _ => h id⟩⟩

@[simp] lemma wp_halt : execWatch.wp (halt : Exec σ α) Q E u s := by
  refine of_bind ((wp_direct .halt).mpr ⟨trivial, ?_⟩)
  rintro ⟨⟩

@[simp] lemma wp_fail (code : ErrorCode) (message : String) :
    execWatch.wp (fail code message) Q E u s ↔ E (Exn.of code message) u s := Iff.rfl

lemma wp_try_ {x : Except Exn α} : execWatch.wp (try_ x) Q E u s ↔
      (∀ a, x = .ok a → Q a u s) ∧ ∀ e, x = .error e → E e u s := by
  cases x <;> simp [try_]

lemma wp_fetch {x : Except Error α} : execWatch.wp (fetch x) Q E u s ↔
      (∀ a, x = .ok a → Q a u s) ∧ ∀ e, x = .error e → E (.error e) u s := by
  cases x <;> simp [fetch]

/-- The nodes of a definition are read with `at`, which throws. -/
lemma wp_nodeAt {p : PipelineDefinition} {id : String} {Q : NodeDefinition → View → σ → Prop} :
    execWatch.wp (nodeAt p id) Q E u s ↔
      (∀ n, p.nodes.get id = some n → Q n u s) ∧ (p.nodes.get id = none → E .other u s) := by
  unfold nodeAt
  cases p.nodes.get id <;> simp

end Rules

section FrameRules

variable {Q : α → View → Frame → Prop} {E : Exn → View → Frame → Prop}

@[simp] lemma wp_modifyRun {Q : Unit → View → Frame → Prop} (f : Run → Run) :
    execWatch.wp (modifyRun f) Q E u v ↔ Q () u { v with r := f v.r } := Iff.rfl

lemma wp_onOutcome {x : Except Exn α × Run} : execWatch.wp (onOutcome x) Q E u v ↔
      (∀ a, x.1 = .ok a → Q a u { v with r := x.2 }) ∧
        ∀ e, x.1 = .error e → E e u { v with r := x.2 } := by
  simp only [onOutcome, wp_bind, wp_modify, wp_try_]

variable {records : List Record} {type : String}

/-- A checkpoint stores the copy, or fails and leaves at most its flag changed. -/
lemma wp_checkpointRun {Q : Unit → View → Frame → Prop}
    (hw : Writable u v.r) (hp : Enclosed u v.r records)
    (hok : ∀ r', Saved v.r r' → Q () (u.saved r') { v with r := r' })
    (herr : ∀ e r', Touched v.r r' → E e u { v with r := r' }) :
    execWatch.wp (checkpointRun type records) Q E u v := by
  simp only [checkpointRun, wp_bind, wp_get]
  refine of_call ⟨⟨hw, hp⟩, ?_⟩
  rintro ⟨res, r'⟩ u' (⟨rfl, hs, rfl⟩ | ⟨⟨e, rfl⟩, ht, rfl⟩)
  · exact wp_onOutcome.mpr ⟨fun _ _ => hok r' hs, by simp⟩
  · exact wp_onOutcome.mpr ⟨(by simp), fun e' _ => herr e' r' ht⟩

/-- A transition that fails may leave the new state in the copy, although it was never stored. -/
lemma wp_transitionRun {Q : Unit → View → Frame → Prop} {state : RunState}
    (hw : Writable u v.r) (hp : Enclosed u v.r records) (hb : u.base.state ≠ .waitingApproval)
    (hok : ∀ r', Saved { v.r with state := state } r' → Q () (u.saved r') { v with r := r' })
    (herr : ∀ e r' s, s = v.r.state ∨ s = state → Touched { v.r with state := s } r' →
      E e u { v with r := r' }) :
    execWatch.wp (transitionRun state type records) Q E u v := by
  simp only [transitionRun, wp_bind, wp_get]
  refine of_call ⟨⟨hw, hp, hb⟩, ?_⟩
  rintro ⟨res, r'⟩ u' (⟨rfl, hs, rfl⟩ | ⟨⟨e, rfl⟩, rfl | ht, rfl⟩)
  · exact wp_onOutcome.mpr ⟨fun _ _ => hok r' hs, by simp⟩
  · exact wp_onOutcome.mpr ⟨(by simp), fun e' _ => herr e' _ _ (.inl rfl) ⟨_, rfl⟩⟩
  · exact wp_onOutcome.mpr ⟨(by simp), fun e' _ => herr e' r' state (.inr rfl) ht⟩

lemma wp_check {Q : Unit → View → Frame → Prop} (hQ : Q () u v) (hE : ∀ e, E e u v) :
    execWatch.wp check Q E u v := by
  simp only [check, wp_bind, wp_get, wp_direct]
  exact ⟨trivial, fun a _ => wp_try_.mpr ⟨fun _ _ => hQ, fun e _ => hE e⟩⟩

lemma wp_external {Q : Unit → View → Frame → Prop} {what : External} (hQ : Q () u v)
    (hE : ∀ e, E e u v) :
    execWatch.wp (direct (.external what))
      (fun a u' v' => execWatch.wp (try_ a) Q E u' v') E u v :=
  (wp_direct _).mpr ⟨trivial, fun _ _ => wp_try_.mpr ⟨fun _ _ => hQ, fun e _ => hE e⟩⟩

end FrameRules

variable {r r' : Run} {records : List Record}

lemma enclosed_nil : Enclosed u r [] := ⟨side_nil, nofun⟩

/-- An attempt that is not completed counts nothing. -/
lemma enclosed_attempt {a : NodeExecution} (h : a.state ≠ .completed) : Enclosed u r [.attempt a] where
  side := side_attempt a
  counted b hb hdone := by
    rw [List.mem_singleton.mp hb] at hdone
    exact absurd hdone h

lemma Enclosed.queue {w : NodeWork} (h : Enclosed u r records) (hw : w.state = .queued) :
    Enclosed u r (.nodeWork w :: records) :=
  ⟨h.side.queue hw, h.counted⟩

/-! ## Conditions of the main loop -/

/-- The copy may be written. -/
structure Caught (u : View) (v : Frame) : Prop where
  writable : Writable u v.r
  base : u.base.state ≠ .waitingApproval

/-- Between nodes the copy and its base are running. -/
structure Idle (u : View) (v : Frame) : Prop extends Caught u v where
  running : v.r.state = .running
  stored : u.base.state = .running

/-- The run has neither ended nor been parked for an approval. -/
def RunState.awake (s : RunState) : Prop := terminal s = false ∧ s ≠ .waitingApproval

def RunState.engaged : RunState → Bool
  | .running | .waitingTool | .waitingModel | .waitingWorker => true
  | _ => false

variable {s state : RunState}

lemma RunState.awake_of_engaged (h : s.engaged) : s.awake := by
  cases s <;> simp_all [engaged, awake, terminal]

/-- The node has been cleared, and the copy and its base agree. -/
structure Ready (n : NodeDefinition) (u : View) (v : Frame) : Prop extends Caught u v where
  state : v.r.state = u.base.state
  engaged : v.r.state.engaged
  cleared : Cleared u v.r n

/-- Inside an attempt of the node. -/
structure Engaged (n : NodeDefinition) (u : View) (v : Frame) : Prop extends Ready n u v where
  node : v.attempt.nodeId = n.id
  unfinished : v.attempt.state ≠ .completed

structure Alive (u : View) (v : Frame) : Prop extends Caught u v where
  awake : v.r.state.awake

/-- After an exception in an attempt the node is still cleared. -/
structure Struck (n : NodeDefinition) (u : View) (v : Frame) : Prop extends Alive u v where
  cleared : Cleared u v.r n

/-- The attempt is complete. The copy counts its visit, and its base does not, unless it is the
record that was stored when the run paused for a distributed group. -/
structure Tallied (n : NodeDefinition) (u : View) (v : Frame) : Prop where
  node : v.attempt.nodeId = n.id
  counted : CountedBy u.policies u.approvals v.r n.id
  raised : u.base.state = .paused ∨ u.base.visits n.id < v.r.visits n.id

/-- The result of the node has been accepted and is not stored yet. -/
structure Settling (n : NodeDefinition) (u : View) (v : Frame) : Prop
    extends Idle u v, Tallied n u v

/-- An exception has come between a result and its checkpoint. -/
structure Unsettled (n : NodeDefinition) (u : View) (v : Frame) : Prop
    extends Alive u v, Tallied n u v

lemma Follows.refl (hm : r.OwnMessages) : Follows r r where
  id := rfl
  ownership := rfl
  version := rfl
  visits _ := le_rfl
  messages := hm
  waiting hb := ⟨rfl, .inl hb⟩

/-- What the code may change in a copy whose base does not wait for an approval. -/
lemma Caught.writes (h : Caught u v) (hid : r.id = v.r.id)
    (hownership : r.toOwnership = v.r.toOwnership) (hversion : r.version = v.r.version)
    (hvisits : ∀ n, v.r.visits n ≤ r.visits n) (hmessages : r.OwnMessages) : Writable u r where
  live := h.writable.live
  follows :=
    { id := hid.trans h.writable.follows.id
      ownership := hownership.trans h.writable.follows.ownership
      version := hversion.trans h.writable.follows.version
      visits := fun n => (h.writable.follows.visits n).trans (hvisits n)
      messages := hmessages
      waiting := fun hw => absurd hw h.base }

lemma Moved.visits (h : Moved r r') (n : String) : r'.visits n = r.visits n := by
  unfold Cursor.visits
  rw [h.nodeVisits]

/-! ### Changes of the copy -/

lemma Caught.moved (h : Caught u v) (hm : Moved v.r r') : Caught u { v with r := r' } :=
  { h with
    writable := h.writes hm.id hm.ownership hm.version (fun n => (hm.visits n).ge)
      (hm.messages h.writable.follows.messages) }

lemma Idle.moved (h : Idle u v) (hm : Moved v.r r') : Idle u { v with r := r' } :=
  { h.toCaught.moved hm with
    running := hm.state.trans h.running
    stored := h.stored }

lemma Tallied.moved {n : NodeDefinition} (h : Tallied n u v) (hm : Moved v.r r') :
    Tallied n u { v with r := r' } where
  node := h.node
  counted := by
    obtain ⟨m, r₀, hm', hid, hcleared, hvisits⟩ := h.counted
    exact ⟨m, r₀, hm', hid.trans hm.id.symm, hcleared, (hm.visits _).trans hvisits⟩
  raised := by
    rw [show Cursor.visits _ n.id = _ from hm.visits n.id]
    exact h.raised

/-- A write that fails leaves a copy that may still be written. -/
lemma Caught.touched (h : Caught u v) {x : RunState} (ht : Touched { v.r with state := x } r') :
    Caught u { v with r := r' } := by
  obtain ⟨flag, rfl⟩ := ht
  exact { h with
    writable := h.writes rfl rfl rfl (fun _ => le_rfl) { h.writable.follows.messages with } }

/-- A write that succeeds makes the copy its own base. -/
lemma Caught.saved (h : Caught u v) {x : RunState} (hs : Saved { v.r with state := x } r')
    (ha : x.awake) : Caught (u.saved r') { v with r := r' } := by
  obtain ⟨flag, version, rfl⟩ := hs
  exact ⟨⟨ha.1, .refl { h.writable.follows.messages with }⟩, ha.2⟩

lemma Idle.alive (h : Idle u v) : Alive u v :=
  { h.toCaught with awake := awake_of_engaged (by rw [h.running]; rfl) }

lemma Alive.touched (h : Alive u v) (ht : Touched v.r r') : Alive u { v with r := r' } := by
  have hc := h.toCaught.touched (x := v.r.state) ht
  obtain ⟨flag, rfl⟩ := ht
  exact { hc with awake := h.awake }

section

variable {n : NodeDefinition}

/-- The copy in another state, stored or not, is cleared as before. -/
lemma Struck.touched (h : Struck n u v) (ht : Touched { v.r with state := s } r')
    (ha : s.awake) : Struck n u { v with r := r' } := by
  have hc := h.toCaught.touched ht
  obtain ⟨flag, rfl⟩ := ht
  exact { hc with awake := ha, cleared := h.cleared }

lemma Struck.saved (h : Struck n u v) (hs : Saved { v.r with state := s } r')
    (ha : s.awake) : Struck n (u.saved r') { v with r := r' } := by
  have hc := h.toCaught.saved hs ha
  obtain ⟨flag, version, rfl⟩ := hs
  exact { hc with awake := ha, cleared := h.cleared }

/-- The copy has been stored in a state in which the node may be executed. -/
lemma Struck.transitioned (h : Struck n u v) (hs : Saved { v.r with state := s } r')
    (he : s.engaged) : Ready n (u.saved r') { v with r := r' } := by
  have h' := h.saved hs (awake_of_engaged he)
  obtain ⟨flag, version, rfl⟩ := hs
  exact { h'.toCaught with state := rfl, engaged := he, cleared := h'.cleared }

lemma Ready.struck (h : Ready n u v) : Struck n u v :=
  { h.toCaught with cleared := h.cleared, awake := awake_of_engaged h.engaged }

lemma Ready.saved (h : Ready n u v) (hs : Saved v.r r') :
    Ready n (u.saved r') { v with r := r' } := h.struck.transitioned (s := v.r.state) hs h.engaged

/-- Only the attempt changes, and it stays one of this node. -/
lemma Engaged.attempt (h : Engaged n u v) {a : NodeExecution} (hn : a.nodeId = n.id)
    (ha : a.state ≠ .completed) : Engaged n u { v with attempt := a } :=
  { h with node := hn, unfinished := ha }

lemma Engaged.saved (h : Engaged n u v) (hs : Saved v.r r') :
    Engaged n (u.saved r') { v with r := r' } :=
  { h.toReady.saved hs with node := h.node, unfinished := h.unfinished }

/-- A transition of a run that executes the node. -/
lemma Struck.wp_transition {Q : Unit → View → Frame → Prop} {type : String} (h : Struck n u v)
    (ha : s.awake) (hok : ∀ r', Saved { v.r with state := s } r' →
      Q () (u.saved r') { v with r := r' }) :
    execWatch.wp (transitionRun s type) Q (fun _ => Struck n) u v := by
  refine wp_transitionRun h.writable enclosed_nil h.base hok fun e r' s' hs ht => ?_
  refine h.touched ht ?_
  rcases hs with rfl | rfl
  · exact h.awake
  · exact ha

/-- A checkpoint of the current attempt, which is not completed. -/
lemma Struck.wp_attempt {Q : Unit → View → Frame → Prop} {type : String} {a : NodeExecution}
    (h : Struck n u v) (ha : a.state ≠ .completed)
    (hok : ∀ r', Saved v.r r' → Q () (u.saved r') { v with r := r' }) :
    execWatch.wp (checkpointRun type [.attempt a]) Q (fun _ => Struck n) u v :=
  wp_checkpointRun h.writable (enclosed_attempt ha) hok fun _ _ ht =>
    h.touched (s := v.r.state) ht h.awake

end

/-! ## Preparing a node -/

lemma Moved.labelled (r : Run) (l : Labels) : Moved r { r with toLabels := l } :=
  ⟨rfl, rfl, rfl, rfl, rfl, fun h => ⟨h.message, h.ready⟩⟩

/-- Labelling changes the labels only. -/
lemma labelNode_wp (n : NodeDefinition) (h : Idle u v) :
    execWatch.wp (labelNode cfg n)
      (fun _ u' v' => u' = u ∧ ∃ l, v' = { v with r := { v.r with toLabels := l } })
      (fun _ => Caught) u v := by
  have hc : ∀ l, Caught u { v with r := { v.r with toLabels := l } } := fun l =>
    h.toCaught.moved (Moved.labelled v.r l)
  simp only [labelNode, wp_bind, wp_modifyRun, wp_ite, wp_direct]
  refine ⟨fun _ => ?_, fun _ => ⟨fun _ => ?_, fun _ => ⟨fun _ => ⟨trivial, fun a _ => ?_⟩, ?_⟩⟩⟩
  · split
    · exact ⟨rfl, _, rfl⟩
    · exact ⟨rfl, _, rfl⟩
  · exact wp_try_.mpr ⟨fun m _ => ⟨rfl, _, rfl⟩, fun e _ => hc _⟩
  · exact wp_try_.mpr ⟨fun worker _ => ⟨rfl, _, rfl⟩, fun e _ => hc _⟩
  · exact fun _ => ⟨rfl, _, rfl⟩

/-- A node that is reached is the active one. -/
lemma reachNode_wp (n : NodeDefinition) (h : Idle u v) :
    execWatch.wp (reachNode n) (fun step u' v' => Idle u' v' ∧
        (step = .ready → u' = u ∧ v'.r.activeNode = v.r.activeNode))
      (fun _ => Caught) u v := by
  have hm := prepareJoin_moved n v.r
  have h' := h.moved hm
  simp only [reachNode, wp_bind, wp_get]
  refine wp_onOutcome.mpr ⟨fun step hstep => ?_, fun e _ => h'.toCaught⟩
  cases step with
  | ready => exact ⟨h', fun _ => ⟨rfl, prepareJoin_ready hstep⟩⟩
  | waiting =>
  simp only [wp_bind]
  refine wp_checkpointRun h'.writable enclosed_nil (fun r' hs => ?_) fun e r' ht =>
    h'.toCaught.touched (x := (prepareJoin n v.r).2.state) ht
  have hc := h'.toCaught.saved (x := (prepareJoin n v.r).2.state) hs h'.alive.awake
  obtain ⟨flag, version, rfl⟩ := hs
  exact ⟨⟨hc, h'.running, h'.running⟩, by simp⟩

lemma Idle.informed (h : Idle u v) (policies : Answers) (approvals : List Approval)
    (listing : Option (List Approval)) :
    Idle { u with policies := policies, approvals := approvals, listing := listing } v :=
  { h with writable := { h.writable with } }

lemma Idle.ready {n : NodeDefinition} (h : Idle u v) (hc : Cleared u v.r n) : Ready n u v :=
  { h.toCaught with
    state := h.running.trans h.stored.symm
    engaged := by rw [h.running]; rfl
    cleared := hc }

lemma approvedIn_iff {approvals : List Approval} :
    approvedIn r approvals ↔ ∃ a ∈ approvals, a.nodeId = r.activeNode ∧
      a.visit = r.visits r.activeNode ∧ a.decision = .approved := by
  simp [approvedIn]

/-- Whoever passes the gate has been cleared for the node. -/
lemma approvalGate_wp {n : NodeDefinition} (h : Idle u v) (hn : n.id = v.r.activeNode) :
    execWatch.wp (approvalGate n) (fun pass u' v' => pass → Ready n u' v') (fun _ => Caught) u v := by
  simp only [approvalGate, wp_bind, wp_get, wp_direct]
  refine ⟨trivial, fun answer _ => ?_⟩
  cases answer with
  | error e => exact h.toCaught
  | ok policy =>
  -- the answer of the policy is recorded in the view
  have h₁ := h.informed ((n, v.r, policy) :: u.policies) u.approvals u.listing
  refine of_ite ⟨fun _ => h₁.toCaught, fun hdeny => ?_⟩
  refine of_ite ⟨fun hneed => ?_, fun hfree _ => h₁.ready ?_⟩
  · simp only [wp_bind, wp_direct]
    refine ⟨h.writable.follows.id, fun listed hlist => ?_⟩
    cases listed with
    | error e => exact h₁.toCaught
    | ok approvals =>
    have h₂ := h.informed ((n, v.r, policy) :: u.policies) (approvals ++ u.approvals)
      (some approvals)
    refine of_ite ⟨fun happ _ => h₂.ready ?_, fun happ => ?_⟩
    · obtain ⟨a, hmem, hnode, hvisit, hdec⟩ := approvedIn_iff.mp happ
      refine ⟨v.r, policy, List.mem_cons_self, rfl, rfl, hdeny, fun _ => ⟨a, ?_⟩⟩
      exact ⟨List.mem_append_left _ hmem, hlist a hmem, hnode.trans hn.symm,
        hvisit.trans (by rw [hn]), hdec⟩
    refine of_bind (of_call ⟨⟨h₂.writable, h₂.running,
      h₂.stored, hn, approvals, rfl, Bool.eq_false_iff.mpr happ⟩, ?_⟩)
    rintro ⟨res, r'⟩ u' (⟨rfl, hs, rfl⟩ | ⟨⟨e, rfl⟩, rfl | ht, rfl⟩)
    · exact fun hpass => absurd hpass Bool.false_ne_true
    · exact h₂.toCaught
    · exact h₂.toCaught.touched ht
  · exact ⟨v.r, policy, List.mem_cons_self, rfl, rfl, hdeny, fun hneed => absurd hneed hfree⟩

/-! ## Node bodies -/

variable {n : NodeDefinition}

/-- How a body may end: with a result for the cleared node, or with the run parked. -/
def BodyPost (n : NodeDefinition) : Body → View → Frame → Prop
  | .done _, u, v => Engaged n u v
  | .parked, _, _ => True

lemma pauseForChild_wp (h : Engaged n u v) :
    execWatch.wp pauseForChild (BodyPost n) (fun _ => Struck n) u v := by
  simp only [pauseForChild, wp_bind, wp_modify, wp_get]
  have h₁ := h.attempt (a := { v.attempt with state := .waitingApproval }) h.node (by simp)
  refine h₁.struck.wp_attempt h₁.unfinished fun r' hs => ?_
  exact (h₁.saved hs).struck.wp_transition ⟨rfl, by simp⟩ fun _ _ => trivial

/-- The child is polled until it ends or has to be waited for. -/
lemma awaitChild_wp (fuel : Nat) (h : Engaged n u v) :
    execWatch.wp (awaitChild fuel) (BodyPost n) (fun _ => Struck n) u v := by
  induction fuel with
  | zero => exact wp_halt
  | succ fuel ih =>
    simp only [awaitChild, wp_bind]
    refine wp_check ?_ fun e => h.struck
    simp only [wp_get, wp_direct]
    refine ⟨trivial, fun answer _ => wp_fetch.mpr ⟨fun child _ => ?_, fun e _ => h.struck⟩⟩
    simp only [wp_ite, wp_fail, wp_pure, wp_bind]
    refine ⟨fun _ => ⟨fun _ => h.struck, fun _ => h⟩, fun _ => ⟨fun _ => pauseForChild_wp h, ?_⟩⟩
    exact fun _ => wp_check ih fun e => h.struck

section

variable (resolved : List (String × String)) (h : Engaged n u v)
include h

/-- The child is created before the copy and the attempt name it. -/
lemma startChild_wp :
    execWatch.wp (startChild cfg resolved n) (fun _ => Engaged n) (fun _ => Struck n) u v := by
  simp only [startChild, wp_bind, wp_get, wp_ite, wp_fail, wp_direct]
  refine ⟨fun _ => h.struck, fun _ => ⟨h.cleared, fun answer _ => ?_⟩⟩
  refine wp_try_.mpr ⟨fun child _ => ?_, fun e _ => h.struck⟩
  refine of_call ⟨trivial, ?_⟩
  rintro ⟨created, x⟩ u' rfl
  cases created with
  | error e => exact h.struck
  | ok id =>
  have h₁ : Engaged n u' { v with
        r := { v.r with
          childId := id, childPipelineId := child.name, childPipelineVersion := child.version
          childRuns := v.r.childRuns ++ [id] }
        attempt := { v.attempt with
          childRunId := id, childPipelineId := child.name
          childPipelineVersion := child.version } } :=
    { h with
      writable := h.writes rfl rfl rfl (fun _ => le_rfl) { h.writable.follows.messages with }
      cleared := h.cleared }
  exact h₁.struck.wp_attempt h₁.unfinished fun r' hs => h₁.saved hs

lemma Engaged.childless : Engaged n u { v with r := { v.r with childId := "" } } :=
  { h with
    writable := h.writes rfl rfl rfl (fun _ => le_rfl) { h.writable.follows.messages with }
    cleared := h.cleared }

lemma currentChild_wp :
    execWatch.wp currentChild (fun _ u' v' => u' = u ∧ v' = v) (fun _ => Struck n) u v := by
  simp only [currentChild, wp_bind, wp_get, wp_ite, wp_direct]
  refine ⟨fun _ => ⟨rfl, rfl⟩, fun _ => ⟨trivial, fun answer _ => ?_⟩⟩
  exact wp_fetch.mpr ⟨fun _ _ => ⟨rfl, rfl⟩, fun _ _ => h.struck⟩

lemma prepareChild_wp :
    execWatch.wp (prepareChild cfg resolved n) (fun _ => Engaged n) (fun _ => Struck n) u v := by
  simp only [prepareChild, wp_bind]
  refine wp_imp (currentChild_wp h) ?_
  rintro child u' v' ⟨rfl, rfl⟩
  cases child with
  | none =>
    simp only [wp_bind, wp_pure]
    exact startChild_wp resolved h
  | some child =>
    simp only [wp_ite, wp_bind, wp_pure, wp_modifyRun, linkChild, wp_modify]
    exact ⟨fun _ => h.attempt h.node h.unfinished, fun _ =>
      ⟨fun _ => startChild_wp resolved h.childless, fun _ => h.attempt h.node h.unfinished⟩⟩

/-- The body of a subpipeline node. -/
lemma subpipelineBody_wp (fuel : Nat) :
    execWatch.wp (subpipelineBody cfg fuel resolved n) (BodyPost n) (fun _ => Struck n) u v := by
  simp only [subpipelineBody, wp_bind, wp_get]
  refine wp_external ?_ fun e => h.struck
  refine wp_imp (prepareChild_wp resolved h) ?_
  intro result u' v' h'
  cases result with
  | some result => exact h'
  | none =>
    simp only [wp_ite]
    exact ⟨fun _ => pauseForChild_wp h', fun _ => awaitChild_wp fuel h'⟩

/-- The body of any other node. -/
lemma nodeBody_wp (number : Nat) :
    execWatch.wp (nodeBody n number) (BodyPost n) (fun _ => Struck n) u v := by
  simp only [nodeBody, wp_bind]
  refine wp_check (wp_check ?_ fun e => h.struck) fun e => h.struck
  refine wp_external ?_ fun e => h.struck
  refine (wp_direct _).mpr ⟨h.cleared, fun answer _ => ?_⟩
  exact wp_try_.mpr ⟨fun _ _ => h, fun _ _ => h.struck⟩

end

lemma checkBody_wp {body : Body} (p : PipelineDefinition) (h : BodyPost n body u v) :
    execWatch.wp (checkBody p n body) (BodyPost n) (fun _ => Struck n) u v := by
  cases body with
  | parked => exact h
  | done result =>
  have h' : Engaged n u v := h
  simp only [checkBody, wp_bind]
  refine wp_check (wp_external ?_ fun e => h'.struck) fun e => h'.struck
  refine of_if ?_ h'
  simp only [wp_bind]
  exact wp_external h' fun e => h'.struck

variable (fuel : Nat) (p : PipelineDefinition) (resolved : List (String × String))

/-- An attempt executes the node it has been cleared for. -/
lemma attemptBody_wp (number : Nat) (h : Engaged n u v) :
    execWatch.wp (attemptBody cfg fuel p resolved n number) (BodyPost n)
      (fun _ => Struck n) u v := by
  simp only [attemptBody, wp_ite, wp_bind]
  refine ⟨fun _ => ?_, fun _ => ?_⟩
  · exact wp_imp (subpipelineBody_wp resolved h fuel) fun _ _ _ h => checkBody_wp p h
  · exact wp_imp (nodeBody_wp h number) fun _ _ _ h => checkBody_wp p h

/-! ## Parallel groups -/

lemma Settling.moved (h : Settling n u v) (hm : Moved v.r r') : Settling n u { v with r := r' } :=
  { h.toIdle.moved hm, h.toTallied.moved hm with }

lemma Settling.unsettled (h : Settling n u v) : Unsettled n u v :=
  { h.alive, h.toTallied with }

lemma Unsettled.touched (h : Unsettled n u v) (ht : Touched v.r r') :
    Unsettled n u { v with r := r' } := by
  have ha := h.toAlive.touched ht
  obtain ⟨flag, rfl⟩ := ht
  exact { ha with node := h.node, counted := h.counted, raised := h.raised }

/-- Queued work is written with the run, and nothing else. -/
lemma groupWork_wp {p : PipelineDefinition} {group join : String}
    (tokens : List ExecutionToken) (index : Nat) (h : Unsettled n u v) :
    execWatch.wp (groupWork p r group join index tokens)
      (fun records u' v' => (∀ r, Enclosed u r records) ∧ u' = u ∧ v' = v)
      (fun _ => Unsettled n) u v := by
  induction tokens generalizing index with
  | nil => exact ⟨fun _ => enclosed_nil, rfl, rfl⟩
  | cons token rest ih =>
    simp only [groupWork, wp_bind]
    refine wp_external (wp_try_.mpr ⟨fun requirement _ => ?_, fun e _ => h⟩) fun e => h
    cases requirement with
    | none => exact h
    | some requirement =>
    simp only [wp_bind]
    refine wp_imp (ih (index + 1)) ?_
    rintro records u' v' ⟨hp, rfl, rfl⟩
    exact ⟨fun r => (hp r).queue rfl, rfl, rfl⟩

lemma Moved.stepped (r : Run) (steps : Nat) : Moved r { r with steps := steps } :=
  ⟨rfl, rfl, rfl, rfl, rfl, fun h => ⟨h.message, h.ready⟩⟩

lemma awaitBranches_wp (group : String) (fuel : Nat) (h : Settling n u v) :
    execWatch.wp (awaitBranches group fuel) (fun _ => Settling n) (fun _ => Unsettled n) u v := by
  induction fuel with
  | zero => exact wp_halt
  | succ fuel ih =>
    simp only [awaitBranches, wp_bind, wp_direct]
    refine ⟨trivial, fun answer _ => ?_⟩
    rcases answer with _ | g
    · exact h.unsettled
    have h' := h.moved (Moved.stepped v.r g.steps)
    simp only [wp_ite, wp_bind, wp_modifyRun, wp_throw, wp_pure]
    exact ⟨fun _ => ⟨fun _ => h'.unsettled, fun _ => h'⟩, fun _ => ih⟩

lemma collectOutputs_runId (outputs : List (Option Message)) (payloads : List Json) (m : Message) :
    (collectOutputs outputs payloads m).2.runId = m.runId := by
  induction outputs generalizing payloads m with
  | nil => rfl
  | cons output rest ih =>
    cases output with
    | none => rfl
    | some output => exact ih _ _

lemma Moved.remessaged {m : Message} (hm : m.runId = r.message.runId) :
    Moved r { r with message := m } :=
  ⟨rfl, rfl, rfl, rfl, rfl, fun h => ⟨hm.trans h.message, h.ready⟩⟩

/-- The copy is paused before its base is; the write that pauses the base counts the visit. -/
lemma distributeGroup_wp (p : PipelineDefinition) (tokens : List ExecutionToken)
    (h : Settling n u v) :
    execWatch.wp (distributeGroup p tokens) (fun parked u' v' => parked ∧ Unsettled n u' v')
      (fun _ => Unsettled n) u v := by
  simp only [distributeGroup, wp_bind, wp_uuid, wp_get]
  refine fun group => wp_nodeAt.mpr ⟨fun m _ => ?_, fun _ => h.unsettled⟩
  refine wp_imp (groupWork_wp tokens 0 h.unsettled) ?_
  rintro records u' v' ⟨hp, rfl, rfl⟩
  have h₁ : Unsettled n u' { v' with
      r := { v'.r with
        pendingParallelGroup := group, pendingParallelJoin := m.join, state := .paused } } :=
    { h with
      writable := h.writes rfl rfl rfl (fun _ => le_rfl) { h.writable.follows.messages with }
      awake := ⟨rfl, by simp⟩
      counted := h.counted
      raised := h.raised }
  refine wp_checkpointRun h₁.writable (hp _) (fun r' hs => ⟨rfl, ?_⟩) fun e r' ht => h₁.touched ht
  have hc := h₁.toCaught.saved (x := .paused) hs h₁.awake
  obtain ⟨flag, version, rfl⟩ := hs
  exact { hc with awake := h₁.awake, node := h₁.node, counted := h₁.counted, raised := .inl rfl }

/-- A local group is executed by branches, and the copy goes on with what they return. -/
lemma runGroup_wp (tokens : List ExecutionToken) (h : Settling n u v) :
    execWatch.wp (runGroup fuel p resolved tokens)
      (fun parked u' v' => parked = false ∧ Settling n u' v') (fun _ => Unsettled n) u v := by
  simp only [runGroup, wp_bind, wp_uuid, wp_get]
  refine fun group => of_bind ((wp_direct _).mpr ⟨trivial, fun _ _ => ?_⟩)
  refine of_bind ((wp_direct _).mpr ⟨trivial, fun _ _ => ?_⟩)
  simp only [wp_bind, wp_get]
  refine wp_imp (awaitBranches_wp group fuel h) ?_
  intro outputs u' v' h'
  have h₁ := h'.moved (Moved.remessaged (collectOutputs_runId outputs [] v'.r.message))
  refine wp_onOutcome.mpr ⟨fun _ _ => ?_, fun e _ => h₁.unsettled⟩
  refine wp_nodeAt.mpr ⟨fun n _ => ⟨rfl, ?_⟩, fun _ => h₁.unsettled⟩
  exact h₁.moved ⟨rfl, rfl, rfl, rfl, rfl, fun h => ⟨h.message, h.ready⟩⟩

lemma executeParallel_wp (h : Settling n u v) :
    execWatch.wp (executeParallel cfg fuel p resolved) (fun parked u' v' =>
        (parked = true ∧ Unsettled n u' v') ∨ (parked = false ∧ Settling n u' v'))
      (fun _ => Unsettled n) u v := by
  have h' : Settling n u { v with r := { v.r with ready := [] } } :=
    h.moved ⟨rfl, rfl, rfl, rfl, rfl, fun h => ⟨h.message, nofun⟩⟩
  have hlocal := wp_mono (runGroup_wp fuel p resolved v.r.ready h') (P := fun parked u' v' =>
      (parked = true ∧ Unsettled n u' v') ∨ (parked = false ∧ Settling n u' v'))
    (fun _ _ _ h => .inr h) fun _ _ _ h => h
  simp only [executeParallel, wp_bind, wp_get, wp_modifyRun, wp_ite]
  refine ⟨fun _ => wp_try_.mpr ⟨fun distribute _ => ?_, fun e _ => h'.unsettled⟩, fun _ => hlocal⟩
  refine ⟨fun _ => ?_, fun _ => hlocal⟩
  exact wp_imp (distributeGroup_wp p v.r.ready h') fun _ _ _ h => .inl h

/-! ## Attempts -/

/-- A transition inside an attempt. -/
lemma Engaged.wp_transition {type : String} (h : Engaged n u v) (he : s.engaged) :
    execWatch.wp (transitionRun s type) (fun _ u' v' => Engaged n u' v' ∧ v'.r.state = s)
      (fun _ => Struck n) u v := by
  refine h.struck.wp_transition (awake_of_engaged he) fun r' hs => ?_
  have h' := h.struck.transitioned hs he
  refine ⟨{ h' with node := h.node, unfinished := h.unfinished }, ?_⟩
  obtain ⟨flag, version, rfl⟩ := hs
  rfl

/-- An attempt is begun when it has been stored. -/
lemma startAttempt_wp (number : Nat) (h : Ready n u v) :
    execWatch.wp (startAttempt n number) (fun _ => Engaged n) (fun _ => Struck n) u v := by
  simp only [startAttempt, wp_bind]
  refine wp_external ?_ fun e => h.struck
  refine wp_when (fun _ => h.struck.wp_transition ⟨rfl, by simp⟩ fun r' hs =>
    h.struck.transitioned hs rfl) (fun _ => h) fun u v h => ?_
  simp only [wp_bind, wp_uuid, wp_modify, wp_get]
  intro id
  have h₁ : Engaged n u
      { v with attempt := { id, runId := v.r.id, nodeId := n.id, attempt := number } } :=
    { h with node := rfl, unfinished := by simp }
  refine h₁.struck.wp_attempt h₁.unfinished fun r' hs => ?_
  have h₂ : Engaged n (u.saved r')
      { r := r', attemptRecorded := true
        attempt := { id, runId := v.r.id, nodeId := n.id, attempt := number } } :=
    { h₁.saved hs with }
  refine wp_when (fun _ => wp_imp (h₂.wp_transition rfl) fun _ _ _ h => h.1) (fun _ => h₂)
    fun u v h => ?_
  exact of_if (wp_imp (h.wp_transition rfl) fun _ _ _ h => h.1) h

/-- After the body the run returns to running; a copy that is in another state stays as it is. -/
lemma returnToRunning_engaged (failed : Bool) (h : Engaged n u v) :
    execWatch.wp (returnToRunning n failed)
      (fun _ u' v' => Engaged n u' v' ∧ v'.r.state = .running) (fun _ => Struck n) u v := by
  simp only [returnToRunning, wp_bind, wp_get, wp_ite, wp_pure]
  refine ⟨fun _ => h.wp_transition rfl, fun hn => ⟨h, ?_⟩⟩
  have he := h.engaged
  cases hs : v.r.state <;> simp_all [engaged]

lemma returnToRunning_struck (failed : Bool) (h : Struck n u v) :
    execWatch.wp (returnToRunning n failed) (fun _ => Struck n) (fun _ => Struck n) u v := by
  simp only [returnToRunning, wp_bind, wp_get, wp_ite, wp_pure]
  refine ⟨fun _ => ?_, fun _ => h⟩
  exact h.wp_transition ⟨rfl, by simp⟩ fun r' hs => (h.transitioned hs rfl).struck

/-- After a failed attempt the node is ready for the next one, still cleared, or the error goes on. -/
lemma failAttempt_wp (last : Bool) (e : Exn) (h : Struck n u v) :
    execWatch.wp (failAttempt n last e) (fun _ => Ready n) (fun _ => Caught) u v := by
  simp only [failAttempt, wp_bind, wp_modify, wp_get]
  have h₁ : Struck n u { v with attempt := { v.attempt with
      state := attemptState (.error ⟨failureCode e, ""⟩), error := failureText n e } } := { h with }
  refine wp_mono (h₁.wp_attempt (attemptState_ne (.error ⟨failureCode e, ""⟩)).1 fun r' hs => ?_)
    (fun _ _ _ h => h) fun _ _ _ h => h.toCaught
  have h₂ := h₁.saved (s := v.r.state) hs h.awake
  simp only [wp_ite, wp_fail, wp_bind]
  refine ⟨fun _ => h₂.toCaught, fun _ => ?_⟩
  refine wp_mono (h₂.wp_transition ⟨rfl, by simp⟩ fun r'' hs' => ?_) (fun _ _ _ h => h)
    fun _ _ _ h => h.toCaught
  -- the copy is retrying, and still cleared for the next attempt
  have h₃ := h₂.saved hs' ⟨rfl, by simp⟩
  refine wp_check ?_ fun e => h₃.toCaught
  exact wp_mono (h₃.wp_transition ⟨rfl, by simp⟩ fun _ hs => h₃.transitioned hs rfl)
    (fun _ _ _ h => h) fun _ _ _ h => h.toCaught

/-! ## Finishing a node -/

lemma visits_bumpVisits (r : Run) (node m : String) :
    ({ r with nodeVisits := bumpVisits r.nodeVisits node } : Run).visits m =
      if node = m then r.visits m + 1 else r.visits m := by
  split
  · rename_i h
    subst h
    have hget : (bumpVisits r.nodeVisits node).get node = some (node, r.visits node + 1) :=
      Table.get_put_self _ _
    simp [Cursor.visits, hget]
  · rename_i h
    have hget : (bumpVisits r.nodeVisits node).get m = r.nodeVisits.get m := Table.get_put_ne h
    simp [Cursor.visits, hget]

lemma visits_le_bumpVisits (r : Run) (node m : String) :
    r.visits m ≤ ({ r with nodeVisits := bumpVisits r.nodeVisits node } : Run).visits m := by
  rw [visits_bumpVisits]
  split <;> omega

/-- The copy that has accepted the result counts the visit. -/
lemma Engaged.accepted (h : Engaged n u v) (hrun : v.r.state = .running) (result : NodeResult)
    (id : String) :
    Settling n u { v with
      r := acceptResult n result id v.r, attempt := { v.attempt with state := .completed } } := by
  have hvisits : (acceptResult n result id v.r).visits n.id = v.r.visits n.id + 1 :=
    (visits_bumpVisits v.r n.id n.id).trans (if_pos rfl)
  exact
    { h with
      writable := h.writes rfl rfl rfl (visits_le_bumpVisits v.r n.id)
        ⟨rfl, h.writable.follows.messages.ready⟩
      running := hrun
      stored := h.state ▸ hrun
      counted := ⟨n, v.r, rfl, rfl, h.cleared, hvisits⟩
      raised := .inr (by
        rw [hvisits]
        exact Nat.lt_succ_of_le (h.writable.follows.visits n.id)) }

/-- The records of a completed attempt may be written while its visit is being counted. -/
lemma Tallied.enclosed {v₀ : Frame} (h : Tallied n u v) (hn : v₀.attempt.nodeId = n.id) :
    Enclosed u v.r (completionRecords v₀) where
  side := ⟨⟨rfl, rfl⟩, shelved_of_nil rfl⟩
  counted a ha _ := by
    rw [List.mem_singleton.mp ha, hn]
    exact ⟨h.counted, h.raised⟩

def RoutedPost (n : NodeDefinition) : Routed → View → Frame → Prop
  | .continuing _, u, v => Settling n u v
  | .parked, _, _ => True

lemma route_wp (condition : String) {v₀ : Frame} (hn : v₀.attempt.nodeId = n.id)
    (h : Settling n u v) :
    execWatch.wp (route cfg fuel p resolved n condition (completionRecords v₀))
      (RoutedPost n) (fun _ => Unsettled n) u v := by
  have hadv : ∀ group, Settling n u
      { v with r := (advance p n condition group v.r).2 } := fun group =>
    h.moved (advance_moved p n condition group v.r)
  simp only [route, wp_ite, wp_bind, wp_uuid, wp_get]
  refine ⟨fun _ => wp_try_.mpr ⟨fun approvalBranch _ group => ?_, fun e _ => h.unsettled⟩,
    fun _ group => wp_onOutcome.mpr ⟨fun _ _ => hadv group, fun _ _ => (hadv group).unsettled⟩⟩
  refine wp_onOutcome.mpr
    ⟨fun more _ => ⟨fun _ => ?_, fun _ => ?_⟩, fun e _ => (hadv group).unsettled⟩
  · refine wp_onOutcome.mpr ⟨fun _ _ => ?_, by simp⟩
    exact (hadv group).moved (nextReady_moved _)
  refine wp_imp (executeParallel_wp fuel p resolved (hadv group)) ?_
  rintro parked u' v' (⟨rfl, h'⟩ | ⟨rfl, h'⟩)
  · refine ⟨fun _ => ?_, by simp⟩
    exact wp_checkpointRun h'.writable (h'.enclosed hn) (fun _ _ => trivial)
      fun _ _ ht => h'.touched ht
  · exact ⟨(by simp), fun _ => h'⟩

def NextPost : Next → View → Frame → Prop
  | .again, u, v => Idle u v
  | .finished, _, _ => True

/-- A completed attempt is stored with the copy that counts its visit, whatever the routing does. -/
lemma finishNode_wp (result : NodeResult) (h : Engaged n u v) (hrun : v.r.state = .running) :
    execWatch.wp (finishNode cfg fuel p resolved n result) NextPost (fun _ => Caught) u v := by
  simp only [finishNode, wp_bind, wp_modify, wp_uuid, wp_modifyRun, wp_get, wp_tryCatch]
  intro id
  have h₁ := h.accepted hrun result id
  refine wp_mono (route_wp fuel p resolved result.condition h₁.node h₁) ?_ ?_
  · intro routed u' v' h'
    cases routed with
    | parked => exact h'
    | continuing more =>
    have h' : Settling n u' v' := h'
    -- whichever records go with the last write, they are those of the completed attempt
    generalize hrec : (if n.type = "parallel" ∧ v'.r.message.id = id then completionRecords v'
      else _) = records
    have hp : Enclosed u' v'.r records := by
      rw [← hrec]
      split
      · exact h'.enclosed h'.node
      · exact h'.enclosed h₁.node
    cases more with
    | false =>
      simp only [wp_bind]
      exact wp_transitionRun h'.writable hp h'.base (fun _ _ => trivial)
        fun _ _ _ _ ht => h'.toCaught.touched ht
    | true =>
    simp only [wp_bind]
    refine wp_checkpointRun h'.writable hp (fun r' hs => ?_)
      fun e r' ht => (h'.alive.touched ht).toCaught
    have hc := h'.toCaught.saved (x := v'.r.state) hs h'.alive.awake
    obtain ⟨flag, version, rfl⟩ := hs
    exact { hc with running := h'.running, stored := h'.running }
  · intro e u' v' h'
    exact wp_checkpointRun h'.writable (h'.enclosed h₁.node)
      (fun r' hs => h'.toCaught.saved (x := v'.r.state) hs h'.awake)
      fun e r' ht => (h'.touched ht).toCaught

/-- The attempts of a visit, by induction on how many are left. -/
lemma attempts_wp (left : Nat) (h : Ready n u v) :
    execWatch.wp (attempts cfg fuel p resolved n left) NextPost (fun _ => Caught) u v := by
  induction left generalizing u v with
  | zero => exact h.toCaught
  | succ left ih =>
    simp only [attempts, wp_bind, wp_capture]
    refine wp_mono (startAttempt_wp _ h) ?_ fun _ _ _ h => h.toCaught
    intro _ u v h
    refine wp_mono (attemptBody_wp fuel p resolved _ h) ?_ ?_
    · intro body u v h
      cases body with
      | parked => exact h
      | done result =>
      simp only [wp_bind]
      refine wp_mono (returnToRunning_engaged false h) ?_ fun _ _ _ h => h.toCaught
      rintro _ u v ⟨h, hrun⟩
      exact finishNode_wp fuel p resolved result h hrun
    · intro e u v h
      refine wp_mono (returnToRunning_struck true h) ?_ fun _ _ _ h => h.toCaught
      intro _ u v h
      exact wp_imp (failAttempt_wp _ e h) fun _ _ _ h => ih h

/-! ## The main loop -/

lemma loadContext_wp (h : Caught u v) :
    execWatch.wp loadContext (fun _ u' v' => u' = u ∧ v' = v) (fun _ => Caught) u v := by
  simp only [loadContext, wp_bind, wp_get, wp_ite]
  exact ⟨fun _ => wp_external ⟨rfl, rfl⟩ fun e => h, fun _ => ⟨rfl, rfl⟩⟩

/-- One iteration goes from between two nodes to between two nodes. -/
lemma iteration_wp (h : Idle u v) :
    execWatch.wp (iteration cfg fuel p resolved) NextPost (fun _ => Caught) u v := by
  have h : Idle u { v with attemptRecorded := false } := { h with }
  simp only [iteration, wp_bind, wp_modify]
  refine wp_imp (loadContext_wp h.toCaught) ?_
  rintro _ _ _ ⟨rfl, rfl⟩
  refine wp_check ?_ fun e => h.toCaught
  refine wp_nodeAt.mpr ⟨fun n hn => ?_, fun _ => h.toCaught⟩
  refine wp_imp (labelNode_wp n h) ?_
  rintro _ _ _ ⟨rfl, l, rfl⟩
  refine wp_imp (reachNode_wp n (h.moved (Moved.labelled v.r l))) ?_
  rintro step u' v' ⟨h', hready⟩
  cases step with
  | waiting => exact h'
  | ready =>
  obtain ⟨rfl, hactive⟩ := hready rfl
  simp only [wp_bind, wp_get, wp_ite, wp_fail]
  refine ⟨fun _ => h'.toCaught, fun _ => ?_⟩
  refine wp_imp (approvalGate_wp h' ((Table.key_of_get hn).trans hactive.symm)) ?_
  refine fun pass u'' v'' hpass => ⟨fun hp => ?_, fun _ => trivial⟩
  exact wp_external (attempts_wp fuel p resolved _ (hpass hp)) fun e => (hpass hp).toCaught

lemma mainLoop_wp (p : PipelineDefinition) (resolved : List (String × String)) (fuel : Nat)
    (h : Idle u v) :
    execWatch.wp (mainLoop cfg p resolved fuel) (fun _ _ _ => True) (fun _ => Caught) u v := by
  induction fuel generalizing u v with
  | zero => exact wp_halt
  | succ fuel ih =>
    simp only [mainLoop, wp_bind]
    refine wp_imp (iteration_wp fuel p resolved h) ?_
    intro next u' v' h'
    cases next with
    | again => exact ih h'
    | finished => trivial

/-- The error path needs a copy that may be written. -/
lemma errorPath_wp (fuel : Nat) (e : Exn) (hw : Writable u v.r) :
    execWatch.wp (errorPath fuel e) (fun _ _ _ => True) (fun _ _ _ => True) u v := by
  simp only [errorPath, wp_bind, wp_get]
  refine of_call ⟨hw, ?_⟩
  rintro ⟨res, r'⟩ u' _
  exact wp_onOutcome.mpr ⟨fun _ _ => trivial, fun _ _ => trivial⟩

lemma execute_wp (hq : r.state = .queued) (hm : r.OwnMessages) :
    execWatch.wp (execute cfg fuel p resolved) (fun _ _ _ => True) (fun _ _ _ => True)
      { base := r } { r } := by
  simp only [execute, wp_tryCatch, wp_bind, wp_get]
  refine of_call ⟨trivial, ?_⟩
  rintro ⟨res, r'⟩ u' (⟨⟨e, rfl⟩, rfl, rfl⟩ | rfl | ⟨b, rfl, hlive, hf, hok⟩)
  · -- nothing was adopted
    refine wp_onOutcome.mpr ⟨(by simp), fun e' _ => errorPath_wp fuel e' ⟨?_, .refl hm⟩⟩
    rw [hq]
    rfl
  · refine wp_onOutcome.mpr ⟨fun started hs => ?_, by simp⟩
    cases hs
    trivial
  refine wp_onOutcome.mpr ⟨fun started hs => ?_, fun e _ => errorPath_wp fuel e ⟨hlive, hf⟩⟩
  obtain ⟨rfl, hb, hr⟩ := hok started hs
  refine wp_mono (mainLoop_wp p resolved fuel
    { writable := ⟨hlive, hf⟩, base := by simp [View.saved, hb], running := hr, stored := hb })
    (fun _ _ _ h => h) ?_
  exact fun e u' v' h => errorPath_wp fuel e h.writable

/-- **Executors keep their contract.** -/
theorem executor_sat {r : Run} (fuel : Nat) (hq : r.state = .queued) (hm : r.OwnMessages) :
    execWatch.Sat (executor cfg fuel r) (fun _ _ => True) { base := r } := by
  have hcomplete : ∀ (u : View) (failed : Bool),
      execWatch.Sat (Prog.call (.complete r.id failed) fun _ => .ret ()) (fun _ _ => True) u :=
    fun _ _ => ⟨trivial, fun _ _ _ => trivial⟩
  unfold executor
  cases cfg.parse r.definition with
  | error e => exact hcomplete _ true
  | ok p =>
  refine sat_bind.mpr (Watch.Sat.mono (execute_wp fuel p r.resolvedSubpipelines hq hm) ?_)
  rintro ⟨res, v'⟩ u' _
  cases res with
  | ok _ => exact hcomplete u' false
  | error e => exact hcomplete u' true

end Laso
