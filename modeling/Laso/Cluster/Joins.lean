import Laso.Cluster.NodeWork
import Laso.Runtime.Attempts

/-!
# Which join a branch arrives at

A parallel node names the join of its branches, and every branch carries it in its innermost frame.
The main loop compares the two when a token reaches a join (`prepareJoin`): a token that is at
another join makes the run fail. A branch that runs concurrently, here or as distributed work, makes
no such comparison. It stops at the first join node it comes to and delivers its message to the
group, which then goes on at the join the parallel node names (`arrivals`).

So a message is delivered for the right join exactly as far as the graph allows no other: `Leads`
says which nodes a branch can come to before a join, and `Bound` that the joins among them are the
one in its frame. Validation asks only that a parallel node names some join node.
-/

namespace Laso

open Exec Watch

/-- A branch that starts at the first node can come to the second one: every node it passes is no
join. -/
inductive Leads (p : PipelineDefinition) (start : String) : String → Prop where
  | start : Leads p start start
  | step {n : NodeDefinition} {e : EdgeDefinition} : Leads p start n.id →
      p.nodes.get n.id = some n → n.type ≠ "join" → e ∈ p.edges → e.fromNode = n.id →
      Leads p start e.toNode

def ExecutionToken.join (t : ExecutionToken) : Option String := t.frames.getLast?.map (·.join)

/-- Every join that a branch can come to is the one it belongs to. -/
def BranchJob.Bound (job : BranchJob) : Prop :=
  ∀ n, Leads job.pipeline job.token.nodeId n.id → job.pipeline.nodes.get n.id = some n →
    n.type = "join" → job.token.join = some n.id

/-- Remember the messages that have been delivered to groups. -/
def noteArrival (g : List Message) : (c : Call) → c.Resp → List Message
  | .direct (.branchArrive _ _ m), .ok _ => g ++ [m]
  | _, _ => g

def arrivals (es : List ((c : Call) × c.Resp)) : List Message :=
  remembered (S := callSig) noteArrival [] es

def arrivalWatch : Watch callSig (List Message) :=
  Watch.noting (S := callSig) noteArrival (fun _ _ _ => True) fun _ _ => True

/-- The branch has delivered nothing and is at a node it can come to. -/
def OnTheWay (job : BranchJob) (g : List Message) (v : BranchVars) : Prop :=
  g = [] ∧ Leads job.pipeline job.token.nodeId v.branch.activeNode

def AtBranchNode (job : BranchJob) (n : NodeDefinition) (g : List Message) (v : BranchVars) : Prop :=
  OnTheWay job g v ∧ v.branch.activeNode = n.id

/-- The branch has delivered its message at a join node. -/
def Delivered (job : BranchJob) (g : List Message) (v : BranchVars) : Prop :=
  g = [v.branch.message] ∧ Leads job.pipeline job.token.nodeId v.branch.activeNode ∧
    ∃ n, job.pipeline.nodes.get v.branch.activeNode = some n ∧ n.type = "join"

variable {cfg : Config} {job : BranchJob} {n : NodeDefinition} {g : List Message} {v : BranchVars}

lemma arrival_call {c : Call} {I : List Message → Prop} (hI : I g)
    (hnote : ∀ answer : c.Resp, noteArrival g c answer = g) :
    arrivalWatch.Allow g c ∧ ∀ answer g', arrivalWatch.Step g c answer g' → I g' := by
  refine ⟨trivial, ?_⟩
  rintro answer _ ⟨-, rfl⟩
  exact (hnote answer).symm ▸ hI

lemma arrival_routine (job : BranchJob) (n : NodeDefinition) :
    BranchRoutine arrivalWatch (fun _ => True) n (AtBranchNode job n) where
  branch _ _ _ := trivial
  attempt _ _ _ hI := hI
  direct q g v hI hq := by
    refine arrival_call hI fun answer => ?_
    cases q <;> first | rfl | exact absurd hq id
  run _ _ g v hI _ _ _ := arrival_call hI fun _ => rfl

lemma keeps_persist {I : List Message → BranchVars → Prop} (records : List Record) :
    arrivalWatch.Keeps I (persist job records) := by
  have hfetch : ∀ answer : Except Error Nat,
      arrivalWatch.Keeps I (do let _ ← fetch answer : Exec BranchVars Unit) := fun answer =>
    keeps_bind (BranchRoutine.fetch answer) fun _ => keeps_pure _
  unfold persist
  split
  · exact keeps_bind (keeps_call fun g v hI => arrival_call hI fun _ => rfl)
      hfetch
  · exact keeps_bind (keeps_call fun g v hI => arrival_call (I := fun g => I g v) hI fun _ => rfl)
      hfetch

variable {p : PipelineDefinition}

lemma branchRoute_error {condition : String} {b : Run} {e : Exn}
    (h : (branchRoute p n condition b).1 = .error e) :
    (branchRoute p n condition b).2.activeNode = b.activeNode := by
  have hcount : ∀ e, (countEdge e b).activeNode = b.activeNode := by
    intro e
    unfold countEdge
    split <;> rfl
  unfold branchRoute at h ⊢
  split
  · rename_i edge hedge
    simp only [hedge] at h ⊢
    split
    · exact hcount edge
    rename_i hlimit
    rw [if_neg hlimit] at h
    cases h
  · rfl

lemma acceptBranchResult_arrival (result : NodeResult)
    (hn : job.pipeline.nodes.get n.id = some n) (hjoin : n.type ≠ "join")
    (h : AtBranchNode job n g v) :
    arrivalWatch.wp (acceptBranchResult job n result) (fun _ => OnTheWay job)
      (fun _ => AtBranchNode job n) g v := by
  simp only [acceptBranchResult, wp_bind]
  refine (arrival_routine job n).wp_call (q := .uuid) trivial h fun id g h => ?_
  simp only [wp_modify, wp_get]
  refine wp_imp (keeps_persist _ g _ h) ?_
  intro _ g v' h'
  generalize hb : ({ v.branch with nodeVisits := _, message := _ } : Run) = b
  have hat : b.activeNode = n.id := hb ▸ h.2
  cases hroute : (branchRoute job.pipeline n result.condition b).1 with
  | error e =>
    have hstay := (branchRoute_error hroute).trans hat
    exact ⟨⟨h'.1.1, hstay ▸ h.2 ▸ h.1.2⟩, hstay⟩
  | ok _ =>
  obtain ⟨e, he, hfrom, hto⟩ := branchRoute_target
    (show (branchRoute job.pipeline n result.condition b).1.isOk by rw [hroute]; rfl)
  have hleads : Leads job.pipeline job.token.nodeId n.id := h.2 ▸ h.1.2
  exact ⟨h'.1.1, hto ▸ hleads.step hn hjoin he hfrom⟩

lemma branchLoop_arrival (fuel : Nat) (h : OnTheWay job g v) :
    arrivalWatch.wp (branchLoop cfg job fuel) (fun _ => Delivered job) (fun _ g' _ => g' = [])
      g v := by
  induction fuel generalizing g v with
  | zero =>
    refine (wp_bind _ _).mpr ⟨trivial, ?_⟩
    rintro nothing
    nomatch nothing
  | succ fuel ih =>
    simp only [branchLoop, wp_bind, wp_get, nodeAt]
    cases hn : job.pipeline.nodes.get v.branch.activeNode with
    | none => exact h.1
    | some n =>
    have hid : n.id = v.branch.activeNode := Table.key_of_get hn
    simp only [wp_pure, wp_ite, wp_bind]
    refine ⟨fun hjoin => ?_, fun hjoin => ?_⟩
    · refine ⟨trivial, ?_⟩
      rintro answer _ ⟨-, rfl⟩
      cases answer with
      | error e => exact h.1
      | ok _ => exact ⟨by rw [h.1]; rfl, h.2, n, hn, hjoin⟩
    have hat : AtBranchNode job n g v := ⟨h, hid.symm⟩
    have hroutine := arrival_routine job n
    refine ⟨trivial, fun answer g' hg => ?_⟩
    rw [show g' = g from hg.2]
    refine wp_mono (keeps_ofExcept answer g v hat) ?_ fun _ _ _ h => h.1.1
    intro _ g v hat
    refine wp_mono (hroutine.checkBranch job g v hat) ?_ fun _ _ _ h => h.1.1
    intro _ g v hat
    refine wp_mono (hroutine.branchGate n g v hat) ?_ fun _ _ _ h => h.1.1
    intro _ g v hat
    refine hroutine.wp_call (q := .external (.makeNode n)) trivial hat fun made g hat => ?_
    refine wp_mono (keeps_ofExcept made g v hat) ?_ fun _ _ _ h => h.1.1
    intro _ g v hat
    refine wp_mono (hroutine.branchAttempts fuel (J := OnTheWay job)
      (fun result g v hat => ?_) _ hat) ?_ fun _ _ _ h => h.1.1
    · exact acceptBranchResult_arrival result (hid ▸ hn) hjoin hat
    · exact fun _ g v h => ih h

/-! ## The main loop -/

/-- The run is at a join node that is not the one of its innermost frame. -/
structure Misplaced (n : NodeDefinition) (v : Frame) : Prop where
  active : v.r.activeNode = n.id
  unprepared : v.r.preparedJoin ≠ n.id
  frames : v.r.frames.getLast?.map (·.join) ≠ some n.id

lemma prepareJoin_misplaced {v : Frame} (hjoin : n.type = "join") (h : Misplaced n v) :
    ∃ e, prepareJoin n v.r = (.error e, v.r) := by
  have hframes := h.frames
  unfold prepareJoin
  rw [if_neg (not_or.mpr ⟨not_not.mpr hjoin, h.unprepared⟩)]
  cases hlast : v.r.frames.getLast? with
  | none => exact ⟨_, rfl⟩
  | some frame =>
  rw [hlast] at hframes
  have hne : frame.join ≠ n.id := fun heq => hframes (congrArg some heq)
  simp only [if_pos hne]
  exact ⟨_, rfl⟩

lemma keeps_labelNode (m : NodeDefinition) :
    arrivalWatch.Keeps (fun _ v => Misplaced n v) (labelNode cfg m) := by
  have hdirect : ∀ q : Req, arrivalWatch.Keeps (fun _ v => Misplaced n v)
      (Exec.direct q : Exec Frame _) := fun _ => keeps_call fun _ _ h => ⟨trivial, fun _ _ _ => h⟩
  have hrun : ∀ f : Run → Run, (∀ r, (f r).activeNode = r.activeNode ∧
      (f r).preparedJoin = r.preparedJoin ∧ (f r).frames = r.frames) →
      arrivalWatch.Keeps (fun _ v => Misplaced n v) (modifyRun f) := fun f hf =>
    keeps_modify fun _ v h => ⟨(hf v.r).1.trans h.active, (hf v.r).2.1.symm ▸ h.unprepared,
      (hf v.r).2.2.symm ▸ h.frames⟩
  refine keeps_bind (hrun _ fun _ => ⟨rfl, rfl, rfl⟩) fun _ => keeps_if ?_ ?_
  · split
    · exact hrun _ fun _ => ⟨rfl, rfl, rfl⟩
    · exact keeps_pure _
  refine keeps_if ?_ <| keeps_if ?_ (keeps_pure _)
  · exact keeps_bind (hrun _ fun _ => ⟨rfl, rfl, rfl⟩) fun _ => keeps_bind (keeps_ofExcept _)
      fun _ => hrun _ fun _ => ⟨rfl, rfl, rfl⟩
  · exact keeps_bind (hdirect _) fun _ => keeps_bind (keeps_ofExcept _) fun _ =>
      hrun _ fun _ => ⟨rfl, rfl, rfl⟩

variable (fuel : Nat) (resolved : List (String × String))

lemma iteration_misplaced
    {v : Frame} (hn : p.nodes.get n.id = some n) (hjoin : n.type = "join") (h : Misplaced n v) :
    arrivalWatch.wp (iteration cfg fuel p resolved) (fun _ _ _ => False) (fun _ _ _ => True) g v := by
  let I : List Message → Frame → Prop := fun _ v => Misplaced n v
  have hload : arrivalWatch.Keeps I loadContext := keeps_get_bind fun _ _ _ =>
    keeps_if (keeps_bind (keeps_call fun _ _ h => ⟨trivial, fun _ _ _ => h⟩)
      fun _ => keeps_ofExcept _) (keeps_pure _)
  have hcheck : arrivalWatch.Keeps I Exec.check := keeps_get_bind fun _ _ _ =>
    keeps_bind (keeps_call fun _ _ h => ⟨trivial, fun _ _ _ => h⟩) fun _ => keeps_ofExcept _
  simp only [iteration, wp_bind, wp_modify]
  refine wp_imp_ok (hload g _ ⟨h.active, h.unprepared, h.frames⟩) ?_
  intro _ g v h
  refine wp_imp_ok (hcheck g v h) ?_
  intro _ g v h
  simp only [wp_get, nodeAt, show p.nodes.get v.r.activeNode = some n from h.active ▸ hn, wp_pure]
  refine wp_imp_ok (keeps_labelNode n g v h) ?_
  intro _ g v h
  obtain ⟨e, he⟩ := prepareJoin_misplaced hjoin h
  simp only [reachNode, wp_bind, wp_get, he]
  trivial

lemma mainLoop_misplaced
    {v : Frame} (hn : p.nodes.get n.id = some n) (hjoin : n.type = "join") (h : Misplaced n v) :
    arrivalWatch.wp (mainLoop cfg p resolved fuel) (fun _ _ _ => False) (fun _ _ _ => True) g v := by
  cases fuel with
  | zero =>
    refine (wp_bind _ _).mpr ⟨trivial, ?_⟩
    rintro nothing
    nomatch nothing
  | succ fuel =>
    simp only [mainLoop, wp_bind]
    exact wp_imp (iteration_misplaced fuel resolved hn hjoin h) fun _ _ _ hf => hf.elim

/-- **Messages are delivered at the declared join.** A run whose token is at another join than that
of its innermost frame ends with an exception. A concurrent branch, local or distributed, that can
come to no other join delivers its message at the join it belongs to. -/
theorem joins_match (cfg : Config) (fuel : Nat) :
    (∀ (p : PipelineDefinition) (resolved : List (String × String)) (n : NodeDefinition) (v v' : Frame)
      (es : List ((c : Call) × c.Resp)) (res : Except Exn Unit),
      p.nodes.get n.id = some n → n.type = "join" → Misplaced n v →
      ((mainLoop cfg p resolved fuel).prog v).Returns es (res, v') → res.isOk = false) ∧
    ∀ (job : BranchJob) (v' : BranchVars) (es : List ((c : Call) × c.Resp)) (res : Except Exn Unit),
      job.Bound → ((branchLoop cfg job fuel).prog { branch := branchRun job }).Returns es (res, v') →
      ∀ m ∈ arrivals es, m = v'.branch.message ∧ job.token.join = some v'.branch.activeNode := by
  refine ⟨fun p resolved n v v' es res hn hjoin h hes => ?_, fun job v' es res hbound hes m hm => ?_⟩
  · have hsat : arrivalWatch.wp (mainLoop cfg p resolved fuel) (fun _ _ _ => False)
        (fun _ _ _ => True) [] v := mainLoop_misplaced fuel resolved hn hjoin h
    have hpost := Sat.of_returns hsat hes (Throughout.of_forall fun _ _ _ => trivial)
    cases res with
    | ok _ => exact hpost.elim
    | error e => rfl
  have hsat : arrivalWatch.wp (branchLoop cfg job fuel) (fun _ => Delivered job)
      (fun _ g' _ => g' = []) [] { branch := branchRun job } := branchLoop_arrival fuel ⟨rfl, .start⟩
  have hpost := Sat.of_returns hsat hes (Throughout.of_forall fun _ _ _ => trivial)
  cases res with
  | ok _ =>
    obtain ⟨hg, hleads, n, hn, hjoin⟩ := hpost
    have hid : n.id = v'.branch.activeNode := Table.key_of_get hn
    have hm : m ∈ [v'.branch.message] := hg ▸ hm
    rw [← hid] at hn hleads ⊢
    exact ⟨List.mem_singleton.mp hm, hbound n hleads hn hjoin⟩
  | error e =>
    have hm : m ∈ ([] : List Message) := hpost ▸ hm
    cases hm

def leftBranch (p : PipelineDefinition) : BranchJob :=
  { sampleBranch p "left" with
    token := { nodeId := "left", message := { runId := "run" }, frames := [⟨"group", "join", 2, 0⟩] } }

lemma leads_twoFunctions {id : String} (h : Leads twoFunctions "left" id) :
    id = "left" ∨ id = "join" := by
  induction h with
  | start => exact .inl rfl
  | step hn hget hjoin he hfrom ih =>
    rename_i n e
    rcases ih with h | h
    · right
      rw [h] at hfrom
      revert e
      decide
    · have htype : (twoFunctions.nodes.get "join").map (·.type) = some "join" := by decide
      rw [← h, hget, h] at htype
      exact absurd (Option.some.inj htype) hjoin

lemma leftBranch_bound : (leftBranch twoFunctions).Bound := by
  intro n hleads hn hjoin
  rcases leads_twoFunctions hleads with h | h
  · have htype : (twoFunctions.nodes.get "left").map (·.type) = some "function" := by decide
    rw [← h, show twoFunctions.nodes.get n.id = some n from hn] at htype
    exact absurd (hjoin.symm.trans (Option.some.inj htype)) (by decide)
  · rw [h]
    rfl

/-- A branch arrives at the join of its frame; a run that is at the join without being inside the
group ends with an exception. -/
theorem joins_match_left :
    (∃ es v', ((branchLoop (pipelineConfig twoFunctions) (leftBranch twoFunctions) 10).prog
        { branch := branchRun (leftBranch twoFunctions) }).Returns es (.ok (), v') ∧
      (arrivals es).length = 1 ∧
      ∀ m ∈ arrivals es, (leftBranch twoFunctions).token.join = some v'.branch.activeNode) ∧
    ∃ es res v', ((mainLoop (pipelineConfig twoFunctions) twoFunctions [] 10).prog
        { r := { id := "run", activeNode := "join" } }).Returns es (res, v') ∧ res.isOk = false := by
  constructor
  · have hview : (((branchLoop (pipelineConfig twoFunctions) (leftBranch twoFunctions) 10).prog
        { branch := branchRun (leftBranch twoFunctions) }).history smoothAnswers 20 0).map
        (fun x => (x.2.1.isOk, (arrivals x.1).length)) = some (true, 1) := by decide +kernel
    obtain ⟨⟨es, res, v'⟩, hrun, hres⟩ := Option.map_eq_some_iff.mp hview
    have hes := Prog.returns_of_history hrun
    obtain ⟨hok, hlength⟩ := Prod.mk.inj hres
    cases res with
    | error e => exact absurd hok Bool.false_ne_true
    | ok u =>
      exact ⟨es, v', hes, hlength, fun m hm =>
        ((joins_match (pipelineConfig twoFunctions) 10).2 _ v' es _ leftBranch_bound hes m hm).2⟩
  have hview : (((mainLoop (pipelineConfig twoFunctions) twoFunctions [] 10).prog
      { r := { id := "run", activeNode := "join" } }).history smoothAnswers 20 0).isSome =
      true := by decide +kernel
  obtain ⟨⟨es, res, v'⟩, hrun⟩ := Option.isSome_iff_exists.mp hview
  have hes := Prog.returns_of_history hrun
  have hmisplaced : Misplaced { id := "join", type := "join" }
      { r := { id := "run", activeNode := "join" } } := ⟨rfl, by decide, nofun⟩
  exact ⟨es, res, v', hes, (joins_match (pipelineConfig twoFunctions) 10).1 twoFunctions [] _ _ v' es
    res rfl rfl hmisplaced hes⟩

/-- The first branch leads to a join that belongs to no parallel node. -/
def strayPipeline : PipelineDefinition where
  name := "stray"
  nodes := [{ id := "left", type := "function", binding := "f" },
    { id := "right", type := "function", binding := "f" },
    { id := "stray", type := "join" }].foldl Table.put (forkPipeline []).nodes
  edges := [⟨"input", "fork", "", 0⟩, ⟨"fork", "left", "", 0⟩, ⟨"fork", "right", "", 0⟩,
    ⟨"left", "stray", "", 0⟩, ⟨"right", "join", "", 0⟩, ⟨"stray", "output", "", 0⟩,
    ⟨"join", "output", "", 0⟩]

def strayConfig : Config := { pipelineConfig strayPipeline with coordination := false }

/-- The branch whose message a call delivers, and the node the message comes from. -/
def Req.arrival : Req → Option (Nat × String)
  | .branchArrive _ i m => some (i, m.nodeId)
  | _ => none

/-- The message of the first branch is delivered to its group when the branch has come to the other
join, and the run completes. -/
theorem stray_branch_joined :
    (∀ e ∈ strayPipeline.edges, e.fromNode = "left" → e.toNode = "stray") ∧
    (strayPipeline.nodes.get "fork").map (fun n => n.join) = some "join" ∧
    ∃ c c', Machine.Reach (Cluster.step strayConfig) Machine.always .init c ∧
      Machine.Reach (Cluster.step strayConfig) Machine.always c c' ∧
      (c.nextCall 2).bind (fun x => x.2.arrival) = some (0, "left") ∧
      (c'.world.db.runs.get "u").map (fun r => (r.state, r.visits "join", r.visits "stray")) =
        some (.completed, 1, 0) := by
  refine ⟨by decide, by decide, ?_⟩
  exact Machine.exists_reach_reach (s := Cluster.init)
    (pipelineStart strayPipeline ++ calls 0 8 ++ calls 1 40 ++ calls 2 15)
    (calls 2 1 ++ calls 3 16 ++ calls 1 38) (by decide +kernel)

end Laso
