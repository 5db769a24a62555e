import Laso.Runtime.MainLoop
import Mathlib.Data.List.Sort

/-!
# Local and distributed groups

The branches of a parallel node run in the process of the run, or as node work that any instance
claims. In the first case `runGroup` waits for their outputs and joins them; in the second one
`distributeGroup` parks the run, and the executor that takes it up again joins the stored results
(`reconcileDistributedParallel`).

**Locally** the outputs are in the slots of the group, a branch in the slot of its frame's index.
**Distributed**, they come from a listing in any order, sorted by the index of the work. Both orders
are the order of the edges (`followEdges_index`, `groupWork_index`), so from the same outputs the run
gets the same message and goes on at the same place: `distributed_group_as_local`.
-/

namespace Laso

open Exec Watch List

/-! ## Tokens of a fork -/

def ExecutionToken.index (t : ExecutionToken) : Option Nat := t.frames.getLast?.map (·.index)

lemma countEdge_ready (e : EdgeDefinition) (r : Run) : (countEdge e r).ready = r.ready := by
  unfold countEdge
  split <;> rfl

variable {r : Run} {group : String} {width : Nat} {n : NodeDefinition}

lemma followEdges_index {i : Nat}
    {edges : List EdgeDefinition} {r' : Run} (hn : n.type = "parallel")
    (h : followEdges n group width i edges r = (.ok (), r')) :
    ∃ tokens, r'.ready = r.ready ++ tokens ∧
      tokens.map ExecutionToken.index = (List.range' i edges.length).map some := by
  induction edges generalizing i r with
  | nil =>
    obtain ⟨-, rfl⟩ := Prod.mk.inj h
    exact ⟨[], (append_nil _).symm, rfl⟩
  | cons e rest ih =>
    simp only [followEdges, if_pos hn] at h
    split at h
    · cases h
    obtain ⟨tokens, hready, hindex⟩ := ih h
    refine ⟨⟨e.toNode, (countEdge e r).message,
      (countEdge e r).frames ++ [⟨group, n.join, width, i⟩]⟩ :: tokens, ?_, ?_⟩
    · simp only [hready, countEdge_ready, List.append_assoc, singleton_append]
    · rw [map_cons, hindex, length_cons, range'_succ, map_cons]
      simp [ExecutionToken.index]

/-- A fork with an empty queue: the queue then holds the branches in the order of the edges. -/
lemma advance_index {p : PipelineDefinition} {condition : String}
    {r' : Run} (hn : n.type = "parallel") (hready : r.ready = [])
    (h : advance p n condition group r = (.ok true, r')) :
    r'.ready ≠ [] ∧ r'.ready.map ExecutionToken.index = (List.range r'.ready.length).map some := by
  have houtput : n.type ≠ "output" := by rw [hn]; decide
  unfold advance at h
  rw [if_neg houtput] at h
  simp only at h
  split at h
  · cases h
  rename_i hsome
  split at h
  · cases h
  split at h
  · cases h
  rename_i u r₁ hfollow
  split at h
  · cases h
  obtain ⟨-, rfl⟩ := Prod.mk.inj h
  obtain ⟨tokens, htokens, hindex⟩ := followEdges_index hn hfollow
  rw [hready, nil_append] at htokens
  have hlength := congrArg List.length hindex
  rw [length_map, length_map, length_range'] at hlength
  rw [htokens]
  refine ⟨fun hnil => hsome ?_, ?_⟩
  · rw [hnil, length_nil] at hlength
    rw [List.isEmpty_iff, ← length_eq_zero_iff, ← hlength]
  · rw [hindex, hlength, range_eq_range']

/-! ## The local group -/

/-- Remember the last state of the group that was seen. -/
def noteGroup (g : Option ParallelState) : (c : Call) → c.Resp → Option ParallelState
  | .direct (.parallelState _), state => state
  | _, _ => g

def groupWatch : Watch callSig (Option ParallelState) :=
  Watch.noting (S := callSig) noteGroup (fun _ _ _ => True) fun _ _ => True

/-- The message a run gets from the messages of its branches. -/
def joinedMessage (m : Message) (outputs : List Message) : Message :=
  { m with
    payload := .arr (outputs.map Message.payload)
    provenance := m.provenance ++ outputs.flatMap Message.provenance }

lemma collectOutputs_some (outputs : List Message) (payloads : List Json) (m : Message) :
    collectOutputs (outputs.map some) payloads m = (.ok (), { joinedMessage m outputs with
        payload := .arr (payloads ++ outputs.map Message.payload) }) := by
  induction outputs generalizing payloads m with
  | nil => simp [collectOutputs, joinedMessage]
  | cons output rest ih =>
    rw [map_cons, collectOutputs, ih]
    simp [joinedMessage]

/-- How the cursor of a run looks when its group has been joined. -/
structure JoinedAt (join : String) (r : Run) (outputs : List Message) (r' : Run) : Prop where
  message : r'.message = joinedMessage r.message outputs
  activeNode : r'.activeNode = join
  preparedJoin : r'.preparedJoin = join
  frames : r'.frames = []

variable {cfg : Config} {p : PipelineDefinition} {resolved : List (String × String)}
  {g : Option ParallelState} {v : Frame}

lemma awaitBranches_outputs (group : String) (fuel : Nat) : groupWatch.wp (awaitBranches group fuel)
      (fun outputs g' v' => g'.map (·.outputs) = some outputs ∧
        ∃ steps, v' = { v with r := { v.r with steps := steps } })
      (fun _ _ _ => True) g v := by
  induction fuel generalizing g with
  | zero =>
    refine (wp_bind _ _).mpr ⟨trivial, ?_⟩
    rintro nothing
    nomatch nothing
  | succ fuel ih =>
    refine ⟨trivial, ?_⟩
    intro seen g' hg
    rw [show g' = seen from hg.2]
    cases seen with
    | none => trivial
    | some state =>
      refine (wp_ite _ _).mpr ⟨fun _ => ?_, fun _ => ih⟩
      simp only [modifyRun, wp_bind, wp_modify, wp_ite]
      exact ⟨fun _ => trivial, fun _ => ⟨rfl, _, rfl⟩⟩

lemma runGroup_joined (fuel : Nat) (tokens : List ExecutionToken) :
    groupWatch.wp (runGroup fuel p resolved tokens)
      (fun _ g' v' => ∃ n, p.nodes.get v.r.activeNode = some n ∧
        ∀ outputs : List Message, g'.map (·.outputs) = some (outputs.map some) →
          JoinedAt n.join v.r outputs v'.r)
      (fun _ _ _ => True) g v := by
  refine ⟨trivial, fun group g' _ => ?_⟩
  refine (wp_bind _ _).mpr ⟨trivial, fun _ g' _ => (wp_bind _ _).mpr ⟨trivial, fun _ g' _ => ?_⟩⟩
  refine (wp_bind _ _).mpr (wp_imp_ok (awaitBranches_outputs group fuel) ?_)
  rintro outputs g' _ ⟨hg, steps, rfl⟩
  simp only [onOutcome, wp_bind, wp_get, wp_modify, nodeAt]
  cases hcollect : (collectOutputs outputs [] v.r.message).1 with
  | error e => trivial
  | ok _ =>
  cases hn : p.nodes.get v.r.activeNode with
  | none => trivial
  | some n =>
  refine ⟨n, rfl, fun messages hmessages => ⟨?_, rfl, rfl, rfl⟩⟩
  rw [hg, Option.some.injEq] at hmessages
  rw [show ({ v.r with message := _ } : Run).message = _ from rfl, hmessages, collectOutputs_some]
  rfl

/-! ## The distributed group -/

/-- What a run stores when it hands the branches of a parallel node to other instances. -/
structure ParkedGroup (p : PipelineDefinition) (width : Nat) (r : Run) (r' : Run)
    (records : List Record) : Prop where
  run : ∃ n group, p.nodes.get r.activeNode = some n ∧
    r' = { r with pendingParallelGroup := group, pendingParallelJoin := n.join, state := .paused }
  index : (worksOf records).map NodeWork.index = List.range width

/-- The observer of the parking run: what it stores is a parked group. -/
def parkWatch (p : PipelineDefinition) (width : Nat) (r : Run) : Watch callSig Unit :=
  Watch.noting (S := callSig) (fun _ _ _ => ()) (fun _ _ _ => True) fun _ c => match c with
    | .checkpoint r' _ records => ParkedGroup p width r r' records
    | _ => True

lemma park_wp_direct {q : Req} {Q : q.Resp → Unit → Frame → Prop}
    {E : Exn → Unit → Frame → Prop} {u : Unit} (hQ : ∀ answer, Q answer () v) :
    (parkWatch p width r).wp (Exec.direct q) Q E u v := ⟨trivial, fun answer _ _ => hQ answer⟩

lemma groupWork_index {r₀ : Run} {join : String} (tokens : List ExecutionToken)
    (index : Nat) (u : Unit) :
    (parkWatch p width r₀).wp (groupWork p r group join index tokens) (fun records _ v' => v' = v ∧
        (worksOf records).map NodeWork.index = List.range' index tokens.length)
      (fun _ _ _ => True) u v := by
  induction tokens generalizing index u with
  | nil => exact ⟨rfl, rfl⟩
  | cons token rest ih =>
    simp only [groupWork, wp_bind]
    refine park_wp_direct fun answer => ?_
    cases answer with
    | error e => trivial
    | ok _ =>
    cases workerRequirement p (p.edges.length + 1) [token.nodeId] [] none with
    | error e => trivial
    | ok worker =>
    cases worker with
    | none => trivial
    | some worker =>
    refine (wp_bind _ _).mpr (wp_imp (ih (index + 1) ()) ?_)
    rintro records _ v' ⟨hv, hindex⟩
    refine ⟨hv, ?_⟩
    rw [length_cons, range'_succ, ← hindex]
    rfl

lemma distributeGroup_parked (tokens : List ExecutionToken) (u : Unit) :
    (parkWatch p tokens.length v.r).Safe (distributeGroup p tokens) u v := by
  simp only [distributeGroup, wp_bind]
  refine park_wp_direct fun group => ?_
  simp only [wp_get, nodeAt]
  cases hn : p.nodes.get v.r.activeNode with
  | none => trivial
  | some n =>
  simp only [wp_pure]
  refine wp_imp (groupWork_index tokens 0 ()) ?_
  rintro records u _ ⟨rfl, hindex⟩
  refine ⟨⟨⟨n, group, hn, rfl⟩, hindex.trans range_eq_range'.symm⟩, ?_⟩
  rintro ⟨res, r'⟩ _ -
  cases res <;> trivial

/-! ## Collecting distributed results -/

/-- The answers of a collection: the listing `all`, and, if they are `sound`, no objection to the
workspace manifests of the results. -/
def Collected (all : List NodeWork) (sound : Bool) : (q : Req) → q.Resp → Prop
  | .collectWork _, answer => answer = .ok all
  | .external _, answer => sound → answer = .ok ()
  | _, _ => True

def collectWatch (all : List NodeWork) (sound : Bool) : Watch reqSig Unit :=
  Watch.noting (S := reqSig) (fun _ _ _ => ()) (fun _ => Collected all sound) fun _ _ => True

variable {sound : Bool}

lemma collect_wp_ask {all : List NodeWork} {q : Req} {Q : q.Resp → Unit → Run → Prop}
    {E : Exn → Unit → Run → Prop} {u : Unit}
    (hQ : ∀ answer, Collected all sound q answer → Q answer () r) :
    (collectWatch all sound).wp (Op.ask q) Q E u r := ⟨trivial, fun answer _ h => hQ answer h.1⟩

structure Finished (results : List NodeWork) (outputs : List Message) : Prop where
  index : results.map NodeWork.index = List.range results.length
  state : ∀ w ∈ results, w.state = .completed
  result : results.map NodeWork.result = outputs.map some

namespace Finished

variable {results : List NodeWork} {outputs : List Message}

lemma missingResult (h : Finished results outputs) : missingResult results = none := by
  have hresult : ∀ w ∈ results, w.result.isNone = false := by
    intro w hw
    have hmem : w.result ∈ outputs.map some := h.result ▸ mem_map_of_mem hw
    obtain ⟨m, -, hm⟩ := mem_map.mp hmem
    rw [← hm]
    rfl
  rw [Laso.missingResult, Option.map_eq_none_iff, find?_eq_none]
  intro w hw
  simp [h.state w hw, hresult w hw]

lemma filterMap (h : Finished results outputs) : results.filterMap NodeWork.result = outputs := by
  have hid : results.filterMap NodeWork.result = (results.map NodeWork.result).filterMap id := by
    rw [filterMap_map]
    rfl
  rw [hid, h.result, filterMap_map]
  exact filterMap_some

lemma sorted (h : Finished results outputs) {listed : List NodeWork} (hperm : listed.Perm results) :
    listed.insertionSort (fun a b => a.index ≤ b.index) = results := by
  have hlt : results.Pairwise fun a b => a.index < b.index := by
    rw [← pairwise_map, h.index]
    exact pairwise_lt_range
  refine List.Perm.eq_of_pairwise ?_ ?_ (hlt.imp Nat.le_of_lt) ((perm_insertionSort _ _).trans hperm)
  · intro a b ha hb hab hba
    have ha : a ∈ results := hperm.mem_iff.mp ((mem_insertionSort _).mp ha)
    have hinj : (results.map NodeWork.index).Nodup := h.index ▸ nodup_range
    exact inj_on_of_nodup_map hinj ha hb (Nat.le_antisymm hab hba)
  · have : Std.Total fun a b : NodeWork => a.index ≤ b.index := ⟨fun _ _ => Nat.le_total _ _⟩
    exact pairwise_insertionSort _ _

end Finished

/-- Collecting the results of a finished group, listed in any order, joins the outputs. It fails only
if there is an objection to the workspace manifests. -/
lemma reconcile_joined {all results : List NodeWork} {outputs : List Message}
    (hgroup : r.pendingParallelGroup ≠ "") (hfinished : Finished results outputs)
    (hne : results ≠ [])
    (hperm : (all.filter fun w => w.groupId = r.pendingParallelGroup).Perm results) :
    (collectWatch all sound).wp reconcileDistributedParallel
      (fun _ _ r' => JoinedAt r.pendingParallelJoin r outputs r')
      (fun _ _ _ => sound = false) () r := by
  have hsorted := hfinished.sorted hperm
  have hempty : ¬results.isEmpty := by simpa using hne
  simp only [reconcileDistributedParallel, wp_bind, wp_get, if_neg hgroup]
  refine collect_wp_ask fun answer hall => ?_
  obtain rfl : answer = .ok all := hall
  simp only [Op.orThrow, wp_pure, hsorted, if_neg hempty, hfinished.missingResult,
    hfinished.filterMap, wp_set, wp_bind, wp_get]
  refine collect_wp_ask fun answer hsound => ?_
  cases answer with
  | error e =>
    cases sound with
    | false => exact rfl
    | true => exact absurd (hsound rfl) (by simp)
  | ok _ => exact ⟨rfl, rfl, rfl, rfl⟩

/-- **A distributed group ends like a local one.** A run forks with an empty queue. Executed by one
owner, its branches give `outputs`. Executed by several instances, it is parked as `r₁`; when work
with these outputs has been stored for all branches, in whatever order, the executor that takes the
run up gets the message of the local group, with the payloads and the provenance in the order of the
edges, and goes on at the same place. -/
theorem distributed_group_as_local {single multi : Config} {n : NodeDefinition}
    {condition group : String} {r₀ r₁ r₂ r₃ : Run} {v₁ : Frame} {fuel : Nat}
    {es es' : List ((c : Call) × c.Resp)} {es'' : List ((q : Req) × q.Resp)} {type : String}
    {records : List Record} {answer : Except Exn Unit × Run} {res : Except Exn Unit}
    {outputs : List Message} {results all : List NodeWork} {sound : Bool}
    -- the fork
    (hn : n.type = "parallel") (hready : r₀.ready = [])
    (hfork : advance p n condition group r₀ = (.ok true, v.r))
    -- the local group
    (hsingle : single.coordination = false)
    (hlocal : ((executeParallel single fuel p resolved).prog v).Returns es (.ok false, v₁))
    (houtputs : (remembered (S := callSig) noteGroup none es).map (·.outputs) = some (outputs.map some))
    -- the distributed group
    (hmulti : multi.coordination = true) (hall : allDistributable p v.r.ready = .ok true)
    (hparked : ((executeParallel multi fuel p resolved).prog v).Makes es')
    (hcheckpoint : ⟨.checkpoint r₁ type records, answer⟩ ∈ es') (hgroup : r₁.pendingParallelGroup ≠ "")
    -- the stored results
    (hindex : results.map NodeWork.index = (worksOf records).map NodeWork.index)
    (hstate : ∀ w ∈ results, w.state = .completed)
    (hresult : results.map NodeWork.result = outputs.map some)
    (hlisted : (all.filter fun w => w.groupId = r₁.pendingParallelGroup).Perm results)
    -- the executor that takes the run up
    (hcursor : r₂.toCursor = r₁.toCursor)
    (hcollect : (reconcileDistributedParallel.prog r₂).Returns es'' (res, r₃))
    (hcollected : Throughout (S := reqSig) (fun _ _ _ => ()) (fun _ => Collected all sound) () es'') :
    v.r.ready.map ExecutionToken.index = (List.range v.r.ready.length).map some ∧
      (sound = true → res.isOk = true) ∧
      (res.isOk = true → r₃.message.payload = v₁.r.message.payload ∧
        r₃.message.payload = .arr (outputs.map Message.payload) ∧
        r₃.message.provenance = v₁.r.message.provenance ∧ r₃.activeNode = v₁.r.activeNode ∧
        r₃.preparedJoin = v₁.r.preparedJoin ∧ r₃.frames = v₁.r.frames) := by
  obtain ⟨hne, htokens⟩ := advance_index hn hready hfork
  refine ⟨htokens, ?_⟩
  let v₀ : Frame := { v with r := { v.r with ready := [] } }
  -- the local group
  have hrun : groupWatch.wp (executeParallel single fuel p resolved)
      (fun _ g' v' => ∃ n, p.nodes.get v.r.activeNode = some n ∧
        ∀ outputs : List Message, g'.map (·.outputs) = some (outputs.map some) →
          JoinedAt n.join v.r outputs v'.r) (fun _ _ _ => True) none v := by
    simp only [executeParallel, wp_bind, wp_get, modifyRun, wp_modify, hsingle, Bool.false_eq_true,
      if_false]
    refine wp_imp (runGroup_joined fuel v.r.ready) ?_
    rintro _ g' v' ⟨n, hget, hjoined⟩
    refine ⟨n, hget, fun outputs hg => ?_⟩
    have h := hjoined outputs hg
    exact ⟨h.message, h.activeNode, h.preparedJoin, h.frames⟩
  obtain ⟨m, hm, hjoined⟩ := Sat.of_returns hrun hlocal (Throughout.of_forall fun _ _ _ => trivial)
  have hlocal := hjoined outputs houtputs
  -- the run as it is parked
  have hpark : (parkWatch p v.r.ready.length v₀.r).Safe
    (executeParallel multi fuel p resolved) () v := by
    simp only [executeParallel, wp_bind, wp_get, modifyRun, wp_modify, hmulti, if_true, hall, try_,
      wp_ofExcept_ok]
    exact distributeGroup_parked v.r.ready ()
  obtain ⟨-, hgroupOf, hworks⟩ := (Throughout.of_sat hpark hparked
    (Throughout.of_forall fun _ _ _ => trivial)).of_mem hcheckpoint
  obtain ⟨m', drawn, hm', hr₁⟩ := hgroupOf
  obtain rfl : m = m' := Option.mem_unique hm hm'
  -- its results
  have hlength : results.length = v.r.ready.length := by
    have h := congrArg List.length (hindex.trans hworks)
    rwa [length_map, length_range] at h
  have hfinished : Finished results outputs :=
    ⟨by rw [hindex, hworks, hlength], hstate, hresult⟩
  have hsome : results ≠ [] := fun hnil => hne (by
    rw [← length_eq_zero_iff, ← hlength, hnil, length_nil])
  have hpending : r₂.pendingParallelGroup = r₁.pendingParallelGroup :=
    congrArg Cursor.pendingParallelGroup hcursor
  have hjoin : r₂.pendingParallelJoin = m.join :=
    (congrArg Cursor.pendingParallelJoin hcursor).trans (by rw [hr₁])
  have hmessage : r₂.message = v.r.message := (congrArg Cursor.message hcursor).trans (by rw [hr₁])
  rw [← hpending] at hgroup hlisted
  have hpost := Sat.of_returns (reconcile_joined hgroup hfinished hsome hlisted) hcollect hcollected
  cases res with
  | error e =>
    refine ⟨fun htrue => ?_, fun hok => absurd hok Bool.false_ne_true⟩
    exact absurd (hpost.symm.trans htrue) Bool.false_ne_true
  | ok _ =>
  have hdist : JoinedAt r₂.pendingParallelJoin r₂ outputs r₃ := hpost
  rw [hjoin] at hdist
  refine ⟨fun _ => rfl, fun _ => ⟨?_, ?_, ?_, ?_, ?_, ?_⟩⟩
  · rw [hdist.message, hlocal.message]
    rfl
  · rw [hdist.message]
    rfl
  · rw [hdist.message, hlocal.message, hmessage]
  · rw [hdist.activeNode, hlocal.activeNode]
  · rw [hdist.preparedJoin, hlocal.preparedJoin]
  · rw [hdist.frames, hlocal.frames]

/-! ## A sample group -/

/-- A run that has completed the parallel node of two functions. -/
def forkedRun : Run :=
  (advance twoFunctions { id := "fork", type := "parallel", join := "join" } "" "fork"
    { id := "run", activeNode := "fork" }).2

def sampleOutputs : List Message := [{ payload := .num 1 }, { payload := .num 2 }]

/-- Answers to a run that executes a group whose branches have just ended. -/
def groupAnswers : (c : Call) → Unit → Option (c.Resp × Unit)
  | .direct .uuid, _ => some ("group", ())
  | .direct (.openGroup _ _ _ _), _ => some ((), ())
  | .direct (.spawnBranches _), _ => some ((), ())
  | .direct (.parallelState group), _ =>
    some (some { id := group, runId := "run", outputs := sampleOutputs.map some, steps := 3,
                 completed := 2 }, ())
  | .direct (.external _), _ => some (.ok (), ())
  | .checkpoint r _ _, _ => some ((.ok (), r), ())
  | _, _ => none

def sampleResults : List NodeWork :=
  [{ id := "group:0", groupId := "group", index := 0, state := .completed, token := ⟨"left", {}, []⟩,
     result := some { payload := .num 1 } },
    { id := "group:1", groupId := "group", index := 1, state := .completed, token := ⟨"right", {}, []⟩,
      result := some { payload := .num 2 } }]

/-- Answers to an executor that takes up the run: the results in the order in which they came in. -/
def lateAnswers : (q : Req) → Unit → Option (q.Resp × Unit)
  | .collectWork _, _ => some (.ok sampleResults.reverse, ())
  | .external _, _ => some (.ok (), ())
  | _, _ => none

def parkedRun : Run :=
  { forkedRun with
    ready := [], pendingParallelGroup := "group", pendingParallelJoin := "join", state := .paused }

def parkedWork (index : Nat) (node : String) : NodeWork where
  id := "group:" ++ toString index
  runId := "run"
  groupId := "group"
  nodeId := node
  join := "join"
  index := index
  token := ⟨node, forkedRun.message, [⟨"fork", "join", 2, index⟩]⟩

/-- Two branches whose results come in in the wrong order. -/
theorem distributed_group_as_local_late : ∃ es es'' v₁ r₃,
      ((executeParallel { pipelineConfig twoFunctions with coordination := false } 5 twoFunctions
        []).prog { r := forkedRun }).Returns es (.ok false, v₁) ∧
      (reconcileDistributedParallel.prog parkedRun).Returns es'' (.ok (), r₃) ∧
      r₃.message.payload = v₁.r.message.payload ∧ r₃.message.payload = .arr [.num 1, .num 2] ∧
      r₃.activeNode = v₁.r.activeNode := by
  have hlocal := Prog.returns_of_history (S := callSig) (h := groupAnswers) (n := 5) (s := ())
    (p := (executeParallel { pipelineConfig twoFunctions with coordination := false } 5 twoFunctions
      []).prog { r := forkedRun }) rfl
  let parked : (c : Call) × c.Resp := ⟨.checkpoint parkedRun "parallel.waiting"
    [.nodeWork (parkedWork 0 "left"), .nodeWork (parkedWork 1 "right")], (.ok (), parkedRun)⟩
  have hparked : ((executeParallel (pipelineConfig twoFunctions) 5 twoFunctions []).prog
      { r := forkedRun }).Returns [⟨.direct .uuid, "group"⟩,
        ⟨.direct (.external (.artifacts forkedRun.message)), .ok ()⟩,
        ⟨.direct (.external (.artifacts forkedRun.message)), .ok ()⟩, parked] _ :=
    Prog.returns_of_history (h := groupAnswers) (n := 5) (s := ()) rfl
  let es'' : List ((q : Req) × q.Resp) := [⟨.collectWork "run", .ok sampleResults.reverse⟩,
    ⟨.external (.artifacts (joinedMessage parkedRun.message sampleOutputs)), .ok ()⟩]
  have hcollect : (reconcileDistributedParallel.prog parkedRun).Returns es'' _ :=
    Prog.returns_of_history (h := lateAnswers) (n := 5) (s := ()) rfl
  have hcollected : Throughout (S := reqSig) (fun _ _ _ => ())
      (fun _ => Collected sampleResults.reverse true) () es'' := ⟨rfl, fun _ => rfl, trivial⟩
  have hlisted : (sampleResults.reverse.filter fun w =>
      w.groupId = parkedRun.pendingParallelGroup).Perm sampleResults :=
    reverse_perm sampleResults
  obtain ⟨-, -, hsame⟩ := distributed_group_as_local
    (n := { id := "fork", type := "parallel", join := "join" })
    rfl (show ({ id := "run", activeNode := "fork" } : Run).ready = [] from rfl)
    (show advance twoFunctions _ "" "fork" _ = _ from rfl) rfl hlocal
    (show _ = some (sampleOutputs.map some) from rfl)
    (show (pipelineConfig twoFunctions).coordination from rfl) rfl hparked.makes
    (mem_of_getElem? (i := 3) rfl) (by decide)
    (show sampleResults.map NodeWork.index = _ from rfl) (by decide) rfl
    hlisted (show parkedRun.toCursor = _ from rfl) hcollect hcollected
  obtain ⟨hpayload, harray, -, hactive, -⟩ := hsame rfl
  exact ⟨_, _, _, _, hlocal, hcollect, hpayload, harray, hactive⟩

end Laso
