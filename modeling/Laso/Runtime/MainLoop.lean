import Laso.Runtime.Attempts

/-!
# The routine parts of the main loop

Most functions of the main loop leave alone what is counted or bounded about a run: they ask
components, write the copy of the run with the current attempt, move the cursor. The few that do
more are the ones that begin an attempt (`startAttempt`), create a child (`startChild`), take over
the counter of a local group (`awaitBranches`) and accept a result (`finishNode`).

`Routine W I` says of an observer `W` and a condition `I` that such routine steps keep the
condition. From it follows, function by function, that the routine code keeps it; what the others
do to it is a hypothesis. A law of the main loop about some count is then its `Routine` instance
and the cases of the functions that count.
-/

namespace Laso

open Exec Watch

/-- Single calls of the main loop other than those that begin a visit or an attempt. -/
def Req.Routine : Req → Prop
  | .external (.makeNode _) | .external (.deadline _) => False
  | .peekRun _ | .uuid | .check _ | .external _ | .resolveWorker _ | .permission _ _
  | .listApprovals _ | .resolvePipeline _ _ _ | .nodeExecute _ _ _ | .openGroup _ _ _ _
  | .spawnBranches _ | .parallelState _ | .halt => True
  | _ => False

/-- A change of the variables that does not end the attempt. -/
def Frame.Alike (v v' : Frame) : Prop :=
  v.attempt.state.final = false → v'.attempt.state.final = false

/-- Records written on the way: no attempt but the current one. -/
def Frame.Bare (v : Frame) (records : List Record) : Prop :=
  ∀ a ∈ attemptsOf records, a = v.attempt

/-- The routine steps of the main loop keep the condition `I`. -/
structure Routine {G : Type} (W : Watch callSig G) (I : G → Frame → Prop) : Prop where
  alike : ∀ g v v', I g v → v.Alike v' → I g v'
  direct : ∀ q g v, I g v → q.Routine →
    W.Allow g (.direct q) ∧ ∀ answer g', W.Step g (.direct q) answer g' → I g' v
  checkpoint : ∀ type records g v, I g v → v.Bare records →
    W.Allow g (.checkpoint v.r type records) ∧
      ∀ res r' g', W.Step g (.checkpoint v.r type records) (res, r') g' → I g' { v with r := r' }
  transition : ∀ state type g v, I g v → W.Allow g (.transition v.r state type []) ∧
      ∀ res r' g', W.Step g (.transition v.r state type []) (res, r') g' → I g' { v with r := r' }
  park : ∀ n reason g v, I g v → W.Allow g (.park v.r n reason) ∧
      ∀ res r' g', W.Step g (.park v.r n reason) (res, r') g' → I g' { v with r := r' }

lemma Frame.bare_nil (v : Frame) : v.Bare [] := nofun

lemma Frame.bare_attempt (v : Frame) : v.Bare [.attempt v.attempt] :=
  fun _ ha => List.mem_singleton.mp ha

namespace Routine

variable {G α β : Type} {W : Watch callSig G} {I : G → Frame → Prop} {cfg : Config}

/-! ## Rules -/

/-- The variables change, the current attempt does not end. -/
lemma modify (h : Routine W I) {f : Frame → Frame} (hf : ∀ v : Frame, v.Alike (f v)) :
    W.Keeps I (modify f : Exec Frame PUnit) := keeps_modify fun g v hI => h.alike g v _ hI (hf v)

lemma modifyRun (h : Routine W I) (f : Run → Run) : W.Keeps I (modifyRun f) :=
  h.modify fun _ => id

lemma outcome (h : Routine W I) (x : Except Exn α × Run) : W.Keeps I (onOutcome x) :=
  keeps_bind (h.modify fun _ => id) fun _ => keeps_ofExcept _

/-- A routine call of another component. -/
lemma call (h : Routine W I) {q : Req} (hq : q.Routine) :
    W.Keeps I (Exec.direct q : Exec Frame _) := keeps_call fun g v hI => h.direct q g v hI hq

variable {E : Exn → G → Frame → Prop}

lemma wp_call (h : Routine W I) {q : Req} (hq : q.Routine) {g : G} {v : Frame} (hI : I g v)
    {Q : q.Resp → G → Frame → Prop}
    (hQ : ∀ answer g', I g' v → Q answer g' v) : W.wp (Exec.direct q) Q E g v :=
  ⟨(h.direct q g v hI hq).1, fun a g' hs => hQ a g' ((h.direct q g v hI hq).2 a g' hs)⟩

lemma fetch (x : Except Error α) : W.Keeps I (Exec.fetch x : Exec Frame α) := by
  cases x with
  | ok a => exact keeps_pure a
  | error e => exact keeps_throw _

lemma halt (h : Routine W I) : W.Keeps I (Exec.halt : Exec Frame α) :=
  keeps_bind (h.call trivial) nofun

lemma nodeAt (p : PipelineDefinition) (id : String) :
    W.Keeps I (Exec.nodeAt p id : Exec Frame NodeDefinition) := by
  unfold Exec.nodeAt
  split
  · exact keeps_pure _
  · exact keeps_throw _

section

variable (h : Routine W I)
include h

/-- The copy is stored as it is, with the current attempt at most. -/
lemma wp_checkpoint (type : String) {records : List Record} {g : G} {v : Frame}
    (hI : I g v) (hrecords : v.Bare records) {Q : Unit → G → Frame → Prop}
    (hQ : ∀ g' v', I g' v' → Q () g' v')
    (hE : ∀ e g' v', I g' v' → E e g' v') : W.wp (checkpointRun type records) Q E g v := by
  obtain ⟨hallow, hstep⟩ := h.checkpoint type records g v hI hrecords
  refine ⟨hallow, ?_⟩
  rintro ⟨res, r'⟩ g' hs
  cases res with
  | ok _ => exact hQ _ _ (hstep _ _ _ hs)
  | error e => exact hE _ _ _ (hstep _ _ _ hs)

lemma checkpoint_nil (type : String) : W.Keeps I (checkpointRun type) :=
  fun _ v hI => h.wp_checkpoint type hI v.bare_nil (fun _ _ h => h) fun _ _ _ h => h

/-- The current attempt is stored with the copy. -/
lemma checkpoint_attempt (type : String) {rest : Frame → Unit → Exec Frame α}
    (hrest : ∀ v a, W.Keeps I (rest v a)) :
    W.Keeps I (get >>= fun v => checkpointRun type [.attempt v.attempt] >>= rest v) :=
  fun _ v hI => (wp_bind _ _).mpr ((wp_bind _ _).mpr (h.wp_checkpoint type hI v.bare_attempt
    (fun g' v' hI' => hrest v () g' v' hI') fun _ _ _ h => h))

lemma transitionRun (state : RunState) (type : String) :
    W.Keeps I (Exec.transitionRun state type) := by
  intro g v hI
  obtain ⟨hallow, hstep⟩ := h.transition state type g v hI
  refine ⟨hallow, ?_⟩
  rintro ⟨res, r'⟩ g' hs
  cases res <;> exact hstep _ _ _ hs

/-- A call to a component outside the process. -/
lemma external {what : External} {rest : Unit → Exec Frame α}
    (hq : (Req.external what).Routine) (hrest : ∀ a, W.Keeps I (rest a)) :
    W.Keeps I (do let a ← Exec.direct (.external what); try_ a >>= rest) :=
  keeps_bind (h.call hq) fun _ => keeps_bind (keeps_ofExcept _) hrest

lemma check : W.Keeps I Exec.check :=
  keeps_get_bind fun _ _ _ => keeps_bind (h.call trivial) fun _ => keeps_ofExcept _

/-! ## Preparing a node -/

lemma loadContext : W.Keeps I loadContext := by
  refine keeps_get_bind fun _ _ _ => keeps_if ?_ (keeps_pure _)
  exact keeps_bind (h.call trivial) fun _ => keeps_ofExcept _

variable (n : NodeDefinition)

/-- The provider, the tool or the worker of the node is noted in the run. -/
lemma labelNode : W.Keeps I (labelNode cfg n) := by
  refine keeps_bind (h.modifyRun _) fun _ => keeps_if ?_ ?_
  · split
    · exact h.modifyRun _
    · exact keeps_pure _
  refine keeps_if ?_ <| keeps_if ?_ (keeps_pure _)
  · exact keeps_bind (h.modifyRun _) fun _ => keeps_bind (keeps_ofExcept _)
      fun _ => h.modifyRun _
  · exact keeps_bind (h.call trivial) fun _ => keeps_bind (keeps_ofExcept _) fun _ =>
      h.modifyRun _

/-- A join that still waits is left for the next ready token. -/
lemma reachNode : W.Keeps I (reachNode n) := by
  refine keeps_get_bind fun _ _ _ => keeps_bind (h.outcome _) fun step => ?_
  cases step with
  | ready => exact keeps_pure _
  | waiting => exact keeps_bind (h.checkpoint_nil _) fun _ => keeps_pure _

/-- The policy of the node: denied, cleared, or parked for an approval. -/
lemma approvalGate : W.Keeps I (approvalGate n) := by
  intro g v hI
  have hpark : ∀ reason (g : G), I g v → W.wp (do
      onOutcome (← Code.call (S := callSig) (.park v.r n reason))
      return false) (fun _ => I) (fun _ => I) g v := by
    intro reason g hI
    obtain ⟨hallow, hstep⟩ := h.park n reason g v hI
    refine ⟨hallow, ?_⟩
    rintro ⟨res, r'⟩ g' hs
    cases res <;> exact hstep _ _ _ hs
  simp only [Laso.approvalGate, wp_bind, wp_get]
  refine h.wp_call (q := .permission n v.r) trivial hI fun answer g hI => ?_
  cases answer with
  | error e => exact hI
  | ok policy =>
  refine (wp_ite _ _).mpr ⟨fun _ => hI, fun _ => (wp_ite _ _).mpr ⟨fun _ => ?_, fun _ => hI⟩⟩
  refine (wp_bind _ _).mpr (h.wp_call (q := .listApprovals v.r.id) trivial hI fun answer g hI => ?_)
  cases answer with
  | error e => exact hI
  | ok approvals => exact (wp_ite _ _).mpr ⟨fun _ => hI, fun _ => hpark _ g hI⟩

/-! ## Node bodies -/

lemma linkChild (id pipelineId : String) (version : Nat) :
    W.Keeps I (linkChild id pipelineId version) := h.modify fun _ ha => ha

/-- The attempt waits, and the run is paused until the child ends. -/
lemma pauseForChild : W.Keeps I pauseForChild :=
  keeps_bind (h.modify fun _ _ => rfl) fun _ =>
    h.checkpoint_attempt _ fun _ _ => keeps_bind (h.transitionRun _ _) fun _ => keeps_pure _

/-- The loop that polls the child, by induction on the fuel. -/
lemma awaitChild (fuel : Nat) : W.Keeps I (awaitChild fuel) := by
  induction fuel with
  | zero => exact h.halt
  | succ fuel ih =>
    refine keeps_bind h.check fun _ => keeps_get_bind fun _ _ _ =>
      keeps_bind (h.call trivial) fun _ => keeps_bind (fetch _) fun child => ?_
    refine keeps_if (keeps_if (keeps_throw _) (keeps_pure _)) ?_
    exact keeps_if (h.pauseForChild) <| keeps_bind h.check fun _ => ih

lemma currentChild : W.Keeps I currentChild :=
  keeps_get_bind fun _ _ _ => keeps_if (keeps_pure _) <|
    keeps_bind (h.call trivial) fun _ => keeps_bind (fetch _) fun _ => keeps_pure _

variable (resolved : List (String × String))

/-- Creating the child is the one call that is not routine. -/
lemma startChild (n : NodeDefinition)
    (hrun : ∀ q, W.Keeps I (Code.call (S := callSig) (.run q) : Exec Frame _)) :
    W.Keeps I (startChild cfg resolved n) := by
  refine keeps_get_bind fun _ _ _ => keeps_when (fun _ => keeps_throw _) fun _ => ?_
  refine keeps_bind (h.call trivial) fun _ => keeps_bind (keeps_ofExcept _) fun _ =>
    keeps_bind (hrun _) fun created => keeps_bind (keeps_ofExcept _) fun _ => ?_
  refine keeps_bind (h.modifyRun _) fun _ =>
    keeps_bind (h.linkChild _ _ _) fun _ => ?_
  exact fun g v hI => (wp_bind _ _).mpr
    (h.wp_checkpoint _ hI v.bare_attempt (fun _ _ h => h) fun _ _ _ h => h)

lemma nodeBody (number : Nat) : W.Keeps I (nodeBody n number) :=
  keeps_bind h.check fun _ => keeps_bind h.check fun _ => keeps_get_bind fun _ _ _ =>
    h.external trivial fun _ => keeps_bind (h.call trivial) fun _ =>
      keeps_bind (keeps_ofExcept _) fun _ => keeps_pure _

variable (p : PipelineDefinition)

/-- A result is checked against the schema of the node. -/
lemma checkBody (n : NodeDefinition) (body : Body) : W.Keeps I (checkBody p n body) := by
  cases body with
  | parked => exact keeps_pure _
  | done result =>
    refine keeps_bind h.check fun _ => h.external trivial fun _ => ?_
    exact keeps_if (h.external trivial fun _ => keeps_pure _) (keeps_pure _)

/-- A child that exists is joined or replaced, else one is created. -/
lemma prepareChild (n : NodeDefinition) (hstart : W.Keeps I (Laso.startChild cfg resolved n)) :
    W.Keeps I (prepareChild cfg resolved n) := by
  refine keeps_bind h.currentChild fun child => ?_
  cases child with
  | none => exact keeps_bind hstart fun _ => keeps_pure _
  | some child =>
  refine keeps_if ?_ <| keeps_if ?_ ?_
  · exact keeps_bind (h.linkChild _ _ _) fun _ => keeps_pure _
  · exact keeps_bind (h.modifyRun _) fun _ =>
      keeps_bind hstart fun _ => keeps_pure _
  · exact keeps_bind (h.linkChild _ _ _) fun _ => keeps_pure _

lemma subpipelineBody (fuel : Nat) (resolved : List (String × String))
    (n : NodeDefinition) (hstart : W.Keeps I (Laso.startChild cfg resolved n)) :
    W.Keeps I (subpipelineBody cfg fuel resolved n) := by
  refine keeps_get_bind fun _ _ _ => h.external trivial fun _ =>
    keeps_bind (h.prepareChild resolved n hstart) fun result => ?_
  cases result with
  | some result => exact keeps_pure _
  | none => exact keeps_if (h.pauseForChild) <| h.awaitChild fuel

variable (fuel : Nat) (p : PipelineDefinition) (resolved : List (String × String))

lemma attemptBody (number : Nat) (hstart : W.Keeps I (Laso.startChild cfg resolved n)) :
    W.Keeps I (attemptBody cfg fuel p resolved n number) := by
  refine keeps_if ?_ ?_
  · exact keeps_bind (h.subpipelineBody fuel resolved n hstart) (h.checkBody p n)
  · exact keeps_bind (h.nodeBody n number) (h.checkBody p n)

lemma returnToRunning (failed : Bool) : W.Keeps I (returnToRunning n failed) :=
  keeps_get_bind fun _ _ _ => keeps_if (h.transitionRun _ _) (keeps_pure _)

/-! ## Parallel groups -/

/-- The rows of a distributed group hold no attempts. -/
lemma groupWork (r : Run) (group join : String)
    (index : Nat) (tokens : List ExecutionToken) {g : G} {v : Frame} (hI : I g v) :
    W.wp (groupWork p r group join index tokens)
      (fun records g' v' => I g' v' ∧ attemptsOf records = [])
      (fun _ => I) g v := by
  induction tokens generalizing index g with
  | nil => exact ⟨hI, rfl⟩
  | cons token rest ih =>
    simp only [Laso.groupWork, wp_bind]
    refine h.wp_call (q := .external (.artifacts token.message)) trivial hI fun answer g hI => ?_
    cases answer with
    | error e => exact hI
    | ok _ =>
    cases workerRequirement p (p.edges.length + 1) [token.nodeId] [] none with
    | error e => exact hI
    | ok worker =>
    cases worker with
    | none => exact hI
    | some worker =>
      exact (wp_bind _ _).mpr (wp_imp (ih _ hI) fun _ _ _ h => h)

/-- The group is stored as work for other instances. -/
lemma distributeGroup (tokens : List ExecutionToken) :
    W.Keeps I (distributeGroup p tokens) := by
  refine keeps_bind (h.call trivial) fun group => keeps_get_bind fun _ v _ =>
    keeps_bind (nodeAt _ _) fun n g v' hI => ?_
  refine (wp_bind _ _).mpr (wp_imp (h.groupWork p v.r group n.join 0 tokens hI) ?_)
  rintro records g v ⟨hI, ha⟩
  simp only [wp_bind, Exec.modifyRun, wp_modify]
  refine h.wp_checkpoint _ ?_ ?_ (fun _ _ hI => ?_) fun _ _ _ hI => hI
  · exact h.alike g v _ hI id
  · simp [Frame.Bare, ha]
  · exact hI

/-- The group is run by coroutines of this process. -/
lemma runGroup (tokens : List ExecutionToken)
    (hawait : ∀ group, W.Keeps I (awaitBranches group fuel)) :
    W.Keeps I (runGroup fuel p resolved tokens) := by
  refine keeps_bind (h.call trivial) fun _ => keeps_get_bind fun _ _ _ =>
    keeps_bind (h.call trivial) fun _ => keeps_bind (h.call trivial) fun _ => ?_
  refine keeps_bind (hawait _) fun outputs => ?_
  refine keeps_get_bind fun _ _ _ => keeps_bind (h.outcome _) fun _ => ?_
  exact keeps_bind (nodeAt _ _) fun _ =>
    keeps_bind (h.modifyRun _) fun _ => keeps_pure _

lemma executeParallel (hawait : ∀ group, W.Keeps I (awaitBranches group fuel)) :
    W.Keeps I (executeParallel cfg fuel p resolved) := by
  refine keeps_get_bind fun _ v _ => keeps_bind (h.modifyRun _) fun _ =>
    keeps_if (keeps_bind (keeps_ofExcept _) fun _ => keeps_if ?_ ?_) ?_
  · exact h.distributeGroup _ _
  · exact h.runGroup _ _ _ _ hawait
  · exact h.runGroup _ _ _ _ hawait

end

end Routine

/-! ## Laws that do not look at the copy -/

/-- Only attempts that have not ended are written. -/
def Tame (records : List Record) : Prop := ∀ a ∈ attemptsOf records, a.state.final = false

/-- Calls of the main loop other than those that begin a visit or an attempt or create a child. -/
def Call.Routine : Call → Prop
  | .direct q => q.Routine
  | .checkpoint _ _ _ | .transition _ _ _ _ | .park _ _ _ => True
  | _ => False

/-- The condition is about the observation and the current attempt: it is kept while the attempt is
one of a certain kind, and by calls that write such attempts only. -/
structure Blind {G : Type} (W : Watch callSig G) (F : NodeExecution → Prop) (I : G → Frame → Prop) :
    Prop where
  same : ∀ a a', F a → (a.state.final = false → a'.state.final = false) → F a'
  frame : ∀ g v v', I g v → F v'.attempt → I g v'
  attempt : ∀ g v, I g v → F v.attempt
  call : ∀ c g v, I g v → c.Routine → (∀ a ∈ attemptsOf c.writes, F a) →
    W.Allow g c ∧ ∀ answer g', W.Step g c answer g' → I g' v

lemma tame_nil : Tame [] := nofun

lemma tame_attempt {a : NodeExecution} (h : a.state.final = false) : Tame [.attempt a] := by
  intro b hb
  cases List.mem_singleton.mp hb
  exact h

namespace Blind

variable {G α : Type} {W : Watch callSig G} {F : NodeExecution → Prop} {I : G → Frame → Prop}
  {cfg : Config} {records : List Record} {g : G} {v : Frame}

section

variable (h : Blind W F I)
include h

/-- A call on the copy of the run: any copy may come back. -/
lemma copy {c : Call} (hI : I g v) (hc : c.Routine) (hwrites : ∀ a ∈ attemptsOf c.writes, F a) :
    W.Allow g c ∧ ∀ answer g' r', W.Step g c answer g' → I g' { v with r := r' } :=
  ⟨(h.call c g v hI hc hwrites).1, fun answer g' _ hs =>
    h.frame g' v _ ((h.call c g v hI hc hwrites).2 answer g' hs) (h.attempt g v hI)⟩

lemma unfinished (hI : I g v) {a : NodeExecution} (ha : a.state.final = false) : F a :=
  h.same _ a (h.attempt g v hI) fun _ => ha

/-- A law that does not look at the copy is kept by routine steps. -/
lemma routine : Routine W I where
  alike g v v' hI hv := h.frame g v v' hI (h.same _ _ (h.attempt g v hI) hv)
  direct q g v hI hq := by
    refine h.call (.direct q) g v hI hq ?_
    cases q <;> first | exact absurd hq id | simp [Call.writes, attemptsOf]
  checkpoint type records g v hI hrecords := by
    have hwrites : ∀ a ∈ attemptsOf records, F a := fun a ha =>
      hrecords a ha ▸ h.attempt g v hI
    obtain ⟨hallow, hstep⟩ := h.copy (c := .checkpoint v.r type records) hI trivial hwrites
    exact ⟨hallow, fun res r' g' hs => hstep (res, r') g' r' hs⟩
  transition state type g v hI := by
    obtain ⟨hallow, hstep⟩ := h.copy (c := .transition v.r state type []) hI trivial
      (by simp [Call.writes, attemptsOf])
    exact ⟨hallow, fun res r' g' hs => hstep (res, r') g' r' hs⟩
  park n reason g v hI := by
    obtain ⟨hallow, hstep⟩ := h.copy (c := .park v.r n reason) hI trivial
      (by simp [Call.writes, attemptsOf])
    exact ⟨hallow, fun res r' g' hs => hstep (res, r') g' r' hs⟩

lemma checkpointRun (type : String) (hrecords : ∀ a ∈ attemptsOf records, F a) :
    W.Keeps I (checkpointRun type records) :=
  keeps_get_bind fun _ v _ => keeps_bind
    (keeps_call fun g v' hI => h.call (.checkpoint v.r type records) g v' hI trivial hrecords)
    fun _ => h.routine.outcome _

lemma transitionRun (state : RunState) (type : String) (hrecords : ∀ a ∈ attemptsOf records, F a) :
    W.Keeps I (transitionRun state type records) :=
  keeps_get_bind fun _ v _ => keeps_bind (keeps_call fun g v' hI =>
      h.call (.transition v.r state type records) g v' hI trivial hrecords)
    fun _ => h.routine.outcome _

/-- The loop that polls the group, by induction on the fuel. -/
lemma awaitBranches (group : String) (fuel : Nat) : W.Keeps I (awaitBranches group fuel) := by
  induction fuel with
  | zero => exact h.routine.halt
  | succ fuel ih =>
    refine keeps_bind (h.routine.call trivial) fun state => ?_
    cases state with
    | none => exact keeps_throw _
    | some group =>
      refine keeps_if (keeps_bind (h.routine.modifyRun _) fun _ => ?_) ih
      exact keeps_if (keeps_throw _) (keeps_pure _)

variable (fuel : Nat) (p : PipelineDefinition) (resolved : List (String × String)) (n : NodeDefinition)

/-- The next node: along one edge, or to all branches of a fork. -/
lemma route (condition : String) (hrecords : ∀ a ∈ attemptsOf records, F a) :
    W.Keeps I (route cfg fuel p resolved n condition records) := by
  refine keeps_if ?_ ?_
  · refine keeps_bind (keeps_ofExcept _) fun _ => keeps_bind (h.routine.call trivial) fun _ =>
      keeps_get_bind fun _ _ _ => keeps_bind (h.routine.outcome _) fun _ =>
        keeps_if ?_ ?_
    · exact keeps_get_bind fun _ _ _ => keeps_bind (h.routine.outcome _) fun _ => keeps_pure _
    · refine keeps_bind (h.routine.executeParallel _ _ _ fun group => h.awaitBranches group fuel)
        fun _ => keeps_if ?_ (keeps_pure _)
      exact keeps_bind (h.checkpointRun _ hrecords) fun _ => keeps_pure _
  · exact keeps_bind (h.routine.call trivial) fun _ => keeps_get_bind fun _ _ _ =>
      keeps_bind (h.routine.outcome _) fun _ => keeps_pure _

/-- The result is accepted, and routed with the records of the attempt. -/
lemma finishNode (result : NodeResult) : W.Keeps I (finishNode cfg fuel p resolved n result) := by
  have hcompletion : ∀ g v, I g v → ∀ a ∈ attemptsOf (completionRecords v), F a :=
    fun g v hI a ha => List.mem_singleton.mp ha ▸ h.attempt g v hI
  refine keeps_bind (keeps_modify fun g v hI => h.frame g v _ hI (h.unfinished hI rfl)) fun _ =>
    keeps_bind (h.routine.call trivial) fun id => keeps_bind (h.routine.modifyRun _) fun _ =>
      keeps_get_bind fun g v hI => ?_
  refine keeps_bind (keeps_tryCatch (h.route _ _ _ _ _ (hcompletion g v hI)) fun _ => ?_)
    fun routed => keeps_get_bind fun g' v' hI' => ?_
  · exact keeps_bind (h.checkpointRun _ (hcompletion g v hI)) fun _ => keeps_throw _
  have hrecords : ∀ a ∈ attemptsOf (if n.type = "parallel" ∧ v'.r.message.id = id then
      completionRecords v' else completionRecords v), F a := by
    split
    · exact hcompletion g' v' hI'
    · exact hcompletion g v hI
  rcases routed with (_ | _) | _
  · exact keeps_bind (h.transitionRun _ _ hrecords) fun _ => keeps_pure _
  · exact keeps_bind (h.checkpointRun _ hrecords) fun _ => keeps_pure _
  · exact keeps_pure _

/-- The attempt is created and stored before the node runs. -/
lemma startAttempt (number : Nat)
    (hdeadline : W.Keeps I (Exec.direct (.external (.deadline n)) : Exec Frame _)) :
    W.Keeps I (startAttempt n number) := by
  refine keeps_bind hdeadline fun _ => keeps_bind (keeps_ofExcept _) fun _ =>
    keeps_when (fun _ => h.routine.transitionRun _ _) fun _ => ?_
  refine keeps_bind (h.routine.call trivial) fun _ => keeps_bind
    (keeps_modify fun g v hI => h.frame g v _ hI (h.unfinished hI rfl)) fun _ =>
      h.routine.checkpoint_attempt _ fun _ _ => ?_
  refine keeps_bind (keeps_modify fun g v hI => h.frame g v _ hI (h.attempt g v hI)) fun _ =>
    keeps_when (fun _ => h.routine.transitionRun _ _) fun _ => ?_
  exact keeps_if (h.routine.transitionRun _ _) (keeps_pure _)

end

end Blind

/-- What remains to be shown of a law of the main loop: the calls that begin a visit, an attempt or a
child, and the failure of an attempt. -/
structure MainLaw {G : Type} (W : Watch callSig G) (F : NodeExecution → Prop) (I : G → Frame → Prop)
    (E : Exn → G → Frame → Prop) : Prop extends Blind W F I where
  thrown : ∀ e g v, I g v → E e g v
  make : ∀ n, W.Keeps I (Exec.direct (.external (.makeNode n)) : Exec Frame _)
  deadline : ∀ n, W.Keeps I (Exec.direct (.external (.deadline n)) : Exec Frame _)
  run : ∀ q, W.Keeps I (Code.call (S := callSig) (.run q) : Exec Frame _)
  fails : ∀ n last e g v, I g v → W.wp (failAttempt n last e) (fun _ => I) E g v

namespace MainLaw

variable {G : Type} {W : Watch callSig G} {F : NodeExecution → Prop} {I : G → Frame → Prop}
  {E : Exn → G → Frame → Prop} {cfg : Config} {g : G} {v : Frame}

lemma wp_of_keeps {α : Type} {x : Exec Frame α} {Q : α → G → Frame → Prop} (h : MainLaw W F I E)
    (hx : W.Keeps I x) (hI : I g v) (hQ : ∀ a g v, I g v → Q a g v) : W.wp x Q E g v :=
  wp_mono (hx g v hI) hQ h.thrown

variable (h : MainLaw W F I E) (fuel : Nat) (p : PipelineDefinition) (resolved : List (String × String))
include h

/-- The attempts at one node, by induction on those left. -/
lemma attempts (n : NodeDefinition) (left : Nat) (hI : I g v) :
    W.wp (attempts cfg fuel p resolved n left) (fun _ => I) E g v := by
  induction left generalizing g v with
  | zero => exact h.thrown _ g v hI
  | succ left ih =>
    simp only [Laso.attempts, wp_bind, wp_capture]
    refine h.wp_of_keeps (h.startAttempt n _ (h.deadline n)) hI fun _ g v hI => ?_
    refine wp_mono (h.routine.attemptBody n fuel p resolved _
      (h.routine.startChild resolved n h.run) g v hI) (fun body g v hI => ?_) fun e g v hI => ?_
    · cases body with
      | parked => exact hI
      | done result =>
        refine of_bind (h.wp_of_keeps (h.routine.returnToRunning n false) hI fun _ g v hI => ?_)
        exact h.wp_of_keeps (h.finishNode fuel p resolved n result) hI fun _ _ _ hI => hI
    · refine h.wp_of_keeps (h.routine.returnToRunning n true) hI fun _ g v hI => ?_
      exact wp_imp (h.fails n _ e g v hI) fun _ _ _ hI => ih hI

/-- One round of the loop, function by function. -/
lemma iteration (hI : I g v) :
    W.wp (iteration cfg fuel p resolved) (fun _ => I) E g v := by
  have hclear : I g { v with attemptRecorded := false } := h.frame g v _ hI (h.attempt g v hI)
  simp only [Laso.iteration, wp_bind, wp_modify, wp_get]
  refine h.wp_of_keeps h.routine.loadContext hclear fun _ g v hI => ?_
  refine h.wp_of_keeps h.routine.check hI fun _ g v hI => ?_
  refine h.wp_of_keeps (Routine.nodeAt p _) hI fun n g v hI => ?_
  refine h.wp_of_keeps (h.routine.labelNode n) hI fun _ g v hI => ?_
  refine h.wp_of_keeps (h.routine.reachNode n) hI fun step g v hI => ?_
  cases step with
  | waiting => exact hI
  | ready =>
  refine of_bind (of_ite ⟨fun _ => h.thrown _ g v hI, fun _ => ?_⟩)
  refine of_bind (h.wp_of_keeps (h.routine.approvalGate n) hI fun cleared g v hI => ?_)
  refine of_ite ⟨fun _ => ?_, fun _ => hI⟩
  refine of_bind (h.wp_of_keeps (h.make n) hI fun made g v hI => ?_)
  refine of_bind (h.wp_of_keeps (keeps_ofExcept made) hI fun _ g v hI => ?_)
  exact h.attempts fuel p resolved n _ hI

/-- **The main loop** keeps the condition. -/
lemma mainLoop (fuel : Nat) (hI : I g v) :
    W.wp (mainLoop cfg p resolved fuel) (fun _ => I) E g v := by
  induction fuel generalizing g v with
  | zero => exact h.wp_of_keeps h.routine.halt hI fun _ _ _ hI => hI
  | succ fuel ih =>
    refine of_bind (wp_imp (h.iteration fuel p resolved hI) fun next g v hI => ?_)
    cases next with
    | again => exact ih hI
    | finished => exact hI

end MainLaw

end Laso
