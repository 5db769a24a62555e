import Laso.Solo.Coroutines

/-!
# What a drained process does

A process that takes no new work and executes none. A call that does not enter a run into `active_`
keeps it so (`drained_ask`), and the code of the operations is followed call by call with the
observer of the world: `run` and `resume` are refused by a drained process (`drained_run`,
`drained_resume`), which is what all the rest comes down to.
-/

namespace Laso

open Watch Op World

/-- The process takes no new work and executes none. -/
structure Proc.Drained (p : Proc) : Prop where
  mode : p.mode ≠ .active
  runs : p.active.rows = []
  nodes : p.activeNodes.rows = []

/-- The only process is drained. -/
def Drained {σ : Type} (w : World) (_ : σ) : Prop := (w.procs soloName).Drained

/-- Calls that enter a run or a node into the tables of the process. -/
def Req.Starts : Req → Prop
  | .schedule _ _ | .scheduleWork _ _ _ => True
  | _ => False

variable {cfg : Config} {P : Oracle → (q : Req) → q.Resp → Prop} {σ α : Type}

/-! ## Single calls -/

lemma Proc.Drained.active_get {p : Proc} (h : p.Drained) (id : String) : p.active.get id = none := by
  unfold Table.get
  rw [h.runs]
  rfl

/-- What a call does to the memory of a process: the maintenance mode stays, and what is empty is
filled by a start only. -/
structure Proc.Within (starts : Prop) (p p' : Proc) : Prop where
  mode : p'.mode = p.mode
  runs : ¬starts → p.active.rows = [] → p'.active.rows = []
  nodes : ¬starts → p.activeNodes.rows = [] → p'.activeNodes.rows = []

variable {starts : Prop}

lemma Proc.Within.refl (p : Proc) : Proc.Within starts p p := ⟨rfl, fun _ h => h, fun _ h => h⟩

/-- A drained process stays so under calls that start nothing. -/
lemma Proc.Within.drained {p p' : Proc} (h : Proc.Within starts p p')
    (hstarts : ¬starts) (hp : p.Drained) : p'.Drained :=
  ⟨h.mode ▸ hp.mode, h.runs hstarts hp.runs, h.nodes hstarts hp.nodes⟩

lemma Table.rows_of_get {β : Type} [Keyed β] {t : Table β} {k : String} {b : β}
    (h : t.get k = some b) : t.rows ≠ [] := by
  intro hempty
  have hmem := Table.mem_of_get h
  rw [hempty] at hmem
  cases hmem

lemma World.within_setProc {w : World} {p : Proc} (h : Proc.Within starts (w.procs soloName) p) :
    Proc.Within starts (w.procs soloName) ((w.setProc soloName p).procs soloName) := h

variable (w : World) (id : String)

lemma World.within_updateActive (f : ActiveRun → ActiveRun) : Proc.Within starts (w.procs soloName)
      ((w.updateActive soloName id f).procs soloName) := by
  unfold updateActive
  split
  · exact .refl _
  · rename_i hget
    exact within_setProc ⟨rfl, fun _ h => absurd h (Table.rows_of_get hget), fun _ h => h⟩

variable (group : String)

lemma World.within_updateParallel (f : ParallelState → ParallelState) :
    Proc.Within starts (w.procs soloName)
      ((w.updateParallel soloName group f).procs soloName) := by
  unfold updateParallel
  split
  · exact .refl _
  · exact within_setProc ⟨rfl, fun _ h => h, fun _ h => h⟩

/-- Calls to the store leave the memory of the process. -/
lemma within_onDb (o : Oracle) (w : World) (f : Db → Except Error α × Db) :
    Proc.Within starts (w.procs soloName) ((onDb o w f).2.procs soloName) := by
  unfold onDb
  split <;> exact .refl _

/-- A run is entered after all refusals. -/
lemma within_schedule (r : Run) (lease : Option LeaseRecord) :
    Proc.Within True (w.procs soloName) ((scheduleRun cfg soloName w r lease).2.procs soloName) := by
  unfold scheduleRun
  dsimp only
  split
  · exact .refl _
  split
  · exact .refl _
  split
  · exact .refl _
  · exact within_setProc ⟨rfl, fun h => absurd trivial h, fun h => absurd trivial h⟩

lemma within_scheduleWork (x : NodeWork) (lease : LeaseRecord)
    (slots : List LeaseRecord) : Proc.Within True (w.procs soloName)
      ((scheduleNodeWork soloName w x lease slots).2.procs soloName) := by
  unfold scheduleNodeWork
  dsimp only
  split
  · exact .refl _
  · exact within_setProc ⟨rfl, fun h => absurd trivial h, fun h => absurd trivial h⟩

/-- Steps are counted in the group, not in `active_`. -/
lemma within_branchStep (limit : Nat) :
    Proc.Within starts (w.procs soloName)
      ((branchStep soloName w group limit).2.procs soloName) := by
  unfold branchStep
  split
  · exact .refl _
  split
  · exact .refl _
  · exact within_updateParallel _ _ _

lemma within_branchArrive (index : Nat) (m : Message) :
    Proc.Within starts (w.procs soloName)
      ((branchArrive soloName w group index m).2.procs soloName) := by
  unfold branchArrive
  split
  · exact .refl _
  split
  · exact .refl _
  · exact within_updateParallel _ _ _

/-- **What a call does to the memory of the process.** -/
lemma perform_within {o : Oracle} {w w' : World} {q : Req} {a : q.Resp}
    (h : perform cfg soloName o w q = some (a, w')) :
    Proc.Within q.Starts (w.procs soloName) (w'.procs soloName) := by
  have herase : ∀ {β : Type} [Keyed β] (t : Table β) (k : String), t.rows = [] →
      (t.erase k).rows = [] := by
    intro β _ t k ht
    simp [Table.erase, ht]
  cases q with
  | halt => cases h
  | _ =>
  obtain rfl := congrArg Prod.snd (Option.some.inj h)
  first
    | exact .refl _
    | exact within_onDb _ _ _
    | exact within_updateActive _ _ _
    | exact within_updateParallel _ _ _
    | exact within_schedule _ _ _
    | exact within_scheduleWork _ _ _ _
    | exact within_branchStep _ _ _
    | exact within_branchArrive _ _ _ _
    | exact within_setProc ⟨rfl, fun _ h => h, fun _ h => h⟩
    | exact within_setProc ⟨rfl, fun _ h => herase _ _ h, fun _ h => h⟩
    | exact within_setProc ⟨rfl, fun _ h => h, fun _ h => herase _ _ h⟩
    | (dsimp only
       split
       · exact .refl _
       rename_i hget
       exact within_setProc ⟨rfl, fun _ h => h, fun _ h => absurd h (Table.rows_of_get hget)⟩)

/-- **Single calls** that start nothing. -/
lemma drained_ask {q : Req} (hq : q.Starts = False) :
    (watch cfg P).Keeps Drained (ask q : Op σ q.Resp) := by
  refine keeps_call fun w _ hw => ⟨trivial, ?_⟩
  rintro a w' ⟨o, -, hperform⟩
  exact (perform_within hperform).drained (of_eq_false hq) hw

/-! ## Operations -/

/-- A drained process that runs the program stays drained. -/
abbrev StaysDrained (cfg : Config) (P : Oracle → (q : Req) → q.Resp → Prop) (x : Op σ α) : Prop :=
  (watch cfg P).Keeps Drained x

section Calls

variable {β : Type} {q : Req} (hq : q.Starts = False)
include hq

lemma drained_then {f : q.Resp → Op σ β} (hf : ∀ a, StaysDrained cfg P (f a)) :
    StaysDrained cfg P (ask q >>= f) :=
  keeps_bind (drained_ask hq) hf

/-- A read, whose error is thrown. -/
lemma drained_read {e : q.Resp → Except Error α} {f : α → Op σ β}
    (hf : ∀ a, StaysDrained cfg P (f a)) :
    StaysDrained cfg P (ask q >>= fun a => orThrow (e a) >>= f) :=
  drained_then hq fun _ => keeps_bind (keeps_orThrow _) hf

end Calls

lemma drained_getRun : StaysDrained cfg P (getRun id : Op σ Run) :=
  drained_then rfl fun _ => keeps_orThrow _

lemma drained_peekRun : StaysDrained cfg P (peekRun id : Op σ Run) :=
  drained_then rfl fun _ => keeps_orThrow _

lemma drained_modify {f : σ → σ} : StaysDrained cfg P (modify f : Op σ PUnit) :=
  keeps_modify fun _ _ hw => hw

lemma drained_set (s : σ) : StaysDrained cfg P (set s : Op σ PUnit) := fun _ _ hw => hw

lemma drained_localVar {τ : Type} (t : τ) {x : Op τ α} (hx : StaysDrained cfg P x) :
    StaysDrained cfg P (Code.localVar t x : Op σ (α × τ)) := fun w _ hw =>
  (wp_localVar t x).mpr (hx w t hw)

/-- Code on a copy of the run. -/
lemma drained_onRun (r : Run) {x : Op Run α} (hx : StaysDrained cfg P x) :
    StaysDrained cfg P (onRun r x : Op σ Run) :=
  keeps_bind (drained_localVar r hx) fun _ => keeps_pure _

/-- A checkpoint: the flag is merged, then the copy is committed. -/
lemma drained_checkpoint (type : String) (records : List Record) :
    StaysDrained cfg P (checkpoint cfg type records) := by
  have hmerge : StaysDrained cfg P mergeCancellation := by
    refine keeps_get_bind fun _ _ _ => drained_then rfl fun answer => ?_
    cases answer with
    | ok flag => exact drained_set _
    | error e => exact keeps_if (keeps_pure _) (keeps_throw _)
  refine keeps_bind hmerge fun _ => keeps_get_bind fun _ r _ => keeps_bind ?_ fun result => ?_
  · exact keeps_if (drained_ask rfl) <| keeps_if (drained_ask rfl) <| drained_ask rfl
  refine keeps_get_bind fun _ r _ => ?_
  cases result with
  | ok version => exact drained_set _
  | error e => exact keeps_when (fun _ => drained_ask rfl) fun _ => keeps_throw _

lemma drained_transition (state : RunState) (type : String) (records : List Record) :
    StaysDrained cfg P (transition cfg state type records) :=
  keeps_get_bind fun _ _ _ => keeps_ite
    (fun _ => keeps_bind (drained_set _) fun _ => drained_checkpoint _ _) fun _ => keeps_throw _

/-- **A drained process starts no run,** not even the child of a run it executes: there is none. -/
lemma drained_run (q : RunRequest) : StaysDrained cfg P (run cfg q : Op σ String) := by
  intro w s hw
  have hparent : (if q.parentId = "" then none else (w.procs soloName).active.get q.parentId) =
      none := by
    split
    · rfl
    · exact hw.active_get _
  simp only [run, admitRun, wp_bind]
  refine World.wp_process ?_
  simp only [admitMode, hparent, if_neg hw.mode, Option.elim_none, or_true, if_true]
  exact hw

/-- **A drained process resumes no run.** -/
lemma drained_resume : StaysDrained cfg P (resume cfg id : Op σ Unit) := by
  intro w s hw
  simp only [resume, wp_bind]
  refine World.wp_process ?_
  rw [if_pos hw.mode]
  exact hw

/-- The parent of an ended child is queued at most: `resume` is refused. -/
lemma drained_finishParent (child : Run) :
    StaysDrained cfg P (finishParent cfg child : Op σ Unit) := by
  refine drained_then rfl fun _ => keeps_if (keeps_pure _) ?_
  refine keeps_bind (drained_getRun _) fun _ => drained_then rfl fun _ =>
    keeps_if ?_ (keeps_pure _)
  refine keeps_if ?_ <| drained_resume _
  exact drained_read rfl fun _ => keeps_pure _

/-- A rejection ends the run without executing it. -/
lemma drained_reject (id actor comment : String) :
    StaysDrained cfg P (decideApproval cfg id false actor comment : Op σ Unit) := by
  unfold decideApproval
  refine keeps_when (fun _ => keeps_throw _) fun _ => drained_read rfl fun a =>
    keeps_bind (drained_getRun _) fun r => ?_
  refine keeps_when (fun _ => keeps_throw _) fun _ => drained_then rfl fun p => ?_
  have hrest : StaysDrained cfg P (do
      let attempts ← orThrow (← ask (.listAttempts r.id))
      applyDecision cfg false (disown cfg r) (.approval { a with
            decision := if false then .approved else .rejected, actor := actor, comment := comment }
          :: settleAttempts a false attempts) : Op σ Unit) := by
    refine drained_read rfl fun attempts => ?_
    exact keeps_bind (drained_onRun _ (drained_transition _ _ _)) fun r => drained_finishParent r
  exact keeps_if (keeps_bind (keeps_throw _) fun _ => hrest) <|
    keeps_if (keeps_bind (keeps_throw _) fun _ => hrest) <| hrest

/-! ## Cancelling -/

lemma drained_releaseQuietly (lease : LeaseRecord) :
    StaysDrained cfg P (releaseQuietly lease : Op σ Unit) := by
  refine drained_then rfl fun answer => ?_
  cases answer <;> exact keeps_pure _

/-- The cancelled work, by induction on the rows. -/
lemma drained_cancelNodeWork (works : List NodeWork) :
    StaysDrained cfg P (cancelNodeWork works : Op σ Unit) := by
  induction works with
  | nil => exact keeps_pure _
  | cons work rest ih =>
    refine keeps_if ?_ <| keeps_if ?_ ih
    · exact drained_read rfl fun _ => ih
    · exact drained_then rfl fun _ => ih

lemma drained_cancelled (r : Run) : StaysDrained cfg P (do
    let _ ← onRun r (transition cfg .cancelled "run.cancelled") : Op σ Unit) :=
  keeps_bind (drained_onRun _ (drained_transition _ _ _)) fun _ => keeps_pure _

/-- A parked run is cancelled where no process executes it. -/
lemma drained_cancelParked (r : Run) : StaysDrained cfg P (cancelParked cfg r : Op σ Unit) := by
  refine drained_then rfl fun p => keeps_if ?_ <| keeps_if ?_ (keeps_pure _)
  · exact drained_then rfl fun _ => keeps_if (drained_cancelled r) (keeps_pure _)
  refine keeps_if ?_ ?_
  · exact drained_read rfl fun _ => keeps_pure _
  refine drained_read rfl fun lease => ?_
  cases lease with
  | none => exact keeps_pure _
  | some lease =>
    refine keeps_bind (keeps_tryCatch (drained_cancelled _) fun _ => ?_) fun _ =>
      drained_releaseQuietly _
    exact keeps_bind (drained_releaseQuietly _) fun _ => keeps_throw _

variable {cancelOne : String → Op σ Unit}

section

variable (hone : ∀ id, StaysDrained cfg P (cancelOne id))
include hone

/-- The children, by induction on the list. -/
lemma drained_cancelChildren (ids : List String) :
    StaysDrained cfg P (cancelChildren cancelOne ids) := by
  induction ids with
  | nil => exact keeps_pure _
  | cons id rest ih =>
    exact keeps_bind (drained_peekRun id) fun _ => keeps_if (ih) <| keeps_bind (hone _) fun _ => ih

lemma drained_cancelDistributed (r : Run) :
    StaysDrained cfg P (cancelDistributed cfg cancelOne r) :=
  drained_read rfl fun _ =>
    drained_read rfl fun works =>
      keeps_bind (drained_cancelNodeWork works) fun _ => drained_read rfl fun _ =>
        keeps_bind (drained_cancelChildren hone _) fun _ =>
          drained_cancelParked r

lemma drained_cancelLocal (r : Run) : StaysDrained cfg P (cancelLocal cfg cancelOne r) := by
  refine drained_read rfl fun approvals =>
    keeps_bind (drained_onRun _ (drained_checkpoint _ _)) fun r => drained_read rfl fun runs =>
        keeps_bind (drained_cancelChildren hone _) fun _ => drained_then rfl fun p => ?_
  refine keeps_if ?_ <| drained_cancelled r
  exact drained_then rfl fun _ => keeps_if (drained_cancelled r) (keeps_pure _)

end

/-- A run and its descendants, by induction on the depth. -/
lemma drained_cancelLocked (fuel : Nat) (id : String) :
    StaysDrained cfg P (cancelLocked cfg fuel id) := by
  induction fuel generalizing id with
  | zero => exact drained_then rfl nofun
  | succ fuel ih =>
    refine keeps_get_bind fun _ visited _ => keeps_when (fun _ => keeps_throw _) fun _ =>
      keeps_bind (drained_set _) fun _ => keeps_bind (drained_getRun id) fun r => ?_
    exact keeps_if (keeps_throw _) <| keeps_ite
      (fun _ => drained_cancelDistributed ih r) fun _ => drained_cancelLocal ih r

lemma drained_cancel (fuel : Nat) (id : String) :
    StaysDrained cfg P (cancel cfg fuel id : Op σ Unit) :=
  keeps_bind (drained_localVar _ (drained_cancelLocked fuel id)) fun _ => keeps_pure _

/-! ## Sections of executors -/

lemma drained_reconcile : StaysDrained cfg P reconcileDistributedParallel := by
  refine keeps_get_bind fun _ r _ => keeps_if (keeps_pure _) <| drained_read rfl fun all => ?_
  refine keeps_when (fun _ => keeps_throw _) fun _ => ?_
  have hrest : ∀ m steps, StaysDrained cfg P (do
      set { r with message := m, steps := steps }
      let r ← get
      Code.ofExcept (← ask (.external (.artifacts r.message)))
      set { r with
        frames := [], activeNode := r.pendingParallelJoin, preparedJoin := r.pendingParallelJoin
        pendingParallelGroup := "", pendingParallelJoin := "" } : Op Run Unit) := fun m steps =>
    keeps_bind (drained_set _) fun _ => keeps_get_bind fun _ r _ => drained_then rfl fun _ =>
      keeps_bind (keeps_ofExcept _) fun _ => drained_set _
  split
  · exact keeps_bind (keeps_throw _) fun _ => hrest _ _
  · exact hrest _ _

/-- An execution that begins moves the run only. -/
lemma drained_begin : StaysDrained cfg P (beginExecution cfg id) := by
  refine drained_read rfl fun current => ?_
  refine keeps_if (keeps_pure _) <| keeps_bind (drained_set _) fun _ =>
    keeps_if ?_ ?_
  · exact keeps_bind (drained_transition _ _ _) fun _ => keeps_pure _
  · exact keeps_bind (drained_transition _ _ _) fun _ => keeps_bind (drained_transition _ _ _)
      fun _ => keeps_bind drained_reconcile fun _ => keeps_pure _

lemma drained_park (n : NodeDefinition) (reason : String) :
    StaysDrained cfg P (parkForApproval cfg n reason) :=
  keeps_get_bind fun _ _ _ => drained_then rfl fun _ => keeps_bind (keeps_ofExcept _)
    fun _ => keeps_get_bind fun _ _ _ => drained_then rfl fun _ =>
      drained_then rfl fun _ => drained_transition _ _ _

/-- A failed execution records the failure and cancels its child. -/
lemma drained_fail (fuel : Nat) (attemptRecorded : Bool) (e : Exn) :
    StaysDrained cfg P (failExecution cfg fuel attemptRecorded e) := by
  have hrecord : StaysDrained cfg P (recordFailure cfg e) :=
    keeps_get_bind fun _ _ _ => drained_then rfl fun _ => drained_checkpoint _ _
  have hchild : StaysDrained cfg P (cancelOpenChild cfg fuel) :=
    keeps_get_bind fun _ _ _ => keeps_if (keeps_bind (drained_peekRun _) fun _ =>
      keeps_if (keeps_pure _) <| drained_cancel _ _) (keeps_pure _)
  have hend : StaysDrained cfg P (endRun cfg e) :=
    keeps_bind drained_modify fun _ => keeps_get_bind fun _ _ _ =>
      keeps_if (keeps_pure _) <| drained_transition _ _ _
  exact keeps_when (fun _ => hrecord) fun _ => keeps_bind hchild fun _ => hend

/-- The end of an execution, with its parent. -/
lemma drained_complete (failed : Bool) :
    StaysDrained cfg P (complete cfg id failed : Op σ Unit) := by
  have hclose : ∀ lost ended, StaysDrained cfg P
      (closeFailed cfg failed lost ended : Op σ Run) := fun _ _ =>
    keeps_if (drained_onRun _ (drained_transition _ _ _)) (keeps_pure _)
  have hcontinue : ∀ ended, StaysDrained cfg P
      (continueAfterChild cfg ended : Op σ Unit) := fun _ =>
    drained_then rfl fun _ => keeps_if (keeps_bind (drained_peekRun _) fun _ =>
      keeps_if (drained_resume _) (keeps_pure _)) (keeps_pure _)
  have hrelease : ∀ entry, StaysDrained cfg P (releaseEntry cfg entry : Op σ Unit) := by
    intro entry
    unfold releaseEntry
    split
    · exact keeps_if (drained_read rfl fun _ => keeps_pure _) (keeps_pure _)
    · exact keeps_pure _
  refine drained_then rfl fun p => drained_then rfl fun _ =>
    keeps_tryCatch (keeps_bind (drained_getRun id) fun ended => keeps_bind (hclose _ ended)
      fun ended => ?_) fun _ => keeps_pure _
  exact keeps_bind (drained_finishParent ended) fun _ => keeps_bind (hcontinue ended) fun _ =>
    hrelease _

/-- The recovery at start commits what it does to the interrupted runs. -/
lemma drained_recover : StaysDrained cfg P (recoverHistory cfg : Op σ Unit) := by
  have hcommit : ∀ records, StaysDrained cfg P (do
      let _ ← orThrow (← ask (.commit records)) : Op σ Unit) := fun _ =>
    drained_read rfl fun _ => keeps_pure _
  have hone : ∀ r, StaysDrained cfg P (recoverRun r : Op σ Unit) := fun r =>
    keeps_if (keeps_pure _) <| keeps_if (hcommit _) <|
      keeps_if (keeps_pure _) <| drained_read rfl fun _ => hcommit _
  have heach : ∀ runs, StaysDrained cfg P (recoverEach runs : Op σ Unit) := by
    intro runs
    induction runs with
    | nil => exact keeps_pure _
    | cons r rest ih => exact keeps_bind (hone r) fun _ => ih
  exact keeps_if (keeps_pure _) <| drained_read rfl fun _ => heach _

end Laso
