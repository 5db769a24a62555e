import Laso.Scheduler.Overlap
import Laso.Scheduler.References

/-!
# Updates of schedules

`Service::update_schedule` reads the stored schedule, puts the fields of the body into it
(`ScheduleBody.compose`) and hands the result to the scheduler, which replaces the stored schedule.
Only the last part is a section of the scheduler: between the read and the section anything may
happen to the schedule, and the update takes it back (`stale_update_reverts`). If the stored schedule
still has the fields that the body does not name, the update changes the fields that the body names
and nothing else (`update_keeps_other_fields`).
-/

namespace Laso

open Watch Option Machine

/-- The body of an update; each field may be missing. An interval is a text or a number. -/
structure ScheduleBody where
  name : Option String := none
  type : Option ScheduleType := none
  at_ : Option (Option Stamp) := none
  cron : Option String := none
  intervalMs : Option (String ⊕ Int) := none
  input : Option Json := none
  misfirePolicy : Option MisfirePolicy := none
  overlapPolicy : Option OverlapPolicy := none
  enabled : Option Bool := none
  pipeline : Option String := none
  pipelineId : Option String := none
  pipelineVersion : Option Nat := none
  version : Option Nat := none
  nextDueAt : Option (Option Stamp) := none

namespace ScheduleBody

variable (b : ScheduleBody) (s : ScheduleDefinition)

def NamesPipeline : Prop :=
  b.pipeline.isSome ∨ b.pipelineId.isSome ∨ b.pipelineVersion.isSome ∨ b.version.isSome

/-- The body says something about the times of the schedule. -/
def NamesTimes : Prop := b.at_.isSome ∨ b.cron.isSome ∨ b.intervalMs.isSome

instance : Decidable b.NamesPipeline := inferInstanceAs (Decidable (_ ∨ _))

instance : Decidable b.NamesTimes := inferInstanceAs (Decidable (_ ∨ _))

def fields : ScheduleDefinition :=
  { s with
    name := b.name.getD s.name
    type := b.type.getD s.type
    at_ := b.at_.getD s.at_
    cron := b.cron.getD s.cron
    intervalMs := (b.intervalMs.map (Sum.elim id toString)).getD s.intervalMs
    input := b.input.getD s.input
    misfirePolicy := b.misfirePolicy.getD s.misfirePolicy
    overlapPolicy := b.overlapPolicy.getD s.overlapPolicy
    enabled := b.enabled.getD s.enabled }

/-- The pipeline. A version in the reference counts before one of its own. -/
def withPipeline : Except Error ScheduleDefinition :=
  if b.NamesPipeline then do
    let raw := b.pipeline.getD (b.pipelineId.getD s.pipelineId)
    let parsed ← parsePipelineReference raw
    if parsed.explicitVersion then
      return { s with pipelineId := parsed.name, pipelineVersion := parsed.version }
    else
      return { s with
        pipelineId := raw
        pipelineVersion := b.pipelineVersion.getD (b.version.getD s.pipelineVersion) }
  else return s

def withTime (dump : Json → Nat) (now : WallTime) : Except Error ScheduleDefinition :=
  match b.nextDueAt with
  | some next => return { s with nextDueAt := next }
  | none =>
    if b.NamesTimes then
      if s.type = .oneTime then return { s with nextDueAt := s.at_ }
      else do
        let next ← nextScheduleDue dump s (WallTime.stamp now)
        return { s with nextDueAt := next }
    else return s

/-- What `Service::update_schedule` makes of the schedule it has read. -/
def compose (dump : Json → Nat) (store : PipelineStore) (now : WallTime) :
    Except Error ScheduleDefinition := do
  let s ← b.withPipeline (b.fields s)
  let s ← b.withTime s dump now
  let row ← pipelineRecord store (pipelineReference s.pipelineId s.pipelineVersion)
  return { s with pipelineId := row.name, pipelineVersion := row.version }

/-! ### What an update leaves alone -/

/-- The body says which version of the pipeline is meant. -/
def NamesVersion : Prop :=
  b.pipelineVersion.isSome ∨ b.version.isSome ∨
    '@' ∈ (b.pipeline.getD (b.pipelineId.getD "")).toList

instance : Decidable b.NamesVersion := inferInstanceAs (Decidable (_ ∨ _))

/-- The schedule with the fields blanked that the body names. The time at which it is due is also
named by the fields from which it is computed. A body with a version and no pipeline does not name
the pipeline: its identifier may lose a version only. -/
def unnamed : ScheduleDefinition :=
  { s with
    name := if b.name.isSome then "" else s.name
    type := if b.type.isSome then .oneTime else s.type
    at_ := if b.at_.isSome then none else s.at_
    cron := if b.cron.isSome then "" else s.cron
    intervalMs := if b.intervalMs.isSome then "" else s.intervalMs
    input := if b.input.isSome then .null else s.input
    misfirePolicy := if b.misfirePolicy.isSome then .skip else s.misfirePolicy
    overlapPolicy := if b.overlapPolicy.isSome then .skip else s.overlapPolicy
    enabled := if b.enabled.isSome then false else s.enabled
    pipelineId :=
      if b.pipeline.isSome ∨ b.pipelineId.isSome then ""
      else if b.NamesPipeline then pipelineName s.pipelineId
      else s.pipelineId
    pipelineVersion := if b.NamesVersion then 0 else s.pipelineVersion
    nextDueAt := if b.nextDueAt.isSome ∨ b.NamesTimes then none else s.nextDueAt }

variable {b s}

lemma unnamed_fields : b.unnamed (b.fields s) = b.unnamed s := by
  have hgetD : ∀ {α : Type} (x : Option α) (a d : α),
      (if x.isSome then d else x.getD a) = if x.isSome then d else a := by
    intro α x a d
    cases x with
    | none => rfl
    | some _ => rfl
  have hinterval : (if b.intervalMs.isSome then "" else
      (b.intervalMs.map (Sum.elim id toString)).getD s.intervalMs) =
      if b.intervalMs.isSome then "" else s.intervalMs := by
    cases b.intervalMs with
    | none => rfl
    | some _ => rfl
  simp only [unnamed, fields, hgetD, hinterval]

lemma unnamed_pipeline {id : String} {version : Nat} (hnames : b.NamesPipeline)
    (hid : b.pipeline = none → b.pipelineId = none → pipelineName id = pipelineName s.pipelineId)
    (hversion : ¬b.NamesVersion → version = s.pipelineVersion) :
    b.unnamed { s with pipelineId := id, pipelineVersion := version } = b.unnamed s := by
  have hid' : (if b.pipeline.isSome ∨ b.pipelineId.isSome then "" else pipelineName id) =
      if b.pipeline.isSome ∨ b.pipelineId.isSome then "" else pipelineName s.pipelineId := by
    split
    · rfl
    rename_i hnone
    rw [not_or, not_isSome_iff_eq_none, not_isSome_iff_eq_none] at hnone
    exact hid hnone.1 hnone.2
  have hversion' : (if b.NamesVersion then 0 else version) =
      if b.NamesVersion then 0 else s.pipelineVersion := by
    split
    · rfl
    · exact hversion ‹_›
  simp only [unnamed, if_pos hnames, hid', hversion']

variable {s' : ScheduleDefinition}

lemma unnamed_withPipeline (h : b.withPipeline s = .ok s') :
    b.unnamed s' = b.unnamed s := by
  unfold withPipeline at h
  split at h
  · rename_i hnames
    obtain ⟨parsed, hparsed, h⟩ := bind_eq_ok.mp h
    split at h
    · rename_i hexplicit
      obtain ⟨hname, hat⟩ := explicit_of_parse hparsed hexplicit
      cases h
      refine unnamed_pipeline hnames (fun hp hi => ?_) fun hnot => ?_
      · rw [hname, hp, hi, pipelineName_pipelineName]
        rfl
      -- without a version the body has a reference, and that has one
      simp only [NamesVersion, not_or, Bool.not_eq_true] at hnot
      simp only [NamesPipeline, hnot.1, hnot.2.1] at hnames
      cases hp : b.pipeline with
      | some text =>
        rw [hp] at hat hnot
        exact absurd hat hnot.2.2
      | none =>
      cases hi : b.pipelineId with
      | some text =>
        rw [hp, hi] at hat hnot
        exact absurd hat hnot.2.2
      | none => simp [hp, hi] at hnames
    cases h
    refine unnamed_pipeline hnames (fun hp hi => ?_) fun hnot => ?_
    · rw [hp, hi]
      rfl
    simp only [NamesVersion, not_or, not_isSome_iff_eq_none] at hnot
    rw [hnot.1, hnot.2.1]
    rfl
  · cases h
    rfl

variable {dump : Json → Nat} {now : WallTime}

lemma unnamed_withTime
    (h : b.withTime s dump now = .ok s') : b.unnamed s' = b.unnamed s := by
  have hdue : ∀ next, (b.nextDueAt.isSome ∨ b.NamesTimes) →
      b.unnamed { s with nextDueAt := next } = b.unnamed s := by
    intro next hnames
    simp only [unnamed, if_pos hnames]
  unfold withTime at h
  split at h
  · rename_i next hnext
    cases h
    exact hdue next (.inl (by rw [hnext]; rfl))
  split at h
  · rename_i hnames
    split at h
    · cases h
      exact hdue _ (.inr hnames)
    obtain ⟨next, -, h⟩ := bind_eq_ok.mp h
    cases h
    exact hdue next (.inr hnames)
  · cases h
    rfl

/-- **The body changes what it names.** -/
lemma unnamed_compose {store : PipelineStore} (h : b.compose s dump store now = .ok s') :
    b.unnamed s' = b.unnamed s := by
  obtain ⟨s₁, h₁, h⟩ := bind_eq_ok.mp h
  obtain ⟨s₂, h₂, h⟩ := bind_eq_ok.mp h
  obtain ⟨row, hrow, h⟩ := bind_eq_ok.mp h
  obtain ⟨hname, hversion⟩ := eq_of_pipelineRecord hrow
  cases h
  rw [hname, hversion]
  calc b.unnamed s₂ = b.unnamed s₁ := unnamed_withTime h₂
    _ = b.unnamed (b.fields s) := unnamed_withPipeline h₁
    _ = b.unnamed s := unnamed_fields

end ScheduleBody

/-! ## Updates and the scheduler -/

structure ScheduleUpdate where
  body : ScheduleBody
  read : ScheduleDefinition

/-- The scheduler and the updates that are on their way to it. -/
structure ScheduleService where
  scheduler : Scheduler := {}
  updates : List ScheduleUpdate := []

namespace ScheduleService

/-- Steps. An update begins with the read; it composes the new schedule and enters the section of
the scheduler when it gets the lock. The clock and the registered pipelines are those at the time it
looks. -/
inductive Action where
  | scheduler (l : Scheduler.Action)
  | read (id : String) (body : ScheduleBody)
  | write (i : Nat) (now : WallTime) (store : PipelineStore)

def schedules (s : ScheduleService) : Table ScheduleDefinition := s.scheduler.world.db.schedules

/-- The step function. Nothing else calls `LocalScheduler::update_schedule`. -/
def step (cfg : SchedConfig) : Machine ScheduleService Action
  | _, .scheduler (.enter (.updateSchedule _)) => none
  | s, .scheduler .crash =>
    (Scheduler.step cfg s.scheduler .crash).map fun scheduler => { scheduler }
  | s, .scheduler l => (Scheduler.step cfg s.scheduler l).map fun scheduler => { s with scheduler }
  | s, .read id body =>
    match s.schedules.get id with
    | some read => some { s with updates := s.updates ++ [{ body, read }] }
    | none => some s
  | s, .write i now store =>
    if s.scheduler.section_.isNone then
      s.updates[i]?.bind fun u =>
        match u.body.compose u.read cfg.dump store now with
        | .error _ => some { s with updates := s.updates.eraseIdx i }
        | .ok x => (Scheduler.step cfg s.scheduler (.enter (.updateSchedule x))).map
            fun scheduler => { scheduler, updates := s.updates.eraseIdx i }
    else none

def init : ScheduleService := {}

def WithoutEntry (_ : ScheduleService) : Action → Prop
  | .scheduler (.enter _) | .write _ _ _ => False
  | _ => True

instance (s : ScheduleService) : ∀ l, Decidable (s.WithoutEntry l)
  | .scheduler l => by rcases l with ⟨⟩ <;> dsimp only [WithoutEntry] <;> infer_instance
  | .write .. => isFalse id
  | .read .. => isTrue trivial

end ScheduleService

/-- From `before` to `after` the fields of the schedule may have changed that the body names, and
nothing else. -/
def ScheduleBody.Changes (b : ScheduleBody) (id : String) (before after : Table ScheduleDefinition) :
    Prop :=
  (∀ other, other ≠ id → after.get other = before.get other) ∧
    (after.get id).map b.unnamed = (before.get id).map b.unnamed

/-! ### The section of an update -/

section Section

variable {cfg : SchedConfig} {before : Table ScheduleDefinition} {x : ScheduleDefinition}

/-- The schedules are as before, or one that was stored is replaced. -/
def SchedWorld.Replaces (before : Table ScheduleDefinition) (x : ScheduleDefinition)
    (w : SchedWorld) : Prop :=
  w.db.schedules = before ∨ ((before.get x.id).isSome ∧ w.db.schedules = before.put x)

variable {w : SchedWorld}

lemma SchedWorld.Replaces.apart {w' : SchedWorld} (h : w.Replaces before x) (hR : w.Apart w') :
    w'.Replaces before x := by
  rw [SchedWorld.Replaces, hR.schedules]
  exact h

lemma stable_replaces : Stable cfg SchedWorld.Apart (SchedWorld.Replaces before x)
    (SchedWorld.Replaces before x) fun _ => True where
  safe_idle _ h := h
  rely_trans _ _ _ h h' := h.trans h'
  rely_refl := SchedWorld.Apart.refl
  rely_outside w o := o.apart cfg w
  rely_pending w pending := ⟨rfl, rfl, rfl, .refl _, [], rfl, by simp⟩
  rely_safe _ _ h hR := h.apart hR
  rely_idle _ _ h hR := h.apart hR
  crash _ h _ := h

lemma SchedWorld.Replaces.of_commit (h : w.db.schedules = before)
    (hx : (before.get x.id).isSome) (o : SchedOracle) (e : SourceEvent) :
    (w.perform cfg o (.commit [.schedule x, .event e])).2.Replaces before x := by
  cases hfault : o.fault with
  | some _ =>
    left
    simpa only [SchedWorld.perform, SchedWorld.transact_error hfault] using h
  | none =>
  simp only [SchedWorld.perform, SchedWorld.transact_ok hfault, SchedDb.commit]
  split
  · exact .inl h
  refine .inr ⟨hx, ?_⟩
  show w.db.schedules.put x = before.put x
  rw [h]

/-- **The section of an update replaces the schedule or does nothing.** -/
lemma replaces_updateSchedule (h : w.db.schedules = before) :
    (schedWatch cfg (fun _ _ _ => True) SchedWorld.Apart (SchedWorld.Replaces before x)).Sat
      (SchedOp.body (updateSchedule cfg x) ()) (fun _ w' => w'.Replaces before x) w := by
  refine sat_body (of_bind (wp_attempt (fun _ _ => ?_) fun _ _ => .inl h))
  refine of_bind (wp_query (.inl h) fun w₁ o hR _ => ?_)
  have h₁ : w₁.db.schedules = before := hR.schedules.trans h
  refine of_bind (wp_attempt (fun old hold => ?_) fun _ _ => .inl h₁)
  have hx : (before.get x.id).isSome := by
    have hget := SchedDb.find_eq_ok (SchedWorld.read_eq_ok hold)
    rw [← h₁, hget]
    rfl
  refine of_bind (of_bind (wp_query (.inl h₁) fun w₂ o₂ hR₂ _ => ?_))
  refine of_bind (of_bind (wp_query (.inl (hR₂.schedules.trans h₁)) fun w₃ o₃ hR₃ _ => ?_))
  have h₃ : ∀ e, (w₃.perform cfg o₃ (.commit [.schedule x, .event e])).2.Replaces before x :=
    SchedWorld.Replaces.of_commit (hR₃.schedules.trans (hR₂.schedules.trans h₁)) hx o₃
  refine wp_attempt (fun _ _ => wp_query (h₃ _) fun w₄ o₄ hR₄ _ => ?_) fun _ _ => h₃ _
  exact ((h₃ _).apart hR₄).apart (SchedWorld.apart_receive cfg _)

end Section

namespace ScheduleService

variable {cfg : SchedConfig} {s s' : ScheduleService}

lemma step_withoutEntry {l : Action} (hl : s.WithoutEntry l) (hs : step cfg s l = some s') :
    s'.scheduler = s.scheduler ∨ ∃ l', (∀ entry, l' ≠ .enter entry) ∧
      Scheduler.step cfg s.scheduler l' = some s'.scheduler := by
  cases l with
  | read id body =>
    left
    simp only [step] at hs
    split at hs <;> cases hs <;> rfl
  | write i now store => exact hl.elim
  | scheduler l =>
  right
  cases l with
  | enter entry => exact hl.elim
  | crash | call _ | outside _ =>
    simp only [step] at hs
    obtain ⟨scheduler, hstep, rfl⟩ := map_eq_some_iff.mp hs
    exact ⟨_, by simp, hstep⟩

/-- What holds from when an update has got the lock: the schedule it has composed replaces the stored
one, or nothing happens to the schedules. -/
def Updating (cfg : SchedConfig) (before : Table ScheduleDefinition) (x : ScheduleDefinition)
    (s : ScheduleService) : Prop :=
  Governed.Holds cfg (fun _ _ _ => True) SchedWorld.Apart (SchedWorld.Replaces before x)
    (SchedWorld.Replaces before x) s.scheduler

variable {before : Table ScheduleDefinition} {x : ScheduleDefinition}

lemma Updating.step {l : Action}
    (h : Updating cfg before x s) (hl : s.WithoutEntry l)
    (hs : ScheduleService.step cfg s l = some s') : Updating cfg before x s' := by
  rcases step_withoutEntry hl hs with hsame | ⟨l', hentry, hstep⟩
  · rw [Updating, hsame]
    exact h
  refine stable_replaces.step h ?_ hstep hentry
  cases l' with
  | call _ => exact fun _ _ _ => trivial
  | enter _ | crash | outside _ => trivial

lemma Updating.replaces
    (h : Updating cfg before x s) : s.scheduler.world.Replaces before x :=
  (stable_replaces : Stable cfg _ _ _ _).safe_of_holds h

lemma Updating.of_write {i : Nat} {now : WallTime} {store : PipelineStore} {u : ScheduleUpdate}
    (hu : s.updates[i]? = some u) (hs : ScheduleService.step cfg s (.write i now store) = some s') :
    ∃ x, u.body.unnamed x = u.body.unnamed u.read ∧ Updating cfg s.schedules x s' := by
  simp only [ScheduleService.step, hu, bind_some] at hs
  split at hs
  · rename_i hidle
    rw [isNone_iff_eq_none] at hidle
    split at hs
    · -- nothing can be composed, and the scheduler is not asked
      cases hs
      refine ⟨u.read, rfl, ?_⟩
      simp only [Updating, Governed.Holds, hidle]
      exact .inl rfl
    rename_i x hx
    obtain ⟨scheduler, hstep, rfl⟩ := map_eq_some_iff.mp hs
    refine ⟨x, ScheduleBody.unnamed_compose hx, ?_⟩
    simp only [Scheduler.step, hidle, isNone_none, if_true] at hstep
    cases hstep
    exact Governed.holds_rest (replaces_updateSchedule rfl)
  · cases hs

end ScheduleService

/-- **An update changes the fields that its body names.** When the update gets the lock, let the
stored schedule have the fields that the body does not name as the update has read them. From then
on, until another section begins, the schedules are as when it got the lock, up to the fields of its
schedule that the body names. -/
theorem update_keeps_other_fields (cfg : SchedConfig) {s s' t : ScheduleService} {i : Nat}
    {now : WallTime} {store : PipelineStore} {u : ScheduleUpdate} (hu : s.updates[i]? = some u)
    (hread : ∀ old, s.schedules.get u.read.id = some old →
      u.body.unnamed old = u.body.unnamed u.read)
    (hs : ScheduleService.step cfg s (.write i now store) = some s')
    (ht : Reach (ScheduleService.step cfg) ScheduleService.WithoutEntry s' t) :
    u.body.Changes u.read.id s.schedules t.schedules := by
  obtain ⟨x, hx, hstart⟩ := ScheduleService.Updating.of_write hu hs
  have hid : x.id = u.read.id := by
    show (u.body.unnamed x).id = (u.body.unnamed u.read).id
    rw [hx]
  have hend : ScheduleService.Updating cfg s.schedules x t :=
    ht.invariant hstart fun _ _ _ h hl hstep => h.step hl hstep
  rcases hend.replaces with hsame | ⟨hstored, hput⟩
  · have hsame' : t.schedules = s.schedules := hsame
    rw [hsame']
    exact ⟨fun _ _ => rfl, rfl⟩
  have hput' : t.schedules = s.schedules.put x := hput
  obtain ⟨old, hold⟩ := isSome_iff_exists.mp hstored
  rw [hid] at hold
  rw [hput']
  refine ⟨fun other hother => ?_, ?_⟩
  · rw [Table.get_put, if_neg (by rw [x.key_eq, hid]; exact hother.symm)]
  · rw [Table.get_put, if_pos (by rw [x.key_eq, hid]), hold, map_some, map_some, hx, hread old hold]

/-! ### Runs -/

/-- The pipeline of `sampleInterval`. -/
def samplePipelineRow : PipelineRow where
  name := "p"
  version := 1
  identifier := by decide
  first _ := rfl

def sampleStore : PipelineStore where
  get key := if h : samplePipelineRow.id = key then .ok ⟨samplePipelineRow, h⟩
    else .error ⟨.notFound, "Record not found"⟩
  rows := .ok [samplePipelineRow]

namespace ScheduleService

def rename : ScheduleBody := { name := some "renamed" }

def enters (entry : SchedEntry) (n : Nat) : List Action :=
  (Scheduler.enterCalls entry n).map .scheduler

def updateCalls : List Action := List.replicate 4 (.scheduler (.call {}))

def OfScheduler (_ : ScheduleService) : Action → Prop
  | .scheduler .crash | .read _ _ | .write _ _ _ => False
  | .scheduler _ => True

instance (s : ScheduleService) : ∀ l, Decidable (s.OfScheduler l)
  | .scheduler l => by rcases l with ⟨⟩ <;> dsimp only [OfScheduler] <;> infer_instance
  | .read .. | .write .. => isFalse id

variable {cfg : SchedConfig}

lemma updates_of_reach {s t : ScheduleService}
    (h : Reach (step cfg) OfScheduler s t) : t.updates = s.updates := by
  refine h.invariant (I := fun t => t.updates = s.updates) rfl fun a l b ha hl hstep => ?_
  rw [← ha]
  cases l with
  | read _ _ | write _ _ _ => exact hl.elim
  | scheduler l =>
  cases l with
  | crash => exact hl.elim
  | call _ | outside _ =>
    simp only [step] at hstep
    obtain ⟨_, -, rfl⟩ := map_eq_some_iff.mp hstep
    rfl
  | enter entry =>
  cases entry with
  | updateSchedule _ => cases hstep
  | _ =>
    obtain ⟨_, -, rfl⟩ := map_eq_some_iff.mp hstep
    rfl

lemma step_read {s s' : ScheduleService} {id : String} {body : ScheduleBody}
    {row : ScheduleDefinition} (hrow : s.schedules.get id = some row)
    (hs : step cfg s (.read id body) = some s') :
    s' = { s with updates := s.updates ++ [{ body, read := row }] } := by
  simp only [step, hrow] at hs
  cases hs
  rfl

end ScheduleService

theorem update_keeps_other_fields_renamed :
    ∃ s s' t u, Reach (ScheduleService.step {}) always ScheduleService.init s ∧
      s.updates[0]? = some u ∧
      (∀ old, s.schedules.get u.read.id = some old → u.body.unnamed old = u.body.unnamed u.read) ∧
      ScheduleService.step {} s (.write 0 0 sampleStore) = some s' ∧
      Reach (ScheduleService.step {}) ScheduleService.WithoutEntry s' t ∧
      (t.schedules.get "i").map (·.name) = some "renamed" ∧
      u.body.Changes u.read.id s.schedules t.schedules := by
  obtain ⟨s₀, hs₀, hv⟩ := exists_reach (M := ScheduleService.step {})
    (s := ScheduleService.init) (C := always)
    (f := fun s₀ => (s₀.updates.isEmpty, (s₀.schedules.get "i").map (·.id),
      (ScheduleService.step {} s₀ (.read "i" ScheduleService.rename)).bind fun s =>
        (ScheduleService.step {} s (.write 0 0 sampleStore)).bind fun s' =>
          (exec (ScheduleService.step {}) ScheduleService.WithoutEntry s'
            ScheduleService.updateCalls).bind fun t => (t.schedules.get "i").map (·.name)))
    (v := (true, some "i", some "renamed"))
    (ScheduleService.enters (.createSchedule sampleInterval) 4) (by decide +kernel)
  simp only [Prod.mk.injEq, map_eq_some_iff, bind_eq_some_iff] at hv
  obtain ⟨hempty, ⟨row, hrow, hid⟩, s, hs, s', hs', t, ht, hname⟩ := hv
  have hread := ScheduleService.step_read hrow hs
  subst hread
  have hu : (s₀.updates ++ [{ body := ScheduleService.rename, read := row }])[0]? =
      some { body := ScheduleService.rename, read := row } := by
    rw [List.isEmpty_iff.mp hempty]
    rfl
  have hstored : ∀ old, s₀.schedules.get row.id = some old →
      ScheduleService.rename.unnamed old = ScheduleService.rename.unnamed row := by
    intro old hold
    rw [hid, hrow] at hold
    rw [Option.some.inj hold]
  have ht' := reach_of_exec ht
  refine ⟨_, s', t, _, hs₀.step trivial hs, hu, hstored, hs', ht', ?_,
    update_keeps_other_fields {} hu hstored hs' ht'⟩
  rw [map_eq_some_iff]
  exact hname

/-- An update renames a schedule. After it has read the schedule a pass runs the first occurrence,
and the schedule is deleted. The update brings the schedule back, with the occurrence to come. -/
theorem stale_update_reverts :
    ∃ s s' t u old new, Reach (ScheduleService.step {}) always ScheduleService.init s ∧
      s.updates[0]? = some u ∧ u.body = ScheduleService.rename ∧
      ScheduleService.step {} s (.write 0 0 sampleStore) = some s' ∧
      Reach (ScheduleService.step {}) ScheduleService.WithoutEntry s' t ∧
      s.schedules.get "i" = some old ∧ t.schedules.get "i" = some new ∧
      (old.deleted = true ∧ new.deleted = false) ∧
      (old.lastDueAt = some 0 ∧ new.lastDueAt = none) ∧
      (old.nextDueAt = some 1000 ∧ new.nextDueAt = some 0) := by
  obtain ⟨s₀, hs₀, hv⟩ := exists_reach (M := ScheduleService.step {})
    (s := ScheduleService.init) (C := always)
    (f := fun s₀ => (s₀.updates.isEmpty && (s₀.schedules.get "i").isSome,
      (ScheduleService.step {} s₀ (.read "i" ScheduleService.rename)).bind fun s₁ =>
        (exec (ScheduleService.step {}) ScheduleService.OfScheduler s₁
          (ScheduleService.enters .processDue 9 ++
            ScheduleService.enters (.deleteSchedule "i") 4)).bind fun s =>
          (ScheduleService.step {} s (.write 0 0 sampleStore)).bind fun s' =>
            (exec (ScheduleService.step {}) ScheduleService.WithoutEntry s'
              ScheduleService.updateCalls).bind fun t =>
              (s.schedules.get "i").bind fun old => (t.schedules.get "i").map fun new =>
                ([old.deleted, new.deleted],
                  [old.lastDueAt, new.lastDueAt, old.nextDueAt, new.nextDueAt])))
    (v := (true, some ([true, false], [some 0, none, some 1000, some 0])))
    (ScheduleService.enters (.createSchedule sampleInterval) 4) (by decide +kernel)
  simp only [Prod.mk.injEq, Bool.and_eq_true, map_eq_some_iff, bind_eq_some_iff,
    List.cons.injEq] at hv
  obtain ⟨⟨hempty, hrow⟩, s₁, hs₁, s, hs, s', hs', t, ht, old, hold, new, hnew, ⟨hdel, hdel', -⟩,
    hlast, hlast', hnext, hnext', -⟩ := hv
  obtain ⟨row, hrow⟩ := isSome_iff_exists.mp hrow
  have hread := ScheduleService.step_read hrow hs₁
  have hs := reach_of_exec hs
  have hupdates := ScheduleService.updates_of_reach hs
  refine ⟨s, s', t, { body := ScheduleService.rename, read := row }, old, new,
    (hs₀.step trivial hs₁).trans (hs.mono fun _ _ _ => trivial), ?_, rfl, hs',
    reach_of_exec ht, hold, hnew, ⟨hdel, hdel'⟩, ⟨hlast, hlast'⟩,
    hnext, hnext'⟩
  rw [hupdates, hread, List.isEmpty_iff.mp hempty]
  rfl

end Laso
