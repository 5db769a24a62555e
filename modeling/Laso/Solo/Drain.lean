import Laso.Solo.Drained

/-!
# Draining

`operator_maintenance` reports that it is safe to stop the process when the process takes no new
work and executes none. `drain_final` says how long that stays so: until `resume_instance`, as long
as nobody approves a pending request. Every other way to start an executor asks for the maintenance
mode; `decide` does not.
-/

namespace Laso

open Watch Option Machine

/-- `safe_to_stop` of `operator_maintenance` for a single owner, from the maintenance mode and the
memory of the process, which are read one after the other. -/
def safeToStop (mode : MaintenanceMode) (p : Proc) : Bool :=
  let idle := p.active.rows.isEmpty && p.activeNodes.rows.isEmpty
  let drained := mode == .draining && idle
  idle && (drained || mode == .maintenance)

variable {cfg : Config} {P : Oracle → (q : Req) → q.Resp → Prop} {σ α : Type}

/-! ## The process -/

lemma drained_section {x : Op σ α} (hx : (World.watch cfg P).Keeps Drained x) {w : World} {s : σ}
    (hw : (w.procs soloName).Drained) :
    (World.watch cfg P).Sat (x.prog s) (fun _ w' => (w'.procs soloName).Drained) w := by
  refine Sat.mono (hx w s hw) ?_
  rintro ⟨_ | _, _⟩ w' hw' <;> exact hw'

lemma Call.drained {w : World} (c : Call) (hc : ∀ q, c = .direct q → ¬q.Starts)
    (hw : (w.procs soloName).Drained) :
    (World.watch cfg P).Sat (c.expand cfg) (fun _ w' => (w'.procs soloName).Drained) w := by
  cases c with
  | direct q =>
    refine ⟨trivial, ?_⟩
    rintro a w' ⟨o, -, hperform⟩
    exact (perform_within hperform).drained (hc q rfl) hw
  | begin r => exact drained_section (drained_begin r.id) hw
  | checkpoint r type records => exact drained_section (drained_checkpoint type records) hw
  | transition r state type records =>
    exact drained_section (drained_transition state type records) hw
  | park r n reason => exact drained_section (drained_park n reason) hw
  | fail r fuel recorded e => exact drained_section (drained_fail fuel recorded e) hw
  | run q => exact drained_section (drained_run q) hw
  | complete id failed => exact drained_section (drained_complete id failed) hw

lemma Coroutine.Lawful.not_starts {run : Option String} {q : Req} {k : q.Resp → Prog callSig Unit}
    (h : Lawful ⟨run, .call (.direct q) k⟩) : ¬q.Starts := by
  intro hq
  cases h with
  | executor life =>
    rcases life.1.2 with hroutine | ⟨n, rfl⟩ | ⟨n, rfl⟩
    · cases q <;> first | exact hq | exact hroutine
    · exact hq
    · exact hq
  | branch law =>
    have hallow := law.1
    cases q <;> first | exact hq | exact hallow

lemma Section.run_mode {p : Prog reqSig α} {s s' : Section} {a : α}
    (h : p.run (Section.answer cfg) s = some (a, s')) :
    (s'.world.procs soloName).mode = (s.world.procs soloName).mode := by
  induction p generalizing s with
  | ret b =>
    cases h
    rfl
  | call q k ih =>
    obtain ⟨⟨r, t⟩, hq, hk⟩ := bind_eq_some_iff.mp h
    obtain ⟨x, hperform, hx⟩ := map_eq_some_iff.mp hq
    cases hx
    exact (ih _ hk).trans (perform_within hperform).mode

namespace Solo

/-- The step is `resume_instance`. -/
def Action.resumes : Action → Bool
  | .resumeInstance => true
  | _ => false

def Action.approves : Action → Bool
  | .operate (.decide _ true _ _) _ _ => true
  | _ => false

variable {s s' a b : Solo} {l : Action} {C : Solo → Action → Prop}

lemma proc_setProc (s : Solo) (p : Proc) (answers : List Answered) :
    Solo.proc { s with world := s.world.setProc soloName p, answers := answers } = p := by
  simp [proc, World.setProc]

/-- Only `resume_instance` ends the maintenance. -/
lemma mode_step (h : step cfg s l = some s') (hl : l.resumes = false)
    (hmode : s.proc.mode ≠ .active) : s'.proc.mode ≠ .active := by
  cases l with
  | operate | call =>
    simp only [step] at h
    split at h
    · obtain ⟨x, hrun, rfl⟩ := map_eq_some_iff.mp h
      exact (Section.run_mode hrun).symm ▸ hmode
    · cases h
  | requestDrain =>
    cases h
    rw [if_neg hmode]
    exact hmode
  | resumeInstance => cases hl
  | enterMaintenance =>
    simp only [step] at h
    split at h
    · cases h
      rintro ⟨⟩
    · cases h
  | shutdown =>
    cases h
    rw [proc_setProc]
    exact hmode
  | crash cut os =>
    obtain ⟨p, -, hp⟩ := bind_eq_some_iff.mp h
    obtain ⟨x, hrun, rfl⟩ := map_eq_some_iff.mp hp
    exact (Section.run_mode hrun).symm ▸ hmode
  | start os =>
  simp only [step] at h
  split at h
  · cases h
  · obtain ⟨x, hrun, rfl⟩ := map_eq_some_iff.mp h
    exact (Section.run_mode hrun).symm ▸ hmode

/-- **A step that approves nothing leaves a drained process drained.** -/
lemma drained_step (hlawful : ∀ c ∈ s.coroutines, c.Lawful) (h : step cfg s l = some s')
    (hl : l.resumes = false) (happroves : l.approves = false) (hs : s.proc.Drained) :
    s'.proc.Drained := by
  have hmode := mode_step h hl hs.mode
  cases l with
  | operate entry os fuel =>
    simp only [step] at h
    split at h
    · obtain ⟨x, hrun, rfl⟩ := map_eq_some_iff.mp h
      have hentry : (World.watch cfg fun _ _ _ => True).Sat (entry.prog cfg)
          (fun _ w' => (w'.procs soloName).Drained) s.world := by
        cases entry with
        | run q => exact sat_bind.mpr (drained_section (drained_run q.outside) hs)
        | resume id => exact sat_bind.mpr (drained_section (drained_resume id) hs)
        | cancel fuel id => exact sat_bind.mpr (drained_section (drained_cancel fuel id) hs)
        | decide id approve actor comment =>
          cases approve with
          | true => cases happroves
          | false => exact sat_bind.mpr (drained_section (drained_reject id actor comment) hs)
      exact Section.run_sat hentry hrun fun _ _ => trivial
    · cases h
  | call i os fuel =>
    simp only [step] at h
    split at h
    · rename_i run c k hget
      obtain ⟨x, hrun, rfl⟩ := map_eq_some_iff.mp h
      have hc : ∀ q, c = .direct q → ¬q.Starts := by
        rintro q rfl
        exact (hlawful _ (List.mem_of_getElem? hget)).not_starts
      exact Section.run_sat (c.drained (P := fun _ _ _ => True) hc hs) hrun fun _ _ => trivial
    · cases h
  | requestDrain =>
    cases h
    exact ⟨hmode, hs.runs, hs.nodes⟩
  | resumeInstance => cases hl
  | enterMaintenance =>
    simp only [step] at h
    split at h
    · cases h
      exact ⟨hmode, hs.runs, hs.nodes⟩
    · cases h
  | shutdown =>
    cases h
    rw [proc_setProc] at hmode ⊢
    refine ⟨hmode, ?_, hs.nodes⟩
    simp only [stopAll, hs.runs, List.foldl_nil]
  | crash cut os =>
    obtain ⟨p, -, hp⟩ := bind_eq_some_iff.mp h
    obtain ⟨x, hrun, rfl⟩ := map_eq_some_iff.mp hp
    refine ⟨hmode, ?_, ?_⟩ <;> simp [proc, lose, World.setProc] <;> rfl
  | start os =>
  simp only [step] at h
  split at h
  · cases h
  obtain ⟨x, hrun, rfl⟩ := map_eq_some_iff.mp h
  exact Section.run_sat (drained_section (P := fun _ _ _ => True) drained_recover hs) hrun
    fun _ _ => trivial

end Solo

/-- What a report of `safe_to_stop` says. -/
lemma drained_of_safeToStop {mode : MaintenanceMode} {p : Proc} (h : safeToStop mode p) :
    mode ≠ .active ∧ p.active.rows = [] ∧ p.activeNodes.rows = [] := by
  simp only [safeToStop, Bool.and_eq_true, Bool.or_eq_true, List.isEmpty_iff, beq_iff_eq] at h
  obtain ⟨⟨hruns, hnodes⟩, hmode⟩ := h
  refine ⟨?_, hruns, hnodes⟩
  rintro rfl
  simp at hmode

/-- **Drained until resumed.** The report reads the maintenance mode in the state `a` and what the
process executes in the state `b`. If it finds it safe to stop, then as long as the instance is not
resumed and no pending request is approved the process owns no run and no node. -/
theorem drain_final {a b s : Solo} (ha : (Solo.step cfg).Reach always .init a)
    (hab : (Solo.step cfg).Reach (fun _ l => l.resumes = false) a b)
    (hsafe : safeToStop a.proc.mode b.proc = true)
    (hbs : (Solo.step cfg).Reach (fun _ l => l.resumes = false ∧ l.approves = false) b s) :
    s.proc.active.rows = [] ∧ s.proc.activeNodes.rows = [] := by
  obtain ⟨hmode, hruns, hnodes⟩ := drained_of_safeToStop hsafe
  have hmodeb : b.proc.mode ≠ .active := by
    refine hab.invariant (I := fun s => s.proc.mode ≠ .active) hmode ?_
    intro t l u hm hl hstep
    exact Solo.mode_step hstep hl hm
  have hreach : (Solo.step cfg).Reach always .init b := by
    refine ha.trans (hab.mono ?_)
    intro t l _
    trivial
  have hs : (Solo.step cfg).Reach always .init s ∧ s.proc.Drained := by
    refine hbs.invariant (I := fun s => (Solo.step cfg).Reach always .init s ∧ s.proc.Drained)
      ⟨hreach, hmodeb, hruns, hnodes⟩ ?_
    rintro t l u ⟨ht, hdrained⟩ ⟨hl, happroves⟩ hstep
    exact ⟨ht.step trivial hstep,
      Solo.drained_step (Solo.lawful_of_reach ht) hstep hl happroves hdrained⟩
  exact ⟨hs.2.runs, hs.2.nodes⟩

def gatedPipeline : PipelineDefinition := samplePipeline { id := "gate", type := "approval" }

/-- A run is started and waits for its approval; then the process is drained. -/
def drainedActions : List Solo.Action :=
  [.operate (.run { pipeline := gatedPipeline }) [] 40] ++ Solo.calls 0 21 ++ [.requestDrain]

/-- The drained process refuses a new run and does not resume the one that waits. -/
theorem drain_final_refuses : ∃ a s, (Solo.step (soloConfig gatedPipeline)).Reach always .init a ∧
      safeToStop a.proc.mode a.proc = true ∧
      (Solo.step (soloConfig gatedPipeline)).Reach
        (fun _ l => l.resumes = false ∧ l.approves = false) a s ∧
      s.world.db.runs.rows.length = 1 ∧ s.proc.active.rows = [] := by
  have hrun : ∃ a s, (Solo.step (soloConfig gatedPipeline)).Reach
        (fun _ l => l.resumes = false ∧ l.approves = false) .init a ∧
      (Solo.step (soloConfig gatedPipeline)).Reach
        (fun _ l => l.resumes = false ∧ l.approves = false) a s ∧
      safeToStop a.proc.mode a.proc ∧ s.world.db.runs.rows.length = 1 := by
    refine exists_reach_reach drainedActions
      [.operate (.run { pipeline := gatedPipeline }) [] 40, .operate (.resume "u") [] 40] ?_
    decide +kernel
  obtain ⟨a, s, ha, hs, hsafe, hruns⟩ := hrun
  have ha : (Solo.step (soloConfig gatedPipeline)).Reach always .init a := by
    refine ha.mono ?_
    intro t l _
    trivial
  exact ⟨a, s, ha, hsafe, hs, hruns, (drain_final ha .refl hsafe hs).1⟩

/-- The process is drained and it has been reported safe to stop it; then the approval is given and
the process executes the run. -/
theorem drain_ended_by_approval :
    ∃ a s, (Solo.step (soloConfig gatedPipeline)).Reach (fun _ l => l.resumes = false) .init a ∧
      (Solo.step (soloConfig gatedPipeline)).Reach (fun _ l => l.resumes = false) a s ∧
      safeToStop a.proc.mode a.proc = true ∧ s.proc.active.rows.map ActiveRun.id = ["u"] :=
  exists_reach_reach (s := Solo.init)
    drainedActions
    [.operate (.decide "uuuuuu" true "operator" "") [] 40] (by decide +kernel)

end Laso
