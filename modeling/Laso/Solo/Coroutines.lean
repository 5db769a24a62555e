import Laso.Runtime.BranchLaw
import Laso.Runtime.MainLoop
import Laso.Solo.Machine

/-!
# The life of a coroutine

What can be said of the calls of a coroutine whatever their answers: an executor completes its run
as its last call and in no other way, and outside its sections it only looks things up, asks
components and starts branches. `lifeWatch` observes this, and `executor_life` proves it of every
executor.

`Solo.lawful_of_reach` is what follows for the machine: all coroutines of a single owner are
executors or branches that keep to their calls.
-/

namespace Laso

open Exec Watch Option

/-- Single calls of an executor. -/
def Req.OfExecutor (q : Req) : Prop :=
  q.Routine ∨ (∃ n, q = .external (.makeNode n)) ∨ ∃ n, q = .external (.deadline n)

/-- The calls of the executor of a run. -/
def Call.OfExecutor (id : String) : Call → Prop
  | .direct q => q.OfExecutor
  | .complete ended _ => ended = id
  | _ => True

def Call.isComplete : Call → Bool
  | .complete _ _ => true
  | _ => false

/-- The observer of the life of the executor of a run: whether it has ended. -/
def lifeWatch (id : String) : Watch callSig Bool where
  Step ended c _ ended' := ended' = (ended || c.isComplete)
  Allow ended c := ended = false ∧ c.OfExecutor id

variable {id : String} {cfg : Config}

def Living {σ : Type} (ended : Bool) (_ : σ) : Prop := ended = false

/-- A call that does not complete the run. -/
lemma living_call {σ : Type} {c : Call} (hc : c.OfExecutor id) (hcomplete : c.isComplete = false) :
    (lifeWatch id).Keeps Living (Code.call (S := callSig) c : Exec σ _) := by
  intro ended s hl
  refine ⟨⟨hl, hc⟩, fun answer ended' hs => ?_⟩
  rw [show ended' = (ended || c.isComplete) from hs, hcomplete, Bool.or_false]
  exact hl

lemma living_blind (id : String) : Blind (lifeWatch id) (fun _ => True) Living where
  same _ _ _ _ := trivial
  frame _ _ _ hl _ := hl
  attempt _ _ _ := trivial
  call c g v hl hc _ := by
    have hof : c.OfExecutor id ∧ c.isComplete = false := by
      cases c with
      | direct q => exact ⟨.inl hc, rfl⟩
      | complete => exact hc.elim
      | _ => exact ⟨trivial, rfl⟩
    exact living_call hof.1 hof.2 g v hl

lemma living_failAttempt (n : NodeDefinition) (last : Bool) (e : Exn) :
    (lifeWatch id).Keeps Living (failAttempt n last e) := by
  have h := living_blind id
  refine keeps_bind (keeps_modify fun _ _ hl => hl) fun _ => keeps_get_bind fun _ _ _ =>
    keeps_bind (h.checkpointRun _ fun _ _ => trivial) fun _ => keeps_if (keeps_throw _) ?_
  exact keeps_bind (h.routine.transitionRun _ _) fun _ => keeps_bind h.routine.check fun _ =>
    h.routine.transitionRun _ _

lemma living_main : MainLaw (lifeWatch id) (fun _ => True) Living fun _ => Living where
  toBlind := living_blind id
  thrown _ _ _ hl := hl
  make n := living_call (.inr (.inl ⟨n, rfl⟩)) rfl
  deadline n := living_call (.inr (.inr ⟨n, rfl⟩)) rfl
  run _ := living_call trivial rfl
  fails n last e := living_failAttempt n last e

variable (fuel : Nat) (p : PipelineDefinition) (resolved : List (String × String))

lemma living_execute : (lifeWatch id).Keeps Living (execute cfg fuel p resolved) := by
  refine keeps_tryCatch (keeps_get_bind fun _ _ _ => keeps_bind (living_call trivial rfl) fun _ =>
    keeps_bind ((living_blind id).routine.outcome _) fun _ => keeps_if ?_ (keeps_pure _))
    fun e => keeps_get_bind fun _ _ _ => keeps_bind (living_call trivial rfl) fun _ =>
      (living_blind id).routine.outcome _
  exact fun _ _ hl => living_main.mainLoop p resolved fuel hl

/-- **Executors end by completing their run,** and in no other way. -/
theorem executor_life (fuel : Nat) (r : Run) :
    (lifeWatch r.id).Sat (executor cfg fuel r) (fun _ ended => ended) false := by
  have hcomplete : ∀ (ended failed : Bool), ended = false →
      (lifeWatch r.id).Sat (Prog.call (.complete r.id failed) fun _ => .ret ())
        (fun _ ended => ended) ended := by
    intro ended failed hl
    refine ⟨⟨hl, rfl⟩, fun _ ended' hs => ?_⟩
    rw [show ended' = (ended || true) from hs, Bool.or_true]
    rfl
  unfold executor
  cases cfg.parse r.definition with
  | error e => exact hcomplete false true rfl
  | ok p =>
  refine sat_bind.mpr (Sat.mono (living_execute fuel p r.resolvedSubpipelines false { r } rfl) ?_)
  rintro ⟨res, v'⟩ ended hl
  cases res with
  | ok _ => exact hcomplete ended false hl
  | error e => exact hcomplete ended true hl

/-! ## The coroutines of a single owner -/

inductive Coroutine.Lawful : Coroutine → Prop where
  | executor {id : String} {p : Prog callSig Unit}
      (life : (lifeWatch id).Sat p (fun _ ended => ended) false) : Lawful ⟨some id, p⟩
  | branch {root : String} {duty : Option (String × Nat)} {u : Sight} {p : Prog callSig Unit}
      (law : (branchWatch root duty).Sat p (fun _ _ => True) u) : Lawful ⟨none, p⟩

/-- What is spawned keeps to its calls. -/
lemma Spawn.lawful (fuel : Nat) (s : Spawn) : (s.coroutine cfg fuel).Lawful := by
  cases s with
  | executor r => exact .executor (executor_life fuel r)
  | branch job =>
    have hlaw : (branchWatch job.token.message.runId none).Sat
        ((executeBranch cfg fuel job).prog ()) (fun _ _ => True) {} := branch_sat fuel job
    exact .branch (sat_bind.mpr hlaw)
  | work w lease slots =>
  have hlaw : (branchWatch w.token.message.runId (some (w.id, lease.fencingToken))).Sat
      ((workExecutor cfg fuel w lease slots).prog ()) (fun _ _ => True) {} :=
    distributed_sat fuel w lease slots
  exact .branch (sat_bind.mpr hlaw)

lemma Section.run_direct {q : Req} {s s' : Section} {a : q.Resp}
    (h : (Call.expand cfg (.direct q)).run (Section.answer cfg) s = some (a, s')) :
    ∃ o, perform cfg soloName o s.world q = some (a, s'.world) := by
  obtain ⟨⟨a', t⟩, hq, hk⟩ := bind_eq_some_iff.mp h
  obtain ⟨x, hperform, hx⟩ := map_eq_some_iff.mp hq
  cases hx
  cases hk
  exact ⟨_, hperform⟩

variable {run : Option String}

/-- **One call of a coroutine.** -/
lemma Coroutine.Lawful.proceed {c : Call} {k : c.Resp → Prog callSig Unit}
    {s s' : Section} {a : c.Resp} (h : Lawful ⟨run, .call c k⟩)
    (hrun : (c.expand cfg).run (Section.answer cfg) s = some (a, s')) :
    Lawful ⟨run, k a⟩ ∨ ∃ u, k a = .ret u := by
  cases h with
  | @executor id _ life =>
    have hnext := life.2 a _ rfl
    cases hc : c.isComplete with
    | false =>
      rw [hc] at hnext
      exact .inl (.executor hnext)
    | true =>
    -- nothing is permitted after the end
    rw [hc] at hnext
    cases hk : k a with
    | ret u => exact .inr ⟨u, rfl⟩
    | call c' k' =>
      rw [hk] at hnext
      exact absurd hnext.1.1 (by decide)
  | @branch root duty u _ law =>
  left
  cases c with
  | direct q =>
    obtain ⟨o, hperform⟩ := Section.run_direct hrun
    have hanswer : q.Plausible a :=
      perform_plausible (by decide) hperform
    exact .branch (law.2 a _ ⟨hanswer, rfl⟩)
  | _ => exact .branch (law.2 a _ rfl)

lemma Solo.mem_proceed {coroutines : List Coroutine} {i : Nat}
    {p : Prog callSig Unit} {x : Coroutine} (h : x ∈ Solo.proceed coroutines i run p) :
    x ∈ coroutines ∨ (x = ⟨run, p⟩ ∧ ∀ u, p ≠ .ret u) := by
  cases p with
  | ret u => exact .inl (List.mem_of_mem_eraseIdx h)
  | call c k =>
    rcases List.mem_or_eq_of_mem_set h with h | h
    · exact .inl h
    · exact .inr ⟨h, nofun⟩

/-- **All coroutines of a single owner keep to their calls.** -/
lemma Solo.lawful_of_reach {C : Solo → Solo.Action → Prop} {s : Solo}
    (h : (Solo.step cfg).Reach C .init s) : ∀ c ∈ s.coroutines, c.Lawful := by
  have hspawned : ∀ (fuel : Nat) (spawned : List Spawn),
      ∀ c ∈ spawned.map (Spawn.coroutine cfg fuel), c.Lawful := by
    intro fuel spawned c hc
    obtain ⟨x, -, rfl⟩ := List.mem_map.mp hc
    exact x.lawful fuel
  refine h.invariant (I := fun s => ∀ c ∈ s.coroutines, c.Lawful) nofun ?_
  intro s l s' hlawful _ hstep
  cases l with
  | operate entry os fuel =>
    simp only [Solo.step] at hstep
    split at hstep
    · obtain ⟨x, -, rfl⟩ := map_eq_some_iff.mp hstep
      intro c hc
      exact (List.mem_append.mp hc).elim (hlawful c) (hspawned _ _ c)
    · cases hstep
  | call i os fuel =>
    simp only [Solo.step] at hstep
    split at hstep
    · rename_i run q k hget
      obtain ⟨x, hrun, rfl⟩ := map_eq_some_iff.mp hstep
      intro c hc
      rcases List.mem_append.mp hc with hc | hc
      · rcases Solo.mem_proceed hc with hc | ⟨rfl, hret⟩
        · exact hlawful c hc
        · rcases (hlawful _ (List.mem_of_getElem? hget)).proceed hrun with h | ⟨u, hu⟩
          · exact h
          · exact absurd hu (hret u)
      · exact hspawned _ _ c hc
    · cases hstep
  | requestDrain | resumeInstance | shutdown =>
    cases hstep
    exact hlawful
  | enterMaintenance =>
    simp only [Solo.step] at hstep
    split at hstep
    · cases hstep
      exact hlawful
    · cases hstep
  | crash cut os =>
    obtain ⟨p, -, hp⟩ := bind_eq_some_iff.mp hstep
    obtain ⟨x, -, rfl⟩ := map_eq_some_iff.mp hp
    nofun
  | start os =>
  simp only [Solo.step] at hstep
  split at hstep
  · cases hstep
  · obtain ⟨x, -, rfl⟩ := map_eq_some_iff.mp hstep
    exact hspawned _ _

end Laso
