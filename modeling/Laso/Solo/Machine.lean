import Laso.Core.Machine
import Laso.Runtime.Executor

/-!
# A single owner

One process that is the only one to use its store. Here the mutex of the runtime is worth
something: an operation, and each section of an executor, runs from its first call to its last
without any other code of the runtime in between, so it is **one step**. What remains concurrent
are the coroutines, which work on their private copies between their sections.

`Solo.step` is the machine. A step names the oracles of the calls it makes, one after the other.
Besides the world it keeps the list of calls the last step made, with the oracles and the answers,
for the sake of conditions on runs (`Solo.Answers`); no code reads it.

`Section.run_sat` is the proof rule: what holds after a section is proved with the rules of
`Watch`, for the observer `World.watch` that sees the whole world.
-/

namespace Laso

def soloName : String := "solo"

structure Answered where
  oracle : Oracle
  request : Req
  answer : request.Resp

structure Section where
  world : World
  oracles : List Oracle
  answers : List Answered := []

variable (cfg : Config)

def Section.answer (q : Req) (s : Section) : Option (q.Resp × Section) :=
  let o := s.oracles.headD {}
  (perform cfg soloName o s.world q).map fun x =>
    (x.1, { world := x.2, oracles := s.oracles.tail, answers := ⟨o, q, x.1⟩ :: s.answers })

/-- A coroutine; that of an executor names its run. -/
structure Coroutine where
  run : Option String
  prog : Prog callSig Unit

/-- A single owner without rules of policy that executes one pipeline. -/
def soloConfig (p : PipelineDefinition) : Config := { pipelineConfig p with coordination := false }

/-- The state of a process that is the only owner of its store; `up` says that it is running and has
recovered its runs. -/
structure Solo where
  world : World := {}
  coroutines : List Coroutine := []
  up : Bool := true
  answers : List Answered := []

/-- Operations of the API; schedules, triggers and session turns start runs as well. -/
inductive Entry where
  | run (q : RunRequest)
  | resume (id : String)
  | cancel (fuel : Nat) (id : String)
  | decide (id : String) (approve : Bool) (actor comment : String)

/-- A request from outside: `Service::run` names no parent. -/
def RunRequest.outside (q : RunRequest) : RunRequest :=
  { q with parentId := "", parentNodeId := "", parentMessageId := "", depth := 0 }

def Entry.prog : Entry → Prog reqSig Unit
  | .run q => ((Laso.run cfg q.outside).prog ()).bind fun _ => .ret ()
  | .resume id => ((Laso.resume cfg id).prog ()).bind fun _ => .ret ()
  | .cancel fuel id => ((Laso.cancel cfg fuel id).prog ()).bind fun _ => .ret ()
  | .decide id approve actor comment =>
    ((decideApproval cfg id approve actor comment).prog ()).bind fun _ => .ret ()

def Spawn.coroutine (fuel : Nat) : Spawn → Coroutine
  | .executor r => ⟨some r.id, Laso.executor cfg fuel r⟩
  | .branch job => ⟨none, ((executeBranch cfg fuel job).prog ()).bind fun _ => .ret ()⟩
  | .work w lease slots =>
    ⟨none, ((workExecutor cfg fuel w lease slots).prog ()).bind fun _ => .ret ()⟩

/-- Where a process dies: between sections, or inside one after some of its calls. -/
inductive Cut where
  | idle
  | entry (entry : Entry) (calls : Nat)
  | call (i calls : Nat)
  | recovery (calls : Nat)

inductive Solo.Action where
  /-- An operation, from its first call to its last. -/
  | operate (entry : Entry) (oracles : List Oracle) (fuel : Nat)
  /-- A coroutine makes its next call: a section, or a single call outside one. -/
  | call (i : Nat) (oracles : List Oracle) (fuel : Nat)
  /-- `request_drain`. -/
  | requestDrain
  /-- `resume_instance`. -/
  | resumeInstance
  /-- `enter_maintenance`. -/
  | enterMaintenance
  /-- `shutdown`. -/
  | shutdown
  /-- The process dies; its memory and its coroutines are lost. -/
  | crash (cut : Cut) (oracles : List Oracle)
  /-- The process is started and recovers its runs. -/
  | start (oracles : List Oracle)

namespace Solo

def proc (s : Solo) : Proc := s.world.procs soloName

def after (cfg : Config) (fuel : Nat) (x : Section) (coroutines : List Coroutine) : Solo where
  world := { x.world with spawned := [] }
  coroutines := coroutines ++ x.world.spawned.map (Spawn.coroutine cfg fuel)
  answers := x.answers

/-- The memory of the process is lost. The maintenance mode is kept in a file. -/
def lose (w : World) : World :=
  { w.setProc soloName { mode := (w.procs soloName).mode } with spawned := [] }

def proceed (coroutines : List Coroutine) (i : Nat) (run : Option String) :
    Prog callSig Unit → List Coroutine
  | .ret _ => coroutines.eraseIdx i
  | p => coroutines.set i ⟨run, p⟩

/-- `shutdown`: executors are told to stop. -/
def stopAll (p : Proc) : Proc :=
  { p with
    stopping := true
    active := p.active.rows.foldl (fun t a => t.put { a with stop := true }) p.active }

def nextCall (s : Solo) (i : Nat) : Option Call :=
  match s.coroutines[i]? with
  | some ⟨_, .call c _⟩ => some c
  | _ => none

/-- What is executed of a section before the process dies. -/
def cutProg (cfg : Config) (s : Solo) : Cut → Option (Prog reqSig Unit)
  | .idle => some (.ret ())
  | .entry entry n => if s.up then some ((entry.prog cfg).take n) else none
  | .call i n => (s.nextCall i).map fun c => (c.expand cfg).take n
  | .recovery n =>
    if s.up then none else some (((recoverHistory cfg : Op Unit Unit).prog ()).take n)

def step (cfg : Config) : Machine Solo Action
  | s, .operate entry os fuel =>
    if s.up then
      ((entry.prog cfg).run (Section.answer cfg) { world := s.world, oracles := os }).map fun x =>
        after cfg fuel x.2 s.coroutines
    else none
  | s, .call i os fuel =>
    match s.coroutines[i]? with
    | some ⟨run, .call c k⟩ =>
      ((c.expand cfg).run (Section.answer cfg) { world := s.world, oracles := os }).map fun x =>
        after cfg fuel x.2 (proceed s.coroutines i run (k x.1))
    | _ => none
  | s, .requestDrain =>
    some { s with
      world := s.world.setProc soloName { s.proc with
        mode := if s.proc.mode = .active then .draining else s.proc.mode }
      answers := [] }
  | s, .resumeInstance =>
    some { s with
      world := s.world.setProc soloName { s.proc with mode := .active }, answers := [] }
  | s, .enterMaintenance =>
    if s.proc.mode = .draining ∧ s.proc.active.rows = [] ∧ s.proc.activeNodes.rows = [] then
      some { s with
        world := s.world.setProc soloName { s.proc with mode := .maintenance }, answers := [] }
    else none
  | s, .shutdown =>
    some { s with world := s.world.setProc soloName (stopAll s.proc), answers := [] }
  | s, .crash cut os =>
    (s.cutProg cfg cut).bind fun p =>
      (p.run (Section.answer cfg) { world := s.world, oracles := os }).map fun x =>
        { world := lose x.2.world, up := false, answers := x.2.answers }
  | s, .start os =>
    if s.up then none
    else
      (((recoverHistory cfg : Op Unit Unit).prog ()).run (Section.answer cfg)
        { world := s.world, oracles := os }).map fun x => after cfg 0 x.2 []

def init : Solo := {}

/-- A coroutine makes its next `n` calls, one after the other. -/
def calls (i n : Nat) : List Action := List.replicate n (.call i [] 40)

end Solo

/-! ## Reasoning about sections -/

/-- The observer of sections: it sees the world, and the calls answered as `P` says. -/
def World.watch (P : Oracle → (q : Req) → q.Resp → Prop) : Watch reqSig World where
  Step w q a w' := ∃ o, P o q a ∧ perform cfg soloName o w q = some (a, w')
  Allow _ _ := True

variable {cfg : Config} {P : Oracle → (q : Req) → q.Resp → Prop}

lemma World.wp_process {σ : Type} {Q : Proc → World → σ → Prop} {E : Exn → World → σ → Prop}
    {w : World} {s : σ} (h : Q (w.procs soloName) w s) :
    (World.watch cfg P).wp (Op.ask .process) Q E w s := by
  refine ⟨trivial, ?_⟩
  rintro p w' ⟨o, -, hperform⟩
  cases hperform
  exact h

lemma Section.answers_of_run {α : Type} {p : Prog reqSig α} {s s' : Section} {a : α}
    (h : p.run (Section.answer cfg) s = some (a, s')) : s.answers <:+ s'.answers := by
  induction p generalizing s with
  | ret b =>
    cases h
    exact List.suffix_rfl
  | call q k ih =>
    obtain ⟨⟨r, t⟩, hq, hk⟩ := Option.bind_eq_some_iff.mp h
    obtain ⟨x, -, hx⟩ := Option.map_eq_some_iff.mp hq
    have ht : t.answers = ⟨s.oracles.headD {}, q, x.1⟩ :: s.answers :=
      congrArg (fun y => y.2.answers) hx.symm
    have hrest : t.answers <:+ s'.answers := ih r hk
    rw [ht] at hrest
    exact (List.suffix_cons _ _).trans hrest

/-- **A section as a whole.** A section that is correct for the observer of the world and whose
calls are answered as assumed ends in its postcondition. -/
lemma Section.run_sat {α : Type} {p : Prog reqSig α} {Q : α → World → Prop} {s s' : Section} {a : α}
    (hp : (World.watch cfg P).Sat p Q s.world) (h : p.run (Section.answer cfg) s = some (a, s'))
    (hP : ∀ x ∈ s'.answers, P x.oracle x.request x.answer) : Q a s'.world := by
  induction p generalizing s with
  | ret b =>
    cases h
    exact hp
  | call q k ih =>
    obtain ⟨⟨r, t⟩, hq, hk⟩ := Option.bind_eq_some_iff.mp h
    obtain ⟨⟨r', w'⟩, hperform, hx⟩ := Option.map_eq_some_iff.mp hq
    cases hx
    have hmem := (Section.answers_of_run hk).subset List.mem_cons_self
    exact ih _ (hp.2 _ _ ⟨_, hP _ hmem, hperform⟩) hk

end Laso
