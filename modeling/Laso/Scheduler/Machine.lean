import Laso.Core.Machine
import Laso.Scheduler.Passes

/-!
# Runs of the scheduler

The scheduler as a machine in which **every call is one step**. The mutex of the scheduler admits
one section at a time; between two calls of it the process may die, events are published, and runs
are created and go on.

`Guarded` collects what has to be known of an invariant, and `Guarded.keeps` says that it then holds
along every run whose calls and crashes meet the condition; `Governed.reach` is the case of a run
from the start.
-/

namespace Laso

open SchedOp SchedWorld

inductive SchedEntry where
  | processDue
  | handleEvent
  | replayPendingDeliveries
  | replayEvents
  | createSchedule (s : ScheduleDefinition)
  | updateSchedule (s : ScheduleDefinition)
  | setScheduleEnabled (id : String) (enabled : Bool)
  | deleteSchedule (id : String)
  | createTrigger (t : TriggerDefinition)
  | updateTrigger (t : TriggerDefinition)
  | setTriggerEnabled (id : String) (enabled : Bool)
  | deleteTrigger (id : String)

/-- Code as a section, from an initial value of its variable. -/
def SchedOp.body {σ : Type} (x : SchedOp σ Unit) (v : σ) : Prog schedSig Unit :=
  (x.prog v).bind fun _ => .ret ()

variable (cfg : SchedConfig)

/-- The code of a section and the events that are waiting when it has begun: `handle_event` takes
the oldest one. -/
def SchedEntry.code (pending : List SourceEvent) :
    SchedEntry → Option (Prog schedSig Unit × List SourceEvent)
  | .processDue => some (body (Laso.processDue cfg) 0, pending)
  | .handleEvent =>
    match pending with
    | [] => none
    | e :: rest => some (body (Laso.handleEvent cfg e) (), rest)
  | .replayPendingDeliveries => some (body (Laso.replayPendingDeliveries cfg) (), pending)
  | .replayEvents => some (body (Laso.replayEvents cfg) (), pending)
  | .createSchedule s => some (body (Laso.createSchedule cfg s) (), pending)
  | .updateSchedule s => some (body (Laso.updateSchedule cfg s) (), pending)
  | .setScheduleEnabled id b => some (body (Laso.setScheduleEnabled cfg id b) (), pending)
  | .deleteSchedule id => some (body (Laso.deleteSchedule id) (), pending)
  | .createTrigger t => some (body (Laso.createTrigger cfg t) (), pending)
  | .updateTrigger t => some (body (Laso.updateTrigger cfg t) (), pending)
  | .setTriggerEnabled id b => some (body (Laso.setTriggerEnabled id b) (), pending)
  | .deleteTrigger id => some (body (Laso.deleteTrigger id) (), pending)

inductive Outside where
  /-- A run that belongs to no schedule and no trigger is created. -/
  | startRun
  /-- A run changes its state. -/
  | advanceRun (id : String) (state : RunState)
  /-- An event is stored. -/
  | storeEvent (e : SourceEvent)
  /-- An event is published. -/
  | publish (e : SourceEvent)

def RunRow.advance (id : String) (state : RunState) (r : RunRow) : RunRow :=
  if r.id = id ∧ terminal r.state = false then { r with state } else r

def Outside.perform (w : SchedWorld) : Outside → SchedWorld
  | .startRun => { w with
      db := { w.db with runs := w.db.runs ++ [{ id := cfg.uuids.draw w.issued }] }
      issued := w.issued + 1 }
  | .advanceRun id state =>
    { w with db := { w.db with runs := w.db.runs.map (RunRow.advance id state) } }
  | .storeEvent e => { w with db := { w.db with events := w.db.events.put e } }
  | .publish e => w.receive cfg e

/-- The process with the scheduler; a section in progress is what is left of its code. -/
structure Scheduler where
  world : SchedWorld := {}
  section_ : Option (Prog schedSig Unit) := none

namespace Scheduler

inductive Action where
  | enter (entry : SchedEntry)
  | call (o : SchedOracle)
  | crash
  | outside (x : Outside)

def rest : Prog schedSig Unit → Option (Prog schedSig Unit)
  | .ret _ => none
  | p => some p

def step (cfg : SchedConfig) : Machine Scheduler Action
  | s, .enter entry =>
    if s.section_.isNone then
      (entry.code cfg s.world.pending).map fun x =>
        { world := { s.world with pending := x.2 }, section_ := rest x.1 }
    else none
  | s, .call o =>
    match s.section_ with
    | some (.call q k) =>
      let x := s.world.perform cfg o q
      some { world := x.2, section_ := rest (k x.1) }
    | _ => none
  | s, .crash => some { world := { s.world with pending := [] } }
  | s, .outside x => some { s with world := x.perform cfg s.world }

def init : Scheduler := {}

/-- The condition that each call meets `cond`, and each crash `crashes`. -/
def Meets (cond : SchedWorld → SchedReq → SchedOracle → Prop) (crashes : SchedWorld → Prop)
    (s : Scheduler) : Action → Prop
  | .call o => ∀ q k, s.section_ = some (.call q k) → cond s.world q o
  | .crash => crashes s.world
  | _ => True

def Checked (check : SchedWorld → SchedReq → SchedOracle → Bool) (s : Scheduler) : Action → Prop
  | .call o => s.section_.all (fun p => match p with
      | .call q _ => check s.world q o
      | .ret _ => true)
  | .crash => False
  | _ => True

instance (check : SchedWorld → SchedReq → SchedOracle → Bool) (s : Scheduler) :
    ∀ l, Decidable (s.Checked check l) := by
  rintro ⟨⟩ <;> dsimp only [Checked] <;> infer_instance

lemma Checked.meets {check : SchedWorld → SchedReq → SchedOracle → Bool}
    {cond : SchedCond} {crashes : SchedWorld → Prop}
    (hcheck : ∀ w q o, check w q o → cond w q o) {s : Scheduler} {l : Action}
    (h : s.Checked check l) : s.Meets cond crashes l := by
  cases l with
  | call o =>
    intro q k hsection
    have h' : s.section_.all _ := h
    rw [hsection, Option.all_some] at h'
    exact hcheck s.world q o h'
  | crash => exact h.elim
  | enter _ => trivial
  | outside _ => trivial

def enterCalls (entry : SchedEntry) (n : Nat) (o : SchedOracle := {}) :
    List Action := .enter entry :: List.replicate n (.call o)

end Scheduler

/-! ## Invariants -/

section Governed

variable {cfg : SchedConfig} {cond : SchedCond}
  {R : SchedWorld → SchedWorld → Prop} {safe idle crashes : SchedWorld → Prop}

/-- An invariant that what the rest of the system does, `R`, and crashes keep: `safe` at every moment
and `idle` when no section is in progress. -/
structure Stable (cfg : SchedConfig) (R : SchedWorld → SchedWorld → Prop)
    (safe idle crashes : SchedWorld → Prop) : Prop where
  safe_idle : ∀ w, idle w → safe w
  rely_trans : ∀ w w₁ w₂, R w w₁ → R w₁ w₂ → R w w₂
  rely_refl : ∀ w, R w w
  rely_outside : ∀ w x, R w (Outside.perform cfg w x)
  rely_pending : ∀ w pending, R w { w with pending }
  rely_safe : ∀ w w', safe w → R w w' → safe w'
  rely_idle : ∀ w w', idle w → R w w' → idle w'
  crash : ∀ w, safe w → crashes w → idle w

/-- An invariant of the scheduler that all sections keep, from any state on. -/
structure Guarded (cfg : SchedConfig) (cond : SchedWorld → SchedReq → SchedOracle → Prop)
    (R : SchedWorld → SchedWorld → Prop) (safe idle crashes : SchedWorld → Prop) : Prop extends
    Stable cfg R safe idle crashes where
  code : ∀ entry pending p rest w, SchedEntry.code cfg pending entry = some (p, rest) → idle w →
    (schedWatch cfg cond R safe).Sat p (fun _ w' => idle w') w

/-- An invariant that holds when the scheduler is new. -/
structure Governed (cfg : SchedConfig) (cond : SchedWorld → SchedReq → SchedOracle → Prop)
    (R : SchedWorld → SchedWorld → Prop) (safe idle crashes : SchedWorld → Prop) : Prop extends
    Guarded cfg cond R safe idle crashes where
  start : idle {}

def Governed.Holds (cfg : SchedConfig) (cond : SchedWorld → SchedReq → SchedOracle → Prop)
    (R : SchedWorld → SchedWorld → Prop) (safe idle : SchedWorld → Prop) (s : Scheduler) : Prop :=
  match s.section_ with
  | none => idle s.world
  | some p => (schedWatch cfg cond R safe).Sat p (fun _ w => idle w) s.world

open Governed (Holds)

lemma Governed.holds_rest {p : Prog schedSig Unit} {w : SchedWorld}
    (h : (schedWatch cfg cond R safe).Sat p (fun _ w' => idle w') w) :
    Holds cfg cond R safe idle { world := w, section_ := Scheduler.rest p } := by
  cases p with
  | ret _ => exact h
  | call q k => exact h

namespace Stable

variable {s : Scheduler}

section

variable (G : Stable cfg R safe idle crashes) (h : Holds cfg cond R safe idle s)
include G h

lemma holds_rely {w : SchedWorld} (hR : R s.world w) :
    Holds cfg cond R safe idle { s with world := w } := by
  unfold Holds at h ⊢
  cases hp : s.section_ with
  | none =>
    rw [hp] at h
    exact G.rely_idle _ _ h hR
  | some p =>
    rw [hp] at h
    exact sat_rely G.rely_trans G.rely_safe (fun _ => G.rely_idle) h hR

lemma safe_of_holds : safe s.world := by
  unfold Holds at h
  cases hp : s.section_ with
  | none =>
    rw [hp] at h
    exact G.safe_idle _ h
  | some p =>
  rw [hp] at h
  cases p with
  | ret _ => exact G.safe_idle _ h
  | call q k => exact h.1

lemma step {s' : Scheduler} {l : Scheduler.Action}
    (hc : s.Meets cond crashes l)
    (hs : Scheduler.step cfg s l = some s') (hl : ∀ entry, l ≠ .enter entry) :
    Holds cfg cond R safe idle s' := by
  cases l with
  | enter entry => exact absurd rfl (hl entry)
  | call o =>
    simp only [Scheduler.step] at hs
    split at hs
    · rename_i q k hsection
      cases hs
      unfold Holds at h
      rw [hsection] at h
      exact Governed.holds_rest (h.2 _ _ ⟨s.world, o, G.rely_refl _, hc q k hsection, rfl⟩)
    · cases hs
  | crash =>
    cases hs
    have hidle := G.crash s.world (G.safe_of_holds h) hc
    exact G.rely_idle _ _ hidle (G.rely_pending s.world [])
  | outside x =>
    cases hs
    exact G.holds_rely h (G.rely_outside s.world x)

end

end Stable

namespace Guarded

lemma step (G : Guarded cfg cond R safe idle crashes) {s s' : Scheduler} {l : Scheduler.Action}
    (h : Holds cfg cond R safe idle s) (hc : s.Meets cond crashes l)
    (hs : Scheduler.step cfg s l = some s') : Holds cfg cond R safe idle s' := by
  cases l with
  | enter entry =>
    simp only [Scheduler.step] at hs
    split at hs
    · rename_i hnone
      obtain ⟨⟨p, rest⟩, hcode, rfl⟩ := Option.map_eq_some_iff.mp hs
      have hidle : idle s.world := by
        rw [Option.isNone_iff_eq_none] at hnone
        unfold Holds at h
        rwa [hnone] at h
      exact Governed.holds_rest (G.code entry _ p rest _ hcode
        (G.rely_idle _ _ hidle (G.rely_pending s.world rest)))
    · cases hs
  | call _ | crash | outside _ => exact G.toStable.step h hc hs (by simp)

/-- **Runs keep the invariant.** -/
lemma keeps (G : Guarded cfg cond R safe idle crashes) {s t : Scheduler}
    (h : Machine.Reach (Scheduler.step cfg) (Scheduler.Meets cond crashes) s t)
    (hs : Holds cfg cond R safe idle s) : Holds cfg cond R safe idle t :=
  h.invariant hs fun _ _ _ hI hc hs => G.step hI hc hs

end Guarded

lemma Governed.reach (G : Governed cfg cond R safe idle crashes) {t : Scheduler}
    (h : Machine.Reach (Scheduler.step cfg) (Scheduler.Meets cond crashes) Scheduler.init t) :
    Governed.Holds cfg cond R safe idle t :=
  G.toGuarded.keeps h G.start

end Governed

lemma Outside.apart (w : SchedWorld) (x : Outside) :
    w.Apart (x.perform cfg w) := by
  cases x with
  | startRun => exact ⟨rfl, rfl, rfl, runsGrow_append ⟨rfl, rfl⟩, [], rfl, by simp⟩
  | storeEvent e => exact ⟨rfl, rfl, rfl, .refl _, [], rfl, by simp⟩
  | publish e => exact apart_receive cfg e
  | advanceRun id state =>
  have hon : ∀ r : RunRow, r.Onward (r.advance id state) := fun r => by
    unfold RunRow.advance
    split
    · rename_i hr
      exact ⟨rfl, rfl, rfl, fun h => absurd h (by simp [hr.2])⟩
    · exact .refl r
  refine ⟨rfl, rfl, rfl, ⟨fun i r hr => ⟨r.advance id state, ?_, hon r⟩, fun i r hr hnone => ?_⟩, [],
    rfl, by simp⟩
  · show (w.db.runs.map (RunRow.advance id state))[i]? = _
    rw [List.getElem?_map, hr, Option.map_some]
  have hr' : (w.db.runs.map (RunRow.advance id state))[i]? = some r := hr
  rw [List.getElem?_map, hnone] at hr'
  cases hr'

lemma sat_body {W : Watch schedSig SchedWorld} {idle : SchedWorld → Prop} {σ : Type}
    {x : SchedOp σ Unit} {w : SchedWorld} {v : σ}
    (h : W.wp x (fun _ w' _ => idle w') (fun _ w' _ => idle w') w v) :
    W.Sat (body x v) (fun _ w' => idle w') w := by
  refine Watch.sat_bind.mpr (Watch.Sat.mono h ?_)
  rintro ⟨_ | _, _⟩ w' h'
  · exact h'
  · exact h'

variable {cond : SchedCond} {crashes : SchedWorld → Prop}

/-- **A discipline guards the scheduler.** -/
lemma Discipline.guarded {cfg : SchedConfig} (D : Discipline cfg cond)
    (hcrash : ∀ w, D.safe w → crashes w → D.idle w) :
    Guarded cfg cond Apart D.safe D.idle crashes where
  safe_idle := D.safe_idle
  rely_trans _ _ _ h h' := h.trans h'
  rely_refl := Apart.refl
  rely_outside w x := x.apart cfg w
  rely_pending w pending := ⟨rfl, rfl, rfl, .refl _, [], rfl, by simp⟩
  rely_safe := D.apart_safe
  rely_idle := D.apart_idle
  crash := hcrash
  code entry pending p rest w hcode h := by
    cases entry with
    | processDue =>
      cases hcode
      exact sat_body (D.processDue h)
    | handleEvent =>
      cases pending with
      | nil => cases hcode
      | cons e _ =>
        cases hcode
        exact sat_body (D.keeps_handleEvent e w () h)
    | replayPendingDeliveries =>
      cases hcode
      exact sat_body (D.keeps_aside (SchedReq.Aside.replayPendingDeliveries cfg) w () h)
    | replayEvents =>
      cases hcode
      exact sat_body (D.keeps_neutral (SchedReq.Neutral.replayEvents cfg) w () h)
    | createSchedule s =>
      cases hcode
      exact sat_body (D.keeps_createSchedule s w () h)
    | updateSchedule s =>
      cases hcode
      exact sat_body (D.keeps_updateSchedule s w () h)
    | setScheduleEnabled id b =>
      cases hcode
      exact sat_body (D.keeps_setScheduleEnabled id b w () h)
    | deleteSchedule id =>
      cases hcode
      exact sat_body (D.keeps_deleteSchedule id w () h)
    | createTrigger t =>
      cases hcode
      exact sat_body (D.keeps_neutral (SchedReq.Neutral.createTrigger cfg t) w () h)
    | updateTrigger t =>
      cases hcode
      exact sat_body (D.keeps_neutral (SchedReq.Neutral.updateTrigger cfg t) w () h)
    | setTriggerEnabled id b =>
      cases hcode
      exact sat_body (D.keeps_neutral (SchedReq.Neutral.setTriggerEnabled id b) w () h)
    | deleteTrigger id =>
      cases hcode
      exact sat_body (D.keeps_neutral (SchedReq.Neutral.deleteTrigger id) w () h)

lemma Discipline.governed {cfg : SchedConfig} (D : Discipline cfg cond) (hstart : D.idle {})
    (hcrash : ∀ w, D.safe w → crashes w → D.idle w) :
    Governed cfg cond Apart D.safe D.idle crashes :=
  { D.guarded hcrash with start := hstart }

end Laso
