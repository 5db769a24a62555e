import Laso.Scheduler.Process

/-!
# What the scheduler does to its store

The abstract model of a pass over the schedules. For each occurrence the scheduler goes through
**phases** (`Phase`): it looks the occurrence up, gets hold of it, decides to launch it, has
launched it, or is about to note that the launch has failed. A step from one phase to the next is a
`Move`; it says what is known at that point and what is written. Everything else that is written to
a schedule is an `Edit`: by a run that ends, or by the user.

Meanwhile the rest of the system stores runs, lets them go on and publishes events. All that the
scheduler can notice of it is `SchedWorld.Apart`: runs are appended that belong to no schedule, and
a run that is over stays so.

That the code makes no other moves is proved in `Laso.Scheduler.Passes`, once for all invariants.
-/

namespace Laso

open List

/-- Conditions on the calls of the scheduler. -/
abbrev SchedCond : Type := SchedWorld → SchedReq → SchedOracle → Prop

namespace SchedWorld

variable {w w₁ w₂ w₃ : SchedWorld}

variable (w : SchedWorld)

def write (records : List SchedRecord) : SchedWorld :=
  { w with db := records.foldl SchedDb.write w.db }

def putOccurrence (o : ScheduleOccurrence) : SchedWorld :=
  { w with db := { w.db with occurrences := w.db.occurrences.put o } }

def launched (id : String) (q : LaunchRequest) : SchedWorld :=
  { w with
    db := { w.db with runs := w.db.runs ++ [rowOf id q] }
    issued := w.issued + 1, launches := q :: w.launches }

def Stored (s : ScheduleDefinition) : Prop := w.db.schedules.get s.id = some s

end SchedWorld

structure RunRow.Onward (r r' : RunRow) : Prop where
  id : r'.id = r.id
  scheduleId : r'.scheduleId = r.scheduleId
  scheduleOccurrenceId : r'.scheduleOccurrenceId = r.scheduleOccurrenceId
  ended : terminal r.state → r'.state = r.state

namespace RunRow.Onward

variable {r r' r'' : RunRow}

lemma refl (r : RunRow) : r.Onward r := ⟨rfl, rfl, rfl, fun _ => rfl⟩

lemma trans (h : r.Onward r') (h' : r'.Onward r'') : r.Onward r'' where
  id := h'.id.trans h.id
  scheduleId := h'.scheduleId.trans h.scheduleId
  scheduleOccurrenceId := h'.scheduleOccurrenceId.trans h.scheduleOccurrenceId
  ended ht := by
    have hr := h.ended ht
    exact (h'.ended (hr ▸ ht)).trans hr

end RunRow.Onward

/-- Runs go on, and runs are appended that belong to no schedule. -/
structure RunsGrow (rows rows' : List RunRow) : Prop where
  kept : ∀ (i : Nat) (r : RunRow), rows[i]? = some r → ∃ r', rows'[i]? = some r' ∧ r.Onward r'
  added : ∀ (i : Nat) (r' : RunRow), rows'[i]? = some r' → rows[i]? = none →
    r'.scheduleId = "" ∧ r'.scheduleOccurrenceId = ""

lemma mem_take_iff {α : Type} {l : List α} {n : Nat} {a : α} :
    a ∈ l.take n ↔ ∃ i < n, l[i]? = some a := by
  simp [mem_iff_getElem?, getElem?_take]

namespace RunsGrow

variable {rows rows' rows'' : List RunRow}

lemma refl (rows : List RunRow) : RunsGrow rows rows where
  kept _ r h := ⟨r, h, .refl r⟩
  added _ _ h h' := nomatch h.symm.trans h'

section

variable (h : RunsGrow rows rows')
include h

lemma trans (h' : RunsGrow rows' rows'') : RunsGrow rows rows'' where
  kept i r hr := by
    obtain ⟨r', hr', hon⟩ := h.kept i r hr
    obtain ⟨r'', hr'', hon'⟩ := h'.kept i r' hr'
    exact ⟨r'', hr'', hon.trans hon'⟩
  added i r'' hr'' hnone := by
    cases hr' : rows'[i]? with
    | none => exact h'.added i r'' hr'' hr'
    | some r' =>
    obtain ⟨r₁, hr₁, hon⟩ := h'.kept i r' hr'
    cases hr''.symm.trans hr₁
    rw [hon.scheduleId, hon.scheduleOccurrenceId]
    exact h.added i r' hr' hnone

/-- A run among the first `n` stays there. -/
lemma of_mem_take {n : Nat} {r : RunRow} (hr : r ∈ rows.take n) :
    ∃ r' ∈ rows'.take n, r.Onward r' := by
  obtain ⟨i, hin, hi⟩ := mem_take_iff.mp hr
  obtain ⟨r', hr', hon⟩ := h.kept i r hi
  exact ⟨r', mem_take_iff.mpr ⟨i, hin, hr'⟩, hon⟩

/-- A run of a schedule among the first `n` was there before. -/
lemma of_mem_take_of_owned {n : Nat} {r' : RunRow} (hr : r' ∈ rows'.take n)
    (hs : r'.scheduleId ≠ "" ∨ r'.scheduleOccurrenceId ≠ "") : ∃ r ∈ rows.take n, r.Onward r' := by
  obtain ⟨i, hin, hi⟩ := mem_take_iff.mp hr
  cases hrow : rows[i]? with
  | none =>
    obtain ⟨hsched, hocc⟩ := h.added i r' hi hrow
    exact hs.elim (absurd hsched) (absurd hocc)
  | some r =>
  obtain ⟨r₁, hr₁, hon⟩ := h.kept i r hrow
  cases hi.symm.trans hr₁
  exact ⟨r, mem_take_iff.mpr ⟨i, hin, hrow⟩, hon⟩

lemma of_mem_of_owned {r' : RunRow} (hr : r' ∈ rows')
    (hs : r'.scheduleId ≠ "" ∨ r'.scheduleOccurrenceId ≠ "") : ∃ r ∈ rows, r.Onward r' := by
  have hr' : r' ∈ rows'.take rows'.length := by rwa [take_length]
  obtain ⟨r, hmem, hon⟩ := h.of_mem_take_of_owned hr' hs
  exact ⟨r, mem_of_mem_take hmem, hon⟩

end

end RunsGrow

/-- What the rest of the system may do without the schedules taking part. -/
structure SchedWorld.Apart (w w' : SchedWorld) : Prop where
  schedules : w'.db.schedules = w.db.schedules
  occurrences : w'.db.occurrences = w.db.occurrences
  clock : w'.clock = w.clock
  runs : RunsGrow w.db.runs w'.db.runs
  launches : ∃ new, w'.launches = new ++ w.launches ∧
    ∀ q ∈ new, q.scheduleOccurrenceId = "" ∧ q.dueAt = none

namespace SchedWorld.Apart

variable {w w₁ w₂ : SchedWorld}

lemma refl (w : SchedWorld) : w.Apart w := ⟨rfl, rfl, rfl, .refl _, [], rfl, by simp⟩

lemma trans (h : w.Apart w₁) (h' : w₁.Apart w₂) : w.Apart w₂ where
  schedules := h'.schedules.trans h.schedules
  occurrences := h'.occurrences.trans h.occurrences
  clock := h'.clock.trans h.clock
  runs := h.runs.trans h'.runs
  launches := by
    obtain ⟨new, hnew, hall⟩ := h.launches
    obtain ⟨new', hnew', hall'⟩ := h'.launches
    refine ⟨new' ++ new, by rw [hnew', hnew, List.append_assoc], fun q hq => ?_⟩
    exact (mem_append.mp hq).elim (hall' q) (hall q)

lemma stored {s : ScheduleDefinition} (h : w.Apart w₁) (hs : w.Stored s) : w₁.Stored s := by
  rw [SchedWorld.Stored, h.schedules]
  exact hs

end SchedWorld.Apart

/-! ## Moves -/

/-- How far the scheduler is with an occurrence. -/
inductive Phase where
  /-- It has been looked up. -/
  | seen
  /-- It is the scheduler's to decide about. -/
  | ready
  /-- It will be launched. -/
  | clear
  /-- Its run is stored. -/
  | opened (runId : String)
  /-- Its launch has failed, which has not been written down yet. -/
  | closing (e : Error)

/-- A pass that began at `now` looks at an occurrence of a schedule. -/
structure Handles (now : WallTime) (s : ScheduleDefinition) (due : Stamp) (w : SchedWorld) :
    Prop where
  stored : w.Stored s
  clock : w.clock = now
  named : s.id ≠ ""
  kept : s.deleted = false
  live : s.enabled ∨ s.queued
  effective : s.effectiveDue = some due
  due : s.queued ∨ isDue (some due) now

lemma Handles.apart {now : WallTime} {s : ScheduleDefinition} {due : Stamp} {w w' : SchedWorld}
    (h : Handles now s due w) (hR : w.Apart w') : Handles now s due w' :=
  { h with stored := hR.stored h.stored, clock := hR.clock.trans h.clock }

/-- A run of the schedule that the scan sees is not over. -/
def SchedWorld.SeesActive (w : SchedWorld) (scheduleId : String) : Prop :=
  ∃ r ∈ w.db.runs.take 10000, r.scheduleId = scheduleId ∧ terminal r.state = false

variable (s : ScheduleDefinition)

def closingRecord (due : Stamp) (e : Error) : ScheduleOccurrence :=
  recordValue (if e.code = .capacity then .pending else .failed) s due

def ScheduleDefinition.begun (now : WallTime) : ScheduleDefinition :=
  { s with queued := false, queuedDueAt := none, lastStartedAt := some (WallTime.stamp now) }

def ScheduleDefinition.withQueued (due : Stamp) : ScheduleDefinition :=
  { s with queued := true, queuedDueAt := some due }

def ScheduleDefinition.released : ScheduleDefinition :=
  { s with nextDueAt := s.queuedDueAt, queued := false, queuedDueAt := none }

variable (cfg : SchedConfig) (cond : SchedWorld → SchedReq → SchedOracle → Prop)

/-- Steps of a pass with one occurrence. No phase means that nothing is in progress. The calls that
are made, and their oracles, meet the condition. -/
inductive Move (now : WallTime) (s : ScheduleDefinition) (due : Stamp) :
    Option Phase → SchedWorld → Option Phase → SchedWorld → Prop where
  | look {w : SchedWorld} {o : SchedOracle} (h : Handles now s due w)
      (hc : cond w (.getOccurrence (occurrenceId s.id due)) o) : Move now s due none w (some .seen) w
  | claim {w : SchedWorld} (h : w.db.occurrences.get (occurrenceId s.id due) = none) :
      Move now s due (some .seen) w (some .ready) (w.putOccurrence (recordValue .claimed s due))
  | retry {w : SchedWorld} {x : ScheduleOccurrence}
      (h : w.db.occurrences.get (occurrenceId s.id due) = some x)
      (hx : x.status = .pending ∨ x.status = .queued) :
      Move now s due (some .seen) w (some .ready) w
  | lost {w : SchedWorld} {x : ScheduleOccurrence}
      (h : w.db.occurrences.get (occurrenceId s.id due) = some x) (hx : x.status = .claimed)
      (hruns : ∀ r ∈ w.db.runs.take 10000, r.scheduleOccurrenceId ≠ occurrenceId s.id due) :
      Move now s due (some .seen) w (some .ready) w
  | recover {w : SchedWorld} {x : ScheduleOccurrence} {r : RunRow}
      (h : w.db.occurrences.get (occurrenceId s.id due) = some x) (hx : x.status = .claimed)
      (hr : r ∈ w.db.runs.take 10000)
      (hid : r.scheduleOccurrenceId = occurrenceId s.id due) :
      Move now s due (some .seen) w none
        (w.putOccurrence { x with status := .started, runId := r.id })
  | abandon {w : SchedWorld} {ph : Phase} (h : ph = .seen ∨ ph = .ready) :
      Move now s due (some ph) w none w
  | misfire {w : SchedWorld} {s' : ScheduleDefinition} {e : SourceEvent}
      (hlate : isLate due now) (hp : s.misfirePolicy = .skip)
      (hs : s.missed cfg.dump now due = .ok s') :
      Move now s due (some .ready) w none
        (w.write [.schedule s', .occurrence (recordValue .skipped s' due), .event e])
  | skip {w : SchedWorld} {s' : ScheduleDefinition} {e : SourceEvent} (hq : s.queued = false)
      (hp : s.overlapPolicy = .skip) (hs : s.advance cfg.dump due = .ok s') :
      Move now s due (some .ready) w none
        (w.write [.schedule s', .occurrence (recordValue .skipped s' due), .event e])
  | enqueue {w : SchedWorld} {s' : ScheduleDefinition} {e : SourceEvent} (hq : s.queued = false)
      (hp : s.overlapPolicy = .queueOne) (hs : (s.withQueued due).advance cfg.dump due = .ok s') :
      Move now s due (some .ready) w none
        (w.write [.schedule s', .occurrence (recordValue .queued s' due), .event e])
  | decide {w : SchedWorld} {o : SchedOracle} (h : s.queued ∨ s.overlapPolicy = .allow ∨
        (cond w (.listRuns 10000) o ∧ ¬w.SeesActive s.id)) :
      Move now s due (some .ready) w (some .clear) w
  | launch {w : SchedWorld} {o : SchedOracle} (hc : cond w (.dispatch (s.request due)) o)
      (ho : o.refusal = none) :
      Move now s due (some .clear) w (some (.opened (cfg.uuids.draw w.issued)))
        (w.launched (cfg.uuids.draw w.issued) (s.request due))
  | refuse {w : SchedWorld} {o : SchedOracle} {e : Error}
      (hc : cond w (.dispatch (s.request due)) o) (he : o.refusal = some e) :
      Move now s due (some .clear) w (some (.closing e)) w
  | record {w : SchedWorld} {runId : String} {s' : ScheduleDefinition} {e : SourceEvent}
      (hs : (s.begun now).advance cfg.dump due = .ok s') :
      Move now s due (some (.opened runId)) w none
        (w.write [.schedule s', .occurrence (recordValue .started s' due runId), .event e])
  | strand {w : SchedWorld} {runId : String} {e : Error}
      (hs : (s.begun now).advance cfg.dump due = .error e) :
      Move now s due (some (.opened runId)) w (some (.closing e)) w
  | unrecorded {w : SchedWorld} {o : SchedOracle} {runId : String} {s' : ScheduleDefinition}
      {ev : SourceEvent} {e : Error} (hs : (s.begun now).advance cfg.dump due = .ok s')
      (hc : cond w (.commit
        [.schedule s', .occurrence (recordValue .started s' due runId), .event ev]) o)
      (he : o.fault = some e) : Move now s due (some (.opened runId)) w (some (.closing e)) w
  | close {w : SchedWorld} {e : Error} :
      Move now s due (some (.closing e)) w none (w.putOccurrence (closingRecord s due e))
  | unclosed {w : SchedWorld} {o : SchedOracle} {e e' : Error}
      (hc : cond w (.commit [.occurrence (closingRecord s due e)]) o) (he : o.fault = some e') :
      Move now s due (some (.closing e)) w none w

inductive Edit : SchedWorld → SchedWorld → Prop where
  | complete {w : SchedWorld} {s : ScheduleDefinition} {runId : String} (h : w.Stored s) :
      Edit w (w.write [.schedule { s with lastCompletedRunId := runId }])
  | release {w : SchedWorld} {s : ScheduleDefinition} {runId : String} (h : w.Stored s)
      (hq : s.queued) :
      Edit w (w.write [.schedule { s with lastCompletedRunId := runId }.released])
  | write {w : SchedWorld} {o : SchedOracle} {s : ScheduleDefinition} {e : SourceEvent}
      (hs : validateSchedule cfg.dump s = .ok ())
      (he : e.type = "schedule.created" ∨ e.type = "schedule.updated")
      (hc : cond w (.commit [.schedule s, .event e]) o) : Edit w (w.write [.schedule s, .event e])
  | enable {w : SchedWorld} {o : SchedOracle} {s : ScheduleDefinition} {e : SourceEvent}
      {enabled deleted : Bool} (h : w.Stored s)
      (hc : cond w (.commit [.schedule { s with enabled, deleted }, .event e]) o) :
      Edit w (w.write [.schedule { s with enabled, deleted }, .event e])
  | renew {w : SchedWorld} {o : SchedOracle} {s : ScheduleDefinition} {e : SourceEvent}
      (h : w.Stored s) (hnone : s.nextDueAt = none) (ht : s.type = .oneTime)
      (hc : cond w (.commit
        [.schedule { s with nextDueAt := s.at_, enabled := true }, .event e]) o) :
      Edit w (w.write [.schedule { s with nextDueAt := s.at_, enabled := true }, .event e])
  | begun {w w₀ : SchedWorld} {o o' : SchedOracle} {s : ScheduleDefinition} {next : Option Stamp}
      {e : SourceEvent} (h : w.Stored s) (hnone : s.nextDueAt = none) (hc : cond w₀ .now o)
      (hocc : w₀.db.occurrences = w.db.occurrences) (hsched : w₀.db.schedules = w.db.schedules)
      (hnext : nextScheduleDue cfg.dump s (WallTime.stamp o.time) = .ok next)
      (hcommit : cond w (.commit
        [.schedule { s with nextDueAt := next, enabled := true }, .event e]) o') :
      Edit w (w.write [.schedule { s with nextDueAt := next, enabled := true }, .event e])

end Laso
