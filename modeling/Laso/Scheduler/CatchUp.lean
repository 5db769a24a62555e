import Laso.Scheduler.Overlap

/-!
# Catching up after an interruption

A schedule with the misfire policy `RUN_ONCE` is meant to make up for all the occurrences it has
missed with one run. A pass launches the occurrence that the due time names and moves the time to the
next one. If that one has been missed as well, it is launched by the next pass: as many runs are
launched as occurrences have been missed, one in each pass (`Standing.passes`).

`passes` repeats passes at a time that stands still, with a store and a service that answer every
call. Other schedules may be stored. Those in front of the schedule are assumed not to be due, since
they could use up the launches of a pass; those behind it do what they want (`Standing.abides`).
-/

namespace Laso

open List Watch Table SchedWorld SchedDb ScheduleDefinition

/-- Every call is answered, launches succeed and the clock stands still. -/
def Steadily (now : WallTime) (_ : SchedWorld) (_ : SchedReq) (o : SchedOracle) : Prop :=
  o = { time := now }

namespace SchedWorld

def pass (cfg : SchedConfig) (now : WallTime) (w : SchedWorld) : SchedWorld :=
  (((processDue cfg).prog 0).run (fun q w => some (w.perform cfg { time := now } q)) w).elim w (·.2)

def runsOf (w : SchedWorld) (sid : String) : Nat :=
  w.db.runs.countP fun r => decide (r.scheduleId = sid)

end SchedWorld

/-- The occurrence that comes `n` places after the one that is due at `due`. -/
def ScheduleDefinition.nthDue (dump : Json → Nat) (s : ScheduleDefinition) (due : Stamp) :
    Nat → Option Stamp
  | 0 => some due
  | n + 1 => (s.nthDue dump due n).bind fun t => (nextScheduleDue dump s t).toOption.join

/-- The first occurrence from `due` on that is not due at `now`. -/
def ScheduleDefinition.FirstAfter (dump : Json → Nat) (s : ScheduleDefinition) (due : Stamp)
    (now : WallTime) (t : Stamp) : Prop :=
  ∃ n, s.nthDue dump due n = some t ∧ isDue (some t) now = false ∧
    ∀ m < n, ∃ u, s.nthDue dump due m = some u ∧ isDue (some u) now

/-- Nothing is to be done about the schedule at this time. -/
def ScheduleDefinition.Dormant (s : ScheduleDefinition) (now : WallTime) : Prop :=
  s.deleted ∨ (s.enabled = false ∧ s.queued = false) ∨ s.effectiveDue = none ∨
    (s.queued = false ∧ isDue s.nextDueAt now = false)

/-- A schedule that makes up for missed occurrences with one run. -/
structure ScheduleDefinition.RunsOnce (s : ScheduleDefinition) : Prop where
  named : s.id ≠ ""
  enabled : s.enabled
  kept : s.deleted = false
  queued : s.queued = false
  recurring : s.recurring
  misfirePolicy : s.misfirePolicy = .runOnce
  overlapPolicy : s.overlapPolicy = .allow

/-- Where a schedule stands: in which place it is stored, from which time on nothing is known about
its occurrences, and how many runs it has. -/
structure SchedWorld.Standing (ahead : List ScheduleDefinition) (s : ScheduleDefinition) (due : Stamp)
    (n : Nat) (w : SchedWorld) : Prop where
  named : ∀ p, w.Stored p → p.id ≠ ""
  listed : ∃ rest, w.db.schedules.rows = ahead ++ s :: rest
  fresh : ∀ t, due ≤ t → w.db.occurrences.get (occurrenceId s.id t) = none
  runs : w.runsOf s.id = n

/-- A pass gets to a schedule that has others in front. -/
structure Reached (cfg : SchedConfig) (now : WallTime) (ahead : List ScheduleDefinition) : Prop where
  dormant : ∀ p ∈ ahead, p.Dormant now
  listed : ahead.length ≤ cfg.maxPendingLaunches
  launches : 0 < cfg.maxPendingLaunches
  limit : cfg.maxPendingLaunches < 10000

/-! ## Passes at a fixed time -/

/-- The observer of such a pass. -/
abbrev passWatch (cfg : SchedConfig) (now : WallTime) : Watch schedSig SchedWorld :=
  schedWatch cfg (Steadily now) Eq fun _ => True

section Rules

variable {σ : Type} {cfg : SchedConfig} {now : WallTime} {w : SchedWorld}

/-- What is proved about `process_due` holds after a pass. -/
lemma SchedWorld.pass_of_wp {Q : SchedWorld → Prop}
    (h : (passWatch cfg now).wp (processDue cfg) (fun _ w' _ => Q w') (fun _ w' _ => Q w') w 0) :
    Q (w.pass cfg now) := by
  have hstep : ∀ (q : SchedReq) (g : SchedWorld), (passWatch cfg now).Allow g q → ∃ r g',
      some (g.perform cfg { time := now } q) = some (r, g') ∧ (passWatch cfg now).Step g q r g' :=
    fun _ g _ => ⟨_, _, rfl, g, _, rfl, rfl, rfl⟩
  obtain ⟨⟨a, v⟩, w', hrun, hQ⟩ := Watch.Sat.exists_run hstep h
  have hpass : w.pass cfg now = w' := congrArg (fun r => r.elim w (·.2)) hrun
  rw [hpass]
  cases a with
  | ok _ => exact hQ
  | error _ => exact hQ

lemma wp_passWatch {α : Type} {safe : SchedWorld → Prop} {x : SchedOp σ α}
    {Q : α → SchedWorld → σ → Prop} {E : Error → SchedWorld → σ → Prop} {v : σ}
    (h : (schedWatch cfg (Steadily now) Apart safe).wp x Q E w v) :
    (passWatch cfg now).wp x Q E w v :=
  Watch.Sat.weaken h (fun _ _ _ => trivial) fun w _ _ _ ⟨w₁, o, hR, hc, hp⟩ =>
    ⟨w₁, o, hR ▸ Apart.refl w, hc, hp⟩

lemma wp_steadily {q : SchedReq} {Q : q.Resp → SchedWorld → σ → Prop}
    {E : Error → SchedWorld → σ → Prop} {v : σ}
    (h : Q (w.perform cfg { time := now } q).1 (w.perform cfg { time := now } q).2 v) :
    (passWatch cfg now).wp (query q) Q E w v := by
  refine wp_query trivial ?_
  rintro _ _ rfl rfl
  exact h

variable {E : Error → SchedWorld → Nat → Prop} {Q : Unit → SchedWorld → Nat → Prop}

lemma wp_dormant {s : ScheduleDefinition} (hs : s.Dormant now) {v : Nat} (h : Q () w v) :
    (passWatch cfg now).wp (processSchedule cfg now s) Q E w v := by
  refine of_ite ⟨fun _ => h, fun hlive => ?_⟩
  split
  · exact h
  rename_i due hdue
  refine of_ite ⟨fun _ => h, fun hnow => ?_⟩
  rcases hs with hd | hoff | hnone | ⟨hq, hpast⟩
  · exact absurd (.inl hd) hlive
  · exact absurd (.inr hoff) hlive
  · cases hnone.symm.trans hdue
  rw [effectiveDue, hq] at hdue
  have hdue' : s.nextDueAt = some due := hdue
  rw [hdue'] at hpast
  exact absurd ⟨hq, hpast⟩ hnow

lemma wp_ahead {ahead rest : List ScheduleDefinition} (h : ∀ p ∈ ahead, p.Dormant now) {v : Nat}
    (hv : v < cfg.maxPendingLaunches)
    (hrest : (passWatch cfg now).wp (processSchedules cfg now rest) Q E w v) :
    (passWatch cfg now).wp (processSchedules cfg now (ahead ++ rest)) Q E w v := by
  induction ahead with
  | nil => exact hrest
  | cons p ahead ih =>
    refine of_bind (of_ite ⟨fun hfull => absurd hfull (Nat.not_le.mpr hv), fun _ => ?_⟩)
    refine of_bind (wp_dormant (h p mem_cons_self) ?_)
    exact ih fun p' hp' => h p' (mem_cons_of_mem _ hp')

end Rules

/-! ## What the others do -/

section Others

variable {cfg : SchedConfig} {cond : SchedCond} {now : WallTime}
  {s s₂ : ScheduleDefinition} {due due₂ : Stamp} {ahead : List ScheduleDefinition} {n : Nat}
  {w w' : SchedWorld}

lemma RunsGrow.countP_eq {rows rows' : List RunRow} (h : RunsGrow rows rows') {sid : String}
    (hsid : sid ≠ "") : rows'.countP (fun r => decide (r.scheduleId = sid)) =
      rows.countP fun r => decide (r.scheduleId = sid) := by
  induction rows generalizing rows' with
  | nil =>
    refine countP_eq_zero.mpr fun r hr hthis => hsid ?_
    obtain ⟨i, hi⟩ := mem_iff_getElem?.mp hr
    rw [← of_decide_eq_true hthis]
    exact (h.added i r hi rfl).1
  | cons r rows ih =>
    obtain ⟨r', hr', hon⟩ := h.kept 0 r rfl
    cases rows' with
    | nil => cases hr'
    | cons r₁ rows' =>
      cases hr'
      have hrest : RunsGrow rows rows' := ⟨fun i => h.kept (i + 1), fun i => h.added (i + 1)⟩
      rw [countP_cons, countP_cons, ih hrest, hon.scheduleId]

namespace SchedWorld.Standing

lemma apart (h : w.Standing ahead s due n) (hs : s.id ≠ "") (hR : w.Apart w') :
    w'.Standing ahead s due n where
  named p hp := h.named p (by rw [Stored, ← hR.schedules]; exact hp)
  listed := by
    rw [hR.schedules]
    exact h.listed
  fresh := by
    rw [hR.occurrences]
    exact h.fresh
  runs := (hR.runs.countP_eq hs).trans h.runs

variable {x : ScheduleOccurrence}

/-- Another schedule that is stored behind it, and an occurrence of that one, are written. -/
lemma write (h : w.Standing ahead s due n) (hne : s₂.id ∉ (ahead ++ [s]).map (·.id))
    {s' : ScheduleDefinition} (hs₂ : s₂.id ≠ "") (hid : s'.id = s₂.id)
    (hx : x.id = occurrenceId s₂.id due₂) (hs : w'.db.schedules = w.db.schedules.put s')
    (ho : w'.db.occurrences = w.db.occurrences.put x) (hr : w'.db.runs = w.db.runs) :
    w'.Standing ahead s due n where
  named := named_put h.named hs (hid ▸ hs₂)
  listed := by
    obtain ⟨rest, hrest⟩ := h.listed
    refine ⟨Table.putRows s' rest, ?_⟩
    have hrows : w.db.schedules.rows = (ahead ++ [s]) ++ rest := by simp [hrest]
    have hkey : s'.id ∉ (ahead ++ [s]).map (·.id) := by
      rw [hid]
      exact hne
    rw [hs, rows_put_append hrows hkey, List.append_assoc]
    rfl
  fresh t ht := by
    have hother : x.id ≠ occurrenceId s.id t := fun heq => hne <| by
      rw [(occurrenceId_inj (hx.symm.trans heq)).1]
      simp
    rw [ho, get_put_ne hother]
    exact h.fresh t ht
  runs := by
    unfold SchedWorld.runsOf
    rw [hr]
    exact h.runs

lemma put (h : w.Standing ahead s due n) (hx : ∀ t, due ≤ t → x.id ≠ occurrenceId s.id t) :
    (w.putOccurrence x).Standing ahead s due n :=
  { h with fresh := fun t ht => (get_put_ne (hx t ht)).trans (h.fresh t ht) }

lemma putOccurrence (h : w.Standing ahead s due n) (hne : s₂.id ≠ s.id)
    (hx : x.id = occurrenceId s₂.id due₂) : (w.putOccurrence x).Standing ahead s due n :=
  h.put fun _ _ heq => hne (occurrenceId_inj (hx.symm.trans heq)).1

/-- **The schedules behind do not matter.** -/
lemma abides (hs : s.id ≠ "") (hs₂ : s₂.id ≠ "") (hne : s₂.id ∉ (ahead ++ [s]).map (·.id)) :
    Abides cfg cond (fun _ => True) now s₂ due₂ fun _ w => w.Standing ahead s due n where
  safe _ _ _ := trivial
  apart _ _ _ h hR := h.apart hs hR
  move ph w ph' w' h hm := by
    have hne' : s₂.id ≠ s.id := fun heq => hne (by simp [heq])
    cases hm with
    | misfire _ _ hs' =>
      have hid := (MovesOn.of_missed hs').id
      exact h.write hne hs₂ hid (congrArg (occurrenceId · due₂) hid) rfl rfl rfl
    | skip _ _ hs' =>
      have hid := (MovesOn.of_advance hs').id
      exact h.write hne hs₂ hid (congrArg (occurrenceId · due₂) hid) rfl rfl rfl
    | enqueue _ _ hs' =>
      have hid := (MovesOn.of_advance hs').id
      exact h.write hne hs₂ hid (congrArg (occurrenceId · due₂) hid) rfl rfl rfl
    | record hs' =>
      have hid := (MovesOn.of_advance hs').id
      exact h.write hne hs₂ hid (congrArg (occurrenceId · due₂) hid) rfl rfl rfl
    | claim _ => exact h.putOccurrence hne' rfl
    | recover hx _ _ _ => exact h.putOccurrence hne' (key_of_get hx)
    | close => exact h.putOccurrence hne' rfl
    | launch _ _ =>
      refine ⟨h.named, h.listed, h.fresh, ?_⟩
      have hrow : decide ((rowOf (cfg.uuids.draw w.issued)
          (s₂.request due₂)).scheduleId = s.id) = false := decide_eq_false hne'
      show (w.db.runs ++ [_]).countP _ = n
      rw [countP_append, countP_singleton, hrow]
      exact h.runs
    | look | retry | lost | abandon | decide | refuse | strand | unrecorded | unclosed =>
      exact ⟨h.named, h.listed, h.fresh, h.runs⟩

end SchedWorld.Standing

end Others

/-! ## What a pass does with the schedule -/

/-- The schedule after its occurrence has been launched. -/
def ScheduleDefinition.after (s : ScheduleDefinition) (now : WallTime) (due t : Stamp) :
    ScheduleDefinition :=
  { s.begun now with lastDueAt := some due, nextDueAt := some t }

/-- If there is a next occurrence, the schedule stands at it. -/
def SchedWorld.Advanced (cfg : SchedConfig) (now : WallTime) (ahead : List ScheduleDefinition)
    (s : ScheduleDefinition) (due : Stamp) (n : Nat) (w : SchedWorld) : Prop :=
  ∀ t, nextScheduleDue cfg.dump s due = .ok (some t) → w.Standing ahead (s.after now due t) t n

section Own

variable {σ : Type} {cfg : SchedConfig} {now : WallTime} {s : ScheduleDefinition} {due t : Stamp}
  {ahead : List ScheduleDefinition} {n : Nat} {w : SchedWorld} {v : σ}

namespace SchedWorld.Standing

lemma later (h : w.Standing ahead s due n) (ht : due ≤ t) : w.Standing ahead s t n :=
  ⟨h.named, h.listed, fun u hu => h.fresh u (le_trans ht hu), h.runs⟩

variable {x : ScheduleOccurrence}

lemma claimed (h : w.Standing ahead s (due + 1) n)
    (hx : x.id = occurrenceId s.id due) : (w.putOccurrence x).Standing ahead s (due + 1) n := by
  refine h.put fun u hu heq => ?_
  have hdue := (occurrenceId_inj (hx.symm.trans heq)).2
  exact absurd (hdue ▸ hu) (Nat.not_succ_le_self due)

lemma launched (h : w.Standing ahead s t n) (id : String) :
    (w.launched id (s.request due)).Standing ahead s t (n + 1) := by
  refine { h with runs := ?_ }
  have hrow : decide ((rowOf id (s.request due)).scheduleId = s.id) := decide_eq_true rfl
  show (w.db.runs ++ [_]).countP _ = n + 1
  rw [countP_append, countP_singleton, hrow, if_pos rfl]
  exact congrArg (· + 1) h.runs

lemma recorded (h : w.Standing ahead s (due + 1) n) (hs : s.id ≠ "") {s' : ScheduleDefinition}
    (hid : s'.id = s.id)
    (hx : x.id = occurrenceId s.id due) (e : SourceEvent) :
    (w.write [.schedule s', .occurrence x, .event e]).Standing ahead s' (due + 1) n where
  named := named_put h.named rfl (hid ▸ hs)
  listed := by
    obtain ⟨rest, hrest⟩ := h.listed
    have hkey : s'.id ∉ ahead.map (·.id) := fun hmem => by
      have hnodup : ((ahead ++ s :: rest).map (·.id)).Nodup := by
        rw [← hrest]
        exact w.db.schedules.nodup
      rw [map_append, map_cons, nodup_middle, nodup_cons] at hnodup
      exact hnodup.1 (mem_append_left _ (hid ▸ hmem))
    have hsame : Keyed.key s = Keyed.key s' := hid.symm
    refine ⟨rest, (rows_put_append hrest hkey).trans ?_⟩
    rw [Table.putRows, if_pos hsame]
  fresh u hu := by
    rw [hid]
    exact (h.claimed hx).fresh u hu
  runs := by
    rw [hid]
    exact h.runs

end SchedWorld.Standing

lemma wp_findFresh {id : String} (hnone : w.db.occurrences.get id = none)
    {Q : Bool → SchedWorld → Option ScheduleOccurrence → Prop}
    {E : Error → SchedWorld → Option ScheduleOccurrence → Prop} (h : Q true w none) :
    (passWatch cfg now).wp (findOccurrence id) Q E w none := by
  refine (wp_tryCatch _ _).mpr (of_bind (wp_steadily ?_))
  have hread : (w.perform cfg { time := now } (.getOccurrence id)).1 =
      .error ⟨.notFound, "Record not found"⟩ := congrArg find hnone
  rw [hread]
  exact h

variable {E : Error → SchedWorld → σ → Prop} {Q : Unit → SchedWorld → σ → Prop}

lemma wp_claimFresh (hnone : w.db.occurrences.get (occurrenceId s.id due) = none)
    {Q : Bool → SchedWorld → σ → Prop}
    (h : Q true (w.putOccurrence (recordValue .claimed s due)) v) :
    (passWatch cfg now).wp (claimDue s due none) Q E w v := by
  have hfree : claim w.db.occurrences (recordValue .claimed s due) =
      (.ok true, w.db.occurrences.put (recordValue .claimed s due)) :=
    claim_free (occurrenceId_ne_empty s.id due) hnone
  refine of_bind (wp_steadily ?_)
  simp only [SchedWorld.perform, SchedWorld.transact_ok, hfree]
  exact h

lemma ScheduleDefinition.RunsOnce.advance (hs : s.RunsOnce) (dump : Json → Nat) (now : WallTime)
    (due : Stamp) :
    (s.begun now).advance dump due = (nextScheduleDue dump s due).bind fun next =>
      .ok { s.begun now with lastDueAt := some due, nextDueAt := next } := by
  have htype : ¬(s.begun now).type = .oneTime := by
    show ¬s.type = .oneTime
    simpa [ScheduleDefinition.recurring] using hs.recurring
  rw [ScheduleDefinition.advance, if_neg htype]
  rfl

lemma wp_commit {records : List SchedRecord} (hid : ∀ record ∈ records, recordId record ≠ "")
    (h : Q () (w.write records) v) : (passWatch cfg now).wp (commitRecords records) Q E w v := by
  refine of_bind (wp_steadily ?_)
  simp only [SchedWorld.perform, SchedWorld.transact_ok, commit_of_named hid]
  exact h

lemma wp_recordOccurrence {s' : ScheduleDefinition} (hs : s'.id ≠ "") {type : String}
    {status : LaunchStatus} {runId : String} {extra : List (String × Json)}
    (h : ∀ w₁ e w₂, w.Apart w₁ →
      (w₁.write [.schedule s', .occurrence (recordValue status s' due runId), .event e]).Apart w₂ →
      Q () w₂ v) :
    (passWatch cfg now).wp (recordOccurrence type s' due status runId extra) Q E w v := by
  refine of_bind (of_bind (wp_steadily ?_))
  refine of_bind (wp_commit ?_ (wp_steadily ?_))
  · simp only [forall_mem_cons]
    exact ⟨hs, occurrenceId_ne_empty _ _, cfg.uuids.draw_ne_empty w.issued, by simp⟩
  · exact h _ _ _ (perform_aside (q := .event) trivial)
      (perform_aside trivial)

/-- **The launch of an occurrence.** -/
lemma wp_launchOccurrence (hs : s.RunsOnce) (h : w.Standing ahead s (due + 1) n) {v : Nat} :
    (passWatch cfg now).wp (launchOccurrence cfg now s due)
      (fun _ w' _ => w'.Advanced cfg now ahead s due (n + 1)) (fun _ _ _ => False) w v := by
  refine (wp_tryCatch _ _).mpr (of_bind (wp_steadily ?_))
  refine of_bind (wp_attempt (fun runId _ => ?_) nofun)
  have hadv := hs.advance cfg.dump now due
  refine of_bind (wp_attempt (fun s' hs' => ?_) fun e he => ?_)
  · have hs'' : (s.begun now).advance cfg.dump due = .ok s' := hs'
    have hid : s'.id = s.id := (MovesOn.of_advance hs'').id
    refine of_bind (wp_recordOccurrence (hid ▸ hs.named) ?_)
    intro w₁ ev w₂ hR hR' t hnext
    rw [hadv, hnext] at hs''
    cases hs''
    have h₂ := (h.launched _).apart hs.named hR
    have hafter : (s.after now due t).id = s.id := rfl
    have hx : (recordValue .started (s.after now due t) due runId).id = occurrenceId s.id due := rfl
    have h₃ := h₂.recorded hs.named hafter hx ev
    exact (h₃.apart hs.named hR').later (lt_of_nextScheduleDue hnext)
  -- Without a next occurrence the launch is taken for a failure.
  have hnone : ∀ w' : SchedWorld, w'.Advanced cfg now ahead s due (n + 1) := fun w' t hnext => by
    have he' : (s.begun now).advance cfg.dump due = .error e := he
    rw [hadv, hnext] at he'
    cases he'
  refine of_bind (wp_commit ?_ (of_if ?_ ?_))
  · simp only [forall_mem_cons]
    exact ⟨occurrenceId_ne_empty _ _, by simp⟩
  · exact hnone _
  · exact hnone _

/-- **A pass gets to a schedule that is due**, and launches its occurrence. -/
lemma wp_processSchedule (hs : s.RunsOnce) (hnext : s.nextDueAt = some due)
    (hpast : isDue (some due) now) (h : w.Standing ahead s due n) {v : Nat} :
    (passWatch cfg now).wp (processSchedule cfg now s)
      (fun _ w' _ => w'.Advanced cfg now ahead s due (n + 1)) (fun _ _ _ => False) w v := by
  have hdue : s.effectiveDue = some due := by
    rw [effectiveDue, hs.queued]
    exact hnext
  have hfresh := h.fresh due le_rfl
  have hclaimed := (h.later (Nat.le_succ due)).claimed (x := recordValue .claimed s due) rfl
  refine of_ite ⟨fun hoff => ?_, fun _ => ?_⟩
  · simp [hs.kept, hs.enabled] at hoff
  rw [hdue]
  refine of_ite ⟨fun hnow => (nomatch hpast.symm.trans hnow.2), fun _ => ?_⟩
  refine of_bind ((wp_localVar _ _).mpr (wp_findFresh hfresh ?_))
  refine of_ite ⟨fun _ => ?_, fun hgo => absurd rfl hgo⟩
  refine of_bind (wp_claimFresh hfresh ?_)
  refine of_ite ⟨fun _ => ?_, fun hgo => absurd rfl hgo⟩
  refine of_ite ⟨fun hskip => (nomatch hs.misfirePolicy.symm.trans hskip.2), fun _ => of_bind ?_⟩
  refine of_ite ⟨fun hq => (nomatch hs.queued.symm.trans hq), fun _ => ?_⟩
  refine of_bind (wp_steadily (of_bind (wp_attempt (fun runs _ => ?_) nofun)))
  -- Overlapping runs are allowed, so it does not matter what the scan has found.
  refine of_if ?_ (wp_launchOccurrence hs hclaimed)
  rw [hs.overlapPolicy]
  exact wp_launchOccurrence hs hclaimed

lemma wp_processSchedule_others (hs : s.id ≠ "") (hstored : w.Stored s) (hclock : w.clock = now)
    {v : Nat} : (passWatch cfg now).wp (processSchedule cfg now s)
      (fun _ w' _ => w'.clock = now ∧ ∀ k, k ≠ s.id → w'.db.schedules.get k = w.db.schedules.get k)
      (fun _ _ _ => True) w v := by
  have htrivial : ∀ due, ∃ J, Abides cfg (Steadily now) (fun _ => True) now s due J ∧
      ∀ w, J none w ↔ True := fun _ => ⟨fun _ _ => True,
    ⟨fun _ _ _ => trivial, fun _ _ _ _ _ => trivial, fun _ _ _ _ _ _ => trivial⟩, fun _ => Iff.rfl⟩
  exact wp_passWatch (wp_imp
    (Abides.processSchedule htrivial hs trivial hclock hstored) fun _ _ _ h => h.2)

section

variable (hreach : Reached cfg now ahead)
include hreach

/-- **One pass.** What is proved of the schedule holds after the pass if the schedules behind it
keep it. -/
lemma SchedWorld.pass_of_own {I : SchedWorld → Prop} {rest : List ScheduleDefinition}
    (hnamed : ∀ p, w.Stored p → p.id ≠ "")
    (hrest : w.db.schedules.rows = ahead ++ s :: rest)
    (hown : (passWatch cfg now).wp (processSchedule cfg now s) (fun _ w' _ => I w')
      (fun _ _ _ => False) { w with clock := now } 0)
    (hI : ∀ s₂ due₂, s₂.id ≠ "" → s₂.id ∉ (ahead ++ [s]).map (·.id) →
      Abides cfg (Steadily now) (fun _ => True) now s₂ due₂ fun _ w => I w) :
    I (w.pass cfg now) := by
  refine pass_of_wp (of_bind (wp_steadily (of_bind
    (wp_steadily (of_bind (wp_attempt (fun l hl => ?_) fun e he => ?_))))))
  · have hpage : l = ahead ++ s :: rest.take (cfg.maxPendingLaunches - ahead.length) := by
      have hl' : l = w.db.schedules.rows.take (cfg.maxPendingLaunches + 1) :=
        list_eq_ok (read_eq_ok hl)
      rw [hl', hrest, take_append, take_of_length_le (Nat.le_succ_of_le hreach.listed),
        Nat.succ_sub hreach.listed, take_succ_cons]
    have hnodup : ((ahead ++ s :: rest).map (·.id)).Nodup := by
      rw [← hrest]
      exact w.db.schedules.nodup
    have hbehind : ∀ p ∈ rest.take (cfg.maxPendingLaunches - ahead.length), p ∈ rest :=
      fun p hp => mem_of_mem_take hp
    have hstored : ∀ p ∈ rest, w.Stored p := fun p hp => mem_rows_iff.mp (by simp [hrest, hp])
    have hs : w.Stored s := mem_rows_iff.mp (by simp [hrest])
    have hne : ∀ p ∈ rest, p.id ∉ (ahead ++ [s]).map (·.id) := fun p hp hmem => by
      have hsplit : ahead ++ s :: rest = (ahead ++ [s]) ++ rest := by simp
      rw [hsplit, map_append, nodup_append] at hnodup
      exact hnodup.2.2 _ hmem _ (mem_map_of_mem hp) rfl
    rw [hpage]
    refine wp_ahead hreach.dormant hreach.launches (of_bind
      (of_ite ⟨fun hfull => absurd hfull (Nat.not_le.mpr hreach.launches), fun _ => of_bind ?_⟩))
    have hothers : (passWatch cfg now).wp (processSchedule cfg now s)
        (fun _ w' _ => w'.clock = now ∧ ∀ k, k ≠ s.id → w'.db.schedules.get k = w.db.schedules.get k)
        (fun _ _ _ => True) { w with clock := now } 0 := by
      have hs₁ : Stored { w with clock := now } s := hs
      exact wp_processSchedule_others (hnamed s hs) hs₁ rfl
    refine wp_mono (wp_and hown hothers) ?_ fun _ _ _ hfalse => hfalse.1.elim
    -- The schedules behind are still stored as they were listed.
    rintro _ w₁ v₁ ⟨hI₁, hclock, hothers⟩
    refine wp_passWatch (Abides.processSchedules _ ?_ (fun p hp due₂ => ⟨fun _ w => I w,
      hI p due₂ (hnamed p (hstored p (hbehind p hp))) (hne p (hbehind p hp)), fun _ => Iff.rfl⟩)
      (fun p hp => hnamed p (hstored p (hbehind p hp))) hI₁ hclock fun p hp => ?_)
    · have hsub : ((rest.take (cfg.maxPendingLaunches - ahead.length)).map (·.id)).Sublist
          ((ahead ++ s :: rest).map (·.id)) :=
        (((take_sublist _ rest).trans (sublist_cons_self s rest)).trans
          (sublist_append_right ahead _)).map _
      exact hnodup.sublist hsub
    · have hother : p.id ≠ s.id := fun heq => hne p (hbehind p hp) (by simp [heq])
      rw [Stored, hothers _ hother]
      exact hstored p (hbehind p hp)
  have hlimit : ¬10000 < cfg.maxPendingLaunches + 1 := by
    have := hreach.limit
    omega
  have he' : list w.db.schedules.rows (cfg.maxPendingLaunches + 1) = .error e := he
  rw [list, if_neg hlimit] at he'
  cases he'

lemma SchedWorld.Standing.pass {I : SchedWorld → Prop} (h : w.Standing ahead s due n)
    (hown : ∀ w, w.Standing ahead s due n → ∀ v : Nat, (passWatch cfg now).wp
      (processSchedule cfg now s) (fun _ w' _ => I w') (fun _ _ _ => False) w v)
    (hI : ∀ s₂ due₂, s₂.id ≠ "" → s₂.id ∉ (ahead ++ [s]).map (·.id) →
      Abides cfg (Steadily now) (fun _ => True) now s₂ due₂ fun _ w => I w) :
    I (w.pass cfg now) := by
  obtain ⟨rest, hrest⟩ := h.listed
  have h₁ : Standing ahead s due n { w with clock := now } := ⟨h.named, h.listed, h.fresh, h.runs⟩
  exact pass_of_own hreach h.named hrest (hown _ h₁ 0) hI

lemma SchedWorld.Standing.pass_dormant (hs : s.id ≠ "")
    (hd : s.Dormant now) (h : w.Standing ahead s due n) :
    (w.pass cfg now).Standing ahead s due n :=
  h.pass hreach (fun _ hw _ => wp_dormant hd hw) fun _ _ hs₂ hne => Standing.abides hs hs₂ hne

lemma SchedWorld.Standing.pass_due (hs : s.RunsOnce)
    (hnext : s.nextDueAt = some due) (hpast : isDue (some due) now)
    (h : w.Standing ahead s due n) (ht : nextScheduleDue cfg.dump s due = .ok (some t)) :
    (w.pass cfg now).Standing ahead (s.after now due t) t (n + 1) := by
  refine h.pass hreach (fun w hw v => wp_imp (wp_processSchedule hs hnext hpast hw)
    fun _ _ _ hadv => hadv t ht) fun s₂ due₂ hs₂ hne => ?_
  have hids : (ahead ++ [s.after now due t]).map (·.id) = (ahead ++ [s]).map (·.id) := by
    rw [map_append, map_append]
    rfl
  exact Standing.abides hs.named hs₂ (hids ▸ hne)

end

end Own

/-! ## Passes one after the other -/

section Passes

variable {cfg : SchedConfig} {now : WallTime} {s : ScheduleDefinition} {due t : Stamp}
  {ahead : List ScheduleDefinition} {n k : Nat} {w : SchedWorld}

/-- **One run for each occurrence that has been missed.** After `k` passes over a schedule of which
`k` occurrences are due, `k` runs have been launched. -/
lemma SchedWorld.Standing.passes (hreach : Reached cfg now ahead) (hs : s.RunsOnce)
    (hnext : s.nextDueAt = some due) (h : w.Standing ahead s due n)
    (hpast : ∀ m < k, ∃ u, s.nthDue cfg.dump due m = some u ∧ isDue (some u) now)
    (ht : s.nthDue cfg.dump due k = some t) :
    ∃ s', s'.id = s.id ∧ s'.RunsOnce ∧ nextScheduleDue cfg.dump s' = nextScheduleDue cfg.dump s ∧
      s'.nextDueAt = some t ∧ ((SchedWorld.pass cfg now)^[k] w).Standing ahead s' t (n + k) := by
  induction k generalizing t with
  | zero =>
    cases ht
    exact ⟨s, rfl, hs, rfl, hnext, h⟩
  | succ k ih =>
    obtain ⟨u, hu, hdue⟩ := hpast k (Nat.lt_succ_self k)
    obtain ⟨s', hid, hs', hlike, hnext', hstand⟩ := ih (fun m hm => hpast m (Nat.lt_succ_of_lt hm)) hu
    rw [nthDue, hu, Option.bind_some, ← hlike] at ht
    have hnext'' : nextScheduleDue cfg.dump s' u = .ok (some t) := by
      cases hres : nextScheduleDue cfg.dump s' u with
      | error e =>
        rw [hres] at ht
        cases ht
      | ok next =>
        rw [hres] at ht
        exact congrArg Except.ok ht
    refine ⟨s'.after now u t, hid, ?_, hlike, rfl, ?_⟩
    · exact ⟨hs'.named, hs'.enabled, hs'.kept, rfl, hs'.recurring, hs'.misfirePolicy,
        hs'.overlapPolicy⟩
    · rw [Function.iterate_succ_apply']
      exact hstand.pass_due hreach hs' hnext' hdue hnext''

lemma SchedWorld.Standing.passes_dormant (hreach : Reached cfg now ahead) (hs : s.id ≠ "")
    (hd : s.Dormant now) (h : w.Standing ahead s due n) :
    ((SchedWorld.pass cfg now)^[k] w).Standing ahead s due n := by
  induction k with
  | zero => exact h
  | succ k ih =>
    rw [Function.iterate_succ_apply']
    exact ih.pass_dormant hreach hs hd

/-- **The end of catching up.** Once the first occurrence after `now` is reached, that is after as
many passes as there are missed occurrences, nothing more happens. -/
lemma SchedWorld.Standing.caught_up (hreach : Reached cfg now ahead) (hs : s.RunsOnce)
    (hnext : s.nextDueAt = some due) (h : w.Standing ahead s due n) {m : Nat}
    (hpast : ∀ i < m, ∃ u, s.nthDue cfg.dump due i = some u ∧ isDue (some u) now)
    (ht : s.nthDue cfg.dump due m = some t) (hlater : isDue (some t) now = false) (hk : m ≤ k) :
    ∃ s', s'.id = s.id ∧ s'.nextDueAt = some t ∧
      ((SchedWorld.pass cfg now)^[k] w).Standing ahead s' t (n + m) := by
  obtain ⟨s', hid, hs', -, hnext', hstand⟩ := h.passes hreach hs hnext hpast ht
  obtain ⟨j, rfl⟩ := Nat.exists_eq_add_of_le' hk
  refine ⟨s', hid, hnext', ?_⟩
  rw [Function.iterate_add_apply]
  refine hstand.passes_dormant hreach hs'.named (.inr (.inr (.inr ⟨hs'.queued, ?_⟩)))
  rw [hnext']
  exact hlater

/-- One run has been launched since `w`, and the schedule waits for its first occurrence after
`now`. -/
def CaughtUpOnce (cfg : SchedConfig) (now : WallTime) (s : ScheduleDefinition) (due : Stamp)
    (w w' : SchedWorld) : Prop :=
  w'.runsOf s.id = w.runsOf s.id + 1 ∧ ∃ s' t, w'.db.schedules.get s.id = some s' ∧
    s'.nextDueAt = some t ∧ s.FirstAfter cfg.dump due now t

lemma SchedWorld.Standing.stored (h : w.Standing ahead s due n) : w.Stored s := by
  obtain ⟨rest, hrest⟩ := h.listed
  exact mem_rows_iff.mp (by simp [hrest])

lemma SchedWorld.Standing.missed_eq_one (hreach : Reached cfg now ahead) (hs : s.RunsOnce)
    (hnext : s.nextDueAt = some due) (h : w.Standing ahead s due n) {m : Nat}
    (hpast : ∀ i < m, ∃ u, s.nthDue cfg.dump due i = some u ∧ isDue (some u) now)
    (ht : s.nthDue cfg.dump due m = some t) (hlater : isDue (some t) now = false)
    (honce : ∃ K, ∀ k ≥ K, CaughtUpOnce cfg now s due w ((SchedWorld.pass cfg now)^[k] w)) :
    m = 1 := by
  obtain ⟨K, hK⟩ := honce
  obtain ⟨s', hid, -, hstand⟩ := h.caught_up hreach hs hnext hpast ht hlater (Nat.le_max_right K m)
  have hcount := (hK (max K m) (Nat.le_max_left K m)).1
  rw [← hid, hstand.runs, hid, h.runs] at hcount
  omega

/-- **Catching up with one run.** Repeated passes make up for the missed occurrences with one run if
and only if one occurrence has been missed: the one after it is not due yet. -/
theorem caughtUpOnce_iff (hreach : Reached cfg now ahead) (hs : s.RunsOnce)
    (hnext : s.nextDueAt = some due) (hpast : isDue (some due) now = true)
    (h : w.Standing ahead s due n) :
    (∃ K, ∀ k ≥ K, CaughtUpOnce cfg now s due w ((SchedWorld.pass cfg now)^[k] w)) ↔
      ∃ t, nextScheduleDue cfg.dump s due = .ok (some t) ∧ isDue (some t) now = false := by
  constructor
  · intro honce
    obtain ⟨K, hK⟩ := honce
    obtain ⟨-, s', t, -, -, m, ht, hlater, hmissed⟩ := hK K le_rfl
    cases h.missed_eq_one hreach hs hnext hmissed ht hlater ⟨K, hK⟩
    refine ⟨t, ?_, hlater⟩
    have ht' : (nextScheduleDue cfg.dump s due).toOption.join = some t := ht
    cases hres : nextScheduleDue cfg.dump s due with
    | error e =>
      rw [hres] at ht'
      cases ht'
    | ok next =>
      rw [hres] at ht'
      exact congrArg Except.ok ht'
  rintro ⟨t, ht, hlater⟩
  have hmissed : ∀ i < 1, ∃ u, s.nthDue cfg.dump due i = some u ∧ isDue (some u) now := by
    intro i hi
    cases Nat.lt_one_iff.mp hi
    exact ⟨due, rfl, hpast⟩
  have hfirst : s.nthDue cfg.dump due 1 = some t := by
    show (nextScheduleDue cfg.dump s due).toOption.join = some t
    rw [ht]
    rfl
  refine ⟨1, fun k hk => ?_⟩
  obtain ⟨s', hid, hnext', hstand⟩ := h.caught_up hreach hs hnext hmissed hfirst hlater hk
  refine ⟨?_, s', t, ?_, hnext', 1, hfirst, hlater, hmissed⟩
  · rw [← hid, hstand.runs, hid, h.runs]
  · rw [← hid]
    exact hstand.stored

end Passes

/-- A schedule that is due every second and whose runs may overlap. -/
def sampleMissed : ScheduleDefinition :=
  { sampleInterval with misfirePolicy := .runOnce, overlapPolicy := .allow }

def sampleRestart : SchedWorld := { db := { schedules := Table.empty.put sampleMissed } }

lemma sampleMissed_runsOnce : sampleMissed.RunsOnce := ⟨by decide, rfl, rfl, rfl, rfl, rfl, rfl⟩

lemma sampleRestart_standing : sampleRestart.Standing [] sampleMissed 0 0 where
  named p hp := by
    rw [mem_singleton.mp (mem_of_get hp)]
    exact sampleMissed_runsOnce.named
  listed := ⟨[], rfl⟩
  fresh _ _ := rfl
  runs := rfl

lemma reached_front (now : WallTime) : Reached {} now [] :=
  ⟨fun _ hp => (nomatch hp), by decide, by decide, by decide⟩

theorem caughtUpOnce_sample :
    nextScheduleDue ({} : SchedConfig).dump sampleMissed 0 = .ok (some 1000) ∧
      ∃ K, ∀ k ≥ K, CaughtUpOnce {} 500000000 sampleMissed 0 sampleRestart
        ((SchedWorld.pass {} 500000000)^[k] sampleRestart) := by
  have hnext : nextScheduleDue ({} : SchedConfig).dump sampleMissed 0 = .ok (some 1000) := by
    decide +kernel
  exact ⟨hnext, (caughtUpOnce_iff (reached_front _) sampleMissed_runsOnce rfl (by decide)
    sampleRestart_standing).mpr ⟨1000, hnext, by decide⟩⟩

/-- A second after the first occurrence the schedule has missed two, and two runs are launched. -/
theorem caughtUp_twice : sampleMissed.RunsOnce ∧ isDue sampleMissed.nextDueAt 1000000000 = true ∧
      ¬∃ K, ∀ k ≥ K, CaughtUpOnce {} 1000000000 sampleMissed 0 sampleRestart
        ((SchedWorld.pass {} 1000000000)^[k] sampleRestart) := by
  refine ⟨sampleMissed_runsOnce, by decide, fun honce => ?_⟩
  have htwo : (2 : Nat) = 1 := by
    refine sampleRestart_standing.missed_eq_one (t := 2000) (reached_front _) sampleMissed_runsOnce
      rfl (fun i hi => ?_) (by decide +kernel) (by decide) honce
    rcases Nat.lt_succ_iff_lt_or_eq.mp hi with hi | rfl
    · cases Nat.lt_one_iff.mp hi
      exact ⟨0, rfl, by decide⟩
    · exact ⟨1000, by decide +kernel, by decide⟩
  cases htwo

end Laso
