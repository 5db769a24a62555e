import Laso.Scheduler.Overlap

/-!
# Which schedules a pass considers

A pass reads one page of the schedules, the oldest `max_pending_launches + 1` rows whatever their
state, and `arm` decides from such a page when the scheduler is to wake up. Schedules beyond the page
are never considered: with enough disabled or deleted rows before it, a schedule that is due is not
run, and no timer is set for it (`page_hides_schedule`).

The result is about **histories** of the code, the calls it makes with their answers. As long as the
storage answers, every pass comes to a schedule that is due, or makes as many launches as it may,
exactly if the schedule is on the page and handling no schedule before it can throw (`PassReaches`). And
`arm` never cancels the timer exactly if the page, when it can be read, shows a schedule with a time
to come (`due_schedules_considered`).
-/

namespace Laso

open List Watch Scheduler SchedDb

/-- The scheduler has to see to the occurrence of the schedule at `due`: it is enabled, or the
occurrence is queued. -/
structure ScheduleDefinition.Due (s : ScheduleDefinition) (now : WallTime) (due : Stamp) : Prop where
  kept : s.deleted = false
  live : s.enabled ∨ s.queued
  effective : s.effectiveDue = some due
  due : s.queued ∨ isDue (some due) now

lemma ScheduleDefinition.due_of_not {s : ScheduleDefinition} {now : WallTime} {due : Stamp}
    (hlive : ¬(s.deleted ∨ s.enabled = false ∧ s.queued = false))
    (heffective : s.effectiveDue = some due)
    (htime : ¬(s.queued = false ∧ isDue (some due) now = false)) : s.Due now due where
  kept := Bool.eq_false_iff.mpr fun h => hlive (.inl h)
  live := by
    by_contra hnot
    rw [not_or, Bool.not_eq_true, Bool.not_eq_true] at hnot
    exact hlive (.inr hnot)
  effective := heffective
  due := by
    by_contra hnot
    rw [not_or, Bool.not_eq_true, Bool.not_eq_true] at hnot
    exact htime hnot

lemma ScheduleDefinition.Due.not_off {s : ScheduleDefinition} {now : WallTime} {due : Stamp}
    (h : s.Due now due) : ¬(s.deleted ∨ s.enabled = false ∧ s.queued = false) := by
  rintro (hdeleted | ⟨henabled, hqueued⟩)
  · exact nomatch h.kept.symm.trans hdeleted
  rcases h.live with hlive | hlive
  · exact nomatch henabled.symm.trans hlive
  · exact nomatch hqueued.symm.trans hlive

/-- What a pass has done: the occurrences it has looked up and the launches it counts. -/
structure PassView where
  looked : List String := []
  launches : Nat := 0

/-- Launches that are counted: a launch that is refused for lack of capacity is tried again and is
not. -/
def counted : Except Error String → Bool
  | .ok _ => true
  | .error e => decide (e.code ≠ .capacity)

def PassView.note (g : PassView) : (q : SchedReq) → q.Resp → PassView
  | .getOccurrence id, _ => { g with looked := id :: g.looked }
  | .dispatch _, r => if counted r then { g with launches := g.launches + 1 } else g
  | _, _ => g

/-- Calls of the scheduler with their answers. -/
abbrev SchedHistory := List ((q : SchedReq) × q.Resp)

def SchedHistory.view (es : SchedHistory) : PassView :=
  remembered (S := schedSig) PassView.note {} es

def Served (rows : List ScheduleDefinition) (now : WallTime) : (q : SchedReq) → q.Resp → Prop
  | .now, t => t = now
  | .listSchedules limit, r => r = list rows limit
  | .getOccurrence _, r => ∀ e, r = .error e → e.code = .notFound
  | .listRuns _, r => ∃ runs, r = .ok runs
  | .claimOccurrence _, r => ∃ b, r = .ok b
  | .commit _, r => r = .ok ()
  | _, _ => True

variable (cfg : SchedConfig)

/-- Handling the occurrence can throw: the schedule has no next time, and the occurrence is to be
skipped as missed, or is not launched while a run of the schedule is active. A launch catches its
errors. -/
def ScheduleDefinition.Throws (s : ScheduleDefinition) (now : WallTime) (due : Stamp) : Prop :=
  if isLate due now ∧ s.misfirePolicy = .skip then ∃ e, s.missed cfg.dump now due = .error e
  else s.queued = false ∧ s.overlapPolicy ≠ .allow ∧ ∃ e, s.advance cfg.dump due = .error e

/-- The page can be read and shows the schedule, and handling no schedule before it can throw. -/
def PassReaches (rows : List ScheduleDefinition) (now : WallTime) (s : ScheduleDefinition) : Prop :=
  cfg.maxPendingLaunches < 10000 ∧ ∃ before after,
    rows.take (cfg.maxPendingLaunches + 1) = before ++ s :: after ∧
    ∀ t ∈ before, ∀ due, t.Due now due → ¬t.Throws cfg now due

/-- Every pass whose calls are answered looks the occurrence up, or makes as many launches as it
may. -/
def Considered (rows : List ScheduleDefinition) (now : WallTime) (s : ScheduleDefinition)
    (due : Stamp) : Prop :=
  ∀ (es : SchedHistory) (r : Except Error Unit × Nat), ((processDue cfg).prog 0).Returns es r →
    (∀ e ∈ es, Served rows now e.1 e.2) →
    occurrenceId s.id due ∈ es.view.looked ∨ cfg.maxPendingLaunches ≤ es.view.launches

/-! ## Passes -/

namespace Pass

variable {cfg : SchedConfig} {rows : List ScheduleDefinition} {now : WallTime} {σ α β : Type}

/-- The observer of a pass whose calls are answered. -/
abbrev passWatch (rows : List ScheduleDefinition) (now : WallTime) : Watch schedSig PassView :=
  Watch.noting PassView.note (fun _ => Served rows now) fun _ _ => True

/-- Code that throws nothing, launches nothing and does not touch its variable. -/
def Quiet (rows : List ScheduleDefinition) (now : WallTime) (x : SchedOp σ α) : Prop :=
  ∀ g v, (passWatch rows now).wp x (fun _ g' v' => g'.launches = g.launches ∧ v' = v)
    (fun _ _ _ => False) g v

/-- Code that throws nothing and whose variable counts the launches. -/
def Counts (rows : List ScheduleDefinition) (now : WallTime) (x : SchedOp Nat α) : Prop :=
  ∀ g v, g.launches = v →
    (passWatch rows now).wp x (fun _ g' v' => g'.launches = v') (fun _ _ _ => False) g v

lemma Quiet.counts {x : SchedOp Nat α} (h : Quiet rows now x) : Counts rows now x :=
  fun g v hv => wp_imp (h g v) fun _ _ _ ⟨hsame, hv'⟩ => hsame.trans (hv.trans hv'.symm)

lemma quiet_pure (a : α) : Quiet rows now (pure a : SchedOp σ α) := fun _ _ => ⟨rfl, rfl⟩

variable {f : β → SchedOp σ α} {g : PassView} {due : Stamp}

lemma Quiet.bind {x : SchedOp σ β} (hx : Quiet rows now x)
    (hf : ∀ b, Quiet rows now (f b)) : Quiet rows now (x >>= f) := fun g v => by
  refine of_bind (wp_imp (hx g v) ?_)
  rintro b g₁ v₁ ⟨hsame, rfl⟩
  exact wp_imp (hf b g₁ v₁) fun _ _ _ ⟨hsame', hv⟩ => ⟨hsame'.trans hsame, hv⟩

lemma Counts.bind {x : SchedOp Nat β} {f : β → SchedOp Nat α} (hx : Counts rows now x)
    (hf : ∀ b, Counts rows now (f b)) : Counts rows now (x >>= f) := fun g v hv =>
  of_bind (wp_imp (hx g v hv) fun b g₁ v₁ hv₁ => hf b g₁ v₁ hv₁)

lemma quiet_query {q : SchedReq} (hq : ∀ (g : PassView) r, g.note q r = g) :
    Quiet rows now (query q : SchedOp σ q.Resp) := fun g _ =>
  of_call ⟨trivial, fun r _ ⟨_, hg'⟩ => ⟨congrArg PassView.launches (hg'.trans (hq g r)), rfl⟩⟩

lemma quiet_commitRecords (records : List SchedRecord) :
    Quiet rows now (commitRecords records : SchedOp σ Unit) := fun g _ => by
  refine of_bind (of_call ⟨trivial, ?_⟩)
  rintro r _ ⟨hr, rfl⟩
  rw [hr]
  exact ⟨rfl, rfl⟩

lemma quiet_listRuns {f : List RunRow → SchedOp σ α} (hf : ∀ runs, Quiet rows now (f runs)) :
    Quiet rows now (query (.listRuns 10000) >>= fun x => Code.ofExcept x >>= f) := fun g v => by
  refine of_bind (of_call ⟨trivial, ?_⟩)
  rintro r _ ⟨⟨runs, hr⟩, rfl⟩
  rw [hr]
  exact hf runs _ v

lemma quiet_activeScheduleRun (id : String) :
    Quiet rows now (activeScheduleRun id : SchedOp σ Bool) :=
  quiet_listRuns fun _ => quiet_pure _

variable (s : ScheduleDefinition)

lemma quiet_claimDue (due : Stamp) (o : Option ScheduleOccurrence) :
    Quiet rows now (claimDue s due o : SchedOp σ Bool) := by
  cases o with
  | some o => exact quiet_pure _
  | none =>
  refine fun g v => of_bind (of_call ⟨trivial, ?_⟩)
  rintro r _ ⟨⟨b, hr⟩, rfl⟩
  rw [hr]
  exact ⟨rfl, rfl⟩

lemma quiet_recordOccurrence (type : String) (s : ScheduleDefinition) (due : Stamp)
    (status : LaunchStatus) (runId : String) (extra : List (String × Json)) :
    Quiet rows now (recordOccurrence type s due status runId extra : SchedOp σ Unit) :=
  Quiet.bind (Quiet.bind (quiet_query fun _ _ => rfl) fun _ => quiet_pure _) fun _ =>
    Quiet.bind (quiet_commitRecords _) fun _ => quiet_query fun _ _ => rfl

/-- Looking an occurrence up throws nothing and launches nothing. -/
lemma findOccurrence_wp (id : String) (g : PassView) (v : Option ScheduleOccurrence) :
    (passWatch rows now).wp (findOccurrence id) (fun _ g' _ => g'.launches = g.launches)
      (fun _ _ _ => False) g v := by
  refine (wp_tryCatch _ _).mpr (of_bind (of_call ⟨trivial, ?_⟩))
  rintro r _ ⟨hr, rfl⟩
  cases r with
  | error e => exact of_ite ⟨fun _ => rfl, fun hne => absurd (hr e rfl) hne⟩
  | ok o =>
  refine of_bind (of_bind (of_if rfl (of_if ?_ rfl)))
  refine of_bind (of_call ⟨trivial, ?_⟩)
  rintro r₁ _ ⟨⟨runs, hruns⟩, rfl⟩
  rw [hruns]
  refine of_bind (of_ok ?_)
  split
  · refine of_bind (wp_mono (quiet_commitRecords _ _ _) ?_ fun _ _ _ h => h.elim)
    exact fun _ _ _ h => h.1
  · rfl

variable {v : Nat}

lemma closes_launch {records : List SchedRecord} {e : Error} :
    (passWatch rows now).wp
      (do commitRecords records; if e.code ≠ .capacity then modify (· + 1) : SchedOp Nat Unit)
      (fun _ g' v' => g'.launches = g.launches ∧ v' = if e.code ≠ .capacity then v + 1 else v)
      (fun _ _ _ => False) g v := by
  refine of_bind (wp_imp (quiet_commitRecords _ g v) ?_)
  rintro _ g' v' ⟨hsame, rfl⟩
  by_cases hcode : e.code ≠ .capacity
  · simp only [if_pos hcode]
    exact ⟨hsame, rfl⟩
  · simp only [if_neg hcode]
    exact ⟨hsame, rfl⟩

/-- **A launch is counted** unless there is no capacity. -/
lemma counts_launchOccurrence (due : Stamp) : Counts rows now (launchOccurrence cfg now s due) := by
  rintro g v rfl
  refine (wp_tryCatch _ _).mpr (of_bind (of_call ⟨trivial, ?_⟩))
  rintro r _ ⟨-, rfl⟩
  cases r with
  | ok runId =>
    refine of_bind (of_ok (of_bind ?_))
    cases hs : ({ s with
        queued := false, queuedDueAt := none
        lastStartedAt := some (WallTime.stamp now) } : ScheduleDefinition).advance cfg.dump due with
    | ok s' =>
      refine of_ok (of_bind ?_)
      refine wp_mono (quiet_recordOccurrence _ _ _ _ _ _ _ _) ?_ fun _ _ _ h => False.elim h
      rintro _ g' v' ⟨hsame, rfl⟩
      exact hsame
    | error e =>
    -- the run is there, but the schedule has no next time
    have hcode : e.code ≠ .capacity := by
      rw [Validating.advance cfg.dump _ due e hs]
      decide
    refine (wp_ofExcept_error _).mpr (wp_imp closes_launch ?_)
    rintro _ g' v' ⟨hsame, rfl⟩
    rw [if_pos hcode]
    exact hsame
  | error e =>
  refine of_bind ((wp_ofExcept_error _).mpr (wp_imp closes_launch ?_))
  rintro _ g' v' ⟨hsame, rfl⟩
  refine hsame.trans ?_
  by_cases hcode : e.code = .capacity <;> simp [PassView.note, counted, hcode]

/-- That an occurrence is queued does not matter for the next time. -/
lemma advance_queued (dump : Json → Nat) (s : ScheduleDefinition) (due : Stamp) :
    (∃ e, ({ s with queued := true, queuedDueAt := some due } : ScheduleDefinition).advance dump due =
      .error e) ↔ ∃ e, s.advance dump due = .error e := by
  unfold ScheduleDefinition.advance
  have hsame : nextScheduleDue dump { s with queued := true, queuedDueAt := some due } due =
      nextScheduleDue dump s due := rfl
  simp only [hsame]
  split
  · simp
  · cases nextScheduleDue dump s due <;> simp [bind, Except.bind]

variable {s : ScheduleDefinition}

lemma counts_ofExcept {x : Except Error β} {f : β → SchedOp Nat α} (hx : ¬∃ e, x = .error e)
    (hf : ∀ b, Counts rows now (f b)) : Counts rows now (Code.ofExcept x >>= f) := by
  cases x with
  | ok b => exact hf b
  | error e => exact absurd ⟨e, rfl⟩ hx

/-- Code that can throw only if the schedule has no next time where one is asked for. -/
lemma counts_handleDue (h : ¬s.Throws cfg now due) : Counts rows now (handleDue cfg now s due) := by
  unfold handleDue
  unfold ScheduleDefinition.Throws at h
  split
  · rename_i hmissed
    rw [if_pos hmissed] at h
    exact counts_ofExcept h fun _ => (quiet_recordOccurrence _ _ _ _ _ _).counts
  rename_i hmissed
  rw [if_neg hmissed] at h
  unfold overlaps
  split
  · exact counts_launchOccurrence s due
  rename_i hqueued
  refine Counts.bind (quiet_activeScheduleRun s.id).counts fun overlap => ?_
  have hnext : s.overlapPolicy ≠ .allow → ¬∃ e, s.advance cfg.dump due = .error e :=
    fun hpolicy hthrows => h ⟨by simpa using hqueued, hpolicy, hthrows⟩
  split
  · split
    · rename_i hpolicy
      exact counts_ofExcept (hnext (by simp [hpolicy])) fun _ =>
        (quiet_recordOccurrence _ _ _ _ _ _).counts
    · rename_i hpolicy
      exact counts_ofExcept (mt (advance_queued _ _ _).mp (hnext (by simp [hpolicy]))) fun _ =>
        (quiet_recordOccurrence _ _ _ _ _ _).counts
    · exact counts_launchOccurrence s due
  · exact counts_launchOccurrence s due

/-- **The pass gets past a schedule** that cannot throw. -/
lemma counts_processSchedule (h : ∀ due, s.Due now due → ¬s.Throws cfg now due) :
    Counts rows now (processSchedule cfg now s) := by
  unfold processSchedule
  split
  · exact (quiet_pure ()).counts
  rename_i hlive
  split
  · exact (quiet_pure ()).counts
  rename_i due heffective
  split
  · exact (quiet_pure ()).counts
  rename_i htime
  intro g v hv
  refine of_bind ((wp_localVar _ _).mpr
    (wp_mono (findOccurrence_wp _ g _) ?_ fun _ _ _ h => False.elim h))
  intro goOn g₁ existing hsame
  have hdue := h due (ScheduleDefinition.due_of_not hlive heffective htime)
  have hclaimed : Counts rows now (do
      if goOn then
        if ← claimDue s due existing then handleDue cfg now s due : SchedOp Nat Unit) := by
    split
    · refine Counts.bind (quiet_claimDue s due existing).counts fun claimed => ?_
      split
      · exact counts_handleDue hdue
      · exact (quiet_pure ()).counts
    · exact (quiet_pure ()).counts
  exact hclaimed g₁ v (hsame.trans hv)

lemma looked_note {id : String} (g : PassView) (q : SchedReq) (r : q.Resp) (h : id ∈ g.looked) :
    id ∈ (g.note q r).looked := by
  unfold PassView.note
  split
  · exact mem_cons_of_mem _ h
  · split <;> exact h
  · exact h

/-- What code has looked up stays looked up. -/
lemma wp_looked {id : String} (x : SchedOp σ α) (v : σ) (h : id ∈ g.looked) :
    (passWatch rows now).wp x (fun _ g' _ => id ∈ g'.looked) (fun _ g' _ => id ∈ g'.looked) g v :=
  wp_keeps (K := fun g : PassView => id ∈ g.looked) looked_note x v h

/-- What the pass does with a schedule that is due. -/
lemma processSchedule_due (hdue : s.Due now due) : processSchedule cfg now s = (do
      let (goOn, existing) ← Code.localVar none (findOccurrence (occurrenceId s.id due))
      if goOn then
        if ← claimDue s due existing then handleDue cfg now s due) := by
  have htime : ¬(s.queued = false ∧ isDue (some due) now = false) := by
    rintro ⟨hqueued, htime⟩
    rcases hdue.due with h | h
    · exact nomatch hqueued.symm.trans h
    · exact nomatch htime.symm.trans h
  unfold processSchedule
  rw [if_neg hdue.not_off]
  simp only [hdue.effective]
  rw [if_neg htime]

/-- **The pass looks up** a schedule that is due, whatever becomes of it. -/
lemma looks_processSchedule (hdue : s.Due now due) :
    (passWatch rows now).wp (processSchedule cfg now s)
      (fun _ g' _ => occurrenceId s.id due ∈ g'.looked)
      (fun _ g' _ => occurrenceId s.id due ∈ g'.looked) g v := by
  rw [processSchedule_due hdue]
  refine of_bind ((wp_localVar _ _).mpr ((wp_tryCatch _ _).mpr (of_bind (of_call ⟨trivial, ?_⟩))))
  rintro r _ ⟨-, rfl⟩
  have hmem : occurrenceId s.id due ∈ (g.note (.getOccurrence (occurrenceId s.id due)) r).looked :=
    mem_cons_self
  refine wp_mono (wp_looked _ _ hmem) (fun _ g' _ h => wp_looked _ _ h) fun e g' _ h => ?_
  exact of_if (wp_looked _ _ h) h

/-- **The loop comes to the schedule**, or stops at the limit of launches. -/
lemma looks_processSchedules (before after : List ScheduleDefinition)
    (hbefore : ∀ t ∈ before, ∀ due, t.Due now due → ¬t.Throws cfg now due)
    (hdue : s.Due now due) (hv : g.launches = v) :
    (passWatch rows now).wp (processSchedules cfg now (before ++ s :: after))
      (fun _ g' _ => occurrenceId s.id due ∈ g'.looked ∨ cfg.maxPendingLaunches ≤ g'.launches)
      (fun _ g' _ => occurrenceId s.id due ∈ g'.looked ∨ cfg.maxPendingLaunches ≤ g'.launches)
      g v := by
  induction before generalizing g v with
  | nil =>
    refine of_bind (wp_get.mpr (of_ite ⟨fun hmax => .inr (hv ▸ hmax), fun _ => ?_⟩))
    refine of_bind (wp_mono (looks_processSchedule hdue) (fun _ g' _ h => ?_) fun _ _ _ h => .inl h)
    exact wp_mono (wp_looked _ _ h) (fun _ _ _ h => .inl h) fun _ _ _ h => .inl h
  | cons t rest ih =>
    refine of_bind (wp_get.mpr (of_ite ⟨fun hmax => .inr (hv ▸ hmax), fun _ => ?_⟩))
    refine of_bind (wp_mono (counts_processSchedule (hbefore t mem_cons_self) g v hv) ?_
      fun _ _ _ h => h.elim)
    exact fun _ g₁ v₁ hv₁ => ih (fun t ht => hbefore t (mem_cons_of_mem _ ht)) hv₁

lemma considered_of_reached (h : PassReaches cfg rows now s) (hdue : s.Due now due) :
    Considered cfg rows now s due := by
  obtain ⟨hlimit, before, after, hpage, hbefore⟩ := h
  intro es r hes hserved
  have hsat : (passWatch rows now).wp (processDue cfg)
      (fun _ g' _ => occurrenceId s.id due ∈ g'.looked ∨ cfg.maxPendingLaunches ≤ g'.launches)
      (fun _ g' _ => occurrenceId s.id due ∈ g'.looked ∨ cfg.maxPendingLaunches ≤ g'.launches)
      {} 0 := by
    refine of_bind (of_call ⟨trivial, ?_⟩)
    rintro t _ ⟨ht, rfl⟩
    cases (show t = now from ht)
    refine of_bind (of_call ⟨trivial, ?_⟩)
    rintro page _ ⟨hlist, rfl⟩
    rw [show page = .ok (before ++ s :: after) from
      Eq.trans hlist ((if_neg (by omega)).trans (congrArg Except.ok hpage))]
    exact of_bind (of_ok (looks_processSchedules before after hbefore hdue rfl))
  have hpost := Watch.Sat.of_returns hsat hes (Throughout.of_forall_mem hserved)
  rcases r with ⟨_ | _, _⟩ <;> exact hpost

/-! ### Passes that stand still

The answers of the following store let a pass do as little as it can: the occurrences are over, but
for one that can be claimed while a run of its schedule is active. -/

def standstill (rows : List ScheduleDefinition) (now : WallTime) (scheduleId occurrence : String) :
    (q : SchedReq) → q.Resp
  | .now => now
  | .event => ("", "")
  | .listSchedules limit => list rows limit
  | .getOccurrence id =>
    if id = occurrence then .error ⟨.notFound, "Record not found"⟩
    else .ok { id, scheduleId := "", dueAt := 0, status := .started }
  | .claimOccurrence _ => .ok true
  | .listRuns _ => .ok [{ id := "", scheduleId, state := .running }]
  | .commit _ => .ok ()
  | .dispatch _ => .error ⟨.capacity, ""⟩
  | .receive _ => ()
  | .getSchedule _ | .getRun _ | .listTriggers _ | .getTrigger _ | .listDeliveries _
  | .getDelivery _ | .claimDelivery _ | .listEvents _ | .getEvent _ => .error ⟨.notFound, ""⟩

variable {i o : String}

lemma served_standstill (q : SchedReq) :
    Served rows now q (standstill rows now i o q) := by
  cases q with
  | getOccurrence id =>
    intro e he
    by_cases hid : id = o
    · cases (if_pos hid).symm.trans he
      rfl
    · cases (if_neg hid).symm.trans he
  | now | listSchedules _ | commit _ => rfl
  | listRuns _ | claimOccurrence _ => exact ⟨_, rfl⟩
  | _ => trivial

lemma standstill_missing : standstill rows now i o (.getOccurrence o) =
    (.error ⟨.notFound, "Record not found"⟩ : Except Error ScheduleOccurrence) := by
  exact if_pos rfl

abbrev stillWatch (rows : List ScheduleDefinition) (now : WallTime)
    (i o : String) : Watch schedSig PassView :=
  Watch.noting PassView.note (fun _ q r => r = standstill rows now i o q)
    fun _ _ => True

/-- Nothing has been launched, and only occurrences of these schedules have been looked up. -/
structure Idled (l : List ScheduleDefinition) (g : PassView) : Prop where
  launches : g.launches = 0
  looked : ∀ id ∈ g.looked, ∃ s ∈ l, ∃ due, id = occurrenceId s.id due

lemma Idled.init (l : List ScheduleDefinition) : Idled l {} :=
  ⟨rfl, fun _ hid => absurd hid not_mem_nil⟩

lemma Idled.look {l : List ScheduleDefinition} (h : Idled l g) (hs : s ∈ l) (due : Stamp)
    (r : Except Error ScheduleOccurrence) :
    Idled l (g.note (.getOccurrence (occurrenceId s.id due)) r) :=
  ⟨h.launches, forall_mem_cons.mpr ⟨⟨s, hs, due, rfl⟩, h.looked⟩⟩

variable {l : List ScheduleDefinition}

/-- The pass goes past a schedule whose occurrence is over. -/
lemma idles_processSchedule (hne : ∀ due, occurrenceId s.id due ≠ o) (hs : s ∈ l)
    (h : Idled l g) :
    (stillWatch rows now i o).wp (processSchedule cfg now s)
      (fun _ g' v' => Idled l g' ∧ v' = v) (fun _ _ _ => False) g v := by
  refine of_if ⟨h, rfl⟩ ?_
  split
  · exact ⟨h, rfl⟩
  rename_i due _
  refine of_if ⟨h, rfl⟩ ?_
  refine of_bind ((wp_localVar _ _).mpr ((wp_tryCatch _ _).mpr (of_bind (of_call ⟨trivial, ?_⟩))))
  rintro r _ ⟨hr, rfl⟩
  rw [show r = .ok _ from hr.trans (if_neg (hne due))]
  exact ⟨h.look hs due _, rfl⟩

/-- Handling an occurrence that can throw does so while a run of the schedule is active. -/
lemma fails_handleDue (hthrows : s.Throws cfg now due) (h : Idled l g) :
    (stillWatch rows now s.id o).wp (handleDue cfg now s due)
      (fun _ _ _ => False) (fun _ g' _ => Idled l g') g v := by
  unfold ScheduleDefinition.Throws at hthrows
  refine of_ite ⟨fun hmissed => ?_, fun hmissed => ?_⟩
  · rw [if_pos hmissed] at hthrows
    obtain ⟨e, he⟩ := hthrows
    rw [he]
    exact h
  rw [if_neg hmissed] at hthrows
  obtain ⟨hqueued, hpolicy, hnext⟩ := hthrows
  have hoverlaps : (overlaps s : SchedOp Nat Bool) = activeScheduleRun s.id :=
    if_neg (by simp [hqueued])
  rw [hoverlaps]
  refine of_bind (of_bind (of_call ⟨trivial, ?_⟩))
  rintro r _ ⟨hr, rfl⟩
  rw [show r = .ok _ from hr]
  refine of_bind (of_ok ?_)
  refine of_ite ⟨fun _ => ?_, fun hnone => absurd (by simp [terminal]) hnone⟩
  split
  · obtain ⟨e, he⟩ := hnext
    rw [he]
    exact h
  · obtain ⟨e, he⟩ := (advance_queued cfg.dump s due).mpr hnext
    rw [he]
    exact h
  · rename_i hallow
    exact absurd hallow hpolicy

/-- The one occurrence that is missing is to be claimed. -/
lemma finds_missing (hs : s ∈ l) (h : Idled l g) :
    (stillWatch rows now i (occurrenceId s.id due)).wp (findOccurrence (occurrenceId s.id due))
      (fun goOn g' v => goOn = true ∧ v = none ∧ Idled l g') (fun _ _ _ => False) g none := by
  refine (wp_tryCatch _ _).mpr (of_bind (of_call ⟨trivial, ?_⟩))
  rintro r _ ⟨hr, rfl⟩
  have hlooked := h.look hs due r
  rw [show r = .error ⟨.notFound, "Record not found"⟩ from hr.trans standstill_missing] at hlooked ⊢
  exact of_ite ⟨fun _ => ⟨rfl, rfl, hlooked⟩, fun hne => absurd rfl hne⟩

lemma claims_missing (h : Idled l g) :
    (stillWatch rows now i o).wp (claimDue s due none)
      (fun claimed g' _ => claimed = true ∧ Idled l g') (fun _ _ _ => False) g v := by
  refine of_bind (of_call ⟨trivial, ?_⟩)
  rintro r _ ⟨hr, rfl⟩
  rw [show r = .ok true from hr]
  exact of_ok ⟨rfl, h⟩

/-- The pass ends with the error of a schedule that can throw. -/
lemma fails_processSchedule (hdue : s.Due now due) (hthrows : s.Throws cfg now due) (hs : s ∈ l)
    (h : Idled l g) :
    (stillWatch rows now s.id (occurrenceId s.id due)).wp (processSchedule cfg now s)
      (fun _ _ _ => False) (fun _ g' _ => Idled l g') g v := by
  rw [processSchedule_due hdue]
  refine of_bind ((wp_localVar _ _).mpr (wp_mono (finds_missing hs h) ?_ fun _ _ _ h => h.elim))
  rintro _ g₁ _ ⟨rfl, rfl, h₁⟩
  refine of_ite ⟨fun _ => ?_, fun h => absurd rfl h⟩
  refine of_bind (wp_mono (claims_missing h₁) ?_ fun _ _ _ h => h.elim)
  rintro _ g₂ _ ⟨rfl, h₂⟩
  exact of_ite ⟨fun _ => fails_handleDue hthrows h₂, fun h => absurd rfl h⟩

lemma fails_processSchedules {rest : List ScheduleDefinition}
    (hlaunches : 0 < cfg.maxPendingLaunches) (hdue : s.Due now due)
    (hthrows : s.Throws cfg now due) (hs : s ∈ l) (h : Idled l g) :
    (stillWatch rows now s.id (occurrenceId s.id due)).wp (processSchedules cfg now (s :: rest))
      (fun _ g' _ => Idled l g') (fun _ g' _ => Idled l g') g 0 := by
  refine of_bind (wp_get.mpr (of_ite ⟨fun hmax => by omega, fun _ => of_bind ?_⟩))
  exact wp_mono (fails_processSchedule hdue hthrows hs h) (fun _ _ _ h => h.elim) fun _ _ _ h => h

/-- The loop goes past schedules whose occurrences are over. -/
lemma idles_processSchedules {Q : Unit → PassView → Nat → Prop} {E : Error → PassView → Nat → Prop}
    {done : List ScheduleDefinition} (rest : List ScheduleDefinition)
    (hlaunches : 0 < cfg.maxPendingLaunches) (hdone : ∀ s ∈ done, s ∈ l)
    (hne : ∀ s ∈ done, ∀ due, occurrenceId s.id due ≠ o) (h : Idled l g)
    (hrest : ∀ g', Idled l g' → (stillWatch rows now i o).wp
      (processSchedules cfg now rest) Q E g' 0) :
    (stillWatch rows now i o).wp (processSchedules cfg now (done ++ rest))
      Q E g 0 := by
  induction done generalizing g with
  | nil => exact hrest g h
  | cons s done ih =>
    refine of_bind (wp_get.mpr (of_ite ⟨fun hmax => by omega, fun _ => ?_⟩))
    refine of_bind (wp_mono (idles_processSchedule (hne s mem_cons_self) (hdone s mem_cons_self) h)
      ?_ fun _ _ _ h => h.elim)
    rintro _ g' _ ⟨h', rfl⟩
    exact ih (fun t ht => hdone t (mem_cons_of_mem _ ht)) (fun t ht => hne t (mem_cons_of_mem _ ht))
      h'

lemma idles_processDue
    (h : ∀ page, list rows (cfg.maxPendingLaunches + 1) = .ok page →
      (stillWatch rows now i o).wp (processSchedules cfg now page)
        (fun _ g' _ => Idled l g') (fun _ g' _ => Idled l g') {} 0) :
    (stillWatch rows now i o).wp (processDue cfg)
      (fun _ g' _ => Idled l g') (fun _ g' _ => Idled l g') {} 0 := by
  refine of_bind (of_call ⟨trivial, ?_⟩)
  rintro t _ ⟨ht, rfl⟩
  cases (show t = now from ht)
  refine of_bind (of_call ⟨trivial, ?_⟩)
  rintro page _ ⟨hlist, rfl⟩
  cases page with
  | error e => exact .init l
  | ok page => exact of_bind (of_ok (h page hlist.symm))

/-- A pass that stands still does not look up the occurrences of other schedules. -/
lemma not_considered (hlaunches : 0 < cfg.maxPendingLaunches) (hl : ∀ t ∈ l, t.id ≠ s.id)
    (h : (stillWatch rows now i o).wp (processDue cfg)
      (fun _ g' _ => Idled l g') (fun _ g' _ => Idled l g') {} 0) :
    ¬Considered cfg rows now s due := by
  intro hconsidered
  obtain ⟨es, r, hes, hanswers⟩ := Prog.exists_returns
    (standstill rows now i o) ((processDue cfg).prog 0)
  have hpost := Watch.Sat.of_returns h hes (Throughout.of_forall_mem hanswers)
  have hidled : Idled l (SchedHistory.view es) := by
    rcases r with ⟨_ | _, _⟩ <;> exact hpost
  have hserved : ∀ e ∈ es, Served rows now e.1 e.2 := fun e he =>
    (hanswers e he).symm ▸ served_standstill e.1
  rcases hconsidered es r hes hserved with hlooked | hmax
  · obtain ⟨t, ht, due', heq⟩ := hidled.looked _ hlooked
    exact hl t ht (occurrenceId_inj heq).1.symm
  · have hnone := hidled.launches
    omega

/-- **The condition is needed.** A pass may stand still before it comes to a schedule that is not
on the page, or behind one that can throw. -/
lemma reached_of_considered (hlaunches : 0 < cfg.maxPendingLaunches)
    (hids : (rows.map ScheduleDefinition.id).Nodup) (hs : s ∈ rows)
    (h : Considered cfg rows now s due) : PassReaches cfg rows now s := by
  by_contra hnot
  by_cases hlimit : cfg.maxPendingLaunches < 10000
  swap
  · refine not_considered (l := []) (i := "") (o := "") hlaunches (forall_mem_nil _)
      (idles_processDue fun page hpage => ?_) h
    rw [list, if_pos (by omega)] at hpage
    cases hpage
  have hsame : ∀ x ∈ rows.take (cfg.maxPendingLaunches + 1), ∀ y ∈ rows, x.id = y.id → x = y :=
    fun x hx y hy => inj_on_of_nodup_map hids (mem_of_mem_take hx) hy
  by_cases hon : s ∈ rows.take (cfg.maxPendingLaunches + 1)
  · obtain ⟨before, after, hpage⟩ := append_of_mem hon
    obtain ⟨t, ht, d, hdue, hthrows⟩ :
        ∃ t ∈ before, ∃ d, t.Due now d ∧ t.Throws cfg now d := by
      by_contra hnone
      exact hnot ⟨hlimit, before, after, hpage, fun t ht d hdue hthrows =>
        hnone ⟨t, ht, d, hdue, hthrows⟩⟩
    obtain ⟨done, rest, rfl⟩ := append_of_mem ht
    have hnodup : (rows.take (cfg.maxPendingLaunches + 1)).Nodup :=
      (Nodup.of_map _ hids).sublist (take_sublist _ _)
    rw [hpage] at hsame hnodup
    have htrows : t ∈ rows := mem_of_mem_take (hpage ▸ mem_append_left _ ht)
    refine not_considered (l := done ++ [t]) (i := t.id)
      (o := occurrenceId t.id d) hlaunches (fun x hx heq => ?_)
      (idles_processDue fun page hlist => ?_) h
    · cases hsame x (by grind) s hs heq
      grind
    · rw [list_eq_ok hlist, hpage, append_assoc, cons_append]
      refine idles_processSchedules (l := done ++ [t]) _ hlaunches
        (fun x hx => mem_append_left _ hx) (fun x hx due' heq => ?_) (.init _) fun g' h' => ?_
      · cases hsame x (by grind) t htrows (occurrenceId_inj heq).1
        grind
      exact fails_processSchedules hlaunches hdue hthrows (by simp) h'
  · refine not_considered (l := rows.take (cfg.maxPendingLaunches + 1)) (i := "")
      (o := "") hlaunches (fun x hx heq => ?_) (idles_processDue fun page hlist => ?_) h
    · exact hon (hsame x hx s hs heq ▸ hx)
    · rw [list_eq_ok hlist, ← append_nil (rows.take _)]
      exact idles_processSchedules [] hlaunches (fun _ hx => hx)
        (fun x _ due' => occurrenceId_ne_empty _ _) (.init _) fun _ h' => by
          rw [append_nil]
          exact h'

end Pass

/-! ## The timer -/

/-- Calls of `arm`: those of the scheduler, a page of the occurrences, and the timer. -/
inductive ArmReq where
  | sched (q : SchedReq)
  | listOccurrences (limit : Nat)
  | cancelTimer
  | expiresAfter (milliseconds : Nat)

def ArmReq.Resp : ArmReq → Type
  | .sched q => q.Resp
  | .listOccurrences _ => Except Error (List ScheduleOccurrence)
  | .cancelTimer | .expiresAfter _ => Unit

/-- The signature of the calls of `arm`. -/
def armSig : Sig := ⟨ArmReq, ArmReq.Resp⟩

/-- Code of `arm`. -/
abbrev ArmOp := Code armSig Error Unit

def armQuery (q : ArmReq) : ArmOp q.Resp := Code.call (S := armSig) q

def ArmOp.ofSched {α : Type} (x : SchedOp Unit α) : ArmOp α := fun v =>
  (x v).expand (S := armSig) fun q => .req (S := armSig) (.sched q)

def ScheduleDefinition.Waiting (s : ScheduleDefinition) : Prop :=
  s.deleted = false ∧ s.enabled ∧ s.nextDueAt.isSome

def earlier (t : Option WallTime) (s : ScheduleDefinition) : Option WallTime :=
  if s.deleted ∨ s.enabled = false then t
  else match s.nextDueAt, t with
    | none, t => t
    | some due, none => some (Stamp.instant due)
    | some due, some t => if Stamp.instant due < t then some (Stamp.instant due) else some t

/-- `arm`. -/
def arm : ArmOp Unit := do
  ArmOp.ofSched (replayPendingDeliveries cfg)
  let schedules ← Code.ofExcept (← armQuery (.sched (.listSchedules (cfg.maxPendingLaunches + 1))))
  let deliveries ← Code.ofExcept (← armQuery (.sched (.listDeliveries cfg.maxEventDeliveries)))
  let occurrences ← Code.ofExcept (← armQuery (.listOccurrences cfg.maxPendingLaunches))
  if deliveries.any (fun d => d.status = .pending) ∨ occurrences.any (fun o => o.status = .pending) then
    armQuery (.expiresAfter 1000)
  else match schedules.foldl earlier none with
    | none => armQuery .cancelTimer
    | some earliest =>
      let now : WallTime ← armQuery (.sched .now)
      if earliest ≤ now then armQuery (.expiresAfter 1)
      else
        let now : WallTime ← armQuery (.sched .now)
        armQuery (.expiresAfter (max ((earliest - now) / 1000000) 1))

def ArmServed (rows : List ScheduleDefinition) : (q : ArmReq) → q.Resp → Prop
  | .sched (.listSchedules limit), r => r = list rows limit
  | _, _ => True

section Arm

variable {cfg : SchedConfig} {rows : List ScheduleDefinition} {s : ScheduleDefinition}
  {t : Option WallTime}

lemma isSome_earlier (h : t.isSome ∨ s.Waiting) :
    (earlier t s).isSome := by
  unfold earlier
  split
  · rename_i hoff
    refine h.resolve_right fun hwaiting => ?_
    rcases hoff with hdeleted | henabled
    · exact nomatch hwaiting.1.symm.trans hdeleted
    · exact nomatch hwaiting.2.1.symm.trans henabled
  split
  · rename_i hnone
    refine h.resolve_right fun hwaiting => ?_
    have hdue := hwaiting.2.2
    rw [hnone] at hdue
    cases hdue
  · rfl
  · split <;> rfl

/-- **A time that is set is found.** -/
lemma isSome_earliest (l : List ScheduleDefinition)
    (h : t.isSome ∨ ∃ s ∈ l, s.Waiting) : (l.foldl earlier t).isSome := by
  induction l generalizing t with
  | nil =>
    rcases h with h | ⟨s, hs, -⟩
    · exact h
    · cases hs
  | cons s rest ih =>
    refine ih ?_
    rcases h with h | ⟨x, hx, hwaiting⟩
    · exact .inl (isSome_earlier (.inl h))
    rcases mem_cons.mp hx with rfl | hx
    · exact .inl (isSome_earlier (.inr hwaiting))
    · exact .inr ⟨x, hx, hwaiting⟩

/-- The observer of `arm` that does not permit the timer to be cancelled. -/
abbrev armWatch (rows : List ScheduleDefinition) : Watch armSig Unit :=
  Watch.noting (fun _ _ _ => ()) (fun _ => ArmServed rows) fun _ q => q ≠ .cancelTimer

lemma sat_ofSched {α : Type} (p : Prog schedSig α) :
    (armWatch rows).Sat (p.expand (S := armSig) fun q => .req (S := armSig) (.sched q))
      (fun _ _ => True) () := by
  induction p with
  | ret a => trivial
  | call q k ih =>
    exact ⟨ArmReq.noConfusion, fun r _ _ => ih r⟩

/-- The page shows a schedule with a time to come; a page that is too large for the storage is
refused before the timer is touched. -/
def TimerNeeded (cfg : SchedConfig) (rows : List ScheduleDefinition) : Prop :=
  10000 ≤ cfg.maxPendingLaunches ∨ ∃ s ∈ rows.take (cfg.maxPendingLaunches + 1), s.Waiting

/-- No history of `arm` cancels the timer. -/
def TimerKept (cfg : SchedConfig) (rows : List ScheduleDefinition) : Prop :=
  ∀ es : List ((q : ArmReq) × q.Resp), ((arm cfg).prog ()).Makes es →
    (∀ e ∈ es, ArmServed rows e.1 e.2) → ∀ e ∈ es, e.1 ≠ .cancelTimer

/-- **`arm` keeps the timer** while a schedule on the page has a time to come. -/
lemma keeps_timer (h : TimerNeeded cfg rows) : (armWatch rows).Safe (arm cfg) () () := by
  have hask : ∀ (q : ArmReq), q ≠ .cancelTimer →
      (armWatch rows).Safe (armQuery q) () () := fun q hq =>
    of_call ⟨hq, fun _ _ _ => trivial⟩
  refine of_bind (Watch.Sat.mono (sat_ofSched _) ?_)
  rintro ⟨_ | _, _⟩ _ -
  · trivial
  refine of_bind (of_call ⟨ArmReq.noConfusion, ?_⟩)
  rintro page _ ⟨hlist, -⟩
  cases page with
  | error e => trivial
  | ok l =>
  have hlist : list rows (cfg.maxPendingLaunches + 1) = .ok l := hlist.symm
  have hl : ∃ s ∈ l, s.Waiting := by
    rw [list_eq_ok hlist]
    refine h.resolve_left fun hlarge => ?_
    rw [list, if_pos (by omega)] at hlist
    cases hlist
  refine of_bind (of_ok ?_)
  refine of_bind (of_call ⟨ArmReq.noConfusion, fun r _ _ => ?_⟩)
  cases r with
  | error e => trivial
  | ok deliveries =>
  refine of_bind (of_ok ?_)
  refine of_bind (of_call ⟨ArmReq.noConfusion, fun r _ _ => ?_⟩)
  cases r with
  | error e => trivial
  | ok occurrences =>
  refine of_bind (of_ok ?_)
  refine of_if (hask _ ArmReq.noConfusion) ?_
  obtain ⟨earliest, hearliest⟩ := Option.isSome_iff_exists.mp (isSome_earliest l (t := none) (.inr hl))
  rw [hearliest]
  refine of_bind (of_call ⟨ArmReq.noConfusion, fun (now : WallTime) _ _ => ?_⟩)
  refine of_if (hask _ ArmReq.noConfusion) ?_
  refine of_bind (of_call ⟨ArmReq.noConfusion, fun now _ _ => ?_⟩)
  exact hask _ ArmReq.noConfusion

lemma earlier_none (h : ¬s.Waiting) : earlier none s = none := by
  refine ite_eq_left_iff.mpr fun hlive => ?_
  cases hdue : s.nextDueAt with
  | none => rfl
  | some due =>
    simp only [not_or, Bool.not_eq_true, Bool.not_eq_false] at hlive
    exact absurd ⟨hlive.1, hlive.2, by rw [hdue]; rfl⟩ h

/-- No time is found where none is set. -/
lemma earliest_none {l : List ScheduleDefinition} (h : ∀ s ∈ l, ¬s.Waiting) :
    l.foldl earlier none = none := by
  induction l with
  | nil => rfl
  | cons s rest ih =>
    rw [foldl_cons, earlier_none (h s mem_cons_self)]
    exact ih fun t ht => h t (mem_cons_of_mem _ ht)

/-- A history of `arm` with no deliveries and no occurrences, which cancels the timer. -/
def idleArming (cfg : SchedConfig) (page : List ScheduleDefinition) :
    List ((q : ArmReq) × q.Resp) :=
  [⟨.sched (.listDeliveries cfg.maxEventDeliveries), (.ok [] : Except Error (List TriggerDelivery))⟩,
    ⟨.sched (.listSchedules (cfg.maxPendingLaunches + 1)),
      (.ok page : Except Error (List ScheduleDefinition))⟩,
    ⟨.sched (.listDeliveries cfg.maxEventDeliveries), (.ok [] : Except Error (List TriggerDelivery))⟩,
    ⟨.listOccurrences cfg.maxPendingLaunches, (.ok [] : Except Error (List ScheduleOccurrence))⟩,
    ⟨.cancelTimer, ()⟩]

lemma makes_idleArming {page : List ScheduleDefinition} (h : page.foldl earlier none = none) :
    ((arm cfg).prog ()).Makes (idleArming cfg page) := by
  refine .cons (.cons (.cons (.cons ?_)))
  simp only [any_nil, Bool.false_eq_true, h]
  exact .cons (.nil _)

lemma timerKept_iff : TimerKept cfg rows ↔ TimerNeeded cfg rows := by
  refine ⟨fun h => ?_, fun h es hes hserved e he => ?_⟩
  · by_contra hnot
    rw [TimerNeeded, not_or, not_exists] at hnot
    have hpage : list rows (cfg.maxPendingLaunches + 1) =
        .ok (rows.take (cfg.maxPendingLaunches + 1)) := if_neg (by omega)
    have hnone : (rows.take (cfg.maxPendingLaunches + 1)).foldl earlier none = none :=
      earliest_none fun s hs hwaiting => hnot.2 s ⟨hs, hwaiting⟩
    refine h _ (makes_idleArming hnone) ?_ ⟨.cancelTimer, ()⟩ (by simp [idleArming]) rfl
    simp only [idleArming, mem_cons, not_mem_nil, or_false]
    rintro e (rfl | rfl | rfl | rfl | rfl)
    · trivial
    · exact hpage.symm
    · trivial
    · trivial
    · trivial
  · exact ((Throughout.of_sat (keeps_timer h) hes (Throughout.of_forall_mem hserved)).of_mem
      he).choose_spec

end Arm

/-- **Which schedules are considered.** While the storage answers, every pass looks up the
occurrence of a schedule that is due, or makes as many launches as it may, exactly if the page can
be read and shows the schedule before any that can throw. And `arm` never cancels the timer exactly
if the page cannot be read or shows a schedule with a time to come. -/
theorem due_schedules_considered {cfg : SchedConfig} (hlaunches : 0 < cfg.maxPendingLaunches)
    {rows : List ScheduleDefinition} (hids : (rows.map ScheduleDefinition.id).Nodup) :
    (∀ now, ∀ s ∈ rows, ∀ due, s.Due now due →
      (Considered cfg rows now s due ↔ PassReaches cfg rows now s)) ∧
    (TimerKept cfg rows ↔ TimerNeeded cfg rows) :=
  ⟨fun _ _ hs _ hdue => ⟨Pass.reached_of_considered hlaunches hids hs,
    fun h => Pass.considered_of_reached h hdue⟩, timerKept_iff⟩

def sampleDisabled (id : String) : ScheduleDefinition :=
  { sampleInterval with id, enabled := false }

/-- A schedule that has no next time: there is no 30th of February. It is launched when it is due,
and the error of the launch is caught. -/
def sampleNever : ScheduleDefinition where
  id := "never"
  type := .cron
  cron := "0 0 30 2 *"
  nextDueAt := some 0
  misfirePolicy := .runOnce

/-- The schedule behind a disabled one and one without a next time is reached, and the timer is
kept for it. -/
theorem due_schedules_considered_sample :
    Considered { maxPendingLaunches := 2 } [sampleDisabled "a", sampleNever, sampleInterval] 0
      sampleInterval 0 ∧
    TimerKept { maxPendingLaunches := 2 } [sampleDisabled "a", sampleNever, sampleInterval] := by
  have h := @due_schedules_considered { maxPendingLaunches := 2 } (by decide)
    [sampleDisabled "a", sampleNever, sampleInterval] (by decide)
  refine ⟨(h.1 0 sampleInterval (by simp) 0 ⟨rfl, .inl rfl, rfl, .inr (by decide)⟩).mpr ?_,
    h.2.mpr (.inr ⟨sampleInterval, by simp, rfl, rfl, rfl⟩)⟩
  refine ⟨by decide, [sampleDisabled "a", sampleNever], [], rfl, fun t ht due hdue hthrows => ?_⟩
  simp only [mem_cons, not_mem_nil, or_false] at ht
  rcases ht with rfl | rfl
  · exact absurd hdue.live (by decide)
  · rw [ScheduleDefinition.Throws, if_neg fun h => nomatch h.2] at hthrows
    exact hthrows.2.1 rfl

/-- The calls of `arm`. -/
def SchedWorld.armPerform (w : SchedWorld) : (q : ArmReq) → q.Resp × SchedWorld
  | .sched q => w.perform cfg {} q
  | .listOccurrences limit => w.read {} (list w.db.occurrences.rows limit)
  | .cancelTimer | .expiresAfter _ => ((), w)

def ArmReq.cancels : ArmReq → Bool
  | .cancelTimer => true
  | _ => false

lemma ArmReq.eq_of_cancels {q : ArmReq} (h : q.cancels) : q = .cancelTimer := by
  cases q with
  | cancelTimer => rfl
  | sched _ | listOccurrences _ | expiresAfter _ => cases h

/-- One launch is allowed in a pass, and two schedules that are disabled come before one that is
due. A pass does not look at it, and `arm` cancels the timer. -/
theorem page_hides_schedule :
    ∃ s x es r es', Machine.Reach (step { maxPendingLaunches := 1 }) Machine.always
        init s ∧ s.section_ = none ∧ s.world.Stored x ∧ x.enabled = true ∧ x.Due 0 0 ∧
      ((processDue { maxPendingLaunches := 1 }).prog 0).history
        (fun q w => some (w.perform { maxPendingLaunches := 1 } {} q)) 9 s.world = some (es, r) ∧
      SchedHistory.view es = {} ∧ x.Waiting ∧
      ((arm { maxPendingLaunches := 1 }).prog ()).trace
        (fun q w => some (w.armPerform { maxPendingLaunches := 1 } q)) 9 s.world = es' ∧
      ∃ e ∈ es', e.1 = .cancelTimer := by
  obtain ⟨s, hs, hv⟩ := Machine.exists_reach (M := step { maxPendingLaunches := 1 })
    (s := init) (C := Machine.always)
    (f := fun s => (s.section_.isNone && (((arm { maxPendingLaunches := 1 }).prog ()).trace
        (fun q w => some (w.armPerform { maxPendingLaunches := 1 } q)) 9 s.world).any fun e =>
          ArmReq.cancels e.1,
      (s.world.db.schedules.get "i").map fun x => (x.id, decide (x.deleted = false ∧ x.enabled ∧
        x.queued = false ∧ x.nextDueAt = some 0)),
      (((processDue { maxPendingLaunches := 1 }).prog 0).history
        (fun q w => some (w.perform { maxPendingLaunches := 1 } {} q)) 9 s.world).map
          fun x => ((SchedHistory.view x.1).looked, (SchedHistory.view x.1).launches)))
    (v := (true, some ("i", true), some ([], 0)))
    (enterCalls (.createSchedule (sampleDisabled "a")) 4 ++
      enterCalls (.createSchedule (sampleDisabled "b")) 4 ++
      enterCalls (.createSchedule sampleInterval) 4) (by decide +kernel)
  simp only [Prod.mk.injEq, Bool.and_eq_true, Option.isNone_iff_eq_none, Option.map_eq_some_iff,
    decide_eq_true_eq, List.any_eq_true] at hv
  obtain ⟨⟨hidle, e, he, hcancels⟩, ⟨x, hx, hid, hkept, henabled, hqueued, hnext⟩, ⟨es, r⟩, hes,
    hlooked, hlaunches⟩ := hv
  rw [← hid] at hx
  have heffective : x.effectiveDue = some 0 := by
    rw [ScheduleDefinition.effectiveDue, hqueued]
    exact hnext
  have hview : SchedHistory.view es = {} := by
    cases hview : SchedHistory.view es with
    | mk looked launches =>
      rw [hview] at hlooked hlaunches
      rw [show looked = [] from hlooked, show launches = 0 from hlaunches]
  exact ⟨s, x, es, r, _, hs, hidle, hx, henabled, ⟨hkept, .inl henabled, heffective, .inr (by decide)⟩,
    hes, hview, ⟨hkept, henabled, by rw [hnext]; rfl⟩, rfl, e, he,
    ArmReq.eq_of_cancels hcancels⟩

end Laso
