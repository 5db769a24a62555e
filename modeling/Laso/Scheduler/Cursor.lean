import Laso.Scheduler.Launches

/-!
# Schedules that get stuck

The occurrence a pass looks at is named by the effective due time of the schedule. When the
occurrence is disposed of its record becomes final, and the time has to move on in the same
transaction: a pass does nothing about a final occurrence, so a schedule whose time names one is
**wedged** for good. That happens when a launch is refused for another reason than capacity
(`wedged_by_refusal`), when an interrupted launch is recovered, when the record of a launch is
refused, and when a queued occurrence is skipped as a misfire.

`CursorOk` is the invariant: all final occurrences of a recurring schedule are before its effective
due time. It holds in every run that avoids the situations above (`not_wedged`).
-/

namespace Laso

open Table SchedWorld Scheduler Option

namespace SchedWorld

variable (w : SchedWorld)

/-- All final occurrences of the schedule are before its effective due time. -/
def Ahead (s : ScheduleDefinition) : Prop :=
  ∀ due, s.effectiveDue = some due → ∀ t x,
    w.db.occurrences.get (occurrenceId s.id t) = some x → x.status.final → t < due

/-- The schedule is to be run again and again, but its effective due time names an occurrence that
nothing more is done about. -/
def Wedged (s : ScheduleDefinition) : Prop :=
  s.enabled ∧ s.deleted = false ∧ s.recurring ∧ ∃ due x,
    s.effectiveDue = some due ∧ w.db.occurrences.get (occurrenceId s.id due) = some x ∧
      x.status.final

/-- The next pass will take the occurrence for an interrupted launch. -/
def Recoverable (x : String) : Prop :=
  ∃ o, w.db.occurrences.get x = some o ∧ o.status = .claimed ∧
    ∃ r ∈ w.db.runs.take 10000, r.scheduleOccurrenceId = x

def Unrecoverable : Prop := ∀ x, x ≠ "" → ¬w.Recoverable x

structure CursorOk (w : SchedWorld) : Prop where
  named : ∀ s, w.Stored s → s.id ≠ ""
  known : ∀ r ∈ w.db.runs, r.scheduleOccurrenceId ≠ "" →
    ∃ o, w.db.occurrences.get r.scheduleOccurrenceId = some o
  ahead : ∀ s, w.Stored s → s.recurring → w.Ahead s

lemma CursorOk.unwedged {w : SchedWorld} (h : w.CursorOk) {s : ScheduleDefinition}
    (hs : w.Stored s) : ¬w.Wedged s := by
  rintro ⟨-, -, hrec, due, x, hdue, hx, hfinal⟩
  exact lt_irrefl due (h.ahead s hs hrec due hdue due x hx hfinal)

end SchedWorld

variable (cfg : SchedConfig) (w : SchedWorld)

/-- The steps that keep the time of recurring schedules moving. A schedule that the user stores, or
that gets its time from the clock, is ahead of its final occurrences. A pass looks at no queued
occurrence that it would skip as a misfire. A launch is refused for lack of capacity only, and if it
is not there is a next occurrence; its record is refused for lack of capacity only, and what is
written after that only if no launch is recoverable. -/
def Advancing (q : SchedReq) (o : SchedOracle) : Prop :=
  match q with
  | .now => ∀ s, w.Stored s → s.recurring → s.nextDueAt = none → s.queued = false → ∀ t x,
      w.db.occurrences.get (occurrenceId s.id t) = some x → x.status.final →
        t ≤ WallTime.stamp o.time
  | .getOccurrence id => ∀ s due, w.Stored s → s.recurring → s.queued →
      s.misfirePolicy = .skip → s.effectiveDue = some due → occurrenceId s.id due = id →
        isLate due w.clock = false
  | .dispatch q => ∀ s due, w.Stored s → s.recurring → s.id = q.scheduleId →
      q.dueAt = some due → match o.refusal with
        | some e => e.code = .capacity
        | none => ∃ next, nextScheduleDue cfg.dump s due = .ok next
  | .commit [.schedule s, .occurrence x, .event _] => ∀ e, o.fault = some e → s.recurring →
      x.status = .started → e.code = .capacity
  | .commit [.occurrence _] => ∀ e, o.fault = some e → w.Unrecoverable
  | .commit [.schedule s, .event e] =>
      e.type = "schedule.created" ∨ e.type = "schedule.updated" → s.recurring → w.Ahead s
  | _ => True

/-! ## The next time -/

section Next

variable {dump : Json → Nat} {now : WallTime} {due : Stamp} {s s' : ScheduleDefinition}

/-- What an occurrence changes of a schedule: the time moves on, and nothing is queued or let go. -/
structure MovesOn (due : Stamp) (s s' : ScheduleDefinition) : Prop where
  id : s'.id = s.id
  type : s'.type = s.type
  queued : s'.queued = s.queued
  queuedDueAt : s'.queuedDueAt = s.queuedDueAt
  overlapPolicy : s'.overlapPolicy = s.overlapPolicy
  later : s.recurring → ∃ n, s'.nextDueAt = some n ∧ due < n

lemma MovesOn.of_advance (h : s.advance dump due = .ok s') : MovesOn due s s' := by
  unfold ScheduleDefinition.advance at h
  split at h
  · rename_i htype
    cases h
    exact ⟨rfl, rfl, rfl, rfl, rfl, fun hrec => by simp [ScheduleDefinition.recurring, htype] at hrec⟩
  obtain ⟨next, hnext, h⟩ := bind_eq_ok.mp h
  cases h
  exact ⟨rfl, rfl, rfl, rfl, rfl, fun hrec => isSome_of_nextScheduleDue hnext hrec⟩

lemma MovesOn.of_skipMissed {n : Nat} {t : ScheduleDefinition} (ht : MovesOn due s t)
    (h : skipMissed dump now n t = .ok s') : MovesOn due s s' := by
  induction n generalizing t with
  | zero =>
    cases h
    exact ht
  | succ n ih =>
    unfold skipMissed at h
    split at h
    · cases h
      exact ht
    rename_i cur hcur
    split at h
    · obtain ⟨next, hnext, h⟩ := bind_eq_ok.mp h
      refine ih (t := { t with missedCount := t.missedCount + 1, nextDueAt := next })
        ⟨ht.id, ht.type, ht.queued, ht.queuedDueAt, ht.overlapPolicy, fun hrec => ?_⟩ h
      have hrec' : t.recurring := by
        rw [ScheduleDefinition.recurring, ht.type]
        exact hrec
      obtain ⟨m, hm, hdue⟩ := ht.later hrec
      cases hcur.symm.trans hm
      obtain ⟨k, hk, hlt⟩ := isSome_of_nextScheduleDue hnext hrec'
      exact ⟨k, hk, hdue.trans hlt⟩
    · cases h
      exact ht

lemma MovesOn.of_missed (h : s.missed dump now due = .ok s') : MovesOn due s s' := by
  obtain ⟨t, ht, h⟩ := bind_eq_ok.mp h
  have hmoves := MovesOn.of_advance ht
  have hmoves' : MovesOn due s t :=
    ⟨hmoves.id, hmoves.type, hmoves.queued, hmoves.queuedDueAt, hmoves.overlapPolicy, hmoves.later⟩
  split at h
  · cases h
    exact hmoves'
  · exact hmoves'.of_skipMissed h

end Next

/-! ## What is written -/

section Writes

variable {now : WallTime} {s s' : ScheduleDefinition} {due : Stamp} {w w' : SchedWorld}

lemma SchedWorld.get_put_occurrence {x y : ScheduleOccurrence} {a : String} {t : Stamp}
    (hx : x.id = occurrenceId s.id due)
    (hy : (w.db.occurrences.put x).get (occurrenceId a t) = some y) :
    a = s.id ∧ t = due ∧ y = x ∨ w.db.occurrences.get (occurrenceId a t) = some y := by
  rw [get_put] at hy
  split at hy
  · rename_i hkey
    cases hy
    obtain ⟨ha, ht⟩ := occurrenceId_inj (hx.symm.trans hkey)
    exact .inl ⟨ha.symm, ht.symm, rfl⟩
  · exact .inr hy

variable {x : ScheduleOccurrence}

/-- The record of an occurrence is written, with the schedule or without. The new effective due time
is later, or the record is not final. -/
lemma SchedWorld.CursorOk.written (h : w.CursorOk) (hw : Handles now s due w)
    (hx : x.id = occurrenceId s.id due) (hid : s'.id = s.id) (htype : s'.type = s.type)
    (hnext : s.recurring → ∀ d, s'.effectiveDue = some d →
      due < d ∨ due ≤ d ∧ x.status.final = false)
    (hs : w'.db.schedules = w.db.schedules.put s') (ho : w'.db.occurrences = w.db.occurrences.put x)
    (hr : w'.db.runs = w.db.runs) : w'.CursorOk where
  named := named_put h.named hs (hid ▸ hw.named)
  known := fun r hrun hocc => by
    rw [hr] at hrun
    obtain ⟨o, hold⟩ := h.known r hrun hocc
    rw [ho, get_put]
    split
    · exact ⟨x, rfl⟩
    · exact ⟨o, hold⟩
  ahead := fun s₂ hs₂ hrec d hd t y hy hfinal => by
    rw [ho] at hy
    rcases hs₂.of_put hs with rfl | ⟨hold, hne⟩
    · have hrec' : s.recurring := by
        rw [ScheduleDefinition.recurring, ← htype]
        exact hrec
      have hlater := hnext hrec' d hd
      rcases get_put_occurrence hx hy with ⟨-, rfl, rfl⟩ | hy
      · exact hlater.resolve_right fun hnot =>
          Bool.false_ne_true (hnot.2.symm.trans hfinal)
      rw [hid] at hy
      have hlt := h.ahead s hw.stored hrec' due hw.effective t y hy hfinal
      exact hlater.elim hlt.trans fun hle => hlt.trans_le hle.1
    · rcases get_put_occurrence hx hy with ⟨hsame, -, -⟩ | hy
      · exact absurd (hsame.trans hid.symm) hne
      · exact h.ahead s₂ hold hrec d hd t y hy hfinal

lemma SchedWorld.CursorOk.putOccurrence (h : w.CursorOk) (hw : Handles now s due w)
    (hx : x.id = occurrenceId s.id due) (hnext : s.recurring → x.status.final = false) :
    (w.putOccurrence x).CursorOk := by
  refine h.written hw hx rfl rfl (fun hrec d hd => ?_) (put_of_get hw.stored).symm rfl rfl
  cases hw.effective.symm.trans hd
  exact .inr ⟨le_rfl, hnext hrec⟩

lemma SchedWorld.Recoverable.of_put {y : String}
    (ho : w'.db.occurrences = w.db.occurrences.put x) (hr : w'.db.runs = w.db.runs)
    (h : w'.Recoverable y) : y = x.id ∧ x.status = .claimed ∧
      (∃ r ∈ w.db.runs.take 10000, r.scheduleOccurrenceId = y) ∨ w.Recoverable y := by
  obtain ⟨o, hget, hclaimed, hrun⟩ := h
  rw [hr] at hrun
  rw [ho, get_put] at hget
  split at hget
  · rename_i hkey
    cases hget
    exact .inl ⟨hkey.symm, hclaimed, hrun⟩
  · exact .inr ⟨o, hget, hclaimed, hrun⟩

lemma SchedWorld.Recoverable.apart {y : String} (hR : w.Apart w') (hy : y ≠ "")
    (h : w'.Recoverable y) : w.Recoverable y := by
  obtain ⟨o, hget, hclaimed, r, hr, hocc⟩ := h
  rw [hR.occurrences] at hget
  obtain ⟨r₀, hr₀, hon⟩ := hR.runs.of_mem_take_of_owned hr (.inr (hocc ▸ hy))
  exact ⟨o, hget, hclaimed, r₀, hr₀, hon.scheduleOccurrenceId.symm.trans hocc⟩

lemma SchedWorld.CursorOk.apart (h : w.CursorOk) (hR : w.Apart w') : w'.CursorOk where
  named := fun s hs => h.named s (by rw [Stored, ← hR.schedules]; exact hs)
  known := fun r hr hocc => by
    obtain ⟨r₀, hr₀, hon⟩ := hR.runs.of_mem_of_owned hr (.inr hocc)
    rw [hR.occurrences, hon.scheduleOccurrenceId]
    exact h.known r₀ hr₀ (hon.scheduleOccurrenceId ▸ hocc)
  ahead := fun s hs hrec => by
    have hs' : w.Stored s := by
      rw [Stored, ← hR.schedules]
      exact hs
    unfold Ahead
    rw [hR.occurrences]
    exact h.ahead s hs' hrec

end Writes

/-! ## The invariant in each phase -/

def SchedWorld.Open (x : String) : Prop :=
  ∃ o, w.db.occurrences.get x = some o ∧ o.status.final = false

def Phase.Cursor (s : ScheduleDefinition) (due : Stamp) (w : SchedWorld) :
    Phase → Prop
  | .seen => ¬w.Recoverable (occurrenceId s.id due)
  | .ready | .clear => ¬w.Recoverable (occurrenceId s.id due) ∧ w.Open (occurrenceId s.id due)
  | .opened _ => s.recurring → ∃ next, nextScheduleDue cfg.dump s due = .ok next
  | .closing e => s.recurring → e.code = .capacity

/-- While an occurrence is handled, its schedule is as it was read, and no other occurrence is
recoverable. -/
structure Cursoring (cfg : SchedConfig) (now : WallTime) (s : ScheduleDefinition) (due : Stamp)
    (ph : Phase) (w : SchedWorld) : Prop where
  ok : w.CursorOk
  handles : Handles now s due w
  timely : s.recurring → s.queued → s.misfirePolicy = .skip → isLate due now = false
  others : ∀ x, x ≠ "" → x ≠ occurrenceId s.id due → ¬w.Recoverable x
  here : ph.Cursor cfg s due w

namespace Cursoring

variable {cfg : SchedConfig} {now : WallTime} {s s' : ScheduleDefinition} {due : Stamp} {ph : Phase}
  {w w' : SchedWorld}

section

variable (h : Cursoring cfg now s due ph w)
include h

lemma apart (hR : w.Apart w') : Cursoring cfg now s due ph w' where
  ok := h.ok.apart hR
  handles := h.handles.apart hR
  timely := h.timely
  others x hx hne hrec := h.others x hx hne (hrec.apart hR hx)
  here := by
    have hx := occurrenceId_ne_empty s.id due
    have hhere := h.here
    have hopen : w.Open (occurrenceId s.id due) → w'.Open (occurrenceId s.id due) := fun ho => by
      unfold SchedWorld.Open
      rw [hR.occurrences]
      exact ho
    cases ph with
    | seen => exact fun hrec => hhere (hrec.apart hR hx)
    | ready | clear => exact ⟨fun hrec => hhere.1 (hrec.apart hR hx), hopen hhere.2⟩
    | opened _ => exact hhere
    | closing e => exact hhere

lemma idle (hx : ¬w.Recoverable (occurrenceId s.id due)) : w.CursorOk ∧ w.Unrecoverable := by
  refine ⟨h.ok, fun x hne hrec => ?_⟩
  by_cases heq : x = occurrenceId s.id due
  · exact hx (heq ▸ hrec)
  · exact h.others x hne heq hrec

variable {x : ScheduleOccurrence}

/-- A record that is not `claimed` leaves nothing to recover. -/
lemma unrecoverable
    (hx : x.id = occurrenceId s.id due) (hclaimed : x.status ≠ .claimed)
    (ho : w'.db.occurrences = w.db.occurrences.put x) (hr : w'.db.runs = w.db.runs) :
    w'.Unrecoverable := fun y hy hrec => by
  rcases hrec.of_put ho hr with ⟨-, hc, -⟩ | hold
  · exact hclaimed hc
  by_cases heq : y = occurrenceId s.id due
  · obtain ⟨o, hget, hc, -⟩ := hrec
    rw [ho, heq, ← hx] at hget
    cases (get_put_self _ x).symm.trans hget
    exact hclaimed hc
  · exact h.others y hy heq hold

lemma write (hid : s'.id = s.id) (htype : s'.type = s.type)
    {status : LaunchStatus} (hclaimed : status ≠ .claimed) {runId : String} {e : SourceEvent}
    (hnext : s.recurring → ∀ d, s'.effectiveDue = some d →
      due < d ∨ due ≤ d ∧ status.final = false) :
    (w.write [.schedule s', .occurrence (recordValue status s' due runId), .event e]).CursorOk ∧
      (w.write [.schedule s', .occurrence (recordValue status s' due runId),
        .event e]).Unrecoverable := by
  have hx : (recordValue status s' due runId).id = occurrenceId s.id due := by
    rw [← hid]
    rfl
  exact ⟨h.ok.written h.handles hx hid htype hnext rfl rfl rfl, h.unrecoverable hx hclaimed rfl rfl⟩

lemma putOccurrence (hx : x.id = occurrenceId s.id due) (hclaimed : x.status ≠ .claimed)
    (hnext : s.recurring → x.status.final = false) :
    (w.putOccurrence x).CursorOk ∧ (w.putOccurrence x).Unrecoverable :=
  ⟨h.ok.putOccurrence h.handles hx hnext, h.unrecoverable hx hclaimed rfl rfl⟩

end

lemma later (hq : s'.queued = false) {t : ScheduleDefinition} (hmoves : MovesOn due t s')
    (hrec : t.recurring) (d : Stamp) (hd : s'.effectiveDue = some d) : due < d := by
  obtain ⟨n, hn, hlt⟩ := hmoves.later hrec
  rw [ScheduleDefinition.effectiveDue, hq] at hd
  cases hn.symm.trans hd
  exact hlt

lemma claim (h : Cursoring cfg now s due .seen w)
    (hnone : w.db.occurrences.get (occurrenceId s.id due) = none) :
    Cursoring cfg now s due .ready (w.putOccurrence (recordValue .claimed s due)) := by
  have hput : (w.putOccurrence (recordValue .claimed s due)).db.occurrences =
      w.db.occurrences.put (recordValue .claimed s due) := rfl
  refine ⟨h.ok.putOccurrence h.handles rfl fun _ => rfl, { h.handles with }, h.timely,
    fun x hx hne hrec => ?_, fun hrec => ?_, _, get_put_self _ (recordValue .claimed s due), rfl⟩
  · rcases hrec.of_put hput rfl with ⟨hsame, -, -⟩ | hold
    · exact hne hsame
    · exact h.others x hx hne hold
  rcases hrec.of_put hput rfl with ⟨-, -, r, hr, hocc⟩ | hold
  · obtain ⟨o, ho⟩ := h.ok.known r (List.mem_of_mem_take hr) (hocc ▸ occurrenceId_ne_empty _ _)
    rw [hocc, hnone] at ho
    cases ho
  · exact h.here hold

lemma launched (h : Cursoring cfg now s due .clear w) (id : String)
    (hnext : s.recurring → ∃ next, nextScheduleDue cfg.dump s due = .ok next) :
    Cursoring cfg now s due (.opened id) (w.launched id (s.request due)) where
  ok := {
    named := h.ok.named
    known := fun r hr hocc => by
      rcases List.mem_append.mp hr with hr | hr
      · exact h.ok.known r hr hocc
      obtain ⟨o, ho, -⟩ := h.here.2
      rw [List.mem_singleton.mp hr]
      exact ⟨o, ho⟩
    ahead := h.ok.ahead }
  handles := { h.handles with }
  timely := h.timely
  others x hx hne := by
    rintro ⟨o, ho, hclaimed, r, hr, hocc⟩
    refine h.others x hx hne ⟨o, ho, hclaimed, r, ?_, hocc⟩
    have hr' : r ∈ (w.db.runs ++ [rowOf id (s.request due)]).take 10000 := hr
    rw [List.take_append] at hr'
    rcases List.mem_append.mp hr' with hr' | hr'
    · exact hr'
    have hnew := List.mem_singleton.mp (List.mem_of_mem_take hr')
    rw [hnew] at hocc
    exact absurd hocc.symm hne
  here := hnext

end Cursoring

lemma SchedWorld.CursorOk.edited {w w' : SchedWorld} (h : w.CursorOk) {s' : ScheduleDefinition}
    (hnamed : ∀ s, w'.Stored s → s.id ≠ "") (hs : w'.db.schedules = w.db.schedules.put s')
    (ho : w'.db.occurrences = w.db.occurrences) (hr : w'.db.runs = w.db.runs)
    (hahead : s'.recurring → w.Ahead s') : w'.CursorOk where
  named := hnamed
  known := by
    rw [ho, hr]
    exact h.known
  ahead := fun s hstored hrec => by
    unfold Ahead
    rw [ho]
    rcases hstored.of_put hs with rfl | ⟨hold, -⟩
    · exact hahead hrec
    · exact h.ahead s hold hrec

lemma Edit.cursorOk {cfg : SchedConfig} {w w' : SchedWorld} (he : Edit cfg (Advancing cfg) w w')
    (h : w.CursorOk) : w'.CursorOk := by
  have hnamed := he.named h.named
  cases he with
  | complete hs | enable hs =>
    have hahead := h.ahead _ hs
    exact h.edited hnamed rfl rfl rfl hahead
  | release hs hq =>
    refine h.edited hnamed rfl rfl rfl fun hrec due hdue => h.ahead _ hs hrec due ?_
    rw [ScheduleDefinition.effectiveDue, hq]
    exact hdue
  | write _ htype hc => exact h.edited hnamed rfl rfl rfl (hc htype)
  | renew hs _ htype =>
    refine h.edited hnamed rfl rfl rfl fun hrec => ?_
    simp [ScheduleDefinition.recurring, htype] at hrec
  | begun hs hnone hc hocc hsched hnext hcommit =>
  rename_i w₀ o _ s next e
  refine h.edited hnamed rfl rfl rfl fun hrec due hdue => ?_
  cases hq : s.queued with
  | true =>
    refine h.ahead _ hs hrec due ?_
    rw [ScheduleDefinition.effectiveDue, hq] at hdue ⊢
    exact hdue
  | false =>
  intro t x hx hfinal
  have hstored : w₀.Stored s := by
    rw [Stored, hsched]
    exact hs
  have hle := hc s hstored hrec hnone hq t x (by rw [hocc]; exact hx) hfinal
  obtain ⟨n, rfl, hlt⟩ := isSome_of_nextScheduleDue hnext hrec
  have hdue' : some n = some due := by
    rw [ScheduleDefinition.effectiveDue, hq] at hdue
    exact hdue
  cases hdue'
  exact lt_of_le_of_lt hle hlt

/-- The discipline that keeps schedules from getting stuck. -/
def cursorDiscipline : Discipline cfg (Advancing cfg) where
  idle w := w.CursorOk ∧ w.Unrecoverable
  busy now s due ph w := Cursoring cfg now s due ph w
  safe w := w.CursorOk
  safe_idle _ h := h.1
  safe_busy _ _ _ _ _ h := h.ok
  named _ s h := h.1.named s
  apart_idle _ _ h hR := ⟨h.1.apart hR, fun x hx hrec => h.2 x hx (hrec.apart hR hx)⟩
  apart_busy _ _ _ _ _ _ h hR := h.apart hR
  apart_safe _ _ h hR := h.apart hR
  tick w t h := ⟨⟨h.1.named, h.1.known, h.1.ahead⟩, h.2⟩
  edit w w' h he := by
    obtain ⟨hocc, hruns, -⟩ := he.same
    refine ⟨he.cursorOk h.1, fun x hx hrec => h.2 x hx ?_⟩
    unfold Recoverable at hrec ⊢
    rwa [hocc, hruns] at hrec
  move now s due ph w ph' w' h hm := by
    cases hm with
    | look hw hc =>
      refine ⟨h.1, hw, fun hrec hq hp => ?_, fun x hx _ => h.2 x hx,
        h.2 _ (occurrenceId_ne_empty _ _)⟩
      rw [← hw.clock]
      exact hc s due hw.stored hrec hq hp hw.effective rfl
    | claim hnone => exact h.claim hnone
    | retry hx hwait =>
      refine ⟨h.ok, h.handles, h.timely, h.others, h.here, _, hx, ?_⟩
      rcases hwait with hwait | hwait <;> simp [hwait, LaunchStatus.final]
    | lost hx hclaimed _ =>
      exact ⟨h.ok, h.handles, h.timely, h.others, h.here, _, hx, by simp [hclaimed, LaunchStatus.final]⟩
    | recover hx hclaimed hr hid => exact absurd ⟨_, hx, hclaimed, _, hr, hid⟩ h.here
    | abandon hph =>
      rcases hph with rfl | rfl
      · exact h.idle h.here
      · exact h.idle h.here.1
    | misfire hlate hp hs =>
      have hmoves := MovesOn.of_missed hs
      refine h.write hmoves.id hmoves.type (by decide) fun hrec d hd => .inl ?_
      -- A queued occurrence would be skipped without its schedule moving on.
      have hq : s.queued = false := by
        by_contra hq
        rw [h.timely hrec (by simpa using hq) hp] at hlate
        cases hlate
      exact Cursoring.later (hmoves.queued.trans hq) hmoves hrec d hd
    | skip hq _ hs =>
      have hmoves := MovesOn.of_advance hs
      exact h.write hmoves.id hmoves.type (by decide) fun hrec d hd =>
        .inl (Cursoring.later (hmoves.queued.trans hq) hmoves hrec d hd)
    | enqueue _ _ hs =>
      have hmoves := MovesOn.of_advance hs
      refine h.write hmoves.id hmoves.type (by decide) fun hrec d hd => .inr ⟨?_, rfl⟩
      rw [ScheduleDefinition.effectiveDue, hmoves.queued, hmoves.queuedDueAt] at hd
      cases hd
      exact le_rfl
    | decide _ => exact ⟨h.ok, h.handles, h.timely, h.others, h.here⟩
    | launch hc ho =>
      refine h.launched _ fun hrec => ?_
      have hnext := hc s due h.handles.stored hrec rfl rfl
      rwa [ho] at hnext
    | refuse hc he =>
      refine ⟨h.ok, h.handles, h.timely, h.others, fun hrec => ?_⟩
      have hcode := hc s due h.handles.stored hrec rfl rfl
      rwa [he] at hcode
    | record hs =>
      have hmoves := MovesOn.of_advance hs
      exact h.write hmoves.id hmoves.type (by decide) fun hrec d hd =>
        .inl (Cursoring.later hmoves.queued hmoves hrec d hd)
    | strand hs =>
      -- There is a next occurrence, so the schedule can move on.
      exfalso
      unfold ScheduleDefinition.advance at hs
      split at hs
      · cases hs
      rename_i htype
      have htype' : s.type ≠ .oneTime := htype
      obtain ⟨next, hnext⟩ := h.here (by simpa [ScheduleDefinition.recurring] using htype')
      have hnext' : nextScheduleDue cfg.dump (s.begun now) due = .ok next := hnext
      rw [hnext'] at hs
      cases hs
    | unrecorded hs hc he =>
      refine ⟨h.ok, h.handles, h.timely, h.others, fun hrec => hc _ he ?_ rfl⟩
      rw [ScheduleDefinition.recurring, (MovesOn.of_advance hs).type]
      exact hrec
    | close =>
      rename_i e
      refine h.putOccurrence rfl ?_ fun hrec => ?_
      · unfold closingRecord recordValue
        split <;> simp
      · simp [closingRecord, recordValue, h.here hrec, LaunchStatus.final]
    | unclosed hc he => exact ⟨h.ok, hc _ he⟩

/-! ## Runs -/

/-- **No schedule gets stuck.** In every run whose calls are as `Advancing` says and in which the
process dies only when no launch is recoverable, no recurring schedule is wedged when no section is
in progress; in particular not after `process_due` has returned. -/
theorem not_wedged (cfg : SchedConfig) {t : Scheduler}
    (h : Machine.Reach (step cfg)
      (Meets (Advancing cfg) Unrecoverable) init t)
    (hidle : t.section_ = none) {s : ScheduleDefinition} (hs : t.world.Stored s) :
    ¬t.world.Wedged s := by
  have G : Governed cfg (Advancing cfg) Apart CursorOk
      (fun w => w.CursorOk ∧ w.Unrecoverable) Unrecoverable :=
    (cursorDiscipline cfg).governed
      ⟨⟨fun s hs => (nomatch hs), fun r hr => (nomatch hr), fun s hs => (nomatch hs)⟩,
        fun _ _ ⟨_, hget, _⟩ => (nomatch hget)⟩
      fun w hw hrec => ⟨hw, hrec⟩
  have hholds := G.reach h
  unfold Governed.Holds at hholds
  rw [hidle] at hholds
  exact hholds.1.unwedged hs

def sampleInterval : ScheduleDefinition where
  id := "i"
  name := "sample"
  pipelineId := "p"
  type := .interval
  intervalMs := "1000"
  nextDueAt := some 0

/-- A condition that can be evaluated and implies `Advancing`. -/
def advancingCheck (q : SchedReq) (o : SchedOracle) : Bool :=
  o.fault.isNone && o.refusal.isNone &&
    w.db.schedules.rows.all (fun s => !s.queued && s.nextDueAt.isSome) &&
    match q with
    | .dispatch q => w.db.schedules.rows.all fun s => q.dueAt.all fun due =>
        (nextScheduleDue cfg.dump s due).isOk
    | .commit [.schedule _, .event _] => w.db.occurrences.rows.isEmpty
    | _ => true

lemma advancing_of_check {cfg : SchedConfig} {w : SchedWorld} {q : SchedReq} {o : SchedOracle}
    (h : advancingCheck cfg w q o) : Advancing cfg w q o := by
  simp only [advancingCheck, Bool.and_eq_true, isNone_iff_eq_none, List.all_eq_true,
    Bool.not_eq_true', isSome_iff_exists] at h
  obtain ⟨⟨⟨hfault, hrefusal⟩, hrows⟩, hq⟩ := h
  have hrow : ∀ s, w.Stored s → s.queued = false ∧ ∃ t, s.nextDueAt = some t := fun s hs =>
    hrows s (Table.mem_rows_iff.mpr hs)
  unfold Advancing
  split
  · intro s hs _ hnone
    obtain ⟨t, ht⟩ := (hrow s hs).2
    exact nomatch hnone.symm.trans ht
  · intro s due hs _ hqueued
    exact nomatch hqueued.symm.trans (hrow s hs).1
  · intro s due hs _ _ hdue
    simp only [List.all_eq_true] at hq
    have hok := hq s (Table.mem_rows_iff.mpr hs)
    rw [hdue, all_some] at hok
    rw [hrefusal]
    cases hnext : nextScheduleDue cfg.dump s due with
    | ok next => exact ⟨next, rfl⟩
    | error e => simp [hnext, Except.isOk, Except.toBool] at hok
  · intro e he
    exact nomatch hfault.symm.trans he
  · intro e he
    exact nomatch hfault.symm.trans he
  · intro _ _ due _ t x hx
    have hmem := mem_of_get hx
    rw [(List.isEmpty_iff.mp hq)] at hmem
    cases hmem
  · trivial

theorem not_wedged_interval : ∃ t s, Machine.Reach (step {})
        (Meets (Advancing {}) Unrecoverable) init t ∧
      t.section_ = none ∧ t.world.Stored s ∧ s.nextDueAt = some 1000 ∧ ¬t.world.Wedged s := by
  obtain ⟨t, ht, hv⟩ := Machine.exists_reach (M := step {}) (s := init)
    (C := Checked (advancingCheck {}))
    (f := fun t => (t.section_.isNone, (t.world.db.schedules.get "i").map fun s =>
      (s.id, s.nextDueAt)))
    (v := (true, some ("i", some 1000)))
    (enterCalls (.createSchedule sampleInterval) 4 ++ enterCalls .processDue 9)
    (by decide +kernel)
  simp only [Prod.mk.injEq, isNone_iff_eq_none, map_eq_some_iff] at hv
  obtain ⟨hidle, s, hs, hid, hnext⟩ := hv
  have ht' := ht.mono (D := Meets (Advancing {}) Unrecoverable) fun s l hl =>
    hl.meets fun _ _ _ => advancing_of_check
  have hstored : t.world.Stored s := by
    rw [Stored, hid]
    exact hs
  exact ⟨t, s, ht', hidle, hstored, hnext, not_wedged {} ht' hidle hstored⟩

/-- The service is in maintenance and refuses the launch. The occurrence is marked as failed, and the
schedule still names it. -/
theorem wedged_by_refusal :
    ∃ t s, Machine.Reach (step {}) Machine.always init t ∧ t.section_ = none ∧
      t.world.Stored s ∧ t.world.Wedged s := by
  obtain ⟨t, ht, hv⟩ := Machine.exists_reach (M := step {}) (s := init) (C := Machine.always)
    (f := fun t => (t.section_.isNone, (t.world.db.schedules.get "i").map fun s =>
      (s.id, decide (s.enabled ∧ s.deleted = false ∧ s.recurring ∧ s.effectiveDue = some 0)),
      (t.world.db.occurrences.get (occurrenceId "i" 0)).map (·.status.final)))
    (v := (true, some ("i", true), some true))
    (enterCalls (.createSchedule sampleInterval) 4 ++ enterCalls .processDue 5 ++
      [.call { refusal := some ⟨.unavailable, "Instance is not accepting new work"⟩ }, .call {}])
    (by decide +kernel)
  simp only [Prod.mk.injEq, isNone_iff_eq_none, map_eq_some_iff, decide_eq_true_eq] at hv
  obtain ⟨hidle, ⟨s, hs, hid, henabled, hdeleted, hrec, hdue⟩, x, hx, hfinal⟩ := hv
  refine ⟨t, s, ht, hidle, by rw [Stored, hid]; exact hs, henabled, hdeleted, hrec, 0, x,
    hdue, ?_, hfinal⟩
  rw [hid]
  exact hx

end Laso
