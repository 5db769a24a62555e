import Laso.Scheduler.Cursor

/-!
# Runs of one schedule that overlap

Unless overlap is allowed, a schedule is meant to have one run at a time. Before a launch the
scheduler scans the runs for one of the schedule that is not over, but

* the scan ends after ten thousand runs, and
* a queued occurrence is launched by the next pass without a scan; nothing ties it to the end of
  the run it was queued for (`overlapping_runs`).

A schedule is **quiet** when all of its runs are over. Where the scan sees every run that is not
over, and a queued occurrence is taken up only while its schedule is quiet, the runs of a schedule do
not overlap (`no_overlap`). The second half of the policy needs no condition on the launches: only
the occurrence that the effective due time names can be waiting (`OverlapOk.current`).
-/

namespace Laso

open List Table SchedWorld Scheduler

namespace SchedWorld

def Active (sid : String) (r : RunRow) : Prop := r.scheduleId = sid ∧ terminal r.state = false

instance (sid : String) (r : RunRow) : Decidable (Active sid r) :=
  inferInstanceAs (Decidable (_ ∧ _))

variable (w : SchedWorld) (sid : String)

def activeRuns : Nat :=
  w.db.runs.countP fun r => decide (Active sid r)

/-- How many occurrences of a schedule wait to be launched. -/
def waiting : Nat :=
  w.db.occurrences.rows.countP fun o => decide (o.scheduleId = sid ∧ o.status.final = false)

def Quiet : Prop := ∀ r ∈ w.db.runs, ¬Active sid r

def Single : Prop :=
  ∀ (i j : Nat) (r r' : RunRow), w.db.runs[i]? = some r → w.db.runs[j]? = some r' →
    Active sid r → Active sid r' → i = j

structure OverlapOk (w : SchedWorld) : Prop where
  named : ∀ s, w.Stored s → s.id ≠ ""
  owned : ∀ r ∈ w.db.runs, r.scheduleId ≠ "" → ∃ s, w.db.schedules.get r.scheduleId = some s
  single : ∀ s, w.Stored s → s.overlapPolicy ≠ .allow → w.Single s.id
  formed : ∀ o ∈ w.db.occurrences.rows, o.id = occurrenceId o.scheduleId o.dueAt
  current : ∀ o ∈ w.db.occurrences.rows, o.status.final = false →
    ∃ s, w.db.schedules.get o.scheduleId = some s ∧ s.effectiveDue = some o.dueAt

end SchedWorld

/-- A scan sees all runs of schedules that are not over; an occurrence that is queued is looked up
only when its schedule is quiet; an update of a schedule keeps its effective due time, and does not
turn a schedule whose runs may overlap into one whose runs may not. -/
def Exclusive (w : SchedWorld) (q : SchedReq) (_ : SchedOracle) : Prop :=
  match q with
  | .listRuns limit => ∀ r ∈ w.db.runs, r.scheduleId ≠ "" → terminal r.state = false →
      r ∈ w.db.runs.take limit
  | .getOccurrence id => ∀ s due, w.Stored s → s.queued → s.overlapPolicy ≠ .allow →
      s.effectiveDue = some due → occurrenceId s.id due = id → w.Quiet s.id
  | .commit [.schedule s, .event e] => e.type = "schedule.created" ∨ e.type = "schedule.updated" →
      ∀ old, w.db.schedules.get s.id = some old →
        s.effectiveDue = old.effectiveDue ∧ (s.overlapPolicy ≠ .allow → old.overlapPolicy ≠ .allow)
  | _ => True

/-! ## Counting -/

section Counting

variable {w w' : SchedWorld} {sid : String}

lemma countP_le_one {α : Type} {p : α → Bool} {l : List α}
    (h : ∀ (i j : Nat) (a b : α), l[i]? = some a → l[j]? = some b → p a → p b →
      i = j) : l.countP p ≤ 1 := by
  induction l with
  | nil => simp
  | cons a l ih =>
    by_cases ha : p a
    · have hzero : l.countP p = 0 := countP_eq_zero.mpr fun b hb hpb => by
        obtain ⟨j, hj⟩ := mem_iff_getElem?.mp hb
        exact nomatch h 0 (j + 1) a b rfl hj ha hpb
      rw [countP_cons, hzero, if_pos ha]
    · rw [countP_cons, if_neg ha]
      refine ih fun i j b c hi hj hb hc => ?_
      exact Nat.succ.inj (h (i + 1) (j + 1) b c hi hj hb hc)

lemma SchedWorld.Single.activeRuns_le (h : w.Single sid) : w.activeRuns sid ≤ 1 :=
  countP_le_one fun i j r r' hi hj hr hr' =>
    h i j r r' hi hj (of_decide_eq_true hr) (of_decide_eq_true hr')

lemma SchedWorld.OverlapOk.waiting_le (h : w.OverlapOk) : w.waiting sid ≤ 1 := by
  refine countP_le_one fun i j o o' hi hj ho ho' => ?_
  obtain ⟨hs, hopen⟩ := of_decide_eq_true ho
  obtain ⟨hs', hopen'⟩ := of_decide_eq_true ho'
  have hmem := mem_of_getElem? hi
  have hmem' := mem_of_getElem? hj
  obtain ⟨s, hget, hdue⟩ := h.current o hmem hopen
  obtain ⟨s', hget', hdue'⟩ := h.current o' hmem' hopen'
  rw [hs] at hget
  rw [hs', hget] at hget'
  cases hget'
  have hid : o.id = o'.id := by
    rw [h.formed o hmem, h.formed o' hmem', hs, hs', Option.mem_unique hdue hdue']
  have hlt : i < (w.db.occurrences.rows.map Keyed.key).length := by
    rw [length_map]
    exact (List.getElem?_eq_some_iff.mp hi).1
  refine (getElem?_inj hlt w.db.occurrences.nodup).mp ?_
  rw [getElem?_map, getElem?_map, hi, hj]
  exact congrArg some hid

end Counting

/-! ## What the rest of the system does -/

section Apart

variable {w w' : SchedWorld} {sid : String} {r' : RunRow}

lemma RunsGrow.active {rows rows' : List RunRow} (h : RunsGrow rows rows') (hsid : sid ≠ "")
    {i : Nat} (hi : rows'[i]? = some r') (hr : Active sid r') :
    ∃ r, rows[i]? = some r ∧ Active sid r := by
  obtain ⟨hs, hrun⟩ := hr
  cases hrow : rows[i]? with
  | none => exact absurd (hs.symm.trans (h.added i r' hi hrow).1) hsid
  | some r =>
  obtain ⟨r₁, hr₁, hon⟩ := h.kept i r hrow
  cases hi.symm.trans hr₁
  refine ⟨r, rfl, hon.scheduleId.symm.trans hs, ?_⟩
  by_contra hover
  have hover : terminal r.state := by simpa using hover
  rw [hon.ended hover, hover] at hrun
  cases hrun

lemma SchedWorld.Single.apart (h : w.Single sid) (hR : w.Apart w') (hsid : sid ≠ "") :
    w'.Single sid := fun i j r r' hi hj hr hr' => by
  obtain ⟨r₁, hi₁, hr₁⟩ := hR.runs.active hsid hi hr
  obtain ⟨r₂, hj₂, hr₂⟩ := hR.runs.active hsid hj hr'
  exact h i j r₁ r₂ hi₁ hj₂ hr₁ hr₂

lemma SchedWorld.Quiet.apart (h : w.Quiet sid) (hR : w.Apart w') (hsid : sid ≠ "") :
    w'.Quiet sid := fun r hr hact => by
  obtain ⟨i, hi⟩ := mem_iff_getElem?.mp hr
  obtain ⟨r₁, hi₁, hr₁⟩ := hR.runs.active hsid hi hact
  exact h r₁ (mem_of_getElem? hi₁) hr₁

lemma SchedWorld.OverlapOk.apart (h : w.OverlapOk) (hR : w.Apart w') : w'.OverlapOk := by
  have hstored : ∀ s, w'.Stored s → w.Stored s := fun s hs => by
    rw [Stored, ← hR.schedules]
    exact hs
  refine ⟨fun s hs => h.named s (hstored s hs), fun r hr hsid => ?_,
    fun s hs hp => (h.single s (hstored s hs) hp).apart hR (h.named s (hstored s hs)), ?_, ?_⟩
  · obtain ⟨r₀, hr₀, hon⟩ := hR.runs.of_mem_of_owned hr (.inl hsid)
    rw [hR.schedules, hon.scheduleId]
    exact h.owned r₀ hr₀ (hon.scheduleId ▸ hsid)
  · rw [hR.occurrences]
    exact h.formed
  · rw [hR.occurrences, hR.schedules]
    exact h.current

end Apart

/-! ## What is written -/

section Writes

variable {now : WallTime} {s s' : ScheduleDefinition} {due : Stamp} {w w' : SchedWorld}

lemma SchedWorld.get_put_schedule {sid : String} (h : ∃ t, w.db.schedules.get sid = some t)
    (hs : w'.db.schedules = w.db.schedules.put s') : ∃ t, w'.db.schedules.get sid = some t := by
  obtain ⟨t, ht⟩ := h
  rw [hs, get_put]
  split
  · exact ⟨s', rfl⟩
  · exact ⟨t, ht⟩

/-- The record of an occurrence is written, with its schedule or without. If it waits, it is still
the one the schedule names. -/
lemma SchedWorld.OverlapOk.written (h : w.OverlapOk) (hw : Handles now s due w)
    {x : ScheduleOccurrence} (hid : s'.id = s.id) (hp : s'.overlapPolicy = s.overlapPolicy)
    (hxs : x.scheduleId = s.id) (hxd : x.dueAt = due) (hx : x.id = occurrenceId s.id due)
    (hcur : x.status.final = false → s'.effectiveDue = some due)
    (hs : w'.db.schedules = w.db.schedules.put s') (ho : w'.db.occurrences = w.db.occurrences.put x)
    (hr : w'.db.runs = w.db.runs) : w'.OverlapOk where
  named := named_put h.named hs (hid ▸ hw.named)
  owned := fun r hrun hsid => by
    rw [hr] at hrun
    exact get_put_schedule (h.owned r hrun hsid) hs
  single := fun t ht hpol => by
    unfold Single
    rw [hr]
    rcases ht.of_put hs with rfl | ⟨hold, -⟩
    · rw [hid]
      exact h.single s hw.stored (hp ▸ hpol)
    · exact h.single t hold hpol
  formed := fun o hmem => by
    rw [ho] at hmem
    rcases mem_rows_put.mp hmem with rfl | ⟨hold, -⟩
    · rw [hx, hxs, hxd]
    · exact h.formed o hold
  current := fun o hmem hopen => by
    rw [ho] at hmem
    rcases mem_rows_put.mp hmem with rfl | ⟨hold, hne⟩
    · refine ⟨s', ?_, ?_⟩
      · rw [hxs, hs, ← hid]
        exact get_put_self _ s'
      · rw [hxd]
        exact hcur hopen
    obtain ⟨t, ht, hdue⟩ := h.current o hold hopen
    -- Another occurrence that waits belongs to another schedule.
    have hother : s'.id ≠ o.scheduleId := fun heq => hne <| by
      rw [(heq.symm.trans hid)] at ht
      cases ht.symm.trans hw.stored
      have hd : o.dueAt = due := Option.mem_unique hdue hw.effective
      show o.id = x.id
      rw [h.formed o hold, (heq.symm.trans hid), hd, hx]
    exact ⟨t, by rw [hs, get_put_ne hother, ht], hdue⟩

lemma SchedWorld.OverlapOk.edited (h : w.OverlapOk) (hnamed : ∀ s, w'.Stored s → s.id ≠ "")
    (hs : w'.db.schedules = w.db.schedules.put s') (ho : w'.db.occurrences = w.db.occurrences)
    (hr : w'.db.runs = w.db.runs)
    (hkeep : ∀ old, w.db.schedules.get s'.id = some old →
      (∀ d, old.effectiveDue = some d → s'.effectiveDue = some d) ∧
        (s'.overlapPolicy ≠ .allow → old.overlapPolicy ≠ .allow)) : w'.OverlapOk where
  named := hnamed
  owned := fun r hrun hsid => by
    rw [hr] at hrun
    exact get_put_schedule (h.owned r hrun hsid) hs
  single := fun t ht hpol => by
    unfold Single
    rw [hr]
    rcases ht.of_put hs with rfl | ⟨hold, -⟩
    · cases hget : w.db.schedules.get t.id with
      | some old =>
        have hid : old.id = t.id := key_of_get hget
        have hstored : w.Stored old := by
          rw [Stored, hid]
          exact hget
        rw [← hid]
        exact h.single old hstored ((hkeep old hget).2 hpol)
      | none =>
        -- A schedule that was not stored has no runs.
        intro i _ r _ hi _ hact
        obtain ⟨old, hold⟩ := h.owned r (mem_of_getElem? hi) (hact.1 ▸ hnamed t ht)
        rw [hact.1, hget] at hold
        cases hold
    · exact h.single t hold hpol
  formed := by
    rw [ho]
    exact h.formed
  current := fun o hmem hopen => by
    rw [ho] at hmem
    obtain ⟨t, ht, hdue⟩ := h.current o hmem hopen
    rw [hs, get_put]
    split
    · rename_i heq
      rw [← heq] at ht
      exact ⟨s', rfl, (hkeep t ht).1 _ hdue⟩
    · exact ⟨t, ht, hdue⟩

end Writes

/-! ## The invariant in each phase -/

/-- What is known about the runs of the schedule at hand, when its runs may not overlap. -/
def Phase.Overlap (s : ScheduleDefinition) (w : SchedWorld) : Phase → Prop
  | .seen | .ready => s.queued → w.Quiet s.id
  | .clear => w.Quiet s.id
  | .opened _ | .closing _ => True

structure Overlapping (now : WallTime) (s : ScheduleDefinition) (due : Stamp) (ph : Phase)
    (w : SchedWorld) : Prop where
  ok : w.OverlapOk
  handles : Handles now s due w
  here : s.overlapPolicy ≠ .allow → ph.Overlap s w

namespace Overlapping

variable {now : WallTime} {s s' : ScheduleDefinition} {due : Stamp} {ph : Phase} {w w' : SchedWorld}

lemma apart (h : Overlapping now s due ph w) (hR : w.Apart w') : Overlapping now s due ph w' where
  ok := h.ok.apart hR
  handles := h.handles.apart hR
  here hp := by
    have hhere := h.here hp
    have hs := h.handles.named
    cases ph with
    | seen | ready => exact fun hq => (hhere hq).apart hR hs
    | clear => exact hhere.apart hR hs
    | opened _ => trivial
    | closing _ => trivial

lemma write (h : Overlapping now s due ph w) (hid : s'.id = s.id)
    (hp : s'.overlapPolicy = s.overlapPolicy) {status : LaunchStatus} {runId : String}
    {e : SourceEvent} (hcur : status.final = false → s'.effectiveDue = some due) :
    (w.write [.schedule s', .occurrence (recordValue status s' due runId), .event e]).OverlapOk := by
  have hx : (recordValue status s' due runId).id = occurrenceId s.id due := by
    rw [← hid]
    rfl
  exact h.ok.written h.handles hid hp hid rfl hx hcur rfl rfl rfl

lemma putOccurrence (h : Overlapping now s due ph w) {x : ScheduleOccurrence}
    (hxs : x.scheduleId = s.id) (hxd : x.dueAt = due) (hx : x.id = occurrenceId s.id due) :
    (w.putOccurrence x).OverlapOk :=
  h.ok.written h.handles rfl rfl hxs hxd hx (fun _ => h.handles.effective)
    (put_of_get h.handles.stored).symm rfl rfl

lemma launched (h : Overlapping now s due .clear w) (id : String) :
    Overlapping now s due (.opened id) (w.launched id (s.request due)) where
  handles := { h.handles with }
  here _ := trivial
  ok := {
    named := h.ok.named
    owned := fun r hr hsid => by
      rcases mem_append.mp hr with hr | hr
      · exact h.ok.owned r hr hsid
      · rw [mem_singleton.mp hr]
        exact ⟨s, h.handles.stored⟩
    single := fun t ht hp i j r r' hi hj hact hact' => by
      have hcases : ∀ (i : Nat) (r : RunRow), (w.launched id (s.request due)).db.runs[i]? = some r →
          w.db.runs[i]? = some r ∨ i = w.db.runs.length ∧ r.scheduleId = s.id := by
        intro i r hi
        have hi' : (w.db.runs ++ [rowOf id (s.request due)])[i]? = some r := hi
        rcases Nat.lt_or_ge i w.db.runs.length with hlt | hge
        · rw [getElem?_append_left hlt] at hi'
          exact .inl hi'
        rw [getElem?_append_right hge, getElem?_singleton] at hi'
        split at hi'
        · rename_i hzero
          cases hi'
          exact .inr ⟨Nat.le_antisymm (Nat.sub_eq_zero_iff_le.mp hzero) hge, rfl⟩
        · cases hi'
      have hquiet : t.id = s.id → w.Quiet s.id := fun hid => by
        have ht' : w.db.schedules.get t.id = some t := ht
        rw [hid] at ht'
        cases ht'.symm.trans h.handles.stored
        exact h.here hp
      rcases hcases i r hi with hi | ⟨rfl, hr⟩ <;> rcases hcases j r' hj with hj | ⟨rfl, hr'⟩
      · exact h.ok.single t ht hp i j r r' hi hj hact hact'
      · have hid : t.id = s.id := hact'.1.symm.trans hr'
        exact absurd (hid ▸ hact) (hquiet hid r (mem_of_getElem? hi))
      · have hid : t.id = s.id := hact.1.symm.trans hr
        exact absurd (hid ▸ hact') (hquiet hid r' (mem_of_getElem? hj))
      · rfl
    formed := h.ok.formed
    current := h.ok.current }

end Overlapping

lemma Edit.overlapOk {cfg : SchedConfig} {w w' : SchedWorld} (he : Edit cfg Exclusive w w')
    (h : w.OverlapOk) : w'.OverlapOk := by
  have hnamed := he.named h.named
  have hold : ∀ {s old : ScheduleDefinition}, w.Stored s → w.db.schedules.get s.id = some old →
      old = s := fun hs hget => Option.mem_unique hget hs
  cases he with
  | complete hs | enable hs =>
    refine h.edited hnamed rfl rfl rfl fun old hget => ?_
    cases hold hs hget
    exact ⟨fun _ hd => hd, id⟩
  | release hs hq =>
    refine h.edited hnamed rfl rfl rfl fun old hget => ?_
    cases hold hs hget
    refine ⟨fun d hd => ?_, id⟩
    rw [ScheduleDefinition.effectiveDue, hq] at hd
    exact hd
  | write _ htype hc =>
    refine h.edited hnamed rfl rfl rfl fun old hget => ?_
    obtain ⟨hdue, hp⟩ := hc htype old hget
    exact ⟨fun d hd => hdue.trans hd, hp⟩
  | renew hs hnone _ | begun hs hnone _ _ _ _ =>
    refine h.edited hnamed rfl rfl rfl fun old hget => ?_
    cases hold hs hget
    refine ⟨fun d hd => ?_, id⟩
    -- Without a time of its own the schedule has an occurrence queued.
    rw [ScheduleDefinition.effectiveDue] at hd ⊢
    split at hd
    · rename_i hq
      rw [if_pos hq]
      exact hd
    · cases hnone.symm.trans hd

lemma quiet_of_scan {w : SchedWorld} {o : SchedOracle} {sid : String} (hsid : sid ≠ "")
    (hc : Exclusive w (.listRuns 10000) o) (h : ¬w.SeesActive sid) : w.Quiet sid :=
  fun r hr hact => h ⟨r, hc r hr (hact.1 ▸ hsid) hact.2, hact⟩

/-- The discipline that keeps the runs of a schedule apart. -/
def overlapDiscipline (cfg : SchedConfig) : Discipline cfg Exclusive where
  idle w := w.OverlapOk
  busy now s due ph w := Overlapping now s due ph w
  safe w := w.OverlapOk
  safe_idle _ h := h
  safe_busy _ _ _ _ _ h := h.ok
  named _ s h := h.named s
  apart_idle _ _ h hR := h.apart hR
  apart_busy _ _ _ _ _ _ h hR := h.apart hR
  apart_safe _ _ h hR := h.apart hR
  tick _ _ h := ⟨h.named, h.owned, h.single, h.formed, h.current⟩
  edit _ _ h he := he.overlapOk h
  move now s due ph w ph' w' h hm := by
    cases hm with
    | look hw hc => exact ⟨h, hw, fun hp hq => hc s due hw.stored hq hp hw.effective rfl⟩
    | claim _ =>
      exact ⟨h.putOccurrence (x := recordValue .claimed s due) rfl rfl rfl, { h.handles with }, h.here⟩
    | retry | lost => exact ⟨h.ok, h.handles, h.here⟩
    | recover hx _ _ _ =>
      -- The record is stored under the identifier of the occurrence, which determines its fields.
      have hid := key_of_get hx
      obtain ⟨hsid, hdue⟩ := occurrenceId_inj ((h.ok.formed _ (mem_of_get hx)).symm.trans hid)
      exact h.putOccurrence hsid hdue hid
    | abandon _ => exact h.ok
    | misfire _ _ hs =>
      have hmoves := MovesOn.of_missed hs
      exact h.write hmoves.id hmoves.overlapPolicy nofun
    | skip _ _ hs =>
      have hmoves := MovesOn.of_advance hs
      exact h.write hmoves.id hmoves.overlapPolicy nofun
    | enqueue _ _ hs =>
      have hmoves := MovesOn.of_advance hs
      refine h.write hmoves.id hmoves.overlapPolicy fun _ => ?_
      rw [ScheduleDefinition.effectiveDue, hmoves.queued, hmoves.queuedDueAt]
      rfl
    | decide hquiet =>
      refine ⟨h.ok, h.handles, fun hp => ?_⟩
      rcases hquiet with hq | hallow | ⟨hc, hnone⟩
      · exact h.here hp hq
      · exact absurd hallow hp
      · exact quiet_of_scan h.handles.named hc hnone
    | launch _ _ => exact h.launched _
    | refuse | strand | unrecorded => exact ⟨h.ok, h.handles, fun _ => trivial⟩
    | record hs =>
      have hmoves := MovesOn.of_advance hs
      exact h.write hmoves.id hmoves.overlapPolicy nofun
    | close => exact h.putOccurrence rfl rfl rfl
    | unclosed _ _ => exact h.ok

/-! ## Runs -/

/-- **Runs of a schedule do not overlap.** In every run whose calls are as `Exclusive` says, at every
state and whatever crashes there are, at most one run of a schedule whose runs may not overlap is not
over, and at most one of its occurrences waits. -/
theorem no_overlap (cfg : SchedConfig) {t : Scheduler}
    (h : Machine.Reach (step cfg) (Meets Exclusive fun _ => True)
      init t) {s : ScheduleDefinition} (hs : t.world.Stored s)
    (hp : s.overlapPolicy = .skip ∨ s.overlapPolicy = .queueOne) :
    t.world.activeRuns s.id ≤ 1 ∧ t.world.waiting s.id ≤ 1 := by
  have G : Governed cfg Exclusive Apart OverlapOk OverlapOk
      fun _ => True :=
    (overlapDiscipline cfg).governed
      ⟨fun s hs => (nomatch hs), fun r hr => (nomatch hr), fun s hs => (nomatch hs),
        fun o ho => (nomatch ho), fun o ho => (nomatch ho)⟩
      fun w hw _ => hw
  have hok := G.safe_of_holds (G.reach h)
  have hpolicy : s.overlapPolicy ≠ .allow := by
    rcases hp with hp | hp <;> simp [hp]
  exact ⟨(hok.single s hs hpolicy).activeRuns_le, hok.waiting_le⟩

/-- A schedule with at most one further occurrence that waits. -/
def sampleQueue : ScheduleDefinition := { sampleInterval with overlapPolicy := .queueOne }

/-- A condition that can be evaluated and implies `Exclusive`. -/
def exclusiveCheck (w : SchedWorld) (q : SchedReq) (_ : SchedOracle) : Bool :=
  match q with
  | .listRuns limit => decide (w.db.runs.length ≤ limit)
  | .getOccurrence _ => w.db.schedules.rows.all fun s => !s.queued
  | .commit [.schedule s, .event e] =>
      decide (e.type = "schedule.created" ∨ e.type = "schedule.updated" →
        w.db.schedules.get s.id = none)
  | _ => true

lemma exclusive_of_check {w : SchedWorld} {q : SchedReq} {o : SchedOracle}
    (h : exclusiveCheck w q o) : Exclusive w q o := by
  unfold Exclusive
  split
  · intro r hr _ _
    rwa [take_of_length_le (of_decide_eq_true h)]
  · intro s _ hs hq
    have hrow := all_eq_true.mp h s (mem_rows_iff.mpr hs)
    simp [hq] at hrow
  · intro htype old hold
    exact nomatch (of_decide_eq_true h htype).symm.trans hold
  · trivial

theorem no_overlap_queue : ∃ t s, Machine.Reach (step {}) (Meets Exclusive fun _ => True)
        init t ∧ t.world.Stored s ∧ s.overlapPolicy = .queueOne ∧
      t.world.activeRuns "i" = 1 ∧ t.world.waiting "i" = 1 ∧
        t.world.activeRuns s.id ≤ 1 ∧ t.world.waiting s.id ≤ 1 := by
  obtain ⟨t, ht, hv⟩ := Machine.exists_reach (M := step {}) (s := init)
    (C := Checked exclusiveCheck)
    (f := fun t => ((t.world.db.schedules.get "i").map fun s => (s.id, s.overlapPolicy),
      t.world.activeRuns "i", t.world.waiting "i"))
    (v := (some ("i", .queueOne), 1, 1))
    (enterCalls (.createSchedule sampleQueue) 4 ++ enterCalls .processDue 9 ++
      enterCalls .processDue 8 { time := 1000000000 })
    (by decide +kernel)
  simp only [Prod.mk.injEq, Option.map_eq_some_iff] at hv
  obtain ⟨⟨s, hs, hid, hp⟩, hactive, hwaiting⟩ := hv
  have ht' := ht.mono (D := Meets Exclusive fun _ => True) fun s l hl =>
    hl.meets fun _ _ _ => exclusive_of_check
  have hstored : t.world.Stored s := by
    rw [Stored, hid]
    exact hs
  exact ⟨t, s, ht', hstored, hp, hactive, hwaiting, no_overlap {} ht' hstored (.inr hp)⟩

/-- While the first run of the schedule goes on, its second occurrence is queued. The next pass
launches it. -/
theorem overlapping_runs : ∃ t s, Machine.Reach (step {}) Machine.always init t ∧
      t.world.Stored s ∧ s.recurring = true ∧ s.overlapPolicy = .queueOne ∧
      t.world.activeRuns s.id = 2 := by
  obtain ⟨t, ht, hv⟩ := Machine.exists_reach (M := step {}) (s := init) (C := Machine.always)
    (f := fun t => ((t.world.db.schedules.get "i").map fun s => (s.id, s.recurring, s.overlapPolicy),
      t.world.activeRuns "i"))
    (v := (some ("i", true, .queueOne), 2))
    (enterCalls (.createSchedule sampleQueue) 4 ++ enterCalls .processDue 9 ++
      enterCalls .processDue 8 { time := 1000000000 } ++
      enterCalls .processDue 7 { time := 1000000000 })
    (by decide +kernel)
  simp only [Prod.mk.injEq, Option.map_eq_some_iff] at hv
  obtain ⟨⟨s, hs, hid, hrec, hp⟩, hactive⟩ := hv
  exact ⟨t, s, ht, by rw [Stored, hid]; exact hs, hrec, hp, by rw [hid]; exact hactive⟩

end Laso
