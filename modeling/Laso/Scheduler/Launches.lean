import Laso.Scheduler.Machine

/-!
# How often an occurrence is launched

A run is stored before the occurrence is marked as started. If the process dies in between, the
next pass has to notice the run. It does so only for an occurrence that is stored as `claimed`, and
only if the run is among the first ten thousand; an occurrence that is `pending` after a launch was
refused, or `queued`, is launched again (`launched_twice`).

An occurrence is **marked** if its record is final or if the next pass will find its run. As long as
the process does not die, and the last attempt to write a mark is not refused, while a launched
occurrence is unmarked, and the record of a launch is not refused for lack of capacity, no
occurrence is launched twice (`launchCount_le_one`).
-/

namespace Laso

open List SchedWorld Scheduler

namespace SchedWorld

variable (w : SchedWorld)

/-- How many runs have been launched for an occurrence. -/
def launchCount (scheduleId : String) (due : Stamp) : Nat :=
  w.launches.countP fun q => decide (q.scheduleId = scheduleId ∧ q.dueAt = some due)

/-- A run has been launched for the occurrence with this identifier. -/
def Launched (x : String) : Prop := ∃ q ∈ w.launches, q.scheduleOccurrenceId = x

/-- The next pass will not launch the occurrence: its record is final, or it is claimed and its run
is found. -/
def Marked (x : String) : Prop :=
  ∃ o, w.db.occurrences.get x = some o ∧ (o.status.final ∨
    o.status = .claimed ∧ ∃ r ∈ w.db.runs.take 10000, r.scheduleOccurrenceId = x)

/-- Every occurrence that has been launched is marked, except perhaps one. -/
def SettledBut (y : String) : Prop :=
  ∀ x, x ≠ "" → x ≠ y → w.Launched x → w.Marked x

def Settled : Prop := w.SettledBut ""

structure AtMostOnce (w : SchedWorld) : Prop where
  named : ∀ s, w.Stored s → s.id ≠ ""
  formed : ∀ q ∈ w.launches, ∀ due, q.dueAt = some due →
    q.scheduleOccurrenceId = occurrenceId q.scheduleId due
  once : ∀ x, x ≠ "" → w.launches.countP (fun q => decide (q.scheduleOccurrenceId = x)) ≤ 1

end SchedWorld

/-- A commit may be refused, but the record of a launch not for lack of capacity, and what is
written when a launch has failed only if every launched occurrence is marked. -/
def Markable (w : SchedWorld) (q : SchedReq) (o : SchedOracle) : Prop :=
  ∀ e, o.fault = some e →
    match q with
    | .commit [.schedule _, .occurrence x, .event _] => x.status = .started → e.code ≠ .capacity
    | .commit [.occurrence _] => w.Settled
    | _ => True

section Lemmas

variable {w w' : SchedWorld} {x y : String}

lemma SchedWorld.Settled.but (h : w.Settled) (y : String) : w.SettledBut y :=
  fun x hx _ hl => h x hx hx hl

lemma SchedWorld.SettledBut.settled (h : w.SettledBut y) (hy : w.Launched y → w.Marked y) :
    w.Settled := fun x hx _ hl => by
  by_cases hxy : x = y
  · subst hxy
    exact hy hl
  · exact h x hx hxy hl

lemma SchedWorld.SettledBut.replaced (h : w.SettledBut y) {o : ScheduleOccurrence} (ho : o.id = y)
    (hocc : w'.db.occurrences = w.db.occurrences.put o) (hruns : w'.db.runs = w.db.runs)
    (hlaunches : w'.launches = w.launches) : w'.SettledBut y := by
  intro x hx hxy hl
  unfold Launched at hl
  rw [hlaunches] at hl
  obtain ⟨p, hp, hmark⟩ := h x hx hxy hl
  refine ⟨p, ?_, ?_⟩
  · rw [hocc, Table.get_put_ne (fun heq => hxy (heq.symm.trans ho)), hp]
  · rw [hruns]
    exact hmark

lemma SchedWorld.AtMostOnce.of_eq (h : w.AtMostOnce) (hlaunches : w'.launches = w.launches)
    (hs : ∀ s, w'.Stored s → s.id ≠ "") : w'.AtMostOnce where
  named := hs
  formed := by
    rw [hlaunches]
    exact h.formed
  once := by
    rw [hlaunches]
    exact h.once

lemma SchedWorld.Stored.of_put {t s' : ScheduleDefinition} (h : w'.Stored t)
    (hs : w'.db.schedules = w.db.schedules.put s') : t = s' ∨ w.Stored t ∧ t.id ≠ s'.id := by
  have hmem : t ∈ (w.db.schedules.put s').rows := by
    rw [← hs]
    exact Table.mem_rows_iff.mpr h
  exact (Table.mem_rows_put.mp hmem).imp_right fun ⟨hold, hne⟩ =>
    ⟨Table.mem_rows_iff.mp hold, hne⟩

lemma SchedWorld.named_put (h : ∀ s, w.Stored s → s.id ≠ "") {s : ScheduleDefinition}
    (hput : w'.db.schedules = w.db.schedules.put s) (hs : s.id ≠ "") :
    ∀ s, w'.Stored s → s.id ≠ "" := fun s' hs' => by
  rcases hs'.of_put hput with rfl | ⟨hold, -⟩
  · exact hs
  · exact h s' hold

lemma SchedWorld.Launched.apart (hR : w.Apart w') (hx : x ≠ "") (h : w'.Launched x) :
    w.Launched x := by
  obtain ⟨q, hq, rfl⟩ := h
  obtain ⟨new, hnew, hall⟩ := hR.launches
  rw [hnew] at hq
  rcases mem_append.mp hq with hq | hq
  · exact absurd (hall q hq).1 hx
  · exact ⟨q, hq, rfl⟩

lemma SchedWorld.Marked.apart (hR : w.Apart w') (h : w.Marked x) : w'.Marked x := by
  obtain ⟨o, ho, hmark⟩ := h
  refine ⟨o, by rw [hR.occurrences, ho], hmark.imp_right fun ⟨hc, r, hr, hx⟩ => ⟨hc, ?_⟩⟩
  obtain ⟨r', hr', hon⟩ := hR.runs.of_mem_take hr
  exact ⟨r', hr', hon.scheduleOccurrenceId.trans hx⟩

lemma SchedWorld.SettledBut.apart (hR : w.Apart w') (h : w.SettledBut y) : w'.SettledBut y :=
  fun x hx hxy hl => (h x hx hxy (hl.apart hR hx)).apart hR

lemma SchedWorld.AtMostOnce.apart (hR : w.Apart w') (h : w.AtMostOnce) : w'.AtMostOnce := by
  obtain ⟨new, hnew, hall⟩ := hR.launches
  refine ⟨fun s hs => h.named s ?_, fun q hq due hdue => ?_, fun x hx => ?_⟩
  · rw [Stored, ← hR.schedules]
    exact hs
  · rw [hnew] at hq
    rcases mem_append.mp hq with hq | hq
    · cases hdue.symm.trans (hall q hq).2
    · exact h.formed q hq due hdue
  · have hzero : new.countP (fun q => decide (q.scheduleOccurrenceId = x)) = 0 :=
      countP_eq_zero.mpr fun q hq => by simpa [(hall q hq).1] using hx.symm
    rw [hnew, countP_append, hzero, Nat.zero_add]
    exact h.once x hx

end Lemmas

/-! ## The invariant in each phase -/

def Phase.Known (x : String) (w : SchedWorld) : Phase → Prop
  | .seen => w.Launched x → w.Marked x
  | .ready | .clear => ¬w.Launched x
  | .opened _ => True
  | .closing e => e.code = .capacity → ¬w.Launched x

/-- While an occurrence is handled, all others are marked. -/
structure Launching (s : ScheduleDefinition) (due : Stamp) (ph : Phase) (w : SchedWorld) : Prop where
  once : w.AtMostOnce
  named : s.id ≠ ""
  settled : w.SettledBut (occurrenceId s.id due)
  known : ph.Known (occurrenceId s.id due) w

namespace Launching

variable {s s' : ScheduleDefinition} {due : Stamp} {ph : Phase} {w w' : SchedWorld}

section

variable (h : Launching s due ph w)
include h

lemma apart (hR : w.Apart w') : Launching s due ph w' where
  once := h.once.apart hR
  named := h.named
  settled := h.settled.apart hR
  known := by
    have hx := occurrenceId_ne_empty s.id due
    have hknown := h.known
    cases ph with
    | seen => exact fun hl => (hknown (hl.apart hR hx)).apart hR
    | ready | clear => exact fun hl => hknown (hl.apart hR hx)
    | opened _ => trivial
    | closing e => exact fun he hl => hknown he (hl.apart hR hx)

lemma idle (hx : w.Launched (occurrenceId s.id due) → w.Marked (occurrenceId s.id due)) :
    w.AtMostOnce ∧ w.Settled := ⟨h.once, h.settled.settled hx⟩

lemma putOccurrence {o : ScheduleOccurrence} (ho : o.id = occurrenceId s.id due)
    (hx : w.Launched (occurrenceId s.id due) → o.status.final) :
    (w.putOccurrence o).AtMostOnce ∧ (w.putOccurrence o).Settled := by
  have hbut : (w.putOccurrence o).SettledBut (occurrenceId s.id due) :=
    h.settled.replaced ho rfl rfl rfl
  refine ⟨h.once.of_eq rfl h.once.named, hbut.settled fun hl => ?_⟩
  refine ⟨o, ?_, .inl (hx hl)⟩
  rw [← ho]
  exact Table.get_put_self _ o

lemma write (hid : s'.id = s.id) {status : LaunchStatus} {runId : String}
    {e : SourceEvent} (hx : w.Launched (occurrenceId s.id due) → status.final) :
    (w.write [.schedule s', .occurrence (recordValue status s' due runId), .event e]).AtMostOnce ∧
      (w.write [.schedule s', .occurrence (recordValue status s' due runId), .event e]).Settled := by
  have ho : (recordValue status s' due runId).id = occurrenceId s.id due := by
    rw [← hid]
    rfl
  obtain ⟨-, hsettled⟩ := h.putOccurrence ho hx
  refine ⟨h.once.of_eq rfl (named_put h.once.named rfl ?_), hsettled⟩
  rw [hid]
  exact h.named

end

lemma launched (h : Launching s due .clear w) (id : String) :
    Launching s due (.opened id) (w.launched id (s.request due)) where
  named := h.named
  known := trivial
  settled := fun x hx hxy hl => by
    obtain ⟨q, hq, rfl⟩ := hl
    rcases mem_cons.mp hq with rfl | hq
    · exact absurd rfl hxy
    obtain ⟨o, ho, hmark⟩ := h.settled _ hx hxy ⟨q, hq, rfl⟩
    refine ⟨o, ho, hmark.imp_right ?_⟩
    rintro ⟨hc, r, hr, hocc⟩
    exact ⟨hc, r, ((prefix_append _ _).take 10000).subset hr, hocc⟩
  once := {
    named := h.once.named
    formed := fun q hq d hd => by
      rcases mem_cons.mp hq with rfl | hq
      · cases hd
        rfl
      · exact h.once.formed q hq d hd
    once := fun x hx => by
      rw [SchedWorld.launched, countP_cons]
      split
      · rename_i hthis
        have hzero : w.launches.countP (fun q => decide (q.scheduleOccurrenceId = x)) = 0 := by
          refine countP_eq_zero.mpr fun q hq hqx => h.known ⟨q, hq, ?_⟩
          exact (of_decide_eq_true hqx).trans (of_decide_eq_true hthis).symm
        rw [hzero]
      · exact h.once.once x hx }

end Launching

variable {cond : SchedCond} {cfg : SchedConfig}

lemma Edit.named {w w' : SchedWorld} (h : Edit cfg cond w w') (hw : ∀ s, w.Stored s → s.id ≠ "") :
    ∀ s, w'.Stored s → s.id ≠ "" := by
  cases h with
  | complete hs | release hs | enable hs | renew hs | begun hs =>
    have hid := hw _ hs
    exact named_put hw rfl hid
  | write hs _ _ =>
    obtain ⟨_, hreq, -⟩ := bind_eq_ok.mp hs
    exact named_put hw rfl (require_eq_ok.mp hreq).1

lemma Edit.same {w w' : SchedWorld} (h : Edit cfg cond w w') :
    w'.db.occurrences = w.db.occurrences ∧ w'.db.runs = w.db.runs ∧ w'.launches = w.launches := by
  cases h <;> exact ⟨rfl, rfl, rfl⟩

/-- The discipline that no occurrence is launched twice. -/
def launchDiscipline (cfg : SchedConfig) : Discipline cfg Markable where
  idle w := w.AtMostOnce ∧ w.Settled
  busy _ s due ph w := Launching s due ph w
  safe w := w.AtMostOnce
  safe_idle _ h := h.1
  safe_busy _ _ _ _ _ h := h.once
  named _ s h := h.1.named s
  apart_idle _ _ h hR := ⟨h.1.apart hR, h.2.apart hR⟩
  apart_busy _ _ _ _ _ _ h hR := h.apart hR
  apart_safe _ _ h hR := h.apart hR
  tick w t h := ⟨h.1.of_eq rfl h.1.named, h.2⟩
  edit w w' h he := by
    obtain ⟨hocc, hruns, hlaunches⟩ := he.same
    refine ⟨h.1.of_eq hlaunches (he.named h.1.named), fun x hx hx' hl => ?_⟩
    unfold Launched at hl
    rw [hlaunches] at hl
    unfold Marked
    rw [hocc, hruns]
    exact h.2 x hx hx' hl
  move now s due ph w ph' w' h hm := by
    cases hm with
    | look hw _ => exact ⟨h.1, hw.named, h.2.but _, fun hl => h.2 _ (occurrenceId_ne_empty _ _)
        (occurrenceId_ne_empty _ _) hl⟩
    | claim hnone =>
      -- What is not stored is not marked, so it has not been launched.
      have hnot : ¬w.Launched (occurrenceId s.id due) := fun hl => by
        obtain ⟨o, ho, -⟩ := h.known hl
        cases hnone.symm.trans ho
      obtain ⟨honce, hsettled⟩ := h.putOccurrence (o := recordValue .claimed s due) rfl
        fun hl => absurd hl hnot
      exact ⟨honce, h.named, hsettled.but _, hnot⟩
    | retry hx hwait =>
      refine ⟨h.once, h.named, h.settled, fun hl => ?_⟩
      obtain ⟨o, ho, hmark⟩ := h.known hl
      cases hx.symm.trans ho
      rcases hwait with hwait | hwait <;> simp [hwait, LaunchStatus.final] at hmark
    | lost hx hclaimed hruns =>
      refine ⟨h.once, h.named, h.settled, fun hl => ?_⟩
      obtain ⟨o, ho, hmark⟩ := h.known hl
      cases hx.symm.trans ho
      rcases hmark with hmark | ⟨-, r, hr, hid⟩
      · simp [hclaimed, LaunchStatus.final] at hmark
      · exact hruns r hr hid
    | recover hx hclaimed hr hid =>
      exact h.putOccurrence (Table.key_of_get hx) fun _ => rfl
    | abandon hph =>
      rcases hph with rfl | rfl
      · exact h.idle h.known
      · exact h.idle fun hl => absurd hl h.known
    | misfire _ _ hs => exact h.write (Abides.id_of_missed hs) fun hl => absurd hl h.known
    | skip _ _ hs => exact h.write (Abides.id_of_advance hs) fun hl => absurd hl h.known
    | enqueue _ _ hs =>
      exact h.write (Abides.id_of_advance (s := s.withQueued due) hs) fun hl => absurd hl h.known
    | decide _ => exact ⟨h.once, h.named, h.settled, h.known⟩
    | launch _ _ => exact h.launched _
    | refuse _ _ => exact ⟨h.once, h.named, h.settled, fun _ => h.known⟩
    | record hs => exact h.write (Abides.id_of_advance (s := s.begun now) hs) fun _ => rfl
    | strand hs =>
      refine ⟨h.once, h.named, h.settled, fun he => ?_⟩
      rw [Validating.advance _ _ _ _ hs] at he
      cases he
    | unrecorded _ hc he => exact ⟨h.once, h.named, h.settled, fun hcap => absurd hcap (hc _ he rfl)⟩
    | close =>
      rename_i e
      refine h.putOccurrence rfl fun hl => ?_
      by_cases hcap : e.code = .capacity
      · exact absurd hl (h.known hcap)
      · simp [closingRecord, recordValue, hcap, LaunchStatus.final]
    | unclosed hc he => exact ⟨h.once, hc _ he⟩

/-! ## Runs -/

/-- **No occurrence is launched twice.** In every run in which the process dies only when every
launched occurrence is marked, and commits are refused only as `Markable` allows. -/
theorem launchCount_le_one (cfg : SchedConfig) {t : Scheduler}
    (h : Machine.Reach (step cfg) (Meets Markable SchedWorld.Settled)
      init t) (scheduleId : String) (due : Stamp) :
    t.world.launchCount scheduleId due ≤ 1 := by
  have G : Governed cfg Markable Apart AtMostOnce
      (fun w => w.AtMostOnce ∧ w.Settled) SchedWorld.Settled :=
    (launchDiscipline cfg).governed
      ⟨⟨fun s hs => (nomatch hs), fun q hq => (nomatch hq), fun _ _ => Nat.zero_le 1⟩,
        fun _ _ _ ⟨_, hq, _⟩ => (nomatch hq)⟩
      fun w hw hsettled => ⟨hw, hsettled⟩
  have hsafe := G.safe_of_holds (G.reach h)
  refine le_trans (countP_mono_left fun q hq hthis => ?_)
    (hsafe.once (occurrenceId scheduleId due) (occurrenceId_ne_empty _ _))
  obtain ⟨hid, hdue⟩ := of_decide_eq_true hthis
  rw [decide_eq_true_eq, hsafe.formed q hq due hdue, hid]

def sampleSchedule : ScheduleDefinition where
  id := "s"
  name := "sample"
  pipelineId := "p"
  type := .oneTime
  at_ := some 0
  nextDueAt := some 0

theorem launchCount_sample : ∃ t, Machine.Reach (step {}) (Meets Markable SchedWorld.Settled)
      init t ∧ t.world.launchCount "s" 0 = 1 ∧ t.world.launchCount "s" 0 ≤ 1 := by
  obtain ⟨t, ht, hcount⟩ := Machine.exists_reach (M := step {}) (s := init)
    (C := Checked fun _ _ o => o.fault.isNone)
    (f := fun t => t.world.launchCount "s" 0) (v := 1)
    (enterCalls (.createSchedule sampleSchedule) 4 ++ enterCalls .processDue 9)
    (by decide +kernel)
  have ht' := ht.mono (D := Meets Markable SchedWorld.Settled) fun s l hl =>
    hl.meets fun _ _ _ hfault _ he => nomatch (Option.isNone_iff_eq_none.mp hfault).symm.trans he
  exact ⟨t, ht', hcount, launchCount_le_one {} ht' "s" 0⟩

/-- The first launch is refused for lack of capacity, which leaves the occurrence pending. The
second one succeeds, but the process dies before it is recorded. The pass after the restart
launches the occurrence again. -/
theorem launched_twice : ∃ t, Machine.Reach (step {}) Machine.always init t ∧
      t.world.launchCount "s" 0 = 2 :=
  Machine.exists_reach (enterCalls (.createSchedule sampleSchedule) 4 ++ enterCalls .processDue 5 ++
      [.call { refusal := some ⟨.capacity, "Concurrent run limit reached"⟩ }, .call {}] ++
      enterCalls .processDue 5 ++ [.crash] ++ enterCalls .processDue 5)
    (by decide +kernel)

end Laso
