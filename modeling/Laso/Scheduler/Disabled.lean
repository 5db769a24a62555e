import Laso.Scheduler.Overlap

/-!
# Schedules that are switched off

A pass skips a schedule that is deleted, and one that is disabled unless it has an occurrence queued.
So a schedule that is disabled while an occurrence waits is run once more
(`disabled_schedule_runs`). Without a queued occurrence it is **off** (`ScheduleDefinition.Off`): no
pass looks at it, nothing a run that ends writes queues anything, and the user has to switch it on
again (`off_stays_quiet`).
-/

namespace Laso

open List Machine SchedWorld Scheduler

def ScheduleDefinition.Off (s : ScheduleDefinition) : Prop :=
  s.deleted ∨ (s.enabled = false ∧ s.queued = false)

instance (s : ScheduleDefinition) : Decidable s.Off := inferInstanceAs (Decidable (_ ∨ _))

/-- No operation of the user stores the schedule as one that is on: what `create_schedule`,
`update_schedule`, `set_schedule_enabled` and `delete_schedule` commit is a schedule and an event. -/
def StaysOff (id : String) (_ : SchedWorld) (q : SchedReq) (_ : SchedOracle) : Prop :=
  match q with
  | .commit [.schedule s, .event _] => s.id = id → s.Off
  | _ => True

namespace SchedWorld

/-- The identifiers of the runs of a schedule, in the order in which they were launched. -/
def runIds (w : SchedWorld) (id : String) : List String :=
  (w.db.runs.filter fun r => r.scheduleId = id).map RunRow.id

/-- All schedules have identifiers, that of this one is off if it is stored, and its runs are
these. -/
structure OffWith (id : String) (runs : List String) (w : SchedWorld) : Prop where
  named : ∀ s, w.Stored s → s.id ≠ ""
  off : ∀ s, w.db.schedules.get id = some s → s.Off
  runs : w.runIds id = runs

end SchedWorld

section Runs

variable {id : String} {w w' : SchedWorld}

lemma RunsGrow.filter_eq {rows rows' : List RunRow} (h : RunsGrow rows rows') (hid : id ≠ "") :
    (rows'.filter fun r => r.scheduleId = id).map RunRow.id =
      (rows.filter fun r => r.scheduleId = id).map RunRow.id := by
  induction rows generalizing rows' with
  | nil =>
    have hnone : (rows'.filter fun r => r.scheduleId = id) = [] := by
      rw [filter_eq_nil_iff]
      intro r hr hsid
      obtain ⟨i, hi⟩ := mem_iff_getElem?.mp hr
      exact hid ((of_decide_eq_true hsid).symm.trans (h.added i r hi rfl).1)
    rw [hnone]
    rfl
  | cons r rest ih =>
    obtain ⟨r', hr', hon⟩ := h.kept 0 r rfl
    cases rows' with
    | nil => cases hr'
    | cons r₁ rest' =>
    cases hr'
    have hrest := ih ⟨fun i a ha => h.kept (i + 1) a ha, fun i a ha ha' => h.added (i + 1) a ha ha'⟩
    by_cases hsid : r.scheduleId = id
    · have hsid' : r'.scheduleId = id := hon.scheduleId.trans hsid
      simp only [filter_cons, hsid, hsid', decide_true, if_true, map_cons, hon.id, hrest]
    · have hsid' : r'.scheduleId ≠ id := fun he => hsid (hon.scheduleId.symm.trans he)
      simp only [filter_cons, hsid, hsid', decide_false, Bool.false_eq_true, if_false, hrest]

variable {s : ScheduleDefinition} {runs : List String}

lemma SchedWorld.OffWith.apart (h : w.OffWith id runs) (hR : w.Apart w')
    (hid : id ≠ "") : w'.OffWith id runs where
  named s hs := h.named s (by rw [Stored, ← hR.schedules]; exact hs)
  off s hs := h.off s (hR.schedules ▸ hs)
  runs := (hR.runs.filter_eq hid).trans h.runs

lemma SchedWorld.OffWith.off_of_stored
    (h : w.OffWith id runs) (hs : w.Stored s) (heq : s.id = id) : s.Off := by
  subst heq
  exact h.off s hs

lemma Handles.not_off {now : WallTime} {due : Stamp}
    (h : Handles now s due w) : ¬s.Off := by
  rintro (hdeleted | ⟨henabled, hqueued⟩)
  · rw [h.kept] at hdeleted
    cases hdeleted
  rcases h.live with hlive | hlive
  · rw [henabled] at hlive
    cases hlive
  · rw [hqueued] at hlive
    cases hlive

lemma SchedWorld.OffWith.put (h : w.OffWith id runs)
    (hs : w'.db.schedules = w.db.schedules.put s) (hr : w'.db.runs = w.db.runs)
    (hnamed : ∀ t, w'.Stored t → t.id ≠ "") (hoff : s.id = id → s.Off) : w'.OffWith id runs where
  named := hnamed
  off t ht := by
    rw [hs, Table.get_put] at ht
    split at ht
    · rename_i heq
      cases ht
      exact hoff heq
    · exact h.off t ht
  runs := by
    unfold runIds
    rw [hr]
    exact h.runs

end Runs

/-! ## The discipline -/

section Moves

variable {cfg : SchedConfig} {cond : SchedCond} {now : WallTime}
  {s : ScheduleDefinition} {due : Stamp} {ph ph' : Option Phase} {w w' : SchedWorld}

lemma Move.writes (h : Move cfg cond now s due ph w ph' w') : (w'.db.schedules = w.db.schedules ∨
      ∃ s', s'.id = s.id ∧ w'.db.schedules = w.db.schedules.put s') ∧
    (w'.db.runs = w.db.runs ∨ ∃ id, w'.db.runs = w.db.runs ++ [rowOf id (s.request due)]) := by
  cases h with
  | misfire _ _ hs => exact ⟨.inr ⟨_, (MovesOn.of_missed hs).id, rfl⟩, .inl rfl⟩
  | skip _ _ hs | enqueue _ _ hs | record hs =>
    have hid := (MovesOn.of_advance hs).id
    exact ⟨.inr ⟨_, hid, rfl⟩, .inl rfl⟩
  | launch _ _ => exact ⟨.inl rfl, .inr ⟨_, rfl⟩⟩
  | look | claim | retry | lost | recover | abandon | decide | refuse | strand | unrecorded | close |
    unclosed => exact ⟨.inl rfl, .inl rfl⟩

lemma Move.named (h : Move cfg cond now s due ph w ph' w') (hname : s.id ≠ "")
    (hw : ∀ t, w.Stored t → t.id ≠ "") : ∀ t, w'.Stored t → t.id ≠ "" := by
  rcases h.writes.1 with hsame | ⟨s', hid, hput⟩
  · intro t ht
    refine hw t ?_
    rw [Stored, ← hsame]
    exact ht
  · exact named_put hw hput (hid ▸ hname)

end Moves

/-- The discipline that every schedule has an identifier. -/
def namedDiscipline (cfg : SchedConfig) : Discipline cfg fun _ _ _ => True where
  idle w := ∀ s, w.Stored s → s.id ≠ ""
  busy _ s _ _ w := s.id ≠ "" ∧ ∀ t, w.Stored t → t.id ≠ ""
  safe w := ∀ s, w.Stored s → s.id ≠ ""
  safe_idle _ h := h
  safe_busy _ _ _ _ _ h := h.2
  named _ s h := h s
  apart_idle w w' h hR s hs := h s (by rw [Stored, ← hR.schedules]; exact hs)
  apart_busy now s due ph w w' h hR :=
    ⟨h.1, fun t ht => h.2 t (by rw [Stored, ← hR.schedules]; exact ht)⟩
  apart_safe w w' h hR s hs := h s (by rw [Stored, ← hR.schedules]; exact hs)
  tick _ _ h := h
  edit _ _ h he := he.named h
  move now s due ph w ph' w' h hm := by
    cases ph with
    | none =>
      cases hm with
      | look hw _ => exact ⟨hw.named, h⟩
    | some ph =>
    have hnamed := hm.named h.1 h.2
    cases ph' with
    | none => exact hnamed
    | some _ => exact ⟨h.1, hnamed⟩

/-- While an occurrence of another schedule is handled. -/
structure HandlesOther (id : String) (runs : List String) (s : ScheduleDefinition) (w : SchedWorld) :
    Prop where
  off : w.OffWith id runs
  named : s.id ≠ ""
  other : s.id ≠ id

lemma HandlesOther.move {cfg : SchedConfig} {cond : SchedCond}
    {now : WallTime} {s : ScheduleDefinition} {due : Stamp} {ph ph' : Option Phase}
    {w w' : SchedWorld} {id : String} {runs : List String} (h : HandlesOther id runs s w)
    (hm : Move cfg cond now s due ph w ph' w') : HandlesOther id runs s w' := by
  refine ⟨⟨hm.named h.named h.off.named, fun t ht => h.off.off t ?_, ?_⟩, h.named, h.other⟩
  · exact (hm.others.2 id h.other.symm).symm.trans ht
  have hruns := h.off.runs
  unfold runIds at hruns ⊢
  rcases hm.writes.2 with hsame | ⟨runId, hlaunched⟩
  · rw [hsame]
    exact hruns
  -- the run belongs to the schedule that is handled
  have hother : (rowOf runId (s.request due)).scheduleId ≠ id := h.other
  rw [hlaunched, filter_append, filter_cons_of_neg (by simpa using hother), filter_nil, append_nil]
  exact hruns

lemma Edit.offWith {cfg : SchedConfig} {id : String} {runs : List String} {w w' : SchedWorld}
    (he : Edit cfg (StaysOff id) w w') (h : w.OffWith id runs) : w'.OffWith id runs := by
  have hruns := he.same.2.1
  have hnamed := he.named h.named
  cases he with
  | complete hs =>
    refine h.put rfl hruns hnamed fun heq => ?_
    have hoff := h.off_of_stored hs heq
    exact hoff
  | release hs hq =>
    refine h.put rfl hruns hnamed fun heq => ?_
    have hoff := h.off_of_stored hs heq
    exact hoff.imp_right fun hdisabled => ⟨hdisabled.1, rfl⟩
  | write _ _ hc | enable _ hc | renew _ _ _ hc | begun _ _ _ _ _ _ hc =>
    exact h.put rfl hruns hnamed hc

/-- The discipline that a schedule is not run while it is off. -/
def offDiscipline (cfg : SchedConfig) (id : String) (hid : id ≠ "") (runs : List String) :
    Discipline cfg (StaysOff id) where
  idle w := w.OffWith id runs
  busy _ s _ _ w := HandlesOther id runs s w
  safe w := w.OffWith id runs
  safe_idle _ h := h
  safe_busy _ _ _ _ _ h := h.off
  named _ s h := h.named s
  apart_idle _ _ h hR := h.apart hR hid
  apart_busy _ _ _ _ _ _ h hR := ⟨h.off.apart hR hid, h.named, h.other⟩
  apart_safe _ _ h hR := h.apart hR hid
  tick _ _ h := ⟨h.named, h.off, h.runs⟩
  edit _ _ h he := he.offWith h
  move now s due ph w ph' w' h hm := by
    cases ph with
    | none =>
      cases hm with
      | look hw _ => exact ⟨h, hw.named, fun heq => hw.not_off (h.off_of_stored hw.stored heq)⟩
    | some ph =>
    have hother := HandlesOther.move h hm
    cases ph' with
    | none => exact hother.off
    | some _ => exact hother

/-! ## Runs -/

lemma Scheduler.named_of_reach {cfg : SchedConfig} {t : Scheduler}
    (h : Reach (step cfg) always init t) :
    ∀ s, t.world.Stored s → s.id ≠ "" := by
  have G : Governed cfg _ Apart (namedDiscipline cfg).safe (namedDiscipline cfg).idle
      fun _ => True :=
    (namedDiscipline cfg).governed (fun s hs => (nomatch hs)) fun w hw _ => hw
  refine G.safe_of_holds (G.reach (h.mono fun s l _ => ?_))
  cases l <;> first | trivial | exact fun _ _ _ => trivial

/-- **A schedule that is off is not run.** Once a schedule is stored as deleted, or as disabled with
nothing queued, no run of it is launched in any run of the scheduler in which the user does not
store it as one that is on. -/
theorem off_stays_quiet (cfg : SchedConfig) {s t : Scheduler} {x : ScheduleDefinition}
    (hs : Reach (step cfg) always init s)
    (hidle : s.section_ = none) (hx : s.world.Stored x) (hoff : x.Off)
    (ht : Reach (step cfg) (Meets (StaysOff x.id) fun _ => True) s t) :
    t.world.runIds x.id = s.world.runIds x.id := by
  have hnamed := named_of_reach hs
  have G : Guarded cfg (StaysOff x.id) Apart (OffWith x.id (s.world.runIds x.id))
      (OffWith x.id (s.world.runIds x.id)) fun _ => True :=
    (offDiscipline cfg x.id (hnamed x hx) (s.world.runIds x.id)).guarded fun w hw _ => hw
  have hstart : s.world.OffWith x.id (s.world.runIds x.id) :=
    ⟨hnamed, fun y hy => Option.mem_unique hx hy ▸ hoff, rfl⟩
  have hholds : Governed.Holds cfg (StaysOff x.id) Apart (OffWith x.id (s.world.runIds x.id))
      (OffWith x.id (s.world.runIds x.id)) s := by
    unfold Governed.Holds
    rw [hidle]
    exact hstart
  exact (G.safe_of_holds (G.keeps ht hholds)).runs

/-- A check for `StaysOff`. -/
def staysOffCheck (id : String) (_ : SchedWorld) (q : SchedReq) (_ : SchedOracle) : Bool :=
  match q with
  | .commit [.schedule s, .event _] => decide (s.id = id → s.Off)
  | _ => true

lemma staysOff_of_check {id : String} {w : SchedWorld} {q : SchedReq} {o : SchedOracle}
    (h : staysOffCheck id w q o) : StaysOff id w q o := by
  unfold StaysOff
  split
  · exact of_decide_eq_true h
  · trivial

theorem off_stays_quiet_disabled : ∃ s t x, Reach (step {}) always init s ∧
      s.section_ = none ∧ s.world.Stored x ∧ x.Off ∧
      Reach (step {}) (Meets (StaysOff x.id) fun _ => True) s t ∧
      (s.world.runIds x.id).length = 1 ∧ t.world.runIds x.id = s.world.runIds x.id := by
  obtain ⟨s, t, hs, ht, hv, -⟩ := exists_reach_reach (M := step {})
    (s := init) (C := always) (D := Checked (staysOffCheck "i"))
    (f := fun s => (s.section_.isNone, (s.world.runIds "i").length,
      (s.world.db.schedules.get "i").map fun x => (x.id, decide x.Off)))
    (g := fun t => t.section_.isNone) (v := (true, 1, some ("i", true))) (w := true)
    (enterCalls (.createSchedule sampleInterval) 4 ++ enterCalls .processDue 9 ++
      enterCalls (.setScheduleEnabled "i" false) 4)
    (enterCalls .processDue 2 { time := 1000000000 }) (by decide +kernel)
  simp only [Prod.mk.injEq, Option.isNone_iff_eq_none, Option.map_eq_some_iff,
    decide_eq_true_eq] at hv
  obtain ⟨hidle, hruns, x, hx, hid, hoff⟩ := hv
  rw [← hid] at hx hruns ht
  have ht' := ht.mono (D := Meets (StaysOff x.id) fun _ => True) fun s l hl =>
    hl.meets fun _ _ _ => staysOff_of_check
  exact ⟨s, t, x, hs, hidle, hx, hoff, ht', hruns, off_stays_quiet {} hs hidle hx hoff ht'⟩

def OnlyPasses : Scheduler → Scheduler.Action → Prop
  | _, .enter .processDue | _, .call _ => True
  | _, _ => False

instance (s : Scheduler) : ∀ l, Decidable (OnlyPasses s l)
  | .enter entry => by rcases entry with ⟨⟩ <;> dsimp only [OnlyPasses] <;> infer_instance
  | .call _ => isTrue trivial
  | .crash | .outside _ => isFalse id

/-- The second occurrence of a schedule is queued while its first run goes on. Then the schedule is
disabled; the next pass runs it. -/
theorem disabled_schedule_runs : ∃ s t x, Reach (step {}) always init s ∧
      s.section_ = none ∧ s.world.Stored x ∧ x.enabled = false ∧
      Reach (step {}) OnlyPasses s t ∧
      (s.world.runIds x.id).length = 1 ∧ (t.world.runIds x.id).length = 2 := by
  obtain ⟨s, t, hs, ht, hv, hruns'⟩ := exists_reach_reach (M := step {})
    (s := init) (C := always) (D := OnlyPasses)
    (f := fun s => (s.section_.isNone, (s.world.runIds "i").length,
      (s.world.db.schedules.get "i").map fun x => (x.id, x.enabled)))
    (g := fun t => (t.world.runIds "i").length) (v := (true, 1, some ("i", false))) (w := 2)
    (enterCalls (.createSchedule sampleQueue) 4 ++ enterCalls .processDue 9 ++
      enterCalls .processDue 8 { time := 1000000000 } ++
      enterCalls (.setScheduleEnabled "i" false) 4)
    (enterCalls .processDue 7 { time := 1000000000 }) (by decide +kernel)
  simp only [Prod.mk.injEq, Option.isNone_iff_eq_none, Option.map_eq_some_iff] at hv
  obtain ⟨hidle, hruns, x, hx, hid, henabled⟩ := hv
  rw [← hid] at hx hruns hruns'
  exact ⟨s, t, x, hs, hidle, hx, henabled, ht, hruns, hruns'⟩

end Laso
