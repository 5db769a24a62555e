import Laso.Scheduler.Machine

/-!
# How often an event is delivered to a trigger

As with schedules, the run of a delivery is stored before the delivery is marked as started. Here
nothing is looked for after a restart: a delivery that is `claimed` or `pending` is launched,
whether or not its run is stored already (`delivered_twice`).

As long as the process does not die, and the last attempt to write a mark is not refused, while a
launched delivery is not marked, and the record of a launch is not refused for lack of capacity,
every event is delivered to a trigger at most once (`deliveryCount_le_one`), whether it arrives
live, is replayed from the store or is left over from before.
-/

namespace Laso

open List Watch SchedWorld Scheduler SchedDb

/-- The request launches the delivery with this identifier. -/
def LaunchRequest.Delivers (q : LaunchRequest) (d : String) : Prop :=
  q.initiationType = "event" ∧ deliveryId q.triggerId q.eventId = d

instance (q : LaunchRequest) (d : String) : Decidable (q.Delivers d) :=
  inferInstanceAs (Decidable (_ ∧ _))

namespace SchedWorld

variable (w : SchedWorld)

/-- How many runs have been launched for an event and a trigger. -/
def deliveryCount (triggerId eventId : String) : Nat :=
  w.launches.countP fun q =>
    decide (q.initiationType = "event" ∧ q.triggerId = triggerId ∧ q.eventId = eventId)

/-- A run has been launched for the delivery with this identifier. -/
def Delivered (d : String) : Prop := ∃ q ∈ w.launches, q.Delivers d

/-- Every delivery that has been launched has a final record, except perhaps one. -/
def DeliveriesFinalBut (d' : String) : Prop :=
  ∀ d, d ≠ d' → w.Delivered d → ∃ x, w.db.deliveries.get d = some x ∧ x.status.final

/-- Every delivery that has been launched has a final record. No delivery has an empty
identifier. -/
def DeliveriesFinal : Prop :=
  ∀ d, w.Delivered d → ∃ x, w.db.deliveries.get d = some x ∧ x.status.final

def DeliveredOnce : Prop :=
  ∀ d, w.launches.countP (fun q => decide (q.Delivers d)) ≤ 1

/-- What may happen without the triggers taking part. -/
structure Beside (w w' : SchedWorld) : Prop where
  deliveries : w'.db.deliveries = w.db.deliveries
  launches : ∃ new, w'.launches = new ++ w.launches ∧ ∀ q ∈ new, q.initiationType ≠ "event"

end SchedWorld

/-- A commit may be refused, but the record of a launched delivery not for lack of capacity, and what
is written when a launch has failed only if every launched delivery has a final record. -/
def Deliverable (w : SchedWorld) (q : SchedReq) (o : SchedOracle) : Prop :=
  ∀ e, o.fault = some e →
    match q with
    | .commit [.delivery _, .event _] => e.code ≠ .capacity
    | .commit [.delivery _] => w.DeliveriesFinal
    | _ => True

lemma deliveryId_ne_empty (triggerId eventId : String) : deliveryId triggerId eventId ≠ "" := by
  intro h
  have := congrArg String.length h
  simp [deliveryId, String.length_append] at this

namespace SchedWorld.Beside

variable {w w₁ w₂ : SchedWorld} {o : SchedOracle}

lemma refl (w : SchedWorld) : w.Beside w := ⟨rfl, [], rfl, by simp⟩

lemma trans (h : w.Beside w₁) (h' : w₁.Beside w₂) : w.Beside w₂ where
  deliveries := h'.deliveries.trans h.deliveries
  launches := by
    obtain ⟨new, hnew, hall⟩ := h.launches
    obtain ⟨new', hnew', hall'⟩ := h'.launches
    refine ⟨new' ++ new, by rw [hnew', hnew, List.append_assoc], fun q hq => ?_⟩
    exact (mem_append.mp hq).elim (hall' q) (hall q)

lemma of_launches (hd : w₁.db.deliveries = w.db.deliveries) (hl : w₁.launches = w.launches) :
    w.Beside w₁ := ⟨hd, [], hl, by simp⟩

lemma delivered {d : String} (h : w.Beside w₁) (hd : w₁.Delivered d) : w.Delivered d := by
  obtain ⟨q, hq, hthis⟩ := hd
  obtain ⟨new, hnew, hall⟩ := h.launches
  rw [hnew] at hq
  rcases mem_append.mp hq with hq | hq
  · exact absurd hthis.1 (hall q hq)
  · exact ⟨q, hq, hthis⟩

lemma finalBut {d : String} (h : w.Beside w₁) (hw : w.DeliveriesFinalBut d) :
    w₁.DeliveriesFinalBut d := fun d' hd' hl => by
  rw [h.deliveries]
  exact hw d' hd' (h.delivered hl)

lemma final (h : w.Beside w₁) (hw : w.DeliveriesFinal) : w₁.DeliveriesFinal := fun d hl => by
  rw [h.deliveries]
  exact hw d (h.delivered hl)

lemma once (h : w.Beside w₁) (hw : w.DeliveredOnce) : w₁.DeliveredOnce := fun d => by
  obtain ⟨new, hnew, hall⟩ := h.launches
  have hzero : new.countP (fun q => decide (q.Delivers d)) = 0 :=
    countP_eq_zero.mpr fun q hq hthis => hall q hq (of_decide_eq_true hthis).1
  rw [hnew, countP_append, hzero, Nat.zero_add]
  exact hw d

lemma foldl_write {records : List SchedRecord} (h : ∀ record ∈ records, record.Besides)
    (db : SchedDb) : (records.foldl SchedDb.write db).deliveries = db.deliveries := by
  induction records generalizing db with
  | nil => rfl
  | cons record rest ih =>
    rw [foldl_cons, ih fun x hx => h x (mem_cons_of_mem _ hx)]
    have hrecord := h record mem_cons_self
    cases record with
    | delivery _ => exact hrecord.elim
    | schedule _ | occurrence _ | trigger _ | event _ => rfl

lemma transact {β : Type} {x : Except Error β × SchedDb} (h : x.2.deliveries = w.db.deliveries) :
    w.Beside (w.transact o x).2 := by
  unfold SchedWorld.transact
  split
  · exact refl w
  · exact of_launches h rfl

/-- **The effect of calls for schedules.** -/
lemma perform {cfg : SchedConfig} {q : SchedReq} (h : q.Besides) :
    w.Beside (w.perform cfg o q).2 := by
  cases q with
  | claimDelivery x => exact h.elim
  | commit records =>
    refine transact ?_
    unfold commit
    split
    · rfl
    · exact foldl_write h w.db
  | dispatch q =>
    show w.Beside (w.dispatch cfg o q).2
    unfold dispatch
    split
    · exact refl w
    refine ⟨rfl, [q], rfl, fun q' hq' => ?_⟩
    rw [mem_singleton.mp hq']
    exact h
  | receive e =>
    show w.Beside (w.receive cfg e)
    unfold receive
    split
    · exact refl w
    · exact of_launches rfl rfl
  | claimOccurrence x => exact transact rfl
  | now | event => exact of_launches rfl rfl
  | listSchedules _ | getSchedule _ | getOccurrence _ | listRuns _ | getRun _ | listTriggers _
  | getTrigger _ | listDeliveries _ | getDelivery _ | listEvents _ | getEvent _ => exact refl w

end SchedWorld.Beside

/-! ## One delivery -/

def DeliveriesIdle (w : SchedWorld) : Prop := w.DeliveredOnce ∧ w.DeliveriesFinal

/-- The observer for triggers. -/
abbrev deliveryWatch (cfg : SchedConfig) : Watch schedSig SchedWorld :=
  schedWatch cfg Deliverable Beside DeliveredOnce

variable {σ : Type} {cfg : SchedConfig} {w w' : SchedWorld} {v : σ} {d : String}

lemma SchedWorld.DeliveriesFinal.but (h : w.DeliveriesFinal) (d : String) :
    w.DeliveriesFinalBut d := fun d' _ hl => h d' hl

lemma SchedWorld.DeliveriesFinalBut.write (h : w.DeliveriesFinalBut d) {x : TriggerDelivery}
    (hx : x.id = d) (hfinal : w.Delivered d → x.status.final)
    (hput : w'.db.deliveries = w.db.deliveries.put x) (hl : w'.launches = w.launches) :
    w'.DeliveriesFinal := fun d' hd' => by
  unfold SchedWorld.Delivered at hd'
  rw [hl] at hd'
  rw [hput]
  by_cases heq : d' = d
  · subst heq
    exact ⟨x, by rw [← hx]; exact Table.get_put_self _ x, hfinal hd'⟩
  · obtain ⟨y, hy, hyfinal⟩ := h d' heq hd'
    exact ⟨y, by rw [Table.get_put_ne fun hk => heq (hk.symm.trans hx), hy], hyfinal⟩

lemma SchedWorld.DeliveredOnce.launched (h : w.DeliveredOnce) {q : LaunchRequest}
    (hnot : ∀ d, q.Delivers d → ¬w.Delivered d) (id : String) :
    (w.launched id q).DeliveredOnce := fun d => by
  rw [SchedWorld.launched, countP_cons]
  split
  · rename_i hthis
    have hzero : w.launches.countP (fun q => decide (q.Delivers d)) = 0 :=
      countP_eq_zero.mpr fun q' hq' hd =>
        hnot d (of_decide_eq_true hthis) ⟨q', hq', of_decide_eq_true hd⟩
    rw [hzero]
  · exact h d

lemma SchedWorld.DeliveriesFinal.launched (h : w.DeliveriesFinal) {q : LaunchRequest}
    (hq : ∀ d', q.Delivers d' → d' = d) (id : String) :
    (w.launched id q).DeliveriesFinalBut d := fun d' hd' hl => by
  obtain ⟨q', hq', hthis⟩ := hl
  rcases mem_cons.mp hq' with rfl | hq'
  · exact absurd (hq d' hthis) hd'
  · exact h d' ⟨q', hq', hthis⟩

variable {E : Error → SchedWorld → σ → Prop}

lemma wp_commitDelivery {records : List SchedRecord} (h : w.DeliveredOnce)
    (hid : ∀ record ∈ records, recordId record ≠ "")
    {Q : Unit → SchedWorld → σ → Prop}
    (hok : ∀ w₁, w.Beside w₁ → Q () (w₁.write records) v)
    (hfault : ∀ w₁ o e, w.Beside w₁ → Deliverable w₁ (.commit records) o → o.fault = some e →
      E e w₁ v) :
    (deliveryWatch cfg).wp (commitRecords records) Q E w v := by
  refine of_bind (wp_query h fun w₁ o hR hc => ?_)
  simp only [SchedWorld.perform]
  cases hf : o.fault with
  | some e =>
    rw [transact_error hf]
    exact hfault w₁ o e hR hc hf
  | none =>
    rw [transact_ok hf, commit_of_named hid]
    exact hok w₁ hR

lemma keeps_besides {α : Type} {x : SchedOp σ α} (h : x.Only SchedReq.Besides) :
    (deliveryWatch cfg).Keeps (fun w _ => DeliveriesIdle w) x :=
  keeps_of_only h fun q hq w hw => ⟨hw.1, fun _ _ ⟨w₁, o, hR, _, hp⟩ => by
    have hbeside : w₁.Beside (w₁.perform cfg o q).2 := Beside.perform hq
    rw [hp] at hbeside
    exact ⟨(hR.trans hbeside).once hw.1, (hR.trans hbeside).final hw.2⟩⟩

variable {t : TriggerDefinition}

lemma wp_triggerEvent {type : String} {source : SourceEvent}
    {extra : List (String × Json)} (h : w.DeliveredOnce) :
    (deliveryWatch cfg).wp (triggerEvent type t source extra)
      (fun e w' _ => w.Beside w' ∧ e.id ≠ "") E w v := by
  refine of_bind (wp_query h fun w₁ o hR _ => ?_)
  exact of_if (⟨hR.trans (Beside.perform trivial), (cfg.uuids.draw_ne_empty _)⟩)
    (⟨hR.trans (Beside.perform trivial), (cfg.uuids.draw_ne_empty _)⟩)

/-- The rule of `launch`: a delivery that has not been launched is launched. -/
lemma wp_launchDelivery {e : SourceEvent} {x : TriggerDelivery}
    (h : DeliveriesIdle w) (hx : x.id = deliveryId t.id e.id)
    (hnot : ¬w.Delivered (deliveryId t.id e.id)) :
    (deliveryWatch cfg).wp (launchDelivery t e x) (fun _ w' _ => DeliveriesIdle w')
      (fun _ w' _ => DeliveriesIdle w') w v := by
  -- In the handler the launch has failed, or its record has been refused.
  refine (wp_tryCatch _ _).mpr (wp_mono
    (E := fun err w' _ => w'.DeliveredOnce ∧ w'.DeliveriesFinalBut (deliveryId t.id e.id) ∧
      (err.code = .capacity → ¬w'.Delivered (deliveryId t.id e.id))) ?_ (fun _ _ _ h' => h') ?_)
  · refine of_bind (wp_query h.1 fun w₁ o hR _ => ?_)
    have honce := hR.once h.1
    have hfinal := hR.final h.2
    have hnot₁ : ¬w₁.Delivered (deliveryId t.id e.id) := fun hl => hnot (hR.delivered hl)
    refine of_bind ?_
    simp only [SchedWorld.perform]
    cases hrefusal : o.refusal with
    | some err =>
      rw [dispatch_refused hrefusal]
      exact ⟨honce, hfinal.but _, fun _ => hnot₁⟩
    | none =>
    rw [dispatch_ok hrefusal]
    have hthis : ∀ d, (t.request e).Delivers d → d = deliveryId t.id e.id := fun d hd => hd.2.symm
    have honce₂ := honce.launched (fun d hd => hthis d hd ▸ hnot₁) (cfg.uuids.draw w₁.issued)
    have hbut₂ := hfinal.launched hthis (cfg.uuids.draw w₁.issued)
    refine of_bind (wp_mono (wp_triggerEvent honce₂ (E := fun _ _ _ => False)) ?_ (by simp))
    rintro ev w₃ v₃ ⟨hR₃, hev⟩
    refine of_bind (wp_commitDelivery (hR₃.once honce₂) ?_ (fun w₄ hR₄ => ?_)
      fun w₄ o' err hR₄ hc hf => ?_)
    · simp only [forall_mem_cons]
      refine ⟨?_, hev, by simp⟩
      rw [hx]
      exact deliveryId_ne_empty _ _
    · have hR' := hR₃.trans hR₄
      refine keeps_besides (SchedReq.Besides.of_neutral (SchedReq.Neutral.emitEvent ev)) _ v₃
        ⟨hR'.once honce₂, ?_⟩
      exact (hR'.finalBut hbut₂).write (x := { x with
        status := .started, runId := cfg.uuids.draw w₁.issued }) hx (fun _ => rfl) rfl rfl
    · have hR' := hR₃.trans hR₄
      exact ⟨hR'.once honce₂, hR'.finalBut hbut₂, fun hcode => absurd hcode (hc err hf)⟩
  rintro err w₁ v₁ ⟨honce, hbut, hcap⟩
  refine wp_commitDelivery honce ?_ (fun w₂ hR => ?_) fun w₂ o e' hR hc hf => ?_
  · simp only [forall_mem_singleton]
    rw [hx]
    exact deliveryId_ne_empty _ _
  · refine ⟨hR.once honce, (hR.finalBut hbut).write (x := { x with
      status := if err.code = .capacity then .pending else .failed }) hx (fun hl => ?_) rfl rfl⟩
    have hcode : err.code ≠ .capacity := fun hcode => hcap hcode (hR.delivered hl)
    simp [hcode, LaunchStatus.final]
  · exact ⟨hR.once honce, hc e' hf⟩

lemma DeliveriesIdle.beside (h : DeliveriesIdle w) (hR : w.Beside w') : DeliveriesIdle w' :=
  ⟨hR.once h.1, hR.final h.2⟩

lemma wp_findDelivery (h : DeliveriesIdle w) : (deliveryWatch cfg).wp (findDelivery d)
      (fun found w' _ => DeliveriesIdle w' ∧ ∀ x, found = some (some x) → x.id = d ∧ ¬w'.Delivered d)
      (fun _ w' _ => DeliveriesIdle w') w v := by
  refine (wp_tryCatch _ _).mpr (of_bind (wp_query h.1 fun w₁ o hR _ => ?_))
  have h₁ := h.beside hR
  refine of_bind (wp_attempt (fun x hx => ?_) fun err _ => ?_)
  · have hget := find_eq_ok (read_eq_ok hx)
    refine of_ite ⟨fun _ => ⟨h₁, nofun⟩, fun hfinal => ?_⟩
    refine of_if (⟨h₁, ?_⟩) (⟨h₁, nofun⟩)
    rintro y ⟨⟩
    refine ⟨Table.key_of_get hget, fun hl => hfinal ?_⟩
    obtain ⟨y, hy, hyfinal⟩ := h₁.2 d hl
    cases hget.symm.trans hy
    exact hyfinal
  · exact of_if (⟨h₁, nofun⟩) h₁

/-- **`process_trigger` launches no delivery again.** -/
lemma keeps_processTrigger (t : TriggerDefinition) (e : SourceEvent) :
    (deliveryWatch cfg).Keeps (fun w _ => DeliveriesIdle w)
      (processTrigger cfg t e : SchedOp σ Unit) := by
  refine keeps_if (keeps_pure _) <| keeps_ite (fun _ => ?_)
    fun _ w v h => ?_
  · refine keeps_besides (SchedReq.Besides.of_neutral ?_)
    exact .bind (SchedReq.Neutral.triggerEvent _ _ _ _) fun _ => SchedReq.Neutral.emitEvent _
  refine of_bind (wp_mono (wp_findDelivery h) ?_ fun _ _ _ h' => h')
  rintro found w₁ v₁ ⟨h₁, hfound⟩
  split
  · exact h₁
  · rename_i x
    obtain ⟨hid, hnot⟩ := hfound x rfl
    exact wp_launchDelivery h₁ hid hnot
  refine of_bind (wp_query h₁.1 fun w₂ o hR _ => of_bind ?_)
  have h₂ := h₁.beside hR
  simp only [SchedWorld.perform]
  cases hf : o.fault with
  | some err =>
    rw [transact_error hf]
    exact h₂
  | none =>
  rw [transact_ok hf]
  cases hget : w₂.db.deliveries.get (Keyed.key (newDelivery t e)) with
  | some x =>
    rw [claim_taken (deliveryId_ne_empty t.id e.id) hget]
    exact of_ite ⟨(by simp), fun _ => h₂⟩
  | none =>
  rw [claim_free (deliveryId_ne_empty t.id e.id) hget]
  have hnot : ¬w₂.Delivered (deliveryId t.id e.id) := fun hl => by
    obtain ⟨x, hx, -⟩ := h₂.2 _ hl
    cases hget.symm.trans hx
  refine of_ite ⟨fun _ => ?_, by simp⟩
  refine wp_launchDelivery ⟨h₂.1, ?_⟩ rfl hnot
  exact (h₂.2.but _).write rfl (fun hl => absurd hl hnot) rfl rfl

lemma keeps_deliver (e : SourceEvent) (l : List TriggerDefinition) :
    (deliveryWatch cfg).Keeps (fun w _ => DeliveriesIdle w) (deliver cfg e l : SchedOp σ Unit) := by
  induction l with
  | nil => exact keeps_pure _
  | cons t rest ih =>
    exact keeps_bind (keeps_tryCatch (keeps_processTrigger t e) fun _ => keeps_pure _) fun _ => ih

lemma keeps_besides_query {q : SchedReq} (hq : q.Besides) :
    (deliveryWatch cfg).Keeps (fun w _ => DeliveriesIdle w) (query q : SchedOp σ q.Resp) :=
  keeps_besides (SchedOp.only_query hq)

lemma keeps_replayDeliveries (l : List TriggerDelivery) :
    (deliveryWatch cfg).Keeps (fun w _ => DeliveriesIdle w)
      (replayDeliveries cfg l : SchedOp σ Unit) := by
  induction l with
  | nil => exact keeps_pure _
  | cons x rest ih =>
    refine keeps_when (fun _ => keeps_tryCatch ?_ fun _ => keeps_pure _) fun _ => ih
    refine keeps_bind (keeps_besides_query trivial) fun _ => ?_
    refine keeps_bind (keeps_ofExcept _) fun t => ?_
    refine keeps_bind (keeps_besides_query trivial) fun _ => ?_
    exact keeps_bind (keeps_ofExcept _) fun e => keeps_processTrigger t e

lemma keeps_replayPendingDeliveries : (deliveryWatch cfg).Keeps (fun w _ => DeliveriesIdle w)
      (replayPendingDeliveries cfg : SchedOp σ Unit) := by
  refine keeps_bind (keeps_besides_query trivial) fun _ => ?_
  exact keeps_bind (keeps_ofExcept _) fun l => keeps_replayDeliveries l

lemma keeps_handleEvent (e : SourceEvent) :
    (deliveryWatch cfg).Keeps (fun w _ => DeliveriesIdle w) (handleEvent cfg e : SchedOp σ Unit) := by
  refine keeps_bind (keeps_besides_query trivial) fun _ => ?_
  refine keeps_bind (keeps_ofExcept _) fun l => ?_
  refine keeps_bind (keeps_deliver e l) fun _ => keeps_if ?_ (keeps_pure _)
  exact keeps_besides (SchedOp.only_ignoreErrors (SchedReq.Besides.reconcileCompletion e))

/-! ## Runs -/

lemma Outside.beside (cfg : SchedConfig) (w : SchedWorld) (x : Outside) :
    w.Beside (x.perform cfg w) := by
  cases x with
  | publish e => exact Beside.perform (q := .receive e) (o := {}) trivial
  | startRun | advanceRun _ _ | storeEvent _ => exact .of_launches rfl rfl

lemma deliveries_governed (cfg : SchedConfig) :
    Governed cfg Deliverable Beside DeliveredOnce DeliveriesIdle DeliveriesFinal where
  start := ⟨fun _ => Nat.zero_le 1, fun _ ⟨_, hq, _⟩ => nomatch hq⟩
  safe_idle _ h := h.1
  rely_trans _ _ _ h h' := h.trans h'
  rely_refl := .refl
  rely_outside w x := x.beside cfg w
  rely_pending _ _ := .of_launches rfl rfl
  rely_safe _ _ h hR := hR.once h
  rely_idle _ _ h hR := h.beside hR
  crash _ h hfinal := ⟨h, hfinal⟩
  code entry pending p rest w hcode h := by
    cases entry with
    | handleEvent =>
      cases pending with
      | nil => cases hcode
      | cons e _ =>
        cases hcode
        exact sat_body (keeps_handleEvent e w () h)
    | replayPendingDeliveries =>
      cases hcode
      exact sat_body (keeps_replayPendingDeliveries w () h)
    | processDue =>
      cases hcode
      exact sat_body (keeps_besides (SchedReq.Besides.processDue cfg) w 0 h)
    | createSchedule s =>
      cases hcode
      exact sat_body (keeps_besides (SchedReq.Besides.createSchedule cfg s) w () h)
    | updateSchedule s =>
      cases hcode
      exact sat_body (keeps_besides (SchedReq.Besides.updateSchedule cfg s) w () h)
    | setScheduleEnabled id b =>
      cases hcode
      exact sat_body (keeps_besides (SchedReq.Besides.setScheduleEnabled cfg id b) w () h)
    | deleteSchedule id =>
      cases hcode
      exact sat_body (keeps_besides (SchedReq.Besides.deleteSchedule id) w () h)
    | replayEvents =>
      cases hcode
      exact sat_body (keeps_besides (SchedReq.Besides.of_neutral
        (SchedReq.Neutral.replayEvents cfg)) w () h)
    | createTrigger t =>
      cases hcode
      exact sat_body (keeps_besides (SchedReq.Besides.of_neutral
        (SchedReq.Neutral.createTrigger cfg t)) w () h)
    | updateTrigger t =>
      cases hcode
      exact sat_body (keeps_besides (SchedReq.Besides.of_neutral
        (SchedReq.Neutral.updateTrigger cfg t)) w () h)
    | setTriggerEnabled id b =>
      cases hcode
      exact sat_body (keeps_besides (SchedReq.Besides.of_neutral
        (SchedReq.Neutral.setTriggerEnabled id b)) w () h)
    | deleteTrigger id =>
      cases hcode
      exact sat_body (keeps_besides (SchedReq.Besides.of_neutral
        (SchedReq.Neutral.deleteTrigger id)) w () h)

/-- **No event is delivered twice to a trigger.** In every run in which the process dies only when
every launched delivery has a final record, and commits are refused only as `Deliverable` allows. -/
theorem deliveryCount_le_one (cfg : SchedConfig) {t : Scheduler}
    (h : Machine.Reach (step cfg) (Meets Deliverable DeliveriesFinal)
      init t) (triggerId eventId : String) :
    t.world.deliveryCount triggerId eventId ≤ 1 := by
  have G := deliveries_governed cfg
  have honce := G.safe_of_holds (G.reach h)
  refine le_trans (countP_mono_left fun q _ hthis => ?_) (honce (deliveryId triggerId eventId))
  obtain ⟨htype, htrigger, hevent⟩ := of_decide_eq_true hthis
  exact decide_eq_true ⟨htype, by rw [htrigger, hevent]⟩

def sampleTrigger : TriggerDefinition where
  id := "t"
  name := "sample"
  pipelineId := "p"
  eventType := "ping"

def sampleEvent : SourceEvent where
  id := "e"
  type := "ping"

theorem deliveryCount_sample : ∃ t, Machine.Reach (step {}) (Meets Deliverable DeliveriesFinal)
      init t ∧ t.world.deliveryCount "t" "e" = 1 ∧ t.world.deliveryCount "t" "e" ≤ 1 := by
  obtain ⟨t, ht, hcount⟩ := Machine.exists_reach (M := step {}) (s := init)
    (C := Checked fun _ _ o => o.fault.isNone)
    (f := fun t => t.world.deliveryCount "t" "e") (v := 1)
    (enterCalls (.createTrigger sampleTrigger) 5 ++ [.outside (.publish sampleEvent)] ++
      enterCalls .handleEvent 1 ++ enterCalls .handleEvent 7)
    (by decide +kernel)
  have ht' := ht.mono (D := Meets Deliverable DeliveriesFinal) fun s l hl =>
    hl.meets fun _ _ _ hfault _ he => nomatch (Option.isNone_iff_eq_none.mp hfault).symm.trans he
  exact ⟨t, ht', hcount, deliveryCount_le_one {} ht' "t" "e"⟩

/-- The process dies after the run of a delivery has been stored and before the delivery is marked.
The event is replayed from the store, and the delivery is still claimed. -/
theorem delivered_twice : ∃ t, Machine.Reach (step {}) Machine.always init t ∧
      t.world.deliveryCount "t" "e" = 2 :=
  Machine.exists_reach (enterCalls (.createTrigger sampleTrigger) 5 ++
      [.outside (.storeEvent sampleEvent), .outside (.publish sampleEvent)] ++
      enterCalls .handleEvent 1 ++ enterCalls .handleEvent 4 ++ [.crash] ++
      enterCalls .replayEvents 3 ++ enterCalls .handleEvent 1 ++
      enterCalls .handleEvent 3)
    (by decide +kernel)

end Laso
