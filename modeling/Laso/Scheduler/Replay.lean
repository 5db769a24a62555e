import Laso.Scheduler.Coverage
import Laso.Scheduler.Deliveries

/-!
# What is replayed

After a restart `replay_events` posts the stored events again, each is then handed to the triggers,
and `replay_pending_deliveries` tries the deliveries again for which there was no capacity. All of
this works on the oldest `max_event_deliveries` rows of tables that only grow: an event or a pending
delivery behind them is never taken up (`page_hides_event`).

Of the rows on the page nothing is left out if the queue of events has room (`replay_covers`): every
stored event is queued, a queued event is offered to every trigger it matches, and every pending
delivery is offered again.
-/

namespace Laso

open List Watch Option Machine Scheduler

/-! ## Looking up deliveries -/

/-- The deliveries that have been looked up; `process_trigger` begins with it. -/
def noteDelivery (g : List String) : (q : SchedReq) → q.Resp → List String
  | .getDelivery id, _ => id :: g
  | _, _ => g

/-- The deliveries that the calls of a history have looked up. -/
def SchedHistory.deliveries (es : SchedHistory) : List String :=
  remembered (S := schedSig) noteDelivery [] es

/-- The store of triggers, events and deliveries as a pass sees it. -/
structure TriggerRows where
  triggers : List TriggerDefinition
  deliveries : List TriggerDelivery
  trigger : String → Except Error TriggerDefinition
  event : String → Except Error SourceEvent

def TriggerRows.Served (rows : TriggerRows) : (q : SchedReq) → q.Resp → Prop
  | .listTriggers limit, r => r = SchedDb.list rows.triggers limit
  | .listDeliveries limit, r => r = SchedDb.list rows.deliveries limit
  | .getTrigger id, r => r = rows.trigger id
  | .getEvent id, r => r = rows.event id
  | _, _ => True

structure TriggerDefinition.Takes (t : TriggerDefinition) (cfg : SchedConfig) (e : SourceEvent) :
    Prop where
  matched : t.matches e
  depth : e.triggerDepth < cfg.maxTriggerDepth

namespace Replay

variable {cfg : SchedConfig} {rows : TriggerRows} {σ α : Type} {g : List String} {id : String}
  {t : TriggerDefinition} {e : SourceEvent}

/-- The observer of the look-ups. -/
abbrev watch (rows : TriggerRows) : Watch schedSig (List String) :=
  Watch.noting noteDelivery (fun _ => rows.Served) fun _ _ => True

lemma mem_note (g : List String) (q : SchedReq) (r : q.Resp) (h : id ∈ g) :
    id ∈ noteDelivery g q r := by
  cases q with
  | getDelivery _ => exact mem_cons_of_mem _ h
  | _ => exact h

/-- Code that looks the delivery up, whatever becomes of it. -/
def Looks (rows : TriggerRows) (id : String) (x : SchedOp σ α) : Prop :=
  ∀ g v, (watch rows).wp x (fun _ g' _ => id ∈ g') (fun _ g' _ => id ∈ g') g v

lemma Looks.bind {β : Type} {x : SchedOp σ β} (h : Looks rows id x) (f : β → SchedOp σ α) :
    Looks rows id (x >>= f) := fun g v =>
  of_bind (wp_imp (h g v) fun b _ v' h' => wp_keeps mem_note (f b) v' h')

lemma Looks.ignoreErrors {x : SchedOp σ Unit} (h : Looks rows id x) :
    Looks rows id (ignoreErrors x) := fun g v =>
  (wp_tryCatch _ _).mpr (wp_imp (h g v) fun _ _ _ h => h)

lemma looks_rest {x : SchedOp σ Unit} {y : SchedOp σ α} (hy : Looks rows id y) :
    Looks rows id (Laso.ignoreErrors x >>= fun _ => y) := fun _ v =>
  of_bind ((wp_tryCatch _ _).mpr (wp_mono
    (wp_keeps (K := fun _ => True) (fun _ _ _ h => h) x v trivial)
    (fun _ g' v' _ => hy g' v') fun _ g' v' _ => hy g' v'))

lemma looks_findDelivery (id : String) :
    Looks rows id (findDelivery id : SchedOp σ (Option (Option TriggerDelivery))) := by
  intro g v
  refine (wp_tryCatch _ _).mpr (of_bind (of_call ⟨trivial, ?_⟩))
  rintro r _ ⟨-, rfl⟩
  exact wp_mono (wp_keeps (K := (id ∈ ·)) mem_note _ v mem_cons_self) (fun _ _ _ h => h)
    fun e _ v' h => wp_keeps mem_note _ v' h

/-- **`process_trigger` looks up the delivery** of an event that the trigger takes. -/
lemma looks_processTrigger (h : t.Takes cfg e) :
    Looks rows (deliveryId t.id e.id) (processTrigger cfg t e : SchedOp σ Unit) := by
  unfold processTrigger
  rw [if_neg (by simp [h.matched]), if_neg (by simpa using h.depth)]
  exact (looks_findDelivery _).bind _

lemma list_of_le {β : Type} (l : List β) {limit : Nat} (h : limit ≤ 10000) :
    SchedDb.list l limit = .ok (l.take limit) := if_neg (Nat.not_lt.mpr h)

/-- **The triggers of an event.** -/
lemma looks_deliver (h : t.Takes cfg e) {l : List TriggerDefinition} (ht : t ∈ l) :
    Looks rows (deliveryId t.id e.id) (deliver cfg e l : SchedOp σ Unit) := by
  induction l with
  | nil => cases ht
  | cons t' rest ih =>
    rcases mem_cons.mp ht with rfl | ht
    · exact (looks_processTrigger h).ignoreErrors.bind _
    · exact looks_rest (ih ht)

/-- **An event that is handled is offered to its triggers.** -/
lemma looks_handleEvent (hlimit : cfg.maxEventDeliveries ≤ 10000) (h : t.Takes cfg e)
    (ht : t ∈ rows.triggers.take cfg.maxEventDeliveries) :
    Looks rows (deliveryId t.id e.id) (handleEvent cfg e : SchedOp σ Unit) := by
  intro g v
  refine of_bind (of_call ⟨trivial, ?_⟩)
  rintro page _ ⟨hlist, -⟩
  rw [Eq.trans hlist (list_of_le _ hlimit)]
  refine of_bind (of_ok ?_)
  exact (looks_deliver h ht).bind _ _ v

variable {d : TriggerDelivery}

lemma looks_retry (h : t.Takes cfg e) (ht : rows.trigger d.triggerId = .ok t)
    (he : rows.event d.eventId = .ok e) :
    Looks rows (deliveryId t.id e.id) (do
      let t ← Code.ofExcept (← query (.getTrigger d.triggerId))
      let e ← Code.ofExcept (← query (.getEvent d.eventId))
      processTrigger cfg t e : SchedOp σ Unit) := by
  intro g v
  refine of_bind (of_call ⟨trivial, ?_⟩)
  rintro r _ ⟨hr, -⟩
  rw [show r = .ok t from Eq.trans hr ht]
  refine of_bind (of_ok ?_)
  refine of_bind (of_call ⟨trivial, ?_⟩)
  rintro r' _ ⟨hr', -⟩
  rw [show r' = .ok e from Eq.trans hr' he]
  exact of_bind (of_ok (looks_processTrigger h _ v))

lemma looks_replayDeliveries (h : t.Takes cfg e) (hd : d.status = .pending)
    (ht : rows.trigger d.triggerId = .ok t) (he : rows.event d.eventId = .ok e)
    {l : List TriggerDelivery} (hl : d ∈ l) :
    Looks rows (deliveryId t.id e.id) (replayDeliveries cfg l : SchedOp σ Unit) := by
  induction l with
  | nil => cases hl
  | cons d' rest ih =>
    unfold replayDeliveries
    rcases mem_cons.mp hl with rfl | hl
    · simp only [if_pos hd]
      exact (looks_retry h ht he).ignoreErrors.bind _
    split
    · exact looks_rest (ih hl)
    · exact ih hl

/-- **A pass over the deliveries offers each that is pending.** -/
lemma looks_replayPendingDeliveries (hlimit : cfg.maxEventDeliveries ≤ 10000) (h : t.Takes cfg e)
    (hd : d.status = .pending) (ht : rows.trigger d.triggerId = .ok t)
    (he : rows.event d.eventId = .ok e) (hl : d ∈ rows.deliveries.take cfg.maxEventDeliveries) :
    Looks rows (deliveryId t.id e.id) (replayPendingDeliveries cfg : SchedOp σ Unit) := by
  intro g v
  refine of_bind (of_call ⟨trivial, ?_⟩)
  rintro page _ ⟨hlist, -⟩
  rw [Eq.trans hlist (list_of_le _ hlimit)]
  exact of_bind (of_ok (looks_replayDeliveries h hd ht he hl _ v))

lemma Looks.mem_deliveries {x : SchedOp σ α} (h : Looks rows id x) {es : SchedHistory} {v : σ}
    {r : Except Error α × σ} (hes : (x.prog v).Returns es r) (hserved : ∀ e ∈ es, rows.Served e.1 e.2) :
    id ∈ es.deliveries := by
  have hpost := Watch.Sat.of_returns (h [] v) hes (Throughout.of_forall_mem hserved)
  rcases r with ⟨_ | _, _⟩ <;> exact hpost

/-! ### Posting the stored events -/

/-- The calls of `replay_events` are answered, and the queue has room for each of the events. -/
def Roomy (cfg : SchedConfig) (w : SchedWorld) : SchedReq → SchedOracle → Prop
  | .listEvents limit, o => o.fault = none ∧ limit ≤ 10000
  | .receive _, _ => w.pending.length < cfg.maxEventDeliveries
  | _, _ => True

instance decidableRoomy (cfg : SchedConfig) (w : SchedWorld) (q : SchedReq) (o : SchedOracle) :
    Decidable (Roomy cfg w q o) := by
  rcases q with ⟨⟩ <;> dsimp only [Roomy] <;> infer_instance

/-- Steps while `replay_events` is in progress. The rest of the system stores new events. -/
def Replaying (cfg : SchedConfig) (s : Scheduler) : Scheduler.Action → Prop
  | .call o => ∀ q k, s.section_ = some (.call q k) → Roomy cfg s.world q o
  | .outside (.storeEvent e) => s.world.db.events.get e.id = none
  | .outside _ => True
  | .enter _ | .crash => False

instance (cfg : SchedConfig) (s : Scheduler) : ∀ l, Decidable (Replaying cfg s l)
  | .call o =>
    match hp : s.section_ with
    | some (.call q k) =>
      have := decidableRoomy cfg s.world q o
      decidable_of_iff (Roomy cfg s.world q o)
        ⟨fun h q' k' heq => by cases hp.symm.trans heq; exact h, fun h => h q k hp⟩
    | some (.ret _) | none => isTrue fun _ _ heq => nomatch hp.symm.trans heq
  | .outside e => by rcases e with ⟨⟩ <;> dsimp only [Replaying] <;> infer_instance
  | .enter _ | .crash => isFalse fun h => h

inductive Posted (cfg : SchedConfig) (events : List SourceEvent) : Scheduler → Prop where
  | reading {w : SchedWorld} (stored : events <+: w.db.events.rows) : Posted cfg events
        { world := w, section_ := rest (SchedOp.body (replayEvents cfg) ()) }
  | posting {w : SchedWorld} (left : List SourceEvent)
      (posted : ∀ e ∈ events.take cfg.maxEventDeliveries, e ∈ left ∨ e ∈ w.pending) :
      Posted cfg events { world := w, section_ := rest (SchedOp.body (receiveAll left) ()) }

lemma mem_pending_receive {w : SchedWorld} {e e' : SourceEvent} (h : e ∈ w.pending) :
    e ∈ (w.receive cfg e').pending := by
  unfold SchedWorld.receive
  split
  · exact h
  · exact mem_append_left _ h

lemma mem_pending_outside {w : SchedWorld} {x : Outside} {e : SourceEvent} (h : e ∈ w.pending) :
    e ∈ (x.perform cfg w).pending := by
  cases x with
  | publish e' => exact mem_pending_receive h
  | startRun | advanceRun _ _ | storeEvent _ => exact h

lemma events_outside {s : Scheduler} {x : Outside} (hx : Replaying cfg s (.outside x)) :
    s.world.db.events.rows <+: (x.perform cfg s.world).db.events.rows := by
  cases x with
  | storeEvent e =>
    show _ <+: (s.world.db.events.put e).rows
    rw [Table.rows_put_of_none hx]
    exact prefix_append _ _
  | publish e =>
    show _ <+: (s.world.receive cfg e).db.events.rows
    unfold SchedWorld.receive
    split <;> exact prefix_rfl
  | startRun | advanceRun _ _ => exact prefix_rfl

/-- **One step of the replay.** -/
lemma Posted.step {events : List SourceEvent} {s s' : Scheduler} {l : Scheduler.Action}
    (h : Posted cfg events s) (hl : Replaying cfg s l) (hs : step cfg s l = some s') :
    Posted cfg events s' := by
  cases l with
  | enter _ => exact hl.elim
  | crash => exact hl.elim
  | outside x =>
    cases hs
    cases h with
    | reading stored => exact .reading (stored.trans (events_outside hl))
    | posting left posted => exact .posting left fun e he => (posted e he).imp_right mem_pending_outside
  | call o =>
  cases h with
  | @reading w stored =>
    obtain ⟨hfault, hlimit⟩ := (hl _ _ rfl)
    have hpage : w.perform cfg o (.listEvents cfg.maxEventDeliveries) =
        (.ok (w.db.events.rows.take cfg.maxEventDeliveries), w) := by
      simp only [SchedWorld.perform, SchedWorld.read, hfault, list_of_le _ hlimit]
      rfl
    have hstep : s' = { world := (w.perform cfg o (.listEvents cfg.maxEventDeliveries)).2
                        section_ := rest (((Code.ofExcept
                          (w.perform cfg o (.listEvents cfg.maxEventDeliveries)).1 >>=
                            receiveAll : SchedOp Unit Unit)).body ()) } :=
      (Option.some.inj hs).symm
    rw [hpage] at hstep
    rw [hstep]
    exact .posting _ fun e he => .inl ((stored.take _).subset he)
  | @posting w left posted =>
  cases left with
  | nil => cases hs
  | cons e rest =>
  have hroom : w.pending.length < cfg.maxEventDeliveries := hl _ _ rfl
  cases hs
  refine .posting (w := w.receive cfg e) rest fun e' he' => ?_
  have hpending : (w.receive cfg e).pending = w.pending ++ [e] := by
    rw [SchedWorld.receive, if_neg (by omega)]
  rw [hpending]
  rcases posted e' he' with hleft | hwaits
  · rcases mem_cons.mp hleft with rfl | hleft
    · exact .inr (mem_append_right _ mem_cons_self)
    · exact .inl hleft
  · exact .inr (mem_append_left _ hwaits)

/-- **The replay posts every event on the page.** -/
lemma posts_events {s s₁ t : Scheduler} (hs : step cfg s (.enter .replayEvents) = some s₁)
    (ht : Reach (step cfg) (Replaying cfg) s₁ t) (hend : t.section_ = none) :
    ∀ e ∈ s.world.db.events.rows.take cfg.maxEventDeliveries, e ∈ t.world.pending := by
  have hstart : Posted cfg s.world.db.events.rows s₁ := by
    simp only [step] at hs
    split at hs
    · cases hs
      exact .reading prefix_rfl
    · cases hs
  have hposted : Posted cfg s.world.db.events.rows t :=
    ht.invariant hstart fun _ _ _ h hl hstep => h.step hl hstep
  cases hposted with
  | reading _ => cases hend
  | posting left posted =>
    cases left with
    | nil => exact fun e he => (posted e he).resolve_left not_mem_nil
    | cons _ _ => cases hend

end Replay

/-- **Nothing on the page is left out of the replay.** The page holds the oldest
`max_event_deliveries` rows of a table.
* After a restart `replay_events` queues every stored event, if the queue has room.
* Whenever a queued event is handled, the delivery to every trigger that takes it is looked up.
* In every pass over the deliveries those that are pending are looked up again. -/
theorem replay_covers (cfg : SchedConfig) (rows : TriggerRows)
    (hlimit : cfg.maxEventDeliveries ≤ 10000) :
    (∀ s s₁ t : Scheduler, step cfg s (.enter .replayEvents) = some s₁ →
      Reach (step cfg) (Replay.Replaying cfg) s₁ t → t.section_ = none →
      ∀ e ∈ s.world.db.events.rows.take cfg.maxEventDeliveries, e ∈ t.world.pending) ∧
    (∀ (e : SourceEvent) (es : SchedHistory) (r : Except Error Unit × Unit),
      ((handleEvent cfg e).prog ()).Returns es r → (∀ x ∈ es, rows.Served x.1 x.2) →
      ∀ t ∈ rows.triggers.take cfg.maxEventDeliveries, t.Takes cfg e →
        deliveryId t.id e.id ∈ es.deliveries) ∧
    ∀ (es : SchedHistory) (r : Except Error Unit × Unit),
      ((replayPendingDeliveries cfg).prog ()).Returns es r → (∀ x ∈ es, rows.Served x.1 x.2) →
      ∀ d ∈ rows.deliveries.take cfg.maxEventDeliveries, d.status = .pending →
        ∀ t e, rows.trigger d.triggerId = .ok t → rows.event d.eventId = .ok e →
        t.Takes cfg e → deliveryId t.id e.id ∈ es.deliveries := by
  refine ⟨fun s s₁ t hs ht hend => Replay.posts_events hs ht hend, fun e es r hes hserved t ht h => ?_,
    fun es r hes hserved d hd hpending t e ht he h => ?_⟩
  · exact (Replay.looks_handleEvent hlimit h ht).mem_deliveries hes hserved
  · exact (Replay.looks_replayPendingDeliveries hlimit h hpending ht he hd).mem_deliveries
      hes hserved

/-! ## Runs -/

def laterEvent : SourceEvent := { sampleEvent with id := "f" }

/-- The delivery of an event to `sampleTrigger`. -/
def sampleDelivery (e : SourceEvent) (status : LaunchStatus) : TriggerDelivery :=
  { newDelivery sampleTrigger e with status }

def samplePage : SchedConfig := { maxEventDeliveries := 2 }

/-- A store with a delivery that is pending behind one that is done; the last one is not on a page of
two rows. -/
def sampleRows : TriggerRows where
  triggers := [sampleTrigger]
  deliveries := [sampleDelivery laterEvent .started, sampleDelivery sampleEvent .pending,
    sampleDelivery { sampleEvent with id := "g" } .started]
  trigger _ := .ok sampleTrigger
  event _ := .ok sampleEvent

/-- `sampleEvent` is handled. -/
def handledHistory : SchedHistory :=
  [⟨.listTriggers 2, (.ok [sampleTrigger] : Except Error (List TriggerDefinition))⟩,
    ⟨.getDelivery (deliveryId "t" "e"),
      (.ok (sampleDelivery sampleEvent .started) : Except Error TriggerDelivery)⟩]

def retriedHistory : SchedHistory :=
  [⟨.listDeliveries 2, (.ok [sampleDelivery laterEvent .started,
      sampleDelivery sampleEvent .pending] : Except Error (List TriggerDelivery))⟩,
    ⟨.getTrigger "t", (.ok sampleTrigger : Except Error TriggerDefinition)⟩,
    ⟨.getEvent "e", (.ok sampleEvent : Except Error SourceEvent)⟩,
    ⟨.getDelivery (deliveryId "t" "e"),
      (.ok (sampleDelivery sampleEvent .started) : Except Error TriggerDelivery)⟩]

theorem replay_covers_sample :
    (∃ s s₁ t, step samplePage s (.enter .replayEvents) = some s₁ ∧
      Reach (step samplePage) (Replay.Replaying samplePage) s₁ t ∧
      s.world.db.events.rows.map (·.id) = ["e", "f"] ∧
      ∀ e ∈ s.world.db.events.rows.take 2, e ∈ t.world.pending) ∧
    deliveryId "t" "e" ∈ handledHistory.deliveries ∧
    deliveryId "t" "e" ∈ retriedHistory.deliveries := by
  obtain ⟨hevents, hhandled, hpending⟩ := replay_covers samplePage sampleRows (by decide)
  have htakes : sampleTrigger.Takes samplePage sampleEvent := ⟨by decide +kernel, by decide⟩
  have hes : ((handleEvent samplePage sampleEvent).prog ()).Returns handledHistory (.ok (), ()) :=
    .call (.call (.ret _))
  have hes' : ((replayPendingDeliveries samplePage).prog ()).Returns retriedHistory (.ok (), ()) :=
    .call (.call (.call (.call (.ret _))))
  refine ⟨?_, hhandled sampleEvent _ _ hes ?_ _ mem_cons_self htakes, hpending _ _ hes' ?_
    (sampleDelivery sampleEvent .pending) (mem_cons_of_mem _ mem_cons_self) rfl _ _ rfl rfl htakes⟩
  · obtain ⟨s, -, hv⟩ := exists_reach (M := step samplePage) (s := init)
      (C := always) (f := fun s => (s.world.db.events.rows.map (·.id),
        (step samplePage s (.enter .replayEvents)).bind fun s₁ =>
          (exec (step samplePage) (Replay.Replaying samplePage) s₁ [.call {}, .call {}, .call {}]).map
            fun t => t.section_.isNone))
      (v := (["e", "f"], some true))
      [.outside (.storeEvent sampleEvent), .outside (.storeEvent laterEvent)] (by decide +kernel)
    simp only [Prod.mk.injEq, bind_eq_some_iff, map_eq_some_iff, isNone_iff_eq_none] at hv
    obtain ⟨hrows, s₁, hs₁, t, ht, hend⟩ := hv
    have ht' := reach_of_exec ht
    exact ⟨s, s₁, t, hs₁, ht', hrows, hevents s s₁ t hs₁ ht' hend⟩
  · simp only [handledHistory, mem_cons, not_mem_nil, or_false]
    rintro e (rfl | rfl)
    · rfl
    · trivial
  · simp only [retriedHistory, mem_cons, not_mem_nil, or_false]
    rintro e (rfl | rfl | rfl | rfl) <;> first | rfl | trivial

/-- One event is replayed at a time. The trigger has run on a first event; for the second one there
was no capacity. After a restart the event that says that the trigger was created is replayed, and
the second event is not; and the pass over the deliveries sees the one that is done, and not the one
that is pending. -/
theorem page_hides_event : ∃ s t x e es r, Reach (step { maxEventDeliveries := 1 }) always init s ∧
      s.world.db.triggers.get "t" = some x ∧ s.world.db.events.get "f" = some e ∧
      x.Takes { maxEventDeliveries := 1 } e ∧
      (s.world.db.deliveries.get (deliveryId "t" "f")).map (·.status) = some .pending ∧
      exec (step { maxEventDeliveries := 1 }) always s
        [.crash, .enter .replayEvents, .call {}, .call {}] = some t ∧
      t.section_ = none ∧ e ∉ t.world.pending ∧
      ((replayPendingDeliveries { maxEventDeliveries := 1 }).prog ()).history
        (fun q w => some (w.perform { maxEventDeliveries := 1 } {} q)) 9 s.world = some (es, r) ∧
      SchedHistory.deliveries es = [] := by
  obtain ⟨s, hs, hv⟩ := exists_reach (M := step { maxEventDeliveries := 1 })
    (s := init) (C := always)
    (f := fun s => (s.world.db.triggers.get "t").bind fun x =>
      (s.world.db.events.get "f").bind fun e =>
      (exec (step { maxEventDeliveries := 1 }) always s
        [.crash, .enter .replayEvents, .call {}, .call {}]).bind fun t =>
      (((replayPendingDeliveries { maxEventDeliveries := 1 }).prog ()).history
        (fun q w => some (w.perform { maxEventDeliveries := 1 } {} q)) 9 s.world).map fun h =>
          (decide ((x.matches e ∧ e.triggerDepth < 16) ∧
              (s.world.db.deliveries.get (deliveryId "t" "f")).map (·.status) = some .pending ∧
              t.section_.isNone ∧ "f" ∉ t.world.pending.map (·.id)),
            SchedHistory.deliveries h.1))
    (v := some (true, []))
    (enterCalls (.createTrigger sampleTrigger) 5 ++ enterCalls .handleEvent 1 ++
      [.outside (.storeEvent sampleEvent), .outside (.publish sampleEvent)] ++
      enterCalls .handleEvent 7 ++ enterCalls .handleEvent 1 ++
      [.outside (.storeEvent laterEvent), .outside (.publish laterEvent)] ++
      enterCalls .handleEvent 3 ++
      [.call { refusal := some ⟨.capacity, ""⟩ }, .call {}]) (by decide +kernel)
  obtain ⟨x, hx, hv⟩ := bind_eq_some_iff.mp hv
  obtain ⟨e, he, hv⟩ := bind_eq_some_iff.mp hv
  obtain ⟨t, ht, hv⟩ := bind_eq_some_iff.mp hv
  obtain ⟨⟨es, r⟩, hes, hv⟩ := map_eq_some_iff.mp hv
  obtain ⟨hall, hnone⟩ := Prod.mk.inj hv
  obtain ⟨⟨hmatch, hdepth⟩, hpending, hend, hnot⟩ := of_decide_eq_true hall
  refine ⟨s, t, x, e, es, r, hs, hx, he, ⟨hmatch, hdepth⟩, hpending, ht,
    isNone_iff_eq_none.mp hend, fun hmem => hnot ?_, hes, hnone⟩
  rw [← show e.id = "f" from Table.key_of_get he]
  exact mem_map_of_mem hmem

end Laso
