import Laso.Sessions.Protocol

/-!
# The transactions follow the protocol

Every transaction on the session tables that succeeds leaves all sessions alone or does one
`SessionStep` to one of them: `Effect`. A transaction first writes turns and events and at last the
row of the session; `Progress` describes what it has written before that last statement, so that
the loop of `close_agent_session` can be taken apart.
-/

namespace Laso

open List Table SessionTurn

namespace SessionDb

variable {codec : SessionCodec} {db db' : SessionDb} {s s' : AgentSession} {t t' : SessionTurn}
  {ids : Nat → String}

/-! ## Views -/

/-- A session as a transaction sees it that holds the row `s` in memory. -/
def draft (db : SessionDb) (s : AgentSession) : SessionView :=
  ⟨s, db.turnsOf s.id, db.eventsOf s.id⟩

/-- A session as the protocol sees it: its row, its turns, its events. -/
def view (db : SessionDb) (id : String) : Option SessionView := (db.sessions.get id).map db.draft

variable {id : String} {type : SessionEventType} {turnId runId : String} {token : Nat}

lemma id_of_get (h : db.sessions.get id = some s) : s.id = id := key_of_get h

lemma view_of_get (h : db.sessions.get id = some s) :
    db.view id = some (db.draft s) := by rw [view, h]; rfl

/-- The row is locked if it exists. -/
lemma lockSession_eq_ok : db.lockSession id = .ok s ↔ db.sessions.get id = some s := by
  unfold lockSession
  split <;> simp_all

lemma lockTurn_eq_ok : db.lockTurn id = .ok t ↔ db.turns.get id = some t := by
  unfold lockTurn
  split <;> simp_all

/-! ## Statements -/

/-- An update fails on a turn that is too long to be stored. -/
lemma updateTurn_eq_ok : db.updateTurn codec t = .ok db' ↔
      codec.turn t ≤ maxStored ∧ { db with turns := db.turns.put t } = db' := by
  simp only [updateTurn, serialize, bind_eq_ok, pure_eq_ok, require_eq_ok]
  simp

lemma insertTurn_eq_ok :
    db.insertTurn codec t = .ok db' ↔ codec.turn t ≤ maxStored ∧ db.turns.get t.id = none ∧
      { db with turns := db.turns.put t } = db' := by
  simp only [insertTurn, serialize, bind_eq_ok, pure_eq_ok, require_eq_ok, Option.isNone_iff_eq_none]
  simp

variable {e : SessionEvent}

lemma insertEvent_eq_ok : db.insertEvent codec e = .ok db' ↔
      (codec.event e ≤ maxStored ∧ e.sequence ≤ maxSequence ∧ ∀ x ∈ db.events, x.id ≠ e.id) ∧
        { db with events := db.events ++ [e] } = db' := by
  simp only [insertEvent, serialize, bind_eq_ok, pure_eq_ok, require_eq_ok]
  simp [and_assoc]

lemma updateSession_eq_ok : db.updateSession codec s = .ok db' ↔
      codec.session s ≤ maxStored ∧ { db with sessions := db.sessions.put s } = db' := by
  simp only [updateSession, serialize, bind_eq_ok, pure_eq_ok, require_eq_ok]
  simp

/-- A turn is replaced in its place. -/
lemma turnsOf_put (ht : db.turns.get t'.id = some t) (hs : t'.sessionId = t.sessionId)
    (id : String) :
    ({ db with turns := db.turns.put t' } : SessionDb).turnsOf id =
      (db.turnsOf id).map (replaceTurn t') := by
  have hrows : (db.turns.put t').rows = db.turns.rows.map (replaceTurn t') :=
    rows_put_of_get ht
  have hkeep : ∀ u ∈ db.turns.rows, (replaceTurn t' u).sessionId = u.sessionId := by
    intro u hu
    unfold replaceTurn
    split
    · rename_i hid
      have hget : db.turns.get u.id = some u := mem_rows_iff.mp hu
      rw [hid, ht] at hget
      rw [hs, Option.some.inj hget]
    · rfl
  simp only [turnsOf, hrows, filter_map]
  congr 1
  exact filter_congr fun u hu => by simp [hkeep u hu]

lemma turnsOf_put_other (ht : db.turns.get t'.id = some t) (hs : t'.sessionId = t.sessionId)
    (hid : id ≠ t.sessionId) :
    ({ db with turns := db.turns.put t' } : SessionDb).turnsOf id = db.turnsOf id := by
  rw [turnsOf_put ht hs]
  refine (map_congr_left fun u hu => ?_).trans (map_id _)
  obtain ⟨hmem, hsession⟩ := mem_filter.mp hu
  refine if_neg fun he => hid ?_
  have hget : db.turns.get u.id = some u := mem_rows_iff.mp hmem
  rw [he, ht] at hget
  rw [Option.some.inj hget]
  exact (of_decide_eq_true hsession).symm

/-- A new turn is the last one of its session. -/
lemma turnsOf_insert (ht : db.turns.get t.id = none) (id : String) :
    ({ db with turns := db.turns.put t } : SessionDb).turnsOf id =
      db.turnsOf id ++ if t.sessionId = id then [t] else [] := by
  simp only [turnsOf, (rows_put_of_none ht), filter_append]
  by_cases h : t.sessionId = id <;> simp [h]

lemma eventsOf_append (e : SessionEvent) (id : String) :
    ({ db with events := db.events ++ [e] } : SessionDb).eventsOf id =
      db.eventsOf id ++ if e.sessionId = id then [e] else [] := by
  simp only [eventsOf, filter_append]
  by_cases h : e.sessionId = id <;> simp [h]

lemma mem_turnsOf : t ∈ db.turnsOf id ↔ db.turns.get t.id = some t ∧ t.sessionId = id := by
  rw [turnsOf, mem_filter, mem_rows_iff, decide_eq_true_eq]
  rfl

/-! ## Transactions before their last statement -/

/-- What a transaction on a session has written so far, with the row it keeps in memory: turns and
events of this session, the events `es` with the next numbers. -/
structure Progress (db : SessionDb) (s : AgentSession) (db' : SessionDb) (s' : AgentSession)
    (es : List SessionEvent) : Prop where
  id : s'.id = s.id
  sessions : db'.sessions = db.sessions
  otherTurns : ∀ other, other ≠ s.id → db'.turnsOf other = db.turnsOf other
  otherEvents : ∀ other, other ≠ s.id → db'.eventsOf other = db.eventsOf other
  events : db'.eventsOf s.id = db.eventsOf s.id ++ es
  next : s'.nextSequence = s.nextSequence + es.length
  numbers : es.map SessionEvent.sequence = List.range' s.nextSequence es.length

namespace Progress

variable {db₁ db₂ db₃ : SessionDb} {s₁ s₂ s₃ : AgentSession} {es es' : List SessionEvent}

lemma refl (hid : s'.id = s.id) (hnext : s'.nextSequence = s.nextSequence) :
    Progress db s db s' [] :=
  ⟨hid, rfl, fun _ _ => rfl, fun _ _ => rfl, (append_nil _).symm, hnext, rfl⟩

lemma trans (h : Progress db₁ s₁ db₂ s₂ es) (h' : Progress db₂ s₂ db₃ s₃ es') :
    Progress db₁ s₁ db₃ s₃ (es ++ es') where
  id := h'.id.trans h.id
  sessions := h'.sessions.trans h.sessions
  otherTurns other hne := (h'.otherTurns other (h.id ▸ hne)).trans (h.otherTurns other hne)
  otherEvents other hne := (h'.otherEvents other (h.id ▸ hne)).trans (h.otherEvents other hne)
  events := by rw [← h.id, h'.events, h.id, h.events, List.append_assoc]
  next := by rw [h'.next, h.next, List.length_append, Nat.add_assoc]
  numbers := by
    rw [map_append, h.numbers, h'.numbers, h.next, List.length_append]
    exact range'_append_1

lemma core (hturns : db'.turns = db.turns) (hevents : db'.events = db.events)
    (hsessions : db'.sessions = db.sessions) : Progress db s db' s [] where
  id := rfl
  sessions := hsessions
  otherTurns _ _ := by simp only [turnsOf, hturns]
  otherEvents _ _ := by simp only [eventsOf, hevents]
  events := by simp only [eventsOf, hevents, append_nil]
  next := rfl
  numbers := rfl

/-- A turn of the session is replaced. -/
lemma turn (ht : db.turns.get t'.id = some t) (hs : t'.sessionId = t.sessionId)
    (hsession : t.sessionId = s.id) : Progress db s { db with turns := db.turns.put t' } s [] where
  id := rfl
  sessions := rfl
  otherTurns _ hne := turnsOf_put_other ht hs (hsession ▸ hne)
  otherEvents _ _ := rfl
  events := (append_nil _).symm
  next := rfl
  numbers := rfl

/-- A turn is inserted into the session. -/
lemma newTurn (ht : db.turns.get t.id = none) (hs : t.sessionId = s.id) :
    Progress db s { db with turns := db.turns.put t } s [] where
  id := rfl
  sessions := rfl
  otherTurns other hne := by
    rw [turnsOf_insert ht, if_neg (fun he => hne (he.symm.trans hs)), append_nil]
  otherEvents _ _ := rfl
  events := (append_nil _).symm
  next := rfl
  numbers := rfl

/-- The next event is appended. -/
lemma event (s' : AgentSession) {e : SessionEvent} (hs : e.sessionId = s.id)
    (hn : e.sequence = s.nextSequence)
    (hid : s'.id = s.id) (hnext : s'.nextSequence = s.nextSequence + 1) :
    Progress db s { db with events := db.events ++ [e] } s' [e] where
  id := hid
  sessions := rfl
  otherTurns _ _ := rfl
  otherEvents other hne := by
    rw [eventsOf_append, if_neg (fun he => hne (he.symm.trans hs)), append_nil]
  events := by rw [eventsOf_append, if_pos hs]
  next := hnext
  numbers := by simp [hn]

lemma appends (h : Progress db s db' s' es) : Appends (db.draft s) (db'.draft s') es :=
  ⟨by simp only [draft, h.id, h.events], h.next, h.numbers⟩

end Progress

/-- A session is as it was. -/
structure Same (db db' : SessionDb) (id : String) : Prop where
  session : db'.sessions.get id = db.sessions.get id
  turns : db'.turnsOf id = db.turnsOf id
  events : db'.eventsOf id = db.eventsOf id

/-- A transaction did one step to one session. -/
structure Stepped (k : StepKind) (db db' : SessionDb) (v v' : SessionView) : Prop where
  before : db.view v.session.id = some v
  after : db'.view v.session.id = some v'
  others : ∀ id, id ≠ v.session.id → Same db db' id
  step : SessionStep k v v'

/-- A transaction left all sessions alone, or did one step to one of them. -/
def Effect (k : StepKind) (db db' : SessionDb) : Prop :=
  (∀ id, Same db db' id) ∨ ∃ v v', Stepped k db db' v v'

lemma Effect.refl {k : StepKind} (db : SessionDb) : Effect k db db := .inl fun _ => ⟨rfl, rfl, rfl⟩

lemma Progress.stepped {k : StepKind} {es : List SessionEvent} (h : Progress db s db' s' es)
    (hs : db.sessions.get s.id = some s) (hstep : SessionStep k (db.draft s) (db'.draft s')) :
    Stepped k db { db' with sessions := db'.sessions.put s' } (db.draft s) (db'.draft s') where
  before := view_of_get hs
  after := by
    refine view_of_get ?_
    exact h.id ▸ (get_put_self _ _)
  others id hne :=
    ⟨by rw [get_put_ne (fun he => hne (he.symm.trans h.id)), h.sessions],
      h.otherTurns id hne, h.otherEvents id hne⟩
  step := hstep

/-! ## Submitting -/

/-- A turn as `Service::submit_session_turn` builds it. -/
def newTurn (key : String) (input : Json) (pipelineId : String) : SessionTurn :=
  { idempotencyKey := key, input, pipelineId }

/-- **Submitting is one step,** or none when the turn exists. -/
lemma submitSessionTurn_effect {id turnId key pipelineId : String} {input : Json} {new : Bool}
    (h : db.submitSessionTurn codec id turnId (newTurn key input pipelineId) ids =
      .ok (new, db')) : Effect .submit db db' := by
  simp only [submitSessionTurn, bind_eq_ok, require_eq_ok, lockSession_eq_ok] at h
  obtain ⟨_, ⟨-, -, hturnId, -⟩, s, hs, h⟩ := h
  cases hprior : db.turns.get turnId with
  | some prior =>
    simp only [hprior, bind_eq_ok, require_eq_ok, pure_eq_ok, Prod.mk.injEq] at h
    obtain ⟨_, _, -, rfl⟩ := h
    exact Effect.refl db
  | none =>
  simp only [hprior, bind_eq_ok, require_eq_ok, pure_eq_ok, Prod.mk.injEq, insertTurn_eq_ok,
    insertEvent_eq_ok, updateSession_eq_ok] at h
  obtain ⟨_, hopen, _, -, _, -, _, -, db₁, ⟨-, -, rfl⟩, db₂, ⟨-, rfl⟩, db₃, ⟨-, rfl⟩, -, rfl⟩ := h
  have hid : s.id = id := id_of_get hs
  subst hid
  let t : SessionTurn :=
    { newTurn key input pipelineId with
      id := turnId, sessionId := s.id, sequence := db.lastTurnSequence s.id + 1 }
  have hfresh : db.turns.get t.id = none := hprior
  have hprogress := (Progress.newTurn hfresh rfl).trans
    (Progress.event { s with nextSequence := s.nextSequence + 1 }
      (e := { id := ids s.nextSequence, sessionId := s.id, sequence := s.nextSequence
              type := .inputAccepted, turnId, payload := .obj [("input", input)] }) rfl rfl rfl rfl)
  refine .inr ⟨_, _, hprogress.stepped hs ?_⟩
  refine .submit t _ hprogress.appends rfl hopen ⟨hturnId, fun u hu => ?_⟩ ⟨rfl, rfl⟩ rfl ?_ rfl
  · intro he
    have hget := (mem_turnsOf.mp hu).1
    rw [he, hfresh] at hget
    cases hget
  · exact (turnsOf_insert hfresh s.id).trans (by rw [if_pos rfl]; rfl)

/-! ## Claiming -/

/-- A turn that can be claimed: the first queued one, or the active one of an older claim. -/
structure Free (db : SessionDb) (s : AgentSession) (owner : String) (token : Nat)
    (t : SessionTurn) : Prop where
  mem : t ∈ db.turnsOf s.id
  first : (s.activeTurnId = "" ∧ t.state = .queued ∧
      ∀ u ∈ db.turnsOf s.id, u.state = .queued → t.sequence ≤ u.sequence) ∨
    (t.id = s.activeTurnId ∧ t.state = .claimed ∧ t.runId = "" ∧
      (0 < token → t.dispatchFencingToken < token) ∧
      (token = 0 → t.dispatchOwner = owner → t.dispatchFencingToken ≠ s.dispatchGeneration))

lemma le_of_find? {l : List SessionTurn} {p : SessionTurn → Bool} {u : SessionTurn}
    (hl : l.Pairwise fun a b => a.sequence ≤ b.sequence) (ht : l.find? p = some t) (hu : u ∈ l)
    (hp : p u) : t.sequence ≤ u.sequence := by
  induction l with
  | nil => cases hu
  | cons a l ih =>
    rw [pairwise_cons] at hl
    rw [find?_cons] at ht
    cases ha : p a with
    | true =>
      rw [ha] at ht
      cases ht
      rcases mem_cons.mp hu with rfl | hu
      · exact le_rfl
      · exact hl.1 u hu
    | false =>
    rw [ha] at ht
    rcases mem_cons.mp hu with rfl | hu
    · rw [ha] at hp
      cases hp
    · exact ih hl.2 ht hu

lemma mem_turnsInOrder : t ∈ db.turnsInOrder id ↔ t ∈ db.turnsOf id :=
  mem_insertionSort _

/-- The active turn is a turn of the session. -/
lemma mem_of_active (hok : (db.draft s).Ok) (hne : s.activeTurnId ≠ "")
    (ht : db.turns.get s.activeTurnId = some t) : t ∈ db.turnsOf s.id := by
  obtain ⟨u, hu⟩ := hok.held hne
  have hget := (mem_turnsOf.mp hu.mem).1
  have hid : u.id = s.activeTurnId := hu.id
  rw [hid, ht] at hget
  cases hget
  exact hu.mem

variable {records : List SessionRecord} {owner : String} {payload : Json}

/-- The caller holds the claim of the active turn already. -/
structure Held (db : SessionDb) (s : AgentSession) (owner : String) (token : Nat)
    (t : SessionTurn) : Prop where
  get : db.turns.get s.activeTurnId = some t
  nonempty : s.activeTurnId ≠ ""
  claimed : t.state = .claimed
  owner : t.dispatchOwner = owner
  fence : t.dispatchFencingToken = if 0 < token then token else s.dispatchGeneration

/-- What `selectTurn` finds is free, or held by the caller. -/
lemma selectTurn_spec (hok : (db.draft s).Ok) {found : Selection}
    (h : db.selectTurn s owner token = .ok found) :
    (∀ t, found = .free t → Free db s owner token t) ∧
      ∀ t, found = .held t → Held db s owner token t := by
  unfold selectTurn at h
  split at h
  · rename_i hne
    split at h
    · cases h
    rename_i u hu
    split at h
    · cases h
      simp
    rename_i hclaimed
    obtain ⟨hclaimed, hrun⟩ := not_or.mp hclaimed
    by_cases hheld : u.dispatchOwner = owner ∧ u.dispatchFencingToken =
        (if 0 < token then token else s.dispatchGeneration)
    · rw [if_pos hheld] at h
      cases h
      refine ⟨by simp, ?_⟩
      rintro _ ⟨⟩
      exact ⟨hu, hne, not_not.mp hclaimed, hheld.1, hheld.2⟩
    rw [if_neg hheld] at h
    by_cases hfence : 0 < token ∧ token ≤ u.dispatchFencingToken
    · rw [if_pos hfence] at h
      cases h
      simp
    rw [if_neg hfence] at h
    cases h
    refine ⟨?_, by simp⟩
    rintro _ ⟨⟩
    refine ⟨mem_of_active hok hne hu, .inr ⟨key_of_get hu, not_not.mp hclaimed,
      not_not.mp hrun, fun htoken => ?_, fun htoken howner hgeneration => ?_⟩⟩
    · exact Nat.lt_of_not_le fun hle => hfence ⟨htoken, hle⟩
    · exact hheld ⟨howner, by simp [htoken, hgeneration]⟩
  rename_i hempty
  split at h
  · cases h
    simp
  rename_i u hu
  cases h
  refine ⟨?_, by simp⟩
  rintro _ ⟨⟩
  have hmem := mem_turnsInOrder.mp (mem_of_find?_eq_some hu)
  refine ⟨hmem, .inl ⟨not_not.mp hempty, by simpa using find?_some hu, ?_⟩⟩
  intro w hw hq
  exact le_of_find? (pairwise_insertionSort _ _) hu (mem_turnsInOrder.mpr hw) (decide_eq_true hq)

/-- The fencing token of a claim: that of the caller, or the next generation. -/
def claimFence (s : AgentSession) (token : Nat) : Nat :=
  if 0 < token then token else s.dispatchGeneration + 1

/-- The tables after a claim. -/
def claimed (db : SessionDb) (s : AgentSession) (owner : String) (token : Nat) (ids : Nat → String)
    (t : SessionTurn) : SessionDb :=
  let t := t.claim owner (claimFence s token)
  { db with
    turns := db.turns.put t
    events := db.events ++
      [{ id := ids s.nextSequence, sessionId := s.id, sequence := s.nextSequence
         type := .turnClaimed, turnId := t.id
         payload := .obj [("dispatch_attempt", .num t.dispatchAttempt), ("state", .str "claimed")] }]
    sessions := db.sessions.put { s with
      activeTurnId := t.id
      dispatchGeneration := s.dispatchGeneration + 1
      nextSequence := s.nextSequence + 1 } }

/-- A claim finds nothing, a turn the caller holds, or a free one. -/
lemma claimNextSessionTurn_cases {now token : Nat} {id owner expiry : String}
    {answer : Option SessionTurn}
    (h : db.claimNextSessionTurn codec now id owner token expiry ids = .ok (answer, db')) :
    ∃ s, db.sessions.get id = some s ∧ ((answer = none ∧ db' = db) ∨
        (s.state = .opened ∧ ∃ t, answer = some t ∧ db' = db ∧
          db.selectTurn s owner token = .ok (.held t)) ∨
        (s.state = .opened ∧ ∃ t, answer = some (t.claim owner (claimFence s token)) ∧
          db' = db.claimed s owner token ids t ∧ db.selectTurn s owner token = .ok (.free t))) := by
  simp only [claimNextSessionTurn, bind_eq_ok, require_eq_ok, lockSession_eq_ok, requireLease] at h
  obtain ⟨_, -, _, -, s, hs, h⟩ := h
  have hid : s.id = id := id_of_get hs
  subst hid
  refine ⟨s, hs, ?_⟩
  split at h
  · cases h
    exact .inl ⟨rfl, rfl⟩
  rename_i hopen
  obtain ⟨found, hfound, h⟩ := bind_eq_ok.mp h
  cases found with
  | nothing =>
    cases h
    exact .inl ⟨rfl, rfl⟩
  | held t =>
    cases h
    exact .inr (.inl ⟨not_not.mp hopen, t, rfl, rfl, hfound⟩)
  | free t =>
  simp only [bind_eq_ok, pure_eq_ok, updateTurn_eq_ok, insertEvent_eq_ok, updateSession_eq_ok,
    Prod.mk.injEq] at h
  obtain ⟨_, ⟨-, rfl⟩, _, ⟨-, rfl⟩, _, ⟨-, rfl⟩, rfl, rfl⟩ := h
  exact .inr (.inr ⟨not_not.mp hopen, t, rfl, rfl, hfound⟩)

/-- **Claiming is one step.** -/
lemma claimed_stepped (owner : String) (ids : Nat → String) (hs : db.sessions.get s.id = some s)
    (hopen : s.state = .opened) (hfree : Free db s owner token t) :
    ∃ v', Stepped .claim db (db.claimed s owner token ids t) (db.draft s) v' := by
  obtain ⟨hget, hsession⟩ := mem_turnsOf.mp hfree.mem
  have hget' : db.turns.get (t.claim owner (claimFence s token)).id = some t := hget
  have hprogress := (Progress.turn hget' rfl hsession).trans (Progress.event { s with
        activeTurnId := t.id, dispatchGeneration := s.dispatchGeneration + 1
        nextSequence := s.nextSequence + 1 }
      (e := { id := ids s.nextSequence, sessionId := s.id, sequence := s.nextSequence
              type := .turnClaimed, turnId := t.id
              payload := .obj [("dispatch_attempt",
                .num (t.claim owner (claimFence s token)).dispatchAttempt),
                ("state", .str "claimed")] }) rfl rfl rfl rfl)
  refine ⟨_, hprogress.stepped hs ?_⟩
  refine .claim t owner (claimFence s token) _ hprogress.appends ⟨rfl, rfl⟩ hopen hfree.mem ?_ ?_
    (turnsOf_put hget' rfl s.id) rfl
  · rcases hfree.first with hq | hc
    · exact .inl hq
    · exact .inr ⟨hc.1, hc.2.1⟩
  intro hclaimed
  rcases hfree.first with hq | hc
  · rw [hclaimed] at hq
    cases hq.2.1
  · exact hc.2.2.1

/-! ## Binding -/

/-- The current claim of a turn, as a transaction that binds a run requires it. -/
structure Current (db : SessionDb) (s : AgentSession) (token : Nat) (t : SessionTurn) :
    Prop where
  get : db.turns.get t.id = some t
  session : t.sessionId = s.id
  opened : s.state = .opened
  active : s.activeTurnId = t.id
  claimed : t.state = .claimed
  fence : t.dispatchFencingToken = if 0 < token then token else s.dispatchGeneration

def startedEvent (s : AgentSession) (t : SessionTurn) (runId : String) (ids : Nat → String) :
    SessionEvent :=
  { id := ids s.nextSequence, sessionId := s.id, sequence := s.nextSequence, type := .turnStarted
    turnId := t.id, runId, payload := .obj [("run_id", .str runId), ("state", .str "running")] }

def AgentSession.started (s : AgentSession) (runId : String) : AgentSession :=
  { s with activeRunId := runId, nextSequence := s.nextSequence + 1 }

/-- A run is bound already, or it is bound now. -/
lemma bindSessionTurnRun_cases {now token : Nat} {id turnId owner : String} {r : Run}
    {runEvent : Event} {new : Bool}
    (h : db.bindSessionTurnRun codec now id turnId r runEvent owner token ids = .ok (new, db')) :
    ∃ s t, db.sessions.get id = some s ∧ db.turns.get turnId = some t ∧ ((new = false ∧ db' = db) ∨
        (new ∧ Current db s token t ∧ r.id ≠ "" ∧ ∃ core snapshots, db' = { db with
            core, snapshots
            turns := db.turns.put (t.bind r.id)
            events := db.events ++ [startedEvent s t r.id ids]
            sessions := db.sessions.put (AgentSession.started s r.id) })) := by
  simp only [bindSessionTurnRun, bind_eq_ok, require_eq_ok, lockSession_eq_ok, lockTurn_eq_ok,
    requireLease] at h
  obtain ⟨_, -, _, -, s, hs, t, ht, _, hsession, h⟩ := h
  have hid : s.id = id := id_of_get hs
  have htid : t.id = turnId := key_of_get ht
  subst hid htid
  refine ⟨s, t, hs, ht, ?_⟩
  split at h
  · cases h
    exact .inl ⟨rfl, rfl⟩
  simp only [bind_eq_ok, require_eq_ok, pure_eq_ok, insertSnapshot, updateTurn_eq_ok,
    insertEvent_eq_ok, updateSession_eq_ok, Prod.mk.injEq] at h
  obtain ⟨_, ⟨hopen, hactive, hclaimed, -, hfence, -⟩, core, hcore, snap, -, _, ⟨_, -, rfl⟩,
    _, ⟨-, rfl⟩, _, ⟨-, rfl⟩, _, ⟨-, rfl⟩, rfl, rfl⟩ := h
  have hrun : r.id ≠ "" := by
    intro hempty
    simp [Db.writeRecords, Db.writeRecord, hempty] at hcore
  exact .inr ⟨rfl, ⟨ht, hsession, hopen, hactive, hclaimed, hfence⟩, hrun, core, _, rfl⟩

/-- **Binding a run is one step.** -/
lemma bound_stepped {runId : String} {core : Db}
    {snapshots : Table RunContextSnapshot} (hs : db.sessions.get s.id = some s)
    (hcurrent : Current db s token t) (hrun : runId ≠ "") :
    ∃ v', Stepped .bind db { db with
        core, snapshots
        turns := db.turns.put (t.bind runId)
        events := db.events ++ [startedEvent s t runId ids]
        sessions := db.sessions.put (AgentSession.started s runId) } (db.draft s) v' := by
  have hget : db.turns.get (t.bind runId).id = some t := hcurrent.get
  have hcore : Progress db s { db with core, snapshots } s [] := Progress.core rfl rfl rfl
  have hturn : Progress { db with core, snapshots } s
      { db with core, snapshots, turns := db.turns.put (t.bind runId) } s [] :=
    Progress.turn hget rfl hcurrent.session
  have hprogress := (hcore.trans hturn).trans
    (Progress.event (AgentSession.started s runId) (e := startedEvent s t runId ids)
      rfl rfl rfl rfl)
  refine ⟨_, hprogress.stepped hs ?_⟩
  exact .bind t runId _ hprogress.appends ⟨rfl, rfl, rfl⟩ hcurrent.opened
    (mem_turnsOf.mpr ⟨hcurrent.get, hcurrent.session⟩) hcurrent.active.symm hcurrent.claimed hrun
    (turnsOf_put hget rfl s.id) rfl

/-! ## Completing -/

/-- The records of a run touch no session. -/
lemma writeRecords_eq (h : db.writeRecords records = .ok db') :
    db' = { db with core := db'.core, continuations := db'.continuations } := by
  induction records generalizing db with
  | nil =>
    cases h
    rfl
  | cons record rest ih =>
    cases record
    all_goals
      obtain ⟨_, -, h⟩ := bind_eq_ok.mp h
      have hrest := ih h
      exact hrest

lemma writeRecords_frame (h : db.writeRecords records = .ok db') :
    db'.turns = db.turns ∧ db'.events = db.events ∧ db'.sessions = db.sessions := by
  rw [writeRecords_eq h]
  exact ⟨rfl, rfl, rfl⟩

lemma appendEvent_eq_ok (h : db.appendEvent codec s ids type turnId runId payload = .ok (s', db')) :
    ∃ e : SessionEvent, e.type = type ∧ e.sessionId = s.id ∧ e.sequence = s.nextSequence ∧
      db' = { db with events := db.events ++ [e] } ∧
      s' = { s with nextSequence := s.nextSequence + 1 } := by
  simp only [appendEvent, bind_eq_ok, require_eq_ok, pure_eq_ok, insertEvent_eq_ok,
    Prod.mk.injEq] at h
  obtain ⟨_, -, _, ⟨-, rfl⟩, rfl, rfl⟩ := h
  exact ⟨_, rfl, rfl, rfl, rfl, rfl⟩

lemma completionEvent_spec (codec : SessionCodec) (r : Run) (t : SessionTurn) (n : Nat) (id : String) :
    (completionEvent codec r t n id).sessionId = r.sessionId ∧
      (completionEvent codec r t n id).sequence = n ∧
      (completionEvent codec r t n id).type.quiet := by
  unfold completionEvent
  cases t.state <;> simp only [reduceCtorEq, if_true, if_false] <;> split <;>
    simp [SessionEventType.quiet]

def AgentSession.rested (s : AgentSession) : AgentSession :=
  { s with activeTurnId := "", activeRunId := "", nextSequence := s.nextSequence + 1 }

/-- **Completing a turn is one step,** or none when it is completed already. -/
lemma commitSessionRun_effect {now token : Nat}
    (h : db.commitSessionRun codec now records owner token ids = .ok db') :
      Effect .complete db db' := by
  simp only [commitSessionRun, bind_eq_ok, require_eq_ok] at h
  obtain ⟨_, -, h⟩ := h
  split at h
  · cases h
  rename_i r _
  simp only [bind_eq_ok, require_eq_ok, requireLease, lockSession_eq_ok, lockTurn_eq_ok] at h
  obtain ⟨_, -, _, -, s, hs, t, ht, h⟩ := h
  split at h
  · cases h
    exact Effect.refl db
  simp only [bind_eq_ok, require_eq_ok, updateTurn_eq_ok, insertEvent_eq_ok, updateSession_eq_ok]
    at h
  obtain ⟨_, ⟨-, hactive, hsession, -, hrunning⟩, db₁, hrecords, _, ⟨-, rfl⟩, _, ⟨-, rfl⟩,
    ⟨s', db₂⟩, hclose, -, rfl⟩ := h
  have hid : s.id = r.sessionId := id_of_get hs
  rw [← hid] at hs hsession
  obtain ⟨hturns, hevents, hsessions⟩ := writeRecords_frame hrecords
  have htid : t.id = r.sessionTurnId := key_of_get ht
  have hget : db₁.turns.get (t.complete r).id = some t := by
    rw [hturns]
    exact htid ▸ ht
  obtain ⟨hesession, hnumber, hquiet⟩ :=
    completionEvent_spec codec r (t.complete r) s.nextSequence (ids s.nextSequence)
  have hcore : Progress db s db₁ s [] := Progress.core hturns hevents hsessions
  have hwritten := (hcore.trans (Progress.turn hget rfl hsession)).trans
    (Progress.event (AgentSession.rested s) (hesession.trans hid.symm) hnumber rfl rfl)
  have hturnsOf := (turnsOf_put hget rfl s.id).trans
    (congrArg (List.map _) (congrArg (List.filter _) (congrArg Table.rows hturns)))
  have hmem : t ∈ db.turnsOf s.id := mem_turnsOf.mpr ⟨htid ▸ ht, hsession⟩
  unfold closeIfClosing at hclose
  split at hclose
  · rename_i hclosing
    obtain ⟨last, htype, hlsession, hlnumber, rfl, rfl⟩ := appendEvent_eq_ok hclose
    have hall := hwritten.trans (Progress.event { AgentSession.rested s with
        state := .closed, nextSequence := (AgentSession.rested s).nextSequence + 1 }
      hlsession hlnumber rfl rfl)
    refine .inr ⟨_, _, hall.stepped hs (.complete t r _ [last] hall.appends
      hquiet hmem (htid.trans hactive.symm) hrunning hturnsOf rfl ?_)⟩
    exact .inr ⟨hclosing, rfl, last, htype, rfl⟩
  rename_i hnot
  cases hclose
  refine .inr ⟨_, _, hwritten.stepped hs (.complete t r _ [] hwritten.appends
    hquiet hmem (htid.trans hactive.symm) hrunning hturnsOf rfl ?_)⟩
  exact .inl ⟨hnot, rfl, rfl⟩

/-! ## Closing -/

/-- Events that neither claim nor start a turn nor close the session. -/
def Quiet (es : List SessionEvent) : Prop := ∀ e ∈ es, e.type.quiet

lemma Quiet.single (h : e.type.quiet) : Quiet [e] := by
  intro x hx
  cases mem_singleton.mp hx
  exact h

lemma Quiet.append {es es' : List SessionEvent} (h : Quiet es) (h' : Quiet es') :
    Quiet (es ++ es') := by
  intro x hx
  rcases mem_append.mp hx with hx | hx
  · exact h x hx
  · exact h' x hx

lemma quiet_nil : Quiet [] := nofun

/-- Turns that closing cancels at once. -/
def GivenUp (hasActiveRun : Bool) (t : SessionTurn) : Prop :=
  t.state = .queued ∨ (hasActiveRun = false ∧ t.state = .claimed)

instance (b : Bool) (t : SessionTurn) : Decidable (GivenUp b t) :=
  inferInstanceAs (Decidable (_ ∨ _))

/-- Part of closing a session: quiet events are appended, and the turns become `turns`. -/
structure Part (db : SessionDb) (s : AgentSession) (db' : SessionDb) (s' : AgentSession)
    (turns : List SessionTurn) : Prop where
  progress : ∃ es, Quiet es ∧ Progress db s db' s' es
  session : s' = { s with nextSequence := s'.nextSequence }
  turns : db'.turnsOf s.id = turns

lemma Part.trans {db₁ db₂ db₃ : SessionDb} {s₁ s₂ s₃ : AgentSession}
    {turns turns' : List SessionTurn} (h : Part db₁ s₁ db₂ s₂ turns)
    (h' : Part db₂ s₂ db₃ s₃ turns') : Part db₁ s₁ db₃ s₃ turns' := by
  obtain ⟨es, hq, hp⟩ := h.progress
  obtain ⟨es', hq', hp'⟩ := h'.progress
  refine ⟨⟨_, hq.append hq', hp.trans hp'⟩, ?_, hp.id ▸ h'.turns⟩
  rw [h'.session, h.session]

lemma appendEvent_part (h : db.appendEvent codec s ids type turnId runId payload = .ok (s', db'))
    (htype : type.quiet) :
    Part db s db' s' (db.turnsOf s.id) := by
  obtain ⟨e, rfl, hsession, hnumber, rfl, rfl⟩ := appendEvent_eq_ok h
  exact ⟨⟨[e], Quiet.single htype, Progress.event _ hsession hnumber rfl rfl⟩, rfl, rfl⟩

lemma updateTurn_part
    {db₁ : SessionDb} (t' : SessionTurn) (hmem : t ∈ db.turnsOf s.id) (hid : t'.id = t.id)
    (hsession : t'.sessionId = t.sessionId) (hturn : db.updateTurn codec t' = .ok db₁)
    (h : db₁.appendEvent codec s ids type turnId runId payload = .ok (s', db'))
    (htype : type.quiet) :
    Part db s db' s' ((db.turnsOf s.id).map (replaceTurn t')) := by
  obtain ⟨hget, hs⟩ := mem_turnsOf.mp hmem
  rw [← hid] at hget
  obtain ⟨-, rfl⟩ := updateTurn_eq_ok.mp hturn
  have hfirst : Part db s { db with turns := db.turns.put t' } s
      ((db.turnsOf s.id).map (replaceTurn t')) :=
    ⟨⟨[], quiet_nil, Progress.turn hget hsession hs⟩, rfl, turnsOf_put hget hsession s.id⟩
  have hsecond := appendEvent_part h htype
  rw [turnsOf_put hget hsession s.id] at hsecond
  exact hfirst.trans hsecond

lemma cancelTurn_part (hmem : t ∈ db.turnsOf s.id)
    (h : db.cancelTurn codec s ids t = .ok (s', db')) :
    Part db s db' s' ((db.turnsOf s.id).map (replaceTurn t.cancel)) := by
  obtain ⟨db₁, hturn, h⟩ := bind_eq_ok.mp h
  exact updateTurn_part t.cancel hmem rfl rfl hturn h rfl

lemma eq_of_id {u : SessionTurn} {id id' : String} (ht : t ∈ db.turnsOf id)
    (hu : u ∈ db.turnsOf id') (h : u.id = t.id) : u = t := by
  have hget := (mem_turnsOf.mp hu).1
  rw [h, (mem_turnsOf.mp ht).1] at hget
  exact (Option.some.inj hget).symm

/-- The turns after the loop has gone through `list`. -/
def cancelledIn (b : Bool) (list : List SessionTurn) (u : SessionTurn) : SessionTurn :=
  if u.id ∈ list.map SessionTurn.id ∧ GivenUp b u then u.cancel else u

/-- The loop of `close_agent_session`, by induction on the turns left. -/
lemma cancelTurns_part {b : Bool} {list : List SessionTurn}
    (h : cancelTurns codec b ids list s db = .ok (s', db'))
    (hmem : ∀ t ∈ list, t ∈ db.turnsOf s.id) (hnodup : (list.map SessionTurn.id).Nodup) :
    Part db s db' s' ((db.turnsOf s.id).map (cancelledIn b list)) := by
  induction list generalizing s db with
  | nil =>
    simp only [cancelTurns, Except.ok.injEq, Prod.mk.injEq] at h
    obtain ⟨rfl, rfl⟩ := h
    have hsame : (db.turnsOf s.id).map (cancelledIn b []) = db.turnsOf s.id := by
      refine (map_congr_left fun u _ => ?_).trans (map_id _)
      simp [cancelledIn]
    exact ⟨⟨[], quiet_nil, Progress.refl rfl rfl⟩, rfl, hsame.symm⟩
  | cons t rest ih =>
    rw [map_cons, nodup_cons] at hnodup
    have ht := hmem t mem_cons_self
    have hrest : ∀ u ∈ rest, u.id ≠ t.id := fun u hu he =>
      hnodup.1 (he ▸ mem_map_of_mem hu)
    simp only [cancelTurns] at h
    split at h
    · rename_i hgiven
      obtain ⟨⟨s₁, db₁⟩, hcancel, h⟩ := bind_eq_ok.mp h
      have hfirst := cancelTurn_part ht hcancel
      obtain ⟨_, _, hprogress⟩ := hfirst.progress
      have hturns : db₁.turnsOf s₁.id = (db.turnsOf s.id).map (replaceTurn t.cancel) :=
        hprogress.id ▸ hfirst.turns
      have hsecond := ih h (fun u hu => ?_) hnodup.2
      · rw [hturns, List.map_map] at hsecond
        have hall : (db.turnsOf s.id).map (cancelledIn b rest ∘ replaceTurn t.cancel) =
            (db.turnsOf s.id).map (cancelledIn b (t :: rest)) := by
          refine map_congr_left fun u hu => ?_
          by_cases hid : u.id = t.id
          · cases eq_of_id ht hu hid
            have hcancelled : replaceTurn t.cancel t = t.cancel := if_pos rfl
            have hgiven' : GivenUp b t := hgiven
            have hnot : t.cancel.id ∉ rest.map SessionTurn.id := hnodup.1
            simp [cancelledIn, hcancelled, hnot, hgiven']
          · have hother : replaceTurn t.cancel u = u := if_neg hid
            simp only [Function.comp_apply, hother, cancelledIn, map_cons, mem_cons, hid,
              false_or]
        exact hall ▸ hfirst.trans hsecond
      · rw [hturns]
        exact mem_map.mpr ⟨u, hmem u (mem_cons_of_mem _ hu), if_neg (hrest u hu)⟩
    rename_i hkept
    have hsecond := ih h (fun u hu => hmem u (mem_cons_of_mem _ hu)) hnodup.2
    have hall : (db.turnsOf s.id).map (cancelledIn b rest) =
        (db.turnsOf s.id).map (cancelledIn b (t :: rest)) := by
      refine map_congr_left fun u hu => ?_
      by_cases hid : u.id = t.id
      · cases eq_of_id ht hu hid
        have hkept' : ¬GivenUp b t := hkept
        simp [cancelledIn, hkept']
      · simp only [cancelledIn, map_cons, mem_cons, hid, false_or]
    exact hall ▸ hsecond

lemma cancelAll_part {b : Bool}
    (h : cancelTurns codec b ids (db.turnsInOrder s.id) s db = .ok (s', db')) :
    Part db s db' s' ((db.turnsOf s.id).map fun u => if GivenUp b u then u.cancel else u) := by
  have hperm : ((db.turnsInOrder s.id).map SessionTurn.id).Perm
      ((db.turnsOf s.id).map SessionTurn.id) := (perm_insertionSort _ _).map _
  have hnodup : ((db.turnsOf s.id).map SessionTurn.id).Nodup :=
    db.turns.nodup.sublist (List.Sublist.map _ filter_sublist)
  have hpart := cancelTurns_part h (fun _ ht => mem_turnsInOrder.mp ht) (hperm.nodup_iff.mpr hnodup)
  have hall : (db.turnsOf s.id).map (cancelledIn b (db.turnsInOrder s.id)) =
      (db.turnsOf s.id).map fun u => if GivenUp b u then u.cancel else u := by
    refine map_congr_left fun u hu => ?_
    have hin : u.id ∈ (db.turnsInOrder s.id).map SessionTurn.id :=
      mem_map_of_mem (mem_turnsInOrder.mpr hu)
    simp only [cancelledIn, hin, true_and]
  exact hall ▸ hpart

/-- The active turn of a session with a run gets its flag, the queued turns are cancelled. -/
lemma closeLater_part (hholds : (db.draft s).Holds t) (hne : s.activeTurnId ≠ "")
    (h : db.closeLater codec s ids = .ok (s', db')) :
    Part db s db' s' ((db.turnsOf s.id).map fun u =>
      if u.state = .queued then u.cancel
      else if u.id = s.activeTurnId then { u with cancellationRequested := true } else u) := by
  have hid : t.id = s.activeTurnId := hholds.id
  have hqueued : t.state ≠ .queued := by
    rcases hholds.work with hw | hw <;> rw [hw.1] <;> decide
  obtain ⟨⟨s₁, db₁⟩, hrequest, h⟩ := bind_eq_ok.mp h
  have hget : db.turns.get s.activeTurnId = some t := hid ▸ (mem_turnsOf.mp hholds.mem).1
  rw [requestTurnCancellation, if_pos hne, hget] at hrequest
  obtain ⟨db₂, hturn, hrequest⟩ := bind_eq_ok.mp hrequest
  have hfirst := updateTurn_part { t with cancellationRequested := true } hholds.mem rfl rfl hturn
    hrequest rfl
  obtain ⟨_, -, hprogress⟩ := hfirst.progress
  have hturns := (congrArg db₁.turnsOf hprogress.id).trans hfirst.turns
  have hsecond := cancelAll_part h
  rw [hturns, List.map_map] at hsecond
  have hall : (db.turnsOf s.id).map
      ((fun u => if GivenUp true u then u.cancel else u) ∘
        replaceTurn { t with cancellationRequested := true }) =
      (db.turnsOf s.id).map fun u => if u.state = .queued then u.cancel
        else if u.id = s.activeTurnId then { u with cancellationRequested := true } else u := by
    refine map_congr_left fun u hu => ?_
    by_cases hut : u.id = t.id
    · cases eq_of_id hholds.mem hu hut
      simp [replaceTurn, GivenUp, hqueued, hid]
    · have hother : u.id ≠ s.activeTurnId := hid ▸ hut
      simp [replaceTurn, GivenUp, hut, hother]
  exact hall ▸ hfirst.trans hsecond

section

variable (hok : ∀ t ∈ db.turnsOf s.id, t.id = s.activeTurnId → t.state = .claimed)
  (hheld : s.activeTurnId ≠ "" → ∃ t ∈ db.turnsOf s.id, t.id = s.activeTurnId)
    (hids : ∀ t ∈ db.turnsOf s.id, t.id ≠ "")
include hok hheld hids

/-- The active turn without a run is cancelled first. -/
lemma dropActiveTurn_turns (h : db.dropActiveTurn codec s ids = .ok (s', db')) :
    (∃ es, Quiet es ∧ Progress db s db' s' es) ∧
      s' = { s with activeTurnId := "", nextSequence := s'.nextSequence } ∧
      db'.turnsOf s.id = (db.turnsOf s.id).map fun u =>
        if u.id = s.activeTurnId then u.cancel else u := by
  unfold dropActiveTurn at h
  split at h
  · rename_i hne
    obtain ⟨t, hmem, hid⟩ := hheld hne
    have hget : db.turns.get s.activeTurnId = some t := hid ▸ (mem_turnsOf.mp hmem).1
    obtain ⟨⟨s₁, db₁⟩, hcancel, h⟩ := bind_eq_ok.mp h
    rw [cancelClaim, hget] at hcancel
    simp only [hok t hmem hid, true_or, if_true] at hcancel
    cases h
    obtain ⟨⟨es, hq, hp⟩, hsession, hturns⟩ := cancelTurn_part hmem hcancel
    refine ⟨⟨es, hq, ⟨hp.id, hp.sessions, hp.otherTurns, hp.otherEvents, hp.events, hp.next,
      hp.numbers⟩⟩, by rw [hsession], hturns.trans (map_congr_left fun u hu => ?_)⟩
    by_cases hut : u.id = t.id
    · cases eq_of_id hmem hu hut
      simp [replaceTurn, hid, SessionTurn.cancel, unclaim]
    · have hother : u.id ≠ s.activeTurnId := hid ▸ hut
      simp [replaceTurn, hother, SessionTurn.cancel, unclaim, hut]
  rename_i hempty
  cases h
  refine ⟨⟨[], quiet_nil, Progress.refl rfl rfl⟩, by rw [← (not_not.mp hempty)], ?_⟩
  refine ((map_congr_left fun u hu => ?_).trans (map_id _)).symm
  exact if_neg ((not_not.mp hempty) ▸ hids u hu)

lemma closeNow_effect (h : db.closeNow codec s ids = .ok (s', db')) :
    ∃ es last, Quiet es ∧ last.type = .sessionClosed ∧ Progress db s db' s' (es ++ [last]) ∧
      s' = { s with activeTurnId := "", activeRunId := "", nextSequence := s'.nextSequence } ∧
      db'.turnsOf s.id = (db.turnsOf s.id).map fun u => if u.pending then u.cancel else u := by
  simp only [closeNow, bind_eq_ok, Prod.exists] at h
  obtain ⟨s₁, db₁, hdrop, s₂, db₂, hcancel, hlast⟩ := h
  obtain ⟨⟨es₁, hq₁, hp₁⟩, hs₁, ht₁⟩ := dropActiveTurn_turns hok hheld hids hdrop
  obtain ⟨⟨es₂, hq₂, hp₂⟩, hs₂, ht₂⟩ := cancelAll_part hcancel
  obtain ⟨last, htype, hsession, hnumber, rfl, rfl⟩ := appendEvent_eq_ok hlast
  let s₃ : AgentSession := { s₂ with activeRunId := "", nextSequence := s₂.nextSequence + 1 }
  have hp₃ : Progress db₂ s₂ { db₂ with events := db₂.events ++ [last] } s₃ [last] :=
    Progress.event s₃ hsession hnumber rfl rfl
  refine ⟨es₁ ++ es₂, last, hq₁.append hq₂, htype, (hp₁.trans hp₂).trans hp₃, ?_, ?_⟩
  · rw [hs₂, hs₁]
  rw [hp₁.id, ht₁, List.map_map] at ht₂
  refine ht₂.trans (map_congr_left fun u hu => ?_)
  by_cases hid : u.id = s.activeTurnId
  · have hclaimed := hok u hu hid
    simp [hid, pending, GivenUp, SessionTurn.cancel, unclaim, hclaimed]
  · have hsame : GivenUp false u ↔ u.pending := by simp [GivenUp, pending]
    simp only [Function.comp_apply, if_neg hid, hsame]

end

/-- A session with a run closes later, any other one now. -/
lemma beginClosing_stepped (hs : db.sessions.get s.id = some s) (hok : (db.draft s).Ok)
    (hopen : s.state = .opened) (h : db.beginClosing codec s ids = .ok (s', db')) :
    ∃ v', Stepped .close db { db' with sessions := db'.sessions.put s' } (db.draft s) v' := by
  obtain ⟨⟨s₁, db₁⟩, hfirst, hrest⟩ := bind_eq_ok.mp h
  have hpart := appendEvent_part hfirst rfl
  obtain ⟨es₁, hq₁, hp₁⟩ := hpart.progress
  have hbegun : Progress db s db₁ s₁ es₁ :=
    ⟨hp₁.id, hp₁.sessions, hp₁.otherTurns, hp₁.otherEvents, hp₁.events, hp₁.next, hp₁.numbers⟩
  have hsession := hpart.session
  have hturns : db₁.turnsOf s₁.id = db.turnsOf s.id :=
    (congrArg db₁.turnsOf hp₁.id).trans hpart.turns
  have hactive : s₁.activeTurnId = s.activeTurnId := by rw [hsession]
  have hactiveRun : s₁.activeRunId = s.activeRunId := by rw [hsession]
  by_cases hrun : s.activeRunId = ""
  · simp only [hrun, ne_eq, not_true_eq_false, decide_false, Bool.false_eq_true, if_false]
      at hrest hsession
    obtain ⟨es₂, last, hq₂, htype, hp₂, hs', ht'⟩ := closeNow_effect (by
        rw [hturns, hactive]
        intro t ht hid
        obtain ⟨u, hu⟩ := hok.held (hid ▸ hok.ids t ht)
        cases hok.eq_of_id hu.mem ht (hid.trans hu.id.symm)
        exact hu.work.elim (fun hw => hw.1) fun hw => absurd hrun hw.2.2)
      (by
        rw [hturns, hactive]
        intro hne
        obtain ⟨u, hu⟩ := hok.held hne
        exact ⟨u, hu.mem, hu.id⟩)
      (by
        rw [hturns]
        exact hok.ids) hrest
    have hall := hbegun.trans hp₂
    rw [← List.append_assoc] at hall
    refine ⟨_, hall.stepped hs (.close _ last hall.appends (hq₁.append hq₂) htype hopen hrun ?_ ?_)⟩
    · show db'.turnsOf s'.id = (db.turnsOf s.id).map _
      rw [hp₂.id, ht', hturns]
    · exact hs'.trans (by rw [hsession]; rfl)
  have hdec : decide (s.activeRunId ≠ "") := decide_eq_true hrun
  simp only [hdec, if_true] at hrest hsession
  have hne : s.activeTurnId ≠ "" := fun he => hrun (hok.idle he)
  obtain ⟨t, ht⟩ := hok.held hne
  have hmem : t ∈ db₁.turnsOf s₁.id := hturns.symm ▸ ht.mem
  have hwork := ht.work
  have hholds : (db₁.draft s₁).Holds t :=
    ⟨hmem, ht.id.trans hactive.symm, by rw [draft, hactiveRun]; exact hwork⟩
  have hlater := closeLater_part hholds (hactive.symm ▸ hne) hrest
  obtain ⟨es₂, hq₂, hp₂⟩ := hlater.progress
  have hall := hbegun.trans hp₂
  refine ⟨_, hall.stepped hs (.closing _ hall.appends (hq₁.append hq₂) hopen hrun ?_ ?_)⟩
  · show db'.turnsOf s'.id = (db.turnsOf s.id).map _
    rw [hp₂.id, hlater.turns, hturns, hactive]
    rfl
  · exact hlater.session.trans (by rw [hsession]; rfl)

/-- **Closing is one step.** -/
lemma closeAgentSession_effect {answer : Bool}
    (hok : ∀ s, db.sessions.get id = some s → (db.draft s).Ok)
    (h : db.closeAgentSession codec id ids = .ok (answer, db')) : Effect .close db db' := by
  simp only [closeAgentSession, bind_eq_ok, require_eq_ok, lockSession_eq_ok] at h
  obtain ⟨_, -, s, hs, h⟩ := h
  have hsok := hok s hs
  rw [← (id_of_get hs)] at hs
  split at h
  · cases h
    exact Effect.refl db
  rename_i hnotClosed
  split at h
  · -- A second request writes the row as it is.
    obtain ⟨db₁, hrow, h⟩ := bind_eq_ok.mp h
    cases h
    obtain ⟨-, rfl⟩ := updateSession_eq_ok.mp hrow
    refine .inl fun other => ⟨?_, rfl, rfl⟩
    rw [get_put]
    split
    · rename_i he
      exact hs.symm.trans (congrArg _ he)
    · rfl
  rename_i hnotClosing
  have hopen : s.state = .opened := by
    cases hst : s.state with
    | opened => rfl
    | closing => exact absurd hst hnotClosing
    | closed => exact absurd hst hnotClosed
  obtain ⟨⟨s', db₁⟩, hclosing, h⟩ := bind_eq_ok.mp h
  obtain ⟨db₂, hrow, h⟩ := bind_eq_ok.mp h
  cases h
  obtain ⟨-, rfl⟩ := updateSession_eq_ok.mp hrow
  obtain ⟨v', hstepped⟩ := beginClosing_stepped hs hsok hopen hclosing
  exact .inr ⟨_, v', hstepped⟩

end SessionDb

end Laso
