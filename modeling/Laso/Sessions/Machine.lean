import Laso.Core.Machine
import Laso.Sessions.Transactions

/-!
# Sessions under any interleaving

`sessionMachine` interleaves the transactions of any number of clients and dispatchers on any
number of sessions with whatever else happens to the other tables. Since each transaction is one
step of the protocol or none (`sessionMachine_effect`), every session keeps to it:
`sessions_keep_rules`.
-/

namespace Laso

open Machine

namespace SessionDb

variable {codec : SessionCodec} {db db' : SessionDb} {s : AgentSession} {t : SessionTurn}

/-- Transactions on the session tables, and changes of the other tables. -/
inductive SessionCall where
  | create (id pipelineId : String)
  | submit (sessionId turnId key : String) (input : Json) (pipelineId : String) (ids : Nat → String)
  | claim (now : Nat) (sessionId owner : String) (token : Nat) (expiry : String)
      (ids : Nat → String)
  | bind (now : Nat) (sessionId turnId : String) (r : Run) (runEvent : Event) (owner : String)
      (token : Nat) (ids : Nat → String)
  | complete (now : Nat) (records : List SessionRecord) (owner : String) (token : Nat)
      (ids : Nat → String)
  | close (sessionId : String) (ids : Nat → String)
  | other (core : Db) (generations : Table SessionContextGeneration)
      (snapshots : Table RunContextSnapshot) (continuations : Table SessionContinuation)

def SessionCall.kind : SessionCall → StepKind
  | .claim _ _ _ _ _ _ => .claim
  | .bind _ _ _ _ _ _ _ _ => .bind
  | .complete _ _ _ _ _ => .complete
  | .close _ _ => .close
  | _ => .submit

def settle {α : Type} (db : SessionDb) : Except Error (α × SessionDb) → SessionDb
  | .ok (_, db') => db'
  | .error _ => db

/-- `Service::create_session`: the row of a session with a new identifier. -/
def create (db : SessionDb) (id pipelineId : String) : Option SessionDb :=
  if id = "" then none
  else match db.sessions.get id with
    | some _ => none
    | none => some { db with sessions := db.sessions.put { id, pipelineId } }

/-- Clients and dispatchers, in the order in which their transactions commit. -/
def sessionMachine (codec : SessionCodec) : Machine SessionDb SessionCall := fun db call =>
  match call with
  | .create id pipelineId => db.create id pipelineId
  | .submit id turnId key input pipelineId ids =>
    some (db.settle (db.submitSessionTurn codec id turnId (newTurn key input pipelineId) ids))
  | .claim now id owner token expiry ids =>
    some (db.settle (db.claimNextSessionTurn codec now id owner token expiry ids))
  | .bind now id turnId r runEvent owner token ids =>
    some (db.settle (db.bindSessionTurnRun codec now id turnId r runEvent owner token ids))
  | .complete now records owner token ids =>
    some (db.settle ((db.commitSessionRun codec now records owner token ids).map fun db' =>
      ((), db')))
  | .close id ids => some (db.settle (db.closeAgentSession codec id ids))
  | .other core generations snapshots continuations =>
    some { db with core, generations, snapshots, continuations }

/-- The rows of one identifier are those of a session that keeps to the protocol, or none. -/
def OkAt (db : SessionDb) (id : String) : Prop :=
  match db.sessions.get id with
  | some s => (db.draft s).Ok
  | none => db.turnsOf id = [] ∧ db.eventsOf id = []

def Ok (db : SessionDb) : Prop := ∀ id, db.OkAt id

variable {id : String}

lemma Ok.draft (h : db.Ok) (hs : db.sessions.get id = some s) : (db.draft s).Ok := by
  have := h id
  rwa [OkAt, hs] at this

lemma Same.okAt (h : Same db db' id) (hok : db.OkAt id) : db'.OkAt id := by
  unfold OkAt at hok ⊢
  rw [h.session]
  cases hs : db.sessions.get id with
  | none =>
    rw [hs] at hok
    exact ⟨h.turns.trans hok.1, h.events.trans hok.2⟩
  | some s =>
  rw [hs] at hok
  have hid := id_of_get hs
  have hview : db'.draft s = db.draft s := by
    simp only [SessionDb.draft, hid, h.turns, h.events]
  show (db'.draft s).Ok
  rw [hview]
  exact hok

variable {k : StepKind}

lemma Ok.effect (h : db.Ok) (heffect : Effect k db db') : db'.Ok := by
  rcases heffect with hsame | ⟨v, v', hstepped⟩
  · exact fun id => (hsame id).okAt (h id)
  intro id
  by_cases hid : id = v.session.id
  · obtain ⟨s, hs, rfl⟩ := Option.map_eq_some_iff.mp hstepped.before
    obtain ⟨s', hs', rfl⟩ := Option.map_eq_some_iff.mp hstepped.after
    have hok := (h.draft hs).step hstepped.step
    rw [hid, OkAt, hs']
    exact hok
  · exact (hstepped.others id hid).okAt (h id)

lemma Ok.settled_effect (h : db.Ok) (heffect : Effect k db db') (ht : t ∈ db.turns.rows)
    (hsettled : t.state.settled) : t ∈ db'.turns.rows := by
  have hmem : t ∈ db.turnsOf t.sessionId := List.mem_filter.mpr ⟨ht, by simp⟩
  have hmem' : t ∈ db'.turnsOf t.sessionId := by
    rcases heffect with hsame | ⟨v, v', hstepped⟩
    · exact (hsame _).turns.symm ▸ hmem
    by_cases hid : t.sessionId = v.session.id
    · obtain ⟨s, hs, rfl⟩ := Option.map_eq_some_iff.mp hstepped.before
      obtain ⟨s', hs', rfl⟩ := Option.map_eq_some_iff.mp hstepped.after
      have hstep := (h.draft hs).settled_step hstepped.step
        (show t ∈ db.turnsOf s.id from hid ▸ hmem) hsettled
      exact (hid.trans (id_of_get hs').symm).symm ▸ hstep
    · exact (hstepped.others _ hid).turns.symm ▸ hmem
  exact (List.mem_filter.mp hmem').1

lemma settle_effect {α : Type} {x : Except Error (α × SessionDb)}
    (h : ∀ a db', x = .ok (a, db') → Effect k db db') : Effect k db (db.settle x) := by
  cases x with
  | ok p => exact h p.1 p.2 rfl
  | error e => exact Effect.refl db

variable {ids : Nat → String}

lemma claimNextSessionTurn_effect {now token : Nat} {owner expiry : String}
    {answer : Option SessionTurn} (hok : db.Ok)
    (h : db.claimNextSessionTurn codec now id owner token expiry ids = .ok (answer, db')) :
    Effect .claim db db' := by
  obtain ⟨s, hs, ⟨-, rfl⟩ | ⟨-, t, -, rfl, -⟩ | ⟨hopen, t, -, rfl, hfree⟩⟩ :=
    claimNextSessionTurn_cases h
  · exact Effect.refl _
  · exact Effect.refl _
  obtain ⟨v', hstepped⟩ := claimed_stepped owner ids (id_of_get hs ▸ hs) hopen
    ((selectTurn_spec (hok.draft hs) hfree).1 _ rfl)
  exact .inr ⟨_, v', hstepped⟩

lemma bindSessionTurnRun_effect {now token : Nat} {turnId owner : String} {r : Run}
    {runEvent : Event} {new : Bool}
    (h : db.bindSessionTurnRun codec now id turnId r runEvent owner token ids = .ok (new, db')) :
    Effect .bind db db' := by
  obtain ⟨s, t, hs, -, ⟨-, rfl⟩ | ⟨-, hcurrent, hrun, core, snapshots, rfl⟩⟩ :=
    bindSessionTurnRun_cases h
  · exact Effect.refl _
  · obtain ⟨v', hstepped⟩ := bound_stepped (id_of_get hs ▸ hs) hcurrent hrun
    exact .inr ⟨_, v', hstepped⟩

lemma sessionMachine_effect {call : SessionCall} (hok : db.Ok)
    (h : sessionMachine codec db call = some db') :
    Effect call.kind db db' ∨ ∃ id pipelineId, db.create id pipelineId = some db' := by
  cases call with
  | create id pipelineId => exact .inr ⟨id, pipelineId, h⟩
  | submit id turnId key input pipelineId ids =>
    cases h
    exact .inl (settle_effect fun _ _ h => submitSessionTurn_effect h)
  | claim now id owner token expiry ids =>
    cases h
    exact .inl (settle_effect fun _ _ h => claimNextSessionTurn_effect hok h)
  | bind now id turnId r runEvent owner token ids =>
    cases h
    exact .inl (settle_effect fun _ _ h => bindSessionTurnRun_effect h)
  | complete now records owner token ids =>
    cases h
    refine .inl (settle_effect fun a db' h => ?_)
    cases hrun : db.commitSessionRun codec now records owner token ids with
    | error e =>
      rw [hrun] at h
      cases h
    | ok db₁ =>
      rw [hrun] at h
      cases h
      exact commitSessionRun_effect hrun
  | close id ids =>
    cases h
    exact .inl (settle_effect fun _ _ h => closeAgentSession_effect (fun s hs => hok.draft hs) h)
  | other core generations snapshots continuations =>
    cases h
    exact .inl (.inl fun _ => ⟨rfl, rfl, rfl⟩)

lemma Ok.create {pipelineId : String} (hok : db.Ok)
    (h : db.create id pipelineId = some db') : db'.Ok ∧ db'.turns = db.turns := by
  unfold SessionDb.create at h
  split at h
  · cases h
  split at h
  · cases h
  rename_i hnone
  cases h
  refine ⟨fun other => ?_, rfl⟩
  by_cases hid : other = id
  · subst hid
    have hempty := hok other
    rw [OkAt, hnone] at hempty
    have hget : (db.sessions.put { id := other, pipelineId }).get other = some _ :=
      Table.get_put_self _ _
    unfold OkAt
    simp only [hget]
    show SessionView.Ok ⟨_, db.turnsOf other, db.eventsOf other⟩
    rw [hempty.1, hempty.2]
    refine ⟨Consecutive.nil, rfl, Consecutive.nil, nofun, List.nodup_nil, nofun, fun _ => rfl, ?_,
      nofun, nofun, nofun, fun _ => nofun⟩
    exact fun hne => absurd rfl hne
  · have hsame : Same db { db with sessions := db.sessions.put { id, pipelineId } } other :=
      ⟨Table.get_put_ne fun he => hid (Eq.symm he), rfl, rfl⟩
    exact hsame.okAt (hok other)

lemma Ok.call {call : SessionCall} (hok : db.Ok) (h : sessionMachine codec db call = some db') :
    db'.Ok ∧ ∀ t ∈ db.turns.rows, t.state.settled → t ∈ db'.turns.rows := by
  rcases sessionMachine_effect hok h with heffect | ⟨id, pipelineId, hcreate⟩
  · exact ⟨hok.effect heffect, fun t ht hs => hok.settled_effect heffect ht hs⟩
  · obtain ⟨hok', hturns⟩ := hok.create hcreate
    exact ⟨hok', fun t ht _ => hturns.symm ▸ ht⟩

lemma Ok.reach (hok : db.Ok) (h : Reach (sessionMachine codec) always db db') :
    db'.Ok ∧ ∀ t ∈ db.turns.rows, t.state.settled → t ∈ db'.turns.rows := by
  refine h.invariant (I := fun db' => db'.Ok ∧ ∀ t ∈ db.turns.rows, t.state.settled →
    t ∈ db'.turns.rows) ⟨hok, fun t ht _ => ht⟩ ?_
  rintro db₁ call db₂ ⟨hok₁, hkept⟩ - hcall
  obtain ⟨hok₂, hnext⟩ := hok₁.call hcall
  exact ⟨hok₂, fun t ht hs => hnext t (hkept t ht hs) hs⟩

lemma ok_empty : Ok {} := fun _ => ⟨rfl, rfl⟩

/-- The rules of a session, read off its rows. -/
structure Rules (db : SessionDb) (s : AgentSession) : Prop where
  /-- The events are numbered from 1 to the one before the next. -/
  events : (db.eventsOf s.id).map SessionEvent.sequence = List.range' 1 (s.nextSequence - 1)
  /-- The turns are numbered from 1. -/
  turns : (db.turnsOf s.id).map SessionTurn.sequence = List.range' 1 (db.turnsOf s.id).length
  /-- A turn that is claimed or runs is the active one. -/
  active : ∀ t ∈ db.turnsOf s.id, t.state.active → t.id = s.activeTurnId
  /-- So there is at most one. -/
  single : ∀ t ∈ db.turnsOf s.id, ∀ u ∈ db.turnsOf s.id, t.state.active →
    u.state.active → t = u
  /-- The active run is the run of the running turn. -/
  run : ∀ t ∈ db.turnsOf s.id, t.state = .running → t.runId = s.activeRunId ∧ s.activeRunId ≠ ""
  running : s.activeRunId ≠ "" → ∃ t ∈ db.turnsOf s.id, t.state = .running
  /-- A closed session is over, and its journal ends with that. -/
  closed : s.state = .closed → (∀ t ∈ db.turnsOf s.id, t.state.settled) ∧
    ∃ before last, db.eventsOf s.id = before ++ [last] ∧ last.type = .sessionClosed ∧
      ∀ e ∈ before, e.type ≠ .sessionClosed

lemma Ok.rules (hok : db.Ok) (hs : s ∈ db.sessions.rows) : db.Rules s := by
  have h := hok.draft (Table.mem_rows_iff.mp hs)
  refine ⟨?_, h.turns, h.active, ?_, ?_, ?_, fun hc => (h.closed hc).2⟩
  · have hlength : s.nextSequence - 1 = (db.eventsOf s.id).length := by
      rw [show s.nextSequence = (db.eventsOf s.id).length + 1 from h.next]
      rfl
    rw [hlength]
    exact h.journal
  · intro t ht u hu hta hua
    exact h.eq_of_id hu ht ((h.active t ht hta).trans (h.active u hu hua).symm)
  · intro t ht hrunning
    rcases (h.holds_of_active ht (by rw [hrunning]; rfl)).work with hw | hw
    · rw [hrunning] at hw
      cases hw.1
    · exact hw.2
  intro hrun
  obtain ⟨t, ht⟩ := h.held fun he => hrun (h.idle he)
  rcases ht.work with hw | hw
  · exact absurd hw.2.2 hrun
  · exact ⟨t, ht.mem, hw.1⟩

/-- **The turn protocol.** Whatever transactions any number of clients and dispatchers make, every
session keeps its rules, and a settled turn never changes again. -/
theorem sessions_keep_rules (h : Reach (sessionMachine codec) always {} db) :
    (∀ s ∈ db.sessions.rows, db.Rules s) ∧ ∀ db', Reach (sessionMachine codec) always db db' →
        ∀ t ∈ db.turns.rows, t.state.settled = true → t ∈ db'.turns.rows := by
  have hok := (ok_empty.reach h).1
  exact ⟨fun s hs => hok.rules hs, fun db' h' => (hok.reach h').2⟩

def emptyCodec : SessionCodec := ⟨fun _ => 0, fun _ => 0, fun _ => 0⟩

def sampleIds (n : Nat) : String := String.ofList (List.replicate n 'e')

def sampleRun (state : RunState) : Run := { id := "r", sessionId := "s", sessionTurnId := "t", state }

/-- A turn of a session is submitted, and its run is started. -/
def sampleTurn (turnId key : String) (r : Run) : List SessionCall :=
  [.submit "s" turnId key .null "p" sampleIds, .claim 0 "s" "i" 0 "" sampleIds,
    .bind 0 "s" turnId r ⟨"r", "p", "input", "run.created", .queued⟩ "i" 0 sampleIds]

def sampleFirst : List SessionCall := .create "s" "p" :: sampleTurn "t" "k" (sampleRun .queued)

def sampleSecond : List SessionCall :=
  sampleTurn "u" "l" { sampleRun .queued with id := "q", sessionTurnId := "u" }

/-- A session is closed while its first turn runs and its second one waits. -/
def sampleCalls : List SessionCall :=
  [.create "s" "p", .submit "s" "t" "k" .null "p" sampleIds, .submit "s" "u" "l" .null "p" sampleIds,
    .claim 0 "s" "i" 0 "" sampleIds,
    .bind 0 "s" "t" (sampleRun .queued) ⟨"r", "p", "input", "run.created", .queued⟩ "i" 0 sampleIds,
    .close "s" sampleIds, .complete 0 [.record (.run (sampleRun .completed))] "" 0 sampleIds]

theorem sessions_keep_rules_closed : ∃ db, Reach (sessionMachine emptyCodec) always {} db ∧
      (db.sessions.rows.map AgentSession.state = [.closed] ∧
        db.turns.rows.map SessionTurn.state = [.succeeded, .cancelled]) ∧
      ∀ s ∈ db.sessions.rows, db.Rules s := by
  obtain ⟨db, hreach, hrows⟩ := exists_reach (f := fun db : SessionDb =>
      (db.sessions.rows.map AgentSession.state, db.turns.rows.map SessionTurn.state))
    (M := sessionMachine emptyCodec) (C := always) (s := {})
    (v := ([.closed], [.succeeded, .cancelled])) sampleCalls (by decide +kernel)
  exact ⟨db, hreach, Prod.mk.inj hrows, (sessions_keep_rules hreach).1⟩

end SessionDb

end Laso
