import Laso.Core.Numerals
import Laso.Sessions.Machine

/-!
# Submitting turns through the service

`Service::submit_session_turn` gives a turn an identifier that it computes from the session and a
64-bit hash of the idempotency key; storage finds an earlier turn by this identifier and then
compares the keys. So two keys with one hash are taken for a key that was used with another input:
the law of submissions (`Lawful`) holds for a key exactly when no other key of the session has its
hash.

`serviceMachine` is `sessionMachine` with the submissions of the service in the place of
submissions under any identifier, so identifiers are the ones the service computes (`Named`).
-/

namespace Laso

open List Machine SessionDb String

/-- Lengths of documents the service checks, beside those storage checks. -/
structure ServiceCodec extends SessionCodec where
  input : Json → Nat

namespace Service

def turnHash (key : String) : UInt64 :=
  key.toUTF8.toList.foldl (fun hash byte => (hash ^^^ byte.toUInt64) * 1099511628211)
    1469598103934665603

/-- The identifier of the turn with this idempotency key. -/
def turnId (id key : String) : String := id ++ "-turn-" ++ hex (turnHash key).toNat

/-- `agent_session`: the row of a session. -/
def agentSession (db : SessionDb) (id : String) : Except Error AgentSession :=
  match db.sessions.get id with
  | some session => .ok session
  | none => .error ⟨.notFound, "Record not found"⟩

/-- `Service::submit_session_turn` up to its transaction; `accepting` says that the instance accepts
new work. The turn is read afterwards, in a transaction of its own. -/
def submitSessionTurn (codec : ServiceCodec) (accepting : Bool) (db : SessionDb) (id key : String)
    (input : Json) (ids : Nat → String) : Except Error (Bool × SessionDb) := do
  require (accepting) ⟨.unavailable, "Instance is not accepting new work"⟩
  require (key ≠ "" ∧ key.utf8ByteSize ≤ 512 ∧ codec.input input ≤ 1024 * 1024)
    ⟨.validation, "Invalid session input"⟩
  let session ← agentSession db id
  db.submitSessionTurn codec.toSessionCodec id (turnId id key)
    (newTurn key input session.pipelineId) ids

/-- Submissions of the service and the transactions of others. -/
inductive ServiceCall where
  | submit (accepting : Bool) (id key : String) (input : Json) (ids : Nat → String)
  | session (call : SessionCall)

/-- The service and its dispatchers, in the order in which their transactions commit. Turns are
submitted by the service only. -/
def serviceMachine (codec : ServiceCodec) : Machine SessionDb ServiceCall := fun db call =>
  match call with
  | .submit accepting id key input ids =>
    some (db.settle (submitSessionTurn codec accepting db id key input ids))
  | .session (.submit _ _ _ _ _ _) => none
  | .session call => sessionMachine codec.toSessionCodec db call

/-! ## The law of submissions -/

/-- The turn is the same, whatever became of it. -/
structure SameTurn (t t' : SessionTurn) : Prop where
  id : t'.id = t.id
  sessionId : t'.sessionId = t.sessionId
  sequence : t'.sequence = t.sequence
  idempotencyKey : t'.idempotencyKey = t.idempotencyKey
  input : t'.input = t.input

variable {codec : ServiceCodec} {db db' : SessionDb} {s : AgentSession} {t t' : SessionTurn}
  {key : String} {input : Json} {ids : Nat → String}

def acceptedTurn (db : SessionDb) (s : AgentSession) (key : String) (input : Json) : SessionTurn :=
  { newTurn key input s.pipelineId with
    id := turnId s.id key, sessionId := s.id, sequence := db.lastTurnSequence s.id + 1 }

def acceptedEvent (s : AgentSession) (key : String) (input : Json) (ids : Nat → String) :
    SessionEvent :=
  { id := ids s.nextSequence, sessionId := s.id, sequence := s.nextSequence, type := .inputAccepted
    turnId := turnId s.id key, payload := .obj [("input", input)] }

/-- A submission within all limits: of the service, of storage and of its counters. -/
structure InLimits (codec : ServiceCodec) (db : SessionDb) (s : AgentSession) (key : String)
    (input : Json) (ids : Nat → String) : Prop where
  keySize : key ≠ "" ∧ key.utf8ByteSize ≤ 512
  inputSize : codec.input input ≤ 1024 * 1024
  sessionSize : s.id ≠ "" ∧ s.id.utf8ByteSize ≤ 128
  turnSize : codec.turn (newTurn key input s.pipelineId) ≤ 1024 * 1024
  eventSize : codec.event (acceptedEvent s key input ids) ≤ maxEvent
  stored : codec.turn (acceptedTurn db s key input) ≤ maxStored ∧
    codec.session { s with nextSequence := s.nextSequence + 1 } ≤ maxStored
  events : s.nextSequence ≤ maxSequence
  turns : db.lastTurnSequence s.id < maxSequence
  fresh : ∀ e ∈ db.events, e.id ≠ ids s.nextSequence

/-- The turn is what a reader of the turn of a key finds, from now on. -/
def Returned (codec : ServiceCodec) (db : SessionDb) (s : AgentSession) (key : String)
    (t : SessionTurn) : Prop :=
  ∀ db', Reach (serviceMachine codec) always db db' →
    ∃ t', db'.turns.get (turnId s.id key) = some t' ∧ SameTurn t t'

structure Lawful (codec : ServiceCodec) (db : SessionDb) (s : AgentSession) (key : String)
    (input : Json) (ids : Nat → String) : Prop where
  /-- A new key makes a new queued turn, the next one of the session. -/
  new : (∀ t ∈ db.turnsOf s.id, t.idempotencyKey ≠ key) →
    ∃ t db', submitSessionTurn codec true db s.id key input ids = .ok (true, db') ∧
      db'.turnsOf s.id = db.turnsOf s.id ++ [t] ∧ t.state = .queued ∧
      t.sequence = (db.turnsOf s.id).length + 1 ∧ t.idempotencyKey = key ∧ t.input = input ∧
      Returned codec db' s key t
  /-- A repeated submission changes nothing and finds the first one's turn. -/
  repeated : ∀ t ∈ db.turnsOf s.id, t.idempotencyKey = key → (t.input == input) →
    submitSessionTurn codec true db s.id key input ids = .ok (false, db) ∧ Returned codec db s key t
  /-- A key is not used again for another input. -/
  reused : ∀ t ∈ db.turnsOf s.id, t.idempotencyKey = key → (t.input == input) = false →
    submitSessionTurn codec true db s.id key input ids =
      .error ⟨.conflict, "Session turn idempotency key was reused"⟩

/-- No other key of the session has the hash of this one. -/
def Unshared (db : SessionDb) (s : AgentSession) (key : String) : Prop :=
  ∀ t ∈ db.turnsOf s.id, turnHash t.idempotencyKey = turnHash key → t.idempotencyKey = key

/-! ## Identifiers -/

lemma turnId_inj {id id' key' : String} (h : turnId id key = turnId id' key') :
    id = id' ∧ turnHash key = turnHash key' := by
  have hsplit : ∀ (a b : String), a ++ "-turn-" ++ b = a ++ "-turn" ++ "-" ++ b := by
    intro a b
    have hname : a ++ "-turn" ++ "-" = a ++ ("-turn" ++ "-") := append_assoc
    rw [hname]
    rfl
  unfold turnId at h
  rw [hsplit, hsplit] at h
  obtain ⟨hname, hhash⟩ := append_hex_inj h
  have hchars := congrArg toList hname
  rw [toList_append, toList_append] at hchars
  exact ⟨ext (append_cancel_right hchars), UInt64.toNat_inj.mp hhash⟩

lemma turnId_ne (id key : String) : turnId id key ≠ "" := by
  intro h
  have hsize := congrArg utf8ByteSize h
  simp [turnId, utf8ByteSize_append] at hsize

variable {id : String}

lemma turnId_size (h : id.utf8ByteSize ≤ 128) (key : String) :
    (turnId id key).utf8ByteSize ≤ 256 := by
  have hhex : (hex (turnHash key).toNat).utf8ByteSize ≤ 16 :=
    utf8ByteSize_hex (by decide) (turnHash key).toNat_lt
  have hname : "-turn-".utf8ByteSize = 6 := by decide
  simp only [turnId, utf8ByteSize_append, hname]
  omega

/-! ## What becomes of a turn -/

lemma SameTurn.refl (t : SessionTurn) : SameTurn t t := ⟨rfl, rfl, rfl, rfl, rfl⟩

lemma SameTurn.trans {t₁ t₂ t₃ : SessionTurn} (h : SameTurn t₁ t₂) (h' : SameTurn t₂ t₃) :
    SameTurn t₁ t₃ :=
  ⟨h'.id.trans h.id, h'.sessionId.trans h.sessionId, h'.sequence.trans h.sequence,
    h'.idempotencyKey.trans h.idempotencyKey, h'.input.trans h.input⟩

/-- Turns are rewritten one by one, and each stays the same turn. -/
def Rewritten (turns turns' : List SessionTurn) : Prop :=
  ∃ f : SessionTurn → SessionTurn, turns' = turns.map f ∧ ∀ t ∈ turns, SameTurn t (f t)

lemma rewritten_replace {v v' : SessionView} (hok : v.Ok) (ht : t ∈ v.turns)
    (hturns : v'.turns = v.turns.map (replaceTurn t')) (hsame : SameTurn t t') :
    Rewritten v.turns v'.turns := by
  refine ⟨_, hturns, fun u hu => ?_⟩
  unfold replaceTurn
  split
  · rename_i hid
    cases hok.eq_of_id ht hu (hid.trans hsame.id)
    exact hsame
  · exact .refl u

lemma rewritten_step {k : StepKind} {v v' : SessionView} (hok : v.Ok) (h : SessionStep k v v')
    (hk : k ≠ .submit) : Rewritten v.turns v'.turns := by
  cases h with
  | submit => exact absurd rfl hk
  | claim t owner fence e _ _ _ hmem _ _ hturns =>
    exact rewritten_replace hok hmem hturns ⟨rfl, rfl, rfl, rfl, rfl⟩
  | bind t runId e _ _ _ hmem _ _ _ hturns =>
    exact rewritten_replace hok hmem hturns ⟨rfl, rfl, rfl, rfl, rfl⟩
  | complete t r e es _ _ hmem _ _ hturns =>
    exact rewritten_replace hok hmem hturns ⟨rfl, rfl, rfl, rfl, rfl⟩
  | closing es _ _ _ _ hturns =>
    refine ⟨_, hturns, fun t _ => ?_⟩
    split
    · exact ⟨rfl, rfl, rfl, rfl, rfl⟩
    split
    · exact ⟨rfl, rfl, rfl, rfl, rfl⟩
    · exact .refl t
  | close es last _ _ _ _ _ hturns =>
  refine ⟨_, hturns, fun t _ => ?_⟩
  split
  · exact ⟨rfl, rfl, rfl, rfl, rfl⟩
  · exact .refl t

lemma Rewritten.of_eq {turns turns' : List SessionTurn} (h : turns' = turns) :
    Rewritten turns turns' := ⟨fun t => t, by simp [h], fun t _ => .refl t⟩

lemma rewritten_effect {k : StepKind} (hok : db.Ok) (h : SessionDb.Effect k db db')
    (hk : k ≠ .submit) (id : String) : Rewritten (db.turnsOf id) (db'.turnsOf id) := by
  rcases h with hsame | ⟨v, v', hstepped⟩
  · exact .of_eq (hsame id).turns
  by_cases hid : id = v.session.id
  · obtain ⟨s, hs, rfl⟩ := Option.map_eq_some_iff.mp hstepped.before
    obtain ⟨s', hs', rfl⟩ := Option.map_eq_some_iff.mp hstepped.after
    have hstep := rewritten_step (hok.draft hs) hstepped.step hk
    simp only [draft, (id_of_get hs')] at hstep hid
    exact hid ▸ hstep
  · exact .of_eq (hstepped.others id hid).turns

lemma rewritten_session {call : SessionCall} (hok : db.Ok)
    (h : serviceMachine codec db (.session call) = some db') (id : String) :
    Rewritten (db.turnsOf id) (db'.turnsOf id) := by
  have hcall : ∀ call : SessionCall, call.kind ≠ .submit →
      sessionMachine codec.toSessionCodec db call = some db' →
      Rewritten (db.turnsOf id) (db'.turnsOf id) := by
    intro call hk hcall
    rcases sessionMachine_effect hok hcall with heffect | ⟨id', pipelineId, hcreate⟩
    · exact rewritten_effect hok heffect hk id
    · exact .of_eq (by simp only [turnsOf, (hok.create hcreate).2])
  cases call with
  | create id' pipelineId =>
    exact .of_eq (by simp only [turnsOf, (hok.create h).2])
  | submit id' turnId key input pipelineId ids => cases h
  | claim now id' owner token expiry ids =>
    exact hcall (.claim now id' owner token expiry ids) (by rintro ⟨⟩) h
  | bind now id' turnId r runEvent owner token ids =>
    exact hcall (.bind now id' turnId r runEvent owner token ids) (by rintro ⟨⟩) h
  | complete now records owner token ids =>
    exact hcall (.complete now records owner token ids) (by rintro ⟨⟩) h
  | close id' ids => exact hcall (.close id' ids) (by rintro ⟨⟩) h
  | other core generations snapshots continuations =>
    cases h
    exact .of_eq rfl

/-! ## Submissions -/

lemma submitSessionTurn_cases {accepting new : Bool}
    (h : submitSessionTurn codec accepting db id key input ids = .ok (new, db')) :
    db' = db ∨ ∃ s, db.sessions.get id = some s ∧
      db.turns.get (turnId id key) = none ∧
      db' = { db with
        turns := db.turns.put (acceptedTurn db s key input)
        events := db.events ++ [acceptedEvent s key input ids]
        sessions := db.sessions.put { s with nextSequence := s.nextSequence + 1 } } := by
  simp only [submitSessionTurn, bind_eq_ok, require_eq_ok] at h
  obtain ⟨_, -, _, -, s, hs, h⟩ := h
  have hget : db.sessions.get id = some s := by
    unfold agentSession at hs
    split at hs
    · cases hs
      assumption
    · cases hs
  have hid : s.id = id := id_of_get hget
  subst hid
  simp only [SessionDb.submitSessionTurn, bind_eq_ok, require_eq_ok, SessionDb.lockSession_eq_ok,
    hget, Option.some.injEq] at h
  obtain ⟨_, -, _, rfl, h⟩ := h
  split at h
  · simp only [bind_eq_ok, pure_eq_ok, Prod.mk.injEq] at h
    obtain ⟨_, -, -, rfl⟩ := h
    exact .inl rfl
  rename_i hnone
  simp only [bind_eq_ok, pure_eq_ok, Prod.mk.injEq, SessionDb.insertTurn_eq_ok,
    SessionDb.insertEvent_eq_ok, SessionDb.updateSession_eq_ok] at h
  obtain ⟨_, -, _, -, _, -, _, -, _, ⟨-, -, rfl⟩, _, ⟨-, rfl⟩, _, ⟨-, rfl⟩, -, rfl⟩ := h
  exact .inr ⟨s, hget, hnone, rfl⟩

lemma InLimits.request (h : InLimits codec db s key input ids) :
    s.id ≠ "" ∧ s.id.utf8ByteSize ≤ 128 ∧ turnId s.id key ≠ "" ∧
      (turnId s.id key).utf8ByteSize ≤ 256 ∧
      codec.turn (newTurn key input s.pipelineId) ≤ 1024 * 1024 :=
  ⟨h.sessionSize.1, h.sessionSize.2, turnId_ne _ _, turnId_size h.sessionSize.2 key, h.turnSize⟩

lemma submitSessionTurn_new (hs : db.sessions.get s.id = some s) (hopen : s.state = .opened)
    (hlimits : InLimits codec db s key input ids) (hfree : db.turns.get (turnId s.id key) = none) :
    submitSessionTurn codec true db s.id key input ids = .ok (true, { db with
      turns := db.turns.put (acceptedTurn db s key input)
      events := db.events ++ [acceptedEvent s key input ids]
      sessions := db.sessions.put { s with nextSequence := s.nextSequence + 1 } }) := by
  have hstored : codec.event (acceptedEvent s key input ids) ≤ maxStored :=
    hlimits.eventSize.trans (by decide)
  simp only [submitSessionTurn, bind_eq_ok, require_eq_ok, agentSession, hs, Except.ok.injEq,
    SessionDb.submitSessionTurn, SessionDb.lockSession_eq_ok, exists_eq_left', hfree, pure_eq_ok,
    SessionDb.insertTurn_eq_ok, SessionDb.insertEvent_eq_ok, SessionDb.updateSession_eq_ok]
  exact ⟨(), trivial, (), ⟨hlimits.keySize.1, hlimits.keySize.2, hlimits.inputSize⟩, (),
    hlimits.request, s, rfl, (), hopen, (), hlimits.events, (), hlimits.turns, (), hlimits.eventSize, _,
    ⟨hlimits.stored.1, trivial, rfl⟩, _, ⟨⟨hstored, hlimits.events, hlimits.fresh⟩, rfl⟩, _,
    ⟨hlimits.stored.2, rfl⟩, rfl⟩

/-- A submission within the limits under an identifier that is in use is decided by the turn that
has it. -/
lemma submitSessionTurn_used (hs : db.sessions.get s.id = some s)
    (hlimits : InLimits codec db s key input ids) (hused : db.turns.get (turnId s.id key) = some t)
    (hsession : t.sessionId = s.id) :
    submitSessionTurn codec true db s.id key input ids =
      if t.idempotencyKey = key ∧ (t.input == input) then .ok (false, db)
      else .error ⟨.conflict, "Session turn idempotency key was reused"⟩ := by
  have hkey : key ≠ "" ∧ key.utf8ByteSize ≤ 512 ∧ codec.input input ≤ 1024 * 1024 :=
    ⟨hlimits.keySize.1, hlimits.keySize.2, hlimits.inputSize⟩
  simp only [submitSessionTurn, agentSession, hs, SessionDb.submitSessionTurn,
    lockSession, hused, require, if_pos hkey, if_pos hlimits.request, if_true, hsession,
    true_and, ok_bind]
  let turn := newTurn key input s.pipelineId
  by_cases hsame : t.idempotencyKey = turn.idempotencyKey ∧ (t.input == turn.input)
  · rw [if_pos hsame]
    exact (if_pos hsame).symm
  · rw [if_neg hsame]
    exact (if_neg hsame).symm

lemma submitSessionTurn_effect {accepting new : Bool}
    (h : submitSessionTurn codec accepting db id key input ids = .ok (new, db')) :
    SessionDb.Effect .submit db db' := by
  simp only [submitSessionTurn, bind_eq_ok] at h
  obtain ⟨_, -, _, -, s, -, h⟩ := h
  exact SessionDb.submitSessionTurn_effect h

/-! ## The invariant -/

/-- The sessions keep to their protocol, and turns have the identifiers the service computes. -/
structure Named (db : SessionDb) : Prop where
  ok : db.Ok
  named : ∀ id, ∀ t ∈ db.turnsOf id, t.id = turnId id t.idempotencyKey

lemma named_empty : Named {} := ⟨ok_empty, nofun⟩

lemma Named.rewritten {more : List SessionTurn}
    (h : ∀ t ∈ db.turnsOf id, t.id = turnId id t.idempotencyKey) {turns : List SessionTurn}
    (hrewritten : Rewritten (db.turnsOf id) turns)
    (hmore : ∀ t ∈ more, t.id = turnId id t.idempotencyKey) :
    ∀ t ∈ turns ++ more, t.id = turnId id t.idempotencyKey := by
  obtain ⟨f, rfl, hf⟩ := hrewritten
  intro t' ht'
  rcases mem_append.mp ht' with ht' | ht'
  · obtain ⟨t, ht, rfl⟩ := mem_map.mp ht'
    rw [(hf t ht).id, (hf t ht).idempotencyKey]
    exact h t ht
  · exact hmore t' ht'

/-- **One transaction** rewrites turns or appends one with its identifier. -/
lemma turns_of_call {call : ServiceCall} (hok : db.Ok)
    (h : serviceMachine codec db call = some db') (id : String) :
    ∃ turns more, db'.turnsOf id = turns ++ more ∧ Rewritten (db.turnsOf id) turns ∧
      ∀ t ∈ more, t.id = turnId id t.idempotencyKey := by
  cases call with
  | session call =>
    exact ⟨_, [], (append_nil _).symm, rewritten_session hok h id, nofun⟩
  | submit accepting id' key input ids =>
  cases h
  cases hsubmit : submitSessionTurn codec accepting db id' key input ids with
  | error e => exact ⟨_, [], (append_nil _).symm, .of_eq rfl, nofun⟩
  | ok x =>
  obtain ⟨new, db'⟩ := x
  rcases submitSessionTurn_cases hsubmit with rfl | ⟨s, hs, hfree, rfl⟩
  · exact ⟨_, [], (append_nil _).symm, .of_eq rfl, nofun⟩
  have hfresh : db.turns.get (acceptedTurn db s key input).id = none := by
    rw [← (id_of_get hs)] at hfree
    exact hfree
  refine ⟨_, _, turnsOf_insert hfresh id, .of_eq rfl, fun t ht => ?_⟩
  split at ht
  · rename_i hsession
    cases mem_singleton.mp ht
    rw [← hsession]
    rfl
  · cases ht

lemma Named.call {call : ServiceCall} (hnamed : Named db)
    (h : serviceMachine codec db call = some db') :
    Named db' ∧ ∀ id, ∀ t ∈ db.turnsOf id, ∃ t' ∈ db'.turnsOf id, SameTurn t t' := by
  have hturns := turns_of_call hnamed.ok h
  refine ⟨⟨?_, fun id => ?_⟩, fun id t ht => ?_⟩
  · cases call with
    | session call =>
      have hcall : sessionMachine codec.toSessionCodec db call = some db' := by
        cases call <;> first | exact h | cases h
      exact (hnamed.ok.call hcall).1
    | submit accepting id' key input ids =>
      cases h
      exact hnamed.ok.effect (settle_effect fun _ _ h => submitSessionTurn_effect h)
  · obtain ⟨turns, more, heq, hrewritten, hmore⟩ := hturns id
    rw [heq]
    exact Named.rewritten (hnamed.named id) hrewritten hmore
  · obtain ⟨turns, more, heq, ⟨f, rfl, hf⟩, -⟩ := hturns id
    rw [heq]
    exact ⟨f t, mem_append_left _ (mem_map_of_mem ht), hf t ht⟩

/-- **Along every run** turns keep their identifiers and stay what they are. -/
lemma Named.reach (hnamed : Named db) (h : Reach (serviceMachine codec) always db db') :
    Named db' ∧ ∀ id, ∀ t ∈ db.turnsOf id, ∃ t' ∈ db'.turnsOf id, SameTurn t t' := by
  refine h.invariant (I := fun db' => Named db' ∧
    ∀ id, ∀ t ∈ db.turnsOf id, ∃ t' ∈ db'.turnsOf id, SameTurn t t')
    ⟨hnamed, fun _ t ht => ⟨t, ht, .refl t⟩⟩ ?_
  rintro db₁ call db₂ ⟨hnamed₁, hkept⟩ - hcall
  obtain ⟨hnamed₂, hnext⟩ := hnamed₁.call hcall
  refine ⟨hnamed₂, fun id t ht => ?_⟩
  obtain ⟨t₁, ht₁, hsame₁⟩ := hkept id t ht
  obtain ⟨t₂, ht₂, hsame₂⟩ := hnext id t₁ ht₁
  exact ⟨t₂, ht₂, hsame₁.trans hsame₂⟩

/-! ## The law -/

lemma Named.get (h : Named db) (ht : t ∈ db.turnsOf id) :
    db.turns.get (turnId id t.idempotencyKey) = some t := by
  rw [← h.named id t ht]
  exact (mem_turnsOf.mp ht).1

/-- Who has the identifier of a key is a turn of the session, and its key has the same hash. -/
lemma Named.of_get (h : Named db) (hget : db.turns.get (turnId id key) = some t) :
    t ∈ db.turnsOf id ∧ turnHash t.idempotencyKey = turnHash key := by
  have hid : t.id = turnId id key := Table.key_of_get hget
  have hmem : t ∈ db.turnsOf t.sessionId := mem_turnsOf.mpr ⟨hid ▸ hget, rfl⟩
  obtain ⟨hsession, hhash⟩ := turnId_inj ((h.named _ t hmem).symm.trans hid)
  exact ⟨hsession ▸ hmem, hhash⟩

lemma Named.returned (h : Named db) (ht : t ∈ db.turnsOf s.id) (hkey : t.idempotencyKey = key) :
    Returned codec db s key t := by
  intro db' hreach
  obtain ⟨hnamed, hkept⟩ := h.reach hreach
  obtain ⟨t', ht', hsame⟩ := hkept s.id t ht
  refine ⟨t', ?_, hsame⟩
  rw [← hkey, ← hsame.idempotencyKey]
  exact hnamed.get ht'

lemma Named.lawful (h : Named db) (hs : db.sessions.get s.id = some s) (hopen : s.state = .opened)
    (hlimits : InLimits codec db s key input ids) (hunshared : Unshared db s key) :
    Lawful codec db s key input ids where
  new hnew := by
    have hfree : db.turns.get (turnId s.id key) = none := by
      cases hget : db.turns.get (turnId s.id key) with
      | none => rfl
      | some t =>
        obtain ⟨ht, hhash⟩ := h.of_get hget
        exact absurd (hunshared t ht hhash) (hnew t ht)
    have hsubmit := submitSessionTurn_new hs hopen hlimits hfree
    have hturns : ({ db with turns := db.turns.put (acceptedTurn db s key input) } :
        SessionDb).turnsOf s.id = db.turnsOf s.id ++ [acceptedTurn db s key input] :=
      (turnsOf_insert hfree s.id).trans (congrArg (db.turnsOf s.id ++ ·) (if_pos rfl))
    have hstep : serviceMachine codec db (.submit true s.id key input ids) = some _ :=
      congrArg (fun x => some (db.settle x)) hsubmit
    refine ⟨acceptedTurn db s key input, _, hsubmit, hturns, rfl, ?_, rfl, rfl, ?_⟩
    · exact congrArg (· + 1) (h.ok.draft hs).lastSequence
    · refine (h.call hstep).1.returned ?_ rfl
      exact hturns ▸ mem_append_right _ mem_cons_self
  repeated t ht hkey hinput := by
    have hget := hkey ▸ h.get ht
    refine ⟨?_, h.returned ht hkey⟩
    rw [submitSessionTurn_used hs hlimits hget (mem_turnsOf.mp ht).2, if_pos ⟨hkey, hinput⟩]
  reused t ht hkey hinput := by
    have hget := hkey ▸ h.get ht
    rw [submitSessionTurn_used hs hlimits hget (mem_turnsOf.mp ht).2, if_neg]
    rw [hinput]
    nofun

lemma Named.shared (h : Named db) (hs : db.sessions.get s.id = some s)
    (hlimits : InLimits codec db s key input ids) (ht : t ∈ db.turnsOf s.id)
    (hhash : turnHash t.idempotencyKey = turnHash key) (hne : t.idempotencyKey ≠ key) :
    (∀ u ∈ db.turnsOf s.id, u.idempotencyKey ≠ key) ∧
      submitSessionTurn codec true db s.id key input ids =
        .error ⟨.conflict, "Session turn idempotency key was reused"⟩ := by
  have hget : db.turns.get (turnId s.id key) = some t := by
    have hown := h.get ht
    rwa [turnId, hhash, ← turnId] at hown
  refine ⟨fun u hu hkey => ?_, ?_⟩
  · -- the turn of the key would have the same identifier
    have hother := h.get hu
    rw [hkey, hget] at hother
    cases hother
    exact hne hkey
  · rw [submitSessionTurn_used hs hlimits hget (mem_turnsOf.mp ht).2]
    exact if_neg fun hsame => hne hsame.1

def emptyServiceCodec : ServiceCodec where
  toSessionCodec := emptyCodec
  input _ := 0

def sampleSession : AgentSession := { id := "s", pipelineId := "p", nextSequence := 2 }

lemma sample_submitted : ∃ db, Reach (serviceMachine emptyServiceCodec) always {} db ∧
      db.sessions.rows = [sampleSession] ∧
      (db.turnsOf "s").map SessionTurn.idempotencyKey = ["ghxnawbosl5fd"] ∧
      db.events.map SessionEvent.id = ["e"] ∧ db.lastTurnSequence "s" = 1 := by
  obtain ⟨db, hreach, hrows⟩ := exists_reach
    (f := fun db : SessionDb => (db.sessions.rows, (db.turnsOf "s").map SessionTurn.idempotencyKey,
      db.events.map SessionEvent.id, db.lastTurnSequence "s"))
    (M := serviceMachine emptyServiceCodec) (C := always) (s := {})
    (v := ([sampleSession], ["ghxnawbosl5fd"], ["e"], 1))
    [.session (.create "s" "p"), .submit true "s" "ghxnawbosl5fd" .null sampleIds]
    (by decide +kernel)
  simp only [Prod.mk.injEq] at hrows
  exact ⟨db, hreach, hrows⟩

lemma sample_inLimits (hevents : db.events.map SessionEvent.id = ["e"])
    (hlast : db.lastTurnSequence "s" = 1) (hkey : key ≠ "" ∧ key.utf8ByteSize ≤ 512) :
    InLimits emptyServiceCodec db sampleSession key .null sampleIds where
  keySize := hkey
  inputSize := by decide
  sessionSize := by decide
  turnSize := Nat.zero_le _
  eventSize := Nat.zero_le _
  stored := ⟨Nat.zero_le _, Nat.zero_le _⟩
  events := by decide
  turns := by rw [show sampleSession.id = "s" from rfl, hlast]; decide
  fresh e he hid := by
    have hmem : e.id ∈ db.events.map SessionEvent.id := mem_map_of_mem he
    rw [hevents, hid] at hmem
    exact absurd hmem (by decide)

end Service

end Laso
