import Laso.Sessions.Machine
import Mathlib.Data.List.Chain

/-!
# Context generations

A context generation is a derived representation of the history of a session up to one of its
turns, its boundary. `create_session_context_generation` appends one to the chain of its session;
it is given the generation its author has seen last, and refuses to continue another one.

Generations and turns are written by different parties, so `contextMachine` adds the transaction to
those of clients and dispatchers. What links the two tables is that a boundary covers settled turns
only (`Covered`), and that those do not change any more. A turn that is bound to a run is claimed,
so it lies behind every boundary: the snapshot of its run can always be taken.
-/

namespace Laso

open List Machine

/-- Lengths of the documents of context generations, and of any document, beside those of
sessions. -/
structure ContextCodec extends SessionCodec where
  json : Json → Nat
  generation : SessionContextGeneration → Nat

namespace SessionDb

variable {codec : ContextCodec} {db db' : SessionDb} {s s' : AgentSession} {t : SessionTurn}
  {g : SessionContextGeneration} {ids : Nat → String} {sessionId : String}

/-! ## Creating a generation -/

def generationsOf (db : SessionDb) (sessionId : String) : List SessionContextGeneration :=
  db.generations.rows.filter fun g => g.sessionId = sessionId

/-- The loop over the turns up to the boundary, which counts them. -/
def countSettled : Nat → List SessionTurn → Except Error Nat
  | seen, [] => .ok seen
  | seen, turn :: rest => do
    require (turn.sequence = seen + 1 ∧ turn.state.settled)
      ⟨.conflict, "Context generation boundary includes unfinished history"⟩
    countSettled (seen + 1) rest

/-- What the author of a generation asks for. -/
structure GenerationRequest where
  sessionId : String
  expectedGeneration : Nat
  throughTurnSequence : Nat
  idempotencyKey : String
  representationKind : String
  representationVersion : String
  payload : Json

def GenerationRequest.InLimits (codec : ContextCodec) (q : GenerationRequest) : Prop :=
  q.sessionId ≠ "" ∧ q.sessionId.utf8ByteSize ≤ 128 ∧
    q.idempotencyKey ≠ "" ∧ q.idempotencyKey.utf8ByteSize ≤ 256 ∧
    q.representationKind ≠ "" ∧ q.representationKind.utf8ByteSize ≤ 128 ∧
    q.representationVersion ≠ "" ∧ q.representationVersion.utf8ByteSize ≤ 128 ∧
    codec.json q.payload ≤ 1024 * 1024 ∧ q.throughTurnSequence ≤ maxSequence

instance (q : GenerationRequest) : Decidable (q.InLimits codec) :=
  inferInstanceAs (Decidable (_ ∧ _))

/-- A generation that was created with the idempotency key of a request answers it. -/
def GenerationRequest.Answered (q : GenerationRequest) (prior : SessionContextGeneration) : Prop :=
  prior.throughTurnSequence = q.throughTurnSequence ∧
    prior.representationKind = q.representationKind ∧
    prior.representationVersion = q.representationVersion ∧ (prior.payload == q.payload)

instance (q : GenerationRequest) (prior : SessionContextGeneration) :
    Decidable (q.Answered prior) :=
  inferInstanceAs (Decidable (_ ∧ _))

/-- The generation that continues the chain after `latest`. -/
def GenerationRequest.next (q : GenerationRequest) (id : String)
    (latest : Option SessionContextGeneration) : SessionContextGeneration where
  id := id
  sessionId := q.sessionId
  generation := (latest.elim 0 SessionContextGeneration.generation) + 1
  predecessorId := latest.elim "" SessionContextGeneration.id
  throughTurnSequence := q.throughTurnSequence
  representationKind := q.representationKind
  representationVersion := q.representationVersion
  idempotencyKey := q.idempotencyKey
  payload := q.payload

def insertGeneration (codec : ContextCodec) (db : SessionDb) (g : SessionContextGeneration) :
    Except Error SessionDb := do
  serialize (codec.generation g)
  require ((db.generations.get g.id).isNone) ⟨.conflict, "PostgreSQL uniqueness conflict"⟩
  return { db with generations := db.generations.put g }

/-- `create_session_context_generation`; `id` is the identifier drawn for the generation. Answers
the generation, which may have been created by an earlier call. -/
def createSessionContextGeneration (codec : ContextCodec) (db : SessionDb) (q : GenerationRequest)
    (id : String) : Except Error (SessionContextGeneration × SessionDb) := do
  require (q.InLimits codec) ⟨.validation, "Invalid session context generation"⟩
  let _ ← db.lockSession q.sessionId
  match (db.generationsOf q.sessionId).find? fun g => g.idempotencyKey = q.idempotencyKey with
  | some prior =>
    require (q.Answered prior) ⟨.conflict, "Context generation idempotency key was reused"⟩
    return (prior, db)
  | none =>
    let latest := db.latestGeneration q.sessionId
    let currentGeneration := latest.elim 0 SessionContextGeneration.generation
    let currentBoundary := latest.elim 0 SessionContextGeneration.throughTurnSequence
    require (q.expectedGeneration = currentGeneration)
      ⟨.conflict, "Session context generation revision is stale"⟩
    require (currentBoundary ≤ q.throughTurnSequence)
      ⟨.conflict, "Context generation boundary cannot move backward"⟩
    require (currentGeneration < maxSequence)
      ⟨.capacity, "Session context generation number is exhausted"⟩
    let seen ← countSettled 0 ((db.turnsInOrder q.sessionId).filter fun t =>
      t.sequence ≤ q.throughTurnSequence)
    require (seen = q.throughTurnSequence)
      ⟨.validation, "Context generation boundary is outside session history"⟩
    let g := q.next id latest
    let db ← db.insertGeneration codec g
    return (g, db)

/-! ## Any interleaving -/

/-- The transactions of clients and dispatchers, and those of the authors of generations. -/
inductive ContextCall where
  | session (call : SessionCall)
  | generate (q : GenerationRequest) (id : String)

/-- Clients, dispatchers and authors of generations, in the order in which their transactions
commit. Nobody else writes generations or snapshots. -/
def contextMachine (codec : ContextCodec) : Machine SessionDb ContextCall := fun db call =>
  match call with
  | .session (.other core _ _ continuations) => some { db with core, continuations }
  | .session call => sessionMachine codec.toSessionCodec db call
  | .generate q id => some (db.settle (db.createSessionContextGeneration codec q id))

/-! ## What the transactions leave alone -/

structure Untouched (db db' : SessionDb) : Prop where
  generations : db'.generations = db.generations
  snapshots : db'.snapshots = db.snapshots
  continuations : db'.continuations = db.continuations

lemma Untouched.refl (db : SessionDb) : Untouched db db := ⟨rfl, rfl, rfl⟩

variable {gens : List SessionContextGeneration} {records : List SessionRecord}
  {snap : RunContextSnapshot} {runEvent : Event} {turns : List SessionTurn}
  {db₁ db₂ db₃ : SessionDb}

lemma Untouched.trans (h : Untouched db₁ db₂) (h' : Untouched db₂ db₃) :
    Untouched db₁ db₃ :=
  ⟨h'.generations.trans h.generations, h'.snapshots.trans h.snapshots,
    h'.continuations.trans h.continuations⟩

variable {c : SessionCodec} {now token : Nat} {turnId runId : String}

lemma appendEvent_untouched {type : SessionEventType}
    {payload : Json} (h : db.appendEvent c s ids type turnId runId payload = .ok (s', db')) :
    Untouched db db' := by
  obtain ⟨_, -, -, -, rfl, -⟩ := appendEvent_eq_ok h
  exact ⟨rfl, rfl, rfl⟩

lemma updateTurn_untouched (h : db.updateTurn c t = .ok db') :
    Untouched db db' := by
  obtain ⟨-, rfl⟩ := updateTurn_eq_ok.mp h
  exact ⟨rfl, rfl, rfl⟩

lemma updateSession_untouched (h : db.updateSession c s = .ok db') :
    Untouched db db' := by
  obtain ⟨-, rfl⟩ := updateSession_eq_ok.mp h
  exact ⟨rfl, rfl, rfl⟩

variable {id : String}

lemma create_untouched {pipelineId : String} (h : db.create id pipelineId = some db') :
    Untouched db db' := by
  unfold SessionDb.create at h
  split at h
  · cases h
  split at h
  · cases h
  · cases h
    exact ⟨rfl, rfl, rfl⟩

lemma submitSessionTurn_untouched {turn : SessionTurn}
    {new : Bool} (h : db.submitSessionTurn c sessionId turnId turn ids = .ok (new, db')) :
    Untouched db db' := by
  simp only [submitSessionTurn, bind_eq_ok, require_eq_ok] at h
  obtain ⟨_, -, s, -, h⟩ := h
  split at h
  · simp only [bind_eq_ok, pure_eq_ok, Prod.mk.injEq] at h
    obtain ⟨_, -, -, rfl⟩ := h
    exact .refl db
  simp only [bind_eq_ok, pure_eq_ok, Prod.mk.injEq, insertTurn_eq_ok, insertEvent_eq_ok,
    updateSession_eq_ok] at h
  obtain ⟨_, -, _, -, _, -, _, -, _, ⟨-, -, rfl⟩, _, ⟨-, rfl⟩, _, ⟨-, rfl⟩, -, rfl⟩ := h
  exact ⟨rfl, rfl, rfl⟩

variable {owner : String}

lemma claimNextSessionTurn_untouched {expiry : String} {answer : Option SessionTurn}
    (h : db.claimNextSessionTurn c now sessionId owner token expiry ids = .ok (answer, db')) :
    Untouched db db' := by
  obtain ⟨s, -, ⟨-, rfl⟩ | ⟨-, t, -, rfl, -⟩ | ⟨-, t, -, rfl, -⟩⟩ := claimNextSessionTurn_cases h
  · exact .refl _
  · exact .refl _
  · exact ⟨rfl, rfl, rfl⟩

lemma writeRecords_contexts (h : db.writeRecords records = .ok db') :
    db'.generations = db.generations ∧ db'.snapshots = db.snapshots := by
  rw [writeRecords_eq h]
  exact ⟨rfl, rfl⟩

lemma commitSessionRun_contexts
    (h : db.commitSessionRun c now records owner token ids = .ok db') :
      db'.generations = db.generations ∧ db'.snapshots = db.snapshots := by
  simp only [commitSessionRun, bind_eq_ok] at h
  obtain ⟨_, -, h⟩ := h
  split at h
  · cases h
  simp only [bind_eq_ok] at h
  obtain ⟨_, -, _, -, s, -, t, -, h⟩ := h
  split at h
  · cases h
    exact ⟨rfl, rfl⟩
  simp only [bind_eq_ok, updateTurn_eq_ok, insertEvent_eq_ok, updateSession_eq_ok] at h
  obtain ⟨_, -, db₁, hrecords, _, ⟨-, rfl⟩, _, ⟨-, rfl⟩, ⟨s', db₂⟩, hclose, -, rfl⟩ := h
  have hwritten := writeRecords_contexts hrecords
  unfold closeIfClosing at hclose
  split at hclose
  · have hclosed := appendEvent_untouched hclose
    exact ⟨hclosed.generations.trans hwritten.1, hclosed.snapshots.trans hwritten.2⟩
  · cases hclose
    exact hwritten

lemma cancelTurn_untouched
    (h : db.cancelTurn c s ids t = .ok (s', db')) : Untouched db db' := by
  obtain ⟨db₁, hturn, h⟩ := bind_eq_ok.mp h
  exact (updateTurn_untouched hturn).trans (appendEvent_untouched h)

lemma cancelTurns_untouched {b : Bool}
    (h : cancelTurns c b ids turns s db = .ok (s', db')) : Untouched db db' := by
  induction turns generalizing s db with
  | nil =>
    cases h
    exact .refl _
  | cons turn rest ih =>
    rw [cancelTurns] at h
    split at h
    · obtain ⟨⟨s₁, db₁⟩, hturn, h⟩ := bind_eq_ok.mp h
      exact (cancelTurn_untouched hturn).trans (ih h)
    · exact ih h

lemma closeLater_untouched
    (h : db.closeLater c s ids = .ok (s', db')) : Untouched db db' := by
  obtain ⟨⟨s₁, db₁⟩, hrequest, h⟩ := bind_eq_ok.mp h
  refine Untouched.trans ?_ (cancelTurns_untouched h)
  unfold requestTurnCancellation at hrequest
  split at hrequest
  · split at hrequest
    · cases hrequest
    · obtain ⟨db₂, hturn, hrequest⟩ := bind_eq_ok.mp hrequest
      exact (updateTurn_untouched hturn).trans (appendEvent_untouched hrequest)
  · cases hrequest
    exact .refl _

lemma dropActiveTurn_untouched
    (h : db.dropActiveTurn c s ids = .ok (s', db')) : Untouched db db' := by
  unfold dropActiveTurn at h
  split at h
  · simp only [bind_eq_ok, pure_eq_ok, Prod.mk.injEq] at h
    obtain ⟨⟨s₁, db₁⟩, hclaim, -, rfl⟩ := h
    unfold cancelClaim at hclaim
    split at hclaim
    · cases hclaim
      exact .refl _
    split at hclaim
    · exact cancelTurn_untouched hclaim
    · cases hclaim
      exact .refl _
  · cases h
    exact .refl _

lemma closeAgentSession_untouched {answer : Bool}
    (h : db.closeAgentSession c sessionId ids = .ok (answer, db')) : Untouched db db' := by
  simp only [closeAgentSession, bind_eq_ok] at h
  obtain ⟨_, -, s, -, h⟩ := h
  split at h
  · cases h
    exact .refl _
  split at h
  · simp only [bind_eq_ok, pure_eq_ok, Prod.mk.injEq] at h
    obtain ⟨_, hupdate, -, rfl⟩ := h
    exact updateSession_untouched hupdate
  simp only [bind_eq_ok, pure_eq_ok, Prod.mk.injEq] at h
  obtain ⟨⟨s₁, db₁⟩, hbegin, _, hupdate, -, rfl⟩ := h
  obtain ⟨⟨s₂, db₂⟩, hclosing, hrest⟩ := bind_eq_ok.mp hbegin
  refine Untouched.trans ?_ (updateSession_untouched hupdate)
  have hfirst := appendEvent_untouched hclosing
  dsimp only at hrest
  split at hrest
  · exact hfirst.trans (closeLater_untouched hrest)
  simp only [closeNow, bind_eq_ok] at hrest
  obtain ⟨⟨s₃, db₃⟩, hdrop, ⟨s₄, db₄⟩, hcancel, hclosed⟩ := hrest
  exact ((hfirst.trans (dropActiveTurn_untouched hdrop)).trans
    (cancelTurns_untouched hcancel)).trans (appendEvent_untouched hclosed)

lemma settle_frame {α β : Type} {x : Except Error (α × SessionDb)} (f : SessionDb → β)
    (h : ∀ a db', x = .ok (a, db') → f db' = f db) : f (db.settle x) = f db := by
  cases x with
  | ok p => exact h p.1 p.2 rfl
  | error e => rfl

/-- Clients and dispatchers do not write generations, and what they do is a step of
`sessionMachine`. -/
lemma contextMachine_session {call : SessionCall}
    (h : contextMachine codec db (.session call) = some db') :
    db'.generations = db.generations ∧
      ∃ call', sessionMachine codec.toSessionCodec db call' = some db' := by
  cases call with
  | other core generations snapshots continuations =>
    cases h
    exact ⟨rfl, .other core db.generations db.snapshots continuations, rfl⟩
  | create id pipelineId => exact ⟨(create_untouched h).generations, .create id pipelineId, h⟩
  | submit id turnId key input pipelineId ids =>
    refine ⟨?_, .submit id turnId key input pipelineId ids, h⟩
    cases h
    exact settle_frame _ fun _ _ h => (submitSessionTurn_untouched h).generations
  | claim now id owner token expiry ids =>
    refine ⟨?_, .claim now id owner token expiry ids, h⟩
    cases h
    exact settle_frame _ fun _ _ h => (claimNextSessionTurn_untouched h).generations
  | bind now id turnId r runEvent owner token ids =>
    refine ⟨?_, .bind now id turnId r runEvent owner token ids, h⟩
    cases h
    refine settle_frame _ fun _ _ h => ?_
    obtain ⟨s, t, -, -, ⟨-, rfl⟩ | ⟨-, -, -, core, snapshots, rfl⟩⟩ := bindSessionTurnRun_cases h
    · rfl
    · rfl
  | complete now records owner token ids =>
    refine ⟨?_, .complete now records owner token ids, h⟩
    cases h
    refine settle_frame _ fun _ db₁ h => ?_
    cases hrun : db.commitSessionRun codec.toSessionCodec now records owner token ids with
    | error e =>
      rw [hrun] at h
      cases h
    | ok db₂ =>
      rw [hrun] at h
      cases h
      exact (commitSessionRun_contexts hrun).1
  | close id ids =>
    refine ⟨?_, .close id ids, h⟩
    cases h
    exact settle_frame _ fun _ _ h => (closeAgentSession_untouched h).generations

/-! ## The chain of a session -/

/-- The generations of a session, oldest first, are a chain. -/
structure Chain (gens : List SessionContextGeneration) : Prop where
  numbered : Consecutive SessionContextGeneration.generation gens
  first : ∀ g, gens.head? = some g → g.predecessorId = ""
  linked : gens.IsChain fun a b => b.predecessorId = a.id
  boundaries : gens.Pairwise fun a b => a.throughTurnSequence ≤ b.throughTurnSequence

lemma Chain.nil : Chain [] := ⟨Consecutive.nil, nofun, .nil, .nil⟩

lemma Chain.generation_last (h : Chain gens) :
    gens.getLast?.elim 0 SessionContextGeneration.generation = gens.length := by
  rcases eq_nil_or_concat gens with rfl | ⟨before, g, rfl⟩
  · rfl
  have hnumbers := congrArg List.getLast? h.numbered
  simp only [concat_eq_append, map_append, map_cons, map_nil,
    List.length_append, length_singleton, range'_concat, getLast?_concat,
    Option.some.injEq] at hnumbers
  simp only [concat_eq_append, getLast?_concat, Option.elim_some, List.length_append,
    length_singleton, hnumbers]
  omega

variable {q : GenerationRequest}

lemma Chain.concat (h : Chain gens)
    (hboundary : gens.getLast?.elim 0 SessionContextGeneration.throughTurnSequence ≤
      q.throughTurnSequence) : Chain (gens ++ [q.next id gens.getLast?]) where
  numbered := by
    refine h.numbered.append ?_
    simp [GenerationRequest.next, h.generation_last]
  first g hg := by
    cases gens with
    | nil =>
      cases hg
      rfl
    | cons g' rest => exact h.first g hg
  linked := by
    refine isChain_append.mpr ⟨h.linked, .singleton _, ?_⟩
    intro a ha b hb
    cases hb
    rw [Option.mem_def.mp ha]
    rfl
  boundaries := by
    refine pairwise_append.mpr ⟨h.boundaries, pairwise_singleton _ _, ?_⟩
    intro a ha b hb
    cases mem_singleton.mp hb
    rcases eq_nil_or_concat gens with rfl | ⟨before, last, rfl⟩
    · cases ha
    simp only [concat_eq_append, getLast?_concat, Option.elim_some] at hboundary
    rw [concat_eq_append] at ha
    have hsorted := h.boundaries
    rw [concat_eq_append] at hsorted
    rcases mem_append.mp ha with ha | ha
    · have hle := (pairwise_append.mp hsorted).2.2 a ha last (mem_singleton.mpr rfl)
      exact hle.trans hboundary
    · cases mem_singleton.mp ha
      exact hboundary

/-- Every number up to a boundary is that of a settled turn. -/
def Covered (db : SessionDb) (g : SessionContextGeneration) : Prop :=
  ∀ n, 1 ≤ n → n ≤ g.throughTurnSequence →
    ∃ t ∈ db.turnsOf g.sessionId, t.sequence = n ∧ t.state.settled

lemma mem_of_countSettled {seen n : Nat}
    (h : countSettled seen turns = .ok n) {m : Nat} (hseen : seen < m) (hm : m ≤ n) :
    ∃ t ∈ turns, t.sequence = m ∧ t.state.settled := by
  induction turns generalizing seen with
  | nil =>
    cases h
    omega
  | cons turn rest ih =>
    simp only [countSettled, bind_eq_ok, require_eq_ok] at h
    obtain ⟨_, ⟨hsequence, hsettled⟩, h⟩ := h
    by_cases hnext : seen + 1 = m
    · exact ⟨turn, mem_cons_self, hsequence.trans hnext, hsettled⟩
    · obtain ⟨t, ht, hfound⟩ := ih h (by omega)
      exact ⟨t, mem_cons_of_mem _ ht, hfound⟩

/-! ## The invariant -/

/-- The sessions keep to their protocol, and the generations of each are a chain over settled
turns. -/
structure ContextOk (db : SessionDb) : Prop where
  ok : db.Ok
  chain : ∀ id, Chain (db.generationsOf id)
  covered : ∀ g ∈ db.generations.rows, db.Covered g

lemma contextOk_empty : ContextOk {} := ⟨ok_empty, fun _ => Chain.nil, nofun⟩

lemma generationsOf_congr (h : db'.generations = db.generations) (id : String) :
    db'.generationsOf id = db.generationsOf id := by
  unfold generationsOf
  rw [h]

lemma Covered.mono (h : db.Covered g)
    (hsettled : ∀ t ∈ db.turns.rows, t.state.settled → t ∈ db'.turns.rows) :
    db'.Covered g := by
  intro n hone hle
  obtain ⟨t, ht, hsequence, hstate⟩ := h n hone hle
  obtain ⟨hrow, hsession⟩ := mem_filter.mp ht
  exact ⟨t, mem_filter.mpr ⟨hsettled t hrow hstate, hsession⟩, hsequence, hstate⟩

lemma generationsOf_insert (hfresh : db.generations.get g.id = none) (id : String) :
    ({ db with generations := db.generations.put g } : SessionDb).generationsOf id =
      db.generationsOf id ++ if g.sessionId = id then [g] else [] := by
  simp only [generationsOf, (Table.rows_put_of_none hfresh), filter_append]
  by_cases h : g.sessionId = id <;> simp [h]

/-- A call that creates a generation found the chain as its author knew it, and its history
settled. -/
structure Creates (db : SessionDb) (q : GenerationRequest) (g : SessionContextGeneration)
    (db' : SessionDb) : Prop where
  expected : q.expectedGeneration =
    (db.latestGeneration q.sessionId).elim 0 SessionContextGeneration.generation
  boundary : (db.latestGeneration q.sessionId).elim 0
    SessionContextGeneration.throughTurnSequence ≤ q.throughTurnSequence
  covered : db.Covered g
  fresh : db.generations.get g.id = none
  next : g = q.next g.id (db.latestGeneration q.sessionId)
  tables : db' = { db with generations := db.generations.put g }

lemma createSessionContextGeneration_cases
    (h : db.createSessionContextGeneration codec q id = .ok (g, db')) :
    (g ∈ db.generationsOf q.sessionId ∧ g.idempotencyKey = q.idempotencyKey ∧ q.Answered g ∧
      db' = db) ∨ (g.id = id ∧ Creates db q g db') := by
  simp only [createSessionContextGeneration, bind_eq_ok, require_eq_ok] at h
  obtain ⟨_, -, s, -, h⟩ := h
  split at h
  · rename_i prior hprior
    simp only [bind_eq_ok, require_eq_ok, pure_eq_ok, Prod.mk.injEq] at h
    obtain ⟨_, hanswered, rfl, rfl⟩ := h
    have hkey := find?_some hprior
    exact .inl ⟨mem_of_find?_eq_some hprior, of_decide_eq_true hkey, hanswered, rfl⟩
  simp only [bind_eq_ok, require_eq_ok, pure_eq_ok, Prod.mk.injEq, insertGeneration, serialize,
    Option.isNone_iff_eq_none] at h
  obtain ⟨_, hexpected, _, hboundary, _, -, seen, hseen, _, rfl, _, ⟨_, -, _, hfresh, rfl⟩, rfl,
    rfl⟩ := h
  refine .inr ⟨rfl, hexpected, hboundary, ?_, hfresh, rfl, rfl⟩
  intro n hone hle
  obtain ⟨t, ht, hfound⟩ := mem_of_countSettled hseen (by omega) hle
  exact ⟨t, mem_turnsInOrder.mp (mem_of_mem_filter ht), hfound⟩

/-- Generations are only appended, and settled turns stay. -/
structure Extends (db db' : SessionDb) : Prop where
  generations : db.generations.rows <+: db'.generations.rows
  settled : ∀ t ∈ db.turns.rows, t.state.settled → t ∈ db'.turns.rows

lemma Extends.refl (db : SessionDb) : Extends db db := ⟨prefix_rfl, fun _ ht _ => ht⟩

lemma Extends.trans (h : Extends db₁ db₂) (h' : Extends db₂ db₃) :
    Extends db₁ db₃ :=
  ⟨h.generations.trans h'.generations, fun t ht hs => h'.settled t (h.settled t ht hs) hs⟩

/-- **One transaction keeps the chains,** and only appends to them. -/
lemma ContextOk.call {call : ContextCall} (hok : db.ContextOk)
    (h : contextMachine codec db call = some db') : db'.ContextOk ∧ Extends db db' := by
  cases call with
  | session call =>
    obtain ⟨hsame, call', hcall⟩ := contextMachine_session h
    obtain ⟨hok', hsettled⟩ := hok.ok.call hcall
    refine ⟨⟨hok', fun id => generationsOf_congr hsame id ▸ hok.chain id, ?_⟩,
      (congrArg Table.rows hsame) ▸ prefix_rfl, hsettled⟩
    rw [(congrArg Table.rows hsame)]
    exact fun g hg => (hok.covered g hg).mono hsettled
  | generate q id =>
  cases h
  cases hcreate : db.createSessionContextGeneration codec q id with
  | error e => exact ⟨hok, .refl db⟩
  | ok x =>
  obtain ⟨g, db'⟩ := x
  show db'.ContextOk ∧ Extends db db'
  rcases createSessionContextGeneration_cases hcreate with ⟨-, -, -, rfl⟩ | ⟨-, hnew⟩
  · exact ⟨hok, .refl db'⟩
  obtain ⟨-, hboundary, hcovered, hfresh, hnext, rfl⟩ := hnew
  refine ⟨⟨hok.ok.effect (k := .submit) (.inl fun _ => ⟨rfl, rfl, rfl⟩), fun id' => ?_, ?_⟩,
    (Table.rows_put_of_none hfresh) ▸ prefix_append _ _, fun _ ht _ => ht⟩
  · rw [generationsOf_insert hfresh]
    split
    · rename_i hid
      have hsession : q.sessionId = id' := (congrArg (·.sessionId) hnext).symm.trans hid
      rw [hnext, latestGeneration, hsession]
      rw [latestGeneration, hsession] at hboundary
      exact (hok.chain id').concat hboundary
    · rw [append_nil]
      exact hok.chain id'
  show ∀ g' ∈ (db.generations.put g).rows, _
  rw [(Table.rows_put_of_none hfresh)]
  intro g' hg'
  rcases mem_append.mp hg' with hg' | hg'
  · exact hok.covered g' hg'
  · cases mem_singleton.mp hg'
    exact hcovered

/-- **The chains along every interleaving.** -/
lemma ContextOk.reach (hok : db.ContextOk) (h : Reach (contextMachine codec) always db db') :
    db'.ContextOk ∧ Extends db db' := by
  refine h.invariant (I := fun db' => db'.ContextOk ∧ Extends db db') ⟨hok, .refl db⟩ ?_
  rintro db₁ call db₂ ⟨hok₁, hkept⟩ - hcall
  obtain ⟨hok₂, hnext⟩ := hok₁.call hcall
  exact ⟨hok₂, hkept.trans hnext⟩

/-! ## Snapshots -/

def Names (snap : RunContextSnapshot) (latest : Option SessionContextGeneration) : Prop :=
  snap.contextGenerationId = latest.elim "" SessionContextGeneration.id ∧
    snap.contextGeneration = latest.elim 0 SessionContextGeneration.generation ∧
    snap.contextGenerationPredecessorId = latest.elim "" SessionContextGeneration.predecessorId ∧
    snap.contextThroughTurnSequence = latest.elim 0 SessionContextGeneration.throughTurnSequence ∧
    snap.representationKind = latest.elim "" SessionContextGeneration.representationKind ∧
    snap.representationVersion = latest.elim "" SessionContextGeneration.representationVersion

/-- The refusal of a snapshot whose turn lies before a boundary. -/
def aheadOfTurn : Error := ⟨.conflict, "Session context generation is ahead of this turn"⟩

lemma snapshot_eq_ok (h : db.snapshot t runId = .ok snap) :
    snap.runId = runId ∧ Names snap (db.latestGeneration t.sessionId) := by
  unfold snapshot at h
  cases hlatest : db.latestGeneration t.sessionId with
  | none =>
    rw [hlatest] at h
    cases h
    exact ⟨rfl, rfl, rfl, rfl, rfl, rfl, rfl⟩
  | some g =>
  rw [hlatest] at h
  dsimp only at h
  split at h
  · cases h
  · cases h
    exact ⟨rfl, rfl, rfl, rfl, rfl, rfl, rfl⟩

lemma mem_of_latest (h : db.latestGeneration sessionId = some g) :
    g ∈ db.generations.rows ∧ g.sessionId = sessionId := by
  obtain ⟨hrow, hsession⟩ := mem_filter.mp (mem_of_getLast? h)
  exact ⟨hrow, of_decide_eq_true hsession⟩

lemma ContextOk.settled (hok : db.ContextOk) (hg : g ∈ db.generations.rows)
    (ht : t ∈ db.turnsOf g.sessionId) (hle : t.sequence ≤ g.throughTurnSequence) :
    t.state.settled := by
  obtain ⟨s, hs⟩ : ∃ s, db.sessions.get g.sessionId = some s := by
    have hat := hok.ok g.sessionId
    unfold OkAt at hat
    split at hat
    · exact ⟨_, ‹_›⟩
    · rw [hat.1] at ht
      cases ht
  have hview := hok.ok.draft hs
  have hmem : t ∈ (db.draft s).turns := by
    rw [draft, id_of_get hs]
    exact ht
  obtain ⟨u, hu, hsequence, hsettled⟩ :=
    hok.covered g hg t.sequence (hview.turns.bounds hmem).1 hle
  have hmem' : u ∈ (db.draft s).turns := by
    rw [draft, id_of_get hs]
    exact hu
  exact hview.eq_of_sequence hmem hmem' hsequence ▸ hsettled

lemma ContextOk.snapshot_ne (hok : db.ContextOk) {e : Error}
    (ht : db.turns.get t.id = some t) (hclaimed : t.state = .claimed) :
    db.snapshot t runId ≠ .error e := by
  intro h
  unfold snapshot at h
  cases hlatest : db.latestGeneration t.sessionId with
  | none =>
    rw [hlatest] at h
    cases h
  | some g =>
  rw [hlatest] at h
  dsimp only at h
  split at h
  · rename_i hle
    obtain ⟨hg, hsession⟩ := mem_of_latest hlatest
    have hsettled := hok.settled hg (mem_turnsOf.mpr ⟨ht, hsession.symm⟩) hle
    rw [hclaimed] at hsettled
    cases hsettled
  · cases h

variable {r : Run}

lemma writeRun_ne_ahead {core : Db} :
    core.writeRecords [.run r, .event runEvent] ≠ .error aheadOfTurn := by
  by_cases hid : r.id = "" <;> simp [Db.writeRecords, Db.writeRecord, hid, aheadOfTurn]

lemma lockSession_ne_ahead : db.lockSession sessionId ≠ .error aheadOfTurn := by
  unfold lockSession
  split <;> simp [aheadOfTurn]

lemma lockTurn_ne_ahead : db.lockTurn turnId ≠ .error aheadOfTurn := by
  unfold lockTurn
  split <;> simp [aheadOfTurn]

lemma updateTurn_ne_ahead : db.updateTurn c t ≠ .error aheadOfTurn :=
  bind_ne_error (require_ne_error (by decide)) nofun

lemma updateSession_ne_ahead : db.updateSession c s ≠ .error aheadOfTurn :=
  bind_ne_error (require_ne_error (by decide)) nofun

lemma insertSnapshot_ne_ahead : db.insertSnapshot snap ≠ .error aheadOfTurn :=
  bind_ne_error (require_ne_error (by decide)) nofun

lemma insertEvent_ne_ahead {e : SessionEvent} : db.insertEvent c e ≠ .error aheadOfTurn :=
  bind_ne_error (require_ne_error (by decide)) fun _ _ =>
    bind_ne_error (require_ne_error (by decide)) fun _ _ =>
      bind_ne_error (require_ne_error (by decide)) nofun

/-- **The history of a claimed turn is never cut off behind it.** -/
lemma ContextOk.bind_ne_ahead (hok : db.ContextOk) :
    db.bindSessionTurnRun c now sessionId turnId r runEvent owner token ids ≠
      .error aheadOfTurn := by
  refine bind_ne_error (require_ne_error (by decide)) fun _ _ => ?_
  refine bind_ne_error (require_ne_error (by simp [aheadOfTurn])) fun _ _ => ?_
  refine bind_ne_error lockSession_ne_ahead fun s hs => ?_
  refine bind_ne_error lockTurn_ne_ahead fun t ht => ?_
  refine bind_ne_error (require_ne_error (by decide)) fun _ _ => ?_
  split
  · rintro ⟨⟩
  refine bind_ne_error (require_ne_error (by decide)) fun _ hcurrent => ?_
  refine bind_ne_error writeRun_ne_ahead fun core _ => ?_
  -- the one statement that can: its turn is claimed
  have hget : db.turns.get t.id = some t := by
    have hturn := lockTurn_eq_ok.mp ht
    rwa [← show t.id = turnId from Table.key_of_get hturn] at hturn
  have hsnapshot : ({ db with core } : SessionDb).snapshot t r.id = db.snapshot t r.id := rfl
  refine bind_ne_error ?_ fun snap _ => ?_
  · rw [hsnapshot]
    exact hok.snapshot_ne hget (require_eq_ok.mp hcurrent).2.2.1
  refine bind_ne_error insertSnapshot_ne_ahead fun _ _ => ?_
  refine bind_ne_error updateTurn_ne_ahead fun _ _ => ?_
  refine bind_ne_error insertEvent_ne_ahead fun _ _ => ?_
  exact bind_ne_error updateSession_ne_ahead (by rintro _ _ ⟨⟩)

lemma bind_snapshot (h : db.bindSessionTurnRun c now sessionId turnId r runEvent owner token ids =
      .ok (true, db')) :
    ∃ snap, db'.snapshots.get r.id = some snap ∧ Names snap (db.latestGeneration sessionId) := by
  simp only [bindSessionTurnRun, bind_eq_ok, require_eq_ok, lockTurn_eq_ok] at h
  obtain ⟨_, -, _, -, s, -, t, -, _, hsession, h⟩ := h
  split at h
  · cases h
  simp only [bind_eq_ok, require_eq_ok, pure_eq_ok, insertSnapshot, updateTurn_eq_ok,
    insertEvent_eq_ok, updateSession_eq_ok, Prod.mk.injEq] at h
  obtain ⟨_, -, core, -, snap, hsnapshot, _, ⟨_, -, rfl⟩, _, ⟨-, rfl⟩, _, ⟨-, rfl⟩, _, ⟨-, rfl⟩, -,
    rfl⟩ := h
  obtain ⟨hrun, hnames⟩ := snapshot_eq_ok hsnapshot
  refine ⟨snap, ?_, hsession ▸ hnames⟩
  exact hrun ▸ (Table.get_put_self _ _)

/-- **Context generations.** Whatever transactions clients, dispatchers and authors of generations
make, the generations of every session are a chain whose boundaries lie in settled history and they
never change; binding a run to a turn is never refused for a boundary behind the turn, and its
snapshot names the latest generation. -/
theorem generations_chained (h : Reach (contextMachine codec) always {} db) :
    (∀ id, Chain (db.generationsOf id) ∧ ∀ g ∈ db.generationsOf id, ∀ t ∈ db.turnsOf id,
        t.sequence ≤ g.throughTurnSequence → t.state.settled = true) ∧
      (∀ db', Reach (contextMachine codec) always db db' →
        db.generations.rows <+: db'.generations.rows) ∧
      ∀ (now : Nat) (sessionId turnId : String) (r : Run) (runEvent : Event) (owner : String)
        (token : Nat) (ids : Nat → String),
        db.bindSessionTurnRun codec.toSessionCodec now sessionId turnId r runEvent owner token ids ≠
            .error ⟨.conflict, "Session context generation is ahead of this turn"⟩ ∧
          ∀ db', db.bindSessionTurnRun codec.toSessionCodec now sessionId turnId r runEvent owner
              token ids = .ok (true, db') →
            ∃ snap, db'.snapshots.get r.id = some snap ∧
              Names snap (db.latestGeneration sessionId) := by
  have hok := (contextOk_empty.reach h).1
  refine ⟨fun id => ⟨hok.chain id, fun g hg t ht hle => ?_⟩, fun db' h' =>
    (hok.reach h').2.generations, ?_⟩
  · obtain ⟨hrow, hsession⟩ := mem_filter.mp hg
    exact hok.settled hrow ((of_decide_eq_true hsession).symm ▸ ht) hle
  · intro now sessionId turnId r runEvent owner token ids
    exact ⟨hok.bind_ne_ahead, fun db' hbind => bind_snapshot hbind⟩

def emptyContextCodec : ContextCodec where
  toSessionCodec := emptyCodec
  json _ := 0
  generation _ := 0

/-- A generation is created between the first and the second turn of a session. -/
def sampleContextCalls : List ContextCall :=
  sampleFirst.map .session ++
    [.session (.complete 0 [.record (.run (sampleRun .completed))] "" 0 sampleIds),
      .generate ⟨"s", 0, 1, "key", "summary", "1", .null⟩ "g"] ++
    sampleSecond.map .session

theorem generations_chained_bound : ∃ db, Reach (contextMachine emptyContextCodec) always {} db ∧
      ((db.generationsOf "s").map SessionContextGeneration.throughTurnSequence = [1] ∧
        db.snapshots.rows.map RunContextSnapshot.contextGenerationId = ["", "g"]) ∧
      ∀ id, Chain (db.generationsOf id) := by
  obtain ⟨db, hreach, hrows⟩ := exists_reach (f := fun db : SessionDb =>
      ((db.generationsOf "s").map SessionContextGeneration.throughTurnSequence,
        db.snapshots.rows.map RunContextSnapshot.contextGenerationId))
    (M := contextMachine emptyContextCodec) (C := always) (s := {})
    (v := ([1], ["", "g"])) sampleContextCalls (by decide +kernel)
  exact ⟨db, hreach, Prod.mk.inj hrows, fun id => ((generations_chained hreach).1 id).1⟩

end SessionDb

end Laso
