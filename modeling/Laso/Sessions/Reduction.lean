import Laso.Core.Program
import Laso.Sessions.Dispatch
import Laso.Sessions.Generations
import Laso.Sessions.Submission

/-!
# Reducing the context of a session

Before a turn is bound to a run, `reduce_session_context_if_needed` makes its context fit: it reads
the latest generation and, page by page, the turns after its boundary, has them summarised by a
reducer if they are too large, and offers the result as the next generation. Others write at the
same time, so the offer names the generation that was read, and one lost race is tried again.

The call is a program (`Code`) whose requests are answered between any transactions of the others
(`reductionWatch`), by the storage or by an error. What makes the pages fit together is that all
turns before a claimed one are settled: that part of the history does not change while the call
reads it (`History`).
-/

namespace Laso

open List Machine

structure ReductionConfig where
  enabled : Bool
  targetBytes : Nat
  thresholdBytes : Nat
  maxInputBytes : Nat
  reducer : String
  reducerConfig : Json

structure ReductionRequest where
  sessionId : String
  previous : Option SessionContextGeneration
  eligibleTurns : List SessionTurn
  throughTurnSequence : Nat
  targetPayloadBytes : Nat
  reducerConfig : Json

structure ReductionResult where
  representationKind : String
  representationVersion : String
  throughTurnSequence : Nat
  payload : Json

/-- Lengths of documents, and the text of the input of a reducer. -/
structure ReductionCodec extends ContextCodec where
  dump : ReductionRequest → String → String

def Json.isObject : Json → Bool
  | .obj _ => true
  | _ => false

namespace SessionDb

/-- `latest_session_context_generation`. -/
def latestSessionContextGeneration (db : SessionDb) (sessionId : String) :
    Except Error (Option SessionContextGeneration) := do
  require (sessionId ≠ "" ∧ sessionId.utf8ByteSize ≤ 128) ⟨.validation, "Invalid agent session ID"⟩
  return db.latestGeneration sessionId

/-- `session_turns_between`: the first turns after one number up to another. -/
def sessionTurnsBetween (db : SessionDb) (sessionId : String) (after through limit : Nat) :
    Except Error (List SessionTurn) := do
  require (sessionId ≠ "" ∧ sessionId.utf8ByteSize ≤ 128 ∧ after ≤ through ∧ limit ≠ 0 ∧
    limit ≤ 1000 ∧ through ≤ maxSequence) ⟨.validation, "Invalid session turn range"⟩
  return ((db.turnsInOrder sessionId).filter fun t =>
    after < t.sequence ∧ t.sequence ≤ through).take limit

end SessionDb

namespace Reduction

open SessionDb

/-- Requests of the call: to its caller, to storage and to the reducer. -/
inductive Req where
  | stopRequested
  | latest (sessionId : String)
  | turnsBetween (sessionId : String) (after through limit : Nat)
  | findReducer (name : String)
  | reduce (request : ReductionRequest)
  | deadlineExpired
  | create (q : GenerationRequest)

/-- Answers to requests. A reducer may also fail with something else than an `Error`. -/
def Req.Resp : Req → Type
  | .stopRequested | .deadlineExpired => Bool
  | .latest _ => Except Error (Option SessionContextGeneration)
  | .turnsBetween _ _ _ _ => Except Error (List SessionTurn)
  | .findReducer _ => Except Error Unit
  | .reduce _ => Except (Option ErrorCode) ReductionResult
  | .create _ => Except Error SessionContextGeneration

def sig : Sig := ⟨Req, Req.Resp⟩

/-- Code of the call. -/
abbrev Reducing (α : Type) : Type := Code sig Error Unit α

def ask (q : Req) : Reducing q.Resp := Code.call (S := sig) q

/-- What has been read of the history: `cursor`, `input_bytes` and `eligible`. -/
structure Reading where
  cursor : Nat
  bytes : Nat
  eligible : List SessionTurn

section Code

variable (codec : ReductionCodec) (cfg : ReductionConfig)

def takeTurn (through : Nat) (r : Reading) (turn : SessionTurn) : Except Error Reading := do
  require (turn.sequence = r.cursor + 1 ∧ turn.sequence ≤ through)
    ⟨.conflict, "Session history order changed during context reduction"⟩
  require (codec.turn turn ≤ cfg.maxInputBytes - min r.bytes cfg.maxInputBytes)
    ⟨.capacity, "Session history exceeds the context reducer input limit"⟩
  return ⟨turn.sequence, r.bytes + codec.turn turn, r.eligible ++ [turn]⟩

/-- The loop over the pages; every page moves the cursor, so `through - cursor` pages are enough. -/
def readPages (sessionId : String) (through : Nat) : Nat → Reading → Reducing Reading
  | 0, r => pure r
  | pages + 1, r =>
    if r.cursor < through then do
      let answer ← ask (.turnsBetween sessionId r.cursor through 128)
      let batch ← Code.ofExcept answer
      if batch.isEmpty then
        throw ⟨.conflict, "Session history changed during context reduction"⟩
      else
        let r ← Code.ofExcept (batch.foldlM (takeTurn codec cfg through) r)
        readPages sessionId through pages r
    else pure r

/-- `reduction_request_key`. -/
def reductionRequestKey (expectedGeneration through : Nat) (input : String) : String :=
  "auto-" ++ toString expectedGeneration ++ "-" ++ toString through ++ "-" ++
    hex (Service.turnHash input).toNat

variable (request : ReductionRequest)

/-- The reducer is asked, and its failures are reported. -/
def askReducer : Reducing ReductionResult := do
  let found ← ask (.findReducer cfg.reducer)
  Code.ofExcept found
  match ← ask (.reduce request) with
  | .error (some code) => throw ⟨code, "Session context reduction failed"⟩
  | .error none => throw ⟨.execution, "Session context reduction failed"⟩
  | .ok result =>
    let expired : Bool ← ask .deadlineExpired
    if expired then throw ⟨.timeout, "Session context reduction failed"⟩ else return result

def ReductionRequest.Accepts (result : ReductionResult) : Prop :=
  result.representationKind ≠ "" ∧ result.representationKind.utf8ByteSize ≤ 128 ∧
    result.representationVersion ≠ "" ∧ result.representationVersion.utf8ByteSize ≤ 128 ∧
    result.throughTurnSequence = request.throughTurnSequence ∧ result.payload.isObject ∧
    codec.json result.payload ≤ request.targetPayloadBytes

instance (request : ReductionRequest) (result : ReductionResult) :
    Decidable (ReductionRequest.Accepts codec request result) :=
  inferInstanceAs (Decidable (_ ∧ _))

def offer (request : ReductionRequest) (result : ReductionResult) : GenerationRequest where
  sessionId := request.sessionId
  expectedGeneration := request.previous.elim 0 SessionContextGeneration.generation
  throughTurnSequence := request.throughTurnSequence
  idempotencyKey := reductionRequestKey
    (request.previous.elim 0 SessionContextGeneration.generation) request.throughTurnSequence
    (codec.dump request cfg.reducer)
  representationKind := result.representationKind
  representationVersion := result.representationVersion
  payload := result.payload

/-- The end of an attempt: the history is summarised. Answers whether the offer was taken; a lost
race is an exception unless another attempt follows. -/
def summarise (again : Bool) : Reducing Bool := do
  let result ← askReducer cfg request
  if ¬ReductionRequest.Accepts codec request result then
    throw ⟨.validation, "Context reducer returned an invalid result"⟩
  else
    let stop : Bool ← ask .stopRequested
    if stop then throw ⟨.cancellation, "Session context reduction was cancelled"⟩
    else
      match ← ask (.create (offer codec cfg request result)) with
      | .ok _ => return true
      | .error e => if e.code ≠ .conflict ∨ again = false then throw e else return false

def attempt (sessionId : String) (turn : SessionTurn) (again : Bool) : Reducing Bool := do
  let through := turn.sequence - 1
  let answer ← ask (.latest sessionId)
  let previous ← Code.ofExcept answer
  let boundary := previous.elim 0 SessionContextGeneration.throughTurnSequence
  if through ≤ boundary then return true
  else
    let r ← readPages codec cfg sessionId through (through - boundary)
      ⟨boundary, previous.elim 0 fun g => codec.json g.payload, []⟩
    let effective := r.bytes + codec.json turn.input
    if effective ≤ cfg.targetBytes ∧ effective < cfg.thresholdBytes then return true
    else
      summarise codec cfg
        { sessionId, previous, eligibleTurns := r.eligible, throughTurnSequence := through
          targetPayloadBytes := cfg.targetBytes - codec.json turn.input
          reducerConfig := cfg.reducerConfig } again

/-- `reduce_session_context_if_needed`. -/
def reduceSessionContextIfNeeded (sessionId : String) (turn : SessionTurn) : Reducing Unit :=
  if cfg.enabled = false then pure ()
  else do
    let stop : Bool ← ask .stopRequested
    if stop then throw ⟨.cancellation, "Session context reduction was cancelled"⟩
    else if cfg.targetBytes ≤ codec.json turn.input then
      throw ⟨.capacity, "Current turn exceeds the session context budget"⟩
    else if turn.sequence ≤ 1 then return ()
    else
      let fits ← attempt codec cfg sessionId turn true
      if fits then return ()
      else
        let fits ← attempt codec cfg sessionId turn false
        if fits then return ()
        else throw ⟨.conflict, "Session context reduction lost its revision race"⟩

end Code

/-! ## Interleavings -/

variable {codec : ReductionCodec} {cfg : ReductionConfig} {sessionId : String} {turn : SessionTurn}

/-- What has happened since the call began: the tables now and at every request, what the reducer
was given and returned, and the generations the call created with the tables before. -/
structure Log where
  db : SessionDb
  seen : List SessionDb
  reductions : List (ReductionRequest × ReductionResult) := []
  created : List (SessionDb × SessionContextGeneration) := []

def Log.reach (g : Log) (db : SessionDb) : Log := { g with db, seen := g.seen ++ [db] }

/-- The generation `gen` answers an offer, with the tables `db'` after it. -/
def Log.offered (g : Log) (gen : SessionContextGeneration) (db' : SessionDb) : Log :=
  { g with
    db := db'
    seen := g.seen ++ [db']
    created := if (g.db.generations.get gen.id).isNone then g.created ++ [(g.db, gen)]
      else g.created }

/-- Answers to requests: those of storage on the current tables, or an error. An offer may be taken
and its answer lost. -/
def Answers (codec : ReductionCodec) (g : Log) : (q : Req) → q.Resp → Log → Prop
  | .latest id, a, g' =>
    g' = g ∧ (a = g.db.latestSessionContextGeneration id ∨ ∃ e, a = .error e)
  | .turnsBetween id after through limit, a, g' =>
    g' = g ∧ (a = g.db.sessionTurnsBetween id after through limit ∨ ∃ e, a = .error e)
  | .reduce request, .ok result, g' =>
    g' = { g with reductions := g.reductions ++ [(request, result)] }
  | .create q, a, g' =>
    (∃ id gen db', g.db.createSessionContextGeneration codec.toContextCodec q id = .ok (gen, db') ∧
      g' = g.offered gen db' ∧ (a = .ok gen ∨ ∃ e, a = .error e)) ∨ (g' = g ∧ ∃ e, a = .error e)
  | _, _, g' => g' = g

/-- Requests of the call are answered between any transactions of the others. -/
def reductionWatch (codec : ReductionCodec) : Watch sig Log where
  Step g q a g' := ∃ db, Reach (contextMachine codec.toContextCodec) always g.db db ∧
      Answers codec (g.reach db) q a g'
  Allow _ _ := True

/-- The boundary of the latest generation of a session, 0 without one. -/
def boundary (db : SessionDb) (sessionId : String) : Nat :=
  (db.latestGeneration sessionId).elim 0 SessionContextGeneration.throughTurnSequence

/-- The turns after the boundary up to a number, in order. -/
def unsummarised (db : SessionDb) (sessionId : String) (through : Nat) : List SessionTurn :=
  (db.turnsInOrder sessionId).filter fun t =>
    boundary db sessionId < t.sequence ∧ t.sequence ≤ through

def contextBytes (codec : ReductionCodec) (db : SessionDb) (sessionId : String)
    (turn : SessionTurn) : Nat :=
  ((db.latestGeneration sessionId).elim 0 fun g => codec.json g.payload) +
    ((unsummarised db sessionId (turn.sequence - 1)).map codec.turn).sum + codec.json turn.input

def Fits (codec : ReductionCodec) (cfg : ReductionConfig) (sessionId : String) (turn : SessionTurn)
    (db : SessionDb) : Prop :=
  turn.sequence - 1 ≤ boundary db sessionId ∨
    (contextBytes codec db sessionId turn ≤ cfg.targetBytes ∧
      contextBytes codec db sessionId turn < cfg.thresholdBytes)

/-- The generation was made for the turn from exactly what it replaces, with the tables `before`
its creation. -/
structure MadeFor (codec : ReductionCodec) (cfg : ReductionConfig) (sessionId : String)
    (turn : SessionTurn) (reductions : List (ReductionRequest × ReductionResult))
    (before : SessionDb) (gen : SessionContextGeneration) : Prop where
  session : gen.sessionId = sessionId
  boundary : gen.throughTurnSequence = turn.sequence - 1
  predecessor : gen.predecessorId = (before.latestGeneration sessionId).elim "" (·.id)
  reduced : ∃ request result, (request, result) ∈ reductions ∧
    request.previous = before.latestGeneration sessionId ∧
    request.eligibleTurns = unsummarised before sessionId (turn.sequence - 1) ∧
    gen.payload = result.payload ∧ gen.representationKind = result.representationKind ∧
    gen.representationVersion = result.representationVersion
  size : codec.json gen.payload + codec.json turn.input ≤ cfg.targetBytes

/-! ## History that does not change -/

variable {db db' : SessionDb} {h : List SessionTurn}

lemma consecutive_turnsOf (hok : db.Ok) (id : String) :
    Consecutive SessionTurn.sequence (db.turnsOf id) := by
  have hat := hok id
  unfold OkAt at hat
  split at hat
  · rename_i s hs
    have hturns := hat.turns
    rwa [draft, id_of_get hs] at hturns
  · rw [hat.1]
    exact Consecutive.nil

/-- The first turns of a session, all settled. -/
structure History (db : SessionDb) (sessionId : String) (h : List SessionTurn) : Prop where
  turns : h <+: db.turnsOf sessionId
  settled : ∀ t ∈ h, t.state.settled

lemma History.consecutive (hh : History db sessionId h) (hok : db.Ok) :
    Consecutive SessionTurn.sequence h := by
  obtain ⟨rest, hrest⟩ := hh.turns
  have hall := consecutive_turnsOf hok sessionId
  rw [← hrest] at hall
  exact hall.of_append

lemma History.extends (hh : History db sessionId h) (hok : db.Ok) (hok' : db'.Ok)
    (hext : Extends db db') : History db' sessionId h := by
  refine ⟨(consecutive_turnsOf hok' sessionId).isPrefix (hh.consecutive hok) fun t ht => ?_,
    hh.settled⟩
  obtain ⟨hrow, hsession⟩ := mem_filter.mp (hh.turns.subset ht)
  exact mem_filter.mpr ⟨hext.settled t hrow (hh.settled t ht), hsession⟩

/-- The rows with numbers after `n` of numbered rows. -/
lemma filter_after {rows : List SessionTurn} (hrows : Consecutive SessionTurn.sequence rows)
    (n : Nat) : (rows.filter fun t => n < t.sequence) = rows.drop n := by
  induction rows using List.reverseRecOn with
  | nil => simp
  | append_singleton rows t ih =>
    have hlast : t.sequence = rows.length + 1 := hrows.number_eq (by simp)
    rw [filter_append, ih hrows.of_append, drop_append]
    by_cases hn : n ≤ rows.length
    · rw [Nat.sub_eq_zero_of_le hn]
      simp only [drop_zero, filter_cons, filter_nil]
      rw [if_pos (by simp; omega)]
    rw [drop_eq_nil_of_le (by omega : rows.length ≤ n)]
    simp only [filter_cons, filter_nil, nil_append]
    rw [if_neg (by simp; omega), drop_eq_nil_of_le (by simp; omega)]

lemma History.filter (hh : History db sessionId h) (hok : db.Ok) (after : Nat) :
    ((db.turnsInOrder sessionId).filter fun t => after < t.sequence ∧ t.sequence ≤ h.length) =
      h.drop after := by
  have hall := consecutive_turnsOf hok sessionId
  have hsorted : db.turnsInOrder sessionId = db.turnsOf sessionId := by
    exact List.Pairwise.insertionSort_eq (hall.pairwise.imp Nat.le_of_lt)
  obtain ⟨rest, hrest⟩ := hh.turns
  have hlow : ∀ t ∈ h, t.sequence ≤ h.length := fun t ht => ((hh.consecutive hok).bounds ht).2
  have hhigh : ∀ t ∈ rest, h.length < t.sequence := by
    intro t ht
    obtain ⟨j, hj⟩ := getElem?_of_mem ht
    have hplace : (db.turnsOf sessionId)[h.length + j]? = some t := by
      rw [← hrest, getElem?_append_right (Nat.le_add_right _ _), Nat.add_sub_cancel_left]
      exact hj
    have := hall.number_eq hplace
    omega
  rw [hsorted, ← hrest, filter_append]
  have hfront : (h.filter fun t => after < t.sequence ∧ t.sequence ≤ h.length) =
      h.filter fun t => after < t.sequence :=
    filter_congr fun t ht => by simp [hlow t ht]
  have hback : (rest.filter fun t => after < t.sequence ∧ t.sequence ≤ h.length) = [] :=
    filter_eq_nil_iff.mpr fun t ht => by
      have := hhigh t ht
      simp
      omega
  rw [hfront, hback, append_nil, filter_after (hh.consecutive hok)]

/-! ## What the call knows -/

section Rules

variable (codec cfg sessionId turn h)

structure Sound (g : Log) : Prop where
  ok : g.db.ContextOk
  history : History g.db sessionId h
  made : ∀ c ∈ g.created, MadeFor codec cfg sessionId turn g.reductions c.1 c.2

/-- The latest generation was `previous` at a request of the call. -/
def Read (previous : Option SessionContextGeneration) (g : Log) : Prop :=
  ∃ db ∈ g.seen, db.latestGeneration sessionId = previous ∧ db.ContextOk ∧
    History db sessionId h ∧ Extends db g.db

structure Onward (g g' : Log) : Prop where
  sound : Sound codec cfg sessionId turn h g'
  read : ∀ previous, Read sessionId h previous g → Read sessionId h previous g'
  reductions : ∀ x ∈ g.reductions, x ∈ g'.reductions

end Rules

variable {g g' : Log} {previous : Option SessionContextGeneration}

variable {request : ReductionRequest} {gen : SessionContextGeneration}
  {reductions : List (ReductionRequest × ReductionResult)}

lemma MadeFor.mono {reductions' : List (ReductionRequest × ReductionResult)} {before : SessionDb}
    (hmade : MadeFor codec cfg sessionId turn reductions before gen)
    (hsub : ∀ x ∈ reductions, x ∈ reductions') :
    MadeFor codec cfg sessionId turn reductions' before gen := by
  obtain ⟨request, result, hmem, hrest⟩ := hmade.reduced
  exact { hmade with reduced := ⟨request, result, hsub _ hmem, hrest⟩ }

lemma Onward.refl (hs : Sound codec cfg sessionId turn h g) :
    Onward codec cfg sessionId turn h g g := ⟨hs, fun _ hp => hp, fun _ hx => hx⟩

lemma Onward.trans {g₁ g₂ g₃ : Log} (h₁ : Onward codec cfg sessionId turn h g₁ g₂)
    (h₂ : Onward codec cfg sessionId turn h g₂ g₃) : Onward codec cfg sessionId turn h g₁ g₃ :=
  ⟨h₂.sound, fun p hp => h₂.read p (h₁.read p hp), fun x hx => h₂.reductions x (h₁.reductions x hx)⟩

section

variable (hs : Sound codec cfg sessionId turn h g)
include hs

lemma Sound.reach (hreach : Reach (contextMachine codec.toContextCodec) always g.db db) :
    Onward codec cfg sessionId turn h g (g.reach db) := by
  obtain ⟨hok, hext⟩ := hs.ok.reach hreach
  refine ⟨⟨hok, hs.history.extends hs.ok.ok hok.ok hext, hs.made⟩, ?_, fun _ hx => hx⟩
  rintro p ⟨db₁, hseen, hlatest, hok₁, hhistory, hext₁⟩
  exact ⟨db₁, mem_append_left _ hseen, hlatest, hok₁, hhistory, hext₁.trans hext⟩

lemma step_latest {a : Except Error (Option SessionContextGeneration)}
    (hstep : (reductionWatch codec).Step g (.latest sessionId) a g') :
    Onward codec cfg sessionId turn h g g' ∧ ∀ p, a = .ok p → Read sessionId h p g' := by
  obtain ⟨db, hreach, rfl, hanswer⟩ := hstep
  have honward := hs.reach hreach
  refine ⟨honward, ?_⟩
  rintro p rfl
  rcases hanswer with hanswer | ⟨e, he⟩
  · simp only [latestSessionContextGeneration] at hanswer
    obtain ⟨_, -, hlatest⟩ := bind_eq_ok.mp hanswer.symm
    refine ⟨db, mem_append_right _ mem_cons_self, Except.ok.inj hlatest, honward.sound.ok,
      honward.sound.history, .refl db⟩
  · cases he

lemma step_turnsBetween {after : Nat}
    {a : Except Error (List SessionTurn)}
    (hstep : (reductionWatch codec).Step g (.turnsBetween sessionId after h.length 128) a g') :
    Onward codec cfg sessionId turn h g g' ∧
      ∀ batch, a = .ok batch → batch = (h.drop after).take 128 := by
  obtain ⟨db, hreach, rfl, hanswer⟩ := hstep
  have honward := hs.reach hreach
  refine ⟨honward, ?_⟩
  rintro batch rfl
  rcases hanswer with hanswer | ⟨e, he⟩
  · simp only [sessionTurnsBetween] at hanswer
    obtain ⟨_, -, hrows⟩ := bind_eq_ok.mp hanswer.symm
    rw [honward.sound.history.filter honward.sound.ok.ok] at hrows
    exact (Except.ok.inj hrows).symm
  · cases he

lemma step_reduce {a : Except (Option ErrorCode) ReductionResult}
    (hstep : (reductionWatch codec).Step g (.reduce request) a g') :
    Onward codec cfg sessionId turn h g g' ∧
      ∀ result, a = .ok result → (request, result) ∈ g'.reductions := by
  obtain ⟨db, hreach, hanswer⟩ := hstep
  have honward := hs.reach hreach
  cases a with
  | error e =>
    cases hanswer
    exact ⟨honward, nofun⟩
  | ok result =>
  cases hanswer
  have hsub : ∀ x ∈ g.reductions, x ∈ g.reductions ++ [(request, result)] :=
    fun x hx => mem_append_left _ hx
  refine ⟨⟨⟨honward.sound.ok, honward.sound.history, fun c hc => (hs.made c hc).mono hsub⟩,
    honward.read, hsub⟩, ?_⟩
  rintro _ ⟨⟩
  exact mem_append_right _ mem_cons_self

lemma step_question {q : Req} {a : q.Resp}
    (hq : q = .stopRequested ∨ q = .deadlineExpired ∨ q = .findReducer cfg.reducer)
    (hstep : (reductionWatch codec).Step g q a g') : Onward codec cfg sessionId turn h g g' := by
  obtain ⟨db, hreach, hanswer⟩ := hstep
  rcases hq with rfl | rfl | rfl <;> cases hanswer <;> exact hs.reach hreach

end

lemma le_boundary (hok : db.ContextOk)
    (hgen : gen ∈ db.generationsOf sessionId) : gen.throughTurnSequence ≤ boundary db sessionId := by
  have hchain := (hok.chain sessionId).boundaries
  change _ ≤ (db.generationsOf sessionId).getLast?.elim 0 _
  rcases eq_nil_or_concat (db.generationsOf sessionId) with hnil | ⟨front, last, hlast⟩
  · rw [hnil] at hgen
    cases hgen
  rw [hlast, concat_eq_append] at hgen hchain ⊢
  rw [getLast?_concat, Option.elim_some]
  rcases mem_append.mp hgen with hgen | hgen
  · exact (pairwise_append.mp hchain).2.2 gen hgen last mem_cons_self
  · rw [mem_singleton.mp hgen]

lemma latest_eq (hok : db.ContextOk) (hok' : db'.ContextOk) (hext : Extends db db')
    (hnumber : (db'.latestGeneration sessionId).elim 0 SessionContextGeneration.generation =
      (db.latestGeneration sessionId).elim 0 SessionContextGeneration.generation) :
    db'.latestGeneration sessionId = db.latestGeneration sessionId := by
  have hlength : (db.generationsOf sessionId).length = (db'.generationsOf sessionId).length :=
    (hok.chain sessionId).generation_last.symm.trans
      (hnumber.symm.trans (hok'.chain sessionId).generation_last)
  exact congrArg List.getLast? ((hext.generations.filter _).eq_of_length hlength).symm

/-- The request was made for the turn from what was read. -/
structure Asked (codec : ReductionCodec) (cfg : ReductionConfig) (sessionId : String)
    (turn : SessionTurn) (h : List SessionTurn) (previous : Option SessionContextGeneration)
    (request : ReductionRequest) : Prop where
  session : request.sessionId = sessionId
  found : request.previous = previous
  eligible : request.eligibleTurns =
    h.drop (previous.elim 0 SessionContextGeneration.throughTurnSequence)
  through : request.throughTurnSequence = h.length
  target : request.targetPayloadBytes + codec.json turn.input = cfg.targetBytes

variable {E : Error → Log → Unit → Prop} {result : ReductionResult}

lemma made_of_creates (hok : db.ContextOk) (hhistory : History db sessionId h)
    (hlength : h.length = turn.sequence - 1)
    (hread : ∃ db₁ : SessionDb, db₁.latestGeneration sessionId = previous ∧ db₁.ContextOk ∧
      Extends db₁ db)
    (hasked : Asked codec cfg sessionId turn h previous request)
    (haccepts : ReductionRequest.Accepts codec request result)
    (hmem : (request, result) ∈ reductions)
    (hcreates : Creates db (offer codec cfg request result) gen db') :
    MadeFor codec cfg sessionId turn reductions db gen := by
  obtain ⟨db₁, rfl, hok₁, hext⟩ := hread
  have hsession : (offer codec cfg request result).sessionId = sessionId := hasked.session
  have hlatest : db.latestGeneration sessionId = db₁.latestGeneration sessionId := by
    refine latest_eq hok₁ hok hext ?_
    have hexpected := hcreates.expected
    rw [hsession] at hexpected
    exact hexpected.symm.trans
      (congrArg (·.elim 0 SessionContextGeneration.generation) hasked.found)
  have hnext := hcreates.next
  rw [hsession] at hnext
  refine ⟨?_, ?_, ?_, ⟨request, result, hmem, hasked.found.trans hlatest.symm, ?_, ?_, ?_, ?_⟩, ?_⟩
  · exact (congrArg (·.sessionId) hnext).trans hsession
  · exact (congrArg (·.throughTurnSequence) hnext).trans (hasked.through.trans hlength)
  · exact congrArg (·.predecessorId) hnext
  · rw [hasked.eligible, ← hlatest, unsummarised, ← hlength]
    exact (hhistory.filter hok.ok _).symm
  · exact congrArg (·.payload) hnext
  · exact congrArg (·.representationKind) hnext
  · exact congrArg (·.representationVersion) hnext
  have hpayload : gen.payload = result.payload := congrArg (·.payload) hnext
  have hsize := haccepts.2.2.2.2.2.2
  have htarget := hasked.target
  rw [hpayload]
  omega

lemma step_create
    (hs : Sound codec cfg sessionId turn h g) (hlength : h.length = turn.sequence - 1)
    (hread : Read sessionId h previous g)
    (hasked : Asked codec cfg sessionId turn h previous request)
    (haccepts : ReductionRequest.Accepts codec request result)
    (hmem : (request, result) ∈ g.reductions) {a : Except Error SessionContextGeneration}
    (hstep : (reductionWatch codec).Step g (.create (offer codec cfg request result)) a g') :
    Sound codec cfg sessionId turn h g' ∧
      ∀ gen, a = .ok gen → ∃ db ∈ g'.seen, Fits codec cfg sessionId turn db := by
  obtain ⟨db, hreach, hanswer⟩ := hstep
  have honward := hs.reach hreach
  rcases hanswer with ⟨id, gen, db', hcreate, rfl, -⟩ | ⟨rfl, e, rfl⟩
  swap
  · exact ⟨honward.sound, nofun⟩
  have hcreate' : db.createSessionContextGeneration codec.toContextCodec
      (offer codec cfg request result) id = .ok (gen, db') := hcreate
  have hcall : contextMachine codec.toContextCodec db
      (.generate (offer codec cfg request result) id) = some db' := by
    rw [contextMachine, hcreate']
    rfl
  have hok : db.ContextOk := honward.sound.ok
  obtain ⟨hok', hext⟩ := hok.call hcall
  have hhistory := honward.sound.history.extends hok.ok hok'.ok hext
  have hsession : (offer codec cfg request result).sessionId = sessionId := hasked.session
  have hthrough : (offer codec cfg request result).throughTurnSequence = turn.sequence - 1 :=
    hasked.through.trans hlength
  rcases createSessionContextGeneration_cases hcreate' with ⟨hprior, -, hanswered, rfl⟩ | ⟨-, hnew⟩
  · rw [hsession] at hprior
    have hused : (db'.generations.get gen.id).isNone = false := by
      have hget : db'.generations.get gen.id = some gen :=
        Table.mem_rows_iff.mp (mem_of_mem_filter hprior)
      rw [hget]
      rfl
    have hcreated : ((g.reach db').offered gen db').created = g.created := by
      show (if (db'.generations.get gen.id).isNone then _ else _) = _
      rw [hused]
      rfl
    refine ⟨⟨hok, hhistory, ?_⟩, fun _ _ => ⟨db', ?_, .inl ?_⟩⟩
    · rw [hcreated]
      exact hs.made
    · exact mem_append_right _ mem_cons_self
    · rw [← hthrough, ← hanswered.1]
      exact le_boundary hok hprior
  have hfresh : (db.generations.get gen.id).isNone := by
    rw [hnew.fresh]
    rfl
  have hcreated : ((g.reach db).offered gen db').created = g.created ++ [(db, gen)] := by
    show (if (db.generations.get gen.id).isNone then _ else _) = _
    rw [hfresh]
    rfl
  have hnext : gen ∈ db'.generationsOf sessionId := by
    obtain ⟨-, -, -, hnone, hnext, rfl⟩ := hnew
    have hsid : gen.sessionId = sessionId := (congrArg (·.sessionId) hnext).trans hsession
    rw [generationsOf_insert hnone, if_pos hsid]
    exact mem_append_right _ mem_cons_self
  have hboundary : gen.throughTurnSequence = turn.sequence - 1 :=
    (congrArg (·.throughTurnSequence) hnew.next).trans hthrough
  obtain ⟨db₁, -, hlatest, hok₁, -, hext₁⟩ := honward.read previous hread
  refine ⟨⟨hok', hhistory, ?_⟩, fun _ _ => ⟨db', ?_, .inl ?_⟩⟩
  · rw [hcreated]
    intro c hc
    rcases mem_append.mp hc with hc | hc
    · exact hs.made c hc
    rw [mem_singleton.mp hc]
    exact made_of_creates hok honward.sound.history hlength ⟨db₁, hlatest, hok₁, hext₁⟩ hasked
      haccepts hmem hnew
  · exact mem_append_right _ mem_cons_self
  · rw [← hboundary]
    exact le_boundary hok' hnext

/-! ## The code -/

open Watch

lemma ask_wp {α : Type} {Q : α → Log → Unit → Prop} {q : Req}
    {f : q.Resp → Reducing α}
    (hf : ∀ a g', (reductionWatch codec).Step g q a g' → (reductionWatch codec).wp (f a) Q E g' ()) :
    (reductionWatch codec).wp (ask q >>= f) Q E g () := (wp_bind _ _).mpr ⟨trivial, hf⟩

lemma ofExcept_wp {α β : Type} {Q : α → Log → Unit → Prop}
    {x : Except Error β} {f : β → Reducing α} (herror : ∀ e, E e g ())
    (hf : ∀ b, x = .ok b → (reductionWatch codec).wp (f b) Q E g ()) :
    (reductionWatch codec).wp (Code.ofExcept x >>= f) Q E g () := by
  cases x with
  | ok b => exact hf b rfl
  | error e => exact herror e

variable {r : Reading}

lemma takeTurns_eq_ok {batch : List SessionTurn} {through : Nat} {r' : Reading}
    (hok : batch.foldlM (takeTurn codec cfg through) r = .ok r') :
    r'.cursor = r.cursor + batch.length ∧ r'.eligible = r.eligible ++ batch ∧
      r'.bytes = r.bytes + (batch.map codec.turn).sum := by
  induction batch generalizing r with
  | nil =>
    cases hok
    simp
  | cons turn rest ih =>
    obtain ⟨r₁, hturn, hrest⟩ := bind_eq_ok.mp hok
    simp only [takeTurn, bind_eq_ok, require_eq_ok, pure_eq_ok] at hturn
    obtain ⟨_, ⟨hsequence, -⟩, _, -, rfl⟩ := hturn
    obtain ⟨hcursor, heligible, hbytes⟩ := ih hrest
    refine ⟨?_, ?_, ?_⟩
    · rw [hcursor, length_cons]
      dsimp only
      omega
    · rw [heligible, List.append_assoc]
      rfl
    · rw [hbytes, map_cons, sum_cons, Nat.add_assoc]

/-- The turns up to the cursor have been read: `base` bytes are those of the generation with the
boundary `b`. -/
structure ReadUpTo (codec : ReductionCodec) (h : List SessionTurn) (b base : Nat) (r : Reading) :
    Prop where
  eligible : r.eligible ++ h.drop r.cursor = h.drop b
  bytes : r.bytes = base + (r.eligible.map codec.turn).sum

lemma ReadUpTo.page {b base : Nat} {r' : Reading} (hr : ReadUpTo codec h b base r)
    (hok : ((h.drop r.cursor).take 128).foldlM (takeTurn codec cfg h.length) r = .ok r') :
    ReadUpTo codec h b base r' ∧
      r'.cursor = r.cursor + ((h.drop r.cursor).take 128).length := by
  obtain ⟨hcursor, heligible, hbytes⟩ := takeTurns_eq_ok hok
  refine ⟨⟨?_, ?_⟩, hcursor⟩
  · rw [heligible, hcursor, ← drop_drop, List.append_assoc, ← hr.eligible]
    congr 1
    exact (prefix_append_drop (List.take_prefix 128 _)).symm
  · rw [hbytes, hr.bytes, heligible, map_append, sum_append, Nat.add_assoc]

lemma ReadUpTo.done {b base : Nat} (hr : ReadUpTo codec h b base r) (hend : h.length ≤ r.cursor) :
    r.eligible = h.drop b ∧ r.bytes = base + ((h.drop b).map codec.turn).sum := by
  have heligible : r.eligible = h.drop b := by
    rw [← hr.eligible, drop_eq_nil_of_le hend, append_nil]
  exact ⟨heligible, heligible ▸ hr.bytes⟩

lemma readPages_wp {b base pages : Nat} (hs : Sound codec cfg sessionId turn h g)
    (hr : ReadUpTo codec h b base r) (hpages : h.length - r.cursor ≤ pages) :
    (reductionWatch codec).wp (readPages codec cfg sessionId h.length pages r)
      (fun r' g' _ => Onward codec cfg sessionId turn h g g' ∧ r'.eligible = h.drop b ∧
        r'.bytes = base + ((h.drop b).map codec.turn).sum)
      (fun _ g' _ => Sound codec cfg sessionId turn h g') g () := by
  -- every page moves the cursor, so the fuel lasts to the end of the history
  induction pages generalizing g r with
  | zero => exact ⟨.refl hs, hr.done (by omega)⟩
  | succ pages ih =>
    rw [readPages, wp_ite]
    refine ⟨fun hmore => ?_, fun hend => ⟨.refl hs, hr.done (by omega)⟩⟩
    refine ask_wp fun answer g₁ hstep => ?_
    obtain ⟨honward, hpage⟩ := step_turnsBetween hs hstep
    refine ofExcept_wp (fun _ => honward.sound) fun batch hbatch => ?_
    rw [wp_ite]
    refine ⟨fun _ => honward.sound, fun hempty => ?_⟩
    cases hpage batch hbatch
    refine ofExcept_wp (fun _ => honward.sound) fun r' htake => ?_
    obtain ⟨hr', hcursor⟩ := hr.page htake
    have hpos : 0 < ((h.drop r.cursor).take 128).length :=
      length_pos_of_ne_nil fun hnil => hempty (by rw [hnil]; rfl)
    refine wp_imp (ih honward.sound hr' (by omega)) ?_
    rintro r'' g'' _ ⟨honward', hread⟩
    exact ⟨honward.trans honward', hread⟩

lemma askReducer_wp (hs : Sound codec cfg sessionId turn h g) :
    (reductionWatch codec).wp (askReducer cfg request)
      (fun result g' _ => Onward codec cfg sessionId turn h g g' ∧
        (request, result) ∈ g'.reductions)
      (fun _ g' _ => Sound codec cfg sessionId turn h g') g () := by
  refine ask_wp fun found g₁ hfind => ?_
  have hfound := step_question hs (.inr (.inr rfl)) hfind
  refine ofExcept_wp (fun _ => hfound.sound) fun _ _ => ask_wp fun answer g₂ hstep => ?_
  obtain ⟨honward, hrecord⟩ := step_reduce hfound.sound hstep
  rcases answer with (_ | code) | result
  · exact honward.sound
  · exact honward.sound
  refine ask_wp fun (expired : Bool) g₃ hexpired => ?_
  have hlast := step_question honward.sound (.inr (.inl rfl)) hexpired
  rw [wp_ite]
  refine ⟨fun _ => hlast.sound, fun _ => ⟨(hfound.trans honward).trans hlast, ?_⟩⟩
  exact hlast.reductions _ (hrecord result rfl)

section

variable {again : Bool} (hs : Sound codec cfg sessionId turn h g)
  (hlength : h.length = turn.sequence - 1)
include hs hlength

lemma summarise_wp (hread : Read sessionId h previous g)
    (hasked : Asked codec cfg sessionId turn h previous request) :
    (reductionWatch codec).wp (summarise codec cfg request again)
      (fun done g' _ => Sound codec cfg sessionId turn h g' ∧
        (done → ∃ db ∈ g'.seen, Fits codec cfg sessionId turn db))
      (fun _ g' _ => Sound codec cfg sessionId turn h g') g () := by
  unfold summarise
  rw [wp_bind]
  refine wp_imp (askReducer_wp hs) ?_
  rintro result g₁ _ ⟨honward, hrecord⟩
  rw [wp_ite]
  refine ⟨fun _ => honward.sound, fun haccepts => ask_wp fun (stop : Bool) g₂ hstop => ?_⟩
  have hstopped := step_question honward.sound (.inl rfl) hstop
  rw [wp_ite]
  refine ⟨fun _ => hstopped.sound, fun _ => ask_wp fun answer g₃ hcreate => ?_⟩
  obtain ⟨hsound, hfits⟩ := step_create hstopped.sound hlength
    (hstopped.read _ (honward.read _ hread)) hasked (not_not.mp haccepts)
    (hstopped.reductions _ hrecord) hcreate
  cases answer with
  | ok gen => exact ⟨hsound, fun _ => hfits gen rfl⟩
  | error e =>
    rw [wp_ite]
    exact ⟨fun _ => hsound, fun _ => ⟨hsound, nofun⟩⟩

lemma attempt_wp (hinput : codec.json turn.input < cfg.targetBytes) :
    (reductionWatch codec).wp (attempt codec cfg sessionId turn again)
      (fun done g' _ => Sound codec cfg sessionId turn h g' ∧
        (done → ∃ db ∈ g'.seen, Fits codec cfg sessionId turn db))
      (fun _ g' _ => Sound codec cfg sessionId turn h g') g () := by
  refine ask_wp fun answer g₁ hstep => ?_
  obtain ⟨honward, hlatest⟩ := step_latest hs hstep
  refine ofExcept_wp (fun _ => honward.sound) fun previous hprevious => ?_
  have hread := hlatest previous hprevious
  rw [wp_ite]
  refine ⟨fun hcovered => ⟨honward.sound, fun _ => ?_⟩, fun _ => ?_⟩
  · obtain ⟨db, hseen, rfl, -⟩ := hread
    exact ⟨db, hseen, .inl hcovered⟩
  rw [← hlength, wp_bind]
  refine wp_imp (readPages_wp honward.sound ⟨rfl, rfl⟩ le_rfl) ?_
  rintro r g₂ _ ⟨honward', heligible, hbytes⟩
  have hread' := honward'.read _ hread
  rw [wp_ite]
  refine ⟨fun hsmall => ⟨honward'.sound, fun _ => ?_⟩, fun _ => ?_⟩
  · -- at the moment the generation was read, this was the size of the context
    obtain ⟨db, hseen, rfl, hok, hhistory, -⟩ := hread'
    have hsize : contextBytes codec db sessionId turn = r.bytes + codec.json turn.input := by
      rw [hbytes, contextBytes, unsummarised, ← hlength, hhistory.filter hok.ok]
      rfl
    exact ⟨db, hseen, .inr (hsize ▸ hsmall)⟩
  · refine summarise_wp honward'.sound hlength hread' ⟨rfl, rfl, heligible, rfl, ?_⟩
    exact Nat.sub_add_cancel hinput.le

end

lemma reduce_wp (hs : Sound codec cfg sessionId turn h g)
    (hlength : h.length = turn.sequence - 1) (henabled : cfg.enabled) :
    (reductionWatch codec).wp (reduceSessionContextIfNeeded codec cfg sessionId turn)
      (fun _ g' _ => Sound codec cfg sessionId turn h g' ∧
        ∃ db ∈ g'.seen, Fits codec cfg sessionId turn db)
      (fun _ g' _ => Sound codec cfg sessionId turn h g') g () := by
  unfold reduceSessionContextIfNeeded
  rw [wp_ite]
  refine ⟨fun hdisabled => ?_, fun _ => ask_wp fun stop g₁ hstop => ?_⟩
  · rw [henabled] at hdisabled
    cases hdisabled
  have hstopped := step_question hs (.inl rfl) hstop
  simp only [wp_ite]
  refine ⟨fun _ => hstopped.sound, fun _ => ⟨fun _ => hstopped.sound, fun hinput =>
    ⟨fun hfirst => ⟨hstopped.sound, ?_⟩, fun _ => ?_⟩⟩⟩
  · obtain ⟨db, -, hanswer⟩ := hstop
    cases hanswer
    exact ⟨db, mem_append_right _ mem_cons_self, .inl (by omega)⟩
  rw [wp_bind]
  refine wp_imp (attempt_wp hstopped.sound hlength (not_le.mp hinput)) ?_
  rintro done g₂ _ ⟨hsound, hfits⟩
  rw [wp_ite]
  refine ⟨fun hdone => ⟨hsound, hfits hdone⟩, fun _ => ?_⟩
  rw [wp_bind]
  refine wp_imp (attempt_wp hsound hlength (not_le.mp hinput)) ?_
  rintro done g₃ _ ⟨hsound, hfits⟩
  rw [wp_ite]
  exact ⟨fun hdone => ⟨hsound, hfits hdone⟩, fun _ => hsound⟩

/-! ## Calls for claimed turns -/

lemma ordered_of_reach (hreach : Reach (contextMachine codec.toContextCodec) always {} db) :
    ∀ id s, db.sessions.get id = some s → (db.draft s).Ordered := by
  have hall := hreach.invariant (I := fun db => db.ContextOk ∧
    ∀ id s, db.sessions.get id = some s → (db.draft s).Ordered) ⟨contextOk_empty, nofun⟩ ?_
  · exact hall.2
  rintro db₁ call db₂ ⟨hok, hordered⟩ - hcall
  refine ⟨(hok.call hcall).1, ?_⟩
  cases call with
  | session call =>
    obtain ⟨-, call', hcall'⟩ := contextMachine_session hcall
    rcases sessionMachine_effect hok.ok hcall' with heffect | ⟨id, pipelineId, hcreate⟩
    · exact ordered_effect hok.ok hordered heffect
    · exact ordered_create hok.ok hordered hcreate
  | generate q id =>
  cases hcall
  refine ordered_effect (k := .submit) hok.ok hordered
    (settle_effect fun gen db' hgenerate => .inl fun id => ?_)
  rcases createSessionContextGeneration_cases hgenerate with ⟨-, -, -, rfl⟩ | ⟨-, hnew⟩
  · exact ⟨rfl, rfl, rfl⟩
  · cases hnew.tables
    exact ⟨rfl, rfl, rfl⟩

lemma history_of_claimed
    (hreach : Reach (contextMachine codec.toContextCodec) always {} db)
    (hturn : turn ∈ db.turnsOf sessionId) (hclaimed : turn.state = .claimed) :
    ∃ h, History db sessionId h ∧ h.length = turn.sequence - 1 := by
  have hok := (contextOk_empty.reach hreach).1.ok
  have hall := consecutive_turnsOf hok sessionId
  refine ⟨(db.turnsOf sessionId).take (turn.sequence - 1), ⟨List.take_prefix _ _, ?_⟩, ?_⟩
  · intro t ht
    obtain ⟨s, hs⟩ : ∃ s, db.sessions.get sessionId = some s := by
      have hat := hok sessionId
      unfold OkAt at hat
      split at hat
      · exact ⟨_, ‹_›⟩
      · rw [hat.1] at hturn
        cases hturn
    have hordered := ordered_of_reach hreach sessionId s hs
    have hview : (db.draft s).turns = db.turnsOf sessionId := by rw [draft, id_of_get hs]
    have hlt : t.sequence < turn.sequence := by
      obtain ⟨j, hj⟩ := getElem?_of_mem ht
      rw [getElem?_take] at hj
      split at hj
      · have := hall.number_eq hj
        omega
      · cases hj
    exact hordered.earlier turn (hview ▸ hturn) hclaimed t (hview ▸ mem_of_mem_take ht) hlt
  · have hbounds := hall.bounds hturn
    rw [length_take]
    omega

/-- **Context reduction.** However the calls for a claimed turn are interleaved with transactions of
others, if one returns normally the context of the turn fitted at some moment of the call; and every
generation a call created ends before the turn, was made by the reducer from exactly its predecessor
and the turns in between, and fits the target together with the input of the turn. -/
theorem reduction_fits (hreach : Reach (contextMachine codec.toContextCodec) always {} db)
    (hturn : turn ∈ db.turnsOf sessionId) (hclaimed : turn.state = .claimed)
    (henabled : cfg.enabled = true) {result : Except Error Unit} {g : Log}
    (hrun : (reductionWatch codec).Runs
      ((reduceSessionContextIfNeeded codec cfg sessionId turn).prog ()) { db, seen := [db] }
      (result, ()) g) :
    (result = .ok () → ∃ db' ∈ g.seen, Fits codec cfg sessionId turn db') ∧
      ∀ c ∈ g.created, MadeFor codec cfg sessionId turn g.reductions c.1 c.2 := by
  obtain ⟨h, hhistory, hlength⟩ := history_of_claimed hreach hturn hclaimed
  have hsound : Sound codec cfg sessionId turn h { db, seen := [db] } :=
    ⟨(contextOk_empty.reach hreach).1, hhistory, nofun⟩
  have hpost := Sat.of_runs (reduce_wp hsound hlength henabled) hrun
  cases result with
  | ok _ => exact ⟨fun _ => hpost.2, hpost.1.made⟩
  | error e => exact ⟨nofun, hpost.made⟩

/-- A call that is not interrupted, with a reducer that always returns `result`. -/
def alone (codec : ReductionCodec) (result : ReductionResult) :
    (q : Req) → Log → Option (q.Resp × Log)
  | .stopRequested, g => some (false, g.reach g.db)
  | .deadlineExpired, g => some (false, g.reach g.db)
  | .findReducer _, g => some (.ok (), g.reach g.db)
  | .latest id, g => some (g.db.latestSessionContextGeneration id, g.reach g.db)
  | .turnsBetween id after through limit, g =>
    some (g.db.sessionTurnsBetween id after through limit, g.reach g.db)
  | .reduce request, g =>
    some (.ok result, { g.reach g.db with reductions := g.reductions ++ [(request, result)] })
  | .create q, g =>
    match g.db.createSessionContextGeneration codec.toContextCodec q "g" with
    | .ok (gen, db') => some (.ok gen, (g.reach g.db).offered gen db')
    | .error e => some (.error e, g.reach g.db)

lemma alone_step {reply : ReductionResult} (q : Req) (g : Log) (a : q.Resp) (g' : Log)
    (hanswer : alone codec reply q g = some (a, g')) : (reductionWatch codec).Step g q a g' := by
  refine ⟨g.db, .refl, ?_⟩
  cases q with
  | stopRequested | deadlineExpired | findReducer _ | reduce _ =>
    cases hanswer
    rfl
  | latest _ | turnsBetween _ _ _ _ =>
    cases hanswer
    exact ⟨rfl, .inl rfl⟩
  | create q =>
  simp only [alone] at hanswer
  split at hanswer
  · rename_i gen db' hcreate
    cases hanswer
    exact .inl ⟨"g", gen, db', hcreate, rfl, .inl rfl⟩
  · cases hanswer
    exact .inr ⟨rfl, _, rfl⟩

def emptyReductionCodec : ReductionCodec where
  toContextCodec := emptyContextCodec
  dump _ _ := ""

/-- A configuration under which every history is summarised. -/
def eagerConfig : ReductionConfig := ⟨true, 1, 0, 0, "reducer", .null⟩

/-- The first turn of a session is over and its second turn is claimed. -/
def secondClaimed : List ContextCall :=
  [.session (.create "s" "p"), .session (.submit "s" "t" "k" .null "p" sampleIds),
    .session (.claim 0 "s" "i" 0 "" sampleIds),
    .session (.bind 0 "s" "t" (sampleRun .queued) ⟨"r", "p", "input", "run.created", .queued⟩ "i" 0
      sampleIds),
    .session (.complete 0 [.record (.run (sampleRun .completed))] "" 0 sampleIds),
    .session (.submit "s" "u" "l" .null "p" sampleIds),
    .session (.claim 0 "s" "i" 0 "" sampleIds)]

def callAlone (db : SessionDb) :
    Option (SessionTurn × (Except Error Unit × Unit) × Log) :=
  (db.turns.get "u").bind fun turn =>
    (((reduceSessionContextIfNeeded emptyReductionCodec eagerConfig "s" turn).prog ()).run
      (alone emptyReductionCodec ⟨"summary", "1", 1, .obj []⟩) { db, seen := [db] }).map
        fun x => (turn, x)

theorem reduction_fits_created : ∃ db turn g,
    Reach (contextMachine emptyReductionCodec.toContextCodec) always {} db ∧
      (reductionWatch emptyReductionCodec).Runs
        ((reduceSessionContextIfNeeded emptyReductionCodec eagerConfig "s" turn).prog ())
        { db, seen := [db] } (.ok (), ()) g ∧
      g.created.map (fun c => c.2.throughTurnSequence) = [1] ∧
      (∃ db' ∈ g.seen, Fits emptyReductionCodec eagerConfig "s" turn db') ∧
      ∀ c ∈ g.created, MadeFor emptyReductionCodec eagerConfig "s" turn g.reductions c.1 c.2 := by
  obtain ⟨db, hreach, hcall⟩ := exists_reach (f := fun db : SessionDb => (callAlone db).map fun x =>
      (x.1.state, x.1.sessionId, x.2.1.1.toOption.isSome,
        x.2.2.created.map fun c => c.2.throughTurnSequence))
    (M := contextMachine emptyReductionCodec.toContextCodec) (C := always) (s := {})
    (v := some (.claimed, "s", true, [1])) secondClaimed (by decide +kernel)
  obtain ⟨⟨turn, ⟨res, _⟩, g⟩, hcall, hview⟩ := Option.map_eq_some_iff.mp hcall
  obtain ⟨turn', hget, hrun⟩ := Option.bind_eq_some_iff.mp hcall
  obtain ⟨x, hrun, hx⟩ := Option.map_eq_some_iff.mp hrun
  cases hx
  simp only [Prod.mk.injEq] at hview
  obtain ⟨hclaimed, hsession, hnormal, hcreated⟩ := hview
  have hturn : turn ∈ db.turnsOf "s" := by
    refine mem_turnsOf.mpr ⟨?_, hsession⟩
    rwa [show turn.id = "u" from Table.key_of_get hget]
  cases res with
  | error e => cases hnormal
  | ok _ =>
    have hruns := runs_of_run alone_step hrun
    obtain ⟨hfits, hmade⟩ := reduction_fits hreach hturn hclaimed rfl hruns
    exact ⟨db, turn, g, hreach, hruns, hcreated, hfits rfl, hmade⟩

end Reduction

end Laso
