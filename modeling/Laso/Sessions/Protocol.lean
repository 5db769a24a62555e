import Laso.Sessions.Store

/-!
# The turn protocol of a session

One session by itself: its row, its turns and its journal (`SessionView`). `SessionStep` lists what
a transaction may do to it, and `SessionView.Ok` is the invariant: journal and turns are numbered
without gaps, at most one turn is worked on and the row points to it, and a closed session is over.

The steps say which events they append only as far as the end of the journal matters; that the
numbers fit is the same for all of them (`Appends`).
-/

namespace Laso

open List SessionTurn

/-- A session with its turns and its journal. -/
structure SessionView where
  session : AgentSession
  turns : List SessionTurn
  events : List SessionEvent

/-- The turn `t` in the place of the turn with its identifier. -/
def replaceTurn (t u : SessionTurn) : SessionTurn := if u.id = t.id then t else u

def SessionTurn.pending (t : SessionTurn) : Prop := t.state = .queued ∨ t.state = .claimed

instance (t : SessionTurn) : Decidable t.pending := inferInstanceAs (Decidable (_ ∨ _))

/-- The journal is continued by `es`, with the next numbers of the session. -/
structure Appends (v v' : SessionView) (es : List SessionEvent) : Prop where
  events : v'.events = v.events ++ es
  next : v'.session.nextSequence = v.session.nextSequence + es.length
  numbers : es.map SessionEvent.sequence = List.range' v.session.nextSequence es.length

/-- Events that neither claim nor start a turn nor close the session. -/
def SessionEventType.quiet : SessionEventType → Bool
  | .turnClaimed | .turnStarted | .sessionClosed => false
  | _ => true

inductive StepKind where
  | submit | claim | bind | complete | close
  deriving DecidableEq, Repr

inductive SessionStep : StepKind → SessionView → SessionView → Prop where
  | submit {v v' : SessionView} (t : SessionTurn) (e : SessionEvent) (appends : Appends v v' [e])
      (type : e.type = .inputAccepted) (opened : v.session.state = .opened)
      (fresh : t.id ≠ "" ∧ ∀ u ∈ v.turns, u.id ≠ t.id)
      (queued : t.state = .queued ∧ t.runId = "")
      (number : t.sequence = (v.turns.map sequence).foldl max 0 + 1)
      (turns : v'.turns = v.turns ++ [t])
      (session : v'.session = { v.session with nextSequence := v'.session.nextSequence }) :
      SessionStep .submit v v'
  /-- The first queued turn is claimed, or the claim of the active turn is taken over. -/
  | claim {v v' : SessionView} (t : SessionTurn) (owner : String) (fence : Nat) (e : SessionEvent)
      (appends : Appends v v' [e]) (type : e.type = .turnClaimed ∧ e.turnId = t.id)
      (opened : v.session.state = .opened) (mem : t ∈ v.turns)
      (first : (v.session.activeTurnId = "" ∧ t.state = .queued ∧
          ∀ u ∈ v.turns, u.state = .queued → t.sequence ≤ u.sequence) ∨
        (t.id = v.session.activeTurnId ∧ t.state = .claimed))
      (unbound : t.state = .claimed → t.runId = "")
      (turns : v'.turns = v.turns.map (replaceTurn (t.claim owner fence)))
      (session : v'.session = { v.session with
        activeTurnId := t.id, dispatchGeneration := v.session.dispatchGeneration + 1
        nextSequence := v'.session.nextSequence }) :
      SessionStep .claim v v'
  | bind {v v' : SessionView} (t : SessionTurn) (runId : String) (e : SessionEvent)
      (appends : Appends v v' [e]) (type : e.type = .turnStarted ∧ e.turnId = t.id ∧ e.runId = runId)
      (opened : v.session.state = .opened) (mem : t ∈ v.turns)
      (active : t.id = v.session.activeTurnId) (claimed : t.state = .claimed) (run : runId ≠ "")
      (turns : v'.turns = v.turns.map (replaceTurn (t.bind runId)))
      (session : v'.session = { v.session with
        activeRunId := runId, nextSequence := v'.session.nextSequence }) :
      SessionStep .bind v v'
  /-- The run of the active turn ends; a session that is closing is closed. -/
  | complete {v v' : SessionView} (t : SessionTurn) (r : Run) (e : SessionEvent)
      (es : List SessionEvent) (appends : Appends v v' (e :: es))
      (type : e.type.quiet)
      (mem : t ∈ v.turns) (active : t.id = v.session.activeTurnId) (running : t.state = .running)
      (turns : v'.turns = v.turns.map (replaceTurn (t.complete r)))
      (session : v'.session = { v.session with
        activeTurnId := "", activeRunId := "", state := v'.session.state
        nextSequence := v'.session.nextSequence })
      (closed : (v.session.state ≠ .closing ∧ v'.session.state = v.session.state ∧ es = []) ∨
        (v.session.state = .closing ∧ v'.session.state = .closed ∧
          ∃ last : SessionEvent, last.type = .sessionClosed ∧ es = [last])) :
      SessionStep .complete v v'
  /-- Closing a session whose active turn runs. -/
  | closing {v v' : SessionView} (es : List SessionEvent) (appends : Appends v v' es)
      (types : ∀ e ∈ es, e.type.quiet)
      (opened : v.session.state = .opened) (run : v.session.activeRunId ≠ "")
      (turns : v'.turns = v.turns.map fun t =>
        if t.state = .queued then t.cancel
        else if t.id = v.session.activeTurnId then { t with cancellationRequested := true } else t)
      (session : v'.session = { v.session with
        state := .closing, nextSequence := v'.session.nextSequence }) :
      SessionStep .close v v'
  /-- Closing a session without a run. -/
  | close {v v' : SessionView} (es : List SessionEvent) (last : SessionEvent)
      (appends : Appends v v' (es ++ [last]))
      (types : ∀ e ∈ es, e.type.quiet)
      (type : last.type = .sessionClosed) (opened : v.session.state = .opened)
      (idle : v.session.activeRunId = "")
      (turns : v'.turns = v.turns.map fun t => if t.pending then t.cancel else t)
      (session : v'.session = { v.session with
        state := .closed, activeTurnId := "", activeRunId := ""
        nextSequence := v'.session.nextSequence }) :
      SessionStep .close v v'

lemma SessionTurnState.settled_iff {s : SessionTurnState} :
    s.settled ↔ s.active = false ∧ s ≠ .queued := by
  cases s <;> simp [SessionTurnState.settled, SessionTurnState.active]

lemma SessionEventType.quiet_ne {type : SessionEventType} (h : type.quiet) :
    type ≠ .sessionClosed ∧ type ≠ .turnStarted ∧ type ≠ .turnClaimed := by
  cases type <;> simp_all [SessionEventType.quiet]

namespace SessionView

/-- The active turn is claimed and has no run, or runs. -/
structure Holds (v : SessionView) (t : SessionTurn) : Prop where
  mem : t ∈ v.turns
  id : t.id = v.session.activeTurnId
  work : (t.state = .claimed ∧ t.runId = "" ∧ v.session.activeRunId = "") ∨
    (t.state = .running ∧ t.runId = v.session.activeRunId ∧ v.session.activeRunId ≠ "")

structure Ok (v : SessionView) : Prop where
  journal : Consecutive SessionEvent.sequence v.events
  next : v.session.nextSequence = v.events.length + 1
  turns : Consecutive sequence v.turns
  ids : ∀ t ∈ v.turns, t.id ≠ ""
  distinct : (v.turns.map SessionTurn.id).Nodup
  active : ∀ t ∈ v.turns, t.state.active → t.id = v.session.activeTurnId
  idle : v.session.activeTurnId = "" → v.session.activeRunId = ""
  held : v.session.activeTurnId ≠ "" → ∃ t, v.Holds t
  unbound : ∀ t ∈ v.turns, t.state = .queued → t.runId = ""
  closing : v.session.state = .closing →
    v.session.activeRunId ≠ "" ∧ ∀ t ∈ v.turns, t.state ≠ .queued
  closed : v.session.state = .closed →
    v.session.activeTurnId = "" ∧ (∀ t ∈ v.turns, t.state.settled) ∧
      ∃ before last, v.events = before ++ [last] ∧ last.type = .sessionClosed ∧
        ∀ e ∈ before, e.type ≠ .sessionClosed
  ending : v.session.state ≠ .closed → ∀ e ∈ v.events, e.type ≠ .sessionClosed

variable {k : StepKind} {v v' : SessionView} {t t' u : SessionTurn}

lemma Ok.eq_of_id (h : v.Ok) (ht : t ∈ v.turns) (hu : u ∈ v.turns) (hid : u.id = t.id) : u = t :=
  inj_on_of_nodup_map h.distinct hu ht hid

lemma Ok.eq_of_sequence (h : v.Ok) (ht : t ∈ v.turns) (hu : u ∈ v.turns)
    (hseq : u.sequence = t.sequence) : u = t := by
  have hnodup : (v.turns.map sequence).Nodup := h.turns ▸ nodup_range'
  exact inj_on_of_nodup_map hnodup hu ht hseq

lemma Ok.lastSequence (h : v.Ok) : (v.turns.map sequence).foldl max 0 = v.turns.length := by
  rw [h.turns]
  generalize v.turns.length = n
  induction n with
  | zero => rfl
  | succ n ih => rw [range'_concat, foldl_append, ih]; simp; omega

lemma Ok.holds_of_active (h : v.Ok) (ht : t ∈ v.turns) (ha : t.state.active) : v.Holds t := by
  have hid := h.active t ht ha
  obtain ⟨u, hu⟩ := h.held (hid ▸ h.ids t ht)
  cases h.eq_of_id hu.mem ht (hid.trans hu.id.symm)
  exact hu

lemma Ok.not_closed (h : v.Ok) (ht : t ∈ v.turns) (hs : t.state.settled = false) :
    v.session.state ≠ .closed := fun hclosed => by
  have := (h.closed hclosed).2.1 t ht
  rw [hs] at this
  exact absurd this (by decide)

/-! ## Rewriting turns -/

structure Alike (v v' : SessionView) : Prop where
  turns : Consecutive sequence v'.turns
  ids : ∀ t ∈ v'.turns, t.id ≠ ""
  distinct : (v'.turns.map SessionTurn.id).Nodup

lemma Ok.alike_map (h : v.Ok) {f : SessionTurn → SessionTurn} (hturns : v'.turns = v.turns.map f)
    (hid : ∀ t ∈ v.turns, (f t).id = t.id) (hseq : ∀ t ∈ v.turns, (f t).sequence = t.sequence) :
    Alike v v' where
  turns := hturns ▸ h.turns.map hseq
  ids := by
    rw [hturns]
    intro t ht
    obtain ⟨u, hu, rfl⟩ := mem_map.mp ht
    exact hid u hu ▸ h.ids u hu
  distinct := by
    have hids : v.turns.map (SessionTurn.id ∘ f) = v.turns.map SessionTurn.id :=
      map_congr_left hid
    rw [hturns, List.map_map, hids]
    exact h.distinct

lemma Ok.alike_replace (h : v.Ok) (t' : SessionTurn) (ht : t ∈ v.turns) (hid : t'.id = t.id)
    (hseq : t'.sequence = t.sequence) (hturns : v'.turns = v.turns.map (replaceTurn t')) :
    Alike v v' := by
  refine h.alike_map hturns (fun u hu => ?_) fun u hu => ?_
  · unfold replaceTurn
    split
    · rename_i he
      exact he.symm
    · rfl
  unfold replaceTurn
  split
  · rename_i he
    rw [hseq, h.eq_of_id ht hu (he.trans hid)]
  · rfl

lemma mem_replace (h : u ∈ v.turns.map (replaceTurn t')) :
    u = t' ∨ (u ∈ v.turns ∧ u.id ≠ t'.id) := by
  obtain ⟨w, hw, rfl⟩ := mem_map.mp h
  unfold replaceTurn
  split
  · exact .inl rfl
  · rename_i hne
    exact .inr ⟨hw, hne⟩

lemma mem_replace_self (ht : t ∈ v.turns) (hid : t'.id = t.id) :
    t' ∈ v.turns.map (replaceTurn t') :=
  mem_map.mpr ⟨t, ht, if_pos hid.symm⟩

/-! ## The invariant is kept -/

variable {es : List SessionEvent}

lemma Ok.journal_append (h : v.Ok) (ha : Appends v v' es) :
    Consecutive SessionEvent.sequence v'.events ∧
      v'.session.nextSequence = v'.events.length + 1 := by
  constructor
  · rw [ha.events]
    exact h.journal.append (by rw [ha.numbers, h.next])
  · rw [ha.next, ha.events, h.next, List.length_append]
    omega

lemma Ok.ending_append (h : v.Ok) (ha : Appends v v' es)
    (hopen : v.session.state ≠ .closed) (hes : ∀ e ∈ es, e.type ≠ .sessionClosed) :
    ∀ e ∈ v'.events, e.type ≠ .sessionClosed := by
  rw [ha.events]
  intro e he
  rcases mem_append.mp he with he | he
  · exact h.ending hopen e he
  · exact hes e he

lemma Ok.closed_append {last : SessionEvent} (h : v.Ok)
    (ha : Appends v v' (es ++ [last])) (hopen : v.session.state ≠ .closed)
    (hes : ∀ e ∈ es, e.type ≠ .sessionClosed) (hlast : last.type = .sessionClosed) :
    ∃ before last, v'.events = before ++ [last] ∧ last.type = .sessionClosed ∧
      ∀ e ∈ before, e.type ≠ .sessionClosed := by
  refine ⟨v.events ++ es, last, by rw [ha.events, List.append_assoc], hlast, fun e he => ?_⟩
  rcases mem_append.mp he with he | he
  · exact h.ending hopen e he
  · exact hes e he

variable {e : SessionEvent}

section

variable (h : v.Ok)
include h

lemma Ok.submit (ha : Appends v v' [e])
    (htype : e.type = .inputAccepted) (hopen : v.session.state = .opened) (hne : t.id ≠ "")
    (hfresh : ∀ u ∈ v.turns, u.id ≠ t.id) (hqueued : t.state = .queued) (hrun : t.runId = "")
    (hnumber : t.sequence = (v.turns.map sequence).foldl max 0 + 1)
    (hturns : v'.turns = v.turns ++ [t])
    (hsession : v'.session = { v.session with nextSequence := v'.session.nextSequence }) :
    v'.Ok := by
  have hstate : v'.session.state = .opened := by rw [hsession]; exact hopen
  have hactive : v'.session.activeTurnId = v.session.activeTurnId := by rw [hsession]
  have hactiveRun : v'.session.activeRunId = v.session.activeRunId := by rw [hsession]
  have hmem : ∀ u ∈ v'.turns, u ∈ v.turns ∨ u = t := by
    rw [hturns]
    simp
  obtain ⟨hjournal, hnext⟩ := h.journal_append ha
  refine ⟨hjournal, hnext, ?_, ?_, ?_, ?_, ?_, ?_, ?_, ?_, ?_, fun _ => ?_⟩
  · rw [hturns]
    exact h.turns.append (by simp [hnumber, h.lastSequence])
  · intro u hu
    rcases hmem u hu with hu | rfl
    · exact h.ids u hu
    · exact hne
  · rw [hturns, map_append, nodup_append]
    refine ⟨h.distinct, by simp, ?_⟩
    simpa using hfresh
  · intro u hu hua
    rw [hactive]
    rcases hmem u hu with hu | rfl
    · exact h.active u hu hua
    · rw [hqueued] at hua
      exact absurd hua (by decide)
  · rw [hactive, hactiveRun]
    exact h.idle
  · rw [hactive]
    intro hid
    obtain ⟨u, hu⟩ := h.held hid
    exact ⟨u, by rw [hturns]; simp [hu.mem], by rw [hactive]; exact hu.id,
      by rw [hactiveRun]; exact hu.work⟩
  · intro u hu huq
    rcases hmem u hu with hu | rfl
    · exact h.unbound u hu huq
    · exact hrun
  · rw [hstate]
    nofun
  · rw [hstate]
    nofun
  · exact h.ending_append ha (by rw [hopen]; decide) (by simp [htype])

lemma Ok.work (t' : SessionTurn) (ha : Appends v v' [e])
    (htype : e.type ≠ .sessionClosed) (hopen : v.session.state = .opened) (ht : t ∈ v.turns)
    (hid : t'.id = t.id) (hseq : t'.sequence = t.sequence)
    (hturns : v'.turns = v.turns.map (replaceTurn t')) (hstate : v'.session.state = .opened)
    (hactive : v'.session.activeTurnId = t.id)
    (hothers : ∀ u ∈ v.turns, u.id ≠ t.id → u.state.active = false)
    (hwork : (t'.state = .claimed ∧ t'.runId = "" ∧ v'.session.activeRunId = "") ∨
      (t'.state = .running ∧ t'.runId = v'.session.activeRunId ∧ v'.session.activeRunId ≠ "")) :
    v'.Ok := by
  have hmem : ∀ u ∈ v'.turns, u = t' ∨ (u ∈ v.turns ∧ u.id ≠ t.id) := by
    intro u hu
    rw [hturns] at hu
    exact hid ▸ mem_replace hu
  obtain ⟨hjournal, hnext⟩ := h.journal_append ha
  obtain ⟨hconsecutive, hids, hdistinct⟩ := h.alike_replace t' ht hid hseq hturns
  refine ⟨hjournal, hnext, hconsecutive, hids, hdistinct, ?_, ?_, fun _ => ?_, ?_, ?_, ?_,
    fun _ => ?_⟩
  · intro u hu hua
    rcases hmem u hu with rfl | ⟨hu, hne⟩
    · rw [hactive, hid]
    · rw [hothers u hu hne] at hua
      exact absurd hua (by decide)
  · rw [hactive]
    intro hempty
    exact absurd hempty (h.ids t ht)
  · exact ⟨t', hturns ▸ mem_replace_self ht hid, hid.trans hactive.symm, hwork⟩
  · intro u hu huq
    rcases hmem u hu with rfl | ⟨hu, -⟩
    · rcases hwork with hw | hw <;> rw [hw.1] at huq <;> exact absurd huq (by decide)
    · exact h.unbound u hu huq
  · rw [hstate]
    nofun
  · rw [hstate]
    nofun
  · exact h.ending_append ha (by rw [hopen]; decide) (by simpa using htype)

lemma Ok.others (hid : v.session.activeTurnId = t.id) (hu : u ∈ v.turns)
    (hne : u.id ≠ t.id) : u.state.active = false := by
  rw [Bool.eq_false_iff]
  exact fun hua => hne ((h.active u hu hua).trans hid)

lemma Ok.complete {r : Run}
    (ha : Appends v v' (e :: es)) (htype : e.type ≠ .sessionClosed) (ht : t ∈ v.turns)
    (hid : t.id = v.session.activeTurnId) (hrunning : t.state = .running)
    (hturns : v'.turns = v.turns.map (replaceTurn (t.complete r)))
    (hactive : v'.session.activeTurnId = "") (hactiveRun : v'.session.activeRunId = "")
    (hstate : (v.session.state ≠ .closing ∧ v'.session.state = v.session.state ∧ es = []) ∨
      (v.session.state = .closing ∧ v'.session.state = .closed ∧
        ∃ last : SessionEvent, last.type = .sessionClosed ∧ es = [last])) : v'.Ok := by
  have hopen := h.not_closed ht (by rw [hrunning]; rfl)
  have hsettled : (t.complete r).state.settled := by
    show (sessionOutcome r.state).settled
    cases r.state <;> rfl
  have hmem : ∀ u ∈ v'.turns, u = t.complete r ∨ (u ∈ v.turns ∧ u.id ≠ t.id) := by
    intro u hu
    rw [hturns] at hu
    exact mem_replace hu
  have hidle : ∀ u ∈ v'.turns, u.state.active = false := by
    intro u hu
    rcases hmem u hu with rfl | ⟨hu, hne⟩
    · exact (SessionTurnState.settled_iff.mp hsettled).1
    · exact h.others hid.symm hu hne
  obtain ⟨hjournal, hnext⟩ := h.journal_append ha
  obtain ⟨hconsecutive, hids, hdistinct⟩ := h.alike_replace (t.complete r) ht rfl rfl hturns
  refine ⟨hjournal, hnext, hconsecutive, hids, hdistinct, ?_, fun _ => hactiveRun, ?_, ?_, ?_, ?_,
    ?_⟩
  · intro u hu hua
    rw [hidle u hu] at hua
    exact absurd hua (by decide)
  · intro hne
    exact absurd hactive hne
  · intro u hu huq
    rcases hmem u hu with rfl | ⟨hu, -⟩
    · rw [huq] at hsettled
      cases hsettled
    · exact h.unbound u hu huq
  · intro hclosing
    rcases hstate with ⟨hne, hs, -⟩ | ⟨-, hs, -⟩
    · exact absurd (hs ▸ hclosing) hne
    · rw [hs] at hclosing
      cases hclosing
  · intro hclosed
    rcases hstate with ⟨-, hs, -⟩ | ⟨hclosing, -, last, hlast, rfl⟩
    · exact absurd (hs ▸ hclosed) hopen
    refine ⟨hactive, fun u hu => ?_, ?_⟩
    · rcases hmem u hu with rfl | ⟨hu', -⟩
      · exact hsettled
      · exact SessionTurnState.settled_iff.mpr ⟨hidle u hu, (h.closing hclosing).2 u hu'⟩
    · have ha' : Appends v v' ([e] ++ [last]) := ha
      exact h.closed_append ha' hopen (by simpa using htype) hlast
  · intro hne
    rcases hstate with ⟨-, -, rfl⟩ | ⟨-, hs, -⟩
    · exact h.ending_append ha hopen (by simpa using htype)
    · exact absurd hs hne

lemma Ok.closing_step (ha : Appends v v' es)
    (htypes : ∀ e ∈ es, e.type ≠ .sessionClosed) (hopen : v.session.state = .opened)
    (hrun : v.session.activeRunId ≠ "")
    (hturns : v'.turns = v.turns.map fun t =>
      if t.state = .queued then t.cancel
      else if t.id = v.session.activeTurnId then { t with cancellationRequested := true } else t)
    (hsession : v'.session = { v.session with
      state := .closing, nextSequence := v'.session.nextSequence }) : v'.Ok := by
  have hstate : v'.session.state = .closing := by rw [hsession]
  have hactive : v'.session.activeTurnId = v.session.activeTurnId := by rw [hsession]
  have hactiveRun : v'.session.activeRunId = v.session.activeRunId := by rw [hsession]
  -- A turn that is active afterwards was active before, with the same state and run.
  have hmem : ∀ u ∈ v'.turns, u.state ≠ .queued ∧ (u.state.active → ∃ w ∈ v.turns,
      w.id = u.id ∧ w.state = u.state) := by
    rw [hturns]
    intro u hu
    obtain ⟨w, hw, rfl⟩ := mem_map.mp hu
    split
    · exact ⟨by simp [SessionTurn.cancel], fun ha => absurd ha (by simp [SessionTurn.cancel,
        SessionTurnState.active])⟩
    · rename_i hq
      split <;> exact ⟨hq, fun _ => ⟨w, hw, rfl, rfl⟩⟩
  obtain ⟨hjournal, hnext⟩ := h.journal_append ha
  obtain ⟨hconsecutive, hids, hdistinct⟩ := h.alike_map hturns
    (fun t _ => by split <;> [rfl; split <;> rfl]) (fun t _ => by split <;> [rfl; split <;> rfl])
  refine ⟨hjournal, hnext, hconsecutive, hids, hdistinct, ?_, ?_, ?_, ?_, fun _ => ?_, ?_,
    fun _ => ?_⟩
  · intro u hu hua
    obtain ⟨w, hw, hid, hs⟩ := (hmem u hu).2 hua
    rw [hactive, ← hid]
    exact h.active w hw (hs ▸ hua)
  · rw [hactive, hactiveRun]
    exact h.idle
  · rw [hactive]
    intro hid
    obtain ⟨t, ht⟩ := h.held hid
    have hne : t.state ≠ .queued := by
      rcases ht.work with hw | hw <;> rw [hw.1] <;> decide
    refine ⟨{ t with cancellationRequested := true }, ?_, by rw [hactive]; exact ht.id,
      by rw [hactiveRun]; exact ht.work⟩
    rw [hturns]
    exact mem_map.mpr ⟨t, ht.mem, by simp [hne, ht.id]⟩
  · intro u hu huq
    exact absurd huq (hmem u hu).1
  · exact ⟨hactiveRun ▸ hrun, fun u hu => (hmem u hu).1⟩
  · rw [hstate]
    nofun
  · exact h.ending_append ha (by rw [hopen]; decide) htypes

lemma Ok.close {last : SessionEvent}
    (ha : Appends v v' (es ++ [last])) (htypes : ∀ e ∈ es, e.type ≠ .sessionClosed)
    (htype : last.type = .sessionClosed) (hopen : v.session.state = .opened)
    (hidle : v.session.activeRunId = "")
    (hturns : v'.turns = v.turns.map fun t => if t.pending then t.cancel else t)
    (hactive : v'.session.activeTurnId = "") (hactiveRun : v'.session.activeRunId = "")
    (hstate : v'.session.state = .closed) : v'.Ok := by
  -- Without a run no turn runs, so every turn that is not settled is given up.
  have hsettled : ∀ u ∈ v'.turns, u.state.settled := by
    rw [hturns]
    intro u hu
    obtain ⟨w, hw, rfl⟩ := mem_map.mp hu
    split
    · rfl
    rename_i hp
    cases hs : w.state with
    | queued => exact absurd (.inl hs) hp
    | claimed => exact absurd (.inr hs) hp
    | running =>
      rcases (h.holds_of_active hw (by rw [hs]; rfl)).work with hw' | hw'
      · rw [hs] at hw'
        cases hw'.1
      · exact absurd hidle hw'.2.2
    | succeeded | failed | cancelled => rfl
  have hinactive : ∀ u ∈ v'.turns, u.state.active = false ∧ u.state ≠ .queued := fun u hu =>
    SessionTurnState.settled_iff.mp (hsettled u hu)
  obtain ⟨hjournal, hnext⟩ := h.journal_append ha
  obtain ⟨hconsecutive, hids, hdistinct⟩ := h.alike_map hturns
    (fun t _ => by split <;> rfl) (fun t _ => by split <;> rfl)
  refine ⟨hjournal, hnext, hconsecutive, hids, hdistinct, ?_, fun _ => hactiveRun, ?_, ?_, ?_,
    fun _ => ⟨hactive, hsettled, ?_⟩, ?_⟩
  · intro u hu hua
    rw [(hinactive u hu).1] at hua
    cases hua
  · intro hne
    exact absurd hactive hne
  · intro u hu huq
    exact absurd huq (hinactive u hu).2
  · rw [hstate]
    nofun
  · exact h.closed_append ha (by rw [hopen]; decide) htypes htype
  · rw [hstate]
    exact fun hne => absurd rfl hne

/-- **Every transaction keeps the protocol.** -/
lemma Ok.step (hstep : SessionStep k v v') : v'.Ok := by
  cases hstep with
  | submit t e ha htype hopen hfresh hqueued hnumber hturns hsession =>
    exact h.submit ha htype hopen hfresh.1 hfresh.2 hqueued.1 hqueued.2 hnumber hturns hsession
  | claim t owner fence e ha htype hopen ht hfirst hunbound hturns hsession =>
    have hrun : t.runId = "" := by
      rcases hfirst with ⟨-, hq, -⟩ | ⟨-, hc⟩
      · exact h.unbound t ht hq
      · exact hunbound hc
    have hidle : v.session.activeRunId = "" := by
      rcases hfirst with ⟨hnone, -⟩ | ⟨hid, hc⟩
      · exact h.idle hnone
      rcases (h.holds_of_active ht (by rw [hc]; rfl)).work with hw | hw
      · exact hw.2.2
      · rw [hc] at hw
        cases hw.1
    have hothers : ∀ u ∈ v.turns, u.id ≠ t.id → u.state.active = false := by
      intro u hu hne
      rcases hfirst with ⟨hnone, -⟩ | ⟨hid, -⟩
      · rw [Bool.eq_false_iff]
        exact fun hua => h.ids u hu ((h.active u hu hua).trans hnone)
      · exact h.others hid.symm hu hne
    refine h.work (t.claim owner fence) ha (by rw [htype.1]; decide) hopen ht rfl rfl hturns
      ?_ ?_ hothers (.inl ⟨rfl, hrun, ?_⟩) <;> rw [hsession]
    · exact hopen
    · exact hidle
  | bind t runId e ha htype hopen ht hid hclaimed hne hturns hsession =>
    refine h.work (t.bind runId) ha (by rw [htype.1]; decide) hopen ht rfl rfl hturns
      ?_ ?_ (fun u hu => h.others hid.symm hu) (.inr ⟨rfl, ?_, ?_⟩) <;> rw [hsession]
    · exact hopen
    · exact hid.symm
    · rfl
    · exact hne
  | complete t r e es ha htype ht hid hrunning hturns hsession hclosed =>
    refine h.complete ha (SessionEventType.quiet_ne htype).1 ht hid hrunning hturns ?_ ?_
      hclosed <;> rw [hsession]
  | closing es ha htypes hopen hrun hturns hsession =>
    exact h.closing_step ha (fun e he =>
      (SessionEventType.quiet_ne (htypes e he)).1) hopen hrun hturns hsession
  | close es last ha htypes htype hopen hidle hturns hsession =>
    refine h.close ha (fun e he => (SessionEventType.quiet_ne (htypes e he)).1) htype hopen hidle
      hturns ?_ ?_ ?_ <;>
      rw [hsession]

lemma Ok.mem_replace_of_settled (ht : t ∈ v.turns) (hid : t'.id = t.id)
    (hs : t.state.settled = false) (hu : u ∈ v.turns) (hus : u.state.settled) :
    u ∈ v.turns.map (replaceTurn t') := by
  have hne : u.id ≠ t'.id := by
    intro he
    rw [h.eq_of_id ht hu (he.trans hid), hs] at hus
    cases hus
  exact mem_map.mpr ⟨u, hu, if_neg hne⟩

/-- **A settled turn does not change.** -/
lemma Ok.settled_step (hstep : SessionStep k v v') (hu : u ∈ v.turns)
    (hs : u.state.settled) : u ∈ v'.turns := by
  obtain ⟨hinactive, hqueued⟩ := SessionTurnState.settled_iff.mp hs
  cases hstep with
  | submit t e _ _ _ _ _ _ hturns =>
    rw [hturns]
    exact mem_append_left _ hu
  | claim t owner fence e _ _ _ ht hfirst _ hturns =>
    rw [hturns]
    refine h.mem_replace_of_settled ht rfl ?_ hu hs
    rcases hfirst with ⟨-, hq, -⟩ | ⟨-, hc⟩
    · rw [hq]; rfl
    · rw [hc]; rfl
  | bind t runId e _ _ _ ht _ hclaimed _ hturns =>
    rw [hturns]
    exact h.mem_replace_of_settled ht rfl (by rw [hclaimed]; rfl) hu hs
  | complete t r e es _ _ ht _ hrunning hturns =>
    rw [hturns]
    exact h.mem_replace_of_settled (t := t) ht rfl (by rw [hrunning]; rfl) hu hs
  | closing es _ _ _ hrun hturns =>
    rw [hturns]
    refine mem_map.mpr ⟨u, hu, ?_⟩
    -- The active turn runs, so a settled turn is another one.
    have hne : u.id ≠ v.session.activeTurnId := by
      intro hid
      obtain ⟨t, ht⟩ := h.held fun hempty => hrun (h.idle hempty)
      cases h.eq_of_id ht.mem hu (hid.trans ht.id.symm)
      rcases ht.work with hw | hw <;> rw [hw.1] at hs <;> cases hs
    rw [if_neg hqueued, if_neg hne]
  | close es last _ _ _ _ _ hturns =>
  rw [hturns]
  refine mem_map.mpr ⟨u, hu, if_neg ?_⟩
  rintro (hp | hp)
  · exact hqueued hp
  · rw [hp] at hinactive
    cases hinactive

end

end SessionView

end Laso
