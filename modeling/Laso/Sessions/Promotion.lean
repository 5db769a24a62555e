import Laso.Sessions.Continuations
import Laso.Sessions.Dispatch

/-!
# Promotion of provider states

The tables of `continuationMachine` hold what the history of runs says (`Refines`): the row of a
session and a provider is the state in use, and the rows of a run that has not ended are the last
states its completed nodes staged. The two kinds of rows are told apart by their identifiers, so that
a checkpoint of one run does not touch those of another. One lemma for each kind of step shows that
the relation is kept.
-/

namespace Laso

open List Table Option Machine Function

namespace Continuations

open SessionDb

/-! ## The refinement -/

/-- A row of the table: a state of a session, or what a run left under its candidate's
identifier. -/
structure RowOk (pipelineOf : String → SessionPipeline) (db : SessionDb) (c : SessionContinuation) :
    Prop where
  current : c.scope = .current → c.id = sessionContinuationId c.sessionId c.providerId ∧
    c.runId = c.sessionId ∧ (content c).Valid ∧ (db.sessions.get c.sessionId).isSome
  own : c.scope ≠ .current → c.id = runContinuationCandidateId c.runId c.providerId ∧
    (db.snapshots.get c.runId).isSome ∧ c.providerId ∈ (pipelineOf c.runId).providers

/-- What is staged in memory is the state of the provider of the node whose attempts are made. -/
structure ExecutorOk (pipelineOf : String → SessionPipeline) (e : Executor) : Prop where
  staged : ∀ c ∈ e.byProvider.rows, c.Valid ∧ ∃ id node version, e.node = some id ∧
    (pipelineOf e.runId).node id = some node ∧ node.provider = some (c.providerId, version)
  returned : ∀ l, e.returned = some l → e.byProvider.rows = l

/-- The tables hold what the history of runs says. -/
structure Refines (pipelineOf : String → SessionPipeline) (s : System) : Prop where
  ok : s.db.Ok
  rows : ∀ c ∈ s.db.continuations.rows, RowOk pipelineOf s.db c
  distinct : ∀ id, (s.db.snapshots.get id).isSome → s.db.sessions.get id = none
  snapshots : ∀ id snap, s.db.snapshots.get id = some snap → SnapshotOk snap
  unbound : ∀ id, s.db.snapshots.get id = none → s.staged id = []
  valid : ∀ id, ∀ c ∈ s.staged id, c.Valid
  executors : ∀ thread, ExecutorOk pipelineOf (s.executors thread)
  /-- A run that has not ended has a candidate for each provider it staged a state for. -/
  candidates : ∀ id snap, s.db.snapshots.get id = some snap → Running s.db id snap.sessionTurnId →
    ∀ p, s.db.continuations.get (runContinuationCandidateId id p) =
      (lastFor (s.staged id) p).map (candidate id snap.sessionId snap.sessionTurnId)
  /-- The states of a session are those in use. -/
  current : ∀ sid p, (s.db.continuations.get (sessionContinuationId sid p)).map content =
    inUse s.past sid p

/-- The row a checkpoint of the run writes for what a node staged. -/
abbrev candidateOf (r : Run) : OpaqueContinuation → SessionContinuation :=
  candidate r.id r.sessionId r.sessionTurnId

variable {codec : SessionCodec} {coordination : Bool} {db db' : SessionDb} {r : Run} {now : Nat}
  {type : String} {records : List Record} {ids : Nat → String}
  {pipelineOf : String → SessionPipeline} {s s' : System} {sid p : String}

lemma refines_start : Refines pipelineOf {} where
  ok := ok_empty
  rows := nofun
  distinct := fun _ h => by cases h
  snapshots := fun _ _ h => by cases h
  unbound := fun _ _ => rfl
  valid := fun _ _ h => by cases h
  executors := fun _ => ⟨nofun, nofun⟩
  candidates := fun _ _ h => by cases h
  current := fun _ _ => rfl

variable {generate : Option OpaqueContinuation → Option OpaqueContinuation}
  {new : List OpaqueContinuation} {snap : RunContextSnapshot} {node : SessionNode} {id : String}
  {c : SessionContinuation}

section

variable (h : Refines pipelineOf s)
include h

lemma Refines.valid_append (hnew : ∀ c ∈ new, c.Valid) : ∀ c ∈ s.staged id ++ new, c.Valid := by
  intro c hc
  rcases mem_append.mp hc with hc | hc
  · exact h.valid id c hc
  · exact hnew c hc

lemma Refines.mem_current (hc : c ∈ s.db.continuations.rows) (hscope : c.scope = .current) :
    s.db.continuations.get (sessionContinuationId c.sessionId c.providerId) = some c := by
  rw [← ((h.rows c hc).current hscope).1]
  exact mem_rows_iff.mp hc

lemma Refines.scope_current (hc : s.db.continuations.get (sessionContinuationId sid p) = some c) :
    c.scope = .current ∧ c.sessionId = sid ∧ c.providerId = p := by
  have hrow := h.rows c (mem_of_get hc)
  have hscope : c.scope = .current := by
    by_contra hne
    exact sessionContinuationId_ne ((key_of_get hc).symm.trans (hrow.own hne).1)
  exact ⟨hscope, sessionContinuationId_inj ((hrow.current hscope).1.symm.trans (key_of_get hc))⟩

lemma Refines.own_row (hc : s.db.continuations.get (runContinuationCandidateId id p) = some c) :
    c.scope ≠ .current ∧ c.runId = id ∧ c.providerId = p := by
  have hrow := h.rows c (mem_of_get hc)
  have hscope : c.scope ≠ .current := by
    intro hcurrent
    exact sessionContinuationId_ne ((hrow.current hcurrent).1.symm.trans (key_of_get hc))
  exact ⟨hscope, runContinuationCandidateId_inj ((hrow.own hscope).1.symm.trans (key_of_get hc))⟩

end

lemma lookup_map {α β : Type} {l : List α} {key : α → String} {value : α → β} {o : Option α}
    (h : ∀ a ∈ l, key a = p → o = some a) (hmem : ∀ a ∈ o, a ∈ l ∧ key a = p) :
    (l.map fun a => (key a, value a)).lookup p = o.map value := by
  induction l with
  | nil =>
    cases o with
    | none => rfl
    | some a => exact absurd (hmem a rfl).1 not_mem_nil
  | cons a l ih =>
    rw [map_cons, lookup_cons]
    by_cases hkey : key a = p
    · rw [h a mem_cons_self hkey, hkey]
      simp
    have hbeq : (p == key a) = false := beq_eq_false_iff_ne.mpr fun he => hkey he.symm
    rw [hbeq]
    refine ih (fun b hb => h b (mem_cons_of_mem _ hb)) fun b hb => ?_
    obtain ⟨hmem, hb'⟩ := hmem b hb
    rcases mem_cons.mp hmem with rfl | hmem
    · exact absurd hb' hkey
    · exact ⟨hmem, hb'⟩

/-- **What a new run gets** is what is in use. -/
lemma Refines.lookup_current (h : Refines pipelineOf s) : (s.db.currentContinuations sid).lookup p =
      (inUse s.past sid p).map fun c => (c.providerVersion, c.state) := by
  rw [← h.current, Option.map_map]
  refine lookup_map (fun c hc hp => ?_) fun c hc => ?_
  · obtain ⟨hrow, hfields⟩ := mem_filter.mp hc
    obtain ⟨-, hscope, hsession, -⟩ := of_decide_eq_true hfields
    rw [← hp, ← hsession]
    exact h.mem_current hrow hscope
  · obtain ⟨hscope, hsession, hp⟩ := h.scope_current hc
    obtain ⟨-, hrun, hvalid, -⟩ := (h.rows c (mem_of_get hc)).current hscope
    refine ⟨mem_filter.mpr ⟨mem_of_get hc, decide_eq_true ?_⟩, hp⟩
    exact ⟨hrun.trans hsession, hscope, hsession, hvalid.1, hvalid.2.1, hvalid.2.2.1⟩

/-! ## Clients and dispatchers -/

/-- What the transactions of clients and dispatchers do as far as states of providers are
concerned: they may add snapshots. -/
structure Grows (db db' : SessionDb) : Prop where
  ok : db'.Ok
  continuations : db'.continuations = db.continuations
  sessions : ∀ id, (db.sessions.get id).isSome → (db'.sessions.get id).isSome
  distinct : ∀ id, (db'.snapshots.get id).isSome → db'.sessions.get id = none
  snapshots : ∀ id, db'.snapshots.get id = db.snapshots.get id ∨ db.snapshots.get id = none ∧
    ∀ snap, db'.snapshots.get id = some snap → SnapshotOk snap
  running : ∀ id snap, db.snapshots.get id = some snap → Running db' id snap.sessionTurnId →
    Running db id snap.sessionTurnId

lemma Refines.none_of_unbound (h : Refines pipelineOf s) (hid : s.db.snapshots.get id = none) :
    s.db.continuations.get (runContinuationCandidateId id p) = none := by
  rw [eq_none_iff_forall_ne_some]
  intro c hc
  obtain ⟨hscope, hrun, -⟩ := h.own_row hc
  have hbound := ((h.rows c (mem_of_get hc)).own hscope).2.1
  rw [hrun, hid] at hbound
  cases hbound

lemma Refines.grows (h : Refines pipelineOf s) (hg : Grows s.db db) :
    Refines pipelineOf { s with db } where
  ok := hg.ok
  rows := by
    rw [hg.continuations]
    intro c hc
    obtain ⟨hcurrent, hown⟩ := h.rows c hc
    refine ⟨fun hscope => ?_, fun hscope => ?_⟩
    · obtain ⟨hid, hrun, hvalid, hsession⟩ := hcurrent hscope
      exact ⟨hid, hrun, hvalid, hg.sessions _ hsession⟩
    obtain ⟨hid, hbound, hprovider⟩ := hown hscope
    refine ⟨hid, ?_, hprovider⟩
    rcases hg.snapshots c.runId with heq | ⟨hnone, -⟩
    · exact heq.symm ▸ hbound
    · rw [hnone] at hbound
      cases hbound
  distinct := hg.distinct
  snapshots id snap hsnap := by
    rcases hg.snapshots id with heq | ⟨-, hnew⟩
    · exact h.snapshots id snap (heq ▸ hsnap)
    · exact hnew snap hsnap
  unbound id hid := by
    refine h.unbound id ?_
    rcases hg.snapshots id with heq | ⟨hnone, -⟩
    · exact heq ▸ hid
    · exact hnone
  valid := h.valid
  executors := h.executors
  candidates id snap hsnap hrunning q := by
    rw [hg.continuations]
    rcases hg.snapshots id with heq | ⟨hnone, -⟩
    · have hsnap' : s.db.snapshots.get id = some snap := heq ▸ hsnap
      exact h.candidates id snap hsnap' (hg.running id snap hsnap' hrunning) q
    rw [h.none_of_unbound hnone]
    rw [h.unbound id hnone]
    rfl
  current sid q := by
    rw [hg.continuations]
    exact h.current sid q

variable {byProvider byProvider' : Table OpaqueContinuation} {l : List OpaqueContinuation}
  {k : StepKind} {e : Executor}

section

variable (h : Refines pipelineOf s)
include h

lemma Refines.distinct_effect (heffect : SessionDb.Effect k s.db db)
    (hsnapshots : db.snapshots = s.db.snapshots) (id : String)
    (hid : (db.snapshots.get id).isSome) : db.sessions.get id = none := by
  rw [hsnapshots] at hid
  have hnone := h.distinct id hid
  have hsome := sessions_of_effect heffect id
  rwa [hnone, isSome_none, isSome_eq_false_iff, isNone_iff_eq_none] at hsome

lemma Refines.grows_effect (heffect : SessionDb.Effect k s.db db)
    (hk : k ≠ .bind) (hsnapshots : db.snapshots = s.db.snapshots)
    (hcontinuations : db.continuations = s.db.continuations) : Grows s.db db where
  ok := h.ok.effect heffect
  continuations := hcontinuations
  sessions id hid := (sessions_of_effect heffect id).trans hid
  distinct := h.distinct_effect heffect hsnapshots
  snapshots id := .inl (by rw [hsnapshots])
  running id snap _ hrunning := running_of_effect heffect hk hrunning

lemma Refines.settle {α : Type} {x : Except Error (α × SessionDb)}
    (hx : ∀ a db', x = .ok (a, db') → Grows s.db db') :
    Refines pipelineOf { s with db := s.db.settle x } := by
  cases x with
  | ok y => exact h.grows (hx y.1 y.2 rfl)
  | error e => exact h

lemma Refines.create {id pipelineId : String} (hfree : s.db.snapshots.get id = none)
    (hcreate : s.db.create id pipelineId = some db) :
    Grows s.db db := by
  have hok := (h.ok.create hcreate).1
  obtain ⟨-, rfl, hothers⟩ := create_cases hcreate
  refine ⟨hok, rfl, fun other hother => ?_, fun other hother => ?_, fun _ => .inl rfl,
    fun _ _ _ hrunning => hrunning⟩
  · by_cases hid : other = id
    · subst hid
      have hget : (s.db.sessions.put { id := other, pipelineId }).get other = some _ :=
        get_put_self _ _
      exact hget ▸ rfl
    · exact (hothers other hid).session ▸ hother
  have hne : other ≠ id := by
    rintro rfl
    have hsome : (s.db.snapshots.get other).isSome := hother
    rw [hfree] at hsome
    cases hsome
  exact (hothers other hne).session.trans (h.distinct other hother)

lemma Refines.bind {token : Nat} {id turnId owner : String} {runEvent : Event} {new : Bool}
    (hfree : s.db.sessions.get r.id = none)
    (hbind : s.db.bindSessionTurnRun codec now id turnId r runEvent owner token ids =
      .ok (new, db)) : Grows s.db db := by
  cases new with
  | false =>
    obtain ⟨_, _, -, -, ⟨-, rfl⟩ | ⟨hnew, -⟩⟩ := bindSessionTurnRun_cases hbind
    · exact h.grows_effect (k := .submit) (SessionDb.Effect.refl _) nofun rfl rfl
    · cases hnew
  | true =>
  have heffect := bindSessionTurnRun_effect hbind
  obtain ⟨snap, hnone, hrun, hsid, hne, hstates, hsnapshots, hcontinuations⟩ := bind_captures hbind
  obtain ⟨_, t, -, -, ⟨hnew, -⟩ | ⟨-, -, -, core, snapshots, rfl⟩⟩ := bindSessionTurnRun_cases hbind
  · cases hnew
  have hget : ∀ other, snapshots.get other =
      if r.id = other then some snap else s.db.snapshots.get other := by
    intro other
    have hput := get_put s.db.snapshots snap other
    rw [← hsnapshots, show Keyed.key snap = r.id from hrun] at hput
    exact hput
  refine ⟨h.ok.effect heffect, hcontinuations,
    fun other hother => (sessions_of_effect heffect other).trans hother, fun other hother => ?_,
    fun other => ?_, fun other snap' hsnap' hrunning => ?_⟩
  · have hsome := sessions_of_effect heffect other
    have hbefore : s.db.sessions.get other = none := by
      have hother' : (snapshots.get other).isSome := hother
      rw [hget other] at hother'
      split at hother'
      · rename_i heq
        exact heq ▸ hfree
      · exact h.distinct other hother'
    rwa [hbefore, isSome_none, isSome_eq_false_iff, isNone_iff_eq_none]
      at hsome
  · show snapshots.get other = _ ∨ _ ∧ ∀ snap', snapshots.get other = some snap' → _
    rw [hget other]
    split
    · rename_i heq
      subst heq
      refine .inr ⟨hnone, fun snap' hsnap' => ?_⟩
      cases hsnap'
      refine ⟨hsid ▸ hne, fun q version state hlookup => ?_⟩
      rw [hstates, h.lookup_current, map_eq_some_iff] at hlookup
      obtain ⟨c, hc, heq⟩ := hlookup
      cases heq
      rw [← h.current, map_eq_some_iff] at hc
      obtain ⟨row, hrow, rfl⟩ := hc
      obtain ⟨hscope, -, rfl⟩ := h.scope_current hrow
      exact ((h.rows row (mem_of_get hrow)).current hscope).2.2.1
    · exact .inl rfl
  -- the turn that runs now is the one that was bound, or ran before
  obtain ⟨u, hu, hstate, hurun⟩ := running_iff.mp hrunning
  have hu' : (s.db.turns.put (t.bind r.id)).get snap'.sessionTurnId = some u := hu
  rw [get_put] at hu'
  split at hu'
  · cases hu'
    have heq : r.id = other := hurun
    rw [← heq, hnone] at hsnap'
    cases hsnap'
  · exact running_iff.mpr ⟨u, hu', hstate, hurun⟩

/-- **Clients and dispatchers keep the refinement.** -/
lemma Refines.client {call : SessionCall} (hcall : clientCall codec s.db call = some db) :
    Refines pipelineOf { s with db } := by
  cases call with
  | create id pipelineId =>
    simp only [clientCall] at hcall
    split at hcall
    · cases hcall
    · rename_i hfree
      exact h.grows (h.create (by simpa using hfree) hcall)
  | submit id turnId key input pipelineId ids =>
    cases hcall
    refine h.settle fun _ db' hsubmit => ?_
    have huntouched := submitSessionTurn_untouched hsubmit
    exact h.grows_effect (submitSessionTurn_effect hsubmit) nofun huntouched.snapshots
      huntouched.continuations
  | claim now id owner token expiry ids =>
    cases hcall
    refine h.settle fun _ db' hclaim => ?_
    have huntouched := claimNextSessionTurn_untouched hclaim
    exact h.grows_effect (claimNextSessionTurn_effect h.ok hclaim) nofun huntouched.snapshots
      huntouched.continuations
  | bind now id turnId r runEvent owner token ids =>
    simp only [clientCall] at hcall
    split at hcall
    · cases hcall
    rename_i hfree
    cases hcall
    exact h.settle fun new db' hbind => h.bind (by simpa using hfree) hbind
  | complete now records owner token ids => cases hcall
  | close id ids =>
    cases hcall
    refine h.settle fun _ db' hclose => ?_
    have huntouched := closeAgentSession_untouched hclose
    exact h.grows_effect (closeAgentSession_effect (fun s hs => h.ok.draft hs) hclose) nofun
      huntouched.snapshots huntouched.continuations
  | other core generations snapshots continuations =>
    cases hcall
    exact h.grows (h.grows_effect (k := .submit) (.inl fun _ => ⟨rfl, rfl, rfl⟩) nofun rfl rfl)

end

/-! ## Attempts -/

lemma converse_eq_ok {incompatible invalid provider version : String}
    (h : converse db r incompatible invalid provider version generate byProvider =
      .ok (l, byProvider')) :
    ∃ c, l = [c] ∧ byProvider' = byProvider.put c ∧ c.Valid ∧ c.providerId = provider := by
  simp only [converse, bind_eq_ok] at h
  obtain ⟨prior, -, _, -, h⟩ := h
  split at h
  · cases h
  rename_i c _
  simp only [stageProviderContinuation, bind_eq_ok, require_eq_ok, pure_eq_ok, Prod.mk.injEq] at h
  obtain ⟨_, ⟨-, -, hprovider, -⟩, _, ⟨_, hvalid, rfl⟩, rfl, rfl⟩ := h
  exact ⟨c, rfl, rfl, ⟨hvalid.1, hvalid.2.2.1, hvalid.2.2.2.2⟩, hprovider⟩

/-- A successful attempt stages the state of the provider of its node, or the node has none. -/
lemma executeNode_eq_ok (h : executeNode db r node generate byProvider = .ok (l, byProvider')) :
    (l = [] ∧ byProvider' = byProvider ∧ node.provider = none) ∨
      ∃ c version, l = [c] ∧ byProvider' = byProvider.put c ∧ c.Valid ∧
        node.provider = some (c.providerId, version) := by
  cases node with
  | stateless =>
    simp only [executeNode, bind_eq_ok, pure_eq_ok, Prod.mk.injEq] at h
    obtain ⟨_, -, rfl, rfl⟩ := h
    exact .inl ⟨rfl, rfl, rfl⟩
  | agent provider version =>
    obtain ⟨c, rfl, rfl, hvalid, rfl⟩ := converse_eq_ok h
    exact .inr ⟨c, version, rfl, rfl, hvalid, rfl⟩
  | worker provider version =>
    obtain ⟨c, rfl, rfl, hvalid, rfl⟩ := converse_eq_ok h
    exact .inr ⟨c, version, rfl, rfl, hvalid, rfl⟩
  | unsupported message => cases h
  | other =>
    cases h
    exact .inl ⟨rfl, rfl, rfl⟩

section

variable (h : ExecutorOk pipelineOf e) (hnode : (pipelineOf e.runId).node id = some node)
  (hid : e.node = none ∨ e.node = some id)
include h hnode hid

lemma ExecutorOk.provider {c : OpaqueContinuation}
    (hc : c ∈ e.byProvider.rows) :
    e.node = some id ∧ ∃ version, node.provider = some (c.providerId, version) := by
  obtain ⟨-, id', node', version, he, hnode', hprovider⟩ := h.staged c hc
  rcases hid with hnone | hsome
  · rw [hnone] at he
    cases he
  rw [hsome] at he
  cases he
  rw [hnode] at hnode'
  cases hnode'
  exact ⟨hsome, version, hprovider⟩

lemma ExecutorOk.attempt :
    ExecutorOk pipelineOf (match executeNode db r node generate e.byProvider with
      | .ok (returned, byProvider) =>
        { e with node := some id, byProvider, returned := some returned }
      | .error _ => { e with node := some id, returned := none }) := by
  have hkept : ∀ c ∈ e.byProvider.rows, c.Valid ∧ ∃ id' node' version, some id = some id' ∧
      (pipelineOf e.runId).node id' = some node' ∧
      node'.provider = some (c.providerId, version) := by
    intro c hc
    obtain ⟨-, version, hprovider⟩ := h.provider hnode hid hc
    exact ⟨(h.staged c hc).1, id, node, version, rfl, hnode, hprovider⟩
  cases hresult : executeNode db r node generate e.byProvider with
  | error err => exact ⟨hkept, nofun⟩
  | ok x =>
  obtain ⟨l, byProvider⟩ := x
  rcases executeNode_eq_ok hresult with ⟨rfl, rfl, hnone⟩ | ⟨c, version, rfl, rfl, hvalid, hprovider⟩
  · refine ⟨hkept, fun l hl => ?_⟩
    cases hl
    rw [eq_nil_iff_forall_not_mem]
    intro c hc
    obtain ⟨-, version, hprovider⟩ := h.provider hnode hid hc
    rw [hnone] at hprovider
    cases hprovider
  -- an earlier attempt of the node staged for the same provider
  have hrows : (e.byProvider.put c).rows = [c] := by
    refine rows_put_of_keys fun b hb => ?_
    obtain ⟨-, version', hprovider'⟩ := h.provider hnode hid hb
    rw [hprovider] at hprovider'
    exact (Prod.mk.inj (Option.some.inj hprovider')).1.symm
  refine ⟨fun b hb => ?_, fun l hl => ?_⟩
  · have hb' : b ∈ (e.byProvider.put c).rows := hb
    rw [hrows, mem_singleton] at hb'
    subst hb'
    exact ⟨hvalid, id, node, version, rfl, hnode, hprovider⟩
  · cases hl
    exact hrows

end

lemma SessionPipeline.mem_providers {pl : SessionPipeline} {id provider version : String}
    (hnode : pl.node id = some node)
    (hprovider : node.provider = some (provider, version)) : provider ∈ pl.providers := by
  obtain ⟨entry, hentry, rfl⟩ := map_eq_some_iff.mp hnode
  refine mem_filterMap.mpr ⟨entry, mem_of_find?_eq_some hentry, ?_⟩
  rw [hprovider]
  rfl

/-! ## Candidates -/

lemma Refines.listed (h : Refines pipelineOf s) (hbound : (s.db.snapshots.get id).isSome) :
    (s.db.continuations.rows.filter fun c => c.runId = id).take 10000 =
      s.db.continuations.rows.filter fun c => c.runId = id := by
  refine take_of_length_le ?_
  have hown : ∀ c ∈ s.db.continuations.rows.filter fun c => c.runId = id,
      c.id = runContinuationCandidateId id c.providerId ∧
        c.providerId ∈ (pipelineOf id).providers := by
    intro c hc
    obtain ⟨hrow, hrun⟩ := mem_filter.mp hc
    have hrun : c.runId = id := of_decide_eq_true hrun
    have hscope : c.scope ≠ .current := by
      intro hcurrent
      obtain ⟨-, hsession, -, hsome⟩ := (h.rows c hrow).current hcurrent
      rw [← hsession, hrun, h.distinct id hbound] at hsome
      cases hsome
    obtain ⟨hid, -, hprovider⟩ := (h.rows c hrow).own hscope
    exact ⟨hrun ▸ hid, hrun ▸ hprovider⟩
  have hnodup : ((s.db.continuations.rows.filter fun c => c.runId = id).map
      SessionContinuation.providerId).Nodup := by
    refine List.Nodup.of_map (runContinuationCandidateId id) ?_
    have hids : ((s.db.continuations.rows.filter fun c => c.runId = id).map
        SessionContinuation.id).Nodup :=
      s.db.continuations.nodup.sublist (filter_sublist.map _)
    rw [List.map_map]
    rwa [map_congr_left fun c hc => (hown c hc).1] at hids
  have hsub : ((s.db.continuations.rows.filter fun c => c.runId = id).map
      SessionContinuation.providerId) ⊆ (pipelineOf id).providers := by
    intro q hq
    obtain ⟨c, hc, rfl⟩ := mem_map.mp hq
    exact (hown c hc).2
  have hle := (hnodup.subperm hsub).length_le
  have hproviders : (pipelineOf id).providers.length ≤ (pipelineOf id).nodes.length :=
    length_filterMap_le _ _
  have hsmall := (pipelineOf id).small
  rw [length_map] at hle
  omega

lemma foldlM_collect {l collected acc : List SessionContinuation}
    (h : l.foldlM (collect r) acc = .ok collected) :
    collected = (l.filter fun c => c.scope = .candidate).foldl
        (upsert SessionContinuation.providerId) acc ∧
      ∀ c ∈ l, c.scope = .candidate →
        (c.sessionId = r.sessionId ∧ c.runId = r.id) ∧ (content c).Valid := by
  induction l generalizing acc with
  | nil =>
    cases h
    exact ⟨rfl, nofun⟩
  | cons c l ih =>
    obtain ⟨acc', hcollect, h⟩ := bind_eq_ok.mp h
    obtain ⟨hrest, hvalid⟩ := ih h
    unfold collect at hcollect
    split at hcollect
    · rename_i hscope
      cases hcollect
      rw [filter_cons_of_neg (by simpa using hscope)]
      refine ⟨hrest, fun c' hc' hscope' => ?_⟩
      rcases mem_cons.mp hc' with rfl | hc'
      · exact absurd hscope' hscope
      · exact hvalid c' hc' hscope'
    rename_i hscope
    simp only [bind_eq_ok, require_eq_ok, pure_eq_ok] at hcollect
    obtain ⟨_, ⟨hsession, hrun, -⟩, _, hfields, rfl⟩ := hcollect
    rw [filter_cons_of_pos (by simpa using hscope)]
    refine ⟨hrest, fun c' hc' hscope' => ?_⟩
    rcases mem_cons.mp hc' with rfl | hc'
    · exact ⟨⟨hsession, hrun⟩, hfields⟩
    · exact hvalid c' hc' hscope'

lemma mem_of_foldl_upsert {α : Type} {key : α → String} {l acc : List α} {a : α}
    (h : a ∈ l.foldl (upsert key) acc) : a ∈ l ∨ a ∈ acc := by
  induction l generalizing acc with
  | nil => exact .inr h
  | cons b l ih =>
    rcases ih h with h | h
    · exact .inl (mem_cons_of_mem _ h)
    rcases mem_append.mp h with h | h
    · exact .inr (mem_of_mem_filter h)
    · exact .inl (mem_singleton.mp h ▸ mem_cons_self)

/-- A list in which everything equals `o`. -/
lemma getLast?_eq_of_forall {α : Type} {l : List α} {o : Option α} (h : ∀ a ∈ l, o = some a)
    (hmem : ∀ a ∈ o, a ∈ l) : l.getLast? = o := by
  cases hlast : l.getLast? with
  | none =>
    rw [getLast?_eq_none_iff] at hlast
    subst hlast
    cases o with
    | none => rfl
    | some a => exact absurd (hmem a rfl) not_mem_nil
  | some a => exact (h a (mem_of_getLast? hlast)).symm

/-! ## Checkpoints -/

/-- What is needed of the rows a checkpoint of `r` writes. -/
lemma Refines.put {cs : List SessionContinuation} {staged : List OpaqueContinuation}
    {past : List Ended} (h : Refines pipelineOf s) (heffect : SessionDb.Effect k s.db db)
    (hk : k ≠ .bind) (hsnapshots : db.snapshots = s.db.snapshots)
    (hcontinuations : db.continuations = cs.foldl Table.put s.db.continuations)
    (hbound : (s.db.snapshots.get r.id).isSome)
    (hrows : ∀ c ∈ cs, RowOk pipelineOf s.db c ∧ (c.scope ≠ .current → c.runId = r.id))
    (hvalid : ∀ c ∈ staged, c.Valid)
    (hcandidates : ∀ snap, s.db.snapshots.get r.id = some snap →
      Running db r.id snap.sessionTurnId → ∀ p,
        db.continuations.get (runContinuationCandidateId r.id p) =
          (lastFor staged p).map (candidate r.id snap.sessionId snap.sessionTurnId))
    (hcurrent : ∀ sid p, (db.continuations.get (sessionContinuationId sid p)).map content =
      inUse past sid p) :
    Refines pipelineOf
      { s with db, staged := Function.update s.staged r.id staged, past } where
  ok := h.ok.effect heffect
  rows c hc := by
    have hrow : RowOk pipelineOf s.db c := by
      have hc' : c ∈ db.continuations.rows := hc
      rw [hcontinuations] at hc'
      rcases mem_rows_foldl_put hc' with hc' | hc'
      · exact (hrows c hc').1
      · exact h.rows c hc'
    refine ⟨fun hscope => ?_, fun hscope => ?_⟩
    · obtain ⟨hid, hrun, hfields, hsession⟩ := hrow.current hscope
      exact ⟨hid, hrun, hfields, (sessions_of_effect heffect _).trans hsession⟩
    · obtain ⟨hid, hsnap, hprovider⟩ := hrow.own hscope
      exact ⟨hid, hsnapshots.symm ▸ hsnap, hprovider⟩
  distinct := h.distinct_effect heffect hsnapshots
  snapshots id snap hsnap := h.snapshots id snap (hsnapshots ▸ hsnap)
  unbound id hid := by
    have hid' : s.db.snapshots.get id = none := hsnapshots ▸ hid
    have hne : id ≠ r.id := by
      rintro rfl
      rw [hid'] at hbound
      cases hbound
    show Function.update s.staged r.id staged id = []
    rw [update_of_ne hne]
    exact h.unbound id hid'
  valid id c hc := by
    have hc' : c ∈ Function.update s.staged r.id staged id := hc
    by_cases hid : id = r.id
    · subst hid
      rw [update_self] at hc'
      exact hvalid c hc'
    · rw [update_of_ne hid] at hc'
      exact h.valid id c hc'
  executors := h.executors
  candidates id snap hsnap hrunning q := by
    have hsnap' : s.db.snapshots.get id = some snap := hsnapshots ▸ hsnap
    show db.continuations.get _ = (lastFor (Function.update s.staged r.id staged id) q).map _
    by_cases hid : id = r.id
    · subst hid
      rw [update_self]
      exact hcandidates snap hsnap' hrunning q
    -- no row under an identifier of another run is written
    have hnone : (cs.filter fun c => Keyed.key c = runContinuationCandidateId id q) = [] := by
      rw [filter_eq_nil_iff]
      intro c hc hkey
      obtain ⟨hrow, hrun⟩ := hrows c hc
      by_cases hscope : c.scope = .current
      · exact sessionContinuationId_ne ((hrow.current hscope).1.symm.trans (of_decide_eq_true hkey))
      · have hsame := (runContinuationCandidateId_inj
          ((hrow.own hscope).1.symm.trans (of_decide_eq_true hkey))).1
        exact hid (hsame.symm.trans (hrun hscope))
    rw [update_of_ne hid, hcontinuations, get_foldl_put, hnone]
    exact h.candidates id snap hsnap' (running_of_effect heffect hk hrunning) q
  current := hcurrent

lemma filter_settled (collected : List SessionContinuation) :
    ((settled r collected).filter fun c => Keyed.key c = sessionContinuationId sid p) =
      if r.state = .completed ∧ r.sessionId = sid then
        (collected.filter fun c => c.providerId = p).map (promoted r)
      else [] := by
  have hdiscarded : ∀ c, (discarded r c).id ≠ sessionContinuationId sid p :=
    fun c he => sessionContinuationId_ne he.symm
  have hpromoted : ∀ c, (promoted r c).id = sessionContinuationId sid p ↔
      r.sessionId = sid ∧ c.providerId = p := by
    intro c
    refine ⟨sessionContinuationId_inj, ?_⟩
    rintro ⟨rfl, rfl⟩
    rfl
  induction collected with
  | nil => simp [settled]
  | cons c collected ih =>
    rw [settled, flatMap_cons, filter_append]
    rw [settled] at ih
    rw [ih]
    by_cases hstate : r.state = .completed
    · by_cases hsession : r.sessionId = sid
      · by_cases hp : c.providerId = p <;>
          simp [hstate, hsession, hp, hdiscarded, hpromoted, Keyed.key]
      · simp [hstate, hsession, hdiscarded, hpromoted, Keyed.key]
    · simp [hstate, hdiscarded, Keyed.key]

section Bound

variable (h : Refines pipelineOf s) (hsnap : s.db.snapshots.get r.id = some snap)
  (hsession : snap.sessionId = r.sessionId) (hturn : snap.sessionTurnId = r.sessionTurnId)
include h hsnap hsession hturn

/-- **The candidates of a run that has not ended** are the last states its nodes staged. -/
lemma Refines.last_candidate (hrunning : Running s.db r.id r.sessionTurnId)
    (new : List OpaqueContinuation) :
    ((((s.db.continuations.rows.filter fun c => c.runId = r.id) ++
        new.map (candidateOf r)).filter fun c =>
          c.scope = .candidate).filter fun c => c.providerId = p).getLast? =
      (lastFor (s.staged r.id ++ new) p).map (candidateOf r) := by
  have hrow := h.candidates r.id snap hsnap (hturn.symm ▸ hrunning) p
  rw [hsession, hturn] at hrow
  have hstored : (((s.db.continuations.rows.filter fun c => c.runId = r.id).filter fun c =>
      c.scope = .candidate).filter fun c => c.providerId = p).getLast? =
      s.db.continuations.get (runContinuationCandidateId r.id p) := by
    refine getLast?_eq_of_forall (fun c hc => ?_) fun c hc => ?_
    · simp only [mem_filter, decide_eq_true_eq] at hc
      obtain ⟨⟨⟨hmem, hrun⟩, hscope⟩, hp⟩ := hc
      have hid := ((h.rows c hmem).own (by rw [hscope]; nofun)).1
      rw [hrun, hp] at hid
      rw [← hid]
      exact mem_rows_iff.mp hmem
    · obtain ⟨o, -, rfl⟩ := map_eq_some_iff.mp (hrow.symm.trans hc)
      obtain ⟨-, hrun, hp⟩ := h.own_row hc
      simp only [mem_filter, decide_eq_true_eq]
      exact ⟨⟨⟨mem_of_get hc, hrun⟩, rfl⟩, hp⟩
  have hnew : (((new.map (candidateOf r)).filter fun c =>
      c.scope = .candidate).filter fun c => c.providerId = p).getLast? =
      (lastFor new p).map (candidateOf r) := by
    rw [List.filter_filter, List.filter_map, List.getLast?_map, lastFor]
    have hsame : ∀ c ∈ new, (decide ((candidate r.id r.sessionId r.sessionTurnId c).providerId = p) &&
        decide ((candidate r.id r.sessionId r.sessionTurnId c).scope = .candidate)) =
        decide (c.providerId = p) := fun c _ => Bool.and_true _
    exact congrArg _ (congrArg List.getLast? (List.filter_congr hsame))
  rw [filter_append, filter_append, getLast?_append, hstored, hnew, hrow,
    lastFor_append, map_or]

lemma Refines.ends {collected : List SessionContinuation}
    (heffect : SessionDb.Effect .complete s.db db) (hsnapshots : db.snapshots = s.db.snapshots)
    (hcontinuations : db.continuations = (settled r collected).foldl Table.put s.db.continuations)
    (hrunning : Running s.db r.id r.sessionTurnId) (hended : ¬Running db r.id r.sessionTurnId)
    (hexists : (s.db.sessions.get r.sessionId).isSome)
    (hnew : ∀ c ∈ new, c.Valid ∧ c.providerId ∈ (pipelineOf r.id).providers)
    (hcollected : ((s.db.continuations.rows.filter fun c => c.runId = r.id) ++
      new.map (candidateOf r)).foldlM (collect r) [] =
        .ok collected) :
    Refines pipelineOf
      { s with
        db
        staged := Function.update s.staged r.id (s.staged r.id ++ new)
        past := s.past ++ [⟨r.sessionId, r.id, r.state = .completed, s.staged r.id ++ new⟩] } := by
  have hbound : (s.db.snapshots.get r.id).isSome := by rw [hsnap]; rfl
  obtain ⟨hlast, hfields⟩ := foldlM_collect hcollected
  refine h.put heffect nofun hsnapshots hcontinuations hbound ?_ ?_ ?_ ?_
  · -- the rows of the session and of the run
    intro c hc
    obtain ⟨c₀, hc₀, hc⟩ := mem_flatMap.mp hc
    have hmem : c₀ ∈ ((s.db.continuations.rows.filter fun c => c.runId = r.id) ++
        new.map (candidateOf r)) ∧ c₀.scope = .candidate := by
      rw [hlast] at hc₀
      rcases mem_of_foldl_upsert hc₀ with hc₀ | hc₀
      · exact (mem_filter.mp hc₀).imp_right of_decide_eq_true
      · cases hc₀
    obtain ⟨⟨hsid, hrun⟩, hvalid⟩ := hfields c₀ hmem.1 hmem.2
    have hprovider : c₀.providerId ∈ (pipelineOf r.id).providers := by
      rcases mem_append.mp hmem.1 with hstored | hstored
      · have hown := (h.rows c₀ (mem_of_mem_filter hstored)).own (by rw [hmem.2]; nofun)
        exact hrun ▸ hown.2.2
      · obtain ⟨o, ho, rfl⟩ := mem_map.mp hstored
        exact (hnew o ho).2
    have hpromoted : RowOk pipelineOf s.db (promoted r c₀) :=
      ⟨fun _ => ⟨by rw [show (promoted r c₀).sessionId = r.sessionId from hsid]; rfl, hsid.symm,
        hvalid, hsid.symm ▸ hexists⟩, fun hne => absurd rfl hne⟩
    have hdiscarded : RowOk pipelineOf s.db (discarded r c₀) :=
      ⟨nofun, fun _ => ⟨by rw [show (discarded r c₀).runId = r.id from hrun]; rfl,
        hrun.symm ▸ hbound, hrun.symm ▸ hprovider⟩⟩
    split at hc
    · rcases mem_cons.mp hc with rfl | hc
      · exact ⟨hpromoted, fun hne => absurd rfl hne⟩
      · cases mem_singleton.mp hc
        exact ⟨hdiscarded, fun _ => hrun⟩
    · cases mem_singleton.mp hc
      exact ⟨hdiscarded, fun _ => hrun⟩
  · exact h.valid_append fun c hc => (hnew c hc).1
  · intro snap' hsnap' hrunning'
    rw [hsnap] at hsnap'
    cases hsnap'
    exact absurd (hturn ▸ hrunning') hended
  -- the states of the session
  intro sid q
  rw [hcontinuations, get_foldl_put, filter_settled, inUse_concat, map_or, h.current]
  by_cases hmine : r.state = .completed ∧ r.sessionId = sid
  · rw [if_pos hmine, if_pos ⟨hmine.2, decide_eq_true hmine.1⟩, hlast, filter_foldl_upsert,
      h.last_candidate hsnap hsession hturn hrunning, List.getLast?_map]
    cases lastFor (s.staged r.id ++ new) q <;> rfl
  have hnot : ¬(r.sessionId = sid ∧ decide (r.state = .completed)) :=
    fun he => hmine ⟨of_decide_eq_true he.2, he.1⟩
  rw [if_neg hmine, if_neg hnot]
  rfl

lemma Refines.goes_on (hsame : ∀ id, Same s.db db id)
    (hsnapshots : db.snapshots = s.db.snapshots)
    (hcontinuations : db.continuations =
      (new.map (candidateOf r)).foldl Table.put s.db.continuations)
    (hnew : ∀ c ∈ new, c.Valid ∧ c.providerId ∈ (pipelineOf r.id).providers) :
    Refines pipelineOf
      { s with db, staged := Function.update s.staged r.id (s.staged r.id ++ new) } := by
  have hbound : (s.db.snapshots.get r.id).isSome := by rw [hsnap]; rfl
  have heffect : SessionDb.Effect .submit s.db db := .inl hsame
  have hput : ∀ q, ((new.map (candidateOf r)).filter fun c =>
      Keyed.key c = runContinuationCandidateId r.id q).getLast? =
      (lastFor new q).map (candidateOf r) := by
    intro q
    rw [List.filter_map, List.getLast?_map, lastFor]
    refine congrArg _ (congrArg List.getLast? (List.filter_congr fun c _ => ?_))
    refine decide_eq_decide.mpr ⟨fun he => (runContinuationCandidateId_inj he).2, ?_⟩
    rintro rfl
    rfl
  refine h.put heffect (by simp) hsnapshots hcontinuations hbound ?_ ?_ ?_ ?_
  · intro c hc
    obtain ⟨o, ho, rfl⟩ := mem_map.mp hc
    exact ⟨⟨(by intros; contradiction), fun _ => ⟨rfl, hbound, (hnew o ho).2⟩⟩, fun _ => rfl⟩
  · exact h.valid_append fun c hc => (hnew c hc).1
  · intro snap' hsnap' hrunning q
    rw [hsnap] at hsnap'
    cases hsnap'
    rw [hcontinuations, get_foldl_put, hput, hsession, hturn, lastFor_append, map_or,
      h.candidates r.id snap hsnap (running_of_effect heffect (by simp) hrunning) q, hsession,
      hturn]
  intro sid q
  have hnone : ((new.map (candidateOf r)).filter fun c =>
      Keyed.key c = sessionContinuationId sid q) = [] := by
    rw [filter_eq_nil_iff]
    intro c hc hkey
    obtain ⟨o, -, rfl⟩ := mem_map.mp hc
    exact sessionContinuationId_ne (of_decide_eq_true hkey).symm
  rw [hcontinuations, get_foldl_put, hnone]
  exact h.current sid q

end Bound

lemma continuationsIn_written (records : List Record) (cs : List SessionContinuation)
    (final : List Record) :
    continuationsIn (records.map .record ++ cs.map .continuation ++ final.map .record) = cs := by
  simp [continuationsIn]

/-- **A checkpoint keeps the refinement.** -/
lemma Refines.checkpoint (h : Refines pipelineOf s) (hbound : Bound s.db r records)
    (hnew : ∀ c ∈ new, c.Valid ∧ c.providerId ∈ (pipelineOf r.id).providers) :
    Refines pipelineOf (s.settle r new (checkpoint codec coordination s.db now r type records
      (new.map (candidateOf r)) ids)) := by
  obtain ⟨⟨snap, hsnap, hsession, hturn⟩, hrecords⟩ := by
    simpa [Bound, Option.any_eq_true] using hbound
  have hsid : r.sessionId ≠ "" := hsession ▸ (h.snapshots r.id snap hsnap).session
  have hisSome : (s.db.snapshots.get r.id).isSome := by rw [hsnap]; rfl
  cases hresult : Continuations.checkpoint codec coordination s.db now r type records
      (new.map (candidateOf r)) ids with
  | error e => exact h
  | ok db =>
  simp only [System.settle]
  -- a transaction that only writes the records
  have hgoes : ∀ final : List Record, s.db.writeRecords (records.map .record ++
      (new.map (candidateOf r)).map .continuation ++
      final.map .record) = .ok db → Refines pipelineOf
        { s with db, staged := Function.update s.staged r.id (s.staged r.id ++ new) } := by
    intro final hwrite
    obtain ⟨hturns, hevents, hsessions⟩ := writeRecords_frame hwrite
    have hcontinuations := writeRecords_continuations hwrite
    rw [continuationsIn_written] at hcontinuations
    have hsame : ∀ id, Same s.db db id := fun id =>
      ⟨by rw [hsessions], by rw [turnsOf, turnsOf, hturns], by rw [eventsOf, eventsOf, hevents]⟩
    exact h.goes_on hsnap hsession hturn hsame (writeRecords_contexts hwrite).2 hcontinuations hnew
  unfold Continuations.checkpoint at hresult
  by_cases hterminal : terminal r.state
  · rw [if_pos ⟨hsid, hterminal⟩, h.listed hisSome] at hresult
    obtain ⟨collected, hcollected, hcommit⟩ := bind_eq_ok.mp hresult
    have hrun := runOf_records hrecords (settled r collected) (withStoredRequest s.db r)
      [.record (.event (checkpointEvent (withStoredRequest s.db r) type records))]
    have heffect := commitSessionRun_effect hcommit
    have hsnapshots := (commitSessionRun_contexts hcommit).2
    rcases commitSessionRun_cases hcommit hrun with ⟨rfl, hended⟩ | ⟨hrunning, hended, hexists, hput⟩
    · -- the run had ended before
      rw [if_neg fun he => hended he.2]
      have hkept : s.db.continuations =
          ([] : List SessionContinuation).foldl Table.put s.db.continuations := rfl
      refine h.put (SessionDb.Effect.refl (k := .complete) _) (by simp) rfl hkept hisSome (by simp)
        ?_ ?_ h.current
      · exact h.valid_append fun c hc => (hnew c hc).1
      intro snap' hsnap' hrunning
      rw [hsnap] at hsnap'
      cases hsnap'
      exact absurd (hturn ▸ hrunning) hended
    rw [if_pos ⟨hterminal, hrunning⟩]
    have hcontinuations := hput.trans (congrArg (List.foldl _ _) (continuationsIn_written records
      (settled r collected) [.run (withStoredRequest s.db r),
        .event (checkpointEvent (withStoredRequest s.db r) type records)]))
    exact h.ends hsnap hsession hturn heffect hsnapshots hcontinuations hrunning hended hexists
      hnew hcollected
  rw [if_neg fun he => hterminal he.2] at hresult
  rw [if_neg fun he => hterminal he.1]
  split at hresult
  · simp only [bind_eq_ok] at hresult
    obtain ⟨_, -, _, -, hwrite⟩ := hresult
    exact hgoes [.run _, .event _] hwrite
  · exact hgoes [.run _, .event _] hresult

/-! ## Any sequence of runs -/

lemma Refines.update {thread : String} (h : Refines pipelineOf s)
    (he : ExecutorOk pipelineOf e) :
    Refines pipelineOf { s with executors := Function.update s.executors thread e } :=
  { h with
    executors := by
      intro other
      show ExecutorOk pipelineOf (Function.update s.executors thread e other)
      by_cases hid : other = thread
      · subst hid
        rw [update_self]
        exact he
      · rw [update_of_ne hid]
        exact h.executors other }

variable {label : Label}

/-- **Every step keeps the refinement.** -/
lemma Refines.step (h : Refines pipelineOf s)
    (hstep : continuationMachine codec coordination pipelineOf s label = some s') :
    Refines pipelineOf s' := by
  cases label with
  | session call =>
    obtain ⟨db, hcall, rfl⟩ := map_eq_some_iff.mp hstep
    exact h.client hcall
  | execute thread runId =>
    cases hstep
    exact h.update ⟨nofun, nofun⟩
  | attempt thread id r generate =>
    simp only [continuationMachine] at hstep
    split at hstep
    · cases hstep
    rename_i node hnode
    split at hstep
    · rename_i hguard
      cases hstep
      exact h.update ((h.executors thread).attempt hnode hguard.2.2)
    · cases hstep
  | complete thread r type now records ids =>
    simp only [continuationMachine] at hstep
    split at hstep
    · rename_i node returned hnode hreturned
      split at hstep
      · rename_i hguard
        obtain ⟨hrun, hbound⟩ := hguard
        cases hstep
        have hexecutor := h.executors thread
        have hrows := hexecutor.returned returned hreturned
        obtain ⟨id, hid, hnode⟩ := bind_eq_some_iff.mp hnode
        -- a node that stores nothing has staged nothing
        have hstores : node.stores = false → returned = [] := by
          intro hnot
          rw [← hrows, eq_nil_iff_forall_not_mem]
          intro c hc
          obtain ⟨-, version, hprovider⟩ := hexecutor.provider hnode (.inr hid) hc
          cases node <;> cases hnot
          cases hprovider
        have hcandidates : (if node.stores then
            (s.executors thread).byProvider.rows.map (candidateOf r)
            else []) = returned.map (candidateOf r) := by
          split
          · rw [hrows]
          rename_i hnot
          rw [hstores (by simpa using hnot)]
          rfl
        have hempty : (if node.stores then Table.empty
            else (s.executors thread).byProvider).rows = [] := by
          split
          · rfl
          rename_i hnot
          rw [hrows]
          exact hstores (by simpa using hnot)
        have hnew : ∀ c ∈ returned, c.Valid ∧ c.providerId ∈ (pipelineOf r.id).providers := by
          intro c hc
          rw [← hrows] at hc
          obtain ⟨-, version, hprovider⟩ := hexecutor.provider hnode (.inr hid) hc
          exact ⟨(hexecutor.staged c hc).1, hrun ▸ SessionPipeline.mem_providers hnode hprovider⟩
        rw [hcandidates]
        have hcleared : ExecutorOk pipelineOf { runId := (s.executors thread).runId, byProvider :=
            if node.stores then Table.empty else (s.executors thread).byProvider } :=
          ⟨fun c hc => absurd (hempty ▸ hc) not_mem_nil, nofun⟩
        exact (h.update hcleared).checkpoint hbound hnew
      · cases hstep
    · cases hstep
  | checkpoint r type now records ids =>
  simp only [continuationMachine] at hstep
  split at hstep
  · rename_i hbound
    cases hstep
    have hnothing : ∀ c ∈ ([] : List OpaqueContinuation),
        c.Valid ∧ c.providerId ∈ (pipelineOf r.id).providers := nofun
    exact h.checkpoint hbound hnothing
  · cases hstep

lemma refines_reach (h : Reach (continuationMachine codec coordination pipelineOf) always {} s) :
    Refines pipelineOf s :=
  h.invariant refines_start fun _ _ _ hs _ hstep => hs.step hstep

lemma inUse_settle {x : Except Error SessionDb}
    (hstate : r.state ≠ .completed) : inUse (s.settle r new x).past sid p = inUse s.past sid p := by
  cases x with
  | error e => rfl
  | ok db =>
  simp only [System.settle]
  split
  · rw [inUse_concat, if_neg fun he => hstate (of_decide_eq_true he.2)]
  · rfl

lemma inUse_step (hstep : continuationMachine codec coordination pipelineOf s label = some s')
    (hlabel : ¬label.Completes) : inUse s'.past sid p = inUse s.past sid p := by
  cases label with
  | session call =>
    obtain ⟨db, -, rfl⟩ := map_eq_some_iff.mp hstep
    rfl
  | execute thread runId =>
    cases hstep
    rfl
  | attempt thread id r generate =>
    simp only [continuationMachine] at hstep
    split at hstep
    · cases hstep
    split at hstep
    · cases hstep
      rfl
    · cases hstep
  | complete thread r type now records ids =>
    simp only [continuationMachine] at hstep
    split at hstep
    · split at hstep
      · cases hstep
        exact inUse_settle hlabel
      · cases hstep
    · cases hstep
  | checkpoint r type now records ids =>
  simp only [continuationMachine] at hstep
  split at hstep
  · cases hstep
    exact inUse_settle hlabel
  · cases hstep

/-- A run that has not ended loads the last state its completed nodes staged, else that of its
snapshot. -/
lemma Refines.load (h : Refines pipelineOf s)
    (hsnap : s.db.snapshots.get r.id = some snap) (hsession : r.sessionId = snap.sessionId)
    (hrunning : Running s.db r.id snap.sessionTurnId) :
    loadProviderContinuation s.db r (some snap) p = .ok ((lastFor (s.staged r.id) p).or
        ((snap.providerContinuations.lookup p).map fun c => ⟨p, c.1, c.2⟩)) := by
  have hrow := h.candidates r.id snap hsnap hrunning p
  unfold loadProviderContinuation readContinuation
  cases hlast : lastFor (s.staged r.id) p with
  | some c =>
    obtain ⟨hmem, rfl⟩ := mem_of_lastFor hlast
    obtain ⟨-, hversion, hstate, hsize⟩ := h.valid r.id c hmem
    rw [hlast] at hrow
    simp [hrow, candidate, hsession, hversion, hstate, hsize, require]
    rfl
  | none =>
  rw [hlast] at hrow
  simp only [map_none] at hrow
  simp only [hrow, ok_bind]
  cases hlookup : snap.providerContinuations.lookup p with
  | none => rfl
  | some x =>
  obtain ⟨version, state⟩ := x
  obtain ⟨-, hversion, hstate, hsize⟩ :=
    (h.snapshots r.id snap hsnap).valid p version state hlookup
  simp [hversion, hstate, hsize, require]

/-- **Promotion of provider states.** Whatever clients, dispatchers and threads do, a new run gets
for each provider the state that was staged last in the latest completed run that staged one; only
the completion of a run changes that; and a run that has not ended loads the last state its
completed nodes staged before that of its snapshot. -/
theorem continuations_promoted
    (h : Reach (continuationMachine codec coordination pipelineOf) always {} s) :
    (∀ (now : Nat) (sid turnId : String) (r : Run) (runEvent : Event) (owner : String)
        (token : Nat) (ids : Nat → String) (db : SessionDb),
        s.db.bindSessionTurnRun codec now sid turnId r runEvent owner token ids = .ok (true, db) →
          ∃ snap, db.snapshots.get r.id = some snap ∧ ∀ p,
            snap.providerContinuations.lookup p =
              (inUse s.past sid p).map fun c => (c.providerVersion, c.state)) ∧
      (∀ (label : Label) (s' : System),
        continuationMachine codec coordination pipelineOf s label = some s' → ¬label.Completes →
          ∀ sid p, (s'.db.currentContinuations sid).lookup p =
            (s.db.currentContinuations sid).lookup p) ∧
      ∀ (r : Run) (snap : RunContextSnapshot), s.db.snapshots.get r.id = some snap →
        r.sessionId = snap.sessionId → Running s.db r.id snap.sessionTurnId →
          ∀ p, loadProviderContinuation s.db r (some snap) p =
            .ok ((lastFor (s.staged r.id) p).or
              ((snap.providerContinuations.lookup p).map fun c => ⟨p, c.1, c.2⟩)) := by
  have hrefines := refines_reach h
  refine ⟨?_, ?_, fun r snap hsnap hsession hrunning p => hrefines.load hsnap hsession hrunning⟩
  · intro now sid turnId r runEvent owner token ids db hbind
    obtain ⟨snap, -, hrun, -, -, hstates, hsnapshots, -⟩ := bind_captures hbind
    refine ⟨snap, ?_, fun p => ?_⟩
    · rw [hsnapshots, ← hrun]
      exact get_put_self _ _
    · rw [hstates]
      exact hrefines.lookup_current
  · intro label s' hstep hlabel sid p
    rw [(hrefines.step hstep).lookup_current, hrefines.lookup_current, inUse_step hstep hlabel]

def samplePipeline : SessionPipeline := ⟨[("n", .worker "w" "1")], by decide⟩

/-- The run of the second turn of a session, after the first one kept a state. -/
def sampleRuns : List Label :=
  sampleFirst.map .session ++
    [.execute "x" "r", .attempt "x" "n" (sampleRun .running) fun _ => some ⟨"w", "1", "kept"⟩,
      .complete "x" (sampleRun .completed) "run.completed" 0 [] sampleIds] ++
    sampleSecond.map .session

theorem continuations_promoted_kept : ∃ s : System,
    Reach (continuationMachine emptyCodec false fun _ => samplePipeline) always {} s ∧
      s.db.snapshots.rows.map RunContextSnapshot.providerContinuations =
        [[], [("w", "1", "kept")]] ∧
      ∀ r snap, s.db.snapshots.get r.id = some snap → r.sessionId = snap.sessionId →
        Running s.db r.id snap.sessionTurnId → ∀ p, loadProviderContinuation s.db r (some snap) p =
            .ok ((lastFor (s.staged r.id) p).or
              ((snap.providerContinuations.lookup p).map fun c => ⟨p, c.1, c.2⟩)) := by
  obtain ⟨s, hreach, hrows⟩ := exists_reach
    (f := fun s : System => s.db.snapshots.rows.map RunContextSnapshot.providerContinuations)
    (M := continuationMachine emptyCodec false fun _ => samplePipeline) (C := always)
    (s := {}) (v := [[], [("w", "1", "kept")]]) sampleRuns (by decide +kernel)
  exact ⟨s, hreach, hrows, (continuations_promoted hreach).2.2⟩

end Continuations

end Laso
