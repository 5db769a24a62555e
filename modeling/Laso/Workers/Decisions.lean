import Laso.Workers.Interaction

/-!
# Decisions about interactions are final

A call of `handle_interaction` returns what is stored about its request as soon as that is settled, and
waits otherwise; a wait that is too long lets the request expire. `waitMachine` adds the calls that
wait, and what calls have returned, to the store of interactions. Every block holds the mutex of the
interactions, so what one block settles all later ones find settled: it stays as it is
(`Interactions.keeps_step`), and what was returned is what is stored (`Settled`).
-/

namespace Laso

open List Table Option

/-- The store, the requests that calls wait for, and what calls have returned. -/
structure InteractionCalls where
  store : Interactions := {}
  waiting : List String := []
  reports : List (String × WorkerInteraction) := []

inductive WaitStep where
  /-- A call of `handle_interaction` up to its wait, a resolver, or a cancellation. -/
  | serve (e : InteractionEvent)
  /-- The predicate of a wait holds. -/
  | wake (k : Nat)
  /-- A wait is over; `fails` says that the store does not take the expired record. -/
  | timeout (k : Nat) (fails : Bool)

/-- The request whose record a call of `handle_interaction` goes on with, unless it throws. -/
def Interactions.handled (env : InteractionEnv) (s : Interactions) : InteractionEvent → Option String
  | .handle request pastDeadline createFails expireFails =>
    if !env.requestWithinLimits request then none
    else (s.recordInteraction env request createFails).bind fun (i, _) =>
      if i.state = .pending ∧ i.deadline ≠ "" ∧ pastDeadline ∧ expireFails then none
      else some request.requestId
  | _ => none

/-- A call returns the record of its request if that is settled, and waits otherwise. -/
def InteractionCalls.goOn (s : InteractionCalls) (id : String) : InteractionCalls :=
  match s.store.records.get id with
  | none => s
  | some i =>
    if i.state = .pending then { s with waiting := s.waiting ++ [id] }
    else { s with reports := s.reports ++ [(id, i)] }

def Interactions.isSettled (s : Interactions) (id : String) : Bool :=
  (s.records.get id).any fun i => i.state ≠ .pending

def waitMachine (env : InteractionEnv) : Machine InteractionCalls WaitStep
  | s, .serve e => (interactionMachine env s.store e).map fun store =>
      ((s.store.handled env e).elim id fun id s => s.goOn id) { s with store }
  | s, .wake k => s.waiting[k]?.bind fun id =>
      if s.store.isSettled id then
        some (InteractionCalls.goOn { s with waiting := s.waiting.eraseIdx k } id)
      else none
  | s, .timeout k fails => s.waiting[k]?.map fun id =>
      let s := { s with
        store := if fails then s.store else s.store.expire id
        waiting := s.waiting.eraseIdx k }
      if s.store.isSettled id then s.goOn id else s

section Settling

variable {env : InteractionEnv} {s s' s'' : Interactions} {e : InteractionEvent} {id : String}
  {i : WorkerInteraction}

def Interactions.Keeps (s s' : Interactions) : Prop :=
  ∀ id i, s.records.get id = some i → i.state ≠ .pending → s'.records.get id = some i

/-- No resolver has succeeded, or one has, with a request that was pending. -/
def Interactions.Decides (s s' : Interactions) : Prop :=
  s'.decisions = s.decisions ∨ ∃ id i j, s.records.get id = some i ∧ i.state = .pending ∧
    s'.records.get id = some j ∧ j.state ≠ .pending ∧ s'.decisions = (id, j.state) :: s.decisions

namespace Interactions

lemma Keeps.refl (s : Interactions) : s.Keeps s := fun _ _ h _ => h

lemma Keeps.trans (h : s.Keeps s') (h' : s'.Keeps s'') : s.Keeps s'' :=
  fun id i hi hstate => h' id i (h id i hi hstate) hstate

lemma Keeps.store (hi : ∀ j, s.records.get i.id = some j → j.state = .pending) :
    s.Keeps (s.store i) := by
  intro id j hj hstate
  rw [Interactions.store, get_put_ne, hj]
  rintro rfl
  exact hstate (hi j hj)

lemma Keeps.store_of_get {j : WorkerInteraction} (hi : s.records.get id = some i)
    (hpending : i.state = .pending) (hj : j.id = i.id) : s.Keeps (s.store j) := by
  have hid : i.id = id := key_of_get hi
  refine .store fun k hk => ?_
  obtain rfl : i = k := Option.mem_unique hi (hid ▸ hj ▸ hk)
  exact hpending

lemma keeps_expire : s.Keeps (s.expire id) ∧ (s.expire id).decisions = s.decisions := by
  unfold Interactions.expire
  split
  · rename_i i hi
    split
    · exact ⟨.store_of_get hi ‹_› rfl, rfl⟩
    · exact ⟨.refl s, rfl⟩
  · exact ⟨.refl s, rfl⟩

lemma get_cancelRows {u : Interactions} {jobId reason : String} {rows : List WorkerInteraction}
    (hrows : ∀ j ∈ rows, u.records.get j.id = some j) :
    (∀ id i, u.records.get id = some i → i.state ≠ .pending → s.records.get id = some i →
      (cancelRows jobId reason rows s).records.get id = some i) ∧
      (cancelRows jobId reason rows s).decisions = s.decisions := by
  induction rows generalizing s with
  | nil => exact ⟨fun _ _ _ _ h => h, rfl⟩
  | cons j rest ih =>
    obtain ⟨hkeeps, hdecisions⟩ := ih (fun k hk => hrows k (mem_cons_of_mem _ hk))
    refine ⟨fun id i hu hstate hs => hkeeps id i hu hstate ?_, hdecisions.trans ?_⟩
    · split
      · rename_i hj
        rw [Interactions.store, get_put_ne, hs]
        rintro rfl
        obtain rfl : j = i := Option.mem_unique (hrows j mem_cons_self) hu
        exact hstate hj.2
      · exact hs
    · split <;> rfl

lemma recordInteraction_keeps {request : WorkerInteractionRequest} {createFails : Bool}
    (h : s.recordInteraction env request createFails = some (i, s')) :
    s'.records.get i.id = some i ∧ s.Keeps s' ∧ s'.decisions = s.decisions := by
  unfold recordInteraction at h
  split at h
  · rename_i j hj
    split at h
    · obtain ⟨rfl, rfl⟩ := Prod.mk.inj (some.inj h)
      have hid : j.id = request.requestId := key_of_get hj
      exact ⟨hid ▸ hj, .refl s, rfl⟩
    · cases h
  rename_i hnone
  split at h
  · cases h
  split at h
  · cases h
  rename_i result _ _
  obtain ⟨rfl, rfl⟩ := Prod.mk.inj (some.inj h)
  refine ⟨get_put_self s.records _, .store fun j hj => ?_, rfl⟩
  rw [(applyPolicy_id _ result).1, show (recordRequest env request).id = request.requestId from rfl,
    hnone] at hj
  cases hj

lemma handleInteraction_keeps (request : WorkerInteractionRequest)
    (pastDeadline createFails expireFails : Bool) :
    s.Keeps (s.handleInteraction env request pastDeadline createFails expireFails) ∧
      (s.handleInteraction env request pastDeadline createFails expireFails).decisions =
        s.decisions := by
  unfold handleInteraction
  split
  · exact ⟨.refl s, rfl⟩
  split
  · exact ⟨.refl s, rfl⟩
  rename_i hrecord
  obtain ⟨hget, hkeeps, hdecisions⟩ := recordInteraction_keeps hrecord
  split
  · exact ⟨hkeeps, hdecisions⟩
  rename_i hpending
  split
  · exact ⟨hkeeps.trans (.store_of_get hget (by simpa using hpending) rfl), hdecisions⟩
  · exact ⟨hkeeps, hdecisions⟩

/-- **One event.** -/
lemma keeps_step (h : interactionMachine env s e = some s') : s.Keeps s' ∧ s.Decides s' := by
  cases e with
  | handle request pastDeadline createFails expireFails =>
    cases h
    exact (handleInteraction_keeps request pastDeadline createFails expireFails).imp_right .inl
  | expire id =>
    cases h
    exact keeps_expire.imp_right .inl
  | cancelJob jobId reason =>
    cases h
    obtain ⟨hkeeps, hdecisions⟩ := @get_cancelRows s s jobId reason _
      fun j hj => mem_rows_iff.mp (mem_of_mem_take hj)
    exact ⟨fun id i hi hstate => hkeeps id i hi hstate hi, .inl hdecisions⟩
  | resolve id state payload actor reason =>
  simp only [interactionMachine] at h
  split at h
  · rename_i hresolve
    cases h
    unfold resolveInteraction at hresolve
    split at hresolve
    · cases hresolve
    rename_i hinput
    split at hresolve
    · cases hresolve
    rename_i i hi
    obtain rfl : i.id = id := key_of_get hi
    split_ifs at hresolve with hpending
    cases hresolve
    have hpending : i.state = .pending := by simpa using hpending
    refine ⟨.store_of_get hi hpending rfl, .inr ⟨i.id, i, _, hi, hpending,
      get_put_self s.records _, ?_, rfl⟩⟩
    simp only [Bool.or_eq_true, decide_eq_true_eq, not_or] at hinput
    exact hinput.2
  · cases h
    exact ⟨.refl s, .inl rfl⟩

end Interactions

end Settling

/-- What calls have returned is stored, and no request was decided by two resolvers. -/
structure Settled (s : InteractionCalls) : Prop where
  reports : ∀ r ∈ s.reports, s.store.records.get r.1 = some r.2 ∧ r.2.state ≠ .pending
  decisions : ∀ d ∈ s.store.decisions, ∃ i, s.store.records.get d.1 = some i ∧ i.state = d.2 ∧
    i.state ≠ .pending
  once : (s.store.decisions.map Prod.fst).Nodup

section Steps

variable {env : InteractionEnv} {s t : InteractionCalls} {l : WaitStep}

lemma Settled.goOn (h : Settled s) (id : String) : Settled (s.goOn id) := by
  unfold InteractionCalls.goOn
  split
  · exact h
  rename_i i hi
  split
  · exact ⟨h.reports, h.decisions, h.once⟩
  rename_i hstate
  refine ⟨fun r hr => ?_, h.decisions, h.once⟩
  rcases mem_append.mp hr with hr | hr
  · exact h.reports r hr
  · rw [mem_singleton.mp hr]
    exact ⟨hi, hstate⟩

lemma Settled.of_keeps {store : Interactions} {waiting : List String} (h : Settled s)
    (hkeeps : s.store.Keeps store) (hdecisions : s.store.Decides store) :
    Settled { s with store, waiting } := by
  have hold : ∀ d ∈ s.store.decisions, ∃ i, store.records.get d.1 = some i ∧ i.state = d.2 ∧
      i.state ≠ .pending := by
    intro d hd
    obtain ⟨i, hi, hstate, hsettled⟩ := h.decisions d hd
    exact ⟨i, hkeeps _ _ hi hsettled, hstate, hsettled⟩
  refine ⟨fun r hr => ?_, fun d hd => ?_, ?_⟩
  · exact ⟨hkeeps _ _ (h.reports r hr).1 (h.reports r hr).2, (h.reports r hr).2⟩
  · rcases hdecisions with heq | ⟨id, i, j, -, -, hj, hsettled, heq⟩
    · exact hold d (heq ▸ hd)
    · rcases mem_cons.mp (heq ▸ hd) with rfl | hd
      · exact ⟨j, hj, rfl, hsettled⟩
      · exact hold d hd
  rcases hdecisions with heq | ⟨id, i, j, hi, hpending, -, -, heq⟩
  · exact heq ▸ h.once
  -- a request that has been decided is not pending
  rw [show ({ s with store, waiting } : InteractionCalls).store.decisions = _ from heq,
    map_cons, nodup_cons]
  refine ⟨fun hmem => ?_, h.once⟩
  obtain ⟨d, hd, rfl⟩ := mem_map.mp hmem
  obtain ⟨k, hk, -, hsettled⟩ := h.decisions d hd
  obtain rfl : i = k := Option.mem_unique hi hk
  exact hsettled hpending

/-- **Step lemma.** -/
lemma Settled.step (h : Settled s) (hstep : waitMachine env s l = some t) :
    Settled t ∧ s.store.Keeps t.store := by
  have hgoOn : ∀ (u : InteractionCalls) (id : String), (u.goOn id).store = u.store := by
    intro u id
    unfold InteractionCalls.goOn
    split
    · rfl
    · split <;> rfl
  cases l with
  | serve e =>
    obtain ⟨store, hstore, rfl⟩ := map_eq_some_iff.mp hstep
    obtain ⟨hkeeps, hdecisions⟩ := Interactions.keeps_step hstore
    cases s.store.handled env e with
    | none => exact ⟨(h.of_keeps hkeeps hdecisions), hkeeps⟩
    | some id => exact ⟨(h.of_keeps hkeeps hdecisions).goOn id, (hgoOn _ id).symm ▸ hkeeps⟩
  | wake k =>
    obtain ⟨id, -, hrest⟩ := bind_eq_some_iff.mp hstep
    split at hrest
    · cases hrest
      exact ⟨(h.of_keeps (.refl _) (.inl rfl)).goOn id, (hgoOn _ id).symm ▸ .refl _⟩
    · cases hrest
  | timeout k fails =>
  obtain ⟨id, -, rfl⟩ := map_eq_some_iff.mp hstep
  obtain ⟨hkeeps, hdecisions⟩ : s.store.Keeps (if fails then s.store else s.store.expire id) ∧
      (if fails then s.store else s.store.expire id).decisions = s.store.decisions := by
    split
    · exact ⟨.refl _, rfl⟩
    · exact Interactions.keeps_expire
  dsimp only
  generalize (if fails then s.store else s.store.expire id) = store at hkeeps hdecisions ⊢
  have hsettled : Settled { s with store, waiting := s.waiting.eraseIdx k } :=
    h.of_keeps hkeeps (.inl hdecisions)
  split
  · exact ⟨hsettled.goOn id, (hgoOn _ id).symm ▸ hkeeps⟩
  · exact ⟨hsettled, hkeeps⟩

end Steps

/-- **Decisions are final.** In every run, a request that is settled is stored the same ever after;
at most one resolver has succeeded with it, and its decision is the stored one; and every call that has
returned has returned the stored decision. -/
theorem interaction_decisions_final {env : InteractionEnv} {s t : InteractionCalls}
    (h : (waitMachine env).Reach Machine.always {} s)
    (h' : (waitMachine env).Reach Machine.always s t) :
    (∀ id i, s.store.records.get id = some i → i.state ≠ .pending →
      t.store.records.get id = some i) ∧
      (∀ id, (t.store.decisions.map Prod.fst).count id ≤ 1) ∧
      (∀ d ∈ t.store.decisions, ∃ i, t.store.records.get d.1 = some i ∧ i.state = d.2) ∧
      ∀ r ∈ t.reports, t.store.records.get r.1 = some r.2 ∧ r.2.state ≠ .pending := by
  have hs : Settled s := h.invariant ⟨nofun, nofun, nodup_nil⟩
    fun _ _ _ hok _ hstep => (hok.step hstep).1
  obtain ⟨ht, hkeeps⟩ : Settled t ∧ s.store.Keeps t.store :=
    h'.invariant (I := fun u => Settled u ∧ s.store.Keeps u.store) ⟨hs, .refl _⟩
      fun _ _ _ hok _ hstep => ⟨(hok.1.step hstep).1, hok.2.trans (hok.1.step hstep).2⟩
  exact ⟨hkeeps, fun id => nodup_iff_count_le_one.mp ht.once id,
    fun d hd => (ht.decisions d hd).imp fun _ hi => ⟨hi.1, hi.2.1⟩, ht.reports⟩

/-- Two calls wait for a request, an operator approves it, a second operator does not succeed, and
both calls return the approval. -/
theorem interaction_decisions_final_approved :
    ∃ s, (waitMachine guardedEnv).Reach Machine.always {} s ∧
      s.reports.map (fun r => (r.1, r.2.state)) = [("q", .approved), ("q", .approved)] ∧
      ∀ r ∈ s.reports, s.store.records.get r.1 = some r.2 ∧ r.2.state ≠ .pending := by
  obtain ⟨s, hs, hreports⟩ := Machine.exists_reach (C := Machine.always) (M := waitMachine guardedEnv)
    (s := {}) (f := fun s => s.reports.map fun r => (r.1, r.2.state))
    (v := [("q", .approved), ("q", .approved)])
    [.serve (.handle { requestId := "q", workerJobId := "job", type := .approval } false false false),
      .serve (.handle { requestId := "q", workerJobId := "job", type := .approval } false false false),
      .serve (.resolve "q" .approved (.obj []) "operator" ""),
      .serve (.resolve "q" .denied (.obj []) "other" ""), .wake 0, .timeout 0 false]
    (by decide +kernel)
  exact ⟨s, hs, hreports, (interaction_decisions_final hs .refl).2.2.2⟩

end Laso
