import Laso.Coordination.Lease

/-!
# Fencing

Whatever instances do, the fencing token of a resource only grows, and a call is accepted only
with the token that is on the row. So tokens order the owners of a resource: a call that carries
the token of an earlier owner is refused from the moment a later owner has been told its token.

The induction is carried by the **level** of a resource, the token on its row. `step_level` says
what one call does to it; `run_floor` and `run_pairwise` follow it along any sequence of calls.
-/

namespace Laso

namespace Leases

/-- A reply reports that a call with this token on this resource was accepted. -/
def Reply.accepts (reply : Reply) (resource : String) (token : Nat) : Prop :=
  reply = .renewed resource token ∨ reply = .released resource token ∨
    reply = .committed resource token

variable {resource owner : String}

lemma holdsAt_level {l : Leases} {now : Nat} {token : Nat}
    (h : l.holdsAt now resource owner token) : l.level resource = token := by
  unfold holdsAt at h
  unfold level
  split at h
  · rename_i row hrow
    simp only [Bool.and_eq_true, beq_iff_eq] at h
    simp [h.1.2]
  · simp at h

lemma level_put (l : Leases) (row : LeaseRow) (resource : String) :
    ({ l with rows := l.rows.put row } : Leases).level resource =
      if row.resourceKey = resource then row.fencingToken else l.level resource := by
  unfold level
  rw [Table.get_put]
  by_cases h : row.resourceKey = resource <;> simp [h]

/-! ## What one call does -/

/-- An acquisition either changes no row, or raises the row of its resource and reports the new
token. -/
lemma acquire_cases (l : Leases) (t : Ticks) (owner resource : String) (ttlMs : Nat) :
    ((l.acquire t owner resource ttlMs).2.rows = l.rows ∧
        ∀ lease, (l.acquire t owner resource ttlMs).1 ≠ .ok (some lease)) ∨
      ∃ token expiry active, l.level resource < token ∧
        (l.acquire t owner resource ttlMs).1 = .ok (some ⟨resource, owner, token, active⟩) ∧
        (l.acquire t owner resource ttlMs).2.rows =
          l.rows.put ⟨resource, owner, token, expiry⟩ := by
  unfold acquire
  split
  · exact .inl ⟨rfl, by simp⟩
  · exact .inl ⟨rfl, by simp⟩
  split
  · split
    · rename_i hrow
      refine .inr ⟨1, _, _, ?_, rfl, rfl⟩
      simp [level, hrow]
    rename_i row hrow
    split
    · split
      · refine .inr ⟨row.fencingToken + 1, _, _, ?_, rfl, rfl⟩
        simp [level, hrow]
      · exact .inl ⟨rfl, by simp⟩
    · exact .inl ⟨rfl, by simp⟩
  · exact .inl ⟨rfl, by simp⟩

/-- A renewal either changes no row, or rewrites the row of the lease with the same token. -/
lemma renew_cases (l : Leases) (t : Ticks) (owner : String) (lease : LeaseRecord) (ttlMs : Nat) :
    ((l.renew t owner lease ttlMs).2.rows = l.rows ∧
        ∀ lease', (l.renew t owner lease ttlMs).1 ≠ .ok (some lease')) ∨
      ∃ expiry active, l.level lease.resourceKey = lease.fencingToken ∧
        (l.renew t owner lease ttlMs).1 = .ok (some { lease with active := active }) ∧
        (l.renew t owner lease ttlMs).2.rows =
          l.rows.put ⟨lease.resourceKey, lease.ownerInstance, lease.fencingToken, expiry⟩ := by
  unfold renew
  split
  · exact .inl ⟨rfl, by simp⟩
  · exact .inl ⟨rfl, by simp⟩
  split
  · exact .inl ⟨rfl, by simp⟩
  · split
    · rename_i hholds
      exact .inr ⟨_, _, holdsAt_level hholds, rfl, rfl⟩
    · exact .inl ⟨rfl, by simp⟩

/-- A release either changes no row, or rewrites the row of the lease with the same token. -/
lemma release_cases (l : Leases) (t : Ticks) (owner : String) (lease : LeaseRecord) :
    ((l.release t owner lease).2.rows = l.rows ∧ (l.release t owner lease).1 ≠ .ok true) ∨
      ∃ expiry, l.level lease.resourceKey = lease.fencingToken ∧
        (l.release t owner lease).1 = .ok true ∧
        (l.release t owner lease).2.rows =
          l.rows.put ⟨lease.resourceKey, lease.ownerInstance, lease.fencingToken, expiry⟩ := by
  unfold release
  split
  · exact .inl ⟨rfl, by simp⟩
  split
  · exact .inl ⟨rfl, by simp⟩
  · split
    · rename_i hholds
      exact .inr ⟨_, holdsAt_level hholds, rfl, rfl⟩
    · exact .inl ⟨rfl, by simp⟩

lemma commitOwned_cases (l : Leases) (t : Ticks) (resource owner : String) (token : Nat)
    (write : Except Error Unit) :
    (l.commitOwned t resource owner token write).2.rows = l.rows ∧
      ∀ u, (l.commitOwned t resource owner token write).1 = .ok u → l.level resource = token := by
  unfold commitOwned
  split
  · exact ⟨rfl, by simp⟩
  rename_i hproof
  refine ⟨rfl, fun _ _ => ?_⟩
  unfold ownershipProof at hproof
  split at hproof
  · simp at hproof
  split at hproof
  · rename_i hholds
    exact holdsAt_level hholds
  · simp at hproof

/-- What a call may do to the level of each resource, given its reply. -/
structure LevelStep (l l' : Leases) (reply : Reply) : Prop where
  mono : ∀ resource, l.level resource ≤ l'.level resource
  accepted : ∀ resource token, reply.accepts resource token → l.level resource = token
  acquired : ∀ resource token, reply = .acquired resource token →
    l.level resource < token ∧ l'.level resource = token

variable {l l' : Leases}

lemma level_of_rows (h : l'.rows = l.rows) (resource : String) :
    l'.level resource = l.level resource := by
  simp [level, h]

variable {row : LeaseRow}

lemma level_of_rows_put (h : l'.rows = l.rows.put row)
    (resource : String) :
    l'.level resource = if row.resourceKey = resource then row.fencingToken
      else l.level resource := by
  rw [← level_put]
  simp [level, h]

lemma level_le_acquire (l : Leases) (t : Ticks) (owner resource : String) (ttlMs : Nat)
    (key : String) : l.level key ≤ (l.acquire t owner resource ttlMs).2.level key := by
  rcases l.acquire_cases t owner resource ttlMs with ⟨hrows, -⟩ | ⟨token, _, _, hlt, -, hput⟩
  · exact (level_of_rows hrows key).ge
  rw [level_of_rows_put hput]
  split
  · rename_i hk
    rw [← hk]
    exact hlt.le
  · exact le_rfl

lemma level_acquire {l : Leases} {t : Ticks} {ttlMs : Nat}
    {lease : LeaseRecord} (h : (l.acquire t owner resource ttlMs).1 = .ok (some lease)) :
    l.level resource < lease.fencingToken ∧
      (l.acquire t owner resource ttlMs).2.level resource = lease.fencingToken := by
  rcases l.acquire_cases t owner resource ttlMs with ⟨-, hnone⟩ | ⟨token, _, _, hlt, hok, hput⟩
  · exact absurd h (hnone lease)
  rw [hok] at h
  cases h
  exact ⟨hlt, by simp [level_of_rows_put hput]⟩

lemma level_release (l : Leases) (t : Ticks) (owner : String) (lease : LeaseRecord)
    (key : String) : (l.release t owner lease).2.level key = l.level key := by
  rcases l.release_cases t owner lease with ⟨hrows, -⟩ | ⟨_, hlevel, -, hput⟩
  · exact level_of_rows hrows key
  rw [level_of_rows_put hput]
  split
  · rename_i hk
    rw [← hk, hlevel]
  · rfl

lemma level_requireCurrent (l : Leases) (t : Ticks) (owner : String) (lease : LeaseRecord)
    (key : String) : (l.requireCurrent t owner lease).2.level key = l.level key := by
  unfold requireCurrent
  split
  · rfl
  split
  · rfl
  split <;> rfl

lemma LevelStep.refused (h : l'.rows = l.rows) : LevelStep l l' .refused where
  mono resource := (level_of_rows h resource).ge
  accepted := by simp [Reply.accepts]
  acquired := by simp

variable {reply : Reply}

lemma LevelStep.rewritten
    (hrow : l.level row.resourceKey = row.fencingToken) (h : l'.rows = l.rows.put row)
    (hacc : ∀ resource token, reply.accepts resource token →
      resource = row.resourceKey ∧ token = row.fencingToken)
    (hacq : ∀ resource token, reply ≠ .acquired resource token) : LevelStep l l' reply where
  mono resource := by
    rw [level_of_rows_put h]
    split
    · rename_i hk
      rw [← hk, hrow]
    · exact le_rfl
  accepted resource token hr := by
    obtain ⟨rfl, rfl⟩ := hacc resource token hr
    exact hrow
  acquired resource token hr := absurd hr (hacq resource token)

lemma perform_level (l : Leases) (t : Ticks) (c : Call) :
    LevelStep l (l.perform t c).2 (l.perform t c).1 := by
  cases c with
  | acquire owner resource ttlMs =>
    rcases l.acquire_cases t owner resource ttlMs with ⟨hrows, hnone⟩ | ⟨token, e, a, hlt, hok, hput⟩
    · simp only [perform]
      exact .refused hrows
    have heq : l.acquire t owner resource ttlMs =
        (.ok (some ⟨resource, owner, token, a⟩), (l.acquire t owner resource ttlMs).2) := by
      rw [← hok]
    simp only [perform]
    rw [heq]
    refine ⟨fun k => ?_, by simp [Reply.accepts], fun k n hr => ?_⟩
    · rw [level_of_rows_put hput]
      split
      · rename_i hk
        rw [← hk]
        exact hlt.le
      · exact le_rfl
    · simp only [Reply.acquired.injEq] at hr
      obtain ⟨rfl, rfl⟩ := hr
      exact ⟨hlt, by simp [level_of_rows_put hput]⟩
  | renew owner lease ttlMs =>
    rcases l.renew_cases t owner lease ttlMs with ⟨hrows, hnone⟩ | ⟨e, a, hlevel, hok, hput⟩
    · simp only [perform]
      exact .refused hrows
    have heq : l.renew t owner lease ttlMs =
        (.ok (some { lease with active := a }), (l.renew t owner lease ttlMs).2) := by
      rw [← hok]
    simp only [perform]
    rw [heq]
    refine .rewritten hlevel hput (fun k n hr => ?_) (by simp)
    simp only [Reply.accepts, Reply.renewed.injEq, reduceCtorEq, or_false] at hr
    exact ⟨hr.1.symm, hr.2.symm⟩
  | release owner lease =>
    rcases l.release_cases t owner lease with ⟨hrows, hnone⟩ | ⟨e, hlevel, hok, hput⟩
    · simp only [perform]
      exact .refused hrows
    have heq : l.release t owner lease = (.ok true, (l.release t owner lease).2) := by
      rw [← hok]
    simp only [perform]
    rw [heq]
    refine .rewritten hlevel hput (fun k n hr => ?_) (by simp)
    simp only [Reply.accepts, Reply.released.injEq, reduceCtorEq, or_false, false_or] at hr
    exact ⟨hr.1.symm, hr.2.symm⟩
  | commitOwned resource owner token write =>
    obtain ⟨hrows, hacc⟩ := l.commitOwned_cases t resource owner token write
    simp only [perform]
    split
    · rename_i heq
      have hrows' := (congrArg (fun x => x.2.rows) heq).symm.trans hrows
      refine ⟨fun k => (level_of_rows hrows' k).ge, fun k n hr => ?_, by simp⟩
      simp only [Reply.accepts, Reply.committed.injEq, reduceCtorEq, false_or] at hr
      obtain ⟨rfl, rfl⟩ := hr
      exact hacc _ (congrArg Prod.fst heq)
    · rename_i heq
      exact .refused ((congrArg (fun x => x.2.rows) heq).symm.trans hrows)
  | setInstance owner state => exact .refused rfl

/-- **One call.** Tokens never decrease, an accepted call carries the token on the row, and an
acquisition raises it; a fault changes none of this. -/
lemma step_level (l : Leases) (t : Ticks) (f : Fault) (c : Call) :
    LevelStep l (l.step t f c).2 (l.step t f c).1 := by
  cases f with
  | none => exact l.perform_level t c
  | rolledBack => exact .refused rfl
  | lostReply => exact ⟨(l.perform_level t c).mono, by simp [step, Reply.accepts], by simp [step]⟩

/-! ## Sequences of calls -/

/-- The order in which two replies about one resource may come. -/
def Reply.Before (resource : String) (first second : Reply) : Prop :=
  (∀ t t', first = .acquired resource t → second = .acquired resource t' → t < t') ∧
    (∀ t t', first = .acquired resource t → second.accepts resource t' → t ≤ t') ∧
    (∀ t t', first.accepts resource t → second.accepts resource t' → t ≤ t')

/-- Every reply of a run is about a token at least as large as the level at its start, and an
acquisition about a larger one. -/
lemma run_floor (l : Leases) (calls : List (Ticks × Fault × Call)) (resource : String) :
    ∀ reply ∈ (l.run calls).1, (∀ t, reply = .acquired resource t → l.level resource < t) ∧
        ∀ t, reply.accepts resource t → l.level resource ≤ t := by
  induction calls generalizing l with
  | nil => simp [run]
  | cons call rest ih =>
    obtain ⟨t, f, c⟩ := call
    have hstep := l.step_level t f c
    intro reply hmem
    rcases List.mem_cons.mp hmem with rfl | hmem
    · exact ⟨fun n hn => (hstep.acquired _ n hn).1, fun n hn => (hstep.accepted _ n hn).le⟩
    have htail := ih (l.step t f c).2 reply hmem
    have hmono := hstep.mono resource
    exact ⟨fun n hn => lt_of_le_of_lt hmono (htail.1 n hn),
      fun n hn => le_trans hmono (htail.2 n hn)⟩

/-- **Tokens order the replies of any run.** -/
lemma run_pairwise (l : Leases) (calls : List (Ticks × Fault × Call)) (resource : String) :
    (l.run calls).1.Pairwise (Reply.Before resource) := by
  induction calls generalizing l with
  | nil => exact List.Pairwise.nil
  | cons call rest ih =>
    obtain ⟨t, f, c⟩ := call
    have hstep := l.step_level t f c
    have hfloor := run_floor (l.step t f c).2 rest resource
    refine List.Pairwise.cons (fun reply hmem => ⟨?_, ?_, ?_⟩) (ih _)
    · intro a b ha hb
      rw [← (hstep.acquired _ a ha).2]
      exact (hfloor reply hmem).1 b hb
    · intro a b ha hb
      rw [← (hstep.acquired _ a ha).2]
      exact (hfloor reply hmem).2 b hb
    intro a b ha hb
    rw [← hstep.accepted _ a ha]
    exact le_trans (hstep.mono resource) ((hfloor reply hmem).2 b hb)

def Reply.acquiredToken (resource : String) : Reply → Option Nat
  | .acquired r t => if r = resource then some t else none
  | _ => none

/-- The token of an accepted owned write to the resource. -/
def Reply.committedToken (resource : String) : Reply → Option Nat
  | .committed r t => if r = resource then some t else none
  | _ => none

lemma Reply.acquiredToken_eq_some {t : Nat} :
    reply.acquiredToken resource = some t ↔ reply = .acquired resource t := by
  cases reply with
  | acquired r n => simp [acquiredToken]
  | _ => simp [acquiredToken]

lemma Reply.committedToken_eq_some {t : Nat} :
    reply.committedToken resource = some t ↔ reply = .committed resource t := by
  cases reply with
  | committed r n => simp [committedToken]
  | _ => simp [committedToken]

lemma holdsAt_unique {l : Leases} {now : Nat} {owner' : String} {token token' : Nat}
    (h : l.holdsAt now resource owner token)
    (h' : l.holdsAt now resource owner' token') : (owner, token) = (owner', token') := by
  unfold holdsAt at h h'
  cases hrow : l.rows.get resource with
  | none => simp [hrow] at h
  | some row =>
    simp only [hrow, Bool.and_eq_true, beq_iff_eq] at h h'
    rw [← h.1.1, ← h.1.2, ← h'.1.1, ← h'.1.2]

/-- **Lease fencing safety.** Any number of instances make any calls on any resources, in any
order, from any tables, with faults and clock movements as they come. For every resource:

* the tokens of successful acquisitions are strictly increasing;
* after every prefix of the calls, at any time, at most one owner and token satisfy the predicate
  of renewals and owned writes;
* after an acquisition has reported a token, no call with a smaller one is accepted, so that the
  tokens of accepted owned writes never decrease. -/
theorem fencing_safety (l : Leases) (calls : List (Ticks × Fault × Call)) (resource : String) :
    ((l.run calls).1.filterMap (Reply.acquiredToken resource)).Pairwise (· < ·) ∧
      (∀ k now owner token owner' token',
        (l.run (calls.take k)).2.holdsAt now resource owner token = true →
        (l.run (calls.take k)).2.holdsAt now resource owner' token' = true →
        (owner, token) = (owner', token')) ∧
      (∀ before after t, (l.run calls).1 = before ++ .acquired resource t :: after →
        ∀ reply ∈ after, ∀ t' < t, ¬ reply.accepts resource t') ∧
      ((l.run calls).1.filterMap (Reply.committedToken resource)).Pairwise (· ≤ ·) := by
  have hpair := l.run_pairwise calls resource
  refine ⟨?_, fun k now owner token owner' token' => holdsAt_unique, ?_, ?_⟩
  · rw [List.pairwise_filterMap]
    refine hpair.imp fun {a b} hab t ht t' ht' => ?_
    exact hab.1 t t' (Reply.acquiredToken_eq_some.mp ht) (Reply.acquiredToken_eq_some.mp ht')
  · intro before after t hrun reply hmem t' hlt hacc
    rw [hrun] at hpair
    have hlater := (List.pairwise_append.mp hpair).2.1
    have hle := (List.rel_of_pairwise_cons hlater hmem).2.1 t t' rfl hacc
    omega
  · rw [List.pairwise_filterMap]
    refine hpair.imp fun {a b} hab t ht t' ht' => ?_
    exact hab.2.2 t t' (.inr (.inr (Reply.committedToken_eq_some.mp ht)))
      (.inr (.inr (Reply.committedToken_eq_some.mp ht')))

/-- A released lease is taken over by its own previous owner under a new token, and the old token
is refused from then on. -/
example : (run { instances := Table.empty.put ("a", .active) }
      [({}, .none, .acquire "a" "run:1" 1000), ({}, .none, .release "a" ⟨"run:1", "a", 1, true⟩),
        ({}, .none, .acquire "a" "run:1" 1000),
        ({}, .none, .commitOwned "run:1" "a" 1 (.ok ())),
        ({}, .none, .commitOwned "run:1" "a" 2 (.ok ()))]).1 =
      [.acquired "run:1" 1, .released "run:1" 1, .acquired "run:1" 2, .refused,
        .committed "run:1" 2] := by
  decide

end Leases

end Laso
