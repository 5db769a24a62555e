import Laso.Cluster.Machine

/-!
# Lost updates between instances

Operations read a run, decide what to do and write the whole record back; between the read and the
write any other instance may have written the run. Three guarantees are meant to survive this:
terminal states are final, only the owner of a run moves its cursor, and a recorded cancellation
request is kept. Each of them fails when a stale copy is written, and each is proved here for all
runs of a deployment in which that does not happen:

* `terminal_absorbing`: no write of a stale copy (`Fresh`);
* `cursor_fenced`: moreover no executor starts from a record without an owner (`OwnedStart`);
* `cancellation_durable`: no request is recorded between a writer's last look at the flag and its
  write (`FlagKnown`).

The runs that violate the guarantees are computed at the end of each section.
-/

namespace Laso

open Machine Option Cluster

variable {cfg : Config} {c c' : Cluster} {l : Action} {id : String} {x r : Run}

/-! ## What a step does to one stored run -/

/-- A step keeps the record of a run, sets its flag, or is a call that writes the run. -/
inductive RunStep (cfg : Config) (c c' : Cluster) (x : Run) : Action → Prop where
  | kept {l : Action} (after : c'.world.db.runs.get x.id = some x) : RunStep cfg c c' x l
  | flagged {l : Action} (live : terminal x.state = false)
      (after : c'.world.db.runs.get x.id = some { x with cancellationRequested := true }) :
      RunStep cfg c c' x l
  | written {i fuel : Nat} {o : Oracle} {t : Thread} {q : Req} {r : Run}
      (next : c.nextCall i = some (t, q)) (ok : ThreadOk cfg c.world.db t)
      (allow : t.seen.Allow cfg t.part q) (records : runsOf q.records = [r]) (id : r.id = x.id)
      (grounded : Grounded cfg t.part t.seen q.fence q.records r)
      (fenced : q.Fenced (c.world.db.leases.clock + o.ticks.first) c.world.db.leases)
      (after : c'.world.db.runs.get x.id =
        some { r with version := c.world.db.journal.length + 1 }) :
      RunStep cfg c c' x (.call i o fuel)

lemma run_step (hok : ClusterOk cfg c) (h : step cfg c l = some c')
    (hx : c.world.db.runs.get x.id = some x) : RunStep cfg c c' x l := by
  cases (hok.step h).2 with
  | quiet same =>
    refine .kept ?_
    rw [same.runs]
    exact hx
  | call next ok allow effect =>
  cases effect with
  | quiet same _ =>
    refine .kept ?_
    rw [same.runs]
    exact hx
  | @flag r request flagged =>
    by_cases hid : r.id = x.id
    · have hr : r = x := Option.mem_unique (hid ▸ flagged.stored) hx
      subst hr
      refine .flagged flagged.live ?_
      rw [flagged.runs]
      exact Table.get_put_self _ _
    · refine .kept ?_
      rw [flagged.runs, Table.get_put_ne hid]
      exact hx
  | write wrote _ fenced =>
  rcases allow.lawful with hplain | ⟨r, hr, hground⟩
  · refine .kept ?_
    rw [wrote.runs, hplain.1]
    exact hx
  have hget := wrote.get_run hr x.id
  split at hget
  · rename_i hid
    exact .written next ok allow hr hid hground fenced hget
  · exact .kept (hget.trans hx)

/-! ## Terminal states -/

/-- Whenever a coroutine is about to write a run, the record stored under its id is the one that
the coroutine's copy was made from. -/
def Fresh (c : Cluster) : Action → Prop
  | .call i _ _ => ∀ t ∈ c.nextCall i, ∀ r ∈ runsOf t.2.records,
      ∀ x ∈ c.world.db.runs.get r.id, x.version = r.version
  | _ => True

instance (c : Cluster) : ∀ l, Decidable (Fresh c l) := by
  rintro ⟨⟩ <;> dsimp only [Fresh] <;> infer_instance

lemma Fresh.copied {i fuel : Nat} {o : Oracle} {t : Thread} {q : Req}
    (hfresh : Fresh c (.call i o fuel)) (hok : ClusterOk cfg c)
    (hnext : c.nextCall i = some (t, q)) (ht : ThreadOk cfg c.world.db t)
    (hr : runsOf q.records = [r]) (hid : r.id = x.id)
    (hg : Grounded cfg t.part t.seen q.fence q.records r)
    (hx : c.world.db.runs.get x.id = some x) :
    ∃ b, Copied cfg t.part t.seen q.fence (approvalsOf q.records) b r ∧ SameButFlag x b := by
  have hmem : r ∈ runsOf q.records := by simp [hr]
  rw [← hid] at hx
  exact ht.current hok.db hg.source hx (hfresh (t, q) hnext r hmem x hx)

lemma SameButFlag.state {b : Run} (h : SameButFlag x b) : x.state = b.state := by
  rw [h]

lemma SameButFlag.cursor {b : Run} (h : SameButFlag x b) : x.toCursor = b.toCursor := by
  rw [h]

lemma terminal_step (hok : ClusterOk cfg c) (hfresh : Fresh c l)
    (h : step cfg c l = some c') (hx : c.world.db.runs.get x.id = some x)
    (hterm : terminal x.state) :
    ∃ x', c'.world.db.runs.get x.id = some x' ∧ x'.state = x.state := by
  cases run_step hok h hx with
  | kept after => exact ⟨x, after, rfl⟩
  | flagged live after => exact ⟨_, after, rfl⟩
  | written next ok allow records hid grounded fenced after =>
  obtain ⟨b, hb, hsame⟩ := hfresh.copied hok next ok records hid grounded hx
  have hlive := hb.live
  rw [← hsame.state, hterm] at hlive
  cases hlive

/-- **Terminal states are absorbing** in every run without writes of stale copies: what is stored
as terminal keeps its state. -/
theorem terminal_absorbing (hreach : Reach (step cfg) Fresh .init c)
    (hlater : Reach (step cfg) Fresh c c') (hr : c.world.db.runs.get id = some r)
    (hterm : terminal r.state = true) :
    ∃ r', c'.world.db.runs.get id = some r' ∧ r'.state = r.state := by
  refine (hlater.invariant (I := fun c => ClusterOk cfg c ∧
    ∃ r', c.world.db.runs.get id = some r' ∧ r'.state = r.state)
    ⟨clusterOk_of_reach hreach, r, hr, rfl⟩ ?_).2
  rintro t l u ⟨hok, x, hx, hstate⟩ hfresh hstep
  have hid : x.id = id := Table.key_of_get hx
  subst hid
  obtain ⟨x', hx', hstate'⟩ := terminal_step hok hfresh hstep hx (by rw [hstate, hterm])
  exact ⟨(hok.step hstep).1, x', hx', hstate'.trans hstate⟩

def plainNode : NodeDefinition := { id := "work", type := "function", binding := "identity" }

def storedState (id : String) (c : Cluster) : Option RunState :=
  (c.world.db.runs.get id).map Run.state

/-- A queued run is cancelled through one instance while the claim loop of another has already read
it: the claim restores the queued record. -/
theorem cancelled_run_requeued : ∃ c c', Reach (step (sampleConfig plainNode)) always .init c ∧
      Reach (step (sampleConfig plainNode)) always c c' ∧
      storedState "u" c = some .cancelled ∧ storedState "u" c' = some .queued := by
  -- both read version 1; the cancellation is written first, then the claim
  refine exists_reach_reach (sampleStart plainNode ++ calls 0 8 ++
    [.launch "B" (.cancel 2 "u"), .launch "A" .claim] ++ calls 1 5 ++ calls 2 6 ++ calls 1 1)
    (calls 2 1) ?_
  decide +kernel

/-- A run that is cancelled before anyone claims it stays cancelled. -/
theorem terminal_absorbing_cancelled :
    ∃ c c' r r', Reach (step (sampleConfig plainNode)) Fresh .init c ∧
      Reach (step (sampleConfig plainNode)) Fresh c c' ∧
      c.world.db.runs.get "u" = some r ∧ r.state = .cancelled ∧
      c'.world.db.runs.get "u" = some r' ∧ r'.state = .cancelled := by
  have hrun : ∃ c c', Reach (step (sampleConfig plainNode)) Fresh .init c ∧
      Reach (step (sampleConfig plainNode)) Fresh c c' ∧
      storedState "u" c = some .cancelled ∧ c'.threads.length = 3 := by
    refine exists_reach_reach (sampleStart plainNode ++ calls 0 8 ++
      [.launch "B" (.cancel 2 "u")] ++ calls 1 6) ([.launch "A" .claim] ++ calls 2 2) ?_
    decide +kernel
  obtain ⟨c, c', hreach, hlater, hstored, -⟩ := hrun
  obtain ⟨r, hr, hcancelled⟩ := map_eq_some_iff.mp hstored
  obtain ⟨r', hr', hsame⟩ := terminal_absorbing hreach hlater hr (by rw [hcancelled]; rfl)
  exact ⟨c, c', r, r', hreach, hlater, hr, hcancelled, hr', hsame.trans hcancelled⟩

/-! ## The cursor -/

/-- The run whose stored record an executor is about to adopt. -/
def Req.adopts : Req → Option String
  | .adoptRun id => some id
  | _ => none

/-- Whenever an executor starts, the record it adopts names an owner. -/
def OwnedStart (c : Cluster) : Action → Prop
  | .call i _ _ => ∀ t ∈ c.nextCall i, ∀ id ∈ t.2.adopts,
      ∀ x ∈ c.world.db.runs.get id, x.ownerInstanceId ≠ ""
  | _ => True

instance (c : Cluster) : ∀ l, Decidable (OwnedStart c l) := by
  rintro ⟨⟩ <;> dsimp only [OwnedStart] <;> infer_instance

/-- Neither stale copies are written nor records without an owner executed. -/
def OwnerWrites (c : Cluster) (l : Action) : Prop := Fresh c l ∧ OwnedStart c l

instance (c : Cluster) (l : Action) : Decidable (OwnerWrites c l) :=
  inferInstanceAs (Decidable (_ ∧ _))

def AdoptedOwned (c : Cluster) : Prop :=
  ∀ t ∈ c.threads, ∀ a ∈ t.seen.adopted, a.ownerInstanceId ≠ ""

lemma adoptedOwned_step (h : AdoptedOwned c) (hstart : OwnedStart c l)
    (hstep : step cfg c l = some c') : AdoptedOwned c' := by
  intro t ht a ha
  have hseen := seen_step hstep ht
  generalize t.seen = g at ha hseen
  cases hseen with
  | old mem => exact h _ mem a ha
  | new => cases ha
  | @note i fuel o t q answer w' next mem performed _ =>
  obtain ⟨runs, flags, _, _, _, hnote⟩ := t.seen.note_eq q answer
  rw [hnote] at ha
  rcases List.mem_append.mp ha with hnew | hold
  · cases q with
    | adoptRun id =>
      cases answer with
      | error e => cases hnew
      | ok r =>
        obtain ⟨hr, -⟩ := readDb_eq (Option.some.inj performed)
        rw [List.mem_singleton.mp hnew]
        exact hstart _ next id rfl r (Db.getRun_eq_ok.mp hr)
    | _ => cases hnew
  · exact h t mem a hold

/-- The step is a call of an executor that writes under a lease of the run which is current when
the call checks it. -/
def OwnerCommit (c : Cluster) (id : String) : Action → Prop
  | .call i o _ => ∃ t q owner token, c.nextCall i = some (t, q) ∧ t.part = .executor ∧
      q.credentials = some (owner, token) ∧
      c.world.db.leases.holdsAt (c.world.db.leases.clock + o.ticks.first) ("run:" ++ id) owner token
  | _ => False

lemma cursor_step (hcoord : cfg.coordination) (hok : ClusterOk cfg c)
    (howned : AdoptedOwned c) (hfresh : Fresh c l) (h : step cfg c l = some c')
    (hx : c.world.db.runs.get x.id = some x) (hr : c'.world.db.runs.get x.id = some r) :
    r.toCursor = x.toCursor ∨ OwnerCommit c x.id l := by
  cases run_step hok h hx with
  | kept after =>
    cases after.symm.trans hr
    exact .inl rfl
  | flagged live after =>
    cases after.symm.trans hr
    exact .inl rfl
  | @written i fuel o t q y next ok allow records hid grounded fenced after =>
  cases after.symm.trans hr
  obtain ⟨b, hb, hsame⟩ := hfresh.copied hok next ok records hid grounded hx
  rcases hb.cursor with hkeep | ⟨hpart, hadopted⟩
  · exact .inl (hkeep.trans hsame.cursor.symm)
  by_cases hfence : q.fence
  · obtain ⟨owner, token, hcred, hheld⟩ :=
      allow.held fenced hfence (by rw [records]; exact List.mem_singleton_self y)
    exact .inr ⟨t, q, owner, token, next, hpart, hcred, hid ▸ hheld⟩
  · obtain ⟨a, ha, hnone⟩ := hadopted hcoord hfence
    exact absurd hnone (howned t (mem_of_nextCall next) a ha)

/-- **Only owners move cursors** in every run without writes of stale copies in which executors
start from owned records: whatever step changes the stored cursor of a run is a commit of an
executor under the current lease of the run. -/
theorem cursor_fenced (hcoord : cfg.coordination = true)
    (hreach : Reach (step cfg) OwnerWrites .init c) (hl : OwnerWrites c l)
    (hstep : step cfg c l = some c') (hx : c.world.db.runs.get id = some x)
    (hr : c'.world.db.runs.get id = some r) (hne : r.toCursor ≠ x.toCursor) :
    OwnerCommit c id l := by
  have hinv : ClusterOk cfg c ∧ AdoptedOwned c := by
    refine hreach.invariant (I := fun c => ClusterOk cfg c ∧ AdoptedOwned c)
      ⟨clusterOk_init, nofun⟩ ?_
    rintro s m u ⟨hok, howned⟩ hm hu
    exact ⟨(hok.step hu).1, adoptedOwned_step howned hm.2 hu⟩
  have hid : x.id = id := Table.key_of_get hx
  subst hid
  exact (cursor_step hcoord hinv.1 hinv.2 hl.1 hstep hx hr).resolve_left hne

def storedNode (id : String) (c : Cluster) : Option String :=
  (c.world.db.runs.get id).map fun r => r.activeNode

/-- The call a coroutine is about to make is a write without a lease. -/
def unfencedWrite (c : Cluster) (i : Nat) : Bool :=
  match c.nextCall i with
  | some (_, .commit _) => true
  | _ => false

/-- The first instance is asked to run the pipeline, the second one to cancel the run, which it
reads. Then the first one claims the run and executes it up to its second node. -/
def claimedMeanwhile : List Action :=
  sampleStart plainNode ++ calls 0 8 ++ [.launch "B" (.cancel 2 "u"), .launch "A" .claim] ++
    calls 1 1 ++ calls 2 9 ++ calls 3 22

/-- A cancellation puts the cursor back to where it was when it read the run, without a lease,
although another instance owns the run and has moved on. -/
theorem cursor_restored_by_cancellation :
    ∃ c c', Reach (step (sampleConfig plainNode)) always .init c ∧
      step (sampleConfig plainNode) c (.call 1 {} 100) = some c' ∧
      unfencedWrite c 1 = true ∧ c.world.db.leases.holdsAt c.world.db.leases.clock "run:u" "A" 1 ∧
      storedNode "u" c = some "work" ∧ storedNode "u" c' = some "input" := by
  have hrun : ∃ c, Reach (step (sampleConfig plainNode)) always .init c ∧ (unfencedWrite c 1,
        c.world.db.leases.holdsAt c.world.db.leases.clock "run:u" "A" 1, storedNode "u" c,
        (step (sampleConfig plainNode) c (.call 1 {} 100)).map (storedNode "u")) =
      (true, true, some "work", some (some "input")) := by
    refine exists_reach (claimedMeanwhile ++ calls 1 4) ?_
    decide +kernel
  obtain ⟨c, hreach, hview⟩ := hrun
  simp only [Prod.mk.injEq] at hview
  obtain ⟨hwrite, hlease, hnode, hafter⟩ := hview
  obtain ⟨c', hstep, hnode'⟩ := map_eq_some_iff.mp hafter
  exact ⟨c, c', hreach, hstep, hwrite, hlease, hnode, hnode'⟩

/-- The first checkpoint that moves a cursor is a commit of the owner. -/
theorem cursor_fenced_first_node :
    ∃ c c' x r, Reach (step (sampleConfig plainNode)) OwnerWrites .init c ∧
      step (sampleConfig plainNode) c (.call 3 {} 100) = some c' ∧
      c.world.db.runs.get "u" = some x ∧ c'.world.db.runs.get "u" = some r ∧
      r.toCursor ≠ x.toCursor ∧ OwnerCommit c "u" (.call 3 {} 100) := by
  have hrun : ∃ c, Reach (step (sampleConfig plainNode)) OwnerWrites .init c ∧
      (decide (OwnerWrites c (.call 3 {} 100)), storedNode "u" c,
        (step (sampleConfig plainNode) c (.call 3 {} 100)).map (storedNode "u")) =
      (true, some "input", some (some "work")) := by
    refine exists_reach (claimedMeanwhile.dropLast) ?_
    decide +kernel
  obtain ⟨c, hreach, hview⟩ := hrun
  simp only [Prod.mk.injEq, decide_eq_true_eq] at hview
  obtain ⟨hl, hnode, hafter⟩ := hview
  obtain ⟨c', hstep, hnode'⟩ := map_eq_some_iff.mp hafter
  obtain ⟨x, hx, hxnode⟩ := map_eq_some_iff.mp hnode
  obtain ⟨r, hr, hrnode⟩ := map_eq_some_iff.mp hnode'
  have hne : r.toCursor ≠ x.toCursor := by
    intro heq
    have hactive : r.activeNode = x.activeNode := congrArg Cursor.activeNode heq
    rw [hrnode, hxnode] at hactive
    exact absurd hactive (by decide)
  exact ⟨c, c', x, r, hreach, hstep, hx, hr, hne, cursor_fenced rfl hreach hl hstep hx hr hne⟩

/-! ## The cancellation flag -/

/-- Whenever a coroutine is about to write a run for which a cancellation is recorded, its last look
at the flag of the run has shown it. -/
def FlagKnown (c : Cluster) : Action → Prop
  | .call i _ _ => ∀ t ∈ c.nextCall i, ∀ r ∈ runsOf t.2.records, ∀ x ∈ c.world.db.runs.get r.id,
      x.cancellationRequested → t.1.seen.flags r.id
  | _ => True

instance (c : Cluster) : ∀ l, Decidable (FlagKnown c l) := by
  rintro ⟨⟩ <;> dsimp only [FlagKnown] <;> infer_instance

lemma cancellation_step (hcoord : cfg.coordination) (hok : ClusterOk cfg c)
    (hknown : FlagKnown c l) (h : step cfg c l = some c')
    (hx : c.world.db.runs.get x.id = some x) (hflag : x.cancellationRequested) :
    ∃ x', c'.world.db.runs.get x.id = some x' ∧ x'.cancellationRequested := by
  cases run_step hok h hx with
  | kept after => exact ⟨x, after, hflag⟩
  | flagged live after => exact ⟨_, after, rfl⟩
  | @written i fuel o t q r next ok allow records hid grounded fenced after =>
  have hmem : r ∈ runsOf q.records := by simp [records]
  have hseen : t.seen.flags r.id := by
    rw [← hid] at hx
    exact hknown (t, q) next r hmem x hx hflag
  exact ⟨_, after, grounded.flag hcoord hseen⟩

/-- **Cancellation requests are durable** in every run in which no request is recorded between a
writer's last look at the flag and its write. -/
theorem cancellation_durable (hcoord : cfg.coordination = true)
    (hreach : Reach (step cfg) FlagKnown .init c)
    (hlater : Reach (step cfg) FlagKnown c c') (hr : c.world.db.runs.get id = some r)
    (hflag : r.cancellationRequested = true) :
    ∃ r', c'.world.db.runs.get id = some r' ∧ r'.cancellationRequested = true := by
  refine (hlater.invariant (I := fun c => ClusterOk cfg c ∧
    ∃ r', c.world.db.runs.get id = some r' ∧ r'.cancellationRequested)
    ⟨clusterOk_of_reach hreach, r, hr, hflag⟩ ?_).2
  rintro t l u ⟨hok, x, hx, hxflag⟩ hknown hstep
  have hid : x.id = id := Table.key_of_get hx
  subst hid
  exact ⟨(hok.step hstep).1, cancellation_step hcoord hok hknown hstep hx hxflag⟩

def storedFlag (id : String) (c : Cluster) : Option Bool :=
  (c.world.db.runs.get id).map Run.cancellationRequested

/-- The request is recorded between the look of the owner's checkpoint at the flag and its commit,
which clears it. -/
theorem cancellation_cleared_by_checkpoint :
    ∃ c c', Reach (step (sampleConfig plainNode)) always .init c ∧
      Reach (step (sampleConfig plainNode)) always c c' ∧
      (storedState "u" c, storedFlag "u" c) = (some .queued, some true) ∧
      (storedState "u" c', storedFlag "u" c') = (some .starting, some false) := by
  refine exists_reach_reach (sampleStart plainNode ++ calls 0 8 ++ [.launch "A" .claim] ++
    calls 1 9 ++ calls 2 2 ++ [.launch "B" (.cancel 2 "u")] ++ calls 3 2) (calls 2 1) ?_
  decide +kernel

/-- A request that the owner's next checkpoint sees is kept by it. -/
theorem cancellation_durable_checkpoint :
    ∃ c c' r r', Reach (step (sampleConfig plainNode)) FlagKnown .init c ∧
      Reach (step (sampleConfig plainNode)) FlagKnown c c' ∧
      c.world.db.runs.get "u" = some r ∧ r.cancellationRequested = true ∧
      c'.world.db.runs.get "u" = some r' ∧ r'.cancellationRequested = true := by
  have hrun : ∃ c c', Reach (step (sampleConfig plainNode)) FlagKnown .init c ∧
      Reach (step (sampleConfig plainNode)) FlagKnown c c' ∧
      storedFlag "u" c = some true ∧ storedState "u" c' = some .running := by
    refine exists_reach_reach (sampleStart plainNode ++ calls 0 8 ++ [.launch "A" .claim] ++
      calls 1 9 ++ calls 2 3 ++ [.launch "B" (.cancel 2 "u")] ++ calls 3 2) (calls 2 2) ?_
    decide +kernel
  obtain ⟨c, c', hreach, hlater, hstored, -⟩ := hrun
  obtain ⟨r, hr, hflag⟩ := map_eq_some_iff.mp hstored
  obtain ⟨r', hr', hflag'⟩ := cancellation_durable rfl hreach hlater hr hflag
  exact ⟨c, c', r, r', hreach, hlater, hr, hflag, hr', hflag'⟩

/-! ## Messages -/

/-- **A run only works on messages of its own**, along every run of the deployment, with stale writes
and crashes: the message of a stored cursor and those of its ready tokens name it as their run. -/
theorem stored_runs_own_messages (hreach : Reach (step cfg) always .init c)
    (hr : c.world.db.runs.get id = some r) : r.OwnMessages :=
  (clusterOk_of_reach hreach).db.messages id r hr

/-- The first node has been executed and its checkpoint has moved the cursor on. -/
theorem stored_runs_own_messages_moved : ∃ c r,
    Reach (step (sampleConfig plainNode)) always .init c ∧ c.world.db.runs.get "u" = some r ∧
      r.activeNode = "work" ∧ r.OwnMessages := by
  obtain ⟨c, hreach, hmoved⟩ : ∃ c, Reach (step (sampleConfig plainNode)) always .init c ∧
      storedNode "u" c = some "work" :=
    exists_reach claimedMeanwhile (by decide +kernel)
  obtain ⟨r, hr, hnode⟩ := map_eq_some_iff.mp hmoved
  exact ⟨c, r, hreach, hr, hnode, stored_runs_own_messages hreach hr⟩

end Laso
