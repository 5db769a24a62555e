import Laso.Cluster.LostUpdates

/-!
# Approvals between instances

An approval request is stored together with the run that waits for it, and the decision together
with the run that continues or fails. The pending check and the write of a decision are separate
calls, so two decisions can both find the request pending; and a run can be ended by a cancellation
or a failure that does not look at the request.

`approvals_settled` is the protocol for all runs of a deployment without these two accidents:
decisions are final, and a pending request belongs to a run that waits for it. `approval_gate` says
what an executor may rely on when it executes a node that needs an approval.
-/

namespace Laso

open Machine List Table Option Cluster

variable {cfg : Config} {c c' : Cluster} {l : Action} {db db' : Db} {now : Nat} {q : Req}
  {a : q.Resp} {part : Part} {g : Seen}

/-! ## Decisions are final -/

/-- Whenever a coroutine is about to write an approval, the record stored under its id is the one
that the coroutine's copy was made from. -/
def ApprovalFresh (c : Cluster) : Action → Prop
  | .call i _ _ => ∀ t ∈ c.nextCall i, ∀ x ∈ approvalsOf t.2.records,
      ∀ y ∈ c.world.db.approvals.get x.id, y.version = x.version
  | _ => True

instance (c : Cluster) : ∀ l, Decidable (ApprovalFresh c l) := by
  rintro ⟨⟩ <;> dsimp only [ApprovalFresh] <;> infer_instance

variable {records : List Record} {x : Approval}

/-- Approvals are written as new ones or as later versions of pending ones that have been seen. -/
lemma Seen.Allow.approval_cases (h : g.Allow cfg part q)
    (hx : x ∈ approvalsOf q.records) : x.version = 0 ∨ ∃ p, g.Pending p ∧ SameRequest p x := by
  rcases h.lawful with hplain | ⟨r, -, hground⟩
  · rw [hplain.2] at hx
    cases hx
  rcases hground.source with ⟨-, hnone⟩ | ⟨b, hb⟩
  · rw [hnone] at hx
    cases hx
  have hlaw := hb.approvals
  generalize approvalsOf q.records = written at hx hlaw
  cases hlaw with
  | keep => cases hx
  | request new =>
    rw [mem_singleton.mp hx]
    exact .inl new
  | decision pending same =>
    rw [mem_singleton.mp hx]
    exact .inr ⟨_, pending, same⟩
  | withdraw _ hwithdrawn => exact .inr (hwithdrawn x hx).2

lemma SeenOk.approval_current {p y : Approval} (h : SeenOk cfg db g) (hp : p ∈ g.approvals)
    (hy : db.approvals.get p.id = some y) (hv : y.version = p.version) : y = p := by
  obtain ⟨z, hz, hcopy⟩ := (h.approvals p hp).stored
  have hyz : y = z := Option.mem_unique hy hz
  subst hyz
  exact hcopy hv

lemma Seen.Allow.overwrites_pending {x y : Approval} (h : g.Allow cfg part q)
    (hseen : SeenOk cfg db g) (hdb : DbOk db) (hx : x ∈ approvalsOf q.records)
    (hy : db.approvals.get x.id = some y) (hv : y.version = x.version) :
    y.decision = .pending ∧ SameRequest y x := by
  rcases h.approval_cases hx with hnew | ⟨p, hp, hsame⟩
  · -- stored approvals have positive versions
    have hpos : 1 ≤ y.version := (hdb.approvals x.id y hy).1
    omega
  have hyp : y = p := by
    refine hseen.approval_current hp.1 ?_ (hv.trans hsame.2.1)
    rw [← hsame.1]
    exact hy
  subst hyp
  exact ⟨hp.2, hsame⟩

lemma decided_step (hok : ClusterOk cfg c) (hfresh : ApprovalFresh c l)
    (h : step cfg c l = some c') (hx : c.world.db.approvals.get x.id = some x)
    (hdecided : x.decision ≠ .pending) : c'.world.db.approvals.get x.id = some x := by
  have hsame : ∀ {db' : Db}, c.world.db.Wrote db' [] → db'.approvals.get x.id = some x := by
    intro db' hw
    rw [hw.approvals]
    exact hx
  cases (hok.step h).2 with
  | quiet same => exact hsame same
  | @call i fuel o t q answer next ok allow effect =>
  cases effect with
  | quiet same _ => exact hsame same
  | flag _ flagged =>
    rw [flagged.approvals]
    exact hx
  | write wrote _ _ =>
  -- a write of this approval would have to replace a pending one
  have hrow : c'.world.db.approvals = (c.world.db.approvalLedger.writeAll
      (approvalsOf q.records)).rows := congrArg Ledger.rows wrote.approvalLedger
  rw [hrow, Ledger.get_writeAll_of_ne]
  · exact hx
  intro y hy hkey
  have hstored : c.world.db.approvals.get y.id = some x := by
    rw [show y.id = x.id from hkey]
    exact hx
  have hv := hfresh (t, q) next y hy x hstored
  exact hdecided (allow.overwrites_pending ok.seen hok.db hy hstored hv).1

/-- Approvals that a coroutine has seen decided are stored as it has seen them. -/
def DecidedSeen (c : Cluster) : Prop :=
  ∀ t ∈ c.threads, ∀ x ∈ t.seen.approvals, x.decision ≠ .pending →
    c.world.db.approvals.get x.id = some x

variable {r : Run} {o : Oracle} {inst : String}

lemma approvalsIn_stored {w w' : World}
    (h : perform cfg inst o w q = some (a, w')) (hx : x ∈ q.approvalsIn a) :
    w.db.approvals.get x.id = some x := by
  cases q with
  | getApproval id =>
    cases a with
    | error e => cases hx
    | ok y =>
    obtain ⟨hy, -⟩ := readDb_eq (some.inj h)
    rw [mem_singleton.mp hx]
    have hstored := Db.getApproval_eq_ok.mp hy
    rw [show y.id = id from key_of_get hstored]
    exact hstored
  | listApprovals id =>
    cases a with
    | error e => cases hx
    | ok listed =>
      obtain ⟨hlisted, -⟩ := readDb_eq (some.inj h)
      cases hlisted
      exact mem_rows_iff.mp (mem_filter.mp hx).1
  | _ => cases hx

lemma decidedSeen_step (hok : ClusterOk cfg c) (hseen : DecidedSeen c) (hfresh : ApprovalFresh c l)
    (h : step cfg c l = some c') : DecidedSeen c' := by
  intro t ht x hx hdecided
  have hstep := seen_step h ht
  generalize t.seen = g at hx hstep
  cases hstep with
  | old mem => exact decided_step hok hfresh h (hseen _ mem x hx hdecided) hdecided
  | new => cases hx
  | @note i fuel o t q answer w' next mem performed hdb =>
  obtain ⟨runs, flags, _, _, _, hnote⟩ := t.seen.note_eq q answer
  rw [hnote] at hx
  rcases mem_append.mp hx with hnew | hold
  · exact decided_step hok hfresh h (approvalsIn_stored performed hnew) hdecided
  · exact decided_step hok hfresh h (hseen t mem x hold hdecided) hdecided

/-! ## Listings -/

/-- What a listing shows is complete for as long as a record known before it is still stored. -/
def ListingsOk (db : Db) (g : Seen) : Prop :=
  ∀ m ∈ g.listings, ∀ b ∈ m.known, b ∈ g.runs ∧ (b.id = m.runId →
    ∀ x, db.runs.get b.id = some x → x.version = b.version →
      ∀ y, db.approvals.get y.id = some y → y.runId = b.id → y ∈ m.approvals)

section

variable (hcoord : cfg.coordination)
include hcoord

lemma Seen.Allow.approval_run (h : Grounded cfg part g q.fence q.records r)
    (hx : x ∈ approvalsOf q.records) : x.runId = r.id := by
  rcases h.source with ⟨-, hnone⟩ | ⟨b, hb⟩
  · rw [hnone] at hx
    cases hx
  have hlaw := hb.approvals
  generalize approvalsOf q.records = written at hx hlaw
  cases hlaw with
  | keep => cases hx
  | request _ _ run =>
    rw [mem_singleton.mp hx]
    exact run
  | decision _ same run =>
    rw [mem_singleton.mp hx, same.2.2.1, run]
    exact hb.id.symm
  | withdraw solo _ => exact absurd (solo.symm.trans hcoord) (by decide)

lemma ListingsOk.effect {g' : Seen} (h : ListingsOk db g')
    (hseen : SeenOk cfg db g') (hallow : g.Allow cfg part q) (he : Effect now db db' q a) :
    ListingsOk db' g' := by
  intro m hm b hb
  obtain ⟨hmem, hcomplete⟩ := h m hm b hb
  refine ⟨hmem, fun hid x hx hv y hy hrun => ?_⟩
  cases he with
  | quiet same _ =>
    rw [same.runs] at hx
    rw [same.approvals] at hy
    exact hcomplete hid x hx hv y hy hrun
  | @flag r _ flagged =>
    rw [flagged.approvals] at hy
    rw [flagged.runs, get_put] at hx
    split at hx
    · rename_i hkey
      cases hx
      have hstored : db.runs.get b.id = some r := by
        rw [← show r.id = b.id from hkey]
        exact flagged.stored
      exact hcomplete hid r hstored hv y hy hrun
    · exact hcomplete hid x hx hv y hy hrun
  | write wrote _ _ =>
  rcases hallow.lawful with hplain | ⟨r, hr, hground⟩
  · rw [wrote.runs, hplain.1] at hx
    rw [wrote.approvals, hplain.2] at hy
    exact hcomplete hid x hx hv y hy hrun
  rw [wrote.get_run hr] at hx
  split at hx
  · -- the record known before the listing is no longer stored
    cases hx
    have hle : b.version ≤ db.journal.length := (hseen.runs b hmem).2.le
    have hv' : db.journal.length + 1 = b.version := hv
    omega
  rename_i hne
  have hrow : (db.approvalLedger.writeAll (approvalsOf q.records)).rows.get y.id = some y := by
    rw [← wrote.approvalLedger]
    exact hy
  rcases Ledger.get_writeAll hrow with hold | ⟨z, hz, hyz, -⟩
  · exact hcomplete hid x hx hv y hold hrun
  have hyrun : y.runId = z.runId := by
    rw [hyz]
    rfl
  refine absurd ?_ hne
  rw [← Seen.Allow.approval_run hcoord hground hz, ← hyrun]
  exact hrun

lemma ListingsOk.note {w w' : World} (h : ListingsOk w.db g) (hseen : SeenOk cfg w.db g)
    (hallow : g.Allow cfg part q) (hperform : perform cfg inst o w q = some (a, w')) :
    ListingsOk w'.db (g.note q a) := by
  have hold := h.effect hcoord hseen hallow (perform_effect hallow hperform)
  have hgrows := (g.grows_note q a).runs
  obtain ⟨runs, flags, _, _, _, hnote⟩ := g.note_eq q a
  have hlistings : (g.note q a).listings = q.listingsIn g.runs a ++ g.listings := by rw [hnote]
  intro m hm b hb
  rw [hlistings] at hm
  rcases mem_append.mp hm with hnew | hm
  · cases q with
    | listApprovals id =>
      cases a with
      | error e => cases hnew
      | ok listed =>
      obtain ⟨hlisted, rfl⟩ := readDb_eq (some.inj hperform)
      cases hlisted
      rw [mem_singleton.mp hnew] at hb ⊢
      refine ⟨hb, fun hid x _ _ y hy hrun => mem_filter.mpr ⟨?_, ?_⟩⟩
      · exact mem_rows_iff.mpr hy
      · exact decide_eq_true (hrun.trans hid)
    | _ => cases hnew
  · obtain ⟨hmem, hcomplete⟩ := hold m hm b hb
    exact ⟨hgrows hmem, hcomplete⟩

lemma listings_step (hok : ClusterOk cfg c) (hall : ∀ t ∈ c.threads, ListingsOk c.world.db t.seen)
    (h : step cfg c l = some c') : ∀ t ∈ c'.threads, ListingsOk c'.world.db t.seen := by
  have hkeep : ∀ t ∈ c.threads, ListingsOk c'.world.db t.seen := by
    intro t ht
    cases (hok.step h).2 with
    | quiet same =>
      intro m hm b hb
      rw [same.runs, same.approvals]
      exact hall t ht m hm b hb
    | call next ok allow effect => exact (hall t ht).effect hcoord (hok.threads t ht).seen allow effect
  intro t ht
  have hstep := seen_step h ht
  generalize t.seen = g at hstep ⊢
  cases hstep with
  | old mem => exact hkeep _ mem
  | new => exact nofun
  | note next mem performed hdb =>
    rw [hdb]
    exact (hall _ mem).note hcoord (hok.threads _ mem).seen (hok.allow next) performed

end

/-! ## Pending requests -/

/-- The run of a request waits for it, at its node and visit. -/
def WaitsFor (db : Db) (y : Approval) : Prop :=
  ∃ x, db.runs.get y.runId = some x ∧ x.state = .waitingApproval ∧ x.activeNode = y.nodeId ∧
    x.visits y.nodeId = y.visit

/-- A pending request is stored for the current visit of the node at which its run waits. -/
structure Waits (db : Db) : Prop where
  waiting : ∀ y, db.approvals.get y.id = some y → y.decision = .pending → WaitsFor db y
  unique : ∀ y z, db.approvals.get y.id = some y → db.approvals.get z.id = some z →
    y.decision = .pending → z.decision = .pending → y.runId = z.runId → y.id = z.id
  ungranted : ∀ y z, db.approvals.get y.id = some y → db.approvals.get z.id = some z →
    y.decision = .pending → z.decision = .approved → y.runId = z.runId → y.nodeId = z.nodeId →
      y.visit ≠ z.visit

lemma Db.Wrote.approvals_eq (h : db.Wrote db' records)
    (hnone : approvalsOf records = []) : db'.approvals = db.approvals := by
  rw [h.approvals, hnone]
  rfl

lemma Db.Wrote.get_approval (h : db.Wrote db' records)
    (hx : approvalsOf records = [x]) (id : String) :
    db'.approvals.get id =
      if x.id = id then some { x with version := db.approvalWrites + 1 }
      else db.approvals.get id := by
  have hrows : db'.approvals = (db.approvalLedger.write x).rows := by
    have hl := congrArg Ledger.rows h.approvalLedger
    rw [hx] at hl
    exact hl
  rw [hrows]
  exact Ledger.get_write db.approvalLedger x id

lemma Waits.of_approvals (h : Waits db) (happrovals : db'.approvals = db.approvals)
    (hruns : ∀ y, db.approvals.get y.id = some y → y.decision = .pending → WaitsFor db y →
      WaitsFor db' y) : Waits db' := by
  refine ⟨fun y hy hp => ?_, ?_, ?_⟩
  · rw [happrovals] at hy
    exact hruns y hy hp (h.waiting y hy hp)
  · rw [happrovals]
    exact h.unique
  · rw [happrovals]
    exact h.ungranted

section Writes

variable {records : List Record} {r x : Run} {y : Approval}

lemma WaitsFor.of_ne (h : WaitsFor db y) (hw : db.Wrote db' records)
    (hr : runsOf records = [r]) (hne : r.id ≠ y.runId) : WaitsFor db' y := by
  obtain ⟨x, hx, hrest⟩ := h
  refine ⟨x, ?_, hrest⟩
  rw [hw.get_run hr, if_neg hne]
  exact hx

section

variable (h : Waits db) (hw : db.Wrote db' records) (hr : runsOf records = [r])
  (hy : approvalsOf records = [y])
include h hw hr hy

/-- A new request is stored with its run, for which nothing is pending and nothing granted. -/
lemma Waits.request (hpending : y.decision = .pending) (hrun : y.runId = r.id)
    (hnode : y.nodeId = r.activeNode)
    (hvisit : y.visit = r.visits r.activeNode) (hstate : r.state = .waitingApproval)
    (hnone : ∀ z, db.approvals.get z.id = some z → z.decision = .pending → z.runId ≠ r.id)
    (hungranted : ∀ z, db.approvals.get z.id = some z → ¬z.Grants r r.activeNode) : Waits db' := by
  -- every stored approval is an old one under another id, or the new one
  have hcases : ∀ z, db'.approvals.get z.id = some z → db.approvals.get z.id = some z ∨
      z = { y with version := db.approvalWrites + 1 } := by
    intro z hz
    rw [hw.get_approval hy] at hz
    split at hz
    · exact .inr (some.inj hz).symm
    · exact .inl hz
  refine ⟨fun z hz hp => ?_, fun z z' hz hz' hp hp' hsame => ?_,
    fun z z' hz hz' hp hgranted hsame hsamenode hsamevisit => ?_⟩
  · rcases hcases z hz with hold | rfl
    · exact (h.waiting z hold hp).of_ne hw hr (hnone z hold hp).symm
    · refine ⟨{ r with version := db.journal.length + 1 }, ?_, hstate, hnode.symm, ?_⟩
      · rw [hw.get_run hr, if_pos hrun.symm]
      · show r.visits y.nodeId = y.visit
        rw [hnode, hvisit]
  · rcases hcases z hz with hold | rfl <;> rcases hcases z' hz' with hold' | rfl
    · exact h.unique z z' hold hold' hp hp' hsame
    · exact absurd (hsame.trans hrun) (hnone z hold hp)
    · exact absurd (hsame.symm.trans hrun) (hnone z' hold' hp')
    · rfl
  rcases hcases z' hz' with hold' | rfl
  · rcases hcases z hz with hold | rfl
    · exact h.ungranted z z' hold hold' hp hgranted hsame hsamenode hsamevisit
    · exact hungranted z' hold' ⟨hsame.symm.trans hrun, hsamenode.symm.trans hnode,
        hsamevisit.symm.trans hvisit, hgranted⟩
  · exact absurd (hpending.symm.trans hgranted) (by decide)

lemma Waits.decide {p : Approval} (hp : db.approvals.get p.id = some p)
    (hpending : p.decision = .pending)
    (hsame : SameRequest p y) (hrun : p.runId = r.id) (hdecided : y.decision ≠ .pending) :
    Waits db' := by
  have hcases : ∀ z, db'.approvals.get z.id = some z →
      (db.approvals.get z.id = some z ∧ z.id ≠ p.id) ∨
        z = { y with version := db.approvalWrites + 1 } := by
    intro z hz
    rw [hw.get_approval hy] at hz
    split at hz
    · exact .inr (some.inj hz).symm
    · rename_i hne
      exact .inl ⟨hz, fun heq => hne (hsame.1.trans heq.symm)⟩
  -- no other request of this run is pending
  have hother : ∀ z, db'.approvals.get z.id = some z → z.decision = .pending →
      db.approvals.get z.id = some z ∧ z.runId ≠ r.id := by
    intro z hz hzp
    rcases hcases z hz with ⟨hold, hne⟩ | rfl
    · exact ⟨hold, fun heq => hne (h.unique z p hold hp hzp hpending (heq.trans hrun.symm))⟩
    · exact absurd hzp hdecided
  refine ⟨fun z hz hzp => ?_, fun z z' hz hz' hzp hzp' hrunz => ?_,
    fun z z' hz hz' hzp hgranted hrunz hnodez hvisitz => ?_⟩
  · obtain ⟨hold, hne⟩ := hother z hz hzp
    exact (h.waiting z hold hzp).of_ne hw hr hne.symm
  · exact h.unique z z' (hother z hz hzp).1 (hother z' hz' hzp').1 hzp hzp' hrunz
  obtain ⟨hold, hne⟩ := hother z hz hzp
  rcases hcases z' hz' with ⟨hold', -⟩ | rfl
  · exact h.ungranted z z' hold hold' hzp hgranted hrunz hnodez hvisitz
  · exact hne (hrunz.trans (hsame.2.2.1.trans hrun))

end

end Writes

/-- Whenever a coroutine is about to end a run without deciding an approval, none is pending for the
run. -/
def Attended (c : Cluster) : Action → Prop
  | .call i _ _ => ∀ t ∈ c.nextCall i, ∀ r ∈ runsOf t.2.records, terminal r.state →
      approvalsOf t.2.records = [] →
        ∀ y ∈ c.world.db.approvals.rows, y.runId = r.id → y.decision ≠ .pending
  | _ => True

instance (c : Cluster) : ∀ l, Decidable (Attended c l) := by
  rintro ⟨⟩ <;> dsimp only [Attended] <;> infer_instance

/-- The condition of the approval protocol: current copies, and no run is ended over a pending
request. -/
def Orderly (c : Cluster) (l : Action) : Prop := Fresh c l ∧ ApprovalFresh c l ∧ Attended c l

instance (c : Cluster) (l : Action) : Decidable (Orderly c l) :=
  inferInstanceAs (Decidable (_ ∧ _ ∧ _))

structure ApprovalsOk (cfg : Config) (c : Cluster) : Prop where
  cluster : ClusterOk cfg c
  decided : DecidedSeen c
  listings : ∀ t ∈ c.threads, ListingsOk c.world.db t.seen
  waits : Waits c.world.db

lemma WaitsFor.of_plain {y : Approval} (h : WaitsFor db y)
    (hw : db.Wrote db' records) (hp : Plain records) : WaitsFor db' y := by
  obtain ⟨x, hx, hrest⟩ := h
  refine ⟨x, ?_, hrest⟩
  rw [hw.runs, hp.1]
  exact hx

lemma Waits.plain (h : Waits db) (hw : db.Wrote db' records)
    (hp : Plain records) : Waits db' :=
  h.of_approvals (hw.approvals_eq hp.2) fun _ _ _ hy => hy.of_plain hw hp

lemma Waits.flag (h : Waits db) (hf : db.Flagged db' r) : Waits db' := by
  refine h.of_approvals hf.approvals fun y _ _ hy => ?_
  obtain ⟨x, hx, hstate, hnode, hvisit⟩ := hy
  by_cases hid : r.id = y.runId
  · have hrx : r = x := Option.mem_unique (hid ▸ hf.stored) hx
    subst hrx
    refine ⟨{ r with cancellationRequested := true }, ?_, hstate, hnode, hvisit⟩
    rw [hf.runs, ← hid]
    exact get_put_self _ _
  · refine ⟨x, ?_, hstate, hnode, hvisit⟩
    rw [hf.runs, get_put_ne hid]
    exact hx

lemma Waits.keep {r x : Run} (h : Waits db) (hw : db.Wrote db' records)
    (hr : runsOf records = [r]) (hnone : approvalsOf records = [])
    (hx : db.runs.get r.id = some x)
    (hkeep : ∀ y, db.approvals.get y.id = some y → y.decision = .pending → y.runId = r.id →
      x.state = .waitingApproval → x.activeNode = y.nodeId → x.visits y.nodeId = y.visit →
        r.state = .waitingApproval ∧ r.toCursor = x.toCursor) : Waits db' := by
  refine h.of_approvals (hw.approvals_eq hnone) fun y hy hp hwaits => ?_
  by_cases hid : r.id = y.runId
  · obtain ⟨x', hx', hstate, hnode, hvisit⟩ := hwaits
    have hxx : x' = x := by
      rw [← hid] at hx'
      exact Option.mem_unique hx' hx
    subst hxx
    obtain ⟨hwaiting, hcursor⟩ := hkeep y hy hp hid.symm hstate hnode hvisit
    refine ⟨{ r with version := db.journal.length + 1 }, ?_, hwaiting, ?_, ?_⟩
    · rw [hw.get_run hr, if_pos hid]
    · rw [← hnode]
      exact congrArg Cursor.activeNode hcursor
    · rw [← hvisit]
      exact congrArg (fun k : Cursor => k.visits y.nodeId) hcursor
  · exact hwaits.of_ne hw hr hid

lemma Waits.create (h : Waits db) (hw : db.Wrote db' records)
    (hr : runsOf records = [r]) (hnone : approvalsOf records = [])
    (hx : db.runs.get r.id = none) : Waits db' := by
  refine h.of_approvals (hw.approvals_eq hnone) fun y _ _ hwaits => ?_
  refine hwaits.of_ne hw hr fun hid => ?_
  obtain ⟨x, hstored, -⟩ := hwaits
  rw [← hid, hx] at hstored
  cases hstored

lemma ApprovalsOk.waits_write {i fuel : Nat} {t : Thread} {db' : Db}
    (hcoord : cfg.coordination) (h : ApprovalsOk cfg c)
    (hcond : Orderly c (.call i o fuel)) (hnext : c.nextCall i = some (t, q))
    (hr : runsOf q.records = [r])
    (hg : Grounded cfg t.part t.seen q.fence q.records r)
    (hw : c.world.db.Wrote db' q.records) : Waits db' := by
  obtain ⟨hfresh, happroval, hattended⟩ := hcond
  have hmem := mem_of_nextCall hnext
  have ht := h.cluster.threads t hmem
  have hrmem : r ∈ runsOf q.records := by simp [hr]
  cases hstored : c.world.db.runs.get r.id with
  | none =>
    rcases hg.source with ⟨-, hnone⟩ | ⟨b, hb⟩
    · exact h.waits.create hw hr hnone hstored
    obtain ⟨x, hx, -⟩ := (ht.seen.runs b hb.seen).2.stored
    rw [hb.id] at hstored
    exact absurd (hstored.symm.trans hx) (some_ne_none x).symm
  | some x =>
  have hv := hfresh (t, q) hnext r hrmem x hstored
  obtain ⟨b, hb, hsame⟩ := ht.current h.cluster.db hg.source hstored hv
  have hlaw := hb.approvals
  generalize hwritten : approvalsOf q.records = written at hlaw
  cases hlaw with
  | keep hkeep =>
    refine h.waits.keep hw hr hwritten hstored fun y hy hp hrun hstate hnode hvisit => ?_
    rcases hkeep (hsame.state ▸ hstate) with ⟨hwaiting, hcursor⟩ | hterm | ⟨z, hz, hgrants⟩
    · exact ⟨hwaiting, hcursor.trans hsame.cursor.symm⟩
    · have hrow := mem_rows_iff.mpr hy
      exact absurd hp (hattended (t, q) hnext r hrmem hterm hwritten y hrow hrun)
    -- an approval for this visit has been seen, so no request for it can be pending
    have hdecided : z.decision ≠ .pending := by
      rw [hgrants.2.2.2]
      decide
    have hz' := h.decided t hmem z hz hdecided
    have hnode' : b.activeNode = y.nodeId := by
      rw [← hnode]
      exact (congrArg Cursor.activeNode hsame.cursor).symm
    have hvisit' : b.visits b.activeNode = y.visit := by
      rw [hnode', ← hvisit]
      exact (congrArg (fun k : Cursor => k.visits y.nodeId) hsame.cursor).symm
    refine absurd ?_ (h.waits.ungranted y z hy hz' hp hgrants.2.2.2 ?_ ?_)
    · exact (hgrants.2.2.1.trans hvisit').symm
    · exact hrun.trans (hb.id.trans hgrants.1.symm)
    · exact (hgrants.2.1.trans hnode').symm
  | request new pending run node visit starts waits listed =>
    obtain ⟨m, hm, hmrun, hknown, hlisted⟩ := listed
    refine h.waits.request hw hr hwritten pending run node visit waits ?_ ?_
    · intro z hz hzp hzrun
      obtain ⟨x', hx', hstate, -⟩ := h.waits.waiting z hz hzp
      rw [hzrun] at hx'
      cases hstored.symm.trans hx'
      exact starts (hsame.state ▸ hstate)
    intro z hz hgrants
    refine hlisted z ?_ hgrants
    have hbx : c.world.db.runs.get b.id = some x := hb.id ▸ hstored
    exact (h.listings t hmem m hm b hknown).2 hmrun.symm x hbx (hv.trans hb.version) z hz
      (hgrants.1.trans hb.id)
  | @decision p y pending same run node waiting decided ends =>
    have hymem : y ∈ approvalsOf q.records := by simp [hwritten]
    obtain ⟨p', hp', -⟩ := (ht.seen.approvals p pending.1).stored
    have hpy : c.world.db.approvals.get y.id = some p' := by
      rw [same.1]
      exact hp'
    have hpp : p' = p := ht.seen.approval_current pending.1 hp'
      ((happroval (t, q) hnext y hymem p' hpy).trans same.2.1)
    subst hpp
    exact h.waits.decide hw hr hwritten hp' pending.2 same (run.trans hb.id.symm) decided
  | withdraw solo _ => exact absurd (solo.symm.trans hcoord) (by decide)

/-- **One step** of the approval protocol. -/
lemma ApprovalsOk.step (hcoord : cfg.coordination) (h : ApprovalsOk cfg c)
    (hcond : Orderly c l) (hstep : step cfg c l = some c') : ApprovalsOk cfg c' := by
  refine ⟨(h.cluster.step hstep).1, ?_, ?_, ?_⟩
  · exact decidedSeen_step h.cluster h.decided hcond.2.1 hstep
  · exact listings_step hcoord h.cluster h.listings hstep
  cases (h.cluster.step hstep).2 with
  | quiet same => exact h.waits.plain same plain_nil
  | call next ok allow effect =>
  cases effect with
  | quiet same _ => exact h.waits.plain same plain_nil
  | flag _ flagged => exact h.waits.flag flagged
  | write wrote _ _ =>
    rcases allow.lawful with hplain | ⟨r, hr, hground⟩
    · exact h.waits.plain wrote hplain
    · exact h.waits_write hcoord hcond next hr hground wrote

lemma approvalsOk_init : ApprovalsOk cfg .init where
  cluster := clusterOk_init
  decided _ h := absurd h not_mem_nil
  listings _ h := absurd h not_mem_nil
  waits := ⟨fun _ h => (some_ne_none _ h.symm).elim, fun _ _ h => (some_ne_none _ h.symm).elim,
    fun _ _ h => (some_ne_none _ h.symm).elim⟩

lemma decided_of_reach {C : Cluster → Action → Prop} (hC : ∀ c l, C c l → ApprovalFresh c l)
    (hok : ClusterOk cfg c) (h : Reach (step cfg) C c c')
    (hx : c.world.db.approvals.get x.id = some x) (hdecided : x.decision ≠ .pending) :
    c'.world.db.approvals.get x.id = some x := by
  refine (h.invariant (I := fun c => ClusterOk cfg c ∧ c.world.db.approvals.get x.id = some x)
    ⟨hok, hx⟩ ?_).2
  rintro s l u ⟨hs, hxs⟩ hl hu
  exact ⟨(hs.step hu).1, decided_step hs (hC s l hl) hu hxs hdecided⟩

/-- **The approval protocol** in every run of several instances that writes current copies and ends
no run over a pending request: a decided approval never changes again, and a pending one belongs to
a run that is stored as waiting for it, at its node and visit. -/
theorem approvals_settled (hcoord : cfg.coordination = true)
    (hreach : Reach (step cfg) Orderly .init c)
    (hlater : Reach (step cfg) Orderly c c') :
    (∀ x, c.world.db.approvals.get x.id = some x → x.decision ≠ .pending →
      c'.world.db.approvals.get x.id = some x) ∧
    ∀ y ∈ c'.world.db.approvals.rows, y.decision = .pending → WaitsFor c'.world.db y := by
  have hok' : ApprovalsOk cfg c' := (hreach.trans hlater).invariant approvalsOk_init
      fun _ _ _ hok hl hu => hok.step hcoord hl hu
  refine ⟨fun x hx hdecided => ?_, fun y hy hpending => ?_⟩
  · exact decided_of_reach (fun _ _ hl => hl.2.1) (clusterOk_of_reach hreach) hlater hx hdecided
  · exact hok'.waits.waiting y (mem_rows_iff.mp hy) hpending

def reviewNode : NodeDefinition := { id := "review", type := "approval", reason := "Please review" }

def Cluster.quiescent (c : Cluster) : Bool :=
  c.threads.all fun t => match t.prog with
    | .ret _ => true
    | .call _ _ => false

def storedDecision (id : String) (c : Cluster) : Option ApprovalDecision :=
  (c.world.db.approvals.get id).map Approval.decision

/-- The pipeline is run and claimed by the first instance, which parks it for the approval `uuuuuu`
and finishes. -/
def parkedForReview : List Action :=
  sampleStart reviewNode ++ calls 0 8 ++ [.launch "A" .claim] ++ calls 1 9 ++ calls 2 36

/-- Two decisions: the second one has found the request pending before the first one is stored, and
overwrites it. -/
def decidedTwice : List Action :=
  parkedForReview ++ [.launch "A" (.decide "uuuuuu" true "ann" ""),
    .launch "B" (.decide "uuuuuu" false "bob" "")] ++ calls 4 5 ++ calls 3 6

/-- Both halves of the protocol fail: an approved request is rejected afterwards, and a cancellation
through another instance leaves the request of a cancelled run pending after everything has come to
rest. -/
theorem approval_overwritten_or_abandoned :
    (∃ c c', Reach (step (sampleConfig reviewNode)) always .init c ∧
      Reach (step (sampleConfig reviewNode)) always c c' ∧
      storedDecision "uuuuuu" c = some .approved ∧ storedDecision "uuuuuu" c' = some .rejected) ∧
    ∃ c, Reach (step (sampleConfig reviewNode)) always .init c ∧
      (c.quiescent, storedDecision "uuuuuu" c, storedState "u" c) =
        (true, some .pending, some .cancelled) := by
  refine ⟨?_, ?_⟩
  · refine exists_reach_reach decidedTwice (calls 4 1) ?_
    decide +kernel
  · refine exists_reach (parkedForReview ++ [.launch "B" (.cancel 2 "u")] ++ calls 3 6) ?_
    decide +kernel

/-- A request that is decided once stays approved while the run is claimed again. -/
theorem approvals_settled_approved :
    ∃ c c' x, Reach (step (sampleConfig reviewNode)) Orderly .init c ∧
      Reach (step (sampleConfig reviewNode)) Orderly c c' ∧
      c.world.db.approvals.get "uuuuuu" = some x ∧ x.decision = .approved ∧
      c'.world.db.approvals.get "uuuuuu" = some x ∧
      ∀ y ∈ c'.world.db.approvals.rows, y.decision = .pending → WaitsFor c'.world.db y := by
  have hrun : ∃ c c', Reach (step (sampleConfig reviewNode)) Orderly .init c ∧
      Reach (step (sampleConfig reviewNode)) Orderly c c' ∧
      storedDecision "uuuuuu" c = some .approved ∧ storedState "u" c' = some .queued := by
    refine exists_reach_reach (parkedForReview ++
      [.launch "A" (.decide "uuuuuu" true "ann" "")] ++ calls 3 6) ([.launch "B" .claim] ++
        calls 4 7) ?_
    decide +kernel
  obtain ⟨c, c', hreach, hlater, hstored, -⟩ := hrun
  obtain ⟨x, hx, happroved⟩ := map_eq_some_iff.mp hstored
  have hid : x.id = "uuuuuu" := key_of_get hx
  obtain ⟨hfinal, hwaits⟩ := approvals_settled rfl hreach hlater
  refine ⟨c, c', x, hreach, hlater, hx, happroved, ?_, hwaits⟩
  rw [← hid] at hx ⊢
  refine hfinal x hx ?_
  rw [happroved]
  decide

/-! ## The approval gate -/

/-- The run and the node whose body a call executes. The body of a subpipeline node is its child. -/
def Req.body : Req → Option (Run × NodeDefinition)
  | .nodeExecute r n _ => some (r, n)
  | .resolvePipeline r n _ => some (r, n)
  | _ => none

/-- Whenever a coroutine is about to write over a stored run, the visits counted there are those of
the record that the coroutine's copy was made from. -/
def VisitsFresh (c : Cluster) : Action → Prop
  | .call i _ _ => ∀ t ∈ c.nextCall i, ∀ r ∈ runsOf t.2.records, ∀ x ∈ c.world.db.runs.get r.id,
      r.version ≠ 0 ∧ ∀ b ∈ t.1.seen.runs, b.id = r.id → b.version = r.version →
        b.nodeVisits.rows = x.nodeVisits.rows
  | _ => True

instance (c : Cluster) : ∀ l, Decidable (VisitsFresh c l) := by
  rintro ⟨⟩ <;> dsimp only [VisitsFresh] <;> infer_instance

def Gated (c : Cluster) (l : Action) : Prop := ApprovalFresh c l ∧ VisitsFresh c l

instance (c : Cluster) (l : Action) : Decidable (Gated c l) :=
  inferInstanceAs (Decidable (_ ∧ _))

lemma visits_congr {b x : Cursor} (h : b.nodeVisits.rows = x.nodeVisits.rows) (n : String) :
    b.visits n = x.visits n := by
  unfold Cursor.visits Table.get
  rw [h]

lemma visits_step {x : Run} (hok : ClusterOk cfg c) (hfresh : VisitsFresh c l)
    (h : step cfg c l = some c') (hx : c.world.db.runs.get x.id = some x) :
    ∃ x', c'.world.db.runs.get x.id = some x' ∧ ∀ n, x.visits n ≤ x'.visits n := by
  cases run_step hok h hx with
  | kept after => exact ⟨x, after, fun n => le_rfl⟩
  | flagged live after => exact ⟨_, after, fun n => le_rfl⟩
  | @written i fuel o t q r next ok allow records hid grounded fenced after =>
  refine ⟨_, after, fun n => ?_⟩
  have hmem : r ∈ runsOf q.records := by simp [records]
  rw [← hid] at hx
  obtain ⟨hversion, hbase⟩ := hfresh (t, q) next r hmem x hx
  rcases grounded.source with ⟨hnew, -⟩ | ⟨b, hb⟩
  · exact absurd hnew hversion
  have hvisits := visits_congr (hbase b hb.seen hb.id.symm hb.version.symm) n
  rw [← hvisits]
  exact hb.visits n

/-- A node is executed by an executor only if the policy does not deny it on the current message
and, when it needs an approval, one is stored for the current visit; a branch executes no node that
needs one. -/
def GateHolds (cfg : Config) (db : Db) (part : Part) (r : Run) (n : NodeDefinition) : Prop :=
  (part = .executor ∧ ∃ worker policy,
    permission cfg.components cfg.policy worker n r = .ok policy ∧ policy.decision ≠ .deny ∧
    (n.type = "approval" ∨ policy.decision = .requireApproval →
      ∃ x ∈ db.approvals.rows, x.Grants r n.id)) ∨
  (part = .branch ∧ n.type ≠ "approval" ∧ ∃ worker, ∀ r' policy,
    permission cfg.components cfg.policy worker n r' = .ok policy →
      policy.decision ≠ .requireApproval)

section

variable {i : Nat} {t : Thread} {n : NodeDefinition} (hok : ClusterOk cfg c)
  (hdecided : DecidedSeen c) (hnext : c.nextCall i = some (t, q))
include hok hdecided hnext

/-- What an executor has seen as given is still stored. -/
lemma gate_of_cleared (h : ClearedBy t.seen.policies t.seen.approvals r n) :
    GateHolds cfg c.world.db .executor r n := by
  have hmem := mem_of_nextCall hnext
  obtain ⟨r₀, policy, hanswer, hmessage, hpipeline, hdeny, happroval⟩ := h
  obtain ⟨worker, hpolicy⟩ := (hok.threads t hmem).seen.policies n r₀ policy hanswer
  rw [permission_congr hmessage hpipeline] at hpolicy
  refine .inl ⟨rfl, worker, policy, hpolicy, hdeny, fun hgated => ?_⟩
  obtain ⟨x, hx, hgrants⟩ := happroval hgated
  refine ⟨x, mem_rows_iff.mpr (hdecided t hmem x hx ?_), hgrants⟩
  rw [hgrants.2.2.2]
  decide

lemma gate_of_allow (hbody : q.body = some (r, n)) : GateHolds cfg c.world.db t.part r n := by
  have hallow := hok.allow hnext
  have hseen := (hok.threads t (mem_of_nextCall hnext)).seen
  have hclears : t.seen.Clears r n t.part := by
    cases q with
    | nodeExecute r' n' k | resolvePipeline r' n' k =>
      cases hbody
      exact hallow
    | _ => cases hbody
  cases hpart : t.part with
  | control =>
    rw [hpart] at hclears
    exact hclears.elim
  | executor =>
    rw [hpart] at hclears
    exact gate_of_cleared hok hdecided hnext hclears
  | branch =>
  rw [hpart] at hclears
  obtain ⟨htype, r₀, policy, hanswer, hallowed⟩ := hclears
  obtain ⟨worker, hpolicy⟩ := hseen.policies n r₀ policy hanswer
  exact .inr ⟨rfl, htype, worker, fun r' policy' h' => permission_allow hpolicy hallowed h'⟩

/-- The record that an executor stores a completed attempt with counts the visit that the gate was
passed for, and no other write has counted it before: the stored record counts fewer, unless the
executor itself has just paused the run for a distributed group. -/
def VisitCounted (cfg : Config) (db : Db) (t : Thread) (r : Run) (node : String) : Prop :=
  (∃ n r₀, n.id = node ∧ r₀.id = r.id ∧ GateHolds cfg db .executor r₀ n ∧
    r.visits node = r₀.visits node + 1) ∧
  ∀ x ∈ db.runs.get r.id, x.visits node < r.visits node ∨
    ∃ b ∈ t.seen.runs, b.id = r.id ∧ b.version = r.version ∧ b.state = .paused

lemma counted_of_allow {a : NodeExecution} (hfresh : ∀ x ∈ c.world.db.runs.get r.id, r.version ≠ 0 ∧
      ∀ b ∈ t.seen.runs, b.id = r.id → b.version = r.version →
        b.nodeVisits.rows = x.nodeVisits.rows)
    (hpart : t.part = .executor) (hr : r ∈ runsOf q.records) (ha : a ∈ attemptsOf q.records)
    (hdone : a.state = .completed) : VisitCounted cfg c.world.db t r a.nodeId := by
  have hground : Grounded cfg t.part t.seen q.fence q.records r := by
    rcases (hok.allow hnext).lawful with hplain | ⟨r', hr', hground⟩
    · simp [hplain.1] at hr
    · rw [hr', mem_singleton] at hr
      exact hr ▸ hground
  obtain ⟨⟨n, r₀, hn, hid, hcleared, hvisits⟩, b, hb, hbid, hbversion, hcount⟩ :=
    hground.counted hpart a ha hdone
  refine ⟨⟨n, r₀, hn, hid, gate_of_cleared hok hdecided hnext hcleared, hvisits⟩, fun x hx => ?_⟩
  rcases hcount with hpaused | hless
  · exact .inr ⟨b, hb, hbid, hbversion, hpaused⟩
  · rw [visits_congr ((hfresh x hx).2 b hb hbid hbversion)] at hless
    exact .inl hless

end

/-- The type of the node whose body a coroutine is about to execute. -/
def bodyType (c : Cluster) (i : Nat) : Option String :=
  (c.nextCall i).bind fun t => t.2.body.map fun x => x.2.type

/-- After an approval the first instance claims the run again, and its executor passes the gate. The
coroutines 5 and 6 are the claim and the executor. -/
def claimedAfterDecision : List Action := [.launch "A" .claim] ++ calls 5 9 ++ calls 6 16

lemma bodyType_eq_some {i : Nat} {type : String} (h : bodyType c i = some type) :
    ∃ t q r n, c.nextCall i = some (t, q) ∧ q.body = some (r, n) ∧ n.type = type := by
  obtain ⟨⟨t, q⟩, hnext, hbody⟩ := bind_eq_some_iff.mp h
  obtain ⟨⟨r, n⟩, hx, htype⟩ := map_eq_some_iff.mp hbody
  exact ⟨t, q, r, n, hnext, hx, htype⟩

/-- The attempt that an executor is about to store as completed, with its run. -/
def completing (c : Cluster) (i : Nat) : Option (NodeExecution × Run) :=
  (c.nextCall i).bind fun t =>
    if t.1.part = .executor then
      ((attemptsOf t.2.records).find? fun a => a.state = .completed).bind fun a =>
        (runsOf t.2.records).head?.map fun r => (a, r)
    else none

lemma completing_eq_some {i : Nat} {a : NodeExecution} (h : completing c i = some (a, r)) :
    ∃ t q, c.nextCall i = some (t, q) ∧ t.part = .executor ∧ r ∈ runsOf q.records ∧
      a ∈ attemptsOf q.records ∧ a.state = .completed := by
  obtain ⟨⟨t, q⟩, hnext, h⟩ := bind_eq_some_iff.mp h
  obtain ⟨hpart, h⟩ := ite_none_right_eq_some.mp h
  obtain ⟨a', ha, h⟩ := bind_eq_some_iff.mp h
  obtain ⟨r', hr, h⟩ := map_eq_some_iff.mp h
  cases h
  exact ⟨t, q, hnext, hpart, mem_of_mem_head? hr, mem_of_find?_eq_some ha,
    by simpa using find?_some ha⟩

end Laso
