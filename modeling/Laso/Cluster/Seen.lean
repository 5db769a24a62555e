import Laso.Runtime.BranchLaw
import Laso.Runtime.ExecutorLaw

/-!
# What an operation has seen

With several instances every storage call is a step of its own, and between two calls of an
operation anything can happen to the store. What an operation can rely on is what it has **seen**:
the run records it has read or written, the approvals it has read, the last value of each
cancellation flag it looked at, the answers of the policy.

`Lawful` says how a write of an operation relates to what it has seen, and `lawWatch` is the
observer of this law: every run written is a new one or a copy of a record seen before, with the
version of that record; an unfenced write leaves the cursor alone; an approval is written either as
a new request, together with the run that waits for it, or as a decision on a pending one.
-/

namespace Laso

open List

/-- The approvals of a run as they were listed, with the records of runs known at that time. -/
structure Listing where
  known : List Run
  runId : String
  approvals : List Approval

structure Seen where
  /-- Run records read to be written back, and run records written. -/
  runs : List Run := []
  /-- The last look at the cancellation flag of a run. -/
  flags : String → Bool := fun _ => false
  approvals : List Approval := []
  listings : List Listing := []
  /-- The records executors started from. -/
  adopted : List Run := []
  policies : Answers := []
  /-- Node work read to be written back. -/
  works : List NodeWork := []
  /-- Leases acquired and not yet written under. -/
  leases : List LeaseRecord := []
  /-- Node work claimed, with the tokens of the leases. -/
  claims : List (String × Nat) := []
  /-- The node work the coroutine executes, with the token of the lease it was claimed under. -/
  duty : Option (String × Nat) := none

def Req.approvalsIn : (q : Req) → q.Resp → List Approval
  | .getApproval _, .ok a => [a]
  | .listApprovals _, .ok approvals => approvals
  | _, _ => []

/-- The listing an answer is, with the runs known when it comes. -/
def Req.listingsIn (known : List Run) : (q : Req) → q.Resp → List Listing
  | .listApprovals id, .ok approvals => [⟨known, id, approvals⟩]
  | _, _ => []

def Req.adoptedIn : (q : Req) → q.Resp → List Run
  | .adoptRun _, .ok r => [r]
  | _, _ => []

def Req.policiesIn : (q : Req) → q.Resp → Answers
  | .permission n r, .ok policy => [(n, r, policy)]
  | _, _ => []

namespace Seen

variable (g : Seen)

def look (id : String) (flag : Bool) : Seen :=
  { g with flags := Function.update g.flags id flag }

def saw (r : Run) : Seen :=
  { g with runs := r :: g.runs, flags := Function.update g.flags r.id r.cancellationRequested }

variable (records : List Record) (version : Nat)

/-- A commit that answered with the number of its write. -/
def wrote : Seen :=
  match runsOf records with
  | r :: _ => g.saw { r with version := version }
  | [] => g

variable (key : String) (token : Nat) (works : List NodeWork)

def spend : Seen :=
  { g with
    leases := g.leases.filter fun l => ¬(l.resourceKey = key ∧ l.fencingToken = token)
    claims := (works.filter fun w => w.state = .running).map (fun w => (w.id, token)) ++ g.claims }

/-- What an answer adds. The completion of a session run ends the work on it, so it adds nothing. -/
def note : (q : Req) → q.Resp → Seen
  | .getRun _, .ok r => g.saw r
  | .adoptRun _, .ok r => { g.saw r with adopted := r :: g.adopted }
  | .scanRuns, .ok rs => rs.foldr (fun r g => g.saw r) g
  | .readCancellation id, .ok flag => g.look id flag
  | .readCancellation id, .error e => if e.code = .notFound then g.look id false else g
  | .getApproval _, .ok a => { g with approvals := a :: g.approvals }
  | .listApprovals id, .ok approvals =>
    { g with
      approvals := approvals ++ g.approvals
      listings := ⟨g.runs, id, approvals⟩ :: g.listings }
  | .commit records, .ok version => g.wrote records version
  | .commitOwned records key _ token, .ok version =>
    (g.wrote records version).spend key token (worksOf records)
  | .commitOwned _ key _ token, .error _ => g.spend key token []
  | .bindSessionTurnRun r, .ok (some version) => g.saw { r with version := version }
  | .uuid, id => g.look id false
  | .permission n r, .ok policy => { g with policies := (n, r, policy) :: g.policies }
  | .getNodeWork _, .ok w => { g with works := w :: g.works }
  | .acquire _, .ok (some lease) => { g with leases := lease :: g.leases }
  | _, _ => g

/-- Everything but the flags and the leases is only ever added to. -/
structure Grows (g g' : Seen) : Prop where
  runs : g.runs ⊆ g'.runs
  approvals : g.approvals ⊆ g'.approvals
  listings : g.listings ⊆ g'.listings
  adopted : g.adopted ⊆ g'.adopted
  policies : g.policies ⊆ g'.policies
  works : g.works ⊆ g'.works
  duty : g'.duty = g.duty

lemma Grows.refl : Grows g g :=
  ⟨List.Subset.refl _, List.Subset.refl _, List.Subset.refl _, List.Subset.refl _,
    List.Subset.refl _, List.Subset.refl _, rfl⟩

lemma Grows.trans {a b c : Seen} (h : Grows a b) (h' : Grows b c) : Grows a c :=
  ⟨List.Subset.trans h.runs h'.runs, List.Subset.trans h.approvals h'.approvals,
    List.Subset.trans h.listings h'.listings, List.Subset.trans h.adopted h'.adopted,
    List.Subset.trans h.policies h'.policies, List.Subset.trans h.works h'.works,
    h'.duty.trans h.duty⟩

lemma grows_look (id : String) (flag : Bool) : Grows g (g.look id flag) := { Grows.refl g with }

lemma grows_saw (r : Run) : Grows g (g.saw r) := { Grows.refl g with runs := subset_cons_self _ _ }

lemma grows_spend : Grows g (g.spend key token works) := { Grows.refl g with }

lemma grows_wrote : Grows g (g.wrote records version) := by
  unfold wrote
  split
  · exact grows_saw g _
  · exact Grows.refl g

lemma grows_scan (rs : List Run) : Grows g (rs.foldr (fun r g => g.saw r) g) := by
  induction rs with
  | nil => exact Grows.refl g
  | cons r rest ih => exact ih.trans (grows_saw _ r)

/-- **What has been seen stays seen.** -/
lemma grows_note (q : Req) (a : q.Resp) : Grows g (g.note q a) := by
  cases q with
  | getRun id => cases a <;> first | exact grows_saw g _ | exact Grows.refl g
  | adoptRun id =>
    cases a with
    | error e => exact Grows.refl g
    | ok r =>
      exact { Grows.refl g with
        runs := subset_cons_self _ _
        adopted := subset_cons_self _ _ }
  | scanRuns => cases a <;> first | exact grows_scan g _ | exact Grows.refl g
  | readCancellation id =>
    cases a with
    | ok flag => exact grows_look g id flag
    | error e =>
    show Grows g (if e.code = .notFound then g.look id false else g)
    split
    · exact grows_look g id false
    · exact Grows.refl g
  | getApproval id =>
    cases a with
    | error e => exact Grows.refl g
    | ok a => exact { Grows.refl g with approvals := subset_cons_self _ _ }
  | listApprovals id =>
    cases a with
    | error e => exact Grows.refl g
    | ok a =>
      exact { Grows.refl g with
        approvals := subset_append_right _ _
        listings := subset_cons_self _ _ }
  | commit records => cases a <;> first | exact grows_wrote g _ _ | exact Grows.refl g
  | commitOwned records key owner token =>
    cases a with
    | ok version => exact (grows_wrote g _ _).trans (grows_spend _ _ _ _)
    | error e => exact grows_spend g _ _ _
  | getNodeWork id =>
    cases a with
    | ok w => exact { Grows.refl g with works := subset_cons_self _ _ }
    | error e => exact Grows.refl g
  | acquire key =>
    rcases a with e | _ | lease
    · exact Grows.refl g
    · exact Grows.refl g
    · exact { Grows.refl g with }
  | bindSessionTurnRun r =>
    rcases a with e | _ | version
    · exact Grows.refl g
    · exact Grows.refl g
    · exact grows_saw g _
  | uuid => exact grows_look g a false
  | permission n r =>
    cases a with
    | error e => exact Grows.refl g
    | ok policy => exact { Grows.refl g with policies := subset_cons_self _ _ }
  | _ => exact Grows.refl g

lemma scan_eq (rs : List Run) :
    ∃ runs flags, rs.foldr (fun r g => g.saw r) g = { g with runs, flags } := by
  induction rs with
  | nil => exact ⟨g.runs, g.flags, rfl⟩
  | cons r rest ih =>
    obtain ⟨runs, flags, h⟩ := ih
    rw [foldr_cons, h]
    exact ⟨_, _, rfl⟩

lemma wrote_eq :
    ∃ runs flags, g.wrote records version = { g with runs, flags } := by
  unfold wrote
  split
  · exact ⟨_, _, rfl⟩
  · exact ⟨g.runs, g.flags, rfl⟩

lemma note_eq (q : Req) (a : q.Resp) : ∃ runs flags works leases claims, g.note q a =
    { runs, flags, works, leases, claims
      approvals := q.approvalsIn a ++ g.approvals
      listings := q.listingsIn g.runs a ++ g.listings
      adopted := q.adoptedIn a ++ g.adopted
      policies := q.policiesIn a ++ g.policies
      duty := g.duty } := by
  have hwrote : ∀ records version, ∃ runs flags works leases claims, g.wrote records version =
      { g with runs, flags, works, leases, claims } := by
    intro records version
    obtain ⟨runs, flags, h⟩ := wrote_eq g records version
    exact ⟨runs, flags, _, _, _, h⟩
  cases q with
  | scanRuns =>
    cases a with
    | ok rs =>
      obtain ⟨runs, flags, h⟩ := scan_eq g rs
      exact ⟨runs, flags, _, _, _, h⟩
    | error e => exact ⟨_, _, _, _, _, rfl⟩
  | readCancellation id =>
    cases a with
    | ok flag => exact ⟨_, _, _, _, _, rfl⟩
    | error e =>
      show ∃ runs flags works leases claims,
        (if e.code = .notFound then g.look id false else g) = _
      split <;> exact ⟨_, _, _, _, _, rfl⟩
  | commit records => cases a <;> first | exact hwrote _ _ | exact ⟨_, _, _, _, _, rfl⟩
  | commitOwned records key owner token =>
    cases a with
    | ok version =>
      obtain ⟨runs, flags, works, leases, claims, h⟩ := hwrote records version
      show ∃ runs flags works leases claims,
        (g.wrote records version).spend key token (worksOf records) = _
      rw [h]
      exact ⟨_, _, _, _, _, rfl⟩
    | error e => exact ⟨_, _, _, _, _, rfl⟩
  | bindSessionTurnRun r | acquire key => rcases a with e | _ | _ <;> exact ⟨_, _, _, _, _, rfl⟩
  | getRun id | adoptRun id | getApproval id | listApprovals id | permission n r | getNodeWork id =>
    cases a <;> exact ⟨_, _, _, _, _, rfl⟩
  | _ => exact ⟨_, _, _, _, _, rfl⟩

end Seen

/-! ## The law of writes -/

/-- An approval record and a later version of the same request. -/
def SameRequest (p a : Approval) : Prop :=
  a.id = p.id ∧ a.version = p.version ∧ a.runId = p.runId ∧ a.nodeId = p.nodeId ∧ a.visit = p.visit

def Seen.Pending (g : Seen) (p : Approval) : Prop := p ∈ g.approvals ∧ p.decision = .pending

/-- What approvals are written together with the run `r`, made from the record `b`. -/
inductive ApprovalLaw (cfg : Config) (g : Seen) (b r : Run) : List Approval → Prop where
  /-- None. A run that waits for an approval is written as it is, ends, or continues after the
  approval has been seen. -/
  | keep (h : b.state = .waitingApproval → (r.state = .waitingApproval ∧ r.toCursor = b.toCursor) ∨
      terminal r.state ∨ ∃ a ∈ g.approvals, a.Grants b b.activeNode) :
      ApprovalLaw cfg g b r []
  /-- A new request for the current visit of the active node, which starts the wait. The approvals
  listed since `b` was stored do not contain one for this visit. -/
  | request {a : Approval} (new : a.version = 0) (pending : a.decision = .pending)
      (run : a.runId = r.id) (node : a.nodeId = r.activeNode)
      (visit : a.visit = r.visits r.activeNode) (starts : b.state ≠ .waitingApproval)
      (waits : r.state = .waitingApproval)
      (listed : ∃ l ∈ g.listings, l.runId = b.id ∧ b ∈ l.known ∧
        ∀ x ∈ l.approvals, ¬x.Grants r r.activeNode) :
      ApprovalLaw cfg g b r [a]
  /-- A decision on a pending request, which ends the wait. -/
  | decision {p a : Approval} (pending : g.Pending p) (same : SameRequest p a)
      (run : p.runId = b.id) (node : p.nodeId = b.activeNode) (waiting : b.state = .waitingApproval)
      (decided : a.decision ≠ .pending) (ends : r.state ≠ .waitingApproval) :
      ApprovalLaw cfg g b r [a]
  /-- A single owner withdraws the pending requests of a run it cancels. -/
  | withdraw {approvals : List Approval} (solo : cfg.coordination = false)
      (h : ∀ a ∈ approvals, a.decision = .cancelled ∧ ∃ p, g.Pending p ∧ SameRequest p a) :
      ApprovalLaw cfg g b r approvals

inductive Part where
  | control | executor | branch
  deriving DecidableEq, Repr

/-- The run `r` is a copy of the record `b` that may be written with these approvals; `fenced` says
that the write is checked against a lease. Only executors change the cursor, and with several
instances only under a lease, unless the record they adopted had no owner. -/
structure Copied (cfg : Config) (part : Part) (g : Seen) (fenced : Prop) (approvals : List Approval)
    (b r : Run) : Prop where
  seen : b ∈ g.runs
  id : r.id = b.id
  version : r.version = b.version
  live : terminal b.state = false
  visits : ∀ n, b.visits n ≤ r.visits n
  cursor : r.toCursor = b.toCursor ∨ (part = .executor ∧ (cfg.coordination → ¬fenced →
    ∃ a ∈ g.adopted, a.ownerInstanceId = ""))
  approvals : ApprovalLaw cfg g b r approvals

variable (cfg : Config) (part : Part)

/-- Where a run to be written comes from: it is a new one or a copy. -/
def Source (g : Seen) (fenced : Prop) (approvals : List Approval)
    (r : Run) : Prop :=
  (r.version = 0 ∧ approvals = []) ∨ ∃ b, Copied cfg part g fenced approvals b r

/-- The run counts a visit of the node that was cleared, in the write at hand or, when it is paused
for a distributed group, in the one before. -/
def Seen.Counts (g : Seen) (r : Run) (node : String) : Prop :=
  CountedBy g.policies g.approvals r node ∧ ∃ b ∈ g.runs, b.id = r.id ∧ b.version = r.version ∧
    (b.state = .paused ∨ b.visits node < r.visits node)

/-- An executor completes attempts only with a run that counts their visits. -/
def Seen.Settles (g : Seen) (records : List Record) (r : Run) : Prop :=
  part = .executor → ∀ a ∈ attemptsOf records, a.state = .completed → g.Counts r a.nodeId

structure Grounded (cfg : Config) (part : Part) (g : Seen) (fenced : Prop) (records : List Record)
    (r : Run) : Prop where
  messages : r.OwnMessages
  flag : cfg.coordination → g.flags r.id → r.cancellationRequested
  source : Source cfg part g fenced (approvalsOf records) r
  counted : g.Settles part records r

/-- Records that may be written: one run with its approvals, or neither runs nor approvals. -/
def Lawful (g : Seen) (fenced : Prop) (records : List Record) : Prop :=
  Plain records ∨ ∃ r, runsOf records = [r] ∧ Grounded cfg part g fenced records r

/-- Node work beyond the queue, written under the lease `key` with this token by a coroutine that has
seen `g`: only the claim loop starts work, under a lease it has acquired and not used before; only
the coroutine that executes the work records its result, in a copy read by itself and with the token
of its lease; and the supervision of workers may declare it failed. -/
inductive WorkLaw (g : Seen) (key : String) (token : Nat) (w : NodeWork) : Part → Prop where
  | failed (h : w.state = .failed) : WorkLaw g key token w .control
  | claim (state : w.state = .running) (resource : key = "node:" ++ w.id)
      (fence : w.fencingToken = token)
      (lease : ∃ l ∈ g.leases, l.resourceKey = key ∧ l.fencingToken = token) :
      WorkLaw g key token w .control
  | result (h : Delivers g.works g.duty key token w) : WorkLaw g key token w .branch

/-- Node work that may be written under the lease `key` with this token: any number of records for
the queue, or one beyond it. -/
def Seen.AllowWorks (g : Seen) (key : String) (token : Nat) (works : List NodeWork) :
    Prop :=
  (∀ w ∈ works, w.Idle) ∨ ∃ w, works = [w] ∧ WorkLaw g key token w part

def Seen.Clears (g : Seen) (r : Run) (n : NodeDefinition) : Part → Prop
  | .control => False
  | .executor => ClearedBy g.policies g.approvals r n
  | .branch => Permitted g.policies n

def Seen.Allow (g : Seen) : Req → Prop
  | .commit records => Lawful cfg part g False records ∧ Shelved records
  | .commitOwned records key _ token =>
    Lawful cfg part g True records ∧ (∀ r ∈ runsOf records, key = "run:" ++ r.id) ∧
      g.AllowWorks part key token (worksOf records)
  | .commitSessionRun records owner _ =>
    (∃ r, runsOf records = [r] ∧ Grounded cfg part g (owner ≠ "") records r) ∧
      Shelved records
  | .bindSessionTurnRun r => Grounded cfg part g False [.run r] r ∧ r.version = 0
  | .schedule r _ => r ∈ g.runs ∧ r.OwnMessages ∧ r.state = .queued ∧
    (cfg.coordination → r.ownerInstanceId ≠ "")
  | .scheduleWork w lease _ => (w.id, lease.fencingToken) ∈ g.claims
  | .nodeExecute r n _ => g.Clears r n part
  | .resolvePipeline r n _ => g.Clears r n part
  | _ => True

/-- The store only holds runs whose messages are their own. -/
def Req.Sound : (q : Req) → q.Resp → Prop
  | .getRun _, .ok r => r.OwnMessages
  | .adoptRun _, .ok r => r.OwnMessages
  | .scanRuns, .ok rs => ∀ r ∈ rs, r.OwnMessages
  | _, _ => True

def lawWatch : Watch reqSig Seen where
  Step g q a g' := q.Plausible a ∧ q.Sound a ∧ g' = g.note q a
  Allow g q := g.Allow cfg part q

/-! ## More sights, other flags -/

variable {cfg : Config} {part : Part} {g g' : Seen} {b r : Run} {fenced fenced' : Prop}
  {approvals : List Approval}

lemma Seen.Pending.mono {p : Approval} (h : g.Pending p) (hg : g.Grows g') : g'.Pending p :=
  ⟨hg.approvals h.1, h.2⟩

lemma ApprovalLaw.mono (h : ApprovalLaw cfg g b r approvals) (hg : g.Grows g') :
    ApprovalLaw cfg g' b r approvals := by
  cases h with
  | keep h =>
    refine .keep fun hb => (h hb).imp_right (Or.imp_right ?_)
    rintro ⟨a, ha, hgrants⟩
    exact ⟨a, hg.approvals ha, hgrants⟩
  | request new pending run node visit starts waits listed =>
    obtain ⟨l, hl, hrest⟩ := listed
    exact .request new pending run node visit starts waits ⟨l, hg.listings hl, hrest⟩
  | decision pending same run node waiting decided ends =>
    exact .decision (pending.mono hg) same run node waiting decided ends
  | withdraw solo h =>
    refine .withdraw solo fun a ha => ⟨(h a ha).1, ?_⟩
    obtain ⟨p, hp, hsame⟩ := (h a ha).2
    exact ⟨p, hp.mono hg, hsame⟩

lemma clearedBy_mono {n : NodeDefinition} (h : ClearedBy g.policies g.approvals r n)
    (hg : g.Grows g') : ClearedBy g'.policies g'.approvals r n := by
  obtain ⟨r₀, policy, hmem, hmessage, hpipeline, hdeny, hgate⟩ := h
  refine ⟨r₀, policy, hg.policies hmem, hmessage, hpipeline, hdeny, fun hg' => ?_⟩
  obtain ⟨a, hmem, hgrants⟩ := hgate hg'
  exact ⟨a, hg.approvals hmem, hgrants⟩

section

variable {records : List Record}

lemma Seen.Settles.mono (h : g.Settles part records r) (hg : g.Grows g') :
    g'.Settles part records r := by
  intro hpart a ha hdone
  obtain ⟨⟨n, r₀, hn, hid, hcleared, hvisits⟩, b, hb, hrest⟩ := h hpart a ha hdone
  exact ⟨⟨n, r₀, hn, hid, clearedBy_mono hcleared hg, hvisits⟩, b, hg.runs hb, hrest⟩

/-- Nothing is counted for attempts that are not completed. -/
lemma settles_of_open (h : ∀ a ∈ attemptsOf records, a.state ≠ .completed) :
    g.Settles part records r := fun _ a ha hdone => absurd hdone (h a ha)

lemma settles_nil : g.Settles part [] r := settles_of_open nofun

end

section

variable (h : Source cfg part g fenced approvals r)
include h

lemma Source.mono (hg : g.Grows g') : Source cfg part g' fenced approvals r := by
  refine h.imp_right ?_
  rintro ⟨b, hb⟩
  refine ⟨b, { hb with
    seen := hg.runs hb.seen
    cursor := hb.cursor.imp_right fun ⟨hpart, hadopted⟩ => ⟨hpart, fun hc hf => ?_⟩
    approvals := hb.approvals.mono hg }⟩
  obtain ⟨a, ha, howner⟩ := hadopted hc hf
  exact ⟨a, hg.adopted ha, howner⟩

lemma Source.weaken
    (hf : cfg.coordination → fenced → fenced') : Source cfg part g fenced' approvals r := by
  refine h.imp_right ?_
  rintro ⟨b, hb⟩
  exact ⟨b, { hb with
    cursor := hb.cursor.imp_right fun ⟨hpart, hadopted⟩ =>
      ⟨hpart, fun hc hn => hadopted hc fun hfenced => hn (hf hc hfenced)⟩ }⟩

lemma Source.withFlag (flag : Bool) :
    Source cfg part g fenced approvals { r with cancellationRequested := flag } := by
  refine h.imp_right ?_
  rintro ⟨b, hb⟩
  refine ⟨b, { hb with approvals := ?_ }⟩
  cases hb.approvals with
  | keep hkeep => exact .keep hkeep
  | request new pending run node visit starts waits listed =>
    exact .request new pending run node visit starts waits listed
  | decision pending same run node waiting decided ends =>
    exact .decision pending same run node waiting decided ends
  | withdraw solo hpending => exact .withdraw solo hpending

end

end Laso
