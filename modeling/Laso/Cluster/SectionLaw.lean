import Laso.Cluster.OperationLaw

/-!
# Executors keep the law

The contract of executors (`Laso.Runtime.View`) speaks about whole sections and the executor's view
of its run; the law of writes speaks about single calls and everything that has been seen.
`Tracks` connects the two: what the view relies on has been seen. `section_law` shows that every
section an executor may enter keeps to the law and ends as the contract says, whatever other
instances do between its calls, so that executors and branches keep to the law as a whole.
-/

namespace Laso

open Op List Watch

variable {cfg : Config} {g g' : Seen} {u : View} {r r' : Run} {α : Type}

/-- What the view of an executor relies on has been seen. -/
structure Tracks (cfg : Config) (u : View) (g : Seen) : Prop where
  base : terminal u.base.state ∨ u.base ∈ g.runs
  policies : u.policies ⊆ g.policies
  approvals : u.approvals ⊆ g.approvals
  listing : ∀ approvals, u.listing = some approvals → terminal u.base.state ∨
    ∃ l ∈ g.listings, l.runId = u.base.id ∧ l.approvals = approvals ∧ u.base ∈ l.known
  owner : cfg.coordination → u.base.ownerInstanceId = "" → ∃ a ∈ g.adopted, a.ownerInstanceId = ""

namespace Tracks

lemma mono (h : Tracks cfg u g) (hg : g.Grows g') : Tracks cfg u g' where
  base := h.base.imp_right fun hb => hg.runs hb
  policies := List.Subset.trans h.policies hg.policies
  approvals := List.Subset.trans h.approvals hg.approvals
  listing approvals ha := (h.listing approvals ha).imp_right fun ⟨l, hl, hrest⟩ =>
    ⟨l, hg.listings hl, hrest⟩
  owner hc ho := by
    obtain ⟨a, ha, hempty⟩ := h.owner hc ho
    exact ⟨a, hg.adopted ha, hempty⟩

lemma saved (h : Tracks cfg u g) (hr : terminal r.state ∨ r ∈ g.runs)
    (ho : r.toOwnership = u.base.toOwnership) : Tracks cfg (u.saved r) g where
  base := hr
  policies := h.policies
  approvals := h.approvals
  listing := nofun
  owner hc hempty := h.owner hc ((congrArg Ownership.ownerInstanceId ho).symm.trans hempty)

lemma cleared {n : NodeDefinition} (h : Tracks cfg u g) (hc : Cleared u r n) :
    ClearedBy g.policies g.approvals r n := by
  obtain ⟨r₀, policy, hmem, hmessage, hpipeline, hdeny, hgate⟩ := hc
  refine ⟨r₀, policy, h.policies hmem, hmessage, hpipeline, hdeny, fun hg => ?_⟩
  obtain ⟨a, hmem, hgrants⟩ := hgate hg
  exact ⟨a, h.approvals hmem, hgrants⟩

lemma copied (h : Tracks cfg u g) (hw : Writable u r) (state : RunState)
    {approvals : List Approval} (ha : ApprovalLaw cfg g u.base { r with state := state } approvals) :
    Source cfg .executor g (r.ownerInstanceId ≠ "") approvals { r with state := state } := by
  have hb : u.base ∈ g.runs := h.base.resolve_left (by simp [hw.live])
  refine .inr ⟨u.base,
    { seen := hb
      id := hw.follows.id
      version := hw.follows.version
      live := hw.live
      visits := hw.follows.visits
      cursor := .inr ⟨rfl, fun hc hn => h.owner hc ?_⟩
      approvals := ha }⟩
  rw [← hw.follows.ownership]
  exact not_not.mp hn

lemma source (h : Tracks cfg u g) (hw : Writable u r) :
    Source cfg .executor g (r.ownerInstanceId ≠ "") [] r := by
  refine h.copied hw r.state (.keep fun hb => ?_)
  obtain ⟨hcursor, hstate⟩ := hw.follows.waiting hb
  exact hstate.imp (fun hs => ⟨hs, hcursor⟩) .inl

/-- What is written beside the copy counts the visits it completes. -/
lemma settles {records : List Record} (h : Tracks cfg u g) (hw : Writable u r)
    (hp : Enclosed u r records) : g.Settles .executor records r := by
  intro _ a ha hdone
  obtain ⟨⟨n, r₀, hn, hid, hcleared, hvisits⟩, hraised⟩ := hp.counted a ha hdone
  refine ⟨⟨n, r₀, hn, hid, h.cleared hcleared, hvisits⟩, u.base, ?_, ?_⟩
  · exact h.base.resolve_left (by simp [hw.live])
  · exact ⟨hw.follows.id.symm, hw.follows.version.symm, hraised⟩

end Tracks

/-! ## Sections that write once -/

lemma Saved.state (h : Saved r r') : r'.state = r.state := by
  obtain ⟨flag, version, rfl⟩ := h
  rfl

lemma Saved.ownership (h : Saved r r') : r'.toOwnership = r.toOwnership := by
  obtain ⟨flag, version, rfl⟩ := h
  rfl

lemma Saved.ownMessages (h : Saved r r') (hm : r.OwnMessages) : r'.OwnMessages := by
  obtain ⟨flag, version, rfl⟩ := h
  exact ⟨hm.1, hm.2⟩

/-- What a section returns is one of the effects the contract allows. -/
def Ends (cfg : Config) (u : View) (c : Call) (a : c.Resp) (g : Seen) : Prop :=
  ∃ u', u.Step c a u' ∧ Tracks cfg u' g

variable {records : List Record} {type : String}

lemma checkpoint_section (h : Tracks cfg u g)
    (hw : Writable u r) (hp : Enclosed u r records) :
    (lawWatch cfg .executor).Sat ((checkpoint cfg type records).prog r)
      (Ends cfg u (.checkpoint r type records)) g := by
  have hsource : Source cfg .executor g (r.ownerInstanceId ≠ "") (approvalsOf records) r := by
    rw [hp.side.1.2]
    exact h.source hw
  refine Watch.Sat.mono (law_grows (checkpoint_law hp.side.1.1 hp.side.2 hw.follows.messages
    (h.settles hw hp) hsource)) ?_
  rintro ⟨res, r'⟩ g' hres
  cases res with
  | ok a =>
    obtain ⟨hg, hsaved, hseen⟩ := hres
    refine ⟨u.saved r', .inl ⟨rfl, hsaved, rfl⟩, (h.mono hg).saved ?_ ?_⟩
    · rwa [hsaved.state]
    · exact hsaved.ownership.trans hw.follows.ownership
  | error e => exact ⟨u, .inr ⟨⟨e, rfl⟩, hres.2, rfl⟩, h.mono hres.1⟩

variable {state : RunState}

lemma transition_section
    (h : Tracks cfg u g) (hw : Writable u r) (hp : Enclosed u r records)
    (hb : u.base.state ≠ .waitingApproval) :
    (lawWatch cfg .executor).Sat ((transition cfg state type records).prog r)
      (Ends cfg u (.transition r state type records)) g := by
  refine Watch.Sat.mono (law_grows (transition_law hp.side.1.1 hp.side.2 hw.follows.messages
    (h.settles hw hp) fun _ => ?_)) ?_
  · rw [hp.side.1.2]
    exact h.copied hw state (.keep fun hwait => absurd hwait hb)
  rintro ⟨res, r'⟩ g' hres
  cases res with
  | ok a =>
    obtain ⟨hg, _, hsaved, hseen⟩ := hres
    refine ⟨u.saved r', .inl ⟨rfl, hsaved, rfl⟩, (h.mono hg).saved ?_ ?_⟩
    · rwa [hsaved.state]
    · exact hsaved.ownership.trans hw.follows.ownership
  | error e =>
  obtain ⟨hg, hres⟩ := hres
  exact ⟨u, .inr ⟨⟨e, rfl⟩, hres.imp (fun h => h.2) fun h => h.2, rfl⟩, h.mono hg⟩

variable {n : NodeDefinition} {attemptRecorded : Bool} {reason : String}

lemma waitApproval_law {Q : Unit → Seen → Run → Prop}
    {E : Exn → Seen → Run → Prop} (hv : r.state = .running) (hm : r.OwnMessages)
    (hs : ∀ id, Source cfg .executor g (r.ownerInstanceId ≠ "")
      [{ id, runId := r.id, nodeId := n.id, reason, action := n.type ++ ":" ++ n.binding,
         visit := r.visits n.id }] { r with state := .waitingApproval })
    (hok : ∀ g' r', g.Grows g' → Saved { r with state := .waitingApproval } r' → r' ∈ g'.runs →
      Q () g' r')
    (herr : ∀ e g' r', g.Grows g' → Touched { r with state := .waitingApproval } r' → E e g' r') :
    (lawWatch cfg .executor).wp (waitApproval cfg n reason) Q E g r := by
  unfold waitApproval
  rw [wp_bind, wp_get, wp_bind]
  refine (law_ask _).mpr ⟨trivial, fun id _ _ => ?_⟩
  rw [wp_bind]
  refine (law_ask _).mpr ⟨trivial, fun attemptId _ _ => ?_⟩
  have hg : g.Grows ((g.note .uuid id).note .uuid attemptId) :=
    (g.grows_note .uuid id).trans (Seen.grows_note _ .uuid attemptId)
  refine wp_mono (law_grows (transition_law rfl (shelved_of_nil rfl) hm
    (settles_of_open (by simp)) fun _ => (hs id).mono hg)) ?_ ?_
  · rintro _ g' r' ⟨hg', _, hsaved, hseen⟩
    exact hok g' r' (hg.trans hg') hsaved (hseen.resolve_left (by simp [terminal]))
  rintro e g' r' ⟨hg', ⟨hinvalid, _⟩ | ⟨_, ht⟩⟩
  · simp [hv, validTransition, terminal] at hinvalid
  · exact herr e g' r' (hg.trans hg') ht

lemma park_section {approvals : List Approval}
    (h : Tracks cfg u g) (hw : Writable u r) (hr : r.state = .running)
    (hb : u.base.state = .running) (hn : n.id = r.activeNode)
    (hlist : u.listing = some approvals) (hnone : approvedIn r approvals = false) :
    (lawWatch cfg .executor).Sat ((parkForApproval cfg n reason).prog r)
      (Ends cfg u (.park r n reason)) g := by
  -- the listing was made after the record the view is based on
  obtain ⟨l, hl, hrun, rfl, hknown⟩ := (h.listing approvals hlist).resolve_left (by simp [hw.live])
  have hlisted : ∀ x ∈ l.approvals, ¬x.Grants r r.activeNode := by
    rintro x hx ⟨_, hnode, hvisit, hdecision⟩
    exact absurd (approvedIn_iff.mpr ⟨x, hx, hnode, hvisit, hdecision⟩) (by simp [hnone])
  have hsection : (lawWatch cfg .executor).wp (parkForApproval cfg n reason)
      (fun _ g' r' => g.Grows g' ∧ Saved { r with state := .waitingApproval } r' ∧ r' ∈ g'.runs)
      (fun _ g' r' => g.Grows g' ∧
        (r' = r ∨ Touched { r with state := .waitingApproval } r')) g r := by
    unfold parkForApproval
    rw [wp_bind, wp_get, wp_bind]
    refine (law_ask _).mpr ⟨trivial, fun a _ _ => ?_⟩
    cases a with
    | error e => exact ⟨.refl g, .inl rfl⟩
    | ok _ =>
    refine waitApproval_law hr hw.follows.messages (fun id => h.copied hw _ ?_)
      (fun g' r' hg hsaved hseen => ⟨hg, hsaved, hseen⟩)
      fun e g' r' hg ht => ⟨hg, .inr ht⟩
    exact .request rfl rfl rfl hn (by rw [hn]) (by simp [hb]) rfl ⟨l, hl, hrun, hknown, hlisted⟩
  refine Watch.Sat.mono hsection ?_
  rintro ⟨res, r'⟩ g' hres
  cases res with
  | ok a =>
    obtain ⟨hg, hsaved, hseen⟩ := hres
    exact ⟨u.saved r', .inl ⟨rfl, hsaved, rfl⟩, (h.mono hg).saved (.inr hseen)
      (hsaved.ownership.trans hw.follows.ownership)⟩
  | error e =>
    exact ⟨u, .inr ⟨⟨e, rfl⟩, hres.2, rfl⟩, h.mono hres.1⟩

/-! ## Starting -/

lemma reconcile_law :
    (lawWatch cfg .executor).wp reconcileDistributedParallel (fun _ _ r' => Moved r r')
      (fun _ _ r' => Moved r r') g r := by
  unfold reconcileDistributedParallel
  refine of_if (Moved.refl r) ?_
  rw [wp_bind]
  refine (law_ask _).mpr ⟨trivial, fun a _ _ => ?_⟩
  rw [wp_bind]
  refine law_orThrow.mpr ⟨fun works hok => ?_, fun _ _ => Moved.refl r⟩
  refine of_if (Moved.refl r) ?_
  split
  · exact Moved.refl r
  rw [wp_bind, wp_set, wp_bind, wp_get, wp_bind]
  refine (law_ask _).mpr ⟨trivial, fun a _ _ => ?_⟩
  cases a with
  | error | ok => exact ⟨rfl, rfl, rfl, rfl, rfl, fun hm => ⟨hm.1, hm.2⟩⟩

/-- A copy in another state follows the record, if that record does not wait for an approval or
the state is the last one. -/
lemma Follows.ofTouched {b : Run} (hm : b.OwnMessages)
    (hwait : b.state = .waitingApproval → terminal state)
    (ht : Touched { b with state := state } r') : Follows b r' := by
  obtain ⟨flag, rfl⟩ := ht
  exact
    { Follows.refl hm with
      messages := ⟨hm.1, hm.2⟩, waiting := fun hb => ⟨rfl, .inr (hwait hb)⟩ }

lemma Follows.ofMoved {b : Run} (hm : b.OwnMessages) (hb : b.state ≠ .waitingApproval)
    (h : Moved b r') : Follows b r' where
  id := h.id
  ownership := h.ownership
  version := h.version
  visits n := (h.visits n).ge
  messages := h.messages hm
  waiting hwait := absurd hwait hb

section Begin

variable {b : Run}

lemma Tracks.adopt (h : Tracks cfg u g) (hb : terminal b.state ∨ b ∈ g.runs)
    (ho : ∃ a ∈ g.adopted, a.toOwnership = b.toOwnership) : Tracks cfg (u.saved b) g where
  base := hb
  policies := h.policies
  approvals := h.approvals
  listing := nofun
  owner _ hempty := by
    obtain ⟨a, ha, hown⟩ := ho
    exact ⟨a, ha, (congrArg Ownership.ownerInstanceId hown).trans hempty⟩

section

variable (h : Tracks cfg (u.saved b) g)
include h

/-- The executor has adopted a record; what it did next threw an exception. -/
lemma Tracks.beginFailed (hlive : terminal b.state = false) (hf : Follows b r') (e : Exn) :
    Ends cfg u (.begin r) (.error e, r') g :=
  ⟨_, .inr (.inr ⟨b, rfl, hlive, hf, nofun⟩), h⟩

lemma Tracks.beginEnded : Ends cfg u (.begin r) (.ok false, r') g := ⟨_, .inr (.inl rfl), h⟩

lemma beginTransition_law {state : RunState} {type : String} {Q : Unit → Seen → Run → Prop}
    (hlive : terminal b.state = false)
    (hm : b.OwnMessages)
    (hwait : validTransition b.state state → b.state = .waitingApproval → terminal state)
    (hQ : ∀ g' b', Saved { b with state := state } b' → Tracks cfg (u.saved b') g' → Q () g' b') :
    (lawWatch cfg .executor).wp (transition cfg state type) Q
      (fun e g' r' => Ends cfg u (.begin r) (.error e, r') g') g b := by
  have hb : b ∈ g.runs := h.base.resolve_left (by simp [View.saved, hlive])
  refine wp_mono (law_grows (transition_law rfl shelved_nil hm settles_nil fun hv => ?_)) ?_ ?_
  · exact .ofCopy hb hlive rfl rfl rfl (.keep fun hw => .inr (.inl (hwait hv hw)))
  · rintro _ g' b' ⟨hg, _, hsaved, hseen⟩
    refine hQ g' b' hsaved ((h.mono hg).saved ?_ hsaved.ownership)
    rwa [hsaved.state]
  rintro e g' r' ⟨hg, ⟨_, rfl⟩ | ⟨hv, ht⟩⟩
  · exact (h.mono hg).beginFailed hlive (.refl hm) e
  · exact (h.mono hg).beginFailed hlive (.ofTouched hm (hwait hv) ht) e

end

lemma begin_section (h : Tracks cfg u g) :
    (lawWatch cfg .executor).Sat ((beginExecution cfg r.id).prog r) (Ends cfg u (.begin r)) g := by
  suffices hwp : (lawWatch cfg .executor).wp (beginExecution cfg r.id)
      (fun more g' r' => Ends cfg u (.begin r) (.ok more, r') g')
      (fun e g' r' => Ends cfg u (.begin r) (.error e, r') g') g r by
    refine Watch.Sat.mono hwp ?_
    rintro ⟨res, r'⟩ g' hres
    cases res with
    | ok more => exact hres
    | error e => exact hres
  unfold beginExecution
  rw [wp_bind]
  refine (law_ask _).mpr ⟨trivial, fun a hp hm => ?_⟩
  rw [wp_bind]
  refine law_orThrow.mpr ⟨fun current hok => ?_, fun e he => ?_⟩
  swap
  · subst he
    exact ⟨u, .inl ⟨⟨_, rfl⟩, rfl, rfl⟩, h⟩
  subst hok
  have ht : Tracks cfg (u.saved current) (g.note (.adoptRun r.id) (.ok current)) :=
    (h.mono (g.grows_note _ _)).adopt (.inr mem_cons_self) ⟨current, mem_cons_self, rfl⟩
  refine of_ite ⟨fun _ => ht.beginEnded, fun hlive => ?_⟩
  have hlive : terminal current.state = false := by simpa using hlive
  refine of_if ?_ ?_
  · rw [wp_bind]
    exact beginTransition_law ht hlive hm (fun _ _ => rfl) fun g' b' _ ht' => ht'.beginEnded
  rw [wp_bind]
  refine beginTransition_law ht hlive hm ?_ fun g₁ b₁ hsaved₁ ht₁ => ?_
  · exact fun hv hw => by simp [hw, validTransition, terminal] at hv
  have hm₁ : b₁.OwnMessages := hsaved₁.ownMessages ⟨hm.1, hm.2⟩
  rw [wp_bind]
  refine beginTransition_law ht₁ (by rw [hsaved₁.state]; rfl) hm₁
    (by simp [hsaved₁.state]) fun g₂ b₂ hsaved₂ ht₂ => ?_
  have hm₂ : b₂.OwnMessages := hsaved₂.ownMessages ⟨hm₁.1, hm₁.2⟩
  have hrun : b₂.state = .running := hsaved₂.state
  have hlive₂ : terminal b₂.state = false := by rw [hrun]; rfl
  have hwait₂ : b₂.state ≠ .waitingApproval := by simp [hrun]
  rw [wp_bind]
  refine wp_mono (law_grows reconcile_law) ?_ ?_
  · rintro _ g₃ r₃ ⟨hg₃, hmoved⟩
    refine ⟨_, .inr (.inr ⟨b₂, rfl, hlive₂, .ofMoved hm₂ hwait₂ hmoved, fun more hmore => ?_⟩),
      ht₂.mono hg₃⟩
    exact ⟨(Except.ok.inj hmore).symm, hrun, hmoved.state.trans hrun⟩
  · rintro e g₃ r₃ ⟨hg₃, hmoved⟩
    exact (ht₂.mono hg₃).beginFailed hlive₂ (.ofMoved hm₂ hwait₂ hmoved) e

end Begin

/-! ## The other sections -/

/-- Inside the error section the copy may be written unless it is in a terminal state. -/
def Failing (cfg : Config) (g : Seen) (r : Run) : Prop :=
  terminal r.state = false → ∃ u, Tracks cfg u g ∧ Writable u r

lemma Failing.mono (h : Failing cfg g r) (hg : g.Grows g') : Failing cfg g' r := by
  intro hlive
  obtain ⟨u, ht, hw⟩ := h hlive
  exact ⟨u, ht.mono hg, hw⟩

variable {e : Exn}

lemma recordFailure_law (h : Tracks cfg u g) (hw : Writable u r) :
    (lawWatch cfg .executor).wp (recordFailure cfg e) (fun _ => Failing cfg)
      (fun _ _ _ => True) g r := by
  unfold recordFailure
  rw [wp_bind, wp_get, wp_bind]
  refine (law_ask _).mpr ⟨trivial, fun id _ _ => ?_⟩
  have h' := h.mono (g.grows_note .uuid id)
  refine wp_imp_ok (law_grows (checkpoint_law rfl (shelved_of_nil rfl) hw.follows.messages
    (settles_of_open ?_) (h'.source hw))) ?_
  · simpa using (attemptState_ne e).1
  rintro _ g' r' ⟨hg, hsaved, hseen⟩ hlive
  rw [← hsaved.state] at hseen
  exact ⟨u.saved r', (h'.mono hg).saved hseen (hsaved.ownership.trans hw.follows.ownership),
    hlive, .refl (hsaved.ownMessages hw.follows.messages)⟩

lemma cancelOpenChild_law {fuel : Nat} {P : Seen → Run → Prop} (h : P g r)
    (hP : ∀ g', g.Grows g' → P g' r) :
    (lawWatch cfg .executor).wp (cancelOpenChild cfg fuel) (fun _ => P) (fun _ => P) g r := by
  unfold cancelOpenChild
  refine of_if ?_ h
  rw [wp_bind, peekRun, wp_bind]
  refine (law_ask _).mpr ⟨trivial, fun a _ _ => ?_⟩
  refine law_orThrow.mpr ⟨fun child hok => ?_, fun e he => ?_⟩
  · subst hok
    refine of_if h ?_
    refine wp_mono (law_grows (cancel_law fuel child.id)) ?_ ?_
    · rintro _ g' r' ⟨hg, rfl⟩
      exact hP g' hg
    · rintro _ g' r' ⟨hg, rfl⟩
      exact hP g' hg
  · subst he
    exact h

lemma terminal_endState (e : Exn) : terminal (endState e) := by
  cases e with
  | other => rfl
  | error e =>
    simp only [endState]
    split <;> rfl

lemma endFailed_law (h : Failing cfg g r) : Obeys cfg .executor (endRun cfg e) g r := by
  unfold endRun
  refine of_ite ⟨fun _ => trivial, fun hlive => ?_⟩
  obtain ⟨u, ht, hw⟩ := h (by simpa using hlive)
  have hw' : Writable u { r with error := endMessage e } :=
    ⟨hw.live, { hw.follows with messages := ⟨hw.follows.messages.1, hw.follows.messages.2⟩ }⟩
  exact obeys_of_wp (transition_law rfl shelved_nil hw'.follows.messages settles_nil fun _ =>
    ht.copied hw' _ (.keep fun _ => .inr (.inl (terminal_endState e))))

/-- The error section: whatever the executor's copy is, it is written as the law permits. -/
lemma fail_section {fuel : Nat} (h : Tracks cfg u g) (hw : Writable u r) :
    (lawWatch cfg .executor).Sat ((failExecution cfg fuel attemptRecorded e).prog r)
      (Ends cfg u (.fail r fuel attemptRecorded e)) g := by
  suffices hobeys : Obeys cfg .executor (failExecution cfg fuel attemptRecorded e) g r by
    refine Watch.Sat.mono (law_grows hobeys) ?_
    rintro ⟨res, r'⟩ g' hres
    cases res with
    | ok | error => exact ⟨u, trivial, h.mono hres.1⟩
  refine wp_when (P := Failing cfg) (fun _ => recordFailure_law h hw) (fun _ _ => ⟨u, h, hw⟩) ?_
  intro g' r' hf
  refine obeys_bind (wp_imp (cancelOpenChild_law hf fun _ => hf.mono) ?_)
  exact fun _ g'' r'' hf' => endFailed_law hf'

lemma run_section (q : RunRequest) (h : Tracks cfg u g) :
    (lawWatch cfg .executor).Sat ((run cfg q).prog ()) (Ends cfg u (.run q)) g := by
  refine Watch.Sat.mono (law_grows (run_law q)) ?_
  rintro ⟨res, s⟩ g' hres
  cases res with
  | ok | error => exact ⟨u, rfl, h.mono hres.1⟩

lemma complete_section {id : String} {failed : Bool} (h : Tracks cfg u g) :
    (lawWatch cfg .executor).Sat ((complete cfg id failed).prog ()) (Ends cfg u (.complete id failed))
      g := by
  refine Watch.Sat.mono (law_grows (complete_law id failed)) ?_
  rintro ⟨res, s⟩ g' hres
  cases res with
  | ok | error => exact ⟨u, trivial, h.mono hres.1⟩

lemma direct_section {q : Req} (h : Tracks cfg u g) (ha : u.AllowDirect q) :
    (lawWatch cfg .executor).Sat (Prog.req (S := reqSig) q) (Ends cfg u (.direct q)) g := by
  refine ⟨?_, ?_⟩
  · cases q <;> first
      | trivial
      | exact h.cleared ha
  rintro a _ ⟨hp, -, rfl⟩
  refine ⟨u.note q a, ⟨hp, rfl⟩, ?_⟩
  have ht := h.mono (g.grows_note q a)
  cases q with
  | permission n r =>
    cases a with
    | error e => exact ht
    | ok policy => exact { ht with policies := cons_subset_cons _ h.policies }
  | listApprovals id =>
    cases a with
    | error e => exact ht
    | ok approvals =>
    refine { ht with approvals := ?_, listing := ?_ }
    · exact append_subset.mpr ⟨subset_append_left _ _, ht.approvals⟩
    rintro _ ⟨⟩
    exact h.base.imp_right fun hb =>
      ⟨⟨g.runs, id, approvals⟩, mem_cons_self, ha, rfl, hb⟩
  | _ => exact ht

/-! ## Executors and branches -/

/-- **Sections keep the law** and have the effects the contract of executors states. -/
theorem section_law {c : Call} (h : Tracks cfg u g) (ha : u.Allow c) :
    (lawWatch cfg .executor).Sat (c.expand cfg) (Ends cfg u c) g := by
  cases c with
  | direct q => exact direct_section h ha
  | begin r => exact begin_section h
  | checkpoint r type records => exact checkpoint_section h ha.1 ha.2
  | transition r state type records => exact transition_section h ha.1 ha.2.1 ha.2.2
  | park r n reason =>
    obtain ⟨hw, hr, hb, hn, approvals, hlist, hnone⟩ := ha
    exact park_section h hw hr hb hn hlist hnone
  | fail r fuel attemptRecorded e => exact fail_section h ha
  | run q => exact run_section q h
  | complete id failed => exact complete_section h

/-- **Executors keep the law.** -/
theorem executor_law (fuel : Nat) (hq : r.state = .queued) (hm : r.OwnMessages) (hr : r ∈ g.runs)
    (ho : cfg.coordination → r.ownerInstanceId ≠ "") :
    (lawWatch cfg .executor).Sat ((executor cfg fuel r).expand (Call.expand cfg))
      (fun _ _ => True) g := by
  have ht : Tracks cfg { base := r } g :=
    { base := .inr hr, policies := nil_subset _, approvals := nil_subset _
      listing := nofun, owner := fun hc hempty => absurd hempty (ho hc) }
  refine Watch.Sat.mono (Watch.Sat.simulate (L := Tracks cfg) (fun u g c h ha => section_law h ha)
    (executor_sat fuel hq hm) ht) fun _ _ _ => trivial

lemma permitted_mono {answers answers' : Answers}
    (h : Permitted answers n) (hsub : answers ⊆ answers') : Permitted answers' n := by
  obtain ⟨htype, r₀, policy, hmem, hallow⟩ := h
  exact ⟨htype, r₀, policy, hsub hmem, hallow⟩

structure Sight.Shown (u : Sight) (duty : Option (String × Nat)) (g : Seen) : Prop where
  answers : u.answers ⊆ g.policies
  works : u.works ⊆ g.works
  duty : g.duty = duty

variable {sight : Sight} {duty : Option (String × Nat)}

lemma Sight.Shown.mono (h : sight.Shown duty g) (hg : g.Grows g') : sight.Shown duty g' where
  answers := List.Subset.trans h.answers hg.policies
  works := List.Subset.trans h.works hg.works
  duty := hg.duty.trans h.duty

lemma Sight.Shown.note (h : sight.Shown duty g) (q : Req) (a : q.Resp) :
    (sight.note q a).Shown duty (g.note q a) := by
  have hg := h.mono (g.grows_note q a)
  cases q with
  | permission n r =>
    cases a with
    | error e => exact hg
    | ok policy => exact { hg with answers := cons_subset_cons _ h.answers }
  | getNodeWork id =>
    cases a with
    | error e => exact hg
    | ok w => exact { hg with works := cons_subset_cons _ h.works }
  | _ => exact hg

lemma Delivers.mono {works works' : List NodeWork} {key : String} {token : Nat} {w : NodeWork}
    (h : Delivers works duty key token w) (hsub : works ⊆ works') :
    Delivers works' duty key token w := by
  obtain ⟨b, hb, hcopy⟩ := h.copy
  exact { h with copy := ⟨b, hsub hb, hcopy⟩ }

variable {root : String}

lemma branch_section {c : Call} (h : sight.Shown duty g)
    (ha : sight.Allow root duty c) :
    (lawWatch cfg .branch).Sat (c.expand cfg)
      (fun a g' => ∃ sight', (branchWatch root duty).Step sight c a sight' ∧
        sight'.Shown duty g') g := by
  cases c with
  | direct q =>
    refine ⟨?_, ?_⟩
    · cases q with
      | commit records => exact ⟨.inl ha.1, ha.2⟩
      | commitOwned records key owner token =>
        obtain ⟨hplain, hworks⟩ := ha
        refine ⟨.inl hplain, fun r hr => ?_, hworks.imp_right ?_⟩
        · rw [hplain.1] at hr
          cases hr
        rintro ⟨w, hw, hresult⟩
        rw [← h.duty] at hresult
        exact ⟨w, hw, .result (hresult.mono h.works)⟩
      | nodeExecute | resolvePipeline => exact permitted_mono ha.2 h.answers
      | _ => trivial
    · rintro a _ ⟨hp, -, rfl⟩
      exact ⟨sight.note q a, ⟨hp, rfl⟩, h.note q a⟩
  | run q =>
    refine Watch.Sat.mono (law_grows (run_law q)) ?_
    rintro ⟨res, s⟩ g' hres
    refine ⟨sight, rfl, h.mono ?_⟩
    cases res with
    | ok id => exact hres.1
    | error e => exact hres.1
  | _ => exact ha.elim

/-- **Branches keep the law.** -/
theorem branch_law {p : Prog callSig α}
    (h : (branchWatch root duty).Sat p (fun _ _ => True) {}) (hduty : g.duty = duty) :
    (lawWatch cfg .branch).Sat (p.expand (Call.expand cfg)) (fun _ _ => True) g :=
  Watch.Sat.mono (Watch.Sat.simulate (L := fun sight g => sight.Shown duty g)
    (fun _ _ _ h ha => branch_section h ha) h ⟨nil_subset _, nil_subset _, hduty⟩)
    fun _ _ _ => trivial

end Laso
