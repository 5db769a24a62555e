import Laso.Cluster.Seen

/-!
# Operations keep the law

Every operation of the runtime, run on its own against an arbitrary store, writes only what the
law of `Laso.Cluster.Seen` permits. The statements are proved bottom up: calls, checkpoints and
transitions, then the operations of clients, the claim loop and the recovery of a single owner.
-/

namespace Laso

open Op List Watch

variable {cfg : Config} {part : Part} {g g' : Seen} {σ α : Type} {s : σ}

/-! ## Rules for calls -/

section Rules

variable {Q : α → Seen → σ → Prop} {E : Exn → Seen → σ → Prop}

/-- A call must be allowed, and every plausible answer is noted. -/
lemma law_ask (q : Req) {Q : q.Resp → Seen → σ → Prop} : (lawWatch cfg part).wp (ask q) Q E g s ↔
      g.Allow cfg part q ∧ ∀ a, q.Plausible a → q.Sound a → Q a (g.note q a) s := by
  refine and_congr Iff.rfl ⟨fun h a hp hs => h a _ ⟨hp, hs, rfl⟩, ?_⟩
  rintro h a _ ⟨hp, hs, rfl⟩
  exact h a hp hs

lemma law_orThrow {x : Except Error α} : (lawWatch cfg part).wp (orThrow x) Q E g s ↔
      (∀ a, x = .ok a → Q a g s) ∧ ∀ e, x = .error e → E (.error e) g s := by
  cases x <;> simp [orThrow]

/-- What an operation has seen is never forgotten. -/
lemma law_grows {x : Op σ α} (h : (lawWatch cfg part).wp x Q E g s) :
    (lawWatch cfg part).wp x (fun a g' s' => g.Grows g' ∧ Q a g' s')
      (fun e g' s' => g.Grows g' ∧ E e g' s') g s := by
  have frame : ∀ {β : Type} (p : Prog reqSig β) (P : β → Seen → Prop) (g₀ : Seen),
      (lawWatch cfg part).Sat p P g₀ →
        (lawWatch cfg part).Sat p (fun b g' => g₀.Grows g' ∧ P b g') g₀ := by
    intro β p P
    induction p with
    | ret b => exact fun g₀ h => ⟨.refl g₀, h⟩
    | call q k ih =>
      refine fun g₀ h => ⟨h.1, ?_⟩
      rintro a _ ⟨hp, hs, rfl⟩
      refine (ih a _ (h.2 a _ ⟨hp, hs, rfl⟩)).mono ?_
      exact fun b g' hb => ⟨(g₀.grows_note q a).trans hb.1, hb.2⟩
  refine (frame (x s) _ g h).mono ?_
  rintro ⟨res, s'⟩ g' ⟨hg, hres⟩
  cases res with
  | ok | error => exact ⟨hg, hres⟩

end Rules

/-- The operation keeps the law, whatever the store answers. -/
def Obeys (cfg : Config) (part : Part) (x : Op σ α) (g : Seen) (s : σ) : Prop :=
  (lawWatch cfg part).wp x (fun _ _ _ => True) (fun _ _ _ => True) g s

section Obeys

variable {β : Type} {x y : Op σ α} {f : α → Op σ β}

lemma obeys_pure (a : α) : Obeys cfg part (pure a) g s := trivial

lemma obeys_throw (e : Exn) : Obeys cfg part (throw e : Op σ α) g s := trivial

variable {E : Exn → Seen → σ → Prop}

lemma obeys_of_wp {Q : α → Seen → σ → Prop}
    (h : (lawWatch cfg part).wp x Q E g s) : Obeys cfg part x g s :=
  wp_imp_ok h fun _ _ _ _ => trivial

lemma obeys_bind (h : (lawWatch cfg part).wp x (fun a g' s' => Obeys cfg part (f a) g' s') E g s) :
    Obeys cfg part (x >>= f) g s :=
  of_bind (wp_imp_ok h fun _ _ _ h => h)

/-- Code that needs nothing but what was seen before. -/
lemma obeys_seq (hx : Obeys cfg part x g s)
    (hf : ∀ a g' s', g.Grows g' → Obeys cfg part (f a) g' s') : Obeys cfg part (x >>= f) g s :=
  obeys_bind (wp_imp (law_grows hx) fun a g' s' h => hf a g' s' h.1)

lemma obeys_ask {q : Req} {f : q.Resp → Op σ β} (ha : g.Allow cfg part q)
    (hf : ∀ a, q.Plausible a → q.Sound a → Obeys cfg part (f a) (g.note q a) s) :
    Obeys cfg part (ask q >>= f) g s :=
  of_bind ((law_ask q).mpr ⟨ha, hf⟩)

lemma obeys_ask_end {q : Req} (ha : g.Allow cfg part q) :
    Obeys cfg part (ask q : Op σ q.Resp) g s :=
  (law_ask q).mpr ⟨ha, fun _ _ _ => trivial⟩

lemma obeys_orThrow {e : Except Error α} (hf : ∀ a, e = .ok a → Obeys cfg part (f a) g s) :
    Obeys cfg part (orThrow e >>= f) g s :=
  of_bind (law_orThrow.mpr ⟨hf, fun _ _ => trivial⟩)

/-- A read, whose error is thrown. -/
lemma obeys_read {q : Req} {γ : Type} {e : q.Resp → Except Error γ} {f : γ → Op σ β}
    (ha : g.Allow cfg part q)
    (hf : ∀ a c, q.Plausible a → e a = .ok c → Obeys cfg part (f c) (g.note q a) s) :
    Obeys cfg part (ask q >>= fun a => orThrow (e a) >>= f) g s :=
  obeys_ask ha fun a hp _ => obeys_orThrow fun c hc => hf a c hp hc

lemma obeys_unless {c : Prop} [Decidable c] {x y : Op σ α}
    (hx : Obeys cfg part x g s) (hy : ¬c → Obeys cfg part y g s) :
    Obeys cfg part (if c then x else y) g s :=
  of_ite ⟨fun _ => hx, hy⟩

lemma obeys_orThrow_end (e : Except Error α) : Obeys cfg part (orThrow e : Op σ α) g s :=
  law_orThrow.mpr ⟨fun _ _ => trivial, fun _ _ => trivial⟩

lemma obeys_ofExcept (e : Except Exn α) : Obeys cfg part (Code.ofExcept e : Op σ α) g s := by
  cases e <;> trivial

/-- The handler may rely on what was seen before the throw. -/
lemma obeys_tryCatch {h : Exn → Op σ α} (hx : Obeys cfg part x g s)
    (hh : ∀ e g' s', g.Grows g' → Obeys cfg part (h e) g' s') :
    Obeys cfg part (tryCatch x h) g s :=
  (wp_tryCatch _ _).mpr (wp_mono (law_grows hx) (fun _ _ _ _ => trivial)
    fun e g' s' h => hh e g' s' h.1)

/-- A run that is read has been seen, with messages of its own. -/
lemma obeys_getRun {f : Run → Op σ β} {id : String}
    (hf : ∀ r, r.id = id → r.OwnMessages → Obeys cfg part (f r) (g.saw r) s) :
    Obeys cfg part (getRun id >>= f) g s := by
  refine obeys_bind (E := fun _ _ _ => True) (of_bind ((law_ask _).mpr
    ⟨trivial, fun a hp hs => law_orThrow.mpr ⟨fun r hr => ?_, fun _ _ => trivial⟩⟩))
  subst hr
  exact hf r hp hs

lemma obeys_peekRun {f : Run → Op σ β} {id : String} (hf : ∀ r, Obeys cfg part (f r) g s) :
    Obeys cfg part (peekRun id >>= f) g s :=
  obeys_bind (E := fun _ _ _ => True) (of_bind ((law_ask _).mpr
    ⟨trivial, fun _ _ _ => law_orThrow.mpr ⟨fun r _ => hf r, fun _ _ => trivial⟩⟩))

/-- Code on a copy of a run, which then is the copy of the rest. -/
lemma obeys_onRun {r : Run} {x : Op Run α} {f : Run → Op σ β}
    {Q : α → Seen → Run → Prop} {E : Exn → Seen → Run → Prop}
    (h : (lawWatch cfg part).wp x Q E g r)
    (hf : ∀ a g' r', g.Grows g' → Q a g' r' → Obeys cfg part (f r') g' s) :
    Obeys cfg part (onRun r x >>= f) g s := by
  refine obeys_bind (E := fun _ _ _ => True) ?_
  unfold onRun
  rw [wp_bind, wp_localVar]
  exact wp_imp_ok (law_grows h) fun a g' r' h => hf a g' r' h.1 h.2

end Obeys

/-! ## Checkpoints -/

variable {r : Run} {records : List Record} {lease : LeaseRecord}

/-- The commit of a checkpoint: on success the run has been seen with its new version, unless it
ends the run. -/
lemma commitRun_law {r r₀ : Run} {E : Exn → Seen → Run → Prop}
    (hr : runsOf records = [r]) (hw : Shelved records)
    (hg : Grounded cfg part g (r.ownerInstanceId ≠ "") records r) :
    (lawWatch cfg part).wp (commitRun cfg r records)
      (fun res g' r' => r' = r₀ ∧ ∀ version, res = .ok version →
        terminal r.state ∨ { r with version := version } ∈ g'.runs) E g r₀ := by
  refine of_ite ⟨fun hterm => ?_, fun _ => ?_⟩
  · exact (law_ask _).mpr ⟨⟨⟨r, hr, hg⟩, hw⟩, fun _ _ _ => ⟨rfl, fun _ _ => .inl hterm.2⟩⟩
  refine of_ite ⟨fun _ => ?_, fun howner => ?_⟩
  · refine (law_ask _).mpr ⟨⟨.inr ⟨r, hr, { hg with
      source := hg.source.weaken fun _ _ => trivial }⟩, ?_, .inl hw⟩,
      fun a _ _ => ⟨rfl, ?_⟩⟩
    · simp [hr]
    · rintro version rfl
      exact .inr (by simp [Seen.note, Seen.wrote, hr, Seen.saw, Seen.spend])
  · refine (law_ask _).mpr ⟨⟨.inr ⟨r, hr, { hg with
      source := hg.source.weaken fun hc hn => howner ⟨hc, hn⟩ }⟩, hw⟩, fun a _ _ => ⟨rfl, ?_⟩⟩
    rintro version rfl
    exact .inr (by simp [Seen.note, Seen.wrote, hr, Seen.saw])

/-- The stored flag is merged into the copy. -/
lemma mergeCancellation_law : (lawWatch cfg part).wp mergeCancellation
      (fun _ g' r' => Touched r r' ∧ (g'.flags r.id → r'.cancellationRequested))
      (fun _ _ r' => r' = r) g r := by
  unfold mergeCancellation
  rw [wp_bind, wp_get, wp_bind]
  refine (law_ask _).mpr ⟨trivial, fun a _ _ => ?_⟩
  cases a with
  | ok flag =>
    refine (wp_set _).mpr ⟨⟨_, rfl⟩, fun h => ?_⟩
    have hflag : flag := by simpa [Seen.note, Seen.look] using h
    simp [hflag]
  | error e =>
    refine of_ite ⟨fun h => ?_, fun _ => rfl⟩
    refine ⟨⟨_, rfl⟩, fun hf => ?_⟩
    simp [Seen.note, h, Seen.look] at hf

/-- The copy gets the version of the commit; a conflict costs the ownership. -/
lemma concludeCommit_law {res : Except Error Nat} : (lawWatch cfg part).wp (concludeCommit cfg res)
      (fun _ g' r' => ∃ version, res = .ok version ∧ r' = { r with version := version } ∧ g' = g)
      (fun _ _ r' => r' = r) g r := by
  unfold concludeCommit
  cases res with
  | ok version => exact ⟨version, rfl, rfl, rfl⟩
  | error e =>
    refine of_if ?_ rfl
    exact of_bind ((law_ask _).mpr ⟨trivial, fun _ _ _ => rfl⟩)

variable {cancelOne : String → Op σ Unit} {Q : Bool → Seen → σ → Prop} {approvals : List Approval}
  {type : String}

/-- **Checkpoints.** -/
lemma checkpoint_law (hr : runsOf records = []) (hw : Shelved records) (hm : r.OwnMessages)
    (hd : g.Settles part records r)
    (hs : Source cfg part g (r.ownerInstanceId ≠ "") (approvalsOf records) r) :
    (lawWatch cfg part).wp (checkpoint cfg type records)
      (fun _ g' r' => Saved r r' ∧ (terminal r.state ∨ r' ∈ g'.runs))
      (fun _ _ r' => Touched r r') g r := by
  unfold checkpoint
  rw [wp_bind]
  refine wp_mono (law_grows mergeCancellation_law) ?_ fun _ _ _ h => ⟨_, h.2⟩
  rintro _ g₁ r₁ ⟨hgrows, ⟨flag, rfl⟩, hflag⟩
  rw [wp_bind, wp_get, wp_bind]
  refine wp_mono (commitRun_law (E := fun _ _ _ => False) (by simp [hr])
    (hw.append (shelved_of_nil rfl))
    ⟨⟨hm.1, hm.2⟩, fun _ => hflag, by simpa using (hs.mono hgrows).withFlag flag, ?_⟩) ?_
    fun _ _ _ h => h.elim
  · exact fun hpart a ha => hd.mono hgrows hpart a (by simpa using ha)
  rintro res g₂ r₂ ⟨rfl, hres⟩
  refine wp_mono concludeCommit_law ?_ fun _ _ _ h => ⟨flag, h⟩
  rintro _ g₃ r₃ ⟨version, rfl, rfl, rfl⟩
  exact ⟨⟨flag, version, rfl⟩, hres version rfl⟩

/-- **Transitions.** -/
lemma transition_law {state : RunState}
    (hr : runsOf records = []) (hw : Shelved records) (hm : r.OwnMessages)
    (hd : g.Settles part records r)
    (hs : validTransition r.state state →
      Source cfg part g (r.ownerInstanceId ≠ "") (approvalsOf records) { r with state := state }) :
    (lawWatch cfg part).wp (transition cfg state type records)
      (fun _ g' r' => validTransition r.state state ∧ Saved { r with state := state } r' ∧
        (terminal state ∨ r' ∈ g'.runs))
      (fun _ _ r' => (validTransition r.state state = false ∧ r' = r) ∨
        (validTransition r.state state ∧ Touched { r with state := state } r')) g r := by
  unfold transition
  refine of_ite ⟨fun hv => ?_, fun hv => .inl ⟨by simpa using hv, rfl⟩⟩
  exact wp_mono (checkpoint_law hr hw ⟨hm.1, hm.2⟩ hd (hs hv)) (fun _ _ _ h => ⟨hv, h⟩)
    fun _ _ _ h => .inr ⟨hv, h⟩

/-- A run written from a copy that was seen and live. -/
lemma Source.ofCopy {b r : Run} {fenced : Prop} (seen : b ∈ g.runs)
    (live : terminal b.state = false) (id : r.id = b.id) (version : r.version = b.version)
    (cursor : r.toCursor = b.toCursor) (law : ApprovalLaw cfg g b r approvals) :
    Source cfg part g fenced approvals r :=
  .inr ⟨b,
    { seen, id, version, live
      visits := fun n => by rw [cursor]
      cursor := .inl cursor
      approvals := law }⟩

/-! ## Creating runs -/

variable (q : RunRequest)

lemma flags_of_new (g : Seen) (id messageId : String) :
    ((g.look id false).look messageId false).flags id = false := by
  simp [Seen.look, Function.update_apply]

/-- A new run is queued, with version 0. -/
lemma createRun_law (hm : r.OwnMessages) (hv : r.version = 0) (hq : r.state = .queued)
    (hf : g.flags r.id = false) :
    (lawWatch cfg part).wp (createRun cfg r)
      (fun r' g' _ => r' ∈ g'.runs ∧ r'.OwnMessages ∧ r'.state = .queued)
      (fun _ _ _ => True) g s := by
  refine of_if ?_ ?_
  · unfold onRun
    rw [wp_bind, wp_localVar]
    refine wp_imp_ok (checkpoint_law rfl shelved_nil hm settles_nil (.inl ⟨hv, rfl⟩)) ?_
    rintro _ g' r' ⟨⟨flag, version, rfl⟩, hseen⟩
    exact ⟨hseen.resolve_left (by simp [hq, terminal]), ⟨hm.1, hm.2⟩, hq⟩
  rw [wp_bind]
  refine (law_ask _).mpr ⟨⟨⟨hm, by simp [hf], .inl ⟨hv, rfl⟩, settles_nil⟩, hv⟩, fun a _ _ => ?_⟩
  rw [wp_bind]
  refine law_orThrow.mpr ⟨fun bound hb => ?_, fun _ _ => trivial⟩
  subst hb
  cases bound with
  | none => trivial
  | some version => exact ⟨by simp [Seen.note, Seen.saw], ⟨hm.1, hm.2⟩, hq⟩

lemma startLocally_law (hr : r ∈ g.runs) (hm : r.OwnMessages) (hq : r.state = .queued) :
    Obeys cfg part (startLocally cfg r) g s := by
  refine of_ite ⟨fun hsolo => ?_, fun _ => trivial⟩
  refine obeys_ask ⟨hr, hm, hq, by simp [hsolo]⟩ fun _ _ _ => obeys_orThrow_end _

lemma admitMode_law (p : Proc) : Obeys cfg part (admitMode cfg q p) g s := by
  refine obeys_unless trivial fun _ => ?_
  refine obeys_unless trivial fun _ => ?_
  refine of_if ?_ trivial
  split
  · trivial
  · exact obeys_ask trivial fun _ _ _ => obeys_orThrow_end _

lemma admitCapacity_law (p : Proc) : Obeys cfg part (admitCapacity cfg p) g s := by
  refine obeys_unless trivial fun _ => ?_
  refine of_if ?_ trivial
  refine obeys_read trivial fun _ _ _ _ => ?_
  exact obeys_unless trivial fun _ => trivial

lemma admitRun_law : Obeys cfg part (admitRun cfg q) g s := obeys_ask trivial fun p _ _ =>
    obeys_seq (admitMode_law q p) fun _ _ _ _ => admitCapacity_law p

/-- **Starting a run.** -/
lemma run_law : Obeys cfg part (run cfg q) g s := by
  refine obeys_seq (admitRun_law q) fun _ g₁ s₁ _ => obeys_ask trivial fun _ _ _ => ?_
  refine obeys_seq (obeys_ofExcept _) fun _ g₂ s₂ _ => obeys_seq (obeys_ofExcept _) ?_
  intro checked g₃ s₃ _
  refine obeys_unless trivial fun _ => ?_
  refine obeys_ask trivial fun _ _ _ => obeys_seq (obeys_ofExcept _) fun _ g₄ s₄ _ => ?_
  refine obeys_ask trivial fun id _ _ => obeys_ask trivial fun messageId _ _ => ?_
  refine obeys_bind (wp_imp (createRun_law ⟨rfl, by simp [newRun]⟩ rfl rfl ?_) ?_)
  · -- the identifier is new, so its flag counts as unset
    exact flags_of_new g₄ id messageId
  · rintro r g₅ s₅ ⟨hr, hm, hq⟩
    exact obeys_seq (startLocally_law hr hm hq) fun _ _ _ _ => trivial

/-! ## Resuming -/

lemma approved_law (hQ : ∀ approvals, (∀ a ∈ approvals, a.runId = r.id) →
      Q (approvedIn r approvals) (g.note (.listApprovals r.id) (.ok approvals)) s) :
    (lawWatch cfg part).wp (approved r) Q (fun _ _ _ => True) g s := by
  unfold approved
  rw [wp_bind]
  refine (law_ask _).mpr ⟨trivial, fun a hp _ => ?_⟩
  rw [wp_bind]
  refine law_orThrow.mpr ⟨fun approvals ha => ?_, fun _ _ => trivial⟩
  subst ha
  exact hQ approvals hp

lemma exists_grants (hid : ∀ a ∈ approvals, a.runId = r.id)
    (h : approvedIn r approvals) : ∃ a ∈ approvals, a.Grants r r.activeNode := by
  obtain ⟨a, ha, hnode, hvisit, hdecision⟩ := approvedIn_iff.mp h
  exact ⟨a, ha, hid a ha, hnode, hvisit, hdecision⟩

/-- A run that waits for an approval is ready if one grants it. -/
lemma resumeReady_law (r : Run) : (lawWatch cfg part).wp (resumeReady r)
      (fun ready g' _ => ready → r.state = .waitingApproval →
        ∃ a ∈ g'.approvals, a.Grants r r.activeNode)
      (fun _ _ _ => True) g s := by
  refine of_ite ⟨fun _ => ?_, fun hs => fun _ h => absurd h hs⟩
  refine approved_law fun approvals hid happroved _ => ?_
  obtain ⟨a, ha, hgrants⟩ := exists_grants hid happroved
  exact ⟨a, mem_append_left _ ha, hgrants⟩

/-- A parked run is queued again. -/
lemma requeue_law {Q : Run → Seen → σ → Prop} (hr : r ∈ g.runs) (hm : r.OwnMessages)
    (hw : r.state = .waitingApproval → ∃ a ∈ g.approvals, a.Grants r r.activeNode)
    (hQ : ∀ r' g', r' ∈ g'.runs → r'.OwnMessages → r'.state = .queued → Q r' g' s) :
    (lawWatch cfg part).wp (requeue cfg r) Q (fun _ _ _ => True) g s := by
  refine of_ite ⟨fun _ => ?_, fun hq => hQ r g hr hm (not_not.mp hq)⟩
  unfold onRun
  rw [wp_bind, wp_localVar]
  refine wp_imp_ok (transition_law rfl shelved_nil hm settles_nil fun hv => ?_) ?_
  · exact .ofCopy hr (not_terminal_of_validTransition hv) rfl rfl rfl
      (.keep fun hwait => .inr (.inr (hw hwait)))
  · rintro _ g' r' ⟨_, ⟨flag, version, rfl⟩, hseen⟩
    exact hQ _ g' (hseen.resolve_left (by simp [terminal])) ⟨hm.1, hm.2⟩ rfl

variable (id : String)

/-- **Resuming a run.** -/
lemma resume_law : Obeys cfg part (resume cfg id) g s := by
  refine obeys_ask trivial fun p _ _ => ?_
  refine obeys_unless trivial fun _ => ?_
  refine obeys_getRun fun r _ hm => obeys_ask trivial fun p _ _ => ?_
  refine obeys_unless trivial fun _ => ?_
  refine obeys_unless trivial fun _ => ?_
  refine obeys_bind (wp_imp (law_grows (resumeReady_law r)) ?_)
  rintro ready g₁ s₁ ⟨hg, hready⟩
  refine obeys_unless trivial fun hr => ?_
  refine obeys_unless trivial fun _ => ?_
  refine obeys_unless trivial fun _ => ?_
  refine obeys_bind (requeue_law (hg.runs mem_cons_self) hm
    (hready (by simpa using hr)) fun r' g₂ hr' hm' hq => ?_)
  exact startLocally_law hr' hm' hq

/-- The end of a child queues or resumes the parent that was paused. -/
lemma finishParent_law (child : Run) : Obeys cfg part (finishParent cfg child) g s := by
  refine obeys_ask trivial fun p _ _ => ?_
  refine obeys_unless trivial fun _ => ?_
  refine obeys_getRun fun parent _ hm => obeys_ask trivial fun p _ _ => ?_
  refine of_ite ⟨fun hp => ?_, fun _ => trivial⟩
  refine of_if ?_ (resume_law _)
  refine obeys_ask ⟨.inr ⟨_, rfl, ⟨hm.1, hm.2⟩, ?_, ?_, settles_nil⟩, shelved_of_nil rfl⟩
    fun _ _ _ => obeys_orThrow fun _ _ => trivial
  · simp [Seen.note, Seen.saw]
  · exact .ofCopy mem_cons_self (by rw [hp.1]; rfl) rfl rfl rfl
      (.keep fun hw => absurd (hp.1.symm.trans hw) nofun)

/-! ## Deciding -/

/-- The run leaves its wait in the commit of the decision. -/
lemma applyDecision_law {approve : Bool}
    (hr : runsOf records = []) (hw : Shelved records) (hm : r.OwnMessages)
    (hd : ∀ r', g.Settles part records r')
    (hs : ∀ r' : Run, r'.toOrigin = r.toOrigin → r'.version = r.version →
      r'.toCursor = r.toCursor → r'.state ≠ .waitingApproval →
      Source cfg part g (r'.ownerInstanceId ≠ "") (approvalsOf records) r') :
    Obeys cfg part (applyDecision cfg approve r records) g s := by
  refine of_if ?_ ?_
  · refine obeys_onRun (transition_law hr hw hm (hd _) fun _ => hs _ rfl rfl rfl (by simp)) ?_
    rintro _ g' r' - ⟨_, ⟨flag, version, rfl⟩, hseen⟩
    exact startLocally_law (hseen.resolve_left (by simp [terminal])) ⟨hm.1, hm.2⟩ rfl
  · refine obeys_onRun (transition_law hr hw ⟨hm.1, hm.2⟩ (hd _) fun _ => hs _ rfl rfl rfl (by simp)) ?_
    exact fun _ _ _ _ _ => finishParent_law _

lemma disown_eq (cfg : Config) (r : Run) :
    ∃ ownership, disown cfg r = { r with toOwnership := ownership } := by
  unfold disown
  split
  · exact ⟨_, rfl⟩
  · exact ⟨r.toOwnership, rfl⟩

/-- **Deciding an approval.** -/
lemma decideApproval_law (approve : Bool) (actor comment : String) :
    Obeys cfg .control (decideApproval cfg id approve actor comment) g s := by
  refine obeys_unless trivial fun _ => ?_
  refine obeys_ask trivial fun a ha _ => obeys_orThrow fun a hok => ?_
  subst hok
  refine obeys_getRun fun r hrun hm => ?_
  refine obeys_unless trivial fun hcurrent => ?_
  refine obeys_ask trivial fun p _ _ => ?_
  refine obeys_unless trivial fun _ => ?_
  refine obeys_unless trivial fun _ => ?_
  refine obeys_ask trivial fun attempts _ _ => obeys_orThrow fun attempts hok => ?_
  simp only [ne_eq, not_or, not_not] at hcurrent
  obtain ⟨hpending, hwaiting, hnode⟩ := hcurrent
  obtain ⟨ownership, hown⟩ := disown_eq cfg r
  have hside : Side (settleAttempts a approve attempts) := side_attempts _ _
  obtain ⟨hplain, hshelved⟩ := hside
  rw [hown]
  refine applyDecision_law (by simp [hplain.1]) ?_ ⟨hm.1, hm.2⟩ (fun _ => nofun)
    fun r' horigin hversion hcursor hst => ?_
  · exact (shelved_of_nil rfl : Shelved [.approval _]).append hshelved
  refine .ofCopy mem_cons_self (by rw [hwaiting]; rfl)
    (congrArg Origin.id horigin) hversion hcursor ?_
  simp only [approvalsOf_cons, Record.approval?, Option.toList_some, hplain.2, append_nil]
  refine .decision ⟨mem_cons_self, hpending⟩ ⟨rfl, rfl, rfl, rfl, rfl⟩ hrun.symm
    hnode.symm hwaiting ?_ hst
  cases approve <;> simp

/-! ## Cancelling -/

/-- Work that waits is cancelled, work under way is told to stop. -/
lemma cancelNodeWork_law (works : List NodeWork) : Obeys cfg part (cancelNodeWork works) g s := by
  induction works generalizing g s with
  | nil => exact obeys_pure _
  | cons work rest ih =>
    refine of_if ?_ ?_
    · exact obeys_ask ⟨.inl ⟨rfl, rfl⟩, shelved_singleton (.inr rfl)⟩ fun _ _ _ =>
        obeys_orThrow fun _ _ => ih
    · refine of_if ?_ ih
      exact obeys_ask trivial fun _ _ _ => ih

lemma releaseQuietly_law (lease : LeaseRecord) : Obeys cfg part (releaseQuietly lease) g s := by
  refine obeys_ask trivial fun a _ _ => ?_
  cases a <;> exact obeys_pure _

/-- A live run is moved to `CANCELLED`. -/
lemma endRun_law {r b : Run} (hb : b ∈ g.runs) (hm : r.OwnMessages)
    (horigin : r.toOrigin = b.toOrigin) (hversion : r.version = b.version)
    (hcursor : r.toCursor = b.toCursor) (hstate : r.state = b.state) :
    Obeys cfg part (onRun r (transition cfg .cancelled type) >>= fun _ => pure ()) g s := by
  refine obeys_onRun (transition_law rfl shelved_nil hm settles_nil fun hv =>
    .ofCopy hb ?_ (congrArg Origin.id horigin)
    hversion hcursor (.keep fun _ => .inr (.inl rfl))) fun _ _ _ _ _ => trivial
  rw [← hstate]
  exact not_terminal_of_validTransition hv

/-- The parked run is written from the copy that was read before the request was recorded. -/
lemma cancelParked_law (hr : r ∈ g.runs) (hm : r.OwnMessages)
    (hlive : terminal r.state = false) : Obeys cfg part (cancelParked cfg r) g s := by
  refine obeys_ask trivial fun p _ _ => ?_
  refine of_if ?_ ?_
  · refine obeys_ask trivial fun _ _ _ => ?_
    refine of_if ?_ trivial
    exact endRun_law hr hm rfl rfl rfl rfl
  refine of_if ?_ trivial
  refine of_if ?_ ?_
  · refine obeys_ask ⟨.inr ⟨_, rfl, ⟨hm.1, hm.2⟩, fun _ _ => rfl, ?_, settles_nil⟩, shelved_of_nil rfl⟩
      fun _ _ _ => obeys_orThrow fun _ _ => trivial
    exact .ofCopy hr hlive rfl rfl rfl (.keep fun _ => .inr (.inl rfl))
  refine obeys_read trivial fun _ held _ hok => ?_
  subst hok
  cases held with
  | none => exact obeys_pure _
  | some lease =>
    refine obeys_seq (obeys_tryCatch ?_ ?_) fun _ _ _ _ => releaseQuietly_law lease
    · exact endRun_law hr ⟨hm.1, hm.2⟩ rfl rfl rfl rfl
    · exact fun e _ _ _ => obeys_seq (releaseQuietly_law lease) fun _ _ _ _ => obeys_throw e

lemma cancelChildren_law (ids : List String) (h : ∀ id g s, Obeys cfg part (cancelOne id) g s) :
    Obeys cfg part (cancelChildren cancelOne ids) g s := by
  induction ids generalizing g s with
  | nil => exact obeys_pure _
  | cons id rest ih =>
    refine obeys_peekRun fun child => ?_
    refine of_if ih ?_
    exact obeys_seq (h _ _ _) fun _ _ _ _ => ih

lemma cancelDistributed_law
    (h : ∀ id g s, Obeys cfg part (cancelOne id) g s) (hr : r ∈ g.runs) (hm : r.OwnMessages)
    (hlive : terminal r.state = false) : Obeys cfg part (cancelDistributed cfg cancelOne r) g s := by
  refine obeys_read trivial fun _ _ _ _ => ?_
  refine obeys_read trivial fun _ works _ _ => ?_
  refine obeys_seq (cancelNodeWork_law works) fun _ g₁ s₁ hg₁ => ?_
  refine obeys_read trivial fun _ runs _ _ => ?_
  refine obeys_seq (cancelChildren_law _ h) fun _ g₂ s₂ hg₂ => ?_
  exact cancelParked_law (hg₂.runs (hg₁.runs hr)) hm hlive

/-- Only pending approvals are withdrawn. -/
lemma withdrawn_records (approvals : List Approval) :
    runsOf (withdrawn approvals) = [] ∧ Shelved (withdrawn approvals) ∧
      ∀ a ∈ approvalsOf (withdrawn approvals), a.decision = .cancelled ∧
        ∃ p ∈ approvals, p.decision = .pending ∧ SameRequest p a := by
  unfold withdrawn
  refine ⟨?_, shelved_of_nil ?_, ?_⟩
  · simp [runsOf, filterMap_map, Function.comp_def]
  · simp [worksOf, filterMap_map, Function.comp_def]
  intro a ha
  simp only [approvalsOf, filterMap_map, Function.comp_def, Record.approval?,
    mem_filterMap, mem_filter, decide_eq_true_eq, Option.some.injEq] at ha
  obtain ⟨p, ⟨hp, hpending⟩, rfl⟩ := ha
  exact ⟨rfl, p, hp, hpending, rfl, rfl, rfl, rfl, rfl⟩

/-- The pending approvals of the run are withdrawn in the commit that records the request. -/
lemma cancelLocal_law (hsolo : cfg.coordination = false)
    (h : ∀ id g s, Obeys cfg part (cancelOne id) g s) (hr : r ∈ g.runs) (hm : r.OwnMessages)
    (hlive : terminal r.state = false) : Obeys cfg part (cancelLocal cfg cancelOne r) g s := by
  refine obeys_read trivial fun _ approvals _ hok => ?_
  subst hok
  obtain ⟨hruns, hshelved, hwithdrawn⟩ := withdrawn_records approvals
  refine obeys_onRun (checkpoint_law hruns hshelved ⟨hm.1, hm.2⟩ (settles_of_open ?_) ?_) ?_
  · simp [withdrawn, attemptsOf, filterMap_map, Function.comp_def]
  · refine .ofCopy hr hlive rfl rfl rfl (.withdraw hsolo fun a ha => ?_)
    obtain ⟨hdecision, p, hp, hpending, hsame⟩ := hwithdrawn a ha
    exact ⟨hdecision, p, ⟨mem_append_left _ hp, hpending⟩, hsame⟩
  rintro _ g₁ r₁ hg₁ ⟨⟨flag, version, rfl⟩, hseen⟩
  refine obeys_read trivial fun _ runs _ _ => ?_
  refine obeys_seq (cancelChildren_law _ h) fun _ g₂ s₂ hg₂ => ?_
  have hr₂ := hg₂.runs (hseen.resolve_left (by simp [hlive]))
  refine obeys_ask trivial fun p _ _ => ?_
  refine of_if ?_ ?_
  · refine obeys_ask trivial fun _ _ _ => ?_
    refine of_if ?_ trivial
    exact endRun_law hr₂ ⟨hm.1, hm.2⟩ rfl rfl rfl rfl
  · exact endRun_law hr₂ ⟨hm.1, hm.2⟩ rfl rfl rfl rfl

/-- By induction on the depth of the descendants. -/
lemma cancelLocked_law (fuel : Nat) (id : String) (g : Seen) (visited : List String) :
    Obeys cfg part (cancelLocked cfg fuel id) g visited := by
  induction fuel generalizing id g visited with
  | zero => exact obeys_ask trivial nofun
  | succ fuel ih =>
    unfold cancelLocked
    refine of_if trivial ?_
    refine obeys_getRun fun r _ hm => ?_
    refine obeys_unless trivial fun hlive => ?_
    have hlive : terminal r.state = false := by simpa using hlive
    refine of_ite ⟨fun _ => ?_, fun hsolo => ?_⟩
    · exact cancelDistributed_law (fun id g s => ih id g s) mem_cons_self hm hlive
    · exact cancelLocal_law (by simpa using hsolo) (fun id g s => ih id g s) mem_cons_self hm
        hlive

/-- **Cancelling a run.** -/
lemma cancel_law (fuel : Nat) (id : String) :
    (lawWatch cfg part).wp (cancel cfg fuel id) (fun _ _ s' => s' = s) (fun _ _ s' => s' = s)
      g s := by
  unfold cancel
  rw [wp_bind, wp_localVar]
  exact wp_mono (cancelLocked_law fuel id g []) (fun _ _ _ _ => rfl) fun _ _ _ _ => rfl

/-! ## Claiming -/

lemma stillWaiting_law (hQ : ∀ waiting, Q waiting g s) :
    (lawWatch cfg part).wp (stillWaiting r) Q (fun _ _ _ => True) g s := by
  refine of_if (hQ _) ?_
  refine of_if ?_ ?_
  · unfold distributedParallelReady
    rw [wp_bind]
    refine of_if (hQ _) ?_
    rw [wp_bind]
    refine (law_ask _).mpr ⟨trivial, fun a _ _ => ?_⟩
    rw [wp_bind]
    refine law_orThrow.mpr ⟨fun works hok => ?_, fun _ _ => trivial⟩
    exact hQ _
  refine of_if ?_ (hQ _)
  rw [wp_bind, peekRun, wp_bind]
  refine (law_ask _).mpr ⟨trivial, fun a _ _ => ?_⟩
  refine law_orThrow.mpr ⟨fun child hok => ?_, fun _ _ => trivial⟩
  subst hok
  exact hQ _

/-- What is not skipped is live and waits for no approval. -/
lemma notClaimable_law
    (hQ : ∀ skip, (skip = false → terminal r.state = false ∧ r.state ≠ .waitingApproval) →
      Q skip g s) :
    (lawWatch cfg part).wp (notClaimable r) Q (fun _ _ _ => True) g s := by
  refine of_ite ⟨fun _ => hQ true nofun, fun hr => ?_⟩
  rw [not_or] at hr
  exact stillWaiting_law fun waiting => hQ waiting fun _ => ⟨by simpa using hr.1, hr.2⟩

/-- The run is taken over under the lease that was acquired for it. -/
lemma claimOwned_law {id : String} (hkey : lease.resourceKey = "run:" ++ id)
    (howner : lease.ownerInstance ≠ "") : Obeys cfg part (claimOwned cfg id lease) g s := by
  refine obeys_getRun fun r hid hm => ?_
  refine obeys_bind (notClaimable_law fun skip hskip => ?_)
  refine of_ite ⟨fun _ => ?_, fun hs => ?_⟩
  · exact obeys_read trivial fun _ _ _ _ => trivial
  obtain ⟨hlive, hwait⟩ := hskip (by simpa using hs)
  refine obeys_ask ⟨.inr ⟨takeOver lease r, rfl, ⟨hm.1, hm.2⟩, ?_, ?_, settles_nil⟩, ?_,
    .inl (shelved_of_nil rfl)⟩ ?_
  · simp [Seen.saw, takeOver]
  · exact .ofCopy mem_cons_self hlive rfl rfl rfl (.keep fun h => absurd h hwait)
  · simp [takeOver, hkey, hid]
  refine fun _ _ _ => obeys_orThrow fun version hok => ?_
  subst hok
  refine obeys_ask trivial fun p _ _ => ?_
  refine of_if ?_ ?_
  · exact obeys_read trivial fun _ _ _ _ => trivial
  refine obeys_tryCatch ?_ fun _ _ _ _ => trivial
  refine obeys_ask ⟨?_, ⟨hm.1, hm.2⟩, rfl, fun _ => howner⟩ fun _ _ _ => obeys_orThrow_end _
  exact mem_cons_self

lemma claimOne_law : Obeys cfg part (claimOne cfg id) g s := by
  refine obeys_ask trivial fun a hp _ => ?_
  rcases a with e | _ | lease
  · exact obeys_pure _
  · exact obeys_pure _
  · exact obeys_tryCatch (claimOwned_law hp.1 hp.2) fun _ _ _ _ => releaseQuietly_law lease

lemma claimEach_law (runs : List Run) : Obeys cfg part (claimEach cfg runs) g s := by
  induction runs generalizing g s with
  | nil => exact obeys_pure _
  | cons r rest ih =>
    refine obeys_ask trivial fun p _ _ => ?_
    refine obeys_unless trivial fun _ => ?_
    refine obeys_seq (obeys_tryCatch (obeys_of_wp (notClaimable_law
      (Q := fun _ _ _ => True) fun _ _ => trivial))
      fun _ _ _ _ => trivial) fun skip _ _ _ => ?_
    refine of_if ih ?_
    refine obeys_ask trivial fun p _ _ => ?_
    refine obeys_unless trivial fun _ => ?_
    exact obeys_seq (claimOne_law r.id) fun _ _ _ _ => ih

/-- **One pass over the runs.** -/
lemma claimPass_law : Obeys cfg part (claimPass cfg) g s := by
  refine obeys_ask trivial fun p _ _ => ?_
  refine obeys_unless trivial fun _ => ?_
  refine obeys_ask trivial fun a _ _ => ?_
  cases a with
  | ok runs => exact claimEach_law _
  | error e => exact obeys_pure _

/-! ## Claiming distributed work -/

lemma releaseAll_law (leases : List LeaseRecord) : Obeys cfg part (releaseAll leases) g s := by
  induction leases generalizing g s with
  | nil => exact obeys_pure _
  | cons lease rest ih => exact obeys_read trivial fun _ _ _ _ => ih

lemma acquireFirst_law (keys : List String) :
    (lawWatch cfg part).wp (acquireFirst keys) (fun _ g' _ => g.leases ⊆ g'.leases)
      (fun _ _ _ => True) g s := by
  induction keys generalizing g s with
  | nil => exact List.Subset.refl _
  | cons key rest ih =>
    unfold acquireFirst
    rw [wp_bind]
    refine (law_ask _).mpr ⟨trivial, fun a _ _ => ?_⟩
    rcases a with e | _ | lease
    · trivial
    · exact ih
    · exact subset_cons_self _ _

/-- The attempt of an expired claim is closed, nothing else. -/
lemma expiredAttempt_law {work : NodeWork} : (lawWatch cfg part).wp (expiredAttempt work)
      (fun records g' _ => Plain records ∧ worksOf records = [] ∧ g' = g)
      (fun _ _ _ => True) g s := by
  refine of_if ?_ (⟨plain_nil, rfl, rfl⟩)
  rw [wp_bind]
  refine (law_ask _).mpr ⟨trivial, fun a _ _ => ?_⟩
  cases a with
  | ok previous =>
    exact of_if (⟨⟨rfl, rfl⟩, rfl, rfl⟩) (⟨plain_nil, rfl, rfl⟩)
  | error e => exact of_if (⟨plain_nil, rfl, rfl⟩) trivial

/-- The work is claimed with the token of its lease. -/
lemma claimWorkOwned_law {id : String} {slots : List LeaseRecord}
    (hkey : lease.resourceKey = "node:" ++ id) (hlease : lease ∈ g.leases) :
    Obeys cfg .control (claimWorkOwned cfg id lease slots) g s := by
  refine obeys_ask trivial fun _ hid _ => obeys_orThrow fun work hok => ?_
  subst hok
  refine of_if (releaseAll_law _) ?_
  refine obeys_bind (wp_imp expiredAttempt_law ?_)
  rintro expired g₁ s₁ ⟨hplain, hnone, rfl⟩
  refine obeys_ask trivial fun attemptId _ _ => ?_
  refine obeys_ask ⟨.inl ⟨by simp [hplain.1], by simp [hplain.2]⟩, by simp [hplain.1], ?_⟩ ?_
  · rw [worksOf_append, hnone]
    exact .inr ⟨_, rfl, .claim rfl rfl rfl ⟨lease, hlease, hid.symm ▸ hkey, rfl⟩⟩
  refine fun _ _ _ => obeys_orThrow fun version hok => obeys_ask trivial fun p _ _ => ?_
  subst hok
  refine of_if (releaseAll_law _) ?_
  refine obeys_ask ?_ fun _ _ _ => obeys_orThrow_end _
  simp [Seen.Allow, Seen.note, Seen.spend]

/-- A slot of the deployment and one of the run are held before the claim. -/
lemma claimWorkSlots_law (work : NodeWork)
    (hkey : lease.resourceKey = "node:" ++ work.id) (hlease : lease ∈ g.leases) :
    Obeys cfg .control (claimWorkSlots cfg work lease) g s := by
  refine obeys_bind (wp_imp (acquireFirst_law _) ?_)
  intro held g₁ s₁ hg₁
  cases held with
  | none => exact releaseAll_law _
  | some global =>
  refine obeys_tryCatch ?_ fun e _ _ _ =>
    obeys_seq (releaseQuietly_law global) fun _ _ _ _ => obeys_throw e
  refine obeys_bind (wp_imp (acquireFirst_law _) ?_)
  intro held g₂ s₂ hg₂
  cases held with
  | none => exact releaseAll_law _
  | some slot =>
    exact obeys_tryCatch (claimWorkOwned_law hkey (hg₂ (hg₁ hlease))) fun e _ _ _ =>
      obeys_seq (releaseQuietly_law slot) fun _ _ _ _ => obeys_throw e

lemma claimWork_law (work : NodeWork) : Obeys cfg .control (claimWork cfg work) g s := by
  refine obeys_ask trivial fun a hp _ => ?_
  rcases a with e | _ | lease
  · exact obeys_pure _
  · exact obeys_pure _
  · refine obeys_tryCatch (claimWorkSlots_law work hp.1 ?_) fun _ _ _ _ => releaseQuietly_law lease
    exact mem_cons_self

lemma claimEachWork_law (works : List NodeWork) :
    Obeys cfg .control (claimEachWork cfg works) g s := by
  induction works generalizing g s with
  | nil => exact obeys_pure _
  | cons work rest ih =>
    refine obeys_ask trivial fun p _ _ => ?_
    refine obeys_unless trivial fun _ => ?_
    refine obeys_seq (obeys_tryCatch (obeys_peekRun fun r => obeys_ask trivial fun _ _ _ => trivial)
      fun _ _ _ _ => trivial) fun claimable _ _ _ => ?_
    refine of_if ih ?_
    refine obeys_ask trivial fun p _ _ => ?_
    refine obeys_unless trivial fun _ => ?_
    exact obeys_seq (claimWork_law work) fun _ _ _ _ => ih

/-- **One pass over the work.** -/
lemma claimWorkPass_law : Obeys cfg .control (claimWorkPass cfg) g s := by
  refine obeys_ask trivial fun a _ _ => ?_
  cases a with
  | ok works => exact claimEachWork_law _
  | error e => exact obeys_pure _

/-! ## Supervising distributed work -/

/-- Work whose job is over waits again, or it has failed. -/
lemma reconciledWork_state (r : Run) (a : NodeExecution) (retry : Bool) (work : NodeWork) :
    (reconciledWork r a retry work).Idle ∨ (reconciledWork r a retry work).state = .failed := by
  unfold reconciledWork
  split
  · exact .inl (.inr rfl)
  split
  · exact .inl (.inl rfl)
  · exact .inr rfl

lemma reconcile_allow (r : Run) (a : NodeExecution) (retry : Bool) (work : NodeWork)
    (lease : LeaseRecord) : g.Allow cfg .control (.commitOwned
      [.attempt a, .nodeWork (reconciledWork r a retry work)] ("node:" ++ work.id)
      lease.ownerInstance lease.fencingToken) := by
  refine ⟨.inl ⟨rfl, rfl⟩, nofun, ?_⟩
  exact (reconciledWork_state r a retry work).imp shelved_singleton
    fun hfailed => ⟨_, rfl, .failed hfailed⟩

lemma releaseEach_law (leases : List LeaseRecord) :
    Obeys cfg part (dropActiveNode.releaseEach leases) g s := by
  induction leases generalizing g s with
  | nil => exact obeys_pure _
  | cons lease rest ih => exact obeys_seq (releaseQuietly_law lease) fun _ _ _ _ => ih

lemma dropActiveNode_law (lease : LeaseRecord) : Obeys cfg part (dropActiveNode id lease) g s := by
  refine obeys_ask trivial fun p _ _ => ?_
  split
  · exact releaseQuietly_law lease
  · refine obeys_ask trivial fun _ _ _ => obeys_ask trivial fun _ _ _ => ?_
    exact obeys_seq (releaseEach_law _) fun _ _ _ _ => releaseQuietly_law lease

/-- The second try, under a lease of its own. -/
lemma reconcileAgain_law (r : Run) (a : NodeExecution) (retry : Bool) (observed : NodeWork) :
    Obeys cfg .control (reconcileAgain r a retry observed) g s := by
  refine obeys_ask trivial fun p _ _ => ?_
  refine obeys_unless trivial fun _ => ?_
  refine obeys_read trivial fun _ held _ _ => ?_
  cases held with
  | none => exact obeys_pure _
  | some lease =>
  refine obeys_tryCatch ?_ fun _ _ _ _ => releaseQuietly_law lease
  refine obeys_read trivial fun _ current _ _ => ?_
  refine of_if ?_ ?_
  · exact obeys_read trivial fun _ _ _ _ => trivial
  · refine obeys_ask (reconcile_allow r a retry current lease) fun _ _ _ => ?_
    exact obeys_orThrow fun _ _ => dropActiveNode_law _ lease

lemma retriesWork_law (r : Run) (a : NodeExecution) (work : NodeWork) :
    Obeys cfg part (retriesWork cfg r a work) g s := by
  unfold retriesWork
  split <;> trivial

lemma reconcileCommit_law (r : Run) (job : WorkerJob) (a : NodeExecution) (current : NodeWork)
    (lease : LeaseRecord) : Obeys cfg .control (reconcileCommit cfg r job a current lease) g s := by
  refine obeys_seq (retriesWork_law r _ current) fun retry _ _ _ => ?_
  refine obeys_ask (reconcile_allow r _ retry current lease) fun res _ _ => ?_
  cases res with
  | ok version => exact dropActiveNode_law _ lease
  | error e =>
    exact obeys_unless trivial fun _ => reconcileAgain_law r _ retry current

lemma reconcileTerminalWorker_law (observed : NodeWork) (lease : LeaseRecord) :
    Obeys cfg .control (reconcileTerminalWorker cfg observed lease) g s := by
  refine obeys_unless trivial fun _ => obeys_peekRun fun r => ?_
  refine obeys_read trivial fun _ attempts _ _ => ?_
  split
  · exact obeys_pure _
  rename_i a _
  refine obeys_read trivial fun _ job _ _ => ?_
  refine obeys_unless trivial fun _ => ?_
  refine obeys_read trivial fun _ current _ _ => ?_
  refine obeys_unless trivial fun _ => obeys_ask trivial fun p _ _ => ?_
  exact obeys_unless trivial fun _ => reconcileCommit_law r job a current lease

lemma stopWork_law : Obeys cfg part (stopWork id) g s := by
  refine obeys_read trivial fun _ work _ _ => obeys_peekRun fun r => ?_
  exact of_if (obeys_ask_end trivial) trivial

lemma ignoreError_law (e : Exn) : Obeys cfg part (ignoreError e) g s := by
  cases e <;> trivial

lemma superviseEach_law (nodes : List ActiveNode) :
    Obeys cfg .control (superviseEach cfg nodes) g s := by
  induction nodes generalizing g s with
  | nil => exact obeys_pure _
  | cons node rest ih =>
    refine obeys_seq (obeys_tryCatch ?_ fun e _ _ _ => ignoreError_law e) fun _ _ _ _ => ?_
    · refine obeys_read trivial fun _ observed _ _ => ?_
      exact reconcileTerminalWorker_law observed node.workLease
    · refine obeys_seq (obeys_tryCatch (stopWork_law _) fun e _ _ _ => ignoreError_law e) ?_
      exact fun _ _ _ _ => ih

/-- **Supervising the nodes of this process.** -/
lemma supervise_law : Obeys cfg .control (supervise cfg) g s := by
  refine obeys_ask trivial fun p _ _ => ?_
  exact obeys_unless trivial fun _ => superviseEach_law _

/-! ## Recovery of a single owner -/

/-- An interrupted run is written from the copy of the scan. -/
lemma recoverRun_law (hsolo : cfg.coordination = false) (hr : r ∈ g.runs)
    (hm : r.OwnMessages) : Obeys cfg .control (recoverRun r) g s := by
  refine obeys_unless trivial fun hlive => ?_
  have hlive : terminal r.state = false := by simpa using hlive
  refine of_if ?_ ?_
  · refine obeys_ask ⟨.inr ⟨_, rfl, ⟨hm.1, hm.2⟩, by simp [hsolo], ?_, nofun⟩, shelved_of_nil rfl⟩
      fun _ _ _ => obeys_orThrow fun _ _ => trivial
    exact .ofCopy hr hlive rfl rfl rfl (.keep fun _ => .inr (.inl rfl))
  refine obeys_unless trivial fun hparked => ?_
  refine obeys_read trivial fun _ attempts _ hok => ?_
  have hside : Side (interruptedAttempts attempts) := side_attempts _ _
  obtain ⟨hplain, hshelved⟩ := hside
  refine obeys_ask ⟨.inr ⟨interrupt r, by simp [hplain.1], ⟨hm.1, hm.2⟩, by simp [hsolo], ?_,
    nofun⟩, ?_⟩ fun _ _ _ => obeys_orThrow fun _ _ => trivial
  swap
  · exact (shelved_of_nil rfl : Shelved [.run _, .event _]).append hshelved
  refine .ofCopy hr hlive rfl rfl rfl ?_
  simp only [cons_append, nil_append, approvalsOf_cons, hplain.2]
  exact .keep fun hw => absurd hparked (by simp [hw, RunState.parked])

lemma recoverEach_law {runs : List Run} (hsolo : cfg.coordination = false) (hr : runs ⊆ g.runs)
    (hm : ∀ r ∈ runs, r.OwnMessages) : Obeys cfg .control (recoverEach runs) g s := by
  induction runs generalizing g s with
  | nil => exact obeys_pure _
  | cons r rest ih =>
    refine obeys_seq (recoverRun_law hsolo (hr mem_cons_self) (hm r mem_cons_self)) ?_
    intro _ g' s' hg
    exact ih (fun x hx => hg.runs (hr (mem_cons_of_mem r hx)))
      fun x hx => hm x (mem_cons_of_mem r hx)

lemma subset_scan (g : Seen) (runs : List Run) :
    runs ⊆ (runs.foldr (fun r g => g.saw r) g).runs := by
  induction runs with
  | nil => exact nil_subset _
  | cons r rest ih => exact cons_subset_cons r ih

/-- **Recovery,** by a single owner only. -/
lemma recoverHistory_law : Obeys cfg .control (recoverHistory cfg) g s := by
  refine obeys_unless trivial fun hsolo => ?_
  refine obeys_ask trivial fun _ _ hsound => obeys_orThrow fun runs hok => ?_
  subst hok
  exact recoverEach_law (by simpa using hsolo) (subset_scan g runs) hsound

/-! ## Completion -/

/-- A run whose executor threw has failed. -/
lemma closeFailed_law {failed lost : Bool} {ended : Run} (hr : ended ∈ g.runs)
    (hm : ended.OwnMessages) : Obeys cfg part (closeFailed cfg failed lost ended) g s := by
  refine of_ite ⟨fun h => ?_, fun _ => trivial⟩
  unfold onRun
  rw [wp_bind, wp_localVar]
  refine obeys_of_wp (transition_law rfl shelved_nil ⟨hm.1, hm.2⟩ settles_nil fun _ => ?_)
  exact .ofCopy hr h.2.2.1 rfl rfl rfl (.keep fun hw => absurd hw h.2.2.2.1)

lemma continueAfterChild_law (ended : Run) : Obeys cfg part (continueAfterChild cfg ended) g s := by
  refine obeys_ask trivial fun p _ _ => ?_
  refine of_if ?_ trivial
  refine obeys_peekRun fun child => ?_
  exact of_if (resume_law _) trivial

lemma releaseEntry_law (entry : Option ActiveRun) :
    Obeys cfg part (releaseEntry cfg entry) g s := by
  unfold releaseEntry
  split
  · refine of_if ?_ trivial
    exact obeys_read trivial fun _ _ _ _ => trivial
  · exact obeys_pure _

/-- **The end of an execution.** -/
lemma complete_law (failed : Bool) : Obeys cfg part (complete cfg id failed) g s := by
  refine obeys_ask trivial fun p _ _ => obeys_ask trivial fun _ _ _ => ?_
  refine obeys_tryCatch ?_ fun _ _ _ _ => trivial
  refine obeys_getRun fun ended _ hm => ?_
  refine obeys_seq (closeFailed_law mem_cons_self hm) fun ended g₁ _ _ => ?_
  refine obeys_seq (finishParent_law ended) fun _ _ _ _ => ?_
  exact obeys_seq (continueAfterChild_law ended) fun _ _ _ _ => releaseEntry_law _

end Laso
