import Laso.Sessions.Machine

/-!
# Dispatching the turns of a session

**Order.** The journal tells which turns have been bound to runs, in which order
(`turnStarted`). A claim takes the first turn in the queue when no other turn is worked on, so all
turns before a claimed one are settled, and turns are bound in the order of their numbers, each at
most once: `SessionView.Ordered`.

**Stale dispatchers.** A dispatcher claims a turn in one transaction and binds a run to it in
another. In between it may be overtaken, by a dispatcher with a newer lease of the session or, in
single-owner mode, by the process that was started after a crash. In multi-instance mode the fence
of a claim only grows while a turn is claimed again; in single-owner mode the one process that
holds the ownership lock finds its own claim, so it never supersedes it.
-/

namespace Laso

open List Machine SessionTurn Option Table

namespace SessionView

variable {k : StepKind} {v v' : SessionView} {t t' u : SessionTurn}

def started (v : SessionView) : List SessionEvent := v.events.filter fun e => e.type = .turnStarted

variable {f : SessionTurn → SessionTurn} {e : SessionEvent}

lemma mem_started : e ∈ v.started ↔ e ∈ v.events ∧ e.type = .turnStarted := by
  simp [started]

structure Ordered (v : SessionView) : Prop where
  /-- A turn that was bound carries its run. -/
  bound : ∀ e ∈ v.started, ∃ t ∈ v.turns, t.id = e.turnId ∧ t.runId = e.runId
  /-- A turn that waits comes after every turn that was bound. -/
  waiting : ∀ e ∈ v.started, ∀ t ∈ v.turns, t.id = e.turnId → ∀ u ∈ v.turns, u.pending →
    t.sequence < u.sequence
  /-- All turns before a claimed one are settled. -/
  earlier : ∀ t ∈ v.turns, t.state = .claimed → ∀ u ∈ v.turns, u.sequence < t.sequence →
    u.state.settled
  increasing : v.started.Pairwise fun a b => ∀ t ∈ v.turns, ∀ u ∈ v.turns, t.id = a.turnId →
    u.id = b.turnId → t.sequence < u.sequence
  /-- A turn with a run was bound to it. -/
  runs : ∀ t ∈ v.turns, t.runId ≠ "" → ∃ e ∈ v.started, e.turnId = t.id ∧ e.runId = t.runId

/-- Turns are rewritten without being bound; no turn starts to wait, and a turn is claimed only
when those before it are settled. -/
structure Rewrites (v : SessionView) (f : SessionTurn → SessionTurn) : Prop where
  id : ∀ t ∈ v.turns, (f t).id = t.id
  sequence : ∀ t ∈ v.turns, (f t).sequence = t.sequence
  run : ∀ t ∈ v.turns, (f t).runId = t.runId
  pending : ∀ t ∈ v.turns, (f t).pending → t.pending
  settled : ∀ t ∈ v.turns, t.state.settled → (f t).state.settled
  claimed : ∀ t ∈ v.turns, (f t).state = .claimed → ∀ u ∈ v.turns, u.sequence < t.sequence →
    u.state.settled

lemma Ordered.rewrite (h : v.Ordered) (hf : v.Rewrites f)
    (hturns : v'.turns = v.turns.map f) (hstarted : v'.started = v.started) : v'.Ordered := by
  have hmem : ∀ t ∈ v'.turns, ∃ u ∈ v.turns, f u = t := by
    rw [hturns]
    exact fun t ht => mem_map.mp ht
  refine ⟨?_, ?_, ?_, ?_, ?_⟩
  · rw [hstarted]
    intro e he
    obtain ⟨t, ht, hid, hrun⟩ := h.bound e he
    exact ⟨f t, hturns ▸ mem_map_of_mem ht, (hf.id t ht).trans hid, (hf.run t ht).trans hrun⟩
  · rw [hstarted]
    intro e he t' ht' hid u' hu' hp
    obtain ⟨t, ht, rfl⟩ := hmem t' ht'
    obtain ⟨u, hu, rfl⟩ := hmem u' hu'
    rw [hf.sequence t ht, hf.sequence u hu]
    exact h.waiting e he t ht ((hf.id t ht).symm.trans hid) u hu (hf.pending u hu hp)
  · intro t' ht' hclaimed u' hu' hlt
    obtain ⟨t, ht, rfl⟩ := hmem t' ht'
    obtain ⟨u, hu, rfl⟩ := hmem u' hu'
    rw [hf.sequence t ht, hf.sequence u hu] at hlt
    exact hf.settled u hu (hf.claimed t ht hclaimed u hu hlt)
  · rw [hstarted]
    refine h.increasing.imp fun hab t' ht' u' hu' hta hub => ?_
    obtain ⟨t, ht, rfl⟩ := hmem t' ht'
    obtain ⟨u, hu, rfl⟩ := hmem u' hu'
    rw [hf.sequence t ht, hf.sequence u hu]
    exact hab t ht u hu ((hf.id t ht).symm.trans hta) ((hf.id u hu).symm.trans hub)
  rw [hstarted]
  intro t' ht' hrun
  obtain ⟨t, ht, rfl⟩ := hmem t' ht'
  rw [hf.run t ht] at hrun ⊢
  rw [hf.id t ht]
  exact h.runs t ht hrun

variable {es : List SessionEvent}

lemma started_append (ha : Appends v v' es) :
    v'.started = v.started ++ es.filter fun e => e.type = .turnStarted := by
  simp only [started, ha.events, filter_append]

lemma started_quiet (ha : Appends v v' es)
    (hes : ∀ e ∈ es, e.type ≠ .turnStarted) : v'.started = v.started := by
  have hnone : (es.filter fun e => e.type = .turnStarted) = [] := by
    rw [filter_eq_nil_iff]
    intro e he
    simpa using hes e he
  rw [started_append ha, hnone, append_nil]

lemma Ok.rewrites_replace (h : v.Ok) (t' : SessionTurn) (ht : t ∈ v.turns) (hid : t'.id = t.id)
    (hseq : t'.sequence = t.sequence) (hrun : t'.runId = t.runId)
    (hpending : t'.pending → t.pending)
    (hsettled : t.state.settled → t'.state.settled)
    (hclaimed : ∀ w ∈ v.turns, (replaceTurn t' w).state = .claimed → ∀ u ∈ v.turns,
      u.sequence < w.sequence → u.state.settled) :
    v.Rewrites (replaceTurn t') := by
  have hcases : ∀ u ∈ v.turns, (u = t ∧ replaceTurn t' u = t') ∨ replaceTurn t' u = u := by
    intro u hu
    unfold replaceTurn
    split
    · rename_i he
      exact .inl ⟨h.eq_of_id ht hu (he.trans hid), rfl⟩
    · exact .inr rfl
  refine ⟨?_, ?_, ?_, ?_, ?_, hclaimed⟩ <;> intro u hu <;>
    rcases hcases u hu with ⟨rfl, he⟩ | he <;> rw [he]
  · exact hid
  · exact hseq
  · exact hrun
  · exact hpending
  · exact id
  · exact hsettled
  · exact id

lemma Ordered.rewrites_cancel (h : v.Ordered)
    (hf : ∀ t ∈ v.turns, (f t).id = t.id ∧ (f t).sequence = t.sequence ∧ (f t).runId = t.runId ∧
      ((f t).state = .cancelled ∨ (f t).state = t.state)) : v.Rewrites f := by
  refine ⟨fun t ht => (hf t ht).1, fun t ht => (hf t ht).2.1, fun t ht => (hf t ht).2.2.1, ?_, ?_,
    ?_⟩ <;> intro t ht <;> rcases (hf t ht).2.2.2 with hs | hs
  · rintro (hp | hp) <;> rw [hs] at hp <;> cases hp
  · rintro (hp | hp) <;> rw [hs] at hp
    · exact .inl hp
    · exact .inr hp
  · rw [hs]
    exact fun _ => rfl
  · rw [hs]
    exact id
  · rw [hs]
    exact fun hc => by cases hc
  · rw [hs]
    exact h.earlier t ht

/-! ### One step -/

lemma Ordered.submit (h : v.Ordered) (hok : v.Ok) (ha : Appends v v' [e])
    (htype : e.type = .inputAccepted) (hfresh : ∀ u ∈ v.turns, u.id ≠ t.id)
    (hqueued : t.state = .queued) (hrun : t.runId = "")
    (hnumber : t.sequence = (v.turns.map sequence).foldl max 0 + 1)
    (hturns : v'.turns = v.turns ++ [t]) : v'.Ordered := by
  have hstarted : v'.started = v.started := started_quiet ha (by simp [htype])
  have hmem : ∀ u ∈ v'.turns, u ∈ v.turns ∨ u = t := by
    rw [hturns]
    simp
  have hbound : ∀ e ∈ v.started, t.id ≠ e.turnId := by
    intro e he hid
    obtain ⟨u, hu, hue, -⟩ := h.bound e he
    exact hfresh u hu (hue.trans hid.symm)
  have hlast : ∀ u ∈ v.turns, u.sequence < t.sequence := by
    intro u hu
    have hle := (hok.turns.bounds hu).2
    rw [hnumber, hok.lastSequence]
    omega
  refine ⟨?_, ?_, ?_, ?_, ?_⟩
  · rw [hstarted]
    intro e he
    obtain ⟨u, hu, hue⟩ := h.bound e he
    exact ⟨u, hturns ▸ mem_append_left _ hu, hue⟩
  · rw [hstarted]
    intro e he u hu hue w hw hp
    have hu' := (hmem u hu).resolve_right fun hut => hbound e he (hut ▸ hue)
    rcases hmem w hw with hw | rfl
    · exact h.waiting e he u hu' hue w hw hp
    · exact hlast u hu'
  · intro u hu hclaimed w hw hlt
    have hu' := (hmem u hu).resolve_right fun hut => by
      rw [hut, hqueued] at hclaimed
      cases hclaimed
    rcases hmem w hw with hw | rfl
    · exact h.earlier u hu' hclaimed w hw hlt
    · exact absurd hlt (Nat.not_lt.mpr (hlast u hu').le)
  · rw [hstarted]
    refine h.increasing.imp_of_mem fun hea heb hab u hu w hw hua hwb => ?_
    have hu' := (hmem u hu).resolve_right fun hut => hbound _ hea (hut ▸ hua)
    have hw' := (hmem w hw).resolve_right fun hwt => hbound _ heb (hwt ▸ hwb)
    exact hab u hu' w hw' hua hwb
  · rw [hstarted]
    intro u hu hne
    have hu' := (hmem u hu).resolve_right fun hut => hne (hut ▸ hrun)
    exact h.runs u hu' hne

lemma Ordered.bind {runId : String} (h : v.Ordered) (hok : v.Ok)
    (ha : Appends v v' [e]) (htype : e.type = .turnStarted) (heturn : e.turnId = t.id)
    (herun : e.runId = runId) (ht : t ∈ v.turns) (hclaimed : t.state = .claimed)
    (hturns : v'.turns = v.turns.map (replaceTurn (t.bind runId))) : v'.Ordered := by
  have hstarted : v'.started = v.started ++ [e] := by
    rw [started_append ha]
    simp [htype]
  have hmem : ∀ u ∈ v'.turns, u = t.bind runId ∨ (u ∈ v.turns ∧ u.id ≠ t.id) := by
    rw [hturns]
    exact fun u hu => mem_replace hu
  have hself : t.bind runId ∈ v'.turns := hturns ▸ mem_replace_self ht rfl
  have hkept : ∀ u ∈ v.turns, u.id ≠ t.id → u ∈ v'.turns := fun u hu hne =>
    hturns ▸ mem_map.mpr ⟨u, hu, if_neg hne⟩
  -- Every turn bound before comes before the claimed turn.
  have hbefore : ∀ a ∈ v.started, ∀ u ∈ v.turns, u.id = a.turnId → u.sequence < t.sequence :=
    fun a hea u hu hua => h.waiting a hea u hu hua t ht (.inr hclaimed)
  have hother : ∀ a ∈ v.started, ∀ u ∈ v'.turns, u.id = a.turnId → u ∈ v.turns ∧ u.id ≠ t.id := by
    intro a hea u hu hua
    refine (hmem u hu).resolve_left fun hut => ?_
    obtain ⟨w, hw, hwa, -⟩ := h.bound a hea
    have hlt := hbefore a hea w hw hwa
    have hid : u.id = t.id := by
      rw [hut]
      rfl
    cases hok.eq_of_id ht hw (hwa.trans (hua.symm.trans hid))
    exact absurd hlt (lt_irrefl _)
  refine ⟨?_, ?_, ?_, ?_, ?_⟩
  · rw [hstarted]
    intro a hea
    rcases mem_append.mp hea with hea | hea
    · obtain ⟨u, hu, hua, hur⟩ := h.bound a hea
      have hlt := hbefore a hea u hu hua
      have hne : u.id ≠ t.id := by
        intro he
        cases hok.eq_of_id ht hu he
        exact absurd hlt (lt_irrefl _)
      exact ⟨u, hkept u hu hne, hua, hur⟩
    · cases mem_singleton.mp hea
      exact ⟨t.bind runId, hself, heturn.symm, herun.symm⟩
  · rw [hstarted]
    intro a hea u hu hua w hw hp
    have hw' : w ∈ v.turns ∧ w.id ≠ t.id := by
      refine (hmem w hw).resolve_left fun hwt => ?_
      rw [hwt] at hp
      rcases hp with hp | hp <;> cases hp
    rcases mem_append.mp hea with hea | hea
    · exact h.waiting a hea u (hother a hea u hu hua).1 hua w hw'.1 hp
    cases mem_singleton.mp hea
    have hut : u.sequence = t.sequence := by
      rcases hmem u hu with rfl | ⟨-, hne⟩
      · rfl
      · exact absurd (hua.trans heturn) hne
    rw [hut]
    -- Turns before the claimed one are settled, so one that waits comes after it.
    refine lt_of_le_of_ne (Nat.le_of_not_lt fun hlt => ?_) fun heq => ?_
    · have hs := h.earlier t ht hclaimed w hw'.1 hlt
      rcases hp with hp | hp <;> rw [hp] at hs <;> cases hs
    · exact hw'.2 (congrArg SessionTurn.id (hok.eq_of_sequence ht hw'.1 heq.symm))
  · intro u hu huc w hw hlt
    have hu' : u ∈ v.turns ∧ u.id ≠ t.id := by
      refine (hmem u hu).resolve_left fun hut => ?_
      rw [hut] at huc
      cases huc
    exact absurd ((hok.active u hu'.1 (by rw [huc]; rfl)).trans
      (hok.active t ht (by rw [hclaimed]; rfl)).symm) hu'.2
  · rw [hstarted, pairwise_append]
    refine ⟨h.increasing.imp_of_mem fun hea heb hab u hu w hw hua hwb => ?_,
      pairwise_singleton _ _, fun a hea b heb u hu w hw hua hwb => ?_⟩
    · exact hab u (hother _ hea u hu hua).1 w (hother _ heb w hw hwb).1 hua hwb
    cases mem_singleton.mp heb
    have hwt : w.sequence = t.sequence := by
      rcases hmem w hw with rfl | ⟨-, hne⟩
      · rfl
      · exact absurd (hwb.trans heturn) hne
    rw [hwt]
    exact hbefore a hea u (hother a hea u hu hua).1 hua
  rw [hstarted]
  intro u hu hne
  rcases hmem u hu with rfl | ⟨hu', -⟩
  · exact ⟨e, mem_append_right _ (mem_singleton_self _), heturn, herun⟩
  · obtain ⟨a, hea, hr⟩ := h.runs u hu' hne
    exact ⟨a, mem_append_left _ hea, hr⟩

lemma Ordered.step (h : v.Ordered) (hok : v.Ok) (hstep : SessionStep k v v') : v'.Ordered := by
  cases hstep with
  | submit t e ha htype _ hfresh hqueued hnumber hturns _ =>
    exact h.submit hok ha htype hfresh.2 hqueued.1 hqueued.2 hnumber hturns
  | claim t owner fence e ha htype hopen ht hfirst hunbound hturns hsession =>
    have hstarted := started_quiet ha (by simp [htype.1])
    refine h.rewrite (hok.rewrites_replace (t.claim owner fence) ht rfl rfl rfl ?_ ?_ ?_)
      hturns hstarted
    · intro _
      exact hfirst.elim (fun hq => .inl hq.2.1) fun hc => .inr hc.2
    · intro hs
      rcases hfirst with hq | hc
      · rw [hq.2.1] at hs
        cases hs
      · rw [hc.2] at hs
        cases hs
    intro w hw hclaimed u hu hlt
    have hwt : w = t ∨ w.state = .claimed := by
      unfold replaceTurn at hclaimed
      split at hclaimed
      · rename_i he
        exact .inl (hok.eq_of_id ht hw he)
      · exact .inr hclaimed
    rcases hfirst with ⟨hnone, hq, hmin⟩ | ⟨hid, hc⟩
    · -- No turn is worked on, and the claimed one is the first in the queue.
      have hidle : ∀ x ∈ v.turns, x.state.active = false := by
        intro x hx
        rw [Bool.eq_false_iff]
        exact fun hxa => hok.ids x hx ((hok.active x hx hxa).trans hnone)
      rcases hwt with rfl | hwc
      · refine SessionTurnState.settled_iff.mpr ⟨hidle u hu, fun huq => ?_⟩
        exact absurd hlt (Nat.not_lt.mpr (hmin u hu huq))
      have := hidle w hw
      rw [hwc] at this
      cases this
    · rcases hwt with rfl | hwc
      · exact h.earlier w hw hc u hu hlt
      · exact h.earlier w hw hwc u hu hlt
  | bind t runId e ha htype _ ht _ hclaimed _ hturns _ =>
    exact h.bind hok ha htype.1 htype.2.1 htype.2.2 ht hclaimed hturns
  | complete t r e es ha htype ht hid hrunning hturns _ hclosed =>
    have hstarted : v'.started = v.started := by
      refine started_quiet ha fun x hx => ?_
      rcases mem_cons.mp hx with rfl | hx
      · exact (SessionEventType.quiet_ne htype).2.1
      rcases hclosed with ⟨-, -, rfl⟩ | ⟨-, -, last, hlast, rfl⟩
      · cases hx
      · cases mem_singleton.mp hx
        rw [hlast]
        decide
    have hsettled : (t.complete r).state.settled := by
      show (sessionOutcome r.state).settled
      cases r.state <;> rfl
    refine h.rewrite (hok.rewrites_replace (t.complete r) ht rfl rfl rfl ?_
      (fun _ => hsettled) ?_) hturns hstarted
    · rintro (hp | hp) <;> rw [hp] at hsettled <;> cases hsettled
    intro w hw hclaimed u hu hlt
    unfold replaceTurn at hclaimed
    split at hclaimed
    · rw [hclaimed] at hsettled
      cases hsettled
    · exact h.earlier w hw hclaimed u hu hlt
  | closing es ha htypes hopen hrun hturns _ =>
    have hstarted := started_quiet ha fun e he => (SessionEventType.quiet_ne (htypes e he)).2.1
    refine h.rewrite (h.rewrites_cancel fun t _ => ?_) hturns hstarted
    split
    · exact ⟨rfl, rfl, rfl, .inl rfl⟩
    · split <;> exact ⟨rfl, rfl, rfl, .inr rfl⟩
  | close es last ha htypes htype hopen hidle hturns _ =>
  have hstarted : v'.started = v.started := by
    refine started_quiet ha fun e he => ?_
    rcases mem_append.mp he with he | he
    · exact (SessionEventType.quiet_ne (htypes e he)).2.1
    cases mem_singleton.mp he
    rw [htype]
    decide
  refine h.rewrite (h.rewrites_cancel fun t _ => ?_) hturns hstarted
  split
  · exact ⟨rfl, rfl, rfl, .inl rfl⟩
  · exact ⟨rfl, rfl, rfl, .inr rfl⟩

/-! ## What a step leaves to a dispatcher -/

/-- Without a claim, generations and claims stay: a turn that is claimed after the step was claimed
before in the same way. -/
structure Calm (v v' : SessionView) : Prop where
  generation : v'.session.dispatchGeneration = v.session.dispatchGeneration
  claims : ∀ e ∈ v'.events, e.type = .turnClaimed → e ∈ v.events
  turns : ∀ t ∈ v.turns, t.state ≠ .queued →
    ∃ t' ∈ v'.turns, t'.id = t.id ∧ t'.state ≠ .queued ∧ (t'.state = .claimed → t' = t)

lemma claims_append (ha : Appends v v' es)
    (hes : ∀ e ∈ es, e.type ≠ .turnClaimed) :
    ∀ e ∈ v'.events, e.type = .turnClaimed → e ∈ v.events := by
  rw [ha.events]
  intro e he htype
  exact (mem_append.mp he).resolve_right fun he => hes e he htype

lemma calm_replace (hturns : v'.turns = v.turns.map (replaceTurn t'))
    (hq : t'.state ≠ .queued) (hc : t'.state ≠ .claimed) :
    ∀ u ∈ v.turns, u.state ≠ .queued →
      ∃ u' ∈ v'.turns, u'.id = u.id ∧ u'.state ≠ .queued ∧ (u'.state = .claimed → u' = u) := by
  intro u hu huq
  refine ⟨replaceTurn t' u, hturns ▸ mem_map_of_mem hu, ?_⟩
  unfold replaceTurn
  split
  · rename_i he
    exact ⟨he.symm, hq, fun h => absurd h hc⟩
  · exact ⟨rfl, huq, fun _ => rfl⟩

lemma Ok.calm (hok : v.Ok) (hstep : SessionStep k v v') (hk : k ≠ .claim) : Calm v v' := by
  cases hstep with
  | submit t e ha htype _ _ _ _ hturns hsession =>
    refine ⟨by rw [hsession], claims_append ha (by simp [htype]), fun u hu huq => ?_⟩
    exact ⟨u, hturns ▸ mem_append_left _ hu, rfl, huq, fun _ => rfl⟩
  | claim => exact absurd rfl hk
  | bind t runId e ha htype _ _ _ _ _ hturns hsession =>
    exact ⟨by rw [hsession], claims_append ha (by simp [htype.1]),
      calm_replace hturns (by simp [SessionTurn.bind]) (by simp [SessionTurn.bind])⟩
  | complete t r e es ha htype _ _ _ hturns hsession hclosed =>
    refine ⟨by rw [hsession], claims_append ha fun x hx => ?_, calm_replace hturns ?_ ?_⟩
    · rcases mem_cons.mp hx with rfl | hx
      · exact (SessionEventType.quiet_ne htype).2.2
      rcases hclosed with ⟨-, -, rfl⟩ | ⟨-, -, last, hlast, rfl⟩
      · cases hx
      · cases mem_singleton.mp hx
        rw [hlast]
        decide
    · show sessionOutcome r.state ≠ .queued
      cases r.state <;> decide
    · show sessionOutcome r.state ≠ .claimed
      cases r.state <;> decide
  | closing es ha htypes hopen hrun hturns hsession =>
    refine ⟨by rw [hsession], claims_append ha fun e he =>
      (SessionEventType.quiet_ne (htypes e he)).2.2, fun u hu huq => ?_⟩
    refine ⟨_, hturns ▸ mem_map_of_mem hu, ?_⟩
    rw [if_neg huq]
    split
    · rename_i hid
      refine ⟨rfl, huq, fun hc => ?_⟩
      -- The active turn has a run, so it is not claimed.
      rcases (hok.holds_of_active hu (by rw [show u.state = .claimed from hc]; rfl)).work with hw | hw
      · exact absurd hw.2.2 hrun
      · rw [show u.state = .claimed from hc] at hw
        cases hw.1
    · exact ⟨rfl, huq, fun _ => rfl⟩
  | close es last ha htypes htype _ _ hturns hsession =>
  refine ⟨by rw [hsession], claims_append ha fun e he => ?_, fun u hu huq => ?_⟩
  · rcases mem_append.mp he with he | he
    · exact (SessionEventType.quiet_ne (htypes e he)).2.2
    · cases mem_singleton.mp he
      rw [htype]
      decide
  · refine ⟨_, hturns ▸ mem_map_of_mem hu, ?_⟩
    split
    · exact ⟨rfl, by simp [SessionTurn.cancel], fun hc => absurd hc (by simp [SessionTurn.cancel])⟩
    · exact ⟨rfl, huq, fun _ => rfl⟩

end SessionView

/-! ## Dispatchers -/

namespace SessionDb

/-- A dispatch in progress: a turn has been claimed, and no run is bound to it yet. `since` is not
in the source; it is the number the journal had reached after the claim. -/
structure Dispatcher where
  owner : String
  token : Nat
  sessionId : String
  turnId : String
  since : Nat
  deriving DecidableEq, Repr

def Dispatcher.Superseded (d : Dispatcher) (db : SessionDb) : Prop :=
  ∃ e ∈ db.eventsOf d.sessionId, e.type = .turnClaimed ∧ e.turnId = d.turnId ∧ d.since ≤ e.sequence

instance (d : Dispatcher) (db : SessionDb) : Decidable (d.Superseded db) :=
  inferInstanceAs (Decidable (∃ e ∈ db.eventsOf d.sessionId, _))

/-- The tables, the instances that are alive and the dispatches in progress. -/
structure Dispatching where
  db : SessionDb := {}
  alive : List String := []
  dispatchers : List Dispatcher := []

/-- What can happen. Leases of sessions are acquired, expire and are taken over among the changes
of the other tables; the transactions themselves check the lease of their caller. -/
inductive DispatchLabel where
  | start (owner : String)
  | crash (owner : String)
  /-- A transaction of anyone but a dispatcher. -/
  | session (call : SessionCall)
  /-- The first transaction of `Runtime::dispatch_session`, under the token of the session's lease
  or, in single-owner mode, without one. -/
  | claim (now : Nat) (owner sessionId : String) (token : Nat) (expiry : String)
      (ids : Nat → String)
  /-- The second transaction. -/
  | bind (i : Nat) (now : Nat) (r : Run) (runEvent : Event) (ids : Nat → String)
  /-- A dispatch ends with an error before its second transaction. -/
  | abandon (i : Nat)

def nextSequence (db : SessionDb) (id : String) : Nat :=
  match db.sessions.get id with
  | some s => s.nextSequence
  | none => 0

/-- Instances dispatch the turns of sessions. In single-owner mode a process starts only when it
gets the ownership lock of the database, which its predecessor loses when it ends. -/
def dispatchMachine (codec : SessionCodec) (multi : Bool) : Machine Dispatching DispatchLabel :=
  fun st l =>
    match l with
    | .start owner =>
      if multi ∨ st.alive = [] then some { st with alive := owner :: st.alive } else none
    | .crash owner => some { st with
        alive := st.alive.filter (· ≠ owner)
        dispatchers := st.dispatchers.filter fun d => d.owner ≠ owner }
    | .session call =>
      if call.kind = .claim ∨ call.kind = .bind then none
      else (sessionMachine codec st.db call).map fun db => { st with db }
    | .claim now owner sessionId token expiry ids =>
      if owner ∈ st.alive ∧ (multi ↔ 0 < token) then
        match st.db.claimNextSessionTurn codec now sessionId owner token expiry ids with
        | .error _ => some st
        | .ok (none, db) => some { st with db }
        | .ok (some turn, db) => some { st with
            db
            dispatchers := { owner, token, sessionId, turnId := turn.id
                             since := db.nextSequence sessionId } :: st.dispatchers }
      else none
    | .bind i now r runEvent ids =>
      match st.dispatchers[i]? with
      | none => none
      | some d => some { st with
          db := st.db.settle (st.db.bindSessionTurnRun codec now d.sessionId d.turnId r runEvent
            d.owner d.token ids)
          dispatchers := st.dispatchers.eraseIdx i }
    | .abandon i => some { st with dispatchers := st.dispatchers.eraseIdx i }

variable {codec : SessionCodec} {multi : Bool} {db db' : SessionDb} {s : AgentSession}
  {t : SessionTurn} {d : Dispatcher} {k : StepKind}

/-- What a dispatcher can rely on while its turn is claimed: with a token, claims made after its own
carry larger ones; without, there are none. -/
structure Dispatcher.Stands (d : Dispatcher) (db : SessionDb) (s : AgentSession)
    (t : SessionTurn) : Prop where
  fenced : 0 < d.token → d.token ≤ t.dispatchFencingToken ∧
    (d.Superseded db → d.token < t.dispatchFencingToken)
  alone : d.token = 0 → t.dispatchOwner = d.owner ∧
    t.dispatchFencingToken = s.dispatchGeneration ∧ ¬d.Superseded db

/-- The turn of a dispatcher has left the queue. -/
structure Dispatcher.Valid (d : Dispatcher) (db : SessionDb) (s : AgentSession)
    (t : SessionTurn) : Prop where
  session : db.sessions.get d.sessionId = some s
  mem : t ∈ db.turnsOf d.sessionId
  id : t.id = d.turnId
  taken : t.state ≠ .queued
  stands : t.state = .claimed → d.Stands db s t

structure DispatchOk (multi : Bool) (st : Dispatching) : Prop where
  ok : st.db.Ok
  ordered : ∀ id s, st.db.sessions.get id = some s → (st.db.draft s).Ordered
  lone : multi = false → ∀ a ∈ st.alive, ∀ b ∈ st.alive, a = b
  alive : ∀ d ∈ st.dispatchers, d.owner ∈ st.alive
  mode : ∀ d ∈ st.dispatchers, multi ↔ 0 < d.token
  valid : ∀ d ∈ st.dispatchers, ∃ s t, d.Valid st.db s t

lemma draft_same {id : String} (h : Same db db' id) (hid : s.id = id) :
    db'.draft s = db.draft s := by
  simp only [draft, hid, h.turns, h.events]

variable {id pipelineId : String}

lemma create_cases (h : db.create id pipelineId = some db') : db.sessions.get id = none ∧
      db' = { db with sessions := db.sessions.put { id, pipelineId } } ∧
      ∀ other, other ≠ id → Same db db' other := by
  unfold SessionDb.create at h
  split at h
  · cases h
  split at h
  · cases h
  rename_i hnone
  cases h
  exact ⟨hnone, rfl, fun other hne => ⟨get_put_ne fun he => hne (Eq.symm he), rfl, rfl⟩⟩

section

variable (hok : db.Ok) (h : ∀ id s, db.sessions.get id = some s → (db.draft s).Ordered)
include hok h

lemma ordered_effect (heffect : Effect k db db') :
    ∀ id s, db'.sessions.get id = some s → (db'.draft s).Ordered := by
  intro id s hs
  have hkeep : Same db db' id → (db'.draft s).Ordered := by
    intro hsame
    rw [draft_same hsame (id_of_get hs)]
    exact h id s (hsame.session ▸ hs)
  rcases heffect with hsame | ⟨v, v', hstepped⟩
  · exact hkeep (hsame id)
  by_cases hid : id = v.session.id
  · obtain ⟨s₀, hs₀, rfl⟩ := map_eq_some_iff.mp hstepped.before
    obtain ⟨s', hs', rfl⟩ := map_eq_some_iff.mp hstepped.after
    rw [hid, hs'] at hs
    cases hs
    exact (h _ s₀ hs₀).step (hok.draft hs₀) hstepped.step
  · exact hkeep (hstepped.others id hid)

lemma ordered_create (hcreate : db.create id pipelineId = some db') :
    ∀ id s, db'.sessions.get id = some s → (db'.draft s).Ordered := by
  obtain ⟨hnone, rfl, hsame⟩ := create_cases hcreate
  intro other s hs
  by_cases hid : other = id
  · have hempty := hok other
    rw [OkAt, hid, hnone] at hempty
    have hsid : s.id = id := (id_of_get hs).trans hid
    have hview : SessionDb.draft
        { db with sessions := db.sessions.put { id, pipelineId } } s = ⟨s, [], []⟩ := by
      simp only [draft, hsid]
      exact congrArg₂ _ hempty.1 hempty.2
    rw [hview]
    refine ⟨?_, ?_, ?_, List.Pairwise.nil, ?_⟩ <;> (intros; contradiction)
  · rw [draft_same (hsame other hid) (id_of_get hs)]
    exact h other s ((hsame other hid).session ▸ hs)

end

lemma Dispatcher.Valid.same (h : d.Valid db s t) (hsame : Same db db' d.sessionId) :
    d.Valid db' s t := by
  have hsuper : d.Superseded db' ↔ d.Superseded db := by
    simp only [Dispatcher.Superseded, hsame.events]
  refine ⟨hsame.session.trans h.session, hsame.turns.symm ▸ h.mem, h.id, h.taken, fun hc => ?_⟩
  exact ⟨fun ht => ⟨((h.stands hc).fenced ht).1, fun hs =>
    ((h.stands hc).fenced ht).2 (hsuper.mp hs)⟩, fun ht => ⟨((h.stands hc).alone ht).1,
    ((h.stands hc).alone ht).2.1, fun hs => ((h.stands hc).alone ht).2.2 (hsuper.mp hs)⟩⟩

lemma Dispatcher.Valid.effect (h : d.Valid db s t) (hok : db.Ok) (heffect : Effect k db db')
    (hk : k ≠ .claim) : ∃ s' t', d.Valid db' s' t' := by
  rcases heffect with hsame | ⟨v, v', hstepped⟩
  · exact ⟨s, t, h.same (hsame _)⟩
  by_cases hid : d.sessionId = v.session.id
  · obtain ⟨s₀, hs₀, rfl⟩ := map_eq_some_iff.mp hstepped.before
    obtain ⟨s', hs', rfl⟩ := map_eq_some_iff.mp hstepped.after
    have hs : s₀ = s := Option.mem_unique hs₀ (hid ▸ h.session)
    subst hs
    have hid' : s'.id = s₀.id := id_of_get hs'
    have hid : d.sessionId = s₀.id := hid
    obtain ⟨hgeneration, hclaims, hturns⟩ := (hok.draft hs₀).calm hstepped.step hk
    obtain ⟨t', ht', htid, htaken, hsame⟩ := hturns t (show t ∈ db.turnsOf s₀.id from hid ▸ h.mem)
      h.taken
    have hsuper : d.Superseded db' → d.Superseded db := by
      rintro ⟨e, he, htype, hrest⟩
      rw [hid, ← hid'] at he
      exact ⟨e, hid ▸ hclaims e he htype, htype, hrest⟩
    refine ⟨s', t', hid ▸ hs', ?_, htid.trans h.id, htaken, fun hc => ?_⟩
    · rw [hid, ← hid']
      exact ht'
    cases hsame hc
    exact ⟨fun ht => ⟨((h.stands hc).fenced ht).1, fun hsup =>
      ((h.stands hc).fenced ht).2 (hsuper hsup)⟩, fun ht => ⟨((h.stands hc).alone ht).1,
      ((h.stands hc).alone ht).2.1.trans hgeneration.symm, fun hsup =>
      ((h.stands hc).alone ht).2.2 (hsuper hsup)⟩⟩
  · exact ⟨s, t, h.same (hstepped.others _ hid)⟩

/-! ### Claims -/

section Claims

variable {owner : String} {token : Nat} {ids : Nat → String} {x : SessionTurn}

lemma claimed_session (db : SessionDb) (s : AgentSession) (owner : String) (token : Nat)
    (ids : Nat → String) (x : SessionTurn) :
    (db.claimed s owner token ids x).sessions.get s.id = some { s with
      activeTurnId := x.id
      dispatchGeneration := s.dispatchGeneration + 1
      nextSequence := s.nextSequence + 1 } := get_put_self _ _

lemma claimed_turns (hx : x ∈ db.turnsOf s.id) :
    (db.claimed s owner token ids x).turnsOf s.id =
      (db.turnsOf s.id).map (replaceTurn (x.claim owner (claimFence s token))) := by
  have hget : db.turns.get (x.claim owner (claimFence s token)).id = some x := (mem_turnsOf.mp hx).1
  exact turnsOf_put hget rfl s.id

lemma Dispatcher.Valid.claimed (h : d.Valid db s t) (hok : db.Ok) {s' : AgentSession}
    (hs' : db.sessions.get s'.id = some s') (hopen : s'.state = .opened)
    (hfree : Free db s' owner token x) (hmode : 0 < token ↔ 0 < d.token)
    (hlone : token = 0 → owner = d.owner) :
    ∃ s'' t', d.Valid (db.claimed s' owner token ids x) s'' t' := by
  by_cases hid : d.sessionId = s'.id
  · have hs : s' = s := Option.mem_unique hs' (hid ▸ h.session)
    subst hs
    have htmem : t ∈ db.turnsOf s'.id := hid ▸ h.mem
    have hvok := hok.draft hs'
    by_cases hxt : x.id = t.id
    · have hx : t = x := hvok.eq_of_id hfree.mem htmem hxt.symm
      subst hx
      obtain ⟨-, hclaimed, -, hfence, hheld⟩ := hfree.first.resolve_left fun hq => h.taken hq.2.1
      have hstands := h.stands hclaimed
      refine ⟨_, t.claim owner (claimFence s' token),
        hid ▸ claimed_session db s' owner token ids t, ?_, h.id,
        by simp [claim], fun _ => ⟨fun ht => ?_, fun ht => ?_⟩⟩
      · rw [hid, claimed_turns hfree.mem]
        exact SessionView.mem_replace_self (v := db.draft s') htmem rfl
      · have htoken : 0 < token := hmode.mpr ht
        have hlt : d.token < token := (hstands.fenced ht).1.trans_lt (hfence htoken)
        have hnew : (t.claim owner (claimFence s' token)).dispatchFencingToken = token :=
          if_pos htoken
        rw [hnew]
        exact ⟨hlt.le, fun _ => hlt⟩
      -- Without tokens there is only one instance, which would have found its claim.
      have htoken : token = 0 := by
        omega
      obtain ⟨howner, hgeneration, -⟩ := hstands.alone ht
      exact absurd hgeneration (hheld htoken (howner.trans (hlone htoken).symm))
    refine ⟨_, t, hid ▸ claimed_session db s' owner token ids x, ?_, h.id, h.taken, fun hc => ?_⟩
    · rw [hid, claimed_turns hfree.mem]
      exact mem_map.mpr ⟨t, htmem, if_neg fun he => hxt he.symm⟩
    -- The claimed turn is the active one, and only that one can be claimed again.
    have hactive : t.id = s'.activeTurnId := hvok.active t htmem (by rw [hc]; rfl)
    rcases hfree.first with hq | hc'
    · exact absurd (hactive.trans hq.1) (hvok.ids t htmem)
    · exact absurd (hc'.1.trans hactive.symm) hxt
  · obtain ⟨v', hstepped⟩ := claimed_stepped owner ids hs' hopen hfree
    exact ⟨s, t, h.same (hstepped.others _ hid)⟩

lemma sequence_lt_next (hok : db.Ok) (hs : db.sessions.get s.id = some s) {e : SessionEvent}
    (he : e ∈ db.eventsOf s.id) : e.sequence < s.nextSequence := by
  have h := hok.draft hs
  have hle := (h.journal.bounds (show e ∈ (db.draft s).events from he)).2
  have hnext : s.nextSequence = (db.eventsOf s.id).length + 1 := h.next
  have hlength : (db.draft s).events.length = (db.eventsOf s.id).length := rfl
  omega

lemma valid_free (hok : (db.claimed s owner token ids x).Ok)
    (hfree : Free db s owner token x) :
    ∃ s' t', Dispatcher.Valid
      { owner, token, sessionId := s.id, turnId := x.id
        since := (db.claimed s owner token ids x).nextSequence s.id }
      (db.claimed s owner token ids x) s' t' := by
  have hs' := claimed_session db s owner token ids x
  refine ⟨_, x.claim owner (claimFence s token), hs', ?_, rfl, by simp [claim],
    fun _ => ?_⟩
  · rw [claimed_turns hfree.mem]
    exact SessionView.mem_replace_self (v := db.draft s) hfree.mem rfl
  have hfresh : ∀ e ∈ (db.claimed s owner token ids x).eventsOf s.id,
      e.sequence < (db.claimed s owner token ids x).nextSequence s.id := by
    intro e he
    have hlt := sequence_lt_next hok (s := { s with
      activeTurnId := x.id
      dispatchGeneration := s.dispatchGeneration + 1
      nextSequence := s.nextSequence + 1 }) hs' he
    rw [nextSequence, hs']
    exact hlt
  constructor
  · intro htoken
    refine ⟨(if_pos htoken).ge, ?_⟩
    rintro ⟨e, he, -, -, hle⟩
    exact absurd (hfresh e he) (Nat.not_lt.mpr hle)
  intro htoken
  have hfence : claimFence s token = s.dispatchGeneration + 1 := by
    have htoken : token = 0 := htoken
    simp [claimFence, htoken]
  refine ⟨rfl, hfence, ?_⟩
  rintro ⟨e, he, -, -, hle⟩
  exact absurd (hfresh e he) (Nat.not_lt.mpr hle)

lemma valid_held (hok : db.Ok) (hs : db.sessions.get s.id = some s)
    (hheld : Held db s owner token t) :
    ∃ s' t', Dispatcher.Valid
      { owner, token, sessionId := s.id, turnId := t.id, since := db.nextSequence s.id } db s' t' := by
  have hfresh : ∀ e ∈ db.eventsOf s.id, e.sequence < db.nextSequence s.id := by
    intro e he
    rw [nextSequence, hs]
    exact sequence_lt_next hok hs he
  have hmem := mem_of_active (hok.draft hs) hheld.nonempty hheld.get
  refine ⟨s, t, hs, hmem, rfl, by rw [hheld.claimed]; decide, fun _ => ⟨fun ht => ?_, fun ht => ?_⟩⟩
  · have hfence := hheld.fence
    rw [if_pos (show 0 < token from ht)] at hfence
    refine ⟨hfence.ge, ?_⟩
    rintro ⟨e, he, -, -, hle⟩
    exact absurd (hfresh e he) (Nat.not_lt.mpr hle)
  have hfence := hheld.fence
  have htoken : token = 0 := ht
  rw [if_neg (by omega)] at hfence
  refine ⟨hheld.owner, hfence, ?_⟩
  rintro ⟨e, he, -, -, hle⟩
  exact absurd (hfresh e he) (Nat.not_lt.mpr hle)

end Claims

/-! ### Runs of the machine -/

variable {st st' : Dispatching}

section

variable (h : DispatchOk multi st)
include h

lemma DispatchOk.effect (heffect : Effect k st.db db') (hk : k ≠ .claim) :
    DispatchOk multi { st with db := db' } where
  ok := h.ok.effect heffect
  ordered := ordered_effect h.ok h.ordered heffect
  lone := h.lone
  alive := h.alive
  mode := h.mode
  valid d hd := by
    obtain ⟨s, t, hv⟩ := h.valid d hd
    exact hv.effect h.ok heffect hk

lemma DispatchOk.create (hcreate : st.db.create id pipelineId = some db') :
    DispatchOk multi { st with db := db' } := by
  obtain ⟨hnone, -, hsame⟩ := create_cases hcreate
  refine ⟨(h.ok.create hcreate).1, ordered_create h.ok h.ordered hcreate, h.lone, h.alive, h.mode,
    fun d hd => ?_⟩
  obtain ⟨s, t, hv⟩ := h.valid d hd
  refine ⟨s, t, hv.same (hsame _ fun hid => ?_)⟩
  have := hv.session
  rw [hid, hnone] at this
  cases this

lemma DispatchOk.sublist {ds : List Dispatcher}
    (hds : ∀ d ∈ ds, d ∈ st.dispatchers) : DispatchOk multi { st with dispatchers := ds } :=
  ⟨h.ok, h.ordered, h.lone, fun d hd => h.alive d (hds d hd), fun d hd => h.mode d (hds d hd),
    fun d hd => h.valid d (hds d hd)⟩

lemma DispatchOk.claim {now token : Nat} {owner id expiry : String} {ids : Nat → String}
    {turn : Option SessionTurn} (halive : owner ∈ st.alive)
    (hmode : multi ↔ 0 < token)
    (hclaim : st.db.claimNextSessionTurn codec now id owner token expiry ids = .ok (turn, db')) :
    DispatchOk multi { st with db := db' } ∧ ∀ t ∈ turn, ∃ s' t', Dispatcher.Valid
      { owner, token, sessionId := id, turnId := t.id, since := db'.nextSequence id } db' s' t' := by
  obtain ⟨s, hs, hcases⟩ := claimNextSessionTurn_cases hclaim
  have hid := id_of_get hs
  subst hid
  rcases hcases with ⟨rfl, rfl⟩ | ⟨-, t, rfl, rfl, hheld⟩ | ⟨hopen, t, rfl, rfl, hfound⟩
  · exact ⟨h, nofun⟩
  · refine ⟨h, fun u hu => ?_⟩
    cases hu
    exact valid_held h.ok hs ((selectTurn_spec (h.ok.draft hs) hheld).2 _ rfl)
  have hfree := (selectTurn_spec (h.ok.draft hs) hfound).1 _ rfl
  obtain ⟨v', hstepped⟩ := claimed_stepped owner ids hs hopen hfree
  have heffect : Effect .claim st.db (st.db.claimed s owner token ids t) :=
    .inr ⟨_, v', hstepped⟩
  have hok := h.ok.effect heffect
  refine ⟨⟨hok, ordered_effect h.ok h.ordered heffect, h.lone, h.alive, h.mode, fun d hd => ?_⟩,
    fun u hu => ?_⟩
  · obtain ⟨sd, td, hv⟩ := h.valid d hd
    refine hv.claimed h.ok hs hopen hfree (hmode.symm.trans (h.mode d hd)) fun htoken => ?_
    refine h.lone ?_ owner halive d.owner (h.alive d hd)
    rw [Bool.eq_false_iff]
    exact fun hm => absurd (hmode.mp hm) (by omega)
  · cases hu
    exact valid_free hok hfree

lemma DispatchOk.step {l : DispatchLabel} (hstep : dispatchMachine codec multi st l = some st') :
    DispatchOk multi st' := by
  cases l with
  | start owner =>
    simp only [dispatchMachine] at hstep
    split at hstep
    · rename_i hstart
      cases hstep
      refine ⟨h.ok, h.ordered, fun hsingle => ?_, fun d hd => mem_cons_of_mem _ (h.alive d hd),
        h.mode, h.valid⟩
      have hempty : st.alive = [] := hstart.resolve_left (by rw [hsingle]; decide)
      simp [hempty]
    · cases hstep
  | crash owner =>
    cases hstep
    have hfewer : DispatchOk multi
        { st with dispatchers := st.dispatchers.filter fun d => d.owner ≠ owner } :=
      h.sublist fun d hd => (mem_filter.mp hd).1
    refine ⟨hfewer.ok, hfewer.ordered, fun hsingle a ha b hb => ?_, fun d hd => ?_, hfewer.mode,
      hfewer.valid⟩
    · exact h.lone hsingle a (mem_filter.mp ha).1 b (mem_filter.mp hb).1
    · obtain ⟨hmem, hne⟩ := mem_filter.mp hd
      exact mem_filter.mpr ⟨h.alive d hmem, hne⟩
  | session call =>
    simp only [dispatchMachine] at hstep
    split at hstep
    · cases hstep
    rename_i hkind
    obtain ⟨db', hdb, rfl⟩ := map_eq_some_iff.mp hstep
    rcases sessionMachine_effect h.ok hdb with heffect | ⟨id, pipelineId, hcreate⟩
    · exact h.effect heffect fun hclaim => hkind (.inl hclaim)
    · exact h.create hcreate
  | claim now owner id token expiry ids =>
    simp only [dispatchMachine] at hstep
    split at hstep
    · rename_i hguard
      split at hstep
      · cases hstep
        exact h
      · rename_i db' hclaim
        cases hstep
        exact (h.claim hguard.1 hguard.2 hclaim).1
      rename_i turn db' hclaim
      cases hstep
      obtain ⟨hok, hnew⟩ := h.claim hguard.1 hguard.2 hclaim
      refine ⟨hok.ok, hok.ordered, hok.lone, ?_, ?_, ?_⟩ <;> intro d hd <;>
        rcases mem_cons.mp hd with rfl | hd
      · exact hguard.1
      · exact hok.alive d hd
      · exact hguard.2
      · exact hok.mode d hd
      · exact hnew turn rfl
      · exact hok.valid d hd
    · cases hstep
  | bind i now r runEvent ids =>
    simp only [dispatchMachine] at hstep
    split at hstep
    · cases hstep
    rename_i d _
    cases hstep
    have hbound : sessionMachine codec st.db
        (.bind now d.sessionId d.turnId r runEvent d.owner d.token ids) = some _ := rfl
    rcases sessionMachine_effect h.ok hbound with heffect | ⟨_, _, hcreate⟩
    · exact (h.effect heffect (by simp [SessionCall.kind])).sublist
        fun d hd => mem_of_mem_eraseIdx hd
    · exact (h.create hcreate).sublist fun d hd => mem_of_mem_eraseIdx hd
  | abandon i =>
    cases hstep
    exact h.sublist fun d hd => mem_of_mem_eraseIdx hd

end

lemma dispatchOk_start : DispatchOk multi {} :=
  ⟨ok_empty, nofun, fun _ => nofun, nofun, nofun, nofun⟩

lemma dispatchOk_reach (h : Reach (dispatchMachine codec multi) always {} st) :
    DispatchOk multi st :=
  h.invariant dispatchOk_start fun _ _ _ hok _ hstep => hok.step hstep

lemma Dispatcher.Valid.not_current (h : d.Valid db s t) (hsuper : d.Superseded db)
    {s' : AgentSession} {t' : SessionTurn} (hs' : db.sessions.get d.sessionId = some s')
    (ht' : db.turns.get d.turnId = some t') : ¬Current db s' d.token t' := by
  intro hcurrent
  cases Option.mem_unique hs' h.session
  have hget : db.turns.get d.turnId = some t := h.id ▸ (mem_turnsOf.mp h.mem).1
  cases Option.mem_unique ht' hget
  have hstands := h.stands hcurrent.claimed
  have hfence := hcurrent.fence
  rcases Nat.eq_zero_or_pos d.token with hzero | hpos
  · exact (hstands.alone hzero).2.2 hsuper
  · rw [if_pos hpos] at hfence
    exact absurd ((hstands.fenced hpos).2 hsuper) (by omega)

def sampleLease (owner : String) (token : Nat) : SessionCall :=
  .other { leases := { rows := empty.put ⟨"session:s", owner, token, 10⟩ } } empty empty empty

/-- The lease expires after the claim of the first instance, and the second one takes over. -/
def takeover : List DispatchLabel :=
  [.start "a", .start "b", .session (.create "s" "p"),
    .session (.submit "s" "t" "k" .null "p" sampleIds), .session (sampleLease "a" 1),
    .claim 0 "a" "s" 1 "later" sampleIds, .session (sampleLease "b" 2),
    .claim 0 "b" "s" 2 "later" sampleIds]

end SessionDb

end Laso
