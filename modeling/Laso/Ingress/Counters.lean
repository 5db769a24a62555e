import Laso.Ingress.Dedup

/-!
# The counters of the ingress

`pending_` and `in_flight_` count the calls between admission and release, so their bounds hold. The
counters of results are written where a call ends, but not at every end: a check that fails returns
`Rejected` without counting (`IngressCall.miscounted`). Without these, each result is counted once.
-/

namespace Laso

open List Option IngressCall IngressPoint

/-- The call is counted in `pending_`. -/
def IngressPoint.flying : IngressPoint → Bool
  | .admitting | .done _ | .lost => false
  | _ => true

/-- The status that a call should have been counted under. -/
def IngressPoint.counted : IngressPoint → Option IngressStatus
  | .publish => some .accepted
  | .release r | .done r => some r.status
  | _ => none

def IngressPoint.answer : IngressPoint → Option IngressStatus
  | .done r => some r.status
  | _ => none

/-- The sum of the counters of some statuses. -/
def Ingress.total (q : Ingress) (w : IngressStatus → Bool) : Nat :=
  (w .accepted).toNat * q.accepted + (w .rejected).toNat * q.rejected +
    (w .duplicate).toNat * q.deduplicated + (w .backpressured).toNat * q.backpressured

/-- The step makes the call answer without counting it. -/
def IngressCall.miscounted (cfg : IngressConfig) (a : IngressAnswer) (c : IngressCall) : Bool :=
  match c.point with
  | .check => (c.request.checked cfg a.now matches .error (.rejected _))
  | _ => false

/-- The process does not end. -/
def Spares (p : Nat) (_ : IngressState) : IngressStep → Prop
  | .restart p' => p' ≠ p
  | _ => True

/-- Nor does one of its calls answer without being counted. -/
def Counting (cfg : IngressConfig) (p : Nat) (s : IngressState) (l : IngressStep) : Prop :=
  Spares p s l ∧ match l with
    | .call i a => ∀ c ∈ s.calls[i]?, c.process = p → c.miscounted cfg a = false
    | _ => True

instance {p s} : ∀ l, Decidable (Spares p s l) := by
  rintro ⟨⟩ <;> dsimp only [Spares] <;> infer_instance

instance {cfg p s} : ∀ l, Decidable (Counting cfg p s l) := by
  rintro ⟨⟩ <;> dsimp only [Counting] <;> infer_instance

/-- The number of calls of a process whose point has a property. -/
def IngressState.callsOf (s : IngressState) (p : Nat) (P : IngressPoint → Bool) : Nat :=
  s.calls.countP fun c => decide (c.process = p) && P c.point

attribute [simp] IngressPoint.flying IngressPoint.counted

/-- What a step of a call does to its process, and where the call goes. -/
inductive IngressMove (cfg : IngressConfig) (a : IngressAnswer) (c : IngressCall) (q : Ingress) :
    Ingress → IngressPoint → Prop
  | stopped {r} : c.point = .admitting → q.accepting = false → r.status = .stopped →
      IngressMove cfg a c q q (.done r)
  | full {r} : c.point = .admitting → q.accepting → r.status = .backpressured →
      IngressMove cfg a c q { q with backpressured := q.backpressured + 1 } (.done r)
  | enter : c.point = .admitting → q.accepting → q.pending < cfg.maxPending →
      q.inFlight.count c.request.sourceId < cfg.maxPerSource → IngressMove cfg a c q
        { q with pending := q.pending + 1, inFlight := c.request.sourceId :: q.inFlight } .check
  | refuse {m} : c.point = .check → c.miscounted cfg a →
      IngressMove cfg a c q q (.release (.rejected m))
  | goOn {p} : c.point.flying → c.point.counted = none → p.flying → p.counted = none →
      IngressMove cfg a c q q p
  | duplicate {id r} : c.point = .duplicate id → r.status = .duplicate →
      IngressMove cfg a c q { q with deduplicated := q.deduplicated + 1 } (.release r)
  | accept : c.point = .accept →
      IngressMove cfg a c q { q with accepted := q.accepted + 1 } .publish
  | publish {r} : c.point = .publish → r.status = .accepted → IngressMove cfg a c q q (.release r)
  | handle {m} : c.point = .handle m →
      IngressMove cfg a c q { q with rejected := q.rejected + 1 } (.release (.rejected m))
  | release {r} : c.point = .release r → IngressMove cfg a c q
      { q with pending := q.pending - 1, inFlight := q.inFlight.erase c.request.sourceId } (.done r)

section Lemmas

variable {cfg : IngressConfig} {s t : IngressState} {l : IngressStep} {i p : Nat} {c : IngressCall}
  {a : IngressAnswer}

lemma step_move (h : s.step cfg i c a = some t) : ∃ c' q, t.calls = s.calls.set i c' ∧
    t.processes = Function.update s.processes c.process q ∧ c'.process = c.process ∧
    IngressMove cfg a c (s.processes c.process) q c'.point := by
  have hsame := (Function.update_eq_self c.process s.processes).symm
  unfold IngressState.step at h
  split at h
  case h_1 hpoint =>
    cases h
    simp only [IngressState.admitting]
    split
    · rename_i hstopped
      exact ⟨_, _, rfl, hsame, rfl, .stopped hpoint hstopped rfl⟩
    rename_i hopen
    have hopen := Bool.not_eq_false _ ▸ hopen
    split
    · exact ⟨_, _, rfl, rfl, rfl, .full hpoint hopen rfl⟩
    rename_i hroom
    obtain ⟨hpending, hsource⟩ := not_or.mp hroom
    exact ⟨_, _, rfl, rfl, rfl,
      .enter hpoint hopen (Nat.lt_of_not_le hpending) (Nat.lt_of_not_le hsource)⟩
  case h_2 hpoint =>
    cases h
    split
    case h_2 hrejected =>
      exact ⟨_, _, rfl, hsame, rfl, .refuse hpoint (by simp [miscounted, hpoint, hrejected])⟩
    all_goals exact ⟨_, _, rfl, hsame, rfl, .goOn (by simp [hpoint]) (by simp [hpoint]) rfl rfl⟩
  case h_3 hpoint =>
    obtain ⟨e, -, rfl⟩ := map_eq_some_iff.mp h
    unfold IngressState.store
    split_ifs <;>
      exact ⟨_, _, rfl, hsame, rfl, .goOn (by simp [hpoint]) (by simp [hpoint]) rfl rfl⟩
  case h_4 hpoint =>
    obtain ⟨e, -, rfl⟩ := map_eq_some_iff.mp h
    repeat' split
    all_goals exact ⟨_, _, rfl, hsame, rfl, .goOn (by simp [hpoint]) (by simp [hpoint]) rfl rfl⟩
  case h_5 hpoint =>
    cases h
    exact ⟨_, _, rfl, rfl, rfl, .duplicate hpoint rfl⟩
  case h_6 hpoint =>
    cases h
    exact ⟨_, _, rfl, rfl, rfl, .accept hpoint⟩
  case h_7 hpoint =>
    obtain ⟨e, -, rfl⟩ := map_eq_some_iff.mp h
    exact ⟨_, _, rfl, hsame, rfl, .publish hpoint rfl⟩
  case h_8 hpoint =>
    cases h
    exact ⟨_, _, rfl, rfl, rfl, .handle hpoint⟩
  case h_9 hpoint =>
    cases h
    exact ⟨_, _, rfl, rfl, rfl, .release hpoint⟩
  all_goals cases h

lemma countP_set_add {α : Type} {l : List α} {x : α} (y : α) (Q : α → Bool) (h : l[i]? = some x) :
    (l.set i y).countP Q + (Q x).toNat = l.countP Q + (Q y).toNat := by
  induction l generalizing i with
  | nil => simp at h
  | cons z l ih =>
  cases i with
  | zero =>
    cases h
    cases hx : Q x <;> cases hy : Q y <;> simp [hx, hy]
  | succ i =>
    have hrest := ih h
    simp only [set_cons_succ, countP_cons]
    omega

/-- What a step does to one process and to the number of its calls. -/
inductive IngressChange (cfg : IngressConfig) (p : Nat) (s : IngressState) (l : IngressStep)
    (t : IngressState) : Prop
  | rest (calls : ∀ P, P .admitting = false → t.callsOf p P = s.callsOf p P)
      (process : t.processes p = s.processes p ∨
        t.processes p = { s.processes p with accepting := false })
  | move {i a c p'} (label : l = .call i a) (call : s.calls[i]? = some c) (process : c.process = p)
      (move : IngressMove cfg a c (s.processes p) (t.processes p) p')
      (calls : ∀ P, t.callsOf p P + (P c.point).toNat = s.callsOf p P + (P p').toNat)

lemma step_change (hl : Spares p s l) (hstep : ingressMachine cfg s l = some t) :
    IngressChange cfg p s l t := by
  cases l with
  | submit p' r =>
    cases hstep
    exact .rest (fun P hP => by simp [IngressState.callsOf, hP]) (.inl rfl)
  | stop p' =>
    cases hstep
    refine .rest (fun _ _ => rfl) ?_
    by_cases hp : p = p' <;> simp [hp]
  | restart p' =>
    cases hstep
    have hp : p' ≠ p := hl
    refine .rest (fun P _ => ?_) (.inl (Function.update_of_ne hp.symm _ _))
    simp only [IngressState.callsOf, countP_map]
    refine countP_congr fun c _ => ?_
    by_cases hc : c.process = p' <;> simp [hc, hp, lose]
  | call i a =>
    obtain ⟨c, hc, hcall⟩ := bind_eq_some_iff.mp hstep
    obtain ⟨c', q, hcalls, hprocs, hprocess, hmove⟩ := step_move hcall
    have hset := fun P : IngressPoint → Bool =>
      countP_set_add c' (fun c => decide (c.process = p) && P c.point) hc
    by_cases hp : c.process = p
    · subst hp
      refine .move rfl hc rfl (by simpa [hprocs] using hmove) fun P => ?_
      simpa [IngressState.callsOf, hcalls, hprocess] using hset P
    · refine .rest (fun P _ => ?_) (.inl ?_)
      · simpa [IngressState.callsOf, hcalls, hprocess, hp] using hset P
      · rw [hprocs, Function.update_of_ne (Ne.symm hp)]

end Lemmas

section Runs

variable {cfg : IngressConfig} {s t : IngressState} {p : Nat}

/-- A call enters only where there is room. -/
lemma bounded_of_reach (h : (ingressMachine cfg).Reach (Spares p) {} s) :
    (s.processes p).pending ≤ cfg.maxPending ∧
      ∀ x, (s.processes p).inFlight.count x ≤ cfg.maxPerSource := by
  refine Machine.Reach.invariant (I := fun s => (s.processes p).pending ≤ cfg.maxPending ∧
      ∀ x, (s.processes p).inFlight.count x ≤ cfg.maxPerSource) h (by simp) ?_
  intro s l t hs hl hstep
  cases step_change hl hstep with
  | rest _ hprocess => rcases hprocess with hprocess | hprocess <;> rwa [hprocess]
  | @move i a c _ _ _ _ hmove _ =>
  generalize t.processes p = q at hmove ⊢
  cases hmove with
  | enter _ _ hpending hsource =>
    refine ⟨hpending, fun x => ?_⟩
    rw [count_cons]
    split
    · rename_i hx
      exact beq_iff_eq.mp hx ▸ hsource
    · exact hs.2 x
  | release => exact ⟨(Nat.sub_le ..).trans hs.1, fun x => (erase_sublist.count_le x).trans (hs.2 x)⟩
  | _ => exact hs

lemma pending_of_reach (h : (ingressMachine cfg).Reach (Spares p) {} s) :
    (s.processes p).pending = s.callsOf p flying := by
  refine Machine.Reach.invariant (I := fun s => (s.processes p).pending = s.callsOf p flying) h rfl ?_
  intro s l t hs hl hstep
  cases step_change hl hstep with
  | rest hcalls hprocess =>
    rw [hcalls _ rfl, ← hs]
    rcases hprocess with hprocess | hprocess <;> rw [hprocess]
  | @move i a c _ _ hc hp hmove hcalls =>
    have hset := hcalls flying
    have hpos : c.point.flying → 0 < s.callsOf p flying := fun hP =>
      countP_pos_iff.mpr ⟨c, mem_of_getElem? hc, by rw [hP, decide_eq_true hp]; rfl⟩
    rw [← hs] at hset hpos
    generalize t.processes p = q, t.callsOf p flying = n at hmove hset ⊢
    cases hmove <;> simp_all
    omega

/-- Each counter counts the calls that should have been counted under its status. -/
lemma total_of_reach (h : (ingressMachine cfg).Reach (Counting cfg p) {} s) {w : IngressStatus → Bool}
    (hw : w .stopped = false) : (s.processes p).total w = s.callsOf p (·.counted.any w) := by
  refine Machine.Reach.invariant
    (I := fun s => (s.processes p).total w = s.callsOf p (·.counted.any w)) h rfl ?_
  intro s l t hs hl hstep
  cases step_change hl.1 hstep with
  | rest hcalls hprocess =>
    rw [hcalls _ rfl, ← hs]
    rcases hprocess with hprocess | hprocess
    · rw [hprocess]
    · rw [hprocess]
      rfl
  | @move i a c _ hcall hc hp hmove hcalls =>
    subst hcall
    have hset := hcalls (·.counted.any w)
    have hsafe := hl.2 c hc hp
    rw [← hs] at hset
    generalize t.processes p = q, t.callsOf p (·.counted.any w) = n at hmove hset ⊢
    cases hmove <;> simp_all [Ingress.total, IngressResult.rejected, Nat.mul_add] <;> omega

lemma flying_of_pending (h : (s.processes p).pending = s.callsOf p flying)
    (hzero : (s.processes p).pending = 0) {c : IngressCall} (hc : c ∈ s.calls) (hp : c.process = p) :
    c.point.flying = false := by
  have hnone := countP_eq_zero.mp (h.symm.trans hzero) c hc
  simpa [hp] using hnone

/-- Once `stop` has returned, nothing is accepted. -/
lemma accepted_of_stopped (hs : (ingressMachine cfg).Reach (Spares p) {} s)
    (hstop : (s.processes p).accepting = false) (hzero : (s.processes p).pending = 0)
    (h : (ingressMachine cfg).Reach (Spares p) s t) :
    t.callsOf p (·.answer == some .accepted) =
      s.callsOf p (·.answer == some .accepted) := by
  suffices hall : (t.processes p).accepting = false ∧ (t.processes p).pending = 0 ∧
      t.callsOf p (·.answer == some .accepted) =
        s.callsOf p (·.answer == some .accepted) from hall.2.2
  induction h with
  | refl => exact ⟨hstop, hzero, rfl⟩
  | @step t u l ht hl hstep ih =>
  obtain ⟨hclosed, hnone, hsame⟩ := ih
  cases step_change hl hstep with
  | rest hcalls hprocess =>
    rw [hcalls _ rfl]
    rcases hprocess with hprocess | hprocess <;> rw [hprocess]
    · exact ⟨hclosed, hnone, hsame⟩
    · exact ⟨rfl, hnone, hsame⟩
  | @move i a c p' _ hc hp hmove hcalls =>
    have hpoint := flying_of_pending (pending_of_reach (hs.trans ht)) hnone (mem_of_getElem? hc) hp
    have hset := hcalls (·.answer == some .accepted)
    generalize u.processes p = q at hmove ⊢
    cases hmove <;> simp_all [answer]

end Runs

/-- **The counters of the ingress.** -/
theorem ingress_counters {cfg : IngressConfig} {s : IngressState} {p : Nat}
    (h : (ingressMachine cfg).Reach (Spares p) {} s) :
    (s.processes p).pending ≤ cfg.maxPending ∧
      (∀ x, (s.processes p).inFlight.count x ≤ cfg.maxPerSource) ∧
      ((s.processes p).accepting = false → (s.processes p).pending = 0 →
        ∀ t, (ingressMachine cfg).Reach (Spares p) s t →
          t.callsOf p (·.answer == some .accepted) =
            s.callsOf p (·.answer == some .accepted)) ∧
      ((ingressMachine cfg).Reach (Counting cfg p) {} s →
        (s.processes p).pending = 0 → ∀ w : IngressStatus → Bool, w .stopped = false →
          (s.processes p).total w = s.callsOf p (·.answer.any w)) := by
  obtain ⟨hpending, hsource⟩ := bounded_of_reach h
  refine ⟨hpending, hsource, fun hstop hzero t ht => accepted_of_stopped h hstop hzero ht, ?_⟩
  intro hcounts hzero w hw
  rw [total_of_reach hcounts hw]
  refine countP_congr fun c hc => ?_
  by_cases hp : c.process = p
  · have hpoint := flying_of_pending (pending_of_reach h) hzero hc hp
    cases hc : c.point <;> simp_all [answer]
  · simp [hp]

theorem ingress_counters_stopped : ∃ s, (ingressMachine sampleIngress).Reach (Spares 0) {} s ∧
    (ingressMachine sampleIngress).Reach (Counting sampleIngress 0) {} s ∧
    ((s.processes 0).accepting, (s.processes 0).pending) = (false, 0) ∧
    (s.processes 0).total (· != .stopped) = s.callsOf 0 (·.answer.any (· != .stopped)) := by
  obtain ⟨s, hs, hidle⟩ := Machine.exists_reach (C := Counting sampleIngress 0)
    (M := ingressMachine sampleIngress) (s := {})
    (f := fun s => ((s.processes 0).accepting, (s.processes 0).pending)) (v := (false, 0))
    (.submit 0 ⟨"s", "p", "c", "", ""⟩ :: replicate 6 (.call 0 {}) ++ [.stop 0]) (by decide +kernel)
  have h := hs.mono fun _ _ hl => hl.1
  exact ⟨s, h, hs, hidle, (ingress_counters h).2.2.2 hs (congrArg Prod.snd hidle) _ rfl⟩

/-- The source has no name: the call answers `Rejected`, and no counter has changed. -/
theorem rejection_uncounted : ∃ s, (ingressMachine sampleIngress).Reach (Spares 0) {} s ∧
    ((s.processes 0).pending, (s.processes 0).total (· != .stopped),
      s.callsOf 0 (·.answer == some .rejected)) = (0, 0, 1) :=
  Machine.exists_reach (.submit 0 ⟨"", "p", "c", "", ""⟩ :: replicate 3 (.call 0 {}))
    (by decide +kernel)

end Laso
