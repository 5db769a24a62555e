import Laso.Ingress.Machine

/-!
# One event for each pair

The event of a call is stored under the identifier that the call has drawn, and only by this call
(`IngressCall.Ok`); claims and named events stand for each other (`Deduplicated`). Since the identifier
of a claim determines the pair, two events of one pair are one event, of one call.
-/

namespace Laso

open List Table Option IngressPoint

/-- What a call tells its caller about an event, or is about to. -/
def IngressPoint.told : IngressPoint → Option (IngressStatus × String)
  | .duplicate id => some (.duplicate, id)
  | .release r | .done r => some (r.status, r.eventId)
  | _ => none

/-- What holds of the call with the number `i`. -/
structure IngressCall.Ok (cfg : IngressConfig) (s : IngressState) (i : Nat) (c : IngressCall) :
    Prop where
  event : ∀ e, c.event = some e → e.id = cfg.ids i ∧ c.request.pair cfg = some e.pair
  free : c.stored = false → s.events.get (cfg.ids i) = none
  kept : c.stored → ∃ e, c.event = some e ∧ s.events.get (cfg.ids i) = some e
  early : c.point = .admitting ∨ c.point = .check ∨ c.point = .store → c.stored = false
  late : c.point = .accept ∨ c.point = .publish ∨ c.published → c.stored
  accepted : ∀ id, c.point.told = some (.accepted, id) → c.stored ∧ id = cfg.ids i
  duplicate : ∀ id, c.point.told = some (.duplicate, id) →
    ∃ e e', c.event = some e ∧ s.events.get id = some e' ∧ e'.pair = e.pair

structure Deduplicated (cfg : IngressConfig) (s : IngressState) : Prop where
  calls : ∀ (i : Nat) (c : IngressCall), s.calls[i]? = some c → c.Ok cfg s i
  unused : ∀ i, s.calls.length ≤ i → s.events.get (cfg.ids i) = none
  claims : ∀ id q, s.claims.get id = some q → id = claimId q.sourceId q.externalEventId ∧
    ∃ e, s.events.get q.eventId = some e ∧ e.pair = (q.sourceId, q.externalEventId)
  named : ∀ id e, s.events.get id = some e → e.externalEventId ≠ "" →
    ∃ q, s.claims.get e.claim.id = some q ∧ q.eventId = id

lemma claimId_inj {a b a' b' : String} (h : claimId a b = claimId a' b') : a = a' ∧ b = b' := by
  refine withLength_inj (String.ext ?_)
  have hlist := congrArg String.toList h
  simp only [claimId, String.toList_append] at hlist
  exact append_cancel_left hlist

/-! ## The pair of a request -/

lemma lookup_of_textField {fields : List (String × Json)} {name default text : String}
    (h : textField fields name default = .ok text) :
    (fields.lookup name).getD (.str default) = .str text := by
  unfold textField at h
  split at h <;> cases h <;> rename_i hfield <;> rw [hfield] <;> rfl

lemma of_ite_error {ε α : Type} {b : Prop} [Decidable b] {e : ε} {x : Except ε α} {a : α}
    (h : (if b then .error e else x) = .ok a) : x = .ok a := by
  split at h
  · cases h
  · exact h

/-- **The event of a request is about its pair.** -/
lemma IngressRequest.pair_of_checked {cfg : IngressConfig} {r : IngressRequest} {now : String}
    {e : IngressEvent} (h : r.checked cfg now = .ok e) : r.pair cfg = some e.pair := by
  unfold checked at h
  simp only [bind, Except.bind, pure, Except.pure, throw, throwThe, MonadExceptOf.throw] at h
  replace h := of_ite_error (of_ite_error h)
  unfold pair
  split at h
  · rename_i fields _
    replace h := of_ite_error h
    split at h
    · replace h := of_ite_error h
      cases hexternal : textField fields "external_id" "" with
      | error _ => simp [hexternal] at h
      | ok external =>
      rw [hexternal] at h
      rw [lookup_of_textField hexternal]
      suffices hevent : e.sourceId = r.sourceId ∧ e.externalEventId = external by
        rw [IngressEvent.pair, hevent.1, hevent.2]
      dsimp only at h
      replace h := of_ite_error h
      repeat' split at h
      all_goals cases h
      all_goals exact ⟨rfl, rfl⟩
    · cases h
  · cases h
section Steps

variable {cfg : IngressConfig} {s t : IngressState} {l : IngressStep} {i : Nat} {c c' : IngressCall}
  {a : IngressAnswer} {e e' : IngressEvent} {p : IngressPoint}

namespace IngressCall.Ok

lemma mono (h : c.Ok cfg s i) (hsame : t.events.get (cfg.ids i) = s.events.get (cfg.ids i))
    (hevents : ∀ id e, s.events.get id = some e → t.events.get id = some e) : c.Ok cfg t i where
  event := h.event
  free hs := hsame.trans (h.free hs)
  kept hs := by
    rw [hsame]
    exact h.kept hs
  early := h.early
  late := h.late
  accepted := h.accepted
  duplicate id hid := by
    obtain ⟨e, e', he, he', hpair⟩ := h.duplicate id hid
    exact ⟨e, e', he, hevents id e' he', hpair⟩

lemma stored_event (h : c.Ok cfg s i) (hstored : c.stored) : ∃ e,
    s.events.get (cfg.ids i) = some e ∧ c.event = some e ∧ c.request.pair cfg = some e.pair := by
  obtain ⟨e, he, hget⟩ := h.kept hstored
  exact ⟨e, hget, he, (h.event e he).2⟩

lemma move (h : c.Ok cfg s i)
    (htold : ∀ x, p.told = some x → c.point.told = some x ∨ x.1 ≠ .accepted ∧ x.1 ≠ .duplicate)
    (hearly : p = .admitting ∨ p = .check ∨ p = .store → c.stored = false := by simp)
    (hlate : p = .accept ∨ p = .publish → c.stored := by simp) :
    IngressCall.Ok cfg s i { c with point := p } where
  event := h.event
  free := h.free
  kept := h.kept
  early := hearly
  late hp := by
    rcases hp with hp | hp | hp
    · exact hlate (.inl hp)
    · exact hlate (.inr hp)
    · exact h.late (.inr (.inr hp))
  accepted id hid := by
    rcases htold _ hid with hold | hnot
    · exact h.accepted id hold
    · exact absurd rfl hnot.1
  duplicate id hid := by
    rcases htold _ hid with hold | hnot
    · exact h.duplicate id hold
    · exact absurd rfl hnot.2

end IngressCall.Ok

namespace Deduplicated

lemma eq_of_pair (h : Deduplicated cfg s) {id id' : String} (he : s.events.get id = some e)
    (he' : s.events.get id' = some e') (hname : e.externalEventId ≠ "") (hpair : e.pair = e'.pair) :
    id = id' := by
  obtain ⟨hsource, hexternal⟩ := Prod.mk.inj hpair
  obtain ⟨q, hq, rfl⟩ := h.named id e he hname
  obtain ⟨q', hq', rfl⟩ := h.named id' e' he' (hexternal ▸ hname)
  have hclaim : e.claim.id = e'.claim.id := by
    simp only [IngressEvent.claim, hsource, hexternal]
  rw [hclaim, hq'] at hq
  rw [some.inj hq]

section

variable (h : Deduplicated cfg s) (hc : s.calls[i]? = some c)
include h hc

lemma of_go (hcalls : t.calls = s.calls.set i c') (hok : c'.Ok cfg t i)
    (hother : ∀ k, k ≠ i → t.events.get (cfg.ids k) = s.events.get (cfg.ids k))
    (hevents : ∀ id e, s.events.get id = some e → t.events.get id = some e)
    (hclaims : ∀ id q, t.claims.get id = some q → id = claimId q.sourceId q.externalEventId ∧
      ∃ e, t.events.get q.eventId = some e ∧ e.pair = (q.sourceId, q.externalEventId))
    (hnamed : ∀ id e, t.events.get id = some e → e.externalEventId ≠ "" →
      ∃ q, t.claims.get e.claim.id = some q ∧ q.eventId = id) : Deduplicated cfg t := by
  have hlt := (List.getElem?_eq_some_iff.mp hc).1
  refine ⟨fun k d hd => ?_, fun k hk => ?_, hclaims, hnamed⟩
  · by_cases hk : i = k
    · subst hk
      rw [hcalls, getElem?_set_self hlt] at hd
      exact some.inj hd ▸ hok
    · rw [hcalls, getElem?_set_ne hk] at hd
      exact (h.calls k d hd).mono (hother k (Ne.symm hk)) hevents
  · rw [hcalls, length_set] at hk
    rw [hother k (by omega)]
    exact h.unused k hk

lemma of_move
    (hcalls : t.calls = s.calls.set i c') (hstore : t.events = s.events ∧ t.claims = s.claims)
    (hok : c'.Ok cfg s i) : Deduplicated cfg t := by
  obtain ⟨hevents, hclaims⟩ := hstore
  refine h.of_go hc hcalls (hok.mono (by rw [hevents]) (by simp [hevents])) (by simp [hevents])
    (by simp [hevents]) ?_ ?_
  · rw [hclaims, hevents]
    exact h.claims
  · rw [hclaims, hevents]
    exact h.named

lemma of_insert (he : c.event = some e)
    (hstored : c.stored = false) (hp : p.told = none)
    (hpoint : p ≠ .admitting ∧ p ≠ .check ∧ p ≠ .store)
    (hfree : e.externalEventId ≠ "" → s.claims.get e.claim.id = none) :
    Deduplicated cfg ((s.insert e).go i { c with stored := true } p) := by
  have hok := h.calls i c hc
  have hid : Keyed.key e = cfg.ids i := (hok.event e he).1
  have hother : ∀ id, cfg.ids i ≠ id → (s.events.put e).get id = s.events.get id := fun id hne =>
    get_put_ne (by rwa [hid])
  have hself : (s.events.put e).get (cfg.ids i) = some e := hid ▸ get_put_self s.events e
  have hold : ∀ id e', s.events.get id = some e' → (s.events.put e).get id = some e' := by
    intro id e' he'
    rw [hother id, he']
    rintro rfl
    rw [hok.free hstored] at he'
    cases he'
  have hclaims : ∀ id q, s.claims.get id = some q → id = claimId q.sourceId q.externalEventId ∧
      ∃ e', (s.events.put e).get q.eventId = some e' ∧ e'.pair = (q.sourceId, q.externalEventId) := by
    intro id q hq
    obtain ⟨hclaim, e', he', hpair⟩ := h.claims id q hq
    exact ⟨hclaim, e', hold _ e' he', hpair⟩
  refine h.of_go hc rfl ⟨hok.event, nofun, fun _ => ⟨e, he, hself⟩, fun hp => ?_, fun _ => rfl, ?_, ?_⟩
    (fun k hk => hother _ (cfg.ids_injective.ne (Ne.symm hk))) hold (fun id q hq => ?_)
    fun id e' he' hname => ?_
  · exact absurd hp (by simpa using hpoint)
  · simp [hp]
  · simp [hp]
  · simp only [IngressState.insert, IngressState.go] at hq ⊢
    split at hq
    · exact hclaims id q hq
    rw [get_put] at hq
    split at hq
    · rename_i hclaim
      cases hq
      exact ⟨hclaim.symm, e, get_put_self s.events e, rfl⟩
    · exact hclaims id q hq
  simp only [IngressState.insert, IngressState.go] at he' ⊢
  by_cases hnew : cfg.ids i = id
  · rw [← hnew, hself] at he'
    obtain rfl := some.inj he'
    rw [if_neg hname]
    exact ⟨e.claim, get_put_self _ _, hid.trans hnew⟩
  rw [hother id hnew] at he'
  obtain ⟨q, hq, hqid⟩ := h.named id e' he' hname
  refine ⟨q, ?_, hqid⟩
  split
  · exact hq
  rename_i hname'
  rw [get_put_ne, hq]
  intro hclaim
  rw [← show e.claim.id = e'.claim.id from hclaim, hfree hname'] at hq
  cases hq

lemma of_store (hpoint : c.point = .store)
    (he : c.event = some e) : Deduplicated cfg (s.store i c a e) := by
  have hok := h.calls i c hc
  have hstored := hok.early (.inr (.inr hpoint))
  unfold IngressState.store
  split
  · exact h.of_move hc rfl ⟨rfl, rfl⟩ (hok.move (by simp [told]))
  split
  · exact h.of_move hc rfl ⟨rfl, rfl⟩ (hok.move (by simp [told]))
  rename_i hclaimed
  have hfree : e.externalEventId ≠ "" → s.claims.get e.claim.id = none := fun hname => by
    simpa [hname] using hclaimed
  split <;> exact h.of_insert hc he hstored rfl (by simp) hfree

lemma of_find (he : c.event = some e)
    {q : EventClaim} (hq : s.claims.get e.claim.id = some q) :
    Deduplicated cfg (s.go i c (.duplicate q.eventId)) := by
  have hok := h.calls i c hc
  obtain ⟨hclaim, e', he', hpair⟩ := h.claims _ q hq
  obtain ⟨hsource, hexternal⟩ := claimId_inj hclaim
  refine h.of_move hc rfl ⟨rfl, rfl⟩ ⟨hok.event, hok.free, hok.kept, by simp, fun hp => ?_,
    by simp [told], fun id hid => ?_⟩
  · exact hok.late (.inr (.inr (by simpa using hp)))
  obtain rfl : q.eventId = id := by simpa [told] using hid
  refine ⟨e, e', he, he', ?_⟩
  rw [hpair, ← hsource, ← hexternal]
  rfl

lemma of_publish (hpoint : c.point = .publish)
    (htold : ∀ x, p.told = some x → x = (.accepted, cfg.ids i))
    (hp : p ≠ .admitting ∧ p ≠ .check ∧ p ≠ .store) :
    Deduplicated cfg (s.go i { c with published := true } p) := by
  have hok := h.calls i c hc
  have hstored := hok.late (.inr (.inl hpoint))
  refine h.of_move hc rfl ⟨rfl, rfl⟩ ⟨hok.event, hok.free, hok.kept, fun hearly => ?_, fun _ => hstored,
    fun id hid => ⟨hstored, congrArg Prod.snd (htold _ hid)⟩, fun id hid => nomatch htold _ hid⟩
  exact absurd hearly (by simpa using hp)

/-- **Step lemma** for calls. -/
lemma of_call (hstep : s.step cfg i c a = some t) : Deduplicated cfg t := by
  have hok := h.calls i c hc
  -- the steps that only move the call
  have hmove : ∀ {t' : IngressState} (p : IngressPoint),
    t'.calls = s.calls.set i { c with point := p } →
      t'.events = s.events ∧ t'.claims = s.claims →
      IngressCall.Ok cfg s i { c with point := p } → Deduplicated cfg t' :=
    fun p hcalls hstore hok => h.of_move hc hcalls hstore hok
  unfold IngressState.step at hstep
  split at hstep
  case h_1 hpoint =>
    cases hstep
    unfold IngressState.admitting
    dsimp only
    split
    · exact hmove _ rfl ⟨rfl, rfl⟩ (hok.move (by simp [told]))
    split
    · exact hmove _ rfl ⟨rfl, rfl⟩ (hok.move (by simp [told]))
    · exact hmove _ rfl ⟨rfl, rfl⟩ (hok.move (by simp [told])
        fun _ => hok.early (.inl hpoint))
  case h_2 hpoint =>
    have hstored := hok.early (.inr (.inl hpoint))
    cases hstep
    split
    · rename_i hchecked
      have hpair := IngressRequest.pair_of_checked hchecked
      refine h.of_move hc rfl ⟨rfl, rfl⟩ ⟨fun e he => ?_, hok.free, by simp [hstored],
        fun _ => hstored, fun hp => ?_, by simp [told], by simp [told]⟩
      · rw [← some.inj he]
        exact ⟨rfl, hpair⟩
      · exact hok.late (.inr (.inr (by simpa using hp)))
    all_goals exact hmove _ rfl ⟨rfl, rfl⟩ (hok.move (by simp [told, IngressResult.rejected]))
  case h_3 hpoint =>
    obtain ⟨e, he, rfl⟩ := map_eq_some_iff.mp hstep
    exact h.of_store hc hpoint he
  case h_4 =>
    obtain ⟨e, he, rfl⟩ := map_eq_some_iff.mp hstep
    split
    · rename_i hq
      split
      · exact hmove _ rfl ⟨rfl, rfl⟩ (hok.move (by simp [told]))
      · exact h.of_find hc he hq
    · exact hmove _ rfl ⟨rfl, rfl⟩ (hok.move (by simp [told]))
  case h_6 hpoint =>
    cases hstep
    exact hmove _ rfl ⟨rfl, rfl⟩ (hok.move (by simp [told]) (by simp)
      fun _ => hok.late (.inl hpoint))
  case h_7 hpoint =>
    obtain ⟨e, he, rfl⟩ := map_eq_some_iff.mp hstep
    have hid := (hok.event e he).1
    exact h.of_publish hc hpoint (by simp [told, hid]) (by simp)
  case h_5 hpoint | h_8 hpoint | h_9 hpoint =>
    cases hstep
    exact hmove _ rfl ⟨rfl, rfl⟩ (hok.move (by simp [hpoint, told, IngressResult.rejected]))
  all_goals cases hstep

end

lemma of_calls {calls : List IngressCall} {processes : Nat → Ingress} (h : Deduplicated cfg s)
    (hlen : s.calls.length ≤ calls.length)
    (hok : ∀ (i : Nat) (c : IngressCall), calls[i]? = some c → c.Ok cfg s i) :
    Deduplicated cfg { s with calls, processes } where
  calls i c hc := (hok i c hc).mono rfl fun _ _ he => he
  unused i hi := h.unused i (hlen.trans hi)
  claims := h.claims
  named := h.named

lemma of_lose (h : c.Ok cfg s i) : c.lose.Ok cfg s i := by
  refine h.move ?_ ?_ ?_ <;> split <;> simp_all [told]

/-- **Step lemma.** -/
lemma step (h : Deduplicated cfg s) (hstep : ingressMachine cfg s l = some t) :
    Deduplicated cfg t := by
  cases l with
  | call i a =>
    obtain ⟨c, hc, hcall⟩ := bind_eq_some_iff.mp hstep
    exact h.of_call hc hcall
  | stop p =>
    cases hstep
    exact h.of_calls le_rfl h.calls
  | submit p r =>
    cases hstep
    refine h.of_calls (by simp) fun k d hd => ?_
    rcases Nat.lt_or_ge k s.calls.length with hk | hk
    · exact h.calls k d (by rwa [getElem?_append_left hk] at hd)
    rw [getElem?_append_right hk] at hd
    rw [mem_singleton.mp (mem_of_getElem? hd)]
    constructor <;> simp [told, h.unused k hk]
  | restart p =>
  cases hstep
  refine h.of_calls (by simp) fun k d hd => ?_
  rw [getElem?_map] at hd
  obtain ⟨b, hb, rfl⟩ := map_eq_some_iff.mp hd
  split
  · exact of_lose (h.calls k b hb)
  · exact h.calls k b hb

end Deduplicated

end Steps

/-- **External events are stored once.** In every reachable state, for each pair of a source and a name
that is not empty: there is at most one stored event; of the calls whose requests are about the pair at
most one has published its event and at most one has answered that its event is accepted. The event of
such a call is stored, with the pair of its request, and every call that has answered with a duplicate
has named the stored event with the pair of its own request. -/
theorem external_events_once {cfg : IngressConfig} {s : IngressState}
    (h : (ingressMachine cfg).Reach Machine.always {} s) :
    (∀ e ∈ s.events.rows, ∀ e' ∈ s.events.rows, e.externalEventId ≠ "" → e.pair = e'.pair → e = e') ∧
      (∀ (i k : Nat) (c d : IngressCall) (source external : String), s.calls[i]? = some c →
        s.calls[k]? = some d → external ≠ "" → c.request.pair cfg = some (source, external) →
        d.request.pair cfg = some (source, external) → (c.published = true ∧ d.published = true ∨
          ∃ r r', c.point = .done r ∧ d.point = .done r' ∧ r.status = .accepted ∧
            r'.status = .accepted) → i = k) ∧
      ∀ (i : Nat) (c : IngressCall), s.calls[i]? = some c →
        (c.published = true → ∃ e ∈ s.events.rows, c.event = some e ∧
          c.request.pair cfg = some e.pair) ∧
        ∀ r, c.point = .done r →
          (r.status = .accepted → ∃ e ∈ s.events.rows, c.event = some e ∧
            c.request.pair cfg = some e.pair ∧ r.eventId = e.id) ∧
          (r.status = .duplicate → ∃ e ∈ s.events.rows,
            c.request.pair cfg = some e.pair ∧ r.eventId = e.id) := by
  have hdedup : Deduplicated cfg s := by
    refine h.invariant ⟨fun i c hc => ?_, fun i _ => ?_, fun id q hq => ?_, fun id e he => ?_⟩
      fun _ _ _ hok _ hstep => hok.step hstep
    · simp at hc
    · exact get_empty _
    · simp at hq
    · simp at he
  refine ⟨fun e he e' he' hname hpair => ?_, ?_, fun i c hc => ⟨fun hp => ?_, fun r hr =>
    ⟨fun hs => ?_, fun hs => ?_⟩⟩⟩
  · have hget := mem_rows_iff.mp he
    have hget' := mem_rows_iff.mp he'
    rw [hdedup.eq_of_pair hget hget' hname hpair, hget'] at hget
    exact (some.inj hget).symm
  · intro i k c d source external hc hd hname hpair hpair' hboth
    have hok := hdedup.calls i c hc
    have hok' := hdedup.calls k d hd
    have hstored : c.stored ∧ d.stored := by
      rcases hboth with ⟨hp, hp'⟩ | ⟨r, r', hr, hr', hs, hs'⟩
      · exact ⟨hok.late (.inr (.inr hp)), hok'.late (.inr (.inr hp'))⟩
      · exact ⟨(hok.accepted r.eventId (by rw [hr, ← hs]; rfl)).1,
          (hok'.accepted r'.eventId (by rw [hr', ← hs']; rfl)).1⟩
    obtain ⟨e, hget, -, he⟩ := hok.stored_event hstored.1
    obtain ⟨e', hget', -, he'⟩ := hok'.stored_event hstored.2
    have heq := some.inj (he.symm.trans hpair)
    have heq' := some.inj (he'.symm.trans hpair')
    exact cfg.ids_injective
      (hdedup.eq_of_pair hget hget' ((Prod.mk.inj heq).2 ▸ hname) (heq.trans heq'.symm))
  · have hok := hdedup.calls i c hc
    obtain ⟨e, hget, he⟩ := hok.stored_event (hok.late (.inr (.inr hp)))
    exact ⟨e, mem_of_get hget, he⟩
  · have hok := hdedup.calls i c hc
    obtain ⟨hstored, hid⟩ := hok.accepted r.eventId (by rw [hr, ← hs]; rfl)
    obtain ⟨e, hget, he, hpair⟩ := hok.stored_event hstored
    exact ⟨e, mem_of_get hget, he, hpair, hid.trans (hok.event e he).1.symm⟩
  · have hok := hdedup.calls i c hc
    obtain ⟨e, e', he, hget, hpair⟩ := hok.duplicate r.eventId (by rw [hr, ← hs]; rfl)
    exact ⟨e', mem_of_get hget, hpair ▸ (hok.event e he).2, (key_of_get hget).symm⟩

def sampleIngress : IngressConfig where
  parse text := some (.obj [("type", .str "t"), ("external_id", .str text)])
  dump _ := 0
  readTimestamp _ := .ok ()
  validate _ _ _ := .ok ()
  ids := Nat.repr
  ids_injective _ _ h := repr_toList_inj (congrArg String.toList h)

/-- Two processes are given one event: the second call finds the claim of the first. The third call is
about another pair, of the same letters. -/
theorem external_events_once_twice : ∃ s, (ingressMachine sampleIngress).Reach Machine.always {} s ∧
      s.calls.map (fun c => (c.request.pair sampleIngress, c.point.told)) =
        [(some ("s:1", "x"), some (.accepted, "0")), (some ("s:1", "x"), some (.duplicate, "0")),
          (some ("s", "1:x"), some (.accepted, "2"))] ∧
      ∀ e ∈ s.events.rows, ∀ e' ∈ s.events.rows, e.externalEventId ≠ "" →
      e.pair = e'.pair → e = e' := by
  obtain ⟨s, hs, htold⟩ := Machine.exists_reach (C := Machine.always)
    (M := ingressMachine sampleIngress) (s := {})
    (f := fun s => s.calls.map fun c => (c.request.pair sampleIngress, c.point.told))
    (v := [(some ("s:1", "x"), some (.accepted, "0")), (some ("s:1", "x"), some (.duplicate, "0")),
      (some ("s", "1:x"), some (.accepted, "2"))])
    ([.submit 0 ⟨"s:1", "p", "c", "", "x"⟩, .submit 1 ⟨"s:1", "p", "c", "", "x"⟩,
        .submit 0 ⟨"s", "p", "c", "", "1:x"⟩] ++
      ([0, 1, 0, 1, 0, 0, 0, 1, 1, 1, 0, 1, 2, 2, 2, 2, 2, 2].map fun i => .call i {}))
    (by decide +kernel)
  exact ⟨s, hs, htold, (external_events_once hs).1⟩

end Laso
