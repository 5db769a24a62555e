import Mathlib.Data.List.Sort
import Laso.Coordination.Lease

/-!
# Reading the operator audit

`PostgresStorage::operator_audit_page` returns the events below a sequence number, the latest first,
and one request further than the page tells whether there are more. Each request reads a snapshot of
its own, of a table that has grown since the last. A reader who follows `next_before` gets every event
that was there at the first request once (`audit_traversal`): what is appended later never moves the
cursor, as the cursor is a sequence number and not an offset.
-/

namespace Laso

open List

structure AuditEvent where
  sequence : Nat
  eventId : String := ""
  operationId : String := ""
  actor : String := ""
  role : String := ""
  action : String := ""
  targetType : String := ""
  targetId : String := ""
  outcome : String := ""
  httpStatus : Nat := 0
  occurredAt : String := ""
  deriving DecidableEq

/-- The rows of `laso_operator_audit`. The sequence is the primary key, an identity of type
`BIGINT`. -/
structure AuditLog where
  events : List AuditEvent
  apart : (events.map AuditEvent.sequence).Nodup
  positive : ∀ e ∈ events, 0 < e.sequence
  bounded : ∀ e ∈ events, e.sequence ≤ Leases.maxToken

structure AuditPage where
  events : List AuditEvent
  nextBefore : Option Nat
  hasMore : Bool

namespace AuditLog

variable (log : AuditLog) (before : Option Nat)

/-- The rows the cursor leaves, `ORDER BY sequence DESC`. -/
def below : List AuditEvent :=
  (log.events.filter fun e => before.all (e.sequence < ·)).mergeSort
    fun a b => b.sequence ≤ a.sequence

/-- `operator_audit_page`. -/
def operatorAuditPage (limit : Nat) : Except Error AuditPage :=
  if limit = 0 ∨ limit > 100 ∨ before = some 0 ∨ before.any (Leases.maxToken < ·) then
    .error ⟨.validation, "Invalid operator audit pagination"⟩
  else
    let rows := (log.below before).take (limit + 1)
    let events := rows.take limit
    let hasMore := decide (rows.length > limit)
    .ok ⟨events, if hasMore then events.getLast?.map AuditEvent.sequence else none, hasMore⟩

end AuditLog

/-- Requests one after the other, each with the log it reads and its limit, until a page says that
there is no more: the events returned, and whether the end was reached. -/
def followAudit : Option Nat → List (AuditLog × Nat) → Except Error (List AuditEvent × Bool)
  | _, [] => .ok ([], false)
  | before, (log, limit) :: rest =>
    (log.operatorAuditPage before limit).bind fun page =>
      if page.hasMore then (followAudit page.nextBefore rest).map fun x => (page.events ++ x.1, x.2)
      else .ok (page.events, true)

/-! ## One page -/

/-- The event comes after the cursor. -/
abbrev Below (before : Option Nat) (e : AuditEvent) : Prop := ∀ b ∈ before, e.sequence < b

/-- What a page holds: it begins at the cursor, and goes down to its last event without a gap, or to
the end. -/
structure AuditPage.Of (log : AuditLog) (before : Option Nat) (p : AuditPage) : Prop where
  ordered : p.events.Pairwise fun a b => b.sequence < a.sequence
  below : ∀ e ∈ p.events, Below before e
  all : p.hasMore = false → ∀ e ∈ log.events, Below before e → e ∈ p.events
  next : p.hasMore → ∃ b, p.nextBefore = some b ∧ 0 < b ∧ b ≤ Leases.maxToken ∧
    (∀ a ∈ before, b < a) ∧ (∃ e ∈ log.events, e.sequence = b) ∧ (∀ e ∈ p.events, b ≤ e.sequence) ∧
    ∀ e ∈ log.events, Below before e → b ≤ e.sequence → e ∈ p.events

section Page

variable {log : AuditLog} {before : Option Nat} {limit : Nat} {e : AuditEvent}

lemma AuditLog.mem_below : e ∈ log.below before ↔ e ∈ log.events ∧ Below before e := by
  rw [below, mem_mergeSort, mem_filter]
  cases before <;> simp [Below]

lemma AuditLog.below_ordered (before : Option Nat) :
    (log.below before).Pairwise fun a b => b.sequence < a.sequence := by
  have hsorted : (log.below before).Pairwise fun a b => b.sequence ≤ a.sequence := by
    refine (pairwise_mergeSort ?_ ?_ _).imp of_decide_eq_true
    · intro a b c hab hbc
      exact decide_eq_true ((of_decide_eq_true hbc).trans (of_decide_eq_true hab))
    · intro a b
      simpa using Nat.le_total b.sequence a.sequence
  have hapart : (log.below before).Pairwise fun a b => a.sequence ≠ b.sequence := by
    refine pairwise_map.mp ?_
    refine ((mergeSort_perm _ _).map _).nodup_iff.mpr ?_
    exact log.apart.sublist (filter_sublist.map _)
  exact (hsorted.and hapart).imp fun h => Nat.lt_of_le_of_ne h.1 h.2.symm

/-- A request within the bounds is answered. -/
lemma AuditLog.page_of (hlimit : 0 < limit ∧ limit ≤ 100)
    (hbefore : ∀ b ∈ before, 0 < b ∧ b ≤ Leases.maxToken) :
    ∃ p, log.operatorAuditPage before limit = .ok p ∧ p.Of log before := by
  have hvalid : ¬(limit = 0 ∨ limit > 100 ∨ before = some 0 ∨ before.any (Leases.maxToken < ·)) := by
    cases before with
    | none => simp; omega
    | some b =>
      have := hbefore b rfl
      simp
      omega
  have hsplit := take_append_drop limit (log.below before)
  have hordered := log.below_ordered before
  rw [← hsplit] at hordered
  obtain ⟨htake, -, hacross⟩ := pairwise_append.mp hordered
  have hmem : ∀ e, e ∈ (log.below before).take limit → e ∈ log.events ∧ Below before e :=
    fun e he => mem_below.mp (mem_of_mem_take he)
  refine ⟨_, if_neg hvalid, ?_, ?_, ?_, ?_⟩ <;>
    simp only [take_take, Nat.min_eq_left (Nat.le_succ limit), length_take]
  · exact htake
  · exact fun e he => (hmem e he).2
  · intro hmore e he hbelow
    have hlength : (log.below before).length ≤ limit := by
      have := of_decide_eq_false hmore
      omega
    rw [take_of_length_le hlength]
    exact mem_below.mpr ⟨he, hbelow⟩
  intro hmore
  -- the last event of the page is above all that are left
  have hne : (log.below before).take limit ≠ [] := by
    have := of_decide_eq_true hmore
    rw [← length_pos_iff, length_take]
    omega
  have hlast := getLast_mem hne
  refine ⟨_, by rw [if_pos hmore, getLast?_eq_getLast_of_ne_nil hne]; rfl, ?_⟩
  have hin := (hmem _ hlast).1
  refine ⟨log.positive _ hin, log.bounded _ hin, (hmem _ hlast).2, ⟨_, hin, rfl⟩, ?_, ?_⟩
  · intro e he
    rw [← dropLast_append_getLast hne] at he htake
    rcases mem_append.mp he with he | he
    · exact ((pairwise_append.mp htake).2.2 e he _ (mem_singleton_self _)).le
    · rw [mem_singleton.mp he]
  intro e he hbelow hle
  have hall := mem_below.mpr ⟨he, hbelow⟩
  rw [← hsplit] at hall
  rcases mem_append.mp hall with h | h
  · exact h
  · exact absurd (hacross _ hlast e h) (Nat.not_lt.mpr hle)

end Page

/-! ## All pages -/

section Traversal

variable {requests : List (AuditLog × Nat)} {before : Option Nat} {old : List AuditEvent}

/-- What following the cursor gives, by induction on the requests: `old` are events that every log
has. There are at most as many pages as sequence numbers below the cursor. -/
lemma followAudit_of (hlimits : ∀ q ∈ requests, 0 < q.2 ∧ q.2 ≤ 100)
    (hold : ∀ q ∈ requests, old ⊆ q.1.events)
    (hbefore : ∀ b ∈ before, 0 < b ∧ b ≤ Leases.maxToken) :
    ∃ events ended, followAudit before requests = .ok (events, ended) ∧
      (events.Pairwise fun a b => b.sequence < a.sequence) ∧ (∀ e ∈ events, Below before e) ∧
      (ended → ∀ e ∈ old, Below before e → e ∈ events) ∧
      ∀ q ∈ requests.head?, (∀ e ∈ q.1.events, Below before e → e.sequence < requests.length) →
        ended := by
  induction requests generalizing before with
  | nil => exact ⟨[], false, rfl, .nil, by simp, by simp, by simp⟩
  | cons q rest ih =>
    obtain ⟨log, limit⟩ := q
    obtain ⟨hlimit, hlimits⟩ := forall_mem_cons.mp hlimits
    obtain ⟨hhere, hold⟩ := forall_mem_cons.mp hold
    obtain ⟨p, hpage, hp⟩ := log.page_of hlimit hbefore
    simp only [followAudit, hpage, Except.bind]
    cases hmore : p.hasMore with
    | false =>
      exact ⟨p.events, true, rfl, hp.ordered, hp.below,
        fun _ e he => hp.all hmore e (hhere he), fun _ _ _ => rfl⟩
    | true =>
    obtain ⟨b, hnext, hpos, hmax, hlt, ⟨last, hlast, rfl⟩, habove, hfull⟩ := hp.next hmore
    have hcursor : ∀ e, Below (some last.sequence) e ↔ e.sequence < last.sequence := by simp [Below]
    obtain ⟨events, ended, hrest, hordered, hbelow, hall, hended⟩ :=
      @ih (some last.sequence) hlimits hold (by simpa using ⟨hpos, hmax⟩)
    simp only [hcursor] at hbelow hall hended
    refine ⟨p.events ++ events, ended, ?_, ?_, ?_, ?_, ?_⟩
    · rw [if_pos rfl, hnext, hrest]
      rfl
    · refine pairwise_append.mpr ⟨hp.ordered, hordered, fun a ha e he => ?_⟩
      exact (hbelow e he).trans_le (habove a ha)
    · intro e he a ha
      rcases mem_append.mp he with he | he
      · exact hp.below e he a ha
      · exact (hbelow e he).trans (hlt a ha)
    · intro hend e he hbefore
      rcases Nat.lt_or_ge e.sequence last.sequence with hless | hge
      · exact mem_append_right _ (hall hend e he hless)
      · exact mem_append_left _ (hfull e (hhere he) hbefore hge)
    rintro _ ⟨⟩ hroom
    have hlength := hroom last hlast hlt
    cases rest with
    | nil => simp at hlength; omega
    | cons q rest =>
      exact hended q rfl fun e _ he => he.trans_le (Nat.le_of_lt_succ hlength)

end Traversal

/-- **Following `next_before` from the first page returns every event there was at the first request
exactly once**, no event twice, and the sequence decreases over all pages, however the log grows
between the requests and whatever their limits. Every request is answered, and no more of them are
needed than the log had sequence numbers. -/
theorem audit_traversal (log : AuditLog) (limit : Nat) (rest : List (AuditLog × Nat))
    (hgrow : ((log, limit) :: rest).IsChain fun a b => a.1.events ⊆ b.1.events)
    (hlimits : ∀ q ∈ (log, limit) :: rest, 0 < q.2 ∧ q.2 ≤ 100) :
    ∃ events ended, followAudit none ((log, limit) :: rest) = .ok (events, ended) ∧
      (events.Pairwise fun a b => b.sequence < a.sequence) ∧ events.Nodup ∧
      (ended → ∀ e ∈ log.events, events.count e = 1) ∧
      ((∀ e ∈ log.events, e.sequence ≤ rest.length) → ended) := by
  have hold : ∀ q ∈ (log, limit) :: rest, log.events ⊆ q.1.events := by
    refine forall_mem_cons.mpr ⟨Subset.refl _, ?_⟩
    exact (pairwise_cons.mp (isChain_iff_pairwise.mp hgrow)).1
  obtain ⟨events, ended, hok, hordered, -, hall, hended⟩ :=
    @followAudit_of _ none _ hlimits hold (by simp)
  have hnodup : events.Nodup := hordered.imp fun h heq => h.ne (congrArg _ heq.symm)
  refine ⟨events, ended, hok, hordered, hnodup, ?_, ?_⟩
  · exact fun hend e he => count_eq_one_of_mem hnodup (hall hend e he (by simp [Below]))
  · exact fun hroom => hended _ rfl fun e he _ => Nat.lt_succ_of_le (hroom e he)

def auditPair : AuditLog :=
  ⟨[{ sequence := 1 }, { sequence := 2 }], by decide, by decide, by decide⟩

/-- An event has been appended. -/
def auditMore : AuditLog :=
  ⟨auditPair.events ++ [{ sequence := 3 }], by decide, by decide, by decide⟩

/-- Two events, read in pages of one; a third one is appended after the first page. -/
theorem audit_traversal_pair : ∃ events,
    followAudit none [(auditPair, 1), (auditMore, 1), (auditMore, 1)] = .ok (events, true) ∧
      ∀ e ∈ auditPair.events, events.count e = 1 := by
  obtain ⟨events, ended, hok, -, -, hall, hended⟩ :=
    audit_traversal auditPair 1 [(auditMore, 1), (auditMore, 1)] (by simp [auditMore]) (by simp)
  have hend := hended (by decide)
  exact ⟨events, by rw [hok, hend], hall hend⟩

end Laso
