import Laso.Scheduler.Moves
import Laso.Scheduler.Sides

/-!
# The code makes no other moves

`schedWatch` observes the calls of a section of the scheduler. Before each call the rest of the
system may have done something (`R`), and the call with its oracle meets a condition (`cond`).

* `Abides`: a property of the phase and the world that all moves with one occurrence keep. The code
  for one schedule keeps every such property (`Abides.occurrence`), and so does the loop over the
  schedules (`Abides.processSchedules`).
* `Discipline`: an invariant of the whole scheduler, with what is needed of it in each phase and for
  each edit. All code keeps it (`Discipline.processDue`, `Discipline.handleEvent` and so on).
-/

namespace Laso

open List Watch SchedWorld SchedDb

variable {σ α : Type}

def schedWatch (cfg : SchedConfig) (cond : SchedWorld → SchedReq → SchedOracle → Prop)
    (R : SchedWorld → SchedWorld → Prop) (safe : SchedWorld → Prop) : Watch schedSig SchedWorld where
  Step w q a w' := ∃ w₁ o, R w w₁ ∧ cond w₁ q o ∧ SchedWorld.perform cfg o w₁ q = (a, w')
  Allow w _ := safe w

section Rely

variable {cfg : SchedConfig} {cond : SchedCond}
  {R : SchedWorld → SchedWorld → Prop} {safe : SchedWorld → Prop} {w w' : SchedWorld}

lemma sat_rely (htrans : ∀ w w₁ w₂, R w w₁ → R w₁ w₂ → R w w₂)
    (hsafe : ∀ w w', safe w → R w w' → safe w') {p : Prog schedSig α} {Q : α → SchedWorld → Prop}
    (hQ : ∀ a w w', Q a w → R w w' → Q a w') (h : (schedWatch cfg cond R safe).Sat p Q w)
    (hR : R w w') : (schedWatch cfg cond R safe).Sat p Q w' := by
  cases p with
  | ret a => exact hQ a w w' h hR
  | call q k =>
    refine ⟨hsafe w w' h.1 hR, fun r g ⟨w₁, o, hR', hc, hp⟩ => ?_⟩
    exact h.2 r g ⟨w₁, o, htrans w w' w₁ hR hR', hc, hp⟩

variable {E : Error → SchedWorld → σ → Prop}

lemma wp_query {q : SchedReq} {Q : q.Resp → SchedWorld → σ → Prop} {v : σ} (hw : safe w)
    (h : ∀ w₁ o, R w w₁ → cond w₁ q o →
      Q (SchedWorld.perform cfg o w₁ q).1 (SchedWorld.perform cfg o w₁ q).2 v) :
    (schedWatch cfg cond R safe).wp (query q) Q E w v := by
  refine of_call ⟨hw, fun a w' ⟨w₁, o, hR, hc, hp⟩ => ?_⟩
  have := h w₁ o hR hc
  rw [hp] at this
  exact this

lemma wp_attempt {x : Except Error α} {v : σ}
    {Q : α → SchedWorld → σ → Prop} (hok : ∀ a, x = .ok a → Q a w v)
    (herror : ∀ e, x = .error e → E e w v) :
    (schedWatch cfg cond R safe).wp (Code.ofExcept x) Q E w v := by
  cases x with
  | ok a => exact hok a rfl
  | error e => exact herror e rfl

end Rely

namespace SchedWorld

variable {w : SchedWorld} {o : SchedOracle}

lemma read_eq_ok {β : Type} {x : Except Error β} {b : β} (h : (w.read o x).1 = .ok b) : x = .ok b := by
  unfold read at h
  split at h
  · cases h
  · exact h

lemma transact_error {β : Type} {x : Except Error β × SchedDb} {e : Error} (h : o.fault = some e) :
    w.transact o x = (.error e, w) := by
  simp [transact, h]

lemma transact_ok {β : Type} {x : Except Error β × SchedDb} (h : o.fault = none) :
    w.transact o x = (x.1, { w with db := x.2 }) := by
  simp [transact, h]

variable {cfg : SchedConfig} {q : LaunchRequest}

lemma dispatch_refused {e : Error} (h : o.refusal = some e) :
    w.dispatch cfg o q = (.error e, w) := by
  simp [dispatch, h]

lemma dispatch_ok (h : o.refusal = none) : w.dispatch cfg o q =
      (.ok (cfg.uuids.draw w.issued), w.launched (cfg.uuids.draw w.issued) q) := by
  simp [dispatch, launched, h]

end SchedWorld

variable {β : Type}

lemma SchedDb.find_eq_ok {x : Option β} {b : β} (h : find x = .ok b) : x = some b := by
  cases x with
  | none => cases h
  | some a =>
    cases h
    rfl

lemma SchedDb.list_eq_ok {rows page : List β} {limit : Nat}
    (h : list rows limit = .ok page) : page = rows.take limit := by
  unfold list at h
  split at h
  · cases h
  · cases h
    rfl

lemma SchedDb.claim_taken [Keyed β] {t : Table β} {a b : β} (hid : Keyed.key a ≠ "")
    (h : t.get (Keyed.key a) = some b) : claim t a = (.ok false, t) := by
  simp [claim, hid, h]

lemma SchedDb.claim_free [Keyed β] {t : Table β} {a : β} (hid : Keyed.key a ≠ "")
    (h : t.get (Keyed.key a) = none) : claim t a = (.ok true, t.put a) := by
  simp [claim, hid, h]

/-! ## Calls that leave the schedules alone -/

namespace SchedWorld

lemma runsGrow_append {rows : List RunRow} {r : RunRow}
    (h : r.scheduleId = "" ∧ r.scheduleOccurrenceId = "") : RunsGrow rows (rows ++ [r]) where
  kept i r' hr' := by
    have hi : i < rows.length := (List.getElem?_eq_some_iff.mp hr').1
    exact ⟨r', by rw [getElem?_append_left hi, hr'], .refl r'⟩
  added i r' hr' hnone := by
    rw [getElem?_append_right (List.getElem?_eq_none_iff.mp hnone)] at hr'
    have hmem := mem_of_getElem? hr'
    rw [mem_singleton] at hmem
    rw [hmem]
    exact h

lemma foldl_write_aside {records : List SchedRecord} (h : ∀ record ∈ records, record.Aside)
    (db : SchedDb) :
    (records.foldl SchedDb.write db).schedules = db.schedules ∧
      (records.foldl SchedDb.write db).occurrences = db.occurrences ∧
      (records.foldl SchedDb.write db).runs = db.runs := by
  induction records generalizing db with
  | nil => exact ⟨rfl, rfl, rfl⟩
  | cons record rest ih =>
    obtain ⟨hs, ho, hr⟩ := ih (fun x hx => h x (mem_cons_of_mem _ hx)) (db.write record)
    have hrecord := h record mem_cons_self
    rw [foldl_cons, hs, ho, hr]
    cases record with
    | schedule | occurrence => exact hrecord.elim
    | trigger | delivery | event => exact ⟨rfl, rfl, rfl⟩

variable {w : SchedWorld} {o : SchedOracle}

lemma apart_of_db {db : SchedDb} (hs : db.schedules = w.db.schedules)
    (ho : db.occurrences = w.db.occurrences) (hr : db.runs = w.db.runs) :
    w.Apart { w with db } where
  schedules := hs
  occurrences := ho
  clock := rfl
  runs := by
    rw [hr]
    exact .refl _
  launches := ⟨[], rfl, by simp⟩

lemma apart_transact {β : Type} {x : Except Error β × SchedDb}
    (hs : x.2.schedules = w.db.schedules) (ho : x.2.occurrences = w.db.occurrences)
    (hr : x.2.runs = w.db.runs) : w.Apart (w.transact o x).2 := by
  unfold transact
  split
  · exact .refl w
  · exact apart_of_db hs ho hr

lemma apart_receive (cfg : SchedConfig) (e : SourceEvent) : w.Apart (w.receive cfg e) := by
  unfold receive
  split
  · exact .refl w
  · exact ⟨rfl, rfl, rfl, .refl _, [], rfl, by simp⟩

/-- **The effect of such calls.** -/
lemma perform_aside {cfg : SchedConfig} {q : SchedReq} (h : q.Aside) :
    w.Apart (w.perform cfg o q).2 := by
  cases q with
  | now => exact h.elim
  | claimOccurrence x => exact h.elim
  | event => exact ⟨rfl, rfl, rfl, .refl _, [], rfl, by simp⟩
  | claimDelivery d => exact apart_transact rfl rfl rfl
  | commit records =>
    have hdb : ∀ records : List SchedRecord, (∀ record ∈ records, record.Aside) →
        (w.db.commit records).2.schedules = w.db.schedules ∧
        (w.db.commit records).2.occurrences = w.db.occurrences ∧
        (w.db.commit records).2.runs = w.db.runs := fun records h => by
      unfold commit
      split
      · exact ⟨rfl, rfl, rfl⟩
      · exact foldl_write_aside h w.db
    obtain ⟨hs, ho, hr⟩ := hdb records h
    exact apart_transact hs ho hr
  | dispatch q =>
    show w.Apart (w.dispatch cfg o q).2
    unfold dispatch
    split
    · exact .refl w
    refine ⟨rfl, rfl, rfl, runsGrow_append h.1, [q], rfl, fun q' hq' => ?_⟩
    rw [mem_singleton.mp hq']
    exact ⟨h.1.2, h.2⟩
  | receive e => exact apart_receive cfg e
  | listSchedules | getSchedule | getOccurrence | listRuns | getRun | listTriggers | getTrigger
  | listDeliveries | getDelivery | listEvents | getEvent => exact .refl w

end SchedWorld

/-! ## One occurrence -/

/-- A property of the phase and the world that the moves with one occurrence keep. -/
structure Abides (cfg : SchedConfig) (cond : SchedWorld → SchedReq → SchedOracle → Prop)
    (safe : SchedWorld → Prop) (now : WallTime) (s : ScheduleDefinition) (due : Stamp)
    (J : Option Phase → SchedWorld → Prop) : Prop where
  safe : ∀ ph w, J ph w → safe w
  apart : ∀ ph w w', J ph w → w.Apart w' → J ph w'
  move : ∀ ph w ph' w', J ph w → Move cfg cond now s due ph w ph' w' → J ph' w'

lemma SchedDb.commit_of_named {db : SchedDb} {records : List SchedRecord}
    (h : ∀ record ∈ records, recordId record ≠ "") :
    db.commit records = (.ok (), records.foldl SchedDb.write db) := by
  refine if_neg fun hany => ?_
  obtain ⟨record, hmem, hid⟩ := List.any_eq_true.mp hany
  exact h record hmem (of_decide_eq_true hid)

lemma occurrenceId_ne_empty (id : String) (due : Stamp) : occurrenceId id due ≠ "" := by
  intro h
  have := congrArg String.length h
  simp [occurrenceId, String.length_append] at this

namespace Abides

variable {cfg : SchedConfig} {cond : SchedCond}
  {safe : SchedWorld → Prop} {now : WallTime} {s : ScheduleDefinition} {due : Stamp}
  {J : Option Phase → SchedWorld → Prop} {w : SchedWorld} {v : σ}

variable {E : Error → SchedWorld → σ → Prop} {extra : List (String × Json)} {ph : Option Phase}
  {s' : ScheduleDefinition} {type : String}

section

variable (hJ : Abides cfg cond safe now s due J)
include hJ

lemma aside (h : J ph w) {q : SchedReq} (hq : q.Aside) :
    (schedWatch cfg cond Apart safe).wp (query q) (fun _ w' _ => J ph w') E w v :=
  wp_query (hJ.safe ph w h) fun w₁ _ hR _ =>
    hJ.apart ph w₁ _ (hJ.apart ph w w₁ h hR) (perform_aside hq)

lemma commit (h : J ph w)
    {records : List SchedRecord} (hid : ∀ record ∈ records, recordId record ≠ "")
    {Q : Unit → SchedWorld → σ → Prop}
    (hok : ∀ w₁, w.Apart w₁ → J ph w₁ → Q () (w₁.write records) v)
    (hfault : ∀ w₁ o e, J ph w₁ → cond w₁ (.commit records) o → o.fault = some e → E e w₁ v) :
    (schedWatch cfg cond Apart safe).wp (commitRecords records) Q E w v := by
  refine of_bind (wp_query (hJ.safe ph w h) fun w₁ o hR hc => ?_)
  have h₁ := hJ.apart ph w w₁ h hR
  show (schedWatch cfg cond Apart safe).wp
    (Code.ofExcept (w₁.transact o (w₁.db.commit records)).1) Q E
    (w₁.transact o (w₁.db.commit records)).2 v
  cases hf : o.fault with
  | some e =>
    rw [transact_error hf]
    exact hfault w₁ o e h₁ hc hf
  | none =>
    rw [transact_ok hf, commit_of_named hid]
    exact hok w₁ hR h₁

lemma event (h : J ph w) {at_ : Option Stamp} :
    (schedWatch cfg cond Apart safe).wp (schedulerEvent type s' at_ extra)
      (fun e w' _ => J ph w' ∧ e.id ≠ "") E w v := by
  refine of_bind (wp_query (hJ.safe ph w h) fun w₁ o hR _ => ⟨?_, ?_⟩)
  · exact hJ.apart ph w₁ _ (hJ.apart ph w w₁ h hR) (perform_aside trivial)
  · exact cfg.uuids.draw_ne_empty w₁.issued

/-- The rule of `recordOccurrence`. -/
lemma recordOccurrence {ph : Phase} (h : J (some ph) w) (hs : s'.id ≠ "") {status : LaunchStatus}
    {runId : String}
    (hok : ∀ w₁ e, J (some ph) w₁ → J none (w₁.write
      [.schedule s', .occurrence (recordValue status s' due runId), .event e]))
    (hfault : ∀ w₁ o ev e v', J (some ph) w₁ → cond w₁ (.commit
      [.schedule s', .occurrence (recordValue status s' due runId), .event ev]) o →
        o.fault = some e → E e w₁ v') :
    (schedWatch cfg cond Apart safe).wp
      (Laso.recordOccurrence type s' due status runId extra) (fun _ w' _ => J none w') E w v := by
  refine of_bind (wp_mono (hJ.event h (E := fun _ _ _ => False)) ?_ nofun)
  rintro e w₁ v₁ ⟨h₁, he⟩
  have hid : ∀ record ∈ [SchedRecord.schedule s', .occurrence (recordValue status s' due runId),
      .event e], recordId record ≠ "" := by
    simp only [forall_mem_cons]
    exact ⟨hs, occurrenceId_ne_empty _ _, he, by simp⟩
  refine of_bind (hJ.commit h₁ hid (fun w₂ _ h₂ => ?_) fun w₂ o e' h₂ hc hf => ?_)
  · exact hJ.aside (hok w₂ e h₂) trivial
  · exact hfault w₂ o e e' v₁ h₂ hc hf

end

variable {dump : Json → Nat}

lemma id_of_advance {s s' : ScheduleDefinition}
    (h : s.advance dump due = .ok s') : s'.id = s.id := by
  unfold ScheduleDefinition.advance at h
  split at h
  · cases h
    rfl
  obtain ⟨next, -, h⟩ := bind_eq_ok.mp h
  cases h
  rfl

/-- The rule of `launch`: a failure is written down. -/
lemma launchOccurrence (hJ : Abides cfg cond safe now s due J) (hs : s.id ≠ "")
    (h : J (some .clear) w) {v : Nat} :
    (schedWatch cfg cond Apart safe).wp (Laso.launchOccurrence cfg now s due)
      (fun _ w' _ => J none w') (fun _ w' _ => J none w') w v := by
  refine (wp_tryCatch _ _).mpr (wp_mono
    (E := fun e w' _ => J (some (.closing e)) w') ?_
    (fun _ _ _ h' => h') fun e w₁ v₁ h₁ => ?_)
  · refine of_bind (wp_query (hJ.safe _ w h) fun w₁ o hR hc => ?_)
    have h₁ := hJ.apart _ w w₁ h hR
    show (schedWatch cfg cond Apart safe).wp
      (Code.ofExcept (w₁.dispatch cfg o (s.request due)).1 >>= _) _ _
      (w₁.dispatch cfg o (s.request due)).2 v
    refine of_bind ?_
    cases hrefusal : o.refusal with
    | some e =>
      rw [dispatch_refused hrefusal]
      exact hJ.move _ w₁ _ _ h₁ (.refuse hc hrefusal)
    | none =>
    have h₂ := hJ.move _ w₁ _ _ h₁ (.launch hc hrefusal)
    rw [dispatch_ok hrefusal]
    refine of_bind (wp_attempt (fun s' hs' => ?_) fun e he => ?_)
    · refine of_bind (hJ.recordOccurrence h₂ ?_ (fun w₃ e h₃ => ?_)
        fun w₃ o' ev e v' h₃ hc' hf => ?_)
      · rw [id_of_advance hs']
        exact hs
      · exact hJ.move _ w₃ _ _ h₃ (.record hs')
      · exact hJ.move _ w₃ _ _ h₃ (.unrecorded hs' hc' hf)
    · exact hJ.move _ _ _ _ h₂ (.strand he)
  have hid : ∀ record ∈ [SchedRecord.occurrence (closingRecord s due e)],
      recordId record ≠ "" := by
    simp only [forall_mem_cons]
    exact ⟨occurrenceId_ne_empty _ _, by simp⟩
  refine of_bind (hJ.commit h₁ hid (fun w₂ _ h₂ => ?_) fun w₂ o e' h₂ hc hf => ?_)
  · have h₃ := hJ.move _ w₂ _ _ h₂ .close
    exact of_if h₃ h₃
  · exact hJ.move _ w₂ _ _ h₂ (.unclosed hc hf)

lemma id_of_skipMissed {n : Nat} {s s' : ScheduleDefinition}
    (h : skipMissed dump now n s = .ok s') : s'.id = s.id := by
  induction n generalizing s with
  | zero =>
    cases h
    rfl
  | succ n ih =>
    unfold skipMissed at h
    split at h
    · cases h
      rfl
    split at h
    · obtain ⟨next, -, h⟩ := bind_eq_ok.mp h
      have hid := ih h
      exact hid
    · cases h
      rfl

lemma id_of_missed {s s' : ScheduleDefinition}
    (h : s.missed dump now due = .ok s') : s'.id = s.id := by
  obtain ⟨t, ht, h⟩ := bind_eq_ok.mp h
  have hid := id_of_advance ht
  split at h
  · cases h
    exact hid
  · exact (id_of_skipMissed h).trans hid

section

variable (hJ : Abides cfg cond safe now s due J)
include hJ

lemma activeScheduleRun (h : J (some .ready) w) :
    (schedWatch cfg cond Apart safe).wp (Laso.activeScheduleRun s.id)
      (fun active w' _ => if active then J (some .ready) w' else J (some .clear) w')
      (fun _ w' _ => J none w') w v := by
  refine of_bind (wp_query (hJ.safe _ w h) fun w₁ o hR hc => ?_)
  have h₁ := hJ.apart _ w w₁ h hR
  refine of_bind (wp_attempt (fun runs hruns => ?_) fun e _ => ?_)
  · have hpage := list_eq_ok (SchedWorld.read_eq_ok hruns)
    show if (runs.any fun r => r.scheduleId == s.id && !terminal r.state) then
      J (some .ready) w₁ else J (some .clear) w₁
    split
    · exact h₁
    rename_i hany
    refine hJ.move _ w₁ _ _ h₁ (.decide (.inr (.inr ⟨hc, ?_⟩)))
    rintro ⟨r, hr, hid, hactive⟩
    refine hany (List.any_eq_true.mpr ⟨r, hpage ▸ hr, ?_⟩)
    simp [hid, hactive]
  · exact hJ.move _ w₁ _ _ h₁ (.abandon (.inr rfl))

lemma dispose (hs : s.id ≠ "") (h : J (some .ready) w)
    {x : Except Error ScheduleDefinition} {status : LaunchStatus}
    {extra : ScheduleDefinition → List (String × Json)} (hid : ∀ s', x = .ok s' → s'.id = s.id)
    (hok : ∀ s' w₁ e, x = .ok s' → J (some .ready) w₁ → J none (w₁.write
      [.schedule s', .occurrence (recordValue status s' due), .event e])) :
    (schedWatch cfg cond Apart safe).wp (do
      let s' ← Code.ofExcept x
      Laso.recordOccurrence type s' due status "" (extra s') : SchedOp σ Unit)
      (fun _ w' _ => J none w') (fun _ w' _ => J none w') w v := by
  refine of_bind (wp_attempt (fun s' hs' => ?_) fun e _ => ?_)
  · refine hJ.recordOccurrence h ?_ (fun w₁ e h₁ => hok s' w₁ e hs' h₁) fun w₁ _ _ _ _ h₁ _ _ => ?_
    · rw [hid s' hs']
      exact hs
    · exact hJ.move _ w₁ _ _ h₁ (.abandon (.inr rfl))
  · exact hJ.move _ w _ _ h (.abandon (.inr rfl))

/-- The rule of `handleDue`. -/
lemma handleDue (hs : s.id ≠ "") (h : J (some .ready) w)
    {v : Nat} :
    (schedWatch cfg cond Apart safe).wp (Laso.handleDue cfg now s due)
      (fun _ w' _ => J none w') (fun _ w' _ => J none w') w v := by
  refine of_ite ⟨fun hlate => ?_, fun _ => of_bind ?_⟩
  · exact hJ.dispose hs h (fun s' hs' => id_of_missed hs')
      fun s' w₁ e hs' h₁ => hJ.move _ w₁ _ _ h₁ (.misfire hlate.1 hlate.2 hs')
  refine of_ite ⟨fun hq => ?_, fun hq => ?_⟩
  · have h₁ := hJ.move _ w _ _ h (.decide (o := {}) (.inl hq))
    exact of_ite ⟨nofun, fun _ => hJ.launchOccurrence hs h₁⟩
  have hqueued : s.queued = false := by simpa using hq
  refine wp_imp (hJ.activeScheduleRun h) fun active w₁ v₁ h₁ => ?_
  refine of_ite ⟨fun hactive => ?_, fun hactive => ?_⟩
  · rw [if_pos hactive] at h₁
    split
    · rename_i hpolicy
      exact hJ.dispose hs h₁
        (fun s' hs' => id_of_advance hs')
        fun s' w₂ e hs' h₂ => hJ.move _ w₂ _ _ h₂ (.skip hqueued hpolicy hs')
    · rename_i hpolicy
      exact hJ.dispose hs h₁
        (fun s' hs' => id_of_advance (s := s.withQueued due) hs')
        fun s' w₂ e hs' h₂ => hJ.move _ w₂ _ _ h₂ (.enqueue hqueued hpolicy hs')
    · rename_i hpolicy
      have h₂ := hJ.move _ w₁ _ _ h₁ (.decide (o := {}) (.inr (.inl hpolicy)))
      exact hJ.launchOccurrence hs h₂
  · rw [if_neg hactive] at h₁
    exact hJ.launchOccurrence hs h₁

end

/-- What the pass has found of an occurrence: it is not stored, or the pass can go on with it, or it
cannot. -/
def Found (J : Option Phase → SchedWorld → Prop) (w : SchedWorld) : Option ScheduleOccurrence → Prop
  | none => J (some .seen) w
  | some x => if x.status = .pending ∨ x.status = .queued then J (some .ready) w else J none w

section

variable (hJ : Abides cfg cond safe now s due J)
include hJ

/-- The rule of `findOccurrence`. -/
lemma findOccurrence (hw : Handles now s due w)
    (h : J none w) :
    (schedWatch cfg cond Apart safe).wp (Laso.findOccurrence (occurrenceId s.id due))
      (fun goOn w' found => if goOn then Found J w' found else J none w')
      (fun _ w' _ => J none w') w none := by
  refine (wp_tryCatch _ _).mpr (wp_mono
    (E := fun _ w' found => J none w' ∧ Found J w' found) ?_ (fun _ _ _ h' => h')
    fun e w₁ v₁ h₁ => of_if h₁.2 h₁.1)
  refine of_bind (wp_query (hJ.safe _ w h) fun w₁ o hR hc => ?_)
  have h₁ := hJ.move _ w₁ _ _ (hJ.apart _ w w₁ h hR) (.look (hw.apart hR) hc)
  refine of_bind (wp_attempt (fun x hx => ?_) fun e _ => ?_)
  · have hstored := find_eq_ok (SchedWorld.read_eq_ok hx)
    have hgone := hJ.move _ w₁ _ _ h₁ (.abandon (.inl rfl))
    refine of_bind (of_ite ⟨fun _ => hgone, fun hfinal => ?_⟩)
    refine of_ite ⟨fun hclaimed => ?_, fun hclaimed => ?_⟩
    · -- An interrupted launch.
      have hlost : ∀ w', J none w' → J none w' ∧ Found J w' (some x) := fun w' h' => by
        refine ⟨h', ?_⟩
        rw [Found, hclaimed, if_neg (by decide)]
        exact h'
      refine of_bind (wp_query (hJ.safe _ _ h₁) fun w₂ o' hR' _ => ?_)
      have h₂ := hJ.apart _ _ w₂ h₁ hR'
      have hstored₂ : w₂.db.occurrences.get (occurrenceId s.id due) = some x := by
        rw [hR'.occurrences]
        exact hstored
      refine of_bind (wp_attempt (fun runs hruns => ?_) fun e _ => ?_)
      · have hpage := list_eq_ok (SchedWorld.read_eq_ok hruns)
        split
        · rename_i r hr
          have hmem : r ∈ w₂.db.runs.take 10000 := hpage ▸ mem_of_find?_eq_some hr
          have hid : r.scheduleOccurrenceId = occurrenceId s.id due := by
            simpa using find?_some hr
          have hnamed : ∀ record ∈ [SchedRecord.occurrence { x with
              status := .started, runId := r.id }], recordId record ≠ "" := by
            rw [forall_mem_singleton]
            rw [← x.key_eq, Table.key_of_get hstored]
            exact occurrenceId_ne_empty _ _
          refine of_bind (hJ.commit h₂ hnamed (fun w₃ hR'' h₃ => ?_)
            fun w₃ _ e h₃ _ _ => ?_)
          · obtain ⟨r', hr', hon⟩ := hR''.runs.of_mem_take hmem
            rw [← hon.id]
            refine hJ.move _ w₃ _ _ h₃ (.recover ?_ hclaimed hr' (hon.scheduleOccurrenceId.trans hid))
            rw [hR''.occurrences]
            exact hstored₂
          · exact hlost _ (hJ.move _ w₃ _ _ h₃ (.abandon (.inl rfl)))
        · rename_i hnone
          refine hJ.move _ w₂ _ _ h₂ (.lost hstored₂ hclaimed fun r hr hid => ?_)
          have := find?_eq_none.mp hnone r (hpage ▸ hr)
          simp [hid] at this
      · exact hlost _ (hJ.move _ w₂ _ _ h₂ (.abandon (.inl rfl)))
    show if x.status = .pending ∨ x.status = .queued then J (some .ready) w₁ else J none w₁
    split
    · rename_i hwait
      exact hJ.move _ w₁ _ _ h₁ (.retry hstored hwait)
    · exact hgone
  · exact ⟨hJ.move _ w₁ _ _ h₁ (.abandon (.inl rfl)), h₁⟩

/-- The rule of `claimDue`. -/
lemma claimDue {found : Option ScheduleOccurrence} (h : Found J w found) :
    (schedWatch cfg cond Apart safe).wp (Laso.claimDue s due found)
      (fun claimed w' _ => if claimed then J (some .ready) w' else J none w')
      (fun _ w' _ => J none w') w v := by
  cases found with
  | some x =>
    show if decide (x.status = .pending ∨ x.status = .queued) then J (some .ready) w
      else J none w
    simpa only [Found, decide_eq_true_eq] using h
  | none =>
  refine of_bind (wp_query (hJ.safe _ w h) fun w₁ o hR _ => ?_)
  have h₁ := hJ.apart _ w w₁ h hR
  have hgone := hJ.move _ w₁ _ _ h₁ (.abandon (.inl rfl))
  simp only [SchedWorld.perform]
  cases hf : o.fault with
  | some e =>
    rw [transact_error hf]
    exact hgone
  | none =>
  rw [transact_ok hf]
  cases hget : w₁.db.occurrences.get (Keyed.key (recordValue .claimed s due)) with
  | some x =>
    rw [claim_taken (occurrenceId_ne_empty s.id due) hget]
    exact hgone
  | none =>
    rw [claim_free (occurrenceId_ne_empty s.id due) hget]
    exact hJ.move _ w₁ _ _ h₁ (.claim hget)

/-- **One occurrence**, from the lookup to its end. -/
lemma occurrence (hw : Handles now s due w) (h : J none w) {v : Nat} :
    (schedWatch cfg cond Apart safe).wp (do
        let (goOn, existing) ← Code.localVar none (Laso.findOccurrence (occurrenceId s.id due))
        if goOn then
          if ← Laso.claimDue s due existing then Laso.handleDue cfg now s due)
      (fun _ w' _ => J none w') (fun _ w' _ => J none w') w v := by
  refine of_bind ((wp_localVar _ _).mpr ?_)
  refine wp_imp (hJ.findOccurrence hw h) fun goOn w₁ found h₁ => ?_
  refine of_ite ⟨fun hgo => ?_, fun hgo => ?_⟩
  · rw [if_pos hgo] at h₁
    refine of_bind (wp_imp (hJ.claimDue h₁) fun claimed w₂ v₂ h₂ => ?_)
    refine of_ite ⟨fun hclaimed => ?_, fun hclaimed => ?_⟩
    · rw [if_pos hclaimed] at h₂
      exact hJ.handleDue hw.named h₂
    · rw [if_neg hclaimed] at h₂
      exact h₂
  · rw [if_neg hgo] at h₁
    exact h₁

end

end Abides

/-! ## A list of schedules -/

lemma Move.others {cfg : SchedConfig} {cond : SchedCond}
    {now : WallTime} {s : ScheduleDefinition} {due : Stamp} {ph ph' : Option Phase}
    {w w' : SchedWorld} (h : Move cfg cond now s due ph w ph' w') :
    w'.clock = w.clock ∧ ∀ k, k ≠ s.id → w'.db.schedules.get k = w.db.schedules.get k := by
  have hput : ∀ s' : ScheduleDefinition, s'.id = s.id → ∀ k, k ≠ s.id →
      (w.db.schedules.put s').get k = w.db.schedules.get k := fun s' hid k hk =>
    Table.get_put_ne fun heq => hk (heq.symm.trans hid)
  cases h with
  | misfire _ _ hs => exact ⟨rfl, hput _ (Abides.id_of_missed hs)⟩
  | skip _ _ hs => exact ⟨rfl, hput _ (Abides.id_of_advance hs)⟩
  | enqueue _ _ hs => exact ⟨rfl, hput _ (Abides.id_of_advance (s := s.withQueued due) hs)⟩
  | record hs => exact ⟨rfl, hput _ (Abides.id_of_advance (s := s.begun now) hs)⟩
  | look | claim | retry | lost | recover | abandon | decide | launch | refuse | strand |
    unrecorded | close | unclosed => exact ⟨rfl, fun _ _ => rfl⟩

namespace Abides

variable {cfg : SchedConfig} {cond : SchedCond}
  {safe I : SchedWorld → Prop} {now : WallTime} {s : ScheduleDefinition} {due : Stamp}
  {J : Option Phase → SchedWorld → Prop} {w : SchedWorld} {v : Nat}

lemma others (hJ : Abides cfg cond safe now s due J) (t : Table ScheduleDefinition) :
    Abides cfg cond safe now s due fun ph w => J ph w ∧
      w.clock = now ∧ ∀ k, k ≠ s.id → w.db.schedules.get k = t.get k where
  safe ph w h := hJ.safe ph w h.1
  apart ph w w' h hR :=
    ⟨hJ.apart ph w w' h.1 hR, hR.clock.trans h.2.1, by rw [hR.schedules]; exact h.2.2⟩
  move ph w ph' w' h hmove := by
    obtain ⟨hclock, hothers⟩ := hmove.others
    exact ⟨hJ.move ph w ph' w' h.1 hmove, hclock.trans h.2.1,
      fun k hk => (hothers k hk).trans (h.2.2 k hk)⟩

/-- The rule of `processSchedule`. -/
lemma processSchedule (hJ : ∀ due, ∃ J, Abides cfg cond safe now s due J ∧ ∀ w, J none w ↔ I w)
    (hnamed : s.id ≠ "") (h : I w) (hclock : w.clock = now) (hs : w.Stored s) :
    (schedWatch cfg cond Apart safe).wp (Laso.processSchedule cfg now s)
      (fun _ w' _ => I w' ∧ w'.clock = now ∧
        ∀ k, k ≠ s.id → w'.db.schedules.get k = w.db.schedules.get k)
      (fun _ w' _ => I w') w v := by
  have hsame : I w ∧ w.clock = now ∧
      ∀ k, k ≠ s.id → w.db.schedules.get k = w.db.schedules.get k := ⟨h, hclock, fun _ _ => rfl⟩
  refine of_ite ⟨fun _ => hsame, fun hlive => ?_⟩
  split
  · exact hsame
  rename_i due hdue
  refine of_ite ⟨fun _ => hsame, fun hnow => ?_⟩
  have hw : Handles now s due w := {
    stored := hs
    clock := hclock
    named := hnamed
    kept := by simpa using fun hd => hlive (.inl hd)
    live := by
      by_contra hoff
      simp only [not_or, Bool.not_eq_true] at hoff
      exact hlive (.inr hoff)
    effective := hdue
    due := by
      cases hq : s.queued with
      | true => exact .inl rfl
      | false => exact .inr (by simpa [hq] using hnow) }
  obtain ⟨J, hJ, hnone⟩ := hJ due
  exact wp_mono ((hJ.others w.db.schedules).occurrence hw ⟨(hnone w).mpr h, hsame.2⟩)
    (fun _ w' _ h' => ⟨(hnone w').mp h'.1, h'.2⟩) fun _ w' _ h' => (hnone w').mp h'.1

lemma processSchedules (l : List ScheduleDefinition) (hl : (l.map (·.id)).Nodup)
    (hJ : ∀ s ∈ l, ∀ due, ∃ J, Abides cfg cond safe now s due J ∧ ∀ w, J none w ↔ I w)
    (hnamed : ∀ s ∈ l, s.id ≠ "") (h : I w) (hclock : w.clock = now) (hs : ∀ s ∈ l, w.Stored s) :
    (schedWatch cfg cond Apart safe).wp (Laso.processSchedules cfg now l)
      (fun _ w' _ => I w') (fun _ w' _ => I w') w v := by
  induction l generalizing w v with
  | nil => exact h
  | cons s rest ih =>
    rw [map_cons, nodup_cons] at hl
    refine of_bind (of_if h ?_)
    refine of_bind (wp_mono (processSchedule (hJ s mem_cons_self) (hnamed s mem_cons_self) h hclock
        (hs s mem_cons_self)) ?_ fun _ _ _ h' => h')
    rintro _ w₁ v₁ ⟨h₁, hclock₁, hothers⟩
    refine ih hl.2 (fun s' hs' => hJ s' ((mem_cons_of_mem s) hs'))
      (fun s' hs' => hnamed s' ((mem_cons_of_mem s) hs')) h₁ hclock₁
      fun s' hs' => ?_
    have hne : s'.id ≠ s.id := fun heq => hl.1 (heq ▸ mem_map_of_mem hs')
    rw [SchedWorld.Stored, hothers _ hne]
    exact hs s' ((mem_cons_of_mem s) hs')

end Abides

/-! ## The whole scheduler -/

/-- An invariant of the scheduler: `idle` between the sections, `busy` while an occurrence is being
handled, `safe` at all times. -/
structure Discipline (cfg : SchedConfig) (cond : SchedWorld → SchedReq → SchedOracle → Prop) where
  idle : SchedWorld → Prop
  busy : WallTime → ScheduleDefinition → Stamp → Phase → SchedWorld → Prop
  safe : SchedWorld → Prop
  safe_idle : ∀ w, idle w → safe w
  safe_busy : ∀ now s due ph w, busy now s due ph w → safe w
  named : ∀ w s, idle w → w.Stored s → s.id ≠ ""
  apart_idle : ∀ w w', idle w → w.Apart w' → idle w'
  apart_busy : ∀ now s due ph w w', busy now s due ph w → w.Apart w' → busy now s due ph w'
  apart_safe : ∀ w w', safe w → w.Apart w' → safe w'
  tick : ∀ w t, idle w → idle { w with clock := t }
  move : ∀ now s due ph w ph' w', ph.elim idle (busy now s due) w →
    Move cfg cond now s due ph w ph' w' → ph'.elim idle (busy now s due) w'
  edit : ∀ w w', idle w → Edit cfg cond w w' → idle w'

namespace Discipline

variable {cfg : SchedConfig} {cond : SchedCond}
  (D : Discipline cfg cond) {now : WallTime} {w : SchedWorld} {v : σ}

/-- The observer of a discipline. -/
abbrev watch : Watch schedSig SchedWorld := schedWatch cfg cond Apart D.safe

variable (s : ScheduleDefinition)

lemma abides (due : Stamp) :
    Abides cfg cond D.safe now s due fun ph w => ph.elim D.idle (D.busy now s due) w where
  safe ph w h := by
    cases ph with
    | none => exact D.safe_idle w h
    | some ph => exact D.safe_busy now s due ph w h
  apart ph w w' h hR := by
    cases ph with
    | none => exact D.apart_idle w w' h hR
    | some ph => exact D.apart_busy now s due ph w w' h hR
  move ph w ph' w' h hmove := D.move now s due ph w ph' w' h hmove

/-- **`process_due` keeps the discipline.** -/
lemma processDue (h : D.idle w) {v : Nat} :
    D.watch.wp (Laso.processDue cfg) (fun _ w' _ => D.idle w') (fun _ w' _ => D.idle w') w v := by
  refine of_bind (wp_query (D.safe_idle w h) fun w₁ o hR _ => ?_)
  have h₁ := D.tick w₁ o.time (D.apart_idle w w₁ h hR)
  refine of_bind (wp_query (D.safe_idle _ h₁) fun w₂ o' hR' _ => ?_)
  have h₂ := D.apart_idle _ w₂ h₁ hR'
  refine of_bind (wp_attempt (fun l hl => ?_) fun _ _ => h₂)
  have hpage := list_eq_ok (SchedWorld.read_eq_ok hl)
  have hstored : ∀ s ∈ l, w₂.Stored s := fun s hs => by
    rw [hpage] at hs
    exact Table.mem_rows_iff.mp (mem_of_mem_take hs)
  refine Abides.processSchedules l ?_ (fun s _ due => ⟨_, D.abides s due, fun _ => Iff.rfl⟩)
    (fun s hs => D.named w₂ s h₂ (hstored s hs)) h₂ hR'.clock hstored
  rw [hpage]
  exact w₂.db.schedules.nodup.sublist ((take_sublist _ _).map _)

/-! ### Everything else -/

/-- The code keeps the invariant between the sections. -/
abbrev Keeps (x : SchedOp σ α) : Prop := D.watch.Keeps (fun w (_ : σ) => D.idle w) x

lemma keeps_query {q : SchedReq} (hq : q.Aside) : D.Keeps (query q : SchedOp σ q.Resp) :=
  fun w _ h => wp_query (D.safe_idle w h) fun w₁ _ hR _ =>
    D.apart_idle w₁ _ (D.apart_idle w w₁ h hR) (perform_aside hq)

variable {x : SchedOp σ α}

lemma keeps_aside (h : x.Only SchedReq.Aside) : D.Keeps x :=
  keeps_of_only h fun q hq w hw => ⟨D.safe_idle w hw, fun _ _ ⟨w₁, o, hR, _, hp⟩ => by
    have haside : w₁.Apart (w₁.perform cfg o q).2 := perform_aside hq
    rw [hp] at haside
    exact D.apart_idle w₁ _ (D.apart_idle w w₁ hw hR) haside⟩

lemma keeps_neutral (h : x.Only SchedReq.Neutral) : D.Keeps x :=
  D.keeps_aside (SchedReq.Aside.of_neutral h)

/-! ### Edits -/

lemma commitEdit (h : D.idle w) {records : List SchedRecord}
    (hedit : ∀ w₁ o, w.Apart w₁ → cond w₁ (.commit records) o →
      Edit cfg cond w₁ (w₁.write records)) :
    D.watch.wp (commitRecords records) (fun _ w' (_ : σ) => D.idle w') (fun _ w' _ => D.idle w')
      w v := by
  refine of_bind (wp_query (D.safe_idle w h) fun w₁ o hR hc => ?_)
  have h₁ := D.apart_idle w w₁ h hR
  have h₂ := D.edit w₁ _ h₁ (hedit w₁ o hR hc)
  simp only [SchedWorld.perform]
  cases hf : o.fault with
  | some e =>
    rw [transact_error hf]
    exact h₁
  | none =>
  rw [transact_ok hf]
  unfold commit
  split
  · exact h₁
  · exact h₂

lemma getSchedule (h : D.idle w) {id : String} {f : ScheduleDefinition → SchedOp σ Unit}
    (hf : ∀ s w₁, D.idle w₁ → w₁.Stored s → D.watch.wp (f s) (fun _ w' _ => D.idle w')
      (fun _ w' _ => D.idle w') w₁ v) :
    D.watch.wp (query (.getSchedule id) >>= fun x => Code.ofExcept x >>= f)
      (fun _ w' _ => D.idle w') (fun _ w' _ => D.idle w') w v := by
  refine of_bind (wp_query (D.safe_idle w h) fun w₁ o hR _ => ?_)
  have h₁ := D.apart_idle w w₁ h hR
  refine of_bind (wp_attempt (fun s hs => ?_) fun _ _ => h₁)
  have hget := find_eq_ok (SchedWorld.read_eq_ok hs)
  refine hf s w₁ h₁ ?_
  rw [SchedWorld.Stored, ← s.key_eq, Table.key_of_get hget]
  exact hget

/-- The rule of `storeSchedule`. -/
lemma storeSchedule (h : D.idle w) {type : String} {s : ScheduleDefinition} {due : Option Stamp}
    (hedit : ∀ w₁ o e, w.Apart w₁ → e.type = type → cond w₁ (.commit [.schedule s, .event e]) o →
      Edit cfg cond w₁ (w₁.write [.schedule s, .event e])) :
    D.watch.wp (Laso.storeSchedule type s due) (fun _ w' (_ : σ) => D.idle w')
      (fun _ w' _ => D.idle w') w v := by
  refine of_bind (of_bind (wp_query (D.safe_idle w h) fun w₁ o hR _ => ?_))
  have hevent : w₁.Apart (w₁.perform cfg o .event).2 := perform_aside trivial
  have h₁ := D.apart_idle w _ h (hR.trans hevent)
  refine of_bind (wp_mono (D.commitEdit h₁ fun w₂ o' hR₂ hc => ?_) ?_
    fun _ _ _ h' => h')
  · exact hedit w₂ o' _ ((hR.trans hevent).trans hR₂) rfl hc
  · intro _ w₂ v₂ h₂
    exact D.keeps_neutral (SchedReq.Neutral.emitEvent _) w₂ v₂ h₂

/-- The scan of `staysQueued` changes nothing. -/
lemma staysQueued (h : D.idle w) {s s' : ScheduleDefinition} (hs : w.Stored s) :
    D.watch.wp (Laso.staysQueued s')
      (fun stays w' _ => D.idle w' ∧ w'.Stored s ∧ (stays = false → s'.queued))
      (fun _ w' _ => D.idle w') w v := by
  refine of_ite ⟨fun hq => ?_, fun _ => ⟨h, hs, nofun⟩⟩
  refine of_bind (wp_query (D.safe_idle w h) fun w₁ o hR _ => ?_)
  have h₁ := D.apart_idle w w₁ h hR
  exact of_bind (wp_attempt (fun _ _ => ⟨h₁, hR.stored hs, fun _ => hq⟩) fun _ _ => h₁)

lemma keeps_reconcileCompletion (e : SourceEvent) :
    D.Keeps (reconcileCompletion e : SchedOp σ Unit) := by
  refine keeps_bind (D.keeps_query trivial) fun _ => ?_
  refine keeps_bind (keeps_ofExcept _) fun r => ?_
  refine keeps_ite (fun _ => keeps_pure _) fun _ w v h => ?_
  refine D.getSchedule h fun s w₁ h₁ hs => ?_
  refine of_bind (wp_mono (D.staysQueued h₁ hs) ?_ fun _ _ _ h' => h')
  rintro stays w₂ v₂ ⟨h₂, hs₂, hqueued⟩
  refine of_ite ⟨fun _ => ?_, fun hstays => ?_⟩
  · exact D.commitEdit h₂ fun w₃ _ hR _ => .complete (hR.stored hs₂)
  · exact D.commitEdit h₂ fun w₃ _ hR _ => .release (hR.stored hs₂) (hqueued (by simpa using hstays))

/-- **`handle_event` keeps the discipline.** -/
lemma keeps_handleEvent (e : SourceEvent) : D.Keeps (handleEvent cfg e : SchedOp σ Unit) := by
  refine keeps_bind (D.keeps_query trivial) fun _ => ?_
  refine keeps_bind (keeps_ofExcept _) fun l => ?_
  refine keeps_bind (D.keeps_aside (SchedReq.Aside.deliver cfg e l)) fun _ => keeps_if ?_
    (keeps_pure _)
  exact keeps_tryCatch (D.keeps_reconcileCompletion e) fun _ => keeps_pure _

lemma keeps_createSchedule : D.Keeps (createSchedule cfg s : SchedOp σ Unit) := by
  refine fun w v h => of_bind (wp_attempt (fun _ hs => ?_) fun _ _ => h)
  refine of_bind (wp_imp
    (D.keeps_query (q := .getSchedule s.id) trivial w v h) fun x w₁ v₁ h₁ => ?_)
  split
  · exact h₁
  · refine of_if ?_ h₁
    exact D.storeSchedule h₁ fun w₂ o e _ he hc => .write hs (.inl he) hc

lemma keeps_updateSchedule : D.Keeps (updateSchedule cfg s : SchedOp σ Unit) := by
  refine fun w v h => of_bind (wp_attempt (fun _ hs => ?_) fun _ _ => h)
  exact D.getSchedule h fun _ w₁ h₁ _ => D.storeSchedule h₁ fun w₂ o e _ he hc =>
    .write hs (.inr he) hc

lemma keeps_deleteSchedule (id : String) : D.Keeps (deleteSchedule id : SchedOp σ Unit) :=
  fun _ _ h => D.getSchedule h fun _ _ h₁ hs => D.storeSchedule h₁ fun _ _ _ hR _ hc =>
    .enable (hR.stored hs) hc

lemma keeps_setScheduleEnabled (id : String) (enabled : Bool) :
    D.Keeps (setScheduleEnabled cfg id enabled : SchedOp σ Unit) := by
  refine fun w v h => D.getSchedule h fun s w₁ h₁ hs => ?_
  refine of_ite ⟨fun _ => h₁, fun hkept => of_bind ?_⟩
  refine of_ite ⟨fun hnone => ?_, fun _ => ?_⟩
  · refine of_ite ⟨fun htype => ?_, fun _ => ?_⟩
    · rw [hnone.1]
      exact D.storeSchedule h₁ fun _ _ _ hR _ hc => .renew (hR.stored hs) hnone.2 htype hc
    refine of_bind (wp_query (D.safe_idle w₁ h₁) fun w₂ o hR hc => ?_)
    have h₂ := D.tick w₂ o.time (D.apart_idle w₁ w₂ h₁ hR)
    refine wp_attempt (fun next hnext => ?_) fun _ _ => h₂
    rw [hnone.1]
    refine D.storeSchedule h₂ fun w₃ _ _ hR' _ hcommit => ?_
    exact .begun (hR'.stored (hR.stored hs)) hnone.2 hc hR'.occurrences.symm hR'.schedules.symm
      hnext hcommit
  · exact D.storeSchedule h₁ fun _ _ _ hR _ hc => .enable (hR.stored hs) hc

end Discipline

end Laso
