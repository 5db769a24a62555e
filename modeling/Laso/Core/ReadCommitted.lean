import Mathlib.Logic.Function.Basic
import Laso.Core.Machine

/-!
# Guarded writes under read-committed isolation

Transactions write rows one after the other. Before each write a **guard** reads the row stored
under the same key and decides whether the write goes ahead, is unnecessary or ends the
transaction; then the row is inserted or replaced. Guard and write are two statements, and
statements of different transactions interleave as read committed allows: a statement sees what is
committed when it starts and what its own transaction has written, a write waits for the
transaction that holds the row, and goes ahead when that one has ended.

So the row that a write replaces need not be the one its guard has read, and a guard need not look at
all that matters. `keeps_of_reach`: if no transaction commits the row in between, and what the guard
does not look at is in order, a stored row is only ever replaced along the relation that the guard
enforces.
-/

namespace Laso

open Option

namespace ReadCommitted

/-- Rows with their keys and guards. `.ok false` means that there is nothing to write. -/
structure Rules (κ β ε : Type) where
  key : β → κ
  guard : Option β → β → Except ε Bool

/-- An open transaction: the rows it has still to write, what the guard of the first one has read,
with the number of commits of that row so far, and the rows it has written. -/
structure Txn (κ β : Type) where
  pending : List β := []
  read : Option (Option β × Nat) := none
  writes : κ → Option β := fun _ => none

/-- The committed rows, how often each was committed, and the transactions. -/
structure Store (κ β : Type) where
  committed : κ → Option β := fun _ => none
  commits : κ → Nat := fun _ => 0
  open_ : List (Txn κ β) := []

/-- Statements of transactions. A transaction can be aborted at any time. -/
inductive Statement (β : Type) where
  | begin (rows : List β)
  | guard (i : Nat)
  | write (i : Nat)
  | commit (i : Nat)
  | abort (i : Nat)

variable {κ β ε : Type}

variable (s : Store κ β)

def Store.visible (t : Txn κ β) (k : κ) : Option β := (t.writes k).or (s.committed k)

/-- A transaction other than the `i`-th one has written the row. -/
def Store.locked (i : Nat) (k : κ) : Bool :=
  (List.range s.open_.length).any fun j =>
    j != i && ((s.open_[j]?).bind fun t => t.writes k).isSome

def Store.setTxn (i : Nat) (t : Txn κ β) : Store κ β :=
  { s with open_ := s.open_.set i t }

def guardStep (rules : Rules κ β ε) (s : Store κ β) (i : Nat) (t : Txn κ β) : Option (Store κ β) :=
  match t.pending, t.read with
  | x :: rest, none =>
    let row := s.visible t (rules.key x)
    match rules.guard row x with
    | .ok true => some (s.setTxn i { t with read := some (row, s.commits (rules.key x)) })
    | .ok false => some (s.setTxn i { t with pending := rest })
    | .error _ => some (s.setTxn i {})
  | _, _ => none

/-- The write of the next row, which waits while another transaction holds the row. -/
def writeStep [DecidableEq κ] (rules : Rules κ β ε) (s : Store κ β) (i : Nat) (t : Txn κ β) :
    Option (Store κ β) :=
  match t.pending, t.read with
  | x :: rest, some _ =>
    if s.locked i (rules.key x) then none
    else some (s.setTxn i
      { pending := rest, writes := Function.update t.writes (rules.key x) (some x) })
  | _, _ => none

/-- All rows have been written and become visible to the others. -/
def commitStep (i : Nat) (t : Txn κ β) : Option (Store κ β) :=
  match t.pending with
  | [] => some
    { committed := fun k => (t.writes k).or (s.committed k)
      commits := fun k => if (t.writes k).isSome then s.commits k + 1 else s.commits k
      open_ := s.open_.set i {} }
  | _ :: _ => none

lemma committed_guardStep {rules : Rules κ β ε} {s s' : Store κ β} {i : Nat} {t : Txn κ β}
    (h : guardStep rules s i t = some s') : s'.committed = s.committed := by
  unfold guardStep at h
  split at h
  · simp only at h
    split at h <;> (cases h; rfl)
  · cases h

lemma committed_writeStep [DecidableEq κ] {rules : Rules κ β ε} {s s' : Store κ β} {i : Nat}
    {t : Txn κ β} (h : writeStep rules s i t = some s') : s'.committed = s.committed := by
  unfold writeStep at h
  split at h
  · split at h
    · cases h
    · cases h
      rfl
  · cases h

lemma committed_commitStep {s s' : Store κ β} {i : Nat} {t : Txn κ β}
    (h : commitStep s i t = some s') :
    s'.committed = fun k => (t.writes k).or (s.committed k) := by
  unfold commitStep at h
  split at h
  · cases h
    rfl
  · cases h

def step [DecidableEq κ] (rules : Rules κ β ε) : Machine (Store κ β) (Statement β)
  | s, .begin rows => some { s with open_ := s.open_ ++ [{ pending := rows }] }
  | s, .guard i => (s.open_[i]?).bind (guardStep rules s i)
  | s, .write i => (s.open_[i]?).bind (writeStep rules s i)
  | s, .commit i => (s.open_[i]?).bind (commitStep s i)
  | s, .abort i => (s.open_[i]?).map fun _ => s.setTxn i {}

/-- The row about to be written has not been committed since its guard has read it, and where a guard
reads a row, the new one is allowed in its place. -/
def Undisturbed (rules : Rules κ β ε) (allowed : β → β → Prop) (s : Store κ β) : Statement β → Prop
  | .guard i => ∀ t ∈ s.open_[i]?, ∀ x ∈ t.pending.head?, ∀ old ∈ s.visible t (rules.key x),
      allowed old x
  | .write i => ∀ t ∈ s.open_[i]?, ∀ x ∈ t.pending.head?, ∀ read ∈ t.read,
      s.commits (rules.key x) = read.2
  | _ => True

instance (rules : Rules κ β ε) (allowed : β → β → Prop) [∀ x y, Decidable (allowed x y)]
    (s : Store κ β) : ∀ l, Decidable (Undisturbed rules allowed s l) := by
  rintro ⟨⟩ <;> dsimp only [Undisturbed] <;> infer_instance

/-! ## What the guards enforce -/

/-- A reflexive and transitive relation along which the guard lets a row be replaced by one that is
allowed in its place. -/
structure Enforces (rules : Rules κ β ε) (allowed keeps : β → β → Prop) : Prop where
  refl : ∀ x, keeps x x
  trans : ∀ x y z, keeps x y → keeps y z → keeps x z
  guard : ∀ old x, rules.key old = rules.key x → allowed old x →
    rules.guard (some old) x = .ok true → keeps old x

/-- A transaction in order: what it has written may replace what is committed, and as long as the
row its guard has read is not committed again, it still sees that row. -/
structure TxnOk (rules : Rules κ β ε) (keeps : β → β → Prop) (s : Store κ β) (t : Txn κ β) :
    Prop where
  writes : ∀ k x, t.writes k = some x → rules.key x = k ∧
    ∀ old, s.committed k = some old → keeps old x
  read : ∀ row n, t.read = some (row, n) → ∃ x rest, t.pending = x :: rest ∧
    (∀ old, row = some old → rules.key old = rules.key x → keeps old x) ∧
      n ≤ s.commits (rules.key x) ∧
      (s.commits (rules.key x) = n → s.visible t (rules.key x) = row)

/-- A store in order: rows are committed under their keys, transactions are in order and hold
different rows. -/
structure StoreOk (rules : Rules κ β ε) (keeps : β → β → Prop) (s : Store κ β) : Prop where
  keys : ∀ k x, s.committed k = some x → rules.key x = k
  txns : ∀ (i : Nat) t, s.open_[i]? = some t → TxnOk rules keeps s t
  locks : ∀ (i j : Nat) t u, s.open_[i]? = some t → s.open_[j]? = some u → i ≠ j →
    ∀ k, (t.writes k).isSome → u.writes k = none

variable {rules : Rules κ β ε} {allowed keeps : β → β → Prop} {s s' : Store κ β} {t u : Txn κ β}
  {i : Nat}

lemma getElem?_set_some {l : List (Txn κ β)} {j : Nat}
    (h : (l.set i t)[j]? = some u) : (i = j ∧ u = t) ∨ (i ≠ j ∧ l[j]? = some u) := by
  rw [List.getElem?_set] at h
  split at h
  · rename_i hij
    split at h
    · exact .inl ⟨hij, (Option.some.inj h).symm⟩
    · cases h
  · rename_i hij
    exact .inr ⟨hij, h⟩

lemma txnOk_begin (rows : List β) : TxnOk rules keeps s { pending := rows } where
  writes _ _ h := by cases h
  read _ _ h := by cases h

section

variable (h : StoreOk rules keeps s)
include h

lemma StoreOk.setTxn (ht : TxnOk rules keeps s t)
    (hlocks : ∀ (j : Nat) u, i ≠ j → s.open_[j]? = some u →
      ∀ k, (t.writes k).isSome → u.writes k = none) :
    StoreOk rules keeps (s.setTxn i t) := by
  refine ⟨h.keys, fun j u hu => ?_, fun j j' u u' hu hu' hne k hk => ?_⟩
  · have hok : TxnOk rules keeps s u := by
      rcases getElem?_set_some hu with ⟨-, rfl⟩ | ⟨-, hold⟩
      · exact ht
      · exact h.txns j u hold
    exact ⟨hok.writes, hok.read⟩
  rcases getElem?_set_some hu with ⟨rfl, rfl⟩ | ⟨hij, hold⟩
  · rcases getElem?_set_some hu' with ⟨rfl, rfl⟩ | ⟨-, hold'⟩
    · exact absurd rfl hne
    · exact hlocks j' u' hne hold' k hk
  rcases getElem?_set_some hu' with ⟨rfl, rfl⟩ | ⟨-, hold'⟩
  · cases hnone : u'.writes k with
    | none => rfl
    | some x =>
      have hfree := hlocks j u hij hold k (by rw [hnone]; rfl)
      rw [hfree] at hk
      cases hk
  · exact h.locks j j' u u' hold hold' hne k hk

lemma StoreOk.setTxn_same {t' : Txn κ β} (hget : s.open_[i]? = some t)
    (ht : TxnOk rules keeps s t') (hsame : t'.writes = t.writes) :
    StoreOk rules keeps (s.setTxn i t') := by
  refine h.setTxn ht fun j u hij hu k hk => ?_
  rw [hsame] at hk
  exact h.locks i j t u hget hu hij k hk

lemma StoreOk.setTxn_empty : StoreOk rules keeps (s.setTxn i {}) := by
  refine h.setTxn (txnOk_begin []) fun _ _ _ _ _ hk => ?_
  cases hk

lemma StoreOk.begin (rows : List β) :
    StoreOk rules keeps { s with open_ := s.open_ ++ [{ pending := rows }] } := by
  have hcases : ∀ {j : Nat} {u}, (s.open_ ++ [{ pending := rows }])[j]? = some u →
      s.open_[j]? = some u ∨ u = { pending := rows } := by
    intro j u hu
    rw [List.getElem?_append] at hu
    split at hu
    · exact .inl hu
    · exact .inr (List.mem_singleton.mp (List.mem_of_getElem? hu))
  refine ⟨h.keys, fun j u hu => ?_, fun j j' u u' hu hu' hne k hk => ?_⟩
  · rcases hcases hu with hold | rfl
    · have hok := h.txns j u hold
      exact ⟨hok.writes, hok.read⟩
    · exact txnOk_begin rows
  rcases hcases hu with hold | rfl
  · rcases hcases hu' with hold' | rfl
    · exact h.locks j j' u u' hold hold' hne k hk
    · rfl
  · cases hk

lemma StoreOk.guard (hk : Enforces rules allowed keeps) (hget : s.open_[i]? = some t)
    (hcond : Undisturbed rules allowed s (.guard i)) (hstep : guardStep rules s i t = some s') :
      StoreOk rules keeps s' := by
  have ht := h.txns i t hget
  unfold guardStep at hstep
  split at hstep
  · rename_i x rest hpending hread
    simp only at hstep
    split at hstep
    · rename_i hguard
      cases hstep
      refine h.setTxn_same hget ⟨ht.writes, fun row n hrow => ?_⟩ rfl
      cases hrow
      refine ⟨x, rest, hpending, fun old hold hkey => ?_, Nat.le_refl _, fun _ => rfl⟩
      rw [hold] at hguard
      exact hk.guard old x hkey (hcond t hget x (by rw [hpending]; rfl) old hold) hguard
    · cases hstep
      refine h.setTxn_same hget ⟨ht.writes, fun row n hrow => ?_⟩ rfl
      rw [hread] at hrow
      cases hrow
    · cases hstep
      exact h.setTxn_empty
  · cases hstep

end

lemma Store.writes_of_not_locked {k : κ} {j : Nat} (h : ¬s.locked i k)
    (hij : i ≠ j) (hu : s.open_[j]? = some u) : u.writes k = none := by
  cases hnone : u.writes k with
  | none => rfl
  | some x =>
  refine absurd ?_ h
  refine List.any_eq_true.mpr ⟨j, List.mem_range.mpr (List.getElem?_eq_some_iff.mp hu).1, ?_⟩
  rw [hu, bind_some, hnone]
  simp [hij.symm]

/-- Committing a transaction leaves the rows of the others as they are, and what their guards have
read as long as the number of commits stays the same. -/
lemma TxnOk.commit {rest : List (Txn κ β)} (hu : TxnOk rules keeps s u)
    (hlocks : ∀ k, (u.writes k).isSome → t.writes k = none) :
    TxnOk rules keeps
      { committed := fun k => (t.writes k).or (s.committed k)
        commits := fun k => if (t.writes k).isSome then s.commits k + 1 else s.commits k
        open_ := rest } u := by
  refine ⟨fun k x hx => ?_, fun row n hread => ?_⟩
  · obtain ⟨hkey, hold⟩ := hu.writes k x hx
    have hnone := hlocks k (by rw [hx]; rfl)
    refine ⟨hkey, fun old hcommitted => hold old ?_⟩
    dsimp only at hcommitted
    rwa [hnone, none_or] at hcommitted
  obtain ⟨x, rows, hpending, hguard, hle, hvisible⟩ := hu.read row n hread
  refine ⟨x, rows, hpending, hguard, ?_, fun hcommits => ?_⟩
  · dsimp only
    split
    · omega
    · exact hle
  dsimp only at hcommits
  split at hcommits
  · omega
  rename_i hnone
  have hrow := hvisible hcommits
  rw [Store.visible] at hrow ⊢
  dsimp only
  rwa [not_isSome_iff_eq_none.mp hnone, none_or]

lemma StoreOk.commit (h : StoreOk rules keeps s) (hget : s.open_[i]? = some t)
    (hstep : commitStep s i t = some s') : StoreOk rules keeps s' := by
  have ht := h.txns i t hget
  unfold commitStep at hstep
  split at hstep
  · cases hstep
    refine ⟨fun k x hx => ?_, fun j u hu => ?_, h.setTxn_empty.locks⟩
    · dsimp only at hx
      cases hown : t.writes k with
      | none => exact h.keys k x (by rwa [hown, none_or] at hx)
      | some y =>
        rw [hown] at hx
        cases hx
        exact (ht.writes k x hown).1
    · rcases getElem?_set_some hu with ⟨-, rfl⟩ | ⟨hij, hold⟩
      · exact txnOk_begin []
      · exact (h.txns j u hold).commit fun k hk => h.locks j i u t hold hget (Ne.symm hij) k hk
  · cases hstep

lemma storeOk_empty : StoreOk rules keeps ({} : Store κ β) where
  keys _ _ h := by cases h
  txns _ _ h := by cases h
  locks _ _ _ _ h := by cases h

section Steps

variable [DecidableEq κ]

section

variable (hk : Enforces rules allowed keeps) (h : StoreOk rules keeps s)
include hk h

lemma StoreOk.write (hget : s.open_[i]? = some t) (hcond : Undisturbed rules allowed s (.write i))
    (hstep : writeStep rules s i t = some s') : StoreOk rules keeps s' := by
  have ht := h.txns i t hget
  unfold writeStep at hstep
  split at hstep
  · rename_i x rest read hpending hread
    split at hstep
    · cases hstep
    rename_i hfree
    cases hstep
    obtain ⟨y, rest', hpending', hreplaces, -, hvisible⟩ := ht.read read.1 read.2 hread
    rw [hpending] at hpending'
    cases hpending'
    have hcommits : s.commits (rules.key x) = read.2 := by
      refine hcond t hget x ?_ read hread
      rw [hpending]
      rfl
    have hrow := hvisible hcommits
    refine h.setTxn ⟨fun k y hy => ?_, fun row n hrow => ?_⟩ fun j u hij hu k hwritten => ?_
    · dsimp only at hy
      by_cases hkey : k = rules.key x
      · subst hkey
        rw [Function.update_self] at hy
        cases hy
        refine ⟨rfl, fun old hold => ?_⟩
        -- the guard has seen what is replaced: an own write or the committed row
        cases hown : t.writes (rules.key x) with
        | none =>
          rw [Store.visible, hown, hold] at hrow
          exact hreplaces old hrow.symm (h.keys _ old hold)
        | some z =>
        rw [Store.visible, hown] at hrow
        obtain ⟨hz, hzold⟩ := ht.writes _ z hown
        exact hk.trans old z x (hzold old hold) (hreplaces z hrow.symm hz)
      · rw [Function.update_of_ne hkey] at hy
        exact ht.writes k y hy
    · cases hrow
    by_cases hkey : k = rules.key x
    · subst hkey
      exact s.writes_of_not_locked hfree hij hu
    · dsimp only at hwritten
      rw [Function.update_of_ne hkey] at hwritten
      exact h.locks i j t u hget hu hij k hwritten
  · cases hstep

variable {l : Statement β}

lemma StoreOk.step
    (hcond : Undisturbed rules allowed s l) (hstep : ReadCommitted.step rules s l = some s') :
    StoreOk rules keeps s' := by
  cases l with
  | «begin» rows =>
    cases hstep
    exact h.begin rows
  | guard i =>
    obtain ⟨t, hget, hguard⟩ := bind_eq_some_iff.mp hstep
    exact h.guard hk hget hcond hguard
  | write i =>
    obtain ⟨t, hget, hwrite⟩ := bind_eq_some_iff.mp hstep
    exact h.write hk hget hcond hwrite
  | commit i =>
    obtain ⟨t, hget, hcommit⟩ := bind_eq_some_iff.mp hstep
    exact h.commit hget hcommit
  | abort i =>
    obtain ⟨t, hget, rfl⟩ := map_eq_some_iff.mp hstep
    exact h.setTxn_empty

lemma StoreOk.keeps_step (hstep : ReadCommitted.step rules s l = some s') {k : κ} {old : β}
    (hold : s.committed k = some old) : ∃ new, s'.committed k = some new ∧ keeps old new := by
  have hsame : s'.committed = s.committed → ∃ new, s'.committed k = some new ∧ keeps old new := by
    intro heq
    exact ⟨old, by rw [heq, hold], hk.refl old⟩
  cases l with
  | «begin» rows =>
    cases hstep
    exact hsame rfl
  | guard i =>
    obtain ⟨t, -, hguard⟩ := bind_eq_some_iff.mp hstep
    exact hsame (committed_guardStep hguard)
  | write i =>
    obtain ⟨t, -, hwrite⟩ := bind_eq_some_iff.mp hstep
    exact hsame (committed_writeStep hwrite)
  | commit i =>
    obtain ⟨t, hget, hcommit⟩ := bind_eq_some_iff.mp hstep
    rw [committed_commitStep hcommit]
    dsimp only
    cases hown : t.writes k with
    | none => exact ⟨old, by rw [none_or, hold], hk.refl old⟩
    | some x => exact ⟨x, rfl, ((h.txns i t hget).writes k x hown).2 old hold⟩
  | abort i =>
    obtain ⟨t, -, rfl⟩ := map_eq_some_iff.mp hstep
    exact hsame rfl

end

/-- **Guards hold along runs.** If no row is committed between the guard that reads it and the
write that replaces it, a stored row is only replaced along the relation of the guards. -/
theorem keeps_of_reach (hk : Enforces rules allowed keeps)
    (hs : (step rules).Reach (Undisturbed rules allowed) {} s)
    (hs' : (step rules).Reach (Undisturbed rules allowed) s s') {k : κ} {old : β}
    (hold : s.committed k = some old) : ∃ new, s'.committed k = some new ∧ keeps old new := by
  have hok : StoreOk rules keeps s :=
    hs.invariant storeOk_empty fun _ _ _ h hc hstep => h.step hk hc hstep
  have hboth : StoreOk rules keeps s' ∧ ∃ new, s'.committed k = some new ∧ keeps old new := by
    refine hs'.invariant (I := fun u => StoreOk rules keeps u ∧
      ∃ new, u.committed k = some new ∧ keeps old new) ⟨hok, old, hold, hk.refl old⟩ ?_
    intro u l u' ⟨hu, mid, hmid, hkeeps⟩ hc hstep
    obtain ⟨new, hnew, hkeeps'⟩ := hu.keeps_step hk hstep hmid
    exact ⟨hu.step hk hc hstep, new, hnew, hk.trans _ _ _ hkeeps hkeeps'⟩
  exact hboth.2

end Steps

end ReadCommitted

end Laso
