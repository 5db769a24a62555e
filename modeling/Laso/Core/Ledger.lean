import Laso.Core.Table

/-!
# Numbered writes and copies of rows

A **ledger** is a table that numbers its writes: a row is stored with the number of the write that
put it there. A reader keeps a copy of a row and cannot see what happens to the table afterwards,
but the numbers tell whether the row it copied is still the one stored: `Copy R l a` says that `a`
was once the row stored under its key and that, as long as the stored row has the number of `a`,
the two are related by `R`. Copies survive every later write (`Copy.writeAll`), so what a writer
relies on is whether the row it is about to replace has the number of its copy.

The relation `R` is equality for tables that only change by numbered writes; it is weaker for
tables whose rows can also be changed in place (`Copy.modify`).
-/

namespace Laso

/-- Rows that carry the number of their write. -/
class Numbered (α : Type) extends Keyed α where
  number : α → Nat
  stamp : Nat → α → α
  key_stamp : ∀ n a, key (stamp n a) = key a
  number_stamp : ∀ n a, number (stamp n a) = n

structure Ledger (α : Type) [Numbered α] where
  rows : Table α
  writes : Nat

namespace Ledger

open Keyed Numbered

variable {α : Type} [Numbered α] {l : Ledger α} {a b x : α} {as : List α} {k : String}
  {R : α → α → Prop}

def write (l : Ledger α) (a : α) : Ledger α := ⟨l.rows.put (stamp (l.writes + 1) a), l.writes + 1⟩

def writeAll (l : Ledger α) (as : List α) : Ledger α := as.foldl write l

@[simp] lemma write_writes (l : Ledger α) (a : α) : (l.write a).writes = l.writes + 1 := rfl

@[simp] lemma writeAll_cons (l : Ledger α) (a : α) (as : List α) :
    l.writeAll (a :: as) = (l.write a).writeAll as := rfl

lemma get_write (l : Ledger α) (a : α) (k : String) :
    (l.write a).rows.get k = if key a = k then some (stamp (l.writes + 1) a) else l.rows.get k := by
  rw [write, Table.get_put, key_stamp]

/-- **What a row can be after some writes**: the old one, or one of those written with a new
number. -/
lemma get_writeAll (h : (l.writeAll as).rows.get k = some x) :
    l.rows.get k = some x ∨ ∃ a ∈ as, x = stamp (number x) a ∧ l.writes < number x := by
  induction as generalizing l with
  | nil => exact .inl h
  | cons a as ih =>
    rcases ih h with hold | ⟨b, hb, hx, hn⟩
    · rw [get_write] at hold
      split at hold
      · cases hold
        exact .inr ⟨a, List.mem_cons_self, by rw [number_stamp], by rw [number_stamp]; omega⟩
      · exact .inl hold
    · exact .inr ⟨b, List.mem_cons_of_mem a hb, hx, by rw [write_writes] at hn; omega⟩

lemma get_writeAll_of_ne (h : ∀ a ∈ as, key a ≠ k) : (l.writeAll as).rows.get k = l.rows.get k := by
  induction as generalizing l with
  | nil => rfl
  | cons a as ih =>
    rw [writeAll_cons, ih fun b hb => h b (List.mem_cons_of_mem a hb), get_write,
      if_neg (h a List.mem_cons_self)]

/-! ## Ledgers whose rows have numbers in range -/

/-- Every row carries the number of a write that has happened. -/
def Sound (l : Ledger α) : Prop :=
  ∀ k x, l.rows.get k = some x → 1 ≤ number x ∧ number x ≤ l.writes

lemma Sound.write (h : l.Sound) (a : α) : (l.write a).Sound := by
  intro k x hx
  rw [get_write] at hx
  split at hx
  · cases hx
    rw [number_stamp]
    exact ⟨by omega, le_rfl⟩
  · exact ⟨(h k x hx).1, (h k x hx).2.trans (Nat.le_succ _)⟩

lemma Sound.writeAll (h : l.Sound) (as : List α) : (l.writeAll as).Sound := by
  induction as generalizing l with
  | nil => exact h
  | cons a as ih => exact ih (h.write a)

/-! ## Copies -/

/-- `a` was stored under its key; the row stored there now is related to `a` if it still has the
same number. -/
structure Copy (R : α → α → Prop) (l : Ledger α) (a : α) : Prop where
  le : number a ≤ l.writes
  stored : ∃ x, l.rows.get (key a) = some x ∧ (number x = number a → R x a)

lemma Copy.write (h : Copy R l a) (b : α) : Copy R (l.write b) a := by
  refine ⟨h.le.trans (Nat.le_succ _), ?_⟩
  rw [get_write]
  split
  · -- the new row has a number that no copy has yet
    refine ⟨_, rfl, fun hn => ?_⟩
    have hle := h.le
    rw [number_stamp] at hn
    omega
  · exact h.stored

/-- **Copies survive writes.** -/
lemma Copy.writeAll (h : Copy R l a) (as : List α) : Copy R (l.writeAll as) a := by
  induction as generalizing l with
  | nil => exact h
  | cons b as ih => exact ih (h.write b)

lemma Copy.read (hl : l.Sound) (h : l.rows.get k = some a) (hR : R a a) : Copy R l a where
  le := (hl k a h).2
  stored := ⟨a, Table.key_of_get h ▸ h, fun _ => hR⟩

lemma Copy.written (l : Ledger α) (a : α) (hR : ∀ x, R x x) :
    Copy R (l.write a) (stamp (l.writes + 1) a) where
  le := by rw [number_stamp, write_writes]
  stored := ⟨stamp (l.writes + 1) a, by rw [get_write, key_stamp, if_pos rfl], fun _ => hR _⟩

lemma Copy.modify (h : Copy R l a) {y : α} (hx : l.rows.get (key x) = some x)
    (hkey : key y = key x) (hn : number y = number x) (hR : R x a → R y a) :
    Copy R ⟨l.rows.put y, l.writes⟩ a := by
  refine ⟨h.le, ?_⟩
  obtain ⟨z, hz, hza⟩ := h.stored
  rw [Table.get_put]
  split
  · rename_i hk
    have hzx : z = x := by
      rw [← hk, hkey] at hz
      exact Option.mem_unique hz hx
    subst hzx
    exact ⟨y, rfl, fun hya => hR (hza (hn.symm.trans hya))⟩
  · exact ⟨z, hz, hza⟩

lemma Sound.modify (h : l.Sound) {y : α} (hx : l.rows.get (key x) = some x)
    (hn : number y = number x) : Sound ⟨l.rows.put y, l.writes⟩ := by
  intro k z hz
  have hz' : (l.rows.put y).get k = some z := hz
  rw [Table.get_put] at hz'
  split at hz'
  · cases hz'
    rw [hn]
    exact h _ x hx
  · exact h k z hz'

end Ledger

end Laso
