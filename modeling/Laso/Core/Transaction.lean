import Laso.Core.Types
import Mathlib.Data.List.Range
import Mathlib.Data.List.Pairwise

/-!
# Transactions and numbered rows

A database transaction is a computation in `Except Error` that returns the new tables: when it
fails there are none, so it is rolled back. Its checks are `require`d one after another. The rows
of a session carry the numbers 1, 2, … in order.
-/

namespace Laso

open List

/-- A check of a transaction: `e` rolls the whole of it back. -/
def require (c : Prop) [Decidable c] (e : Error) : Except Error Unit :=
  if c then .ok () else .error e

section Transactions

variable {ε α β : Type} {c : Prop} [Decidable c] {e : Error} {u : Unit}

@[simp] lemma require_eq_ok : require c e = .ok u ↔ c := by
  unfold require
  split <;> simp_all

/-- A transaction that succeeded passed its checks, and these are the rows it computed. -/
lemma bind_eq_ok {x : Except ε α} {f : α → Except ε β} {b : β} :
    (x >>= f) = .ok b ↔ ∃ a, x = .ok a ∧ f a = .ok b := by
  cases x with
  | ok | error => simp [bind, Except.bind]

variable {f : α → Except Error β}

lemma ok_bind {a : α} : ((.ok a : Except Error α) >>= f) = f a := rfl

lemma pure_eq_ok {a b : α} : (pure a : Except ε α) = .ok b ↔ a = b := by
  simp [pure, Except.pure]

lemma require_ne_error {e' : Error} (h : e ≠ e') : require c e ≠ .error e' := by
  unfold require
  split
  · nofun
  · exact fun he => h (Except.error.inj he)

/-- No statement fails with `e`, so the transaction does not. -/
lemma bind_ne_error {x : Except Error α} (hx : x ≠ .error e)
    (hf : ∀ a, x = .ok a → f a ≠ .error e) : (x >>= f) ≠ .error e := by
  cases x with
  | ok a => exact hf a rfl
  | error e' => exact fun he => hx (congrArg Except.error (Except.error.inj he))

/-- A statement repeated for every row succeeded for each of them. -/
lemma foldlM_mem {f : β → α → Except Error β} {l : List α} {a b : β}
    (h : l.foldlM f a = .ok b) : ∀ x ∈ l, ∃ v w, f v x = .ok w := by
  induction l generalizing a with
  | nil => exact nofun
  | cons y rest ih =>
    obtain ⟨c, hc, h⟩ := bind_eq_ok.mp h
    intro x hx
    rcases mem_cons.mp hx with rfl | hx
    · exact ⟨a, c, hc⟩
    · exact ih h x hx

end Transactions

/-- The rows carry the numbers 1, 2, … in order. -/
def Consecutive {α : Type} (number : α → Nat) (rows : List α) : Prop :=
  rows.map number = List.range' 1 rows.length

namespace Consecutive

variable {α : Type} {number : α → Nat} {rows new : List α}

lemma nil : Consecutive number [] := rfl

section

variable (h : Consecutive number rows)
include h

/-- Rows with the following numbers are appended. -/
lemma append (hnew : new.map number = List.range' (rows.length + 1) new.length) :
    Consecutive number (rows ++ new) := by
  unfold Consecutive at h ⊢
  rw [map_append, List.length_append, h, hnew, Nat.add_comm rows.length 1]
  exact range'_append_1

/-- Rows are replaced with rows of the same number. -/
lemma map {f : α → α} (hf : ∀ a ∈ rows, number (f a) = number a) :
    Consecutive number (rows.map f) := by
  unfold Consecutive at h ⊢
  rw [List.map_map, length_map, ← h]
  exact map_congr_left hf

lemma mem_numbers {n : Nat} : n ∈ rows.map number ↔ 1 ≤ n ∧ n ≤ rows.length := by
  rw [h, mem_range'_1]
  omega

lemma bounds {a : α} (ha : a ∈ rows) : 1 ≤ number a ∧ number a ≤ rows.length :=
  h.mem_numbers.mp (mem_map_of_mem ha)

lemma pairwise : rows.Pairwise fun a b => number a < number b := by
  have hsorted : (rows.map number).Pairwise (· < ·) := by
    rw [h]
    exact pairwise_lt_range'
  exact pairwise_map.mp hsorted

end

lemma of_append (h : Consecutive number (rows ++ new)) : Consecutive number rows := by
  unfold Consecutive at h ⊢
  rw [map_append, List.length_append, ← range'_append_1] at h
  exact (append_inj h (by simp)).1

lemma number_eq (h : Consecutive number rows) {i : Nat} {a : α} (ha : rows[i]? = some a) :
    number a = i + 1 := by
  have hnumber : (rows.map number)[i]? = some (number a) := by rw [getElem?_map, ha]; rfl
  obtain ⟨hi, -⟩ := List.getElem?_eq_some_iff.mp ha
  rw [h, getElem?_range' hi] at hnumber
  have hvalue := Option.some.inj hnumber
  omega

/-- Rows of one numbering that all stand in another are its first ones. -/
lemma isPrefix (h : Consecutive number rows) {pre : List α} (hpre : Consecutive number pre)
    (hmem : ∀ a ∈ pre, a ∈ rows) : pre <+: rows := by
  rw [prefix_iff_getElem?]
  intro i hi
  obtain ⟨j, hj⟩ := getElem?_of_mem (hmem pre[i] (getElem_mem hi))
  have hnumber := hpre.number_eq (getElem?_eq_getElem hi)
  have hplace := h.number_eq hj
  have hij : j = i := by omega
  exact hij ▸ hj

end Consecutive

end Laso
