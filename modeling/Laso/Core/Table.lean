import Mathlib.Data.List.Basic
import Mathlib.Data.List.Dedup
import Mathlib.Data.List.Induction
import Mathlib.Order.Nat
import Mathlib.Tactic.Common

/-!
# Keyed tables

A table is a sequence of rows with distinct keys. It is the shape of every durable collection of
the system (an upsert keeps the position of the row it replaces, a new row goes to the end, a
listing returns rows in insertion order) and of the finite maps inside a record.

* `Table.get`, `Table.put`: look a row up by key, insert or replace one.
* `Table.mem_rows_iff`: since keys are distinct, a row is listed exactly when it is the row stored
  under its key. This is what connects a scan of the table with a lookup.
-/

namespace Laso

open List

/-- Values that carry the key they are stored under. -/
class Keyed (α : Type) where
  /-- The key of a value. -/
  key : α → String

open Keyed

/-- Rows in insertion order, no two with the same key. -/
structure Table (α : Type) [Keyed α] where
  rows : List α
  nodup : (rows.map key).Nodup

namespace Table

variable {α : Type} [Keyed α]

def empty : Table α := ⟨[], nodup_nil⟩

instance : Inhabited (Table α) := ⟨empty⟩

/-- The row with a key. -/
def get (t : Table α) (k : String) : Option α := t.rows.find? (fun a => decide (key a = k))

/-- Replace the row with the key of `a`, or append `a` when there is none. -/
def putRows (a : α) : List α → List α
  | [] => [a]
  | b :: rest => if key b = key a then a :: rest else b :: putRows a rest

variable {k : String}

variable {t : Table α} {a : α} {rows : List α}

lemma mem_keys_putRows :
    k ∈ (putRows a rows).map key ↔ k = key a ∨ k ∈ rows.map key := by
  induction rows with
  | nil => simp [putRows]
  | cons b rest ih =>
    unfold putRows
    split
    · rename_i h
      simp [h]
    · simp only [map_cons, mem_cons, ih]
      tauto

lemma nodup_putRows (h : (rows.map key).Nodup) :
    ((putRows a rows).map key).Nodup := by
  induction rows with
  | nil => simp [putRows]
  | cons b rest ih =>
    rw [map_cons, nodup_cons] at h
    unfold putRows
    split
    · rename_i hk
      rw [map_cons, nodup_cons, ← hk]
      exact h
    rename_i hk
    rw [map_cons, nodup_cons, mem_keys_putRows]
    exact ⟨fun hm => hm.elim hk h.1, ih h.2⟩

def put (t : Table α) (a : α) : Table α := ⟨putRows a t.rows, nodup_putRows t.nodup⟩

def erase (t : Table α) (k : String) : Table α :=
  ⟨t.rows.filter (fun a => decide (key a ≠ k)),
    t.nodup.sublist (List.Sublist.map key filter_sublist)⟩

@[simp] lemma get_empty (k : String) : (empty : Table α).get k = none := rfl

lemma find?_putRows_self (a : α) (rows : List α) :
    (putRows a rows).find? (fun b => decide (key b = key a)) = some a := by
  induction rows with
  | nil => simp [putRows]
  | cons b rest ih =>
    unfold putRows
    split
    · simp
    · rename_i h
      simp [h, ih]

lemma find?_putRows_ne (h : key a ≠ k) (rows : List α) :
    (putRows a rows).find? (fun b => decide (key b = k)) =
      rows.find? (fun b => decide (key b = k)) := by
  induction rows with
  | nil => simp [putRows, h]
  | cons b rest ih =>
    unfold putRows
    split
    · rename_i hb
      simp [hb, h]
    · simp [find?_cons, ih]

@[simp] lemma get_put_self (t : Table α) (a : α) : (t.put a).get (key a) = some a :=
  find?_putRows_self a t.rows

lemma get_put_ne (h : key a ≠ k) :
    (t.put a).get k = t.get k :=
  find?_putRows_ne h t.rows

lemma get_put (t : Table α) (a : α) (k : String) :
    (t.put a).get k = if key a = k then some a else t.get k := by
  split
  · rename_i h
    rw [← h, get_put_self]
  · rename_i h
    rw [get_put_ne h]

lemma get_erase (t : Table α) (k d : String) :
    (t.erase d).get k = if k = d then none else t.get k := by
  simp only [get, erase, find?_filter]
  split
  · rename_i h
    simp [h]
  rename_i h
  congr
  funext a
  by_cases ha : key a = k <;> simp [ha, h]

lemma key_of_get (h : t.get k = some a) : key a = k := by
  have := find?_some h
  simpa using this

lemma mem_of_get (h : t.get k = some a) : a ∈ t.rows := mem_of_find?_eq_some h

/-- **A scan and a lookup agree.** -/
lemma mem_rows_iff : a ∈ t.rows ↔ t.get (key a) = some a := by
  refine ⟨fun h => ?_, mem_of_get⟩
  obtain ⟨rows, hnd⟩ := t
  simp only [get] at h ⊢
  induction rows with
  | nil => simp at h
  | cons b rest ih =>
    rw [map_cons, nodup_cons] at hnd
    rcases mem_cons.mp h with rfl | hr
    · simp
    · have hb : key b ≠ key a := fun he => hnd.1 (he ▸ mem_map_of_mem hr)
      simp [hb, ih hnd.2 hr]

lemma mem_rows_put {a b : α} :
    b ∈ (t.put a).rows ↔ b = a ∨ (b ∈ t.rows ∧ key b ≠ key a) := by
  rw [mem_rows_iff, get_put]
  split
  · rename_i h
    constructor
    · intro hb
      exact .inl (Option.some.inj hb).symm
    rintro (rfl | ⟨-, hne⟩)
    · rfl
    · exact absurd h.symm hne
  rename_i h
  rw [← mem_rows_iff]
  constructor
  · intro hb
    exact .inr ⟨hb, fun he => h he.symm⟩
  rintro (rfl | ⟨hb, -⟩)
  · exact absurd rfl h
  · exact hb

lemma rows_put_of_get {a b : α} (h : t.get (key a) = some b) :
    (t.put a).rows = t.rows.map fun c => if key c = key a then a else c := by
  obtain ⟨rows, hnd⟩ := t
  simp only [get] at h
  simp only [put]
  induction rows with
  | nil => simp at h
  | cons c rest ih =>
    rw [map_cons, nodup_cons] at hnd
    by_cases hc : key c = key a
    · have hrest : rest.map (fun d => if key d = key a then a else d) = rest := by
        refine (map_congr_left fun d hd => if_neg fun he => ?_).trans (map_id _)
        exact hnd.1 (hc.trans he.symm ▸ mem_map_of_mem hd)
      simp [putRows, hc, hrest]
    · simp only [find?_cons, hc, decide_false] at h
      simp [putRows, hc, ih hnd.2 h]

/-- To store what is stored changes nothing. -/
lemma put_of_get (h : t.get (key a) = some a) : t.put a = t := by
  have hrows : (t.put a).rows = t.rows := by
    rw [rows_put_of_get h]
    refine (map_congr_left fun c hc => ?_).trans (map_id _)
    split
    · rename_i hkey
      have hget := mem_rows_iff.mp hc
      rw [hkey, h] at hget
      exact Option.some.inj hget
    · rfl
  exact (mk.injEq ..).mpr hrows

lemma rows_put_append {front rest : List α} (h : t.rows = front ++ rest)
    (ha : key a ∉ front.map key) : (t.put a).rows = front ++ putRows a rest := by
  show putRows a t.rows = _
  rw [h]
  clear h
  induction front with
  | nil => rfl
  | cons b front ih =>
    rw [map_cons, mem_cons, not_or] at ha
    rw [cons_append, putRows, if_neg (Ne.symm ha.1), ih ha.2, cons_append]

/-- A new row is the last one. -/
lemma rows_put_of_none (h : t.get (key a) = none) : (t.put a).rows = t.rows ++ [a] := by
  obtain ⟨rows, hnd⟩ := t
  simp only [get] at h
  simp only [put]
  induction rows with
  | nil => rfl
  | cons c rest ih =>
    rw [map_cons, nodup_cons] at hnd
    by_cases hc : key c = key a
    · simp [hc] at h
    · simp only [find?_cons, hc, decide_false] at h
      simp [putRows, hc, ih hnd.2 h]

lemma rows_put_of_keys (h : ∀ b ∈ t.rows, key b = key a) : (t.put a).rows = [a] := by
  obtain ⟨rows, hnd⟩ := t
  cases rows with
  | nil => rfl
  | cons b rest =>
  have hrest : rest = [] := by
    rw [eq_nil_iff_forall_not_mem]
    intro c hc
    have hc' : key c = key a := h c (mem_cons_of_mem _ hc)
    rw [map_cons, nodup_cons] at hnd
    exact hnd.1 (mem_map.mpr ⟨c, hc, hc'.trans (h b mem_cons_self).symm⟩)
  subst hrest
  simp [put, putRows, (h b mem_cons_self)]

lemma get_foldl_put (t : Table α) (rows : List α) (k : String) :
    (rows.foldl put t).get k = (rows.filter fun a => key a = k).getLast?.or (t.get k) := by
  induction rows using List.reverseRecOn with
  | nil => rfl
  | append_singleton rows a ih =>
    rw [foldl_append, foldl_cons, foldl_nil, get_put, ih, filter_append]
    by_cases h : key a = k <;> simp [h]

lemma mem_rows_foldl_put (h : a ∈ (rows.foldl put t).rows) : a ∈ rows ∨ a ∈ t.rows := by
  induction rows using List.reverseRecOn with
  | nil => exact .inr h
  | append_singleton rows b ih =>
    rw [foldl_append, foldl_cons, foldl_nil] at h
    rcases mem_rows_put.mp h with rfl | ⟨h, -⟩
    · exact .inl (mem_append_right _ (mem_singleton.mpr rfl))
    · exact (ih h).imp_left (mem_append_left _)

end Table

variable {α : Type} (key : α → String) (rows : List α)

/-- A row takes the place of an earlier one with its key. -/
def upsert (a : α) : List α :=
  (rows.filter fun b => key b ≠ key a) ++ [a]

lemma filter_foldl_upsert (k : String) : ((rows.foldl (upsert key) []).filter fun a => key a = k) =
      ((rows.filter fun a => key a = k).getLast?).toList := by
  induction rows using List.reverseRecOn with
  | nil => rfl
  | append_singleton rows a ih =>
    rw [foldl_append, foldl_cons, foldl_nil, upsert, filter_append, filter_filter, filter_append]
    by_cases h : key a = k
    · simp [h]
    have hkeep : ∀ b ∈ rows.foldl (upsert key) [],
        (decide (key b = k) && decide (key b ≠ key a)) = decide (key b = k) := by
      intro b _
      by_cases hb : key b = k
      · simp [hb, Ne.symm h]
      · simp [hb]
    rw [filter_congr hkeep, ih]
    simp [h]

/-- A finite map as a table of pairs. -/
instance {β : Type} : Keyed (String × β) := ⟨Prod.fst⟩

end Laso
