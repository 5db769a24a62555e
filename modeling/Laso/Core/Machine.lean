import Mathlib.Tactic.Common

/-!
# Labelled machines

A machine is a partial step function on states and labels. `Machine.Reach C s t` says that `t` is
reached from `s` by steps each of which meets the condition `C` when it is taken; with the
condition `Machine.always` these are all runs. Invariants of runs are proved by `Reach.invariant`
from one step, and concrete runs are computed with `Machine.exec`.
-/

namespace Laso

def Machine (σ Λ : Type) : Type := σ → Λ → Option σ

namespace Machine

variable {σ Λ : Type} {M : Machine σ Λ} {C D : σ → Λ → Prop} {s t u : σ}

def always : σ → Λ → Prop := fun _ _ => True

/-- States reached by steps that meet a condition. -/
inductive Reach (M : Machine σ Λ) (C : σ → Λ → Prop) (s : σ) : σ → Prop where
  | refl : Reach M C s s
  | step {t u : σ} {l : Λ} : Reach M C s t → C t l → M t l = some u → Reach M C s u

/-- **Invariant rule.** What holds at the start and is kept by every step holds along the run. -/
lemma Reach.invariant {I : σ → Prop} (h : Reach M C s t) (hs : I s)
    (hstep : ∀ t l u, I t → C t l → M t l = some u → I u) : I t := by
  induction h with
  | refl => exact hs
  | step _ hc hu ih => exact hstep _ _ _ ih hc hu

lemma Reach.trans (h : Reach M C s t) (h' : Reach M C t u) : Reach M C s u := by
  induction h' with
  | refl => exact h
  | step _ hc hu ih => exact ih.step hc hu

lemma Reach.mono (h : Reach M C s t) (hCD : ∀ t l, C t l → D t l) : Reach M D s t := by
  induction h with
  | refl => exact .refl
  | step _ hc hu ih => exact ih.step (hCD _ _ hc) hu

/-- Run a list of labels, checking the condition at each step. -/
def exec (M : Machine σ Λ) (C : σ → Λ → Prop) [∀ s l, Decidable (C s l)] : σ → List Λ → Option σ
  | s, [] => some s
  | s, l :: ls => if C s l then (M s l).bind fun s' => exec M C s' ls else none

lemma reach_of_exec [∀ s l, Decidable (C s l)] {ls : List Λ} (h : exec M C s ls = some t) :
    Reach M C s t := by
  induction ls generalizing s with
  | nil =>
    simp only [exec, Option.some.injEq] at h
    exact h ▸ .refl
  | cons l ls ih =>
    simp only [exec] at h
    split at h
    · rename_i hc
      obtain ⟨s', hs', hrest⟩ := Option.bind_eq_some_iff.mp h
      exact (Reach.refl.step hc hs').trans (ih hrest)
    · exact absurd h (by simp)

lemma exists_reach [∀ s l, Decidable (C s l)] {β : Type} {f : σ → β} {v : β} (ls : List Λ)
    (h : (exec M C s ls).map f = some v) : ∃ t, Reach M C s t ∧ f t = v := by
  obtain ⟨t, ht, hv⟩ := Option.map_eq_some_iff.mp h
  exact ⟨t, reach_of_exec ht, hv⟩

lemma exists_reach_reach [∀ s l, Decidable (C s l)] [∀ s l, Decidable (D s l)] {β γ : Type}
    {f : σ → β} {g : σ → γ} {v : β} {w : γ} (ls ls' : List Λ)
    (h : (exec M C s ls).bind (fun t => (exec M D t ls').map fun u => (f t, g u)) = some (v, w)) :
    ∃ t u, Reach M C s t ∧ Reach M D t u ∧ f t = v ∧ g u = w := by
  obtain ⟨t, ht, hrest⟩ := Option.bind_eq_some_iff.mp h
  obtain ⟨u, hu, hv⟩ := Option.map_eq_some_iff.mp hrest
  exact ⟨t, u, reach_of_exec ht, reach_of_exec hu, congrArg Prod.fst hv, congrArg Prod.snd hv⟩

instance : ∀ (s : σ) (l : Λ), Decidable (always s l) := fun _ _ => isTrue trivial

end Machine

end Laso
