import Mathlib.Control.Basic
import Mathlib.Tactic.Basic
import Mathlib.Tactic.Common

/-!
# Programs that talk to a shared world

Code that reads and writes shared state through calls is a **program**: a tree whose inner nodes
are requests, each followed by a continuation for every answer, and whose leaves are results. A
program fixes the calls and their order and says nothing about what a call does; that is left to
whoever runs the program, call by call among other programs or as one uninterrupted section.

* `Prog`: programs over a signature of requests, with sequencing and `Prog.expand`, which replaces
  each request of one signature by a program of another.
* `Code`: programs that may also throw and that own a mutable variable. A thrown exception leaves
  the variable as it was at the throw, the way a reference argument behaves in C++.
* `Watch`: a view of the calls of a program as a transition relation on some observation state,
  with the calls that are permitted in each state. `Watch.Sat` says that a program makes permitted
  calls only and ends in a given postcondition, `Watch.wp` is the same for `Code`, and the lemmas
  about it are its proof rules, one for each way of building code. `Watch.Runs` lists the results
  that are possible, and `Code.Only` says that code makes calls of one kind only.
* `Prog.Makes`: the histories of a program, the calls it can have made with the answers it got;
  `Prog.Returns`: those after which it has returned.
  `Throughout` states a property of each call of a history in terms of what is remembered of the
  calls before, and `Throughout.of_sat` carries a law proved with the rules of `Watch` over to
  histories.
-/

namespace Laso

open Option

/-- Requests together with the type of the answer to each. -/
structure Sig where
  Req : Type
  Resp : Req → Type

/-- Programs that issue requests of `S` and return an `α`. -/
inductive Prog (S : Sig) (α : Type) : Type where
  | ret (a : α) : Prog S α
  | call (q : S.Req) (k : S.Resp q → Prog S α) : Prog S α

namespace Prog

variable {S R : Sig} {α β γ σ : Type}

def bind : Prog S α → (α → Prog S β) → Prog S β
  | ret a, f => f a
  | call q k, f => call q fun r => (k r).bind f

instance : Monad (Prog S) where
  pure := ret
  bind := bind

def req (q : S.Req) : Prog S (S.Resp q) := call q ret

@[simp] lemma ret_bind (a : α) (f : α → Prog S β) : (ret a).bind f = f a := rfl

@[simp] lemma call_bind (q : S.Req) (k : S.Resp q → Prog S α) (f : α → Prog S β) :
    (call q k).bind f = call q fun r => (k r).bind f := rfl

/-- The program can have made the calls `es`, in this order and with these answers. -/
inductive Makes : Prog S α → List ((q : S.Req) × S.Resp q) → Prop where
  | nil (p : Prog S α) : Makes p []
  | cons {q : S.Req} {k : S.Resp q → Prog S α} {r : S.Resp q}
      {es : List ((q : S.Req) × S.Resp q)} (h : Makes (k r) es) : Makes (call q k) (⟨q, r⟩ :: es)

/-- The program can have made the calls `es` and then returned `a`. -/
inductive Returns : Prog S α → List ((q : S.Req) × S.Resp q) → α → Prop where
  | ret (a : α) : Returns (ret a) [] a
  | call {q : S.Req} {k : S.Resp q → Prog S α} {r : S.Resp q}
      {es : List ((q : S.Req) × S.Resp q)} {a : α} (h : Returns (k r) es a) :
      Returns (call q k) (⟨q, r⟩ :: es) a

variable {es : List ((q : S.Req) × S.Resp q)}

/-- A program whose calls are all answered returns. -/
lemma exists_returns (answer : (q : S.Req) → S.Resp q) (p : Prog S α) :
    ∃ es a, p.Returns es a ∧ ∀ e ∈ es, e.2 = answer e.1 := by
  induction p with
  | ret a => exact ⟨[], a, .ret a, nofun⟩
  | call q k ih =>
    obtain ⟨es, a, hes, hanswers⟩ := ih (answer q)
    exact ⟨_, a, .call hes, List.forall_mem_cons.mpr ⟨rfl, hanswers⟩⟩

lemma Returns.makes {p : Prog S α} {a : α} (h : p.Returns es a) : p.Makes es := by
  induction h with
  | ret a => exact .nil _
  | call _ ih => exact .cons ih

/-- The first `n` calls of a program on a state: `h` answers one request, or refuses it. -/
def trace (h : (q : S.Req) → σ → Option (S.Resp q × σ)) :
    Nat → Prog S α → σ → List ((q : S.Req) × S.Resp q)
  | 0, _, _ => []
  | _ + 1, ret _, _ => []
  | n + 1, call q k, s =>
    match h q s with
    | none => []
    | some (r, s') => ⟨q, r⟩ :: trace h n (k r) s'

lemma makes_trace (h : (q : S.Req) → σ → Option (S.Resp q × σ)) (n : Nat) (p : Prog S α) (s : σ) :
    p.Makes (p.trace h n s) := by
  induction n generalizing p s with
  | zero => exact .nil p
  | succ n ih =>
    cases p with
    | ret a => exact .nil _
    | call q k =>
    unfold trace
    split
    · exact .nil _
    · exact .cons (ih _ _)

/-- Run a program for at most `n` calls and return its history with its result. -/
def history (h : (q : S.Req) → σ → Option (S.Resp q × σ)) :
    Nat → Prog S α → σ → Option (List ((q : S.Req) × S.Resp q) × α)
  | _, ret a, _ => some ([], a)
  | 0, call _ _, _ => none
  | n + 1, call q k, s => (h q s).bind fun x =>
    (history h n (k x.1) x.2).map fun y => (⟨q, x.1⟩ :: y.1, y.2)

lemma returns_of_history {h : (q : S.Req) → σ → Option (S.Resp q × σ)} {n : Nat} {p : Prog S α}
    {s : σ} {a : α} (hrun : p.history h n s = some (es, a)) :
    p.Returns es a := by
  induction n generalizing p s es with
  | zero =>
    cases p with
    | ret b =>
      simp only [history, some.injEq, Prod.mk.injEq] at hrun
      obtain ⟨rfl, rfl⟩ := hrun
      exact .ret b
    | call q k => simp [history] at hrun
  | succ n ih =>
    cases p with
    | ret b =>
      simp only [history, some.injEq, Prod.mk.injEq] at hrun
      obtain ⟨rfl, rfl⟩ := hrun
      exact .ret b
    | call q k =>
      simp only [history, bind_eq_some_iff, map_eq_some_iff, Prod.mk.injEq] at hrun
      obtain ⟨x, -, ⟨es', b⟩, hrest, rfl, rfl⟩ := hrun
      exact .call (ih hrest)

def expand (f : (q : R.Req) → Prog S (R.Resp q)) : Prog R α → Prog S α
  | ret a => ret a
  | call q k => (f q).bind fun r => (k r).expand f

/-- The first calls of a program, at most `n`. -/
def take : Nat → Prog S α → Prog S Unit
  | 0, _ => ret ()
  | _ + 1, ret _ => ret ()
  | n + 1, call q k => call q fun r => (k r).take n

/-- Run a program without interruption on a state: `h` answers one request, or refuses it. -/
def run (h : (q : S.Req) → σ → Option (S.Resp q × σ)) : Prog S α → σ → Option (α × σ)
  | ret a, s => some (a, s)
  | call q k, s => (h q s).bind fun x => (k x.1).run h x.2

end Prog

/-- Programs with exceptions of type `ε` and a mutable variable of type `σ`. -/
def Code (S : Sig) (ε σ α : Type) : Type := σ → Prog S (Except ε α × σ)

namespace Code

variable {S : Sig} {ε σ τ α β : Type}

instance : Monad (Code S ε σ) where
  pure a := fun s => .ret (.ok a, s)
  bind x f := fun s => (x s).bind fun
    | (.ok a, s') => f a s'
    | (.error e, s') => .ret (.error e, s')

def raise (e : ε) : Code S ε σ α := fun s => .ret (.error e, s)

variable (x : Code S ε σ α)

/-- Run `x`; if it throws, continue with the handler from the variable as `x` left it. -/
def handle (h : ε → Code S ε σ α) : Code S ε σ α := fun s => (x s).bind fun
  | (.ok a, s') => .ret (.ok a, s')
  | (.error e, s') => h e s'

instance : MonadExceptOf ε (Code S ε σ) where
  throw := raise
  tryCatch := handle

instance : MonadStateOf σ (Code S ε σ) where
  get := fun s => .ret (.ok s, s)
  set s := fun _ => .ret (.ok (), s)
  modifyGet f := fun s => .ret (.ok (f s).1, (f s).2)

def call (q : S.Req) : Code S ε σ (S.Resp q) := fun s => .call q fun r => .ret (.ok r, s)

def ofExcept : Except ε α → Code S ε σ α
  | .ok a => pure a
  | .error e => raise e

/-- A local variable of another type, from an initial value: the code's result comes with the
variable's last value. -/
def localVar (s : σ) (x : Code S ε σ α) : Code S ε τ (α × σ) := fun t => (x s).bind fun
  | (.ok a, s') => .ret (.ok (a, s'), t)
  | (.error e, _) => .ret (.error e, t)

def capture : Code S ε σ (Except ε α) := fun s => (x s).bind fun
  | (res, s') => .ret (.ok res, s')

/-- Run code as a program, from an initial value of its variable. -/
def prog (s : σ) : Prog S (Except ε α × σ) := x s

end Code

/-- Every call the program can make satisfies `A`. -/
def Prog.Only {S : Sig} {α : Type} (A : S.Req → Prop) : Prog S α → Prop
  | .ret _ => True
  | .call q k => A q ∧ ∀ r, (k r).Only A

lemma Prog.Only.bind {S : Sig} {α β : Type} {A : S.Req → Prop} {p : Prog S α} {f : α → Prog S β}
    (hp : p.Only A) (hf : ∀ a, (f a).Only A) : (p.bind f).Only A := by
  induction p with
  | ret a => exact hf a
  | call q k ih => exact ⟨hp.1, fun r => ih r (hp.2 r)⟩

/-- Every call the code can make satisfies `A`. -/
def Code.Only {S : Sig} {ε σ α : Type} (A : S.Req → Prop) (x : Code S ε σ α) : Prop :=
  ∀ s, (x s).Only A

namespace Code.Only

variable {S : Sig} {ε σ τ α β : Type} {A B : S.Req → Prop}

variable {x : Code S ε σ α}

lemma mono (h : x.Only A) (hAB : ∀ q, A q → B q) : x.Only B := by
  intro s
  have hs := h s
  generalize x s = p at hs ⊢
  induction p with
  | ret _ => trivial
  | call q k ih => exact ⟨hAB q hs.1, fun r => ih r (hs.2 r)⟩

lemma pure (a : α) : (Pure.pure a : Code S ε σ α).Only A := fun _ => trivial

lemma throw (e : ε) : (MonadExcept.throw e : Code S ε σ α).Only A := fun _ => trivial

lemma ofExcept (x : Except ε α) : (Code.ofExcept x : Code S ε σ α).Only A := by
  cases x with
  | ok a => exact pure a
  | error e => exact throw e

lemma get : (MonadState.get : Code S ε σ σ).Only A := fun _ => trivial

lemma set (s : σ) : (MonadState.set s : Code S ε σ PUnit).Only A := fun _ => trivial

lemma modify (f : σ → σ) : (modifyThe σ f : Code S ε σ PUnit).Only A := fun _ => trivial

lemma call {q : S.Req} (h : A q) : (Code.call q : Code S ε σ _).Only A :=
  fun _ => ⟨h, fun _ => trivial⟩

lemma bind {x : Code S ε σ β} {f : β → Code S ε σ α} (hx : x.Only A) (hf : ∀ b, (f b).Only A) :
    (x >>= f).Only A := fun s => (hx s).bind fun
  | (.ok b, s') => hf b s'
  | (.error _, _) => trivial

lemma tryCatch {h : ε → Code S ε σ α} (hx : x.Only A) (hh : ∀ e, (h e).Only A) :
    (MonadExcept.tryCatch x h).Only A := fun s => (hx s).bind fun
  | (.ok _, _) => trivial
  | (.error e, s') => hh e s'

lemma localVar {s : σ} (hx : x.Only A) :
    (Code.localVar s x : Code S ε τ (α × σ)).Only A := fun _ => (hx s).bind fun
  | (.ok _, _) => trivial
  | (.error _, _) => trivial

lemma ite {c : Prop} [Decidable c] {x y : Code S ε σ α} (hx : x.Only A) (hy : y.Only A) :
    (if c then x else y).Only A := by
  split
  · exact hx
  · exact hy

end Code.Only

/-- Calls of a program seen as steps of an observer: which answers and next observations a call
can have, and which calls are permitted. -/
structure Watch (S : Sig) (G : Type) where
  Step : G → (q : S.Req) → S.Resp q → G → Prop
  Allow : G → S.Req → Prop

namespace Watch

variable {S R : Sig} {G ε σ τ α β : Type} (W : Watch S G)

/-- From the observation `g` the program makes permitted calls only, whatever the answers, and if
it returns it does so in the postcondition. -/
def Sat : Prog S α → (α → G → Prop) → G → Prop
  | .ret a, Q, g => Q a g
  | .call q k, Q, g => W.Allow g q ∧ ∀ r g', W.Step g q r g' → Sat (k r) Q g'

@[simp] lemma sat_ret (a : α) (Q : α → G → Prop) (g : G) : W.Sat (.ret a) Q g ↔ Q a g := Iff.rfl

@[simp] lemma sat_call (q : S.Req) (k : S.Resp q → Prog S α) (Q : α → G → Prop) (g : G) :
    W.Sat (.call q k) Q g ↔ W.Allow g q ∧ ∀ r g', W.Step g q r g' → W.Sat (k r) Q g' := Iff.rfl

variable {W}

variable {p : Prog S α} {x : Code S ε σ α} {P : α → G → σ → Prop} {F : ε → G → σ → Prop}
  {f : β → Code S ε σ α}

lemma Sat.mono {Q Q' : α → G → Prop} {g : G} (h : W.Sat p Q g)
    (hQ : ∀ a g', Q a g' → Q' a g') : W.Sat p Q' g := by
  induction p generalizing g with
  | ret a => exact hQ a g h
  | call q k ih => exact ⟨h.1, fun r g' hs => ih r (h.2 r g' hs)⟩

lemma Sat.weaken {V : Watch S G} {Q : α → G → Prop} {g : G} (h : W.Sat p Q g)
    (hA : ∀ g q, W.Allow g q → V.Allow g q)
    (hS : ∀ g q r g', V.Step g q r g' → W.Step g q r g') : V.Sat p Q g := by
  induction p generalizing g with
  | ret a => exact h
  | call q k ih => exact ⟨hA g q h.1, fun r g' hs => ih r (h.2 r g' (hS g q r g' hs))⟩

lemma sat_bind {f : α → Prog S β} {Q : β → G → Prop} {g : G} :
    W.Sat (p.bind f) Q g ↔ W.Sat p (fun a g' => W.Sat (f a) Q g') g := by
  induction p generalizing g with
  | ret a => rfl
  | call q k ih => simp only [Prog.call_bind, sat_call, ih]

/-- **Calls implemented by programs.** Two observers may keep different observations, related by
`L`. If every permitted call of the upper one is carried out by a correct program after which
some step of the upper observer is related to what the lower one has seen, the expansion of a
correct program is correct. -/
lemma Sat.simulate {U : Type} {V : Watch R U} {L : U → G → Prop}
    {f : (q : R.Req) → Prog S (R.Resp q)}
    (hf : ∀ u g q, L u g → V.Allow u q →
      W.Sat (f q) (fun r g' => ∃ u', V.Step u q r u' ∧ L u' g') g)
    {p : Prog R α} {Q : α → U → Prop} {u : U} {g : G} (h : V.Sat p Q u) (hr : L u g) :
    W.Sat (p.expand f) (fun a g' => ∃ u', L u' g' ∧ Q a u') g := by
  induction p generalizing u g with
  | ret a => exact ⟨u, hr, h⟩
  | call q k ih =>
    refine sat_bind.mpr ((hf u g q hr h.1).mono ?_)
    rintro r g' ⟨u', hs, hr'⟩
    exact ih r (h.2 r u' hs) hr'

variable (W) in
/-- The program can return `a`, with steps of the observer from `g` to `g'`. -/
inductive Runs : Prog S α → G → α → G → Prop where
  | ret (a : α) (g : G) : Runs (.ret a) g a g
  | call {q : S.Req} {k : S.Resp q → Prog S α} {r : S.Resp q} {a : α} {g g' g'' : G}
      (step : W.Step g q r g') (rest : Runs (k r) g' a g'') : Runs (.call q k) g a g''

lemma Sat.of_runs {Q : α → G → Prop} {a : α} {g g' : G} (h : W.Sat p Q g)
    (hrun : W.Runs p g a g') : Q a g' := by
  induction hrun with
  | ret a g => exact h
  | call step _ ih => exact ih (h.2 _ _ step)

lemma runs_of_run {h : (q : S.Req) → G → Option (S.Resp q × G)}
    (hstep : ∀ q g r g', h q g = some (r, g') → W.Step g q r g') {a : α} {g g' : G}
    (hrun : p.run h g = some (a, g')) : W.Runs p g a g' := by
  induction p generalizing g with
  | ret b =>
    simp only [Prog.run, some.injEq, Prod.mk.injEq] at hrun
    obtain ⟨rfl, rfl⟩ := hrun
    exact .ret b g
  | call q k ih =>
    obtain ⟨⟨r, g₁⟩, hq, hk⟩ := bind_eq_some_iff.mp hrun
    exact .call (hstep q g r g₁ hq) (ih r hk)

/-- **Runs of their own.** If permitted calls are answered by steps of the observer, a correct
program runs to its end. -/
lemma Sat.exists_run {h : (q : S.Req) → G → Option (S.Resp q × G)}
    (hstep : ∀ q g, W.Allow g q → ∃ r g', h q g = some (r, g') ∧ W.Step g q r g') {Q : α → G → Prop}
    {g : G} (hp : W.Sat p Q g) :
    ∃ a g', p.run h g = some (a, g') ∧ Q a g' := by
  induction p generalizing g with
  | ret a => exact ⟨a, g, rfl, hp⟩
  | call q k ih =>
    obtain ⟨r, g', hq, hs⟩ := hstep q g hp.1
    obtain ⟨a, g'', hrun, hpost⟩ := ih r (hp.2 r g' hs)
    exact ⟨a, g'', by rw [Prog.run, hq, bind_some, hrun], hpost⟩

variable (W)

/-- Code is correct from an observation and a value of its variable: permitted calls only, a
normal result in `Q`, an exception in `E`. -/
def wp (x : Code S ε σ α) (Q : α → G → σ → Prop) (E : ε → G → σ → Prop) (g : G) (s : σ) : Prop :=
  W.Sat (x s) (fun res g' => match res with
    | (.ok a, s') => Q a g' s'
    | (.error e, s') => E e g' s') g

/-- Code makes permitted calls only. -/
abbrev Safe (x : Code S ε σ α) (g : G) (s : σ) : Prop :=
  W.wp x (fun _ _ _ => True) (fun _ _ _ => True) g s

variable {W} {Q : α → G → σ → Prop} {E : ε → G → σ → Prop} {g : G} {s : σ}

section

variable (h : W.wp x Q E g s) (hQ : ∀ a g' s', Q a g' s' → P a g' s')
include h hQ

lemma wp_mono (hE : ∀ e g' s', E e g' s' → F e g' s') : W.wp x P F g s := by
  refine Sat.mono h ?_
  rintro ⟨res, s'⟩ g' hres
  cases res with
  | ok a => exact hQ a g' s' hres
  | error e => exact hE e g' s' hres

lemma wp_imp : W.wp x P E g s := wp_mono h hQ fun _ _ _ h' => h'

lemma wp_imp_ok : W.wp x P (fun _ _ _ => True) g s := wp_mono h hQ fun _ _ _ _ => trivial

end

lemma wp_and (h : W.wp x Q E g s) (h' : W.wp x P F g s) :
    W.wp x (fun a g' s' => Q a g' s' ∧ P a g' s') (fun e g' s' => E e g' s' ∧ F e g' s') g s := by
  unfold wp at h h' ⊢
  generalize x s = p at h h'
  induction p generalizing g with
  | ret a =>
    rcases a with ⟨_ | _, _⟩
    · exact ⟨h, h'⟩
    · exact ⟨h, h'⟩
  | call q k ih => exact ⟨h.1, fun r g' hs => ih r (h.2 r g' hs) (h'.2 r g' hs)⟩

variable {c : Prop}

@[simp] lemma wp_pure (a : α) : W.wp (pure a) Q E g s ↔ Q a g s := Iff.rfl

@[simp] lemma wp_throw (e : ε) : W.wp (throw e : Code S ε σ α) Q E g s ↔ E e g s := Iff.rfl

@[simp] lemma wp_bind (x : Code S ε σ β) (f : β → Code S ε σ α) :
    W.wp (x >>= f) Q E g s ↔ W.wp x (fun a g' s' => W.wp (f a) Q E g' s') E g s := by
  refine sat_bind.trans (iff_of_eq (congrArg (fun R => W.Sat (x s) R g) ?_))
  funext res g'
  rcases res with ⟨_ | _, _⟩ <;> rfl

@[simp] lemma wp_tryCatch (x : Code S ε σ α) (h : ε → Code S ε σ α) :
    W.wp (tryCatch x h) Q E g s ↔ W.wp x Q (fun e g' s' => W.wp (h e) Q E g' s') g s := by
  refine sat_bind.trans (iff_of_eq (congrArg (fun R => W.Sat (x s) R g) ?_))
  funext res g'
  rcases res with ⟨_ | _, _⟩ <;> rfl

@[simp] lemma wp_get {Q : σ → G → σ → Prop} : W.wp (get : Code S ε σ σ) Q E g s ↔ Q s g s := Iff.rfl

@[simp] lemma wp_set {Q : PUnit → G → σ → Prop} (s' : σ) :
    W.wp (set s' : Code S ε σ PUnit) Q E g s ↔ Q ⟨⟩ g s' := Iff.rfl

@[simp] lemma wp_modify {Q : PUnit → G → σ → Prop} (f : σ → σ) :
    W.wp (modify f : Code S ε σ PUnit) Q E g s ↔ Q ⟨⟩ g (f s) := Iff.rfl

@[simp] lemma wp_call (q : S.Req) {Q : S.Resp q → G → σ → Prop} :
    W.wp (Code.call q : Code S ε σ _) Q E g s ↔
      W.Allow g q ∧ ∀ r g', W.Step g q r g' → Q r g' s := Iff.rfl

@[simp] lemma wp_ofExcept_ok (a : α) : W.wp (Code.ofExcept (.ok a)) Q E g s ↔ Q a g s := Iff.rfl

@[simp] lemma wp_ofExcept_error (e : ε) :
    W.wp (Code.ofExcept (.error e) : Code S ε σ α) Q E g s ↔ E e g s := Iff.rfl

@[simp] lemma wp_localVar {Q : α × τ → G → σ → Prop} (t : τ) (x : Code S ε τ α) :
    W.wp (Code.localVar t x) Q E g s ↔
      W.wp x (fun a g' t' => Q (a, t') g' s) (fun e g' _ => E e g' s) g t := by
  refine sat_bind.trans (iff_of_eq (congrArg (fun R => W.Sat (x t) R g) ?_))
  funext res g'
  rcases res with ⟨_ | _, _⟩ <;> rfl

@[simp] lemma wp_capture {Q : Except ε α → G → σ → Prop} (x : Code S ε σ α) :
    W.wp (Code.capture x) Q E g s ↔
      W.wp x (fun a g' s' => Q (.ok a) g' s') (fun e g' s' => Q (.error e) g' s') g s := by
  refine sat_bind.trans (iff_of_eq (congrArg (fun R => W.Sat (x s) R g) ?_))
  funext res g'
  rcases res with ⟨_ | _, _⟩ <;> rfl

@[simp] lemma wp_ite [Decidable c] (x y : Code S ε σ α) :
    W.wp (if c then x else y) Q E g s ↔ (c → W.wp x Q E g s) ∧ (¬c → W.wp y Q E g s) := by
  split <;> simp [*]

lemma of_bind {x : Code S ε σ β}
    (h : W.wp x (fun a g' s' => W.wp (f a) Q E g' s') E g s) : W.wp (x >>= f) Q E g s :=
  (wp_bind x f).mpr h

lemma of_ite [Decidable c] {x y : Code S ε σ α}
    (h : (c → W.wp x Q E g s) ∧ (¬c → W.wp y Q E g s)) : W.wp (if c then x else y) Q E g s :=
  (wp_ite x y).mpr h

lemma of_if [Decidable c] {x y : Code S ε σ α} (hx : W.wp x Q E g s) (hy : W.wp y Q E g s) :
    W.wp (if c then x else y) Q E g s := of_ite ⟨fun _ => hx, fun _ => hy⟩

lemma of_call {q : S.Req} {Q : S.Resp q → G → σ → Prop}
    (h : W.Allow g q ∧ ∀ r g', W.Step g q r g' → Q r g' s) :
    W.wp (Code.call q : Code S ε σ _) Q E g s := h

lemma of_ok {a : α} (h : Q a g s) : W.wp (Code.ofExcept (.ok a)) Q E g s := h

lemma wp_when [Decidable c] {x : Code S ε σ β} {rest : Code S ε σ α}
    {P : G → σ → Prop} (hx : c → W.wp x (fun _ => P) E g s) (hy : ¬c → P g s)
    (hrest : ∀ g' s', P g' s' → W.wp rest Q E g' s') :
    W.wp (if c then x >>= fun _ => rest else rest) Q E g s := by
  rw [wp_ite, wp_bind]
  exact ⟨fun h => wp_mono (hx h) (fun _ => hrest) fun _ _ _ h => h, fun h => hrest g s (hy h)⟩

/-! ### Invariants -/

variable (W)

/-- Code keeps an invariant of the observation and its variable: it makes permitted calls only, and
however it ends the invariant holds. -/
def Keeps (I : G → σ → Prop) (x : Code S ε σ α) : Prop :=
  ∀ g s, I g s → W.wp x (fun _ => I) (fun _ => I) g s

variable {W} {I : G → σ → Prop}

lemma keeps_pure (a : α) : W.Keeps I (pure a : Code S ε σ α) := fun _ _ h => h

lemma keeps_throw (e : ε) : W.Keeps I (throw e : Code S ε σ α) := fun _ _ h => h

lemma keeps_ofExcept (x : Except ε α) : W.Keeps I (Code.ofExcept x : Code S ε σ α) := by
  cases x with
  | ok a => exact keeps_pure a
  | error e => exact keeps_throw e

lemma keeps_modify {f : σ → σ} (h : ∀ g s, I g s → I g (f s)) :
    W.Keeps I (modify f : Code S ε σ PUnit) := h

lemma keeps_call {q : S.Req} (h : ∀ g s, I g s → W.Allow g q ∧ ∀ r g', W.Step g q r g' → I g' s) :
    W.Keeps I (Code.call q : Code S ε σ _) := h

lemma keeps_bind {x : Code S ε σ β} (hx : W.Keeps I x)
    (hf : ∀ b, W.Keeps I (f b)) : W.Keeps I (x >>= f) := fun g s h =>
  (wp_bind x f).mpr (wp_mono (hx g s h) (fun b g' s' h' => hf b g' s' h') fun _ _ _ h' => h')

lemma keeps_get_bind {f : σ → Code S ε σ α} (hf : ∀ g s, I g s → W.Keeps I (f s)) :
    W.Keeps I (get >>= f) := fun g s h => (wp_bind _ _).mpr (hf g s h g s h)

lemma keeps_ite [Decidable c] {x y : Code S ε σ α} (hx : c → W.Keeps I x)
    (hy : ¬c → W.Keeps I y) : W.Keeps I (if c then x else y) := by
  split
  · exact hx ‹_›
  · exact hy ‹_›

lemma keeps_if [Decidable c] {x y : Code S ε σ α} (hx : W.Keeps I x) (hy : W.Keeps I y) :
    W.Keeps I (if c then x else y) := keeps_ite (fun _ => hx) fun _ => hy

lemma keeps_when [Decidable c] {x : Code S ε σ Unit} {rest : Unit → Code S ε σ α}
    (hx : c → W.Keeps I x) (hrest : ∀ r, W.Keeps I (rest r)) :
    W.Keeps I (if c then x >>= rest else rest ()) :=
  keeps_ite (fun hc => keeps_bind (hx hc) hrest) fun _ => hrest ()

lemma keeps_tryCatch {h : ε → Code S ε σ α} (hx : W.Keeps I x)
    (hh : ∀ e, W.Keeps I (h e)) : W.Keeps I (tryCatch x h) := fun g s hI =>
  (wp_tryCatch x h).mpr (wp_mono (hx g s hI) (fun _ _ _ h' => h') fun e g' s' h' => hh e g' s' h')

lemma keeps_of_only {A : S.Req → Prop} {J : G → Prop} (hx : x.Only A)
    (hA : ∀ q, A q → ∀ g, J g → W.Allow g q ∧ ∀ r g', W.Step g q r g' → J g') :
    W.Keeps (fun g _ => J g) x := by
  intro g s hJ
  have hs := hx s
  unfold wp
  generalize x s = p at hs
  induction p generalizing g with
  | ret a =>
    rcases a with ⟨_ | _, _⟩
    · exact hJ
    · exact hJ
  | call q k ih =>
    obtain ⟨hallow, hstep⟩ := hA q hs.1 g hJ
    exact ⟨hallow, fun r g' hr => ih r g' (hstep r g' hr) (hs.2 r)⟩

end Watch

/-! ## Histories -/

section Histories

variable {S : Sig} {G α : Type} (note : G → (q : S.Req) → S.Resp q → G)

/-- Every call of a history and its answer are as `P` says, given what `note` has remembered of the
calls before. -/
def Throughout (P : G → (q : S.Req) → S.Resp q → Prop) :
    G → List ((q : S.Req) × S.Resp q) → Prop
  | _, [] => True
  | g, e :: es => P g e.1 e.2 ∧ Throughout P (note g e.1 e.2) es

def Throughout.decidable {P : G → (q : S.Req) → S.Resp q → Prop}
    (check : ∀ g q r, Decidable (P g q r)) :
    (g : G) → (es : List ((q : S.Req) × S.Resp q)) → Decidable (Throughout note P g es)
  | _, [] => isTrue trivial
  | g, e :: es =>
    have := check g e.1 e.2
    have := Throughout.decidable check (note g e.1 e.2) es
    inferInstanceAs (Decidable (P g e.1 e.2 ∧ Throughout note P (note g e.1 e.2) es))

/-- The observer that remembers what `note` does, of calls answered as `P` says, and permits the
calls of `A`. -/
def Watch.noting (P : G → (q : S.Req) → S.Resp q → Prop) (A : G → S.Req → Prop) : Watch S G where
  Step g q r g' := P g q r ∧ g' = note g q r
  Allow := A

variable {note} {P R : G → (q : S.Req) → S.Resp q → Prop} {A : G → S.Req → Prop} {g : G}
  {es : List ((q : S.Req) × S.Resp q)}

lemma Throughout.of_forall (h : ∀ g q r, P g q r) : Throughout note P g es := by
  induction es generalizing g with
  | nil => trivial
  | cons e es ih => exact ⟨h _ _ _, ih⟩

lemma Throughout.of_forall_mem {A : (q : S.Req) → S.Resp q → Prop} (h : ∀ e ∈ es, A e.1 e.2) :
    Throughout note (fun _ => A) g es := by
  induction es generalizing g with
  | nil => trivial
  | cons e es ih =>
    exact ⟨h e List.mem_cons_self, ih fun d hd => h d (List.mem_cons_of_mem _ hd)⟩

lemma Throughout.mono (h : Throughout note P g es) (hPR : ∀ g q r, P g q r → R g q r) :
    Throughout note R g es := by
  induction es generalizing g with
  | nil => trivial
  | cons e es ih => exact ⟨hPR _ _ _ h.1, ih h.2⟩

lemma Throughout.of_mem (h : Throughout note P g es) {e : (q : S.Req) × S.Resp q} (he : e ∈ es) :
    ∃ g', P g' e.1 e.2 := by
  induction es generalizing g with
  | nil => cases he
  | cons d es ih =>
    rcases List.mem_cons.mp he with rfl | he
    · exact ⟨g, h.1⟩
    · exact ih h.2 he

lemma Throughout.and (h : Throughout note P g es) (h' : Throughout note R g es) :
    Throughout note (fun g q r => P g q r ∧ R g q r) g es := by
  induction es generalizing g with
  | nil => trivial
  | cons e es ih => exact ⟨⟨h.1, h'.1⟩, ih h.2 h'.2⟩

/-- **Laws of histories.** A program that is correct for such an observer has histories of
permitted calls only, as long as the answers are as assumed. -/
lemma Throughout.of_sat {p : Prog S α} {Q : α → G → Prop}
    (h : (Watch.noting note P A).Sat p Q g) (hes : p.Makes es) (hP : Throughout note P g es) :
    Throughout note (fun g q _ => A g q) g es := by
  induction hes generalizing g with
  | nil p => trivial
  | cons hk ih => exact ⟨h.1, ih (h.2 _ _ ⟨hP.1, rfl⟩) hP.2⟩

def remembered (note : G → (q : S.Req) → S.Resp q → G) (g : G)
    (es : List ((q : S.Req) × S.Resp q)) : G := es.foldl (fun g e => note g e.1 e.2) g

/-- **Results of histories.** A program that is correct for such an observer returns in its
postcondition, with what is remembered of its history. -/
lemma Watch.Sat.of_returns {p : Prog S α} {Q : α → G → Prop} {a : α}
    (h : (Watch.noting note P A).Sat p Q g) (hes : p.Returns es a) (hP : Throughout note P g es) :
    Q a (remembered note g es) := by
  induction hes generalizing g with
  | ret a => exact h
  | call hk ih => exact ih (h.2 _ _ ⟨hP.1, rfl⟩) hP.2

/-- What every call keeps is kept by all code, however it ends. -/
lemma Watch.wp_keeps {ε σ : Type} {K : G → Prop} (hK : ∀ g q r, K g → K (note g q r))
    (x : Code S ε σ α) (v : σ) (h : K g) :
    (Watch.noting note P fun _ _ => True).wp x (fun _ g' _ => K g') (fun _ g' _ => K g') g v := by
  have hsat : ∀ (p : Prog S (Except ε α × σ)) (g : G), K g →
      (Watch.noting note P fun _ _ => True).Sat p (fun _ g' => K g') g := by
    intro p
    induction p with
    | ret a => exact fun g h => h
    | call q k ih =>
      refine fun g h => ⟨trivial, ?_⟩
      rintro r _ ⟨-, rfl⟩
      exact ih r _ (hK g q r h)
  refine Watch.Sat.mono (hsat (x v) g h) ?_
  rintro ⟨_ | _, _⟩ g' h' <;> exact h'

end Histories

end Laso
