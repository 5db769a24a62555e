import Laso.Cluster.Machine

/-!
# Distributed work is completed once

A branch of a distributed group is a record of node work that instances claim, execute and
complete. A claim stores it as running under a lease acquired for it; its result is written under
the same lease, in a copy that the executing coroutine has read again just before.

That a result belongs to the latest claim does not follow from the fence alone, because the copy
may show a later claim than the lease. `WorkOk` relates the two: a lease that has been acquired and
not yet been written under has a token nobody has claimed with, and a coroutine whose token is the
one of the stored claim has read the attempt of this claim. `WorkOk.call` shows what one call does to
it, `workOk_of_reach` follows it along any run.
-/

namespace Laso

open List Machine Cluster

/-! ## Lists of coroutines -/

section Lists

variable {α : Type} {R : α → α → Prop} {l : List α} {i j : Nat} {x y u : α}

lemma mem_set_cases (h : u ∈ l.set i y) : u = y ∨ ∃ j, j ≠ i ∧ l[j]? = some u := by
  obtain ⟨j, hj⟩ := mem_iff_getElem?.mp h
  rw [getElem?_set] at hj
  split at hj
  · split at hj
    · exact .inl (Option.some.inj hj).symm
    · cases hj
  · rename_i hne
    exact .inr ⟨j, fun h => hne h.symm, hj⟩

lemma pairwise_getElem? (hR : ∀ a b, R a b → R b a) (h : l.Pairwise R) (hij : i ≠ j)
    (hi : l[i]? = some x) (hj : l[j]? = some y) : R x y := by
  obtain ⟨hil, rfl⟩ := List.getElem?_eq_some_iff.mp hi
  obtain ⟨hjl, rfl⟩ := List.getElem?_eq_some_iff.mp hj
  rcases Nat.lt_or_gt_of_ne hij with hlt | hlt
  · exact pairwise_iff_getElem.mp h i j hil hjl hlt
  · exact hR _ _ (pairwise_iff_getElem.mp h j i hjl hil hlt)

lemma pairwise_set (hR : ∀ a b, R a b → R b a) (h : l.Pairwise R)
    (hy : ∀ j u, j ≠ i → l[j]? = some u → R u y) : (l.set i y).Pairwise R := by
  refine pairwise_iff_getElem.mpr fun a b ha hb hab => ?_
  rw [length_set] at ha hb
  have hother : ∀ k (hk : k < l.length), i ≠ k → R l[k] y := fun k hk hne =>
    hy k _ (Ne.symm hne) (getElem?_eq_getElem hk)
  rw [getElem_set, getElem_set]
  split
  · rename_i hia
    rw [if_neg (by omega)]
    exact hR _ _ (hother b hb (by omega))
  rename_i hia
  split
  · exact hother a ha hia
  · exact pairwise_iff_getElem.mp h a b ha hb hab

end Lists

/-! ## The invariant -/

/-- Node work the coroutine has claimed or executes, with the tokens of the leases. -/
def Seen.holdings (g : Seen) : List (String × Nat) := g.duty.toList ++ g.claims

/-- Two coroutines that have not acquired the same lease. -/
def Seen.Apart (g g' : Seen) : Prop :=
  ∀ l ∈ g.leases, ∀ l' ∈ g'.leases, l.resourceKey = l'.resourceKey →
    l.fencingToken ≠ l'.fencingToken

/-- What holds of the node work in the store and of the coroutines that have seen `gs`. -/
structure WorkOk (db : Db) (gs : List Seen) : Prop where
  /-- Running work has been claimed with a token that has been given out. -/
  running : ∀ id x, db.nodeWork.get id = some x → x.state = .running →
    x.fencingToken ≤ db.leases.level ("node:" ++ id)
  leases : ∀ g ∈ gs, ∀ l ∈ g.leases, l.fencingToken ≤ db.leases.level l.resourceKey
  /-- The stored claim is the latest one. -/
  holdings : ∀ g ∈ gs, ∀ id token, (id, token) ∈ g.holdings →
    token ≤ db.leases.level ("node:" ++ id) ∧
      ∀ x, db.nodeWork.get id = some x → x.state = .running → token ≤ x.fencingToken
  /-- Nothing has been claimed with a lease that has not been written under. -/
  fresh : ∀ g ∈ gs, ∀ id token, (id, token) ∈ g.holdings → ∀ g' ∈ gs, ∀ l ∈ g'.leases,
    l.resourceKey = "node:" ++ id → l.fencingToken ≠ token
  apart : gs.Pairwise Seen.Apart
  /-- What the coroutine that executes the stored claim has read of the work is this claim. -/
  copies : ∀ g ∈ gs, ∀ b ∈ g.works, (db.nodeWork.get b.id).isSome ∧
    ∀ token, g.duty = some (b.id, token) → ∀ x, db.nodeWork.get b.id = some x →
      x.state = .running → x.fencingToken = token → b.attemptId = x.attemptId

lemma Seen.Apart.symm {g g' : Seen} (h : g.Apart g') : g'.Apart g :=
  fun l hl l' hl' hkey hne => h l' hl' l hl hkey.symm hne.symm

section Call

variable {db db' : Db} {gs : List Seen} {g g' : Seen} {i : Nat}

lemma WorkOk.quiet (h : WorkOk db gs) (hlevel : ∀ key, db.leases.level key ≤ db'.leases.level key)
    (hkeep : ∀ id, (db.nodeWork.get id).isSome → (db'.nodeWork.get id).isSome)
    (hrunning : ∀ id x, db'.nodeWork.get id = some x → x.state = .running →
      db.nodeWork.get id = some x) : WorkOk db' gs where
  running id x hx hr := (h.running id x (hrunning id x hx hr) hr).trans (hlevel _)
  leases u hu l hl := (h.leases u hu l hl).trans (hlevel _)
  holdings u hu id token hmem :=
    ⟨(h.holdings u hu id token hmem).1.trans (hlevel _),
      fun x hx hr => (h.holdings u hu id token hmem).2 x (hrunning id x hx hr) hr⟩
  fresh := h.fresh
  apart := h.apart
  copies u hu b hb :=
    ⟨hkeep _ (h.copies u hu b hb).1,
      fun token hduty x hx hr => (h.copies u hu b hb).2 token hduty x (hrunning _ x hx hr) hr⟩

lemma WorkOk.sublist {gs' : List Seen} (h : WorkOk db gs) (hs : gs'.Sublist gs) : WorkOk db gs' where
  running := h.running
  leases u hu := h.leases u (hs.mem hu)
  holdings u hu := h.holdings u (hs.mem hu)
  fresh u hu id token hmem u' hu' := h.fresh u (hs.mem hu) id token hmem u' (hs.mem hu')
  apart := h.apart.sublist hs
  copies u hu := h.copies u (hs.mem hu)

/-- A new coroutine, which may have been started for work that another one has claimed. -/
structure Seen.New (gs : List Seen) (g : Seen) : Prop where
  leases : g.leases = []
  works : g.works = []
  holdings : ∀ p ∈ g.holdings, ∃ u ∈ gs, p ∈ u.holdings

lemma WorkOk.spawn {new : List Seen} (h : WorkOk db gs) (hnew : ∀ u ∈ new, u.New gs) :
    WorkOk db (gs ++ new) := by
  have hleases : ∀ u ∈ gs ++ new, ∀ l ∈ u.leases, ∃ u' ∈ gs, l ∈ u'.leases := by
    intro u hu l hl
    rcases mem_append.mp hu with hu | hu
    · exact ⟨u, hu, hl⟩
    · rw [(hnew u hu).leases] at hl
      cases hl
  have hholdings : ∀ u ∈ gs ++ new, ∀ p ∈ u.holdings, ∃ u' ∈ gs, p ∈ u'.holdings := by
    intro u hu p hp
    rcases mem_append.mp hu with hu | hu
    · exact ⟨u, hu, hp⟩
    · exact (hnew u hu).holdings p hp
  refine ⟨h.running, fun u hu l hl => ?_, fun u hu id token hmem => ?_,
    fun u hu id token hmem u' hu' l hl => ?_, ?_, fun u hu b hb => ?_⟩
  · obtain ⟨u', hu', hl'⟩ := hleases u hu l hl
    exact h.leases u' hu' l hl'
  · obtain ⟨u', hu', hmem'⟩ := hholdings u hu _ hmem
    exact h.holdings u' hu' id token hmem'
  · obtain ⟨v, hv, hmem'⟩ := hholdings u hu _ hmem
    obtain ⟨v', hv', hl'⟩ := hleases u' hu' l hl
    exact h.fresh v hv id token hmem' v' hv' l hl'
  · refine pairwise_append.mpr ⟨h.apart, ?_, fun a _ b hb l _ l' hl' => ?_⟩
    · refine pairwise_iff_forall_sublist.mpr fun {a b} hab l hl => ?_
      rw [(hnew a (hab.mem mem_cons_self)).leases] at hl
      cases hl
    · rw [(hnew b hb).leases] at hl'
      cases hl'
  · rcases mem_append.mp hu with hu | hu
    · exact h.copies u hu b hb
    · rw [(hnew u hu).works] at hb
      cases hb

lemma WorkOk.callQuiet (h : WorkOk db gs) (hg : gs[i]? = some g)
    (hlevel : ∀ key, db.leases.level key ≤ db'.leases.level key)
    (hkeep : ∀ id, (db.nodeWork.get id).isSome → (db'.nodeWork.get id).isSome)
    (hduty : g'.duty = g.duty)
    (hrunning : ∀ id x, db'.nodeWork.get id = some x → x.state = .running →
      db.nodeWork.get id = some x)
    (hleases : g'.leases ⊆ g.leases) (hholdings : g'.holdings ⊆ g.holdings)
    (hworks : ∀ b ∈ g'.works, b ∈ g.works ∨ db'.nodeWork.get b.id = some b) :
    WorkOk db' (gs.set i g') := by
  have hmem : g ∈ gs := mem_of_getElem? hg
  have h' := h.quiet hlevel hkeep hrunning
  -- every coroutine has an older self that holds at least as much
  have hold : ∀ u ∈ gs.set i g', ∃ v ∈ gs, u.leases ⊆ v.leases ∧ u.holdings ⊆ v.holdings := by
    intro u hu
    rcases mem_or_eq_of_mem_set hu with hu | rfl
    · exact ⟨u, hu, List.Subset.refl _, List.Subset.refl _⟩
    · exact ⟨g, hmem, hleases, hholdings⟩
  refine ⟨h'.running, fun u hu l hl => ?_, fun u hu id token hp => ?_,
    fun u hu id token hp u' hu' l hl => ?_, ?_, fun u hu b hb => ?_⟩
  · obtain ⟨v, hv, hsub, -⟩ := hold u hu
    exact h'.leases v hv l (hsub hl)
  · obtain ⟨v, hv, -, hsub⟩ := hold u hu
    exact h'.holdings v hv id token (hsub hp)
  · obtain ⟨v, hv, -, hsub⟩ := hold u hu
    obtain ⟨v', hv', hsub', -⟩ := hold u' hu'
    exact h'.fresh v hv id token (hsub hp) v' hv' l (hsub' hl)
  · refine pairwise_set (fun _ _ => Seen.Apart.symm) h.apart fun j u hj hu l hl l' hl' => ?_
    exact pairwise_getElem? (fun _ _ => Seen.Apart.symm) h.apart hj hu hg l hl l' (hleases hl')
  rcases mem_or_eq_of_mem_set hu with hu | rfl
  · exact h'.copies u hu b hb
  rcases hworks b hb with hb | hstored
  · rw [hduty]
    exact h'.copies g hmem b hb
  · refine ⟨by rw [hstored]; rfl, fun token _ x hx _ _ => ?_⟩
    rw [Option.mem_unique hstored hx]

lemma WorkOk.callAcquire {lease : LeaseRecord} (h : WorkOk db gs) (hg : gs[i]? = some g)
    (hlevel : ∀ key, db.leases.level key ≤ db'.leases.level key) (hduty : g'.duty = g.duty)
    (htable : db'.nodeWork = db.nodeWork)
    (hnew : db.leases.level lease.resourceKey < lease.fencingToken)
    (hreached : db'.leases.level lease.resourceKey = lease.fencingToken)
    (hleases : g'.leases = lease :: g.leases) (hholdings : g'.holdings = g.holdings)
    (hworks : g'.works = g.works) : WorkOk db' (gs.set i g') := by
  have hmem : g ∈ gs := mem_of_getElem? hg
  have h' := h.quiet hlevel (fun _ hs => htable ▸ hs) fun _ _ hx _ => htable ▸ hx
  have hold : ∀ u ∈ gs.set i g', ∃ v ∈ gs, u.holdings = v.holdings ∧
      ∀ l ∈ u.leases, l = lease ∨ l ∈ v.leases := by
    intro u hu
    rcases mem_or_eq_of_mem_set hu with hu | rfl
    · exact ⟨u, hu, rfl, fun _ hl => .inr hl⟩
    · exact ⟨g, hmem, hholdings, fun l hl => mem_cons.mp (hleases ▸ hl)⟩
  refine ⟨h'.running, fun u hu l hl => ?_, fun u hu id token hp => ?_,
    fun u hu id token hp u' hu' l hl hkey => ?_, ?_, fun u hu b hb => ?_⟩
  · obtain ⟨v, hv, -, hlease⟩ := hold u hu
    rcases hlease l hl with rfl | hl
    · exact hreached.ge
    · exact h'.leases v hv l hl
  · obtain ⟨v, hv, heq, -⟩ := hold u hu
    exact h'.holdings v hv id token (heq ▸ hp)
  · obtain ⟨v, hv, heq, -⟩ := hold u hu
    obtain ⟨v', hv', -, hlease⟩ := hold u' hu'
    rcases hlease l hl with rfl | hl
    · have hle := (h.holdings v hv id token (heq ▸ hp)).1
      rw [← hkey] at hle
      omega
    · exact h.fresh v hv id token (heq ▸ hp) v' hv' l hl hkey
  · refine pairwise_set (fun _ _ => Seen.Apart.symm) h.apart fun j u hj hu l hl l' hl' hkey => ?_
    rw [hleases] at hl'
    rcases mem_cons.mp hl' with rfl | hl'
    · have hle := h.leases u (mem_of_getElem? hu) l hl
      rw [hkey] at hle
      omega
    · exact pairwise_getElem? (fun _ _ => Seen.Apart.symm) h.apart hj hu hg l hl l' hl' hkey
  · rcases mem_or_eq_of_mem_set hu with hu | rfl
    · exact h'.copies u hu b hb
    · rw [hduty]
      exact h'.copies g hmem b (hworks ▸ hb)

/-- Work is claimed: no coroutine can claim it again with the same token, and every coroutine that
executes it has an older one. -/
lemma WorkOk.callClaim {w : NodeWork} (h : WorkOk db gs) (hg : gs[i]? = some g)
    (hlevel : ∀ key, db.leases.level key ≤ db'.leases.level key) (hduty : g'.duty = g.duty)
    (hstored : db'.nodeWork.get w.id = some w)
    (hothers : ∀ id, id ≠ w.id → db'.nodeWork.get id = db.nodeWork.get id)
    (hreached : db.leases.level ("node:" ++ w.id) = w.fencingToken)
    (hlease : ∃ l ∈ g.leases, l.resourceKey = "node:" ++ w.id ∧ l.fencingToken = w.fencingToken)
    (hleases : ∀ l ∈ g'.leases, l ∈ g.leases ∧
      ¬(l.resourceKey = "node:" ++ w.id ∧ l.fencingToken = w.fencingToken))
    (hholdings : ∀ p ∈ g'.holdings, p ∈ g.holdings ∨ p = (w.id, w.fencingToken))
    (hworks : g'.works = g.works) : WorkOk db' (gs.set i g') := by
  have hmem : g ∈ gs := mem_of_getElem? hg
  obtain ⟨used, hused, husedKey, husedToken⟩ := hlease
  have hold : ∀ u ∈ gs.set i g', ∃ v ∈ gs, u.leases ⊆ v.leases ∧ u.duty = v.duty ∧
      u.works = v.works ∧ ∀ p ∈ u.holdings, p ∈ v.holdings ∨ p = (w.id, w.fencingToken) := by
    intro u hu
    rcases mem_or_eq_of_mem_set hu with hu | rfl
    · exact ⟨u, hu, List.Subset.refl _, rfl, rfl, fun _ hp => .inl hp⟩
    · exact ⟨g, hmem, fun l hl => (hleases l hl).1, hduty, hworks, hholdings⟩
  refine ⟨fun id x hx hr => ?_, fun u hu l hl => ?_, fun u hu id token hp => ?_,
    fun u hu id token hp u' hu' l hl hkey => ?_, ?_, fun u hu b hb => ?_⟩
  · by_cases hid : id = w.id
    · subst hid
      rw [← Option.mem_unique hstored hx, ← hreached]
      exact hlevel _
    · exact (h.running id x (hothers id hid ▸ hx) hr).trans (hlevel _)
  · obtain ⟨v, hv, hsub, -⟩ := hold u hu
    exact (h.leases v hv l (hsub hl)).trans (hlevel _)
  · obtain ⟨v, hv, -, -, -, hfrom⟩ := hold u hu
    rcases hfrom _ hp with hp | heq
    · have hv := h.holdings v hv id token hp
      refine ⟨hv.1.trans (hlevel _), fun x hx hr => ?_⟩
      by_cases hid : id = w.id
      · subst hid
        rw [← Option.mem_unique hstored hx, ← hreached]
        exact hv.1
      · exact hv.2 x (hothers id hid ▸ hx) hr
    · cases heq
      refine ⟨hreached ▸ hlevel _, fun x hx _ => ?_⟩
      rw [← Option.mem_unique hstored hx]
  · obtain ⟨v, hv, -, -, -, hfrom⟩ := hold u hu
    rcases hfrom _ hp with hp | heq
    · obtain ⟨v', hv', hsub, -⟩ := hold u' hu'
      exact h.fresh v hv id token hp v' hv' l (hsub hl) hkey
    -- the lease has been acquired by this coroutine only, and it is used up
    cases heq
    rcases mem_set_cases hu' with rfl | ⟨j, hj, hu'⟩
    · exact fun heq => (hleases l hl).2 ⟨hkey, heq⟩
    have hne := pairwise_getElem? (fun _ _ => Seen.Apart.symm) h.apart hj hu' hg l hl used hused
      (hkey.trans husedKey.symm)
    rwa [husedToken] at hne
  · refine pairwise_set (fun _ _ => Seen.Apart.symm) h.apart fun j u hj hu l hl l' hl' => ?_
    exact pairwise_getElem? (fun _ _ => Seen.Apart.symm) h.apart hj hu hg l hl l' (hleases l' hl').1
  obtain ⟨v, hv, -, hdutyv, hworksv, -⟩ := hold u hu
  rw [hdutyv]
  have hcopy := h.copies v hv b (hworksv ▸ hb)
  by_cases hid : b.id = w.id
  · rw [hid]
    refine ⟨by rw [hstored]; rfl, fun token hd x hx _ htoken => ?_⟩
    -- the token of a coroutine that executes the work differs from the one of a fresh lease
    have hholding : (w.id, token) ∈ v.holdings := by simp [Seen.holdings, hd]
    have hne := h.fresh v hv w.id token hholding g hmem used hused husedKey
    rw [← Option.mem_unique hstored hx] at htoken
    exact absurd (husedToken.trans htoken) hne
  · rw [hothers _ hid]
    exact hcopy

end Call

/-! ## Calls -/

/-- Calls that change what a coroutine knows of leases and node work. -/
def Req.OnWork : Req → Prop
  | .commitOwned _ _ _ _ | .getNodeWork _ | .acquire _ => True
  | _ => False

structure Seen.SameWork (g g' : Seen) : Prop where
  leases : g'.leases = g.leases
  claims : g'.claims = g.claims
  works : g'.works = g.works

lemma Seen.sameWork_wrote (g : Seen) (records : List Record) (version : Nat) :
    g.SameWork (g.wrote records version) := by
  obtain ⟨runs, flags, h⟩ := g.wrote_eq records version
  rw [h]
  exact ⟨rfl, rfl, rfl⟩

lemma Seen.note_offWork (g : Seen) {q : Req} (a : q.Resp) (hq : ¬q.OnWork) :
    g.SameWork (g.note q a) := by
  cases q with
  | commitOwned | getNodeWork | acquire => exact absurd trivial hq
  | scanRuns =>
    cases a with
    | error e => exact ⟨rfl, rfl, rfl⟩
    | ok rs =>
    obtain ⟨runs, flags, h⟩ := g.scan_eq rs
    show g.SameWork (rs.foldr (fun r g => g.saw r) g)
    rw [h]
    exact ⟨rfl, rfl, rfl⟩
  | commit records => cases a <;> first | exact g.sameWork_wrote _ _ | exact ⟨rfl, rfl, rfl⟩
  | readCancellation id =>
    cases a with
    | ok flag => exact ⟨rfl, rfl, rfl⟩
    | error e =>
      show g.SameWork (if e.code = .notFound then g.look id false else g)
      split <;> exact ⟨rfl, rfl, rfl⟩
  | bindSessionTurnRun r => rcases a with e | _ | _ <;> exact ⟨rfl, rfl, rfl⟩
  | getRun id | adoptRun id | getApproval id | listApprovals id | permission n r =>
    cases a <;> exact ⟨rfl, rfl, rfl⟩
  | _ => exact ⟨rfl, rfl, rfl⟩

variable {cfg : Config} {part : Part} {g : Seen} {gs : List Seen} {db db' : Db} {now i : Nat}
  {q : Req} {a : q.Resp} {inst : String} {o : Oracle} {w w' : World}

lemma Seen.Allow.shelved (h : g.Allow cfg part q) (hq : ¬q.OnWork) : Shelved q.records := by
  cases q with
  | commitOwned => exact absurd trivial hq
  | commit | commitSessionRun => exact h.2
  | bindSessionTurnRun r => exact shelved_of_nil rfl
  | _ => exact shelved_nil

variable {works : List NodeWork} {id : String} {x : NodeWork}

lemma Db.Worked.isSome {t t' : Table NodeWork} (h : Db.Worked t t' works) (hs : (t.get id).isSome) :
    (t'.get id).isSome := by
  rcases h.row id with hsame | ⟨w, -, -, hget, -⟩
  · rwa [hsame]
  · rw [hget]
    rfl

lemma Db.Worked.running {t t' : Table NodeWork} (h : Db.Worked t t' works)
    (hw : ∀ w ∈ works, w.state ≠ .running) (hx : t'.get id = some x)
    (hr : x.state = .running) : t.get id = some x := by
  rcases h.row id with hsame | ⟨w, hmem, -, hget, -⟩
  · rwa [← hsame]
  · rw [Option.mem_unique hx hget] at hr
    exact absurd hr (hw w hmem)

lemma NodeWork.Idle.not_running {w : NodeWork} (h : w.Idle) : w.state ≠ .running := by
  rcases h with h | h <;> rw [h] <;> decide

lemma Effect.worked (h : Effect now db db' q a) :
    ∃ works, (works = [] ∨ works = worksOf q.records) ∧ Db.Worked db.nodeWork db'.nodeWork works ∧
      ∀ key, db.leases.level key ≤ db'.leases.level key := by
  cases h with
  | quiet same _ => exact ⟨_, .inl rfl, same.works, same.levels⟩
  | write wrote _ _ => exact ⟨_, .inr rfl, wrote.works, wrote.levels⟩
  | flag _ flagged =>
    exact ⟨[], .inl rfl, flagged.works ▸ .refl _, fun _ => flagged.leases ▸ le_rfl⟩

lemma WorkOk.callRead {res : Except Error NodeWork} (h : WorkOk w.db gs)
    (hg : gs[i]? = some g) (hread : readDb o w (fun db => db.getNodeWork id) = (res, w')) :
    WorkOk w'.db (gs.set i (g.note (.getNodeWork id) res)) := by
  obtain rfl : w' = w := (congrArg Prod.snd hread).symm
  refine h.callQuiet hg (fun _ => le_rfl) (fun _ hs => hs) (g.grows_note (.getNodeWork id) res).duty
    (fun _ _ hx _ => hx) ?_ ?_ ?_
  · cases res <;> exact List.Subset.refl _
  · cases res <;> exact List.Subset.refl _
  intro b hb
  cases res with
  | error e => exact .inl hb
  | ok x =>
  rcases mem_cons.mp hb with rfl | hb
  · have hget := Db.getNodeWork_eq_ok.mp (readDb_eq hread).1
    rw [← Table.key_of_get hget] at hget
    exact .inr hget
  · exact .inl hb

variable {key : String}

lemma WorkOk.callLease {res : Except Error (Option LeaseRecord)} (h : WorkOk w.db gs)
    (hg : gs[i]? = some g)
    (hacquire : onLeases o w (fun l => l.acquire o.ticks inst key cfg.leaseTtlMs) = (res, w')) :
    WorkOk w'.db (gs.set i (g.note (.acquire key) res)) := by
  have hwrote := onLeases_wrote (Leases.level_le_acquire _ _ _ _ _) hacquire
  have hduty := (g.grows_note (.acquire key) res).duty
  rcases onDb_cases hacquire with ⟨⟨e, rfl⟩, rfl⟩ | hdb
  · exact h.callQuiet hg (fun _ => le_rfl) (fun _ hs => hs) hduty (fun _ _ hx _ => hx)
      (List.Subset.refl _) (List.Subset.refl _) fun _ hb => .inl hb
  obtain ⟨hres, hleases⟩ := Prod.mk.inj hdb
  have htable : w'.db.nodeWork = w.db.nodeWork := by rw [← hleases]
  rcases res with e | _ | lease
  · exact h.callQuiet hg hwrote.levels (fun _ hs => htable ▸ hs) hduty (fun _ _ hx _ => htable ▸ hx)
      (List.Subset.refl _) (List.Subset.refl _) fun _ hb => .inl hb
  · exact h.callQuiet hg hwrote.levels (fun _ hs => htable ▸ hs) hduty (fun _ _ hx _ => htable ▸ hx)
      (List.Subset.refl _) (List.Subset.refl _) fun _ hb => .inl hb
  obtain ⟨hnew, hreached⟩ := Leases.level_acquire hres
  have hkey := (Leases.acquire_lease hres).1
  refine h.callAcquire hg hwrote.levels hduty htable ?_ ?_ rfl rfl rfl
  · rw [hkey]
    exact hnew
  · rw [hkey, ← hleases]
    exact hreached

lemma Seen.SameWork.holdings {g g' : Seen} (h : g.SameWork g') (hduty : g'.duty = g.duty) :
    g'.holdings = g.holdings := by
  unfold Seen.holdings
  rw [hduty, h.claims]

lemma Seen.holdings_spend {g : Seen} {token : Nat}
    (h : ∀ w ∈ works, w.state ≠ .running) : (g.spend key token works).holdings = g.holdings := by
  have hnone : works.filter (fun w => w.state = .running) = [] :=
    filter_eq_nil_iff.mpr fun w hw => by simp [h w hw]
  simp only [Seen.holdings, Seen.spend, hnone, map_nil, nil_append]

lemma WorkOk.callOwned {records : List Record} {owner : String} {token : Nat}
    {res : Except Error Nat} (h : WorkOk db gs) (hg : gs[i]? = some g)
    (hallow : g.AllowWorks part key token (worksOf records))
    (he : Effect now db db' (.commitOwned records key owner token) res) :
    WorkOk db' (gs.set i (g.note (.commitOwned records key owner token) res)) := by
  have hduty := (g.grows_note (.commitOwned records key owner token) res).duty
  cases he with
  | flag request _ => cases request
  | quiet same refused =>
    cases res with
    | ok version => exact refused.elim
    | error e =>
    refine h.callQuiet hg same.levels (fun _ => same.works.isSome) hduty
      (fun _ _ => same.works.running (by simp)) ?_ ?_ fun b hb => .inl hb
    · exact filter_subset_self _
    · exact List.Subset.refl _
  | write wrote accepted fenced =>
  have hw : db.Wrote db' records := wrote
  cases accepted
  have hsame := g.sameWork_wrote records db'.journal.length
  have hwd : (g.wrote records db'.journal.length).duty = g.duty := (g.grows_wrote _ _).duty
  have hquiet : (∀ x ∈ worksOf records, x.state ≠ .running) → WorkOk db'
      (gs.set i (g.note (.commitOwned records key owner token) (.ok db'.journal.length))) := by
    intro hnone
    refine h.callQuiet hg hw.levels (fun _ => hw.works.isSome) hduty
      (fun _ _ => hw.works.running hnone) ?_ ?_ fun b hb => .inl ?_
    · exact fun l hl => hsame.leases ▸ (mem_filter.mp hl).1
    · show ((g.wrote _ _).spend key token _).holdings ⊆ g.holdings
      rw [Seen.holdings_spend hnone, hsame.holdings hwd]
      exact List.Subset.refl _
    · exact hsame.works ▸ hb
  rcases hallow with hidle | ⟨x, hx, hlaw⟩
  · exact hquiet fun x hx => (hidle x hx).not_running
  cases hlaw with
  | failed hstate =>
    refine hquiet fun y hy => ?_
    rw [hx, mem_singleton] at hy
    rw [hy, hstate]
    decide
  | result hresult =>
    refine hquiet fun y hy => ?_
    rw [hx, mem_singleton] at hy
    rw [hy]
    rcases hresult.state with hs | hs <;> rw [hs] <;> decide
  | claim state resource fence lease =>
  subst resource fence
  have hstored : db'.nodeWork.get x.id = some x := by
    rcases hw.works.one x hx with ⟨y, -, heq⟩ | hone
    · -- a running record does not repeat a terminal one
      have hterm := isTerminal_of_equivalent heq
      rw [state] at hterm
      cases hterm
    · exact hone.1
  refine h.callClaim hg hw.levels hduty hstored (fun id hid => ?_)
    (Leases.holdsAt_level fenced) lease ?_ ?_
    hsame.works
  · refine (hw.works.row id).resolve_right ?_
    rintro ⟨y, hy, hyid, -⟩
    rw [hx, mem_singleton] at hy
    exact hid (hy ▸ hyid).symm
  · intro l hl
    obtain ⟨hmem, hne⟩ := mem_filter.mp hl
    exact ⟨hsame.leases ▸ hmem, of_decide_eq_true hne⟩
  intro p hp
  simp only [Seen.note, Seen.spend, Seen.holdings, hx, hwd, hsame.claims, state,
    decide_true, filter_cons_of_pos, filter_nil, map_cons, map_nil,
    mem_append, mem_cons, not_mem_nil, or_false] at hp
  rcases hp with hp | hp | hp
  · exact .inl (mem_append_left _ hp)
  · exact .inr hp
  · exact .inl (mem_append_right _ hp)

/-- **One call** keeps the invariant. -/
lemma WorkOk.call (h : WorkOk w.db gs) (hg : gs[i]? = some g) (hallow : g.Allow cfg part q)
    (hperform : perform cfg inst o w q = some (a, w')) :
    WorkOk w'.db (gs.set i (g.note q a)) := by
  have he := perform_effect hallow hperform
  obtain ⟨works, hworks, hworked, hlevel⟩ := he.worked
  have hduty := (g.grows_note q a).duty
  have hkeep : ∀ id, (w.db.nodeWork.get id).isSome →
      (w'.db.nodeWork.get id).isSome := fun _ => hworked.isSome
  by_cases hq : q.OnWork
  · cases q with
    | getNodeWork id => exact h.callRead hg (Option.some.inj hperform)
    | acquire key => exact h.callLease hg (Option.some.inj hperform)
    | commitOwned records key owner token => exact h.callOwned hg hallow.2.2 he
    | _ => exact hq.elim
  have hsame := g.note_offWork a hq
  have hrunning : ∀ x ∈ works, x.state ≠ .running := by
    rcases hworks with rfl | rfl
    · simp
    · exact fun x hx => (hallow.shelved hq x hx).not_running
  refine h.callQuiet hg hlevel hkeep hduty (fun id x => hworked.running hrunning)
    (by rw [hsame.leases]; exact List.Subset.refl _)
    (by rw [hsame.holdings hduty]; exact List.Subset.refl _) fun b hb => .inl ?_
  rwa [hsame.works] at hb

/-! ## Runs -/

variable {c c' : Cluster} {l : Action}

def Cluster.sights (c : Cluster) : List Seen := c.threads.map Thread.seen

lemma Seen.New.spawned {s : Spawn} (hallow : g.Allow cfg part q) (hw : w.spawned = [])
    (hspawns : Spawns w w' q) (hs : s ∈ w'.spawned) (fuel : Nat)
    (hmem : g.note q a ∈ gs) : (s.thread cfg inst fuel).seen.New gs := by
  cases hspawns with
  | none h =>
    rw [h, hw] at hs
    cases hs
  | executor _ h =>
    rw [h, hw, nil_append, mem_singleton] at hs
    subst hs
    exact ⟨rfl, rfl, nofun⟩
  | branches h =>
    rw [h, hw, nil_append, mem_map] at hs
    obtain ⟨job, -, rfl⟩ := hs
    exact ⟨rfl, rfl, nofun⟩
  | work request h =>
  subst request
  rw [h, hw, nil_append, mem_singleton] at hs
  subst hs
  refine ⟨rfl, rfl, fun p hp => ⟨g, hmem, mem_append_right _ ?_⟩⟩
  rw [mem_singleton.mp hp]
  exact hallow

/-- **Every step** keeps the invariant. -/
lemma WorkOk.step (h : WorkOk c.world.db c.sights) (hok : ClusterOk cfg c)
    (hstep : Cluster.step cfg c l = some c') : WorkOk c'.world.db c'.sights := by
  cases l with
  | launch inst op =>
    simp only [Cluster.step] at hstep
    split at hstep
    · cases hstep
    cases hstep
    unfold sights
    rw [map_append]
    refine h.spawn fun u hu => ?_
    rw [mem_singleton.mp hu]
    exact ⟨rfl, rfl, by intros; contradiction⟩
  | call i o fuel =>
    simp only [Cluster.step, Cluster.call] at hstep
    split at hstep
    · cases hstep
    rename_i t hget
    split at hstep
    · cases hstep
    rename_i q k hprog
    obtain ⟨⟨a, w'⟩, hperform, rfl⟩ := Option.map_eq_some_iff.mp hstep
    have hlaw := (hok.threads t (mem_of_getElem? hget)).law
    rw [hprog] at hlaw
    have hg : c.sights[i]? = some t.seen := by
      unfold sights
      rw [getElem?_map, hget]
      rfl
    have hcall := h.call hg hlaw.1 hperform
    have hmem : t.seen.note q a ∈ c.sights.set i (t.seen.note q a) :=
      mem_set (List.getElem?_eq_some_iff.mp hg).1 _
    have hsights : sights ⟨{ w' with spawned := [] },
        c.threads.set i { t with seen := t.seen.note q a, prog := k a } ++
          w'.spawned.map (Spawn.thread cfg t.inst fuel)⟩ =
        c.sights.set i (t.seen.note q a) ++
          (w'.spawned.map (Spawn.thread cfg t.inst fuel)).map Thread.seen := by
      unfold sights
      rw [map_append, map_set]
    rw [hsights]
    refine hcall.spawn fun u hu => ?_
    obtain ⟨new, hnew, rfl⟩ := mem_map.mp hu
    obtain ⟨s, hs, rfl⟩ := mem_map.mp hnew
    exact .spawned hlaw.1 hok.spawned (perform_spawns hperform) hs fuel hmem
  | crash inst =>
    cases hstep
    exact h.sublist (List.Sublist.map _ filter_sublist)
  | maintain inst mode stopping =>
    cases hstep
    exact h
  | lose inst id =>
    cases hstep
    rw [World.updateActive_db]
    exact h
  | coordinate t call =>
    cases hstep
    exact h.quiet (c.world.db.leases.perform_level t call).mono (fun _ hs => hs) fun _ _ hx _ => hx

lemma workOk_init : WorkOk init.world.db init.sights where
  running _ _ hx := absurd hx nofun
  leases _ hu := absurd hu not_mem_nil
  holdings _ hu := absurd hu not_mem_nil
  fresh _ hu := absurd hu not_mem_nil
  apart := List.Pairwise.nil
  copies _ hu := absurd hu not_mem_nil

/-- **The invariant holds in every reachable deployment.** -/
theorem workOk_of_reach {C : Cluster → Action → Prop}
    (h : Reach (Cluster.step cfg) C .init c) : WorkOk c.world.db c.sights := by
  refine (h.invariant (I := fun c => ClusterOk cfg c ∧ WorkOk c.world.db c.sights)
    ⟨clusterOk_init, workOk_init⟩ ?_).2
  exact fun _ _ _ ⟨hok, hwork⟩ _ hstep => ⟨(hok.step hstep).1, hwork.step hok hstep⟩

/-! ## Terminal work -/

section Refusal

variable {x y : NodeWork} {records : List Record} {t : Ticks} {owner : String} {token : Nat}

section

variable (hy : y ∈ worksOf records) (hx : db.nodeWork.get y.id = some x)
  (hterm : x.state.isTerminal) (hne : equivalentTerminalNodeWork x y = false)
include hy hx hterm hne

lemma Db.commit_refuses : ∃ e, db.commit records = (.error e, db) := by
  obtain ⟨e, he⟩ := Db.writeRecords_refuses hy hx hterm hne
  exact ⟨e, by simp [Db.commit, he, Db.settle]⟩

lemma Db.commitOwned_refuses {key : String} : ∃ e leases, db.commitOwned t records key owner token =
      (.error e, { db with leases := leases }) := by
  have hx' : ({ db with leases := db.leases.advance t } : Db).nodeWork.get y.id = some x := hx
  obtain ⟨e, he⟩ := Db.commit_refuses hy hx' hterm hne
  cases hproof : db.leases.ownershipProof t key owner token with
  | error e' => exact ⟨e', db.leases.advance t, by simp [Db.commitOwned, hproof]⟩
  | ok _ =>
    refine ⟨e, db.leases.advance t, ?_⟩
    rw [← he]
    simp [Db.commitOwned, hproof, Db.commit]

lemma Db.commitSessionRun_refuses : ∃ res leases, db.commitSessionRun t records owner token =
      (res, { db with leases := leases }) := by
  have hx' : ({ db with leases := db.leases.advance t } : Db).nodeWork.get y.id = some x := hx
  obtain ⟨e, he⟩ := Db.writeRecords_refuses hy hx' hterm hne
  unfold Db.commitSessionRun
  simp only [he]
  repeat' split
  all_goals exact ⟨_, _, rfl⟩

end

end Refusal

lemma perform_refuses {x y : NodeWork} (hy : y ∈ worksOf q.records)
    (hx : w.db.nodeWork.get y.id = some x) (hterm : x.state.isTerminal)
    (hne : equivalentTerminalNodeWork x y = false)
    (h : perform cfg inst o w q = some (a, w')) :
    q.Refused a ∧ w'.db = { w.db with leases := w'.db.leases } := by
  cases q with
  | commit records =>
    rcases onDb_cases (Option.some.inj h) with ⟨⟨e, rfl⟩, rfl⟩ | hdb
    · exact ⟨trivial, rfl⟩
    obtain ⟨e, he⟩ := Db.commit_refuses hy hx hterm hne
    obtain ⟨rfl, hsame⟩ := Prod.mk.inj (he.symm.trans hdb)
    exact ⟨trivial, by rw [← hsame]⟩
  | commitOwned records key owner token =>
    rcases onDb_cases (Option.some.inj h) with ⟨⟨e, rfl⟩, rfl⟩ | hdb
    · exact ⟨trivial, rfl⟩
    obtain ⟨e, leases, he⟩ := Db.commitOwned_refuses hy hx hterm hne
    obtain ⟨rfl, hsame⟩ := Prod.mk.inj (he.symm.trans hdb)
    exact ⟨trivial, by rw [← hsame]⟩
  | commitSessionRun records owner token =>
    rcases onDb_cases (Option.some.inj h) with ⟨⟨e, rfl⟩, rfl⟩ | hdb
    · exact ⟨trivial, rfl⟩
    obtain ⟨res, leases, he⟩ := Db.commitSessionRun_refuses hy hx hterm hne
    obtain ⟨rfl, hsame⟩ := Prod.mk.inj (he.symm.trans hdb)
    exact ⟨trivial, by rw [← hsame]⟩
  | _ => cases hy

lemma ClusterOk.worked (hok : ClusterOk cfg c) (hstep : Cluster.step cfg c l = some c') :
    ∃ works, Db.Worked c.world.db.nodeWork c'.world.db.nodeWork works := by
  cases (hok.step hstep).2 with
  | quiet same => exact ⟨_, same.works⟩
  | call _ _ _ effect =>
    obtain ⟨works, -, hworked, -⟩ := effect.worked
    exact ⟨works, hworked⟩

/-! ## Claims and results -/

def Cluster.Claims (c c' : Cluster) (k : NodeWork) : Prop :=
  k.state = .running ∧ c'.world.db.nodeWork.get k.id = some k ∧
    c.world.db.nodeWork.get k.id ≠ some k

/-- The step completes the work: a coroutine that executes it stores this result. -/
def Cluster.Completes (c : Cluster) (l : Action) (c' : Cluster) (w : NodeWork) : Prop :=
  (w.state = .completed ∨ w.state = .failed) ∧ c'.world.db.nodeWork.get w.id = some w ∧
    c.world.db.nodeWork.get w.id ≠ some w ∧
    ∃ i o fuel t q, l = .call i o fuel ∧ c.nextCall i = some (t, q) ∧ t.part = .branch

/-- The step does not claim the work with this identifier. -/
def Unclaimed (cfg : Config) (id : String) (c : Cluster) (l : Action) : Prop :=
  ∀ c' k, Cluster.step cfg c l = some c' → c.Claims c' k → k.id ≠ id

/-- The latest claim of a work when a deployment has come to `c`: a step made it, and no later one
has claimed the work again. -/
def LatestClaim (cfg : Config) (k : NodeWork) (c : Cluster) : Prop :=
  ∃ c₀ l₀ c₁, Reach (Cluster.step cfg) always .init c₀ ∧
    Cluster.step cfg c₀ l₀ = some c₁ ∧ c₀.Claims c₁ k ∧
    Reach (Cluster.step cfg) (Unclaimed cfg k.id) c₁ c

lemma Unclaimed.running (h : Unclaimed cfg id c l)
    (hstep : Cluster.step cfg c l = some c') (hx : c'.world.db.nodeWork.get id = some x)
    (hr : x.state = .running) : c.world.db.nodeWork.get id = some x := by
  have hid : x.id = id := Table.key_of_get hx
  by_contra hne
  exact h c' x hstep ⟨hr, hid ▸ hx, hid ▸ hne⟩ hid

lemma LatestClaim.stored {k x : NodeWork} (h : LatestClaim cfg k c)
    (hx : c.world.db.nodeWork.get k.id = some x) (hr : x.state = .running) : x = k := by
  obtain ⟨c₀, l₀, c₁, -, -, hclaims, hreach⟩ := h
  refine hreach.invariant (I := fun c => ∀ x, c.world.db.nodeWork.get k.id = some x →
    x.state = .running → x = k) ?_ ?_ x hx hr
  · exact fun x hx _ => Option.mem_unique hx hclaims.2.1
  · exact fun d l d' ih hun hstep x hx hr => ih x (hun.running hstep hx hr) hr

lemma exists_latestClaim (h : Reach (Cluster.step cfg) always .init c)
    (hx : c.world.db.nodeWork.get id = some x) (hr : x.state = .running) :
    ∃ k, k.id = id ∧ LatestClaim cfg k c := by
  suffices hsplit : (∃ k, k.id = id ∧ LatestClaim cfg k c) ∨
      ∀ x, c.world.db.nodeWork.get id = some x → x.state ≠ .running from
    hsplit.resolve_right fun hnone => hnone x hx hr
  clear hx hr
  induction h with
  | refl => exact .inr fun x hx => absurd hx nofun
  | @step d d' l hreach _ hstep ih =>
    by_cases hun : Unclaimed cfg id d l
    · refine ih.imp ?_ fun hnone x hx hr => hnone x (hun.running hstep hx hr) hr
      rintro ⟨k, rfl, c₀, l₀, c₁, h₀, h₁, hclaims, hrest⟩
      exact ⟨k, rfl, c₀, l₀, c₁, h₀, h₁, hclaims, hrest.step hun hstep⟩
    -- this step claims it
    simp only [Unclaimed, not_forall, not_not] at hun
    obtain ⟨d'', k, hstep', hclaims, rfl⟩ := hun
    obtain rfl : d' = d'' := Option.mem_unique hstep hstep'
    exact .inl ⟨k, rfl, d, l, d', hreach, hstep, hclaims, .refl⟩

lemma running_of_result {source : NodeWorkState} {w : NodeWork}
    (hw : w.state = .completed ∨ w.state = .failed)
    (hvalid : validNodeWorkTransition source w.state) (hlive : source.isTerminal = false) :
    source = .running := by
  rcases hw with hw | hw <;> rw [hw] at hvalid <;> cases source <;>
    first | rfl | exact absurd hvalid (by decide) | exact absurd hlive (by decide)

/-- **Results belong to the stored claim.** The fence says that the token of the executing coroutine
is the last one given out, the invariant that the claim was made with it and read by it. -/
lemma WorkOk.completes (h : WorkOk c.world.db c.sights) (hok : ClusterOk cfg c)
    (hstep : Cluster.step cfg c l = some c') (hc : c.Completes l c' x) :
    ∃ k, c.world.db.nodeWork.get x.id = some k ∧ k.state = .running ∧
      x.attemptId = k.attemptId ∧ x.fencingToken = k.fencingToken := by
  obtain ⟨hstate, hstored, hnew, i, o, fuel, t, q, rfl, hnext, hpart⟩ := hc
  have hidle : ¬x.Idle := by
    rcases hstate with hs | hs <;> simp [NodeWork.Idle, hs]
  have hwritten : ∀ works, Db.Worked c.world.db.nodeWork c'.world.db.nodeWork works → x ∈ works ∧
      ∀ y, c.world.db.nodeWork.get x.id = some y → y.state.isTerminal = false := by
    intro works hworked
    rcases hworked.row x.id with hsame | ⟨y, hy, -, hget, hlive⟩
    · exact absurd (hsame ▸ hstored) hnew
    · exact ⟨Option.mem_unique hget hstored ▸ hy, hlive⟩
  cases (hok.step hstep).2 with
  | quiet same => exact absurd (hwritten _ same.works).1 not_mem_nil
  | @call _ _ _ t' q' a next ok allow effect =>
  cases hnext.symm.trans next
  rw [hpart] at allow
  cases effect with
  | quiet same _ => exact absurd (hwritten _ same.works).1 not_mem_nil
  | flag _ flagged => exact absurd (flagged.works ▸ hstored) hnew
  | write wrote accepted fenced =>
  obtain ⟨hmem, hlive⟩ := hwritten _ wrote.works
  by_cases hq : q.OnWork
  · cases q with
    | getNodeWork | acquire => cases hmem
    | commitOwned records key owner token =>
      have hlevel : c.world.db.leases.level key = token := Leases.holdsAt_level fenced
      rcases allow.2.2 with hall | ⟨y, hy, hlaw⟩
      · exact absurd (hall x hmem) hidle
      obtain rfl : x = y := by
        have hmem : x ∈ worksOf records := hmem
        rw [hy] at hmem
        exact mem_singleton.mp hmem
      cases hlaw with
      | result hresult =>
      obtain ⟨-, rfl, rfl, hduty, b, hb, hid, hattempt⟩ := hresult
      have hseen : t.seen ∈ c.sights :=
        mem_map_of_mem (mem_of_nextCall hnext)
      obtain ⟨hsome, hcopy⟩ := h.copies t.seen hseen b hb
      rw [hid] at hsome hcopy
      obtain ⟨k, hk⟩ := Option.isSome_iff_exists.mp hsome
      have hvalid : validNodeWorkTransition k.state x.state := by
        rcases wrote.works.one x hy with ⟨z, hz, heq⟩ | hone
        · have hterm := hlive z hz
          simp [equivalentTerminalNodeWork, hterm] at heq
        · exact hone.2 k hk
      have hrunning := running_of_result hstate hvalid (hlive k hk)
      have hholding : (x.id, x.fencingToken) ∈ t.seen.holdings := by
        simp [Seen.holdings, hduty]
      have hle := (h.holdings t.seen hseen _ _ hholding).2 k hk hrunning
      have hge := h.running x.id k hk hrunning
      have htoken : k.fencingToken = x.fencingToken := by omega
      refine ⟨k, hk, hrunning, ?_, htoken.symm⟩
      rw [← hattempt]
      exact hcopy x.fencingToken hduty k hk hrunning htoken
    | _ => exact hq.elim
  · exact absurd (allow.shelved hq x hmem) hidle

/-- **Distributed work is completed once, by its latest claim.** Whatever instances do: a terminal
record stays, and a call that would write another one in its place is refused as a whole; a result
stored by a coroutine that executes the work has the attempt and the fencing token of the latest
claim. -/
theorem node_work_completed_once (h : Reach (Cluster.step cfg) always .init c)
    (hstep : Cluster.step cfg c l = some c') :
    (∀ id x, c.world.db.nodeWork.get id = some x → x.state.isTerminal = true →
      c'.world.db.nodeWork.get id = some x) ∧
    (∀ i t q o a w', c.nextCall i = some (t, q) → perform cfg t.inst o c.world q = some (a, w') →
      ∀ y ∈ worksOf q.records, ∀ x, c.world.db.nodeWork.get y.id = some x →
        x.state.isTerminal = true → w'.db.nodeWork.get y.id = some x ∧
          (equivalentTerminalNodeWork x y = false →
            q.Refused a ∧ w'.db = { c.world.db with leases := w'.db.leases })) ∧
    ∀ x, c.Completes l c' x → (∃ k, k.id = x.id ∧ LatestClaim cfg k c) ∧
      ∀ k, k.id = x.id → LatestClaim cfg k c →
        x.attemptId = k.attemptId ∧ x.fencingToken = k.fencingToken := by
  have hok := clusterOk_of_reach h
  refine ⟨fun id x hx hterm => ?_, fun i t q o a w' hnext hperform y hy x hx hterm => ⟨?_, ?_⟩,
    fun x hc => ?_⟩
  · obtain ⟨works, hworked⟩ := hok.worked hstep
    exact hworked.terminal hx hterm
  · obtain ⟨works, -, hworked, -⟩ := (perform_effect (hok.allow hnext) hperform).worked
    exact hworked.terminal hx hterm
  · exact fun hne => perform_refuses hy hx hterm hne hperform
  obtain ⟨stored, hget, hrunning, hattempt, htoken⟩ := (workOk_of_reach h).completes hok hstep hc
  refine ⟨exists_latestClaim h hget hrunning, fun k hk hlatest => ?_⟩
  obtain rfl := hlatest.stored (hk ▸ hget) hrunning
  exact ⟨hattempt, htoken⟩

/-- The first instance executes the pipeline until its branches are queued, the second one claims the
first branch and executes it until its result is about to be written. -/
def twoFunctionsRun : List Action :=
  pipelineStart twoFunctions ++ calls 0 8 ++ [.launch "A" .claim] ++ calls 1 9 ++ calls 2 49 ++
    [.launch "B" .claimWork] ++ calls 3 13 ++ calls 4 23

/-- A branch is claimed and completed. -/
theorem node_work_completed_once_left : ∃ c c' x k,
    Reach (Cluster.step (pipelineConfig twoFunctions)) always .init c ∧
      Cluster.step (pipelineConfig twoFunctions) c (.call 4 {} 100) = some c' ∧
      c.Completes (.call 4 {} 100) c' x ∧ LatestClaim (pipelineConfig twoFunctions) k c ∧
      x.attemptId = k.attemptId ∧ x.fencingToken = k.fencingToken := by
  let id := "uuuuuuuuu:0"
  obtain ⟨c, hreach, hview⟩ := exists_reach (M := Cluster.step (pipelineConfig twoFunctions))
    (C := always) (s := init) (f := fun c => ((c.nextCall 4).map fun t => t.1.part,
      (c.world.db.nodeWork.get id).map fun x => x.state,
      (Cluster.step (pipelineConfig twoFunctions) c (.call 4 {} 100)).bind fun c' =>
        (c'.world.db.nodeWork.get id).map fun x => x.state))
    (v := (some .branch, some .running, some .completed)) twoFunctionsRun (by decide +kernel)
  simp only [Prod.mk.injEq, Option.map_eq_some_iff, Option.bind_eq_some_iff] at hview
  obtain ⟨⟨⟨t, q⟩, hnext, hpart⟩, ⟨y, hy, hrunning⟩, c', hstep, x, hx, hcompleted⟩ := hview
  have hid : x.id = id := Table.key_of_get hx
  have hcompletes : c.Completes (.call 4 {} 100) c' x := by
    refine ⟨.inl hcompleted, hid ▸ hx, fun hsame => ?_, 4, {}, 100, t, q, rfl, hnext, hpart⟩
    rw [hid, hy] at hsame
    rw [Option.some.inj hsame, hcompleted] at hrunning
    cases hrunning
  obtain ⟨⟨k, hk, hlatest⟩, hall⟩ := (node_work_completed_once hreach hstep).2.2 x hcompletes
  exact ⟨c, c', x, k, hreach, hstep, hcompletes, hlatest, hall k hk hlatest⟩

end Laso
