import Laso.Workers.Outcomes

/-!
# The token budget of a run

When usage is reported for a job, `budget_violation` compares the tokens of the job, together with
those of the other jobs of its run, with `maxTokensPerRun`. It uses the total of each job. A total
that is not reported is derived by `merge_usage` from the numbers of input and output tokens, once:
later reports of these numbers leave it as it is. So the check sees what a job has used only if the
sum of the two numbers does not change (`tokens_exceed_budget`). It also needs a job to report both
numbers, and it is not made for usage that comes with the retrieved result of a tool call.

`tokens_within_budget` says that the budget is kept by runs in which reports meet these conditions
and the jobs of a run are few enough to be listed. The invariant has two parts: a job's total is the
sum of its tokens (`Tallied`), and the sum over a run is within the budget.
-/

namespace Laso

open List Table JobRecord Nat

def JobRecord.tokens (j : JobRecord) : Nat :=
  j.usage.inputTokens.getD 0 + j.usage.outputTokens.getD 0

def JobRecord.budgetFailed (j : JobRecord) : Bool := j.state == .failed && j.failureKind == .budget

def JobRecord.share (run : String) (j : JobRecord) : Nat :=
  if j.runId = run ∧ j.budgetFailed = false then j.tokens else 0

def ManagerState.spent (s : ManagerState) (run : String) : Nat :=
  (s.jobs.rows.map (share run)).sum

/-- A report that leaves the total right: it has no numbers, or both, and they make up the total that
is stored, if there is one. Numbers for a job that is over must not be new. -/
def WorkerUsage.agrees (u : WorkerUsage) (j : JobRecord) : Bool :=
  u.totalTokens == none && match u.inputTokens, u.outputTokens with
    | none, none => true
    | some input, some output => decide (input + output ≤ maxUInt64) &&
        (j.usage.totalTokens == some (input + output) ||
          (j.usage.totalTokens == none && !j.state.isTerminal))
    | _, _ => false

/-- The report of a step agrees with the stored job, whose run has at most 10000 jobs. -/
def Agreeing (s : ManagerState) (l : ManagerStep) : Prop :=
  match s.told l with
  | some (id, some u, _) => ∀ j ∈ s.jobs.get id, u.agrees j ∧
      (s.jobs.rows.filter fun i => decide (j.runId = "" ∨ i.runId = j.runId)).length ≤ 10000
  | _ => True

instance (s : ManagerState) (l : ManagerStep) : Decidable (Agreeing s l) := by
  unfold Agreeing
  split <;> infer_instance

/-! ## The total of a job -/

/-- The total is the sum of the tokens, or nothing has been reported. -/
def WorkerUsage.Tallied (u : WorkerUsage) : Prop :=
  (u.inputTokens = none ∧ u.outputTokens = none ∧ u.totalTokens = none) ∨
    ∃ input output, u.inputTokens = some input ∧ u.outputTokens = some output ∧
      u.totalTokens = some (input + output)

variable {j : JobRecord}

lemma WorkerUsage.Tallied.merge {u : WorkerUsage} (hj : j.usage.Tallied)
    (h : u.agrees j) : (j.usage.merge u).Tallied := by
  simp only [agrees, Bool.and_eq_true, beq_iff_eq] at h
  obtain ⟨htotal, h⟩ := h
  simp only [WorkerUsage.merge, total, tokenSum, htotal, Tallied]
  split at h
  · rename_i hin hout
    simp only [hin, hout]
    rcases hj with ⟨hi, ho, ht⟩ | ⟨input, output, hi, ho, ht⟩
    · exact .inl (by simp [hi, ho, ht])
    · exact .inr ⟨input, output, by simp [hi, ho, ht]⟩
  · rename_i input output hin hout
    refine .inr ⟨input, output, by simp [hin], by simp [hout], ?_⟩
    simp only [Bool.and_eq_true, Bool.or_eq_true, decide_eq_true_eq, beq_iff_eq] at h
    obtain ⟨hmax, ht | ⟨ht, -⟩⟩ := h
    · simp [ht]
    · have hsum : input ≤ maxUInt64 - output := by omega
      simp [ht, hin, hout, hsum]
  · cases h

lemma WorkerUsage.Tallied.total_getD (h : j.usage.Tallied) :
    j.usage.total.getD 0 = j.tokens := by
  rcases h with ⟨hi, ho, ht⟩ | ⟨input, output, hi, ho, ht⟩ <;>
    simp [total, tokenSum, tokens, hi, ho, ht]

lemma tokens_merge_of_over {u : WorkerUsage} {j j' : JobRecord} (hj : j.usage.Tallied)
    (h : u.agrees j) (hover : j.state.isTerminal) (hmerge : j'.usage = j.usage.merge u) :
    j'.tokens = j.tokens := by
  have hj' : j'.usage.Tallied := hmerge ▸ hj.merge h
  rw [← hj.total_getD, ← hj'.total_getD, hmerge]
  simp only [WorkerUsage.agrees, Bool.and_eq_true, beq_iff_eq] at h
  obtain ⟨htotal, h⟩ := h
  rcases hj with ⟨hi, ho, ht⟩ | ⟨input, output, hi, ho, ht⟩
  · split at h
    · rename_i hin hout
      simp [WorkerUsage.merge, WorkerUsage.total, WorkerUsage.tokenSum, htotal, hin, hout, hi, ho, ht]
    · simp [ht, hover] at h
    · cases h
  · simp [WorkerUsage.merge, WorkerUsage.total, htotal, ht]

/-! ## The check -/

/-- What `budget_violation` adds up is the total of the other jobs. -/
lemma priorTokens_eq {id : String} {n m : Nat} {rows : List JobRecord}
    (h : priorTokens id n rows = some m) :
    m = n + (rows.map fun j => if j.id = id then 0 else j.usage.total.getD 0).sum := by
  induction rows generalizing n with
  | nil =>
    simp only [priorTokens, Option.some.injEq] at h
    simp [h]
  | cons j rest ih =>
    unfold priorTokens at h
    rw [map_cons, sum_cons]
    split at h
    · rename_i hid
      rw [ih h, if_pos hid, zero_add]
    rename_i hid
    rw [if_neg hid]
    split at h
    · rename_i hnone
      rw [ih h, hnone, Option.getD_none, zero_add]
    rename_i tokens hsome
    split at h
    · rw [ih h, hsome, Option.getD_some, add_assoc]
    · cases h

lemma tokens_le_of_budgetViolation {cfg : ManagerConfig} {rows : List JobRecord}
    (hM : 0 < cfg.maxTokensPerRun) (h : j.budgetViolation cfg rows = none) {tokens : Nat}
    (htokens : j.usage.total = some tokens) :
    tokens + (rows.map fun i => if i.id = j.id then 0 else i.usage.total.getD 0).sum ≤
      cfg.maxTokensPerRun := by
  have hbudget : cfg.hasBudget := by
    simp [ManagerConfig.hasBudget, pos_iff_ne_zero.mp hM]
  rw [budgetViolation, hbudget, if_pos rfl] at h
  have hrun : j.usage.runViolation cfg rows j.id = none := by
    cases hv : j.usage.violation cfg with
    | none => simpa [hv] using h
    | some v => simp [hv] at h
  unfold WorkerUsage.runViolation at hrun
  split at hrun
  · cases hrun
  rename_i prior hprior
  have hsum := priorTokens_eq hprior
  split at hrun
  · cases hrun
  rename_i hfits
  simp only [htokens, Option.any_some, decide_eq_true_eq, not_and, not_or, not_lt] at hfits
  omega

/-! ## The sum of a run -/

lemma rows_put_split {α : Type} [Keyed α] {t : Table α} {a b : α}
    (h : t.get (Keyed.key a) = some b) :
    ∃ front rest, t.rows = front ++ b :: rest ∧ (t.put a).rows = front ++ a :: rest ∧
      ∀ x ∈ front ++ rest, Keyed.key x ≠ Keyed.key a := by
  obtain ⟨front, rest, hrows⟩ := append_of_mem (mem_of_get h)
  have hnodup := t.nodup
  rw [hrows, map_append, map_cons] at hnodup
  obtain ⟨-, hb, hcross⟩ := nodup_append.mp hnodup
  have hother : ∀ x ∈ front ++ rest, Keyed.key x ≠ Keyed.key a := by
    intro x hx heq
    rw [← (key_of_get h)] at heq
    rcases mem_append.mp hx with hx | hx
    · exact hcross _ (mem_map_of_mem hx) _ mem_cons_self heq
    · exact (nodup_cons.mp hb).1 (heq ▸ mem_map_of_mem hx)
  refine ⟨front, rest, hrows, ?_, hother⟩
  rw [rows_put_append hrows, Table.putRows, if_pos (key_of_get h)]
  intro hmem
  obtain ⟨x, hx, heq⟩ := mem_map.mp hmem
  exact hother x (mem_append_left _ hx) heq

section Sums

variable {cfg : ManagerConfig} {s t : ManagerState} {l : ManagerStep}

/-- The totals are right and the budget is kept. -/
structure WithinBudget (cfg : ManagerConfig) (s : ManagerState) : Prop where
  tallied : ∀ j ∈ s.jobs.rows, j.usage.Tallied
  spent : ∀ run, s.spent run ≤ cfg.maxTokensPerRun

variable {j j' : JobRecord} {r : Option WorkerJobState}

lemma WithinBudget.put_of_le (h : WithinBudget cfg s) {run : String}
    (hj : s.jobs.get j'.id = some j) (hle : j'.share run ≤ j.share run) :
    (s.put j').spent run ≤ cfg.maxTokensPerRun := by
  obtain ⟨front, rest, hrows, hput, -⟩ := rows_put_split hj
  have hspent := h.spent run
  simp only [ManagerState.spent, ManagerState.put, hrows, hput, map_append, map_cons,
    sum_append_nat, sum_cons] at hspent ⊢
  omega

lemma sum_map_le_sum_filter {α : Type} {w f : α → Nat} {q : α → Bool} {rows : List α}
    (h : ∀ x ∈ rows, w x ≤ if q x then f x else 0) :
    (rows.map w).sum ≤ ((rows.filter q).map f).sum := by
  induction rows with
  | nil => exact zero_le _
  | cons x rest ih =>
    have hx := h x mem_cons_self
    have hrest := ih fun y hy => h y (mem_cons_of_mem _ hy)
    rw [filter_cons, map_cons, sum_cons]
    split
    · rename_i hq
      rw [if_pos hq] at hx
      rw [map_cons, sum_cons]
      omega
    · rename_i hq
      rw [if_neg hq] at hx
      omega

lemma WithinBudget.put_of_charged (h : WithinBudget cfg s) (hM : 0 < cfg.maxTokensPerRun)
    (hj : s.jobs.get j'.id = some j)
    (hlen : (s.jobs.rows.filter fun i => decide (j.runId = "" ∨ i.runId = j.runId)).length ≤ 10000)
    (htotal : j'.usage.total = some j'.tokens)
    (hok : j'.budgetViolation cfg (jobPage s.jobs j.runId) = none) :
    (s.put j').spent j.runId ≤ cfg.maxTokensPerRun := by
  have hchecked := tokens_le_of_budgetViolation hM hok htotal
  rw [jobPage, take_of_length_le hlen] at hchecked
  obtain ⟨front, rest, hrows, hput, hother⟩ := rows_put_split hj
  have hid : j.id = j'.id := key_of_get hj
  -- what the other jobs count for is at most what the check has added up
  have hothers : (s.jobs.rows.map fun i => if i.id = j'.id then 0 else i.share j.runId).sum ≤
      ((s.jobs.rows.filter fun i => decide (j.runId = "" ∨ i.runId = j.runId)).map fun i =>
        if i.id = j'.id then 0 else i.usage.total.getD 0).sum := by
    refine sum_map_le_sum_filter fun i hi => ?_
    by_cases hid : i.id = j'.id
    · simp [hid]
    rw [if_neg hid, if_neg hid, (h.tallied i hi).total_getD, share]
    split
    · rename_i hcounts
      rw [if_pos (decide_eq_true (.inr hcounts.1))]
    · exact zero_le _
  have hsame : ∀ part : List JobRecord, (∀ i ∈ part, i ∈ front ++ rest) →
      part.map (fun i => if i.id = j'.id then 0 else i.share j.runId) = part.map (share j.runId) :=
    fun part hpart => map_congr_left fun i hi => if_neg (hother i (hpart i hi))
  have hshare : j'.share j.runId ≤ j'.tokens := by
    unfold share
    split
    · exact le_rfl
    · exact zero_le _
  rw [hrows, map_append, map_cons, sum_append_nat, sum_cons,
    hsame front fun i hi => mem_append_left _ hi,
    hsame rest fun i hi => mem_append_right _ hi, if_pos hid] at hothers
  rw [hrows] at hchecked
  simp only [ManagerState.spent, ManagerState.put, hput, map_append, map_cons, sum_append_nat, sum_cons]
  omega

section

variable {rows : List JobRecord} {u : Option WorkerUsage} (h : Rewrites cfg rows u r j j')
  (hstate : j.state = j'.state ∨ validWorkerJobTransition j.state j'.state)
include h hstate

lemma Rewrites.budgetFailed_of_budgetFailed (hj : j.budgetFailed) : j'.budgetFailed := by
  simp only [budgetFailed, Bool.and_eq_true, beq_iff_eq] at hj ⊢
  have hover : j.state.isTerminal := by
    rw [hj.1]
    rfl
  have hsame : j'.state = j.state := by
    rcases hstate with hstate | hstate
    · exact hstate.symm
    · simp [validWorkerJobTransition, hover] at hstate
  rcases h.outcome hover hsame with hout | hout
  · exact ⟨hsame.trans hj.1, hout.failureKind.trans hj.2⟩
  · exact ⟨hsame.trans hj.1, hout.failureKind.trans hj.2⟩

lemma Rewrites.share_le
    (htokens : j'.tokens ≤ j.tokens) (run : String) : j'.trimmed.share run ≤ j.share run := by
  have hfailed := h.budgetFailed_of_budgetFailed hstate
  have htrimmed : j'.trimmed.share run = j'.share run := rfl
  rw [htrimmed, share, share, h.same.run]
  by_cases hcounts : j.runId = run ∧ j'.budgetFailed = false
  · have hj : j.budgetFailed = false := by
      by_contra hbudget
      rw [hfailed (Bool.eq_true_of_not_eq_false hbudget)] at hcounts
      cases hcounts.2
    rw [if_pos hcounts, if_pos ⟨hcounts.1, hj⟩]
    exact htokens
  · rw [if_neg hcounts]
    exact zero_le _

end

lemma WithinBudget.report (h : WithinBudget cfg s) (hM : 0 < cfg.maxTokensPerRun) {u : WorkerUsage}
    (hj : s.jobs.get j.id = some j) (hagrees : u.agrees j)
    (hlen : (s.jobs.rows.filter fun i => decide (j.runId = "" ∨ i.runId = j.runId)).length ≤ 10000)
    (hrewrites : Rewrites cfg (jobPage s.jobs j.runId) (some u) r j j')
    (hstate : j.state = j'.state ∨ validWorkerJobTransition j.state j'.state)
    (hmerge : j'.usage = j.usage.merge u)
    (hpaid : Retrieval (some u) r j j' ∨ Charged cfg (jobPage s.jobs j.runId) j') (run : String) :
    (s.put j'.trimmed).spent run ≤ cfg.maxTokensPerRun := by
  have hget : s.jobs.get j'.trimmed.id = some j := hrewrites.same.id ▸ hj
  have htallied := h.tallied j (mem_of_get hj)
  by_cases hother : j.runId = run
  swap
  · refine h.put_of_le hget ?_
    rw [share, if_neg fun hcounts => hother (hrewrites.same.run ▸ hcounts.1)]
    exact zero_le _
  subst hother
  rcases hpaid with hretrieval | hok | hbudget
  · have hneeded := hretrieval.needed
    simp only [needsResult, Bool.and_eq_true, beq_iff_eq] at hneeded
    have hover : j.state.isTerminal := by
      rw [hneeded.1.1.1]
      rfl
    exact h.put_of_le hget
      (hrewrites.share_le hstate (tokens_merge_of_over htallied hagrees hover hmerge).le _)
  · have htallied' : j'.usage.Tallied := hmerge ▸ htallied.merge hagrees
    rcases htallied' with ⟨hin, hout, -⟩ | ⟨input, output, hin, hout, htotal⟩
    · refine h.put_of_le hget (hrewrites.share_le hstate ?_ _)
      simp [tokens, hin, hout]
    refine h.put_of_charged hM hget hlen ?_ hok
    show j'.usage.total = some (j'.usage.inputTokens.getD 0 + j'.usage.outputTokens.getD 0)
    simp [WorkerUsage.total, hin, hout, htotal]
  have hfail : j'.trimmed.budgetFailed := by
    show (j'.state == .failed && j'.failureKind == .budget)
    simp [hbudget.1, hbudget.2]
  refine h.put_of_le hget ?_
  rw [share, if_neg fun hcounts => by rw [hfail] at hcounts; cases hcounts.2]
  exact zero_le _

/-- **Step lemma.** -/
lemma WithinBudget.step (h : WithinBudget cfg s) (hM : 0 < cfg.maxTokensPerRun)
    (hagree : Agreeing s l) (hstep : managerMachine cfg s l = some t) : WithinBudget cfg t := by
  have hjobs := JobsStep.of_step hstep
  suffices hnew : (∀ j ∈ t.jobs.rows, j.usage.Tallied) ∧
      ∀ run, (t.jobs.rows.map (share run)).sum ≤ cfg.maxTokensPerRun from
    ⟨hnew.1, hnew.2⟩
  generalize t.jobs = jobs at hjobs
  cases hjobs with
  | same => exact ⟨h.tallied, h.spent⟩
  | @insert _ _ c j _ _ _ hnew _ hnone =>
    have husage : j.usage = {} := by
      rcases hnew with rfl | rfl <;> rfl
    refine ⟨fun i hi => ?_, fun run => ?_⟩
    · rcases mem_rows_put.mp hi with rfl | ⟨hmem, -⟩
      · exact .inl (by simp [husage])
      · exact h.tallied i hmem
    have hzero : j.share run = 0 := by simp [share, tokens, husage]
    rw [rows_put_of_none hnone, map_append, sum_append_nat]
    simpa [hzero, ManagerState.spent] using h.spent run
  | @rewrite j j' u r htold hj hrewrites hstate =>
  have htallied := h.tallied j (mem_of_get hj)
  have hall : j'.usage.Tallied → ∀ i ∈ (s.jobs.put j'.trimmed).rows, i.usage.Tallied := by
    intro hj' i hi
    rcases mem_rows_put.mp hi with rfl | ⟨hmem, -⟩
    · exact hj'
    · exact h.tallied i hmem
  rcases hrewrites.usage with husage | ⟨v, rfl, hmerge, hpaid⟩
  · have hget : s.jobs.get j'.trimmed.id = some j := by
      rw [← hj]
      exact congrArg _ hrewrites.same.id
    refine ⟨hall (husage ▸ htallied), fun run => h.put_of_le hget (hrewrites.share_le hstate ?_ run)⟩
    rw [tokens, husage, tokens]
  have htold : s.told l = some (j.id, some v, r) := by
    rcases htold with ⟨hnone, -⟩ | htold
    · cases hnone
    · exact htold
  simp only [Agreeing, htold] at hagree
  obtain ⟨hagrees, hlen⟩ := hagree j hj
  exact ⟨hall (hmerge ▸ htallied.merge hagrees),
    h.report hM hj hagrees hlen hrewrites hstate hmerge hpaid⟩

end Sums

/-- **The token budget.** In every run whose reports agree with the stored totals, the tokens of the
jobs of a run that have not failed for the budget add up to at most the budget. -/
theorem tokens_within_budget {cfg : ManagerConfig} {s : ManagerState}
    (hM : 0 < cfg.maxTokensPerRun) (h : (managerMachine cfg).Reach Agreeing {} s) (run : String) :
    ((s.jobs.rows.filter fun j => decide (j.runId = run) && !j.budgetFailed).map
      tokens).sum ≤ cfg.maxTokensPerRun := by
  have hwithin : WithinBudget cfg s := by
    refine h.invariant ⟨?_, fun _ => ?_⟩ fun _ _ _ hok hc hstep => hok.step hM hc hstep
    · simp [Table.empty]
    · simp [ManagerState.spent, Table.empty]
  refine le_trans (le_of_eq ?_) (hwithin.spent run)
  rw [ManagerState.spent]
  induction s.jobs.rows with
  | nil => rfl
  | cons j rest ih =>
    rw [filter_cons, map_cons, sum_cons, ← ih, share]
    by_cases hcounts : j.runId = run ∧ j.budgetFailed = false
    · simp [hcounts.1, hcounts.2]
    · rw [if_neg hcounts, if_neg (by simpa using hcounts), zero_add]

def tenTokens : ManagerConfig where
  maxActive := 2
  maxPerWorker := 2
  maxTokensPerRun := 10

/-- A worker reports how many tokens a job has used so far. -/
def progressEvent (key : String) (input output : Nat) : ManagerStep :=
  .change (durableJobId key) (.event
    { type := "worker.job.progress", jobId := durableJobId key,
      usage := some { inputTokens := some input, outputTokens := some output } } "")

/-- A job reports one token each and later a hundred; the check is made with two tokens both times,
and the job goes on. -/
theorem tokens_exceed_budget :
    ∃ s, (managerMachine tenTokens).Reach Machine.always {} s ∧
      s.jobs.rows.map (fun j => (j.runId, j.state, j.tokens)) = [("run", .queued, 200)] :=
  Machine.exists_reach (submitSteps (sampleRequest "k") 0 "x" ++
    [progressEvent "k" 1 1, progressEvent "k" 100 100]) (by decide +kernel)

/-- Two jobs that report once use five tokens each. -/
theorem tokens_within_budget_twice :
    ∃ s, (managerMachine tenTokens).Reach Agreeing {} s ∧ s.jobs.rows.map tokens = [5, 5] ∧
      ((s.jobs.rows.filter fun j => decide (j.runId = "run") && !j.budgetFailed).map
        tokens).sum ≤ 10 := by
  obtain ⟨s, hs, htokens⟩ := Machine.exists_reach (C := Agreeing) (M := managerMachine tenTokens)
    (s := {}) (f := fun s => s.jobs.rows.map tokens) (v := [5, 5])
    (submitSteps (sampleRequest "a") 0 "x" ++ submitSteps (sampleRequest "b") 1 "y" ++
      [progressEvent "a" 2 3, progressEvent "b" 4 1]) (by decide +kernel)
  exact ⟨s, hs, htokens, tokens_within_budget (by decide) hs "run"⟩

end Laso
