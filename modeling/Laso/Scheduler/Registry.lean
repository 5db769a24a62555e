import Mathlib.Logic.Relation
import Laso.Core.Machine
import Laso.Core.Table
import Laso.Scheduler.References

/-!
# The pipeline registry

`register_pipeline` stores a source under its name and version together with the revisions its
subpipeline nodes refer to. It looks for the revision, lists all records, resolves the references among
them, searches for a cycle and commits; between any two of these calls of the storage other
registrations may commit (`registryMachine`), so the list may be out of date.

A record that was listed stays, so what a record refers to was registered before it. The records are
therefore ordered by the time of their registration (`Registered.ordered`), and only a reference of a
revision to itself is left for the search to find (`notMem_of_visit`).
-/

namespace Laso

open List Table Option

/-- What `parse_pipeline` finds; `bindings` are the subpipeline nodes and their references. -/
structure PipelineSource where
  name : String
  version : Nat
  bindings : List (String × String)

def PipelineSource.key (p : PipelineSource) : String := pipelineReference p.name p.version

structure PipelineRecord where
  name : String
  version : Nat
  yaml : String
  resolvedSubpipelines : List (String × String)
  registeredAt : String
  deriving DecidableEq

namespace PipelineRecord

def id (r : PipelineRecord) : String := pipelineReference r.name r.version

def references (r : PipelineRecord) : List String := r.resolvedSubpipelines.map Prod.snd

end PipelineRecord

instance : Keyed PipelineRecord := ⟨PipelineRecord.id⟩

section Registration

variable (records : List PipelineRecord) (p : PipelineSource)

/-- `resolve_reference`, among the records and the pipeline that is being registered. -/
def resolveReference (reference : String) : Except Error String := do
  let parsed ← parsePipelineReference reference
  if parsed.explicitVersion then
    let resolved := pipelineReference parsed.name parsed.version
    if resolved = p.key ∨ records.any (fun r => decide (r.id = resolved ∨
        (r.name = parsed.name ∧ r.version = parsed.version))) then return resolved
    else throw ⟨.notFound, "Referenced pipeline revision is not registered"⟩
  else
    match (records.filter fun r => r.name == parsed.name).map PipelineRecord.version ++
        (if p.name = parsed.name then [p.version] else []) with
    | [] => throw ⟨.notFound, "Referenced pipeline is not registered"⟩
    | [version] => return pipelineReference parsed.name version
    | _ => throw ⟨.conflict, "Unversioned pipeline reference is ambiguous"⟩

def resolveBindings : List (String × String) → Except Error (List (String × String))
  | [] => .ok []
  | (node, binding) :: rest => do
    let reference ← resolveReference records p binding
    return (node, reference) :: (← resolveBindings rest)

/-- What a revision refers to; `own` are the references of the pipeline that is being registered. -/
def dependencies (own : List String) (revision : String) : Except Error (List String) :=
  if revision = p.key then .ok own
  else match (records.filter fun r => r.id == revision).getLast? with
    | some r => .ok r.references
    | none => .error ⟨.notFound, "Referenced pipeline revision is not registered"⟩

/-- The depth-first search, never deeper than there are records and one more (`visit_succ`). -/
def visit (own : List String) : Nat → List String → List String → String → Except Error (List String)
  | 0, _, _, revision => .error ⟨.validation, revision⟩
  | depth + 1, active, visited, revision =>
    if revision ∈ active then .error ⟨.validation, "Recursive subpipeline dependency"⟩
    else if revision ∈ visited then .ok visited
    else do
      let children ← dependencies records p own revision
      children.foldlM (fun visited child => visit own depth (revision :: active) visited child)
        (revision :: visited)

/-- The record of a source, made from the records that were listed. -/
def pipelineRecordOf (yaml now : String) : Except Error PipelineRecord := do
  let resolved ← resolveBindings records p p.bindings
  let _ ← visit records p (resolved.map Prod.snd) (records.length + 2) [] [] p.key
  return ⟨p.name, p.version, yaml, resolved, now⟩

end Registration

/-- Where a call of `register_pipeline` is. -/
inductive RegisterPoint where
  | look
  | lookLegacy
  | list (offset : Nat) (records : List PipelineRecord)
  | commit (r : PipelineRecord)
  | again
  | done (result : Except Error PipelineRecord)
  /-- A call of the storage has failed. -/
  | failed (e : Error)

/-- A call; `known` is what was registered when it began. -/
structure RegisterCall where
  yaml : String
  source : PipelineSource
  point : RegisterPoint := .look
  known : Option PipelineRecord := none

structure RegistryState where
  pipelines : Table PipelineRecord := Table.empty
  calls : List RegisterCall := []

/-- The revision is registered, and the source is the same or is refused. -/
def RegisterCall.settled (c : RegisterCall) (r : PipelineRecord) : RegisterPoint :=
  .done (if r.yaml = c.yaml then .ok r else .error ⟨.conflict, "Pipeline revision is immutable"⟩)

namespace RegistryState

variable (s : RegistryState)

def move (i : Nat) (c : RegisterCall) (p : RegisterPoint) : RegistryState :=
  { s with calls := s.calls.set i { c with point := p } }

/-- The next call of the storage; the commit is refused if another body is stored. -/
def goOn (i : Nat) (c : RegisterCall) (now : String) : RegistryState :=
  match c.point with
  | .look => s.move i c <| match s.pipelines.get c.source.key with
    | some r => c.settled r
    | none => if c.source.version = 1 then .lookLegacy else .list 0 []
  | .lookLegacy => s.move i c <| match s.pipelines.get c.source.name with
    | some r => c.settled r
    | none => .list 0 []
  | .list offset records =>
    let page := (s.pipelines.rows.drop offset).take 10000
    s.move i c <| if page.length < 10000 then
        match pipelineRecordOf (records ++ page) c.source c.yaml now with
        | .ok r => .commit r
        | .error e => .done (.error e)
      else .list (offset + 10000) (records ++ page)
  | .commit r => match s.pipelines.get r.id with
    | some q => s.move i c (if q = r then .done (.ok r) else .again)
    | none => { s with pipelines := s.pipelines.put r }.move i c (.done (.ok r))
  | .again => s.move i c <| match s.pipelines.get c.source.key with
    | some r => c.settled r
    | none => .done (.error ⟨.conflict, "Pipeline revision is immutable"⟩)
  | .done _ | .failed _ => s

end RegistryState

inductive RegistryStep where
  | register (yaml : String)
  | call (i : Nat) (now : String)
  | fail (i : Nat) (e : Error)
  | crash

/-- The registry; a source that `parse_pipeline` or a schema refuses starts no call. -/
def registryMachine (parse : String → Except Error PipelineSource) :
    Machine RegistryState RegistryStep
  | s, .register yaml => (parse yaml).toOption.map fun source => { s with
      calls := s.calls ++ [{ yaml, source, known := s.pipelines.get source.key }] }
  | s, .call i now => s.calls[i]?.map fun c => s.goOn i c now
  | s, .fail i e => s.calls[i]?.bind fun c => match c.point with
    | .done _ => none
    | _ => some (s.move i c (.failed e))
  | s, .crash => some { s with calls := [] }

/-! ## What is committed -/

/-- `resolved` is a revision of the pipeline that a node refers to, of the version it names if any. -/
def Resolves (reference resolved : String) : Prop :=
  ∃ parsed version, parsePipelineReference reference = .ok parsed ∧
    resolved = pipelineReference parsed.name version ∧
    (parsed.explicitVersion = true → version = parsed.version)

/-- The record is made from the source: the same nodes, with what they refer to. -/
structure PipelineRecord.Of (p : PipelineSource) (r : PipelineRecord) : Prop where
  id : r.id = p.key
  nodes : Forall₂ (fun b x => x.1 = b.1 ∧ Resolves b.2 x.2) p.bindings r.resolvedSubpipelines

section Resolution

variable {records : List PipelineRecord} {p : PipelineSource} {reference resolved : String}

lemma resolveReference_eq_ok (h : resolveReference records p reference = .ok resolved) :
    Resolves reference resolved ∧ (resolved = p.key ∨ ∃ r ∈ records, r.id = resolved) := by
  obtain ⟨parsed, hparsed, h⟩ := bind_eq_ok.mp h
  dsimp only at h
  split at h
  · split at h
    · rename_i hknown
      obtain rfl := pure_eq_ok.mp h
      refine ⟨⟨parsed, _, hparsed, rfl, fun _ => rfl⟩, hknown.imp_right fun hany => ?_⟩
      obtain ⟨r, hr, hmatch⟩ := List.any_eq_true.mp hany
      rcases of_decide_eq_true hmatch with hid | ⟨hname, hversion⟩
      · exact ⟨r, hr, hid⟩
      · exact ⟨r, hr, by rw [PipelineRecord.id, hname, hversion]⟩
    · cases h
  rename_i hexplicit
  split at h
  · cases h
  · rename_i version hversions
    obtain rfl := pure_eq_ok.mp h
    refine ⟨⟨parsed, version, hparsed, rfl, fun h => absurd h hexplicit⟩, ?_⟩
    have hmem : version ∈ (records.filter fun r => r.name == parsed.name).map
        PipelineRecord.version ++ (if p.name = parsed.name then [p.version] else []) := by
      rw [hversions]
      exact mem_singleton_self version
    rcases mem_append.mp hmem with hmem | hmem
    · obtain ⟨r, hr, rfl⟩ := mem_map.mp hmem
      obtain ⟨hr, hname⟩ := mem_filter.mp hr
      exact .inr ⟨r, hr, by rw [PipelineRecord.id, eq_of_beq hname]⟩
    split at hmem
    · rename_i hname
      exact .inl (by rw [PipelineSource.key, hname, mem_singleton.mp hmem])
    · cases hmem
  · cases h

lemma resolveBindings_eq_ok {bindings result : List (String × String)}
    (h : resolveBindings records p bindings = .ok result) :
    Forall₂ (fun b x => x.1 = b.1 ∧ Resolves b.2 x.2) bindings result ∧
      ∀ x ∈ result.map Prod.snd, x = p.key ∨ ∃ r ∈ records, r.id = x := by
  induction bindings generalizing result with
  | nil =>
    cases h
    exact ⟨.nil, nofun⟩
  | cons b rest ih =>
    obtain ⟨first, hfirst, h⟩ := bind_eq_ok.mp h
    obtain ⟨others, hothers, h⟩ := bind_eq_ok.mp h
    obtain rfl := pure_eq_ok.mp h
    obtain ⟨hresolves, hknown⟩ := resolveReference_eq_ok hfirst
    refine ⟨.cons ⟨rfl, hresolves⟩ (ih hothers).1, fun x hx => ?_⟩
    rcases mem_cons.mp hx with rfl | hx
    · exact hknown
    · exact (ih hothers).2 x hx

lemma known_of_dependencies {own children : List String} {x : String}
    (h : dependencies records p own x = .ok children) : x ∈ p.key :: records.map PipelineRecord.id := by
  unfold dependencies at h
  split at h
  · exact mem_cons.mpr (.inl ‹_›)
  split at h
  · rename_i r hr
    obtain ⟨hr, hid⟩ := mem_filter.mp (mem_of_getLast? hr)
    exact mem_cons_of_mem _ (mem_map.mpr ⟨r, hr, eq_of_beq hid⟩)
  · cases h

/-- **The search ends.** The active revisions are different, and each is known, so that the depth it
starts with is never used up: a greater one finds the same. -/
lemma visit_succ {own active visited : List String} {depth : Nat} {x : String}
    (hknown : active ⊆ p.key :: records.map PipelineRecord.id) (hnodup : active.Nodup)
    (hdepth : records.length + 2 ≤ depth + active.length) :
    visit records p own (depth + 1) active visited x = visit records p own depth active visited x := by
  induction depth generalizing active visited x with
  | zero =>
    have hle := (subperm_of_subset hnodup hknown).length_le
    simp only [length_cons, length_map] at hle
    omega
  | succ depth ih =>
    rw [visit, visit]
    refine ite_congr rfl (fun _ => rfl) fun hactive => ite_congr rfl (fun _ => rfl) fun _ => ?_
    cases hchildren : dependencies records p own x with
    | error e => rfl
    | ok children =>
      have hsame : visit records p own (depth + 1) (x :: active) =
          visit records p own depth (x :: active) := by
        funext visited child
        refine ih (cons_subset.mpr ⟨known_of_dependencies hchildren, hknown⟩)
          (nodup_cons.mpr ⟨hactive, hnodup⟩) ?_
        rw [length_cons]
        omega
      rw [hsame]

lemma notMem_of_visit {own visited : List String} {depth : Nat}
    (h : visit records p own (depth + 1) [] [] p.key = .ok visited) : p.key ∉ own := by
  intro hmem
  have hown : dependencies records p own p.key = .ok own := if_pos rfl
  rw [visit, if_neg not_mem_nil, if_neg not_mem_nil, hown] at h
  obtain ⟨v, w, hvisit⟩ := foldlM_mem h p.key hmem
  cases depth with
  | zero => cases hvisit
  | succ depth =>
    rw [visit, if_pos (mem_singleton_self p.key)] at hvisit
    cases hvisit

lemma pipelineRecordOf_eq_ok {yaml now : String} {r : PipelineRecord}
    (h : pipelineRecordOf records p yaml now = .ok r) :
    r.yaml = yaml ∧ r.Of p ∧ ∀ x ∈ r.references, ∃ q ∈ records, q.id = x := by
  obtain ⟨resolved, hresolved, h⟩ := bind_eq_ok.mp h
  obtain ⟨visited, hvisit, h⟩ := bind_eq_ok.mp h
  obtain rfl := pure_eq_ok.mp h
  obtain ⟨hnodes, hknown⟩ := resolveBindings_eq_ok hresolved
  refine ⟨rfl, ⟨rfl, hnodes⟩, fun x hx => (hknown x hx).resolve_left ?_⟩
  rintro rfl
  exact notMem_of_visit hvisit hx

end Resolution

/-! ## The order of registration -/

def RegisterPoint.Fits (pipelines : Table PipelineRecord) (c : RegisterCall) : RegisterPoint → Prop
  | .list _ records => ∀ r ∈ records, pipelines.get r.id = some r
  | .commit r => r.yaml = c.yaml ∧ r.Of c.source ∧ ∀ x ∈ r.references, (pipelines.get x).isSome
  | .done (.ok r) => pipelines.get c.source.key = some r ∧ r.yaml = c.yaml
  | _ => True

/-- The call has found that its revision is not registered. -/
def RegisterPoint.looked : RegisterPoint → Bool
  | .look | .done _ | .failed _ => false
  | _ => true

structure RegisterCall.Sound (parse : String → Except Error PipelineSource)
    (pipelines : Table PipelineRecord) (c : RegisterCall) : Prop where
  parsed : parse c.yaml = .ok c.source
  fits : c.point.Fits pipelines c
  known : ∀ r, c.known = some r → pipelines.get c.source.key = some r ∧
    (c.point = .look ∨ c.point = c.settled r ∨ ∃ e, c.point = .failed e)

/-- The revision was registered before row `i`. -/
def RegistryState.Earlier (s : RegistryState) (i : Nat) (x : String) : Prop :=
  ∃ (j : Nat) (q : PipelineRecord), j < i ∧ s.pipelines.rows[j]? = some q ∧ q.id = x

/-- Every record refers to earlier ones only. -/
structure Registered (parse : String → Except Error PipelineSource) (s : RegistryState) : Prop where
  ordered : ∀ (i : Nat) r, s.pipelines.rows[i]? = some r → ∀ x ∈ r.references, s.Earlier i x
  parsed : ∀ r ∈ s.pipelines.rows, ∃ p, parse r.yaml = .ok p ∧ r.Of p
  calls : ∀ c ∈ s.calls, c.Sound parse s.pipelines

section Steps

variable {parse : String → Except Error PipelineSource} {s s' : RegistryState} {l : RegistryStep}
  {c : RegisterCall} {r : PipelineRecord} {i : Nat} {p : RegisterPoint}

lemma RegisterCall.Sound.mono {pipelines pipelines' : Table PipelineRecord}
    (h : c.Sound parse pipelines)
    (hmore : ∀ k r, pipelines.get k = some r → pipelines'.get k = some r) :
    c.Sound parse pipelines' := by
  refine ⟨h.parsed, ?_, fun r hr => (h.known r hr).imp_left (hmore _ _)⟩
  have hfits := h.fits
  generalize c.point = p at hfits ⊢
  match p, hfits with
  | .list _ records, hfits => exact fun r hr => hmore _ _ (hfits r hr)
  | .commit r, hfits =>
    refine hfits.imp_right fun hid => hid.imp_right fun hrefs x hx => ?_
    obtain ⟨q, hq⟩ := isSome_iff_exists.mp (hrefs x hx)
    exact isSome_iff_exists.mpr ⟨q, hmore _ _ hq⟩
  | .done (.ok r), hfits => exact hfits.imp_left (hmore _ _)
  | .done (.error _), _ | .look, _ | .lookLegacy, _ | .again, _ | .failed _, _ => trivial

namespace Registered

section

variable (h : Registered parse s)
include h

lemma move (hc : { c with point := p }.Sound parse s.pipelines) :
    Registered parse (s.move i c p) := by
  refine ⟨h.ordered, h.parsed, fun d hd => ?_⟩
  rcases mem_or_eq_of_mem_set hd with hd | rfl
  · exact h.calls d hd
  · exact hc

lemma settled (hc : c ∈ s.calls) (hr : s.pipelines.get c.source.key = some r) :
    { c with point := c.settled r }.Sound parse s.pipelines := by
  refine ⟨(h.calls c hc).parsed, ?_, fun q hq => ?_⟩
  · show (c.settled r).Fits s.pipelines _
    unfold RegisterCall.settled
    split
    · exact ⟨hr, ‹_›⟩
    · trivial
  · have hget := ((h.calls c hc).known q hq).1
    obtain rfl : r = q := Option.mem_unique hr hget
    exact ⟨hr, .inr (.inl rfl)⟩

lemma put (hnone : s.pipelines.get r.id = none)
    (hparsed : ∃ p, parse r.yaml = .ok p ∧ r.Of p)
    (hrefs : ∀ x ∈ r.references, (s.pipelines.get x).isSome) :
    Registered parse { s with pipelines := s.pipelines.put r } := by
  refine ⟨fun i q hq x hx => ?_, fun q hq => ?_, fun c hc => (h.calls c hc).mono fun k q hq => ?_⟩
  · dsimp only at hq
    rw [(rows_put_of_none hnone)] at hq
    have hearlier : s.Earlier i x := by
      rcases Nat.lt_or_ge i s.pipelines.rows.length with hi | hi
      · rw [getElem?_append_left hi] at hq
        exact h.ordered i q hq x hx
      -- the new record refers to what is stored
      rw [getElem?_append_right hi] at hq
      obtain rfl := mem_singleton.mp (mem_of_getElem? hq)
      obtain ⟨p, hp⟩ := isSome_iff_exists.mp (hrefs x hx)
      obtain ⟨j, hj, hget⟩ := List.getElem_of_mem (mem_of_get hp)
      exact ⟨j, p, hj.trans_le hi, List.getElem?_eq_some_iff.mpr ⟨hj, hget⟩, key_of_get hp⟩
    obtain ⟨j, p, hj, hp, hid⟩ := hearlier
    refine ⟨j, p, hj, ?_, hid⟩
    rw [(rows_put_of_none hnone), getElem?_append_left (List.getElem?_eq_some_iff.mp hp).1, hp]
  · rcases mem_rows_put.mp hq with rfl | ⟨hq, -⟩
    · exact hparsed
    · exact h.parsed q hq
  · refine (get_put_ne ?_).trans hq
    rintro rfl
    rw [show s.pipelines.get (Keyed.key r) = none from hnone] at hq
    cases hq

lemma of_looked (hc : c ∈ s.calls) (hlooked : c.point.looked)
    (hp : p.Fits s.pipelines c) : { c with point := p }.Sound parse s.pipelines := by
  refine ⟨(h.calls c hc).parsed, hp, fun r hr => ?_⟩
  rcases ((h.calls c hc).known r hr).2 with hpoint | hpoint | ⟨e, hpoint⟩ <;>
    rw [hpoint] at hlooked <;> cases hlooked

lemma goOn (hc : c ∈ s.calls) (now : String) :
    Registered parse (s.goOn i c now) := by
  have hfits := (h.calls c hc).fits
  unfold RegistryState.goOn
  split
  · -- the first look
    refine h.move ?_
    split
    · exact h.settled hc ‹_›
    rename_i hnone
    refine ⟨(h.calls c hc).parsed, ?_, fun r hr => ?_⟩
    · dsimp only
      split
      · trivial
      · exact nofun
    · rw [((h.calls c hc).known r hr).1] at hnone
      cases hnone
  · rename_i hpoint
    refine h.move ?_
    split
    · rename_i r hr
      -- the same source has the same revision
      by_cases hsame : r.yaml = c.yaml
      · obtain ⟨p, hparse, hof⟩ := h.parsed r (mem_of_get hr)
        rw [hsame, (h.calls c hc).parsed] at hparse
        cases hparse
        exact h.settled hc (hof.id ▸ mem_rows_iff.mp (mem_of_get hr))
      · refine h.of_looked hc (hpoint ▸ rfl) ?_
        simp [RegisterCall.settled, hsame, RegisterPoint.Fits]
    · exact h.of_looked hc (hpoint ▸ rfl)
        nofun
  · rename_i offset records hpoint
    rw [hpoint] at hfits
    have hlisted : ∀ r ∈ records ++ (s.pipelines.rows.drop offset).take 10000,
        s.pipelines.get r.id = some r := by
      intro r hr
      rcases mem_append.mp hr with hr | hr
      · exact hfits r hr
      · exact mem_rows_iff.mp (mem_of_mem_drop (mem_of_mem_take hr))
    refine h.move (h.of_looked hc (hpoint ▸ rfl) ?_)
    split
    · split
      · rename_i hrecord
        obtain ⟨hyaml, hof, hrefs⟩ := pipelineRecordOf_eq_ok hrecord
        refine ⟨hyaml, hof, fun x hx => ?_⟩
        obtain ⟨q, hq, rfl⟩ := hrefs x hx
        exact isSome_iff_exists.mpr ⟨q, hlisted q hq⟩
      · trivial
    · exact hlisted
  · rename_i r hpoint
    rw [hpoint] at hfits
    obtain ⟨hyaml, hof, hrefs⟩ := hfits
    split
    · rename_i q hq
      refine h.move (h.of_looked hc (hpoint ▸ rfl) ?_)
      split
      · rename_i heq
        exact ⟨hof.id ▸ heq ▸ hq, hyaml⟩
      · trivial
    · rename_i hnone
      have hput := h.put hnone ⟨_, hyaml ▸ (h.calls c hc).parsed, hof⟩ hrefs
      refine hput.move (hput.of_looked hc (hpoint ▸ rfl) ?_)
      exact ⟨hof.id ▸ get_put_self s.pipelines r, hyaml⟩
  · rename_i hpoint
    refine h.move ?_
    split
    · exact h.settled hc ‹_›
    · exact h.of_looked hc (hpoint ▸ rfl) trivial
  · exact h
  · exact h

/-- **Step lemma.** -/
lemma step (hstep : registryMachine parse s l = some s') :
    Registered parse s' := by
  cases l with
  | register yaml =>
    obtain ⟨source, hsource, rfl⟩ := map_eq_some_iff.mp hstep
    have hparsed : parse yaml = .ok source := by
      cases hparse : parse yaml with
      | error e => simp [hparse, Except.toOption] at hsource
      | ok p => simpa [hparse, Except.toOption] using hsource
    refine ⟨h.ordered, h.parsed, fun c hc => ?_⟩
    rcases mem_append.mp hc with hc | hc
    · exact h.calls c hc
    · rw [mem_singleton.mp hc]
      exact ⟨hparsed, trivial, fun r hr => ⟨hr, .inl rfl⟩⟩
  | call i now =>
    obtain ⟨c, hc, rfl⟩ := map_eq_some_iff.mp hstep
    exact h.goOn (mem_of_getElem? hc) now
  | fail i e =>
    obtain ⟨c, hc, hrest⟩ := bind_eq_some_iff.mp hstep
    have hsound := h.calls c (mem_of_getElem? hc)
    split at hrest
    · cases hrest
    cases hrest
    exact h.move ⟨hsound.parsed, trivial, fun r hr =>
      ⟨(hsound.known r hr).1, .inr (.inr ⟨e, rfl⟩)⟩⟩
  | crash =>
    cases hstep
    exact ⟨h.ordered, h.parsed, nofun⟩

end

end Registered

lemma get_of_step {k : String} (hstep : registryMachine parse s l = some s')
    (hr : s.pipelines.get k = some r) : s'.pipelines.get k = some r := by
  simp only [registryMachine] at hstep
  split at hstep
  · obtain ⟨_, -, rfl⟩ := map_eq_some_iff.mp hstep
    exact hr
  · obtain ⟨c, -, rfl⟩ := map_eq_some_iff.mp hstep
    unfold RegistryState.goOn
    split
    case h_4 =>
      split
      · exact hr
      rename_i hnone
      refine (get_put_ne ?_).trans hr
      rintro rfl
      cases hnone.symm.trans hr
    all_goals exact hr
  · obtain ⟨c, -, hrest⟩ := bind_eq_some_iff.mp hstep
    split at hrest <;> cases hrest
    exact hr
  · cases hstep
    exact hr

end Steps

def RegistryState.Refers (s : RegistryState) (k k' : String) : Prop :=
  ∃ r, s.pipelines.get k = some r ∧ k' ∈ r.references

lemma Registered.earlier {parse : String → Except Error PipelineSource} {s : RegistryState}
    (h : Registered parse s) {k k' : String} (hrefers : Relation.TransGen s.Refers k k') :
    ∀ (i : Nat) r, s.pipelines.rows[i]? = some r → r.id = k → s.Earlier i k' := by
  have hone : ∀ {k k'}, s.Refers k k' → ∀ (i : Nat) r, s.pipelines.rows[i]? = some r → r.id = k →
      s.Earlier i k' := by
    rintro k k' ⟨q, hq, hmem⟩ i r hr rfl
    have hget := mem_rows_iff.mp (mem_of_getElem? hr)
    obtain rfl : r = q := Option.mem_unique hget hq
    exact h.ordered i r hr k' hmem
  induction hrefers with
  | single hrefers => exact hone hrefers
  | tail _ hrefers ih =>
    intro i r hr hid
    obtain ⟨j, q, hj, hq, hqid⟩ := ih i r hr hid
    obtain ⟨j', q', hj', hq', hid'⟩ := hone hrefers j q hq hqid
    exact ⟨j', q', hj'.trans hj, hq', hid'⟩

/-- **The registry.** In every run, a registered revision stays as it is, and it refers to what the
subpipeline nodes of its source name; the revisions are closed under their references, which form no
cycle; a call that returns a record returns the one that is stored for its revision, with its own
source; and a call for a revision that was registered before returns that record or refuses the
source, unless the storage fails. -/
theorem pipeline_registry_sound {parse : String → Except Error PipelineSource} {s t : RegistryState}
    (hs : (registryMachine parse).Reach Machine.always {} s)
    (ht : (registryMachine parse).Reach Machine.always s t) :
    (∀ k r, s.pipelines.get k = some r → t.pipelines.get k = some r) ∧
      (∀ r ∈ t.pipelines.rows, ∃ p, parse r.yaml = .ok p ∧ r.Of p) ∧
      (∀ r ∈ t.pipelines.rows, ∀ x ∈ r.references, (t.pipelines.get x).isSome = true) ∧
      (∀ k, ¬ Relation.TransGen t.Refers k k) ∧
      (∀ c ∈ t.calls, ∀ r, c.point = .done (.ok r) →
        t.pipelines.get c.source.key = some r ∧ r.yaml = c.yaml) ∧
      ∀ c ∈ t.calls, ∀ r, c.known = some r →
        c.point = .look ∨ c.point = c.settled r ∨ ∃ e, c.point = .failed e := by
  have hsound : Registered parse t := (hs.trans ht).invariant
    ⟨by simp [Table.empty], nofun, nofun⟩
    fun _ _ _ hok _ hstep => hok.step hstep
  refine ⟨fun k r hr => ht.invariant hr
    fun _ _ _ hok _ hstep => get_of_step hstep hok, hsound.parsed, fun r hr x hx => ?_,
    fun k hcycle => ?_, fun c hc r hr => ?_, fun c hc r hr => ((hsound.calls c hc).known r hr).2⟩
  · obtain ⟨i, hi, hget⟩ := List.getElem_of_mem hr
    obtain ⟨j, q, -, hq, rfl⟩ :=
      hsound.ordered i r (List.getElem?_eq_some_iff.mpr ⟨hi, hget⟩) x hx
    exact isSome_iff_exists.mpr ⟨q, mem_rows_iff.mp (mem_of_getElem? hq)⟩
  · -- a revision on a cycle would be registered before itself, again and again
    have hnever : ∀ (i : Nat) r, t.pipelines.rows[i]? = some r → r.id ≠ k := by
      intro i
      induction i using Nat.strong_induction_on with
      | _ i ih =>
        intro r hr hid
        obtain ⟨j, q, hj, hq, hqid⟩ := hsound.earlier hcycle i r hr hid
        exact ih j hj q hq hqid
    obtain ⟨r, hr⟩ : ∃ r, t.pipelines.get k = some r := by
      obtain ⟨_, ⟨r, hr, -⟩, -⟩ := Relation.TransGen.head'_iff.mp hcycle
      exact ⟨r, hr⟩
    obtain ⟨i, hi, hget⟩ := List.getElem_of_mem (mem_of_get hr)
    exact hnever i r (List.getElem?_eq_some_iff.mpr ⟨hi, hget⟩) (key_of_get hr)
  · have hfits := (hsound.calls c hc).fits
    rw [hr] at hfits
    exact hfits

/-- The source `b` refers to the pipeline `a`. -/
def sampleParse (yaml : String) : Except Error PipelineSource :=
  .ok ⟨yaml, 1, if yaml = "b" then [("node", "a@1")] else []⟩

/-- Two pipelines are registered at the same time, the second one refers to the first, and the first is
registered again. -/
theorem pipeline_registry_sound_twice :
    ∃ s, (registryMachine sampleParse).Reach Machine.always {} s ∧
      s.pipelines.rows.map (fun r => (r.id, r.references)) = [("a@1", []), ("b@1", ["a@1"])] ∧
      (∀ r ∈ s.pipelines.rows, ∀ x ∈ r.references, (s.pipelines.get x).isSome = true) ∧
      ∀ k, ¬ Relation.TransGen s.Refers k k := by
  obtain ⟨s, hs, hrows⟩ := Machine.exists_reach (C := Machine.always)
    (M := registryMachine sampleParse) (s := {})
    (f := fun s => s.pipelines.rows.map fun r => (r.id, r.references))
    (v := [("a@1", []), ("b@1", ["a@1"])])
    [.register "a", .register "b", .call 1 "", .call 0 "", .call 0 "", .call 0 "", .call 0 "",
      .call 1 "", .call 1 "", .call 1 "", .register "a", .call 2 ""] (by decide +kernel)
  have hsound := pipeline_registry_sound hs .refl
  exact ⟨s, hs, hrows, hsound.2.2.1, hsound.2.2.2.1⟩

end Laso
