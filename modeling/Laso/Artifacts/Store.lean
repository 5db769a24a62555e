import Laso.Core.Machine
import Laso.Core.Table

/-!
# The local artifact store

`LocalArtifactStore` keeps each object in a file that is named by the digest of its bytes, and a record
of each upload in the storage. `put_fd` copies its source to a temporary file and hashes what it
copies, looks for a file with that name, verifies it or renames its own to it, and commits the record.
`collect_garbage` reads the records page by page and then removes the files that none of them names and
that have not been written for a while. Calls of both take these steps in any order, and files, records
and clock are all they share (`artifactMachine`).

A name always fits the bytes of its file (`Sound.named`). A record is backed by a file as long as no
collector removes one that an upload has found meanwhile (`Careful`). The age of the file does not
help: an upload that finds a file does not write it.
-/

namespace Laso

open List Option

/-- A regular file `objects/xx/yyy`, under the digest `xxyyy`. -/
structure StoredObject where
  digest : String
  bytes : List UInt8
  modified : Nat

instance : Keyed StoredObject := ⟨StoredObject.digest⟩

structure ArtifactRecord where
  objectId : String
  sha256 : String
  size : Nat

structure ArtifactConfig where
  sha256 : List UInt8 → String
  maxObjectBytes : Nat

/-- Where a call of `put_fd` is. -/
inductive UploadPoint where
  | copy | check | verify | rename | commit
  deriving DecidableEq

/-- A call of `put_fd`: the size it was told and the bytes of its temporary file. -/
structure Upload where
  sourceSize : Nat
  bytes : List UInt8 := []
  modified : Nat := 0
  point : UploadPoint := .copy

/-- What an upload meets: the next bytes of its source, whether its rename fails because there is such
a file, and the place of its record among the rows that are listed. -/
structure UploadAnswer where
  chunk : List UInt8 := []
  exists? : Bool := false
  position : Nat := 0

/-- A call of `collect_garbage`. `committed` are the objects of the records that were committed since
it has begun. -/
structure Collection where
  grace : Nat
  offset : Nat := 0
  live : List String := []
  listed : Bool := false
  eligible : Option String := none
  committed : List String := []

/-- Files, records and calls; `hashed` are the contents that were copied completely. -/
structure ArtifactStore where
  objects : Table StoredObject := Table.empty
  records : List ArtifactRecord := []
  uploads : List Upload := []
  collections : List Collection := []
  clock : Nat := 0
  hashed : List (List UInt8) := []

inductive ArtifactStep where
  /-- `put` or `put_file` calls `put_fd`. -/
  | put (sourceSize : Nat)
  | upload (i : Nat) (a : UploadAnswer)
  /-- Files or storage fail, and the upload throws. -/
  | fail (i : Nat)
  | collect (grace : Nat)
  | page (k : Nat)
  /-- The collector comes to a file that is old and not live. -/
  | judge (k : Nat) (digest : String)
  | remove (k : Nat)
  | finish (k : Nat)
  | crash
  | tick (seconds : Nat)

namespace ArtifactStore

variable (cfg : ArtifactConfig) (s : ArtifactStore) (i : Nat) (u : Upload)

def move : ArtifactStore := { s with uploads := s.uploads.set i u }

def leave (i : Nat) : ArtifactStore := { s with uploads := s.uploads.eraseIdx i }

def setCollection (k : Nat) (c : Collection) : ArtifactStore :=
  { s with collections := s.collections.set k c }

def copy (chunk : List UInt8) : ArtifactStore :=
  if chunk = [] then
    if u.bytes.length = u.sourceSize then
      { s with hashed := u.bytes :: s.hashed }.move i { u with point := .check }
    else s.leave i
  else if cfg.maxObjectBytes < u.bytes.length + chunk.length then s.leave i
  else s.move i { u with bytes := u.bytes ++ chunk, modified := s.clock }

/-- `verify` with the digest and the size of an upload; the size zero is not compared. -/
def verify (u : Upload) : Bool :=
  (s.objects.get (cfg.sha256 u.bytes)).any fun o =>
    cfg.sha256 o.bytes == cfg.sha256 u.bytes &&
      (u.bytes.length == 0 || o.bytes.length == u.bytes.length)

def commit (position : Nat) : ArtifactStore :=
  let digest := cfg.sha256 u.bytes
  { s with
    records := s.records.take position ++
      ⟨"sha256:" ++ digest, digest, u.bytes.length⟩ :: s.records.drop position
    uploads := s.uploads.eraseIdx i
    collections := s.collections.map fun c => { c with committed := digest :: c.committed } }

def goOn (a : UploadAnswer) : ArtifactStore :=
  match u.point with
  | .copy => s.copy cfg i u a.chunk
  | .check =>
    s.move i { u with
      point := if (s.objects.get (cfg.sha256 u.bytes)).isSome then .verify else .rename }
  | .verify => if s.verify cfg u then s.move i { u with point := .commit } else s.leave i
  | .rename =>
    if a.exists? then s.move i { u with point := .verify }
    else { s with objects := s.objects.put ⟨cfg.sha256 u.bytes, u.bytes, u.modified⟩ }.move i
      { u with point := .commit }
  | .commit => s.commit cfg i u a.position

def readPage (c : Collection) : Collection :=
  let page := (s.records.drop c.offset).take 10000
  { c with
    live := c.live ++ page.map ArtifactRecord.sha256
    listed := decide (page.length < 10000)
    offset := c.offset + 10000 }

end ArtifactStore

variable (cfg : ArtifactConfig)

def artifactMachine : Machine ArtifactStore ArtifactStep
  | s, .put sourceSize =>
    if cfg.maxObjectBytes < sourceSize then none
    else some { s with uploads := s.uploads ++ [{ sourceSize, modified := s.clock }] }
  | s, .upload i a => s.uploads[i]?.map fun u => s.goOn cfg i u a
  | s, .fail i => some (s.leave i)
  | s, .collect grace => some { s with collections := s.collections ++ [{ grace }] }
  | s, .page k => s.collections[k]?.bind fun c =>
      if c.listed then none else some (s.setCollection k (s.readPage c))
  | s, .judge k digest => s.collections[k]?.bind fun c => (s.objects.get digest).bind fun o =>
      if c.listed ∧ digest ∉ c.live ∧ c.grace ≤ s.clock - o.modified then
        some (s.setCollection k { c with eligible := some digest })
      else none
  | s, .remove k => s.collections[k]?.bind fun c => c.eligible.map fun digest =>
      { s with objects := s.objects.erase digest }.setCollection k { c with eligible := none }
  | s, .finish k => some { s with collections := s.collections.eraseIdx k }
  | s, .crash => some { s with uploads := [], collections := [] }
  | s, .tick seconds => some { s with clock := s.clock + seconds }

/-- A file is removed only if no record of it was committed since the collector has begun to list the
records, and no upload that has found or renamed it is about to commit one. -/
def Careful (s : ArtifactStore) : ArtifactStep → Prop
  | .remove k => ∀ c ∈ s.collections[k]?, ∀ digest ∈ c.eligible, digest ∉ c.committed ∧
      ∀ u ∈ s.uploads, u.point = .commit → cfg.sha256 u.bytes ≠ digest
  | _ => True

/-! ## Files and records -/

/-- What a collector knows: the records it has not seen are still to be listed or are new. -/
structure Collection.Sees (c : Collection) (records : List ArtifactRecord) : Prop where
  listing : ∀ r ∈ records, r.sha256 ∈ c.live ∨ (c.listed = false ∧ r ∈ records.drop c.offset) ∨
    r.sha256 ∈ c.committed
  eligible : ∀ digest ∈ c.eligible, c.listed ∧ digest ∉ c.live

structure Sound (cfg : ArtifactConfig) (s : ArtifactStore) : Prop where
  named : ∀ digest o, s.objects.get digest = some o → cfg.sha256 o.bytes = digest ∧ o.bytes ∈ s.hashed
  uploads : ∀ u ∈ s.uploads, (u.point ≠ .copy → u.bytes ∈ s.hashed) ∧
    (u.point = .commit → (s.objects.get (cfg.sha256 u.bytes)).isSome)
  records : ∀ r ∈ s.records, r.objectId = "sha256:" ++ r.sha256 ∧ (s.objects.get r.sha256).isSome ∧
    ∃ bytes ∈ s.hashed, cfg.sha256 bytes = r.sha256 ∧ bytes.length = r.size
  collections : ∀ c ∈ s.collections, c.Sees s.records

section Steps

variable {cfg : ArtifactConfig} {s s' : ArtifactStore} {l : ArtifactStep} {i k : Nat} {u : Upload}
  {c : Collection}

lemma mem_drop_insert {α : Type} {x y : α} {l : List α} {n k : Nat} (h : x ∈ l.drop n) :
    x ∈ (l.take k ++ y :: l.drop k).drop n := by
  induction l generalizing n k with
  | nil => simp at h
  | cons a rest ih =>
    cases n with
    | zero =>
      have hmem : x ∈ (a :: rest).take k ++ (a :: rest).drop k := by rwa [take_append_drop]
      exact (mem_append.mp hmem).elim (mem_append_left _) fun hx =>
        mem_append_right _ (mem_cons_of_mem _ hx)
    | succ n =>
      cases k with
      | zero => exact drop_subset_drop_left _ (Nat.le_succ n) h
      | succ k => exact ih h

lemma Collection.Sees.readPage (h : c.Sees s.records) (hlisted : c.listed = false) :
    (s.readPage c).Sees s.records := by
  refine ⟨fun r hr => ?_, fun digest hdigest => ?_⟩
  · rcases h.listing r hr with hlive | ⟨-, hrest⟩ | hnew
    · exact .inl (mem_append_left _ hlive)
    · rw [← take_append_drop 10000 (s.records.drop c.offset)] at hrest
      rcases mem_append.mp hrest with hpage | hrest
      · exact .inl (mem_append_right _ (mem_map_of_mem hpage))
      refine .inr (.inl ⟨?_, by rwa [drop_drop] at hrest⟩)
      -- a page that is not full is the last one
      have hlong := length_pos_of_mem hrest
      rw [length_drop] at hlong
      simp only [ArtifactStore.readPage, length_take, decide_eq_false_iff_not]
      omega
    · exact .inr (.inr hnew)
  · have := (h.eligible digest hdigest).1
    rw [hlisted] at this
    cases this

namespace Sound

section

variable (h : Sound cfg s)
include h

/-- An upload moves on; files, records and collectors stay. -/
lemma move (hbytes : u.point ≠ .copy → u.bytes ∈ s.hashed)
    (hobject : u.point = .commit → (s.objects.get (cfg.sha256 u.bytes)).isSome) :
    Sound cfg (s.move i u) where
  named := h.named
  uploads v hv := by
    rcases mem_or_eq_of_mem_set hv with hv | rfl
    · exact h.uploads v hv
    · exact ⟨hbytes, hobject⟩
  records := h.records
  collections := h.collections

lemma leave : Sound cfg (s.leave i) :=
  ⟨h.named, fun v hv => h.uploads v (mem_of_mem_eraseIdx hv), h.records, h.collections⟩

lemma setCollection (hc : c.Sees s.records) : Sound cfg (s.setCollection k c) := by
  refine { h with collections := fun d hd => ?_ }
  rcases mem_or_eq_of_mem_set hd with hd | rfl
  · exact h.collections d hd
  · exact hc

lemma copy (hu : u.point = .copy) (chunk : List UInt8) :
    Sound cfg (s.copy cfg i u chunk) := by
  unfold ArtifactStore.copy
  split
  · split
    · have hmore : Sound cfg { s with hashed := u.bytes :: s.hashed } :=
        { named := fun digest o ho => (h.named digest o ho).imp_right (mem_cons_of_mem _)
          uploads := fun v hv =>
            (h.uploads v hv).imp_left fun hbytes hpoint => mem_cons_of_mem _ (hbytes hpoint)
          records := fun r hr => by
            obtain ⟨hid, hobject, bytes, hbytes, hfits⟩ := h.records r hr
            exact ⟨hid, hobject, bytes, mem_cons_of_mem _ hbytes, hfits⟩
          collections := h.collections }
      exact hmore.move (fun _ => mem_cons_self) nofun
    · exact h.leave
  split
  · exact h.leave
  · exact h.move (fun hpoint => absurd hu hpoint) fun hpoint => by rw [hu] at hpoint; cases hpoint

lemma rename (hbytes : u.bytes ∈ s.hashed) :
    Sound cfg { s with objects := s.objects.put ⟨cfg.sha256 u.bytes, u.bytes, u.modified⟩ } := by
  have hkeeps : ∀ digest, (s.objects.get digest).isSome →
      ((s.objects.put ⟨cfg.sha256 u.bytes, u.bytes, u.modified⟩).get digest).isSome := by
    intro digest hsome
    rw [Table.get_put]
    split
    · rfl
    · exact hsome
  refine ⟨fun digest o ho => ?_, fun v hv => (h.uploads v hv).imp_right fun hv hpoint =>
    hkeeps _ (hv hpoint), fun r hr => ?_, h.collections⟩
  · rw [Table.get_put] at ho
    split at ho
    · rename_i hdigest
      cases ho
      exact ⟨hdigest, hbytes⟩
    · exact h.named digest o ho
  · exact (h.records r hr).imp_right fun hr => hr.imp_left (hkeeps _)

lemma commit (hu : u ∈ s.uploads) (hpoint : u.point = .commit) (position : Nat) :
    Sound cfg (s.commit cfg i u position) where
  named := h.named
  uploads v hv := h.uploads v (mem_of_mem_eraseIdx hv)
  records r hr := by
    rcases mem_append.mp hr with hr | hr
    · exact h.records r (mem_of_mem_take hr)
    rcases mem_cons.mp hr with rfl | hr
    · exact ⟨rfl, (h.uploads u hu).2 hpoint, u.bytes,
        (h.uploads u hu).1 (by rw [hpoint]; nofun), rfl, rfl⟩
    · exact h.records r (mem_of_mem_drop hr)
  collections c hc := by
    obtain ⟨d, hd, rfl⟩ := mem_map.mp hc
    refine ⟨fun r hr => ?_, (h.collections d hd).eligible⟩
    have hsees : r ∈ s.records ∨ r.sha256 = cfg.sha256 u.bytes := by
      rcases mem_append.mp hr with hr | hr
      · exact .inl (mem_of_mem_take hr)
      rcases mem_cons.mp hr with rfl | hr
      · exact .inr rfl
      · exact .inl (mem_of_mem_drop hr)
    rcases hsees with hr | heq
    · rcases (h.collections d hd).listing r hr with hlive | ⟨hlisted, hrest⟩ | hnew
      · exact .inl hlive
      · exact .inr (.inl ⟨hlisted, mem_drop_insert hrest⟩)
      · exact .inr (.inr (mem_cons_of_mem _ hnew))
    · exact .inr (.inr (heq ▸ mem_cons_self))

lemma goOn (hu : u ∈ s.uploads) (a : UploadAnswer) :
    Sound cfg (s.goOn cfg i u a) := by
  have hbytes := (h.uploads u hu).1
  unfold ArtifactStore.goOn
  split
  · exact h.copy ‹_› a.chunk
  · rename_i hpoint
    rw [hpoint] at hbytes
    refine h.move (fun _ => hbytes nofun) fun hcommit => ?_
    split at hcommit <;> cases hcommit
  · rename_i hpoint
    rw [hpoint] at hbytes
    split
    · rename_i hverify
      refine h.move (fun _ => hbytes nofun) fun _ => ?_
      cases hget : s.objects.get (cfg.sha256 u.bytes) with
      | none => simp [ArtifactStore.verify, hget] at hverify
      | some o => rfl
    · exact h.leave
  · rename_i hpoint
    rw [hpoint] at hbytes
    split
    · exact h.move (fun _ => hbytes nofun) nofun
    refine (h.rename (hbytes nofun)).move (fun _ => hbytes nofun) fun _ => ?_
    exact (congrArg Option.isSome (Table.get_put_self s.objects
      ⟨cfg.sha256 u.bytes, u.bytes, u.modified⟩)).trans rfl
  · exact h.commit hu ‹_› a.position

lemma remove {digest : String} (hc : c ∈ s.collections)
    (heligible : c.eligible = some digest) (hnew : digest ∉ c.committed)
    (huploads : ∀ u ∈ s.uploads, u.point = .commit → cfg.sha256 u.bytes ≠ digest) :
    Sound cfg { s with objects := s.objects.erase digest } := by
  obtain ⟨hlisted, hlive⟩ := (h.collections c hc).eligible digest heligible
  refine ⟨fun d o ho => ?_, fun v hv => (h.uploads v hv).imp_right fun hv' hpoint => ?_,
    fun r hr => (h.records r hr).imp_right fun hr' => hr'.imp_left fun hsome => ?_, h.collections⟩
  · rw [Table.get_erase] at ho
    split at ho
    · cases ho
    · exact h.named d o ho
  · rw [Table.get_erase, if_neg (huploads v hv hpoint)]
    exact hv' hpoint
  rw [Table.get_erase, if_neg ?_]
  · exact hsome
  rintro rfl
  rcases (h.collections c hc).listing r hr with hr | ⟨hr, -⟩ | hr
  · exact hlive hr
  · rw [hlisted] at hr
    cases hr
  · exact hnew hr

/-- **Step lemma.** -/
lemma step (hl : Careful cfg s l) (hstep : artifactMachine cfg s l = some s') :
    Sound cfg s' := by
  cases l with
  | put sourceSize =>
    simp only [artifactMachine] at hstep
    split at hstep
    · cases hstep
    cases hstep
    refine ⟨h.named, fun v hv => ?_, h.records, h.collections⟩
    rcases mem_append.mp hv with hv | hv
    · exact h.uploads v hv
    · rw [mem_singleton.mp hv]
      exact ⟨fun hpoint => absurd rfl hpoint, nofun⟩
  | upload i a =>
    obtain ⟨u, hu, rfl⟩ := map_eq_some_iff.mp hstep
    exact h.goOn (mem_of_getElem? hu) a
  | fail i =>
    cases hstep
    exact h.leave
  | collect grace =>
    cases hstep
    refine ⟨h.named, h.uploads, h.records, fun c hc => ?_⟩
    rcases mem_append.mp hc with hc | hc
    · exact h.collections c hc
    · rw [mem_singleton.mp hc]
      exact ⟨fun r hr => .inr (.inl ⟨rfl, hr⟩), nofun⟩
  | page k =>
    obtain ⟨c, hc, hrest⟩ := bind_eq_some_iff.mp hstep
    split at hrest
    · cases hrest
    cases hrest
    exact h.setCollection
      ((h.collections c (mem_of_getElem? hc)).readPage (Bool.eq_false_iff.mpr ‹_›))
  | judge k digest =>
    obtain ⟨c, hc, hrest⟩ := bind_eq_some_iff.mp hstep
    obtain ⟨o, -, hrest⟩ := bind_eq_some_iff.mp hrest
    split at hrest
    · rename_i hold
      cases hrest
      refine h.setCollection ⟨(h.collections c (mem_of_getElem? hc)).listing, fun d hd => ?_⟩
      cases hd
      exact ⟨hold.1, hold.2.1⟩
    · cases hrest
  | remove k =>
    obtain ⟨c, hc, hrest⟩ := bind_eq_some_iff.mp hstep
    obtain ⟨digest, hdigest, rfl⟩ := map_eq_some_iff.mp hrest
    obtain ⟨hnew, huploads⟩ := hl c hc digest hdigest
    have hmem := mem_of_getElem? hc
    exact (h.remove hmem hdigest hnew huploads).setCollection
      ⟨(h.collections c hmem).listing, nofun⟩
  | finish k =>
    cases hstep
    exact ⟨h.named, h.uploads, h.records, fun c hc =>
      h.collections c (mem_of_mem_eraseIdx hc)⟩
  | crash =>
    cases hstep
    exact ⟨h.named, nofun, h.records, nofun⟩
  | tick seconds =>
    cases hstep
    exact ⟨h.named, h.uploads, h.records, h.collections⟩

end

/-- **Run lemma.** -/
lemma of_reach (h : (artifactMachine cfg).Reach (Careful cfg) {} s) : Sound cfg s :=
  h.invariant ⟨nofun, nofun, nofun, nofun⟩ fun _ _ _ hok hl hstep => hok.step hl hstep

end Sound

end Steps

/-! ## Garbage collection -/

/-- **Objects of records stay.** In every run whose collectors remove no file of a record that was
committed since they began, and none of an upload that is about to commit, the file of every record
exists in every state. -/
theorem artifact_objects_kept {cfg : ArtifactConfig} {s : ArtifactStore}
    (h : (artifactMachine cfg).Reach (Careful cfg) {} s) :
    ∀ r ∈ s.records, (s.objects.get r.sha256).isSome = true :=
  fun r hr => ((Sound.of_reach h).records r hr).2.1

def sampleArtifacts : ArtifactConfig where
  sha256 bytes := String.ofList (bytes.map fun b => Char.ofNat b.toNat)
  maxObjectBytes := 10

def uploadSteps : List ArtifactStep :=
  [.put 1, .upload 0 { chunk := [97] }, .upload 0 {}, .upload 0 {}, .upload 0 {}]

instance (s : ArtifactStore) : DecidablePred (Careful sampleArtifacts s) := by
  rintro ⟨⟩ <;> dsimp only [Careful] <;> infer_instance

/-- The record of a first upload is not stored, and its file is ten seconds old when a collector lists
no record. A second upload of the same byte finds the file; the collector removes it, and the upload
commits its record. -/
theorem artifact_object_collected :
    ∃ s, (artifactMachine sampleArtifacts).Reach Machine.always {} s ∧ s.uploads.length = 0 ∧
      s.collections.length = 0 ∧ ∃ r ∈ s.records, (s.objects.get r.sha256).isSome = false := by
  obtain ⟨s, hs, hv⟩ := Machine.exists_reach (C := Machine.always)
    (M := artifactMachine sampleArtifacts) (s := {})
    (f := fun s => (s.uploads.length, s.collections.length,
      s.records.any fun r => !(s.objects.get r.sha256).isSome)) (v := (0, 0, true))
    (uploadSteps ++ [.fail 0, .tick 10, .collect 5, .page 0, .judge 0 "a"] ++ uploadSteps ++
      [.remove 0, .upload 0 {}, .finish 0]) (by decide +kernel)
  simp only [Prod.mk.injEq, List.any_eq_true, Bool.not_eq_true'] at hv
  exact ⟨s, hs, hv⟩

/-- A file that no upload wants is removed, and the file of a record is not. -/
theorem artifact_objects_kept_collected :
    ∃ s, (artifactMachine sampleArtifacts).Reach (Careful sampleArtifacts) {} s ∧
      s.records.length = 1 ∧ ∀ r ∈ s.records, (s.objects.get r.sha256).isSome = true := by
  obtain ⟨s, hs, hv⟩ := Machine.exists_reach (C := Careful sampleArtifacts)
    (M := artifactMachine sampleArtifacts) (s := {}) (f := fun s => s.records.length) (v := 1)
    (uploadSteps ++ [.fail 0, .tick 10, .collect 5, .page 0, .judge 0 "a", .remove 0, .finish 0] ++
      uploadSteps ++ [.upload 0 {}]) (by decide +kernel)
  exact ⟨s, hs, hv, artifact_objects_kept hs⟩

/-! ## Content addressing -/

/-- Two contents with one digest and different lengths have been uploaded. -/
def ArtifactStore.Collision (s : ArtifactStore) : Prop :=
  ∃ a ∈ s.hashed, ∃ b ∈ s.hashed, cfg.sha256 a = cfg.sha256 b ∧ a.length ≠ b.length

def ArtifactStep.uploads : ArtifactStep → Bool
  | .collect _ | .page _ | .judge .. | .remove _ | .finish _ => false
  | _ => true

end Laso
