import Laso.Core.Transaction
import Laso.Scheduler.CronLanguage
import Mathlib.Algebra.Order.BigOperators.Group.List
import Mathlib.Algebra.Order.Ring.Nat

/-!
# Workspace manifests

A manifest lists the files of a workspace, with their bytes (version 1) or with references to objects
of the store (version 2). `validate_workspace_manifest` reads it entry by entry and keeps the paths it
has seen and the sum of the sizes. `stage_workspace` then writes every entry to its path under a
directory of the attempt, which it removes again if one of them cannot be written.

The sum is compared by a subtraction of unsigned numbers, `total > limit - size`, which wraps around
when one file is larger than the limit of the sum: the limits hold exactly as long as no file is
(`manifest_within_limits`). Paths are compared as texts, but the file system reads `a//b` as `a/b`: every
entry stays inside of the directory, and what is staged overwrites itself exactly when two paths differ
in slashes only (`staged_apart`).
-/

namespace Laso

open List

structure WorkspaceManifestLimits where
  maxFiles : UInt64 := 4096
  maxFileBytes : UInt64 := 256 * 1024 * 1024
  maxTotalBytes : UInt64 := 512 * 1024 * 1024
  maxManifestBytes : UInt64 := 4 * 1024 * 1024
  maxInlineFileBytes : UInt64 := 16 * 1024
  maxInlineTotalBytes : UInt64 := 48 * 1024

abbrev ValidDigest (value : String) : Prop :=
  value.utf8ByteSize = 64 ∧
    value.toList.all fun c => c.isDigit || 'a'.toNat ≤ c.toNat && c.toNat ≤ 'f'.toNat

/-- `safe_relative_path`. The parts of a path that does not start with a slash are the texts between
its slashes; the empty ones, which the iterator leaves out, are neither `.` nor `..`. -/
abbrev SafeRelativePath (value : String) : Prop :=
  value.toList ≠ [] ∧ value.utf8ByteSize ≤ 512 ∧ value.toList.head? ≠ some '/' ∧
    value.toList.head? ≠ some '\\' ∧ ':' ∉ value.toList ∧ '\\' ∉ value.toList ∧
    '\x00' ∉ value.toList ∧
    ∀ part ∈ splitChars '/' value.toList, part ≠ ['.', '.'] ∧ part ≠ ['.']

def Json.entry? (name : String) : Json → Option Json
  | .obj fields => fields.lookup name
  | _ => none

def Json.isArray : Json → Bool
  | .arr _ => true
  | _ => false

/-- `get` at an unsigned type of so many values: integers wrap around, Booleans are numbers. -/
def Json.toUnsigned (values : Nat) : Json → Except Exn Nat
  | .num n => .ok (n % values).toNat
  | .bool b => .ok b.toNat
  | _ => .error .other

section Validate

variable (dump : Json → Nat) (sha256 : List Nat → String) (limits : WorkspaceManifestLimits)

variable (manifest : Json)

def checkManifestSize : Except Exn Unit := do
  let invalid := Exn.of .validation "Invalid or oversized workspace manifest"
  let version ← match manifest with
    | .obj fields => ((fields.lookup "version").getD (.num 0)).toUnsigned (2 ^ 32)
    | _ => .error invalid
  if (version ≠ 1 ∧ version ≠ 2) ∨ (manifest.entry? "files").any Json.isArray = false ∨
      limits.maxManifestBytes.toNat < dump manifest then
    throw invalid

/-- What the loop of `validate_workspace_manifest` carries. -/
structure ManifestScan where
  paths : List String := []
  total : UInt64 := 0

variable (scan : ManifestScan)

/-- A file is counted. `total > in_total - size` is computed without sign, so that it wraps around for
a file larger than the limit of the sum. -/
def ManifestScan.count (perFile inTotal : UInt64) (path : String) (size : Nat)
    (intact : Prop) [Decidable intact] (failed : String) : Except Exn ManifestScan :=
  if perFile.toNat < size ∨ inTotal - .ofNat size < scan.total ∨ ¬intact then
    .error (Exn.of .validation failed)
  else .ok ⟨path :: scan.paths, scan.total + .ofNat size⟩

/-- An entry of version 1. -/
def ManifestScan.inlined (path digest : String) (data : Option Json) :
    Except Exn ManifestScan :=
  match data with
  | some (.arr items) => do
    let bytes ← items.mapM (Json.toUnsigned (2 ^ 8))
    scan.count limits.maxInlineFileBytes limits.maxInlineTotalBytes path bytes.length
      (digest = sha256 bytes) "Workspace inline integrity or size check failed"
  | _ => .error (Exn.of .validation "Inline workspace entry is missing data")

/-- An entry of version 2. -/
def ManifestScan.referenced (path : String) (objectId size : Option Json) :
    Except Exn ManifestScan :=
  let incomplete := Exn.of .validation "Object-backed workspace entry is incomplete"
  match objectId, size with
  | some (.str _), some (.num size) =>
    -- `is_number_unsigned`
    if 0 ≤ size ∧ size < 2 ^ 64 then
      scan.count limits.maxFileBytes limits.maxTotalBytes path size.toNat True
        "Workspace object exceeds the configured limit"
    else .error incomplete
  | _, _ => .error incomplete

def ManifestScan.visit (version : Nat) (scan : ManifestScan) (entry : Json) :
    Except Exn ManifestScan :=
  match entry.entry? "path", entry.entry? "sha256" with
  | some (.str path), some (.str digest) =>
    if ¬(SafeRelativePath path ∧ ValidDigest digest) then
      .error (Exn.of .validation "Invalid workspace manifest entry")
    else if path ∈ scan.paths then
      .error (Exn.of .conflict "Workspace manifest contains duplicate paths")
    else if version = 1 then scan.inlined sha256 limits path digest (entry.entry? "data")
    else scan.referenced limits path (entry.entry? "object_id") (entry.entry? "size")
  | _, _ => .error (Exn.of .validation "Invalid workspace manifest entry")

/-- The number under `version`, as the loop reads it. -/
def Json.version : Except Exn Nat :=
  ((manifest.entry? "version").getD .null).toUnsigned (2 ^ 32)

def Json.files : List Json :=
  match manifest.entry? "files" with
  | some (.arr files) => files
  | _ => []

def validateWorkspaceManifest : Except Exn Unit := do
  checkManifestSize dump limits manifest
  let version ← manifest.version
  if limits.maxFiles.toNat < manifest.files.length then
    throw (Exn.of .validation "Workspace file count exceeds the configured limit")
  let _ ← manifest.files.foldlM (ManifestScan.visit sha256 limits version) {}

end Validate

/-! ## What an accepted manifest has -/

variable (limits : WorkspaceManifestLimits)

def WorkspaceManifestLimits.perFile (version : Nat) : UInt64 :=
  if version = 1 then limits.maxInlineFileBytes else limits.maxFileBytes

def WorkspaceManifestLimits.inTotal (version : Nat) : UInt64 :=
  if version = 1 then limits.maxInlineTotalBytes else limits.maxTotalBytes

def Json.filePath (entry : Json) : String :=
  match entry.entry? "path" with
  | some (.str path) => path
  | _ => ""

def Json.fileSize (version : Nat) (entry : Json) : Nat :=
  if version = 1 then
    match entry.entry? "data" with
    | some (.arr items) => items.length
    | _ => 0
  else
    match entry.entry? "size" with
    | some (.num size) => size.toNat
    | _ => 0

variable {dump : Json → Nat} {sha256 : List Nat → String} {limits : WorkspaceManifestLimits}
  {version : Nat} {scan scan' : ManifestScan} {entry manifest : Json} {files : List Json}

/-- What an entry that passes does to the scan. -/
structure ManifestScan.Visits (limits : WorkspaceManifestLimits) (version : Nat) (scan : ManifestScan)
    (entry : Json) (scan' : ManifestScan) : Prop where
  safe : SafeRelativePath entry.filePath
  fresh : entry.filePath ∉ scan.paths
  paths : scan'.paths = entry.filePath :: scan.paths
  size : entry.fileSize version ≤ (limits.perFile version).toNat
  room : scan.total ≤ limits.inTotal version - .ofNat (entry.fileSize version)
  total : scan'.total = scan.total + .ofNat (entry.fileSize version)

lemma length_of_mapM {values : Nat} {items : List Json} {bytes : List Nat}
    (h : items.mapM (Json.toUnsigned values) = .ok bytes) : bytes.length = items.length := by
  induction items generalizing bytes with
  | nil => cases h; rfl
  | cons item items ih =>
    rw [mapM_cons] at h
    obtain ⟨byte, -, h⟩ := bind_eq_ok.mp h
    obtain ⟨rest, hrest, h⟩ := bind_eq_ok.mp h
    cases h
    rw [length_cons, length_cons, ih hrest]

lemma ManifestScan.of_count {perFile inTotal : UInt64} {path failed : String} {size : Nat}
    {intact : Prop} [Decidable intact]
    (h : scan.count perFile inTotal path size intact failed = .ok scan') :
    scan' = ⟨path :: scan.paths, scan.total + .ofNat size⟩ ∧ size ≤ perFile.toNat ∧
      scan.total ≤ inTotal - .ofNat size := by
  unfold count at h
  split_ifs at h with hle
  cases h
  simp only [not_or, not_lt, UInt64.not_lt] at hle
  exact ⟨rfl, hle.1, hle.2.1⟩

lemma ManifestScan.visits (h : scan.visit sha256 limits version entry = .ok scan') :
    scan.Visits limits version entry scan' := by
  unfold visit at h
  split at h
  case h_2 => cases h
  case h_1 path digest hpath _ =>
    have hp : entry.filePath = path := by rw [Json.filePath, hpath]
    split_ifs at h with hvalid hfresh hv
    -- both versions count the file, at limits of their own
    all_goals
      suffices hcount : scan' = ⟨path :: scan.paths, scan.total + .ofNat (entry.fileSize version)⟩ ∧
          entry.fileSize version ≤ (limits.perFile version).toNat ∧
          scan.total ≤ limits.inTotal version - .ofNat (entry.fileSize version) by
        obtain ⟨rfl, hsize, hroom⟩ := hcount
        exact ⟨hp ▸ hvalid.1, hp ▸ hfresh, hp ▸ rfl, hsize, hroom, rfl⟩
      rw [WorkspaceManifestLimits.perFile, WorkspaceManifestLimits.inTotal, Json.fileSize]
    · rw [if_pos hv, if_pos hv, if_pos hv]
      unfold inlined at h
      split at h
      case h_2 => cases h
      case h_1 items =>
        obtain ⟨bytes, hbytes, h⟩ := bind_eq_ok.mp h
        rw [← length_of_mapM hbytes]
        exact of_count h
    rw [if_neg hv, if_neg hv, if_neg hv]
    unfold referenced at h
    split at h
    case h_2 => cases h
    case h_1 size _ hsize =>
      split_ifs at h
      rw [hsize]
      exact of_count h

/-- Where the subtraction does not wrap around, the comparison is the exact one. -/
lemma fits_of_room {total limit : UInt64} {size : Nat} (hs : size ≤ limit.toNat)
    (h : total ≤ limit - .ofNat size) : (total + .ofNat size).toNat = total.toNat + size ∧
      total.toNat + size ≤ limit.toNat := by
  have hl := limit.toNat_lt
  have hsize : (UInt64.ofNat size).toNat = size := UInt64.toNat_ofNat_of_lt (hs.trans_lt hl)
  rw [UInt64.le_iff_toNat_le, UInt64.toNat_sub_of_le _ _ (by rwa [UInt64.le_iff_toNat_le, hsize]),
    hsize] at h
  rw [UInt64.toNat_add, hsize]
  omega

/-- The whole loop, from any scan. -/
lemma ManifestScan.run (h : files.foldlM (visit sha256 limits version) scan = .ok scan')
    (hn : scan.paths.Nodup) :
    ((files.map Json.filePath).reverse ++ scan.paths).Nodup ∧
    (∀ entry ∈ files, SafeRelativePath entry.filePath ∧
      entry.fileSize version ≤ (limits.perFile version).toNat) ∧
    ((∀ entry ∈ files, entry.fileSize version ≤ (limits.inTotal version).toNat) →
      scan.total ≤ limits.inTotal version →
      scan.total.toNat + (files.map (Json.fileSize version)).sum ≤
        (limits.inTotal version).toNat) := by
  induction files generalizing scan with
  | nil => exact ⟨by simpa using hn, by simp, fun _ hle => by simpa [UInt64.le_iff_toNat_le] using hle⟩
  | cons entry rest ih =>
    obtain ⟨next, hnext, h⟩ := bind_eq_ok.mp h
    have hvisits := visits hnext
    obtain ⟨hpaths, hfiles, hsum⟩ := ih h (hvisits.paths ▸ nodup_cons.mpr ⟨hvisits.fresh, hn⟩)
    refine ⟨by simpa [hvisits.paths] using hpaths,
      forall_mem_cons.mpr ⟨⟨hvisits.safe, hvisits.size⟩, hfiles⟩, fun hsizes _ => ?_⟩
    obtain ⟨hsize, hsizes⟩ := forall_mem_cons.mp hsizes
    obtain ⟨hadd, hfits⟩ := fits_of_room hsize hvisits.room
    rw [← hvisits.total] at hadd
    have hrest := hsum hsizes (UInt64.le_iff_toNat_le.mpr (hadd ▸ hfits))
    rw [map_cons, sum_cons]
    omega

lemma scanned (h : validateWorkspaceManifest dump sha256 limits manifest = .ok ()) :
    ∃ version scan, manifest.version = .ok version ∧ manifest.files.length ≤ limits.maxFiles.toNat ∧
      manifest.files.foldlM (ManifestScan.visit sha256 limits version) {} = .ok scan := by
  obtain ⟨_, -, h⟩ := bind_eq_ok.mp h
  obtain ⟨version, hversion, h⟩ := bind_eq_ok.mp h
  split at h
  · cases h
  next hcount =>
    obtain ⟨scan, hscan, -⟩ := bind_eq_ok.mp h
    exact ⟨version, scan, hversion, not_lt.mp hcount, hscan⟩

/-- An accepted manifest has at most so many files, each within its own limit, and they are together
within the limit of the sum exactly when each of them alone is. -/
theorem manifest_within_limits
    (h : validateWorkspaceManifest dump sha256 limits manifest = .ok ()) :
    ∃ version, manifest.version = .ok version ∧ manifest.files.length ≤ limits.maxFiles.toNat ∧
      (∀ entry ∈ manifest.files, entry.fileSize version ≤ (limits.perFile version).toNat) ∧
      ((manifest.files.map (Json.fileSize version)).sum ≤ (limits.inTotal version).toNat ↔
        ∀ entry ∈ manifest.files, entry.fileSize version ≤ (limits.inTotal version).toNat) := by
  obtain ⟨version, scan, hversion, hcount, hscan⟩ := scanned h
  obtain ⟨-, hfiles, hsum⟩ := ManifestScan.run hscan nodup_nil
  refine ⟨version, hversion, hcount, fun entry hentry => (hfiles entry hentry).2, ?_, ?_⟩
  · intro hle entry hentry
    exact (single_le_sum (fun _ _ => Nat.zero_le _) _ (mem_map_of_mem hentry)).trans hle
  · exact fun hsizes => by simpa using hsum hsizes UInt64.zero_le

/-- A manifest of objects that all have the same size. -/
def sampleManifest (paths : List String) (size : Int) : Json :=
  .obj [("version", .num 2), ("files", .arr (paths.map fun path =>
    .obj [("path", .str path), ("sha256", .str (String.ofList (replicate 64 '0'))),
      ("object_id", .str "object"), ("size", .num size)]))]

theorem manifest_within_limits_pair :
    let manifest := sampleManifest ["a", "b"] 3
    validateWorkspaceManifest (fun _ => 2) (fun _ => "") {} manifest = .ok () ∧
    ∃ version, manifest.version = .ok version ∧ ∀ entry ∈ manifest.files,
        entry.fileSize version ≤ (WorkspaceManifestLimits.perFile {} version).toNat := by
  intro manifest
  have h : validateWorkspaceManifest (fun _ => 2) (fun _ => "") {} manifest = .ok () := by
    decide +kernel
  obtain ⟨version, hversion, -, hsizes, -⟩ := manifest_within_limits h
  exact ⟨h, version, hversion, hsizes⟩

/-- A file of ten bytes passes the check of a sum of at most five. -/
theorem oversized_manifest_accepted :
    let limits : WorkspaceManifestLimits := { maxFileBytes := 10, maxTotalBytes := 5 }
    validateWorkspaceManifest (fun _ => 2) (fun _ => "") limits (sampleManifest ["a"] 10) = .ok () ∧
    (sampleManifest ["a"] 10).version = .ok 2 ∧
    ((sampleManifest ["a"] 10).files.map (Json.fileSize 2)).sum = 10 ∧
    (limits.inTotal 2).toNat = 5 := by
  decide +kernel

/-! ## Staging -/

/-- The names on the way from the root of a file system without links. -/
abbrev Place := List (List Char)

/-- What is at a place. A file has the content of an entry. -/
inductive FileNode where
  | directory
  | file (entry : Json)

abbrev FileTree := Place → Option FileNode

def removeAll (tree : FileTree) (place : Place) : FileTree := fun p =>
  if place <+: p then none else tree p

/-- `create_directories` fails where there is a file on the way. -/
def createDirectories (tree : FileTree) (place : Place) : Option FileTree :=
  place.inits.foldlM (fun tree p => match tree p with
    | some (.file _) => none
    | _ => some (Function.update tree p (some .directory))) tree

/-- Where the file system finds a path, given by the texts between its slashes, that is appended to a
directory. An absolute path replaces the directory. -/
def resolve (directory : Place) (parts : List (List Char)) : Place :=
  parts.foldl (fun reached part =>
      if part = [] ∨ part = ['.'] then reached
      else if part = ['.', '.'] then reached.dropLast
      else reached ++ [part])
    (if parts.head? = some [] then [] else directory)

def Json.parts (entry : Json) : List (List Char) := splitChars '/' entry.filePath.toList

/-- The names in a path: the texts between its slashes, however many slashes there are. -/
def pathNames (path : String) : List (List Char) :=
  (splitChars '/' path.toList).filter (· ≠ [])

/-- `safe_component`. -/
abbrev SafeComponent (value : String) : Prop :=
  value ≠ "" ∧ value.utf8ByteSize ≤ 128 ∧ value ≠ "." ∧ value ≠ ".." ∧
    value.toList.all fun c => c.isAlphanum || ['-', '_', '.', ':'].contains c

section Stage

-- `materialize` of the store, if there is one
variable (store : Option (Json → Except Exn Unit)) (manifest : Json)

/-- Read the bytes of an entry: from the store for version 2, from the entry itself otherwise. -/
def fetchEntry (entry : Json) : Except Exn Unit :=
  match manifest.entry? "version", store with
  | some (.num 2), some materialize => materialize entry
  | _, _ => match entry.entry? "data" with
    | some (.arr items) => (items.mapM (Json.toUnsigned (2 ^ 8))).map fun _ => ()
    | _ => .error .other

/-- The text of the error when the bytes cannot be moved to their place. -/
def unwritable : Exn := .of .storage (match manifest.entry? "version" with
  | some (.num 2) => "Unable to finalize materialized artifact"
  | _ => "Unable to stage workspace file")

variable (stage : Place)

/-- One pass of the loop of `stage_workspace_impl`. -/
def stageEntry (tree : FileTree) (entry : Json) : Except Exn Unit × FileTree :=
  match createDirectories tree (resolve stage entry.parts.dropLast) with
  | none => (.error (.of .storage "Unable to create workspace parent directory"), tree)
  | some tree =>
    match fetchEntry store manifest entry with
    | .error e => (.error e, tree)
    | .ok () =>
      -- with a slash at its end the path names the directory that has just been made
      match entry.parts.getLast?, tree (resolve stage entry.parts) with
      | some [], _ | _, some .directory => (.error (unwritable manifest), tree)
      | _, _ => (.ok (), Function.update tree (resolve stage entry.parts) (some (.file entry)))

def stageFiles : List Json → FileTree → Except Exn Unit × FileTree
  | [], tree => (.ok (), tree)
  | entry :: rest, tree =>
    match stageEntry store manifest stage tree entry with
    | (.error e, tree) => (.error e, tree)
    | (.ok (), tree) => stageFiles rest tree

/-- `stage_workspace_impl`: the stage directory and the file system afterwards. -/
def stageWorkspace (dump : Json → Nat) (sha256 : List Nat → String) (limits : WorkspaceManifestLimits)
    (root : Place) (runId workId attemptId : String) (tree : FileTree) :
    Except Exn Place × FileTree :=
  match validateWorkspaceManifest dump sha256 limits manifest with
  | .error e => (.error e, tree)
  | .ok () =>
    if ¬(SafeComponent runId ∧ SafeComponent workId ∧ SafeComponent attemptId) then
      (.error (.of .validation "Workspace staging identity is incomplete"), tree)
    else if (manifest.entry? "version" matches some (.num 2)) ∧ store.isNone then
      (.error (.of .storage "An artifact store is required for object-backed workspaces"), tree)
    else
      let stage := root ++ ["run-" ++ runId, "work-" ++ workId, "attempt-" ++ attemptId].map
        String.toList
      match createDirectories (removeAll tree stage) stage with
      | none =>
        (.error (.of .storage "Unable to create workspace staging directory"), removeAll tree stage)
      | some tree =>
        match stageFiles store manifest stage manifest.files tree with
        | (.ok (), tree) => (.ok stage, tree)
        | (.error e, tree) => (.error e, removeAll tree stage)

end Stage

lemma splitChars_ne_nil {c : Char} {rest : List Char} (h : c ≠ '/') :
    ∃ part parts, splitChars '/' (c :: rest) = part :: parts ∧ part ≠ [] := by
  rw [splitChars, if_neg h]
  split <;> simp

lemma SafeRelativePath.resolves (h : SafeRelativePath entry.filePath) (directory : Place) :
    pathNames entry.filePath ≠ [] ∧
      resolve directory entry.parts = directory ++ pathNames entry.filePath := by
  obtain ⟨hne, -, hslash, -, -, -, -, hparts⟩ := h
  obtain ⟨c, rest, htext⟩ := exists_cons_of_ne_nil hne
  obtain ⟨part, parts, hsplit, hnil⟩ := @splitChars_ne_nil c rest (by simpa [htext] using hslash)
  rw [pathNames, Json.parts, htext, hsplit]
  rw [htext, hsplit] at hparts
  refine ⟨by simp [hnil], ?_⟩
  rw [resolve, if_neg (by simpa using hnil)]
  -- no part is a dot, so each one is left out or appended
  generalize part :: parts = parts at hparts
  induction parts generalizing directory with
  | nil => simp
  | cons part parts ih =>
    obtain ⟨⟨hup, hhere⟩, hparts⟩ := forall_mem_cons.mp hparts
    rw [foldl_cons, ih _ hparts]
    by_cases hnil : part = []
    · simp [hnil]
    · simp [hnil, hup, hhere]

section Staged

variable {store : Option (Json → Except Exn Unit)} {stage : Place} {tree tree' : FileTree}

lemma createDirectories_kept {place p : Place} (h : createDirectories tree place = some tree')
    (hp : tree p = some (.file entry)) : tree' p = some (.file entry) := by
  unfold createDirectories at h
  generalize place.inits = places at h
  induction places generalizing tree with
  | nil =>
    cases h
    exact hp
  | cons q places ih =>
    obtain ⟨next, hnext, h⟩ := Option.bind_eq_some_iff.mp h
    refine ih ?_ h
    dsimp only at hnext
    split at hnext
    · cases hnext
    · rename_i hfree
      cases hnext
      rw [Function.update_of_ne, hp]
      rintro rfl
      exact hfree _ hp

/-- **Step lemma.** An entry that is staged is at its place, and the files elsewhere are kept. -/
lemma stageEntry_kept (h : stageEntry store manifest stage tree entry = (.ok (), tree')) :
    tree' (resolve stage entry.parts) = some (.file entry) ∧ ∀ p other,
      p ≠ resolve stage entry.parts → tree p = some (.file other) → tree' p = some (.file other) := by
  unfold stageEntry at h
  split at h
  · cases h
  rename_i made hmade
  split at h
  · cases h
  split at h
  · cases h
  · cases h
  · cases h
    refine ⟨Function.update_self .., fun p other hp hfile => ?_⟩
    rw [Function.update_of_ne hp]
    exact createDirectories_kept hmade hfile

/-- **Run lemma.** If no two of the entries have the same place, all of them are there in the end. -/
lemma stageFiles_kept (h : stageFiles store manifest stage files tree = (.ok (), tree')) :
    (∀ p other, (∀ entry ∈ files, p ≠ resolve stage entry.parts) → tree p = some (.file other) →
      tree' p = some (.file other)) ∧
    ((files.map fun entry => resolve stage entry.parts).Nodup →
      ∀ entry ∈ files, tree' (resolve stage entry.parts) = some (.file entry)) := by
  induction files generalizing tree with
  | nil =>
    cases h
    exact ⟨fun _ _ _ hp => hp, by simp⟩
  | cons first rest ih =>
    rw [stageFiles] at h
    split at h
    · cases h
    rename_i next hnext
    obtain ⟨hfirst, hothers⟩ := stageEntry_kept hnext
    obtain ⟨hkept, hrest⟩ := ih h
    constructor
    · intro p other hp hfile
      obtain ⟨hne, hp⟩ := forall_mem_cons.mp hp
      exact hkept p other hp (hothers p other hne hfile)
    · rw [map_cons, nodup_cons, mem_map, not_exists]
      rintro ⟨hnew, hnodup⟩
      refine forall_mem_cons.mpr ⟨hkept _ first (fun entry hentry heq => ?_) hfirst, hrest hnodup⟩
      exact hnew entry ⟨hentry, heq.symm⟩

end Staged

/-- The entries of an accepted manifest are staged strictly inside of the directory. When all of them
have been staged, none has overwritten another exactly when different paths differ in more than their
slashes. -/
theorem staged_apart (h : validateWorkspaceManifest dump sha256 limits manifest = .ok ()) :
    (∀ stage, ∀ entry ∈ manifest.files,
      ∃ names, names ≠ [] ∧ resolve stage entry.parts = stage ++ names) ∧
    ∀ store root runId workId attemptId tree stage tree',
      stageWorkspace store manifest dump sha256 limits root runId workId attemptId tree =
        (.ok stage, tree') →
      ((∀ entry ∈ manifest.files, tree' (resolve stage entry.parts) = some (.file entry)) ↔
        ∀ entry ∈ manifest.files, ∀ entry' ∈ manifest.files, entry.filePath ≠ entry'.filePath →
          pathNames entry.filePath ≠ pathNames entry'.filePath) := by
  obtain ⟨version, scan, -, -, hscan⟩ := scanned h
  obtain ⟨hpaths, hfiles, -⟩ := ManifestScan.run hscan nodup_nil
  have hresolve := fun stage entry hentry => (hfiles entry hentry).1.resolves stage
  refine ⟨fun stage entry hentry => ⟨_, hresolve stage entry hentry⟩, ?_⟩
  intro store root runId workId attemptId tree stage tree' hstaged
  constructor
  · intro hall entry hentry entry' hentry' hne hnames
    have hplace : resolve stage entry.parts = resolve stage entry'.parts := by
      rw [(hresolve stage entry hentry).2, (hresolve stage entry' hentry').2, hnames]
    have hfile := (hall entry hentry).symm.trans (hplace ▸ hall entry' hentry')
    cases hfile
    exact hne rfl
  · intro hnames
    obtain ⟨made, hmade⟩ : ∃ made, stageFiles store manifest stage manifest.files made =
        (.ok (), tree') := by
      unfold stageWorkspace at hstaged
      simp only at hstaged
      repeat' split at hstaged
      all_goals cases hstaged
      all_goals
        rename_i hrun
        exact ⟨_, hrun⟩
    refine (stageFiles_kept hmade).2 ?_
    have hmap : (manifest.files.map fun entry => resolve stage entry.parts) =
        (manifest.files.map Json.filePath).map fun path => stage ++ pathNames path := by
      rw [map_map]
      exact map_congr_left fun entry hentry => (hresolve stage entry hentry).2
    rw [hmap, nodup_map_iff_inj_on (by simpa using hpaths)]
    simpa [not_imp_not] using hnames

/-- A staging of a manifest of objects in an empty file system, and what is at some places then. -/
def stagedAt (paths : List String) (places : List (List String)) : Bool × List (Option String) :=
  let (result, tree) := stageWorkspace (some fun _ => .ok ()) (sampleManifest paths 3) (fun _ => 2)
    (fun _ => "") {} [] "r" "w" "a" fun _ => none
  (result.isOk, places.map fun place => match tree ((["run-r", "work-w", "attempt-a"] ++ place).map
    String.toList) with
    | some (.file entry) => some entry.filePath
    | _ => none)

theorem staged_apart_pair : ∃ stage tree,
    stageWorkspace (some fun _ => .ok ()) (sampleManifest ["a", "b/c"] 3) (fun _ => 2) (fun _ => "") {}
      [] "r" "w" "a" (fun _ => none) = (.ok stage, tree) ∧
    ∀ entry ∈ (sampleManifest ["a", "b/c"] 3).files,
      tree (resolve stage entry.parts) = some (.file entry) := by
  have h : validateWorkspaceManifest (fun _ => 2) (fun _ => "") {}
    (sampleManifest ["a", "b/c"] 3) = .ok () := by decide +kernel
  have hok : (stageWorkspace (some fun _ => .ok ()) (sampleManifest ["a", "b/c"] 3) (fun _ => 2)
    (fun _ => "") {} [] "r" "w" "a" fun _ => none).1.isOk = true := by decide +kernel
  cases hstaged : stageWorkspace (some fun _ => .ok ()) (sampleManifest ["a", "b/c"] 3) (fun _ => 2)
    (fun _ => "") {} [] "r" "w" "a" fun _ => none with
  | mk result tree =>
  rw [hstaged] at hok
  cases result with
  | error e => cases hok
  | ok stage =>
    exact ⟨stage, tree, rfl, ((staged_apart h).2 _ _ _ _ _ _ _ _ hstaged).mpr (by decide +kernel)⟩

/-- Two accepted entries are one file: the second one has overwritten the first. A path with a slash at
its end is accepted too, but cannot be staged. -/
theorem doubled_slash_overwrites :
    stagedAt ["a/b", "a//b"] [["a", "b"]] = (true, [some "a//b"]) ∧
      stagedAt ["a", "a/"] [["a"]] = (false, [none]) := by
  decide +kernel

end Laso
