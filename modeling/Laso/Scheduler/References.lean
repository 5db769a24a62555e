import Mathlib.Data.List.TakeWhile
import Laso.Scheduler.Definitions

/-!
# References to pipelines

A pipeline is registered under its name and version, as `name@version`; a pipeline from before there
were versions is registered under its name alone and is version 1. A reference may leave the version
out. `pipelineRecord` is how the service finds the pipeline of a reference; with a version it finds
that pipeline and no other one (`eq_of_pipelineRecord`).
-/

namespace Laso

open List String

/-- `identifier`: a letter or digit, then at most 127 letters, digits, underscores, dots or dashes. -/
def isIdentifier : List Char → Bool
  | [] => false
  | c :: rest => c.isAlphanum && rest.all (fun c => c.isAlphanum || c == '_' || c == '.' || c == '-') &&
      decide (rest.length ≤ 127)

lemma notMem_of_isIdentifier {cs : List Char} (h : isIdentifier cs) : '@' ∉ cs := by
  cases cs with
  | nil => exact not_mem_nil
  | cons c rest =>
  simp only [isIdentifier, Bool.and_eq_true, all_eq_true] at h
  intro hmem
  rcases mem_cons.mp hmem with rfl | hmem
  · exact absurd h.1.1 (by decide)
  · exact absurd (h.1.2 _ hmem) (by decide)

lemma takeWhile_of_isIdentifier {name : List Char} (h : isIdentifier name) (rest : List Char) :
    (name ++ '@' :: rest).takeWhile (· != '@') = name := by
  have hname : ∀ c ∈ name, (c != '@') := by
    intro c hc
    simpa using fun heq : c = '@' => notMem_of_isIdentifier h (heq ▸ hc)
  rw [takeWhile_append_of_pos hname]
  simp

/-- A version as `std::stoul` reads it: blanks, a sign and digits. A minus sign is taken modulo
`2 ^ 64`. -/
def versionDigits (text : List Char) : Except Error Nat :=
  let unsigned (digits : List Char) : Except Error Nat := do
    require (digits ≠ [] ∧ digits.all Char.isDigit ∧ decimal digits < 2 ^ 64)
      ⟨.validation, "Invalid pipeline reference version"⟩
    return decimal digits
  match text.dropWhile isSpace with
  | '-' :: digits => do return (2 ^ 64 - (← unsigned digits)) % 2 ^ 64
  | '+' :: digits => unsigned digits
  | digits => unsigned digits

structure PipelineReference where
  name : String
  version : Nat := 0
  explicitVersion : Bool := false
  deriving DecidableEq

def pipelineName (text : String) : String := ofList (text.toList.takeWhile (· != '@'))

/-- `parse_pipeline_reference`. -/
def parsePipelineReference (text : String) : Except Error PipelineReference :=
  match text.toList.dropWhile (· != '@') with
  | [] => do
    require (isIdentifier text.toList) ⟨.validation, "Invalid pipeline reference"⟩
    return { name := text }
  | _ :: digits => do
    require (digits ≠ [] ∧ '@' ∉ digits ∧ isIdentifier (pipelineName text).toList)
      ⟨.validation, "Invalid versioned pipeline reference"⟩
    let version ← versionDigits digits
    require (version ≠ 0 ∧ version ≤ 1000000) ⟨.validation, "Invalid pipeline reference version"⟩
    return { name := pipelineName text, version, explicitVersion := true }

/-- `pipeline_reference`. -/
def pipelineReference (name : String) (version : Nat) : String := name ++ "@" ++ Nat.repr version

structure PipelineRow where
  name : String
  version : Nat
  /-- It was registered under its name alone. -/
  legacy : Bool := false
  identifier : isIdentifier name.toList
  first : legacy → version = 1

def PipelineRow.id (row : PipelineRow) : String :=
  if row.legacy then row.name else pipelineReference row.name row.version

/-- The registered pipelines as a reader finds them: `get` by their keys, and all of them. -/
structure PipelineStore where
  get : (key : String) → Except Error { row : PipelineRow // row.id = key }
  rows : Except Error (List PipelineRow)

/-- `pipeline_record`. -/
def pipelineRecord (store : PipelineStore) (reference : String) : Except Error PipelineRow := do
  let parsed ← parsePipelineReference reference
  if parsed.explicitVersion then
    match store.get (pipelineReference parsed.name parsed.version) with
    | .ok row => return row
    | .error e =>
      if e.code ≠ .notFound ∨ parsed.version ≠ 1 then throw e
      else return (← store.get parsed.name)
  else
    match store.get parsed.name with
    | .ok row => return row
    | .error e =>
      if e.code ≠ .notFound then throw e
      else
        match (← store.rows).filter (fun row => row.name == parsed.name) with
        | [] => throw ⟨.notFound, "Pipeline is not registered"⟩
        | [row] => return row
        | _ => throw ⟨.conflict, "Unversioned pipeline reference is ambiguous"⟩

/-! ## Versioned references -/

section Versioned

variable {name text : String} {version : Nat} {reference : PipelineReference} {row : PipelineRow}

lemma toList_pipelineReference (name : String) (version : Nat) :
    (pipelineReference name version).toList = name.toList ++ '@' :: version.repr.toList := by
  simp [pipelineReference]

lemma decimal_repr (n : Nat) : decimal n.repr.toList = n := by
  have h : Nat.ofDigitChars 10 (Nat.toDigits 10 n) 0 = n := by simp [Nat.ofDigitChars_toDigits]
  rw [Nat.toList_repr]
  exact h

lemma versionDigits_digit {c : Char} {rest : List Char} (hc : c.isDigit) :
    versionDigits (c :: rest) = (do
      require ((c :: rest) ≠ [] ∧ (c :: rest).all Char.isDigit ∧ decimal (c :: rest) < 2 ^ 64)
        ⟨.validation, "Invalid pipeline reference version"⟩
      return decimal (c :: rest)) := by
  have hspace : isSpace c ≠ true := by
    intro hspace
    simp only [isSpace, Char.isWhitespace, Bool.or_eq_true, decide_eq_true_eq, beq_iff_eq] at hspace
    rcases hspace with (((((rfl | rfl) | rfl) | rfl) | rfl) | rfl) <;> exact absurd hc (by decide)
  unfold versionDigits
  rw [dropWhile_cons_of_neg hspace]
  split
  · rename_i heq
    cases heq
    exact absurd hc (by decide)
  · rename_i heq
    cases heq
    exact absurd hc (by decide)
  · rfl

lemma repr_eq_cons (n : Nat) : ∃ c rest, n.repr.toList = c :: rest ∧
    (c :: rest).all Char.isDigit := by
  have hdigits : ∀ c ∈ n.repr.toList, c.isDigit := fun c hc =>
    Bool.not_eq_false _ ▸ fun hnot => ne_of_mem_repr hnot hc rfl
  cases hrepr : n.repr.toList with
  | nil => exact absurd hrepr (by simp)
  | cons c rest => exact ⟨c, rest, rfl, by simpa [hrepr] using hdigits⟩

lemma versionDigits_repr (n : Nat) : versionDigits n.repr.toList =
    (do require (n < 2 ^ 64) ⟨.validation, "Invalid pipeline reference version"⟩; return n) := by
  obtain ⟨c, rest, hrepr, hdigits⟩ := repr_eq_cons n
  have hc : c.isDigit := all_eq_true.mp hdigits c mem_cons_self
  have hdecimal := decimal_repr n
  rw [hrepr] at hdecimal ⊢
  rw [versionDigits_digit hc, hdecimal]
  simp only [ne_eq, reduceCtorEq, not_false_eq_true, hdigits, true_and]

/-- **What is accepted as a reference**, and what it is read as. -/
lemma parsePipelineReference_eq_ok : parsePipelineReference text = .ok reference ↔
    (isIdentifier text.toList ∧ reference = { name := text }) ∨
    ∃ name digits version, text.toList = name ++ '@' :: digits ∧ isIdentifier name ∧
      digits ≠ [] ∧ '@' ∉ digits ∧ versionDigits digits = .ok version ∧ version ≠ 0 ∧
      version ≤ 1000000 ∧ reference = ⟨ofList name, version, true⟩ := by
  have hsplit := takeWhile_append_dropWhile (p := (· != '@')) (l := text.toList)
  unfold parsePipelineReference
  cases hdrop : text.toList.dropWhile (· != '@') with
  | nil =>
    have hnone : '@' ∉ text.toList := fun hmem => by simpa using dropWhile_eq_nil_iff.mp hdrop _ hmem
    simp only [bind_eq_ok, require_eq_ok, pure_eq_ok, exists_and_left, eq_comm (a := reference)]
    constructor
    · rintro ⟨hident, -, rfl⟩
      exact .inl ⟨hident, rfl⟩
    · rintro (⟨hident, rfl⟩ | ⟨name, digits, htext, -⟩)
      · exact ⟨hident, (), rfl⟩
      · simp [htext] at hnone
  | cons c digits =>
  obtain rfl : c = '@' := by simpa [hdrop] using head?_dropWhile_not (· != '@') text.toList
  rw [hdrop] at hsplit
  simp only [bind_eq_ok, require_eq_ok, pure_eq_ok, pipelineName, toList_ofList]
  constructor
  · rintro ⟨-, ⟨hne, honce, hident⟩, version, hversion, -, ⟨hpos, hle⟩, rfl⟩
    exact .inr ⟨_, digits, version, hsplit.symm, hident, hne, honce, hversion, hpos, hle, rfl⟩
  rintro (⟨hident, -⟩ | ⟨name, digits', version, htext, hident, hne, honce, hversion, hpos, hle, rfl⟩)
  · refine absurd ?_ (notMem_of_isIdentifier hident)
    rw [← hsplit]
    simp
  rw [htext, takeWhile_of_isIdentifier hident] at hsplit ⊢
  obtain rfl : digits = digits' := by simpa using hsplit
  exact ⟨(), ⟨hne, honce, hident⟩, version, hversion, (), ⟨hpos, hle⟩, rfl⟩

/-- **A printed reference is read back**, if it is read at all. -/
lemma parse_pipelineReference
    (h : parsePipelineReference (pipelineReference name version) = .ok reference) :
    reference = { name, version, explicitVersion := true } ∧ isIdentifier name.toList := by
  have htext := toList_pipelineReference name version
  have hversion : '@' ∉ version.repr.toList := fun hmem => ne_of_mem_repr (by decide) hmem rfl
  rcases parsePipelineReference_eq_ok.mp h with ⟨hident, -⟩ | ⟨name', digits, version', htext', hident,
    -, honce, hdigits, -, -, rfl⟩
  · refine absurd ?_ (notMem_of_isIdentifier hident)
    simp [htext]
  obtain ⟨rfl, rfl⟩ := split_last hversion honce (htext.symm.trans htext')
  rw [versionDigits_repr, bind_eq_ok] at hdigits
  obtain ⟨_, -, hdigits⟩ := hdigits
  cases hdigits
  exact ⟨by rw [ofList_toList], hident⟩

lemma explicit_of_parse (h : parsePipelineReference text = .ok reference)
    (he : reference.explicitVersion) :
    reference.name = pipelineName text ∧ '@' ∈ text.toList := by
  rcases parsePipelineReference_eq_ok.mp h with ⟨-, rfl⟩ | ⟨name, digits, version, htext, hident, -, -,
    -, -, -, rfl⟩
  · cases he
  exact ⟨by rw [pipelineName, htext, takeWhile_of_isIdentifier hident], by simp [htext]⟩

@[simp] lemma pipelineName_pipelineName (text : String) :
    pipelineName (pipelineName text) = pipelineName text := by
  simp [pipelineName, takeWhile_idem]

variable {name' : String}

lemma pipelineReference_inj {version' : Nat}
    (h : pipelineReference name version = pipelineReference name' version') :
    name = name' ∧ version = version' := by
  have htext := congrArg toList h
  rw [toList_pipelineReference, toList_pipelineReference] at htext
  obtain ⟨hname, hversion⟩ := append_repr_inj (by decide) htext
  exact ⟨toList_inj.mp hname, hversion⟩

lemma pipelineReference_ne (hname : isIdentifier name.toList) :
    pipelineReference name' version ≠ name := fun h => by
  refine notMem_of_isIdentifier hname ?_
  rw [← h, toList_pipelineReference]
  simp

/-- **A versioned reference finds the pipeline of that name and version.** -/
lemma eq_of_pipelineRecord {store : PipelineStore}
    (h : pipelineRecord store (pipelineReference name version) = .ok row) :
    row.name = name ∧ row.version = version := by
  obtain ⟨parsed, hparsed, h⟩ := bind_eq_ok.mp h
  obtain ⟨rfl, hident⟩ := parse_pipelineReference hparsed
  simp only [if_true] at h
  split at h
  · rename_i found _
    cases h
    have hid := found.2
    unfold PipelineRow.id at hid
    split at hid
    · exact absurd hid.symm (pipelineReference_ne found.1.identifier)
    · exact pipelineReference_inj hid
  split at h
  · cases h
  rename_i hfirst
  obtain ⟨found, -, h⟩ := bind_eq_ok.mp h
  cases h
  have hid := found.2
  unfold PipelineRow.id at hid
  split at hid
  · rename_i hlegacy
    have hversion : version = 1 := by
      by_contra hne
      exact hfirst (.inr hne)
    exact ⟨hid, (found.1.first hlegacy).trans hversion.symm⟩
  · exact absurd hid (pipelineReference_ne hident)

/-! ## The language of references -/

lemma head?_toDigits {n : Nat} (h : 0 < n) : (Nat.toDigits 10 n).head? ≠ some '0' := by
  induction n using Nat.strong_induction_on with
  | _ n ih =>
    rw [Nat.toDigits_eq_if (by decide)]
    split
    · interval_cases n <;> decide
    · have hhead := ih (n / 10) (by omega) (by omega)
      cases hdigits : Nat.toDigits 10 (n / 10) with
      | nil => exact absurd hdigits Nat.toDigits_ne_nil
      | cons c rest => simpa [hdigits] using hhead

lemma toDigits_of_isDigit {c : Char} (h : c.isDigit) :
    Nat.toDigits 10 (c.toNat - '0'.toNat) = [c] ∧ c.toNat - '0'.toNat < 10 := by
  simp only [Char.isDigit, Bool.and_eq_true, decide_eq_true_eq] at h
  obtain ⟨hlower, hupper⟩ : 48 ≤ c.toNat ∧ c.toNat ≤ 57 := h
  have hc := Char.ofNat_toNat c
  generalize c.toNat = n at hc hlower hupper ⊢
  subst hc
  interval_cases n <;> decide

/-- Digits that do not start with a zero are the digits of their number. -/
lemma toDigits_decimal {digits : List Char} (hdigits : ∀ c ∈ digits, c.isDigit)
    (hne : digits ≠ []) (hzero : digits.head? ≠ some '0') :
    Nat.toDigits 10 (decimal digits) = digits := by
  induction digits using reverseRecOn with
  | nil => exact absurd rfl hne
  | append_singleton rest c ih =>
    obtain ⟨hc, hlt⟩ := toDigits_of_isDigit (hdigits c (by simp))
    cases hrest : rest with
    | nil => simpa [decimal] using hc
    | cons d rest' =>
    subst hrest
    have hrest := ih (fun e he => hdigits e (mem_append_left _ he)) (by simp) (by simpa using hzero)
    have hpos : 0 < decimal (d :: rest') := by
      by_contra hnot
      rw [Nat.eq_zero_of_not_pos hnot, Nat.toDigits_zero] at hrest
      simp [← hrest] at hzero
    have hsum : decimal (d :: rest' ++ [c]) = 10 * decimal (d :: rest') + (c.toNat - '0'.toNat) := by
      simp [decimal]
    rw [hsum, ← Nat.toDigits_append_toDigits (by decide) hpos hlt, hrest, hc]

/-- The references as they are documented. -/
def CanonicalReference (text : String) : Prop :=
  isIdentifier text.toList ∨ ∃ name version, isIdentifier name.toList ∧
    1 ≤ version ∧ version ≤ 1000000 ∧ text = name ++ "@" ++ Nat.repr version

/-- What follows the separator, if there is one, starts with a digit that is not zero. -/
def PlainVersion (text : String) : Prop :=
  ∀ c rest, text.toList.dropWhile (· != '@') = '@' :: c :: rest → c.isDigit ∧ c ≠ '0'

lemma canonical_iff (h : parsePipelineReference text = .ok reference) :
    (CanonicalReference text ∧ (reference.explicitVersion →
      pipelineReference reference.name reference.version = text)) ↔ PlainVersion text := by
  rcases parsePipelineReference_eq_ok.mp h with ⟨hident, rfl⟩ | ⟨name, digits, version, htext, hident,
    hne, -, hversion, hpos, hle, rfl⟩
  · have hnone : text.toList.dropWhile (· != '@') = [] := by
      rw [dropWhile_eq_nil_iff]
      intro c hc
      simpa using fun heq : c = '@' => notMem_of_isIdentifier hident (heq ▸ hc)
    simp [CanonicalReference, PlainVersion, hident, hnone]
  obtain ⟨c, rest, rfl⟩ := exists_cons_of_ne_nil hne
  have hplain : PlainVersion text ↔ c.isDigit ∧ c ≠ '0' := by
    have hdrop := takeWhile_append_dropWhile (p := (· != '@')) (l := text.toList)
    rw [htext, takeWhile_of_isIdentifier hident, append_cancel_left_eq] at hdrop
    simp [PlainVersion, htext, hdrop]
  rw [hplain]
  constructor
  · rintro ⟨-, hprint⟩
    have hrepr : version.repr.toList = c :: rest := by
      have heq := congrArg toList (hprint rfl)
      rw [toList_pipelineReference, htext] at heq
      simpa using heq
    obtain ⟨_, _, hcons, hdigits⟩ := repr_eq_cons version
    have hhead := head?_toDigits (Nat.pos_of_ne_zero hpos)
    rw [← Nat.toList_repr, hrepr] at hhead
    rw [← hcons, hrepr] at hdigits
    exact ⟨all_eq_true.mp hdigits c mem_cons_self, by simpa using hhead⟩
  rintro ⟨hc, hzero⟩
  rw [versionDigits_digit hc] at hversion
  simp only [bind_eq_ok, require_eq_ok, pure_eq_ok] at hversion
  obtain ⟨-, ⟨-, hdigits, -⟩, rfl⟩ := hversion
  have hrepr := toDigits_decimal (all_eq_true.mp hdigits) (by simp) (by simpa using hzero)
  have hprint : text = ofList name ++ "@" ++ Nat.repr (decimal (c :: rest)) := by
    rw [← toList_inj, htext]
    simp [Nat.toList_repr, hrepr]
  exact ⟨.inr ⟨_, _, by simpa using hident, Nat.pos_of_ne_zero hpos, hle, hprint⟩,
    fun _ => hprint.symm⟩

lemma exists_parse_of_canonical (h : CanonicalReference text) :
    ∃ reference, parsePipelineReference text = .ok reference := by
  rcases h with hident | ⟨name, version, hident, hpos, hle, rfl⟩
  · exact ⟨_, parsePipelineReference_eq_ok.mpr (.inl ⟨hident, rfl⟩)⟩
  refine ⟨_, parsePipelineReference_eq_ok.mpr (.inr ⟨name.toList, version.repr.toList, version, ?_,
    hident, by simp, fun hmem => ne_of_mem_repr (by decide) hmem rfl, ?_, by omega, hle, rfl⟩)⟩
  · exact toList_pipelineReference name version
  · rw [versionDigits_repr, require, if_pos (by omega)]
    rfl

/-- **The language of references.** Every documented reference is accepted. An accepted text is a
documented reference and is printed as it was if and only if its version starts with a digit other than
zero, and two such texts with one meaning are equal. -/
theorem references_canonical (text : String) :
    (CanonicalReference text → ∃ reference, parsePipelineReference text = .ok reference) ∧
    (∀ reference, parsePipelineReference text = .ok reference →
      ((CanonicalReference text ∧ (reference.explicitVersion = true →
        pipelineReference reference.name reference.version = text)) ↔ PlainVersion text)) ∧
    ∀ other reference, parsePipelineReference text = .ok reference →
      parsePipelineReference other = .ok reference → PlainVersion text → PlainVersion other →
      text = other := by
  refine ⟨exists_parse_of_canonical, fun _ => canonical_iff, fun other reference h h' hp hp' => ?_⟩
  obtain ⟨-, hprint⟩ := (canonical_iff h).mpr hp
  obtain ⟨-, hprint'⟩ := (canonical_iff h').mpr hp'
  by_cases he : reference.explicitVersion
  · exact (hprint he).symm.trans (hprint' he)
  rcases parsePipelineReference_eq_ok.mp h with ⟨-, rfl⟩ | ⟨_, _, _, -, -, -, -, -, -, -, rfl⟩
  · rcases parsePipelineReference_eq_ok.mp h' with ⟨-, heq⟩ | ⟨_, _, _, -, -, -, -, -, -, -, heq⟩
    · exact congrArg PipelineReference.name heq
    · cases heq
  · exact absurd rfl he

/-- `std::stoul` also accepts leading zeros, a sign and blanks: four texts for one pipeline. -/
theorem references_ambiguous : ["p@1", "p@01", "p@+1", "p@ 1"].map parsePipelineReference =
      replicate 4 (.ok ⟨"p", 1, true⟩) := by
  decide

end Versioned

end Laso
