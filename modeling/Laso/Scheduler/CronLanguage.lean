import Mathlib.Algebra.Group.Int.Defs
import Mathlib.Data.List.Forall2
import Mathlib.Order.Bounds.Basic
import Laso.Scheduler.Cron

/-!
# The language of cron expressions

The texts of a field are lists of items `*`, `n` or `n-m` with an optional step (`FieldText`), and each
item denotes an arithmetic progression. If the bounds of a field are in order, `cronField` accepts these
texts and no others, and returns what they denote (`cron_field_denotes`). `cronNext` returns the first
minute that fits an expression, if there is one within its limit (`cron_next_least`).
-/

namespace Laso

open List

/-! ## Fields -/

/-- A number of one to six decimal digits. -/
def Numeral (text : List Char) (n : Nat) : Prop :=
  text ≠ [] ∧ text.length ≤ 6 ∧ text.all Char.isDigit ∧ decimal text = n

structure CronItem where
  first : Nat
  last : Nat
  step : Nat
  wildcard : Bool

inductive RangeText (minimum maximum : Nat) : List Char → Nat → Nat → Bool → Prop
  | all : RangeText minimum maximum ['*'] minimum maximum true
  | one {d : List Char} {n : Nat} : Numeral d n → minimum ≤ n → n ≤ maximum →
      RangeText minimum maximum d n n false
  | two {d e : List Char} {n m : Nat} : Numeral d n → Numeral e m → minimum ≤ n → n ≤ m →
      m ≤ maximum → RangeText minimum maximum (d ++ '-' :: e) n m false

inductive ItemText (minimum maximum : Nat) : List Char → CronItem → Prop
  | plain {text : List Char} {n m : Nat} {w : Bool} : RangeText minimum maximum text n m w →
      ItemText minimum maximum text ⟨n, m, 1, w⟩
  | step {text d : List Char} {n m s : Nat} {w : Bool} : RangeText minimum maximum text n m w →
      Numeral d s → 1 ≤ s → s + minimum ≤ maximum + 1 →
      ItemText minimum maximum (text ++ '/' :: d) ⟨n, m, s, w⟩

def FieldText (minimum maximum : Nat) (text : List Char) (items : List CronItem) : Prop :=
  text.length ≤ 64 ∧ ∃ parts, parts ≠ [] ∧ text = [','].intercalate parts ∧
    Forall₂ (ItemText minimum maximum) parts items

/-- The field has the values of its items, 7 being 0 for weekdays. -/
def Denotes (sundayAlias : Bool) (items : List CronItem) (field : CronField) : Prop :=
  (∀ v, v ∈ field.values ↔ ∃ item ∈ items, ∃ k, item.first + k * item.step ≤ item.last ∧
    v = if sundayAlias ∧ item.first + k * item.step = 7 then 0 else item.first + k * item.step) ∧
  (field.wildcard ↔ ∃ item ∈ items, item.wildcard)

variable {minimum maximum : Nat} {text : List Char} {sundayAlias : Bool} {result : CronField}

lemma splitChars_eq (c : Char) (text : List Char) : splitChars c text = text.splitOn c := by
  induction text with
  | nil => rfl
  | cons d rest ih =>
    rw [splitChars, ih, splitOn, splitOn, splitOnP_cons_eq_if_modifyHead]
    by_cases hd : d = c
    · simp [hd]
    · cases hrest : splitOnP (· == c) rest with
      | nil => exact absurd hrest (splitOnP_ne_nil _ _)
      | cons part parts => simp [hd]

variable {parts : List (List Char)} {c : Char}

lemma eq_of_splitChars (h : splitChars c text = parts) :
    text = [c].intercalate parts := by
  rw [← h, splitChars_eq, intercalate_splitOn]

lemma splitChars_intercalate (hne : parts ≠ [])
    (h : ∀ part ∈ parts, c ∉ part) : splitChars c ([c].intercalate parts) = parts := by
  rw [splitChars_eq, splitOn_intercalate c h hne]

lemma splitChars_single (h : c ∉ text) : splitChars c text = [text] := by
  simpa using splitChars_intercalate (cons_ne_nil text []) (by simpa using h)

lemma splitChars_pair {d e : List Char} (hd : c ∉ d) (he : c ∉ e) :
    splitChars c (d ++ c :: e) = [d, e] := by
  simpa using splitChars_intercalate (cons_ne_nil d [e]) (by simp [hd, he])

variable {n : Nat}

lemma Numeral.notMem (h : Numeral text n) (hc : c.isDigit = false) : c ∉ text := by
  intro hmem
  simpa [hc] using all_eq_true.mp h.2.2.1 c hmem

lemma Numeral.ne_all (h : Numeral text n) : text ≠ ['*'] := by
  rintro rfl
  exact h.notMem (c := '*') (by decide) (by simp)

lemma cronNumber_eq_ok :
    cronNumber text minimum maximum = .ok n ↔ Numeral text n ∧ minimum ≤ n ∧ n ≤ maximum := by
  simp only [cronNumber, bind_eq_ok, require_eq_ok, pure_eq_ok, Numeral]
  constructor
  · rintro ⟨-, ⟨hne, hlength, hdigits⟩, -, hbounds, rfl⟩
    exact ⟨⟨hne, hlength, hdigits, rfl⟩, hbounds⟩
  · rintro ⟨⟨hne, hlength, hdigits, rfl⟩, hbounds⟩
    exact ⟨(), ⟨hne, hlength, hdigits⟩, (), hbounds, rfl⟩

variable {m : Nat}

lemma cronRange_eq_ok : cronRange text minimum maximum = .ok (n, m) ↔
    RangeText minimum maximum text n m (decide (text = ['*'])) := by
  constructor
  · intro h
    unfold cronRange at h
    split at h
    · rename_i hall
      cases h
      simpa [hall] using RangeText.all
    rename_i hall
    rw [decide_eq_false hall]
    split at h
    · rename_i first hsplit
      simp only [bind_eq_ok, require_eq_ok, pure_eq_ok, Prod.mk.injEq, cronNumber_eq_ok] at h
      obtain ⟨-, -, value, ⟨hnumeral, hlower, hupper⟩, rfl, rfl⟩ := h
      obtain rfl : text = first := by simpa using eq_of_splitChars hsplit
      exact .one hnumeral hlower hupper
    · rename_i first last hsplit
      simp only [bind_eq_ok, require_eq_ok, pure_eq_ok, Prod.mk.injEq, cronNumber_eq_ok] at h
      obtain ⟨-, -, lower, ⟨hfirst, hlower, -⟩, upper, ⟨hlast, -, hupper⟩, -, hle, rfl, rfl⟩ := h
      obtain rfl : text = first ++ '-' :: last := by simpa using eq_of_splitChars hsplit
      exact .two hfirst hlast hlower hle hupper
    · cases h
  intro h
  generalize hw : decide (text = ['*']) = w at h
  unfold cronRange
  cases h with
  | all => simp
  | one hnumeral hlower hupper =>
    have hsplit : splitChars '-' text = [text] := splitChars_single (hnumeral.notMem (by decide))
    simp only [hnumeral.ne_all, hsplit, if_false, bind_eq_ok, require_eq_ok, pure_eq_ok,
      cronNumber_eq_ok]
    exact ⟨(), hnumeral.1, n, ⟨hnumeral, hlower, hupper⟩, rfl⟩
  | @two d e _ _ hfirst hlast hlower hle hupper =>
  have hsplit : splitChars '-' (d ++ '-' :: e) = [d, e] :=
    splitChars_pair (hfirst.notMem (by decide)) (hlast.notMem (by decide))
  simp only [of_decide_eq_false hw, hsplit, if_false, bind_eq_ok, require_eq_ok, pure_eq_ok,
    cronNumber_eq_ok]
  exact ⟨(), hfirst.1, n, ⟨hfirst, hlower, by omega⟩, m, ⟨hlast, by omega, hupper⟩, (), hle, rfl⟩

def CronItem.field (item : CronItem) (sundayAlias : Bool) : CronField where
  values := cronValues item.last item.step sundayAlias (item.last + 1) item.first
  wildcard := item.wildcard

lemma RangeText.notMem {w : Bool} (h : RangeText minimum maximum text n m w)
    (hc : c.isDigit = false) (hstar : c ≠ '*') (hdash : c ≠ '-') : c ∉ text := by
  cases h with
  | all => simpa using hstar
  | one hnumeral => exact hnumeral.notMem hc
  | two hfirst hlast => simp [hfirst.notMem hc, hlast.notMem hc, hdash]

lemma RangeText.wildcard {w : Bool} (h : RangeText minimum maximum text n m w) :
    decide (text = ['*']) = w ∧ text ≠ [] := by
  cases h with
  | all => simp
  | one hnumeral => simp [hnumeral.ne_all, hnumeral.1]
  | @two d e _ _ hfirst =>
    obtain ⟨c, rest, rfl⟩ := exists_cons_of_ne_nil hfirst.1
    simp

variable (hbounds : minimum ≤ maximum) (hword : maximum < 2 ^ 32 - 1)
include hbounds hword

lemma cronPart_eq_ok : cronPart text minimum maximum sundayAlias = .ok result ↔
    ∃ item, ItemText minimum maximum text item ∧ result = item.field sundayAlias := by
  have hspan : cronSpan minimum maximum = maximum - minimum + 1 := by
    unfold cronSpan
    omega
  unfold cronPart
  constructor
  · intro h
    obtain ⟨-, -, h⟩ := bind_eq_ok.mp h
    split at h
    · rename_i range hsplit
      simp only [bind_eq_ok, require_eq_ok, pure_eq_ok] at h
      obtain ⟨-, -, _, rfl, ⟨n, m⟩, hrange, rfl⟩ := h
      obtain rfl : text = range := by simpa using eq_of_splitChars hsplit
      exact ⟨_, .plain (cronRange_eq_ok.mp hrange), rfl⟩
    · rename_i range step hsplit
      simp only [bind_eq_ok, require_eq_ok, pure_eq_ok, cronNumber_eq_ok] at h
      obtain ⟨-, -, s, ⟨hstep, hpos, hle⟩, _, rfl, ⟨n, m⟩, hrange, rfl⟩ := h
      obtain rfl : text = range ++ '/' :: step := by simpa using eq_of_splitChars hsplit
      exact ⟨_, .step (cronRange_eq_ok.mp hrange) hstep hpos (by omega), rfl⟩
    · cases h
  rintro ⟨item, hitem, rfl⟩
  cases hitem with
  | plain hrange =>
    have hsplit : splitChars '/' text = [text] :=
      splitChars_single (hrange.notMem (by decide) (by decide) (by decide))
    obtain ⟨rfl, hne⟩ := hrange.wildcard
    simp only [hsplit, bind_eq_ok, require_eq_ok, pure_eq_ok]
    exact ⟨(), hne, (), hne, _, rfl, _, cronRange_eq_ok.mpr hrange, rfl⟩
  | @step range d n m s w hrange hstep hpos hle =>
  have hsplit : splitChars '/' (range ++ '/' :: d) = [range, d] :=
    splitChars_pair (hrange.notMem (by decide) (by decide) (by decide)) (hstep.notMem (by decide))
  obtain ⟨rfl, hne⟩ := hrange.wildcard
  simp only [hsplit, bind_eq_ok, require_eq_ok, pure_eq_ok, cronNumber_eq_ok]
  exact ⟨(), by simp, (), ⟨hne, hstep.1⟩, s, ⟨hstep, hpos, by omega⟩, _, rfl, _,
    cronRange_eq_ok.mpr hrange, rfl⟩

omit hbounds hword

variable {item : CronItem}

lemma ItemText.notMem (h : ItemText minimum maximum text item) :
    ',' ∉ text ∧ text ≠ [] ∧ 0 < item.step := by
  cases h with
  | plain hrange =>
    exact ⟨hrange.notMem (by decide) (by decide) (by decide), hrange.wildcard.2, one_pos⟩
  | step hrange hstep hpos =>
    have hcomma := hrange.notMem (c := ',') (by decide) (by decide) (by decide)
    exact ⟨by simp [hcomma, hstep.notMem (c := ',') (by decide)], by simp, hpos⟩

variable {items : List CronItem}

lemma notMem_of_forall₂
    (h : Forall₂ (ItemText minimum maximum) parts items) :
    (∀ part ∈ parts, ',' ∉ part ∧ part ≠ []) ∧ ∀ item ∈ items, 0 < item.step := by
  induction h with
  | nil => simp
  | cons hitem _ ih =>
    obtain ⟨hcomma, hne, hstep⟩ := hitem.notMem
    exact ⟨by simpa [hcomma, hne] using ih.1, by simpa [hstep] using ih.2⟩

/-- **The loop of a field in closed form**: the values in steps up to the last one. -/
lemma mem_cronValues {last step passes value : Nat} (hstep : 0 < step) (hpasses : last < value + passes)
    (v : Nat) : v ∈ cronValues last step sundayAlias passes value ↔ ∃ k, value + k * step ≤ last ∧
      v = if sundayAlias ∧ value + k * step = 7 then 0 else value + k * step := by
  induction passes generalizing value with
  | zero =>
    simp only [cronValues, not_mem_nil, false_iff, not_exists, not_and]
    intro k hk
    omega
  | succ passes ih =>
    unfold cronValues
    split
    · rename_i hle
      -- the first value is the one with `k = 0`
      have hcases : ∀ P : Nat → Prop, (∃ k, P k) ↔ P 0 ∨ ∃ k, P (k + 1) := fun P =>
        ⟨fun ⟨k, hk⟩ => by cases k; exacts [.inl hk, .inr ⟨_, hk⟩],
          fun h => h.elim (⟨0, ·⟩) fun ⟨k, hk⟩ => ⟨k + 1, hk⟩⟩
      have hnext : ∀ k, value + (k + 1) * step = value + step + k * step := fun k => by
        rw [Nat.succ_mul]
        omega
      rw [hcases, mem_cons]
      simp only [Nat.zero_mul, Nat.add_zero, hle, true_and, hnext]
      refine or_congr_right ?_
      split
      · simp only [not_mem_nil, false_iff, not_exists, not_and]
        intro k hk
        omega
      · exact ih (by omega)
    · simp only [not_mem_nil, false_iff, not_exists, not_and]
      intro k hk
      omega

lemma mapM_eq_ok {α β : Type} {f : α → Except Error β} {l : List α} {l' : List β} :
    l.mapM f = .ok l' ↔ Forall₂ (fun a b => f a = .ok b) l l' := by
  induction l generalizing l' with
  | nil => rw [mapM_nil, pure_eq_ok, forall₂_nil_left_iff, eq_comm]
  | cons a l ih =>
    simp only [mapM_cons, bind_eq_ok, ih, pure_eq_ok, forall₂_cons_left_iff]
    constructor
    · rintro ⟨b, hb, rest, hrest, rfl⟩
      exact ⟨b, rest, hb, hrest, rfl⟩
    · rintro ⟨b, rest, hb, hrest, rfl⟩
      exact ⟨b, hb, rest, hrest, rfl⟩

include hbounds hword in
lemma mapM_cronPart {fields : List CronField} :
    (parts.mapM fun part => cronPart part minimum maximum sundayAlias) = .ok fields ↔
      ∃ items, Forall₂ (ItemText minimum maximum) parts items ∧
        fields = items.map (·.field sundayAlias) := by
  simp only [mapM_eq_ok, cronPart_eq_ok hbounds hword]
  induction parts generalizing fields with
  | nil => simp
  | cons part parts ih =>
    simp only [forall₂_cons_left_iff, ih]
    constructor
    · rintro ⟨_, _, ⟨item, hitem, rfl⟩, ⟨items, hitems, rfl⟩, rfl⟩
      exact ⟨item :: items, ⟨item, items, hitem, hitems, rfl⟩, rfl⟩
    · rintro ⟨_, ⟨item, items, hitem, hitems, rfl⟩, rfl⟩
      exact ⟨_, _, ⟨item, hitem, rfl⟩, ⟨items, hitems, rfl⟩, rfl⟩

lemma denotes_fields (h : ∀ item ∈ items, 0 < item.step) : Denotes sundayAlias items
      { values := (items.map (·.field sundayAlias)).flatMap CronField.values
        wildcard := (items.map (·.field sundayAlias)).any CronField.wildcard } := by
  refine ⟨fun v => ?_, by simp [CronItem.field]⟩
  simp only [mem_flatMap, mem_map, exists_exists_and_eq_and]
  exact exists_congr fun item => and_congr_right fun hitem =>
    mem_cronValues (h item hitem) (by omega) v

/-- **The language of a field.** If its bounds are in order, the accepted texts are the lists of items,
and what is returned is what the items denote. -/
theorem cron_field_denotes (hbounds : minimum ≤ maximum) (hword : maximum < 2 ^ 32 - 1)
    (text : List Char) (sundayAlias : Bool) :
    (∀ field, cronField text minimum maximum sundayAlias = .ok field →
      ∃ items, FieldText minimum maximum text items ∧ Denotes sundayAlias items field) ∧
    ∀ items, FieldText minimum maximum text items →
      ∃ field, cronField text minimum maximum sundayAlias = .ok field ∧
        Denotes sundayAlias items field := by
  simp only [cronField, bind_eq_ok, require_eq_ok, pure_eq_ok, mapM_cronPart hbounds hword]
  constructor
  · rintro _ ⟨-, ⟨hne, hlength⟩, _, ⟨items, hitems, rfl⟩, rfl⟩
    refine ⟨items, ⟨hlength, _, ?_, eq_of_splitChars rfl, hitems⟩,
      denotes_fields (notMem_of_forall₂ hitems).2⟩
    rw [splitChars_eq]
    exact splitOn_ne_nil _ _
  rintro items ⟨hlength, parts, hne, rfl, hitems⟩
  obtain ⟨hparts, hsteps⟩ := notMem_of_forall₂ hitems
  refine ⟨_, ⟨(), ⟨?_, hlength⟩, _, ⟨items, ?_, rfl⟩, rfl⟩, denotes_fields hsteps⟩
  · obtain ⟨part, parts, rfl⟩ := exists_cons_of_ne_nil hne
    cases parts <;> simp [(hparts part mem_cons_self).2]
  · rwa [splitChars_intercalate hne fun part hpart => (hparts part hpart).1]

theorem cron_field_denotes_weekdays : ∃ items, FieldText 0 7 "1-5/2,7".toList items ∧
    Denotes true items ⟨[1, 3, 5, 0], false⟩ :=
  (cron_field_denotes (by decide) (by decide) "1-5/2,7".toList true).1 _ (by rfl)

/-- If the bounds are out of order, the number of values between them wraps around, so steps are
accepted although none is small enough. -/
theorem cron_field_reversed : cronField "*/2".toList 5 3 false = .ok ⟨[], true⟩ ∧
    ∀ items, ¬FieldText 5 3 "*/2".toList items := by
  refine ⟨rfl, ?_⟩
  rintro items ⟨-, parts, hne, htext, hitems⟩
  have hparts : parts = ["*/2".toList] := by
    rw [← splitChars_intercalate hne fun part hpart => ((notMem_of_forall₂ hitems).1 part hpart).1,
      ← htext]
    rfl
  subst hparts
  obtain ⟨item, _, hitem, -⟩ := forall₂_cons_left_iff.mp hitems
  generalize htext : "*/2".toList = text at hitem
  cases hitem with
  | plain hrange =>
    exact hrange.notMem (c := '/') (by decide) (by decide) (by decide) (htext ▸ by decide)
  | step _ _ hpos hle => omega

/-! ## The next occurrence -/

def Occurs (cron : Cron) (after t : Nat) : Prop :=
  ∃ minutes : Nat, t = minutes * 60000 ∧ after < t ∧ cronMatch cron (civilTime minutes)

/-- The end of the search: five years of 366 days from the first minute on. -/
def searchEnd (after : Nat) : Nat := (after / 60000 + 1) * 60000 + 5 * 366 * 86400000

/-- The clock reaches the instant. -/
def InRange (t : Nat) : Prop := t * 1000000 < 2 ^ 63

/-- The minutes that the clock shows to the search. -/
def Searched (after : Stamp) (m : Int) : Prop :=
  ∃ i < cronLimit, m = clockMinute (firstMinute after + i)

section Search

variable {fits : Nat → Bool} {limit minutes : Nat}

/-- **The search finds the first minute that fits.** -/
lemma cronSearch_eq_some {found : Nat} : cronSearch fits limit minutes = some found ↔
    minutes ≤ found ∧ found < minutes + limit ∧ fits found ∧
      ∀ m, minutes ≤ m → m < found → ¬fits m := by
  induction limit generalizing minutes with
  | zero =>
    simp only [cronSearch, reduceCtorEq, false_iff]
    omega
  | succ limit ih =>
    rw [cronSearch]
    split
    · rename_i hfits
      constructor
      · rintro ⟨⟩
        exact ⟨le_rfl, by omega, hfits, fun m _ _ => by omega⟩
      · rintro ⟨hle, -, -, hleast⟩
        rcases hle.eq_or_lt with rfl | hlt
        · rfl
        · exact absurd hfits (hleast minutes le_rfl hlt)
    · rename_i hnot
      rw [ih]
      constructor
      · rintro ⟨hle, hlt, hfits, hleast⟩
        refine ⟨by omega, by omega, hfits, fun m hm hm' => ?_⟩
        rcases hm.eq_or_lt with rfl | hm
        · exact hnot
        · exact hleast m hm hm'
      · rintro ⟨hle, hlt, hfits, hleast⟩
        have hne : minutes ≠ found := by
          rintro rfl
          exact hnot hfits
        exact ⟨by omega, by omega, hfits, fun m hm => hleast m (by omega)⟩

lemma cronSearch_eq_none : cronSearch fits limit minutes = none ↔
    ∀ m, minutes ≤ m → m < minutes + limit → ¬fits m := by
  induction limit generalizing minutes with
  | zero =>
    simp only [cronSearch, true_iff]
    omega
  | succ limit ih =>
    rw [cronSearch]
    split
    · rename_i hfits
      simp only [reduceCtorEq, false_iff]
      exact fun h => h minutes le_rfl (by omega) hfits
    · rename_i hnot
      rw [ih]
      constructor
      · intro h m hm hlt
        rcases hm.eq_or_lt with rfl | hm
        · exact hnot
        · exact h m hm (by omega)
      · exact fun h m hm hlt => h m (by omega) (by omega)

end Search

section Clock

variable {after minutes : Nat}

lemma wrap64_of_lt {n : Int} (hpos : 0 ≤ n) (h : n < 2 ^ 63) : wrap64 n = n := by
  rw [wrap64, Int.bmod_def]
  split <;> omega

lemma formatted_of_nonneg {time : Int} (h : 0 ≤ time) : formatted time = time / 1000000 := by
  have hms : 0 ≤ time / 1000000 := by omega
  simp only [formatted, Int.tdiv_eq_ediv_of_nonneg h, Int.tdiv_eq_ediv_of_nonneg hms,
    Int.tmod_eq_emod_of_nonneg hms]
  split <;> omega

lemma tdiv_nonpos {n : Int} (h : n ≤ 0) {k : Int} (hk : 0 ≤ k) : n.tdiv k ≤ 0 := by
  have hneg := Int.tdiv_nonneg (Int.neg_nonneg_of_nonpos h) hk
  rw [Int.neg_tdiv] at hneg
  omega

/-- What is before the epoch stays before its first second. -/
lemma formatted_of_neg {time : Int} (h : time < 0) : formatted time < 1000 := by
  have hms : time.tdiv 1000000 ≤ 0 := tdiv_nonpos h.le (by decide)
  have hs : (time.tdiv 1000000).tdiv 1000 ≤ 0 := tdiv_nonpos hms (by decide)
  have hlt := Int.tmod_lt_of_pos (time.tdiv 1000000) (b := 1000) (by decide)
  simp only [formatted]
  split <;> omega

/-- No text denotes a time after the range of the clock. -/
lemma inRange_of_formatted {n : Int} {t : Nat} (h : formatted (wrap64 n) = t) : InRange t := by
  have hlt : wrap64 n < 2 ^ 63 := Int.bmod_lt (by decide)
  unfold InRange
  rcases lt_or_ge (wrap64 n) 0 with hneg | hpos
  · have hsmall := formatted_of_neg hneg
    omega
  · rw [formatted_of_nonneg hpos] at h
    omega

lemma InRange.mono {t t' : Nat} (h : InRange t) (hle : t' ≤ t) : InRange t' :=
  lt_of_le_of_lt (Nat.mul_le_mul_right _ hle) h

lemma firstMinute_eq (h : InRange after) : firstMinute after = (after / 60000 + 1 : Nat) := by
  unfold InRange at h
  rw [firstMinute, wrap64_of_lt (by omega) (by omega), Int.tdiv_eq_ediv_of_nonneg (by omega)]
  omega

lemma firstMinute_add (h : InRange after) (i : Nat) :
    firstMinute after + i = (after / 60000 + 1 + i : Nat) := by
  rw [firstMinute_eq h]
  omega

lemma clock_eq (h : InRange (minutes * 60000)) : clockMinute minutes = minutes ∧
    formatted (wrap64 ((minutes : Int) * 60000000000)) = (minutes * 60000 : Nat) := by
  unfold InRange at h
  rw [clockMinute, wrap64_of_lt (by omega) (by omega), Int.tdiv_eq_ediv_of_nonneg (by omega),
    formatted_of_nonneg (by omega)]
  omega

end Clock

variable {cron : Cron} {expression : String}

section Results

variable (hcron : parseCron expression = .ok cron)
include hcron

lemma cronNext64_of_parse (after : Stamp) : cronNext64 expression after =
      match cronSearch (fun i => cronMatch cron (civilTime (clockMinute (firstMinute after + i))))
        cronLimit 0 with
      | some i => .ok (formatted (wrap64 ((firstMinute after + i) * 60000000000)))
      | none => .error ⟨.validation, "Cron expression has no occurrence in its search bound"⟩ := by
  rw [cronNext64, hcron]
  rfl

lemma cronNext64_eq_error (after : Stamp) :
    (∃ message, cronNext64 expression after = .error ⟨.validation, message⟩) ↔
      ∀ m, Searched after m → ¬cronMatch cron (civilTime m) := by
  have hsearch : (∀ m, Searched after m → ¬cronMatch cron (civilTime m)) ↔ cronSearch
      (fun i => cronMatch cron (civilTime (clockMinute (firstMinute after + i))))
        cronLimit 0 = none := by
    rw [cronSearch_eq_none]
    constructor
    · exact fun h i _ hi => h _ ⟨i, by simpa using hi, rfl⟩
    · rintro h m ⟨i, hi, hm⟩
      exact hm ▸ h i (Nat.zero_le i) (by simpa using hi)
  rw [hsearch, cronNext64_of_parse hcron]
  split
  · simp [*]
  · simp [*]

/-- In the range of the clock the first minute that fits is found. -/
lemma cronNext64_eq_ok {after minutes : Nat} (hrange : InRange (minutes * 60000))
    (hle : after / 60000 + 1 ≤ minutes) (hlt : minutes < after / 60000 + 1 + cronLimit)
    (hfits : cronMatch cron (civilTime minutes))
    (hleast : ∀ m : Nat, after / 60000 + 1 ≤ m → m < minutes → ¬cronMatch cron (civilTime m)) :
    cronNext64 expression after = .ok ((minutes * 60000 : Nat) : Int) := by
  have hafter : after ≤ minutes * 60000 := by omega
  have hminute := firstMinute_add (hrange.mono hafter)
  have hfound : cronSearch (fun i => cronMatch cron (civilTime (clockMinute (firstMinute after + i))))
      cronLimit 0 = some (minutes - (after / 60000 + 1)) := by
    rw [cronSearch_eq_some]
    have hadd := Nat.add_sub_cancel' hle
    refine ⟨Nat.zero_le _, by omega, ?_, fun i _ hi => ?_⟩
    · rwa [hminute, hadd, (clock_eq hrange).1]
    · have hi' : after / 60000 + 1 + i < minutes := by omega
      rw [hminute, (clock_eq (hrange.mono (Nat.mul_le_mul_right _ hi'.le))).1]
      exact hleast _ (Nat.le_add_right _ i) hi'
  rw [cronNext64_of_parse hcron, hfound]
  dsimp only
  rw [hminute, Nat.add_sub_cancel' hle, (clock_eq hrange).2]

end Results

lemma searchEnd_eq (after : Nat) : searchEnd after = (after / 60000 + 1 + cronLimit) * 60000 := by
  rw [searchEnd, cronLimit, Nat.add_mul _ (5 * 366 * 24 * 60)]

/-- In the range of the clock the search sees the minutes that it is meant to see. -/
lemma searched_iff {after : Nat} (hrange : InRange (searchEnd after)) (m : Int) :
    Searched after m ↔ ∃ minutes : Nat, m = minutes ∧ after / 60000 + 1 ≤ minutes ∧
      minutes < after / 60000 + 1 + cronLimit := by
  rw [searchEnd_eq] at hrange
  have hminute : ∀ i : Nat, i < cronLimit →
      clockMinute (firstMinute after + i) = (after / 60000 + 1 + i : Nat) := fun i hi => by
    generalize cronLimit = limit at hi hrange
    rw [firstMinute_add (hrange.mono (by omega)), (clock_eq (hrange.mono (by omega))).1]
  constructor
  · rintro ⟨i, hi, hm⟩
    exact ⟨_, hm.trans (hminute i hi), Nat.le_add_right .., Nat.add_lt_add_left hi _⟩
  · rintro ⟨minutes, rfl, hle, hlt⟩
    have hi := Nat.sub_lt_left_of_lt_add hle hlt
    exact ⟨_, hi, by rw [hminute _ hi, Nat.add_sub_cancel' hle]⟩

/-- **The scheduler's function is the function of the clock** as long as the search stays within the
range of the clock. -/
lemma cronNext64_eq {after : Nat} (hrange : InRange (searchEnd after)) :
    (cronNext64 expression after).toOption = (cronNext expression after).toOption.map Int.ofNat := by
  cases hcron : parseCron expression with
  | error e =>
    rw [cronNext64, cronNext, hcron]
    rfl
  | ok cron =>
  rw [cronNext, hcron]
  simp only [bind, Except.bind]
  cases hsearch : cronSearch (fun m => cronMatch cron (civilTime m)) cronLimit (after / 60000 + 1) with
  | some found =>
    obtain ⟨hle, hlt, hfits, hleast⟩ := cronSearch_eq_some.mp hsearch
    have hend : found * 60000 ≤ searchEnd after := by
      rw [searchEnd_eq]
      exact Nat.mul_le_mul_right _ hlt.le
    have hbefore := hrange.mono hend
    rw [cronNext64_eq_ok hcron hbefore hle hlt hfits hleast]
    rfl
  | none =>
    obtain ⟨message, herror⟩ := (cronNext64_eq_error hcron after).mpr fun m hm => by
      obtain ⟨minutes, rfl, hle, hlt⟩ := (searched_iff hrange m).mp hm
      exact cronSearch_eq_none.mp hsearch minutes hle hlt
    rw [herror]
    rfl

/-- **The next occurrence is the first minute that fits**, if one fits within five years of 366 days
and the clock reaches it. If none fits, there is an error unless one of the minutes that the clock shows
instead does; within the range of the clock there are no such minutes. -/
theorem cron_next_least (hcron : parseCron expression = .ok cron) (after : Stamp) :
    (∀ next, IsLeast {t | Occurs cron after t} next → next < searchEnd after →
      (cronNext64 expression after = .ok (next : Int) ↔ InRange next)) ∧
    ((¬∃ t, Occurs cron after t ∧ t < searchEnd after) →
      ((∃ message, cronNext64 expression after = .error ⟨.validation, message⟩) ↔
        ∀ m, Searched after m → ¬cronMatch cron (civilTime m)) ∧
      (InRange (searchEnd after) → ∀ m, Searched after m → ¬cronMatch cron (civilTime m))) := by
  have hlater : ∀ a minutes : Nat, a < minutes * 60000 ↔ a / 60000 + 1 ≤ minutes := by
    intro a minutes
    omega
  have hwithin : ∀ a minutes : Nat, minutes * 60000 < searchEnd a ↔
      minutes < a / 60000 + 1 + cronLimit := by
    intro a minutes
    rw [searchEnd_eq, Nat.mul_lt_mul_right (by decide)]
  refine ⟨?_, fun hnone => ⟨cronNext64_eq_error hcron after, fun hrange m hm hfits => hnone ?_⟩⟩
  · rintro next ⟨⟨minutes, rfl, hafter, hfits⟩, hleast⟩ hlimit
    constructor
    · intro hnext
      rw [cronNext64_of_parse hcron] at hnext
      split at hnext
      · exact inRange_of_formatted (Except.ok.inj hnext)
      · cases hnext
    · intro hrange
      refine cronNext64_eq_ok hcron hrange ((hlater _ _).mp hafter) ((hwithin _ _).mp hlimit) hfits
        fun m hm hlt hfits => ?_
      have hle := hleast ⟨m, rfl, (hlater _ _).mpr hm, hfits⟩
      exact absurd hlt (Nat.not_lt.mpr (Nat.le_of_mul_le_mul_right hle (by decide)))
  · obtain ⟨minutes, rfl, hle, hlt⟩ := (searched_iff hrange m).mp hm
    exact ⟨_, ⟨minutes, rfl, (hlater _ _).mpr hle, hfits⟩, (hwithin _ _).mpr hlt⟩

/-- Every minute of every day. -/
def everyMinute : Cron :=
  ⟨⟨range 60, true⟩, ⟨range 24, true⟩, ⟨(range 31).map (· + 1), true⟩, ⟨(range 12).map (· + 1), true⟩,
    ⟨[0, 1, 2, 3, 4, 5, 6, 0], true⟩⟩

theorem cron_next_least_minute : parseCron "* * * * *" = .ok everyMinute ∧
    cronNext64 "* * * * *" 1700000000000 = .ok 1700000040000 := by
  have hparse : parseCron "* * * * *" = .ok everyMinute := by rfl
  refine ⟨hparse, ((cron_next_least hparse 1700000000000).1 1700000040000 ⟨⟨28333334, rfl, by decide,
    by decide⟩, ?_⟩ (by decide)).mpr (by unfold InRange; decide)⟩
  rintro t ⟨minutes, rfl, hafter, -⟩
  omega

/-- The next minute after 2300-01-01T00:00:00.000Z is 1715-06-13T00:27:00.000Z. -/
theorem cron_next_wraps : parseCron "* * * * *" = .ok everyMinute ∧
    IsLeast {t | Occurs everyMinute 10413792000000 t} 10413792060000 ∧
    cronNext64 "* * * * *" 10413792000000 = .ok (-8032951980000) := by
  refine ⟨by rfl, ⟨⟨173563201, rfl, by decide, by decide⟩, ?_⟩, by decide +kernel⟩
  rintro t ⟨minutes, rfl, hafter, -⟩
  omega

end Laso
