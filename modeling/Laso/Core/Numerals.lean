import Mathlib.Data.Nat.Digits.Lemmas
import Mathlib.Data.String.Basic
import Mathlib.Tactic.Common

/-!
# Numbers in identifiers

Identifiers are put together from names, separators and numbers. A number can be read back, also at
the end of a text whose separator is not a digit: in decimal digits (`append_repr_inj`) and in
hexadecimal ones (`append_hex_inj`). A name that stands after its length can be read back whatever
characters it has (`withLength_inj`).
-/

namespace Laso

open List String Nat

lemma split_last {α : Type} {c : α} {x y l₁ l₂ : List α} (hx : c ∉ x) (hy : c ∉ y)
    (h : l₁ ++ c :: x = l₂ ++ c :: y) : l₁ = l₂ ∧ x = y := by
  induction l₁ generalizing l₂ with
  | nil =>
    cases l₂ with
    | nil => exact ⟨rfl, (List.cons.inj h).2⟩
    | cons d l₂ =>
      obtain ⟨-, rfl⟩ := List.cons.inj h
      simp at hx
  | cons d l₁ ih =>
    cases l₂ with
    | nil =>
      obtain ⟨-, rfl⟩ := List.cons.inj h
      simp at hy
    | cons e l₂ =>
      obtain ⟨rfl, htail⟩ := List.cons.inj h
      obtain ⟨rfl, rfl⟩ := ih htail
      exact ⟨rfl, rfl⟩

/-! ## Decimal numbers -/

variable {n m : Nat}

lemma repr_toList_inj (h : m.repr.toList = n.repr.toList) : m = n := by
  have hdigits := congrArg (fun digits => ofDigitChars 10 digits 0) h
  simpa [ofDigitChars_toDigits] using hdigits

lemma ne_of_mem_repr {c ch : Char} (hc : c.isDigit = false) (h : ch ∈ n.repr.toList) : ch ≠ c := by
  rw [toList_repr] at h
  have hdigit := isDigit_of_mem_toDigits (by decide) (by decide) h
  rintro rfl
  exact nomatch hdigit.symm.trans hc

lemma append_repr_inj {a b : List Char} {c : Char} (hc : c.isDigit = false)
    (h : a ++ c :: m.repr.toList = b ++ c :: n.repr.toList) : a = b ∧ m = n := by
  have hnot : ∀ k : Nat, c ∉ k.repr.toList := fun k hmem => ne_of_mem_repr hc hmem rfl
  obtain ⟨hfront, hrepr⟩ := split_last (hnot m) (hnot n) h
  exact ⟨hfront, repr_toList_inj hrepr⟩

/-! ## Hexadecimal numbers -/

/-- A number in hexadecimal digits, as `std::hex` prints it. -/
def hex (n : Nat) : String := ofList (Nat.toDigits 16 n)

lemma digitChar_inj (hn : n < 16) (hm : m < 16)
    (h : Nat.digitChar n = Nat.digitChar m) : n = m := by
  have hall : ∀ n < 16, ∀ m < 16, Nat.digitChar n = Nat.digitChar m → n = m := by decide
  exact hall n hn m hm h

lemma digits_inj (h : Nat.toDigits 16 n = Nat.toDigits 16 m) : n = m := by
  induction n using Nat.strong_induction_on generalizing m with
  | _ n ih =>
    rw [Nat.toDigits_eq_if (by decide), Nat.toDigits_eq_if (by decide) (n := m)] at h
    have hlength : ∀ k : Nat, Nat.toDigits 16 k ≠ [] := fun k =>
      ne_nil_of_length_pos length_toDigits_pos
    split at h <;> split at h
    · exact digitChar_inj ‹_› ‹_› (List.cons.inj h).1
    · exact absurd (append_eq_singleton_iff.mp h.symm) (by simp [hlength])
    · exact absurd (append_eq_singleton_iff.mp h) (by simp [hlength])
    obtain ⟨hfront, hlast⟩ := append_inj' h rfl
    have hquot := ih (n / 16) (by omega) hfront
    have hrem := digitChar_inj (mod_lt n (by decide)) (mod_lt m (by decide))
      (List.cons.inj hlast).1
    omega

lemma dash_notMem_toDigits (n : Nat) : '-' ∉ Nat.toDigits 16 n := by
  induction n using Nat.strong_induction_on with
  | _ n ih =>
    rw [Nat.toDigits_eq_if (by decide)]
    split
    · simp
    · rw [mem_append, not_or]
      exact ⟨ih (n / 16) (by omega), by simp⟩

lemma utf8Size_of_mem_toDigits {c : Char} (h : c ∈ Nat.toDigits 16 n) : c.utf8Size = 1 := by
  have hdigit : ∀ k < 16, (Nat.digitChar k).utf8Size = 1 := by decide
  induction n using Nat.strong_induction_on with
  | _ n ih =>
    rw [Nat.toDigits_eq_if (by decide)] at h
    split at h
    · rw [mem_singleton.mp h]
      exact hdigit n ‹_›
    rcases mem_append.mp h with h | h
    · exact ih (n / 16) (by omega) h
    · rw [mem_singleton.mp h]
      exact hdigit _ (mod_lt n (by decide))

lemma utf8Len_eq_length {cs : List Char} (h : ∀ c ∈ cs, c.utf8Size = 1) :
    utf8Len cs = cs.length := by
  induction cs with
  | nil => rfl
  | cons c cs ih =>
    rw [utf8Len, h c mem_cons_self, ih fun d hd => h d (mem_cons_of_mem _ hd), length_cons]

/-- A number below `16 ^ k` has at most `k` digits. -/
lemma utf8ByteSize_hex {k : Nat} (hk : 0 < k) (h : n < 16 ^ k) : (hex n).utf8ByteSize ≤ k := by
  rw [hex, utf8ByteSize_ofList, utf8Len_eq_length fun c hc => utf8Size_of_mem_toDigits hc]
  exact (length_toDigits_le_iff (by decide) hk).mpr h

/-- **A name with a number at its end** determines the name and the number. -/
lemma append_hex_inj {name name' : String}
    (h : name ++ "-" ++ hex n = name' ++ "-" ++ hex m) : name = name' ∧ n = m := by
  have hchars := congrArg toList h
  simp only [toList_append, hex, toList_ofList, List.append_assoc] at hchars
  obtain ⟨hname, hdigits⟩ := split_last (dash_notMem_toDigits n) (dash_notMem_toDigits m) hchars
  exact ⟨ext hname, digits_inj hdigits⟩

/-! ## Names with their length -/

lemma eq_of_append_of_size {a b x y : String} (h : a ++ x = b ++ y)
    (hsize : a.utf8ByteSize = b.utf8ByteSize) : a = b ∧ x = y := by
  have hempty : ∀ {s t : String} {c : List Char}, t.toList = s.toList ++ c →
      s.utf8ByteSize = t.utf8ByteSize → c = [] := by
    intro s t c hc hst
    have ht : t = s ++ ofList c := ext (by rw [hc, toList_append, toList_ofList])
    rw [ht, utf8ByteSize_append] at hst
    have hzero : (ofList c).utf8ByteSize = 0 := by omega
    rw [utf8ByteSize_eq_zero_iff] at hzero
    simpa using congrArg toList hzero
  have hlist := congrArg toList h
  rw [toList_append, toList_append] at hlist
  rcases append_eq_append_iff.mp hlist with ⟨c, hb, hx⟩ | ⟨c, ha, hy⟩
  · cases hempty hb hsize
    exact ⟨(ext (by simpa using hb)).symm, ext (by simpa using hx)⟩
  · cases hempty ha hsize.symm
    exact ⟨ext (by simpa using ha), (ext (by simpa using hy)).symm⟩

def withLength (a b : String) : String := toString a.utf8ByteSize ++ ":" ++ a ++ ":" ++ b

/-- **Two names, the first with its length,** can be read back. -/
lemma withLength_inj {a b a' b' : String} (h : withLength a b = withLength a' b') :
    a = a' ∧ b = b' := by
  have hlist : ∀ a b : String, (withLength a b).toList =
      a.utf8ByteSize.repr.toList ++ ':' :: (a ++ (":" ++ b)).toList := by
    intro a b
    simp [withLength, toString_eq_repr]
  have hchars := congrArg toList h
  rw [hlist, hlist] at hchars
  have htake : ∀ (n : Nat) (l : List Char),
      ((n.repr.toList ++ ':' :: l).takeWhile fun ch => decide (ch ≠ ':')) = n.repr.toList := by
    intro n l
    rw [takeWhile_append_of_pos fun ch hch => decide_eq_true (ne_of_mem_repr (by decide) hch)]
    simp
  have hrepr : a.utf8ByteSize.repr.toList = a'.utf8ByteSize.repr.toList := by
    rw [← htake _ (a ++ (":" ++ b)).toList, hchars, htake]
  rw [hrepr] at hchars
  have hrest := ext (List.cons.inj (append_cancel_left hchars)).2
  obtain ⟨rfl, htail⟩ := eq_of_append_of_size hrest (repr_toList_inj hrepr)
  exact ⟨rfl, (eq_of_append_of_size htail rfl).2⟩

end Laso
