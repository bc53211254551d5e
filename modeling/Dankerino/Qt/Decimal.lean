import Dankerino.Qt.QString
import Mathlib.Algebra.Ring.Nat

/-!
# Decimal numbers

Numbers of any size in texts: how many digits they have, and the number at the end of a text.
-/

namespace Dankerino.QString

/-- The number that a text is, whatever its size. -/
def toInteger (s : QString) : Option Int :=
  let (negative, digits) := splitSign s
  if digits.isEmpty || !digits.all Char.isDigit then none
  else some (if negative then -(Nat.ofDigitChars 10 digits 0 : Int) else Nat.ofDigitChars 10 digits 0)

/-- `QVariant::toInt` of a text: a `qlonglong`, cut to 32 bits. -/
def variantToInt (s : QString) : Int :=
  match toInteger s with
  | some n => if -9223372036854775808 ≤ n ∧ n ≤ 9223372036854775807 then n.bmod 4294967296 else 0
  | none => 0

/-- An `int` is what it is. -/
theorem variantToInt_eq {s : QString} {n : Int} (h : toInteger s = some n) (hmin : -2147483648 ≤ n)
    (hmax : n ≤ 2147483647) : variantToInt s = n := by
  unfold variantToInt
  rw [h]
  dsimp only
  rw [if_pos ⟨by omega, by omega⟩]
  exact Int.bmod_eq_of_le (by omega) (by omega)

theorem variantToInt_le (s : QString) : variantToInt s ≤ 2147483647 := by
  unfold variantToInt
  split
  · next n hn =>
    split
    · have hlt : n.bmod 4294967296 < (4294967296 + 1) / 2 := Int.bmod_lt (by decide)
      omega
    · decide
  · decide

/-- Digits, the first of which is not `0`. -/
structure IsAmount (d : QString) : Prop where
  digits : ∀ c ∈ d, c.isDigit = true
  leading : ∃ c ∈ d.head?, c ≠ '0'

instance (d : QString) : Decidable (IsAmount d) :=
  decidable_of_iff (d.all Char.isDigit = true ∧ d.head?.any (· != '0') = true) <| by
    rw [List.all_eq_true, Option.any_eq_true]
    simp only [bne_iff_ne, ne_eq]
    exact ⟨fun h => ⟨h.1, h.2⟩, fun h => ⟨h.digits, h.leading⟩⟩

theorem toNat_of_isDigit {c : Char} (h : c.isDigit = true) : 48 ≤ c.toNat ∧ c.toNat ≤ 57 :=
  Char.isDigit_iff_toNat.mp h

theorem ofDigitChars_lt : ∀ {d : QString}, (∀ c ∈ d, c.isDigit = true) →
    Nat.ofDigitChars 10 d 0 < 10 ^ d.length
  | [], _ => by decide
  | c :: cs, h => by
    have hc := toNat_of_isDigit (h c List.mem_cons_self)
    have hcs : Nat.ofDigitChars 10 cs 0 < 10 ^ cs.length :=
      ofDigitChars_lt fun c' hc' => h c' (List.mem_cons_of_mem c hc')
    have hzero : '0'.toNat = 48 := rfl
    rw [Nat.ofDigitChars_cons, Nat.ofDigitChars_eq_ofDigitChars_zero, List.length_cons, Nat.pow_succ, hzero]
    calc 10 ^ cs.length * (10 * 0 + (c.toNat - 48)) + Nat.ofDigitChars 10 cs 0
        ≤ 10 ^ cs.length * 9 + Nat.ofDigitChars 10 cs 0 :=
          Nat.add_le_add_right (Nat.mul_le_mul_left _ (by omega)) _
      _ < 10 ^ cs.length * 10 := by omega

theorem IsAmount.le_ofDigitChars {d : QString} (h : IsAmount d) :
    10 ^ (d.length - 1) ≤ Nat.ofDigitChars 10 d 0 := by
  obtain ⟨c, hc, hne⟩ := h.leading
  cases d with
  | nil => exact nomatch hc
  | cons c' cs =>
    obtain rfl : c' = c := Option.some.inj hc
    have hdigit := toNat_of_isDigit (h.digits c' List.mem_cons_self)
    have hzero : '0'.toNat = 48 := rfl
    have hpos : c'.toNat ≠ 48 := fun heq => hne (Char.toNat_inj.mp (heq.trans hzero.symm))
    rw [Nat.ofDigitChars_cons, Nat.ofDigitChars_eq_ofDigitChars_zero, List.length_cons, hzero,
      Nat.add_sub_cancel]
    calc 10 ^ cs.length = 10 ^ cs.length * 1 := (Nat.mul_one _).symm
      _ ≤ 10 ^ cs.length * (10 * 0 + (c'.toNat - 48)) := Nat.mul_le_mul_left _ (by omega)
      _ ≤ _ := Nat.le_add_right _ _

theorem IsAmount.pos {d : QString} (h : IsAmount d) : 0 < Nat.ofDigitChars 10 d 0 :=
  Nat.lt_of_lt_of_le (Nat.pow_pos (by decide)) h.le_ofDigitChars

theorem IsAmount.ne_nil {d : QString} (h : IsAmount d) : d ≠ [] := by
  rintro rfl
  obtain ⟨c, hc, -⟩ := h.leading
  exact nomatch hc

theorem IsAmount.toInteger_eq {d : QString} (h : IsAmount d) :
    toInteger d = some (Nat.ofDigitChars 10 d 0 : Int) := by
  obtain ⟨c, t, rfl⟩ := List.exists_cons_of_ne_nil h.ne_nil
  have hall : (c :: t).all Char.isDigit = true := List.all_eq_true.mpr h.digits
  unfold toInteger
  rw [splitSign_of_digit (h.digits c List.mem_cons_self)]
  simp [hall]

theorem IsAmount.toInt_eq {d : QString} (h : IsAmount d) :
    toInt d = if (Nat.ofDigitChars 10 d 0 : Int) ≤ 2147483647 then some (Nat.ofDigitChars 10 d 0 : Int)
      else none :=
  toInt_of_digits h.ne_nil h.digits

/-- A number has the digits of the text it is from. -/
theorem IsAmount.length_toDigits {d : QString} (h : IsAmount d) :
    (Nat.toDigits 10 (Nat.ofDigitChars 10 d 0)).length = d.length := by
  have hlength : 0 < d.length := List.length_pos_iff.mpr h.ne_nil
  have hle : (Nat.toDigits 10 (Nat.ofDigitChars 10 d 0)).length ≤ d.length :=
    (Nat.length_toDigits_le_iff (by decide) hlength).mpr (ofDigitChars_lt h.digits)
  have hge : ¬ (Nat.toDigits 10 (Nat.ofDigitChars 10 d 0)).length ≤ d.length - 1 := by
    intro hshort
    have hpos : 0 < d.length - 1 := Nat.lt_of_lt_of_le Nat.length_toDigits_pos hshort
    have hlt := (Nat.length_toDigits_le_iff (by decide) hpos).mp hshort
    exact absurd h.le_ofDigitChars (Nat.not_le.mpr hlt)
  omega

theorem isAmount_toDigits {n : Nat} (hn : 0 < n) : IsAmount (Nat.toDigits 10 n) := by
  have hdigits : ∀ c ∈ Nat.toDigits 10 n, c.isDigit = true := fun c hc =>
    Nat.isDigit_of_mem_toDigits (by decide) (by decide) hc
  refine ⟨hdigits, ?_⟩
  obtain ⟨c, cs, heq⟩ := List.exists_cons_of_ne_nil (Nat.toDigits_ne_nil (n := n) (b := 10))
  rw [heq]
  refine ⟨c, rfl, ?_⟩
  rintro rfl
  -- with a zero in front it would have a digit less
  have hvalue : n = Nat.ofDigitChars 10 cs 0 := by
    have hread : Nat.ofDigitChars 10 (Nat.toDigits 10 n) 0 = n := Nat.ofDigitChars_ten_toDigits
    rw [heq, Nat.ofDigitChars_cons] at hread
    exact hread.symm
  have hlt : n < 10 ^ cs.length := by
    rw [hvalue]
    exact ofDigitChars_lt fun c hc => hdigits c (heq ▸ List.mem_cons_of_mem _ hc)
  have hlength : (Nat.toDigits 10 n).length = cs.length + 1 := by rw [heq, List.length_cons]
  cases hcs : cs.length with
  | zero =>
    rw [hcs] at hlt
    omega
  | succ k =>
    have hshort := (Nat.length_toDigits_le_iff (b := 10) (by decide) (hcs ▸ Nat.succ_pos k)).mpr hlt
    omega

/-! ## The number at the end of a text -/

def trailingNumber (s : QString) : Nat :=
  Nat.ofDigitChars 10 (s.reverse.takeWhile Char.isDigit).reverse 0

theorem trailingNumber_append (p : QString) {d : QString} (hd : ∀ c ∈ d, c.isDigit = true) :
    trailingNumber (p ++ d) = 10 ^ d.length * trailingNumber p + Nat.ofDigitChars 10 d 0 := by
  have hreverse : ∀ c ∈ d.reverse, c.isDigit = true := fun c hc => hd c (List.mem_reverse.mp hc)
  unfold trailingNumber
  rw [List.reverse_append, List.takeWhile_append_of_pos hreverse, List.reverse_append, List.reverse_reverse,
    Nat.ofDigitChars_append, Nat.ofDigitChars_eq_ofDigitChars_zero]

/-- A smaller number in the place of the last digits. -/
theorem trailingNumber_lt (p : QString) {d : QString} (hd : ∀ c ∈ d, c.isDigit = true) {n : Nat}
    (hn : n < Nat.ofDigitChars 10 d 0) : trailingNumber (p ++ Nat.toDigits 10 n) < trailingNumber (p ++ d) := by
  have hlength : 0 < d.length := by
    refine List.length_pos_iff.mpr ?_
    rintro rfl
    exact absurd hn (Nat.not_lt_zero n)
  have hshort : (Nat.toDigits 10 n).length ≤ d.length :=
    (Nat.length_toDigits_le_iff (by decide) hlength).mpr (Nat.lt_trans hn (ofDigitChars_lt hd))
  have hdigits : ∀ c ∈ Nat.toDigits 10 n, c.isDigit = true := fun c hc =>
    Nat.isDigit_of_mem_toDigits (by decide) (by decide) hc
  rw [trailingNumber_append p hdigits, trailingNumber_append p hd, Nat.ofDigitChars_ten_toDigits]
  exact Nat.add_lt_add_of_le_of_lt
    (Nat.mul_le_mul_right _ (Nat.pow_le_pow_right (by decide) hshort)) hn

end Dankerino.QString
