import Dankerino.Qt.Decimal

/-!
# Durations as texts

`formatTime`, in which timeouts are shown. `meaning_formatTime`: the text adds up to the number of
seconds that it was made from, so that nothing is lost and no two durations look alike.
-/

namespace Dankerino

/-- `appendDuration`. -/
def appendDuration (count : Int) (suffixChar : Char) (out : QString) : QString :=
  (if out ≠ [] then out ++ [' '] else out) ++ QString.number count ++ [suffixChar]

/-- The division of C++ rounds towards zero. -/
def formatTime (totalSeconds : Int) : QString :=
  let seconds := totalSeconds.tmod 60
  let timeoutMinutes := totalSeconds.tdiv 60
  let minutes := timeoutMinutes.tmod 60
  let timeoutHours := timeoutMinutes.tdiv 60
  let hours := timeoutHours.tmod 24
  let days := timeoutHours.tdiv 24
  let res : QString := []
  let res := if days > 0 then appendDuration days 'd' res else res
  let res := if hours > 0 then appendDuration hours 'h' res else res
  let res := if minutes > 0 then appendDuration minutes 'm' res else res
  if seconds > 0 then appendDuration seconds 's' res else res

namespace FormatTime

/-! ## What a text says -/

def unitSeconds : Char → Nat
  | 'd' => 86400
  | 'h' => 3600
  | 'm' => 60
  | 's' => 1
  | _ => 0

/-- A number with its unit, in seconds. -/
def wordSeconds (word : QString) : Nat :=
  Nat.ofDigitChars 10 word.dropLast 0 * (word.getLast?.elim 0 unitSeconds)

/-- The sum of the words. -/
def meaning (text : QString) : Nat := ((text.splitOn ' ').map wordSeconds).sum

@[simp] theorem meaning_nil : meaning [] = 0 := rfl

theorem wordSeconds_number (n : Nat) (unit : Char) :
    wordSeconds (QString.number n ++ [unit]) = n * unitSeconds unit := by
  have hnumber : QString.number n = Nat.toDigits 10 n := rfl
  rw [wordSeconds, hnumber, List.dropLast_concat, List.getLast?_concat, Nat.ofDigitChars_ten_toDigits]
  rfl

theorem blank_notMem_number (n : Nat) {unit : Char} (hunit : ' ' ≠ unit) :
    ' ' ∉ QString.number n ++ [unit] := by
  have hnumber : QString.number n = Nat.toDigits 10 n := rfl
  rw [hnumber, List.mem_append, List.mem_singleton, not_or]
  refine ⟨fun hmem => ?_, hunit⟩
  have hdigit := Nat.isDigit_of_mem_toDigits (by decide) (by decide) hmem
  revert hdigit
  decide

/-- A duration adds what it says to what is there. -/
theorem meaning_appendDuration (n : Nat) {unit : Char} (hunit : ' ' ≠ unit) (out : QString) :
    meaning (appendDuration n unit out) = meaning out + n * unitSeconds unit := by
  have hword : ' ' ∉ QString.number n ++ [unit] := blank_notMem_number n hunit
  unfold appendDuration meaning
  by_cases hout : out = []
  · rw [if_neg (by simp [hout]), hout, List.nil_append, List.splitOn_eq_singleton hword]
    have hnil : wordSeconds [] = 0 := rfl
    simp [wordSeconds_number, hnil]
  · rw [if_pos hout, List.append_assoc, List.append_assoc, List.singleton_append,
      List.splitOn_append_cons_self, List.splitOn_eq_singleton hword, List.map_append, List.sum_append]
    simp [wordSeconds_number]

/-- One of the parts, which is left out for zero. -/
def appendPositive (count : Int) (unit : Char) (out : QString) : QString :=
  if count > 0 then appendDuration count unit out else out

theorem meaning_appendPositive (n : Nat) {unit : Char} (hunit : ' ' ≠ unit) (out : QString) :
    meaning (appendPositive n unit out) = meaning out + n * unitSeconds unit := by
  unfold appendPositive
  split
  · exact meaning_appendDuration n hunit out
  · next hzero =>
    have hn : n = 0 := by omega
    simp [hn]

/-- Nothing of a negative number is positive. -/
theorem tdiv_tmod_nonpos {a b : Int} (ha : a ≤ 0) (hb : 0 < b) : a.tdiv b ≤ 0 ∧ a.tmod b ≤ 0 := by
  obtain ⟨c, rfl⟩ : ∃ c, a = -c := ⟨-a, by omega⟩
  have hdiv := Int.tdiv_nonneg (a := c) (b := b) (by omega) (by omega)
  have hmod := Int.tmod_nonneg (a := c) b (by omega)
  rw [Int.neg_tdiv, Int.neg_tmod]
  omega

theorem formatTime_nonpos {n : Int} (h : n ≤ 0) : formatTime n = [] := by
  obtain ⟨hminutes, hseconds⟩ := tdiv_tmod_nonpos h (b := 60) (by decide)
  obtain ⟨hhours, hminutes'⟩ := tdiv_tmod_nonpos hminutes (b := 60) (by decide)
  obtain ⟨hdays, hhours'⟩ := tdiv_tmod_nonpos hhours (b := 24) (by decide)
  unfold formatTime
  dsimp only
  rw [if_neg (by omega), if_neg (by omega), if_neg (by omega), if_neg (by omega)]

theorem formatTime_natCast (k : Nat) : formatTime k =
    appendPositive (k % 60 : Nat) 's' (appendPositive (k / 60 % 60 : Nat) 'm'
      (appendPositive (k / 60 / 60 % 24 : Nat) 'h' (appendPositive (k / 60 / 60 / 24 : Nat) 'd' []))) := rfl

/--
**A duration says what it was made from.** The words of the text add up to the number of seconds. Of
nothing, or less, nothing is said.
-/
theorem meaning_formatTime (n : Int) : meaning (formatTime n) = n.toNat := by
  rcases Int.le_total n 0 with hneg | hpos
  · rw [formatTime_nonpos hneg, Int.toNat_of_nonpos hneg, meaning_nil]
  · obtain ⟨k, rfl⟩ := Int.eq_ofNat_of_zero_le hpos
    rw [formatTime_natCast, meaning_appendPositive _ (by decide), meaning_appendPositive _ (by decide),
      meaning_appendPositive _ (by decide), meaning_appendPositive _ (by decide), meaning_nil,
      Int.toNat_natCast]
    simp only [unitSeconds]
    omega

end FormatTime

end Dankerino
