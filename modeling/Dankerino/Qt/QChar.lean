import Dankerino.Qt.QString

/-!
# Characters

Properties of characters in Qt that go beyond ASCII: digits and case.
-/

namespace Dankerino.QChar

/-- The zeros of the decimal digits of Unicode that are one code unit. -/
def zeros : List Nat :=
  [0x0030, 0x0660, 0x06F0, 0x07C0, 0x0966, 0x09E6, 0x0A66, 0x0AE6, 0x0B66, 0x0BE6, 0x0C66, 0x0CE6, 0x0D66,
    0x0DE6, 0x0E50, 0x0ED0, 0x0F20, 0x1040, 0x1090, 0x17E0, 0x1810, 0x1946, 0x19D0, 0x1A80, 0x1A90, 0x1B50,
    0x1BB0, 0x1C40, 0x1C50, 0xA620, 0xA8D0, 0xA900, 0xA9D0, 0xA9F0, 0xAA50, 0xABF0, 0xFF10]

/-- `QChar::isDigit`. A digit of two code units is two characters, neither of which is a digit. -/
def isDigit (c : Char) : Bool := zeros.any fun z => z ≤ c.toNat && c.toNat ≤ z + 9

/-- Case folding, as far as it leads to ASCII. -/
def foldCase (c : Char) : Char :=
  if c = 'ſ' then 's' else if c.toNat = 0x212A then 'k' else c.toLower

/-- `startsWith` of a text in ASCII, with `Qt::CaseInsensitive`. -/
def startsWith (s prefixText : QString) : Bool :=
  (s.take prefixText.length).map foldCase == prefixText.map foldCase

/-- Folding changes a character into a letter of ASCII, or not at all. -/
theorem foldCase_cases (c : Char) :
    foldCase c = c ∨ 97 ≤ (foldCase c).toNat ∧ (foldCase c).toNat ≤ 122 := by
  unfold foldCase
  split
  · exact .inr (by decide)
  · split
    · exact .inr (by decide)
    · unfold Char.toLower
      split
      · next h =>
        right
        have hlow : 65 ≤ c.val.toNat := UInt32.le_iff_toNat_le.mp h.1
        have hhigh : c.val.toNat ≤ 90 := UInt32.le_iff_toNat_le.mp h.2
        have hval : (c.val + ('a'.val - 'A'.val)).toNat = c.val.toNat + 32 := by
          have hshift : ('a'.val - 'A'.val).toNat = 32 := by decide
          rw [UInt32.toNat_add, hshift]
          exact Nat.mod_eq_of_lt (by omega)
        show 97 ≤ (c.val + ('a'.val - 'A'.val)).toNat ∧ (c.val + ('a'.val - 'A'.val)).toNat ≤ 122
        omega
      · exact .inl rfl

theorem isDigit_of_ascii {c : Char} (h : c.isDigit = true) : isDigit c = true := by
  have hc := Char.isDigit_iff_toNat.mp h
  refine List.any_eq_true.mpr ⟨0x0030, by decide, ?_⟩
  simp only [Bool.and_eq_true, decide_eq_true_eq]
  exact hc

/-- A text is the part of that many characters, and the rest. -/
theorem exists_of_startsWith {s prefixText : QString} (h : startsWith s prefixText = true) :
    ∃ front rest, s = front ++ rest ∧ front.length = prefixText.length ∧
      front.map foldCase = prefixText.map foldCase := by
  have hmap : (s.take prefixText.length).map foldCase = prefixText.map foldCase := eq_of_beq h
  refine ⟨s.take prefixText.length, s.drop prefixText.length, (List.take_append_drop _ _).symm, ?_, hmap⟩
  simpa using congrArg List.length hmap

theorem startsWith_append {front : QString} (rest : QString) {prefixText : QString}
    (h : front.map foldCase = prefixText.map foldCase) : startsWith (front ++ rest) prefixText = true := by
  have hlength : front.length = prefixText.length := by simpa using congrArg List.length h
  rw [startsWith, ← hlength, List.take_left, h]
  exact beq_self_eq_true _

end Dankerino.QChar
