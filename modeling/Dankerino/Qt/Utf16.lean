import Dankerino.Qt.QString

/-!
# Strings as code units

Positions and lengths of a `QString` count UTF-16 code units. Where they matter, a text is the list
of its units.
-/

namespace Dankerino

/-- A text as its UTF-16 code units. -/
abbrev Units := List Nat

def QString.units (s : QString) : Units := s.flatMap QString.utf16Units

def isLowSurrogate (unit : Nat) : Bool := 0xDC00 ≤ unit && unit ≤ 0xDFFF

def isHighSurrogate (unit : Nat) : Bool := 0xD800 ≤ unit && unit ≤ 0xDBFF

namespace Units

/-- `QString::mid`. A negative number of units is the same as none given. -/
def mid (s : Units) (position n : Int) : Units :=
  let rest := s.drop position.toNat
  if n < 0 then rest else rest.take (n + min position 0).toNat

/-- `QString::remove` -/
def remove (s : Units) (i n : Nat) : Units := s.take i ++ s.drop (i + n)

/-- `QString::insert` -/
def insert (s : Units) (i : Nat) (other : Units) : Units := s.take i ++ other ++ s.drop i

/-- `QString::toLower`, for a text of ASCII characters. -/
def toLower (s : Units) : Units :=
  s.map fun unit => if 0x41 ≤ unit ∧ unit ≤ 0x5A then unit + 0x20 else unit

/-- `QString::startsWith` of some ASCII characters in lower case, in any case. -/
def startsWith (s prefixText : Units) : Bool := toLower (s.take prefixText.length) = prefixText

/-- `QString::trimmed` -/
def trimmed (s : Units) : Units :=
  let isSpace := fun unit => QString.isSpace (Char.ofNat unit)
  ((s.dropWhile isSpace).reverse.dropWhile isSpace).reverse

/-- From one index to before another. -/
theorem mid_natCast (s : Units) {a b : Nat} (h : a ≤ b) :
    s.mid a ((b : Int) - a) = (s.take b).drop a := by
  have hn : ((b : Int) - a + min (a : Int) 0).toNat = b - a := by omega
  have hnot : ¬ (b : Int) - a < 0 := by omega
  rw [mid, if_neg hnot, hn, Int.toNat_natCast, List.drop_take]

end Units

end Dankerino
