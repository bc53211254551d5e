import Dankerino.Infra.Fuel

/-!
# Strings

A `QString` is a list of characters. The functions here are the ones of Qt's string class that
the modelled code calls, under their Qt names.
-/

namespace Dankerino

abbrev QString := List Char

namespace QString

instance instLawfulBEq : LawfulBEq QString := List.instLawfulBEq

/-- A property of the characters of a text, decided character by character. -/
theorem forall_of_all {p : Char → Prop} [DecidablePred p] {s : QString}
    (h : s.all (fun c => decide (p c)) = true) : ∀ c ∈ s, p c :=
  fun c hc => of_decide_eq_true (List.all_eq_true.mp h c hc)

/-- `startsWith`, case sensitive. -/
def startsWith (s prefixText : QString) : Bool := prefixText.isPrefixOf s

/-- `endsWith`, case sensitive. -/
def endsWith (s suffixText : QString) : Bool := suffixText.isSuffixOf s

def mid (s : QString) (position : Nat) : QString := s.drop position

/-- `chop`: without the last `n` characters. -/
def chop (s : QString) (n : Nat) : QString := s.take (s.length - n)

/-- The index of the first occurrence from the index on. `none` is the `-1` of the source. -/
def indexOf (s : QString) (c : Char) (start : Nat) : Option Nat :=
  ((s.drop start).findIdx? (· == c)).map (· + start)

/-- `QChar::isSpace`: the separators of Unicode, and the control characters that count as blanks. -/
def isSpace (c : Char) : Bool :=
  c.toNat = 0x20 || (0x09 ≤ c.toNat && c.toNat ≤ 0x0D) || c.toNat = 0x85 || c.toNat = 0xA0 ||
    c.toNat = 0x1680 || (0x2000 ≤ c.toNat && c.toNat ≤ 0x200A) || c.toNat = 0x2028 ||
    c.toNat = 0x2029 || c.toNat = 0x202F || c.toNat = 0x205F || c.toNat = 0x3000

/-- `trimmed`: no blanks at the ends. -/
def trimmed (s : QString) : QString := ((s.dropWhile isSpace).reverse.dropWhile isSpace).reverse

/-- `simplified`: no blanks at the ends, and one `' '` for the blanks between two words. -/
def simplified (s : QString) : QString :=
  List.intercalate [' '] ((s.splitOnP isSpace).filter (· ≠ []))

/-- The UTF-16 code units of a character. -/
def utf16Units (c : Char) : List Nat :=
  if c.toNat < 0x10000 then [c.toNat]
  else [0xD800 + (c.toNat - 0x10000) / 0x400, 0xDC00 + (c.toNat - 0x10000) % 0x400]

/-- `operator<`, by code units. -/
def less (s t : QString) : Bool := decide (s.flatMap utf16Units < t.flatMap utf16Units)

theorem utf16Units_append_inj {c d : Char} {s t : List Nat}
    (h : utf16Units c ++ s = utf16Units d ++ t) : c = d ∧ s = t := by
  have hc : c.toNat < 0xD800 ∨ 0xDFFF < c.toNat ∧ c.toNat < 0x110000 := c.valid
  have hd : d.toNat < 0xD800 ∨ 0xDFFF < d.toNat ∧ d.toNat < 0x110000 := d.valid
  unfold utf16Units at h
  split at h <;> split at h <;> simp only [List.cons_append, List.nil_append, List.cons.injEq] at h
  · exact ⟨Char.ext (UInt32.toNat.inj h.1), h.2⟩
  · omega
  · omega
  · refine ⟨Char.ext (UInt32.toNat.inj ?_), h.2.2⟩
    show c.toNat = d.toNat
    omega

theorem flatMap_utf16Units_injective : Function.Injective fun s : QString => s.flatMap utf16Units := by
  intro s
  induction s with
  | nil =>
    intro t h
    cases t with
    | nil => rfl
    | cons d t =>
      simp only [List.flatMap_nil, List.flatMap_cons] at h
      unfold utf16Units at h
      split at h <;> exact nomatch h
  | cons c s ih =>
    intro t h
    cases t with
    | nil =>
      simp only [List.flatMap_nil, List.flatMap_cons] at h
      unfold utf16Units at h
      split at h <;> exact nomatch h
    | cons d t =>
      obtain ⟨rfl, hrest⟩ := utf16Units_append_inj h
      rw [ih hrest]

/-! ## Numbers -/

/-- `QString::number`, to base 10. -/
def number : Int → QString
  | .ofNat n => Nat.toDigits 10 n
  | .negSucc n => '-' :: Nat.toDigits 10 (n + 1)

/-- An optional sign, and what is behind it. -/
def splitSign : QString → Bool × QString
  | '-' :: s => (true, s)
  | '+' :: s => (false, s)
  | s => (false, s)

/-- `toInt` of a text without blanks: an optional sign and digits, in the range of 32 bits. -/
def toInt (s : QString) : Option Int :=
  let (negative, digits) := splitSign s
  if digits.isEmpty || !digits.all Char.isDigit then none
  else
    let n : Int := Nat.ofDigitChars 10 digits 0
    let n := if negative then -n else n
    if -2147483648 ≤ n ∧ n ≤ 2147483647 then some n else none

theorem splitSign_of_digit {c : Char} (hc : c.isDigit = true) (s : QString) :
    splitSign (c :: s) = (false, c :: s) := by
  unfold splitSign
  split
  · next h =>
    rw [(List.cons.inj h).1] at hc
    exact absurd hc (by decide)
  · next h =>
    rw [(List.cons.inj h).1] at hc
    exact absurd hc (by decide)
  · rfl

theorem toInt_of_digits {s : QString} (hne : s ≠ []) (hdigits : ∀ c ∈ s, c.isDigit = true) :
    toInt s = if (Nat.ofDigitChars 10 s 0 : Int) ≤ 2147483647 then
      some (Nat.ofDigitChars 10 s 0 : Int) else none := by
  obtain ⟨c, t, rfl⟩ := List.exists_cons_of_ne_nil hne
  have hall : (c :: t).all Char.isDigit = true := List.all_eq_true.mpr hdigits
  simp only [toInt, splitSign_of_digit (hdigits c (.head _)), hall, List.isEmpty_cons,
    Bool.not_true, Bool.or_self, Bool.false_eq_true, if_false]
  congr 1
  apply propext
  constructor
  · exact And.right
  · exact fun h => ⟨by omega, h⟩

/-- A number that is printed and read again. -/
theorem toInt_number {n : Nat} (h : n ≤ 2147483647) : toInt (number n) = some (n : Int) := by
  show toInt (Nat.toDigits 10 n) = _
  rw [toInt_of_digits Nat.toDigits_ne_nil
    fun c hc => Nat.isDigit_of_mem_toDigits (by decide) (by decide) hc, Nat.ofDigitChars_ten_toDigits,
    if_pos (by omega)]

/-! ## Replacing -/

/-- `replace(before, after)`: every occurrence, from left to right, in at most `n` characters. -/
def replaceLoop (before after : QString) : Nat → QString → QString
  | 0, s => s
  | _ + 1, [] => []
  | n + 1, c :: s =>
    if before.isPrefixOf (c :: s) then after ++ replaceLoop before after n ((c :: s).drop before.length)
    else c :: replaceLoop before after n s

/-- `replace`, for a text to replace that is not empty. -/
def replace (s before after : QString) : QString := replaceLoop before after s.length s

theorem replaceLoop_enough (before after : QString) (hne : before ≠ []) : ∀ (n m : Nat) (s : QString),
    s.length ≤ n → s.length ≤ m → replaceLoop before after n s = replaceLoop before after m s := by
  have hpos := List.length_pos_iff.mpr hne
  refine Infra.fuel_enough (fun n m => ?_) fun n m c s ih => ?_
  · cases n <;> cases m <;> rfl
  · have hdrop : ((c :: s).drop before.length).length ≤ s.length := by
      rw [List.length_drop, List.length_cons]
      omega
    rw [replaceLoop, replaceLoop, ih s (Nat.le_refl _), ih _ hdrop]

theorem replace_nil (before after : QString) : replace [] before after = [] := rfl

theorem replace_cons {before : QString} (hne : before ≠ []) (after : QString) (c : Char)
    (s : QString) : replace (c :: s) before after
      = if before.isPrefixOf (c :: s) then
          after ++ replace ((c :: s).drop before.length) before after
        else c :: replace s before after := by
  have hpos := List.length_pos_iff.mpr hne
  rw [replace, List.length_cons, replaceLoop]
  split
  · rw [replace, replaceLoop_enough before after hne s.length _ _ _ (Nat.le_refl _)]
    rw [List.length_drop, List.length_cons]
    omega
  · rfl

/-! ## Place markers -/

/-- The value of a decimal digit. -/
def digitValue (c : Char) : Option Nat := if c.isDigit then some (c.toNat - 48) else none

/--
A place marker at the start of a text: `%`, maybe an `L`, and one or two digits. Its number and the
number of its characters.
-/
def placeMarker : QString → Option (Nat × Nat)
  | '%' :: s =>
    let (start, s) :=
      match s with
      | 'L' :: s => (2, s)
      | s => (1, s)
    match s with
    | [] => none
    | d :: s =>
      match digitValue d with
      | none => none
      | some n =>
        match s.head?.bind digitValue with
        | some n' => some (10 * n + n', start + 2)
        | none => some (n, start + 1)
  | _ => none

/-- A piece of a text: a place marker with its number, or a character outside of markers. -/
inductive Piece where
  | char (c : Char)
  | marker (number : Nat) (text : QString)
deriving DecidableEq, Repr

/-- The pieces from left to right, in at most `n` steps. -/
def piecesLoop : Nat → QString → List Piece
  | 0, _ => []
  | _ + 1, [] => []
  | n + 1, c :: s =>
    match placeMarker (c :: s) with
    | some (number, size) =>
      .marker number ((c :: s).take size) :: piecesLoop n ((c :: s).drop size)
    | none => .char c :: piecesLoop n s

def pieces (s : QString) : List Piece := piecesLoop s.length s

/-- The numbers of the place markers of a text. -/
def markers (s : QString) : List Nat :=
  (pieces s).filterMap fun
    | .char _ => none
    | .marker number _ => some number

/-- The text with every marker of a number replaced. -/
def substitute (number : Nat) (a : QString) (s : QString) : QString :=
  (pieces s).flatMap fun
    | .char c => [c]
    | .marker number' text => if number' = number then a else text

/-- `arg`: every occurrence of the lowest numbered place marker is replaced. -/
def arg (s a : QString) : QString :=
  match (markers s).min? with
  | none => s
  | some number => substitute number a s

end QString

end Dankerino
