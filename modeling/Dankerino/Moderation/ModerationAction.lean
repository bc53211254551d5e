import Dankerino.Infra.Regex
import Dankerino.Qt.Utf16

/-!
# Moderation actions

The constructor of `ModerationAction` gives a button its text. A button that times a user out shows for how
long. The number in its action is an `int`, and is multiplied by the unit before it is looked at, so that the
text is right exactly if the duration is an `int` (`new_timeout_iff`).
-/

namespace Dankerino

open Infra

structure ModerationAction where
  action : QString
  line1 : Units := []
  line2 : Units := []
  imageToLoad : Nat := 0
  deriving DecidableEq

namespace ModerationAction

def minute : Int := 60

def hour : Int := 60 * minute

def day : Int := 24 * hour

def week : Int := 7 * day

/-- What is in front of the first group of `timeoutRegex`. -/
def beforeAmount : Regex Char :=
  .seq (.set fun c => c == '.' || c == '/')
    (.seq (.text "timeout".toList) (.seq (.star (.set fun c => c != '\n')) (.text [' '])))

/-- `^[./]timeout.* (\d+)([mhdw]?)`: the groups of the match. -/
def timeoutMatch (action : QString) : Option (QString × QString) :=
  Regex.first beforeAmount
    (fun s => Regex.first (.plus (.set Char.isDigit))
      (fun t => Regex.first (.opt (.set fun c => c == 'm' || c == 'h' || c == 'd' || c == 'w'))
        (fun rest => some (s.take (s.length - t.length), t.take (t.length - rest.length))) t) s) action

/-- A product of `int`s. `none` when it overflows. -/
def product (a b : Int) : Option Int := if -2147483648 ≤ a * b ∧ a * b ≤ 2147483647 then some (a * b) else none

/-- The duration in seconds, from the groups. -/
def duration (captured1 unit : QString) : Option Int :=
  let amount := captured1.toInt.getD 0
  if unit = ['m'] then product amount minute
  else if unit = ['h'] then product amount hour
  else if unit = ['d'] then product amount day
  else if unit = ['w'] then product amount week
  else some amount

/-- The two lines for a duration. -/
def timeoutLines (amount : Int) : QString × QString :=
  if amount < minute then (QString.number amount, ['s'])
  else if amount < hour then (QString.number (amount.tdiv minute), ['m'])
  else if amount < day then (QString.number (amount.tdiv hour), ['h'])
  else if amount < week then (QString.number (amount.tdiv day), ['d'])
  else (if amount > 2 * week then ['>', '2'] else QString.number (amount.tdiv week), ['w'])

/-- The constructor. `none` when an `int` overflows. -/
def new (action : QString) : Option ModerationAction :=
  match timeoutMatch action with
  | some (captured1, unit) =>
    (duration captured1 unit).map fun amount =>
      { action, line1 := (timeoutLines amount).1.units, line2 := (timeoutLines amount).2.units }
  | none =>
    some <|
      if action.startsWith "/ban ".toList then { action, imageToLoad := 1 }
      else if action.startsWith "/delete ".toList then { action, imageToLoad := 2 }
      else
        let xD := QString.units (action.filter fun c => c != '!' && c != '/' && c != '.')
        { action, line1 := xD.mid 0 2, line2 := xD.mid 2 2 }

/-! ## What the lines should be -/

inductive TimeUnit where
  | s
  | m
  | h
  | d
  | w
  deriving DecidableEq

namespace TimeUnit

/-- In seconds. -/
def size : TimeUnit → Nat
  | s => 1
  | m => 60
  | h => 3600
  | d => 86400
  | w => 604800

def letter : TimeUnit → QString
  | s => ['s']
  | m => ['m']
  | h => ['h']
  | d => ['d']
  | w => ['w']

/-- How the unit is written behind a number. Seconds are not. -/
def suffixText : TimeUnit → QString
  | s => []
  | unit => unit.letter

end TimeUnit

/-- The lines are the duration in the largest unit that does not exceed it, and `>2`, `w` above two weeks. -/
def Denotes (seconds : Nat) (line1 line2 : Units) : Prop :=
  if 2 * TimeUnit.w.size < seconds then line1 = QString.units ['>', '2'] ∧ line2 = QString.units ['w']
  else ∃ unit : TimeUnit, (unit = .s ∨ unit.size ≤ seconds) ∧
    (∀ other : TimeUnit, other.size ≤ seconds → other.size ≤ unit.size) ∧
    line1 = QString.units (QString.number (seconds / unit.size : Nat)) ∧ line2 = unit.letter.units

/-! ## The lines -/

theorem hour_eq : hour = 3600 := by decide

theorem day_eq : day = 86400 := by decide

theorem week_eq : week = 604800 := by decide

theorem forall_timeUnit {p : TimeUnit → Prop} : (∀ unit, p unit) ↔ p .s ∧ p .m ∧ p .h ∧ p .d ∧ p .w := by
  constructor
  · exact fun h => ⟨h _, h _, h _, h _, h _⟩
  · rintro ⟨hs, hm, hh, hd, hw⟩ unit
    cases unit <;> assumption

/-- A unit is the largest one if the next one is too large. -/
theorem denotes_of_unit {seconds : Nat} (unit : TimeUnit) (hle : unit = .s ∨ unit.size ≤ seconds)
    (hnext : ∀ next : TimeUnit, unit.size < next.size → seconds < next.size)
    (hmax : seconds ≤ 2 * TimeUnit.w.size) :
    Denotes seconds (QString.number (seconds / unit.size : Nat)).units unit.letter.units := by
  rw [Denotes, if_neg (Nat.not_lt.mpr hmax)]
  refine ⟨unit, hle, fun other hother => ?_, rfl, rfl⟩
  rcases Nat.lt_or_ge unit.size other.size with hlt | hge
  · exact absurd (hnext other hlt) (Nat.not_lt.mpr hother)
  · exact hge

/-- The cascade finds the largest unit. -/
theorem denotes_timeoutLines (seconds : Nat) :
    Denotes seconds (timeoutLines seconds).1.units (timeoutLines seconds).2.units := by
  have hunit (unit : TimeUnit) := @denotes_of_unit seconds unit
  simp only [forall_timeUnit, TimeUnit.size] at hunit
  obtain ⟨hs, hm, hh, hd, hw⟩ := hunit
  rw [timeoutLines, hour_eq, day_eq, week_eq, minute]
  split
  · have hdenotes := hs (.inl trivial) (by omega) (by omega)
    rw [Nat.div_one] at hdenotes
    exact hdenotes
  · split
    · exact hm (by omega) (by omega) (by omega)
    · split
      · exact hh (by omega) (by omega) (by omega)
      · split
        · exact hd (by omega) (by omega) (by omega)
        · split
          · rw [Denotes, TimeUnit.size, if_pos (by omega)]
            exact ⟨rfl, rfl⟩
          · exact hw (by omega) (by omega) (by omega)

/-! ## The match -/

/-- The second and the third part of `timeoutRegex` on an amount. -/
theorem first_amount {digits : QString} (hne : digits ≠ []) (hdigits : ∀ c ∈ digits, c.isDigit = true)
    (unit : TimeUnit) :
    Regex.first (.plus (.set Char.isDigit))
      (fun t => Regex.first (.opt (.set fun c => c == 'm' || c == 'h' || c == 'd' || c == 'w'))
        (fun rest => some ((digits ++ unit.suffixText).take ((digits ++ unit.suffixText).length - t.length),
          t.take (t.length - rest.length))) t) (digits ++ unit.suffixText) = some (digits, unit.suffixText) := by
  refine Regex.first_plus_set_of hne hdigits (fun c hc => ?_) ?_
  · cases unit with
    | s => cases hc
    | m | h | d | w =>
      obtain rfl := Option.some.inj hc
      decide
  · have htake : (digits ++ unit.suffixText).take ((digits ++ unit.suffixText).length - unit.suffixText.length)
        = digits := by
      rw [List.length_append, Nat.add_sub_cancel, List.take_left]
    rw [Regex.first_opt, htake]
    cases unit <;> rfl

/-- The last blank behind which there are digits is the one in front of the amount. -/
theorem timeoutMatch_eq {digits : QString} (hne : digits ≠ []) (hdigits : ∀ c ∈ digits, c.isDigit = true)
    (unit : TimeUnit) :
    timeoutMatch ("/timeout \x7buser\x7d ".toList ++ (digits ++ unit.suffixText))
      = some (digits, unit.suffixText) := by
  have htext : "/timeout \x7buser\x7d ".toList ++ (digits ++ unit.suffixText)
      = '/' :: ("timeout".toList ++ (" \x7buser\x7d".toList ++ ([' '] ++ (digits ++ unit.suffixText)))) := rfl
  have hblank : ∀ c ∈ digits ++ unit.suffixText, c ≠ ' ' := by
    intro c hc
    rcases List.mem_append.mp hc with hc | hc
    · rintro rfl
      exact absurd (hdigits ' ' hc) (by decide)
    · have hsuffix : ∀ c ∈ unit.suffixText, c ≠ ' ' :=
        QString.forall_of_all (p := fun c => c ≠ ' ') (by cases unit <;> rfl)
      exact hsuffix c hc
  rw [timeoutMatch, beforeAmount, htext, Regex.first_seq, Regex.first_set_cons, if_pos (by decide),
    Regex.first_seq, Regex.first_text_append, Regex.first_seq]
  refine Regex.first_star_set_of (QString.forall_of_all (by decide)) ?_ fun t ht hproper => ?_
  · rw [Regex.first_text_append]
    exact first_amount hne hdigits unit
  · -- behind the last blank there is none
    refine Regex.first_text_of_not_prefix fun hblankAt => ?_
    obtain ⟨rest, rfl⟩ := hblankAt
    rcases List.suffix_cons_iff.mp ht with heq | hsuffix
    · exact hproper heq
    · exact hblank ' ' (hsuffix.subset List.mem_cons_self) rfl

/-! ## The text of a button -/

theorem product_natCast (a b : Nat) :
    product a b = if a * b ≤ 2147483647 then some ((a * b : Nat) : Int) else none := by
  have hcast : (a : Int) * b = ((a * b : Nat) : Int) := (Int.natCast_mul a b).symm
  unfold product
  rw [hcast]
  by_cases h : a * b ≤ 2147483647
  · rw [if_pos h, if_pos ⟨by omega, by omega⟩]
  · rw [if_neg h, if_neg (by omega)]

theorem units_eq : minute = (60 : Nat) ∧ hour = (3600 : Nat) ∧ day = (86400 : Nat) ∧ week = (604800 : Nat) := by
  decide

/-- The amount is multiplied by the size of its unit. -/
theorem duration_suffixText (captured1 : QString) {amount : Nat} (h : captured1.toInt.getD 0 = amount)
    (hle : amount ≤ 2147483647) (unit : TimeUnit) :
    duration captured1 unit.suffixText =
      if amount * unit.size ≤ 2147483647 then some ((amount * unit.size : Nat) : Int) else none := by
  obtain ⟨hminute, hhour, hday, hweek⟩ := units_eq
  unfold duration
  rw [h]
  cases unit with
  | s =>
    rw [TimeUnit.size, Nat.mul_one, if_pos hle]
    rfl
  | m => rw [if_pos (by decide), hminute, product_natCast, TimeUnit.size]
  | h => rw [if_neg (by decide), if_pos (by decide), hhour, product_natCast, TimeUnit.size]
  | d => rw [if_neg (by decide), if_neg (by decide), if_pos (by decide), hday, product_natCast, TimeUnit.size]
  | w =>
    rw [if_neg (by decide), if_neg (by decide), if_neg (by decide), if_pos (by decide), hweek, product_natCast,
      TimeUnit.size]

/-- The duration is that of the action if it is an `int`. Otherwise it is 0 or overflows. -/
theorem duration_eq {digits : QString} (hne : digits ≠ []) (hdigits : ∀ c ∈ digits, c.isDigit = true)
    (unit : TimeUnit) :
    duration digits unit.suffixText =
      if Nat.ofDigitChars 10 digits 0 * unit.size ≤ 2147483647 then
        some ((Nat.ofDigitChars 10 digits 0 * unit.size : Nat) : Int)
      else if Nat.ofDigitChars 10 digits 0 ≤ 2147483647 then none
      else some 0 := by
  by_cases hle : Nat.ofDigitChars 10 digits 0 ≤ 2147483647
  · have hamount : digits.toInt.getD 0 = (Nat.ofDigitChars 10 digits 0 : Int) := by
      rw [QString.toInt_of_digits hne hdigits, if_pos (by omega)]
      rfl
    rw [duration_suffixText digits hamount hle, if_pos hle]
  · have hamount : digits.toInt.getD 0 = (0 : Nat) := by
      rw [QString.toInt_of_digits hne hdigits, if_neg (by omega)]
      rfl
    have hsize : 1 ≤ unit.size := by cases unit <;> decide
    have hlt : 2147483647 < Nat.ofDigitChars 10 digits 0 * unit.size :=
      Nat.lt_of_lt_of_le (Nat.lt_of_not_le hle) (Nat.le_mul_of_pos_right _ hsize)
    rw [duration_suffixText digits hamount (by decide), if_neg hle, if_neg (Nat.not_le.mpr hlt), Nat.zero_mul]
    rfl

theorem new_timeout {digits : QString} (hne : digits ≠ []) (hdigits : ∀ c ∈ digits, c.isDigit = true)
    (unit : TimeUnit) :
    new ("/timeout \x7buser\x7d ".toList ++ (digits ++ unit.suffixText)) =
      (duration digits unit.suffixText).map fun amount =>
        { action := "/timeout \x7buser\x7d ".toList ++ (digits ++ unit.suffixText)
          line1 := (timeoutLines amount).1.units, line2 := (timeoutLines amount).2.units } := by
  rw [new, timeoutMatch_eq hne hdigits]

/--
The button of `/timeout {user}` with an amount and a unit shows the duration in the largest unit that does not
exceed it exactly if the duration in seconds is an `int`.
-/
theorem new_timeout_iff {digits : QString} (hne : digits ≠ []) (hdigits : ∀ c ∈ digits, c.isDigit = true)
    (unit : TimeUnit) :
    (duration digits unit.suffixText = some ((Nat.ofDigitChars 10 digits 0 * unit.size : Nat) : Int) ∧
      ∃ button, new ("/timeout \x7buser\x7d ".toList ++ (digits ++ unit.suffixText)) = some button ∧
        Denotes (Nat.ofDigitChars 10 digits 0 * unit.size) button.line1 button.line2) ↔
      Nat.ofDigitChars 10 digits 0 * unit.size ≤ 2147483647 := by
  constructor
  · rintro ⟨hduration, -⟩
    rw [duration_eq hne hdigits] at hduration
    split at hduration
    · next hle => exact hle
    · split at hduration
      · cases hduration
      · next hle hvalue =>
        have hzero := Option.some.inj hduration
        omega
  · intro hle
    have hduration := duration_eq hne hdigits unit
    rw [if_pos hle] at hduration
    have hnew := new_timeout hne hdigits unit
    rw [hduration, Option.map_some] at hnew
    exact ⟨hduration, _, hnew, denotes_timeoutLines _⟩

theorem new_timeout_ten_minutes :
    ∃ button, new "/timeout \x7buser\x7d 10m".toList = some button ∧ Denotes 600 button.line1 button.line2 ∧
      button.line1 = QString.units ['1', '0'] := by
  obtain ⟨-, button, hnew, hdenotes⟩ :=
    (new_timeout_iff (List.cons_ne_nil '1' ['0']) (QString.forall_of_all (by decide)) .m).mpr (by decide)
  have hline : (new "/timeout \x7buser\x7d 10m".toList).map (fun button => button.line1)
      = some (QString.units ['1', '0']) := by decide
  have hbutton := congrArg (Option.map fun button => button.line1) hnew
  exact ⟨button, hnew, hdenotes, Option.some.inj (hbutton.symm.trans hline)⟩

/-- An amount of weeks that overflows, and an amount of seconds that is read as 0. -/
theorem timeout_overflows :
    new "/timeout \x7buser\x7d 3551w".toList = none ∧
      (new "/timeout \x7buser\x7d 2147483648".toList).map (fun button => (button.line1, button.line2))
        = some (QString.units ['0'], QString.units ['s']) ∧
      ¬ Denotes 2147483648 (QString.units ['0']) (QString.units ['s']) := by
  refine ⟨by decide, by decide, fun hdenotes => ?_⟩
  rw [Denotes, if_pos (by decide)] at hdenotes
  exact absurd hdenotes.1 (by decide)

end ModerationAction

end Dankerino
