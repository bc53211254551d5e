import Dankerino.Infra.ScanBack
import Dankerino.Qt.Utf16

/-!
# The completion of the input

`SplitInput::updateCompletionPopup` looks back from the cursor for the `:` or `@` that starts what is completed,
and `insertCompletionText` looks for it again to replace it. The first stops only at a character whose completion
is on, the second at both, so that the second may stop behind the first (`insertCompletionText_iff`).
-/

namespace Dankerino

open Infra

structure CompletionSettings where
  /-- `Channel::isTwitchChannel` -/
  isTwitchChannel : Bool
  /-- Whether the channel is a `TwitchChannel`. -/
  isTwitch : Bool
  emoteCompletionWithColon : Bool
  showUsernameCompletionMenu : Bool
  mentionUsersWithComma : Bool
  lowercaseUsernames : Bool

/-- What `showCompletionPopup` is called with, and where what is completed starts. -/
structure CompletionPopup where
  trigger : Nat
  text : Units
  emoteCompletion : Bool
  deriving DecidableEq

/-- What `insertCompletionText` removes, and whether it inserts a mention. -/
structure Replacement where
  start : Nat
  count : Int
  isUsername : Bool
  deriving DecidableEq

namespace CompletionSettings

def showEmoteCompletion (settings : CompletionSettings) : Bool :=
  settings.isTwitchChannel && settings.emoteCompletionWithColon

def showUsernameCompletion (settings : CompletionSettings) : Bool :=
  settings.isTwitch && settings.showUsernameCompletionMenu

end CompletionSettings

namespace InputCompletion

def clamp (v lo hi : Int) : Int := if v < lo then lo else if hi < v then hi else v

/-- How many positions the loops go through. -/
def scanned (text : Units) (cursor : Nat) : Nat :=
  (clamp ((cursor : Int) - 1) 0 ((text.length : Int) - 1) + 1).toNat

/-- Whether there is nothing or a blank before the position. -/
def startsWord (text : Units) (i : Nat) : Bool :=
  i = 0 || (text[i - 1]?).any fun unit => QString.isSpace (Char.ofNat unit)

/-- What the loop of `updateCompletionPopup` does at a position: nothing, hide the popup, or show it. -/
def popupAt (settings : CompletionSettings) (text : Units) (i : Nat) : Option (Option Bool) :=
  if text[i]? = some 0x20 then some none
  else if text[i]? = some 0x3A ∧ settings.showEmoteCompletion then
    some (if startsWord text i then some true else none)
  else if text[i]? = some 0x40 ∧ settings.showUsernameCompletion then
    some (if startsWord text i then some false else none)
  else none

/-- `none` stands for `hideCompletionPopup`. -/
def updateCompletionPopup (settings : CompletionSettings) (text : Units) (cursor : Nat) :
    Option CompletionPopup :=
  if !settings.showEmoteCompletion && !settings.showUsernameCompletion then none
  else
    let position : Int := cursor - 1
    if text.length = 0 ∨ position = -1 then none
    else
      match scanBack (popupAt settings text) (scanned text cursor) with
      | some (i, some emoteCompletion) =>
        some { trigger := i, text := (text.mid i (position - i + 1)).mid 1 (-1), emoteCompletion }
      | _ => none

/-- Whether the loop of `insertCompletionText` is done at a position, and whether a mention is inserted. -/
def doneAt (text : Units) (i : Nat) : Option Bool :=
  if text[i]? = some 0x3A then some false
  else if text[i]? = some 0x40 then some true
  else none

def replacement (text : Units) (cursor : Nat) : Option Replacement :=
  let position : Int := cursor - 1
  (scanBack (doneAt text) (scanned text cursor)).map fun (i, isUsername) =>
    { start := i, count := position - i + 1, isUsername }

/-- `ResizingTextEdit::isFirstWord` -/
def isFirstWord (text : Units) (cursor : Nat) : Bool := !(text.take cursor).contains 0x20

/-- The case of a text is changed by `toLower`. -/
def formatUserMention (toLower : Units → Units) (userName : Units) (isFirstWord : Bool)
    (settings : CompletionSettings) : Units :=
  let result := if isFirstWord && settings.mentionUsersWithComma then userName ++ [0x2C] else userName
  if settings.lowercaseUsernames then toLower result else result

section Insertion

variable (toLower : Units → Units) (settings : CompletionSettings) (input_ text : Units) (cursor : Nat)

/-- What is inserted. -/
def completionText (isUsername : Bool) : Units :=
  if isUsername then
    0x40 :: formatUserMention toLower input_ (isFirstWord text cursor) settings ++ [0x20]
  else input_ ++ [0x20]

/-- The text that is set, and the position of the cursor in it. -/
def insertCompletionText : Units × Int :=
  match replacement text cursor with
  | none => (text, cursor)
  | some { start := i, count, isUsername } =>
    let input := completionText toLower settings input_ text cursor isUsername
    ((text.remove i count.toNat).insert i input, i + input.length)

end Insertion

/-! ## The popup -/

section Popup

variable {settings : CompletionSettings} {text : Units} {cursor : Nat} {popup : CompletionPopup}

/-- The loops go through the positions before the cursor. -/
theorem lt_scanned (hcursor : 0 < cursor) (htext : 0 < text.length) {i : Nat} :
    i < scanned text cursor ↔ i < cursor ∧ i < text.length := by
  rw [scanned, clamp]
  split
  · omega
  · split <;> omega

/-- The popup is shown for the position where the loop stops. -/
theorem popup_spec (h : updateCompletionPopup settings text cursor = some popup) :
    0 < cursor ∧ 0 < text.length ∧
      scanBack (popupAt settings text) (scanned text cursor) = some (popup.trigger, some popup.emoteCompletion) ∧
      popup.text = (text.mid popup.trigger ((cursor : Int) - 1 - popup.trigger + 1)).mid 1 (-1) := by
  rw [updateCompletionPopup] at h
  split at h
  · cases h
  · dsimp only at h
    split at h
    · cases h
    · next hshown =>
      rw [not_or] at hshown
      obtain ⟨htext, hcursor⟩ := hshown
      split at h
      · next i emoteCompletion hscan =>
        obtain rfl := Option.some.inj h
        exact ⟨by omega, Nat.pos_of_ne_zero htext, hscan, rfl⟩
      · cases h

/-- What is completed starts a word, and with a character whose completion is on. -/
theorem popupAt_eq_some_some_iff {i : Nat} {emoteCompletion : Bool} :
    popupAt settings text i = some (some emoteCompletion) ↔ startsWord text i = true ∧
      (text[i]? = some 0x3A ∧ settings.showEmoteCompletion = true ∧ emoteCompletion = true ∨
        text[i]? = some 0x40 ∧ settings.showUsernameCompletion = true ∧ emoteCompletion = false) := by
  rw [popupAt]
  split
  · next hspace => simp [hspace]
  · split
    · next hcolon => cases startsWord text i <;> cases emoteCompletion <;> simp [hcolon.1, hcolon.2]
    · next hcolon =>
      split
      · next hat => cases startsWord text i <;> cases emoteCompletion <;> simp [hat.1, hat.2]
      · next hat =>
        simp only [reduceCtorEq, false_iff]
        rintro ⟨-, ⟨hc, hshow, -⟩ | ⟨ha, hshow, -⟩⟩
        · exact hcolon ⟨hc, hshow⟩
        · exact hat ⟨ha, hshow⟩

/-- The loop goes on at the other characters. -/
theorem popupAt_eq_none_iff {i : Nat} :
    popupAt settings text i = none ↔ text[i]? ≠ some 0x20 ∧
      (text[i]? = some 0x3A → settings.showEmoteCompletion = false) ∧
      (text[i]? = some 0x40 → settings.showUsernameCompletion = false) := by
  rw [popupAt]
  split
  · next hspace => simp [hspace]
  · next hspace =>
    split
    · next hcolon => simp [hcolon.1, hcolon.2]
    · next hcolon =>
      split
      · next hat => simp [hat.1, hat.2]
      · next hat =>
        have hcolon' : text[i]? = some 0x3A → settings.showEmoteCompletion = false :=
          fun hc => Bool.eq_false_iff.mpr fun hshow => hcolon ⟨hc, hshow⟩
        have hat' : text[i]? = some 0x40 → settings.showUsernameCompletion = false :=
          fun ha => Bool.eq_false_iff.mpr fun hshow => hat ⟨ha, hshow⟩
        exact iff_of_true rfl ⟨hspace, hcolon', hat'⟩

theorem doneAt_eq_none_iff {i : Nat} :
    doneAt text i = none ↔ text[i]? ≠ some 0x3A ∧ text[i]? ≠ some 0x40 := by
  rw [doneAt]
  split
  · next h => simp [h]
  · next h =>
    split
    · next h' => simp [h']
    · next h' => simp [h, h']

theorem popup_trigger (h : updateCompletionPopup settings text cursor = some popup) :
    doneAt text popup.trigger = some (decide (text[popup.trigger]? = some 0x40)) := by
  obtain ⟨-, -, hscan, -⟩ := popup_spec h
  obtain ⟨-, ⟨hcolon, -, -⟩ | ⟨hat, -, -⟩⟩ := popupAt_eq_some_some_iff.mp (scanBack_eq_some_iff.mp hscan).2.1
  · simp [doneAt, hcolon]
  · simp [doneAt, hat]

end Popup

/-! ## The insertion -/

section Insertion

variable {settings : CompletionSettings} {text : Units} {cursor : Nat} {popup : CompletionPopup}

theorem insertCompletionText_of_replacement (toLower : Units → Units) (input_ : Units) {i : Nat}
    (hi : i < cursor) (hlength : i < text.length) {isUsername : Bool}
    (h : replacement text cursor = some { start := i, count := (cursor : Int) - i, isUsername }) :
    insertCompletionText toLower settings input_ text cursor =
      (text.take i ++ completionText toLower settings input_ text cursor isUsername ++ text.drop cursor,
        (i : Int) + (completionText toLower settings input_ text cursor isUsername).length) := by
  have hcount : ((cursor : Int) - i).toNat = cursor - i := by omega
  have hstart : (text.take i).length = i := by
    rw [List.length_take]
    omega
  have hremove : text.remove i (cursor - i) = text.take i ++ text.drop cursor := by
    rw [Units.remove, Nat.add_sub_cancel' (Nat.le_of_lt hi)]
  have htake : (text.take i ++ text.drop cursor).take i = text.take i := List.take_left' hstart
  have hdrop : (text.take i ++ text.drop cursor).drop i = text.drop cursor := List.drop_left' hstart
  simp only [insertCompletionText, h, hcount, hremove, Units.insert, htake, hdrop]

/-- The range and the kind are those of the popup exactly if the loop does not stop behind the trigger. -/
theorem replacement_iff (h : updateCompletionPopup settings text cursor = some popup) :
    replacement text cursor = some
        { start := popup.trigger, count := (cursor : Int) - popup.trigger,
          isUsername := decide (text[popup.trigger]? = some 0x40) } ↔
      ∀ j, popup.trigger < j → j < cursor → text[j]? ≠ some 0x3A ∧ text[j]? ≠ some 0x40 := by
  obtain ⟨hcursor, htext, hscan, -⟩ := popup_spec h
  have hcongr := scanBack_congr_iff hscan (popup_trigger h)
  constructor
  · intro hreplacement j hj hlt
    -- what is replaced is what the loop has found
    obtain ⟨⟨i, isUsername⟩, hfound, heq⟩ := Option.map_eq_some_iff.mp hreplacement
    obtain ⟨rfl, -, hname⟩ := Replacement.mk.inj heq
    rw [hname] at hfound
    rcases Nat.lt_or_ge j text.length with hin | hout
    · exact doneAt_eq_none_iff.mp (hcongr.mp hfound j hj ((lt_scanned hcursor htext).mpr ⟨hlt, hin⟩))
    · simp [List.getElem?_eq_none hout]
  · intro hbehind
    have hfound := hcongr.mpr fun j hj hlt =>
      doneAt_eq_none_iff.mpr (hbehind j hj ((lt_scanned hcursor htext).mp hlt).1)
    have hcount : (cursor : Int) - 1 - popup.trigger + 1 = (cursor : Int) - popup.trigger := by omega
    simp only [replacement, hfound, Option.map_some, hcount]

/-- When both completions are on, nothing is behind the trigger that the loop could stop at. -/
theorem replacement_of_both (h : updateCompletionPopup settings text cursor = some popup)
    (hemote : settings.showEmoteCompletion = true) (husername : settings.showUsernameCompletion = true) :
    replacement text cursor = some
      { start := popup.trigger, count := (cursor : Int) - popup.trigger,
        isUsername := decide (text[popup.trigger]? = some 0x40) } := by
  rw [replacement_iff h]
  intro j hj hlt
  obtain ⟨hcursor, htext, hscan, -⟩ := popup_spec h
  rcases Nat.lt_or_ge j text.length with hin | hout
  · have hnone := (scanBack_eq_some_iff.mp hscan).2.2 j hj ((lt_scanned hcursor htext).mpr ⟨hlt, hin⟩)
    obtain ⟨-, hcolon, hat⟩ := popupAt_eq_none_iff.mp hnone
    refine ⟨fun hc => ?_, fun ha => ?_⟩
    · exact absurd (hemote.symm.trans (hcolon hc)) Bool.noConfusion
    · exact absurd (husername.symm.trans (hat ha)) Bool.noConfusion
  · simp [List.getElem?_eq_none hout]

/--
When the popup is shown, what is inserted takes the place of what the popup completes, and is a mention exactly for
a `@`, if there is neither `:` nor `@` between the trigger and the cursor. Otherwise it does not.
-/
theorem insertCompletionText_iff (toLower : Units → Units) (input_ : Units)
    (h : updateCompletionPopup settings text cursor = some popup) :
    (∃ isUsername : Bool, (isUsername = true ↔ text[popup.trigger]? = some 0x40) ∧
      replacement text cursor = some
        { start := popup.trigger, count := (cursor : Int) - popup.trigger, isUsername } ∧
      insertCompletionText toLower settings input_ text cursor =
        (text.take popup.trigger ++ completionText toLower settings input_ text cursor isUsername
            ++ text.drop cursor,
          (popup.trigger : Int) + (completionText toLower settings input_ text cursor isUsername).length)) ↔
      ∀ j, popup.trigger < j → j < cursor → text[j]? ≠ some 0x3A ∧ text[j]? ≠ some 0x40 := by
  rw [← replacement_iff h]
  constructor
  · rintro ⟨isUsername, hname, hreplacement, -⟩
    rw [hreplacement, show isUsername = decide (text[popup.trigger]? = some 0x40) from
      Bool.eq_iff_iff.mpr (hname.trans decide_eq_true_iff.symm)]
  · intro hreplacement
    obtain ⟨hcursor, htext, hscan, -⟩ := popup_spec h
    obtain ⟨hi, hlength⟩ := (lt_scanned hcursor htext).mp (scanBack_eq_some_iff.mp hscan).1
    exact ⟨_, decide_eq_true_iff, hreplacement,
      insertCompletionText_of_replacement toLower input_ hi hlength hreplacement⟩

/-- A channel like `/mentions`, with all settings on. -/
def special : CompletionSettings where
  isTwitchChannel := true
  isTwitch := false
  emoteCompletionWithColon := true
  showUsernameCompletionMenu := true
  mentionUsersWithComma := true
  lowercaseUsernames := false

theorem insertCompletionText_kappa :
    ∃ isUsername : Bool, (isUsername = true ↔ (QString.units "hi :Ka".toList)[3]? = some 0x40) ∧
      replacement (QString.units "hi :Ka".toList) 6 = some { start := 3, count := 3, isUsername } ∧
      (insertCompletionText id special (QString.units "Kappa".toList) (QString.units "hi :Ka".toList) 6).1 =
        QString.units "hi Kappa ".toList := by
  have hpopup : updateCompletionPopup special (QString.units "hi :Ka".toList) 6 =
      some { trigger := 3, text := QString.units "Ka".toList, emoteCompletion := true } := by decide
  obtain ⟨isUsername, hname, hreplacement, htext⟩ :=
    (insertCompletionText_iff id (QString.units "Kappa".toList) hpopup).mpr (by
      intro j hj hlt
      have hcases : j = 4 ∨ j = 5 := by
        change 3 < j at hj
        omega
      rcases hcases with rfl | rfl <;> decide)
  refine ⟨isUsername, hname, hreplacement, ?_⟩
  have hfalse : isUsername = false := Bool.eq_false_iff.mpr fun htrue => absurd (hname.mp htrue) (by decide)
  rw [htext, hfalse]
  decide

/-- An emote is completed, but the mention of a user is inserted behind the `@`. -/
theorem mention_inserted :
    updateCompletionPopup special (QString.units ":a@b".toList) 4 =
        some { trigger := 0, text := QString.units "a@b".toList, emoteCompletion := true } ∧
      replacement (QString.units ":a@b".toList) 4 = some { start := 2, count := 2, isUsername := true } ∧
      insertCompletionText id special (QString.units "a@bc".toList) (QString.units ":a@b".toList) 4 =
        (QString.units ":a@a@bc, ".toList, 9) := by
  decide

end Insertion

end InputCompletion

end Dankerino
