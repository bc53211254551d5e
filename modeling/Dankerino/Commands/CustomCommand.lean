import Dankerino.Commands.CommandController
import Dankerino.Infra.Regex
import Dankerino.Qt.Utf16

/-!
# Custom commands

`CommandController::execCustomCommand`: the placeholders of the function of a command are found by a regular
expression, and what is between them is copied.
-/

namespace Dankerino

open Infra

/-- `QString::replace` of every occurrence, from left to right, of a text that is not empty. -/
def Units.replaceAll (before after : Units) : Units → Units
  | [] => []
  | unit :: s =>
    if before.isPrefixOf (unit :: s) then after ++ replaceAll before after (s.drop (before.length - 1))
    else unit :: replaceAll before after s
termination_by s => s.length
decreasing_by
  · simp only [List.length_drop, List.length_cons]
    omega
  · exact Nat.lt_succ_self _

namespace CustomCommand

/-! ## The regular expression

`(^|[^{])({{)*{(\d+\+?|([a-zA-Z.-]+)(?:;(.+?))?)}`
-/

structure RegularExpressionMatch where
  captured3 : QString
  captured4 : QString
  captured5 : QString
  /-- The text from `capturedEnd` on. -/
  behind : QString
deriving DecidableEq, Repr

/-- What was taken from a text of which the rest is left. -/
def taken (s rest : QString) : QString := s.take (s.length - rest.length)

/-- `[a-zA-Z.-]` -/
def isNameChar (c : Char) : Bool := c.isAlpha || c = '.' || c = '-'

/-- `\d+\+?` -/
def wordIndexRegex : Regex Char := .seq (.plus (.set Char.isDigit)) (.opt (.text ['+']))

/-- `}` -/
def closeWith (captured3 captured4 captured5 s : QString) : Option RegularExpressionMatch :=
  Regex.first (.text ['}']) (fun behind => some { captured3, captured4, captured5, behind }) s

/-- `(?:;(.+?))?}`, behind the name. -/
def matchAltText (inner captured4 s : QString) : Option RegularExpressionMatch :=
  (Regex.first (.text [';']) (fun altText =>
    Regex.firstLazy (.plus (.set fun c => c ≠ '\n'))
      (fun rest => closeWith (taken inner rest) captured4 (taken altText rest) rest) altText) s).or
  (closeWith (taken inner s) captured4 [] s)

/-- `{(\d+\+?|([a-zA-Z.-]+)(?:;(.+?))?)}` -/
def matchPlaceholder (s : QString) : Option RegularExpressionMatch :=
  Regex.first (.text ['{']) (fun inner =>
    (Regex.first wordIndexRegex (fun rest => closeWith (taken inner rest) [] [] rest) inner).or
    (Regex.first (.plus (.set isNameChar)) (fun rest => matchAltText inner (taken inner rest) rest) inner)) s

/-- `({{)*`, and then the placeholder. -/
def matchEscapes (s : QString) : Option RegularExpressionMatch :=
  Regex.first (.star (.text ['{', '{'])) matchPlaceholder s

/-- A match at a position. The `^` is only tried at the start of the text. -/
def matchHere (atStart : Bool) (s : QString) : Option RegularExpressionMatch :=
  (if atStart then matchEscapes s else none).or (Regex.first (.set fun c => c ≠ '{') matchEscapes s)

/-- `match`: the first match in a text, with the text before it. -/
def search (atStart : Bool) : QString → Option (QString × RegularExpressionMatch)
  | [] => (matchHere atStart []).map fun found => ([], found)
  | c :: s =>
    match matchHere atStart (c :: s) with
    | some found => some ([], found)
    | none => (search false s).map fun found => (c :: found.1, found.2)

/-! ### What a match takes -/

/-- The match takes something, and its last character is a `}`. -/
def Ends (s : QString) (found : RegularExpressionMatch) : Prop :=
  ∃ token, token ≠ [] ∧ s = token ++ '}' :: found.behind

section Ends

variable {s : QString} {found : RegularExpressionMatch}

theorem Ends.of_suffix {rest : QString} (hsuffix : rest <:+ s) (h : Ends rest found) : Ends s found := by
  obtain ⟨front, rfl⟩ := hsuffix
  obtain ⟨token, hne, rfl⟩ := h
  exact ⟨front ++ token, List.append_ne_nil_of_right_ne_nil _ hne, (List.append_assoc ..).symm⟩

theorem Ends.length_lt (h : Ends s found) : found.behind.length + 1 < s.length := by
  obtain ⟨token, hne, rfl⟩ := h
  have hpos := List.length_pos_iff.mpr hne
  rw [List.length_append, List.length_cons]
  omega

theorem eq_of_closeWith {captured3 captured4 captured5 : QString}
    (h : closeWith captured3 captured4 captured5 s = some found) : s = '}' :: found.behind := by
  rw [closeWith, Regex.first_text] at h
  split at h
  · next hprefix =>
    obtain ⟨rest, rfl⟩ := List.isPrefixOf_iff_prefix.mp hprefix
    obtain rfl := Option.some.inj h
    rfl
  · exact nomatch h

theorem suffix_of_matchAltText {inner captured4 : QString} (h : matchAltText inner captured4 s = some found) :
    '}' :: found.behind <:+ s := by
  rcases Option.or_eq_some_iff.mp h with h | ⟨-, h⟩
  · obtain ⟨altText, haltText, h⟩ := Regex.exists_of_first h
    obtain ⟨rest, hrest, h⟩ := Regex.exists_of_firstLazy h
    obtain rfl := eq_of_closeWith h
    exact (Regex.ends_suffix _ _ _ hrest).trans (Regex.ends_suffix _ _ _ haltText)
  · have hs := eq_of_closeWith h
    exact hs ▸ List.suffix_rfl

theorem ends_of_matchPlaceholder (h : matchPlaceholder s = some found) : Ends s found := by
  rw [matchPlaceholder, Regex.first_text] at h
  split at h
  · next hprefix =>
    obtain ⟨inner, rfl⟩ := List.isPrefixOf_iff_prefix.mp hprefix
    have hinner : '}' :: found.behind <:+ inner := by
      rcases Option.or_eq_some_iff.mp h with h | ⟨-, h⟩
      · obtain ⟨rest, hrest, h⟩ := Regex.exists_of_first h
        rw [← eq_of_closeWith h]
        exact Regex.ends_suffix _ _ _ hrest
      · obtain ⟨rest, hrest, h⟩ := Regex.exists_of_first h
        exact (suffix_of_matchAltText h).trans (Regex.ends_suffix _ _ _ hrest)
    obtain ⟨front, rfl⟩ := hinner
    exact ⟨'{' :: front, List.cons_ne_nil _ _, rfl⟩
  · exact nomatch h

theorem ends_of_matchEscapes (h : matchEscapes s = some found) : Ends s found := by
  obtain ⟨rest, hrest, h⟩ := Regex.exists_of_first h
  exact (ends_of_matchPlaceholder h).of_suffix (Regex.ends_suffix _ _ _ hrest)

theorem ends_of_matchHere {atStart : Bool} (h : matchHere atStart s = some found) : Ends s found := by
  rcases Option.or_eq_some_iff.mp h with h | ⟨-, h⟩
  · split at h
    · exact ends_of_matchEscapes h
    · exact nomatch h
  · obtain ⟨rest, hrest, h⟩ := Regex.exists_of_first h
    exact (ends_of_matchEscapes h).of_suffix (Regex.ends_suffix _ _ _ hrest)

theorem ends_of_search {atStart : Bool} {skipped : QString}
    (h : search atStart s = some (skipped, found)) : Ends s found := by
  induction s generalizing atStart skipped with
  | nil =>
    obtain ⟨here, hhere, heq⟩ := Option.map_eq_some_iff.mp h
    obtain ⟨-, rfl⟩ := Prod.mk.inj heq
    exact ends_of_matchHere hhere
  | cons c s ih =>
    rw [search] at h
    split at h
    · next here hhere =>
      obtain ⟨-, rfl⟩ := Prod.mk.inj (Option.some.inj h)
      exact ends_of_matchHere hhere
    · obtain ⟨⟨skipped', found'⟩, hlater, heq⟩ := Option.map_eq_some_iff.mp h
      obtain ⟨-, rfl⟩ := Prod.mk.inj heq
      exact (ih hlater).of_suffix (List.suffix_cons c s)

end Ends

/-! ## The function -/

/-- The names of `COMMAND_VARS`. -/
def commandVars : List QString :=
  ["channel.name".toList, "channel.id".toList, "channel".toList, "stream.game".toList,
    "stream.title".toList, "my.id".toList, "my.name".toList, "user.name".toList, "user".toList,
    "msg.id".toList, "msg-id".toList, "msg.text".toList, "message".toList, "input.text".toList]

/-- What a call goes by, apart from the words and the command. No name in `context` is empty. -/
structure Environment where
  dryRun : Bool
  context : QString → Option Units
  context_nil : context [] = none
  /-- `COMMAND_VARS` at a name, on the alternative text, for the channel and the message -/
  replacer : QString → QString → Units
  appendWhisperMessageStringLocally : Units → Bool

/-- The loop over the words of a placeholder with a `+`. -/
def joinLoop (first : Bool) : List Units → Units
  | [] => []
  | word :: words => (if !first then [0x20] else []) ++ word ++ joinLoop false words

variable (env : Environment) (words : List Units)

/-- What is inserted for a placeholder that has no word index. -/
def variableText (found : RegularExpressionMatch) : Units :=
  match env.context found.captured4 with
  | some value => if value.isEmpty then found.captured5.units else value
  | none =>
    if found.captured4 ∈ commandVars then env.replacer found.captured4 found.captured5
    else [0x7B] ++ found.captured3.units ++ [0x7D]

/-- What is inserted for a match. -/
def replacement (found : RegularExpressionMatch) : Units :=
  let plus := found.captured3.getLast? = some '+'
  let wordIndexMatch := found.captured3.filter fun c => c ≠ '+'
  match QString.toInt (wordIndexMatch.filter fun c => c ≠ '=') with
  | none => variableText env found
  | some wordIndex =>
    if wordIndex = 0 then variableText env found
    else if (words.length : Int) ≤ wordIndex then []
    else if plus then joinLoop true (words.drop wordIndex.toNat)
    else words[wordIndex.toNat]?.getD []

/-- The loop. The last argument is the text from `matchOffset` on: a match ends with a `}`. -/
def stitch (func : QString) (result : Units) (lastCaptureEnd matchOffset : Nat) (s : QString) : Units :=
  match h : search (matchOffset = 0) s with
  | none => result ++ func.units.drop lastCaptureEnd
  | some (skipped, found) =>
    let capturedStart := matchOffset + (QString.units skipped).length
    let copied := func.units.mid lastCaptureEnd ((capturedStart : Int) - lastCaptureEnd + 1)
    let capturedEnd := func.units.length - found.behind.units.length
    stitch func (result ++ copied ++ replacement env words found) capturedEnd (capturedEnd - 1)
      ('}' :: found.behind)
termination_by s.length
decreasing_by exact (ends_of_search h).length_lt

/-- The text that the function makes. -/
def expansion (func : QString) : Units :=
  let result := stitch env words func [] 0 0 func
  let result := if result.head? = some 0x7B then result.drop 1 else result
  Units.replaceAll [0x7B, 0x7B] [0x7B] result

/-- What becomes of the text: it is returned, or it is sent as a whisper. -/
inductive Outcome
  | returned (res : Units)
  | whispered (res : Units)
deriving DecidableEq, Repr

def Outcome.text : Outcome → Units
  | .returned res => res
  | .whispered res => res

def execCustomCommand (command : Command) : Outcome :=
  let res := expansion env words command.func
  if env.dryRun || !env.appendWhisperMessageStringLocally res then .returned res else .whispered res

end CustomCommand

end Dankerino
