import Dankerino.Filters.FilterSet
import Dankerino.Moderation.ModerationAction
import Dankerino.Qt.QJson
import Dankerino.Util.SettingManager

/-!
# Records in the settings

How the records in the lists of the settings are written to JSON and read back: `Serialize` and
`Deserialize` of each type, over the helpers `rj::set` and `rj::getSafe`. A `Converter` is the pair of them,
with the law that what is written is read back as it was, if no text in it has a U+0000: a text is handed on as
a C string, and ends there.

A reader reports an error for a value that is no object. What it returns then is not used.
-/

namespace Dankerino.Persist

open SettingManager (readString writeString WholeString readString_writeString)

/-! ## Helpers -/

/-- `rj::set`, which adds a member behind the others. -/
def set (obj : QJsonObject) (key : String) (value : QJsonValue) : QJsonObject := obj ++ [(key.toList, value)]

/-- `rj::checkJsonValue` and the member. -/
def member (obj : QJsonValue) (key : String) : Option QJsonValue :=
  match obj with
  | .object o => o.lookup key.toList
  | _ => none

/-- `rj::getSafe`, without its result: the variable stays as it is where there is no member. -/
def getSafe {T : Type} (read : QJsonValue → T) (obj : QJsonValue) (key : String) (out : T) : T :=
  match member obj key with
  | some value => read value
  | none => out

/-- A type that is stored, with its `Serialize` and `Deserialize`. -/
structure Converter (T : Type) where
  serialize : T → QJsonValue
  /-- `none` when an error is reported. -/
  deserialize : QJsonValue → Option T
  /-- Its texts have no U+0000. -/
  Whole : T → Prop
  deserialize_serialize : ∀ value, Whole value → deserialize (serialize value) = some value

/-! ## Colors -/

/-- A valid `QColor` with 8 bits a channel. -/
structure QColor where
  alpha : Fin 256
  red : Fin 256
  green : Fin 256
  blue : Fin 256
deriving DecidableEq

def hexDigit (n : Nat) : Char := Char.ofNat (if n < 10 then '0'.toNat + n else 'a'.toNat + (n - 10))

def hexValue (c : Char) : Option Nat :=
  if '0' ≤ c ∧ c ≤ '9' then some (c.toNat - '0'.toNat)
  else if 'a' ≤ c ∧ c ≤ 'f' then some (c.toNat - 'a'.toNat + 10)
  else if 'A' ≤ c ∧ c ≤ 'F' then some (c.toNat - 'A'.toNat + 10)
  else none

def hexByte (n : Fin 256) : QString := [hexDigit (n.val / 16), hexDigit (n.val % 16)]

def byteOf (high low : Char) : Option (Fin 256) :=
  match hexValue high, hexValue low with
  | some h, some l => some (Fin.ofNat 256 (16 * h + l))
  | _, _ => none

namespace QColor

/-- `name(QColor::HexArgb)`. -/
def name (c : QColor) : QString := '#' :: (hexByte c.alpha ++ hexByte c.red ++ hexByte c.green ++ hexByte c.blue)

/-- The color of a text `#AARRGGBB`. -/
def ofHexArgb : QString → Option QColor
  | ['#', a, a', r, r', g, g', b, b'] => do
    return ⟨← byteOf a a', ← byteOf r r', ← byteOf g g', ← byteOf b b'⟩
  | _ => none

theorem hexValue_hexDigit : ∀ n : Fin 16, hexValue (hexDigit n.val) = some n.val := by decide

theorem hexDigit_ne_null : ∀ n : Fin 16, hexDigit n.val ≠ '\x00' := by decide

theorem wholeString_hexByte (n : Fin 256) : WholeString (hexByte n) := by
  have hn := n.isLt
  have hhigh := hexDigit_ne_null ⟨n.val / 16, by omega⟩
  have hlow := hexDigit_ne_null ⟨n.val % 16, by omega⟩
  simpa [WholeString, hexByte] using ⟨hhigh.symm, hlow.symm⟩

theorem wholeString_name (c : QColor) : WholeString c.name := by
  have halpha := wholeString_hexByte c.alpha
  have hred := wholeString_hexByte c.red
  have hgreen := wholeString_hexByte c.green
  have hblue := wholeString_hexByte c.blue
  simp only [WholeString] at halpha hred hgreen hblue
  simp [WholeString, name, halpha, hred, hgreen, hblue]

theorem byteOf_hexByte (n : Fin 256) :
    byteOf (hexDigit (n.val / 16)) (hexDigit (n.val % 16)) = some n := by
  have hn := n.isLt
  have hhigh := hexValue_hexDigit ⟨n.val / 16, by omega⟩
  have hlow := hexValue_hexDigit ⟨n.val % 16, by omega⟩
  simp only at hhigh hlow
  rw [byteOf, hhigh, hlow]
  have hvalue : 16 * (n.val / 16) + n.val % 16 = n.val := by omega
  simp [hvalue]

theorem ofHexArgb_name (c : QColor) : ofHexArgb c.name = some c := by
  simp [name, hexByte, ofHexArgb, byteOf_hexByte]

end QColor

/-! ## Qt and the settings library -/

/-- The conversions of Qt and of the settings library that the records use. -/
structure Library (QUrl QUuid : Type) where
  /-- `Serialize<bool>`. -/
  writeBool : Bool → QJsonValue
  /-- `Deserialize<bool>`. -/
  readBool : QJsonValue → Bool
  readBool_writeBool : ∀ b, readBool (writeBool b) = b
  /-- `Serialize<std::vector<T>>`. -/
  writeList : {T : Type} → (T → QJsonValue) → List T → QJsonValue
  /-- `Deserialize<std::vector<T>>`. An error in an item is one of the list. -/
  readList : {T : Type} → (QJsonValue → Option T) → QJsonValue → Option (List T)
  readList_writeList : ∀ {T : Type} (write : T → QJsonValue) (read : QJsonValue → Option T) (items : List T),
    (∀ item ∈ items, read (write item) = some item) → readList read (writeList write items) = some items
  urlOf : QString → QUrl
  urlText : QUrl → QString
  urlOf_urlText : ∀ url, urlOf (urlText url) = url
  uuidOf : QString → QUuid
  /-- Without braces. -/
  uuidText : QUuid → QString
  uuidOf_uuidText : ∀ id, uuidOf (uuidText id) = id
  wholeString_uuidText : ∀ id, WholeString (uuidText id)
  /-- Names of colors, and the other ways to write one. -/
  namedColor : QString → Option QColor

def fallbackHighlightColor : QColor := ⟨127, 127, 63, 73⟩

/-! ## The records -/

structure HighlightPhrase (QUrl : Type) where
  pattern : QString
  showInMentions : Bool
  hasAlert : Bool
  hasSound : Bool
  isRegex : Bool
  isCaseSensitive : Bool
  soundUrl : QUrl
  color : QColor

structure HighlightBlacklistUser where
  pattern : QString
  isRegex : Bool

structure HighlightBadge (QUrl : Type) where
  badgeName : QString
  displayName : QString
  hasAlert : Bool
  hasSound : Bool
  soundUrl : QUrl
  color : QColor

structure IgnorePhrase where
  pattern : QString
  isRegex : Bool
  isBlock : Bool
  replace : QString
  isCaseSensitive : Bool

structure Nickname where
  name : QString
  replace : QString
  isRegex : Bool
  isCaseSensitive : Bool

/-- A `ModerationAction` is what its constructor makes of the text. -/
abbrev ModerationButton := {action : ModerationAction // ModerationAction.new action.action = some action}

section Records

variable {QUrl QUuid : Type} (lib : Library QUrl QUuid)

/-- `QColor(encodedColor)`, or the color that stands for one that is not valid. -/
def readColor (encodedColor : QString) : QColor :=
  ((QColor.ofHexArgb encodedColor).or (lib.namedColor encodedColor)).getD fallbackHighlightColor

theorem readColor_name (color : QColor) : readColor lib color.name = color := by
  simp [readColor, QColor.ofHexArgb_name]

namespace HighlightPhrase

def serialize (value : HighlightPhrase QUrl) : QJsonValue :=
  let ret := set [] "pattern" (writeString value.pattern)
  let ret := set ret "showInMentions" (lib.writeBool value.showInMentions)
  let ret := set ret "alert" (lib.writeBool value.hasAlert)
  let ret := set ret "sound" (lib.writeBool value.hasSound)
  let ret := set ret "regex" (lib.writeBool value.isRegex)
  let ret := set ret "case" (lib.writeBool value.isCaseSensitive)
  let ret := set ret "soundUrl" (writeString (lib.urlText value.soundUrl))
  let ret := set ret "color" (writeString value.color.name)
  .object ret

def deserialize (value : QJsonValue) : Option (HighlightPhrase QUrl) :=
  match value with
  | .object _ =>
    some {
      pattern := getSafe readString value "pattern" []
      showInMentions := getSafe lib.readBool value "showInMentions" true
      hasAlert := getSafe lib.readBool value "alert" true
      hasSound := getSafe lib.readBool value "sound" false
      isRegex := getSafe lib.readBool value "regex" false
      isCaseSensitive := getSafe lib.readBool value "case" false
      soundUrl := lib.urlOf (getSafe readString value "soundUrl" [])
      color := readColor lib (getSafe readString value "color" []) }
  | _ => none

def Whole (value : HighlightPhrase QUrl) : Prop :=
  WholeString value.pattern ∧ WholeString (lib.urlText value.soundUrl)

theorem deserialize_serialize (value : HighlightPhrase QUrl) (h : value.Whole lib) :
    deserialize lib (serialize lib value) = some value := by
  have hread : HighlightPhrase.deserialize lib (HighlightPhrase.serialize lib value) = some {
    pattern := readString (writeString value.pattern)
    showInMentions := lib.readBool (lib.writeBool value.showInMentions)
    hasAlert := lib.readBool (lib.writeBool value.hasAlert)
    hasSound := lib.readBool (lib.writeBool value.hasSound)
    isRegex := lib.readBool (lib.writeBool value.isRegex)
    isCaseSensitive := lib.readBool (lib.writeBool value.isCaseSensitive)
    soundUrl := lib.urlOf (readString (writeString (lib.urlText value.soundUrl)))
    color := readColor lib (readString (writeString value.color.name)) } := rfl
  simp only [hread, lib.readBool_writeBool, readString_writeString h.1, readString_writeString h.2,
    readString_writeString value.color.wholeString_name, lib.urlOf_urlText, readColor_name]

end HighlightPhrase

namespace HighlightBlacklistUser

def serialize (value : HighlightBlacklistUser) : QJsonValue :=
  let ret := set [] "pattern" (writeString value.pattern)
  let ret := set ret "regex" (lib.writeBool value.isRegex)
  .object ret

def deserialize (value : QJsonValue) : Option HighlightBlacklistUser :=
  match value with
  | .object _ =>
    some {
      pattern := getSafe readString value "pattern" []
      isRegex := getSafe lib.readBool value "regex" false }
  | _ => none

def Whole (value : HighlightBlacklistUser) : Prop := WholeString value.pattern

theorem deserialize_serialize (value : HighlightBlacklistUser) (h : value.Whole) :
    deserialize lib (serialize lib value) = some value := by
  have hread : HighlightBlacklistUser.deserialize lib (HighlightBlacklistUser.serialize lib value) = some {
    pattern := readString (writeString value.pattern)
    isRegex := lib.readBool (lib.writeBool value.isRegex) } := rfl
  simp only [hread, lib.readBool_writeBool, readString_writeString h]

end HighlightBlacklistUser

namespace HighlightBadge

def serialize (value : HighlightBadge QUrl) : QJsonValue :=
  let ret := set [] "name" (writeString value.badgeName)
  let ret := set ret "displayName" (writeString value.displayName)
  let ret := set ret "alert" (lib.writeBool value.hasAlert)
  let ret := set ret "sound" (lib.writeBool value.hasSound)
  let ret := set ret "soundUrl" (writeString (lib.urlText value.soundUrl))
  let ret := set ret "color" (writeString value.color.name)
  .object ret

def deserialize (value : QJsonValue) : Option (HighlightBadge QUrl) :=
  match value with
  | .object _ =>
    some {
      badgeName := getSafe readString value "name" []
      displayName := getSafe readString value "displayName" []
      hasAlert := getSafe lib.readBool value "alert" true
      hasSound := getSafe lib.readBool value "sound" false
      soundUrl := lib.urlOf (getSafe readString value "soundUrl" [])
      color := readColor lib (getSafe readString value "color" []) }
  | _ => none

def Whole (value : HighlightBadge QUrl) : Prop :=
  WholeString value.badgeName ∧ WholeString value.displayName ∧ WholeString (lib.urlText value.soundUrl)

theorem deserialize_serialize (value : HighlightBadge QUrl) (h : value.Whole lib) :
    deserialize lib (serialize lib value) = some value := by
  obtain ⟨hbadgeName, hdisplayName, hsoundUrl⟩ := h
  have hread : HighlightBadge.deserialize lib (HighlightBadge.serialize lib value) = some {
    badgeName := readString (writeString value.badgeName)
    displayName := readString (writeString value.displayName)
    hasAlert := lib.readBool (lib.writeBool value.hasAlert)
    hasSound := lib.readBool (lib.writeBool value.hasSound)
    soundUrl := lib.urlOf (readString (writeString (lib.urlText value.soundUrl)))
    color := readColor lib (readString (writeString value.color.name)) } := rfl
  simp only [hread, lib.readBool_writeBool, readString_writeString hbadgeName,
    readString_writeString hdisplayName, readString_writeString hsoundUrl,
    readString_writeString value.color.wholeString_name, lib.urlOf_urlText, readColor_name]

end HighlightBadge

namespace IgnorePhrase

def serialize (value : IgnorePhrase) : QJsonValue :=
  let ret := set [] "pattern" (writeString value.pattern)
  let ret := set ret "regex" (lib.writeBool value.isRegex)
  let ret := set ret "isBlock" (lib.writeBool value.isBlock)
  let ret := set ret "replaceWith" (writeString value.replace)
  let ret := set ret "caseSensitive" (lib.writeBool value.isCaseSensitive)
  .object ret

def deserialize (value : QJsonValue) : Option IgnorePhrase :=
  match value with
  | .object _ =>
    some {
      pattern := getSafe readString value "pattern" []
      isRegex := getSafe lib.readBool value "regex" false
      isBlock := getSafe lib.readBool value "isBlock" false
      replace := getSafe readString value "replaceWith" []
      isCaseSensitive := getSafe lib.readBool value "caseSensitive" true }
  | _ => none

def Whole (value : IgnorePhrase) : Prop := WholeString value.pattern ∧ WholeString value.replace

theorem deserialize_serialize (value : IgnorePhrase) (h : value.Whole) :
    deserialize lib (serialize lib value) = some value := by
  have hread : IgnorePhrase.deserialize lib (IgnorePhrase.serialize lib value) = some {
    pattern := readString (writeString value.pattern)
    isRegex := lib.readBool (lib.writeBool value.isRegex)
    isBlock := lib.readBool (lib.writeBool value.isBlock)
    replace := readString (writeString value.replace)
    isCaseSensitive := lib.readBool (lib.writeBool value.isCaseSensitive) } := rfl
  simp only [hread, lib.readBool_writeBool, readString_writeString h.1, readString_writeString h.2]

end IgnorePhrase

namespace Nickname

def serialize (value : Nickname) : QJsonValue :=
  let ret := set [] "name" (writeString value.name)
  let ret := set ret "replace" (writeString value.replace)
  let ret := set ret "isRegex" (lib.writeBool value.isRegex)
  let ret := set ret "isCaseSensitive" (lib.writeBool value.isCaseSensitive)
  .object ret

/-- The two flags are not initialized: they can be anything where the value has none. -/
def deserialize (isRegex isCaseSensitive : Bool) (value : QJsonValue) : Option Nickname :=
  match value with
  | .object _ =>
    some {
      name := getSafe readString value "name" []
      replace := getSafe readString value "replace" []
      isRegex := getSafe lib.readBool value "isRegex" isRegex
      isCaseSensitive := getSafe lib.readBool value "isCaseSensitive" isCaseSensitive }
  | _ => none

def Whole (value : Nickname) : Prop := WholeString value.name ∧ WholeString value.replace

theorem deserialize_serialize (isRegex isCaseSensitive : Bool) (value : Nickname) (h : value.Whole) :
    deserialize lib isRegex isCaseSensitive (serialize lib value) = some value := by
  have hread : Nickname.deserialize lib isRegex isCaseSensitive (Nickname.serialize lib value) = some {
    name := readString (writeString value.name)
    replace := readString (writeString value.replace)
    isRegex := lib.readBool (lib.writeBool value.isRegex)
    isCaseSensitive := lib.readBool (lib.writeBool value.isCaseSensitive) } := rfl
  simp only [hread, lib.readBool_writeBool, readString_writeString h.1, readString_writeString h.2]

end Nickname

namespace FilterRecordPtr

def serialize (value : Filters.FilterRecord QUuid) : QJsonValue :=
  let ret := set [] "name" (writeString value.name)
  let ret := set ret "filter" (writeString value.filter)
  let ret := set ret "id" (writeString (lib.uuidText value.id))
  .object ret

def deserialize (value : QJsonValue) : Option (Filters.FilterRecord QUuid) :=
  match value with
  | .object _ =>
    some (.new (getSafe readString value "name" []) (getSafe readString value "filter" [])
      (lib.uuidOf (getSafe readString value "id" [])))
  | _ => none

theorem new_eq (value : Filters.FilterRecord QUuid) :
    Filters.FilterRecord.new value.name value.filter value.id = value := by
  obtain ⟨name, filter, id, parser, hparser⟩ := value
  unfold Filters.FilterRecord.new
  split
  · next parser' hparser' =>
    obtain rfl := Except.ok.inj (hparser.symm.trans hparser')
    rfl
  · next fault hfault =>
    rw [hparser] at hfault
    cases hfault

def Whole (value : Filters.FilterRecord QUuid) : Prop := WholeString value.name ∧ WholeString value.filter

theorem deserialize_serialize (value : Filters.FilterRecord QUuid) (h : Whole value) :
    deserialize lib (serialize lib value) = some value := by
  have hread : FilterRecordPtr.deserialize lib (FilterRecordPtr.serialize lib value)
    = some (.new (readString (writeString value.name)) (readString (writeString value.filter))
        (lib.uuidOf (readString (writeString (lib.uuidText value.id))))) := rfl
  rw [hread, readString_writeString h.1, readString_writeString h.2,
    readString_writeString (lib.wholeString_uuidText value.id), lib.uuidOf_uuidText, FilterRecordPtr.new_eq]

end FilterRecordPtr

namespace ModerationButton

def serialize (value : ModerationButton) : QJsonValue := .object (set [] "pattern" (writeString value.val.action))

/-- The constructor takes the action as it is. -/
theorem action_of_new {text : QString} {action : ModerationAction} (h : ModerationAction.new text = some action) :
    action.action = text := by
  unfold ModerationAction.new at h
  split at h
  · obtain ⟨amount, -, rfl⟩ := Option.map_eq_some_iff.mp h
    rfl
  · rw [← Option.some.inj h]
    split
    · rfl
    · split <;> rfl

theorem new_action {text : QString} {action : ModerationAction} (h : ModerationAction.new text = some action) :
    ModerationAction.new action.action = some action := by
  rw [action_of_new h]
  exact h

/-- The constructor, which is `none` for a number that overflows. -/
def ofText (text : QString) : Option ModerationButton :=
  match h : ModerationAction.new text with
  | some action => some ⟨action, new_action h⟩
  | none => none

theorem ofText_action (value : ModerationButton) : ofText value.val.action = some value := by
  obtain ⟨action, haction⟩ := value
  unfold ofText
  split
  · next action' haction' =>
    obtain rfl := Option.some.inj (haction.symm.trans haction')
    rfl
  · next hnone => simp [haction] at hnone

def deserialize (value : QJsonValue) : Option ModerationButton :=
  match value with
  | .object _ => ofText (getSafe readString value "pattern" [])
  | _ => none

def Whole (value : ModerationButton) : Prop := WholeString value.val.action

theorem deserialize_serialize (value : ModerationButton) (h : Whole value) :
    deserialize (serialize value) = some value := by
  have hread : ModerationButton.deserialize (ModerationButton.serialize value)
    = ModerationButton.ofText (readString (writeString value.val.action)) := rfl
  rw [hread, readString_writeString h, ModerationButton.ofText_action]

end ModerationButton

/-! ## The converters -/

def stringConverter : Converter QString where
  serialize := writeString
  deserialize
    | .string s => some s
    | _ => none
  Whole := WholeString
  deserialize_serialize _ h := congrArg some (readString_writeString h)

def highlightPhrase : Converter (HighlightPhrase QUrl) where
  serialize := HighlightPhrase.serialize lib
  deserialize := HighlightPhrase.deserialize lib
  Whole := HighlightPhrase.Whole lib
  deserialize_serialize := HighlightPhrase.deserialize_serialize lib

def highlightBlacklistUser : Converter HighlightBlacklistUser where
  serialize := HighlightBlacklistUser.serialize lib
  deserialize := HighlightBlacklistUser.deserialize lib
  Whole := HighlightBlacklistUser.Whole
  deserialize_serialize := HighlightBlacklistUser.deserialize_serialize lib

def highlightBadge : Converter (HighlightBadge QUrl) where
  serialize := HighlightBadge.serialize lib
  deserialize := HighlightBadge.deserialize lib
  Whole := HighlightBadge.Whole lib
  deserialize_serialize := HighlightBadge.deserialize_serialize lib

def ignorePhrase : Converter IgnorePhrase where
  serialize := IgnorePhrase.serialize lib
  deserialize := IgnorePhrase.deserialize lib
  Whole := IgnorePhrase.Whole
  deserialize_serialize := IgnorePhrase.deserialize_serialize lib

def nickname (isRegex isCaseSensitive : Bool) : Converter Nickname where
  serialize := Nickname.serialize lib
  deserialize := Nickname.deserialize lib isRegex isCaseSensitive
  Whole := Nickname.Whole
  deserialize_serialize := Nickname.deserialize_serialize lib isRegex isCaseSensitive

def filterRecordPtr : Converter (Filters.FilterRecord QUuid) where
  serialize := FilterRecordPtr.serialize lib
  deserialize := FilterRecordPtr.deserialize lib
  Whole := FilterRecordPtr.Whole
  deserialize_serialize := FilterRecordPtr.deserialize_serialize lib

def moderationAction : Converter ModerationButton where
  serialize := ModerationButton.serialize
  deserialize := ModerationButton.deserialize
  Whole := ModerationButton.Whole
  deserialize_serialize := ModerationButton.deserialize_serialize

end Records

end Dankerino.Persist
