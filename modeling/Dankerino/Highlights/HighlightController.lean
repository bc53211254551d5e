import Dankerino.Accounts.AccountController
import Dankerino.Common.SignalVector
import Dankerino.Highlights.HighlightPhrase
import Mathlib.Logic.Function.Basic

/-!
# The highlight controller

`HighlightController` of `controllers/highlights`, with what it listens to: the settings of the
group `highlighting`, the three highlight lists, and the current account.

A check is the closure that is put into `checks_`. The checks are built by `rebuildChecks`, which the
controller calls when it starts, when a setting of its `rebuildListener_` changes, when a list sends
`delayedItemsChanged`, and when the current user changes.
-/

namespace Dankerino

universe u

/-! ## Settings -/

/-- The settings of the group `highlighting`. -/
inductive Setting
  | customHighlightSound
  | enableSelfHighlight
  | showSelfHighlightInMentions
  | enableSelfHighlightSound
  | enableSelfHighlightTaskbar
  | selfHighlightSoundUrl
  | selfHighlightColor
  | enableWhisperHighlight
  | enableWhisperHighlightSound
  | enableWhisperHighlightTaskbar
  | whisperHighlightSoundUrl
  | whisperHighlightColor
  | enableRedeemedHighlight
  | redeemedHighlightSoundUrl
  | redeemedHighlightColor
  | enableFirstMessageHighlight
  | firstMessageHighlightSoundUrl
  | firstMessageHighlightColor
  | enableSubHighlight
  | enableSubHighlightSound
  | enableSubHighlightTaskbar
  | subHighlightSoundUrl
  | subHighlightColor
  | highlightColor
  | longAlerts
  | highlightMentions
  | pathHighlightSound
  | highlightAlwaysPlaySound
  | highlightInlineWhispers
deriving DecidableEq, Repr

/-- A `BoolSetting` or a `QStringSetting`. -/
@[reducible]
def Setting.Value : Setting → Type
  | .selfHighlightSoundUrl => QString
  | .selfHighlightColor => QString
  | .whisperHighlightSoundUrl => QString
  | .whisperHighlightColor => QString
  | .redeemedHighlightSoundUrl => QString
  | .redeemedHighlightColor => QString
  | .firstMessageHighlightSoundUrl => QString
  | .firstMessageHighlightColor => QString
  | .subHighlightSoundUrl => QString
  | .subHighlightColor => QString
  | .highlightColor => QString
  | .pathHighlightSound => QString
  | _ => Bool

/-- What the setting is initialised with. -/
def Setting.defaultValue : (setting : Setting) → setting.Value
  | .customHighlightSound => false
  | .enableSelfHighlight => true
  | .showSelfHighlightInMentions => true
  | .enableSelfHighlightSound => true
  | .enableSelfHighlightTaskbar => true
  | .selfHighlightSoundUrl => []
  | .selfHighlightColor => []
  | .enableWhisperHighlight => true
  | .enableWhisperHighlightSound => false
  | .enableWhisperHighlightTaskbar => false
  | .whisperHighlightSoundUrl => []
  | .whisperHighlightColor => []
  | .enableRedeemedHighlight => true
  | .redeemedHighlightSoundUrl => []
  | .redeemedHighlightColor => []
  | .enableFirstMessageHighlight => true
  | .firstMessageHighlightSoundUrl => []
  | .firstMessageHighlightColor => []
  | .enableSubHighlight => true
  | .enableSubHighlightSound => false
  | .enableSubHighlightTaskbar => false
  | .subHighlightSoundUrl => []
  | .subHighlightColor => []
  | .highlightColor => []
  | .longAlerts => false
  | .highlightMentions => true
  | .pathHighlightSound => []
  | .highlightAlwaysPlaySound => false
  | .highlightInlineWhispers => false

structure Settings (QUrl : Type u) where
  getValue : (setting : Setting) → setting.Value
  highlightedMessages : DelayedVector (HighlightPhrase QUrl)
  highlightedUsers : DelayedVector (HighlightPhrase QUrl)
  highlightedBadges : DelayedVector (HighlightBadge QUrl)

/-- The settings of a first start. -/
def Settings.new {QUrl : Type u} : Settings QUrl where
  getValue := Setting.defaultValue
  highlightedMessages := .new
  highlightedUsers := .new
  highlightedBadges := .new

def Settings.setValue {QUrl : Type u} (settings : Settings QUrl) (setting : Setting)
    (newValue : setting.Value) : Settings QUrl :=
  { settings with getValue := Function.update settings.getValue setting newValue }

/-! ## Accounts -/

/-- `TwitchAccountManager`. The current user is `none` for the anonymous one. -/
structure TwitchAccountManager where
  accounts : List TwitchAccount
  currentUser : Option TwitchAccount

namespace TwitchAccountManager

def ANONYMOUS_USERNAME : QString := "justinfan64537".toList

/-- The name of `getCurrent()`. -/
def currentUserName (twitch : TwitchAccountManager) : QString :=
  match twitch.currentUser with
  | none => ANONYMOUS_USERNAME
  | some user => user.userName

variable {QUrl : Type u} (qt : Qt QUrl)

def findUserByUsername (twitch : TwitchAccountManager) (username : QString) : Option TwitchAccount :=
  twitch.accounts.find? fun user => qt.equalsCaseInsensitive username user.userName

/-- What `load` connects to the setting `currentUsername`, without the signal it ends with. -/
def setCurrentUsername (twitch : TwitchAccountManager) (newUsername : QString) :
    TwitchAccountManager :=
  { twitch with currentUser := twitch.findUserByUsername qt newUsername }

end TwitchAccountManager

/-! ## Checks -/

inductive ColorType
  | selfHighlight
  | subscription
  | whisper
deriving DecidableEq, Repr

/-- `ColorProvider`. The addresses are those of its constructor, which are never replaced. -/
structure ColorProvider where
  color : ColorType → Nat

structure HighlightResult (QUrl : Type u) where
  alert : Bool
  playSound : Bool
  customSoundUrl : Option QUrl
  color : Option Nat
  showInMentions : Bool
deriving DecidableEq, Repr

def HighlightResult.emptyResult {QUrl : Type u} : HighlightResult QUrl where
  alert := false
  playSound := false
  customSoundUrl := none
  color := none
  showInMentions := false

def HighlightResult.full {QUrl : Type u} (result : HighlightResult QUrl) : Bool :=
  result.alert && result.playSound && result.customSoundUrl.isSome && result.color.isSome &&
    result.showInMentions

structure MessageParseArgs where
  isReceivedWhisper : Bool
  isSubscriptionMessage : Bool
deriving DecidableEq, Repr

/-- The last argument is whether the message is the current user's own. -/
abbrev HighlightCheck (QUrl : Type u) : Type u :=
  MessageParseArgs → List Badge → QString → QString → Bool → Option (HighlightResult QUrl)

namespace HighlightController

variable {QUrl : Type u} (qt : Qt QUrl) (colors : ColorProvider)

def highlightPhraseCheck (highlight : HighlightPhrase QUrl) : HighlightCheck QUrl :=
  fun _args _badges _senderName originalMessage self =>
    if self then none
    else if !highlight.isMatch qt originalMessage then none
    else some
      { alert := highlight.hasAlert
        playSound := highlight.hasSound
        customSoundUrl := if highlight.hasCustomSound qt then some highlight.soundUrl else none
        color := some highlight.color
        showInMentions := highlight.showInMentions }

/-- The custom sound is that of the whispers. -/
def rebuildSubscriptionHighlights (settings : Settings QUrl) (checks : List (HighlightCheck QUrl)) :
    List (HighlightCheck QUrl) :=
  if settings.getValue .enableSubHighlight then
    let highlightSound := settings.getValue .enableSubHighlightSound
    let highlightAlert := settings.getValue .enableSubHighlightTaskbar
    let highlightSoundUrlValue := settings.getValue .whisperHighlightSoundUrl
    let highlightSoundUrl :=
      if highlightSoundUrlValue.isEmpty then none else some (qt.url highlightSoundUrlValue)
    checks ++ [fun args _badges _senderName _originalMessage _self =>
      if !args.isSubscriptionMessage then none
      else some
        { alert := highlightAlert
          playSound := highlightSound
          customSoundUrl := highlightSoundUrl
          color := some (colors.color .subscription)
          showInMentions := false }]
  else checks

def rebuildWhisperHighlights (settings : Settings QUrl) (checks : List (HighlightCheck QUrl)) :
    List (HighlightCheck QUrl) :=
  if settings.getValue .enableWhisperHighlight then
    let highlightSound := settings.getValue .enableWhisperHighlightSound
    let highlightAlert := settings.getValue .enableWhisperHighlightTaskbar
    let highlightSoundUrlValue := settings.getValue .whisperHighlightSoundUrl
    let highlightSoundUrl :=
      if highlightSoundUrlValue.isEmpty then none else some (qt.url highlightSoundUrlValue)
    checks ++ [fun args _badges _senderName _originalMessage _self =>
      if !args.isReceivedWhisper then none
      else some
        { alert := highlightAlert
          playSound := highlightSound
          customSoundUrl := highlightSoundUrl
          color := some (colors.color .whisper)
          showInMentions := false }]
  else checks

/-- The phrase for the current user's name. -/
def selfHighlight (settings : Settings QUrl) (currentUsername : QString) : HighlightPhrase QUrl where
  pattern := currentUsername
  showInMentions := settings.getValue .showSelfHighlightInMentions
  hasAlert := settings.getValue .enableSelfHighlightTaskbar
  hasSound := settings.getValue .enableSelfHighlightSound
  isRegex := false
  isCaseSensitive := false
  soundUrl := qt.url (settings.getValue .selfHighlightSoundUrl)
  color := colors.color .selfHighlight

def rebuildMessageHighlights (settings : Settings QUrl) (twitch : TwitchAccountManager)
    (checks : List (HighlightCheck QUrl)) : List (HighlightCheck QUrl) :=
  let currentUsername := twitch.currentUserName
  let checks :=
    if settings.getValue .enableSelfHighlight && !currentUsername.isEmpty then
      checks ++ [highlightPhraseCheck qt (selfHighlight qt colors settings currentUsername)]
    else checks
  checks ++ settings.highlightedMessages.items.map (highlightPhraseCheck qt)

def rebuildUserHighlights (settings : Settings QUrl) (checks : List (HighlightCheck QUrl)) :
    List (HighlightCheck QUrl) :=
  checks ++ settings.highlightedUsers.items.map fun highlight =>
    fun _args _badges senderName _originalMessage _self =>
      if !highlight.isMatch qt senderName then none
      else some
        { alert := highlight.hasAlert
          playSound := highlight.hasSound
          customSoundUrl := if highlight.hasCustomSound qt then some highlight.soundUrl else none
          color := some highlight.color
          showInMentions := highlight.showInMentions }

def rebuildBadgeHighlights (settings : Settings QUrl) (checks : List (HighlightCheck QUrl)) :
    List (HighlightCheck QUrl) :=
  checks ++ settings.highlightedBadges.items.map fun highlight =>
    fun _args badges _senderName _originalMessage _self =>
      if badges.any (highlight.isMatch qt) then
        some
          { alert := highlight.hasAlert
            playSound := highlight.hasSound
            customSoundUrl := if highlight.hasCustomSound qt then some highlight.soundUrl else none
            color := some highlight.color
            showInMentions := false }
      else none

/-- What `rebuildChecks` puts into `checks_`: subscription, whisper, user, message, badge. -/
def buildChecks (settings : Settings QUrl) (twitch : TwitchAccountManager) :
    List (HighlightCheck QUrl) :=
  rebuildBadgeHighlights qt settings
    (rebuildMessageHighlights qt colors settings twitch
      (rebuildUserHighlights qt settings
        (rebuildWhisperHighlights qt colors settings
          (rebuildSubscriptionHighlights qt colors settings []))))

end HighlightController

/-! ## The controller -/

/-- The controller, the settings and the accounts. -/
structure HighlightController (QUrl : Type u) where
  settings : Settings QUrl
  twitch : TwitchAccountManager
  rebuildListener : List Setting
  checks : List (HighlightCheck QUrl)

namespace HighlightController

variable {QUrl : Type u} (qt : Qt QUrl) (colors : ColorProvider)

def rebuildChecks (s : HighlightController QUrl) : HighlightController QUrl :=
  { s with checks := buildChecks qt colors s.settings s.twitch }

/-- The settings that `initialize` adds to `rebuildListener_`. -/
def registered : List Setting :=
  [.enableWhisperHighlight, .enableWhisperHighlightSound, .enableWhisperHighlightTaskbar,
    .whisperHighlightSoundUrl, .whisperHighlightColor, .enableSelfHighlight, .enableSubHighlight,
    .enableSubHighlightSound, .enableSubHighlightTaskbar]

/-- `initialize`, from any settings and accounts. Timers of the lists may be running. -/
def init (settings : Settings QUrl) (twitch : TwitchAccountManager) : HighlightController QUrl :=
  rebuildChecks qt colors { settings, twitch, rebuildListener := registered, checks := [] }

/-- One round of the loop of `check`: what the result takes over from a check. -/
def merge (result checkResult : HighlightResult QUrl) : HighlightResult QUrl where
  alert := result.alert || checkResult.alert
  playSound := result.playSound || checkResult.playSound
  customSoundUrl := result.customSoundUrl.or checkResult.customSoundUrl
  color := result.color.or checkResult.color
  showInMentions := result.showInMentions || checkResult.showInMentions

/-- The loop of `check`. It stops at a result that is full. -/
def checkLoop (run : HighlightCheck QUrl → Option (HighlightResult QUrl)) (highlighted : Bool)
    (result : HighlightResult QUrl) : List (HighlightCheck QUrl) → Bool × HighlightResult QUrl
  | [] => (highlighted, result)
  | check :: checks =>
    match run check with
    | none => checkLoop run highlighted result checks
    | some checkResult =>
      let result := merge result checkResult
      if result.full then (true, result) else checkLoop run true result checks

def check (s : HighlightController QUrl) (args : MessageParseArgs) (badges : List Badge)
    (senderName originalMessage : QString) : Bool × HighlightResult QUrl :=
  let self := decide (senderName = s.twitch.currentUserName)
  checkLoop (fun check => check args badges senderName originalMessage self) false .emptyResult
    s.checks

/-! ## Steps -/

/-- The controller rebuilds its checks if it hears of the change. -/
def notify (heard : Bool) (s : HighlightController QUrl) : HighlightController QUrl :=
  if heard then s.rebuildChecks qt colors else s

inductive Op (QUrl : Type u)
  | setValue (setting : Setting) (newValue : setting.Value)
  | messages (op : VectorOp (HighlightPhrase QUrl))
  | users (op : VectorOp (HighlightPhrase QUrl))
  | badges (op : VectorOp (HighlightBadge QUrl))
  | setCurrentUsername (newUsername : QString)
  | accounts (accounts : List TwitchAccount)
  | userValuesUpdated

/--
One event of the program. A setting that is set to the value it has may or may not tell its
listeners. Accounts that come and go leave the current user as it is. A new login of the current user
sends `currentUserChanged` too.
-/
inductive Step : HighlightController QUrl → Op QUrl → HighlightController QUrl → Prop
  | setValue (s : HighlightController QUrl) (setting : Setting) (newValue : setting.Value) :
      Step s (.setValue setting newValue)
        (notify qt colors (decide (setting ∈ s.rebuildListener))
          { s with settings := s.settings.setValue setting newValue })
  | sameValue (s : HighlightController QUrl) (setting : Setting) :
      Step s (.setValue setting (s.settings.getValue setting)) s
  | messages (s : HighlightController QUrl) {op : VectorOp (HighlightPhrase QUrl)}
      {v : DelayedVector (HighlightPhrase QUrl)} {sent : Bool} :
      s.settings.highlightedMessages.apply op = some (v, sent) →
      Step s (.messages op)
        (notify qt colors sent { s with settings := { s.settings with highlightedMessages := v } })
  | users (s : HighlightController QUrl) {op : VectorOp (HighlightPhrase QUrl)}
      {v : DelayedVector (HighlightPhrase QUrl)} {sent : Bool} :
      s.settings.highlightedUsers.apply op = some (v, sent) →
      Step s (.users op)
        (notify qt colors sent { s with settings := { s.settings with highlightedUsers := v } })
  | badges (s : HighlightController QUrl) {op : VectorOp (HighlightBadge QUrl)}
      {v : DelayedVector (HighlightBadge QUrl)} {sent : Bool} :
      s.settings.highlightedBadges.apply op = some (v, sent) →
      Step s (.badges op)
        (notify qt colors sent { s with settings := { s.settings with highlightedBadges := v } })
  | setCurrentUsername (s : HighlightController QUrl) (newUsername : QString) :
      Step s (.setCurrentUsername newUsername)
        (notify qt colors true { s with twitch := s.twitch.setCurrentUsername qt newUsername })
  | accounts (s : HighlightController QUrl) (accounts : List TwitchAccount) :
      Step s (.accounts accounts) { s with twitch := { s.twitch with accounts } }
  | userValuesUpdated (s : HighlightController QUrl) :
      Step s .userValuesUpdated (notify qt colors true s)

end HighlightController

end Dankerino
