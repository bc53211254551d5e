import Dankerino.Infra.OrderedMap
import Dankerino.Infra.Run
import Dankerino.Irc.AbstractIrcServer
import Dankerino.Twitch.LiveStatus

/-!
# Notifications of channels that are not open

`NotificationController` with what it looks at: the open channels of `TwitchIrcServer`, the settings,
and the `/live` channel. `setLive` of an open channel sends notifications of its own.

Every minute the channels of the list that are not open are asked for, in batches. A notification is
recorded with what it did beside the message in `/live`. The reports of a live status are recorded
too, the last one first.
-/

namespace Dankerino

open Infra AbstractIrcServer

namespace NotificationController

/-- What the notifications look at. -/
structure Settings where
  /-- `WinToast::isCompatible()`, and false on other systems -/
  isCompatible : Bool
  isInStreamerMode : Bool
  notificationToast : Bool
  notificationPlaySound : Bool
  notificationFlashTaskbar : Bool
  notificationOnAnyChannel : Bool
  streamerModeSuppressLiveNotifications : Bool

def Settings.suppressed (settings : Settings) : Bool :=
  settings.isInStreamerMode && settings.streamerModeSuppressLiveNotifications

/-- `Toasts::isEnabled`. -/
def Settings.toastsEnabled (settings : Settings) : Bool :=
  settings.isCompatible && settings.notificationToast && !settings.suppressed

inductive Effect
  | toast (channelName : QString)
  | playSound
  | sendAlert
deriving DecidableEq

structure Notification where
  channelName : QString
  effects : List Effect
deriving DecidableEq

/-- A message in the `/live` channel. -/
structure LiveMessage where
  messageText : QString
  disabled : Bool := false
deriving DecidableEq

/-- An open channel. -/
structure OpenChannel where
  displayName : QString
  live : Bool := false
deriving DecidableEq

/-- A live status that became known. -/
inductive Report
  /-- The response to a batch, as the logins of its streams. -/
  | polled (batch liveStreams : List QString)
  /-- An open channel got it. -/
  | channel (channelName : QString) (live : Bool)
deriving DecidableEq

end NotificationController

open NotificationController

structure NotificationController where
  /-- The list for `Platform::Twitch`. -/
  channelMap : List QString
  fakeTwitchChannels : List QString := []
  settings : Dankerino.NotificationController.Settings
  /-- The open channels. -/
  channels : OrderedMap QString OpenChannel := []
  liveChannel : List LiveMessage := []
  /-- The batches that wait for an answer. -/
  requests : List (List QString) := []
  /-- The notifications that were sent. -/
  sent : List Notification := []
  history : List Report := []

namespace NotificationController

/-! ## The message in `/live` -/

def liveMessageText (channelName : QString) : QString := channelName ++ " is live!".toList

/-- The loop from the end that disables the last message with the text. -/
def disableLoop (text : QString) (stop : Nat) : Nat → List LiveMessage → List LiveMessage
  | 0, snapshot => snapshot
  | i + 1, snapshot =>
    if i < stop then snapshot
    else if snapshot[i]?.map LiveMessage.messageText = some text then
      snapshot.modify i fun message => { message with disabled := true }
    else disableLoop text stop i snapshot

/-- Of the last 200 messages. -/
def disableLiveMessage (channelName : QString) (snapshot : List LiveMessage) : List LiveMessage :=
  disableLoop (liveMessageText channelName) (snapshot.length - 200) snapshot.length snapshot

section

variable (toLower : QString → QString)

/-! ## The list -/

def isChannelNotified (channelName : QString) (s : NotificationController) : Bool :=
  s.channelMap.any fun channel => toLower channelName == toLower channel

def addChannelNotification (channelName : QString) (s : NotificationController) :
    NotificationController :=
  { s with channelMap := s.channelMap ++ [channelName] }

/-- The loop steps back after a removal, so that it looks at every entry. -/
def removeChannelNotification (channelName : QString) (s : NotificationController) :
    NotificationController :=
  { s with channelMap := s.channelMap.filter fun channel => toLower channel != toLower channelName }

def updateChannelNotification (channelName : QString) (s : NotificationController) :
    NotificationController :=
  if s.isChannelNotified toLower channelName then s.removeChannelNotification toLower channelName
  else s.addChannelNotification channelName

/-! ## The poll -/

/-- `getChannelOrEmpty(dirtyChannelName)->isEmpty()`. An empty channel is one without a name. -/
def isChannelEmpty (dirtyChannelName : QString) (s : NotificationController) : Bool :=
  let channelName := (twitchIrcServer toLower).cleanChannelName dirtyChannelName
  if (twitchIrcServer toLower).getCustomChannel channelName then false
  else if (s.channels.find channelName).isSome then channelName.isEmpty
  else true

def fetchFakeChannels (s : NotificationController) : NotificationController :=
  let channels := s.channelMap.filter fun name => s.isChannelEmpty toLower name
  { s with requests := s.requests ++ splitListIntoBatches 100 channels }

def removeFakeChannel (channelName : QString) (s : NotificationController) : NotificationController :=
  if channelName ∈ s.fakeTwitchChannels then
    { s with
      fakeTwitchChannels := s.fakeTwitchChannels.erase channelName
      liveChannel := disableLiveMessage channelName s.liveChannel }
  else s

def checkStreamEffects (settings : Settings) (channelName : QString) : List Effect :=
  (if settings.toastsEnabled then [.toast channelName] else []) ++
  (if settings.notificationPlaySound && !settings.suppressed then [.playSound] else []) ++
  (if settings.notificationFlashTaskbar && !settings.suppressed then [.sendAlert] else [])

def checkStream (live : Bool) (channelName : QString) (s : NotificationController) :
    NotificationController :=
  if !live then s.removeFakeChannel channelName
  else if channelName ∈ s.fakeTwitchChannels then s
  else
    { s with
      sent := s.sent ++ [⟨channelName, checkStreamEffects s.settings channelName⟩]
      liveChannel := s.liveChannel ++ [{ messageText := liveMessageText channelName }]
      fakeTwitchChannels := s.fakeTwitchChannels ++ [channelName] }

/-- The loop over the batch, when the streams are there. -/
def checkStreams (liveStreams batch : List QString) (s : NotificationController) :
    NotificationController :=
  batch.foldl (fun s name => s.checkStream (decide (toLower name ∈ liveStreams)) name) s

/-- The callbacks of a batch. Without streams the request has failed. -/
def onAnswer (batch : List QString) (streams : Option (List QString)) (s : NotificationController) :
    NotificationController :=
  let s : NotificationController := { s with requests := s.requests.erase batch }
  match streams with
  | none => s
  | some liveStreams =>
    { s.checkStreams toLower liveStreams batch with
      history := .polled batch liveStreams :: s.history }

/-! ## Open channels -/

def setLiveEffects (settings : Settings) (isChannelNotified : Bool) (channelName : QString) :
    List Effect :=
  (if isChannelNotified then
    (if settings.toastsEnabled then [.toast channelName] else []) ++
    (if settings.notificationPlaySound then [.playSound] else []) ++
    (if settings.notificationFlashTaskbar then [.sendAlert] else [])
  else []) ++
  (if settings.notificationOnAnyChannel && !settings.suppressed then [.playSound] else [])

/-- `TwitchChannel::setLive`, without the messages in the channel itself. -/
def setLive (name : QString) (channel : OpenChannel) (newLiveStatus : Bool)
    (s : NotificationController) : NotificationController :=
  let s : NotificationController := { s with history := .channel name newLiveStatus :: s.history }
  if channel.live = newLiveStatus then s
  else
    let s : NotificationController :=
      if newLiveStatus then
        { s with
          sent := s.sent ++
            [⟨name, setLiveEffects s.settings (s.isChannelNotified toLower name) name⟩]
          liveChannel := s.liveChannel ++ [{ messageText := liveMessageText channel.displayName }] }
      else { s with liveChannel := disableLiveMessage channel.displayName s.liveChannel }
    { s with channels := s.channels.update name { channel with live := newLiveStatus } }

/-! ## Runs -/

/-- The program starts, and has not polled. -/
def start (twitchSetting : List QString) (settings : Settings) : NotificationController where
  channelMap := twitchSetting
  settings := settings

inductive Event
  | add (channelName : QString)
  | remove (channelName : QString)
  | toggle (channelName : QString)
  /-- A row of the settings page. -/
  | insertAt (index : Nat) (channelName : QString)
  | removeAt (index : Nat)
  | configure (settings : Settings)
  | openChannel (dirtyChannelName displayName : QString)
  | closeChannel (name : QString)
  | setLive (name : QString) (newLiveStatus : Bool)
  | poll
  | answer (batch : List QString) (streams : Option (List QString))

inductive Step : NotificationController → Event → NotificationController → Prop
  | add (s : NotificationController) (channelName : QString) :
    Step s (.add channelName) (s.addChannelNotification channelName)
  | remove (s : NotificationController) (channelName : QString) :
    Step s (.remove channelName) (s.removeChannelNotification toLower channelName)
  | toggle (s : NotificationController) (channelName : QString) :
    Step s (.toggle channelName) (s.updateChannelNotification toLower channelName)
  | insertAt (s : NotificationController) (index : Nat) (channelName : QString) :
    Step s (.insertAt index channelName)
      { s with channelMap := s.channelMap.insertIdx index channelName }
  | removeAt (s : NotificationController) (index : Nat) :
    Step s (.removeAt index) { s with channelMap := s.channelMap.eraseIdx index }
  | configure (s : NotificationController) (settings : Settings) :
    Step s (.configure settings) { s with settings := settings }
  | openChannel (s : NotificationController) (dirtyChannelName displayName : QString) :
    s.isChannelEmpty toLower dirtyChannelName = true →
    Step s (.openChannel dirtyChannelName displayName)
      { s with channels := s.channels.insert
                 ((twitchIrcServer toLower).cleanChannelName dirtyChannelName) { displayName } }
  | closeChannel (s : NotificationController) (name : QString) :
    Step s (.closeChannel name) { s with channels := s.channels.erase name }
  | setLive (s : NotificationController) (name : QString) (channel : OpenChannel)
    (newLiveStatus : Bool) : s.channels.find name = some channel →
    Step s (.setLive name newLiveStatus) (s.setLive toLower name channel newLiveStatus)
  | poll (s : NotificationController) : Step s .poll (s.fetchFakeChannels toLower)
  | answer (s : NotificationController) (batch : List QString) (streams : Option (List QString)) :
    batch ∈ s.requests → Step s (.answer batch streams) (s.onAnswer toLower batch streams)

end

end NotificationController

end Dankerino
