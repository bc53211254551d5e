import Dankerino.Twitch.SendMessage
import Dankerino.Twitch.TwitchMessageBuilder

/-!
# The IRC message handlers

The handlers of `IrcMessageHandler`: what each does with a message from the server, as the list of
its effects on channels and accounts, or the first access that goes wrong. A channel is looked up by
a name from the message, so it may be a `TwitchChannel`, one of the special channels, or the empty
channel.

The handlers check most of what they pick out of a message. The exceptions are the first parameter of
a `USERNOTICE`, the second part of a list of moderators or VIPs, the channel of a message with a
reward or a reply, and what `TwitchMessageBuilder` does not check.
-/

namespace Dankerino

open Infra

/-- A `Communi::IrcMessage`. -/
structure IrcMessage where
  parameters : List QString
  tags : List (QString × QString)
  nick : QString
  /-- `content()` of a private message or a notice -/
  content : QString
  isAction : Bool

namespace IrcMessage

/-- `parameter(i)`, empty if it is absent. -/
def parameter (m : IrcMessage) (i : Nat) : QString := m.parameters.getD i []

def tag (m : IrcMessage) (name : String) : Option QString := m.tags.lookup name.toList

/-- `tags().value(name).toString()`. -/
def tagValue (m : IrcMessage) (name : String) : QString := (m.tag name).getD []

/-- `target()` of a private message or a notice. -/
def target (m : IrcMessage) : QString := m.parameter 0

end IrcMessage

structure RoomModes where
  submode : Bool := false
  r9k : Bool := false
  emoteOnly : Bool := false
  followerOnly : Int := -1
  slowMode : Int := 0

/-- What the handlers read of the rest of the program. -/
structure HandlerEnv where
  builder : TwitchMessageBuilder.Env
  lowerCase : LowerCase
  /-- the Twitch channels that are there -/
  twitchChannels : List QString
  /-- the current account's name -/
  userName : QString
  userstateEmoteSets : List QString
  /-- for the channel, the user's id and the text -/
  isIgnored : SplitChannel → QString → QString → Bool
  /-- whether the built message is highlighted, and whether it is shown in the mentions -/
  highlights : Units → Bool × Bool
  isChannelPointRewardKnown : QString → QString → Bool
  /-- whether the channel has a message with the id -/
  findMessage : SplitChannel → QString → Bool
  roomModes : QString → RoomModes
  showJoins : Bool
  showParts : Bool
  hideDeletionActions : Bool
  inlineWhispers : Bool

/-- A message that a handler makes. -/
inductive Shown where
  /-- built from the text of the message -/
  | built (text : Units) (isSub : Bool)
  | whisper (text : Units)
  | system (text : QString)
  | subscription (text : QString)
  | banned (confirmedBan : Bool)
  | loginExpired (text : QString)
  | deletion (messageID : QString)
  | hosting (channelName : QString) (hostOn : Bool)
  | listOfUsers (beforeColon : QString) (users : List QString)

inductive HandlerEffect where
  | addMessage (channel : SplitChannel) (shown : Shown)
  /-- `forEachChannel` -/
  | addToChannels (shown : Shown)
  /-- `forEachChannelAndSpecialChannels` -/
  | addToAllChannels (shown : Shown)
  | waitForReward (channel rewardId : QString)
  | setRoomId (channel roomId : QString)
  | setRoomModes (channel : QString) (modes : RoomModes)
  | roomModesChanged (channel : QString)
  | disableAllMessages (channel : SplitChannel)
  | addOrReplaceTimeout (channel : SplitChannel) (username durationInSeconds : QString)
  | disableMessage (channel : SplitChannel) (messageID : QString)
  | setUserstateEmoteSets (emoteSets : List QString)
  | loadUserstateEmotes
  | setVIP (channel : QString) (vip : Bool)
  | setStaff (channel : QString) (staff : Bool)
  | setMod (channel : QString) (mod : Bool)
  | addJoinedUser (channel nick : QString)
  | addPartedUser (channel nick : QString)
  | replyTo (channel messageID : QString)

/-! ## Channels -/

/-- The name of a special channel is never empty. -/
def SplitChannel.isEmpty : SplitChannel → Bool
  | .empty => true
  | .twitch name => name.isEmpty
  | .irc _ name => name.isEmpty
  | _ => false

/-- `trimChannelName`. A name without `#` is that of a channel of the parallel universe. -/
def trimChannelName (channelName : QString) : Option QString :=
  if channelName.units.length < 2 then none
  else if !channelName.startsWith ['#'] then some ('$' :: channelName)
  else some (channelName.mid 1)

namespace IrcMessageHandler

variable (env : HandlerEnv)

def getChannelOrEmpty (dirtyChannelName : QString) : SplitChannel :=
  let channelName := env.lowerCase.toLower (cleanChannelName dirtyChannelName)
  match getCustomChannel channelName with
  | some channel => channel
  | none => if channelName ∈ env.twitchChannels then .twitch channelName else .empty

/-! ## Messages of users -/

/-- An `ESCAPE_TAG` that is not behind another one becomes a joiner (`COMBINED_FIXER`). -/
def fixCombined (afterTag : Bool) : QString → QString
  | [] => []
  | c :: rest =>
    let isTag := c == Char.ofNat 0xE0002
    (if isTag && !afterTag then '\u200D' else c) :: fixCombined isTag rest

def build (channel : SplitChannel) (m : IrcMessage) (content : QString) : Except Fault Units :=
  TwitchMessageBuilder.build env.builder channel (m.tag "emotes") (m.tag "bits") content

/-- What follows in `addMessage` once the builder is there. -/
def showMessage (chan : SplitChannel) (m : IrcMessage) (content : QString) (isSub : Bool) :
    Except Fault (List HandlerEffect) :=
  if isSub || !env.isIgnored chan (m.tagValue "user-id") content then
    match build env chan m content with
    | .error fault => .error fault
    | .ok text =>
      let (highlighted, showInMentions) := env.highlights text
      .ok ((if highlighted && showInMentions then [.addMessage .mentions (.built text isSub)] else [])
        ++ [.addMessage chan (.built text isSub)])
  else .ok []

def addMessage (m : IrcMessage) (target content : QString) (isSub : Bool) :
    Except Fault (List HandlerEffect) :=
  match trimChannelName target with
  | none => .ok []
  | some channelName =>
    let chan := getChannelOrEmpty env channelName
    if chan.isEmpty then .ok []
    else
      -- the result of the cast is used below without a check
      let channel := chan.asTwitch
      match m.tag "custom-reward-id", channel with
      | some _, none => .error .nullTwitchChannel
      | some rewardId, some name =>
        if !env.isChannelPointRewardKnown name rewardId then .ok [.waitForReward name rewardId]
        else reply chan channel
      | none, _ => reply chan channel
where
  reply (chan : SplitChannel) (channel : Option QString) : Except Fault (List HandlerEffect) :=
    match m.tag "reply-parent-msg-id", channel with
    | some _, none => .error .nullTwitchChannel
    | some replyID, some name => (showMessage env chan m content isSub).map (.replyTo name replyID :: ·)
    | none, _ => showMessage env chan m content isSub

def handlePrivMessage (m : IrcMessage) : Except Fault (List HandlerEffect) :=
  addMessage env m m.target (fixCombined false m.content) false

def handleWhisperMessage (m : IrcMessage) : Except Fault (List HandlerEffect) :=
  let content := fixCombined false (m.parameter 1)
  if env.isIgnored .whispers (m.tagValue "user-id") content then .ok []
  else
    match build env .whispers m content with
    | .error fault => .error fault
    | .ok text =>
      .ok ((if (env.highlights text).1 then [.addMessage .mentions (.whisper text)] else [])
        ++ [.addMessage .whispers (.whisper text)]
        ++ if env.inlineWhispers then [.addToChannels (.whisper text)] else [])

/-- The message types that might contain a special user's message. -/
def specialMessageTypes : List QString :=
  ["sub".toList, "subgift".toList, "resub".toList, "bitsbadgetier".toList, "ritual".toList,
    "announcement".toList]

/--
What stands for an escaped character, which is told by its lower byte. Of a character outside the BMP
the source looks at the first surrogate, and it stays what it is here.
-/
def unescape (c : Char) : Char :=
  if c.toNat ≥ 0x10000 then c
  else
    match Char.ofNat (c.toNat % 256) with
    | 'n' => '\n'
    | 'r' => '\r'
    | 's' => ' '
    | '\\' => '\\'
    | ':' => ';'
    | _ => c

def parseTagString : QString → QString
  | '\\' :: c :: rest => unescape c :: parseTagString rest
  | c :: rest => c :: parseTagString rest
  | [] => []

/-- The text of the system message of a `USERNOTICE`. -/
def systemText (m : IrcMessage) (systemMsg : QString) : QString :=
  if m.tagValue "msg-id" = "bitsbadgetier".toList then
    m.tagValue "display-name" ++ " just earned a new ".toList
      ++ QString.number ((((m.tag "msg-param-threshold").map env.builder.toInt).getD 0).tdiv 1000)
      ++ "K Bits badge!".toList
  else if m.tagValue "msg-id" = "announcement".toList then "Announcement".toList
  else systemMsg

def systemNotice (m : IrcMessage) : List HandlerEffect :=
  match m.tag "system-msg" with
  | none => []
  | some systemMsg =>
    if m.parameters.length < 1 then []
    else
      match trimChannelName (m.parameter 0) with
      | none => []
      | some channelName =>
        let chan := getChannelOrEmpty env channelName
        if chan.isEmpty then []
        else [.addMessage chan (.subscription (parseTagString (systemText env m systemMsg)))]

def handleUserNoticeMessage (m : IrcMessage) : Except Fault (List HandlerEffect) :=
  match readAt m.parameters 0 with
  | .error fault => .error fault
  | .ok target =>
    let content := if m.parameters.length ≥ 2 then m.parameter 1 else []
    if m.tagValue "msg-id" ∈ specialMessageTypes ∧ content ≠ [] then
      (addMessage env m target content true).map (· ++ systemNotice env m)
    else .ok (systemNotice env m)

/-! ## Notices -/

/-- `appendDuration`. -/
def appendDuration (count : Int) (unit : Char) (out : QString) : QString :=
  if count > 0 then (if out.isEmpty then [] else out ++ [' ']) ++ QString.number count ++ [unit] else out

/-- `formatTime` of a number of seconds. -/
def formatTime (totalSeconds : Int) : QString :=
  let timeoutMinutes := totalSeconds.tdiv 60
  let timeoutHours := timeoutMinutes.tdiv 60
  appendDuration (totalSeconds.tmod 60) 's'
    (appendDuration (timeoutMinutes.tmod 60) 'm'
      (appendDuration (timeoutHours.tmod 24) 'h' (appendDuration (timeoutHours.tdiv 24) 'd' [])))

/-- How long a `msg_timedout` says that the user is timed out. -/
def remainingTime (content : QString) : QString :=
  let time :=
    match QString.toInt ((content.splitOn ' ').getD 5 []) with
    | some totalSeconds => formatTime totalSeconds
    | none => "n/a".toList
  if time.isEmpty then "0s".toList else time

/-- `parseNoticeMessage`: the message, and its `messageText`. -/
def parseNoticeMessage (m : IrcMessage) : Shown × QString :=
  if QString.startsWith (m.content.map Char.toLower) "login auth".toList then
    let text := "Login expired for user \"".toList ++ env.userName
      ++ "\"! Try adding your account again.".toList
    (.loginExpired text, text)
  else if m.content.startsWith "You are permanently banned ".toList then
    (.banned true, ("You were banned from this channel! If you believe you have been unbanned, "
      ++ "try reconnecting.").toList)
  else if m.tagValue "msg-id" = "msg_timedout".toList then
    let text := "You are timed out for ".toList ++ remainingTime m.content ++ ['.']
    (.system text, text)
  else (.system m.content, m.content)

/-- `split(", ")`. -/
def splitUsers (current : QString) : QString → List QString
  | ',' :: ' ' :: rest => current.reverse :: splitUsers [] rest
  | c :: rest => splitUsers (c :: current) rest
  | [] => [current.reverse]

/-- The text that the list of users is cut from. -/
def usersText (m : IrcMessage) (messageText : QString) : QString :=
  if m.tagValue "msg-id" = "vips_success".toList then messageText.chop 1 else messageText

/-- A notice for one channel. -/
def noticeInChannel (m : IrcMessage) (channel : SplitChannel) (shown : Shown) (messageText : QString) :
    Except Fault (List HandlerEffect) :=
  let tags := m.tagValue "msg-id"
  if tags = "usage_delete".toList then
    .ok [.addMessage channel (.system ("Usage: /delete <msg-id> - Deletes the specified message. "
      ++ "Can't take more than one argument.").toList)]
  else if tags = "bad_delete_message_error".toList then
    .ok [.addMessage channel (.system ("There was a problem deleting the message. "
      ++ "It might be from another channel or too old to delete.").toList)]
  else if tags = "host_on".toList ∨ tags = "host_target_went_offline".toList then
    let hostOn := decide (tags = "host_on".toList)
    let parts := messageText.splitOn ' '
    if (hostOn && parts.length != 3) || (!hostOn && parts.length != 7) then .ok []
    else
      match readAt parts (if hostOn then 2 else 0) with
      | .error fault => .error fault
      | .ok hostedChannelName =>
        if (QString.units hostedChannelName).length < 2 then .ok []
        else
          let hostedChannelName := if hostOn then QString.chop hostedChannelName 1 else hostedChannelName
          .ok [.addMessage channel (.hosting hostedChannelName hostOn)]
  else if tags = "room_mods".toList ∨ tags = "vips_success".toList then
    let msgParts := (usersText m messageText).splitOn ':'
    -- the assertion that the channel is a `TwitchChannel` is not in a release build
    match readAt msgParts 1 with
    | .error fault => .error fault
    | .ok users =>
      match readAt msgParts 0 with
      | .error fault => .error fault
      | .ok beforeColon =>
        let users := (splitUsers [] (QString.mid users 1)).mergeSort fun a b =>
          !QString.less (env.lowerCase.toLower b) (env.lowerCase.toLower a)
        .ok [.addMessage channel (.listOfUsers beforeColon users)]
  else .ok [.addMessage channel shown]

def handleNoticeMessage (m : IrcMessage) : Except Fault (List HandlerEffect) :=
  let (shown, messageText) := parseNoticeMessage env m
  match trimChannelName m.target with
  | none => .ok [.addToAllChannels shown]
  | some channelName =>
    if channelName = "jtv".toList then .ok [.addToAllChannels shown]
    else
      let channel := getChannelOrEmpty env channelName
      if channel.isEmpty then .ok [] else noticeInChannel env m channel shown messageText

/-! ## Moderation -/

def handleClearChatMessage (m : IrcMessage) : List HandlerEffect :=
  if m.parameters.length < 1 then []
  else
    match trimChannelName (m.parameter 0) with
    | none => []
    | some chanName =>
      let chan := getChannelOrEmpty env chanName
      if chan.isEmpty then []
      else if m.parameters.length = 1 then
        [.disableAllMessages chan,
          .addMessage chan (.system "Chat has been cleared by a moderator.".toList)]
      else [.addOrReplaceTimeout chan (m.parameter 1) (m.tagValue "ban-duration")]

def handleClearMessageMessage (m : IrcMessage) : List HandlerEffect :=
  if m.parameters.length < 1 then []
  else
    match trimChannelName (m.parameter 0) with
    | none => []
    | some chanName =>
      let chan := getChannelOrEmpty env chanName
      if chan.isEmpty then []
      else
        let targetID := m.tagValue "target-msg-id"
        if !env.findMessage chan targetID then []
        else
          .disableMessage chan targetID ::
            if env.hideDeletionActions then [] else [.addMessage chan (.deletion targetID)]

/-! ## States -/

def changedModes (m : IrcMessage) (modes : RoomModes) : RoomModes :=
  let one : QString := ['1']
  { submode := ((m.tag "subs-only").map (· == one)).getD modes.submode
    r9k := ((m.tag "r9k").map (· == one)).getD modes.r9k
    emoteOnly := ((m.tag "emote-only").map (· == one)).getD modes.emoteOnly
    followerOnly := ((m.tag "followers-only").map env.builder.toInt).getD modes.followerOnly
    slowMode := ((m.tag "slow").map env.builder.toInt).getD modes.slowMode }

def handleRoomStateMessage (m : IrcMessage) : List HandlerEffect :=
  match trimChannelName (m.parameter 0) with
  | none => []
  | some chanName =>
    match (getChannelOrEmpty env chanName).asTwitch with
    | none => []
    | some twitchChannel =>
      ((m.tag "room-id").map (.setRoomId twitchChannel ·)).toList
        ++ [.setRoomModes twitchChannel (changedModes env m (env.roomModes twitchChannel)),
          .roomModesChanged twitchChannel]

/-- The names of the badges, of which only those with one `/` count. -/
def parseBadges (badgesString : QString) : List QString :=
  (badgesString.splitOn ',').filterMap fun badgeData =>
    match badgeData.splitOn '/' with
    | [key, _] => some key
    | _ => none

/-- What is done for a channel that is a `TwitchChannel`. -/
def inTwitchChannel (channel : SplitChannel) (effects : QString → List HandlerEffect) :
    List HandlerEffect :=
  if channel.isEmpty then []
  else
    match channel.asTwitch with
    | none => []
    | some tc => effects tc

def handleUserStateMessage (m : IrcMessage) : List HandlerEffect :=
  let emoteSets := ((m.tagValue "emote-sets").splitOn ',').mergeSort fun a b => !QString.less b a
  let emotes := if env.userstateEmoteSets = emoteSets then []
    else [.setUserstateEmoteSets emoteSets, .loadUserstateEmotes]
  match trimChannelName (m.parameter 0) with
  | none => emotes
  | some channelName =>
    let c := getChannelOrEmpty env channelName
    -- the parallel universe
    let pu := getChannelOrEmpty env ('$' :: channelName)
    let badges (tc : QString) : List HandlerEffect :=
      match m.tag "badges" with
      | none => []
      | some badges =>
        [.setVIP tc (decide ("vip".toList ∈ parseBadges badges)),
          .setStaff tc (decide ("staff".toList ∈ parseBadges badges))]
    let mod (tc : QString) : List HandlerEffect :=
      match m.tag "mod" with
      | none => []
      | some mod => [.setMod tc (mod == ['1'])]
    emotes ++ inTwitchChannel c badges ++ inTwitchChannel pu badges ++ inTwitchChannel c mod
      ++ inTwitchChannel pu mod

/--
Channel names start with `#`, which `mid 1` takes away. (It takes a whole character; the source takes
a UTF-16 unit, which is half of one outside the BMP.)
-/
def handleJoinMessage (m : IrcMessage) : List HandlerEffect :=
  match (getChannelOrEmpty env ((m.parameter 0).mid 1)).asTwitch with
  | none => []
  | some twitchChannel =>
    if m.nick ≠ env.userName ∧ env.showJoins then [.addJoinedUser twitchChannel m.nick] else []

/-- The name as in `handleJoinMessage`. -/
def handlePartMessage (m : IrcMessage) : List HandlerEffect :=
  match (getChannelOrEmpty env ((m.parameter 0).mid 1)).asTwitch with
  | none => []
  | some twitchChannel =>
    (if m.nick ≠ env.userName ∧ env.showParts then [.addPartedUser twitchChannel m.nick] else [])
      ++ if m.nick = env.userName then [.addMessage (.twitch twitchChannel) (.banned false)] else []

/-! ## Dispatch -/

/-- The commands with a handler of this kind. -/
inductive Command where
  | privmsg | usernotice | notice | clearchat | clearmsg | roomstate | userstate | whisper | join | part
deriving DecidableEq, Repr

def handle (command : Command) (m : IrcMessage) : Except Fault (List HandlerEffect) :=
  match command with
  | .privmsg => handlePrivMessage env m
  | .usernotice => handleUserNoticeMessage env m
  | .notice => handleNoticeMessage env m
  | .clearchat => .ok (handleClearChatMessage env m)
  | .clearmsg => .ok (handleClearMessageMessage env m)
  | .roomstate => .ok (handleRoomStateMessage env m)
  | .userstate => .ok (handleUserStateMessage env m)
  | .whisper => handleWhisperMessage env m
  | .join => .ok (handleJoinMessage env m)
  | .part => .ok (handlePartMessage env m)

end IrcMessageHandler

end Dankerino
