import Dankerino.Common.Channel

/-!
# Messages that take the place of others

`Channel::addOrReplaceTimeout` and `Channel::addOrReplaceSevenTvEventAddRemove`. Both look back over
the last 20 messages for one that can be put together with the new message. A message is as old as
the time of day says at which its object was made: `parseTime` has no date.

An instant is a number of milliseconds on the local clock from some midnight on, and the clock is taken
to run on. A `QTime` is a number of milliseconds since midnight. The signals, the log and the elements
of the messages are left out, and so is `messageText`, which is the same text as `searchText` here.
-/

namespace Dankerino

/-! ## Time -/

def MSECS_PER_DAY : Int := 86400000

/-- The `QTime` of an instant. `QTime::currentTime()` is that of the instant at which it is called. -/
def timeOfDay (t : Int) : Int := t % MSECS_PER_DAY

def dayOf (t : Int) : Int := t / MSECS_PER_DAY

/-- `QTime::addSecs`, which goes around at midnight. -/
def addSecs (time s : Int) : Int := (time + 1000 * s) % MSECS_PER_DAY

/-- Five seconds before an instant, as a time of day. -/
theorem addSecs_timeOfDay (now : Int) : addSecs (timeOfDay now) (-5) = timeOfDay (now - 5000) := by
  unfold addSecs timeOfDay MSECS_PER_DAY
  omega

/-! ## Messages -/

namespace MessageFlags

def hasAny (flags others : MessageFlags) : Bool := others.any flags.has

def hasNone (flags others : MessageFlags) : Bool := !flags.hasAny others

end MessageFlags

/-- A message with what the two methods read of it. -/
structure TimedMessage extends Message where
  /-- When the constructor ran. -/
  created : Int
  searchText : QString
  timeoutUser : QString
  count : Nat
  seventvEventTargetEmotes : List QString
deriving DecidableEq, Repr

namespace TimedMessage

/-- The constructor sets it to the current time. -/
def parseTime (m : TimedMessage) : Int := timeOfDay m.created

/-- Equality of pointers. -/
def same (a b : TimedMessage) : Bool := a.addr == b.addr

/-- The text of `MessageBuilder(timeoutMessage, systemMessageText, times)`. -/
def timesText (systemMessageText : QString) (times : Nat) : QString :=
  let username := systemMessageText.takeWhile (· != ' ')
  let remainder := QString.mid systemMessageText (username.length + 1)
  let text := QString.arg (QString.arg "%1 (%2 times)".toList (QString.trimmed remainder))
    (QString.number times)
  (username ++ " ".toList) ++ (text ++ " ".toList)

/-- `MessageBuilder(timeoutMessage, systemMessageText, times)`, at an address and an instant. -/
def timeoutMessage (addr : Nat) (now : Int) (systemMessageText : QString) (times : Nat) :
    TimedMessage where
  addr := addr
  id := []
  flags := []
  loginName := []
  serverReceivedTime := 0
  highlightColor := 0
  created := now
  searchText := timesText systemMessageText times
  timeoutUser := []
  count := 1
  seventvEventTargetEmotes := []

/-- The names as a notice lists them: `i` of them, of `size`, are in the text already. -/
def emoteList (size : Nat) : Nat → List QString → QString
  | _, [] => []
  | 0, emoteName :: rest => emoteName ++ emoteList size 1 rest
  | i + 1, emoteName :: rest =>
    (if i + 2 = size then " and ".toList else ", ".toList) ++ emoteName ++ emoteList size (i + 2) rest

/-- `verb` is `added` or `removed`. -/
def noticeText (verb : QString) (emoteNames : List QString) : QString :=
  (if emoteNames.length = 1 then verb ++ " 7TV emote ".toList
    else QString.arg (verb ++ " %1 7TV emotes ".toList) (QString.number emoteNames.length))
    ++ emoteList emoteNames.length 0 emoteNames ++ ".".toList

/-- What the builders of the notices have in common. -/
def notice (addr : Nat) (now : Int) (actor text : QString) (emoteNames : List QString)
    (flag : MessageFlag) : TimedMessage where
  addr := addr
  id := []
  flags := [.system, flag, .doNotTriggerNotification]
  loginName := actor
  serverReceivedTime := 0
  highlightColor := 0
  created := now
  -- an `arg` with two arguments replaces both markers at once
  searchText := actor ++ " ".toList ++ text
  timeoutUser := []
  count := 1
  seventvEventTargetEmotes := emoteNames

def seventvAddEmoteMessage (addr : Nat) (now : Int) (actor : QString) (emoteNames : List QString) :
    TimedMessage :=
  notice addr now actor (noticeText "added".toList emoteNames) emoteNames
    .sevenTvEventApiAddEmoteMessage

def seventvRemoveEmoteMessage (addr : Nat) (now : Int) (actor : QString)
    (emoteNames : List QString) : TimedMessage :=
  notice addr now actor (noticeText "removed".toList emoteNames) emoteNames
    .sevenTvEventApiRemoveEmoteMessage

def seventvUpdateEmoteMessage (addr : Nat) (now : Int) (actor emoteName oldEmoteName : QString) :
    TimedMessage :=
  notice addr now actor
    ("renamed 7TV emote ".toList ++ oldEmoteName ++ " to ".toList ++ emoteName ++ ".".toList)
    [emoteName, oldEmoteName] .sevenTvEventApiUpdateEmoteMessage

end TimedMessage

/-! ## The queue -/

/-- The messages of a channel. -/
abbrev MessageQueue := LimitedQueue TimedMessage

namespace MessageQueue

/-- `addMessage`. True when the oldest message was removed for it. -/
def addMessage (q : MessageQueue) (message : TimedMessage) : MessageQueue × Bool := q.pushBack message

def replaceMessage (q : MessageQueue) (message replacement : TimedMessage) : MessageQueue :=
  (q.replaceItem TimedMessage.same message replacement).1

/-- Writes to the objects of the messages. -/
def mapMessages (f : TimedMessage → TimedMessage) (q : MessageQueue) : MessageQueue :=
  q.withBuffer ⟨q.buffer.capacity, q.buffer.items.map f, by simpa using q.buffer.size_le⟩ rfl

@[simp] theorem items_mapMessages (f : TimedMessage → TimedMessage) (q : MessageQueue) :
    (q.mapMessages f).items = q.items.map f := rfl

@[simp] theorem limit_mapMessages (f : TimedMessage → TimedMessage) (q : MessageQueue) :
    (q.mapMessages f).limit = q.limit := rfl

/-- From the newest message back to the 20th. -/
def lastMessages (snapshot : List TimedMessage) : List TimedMessage := snapshot.reverse.take 20

/-- A message among the last is one of the queue, and those that are newer stand after it. -/
theorem items_of_lastMessages {q : MessageQueue} {newer older : List TimedMessage} {s : TimedMessage}
    (h : lastMessages q.getSnapshot = newer ++ s :: older) :
    ∃ front, q.items = front ++ s :: newer.reverse := by
  refine ⟨(older ++ q.items.reverse.drop 20).reverse, ?_⟩
  have hitems : q.items = (lastMessages q.getSnapshot ++ q.items.reverse.drop 20).reverse := by
    simp [lastMessages]
  rw [h] at hitems
  exact hitems.trans (by simp)

/-- Replacing a message whose object is in the queue once. -/
theorem items_replaceMessage {q : MessageQueue} {front back : List TimedMessage} {s : TimedMessage}
    (h : q.items = front ++ s :: back) (hnd : (q.items.map (·.addr)).Nodup)
    (replacement : TimedMessage) :
    (q.replaceMessage s replacement).items = front ++ replacement :: back := by
  rw [h] at hnd
  have hfind : q.items.findIdx? (fun m => TimedMessage.same m s) = some front.length := by
    rw [h]
    exact @LimitedQueue.findIdx?_addr _ (fun m : TimedMessage => m.addr) _ _ _ hnd
  rw [replaceMessage, q.replaceItem_of_some hfind]
  show q.items.set front.length replacement = _
  rw [h]
  simp

/-! ### Timeouts -/

inductive TimeoutStackStyle where
  | stackHard | dontStackBeyondUserMessage | dontStack
deriving DecidableEq, Repr

/-- How the loop over the last messages ends. -/
inductive TimeoutAction where
  /-- the message is added -/
  | add
  /-- it is not, since the timeout is shown already -/
  | drop (s : TimedMessage)
  | replace (s replacement : TimedMessage)
deriving DecidableEq, Repr

/-- A message of the user that is timed out, which is not disabled yet. -/
def isUserMessage (message s : TimedMessage) : Bool :=
  decide (s.loginName = message.timeoutUser) && s.flags.hasNone [.disabled, .timeout, .untimeout]

/-- The timeout that stands for `s` and for the message. -/
def stackedTimeout (addr : Nat) (now : Int) (message s : TimedMessage) : TimedMessage :=
  let count := s.count + 1
  { TimedMessage.timeoutMessage addr now message.searchText count with
    timeoutUser := message.timeoutUser
    count := count
    flags := message.flags }

/-- One round of the loop; `none` when it goes on. `addr` is the address of a new message. -/
def timeoutRound (style : TimeoutStackStyle) (now : Int) (addr : Nat) (message s : TimedMessage) :
    Option TimeoutAction :=
  let minimumTime := addSecs (timeOfDay now) (-5)
  if s.parseTime < minimumTime then some .add
  else if s.flags.has .untimeout && decide (s.timeoutUser = message.timeoutUser) then some .add
  else if decide (style = .dontStackBeyondUserMessage) && isUserMessage message s then some .add
  else if s.flags.has .timeout && decide (s.timeoutUser = message.timeoutUser) then
    if message.flags.has .pubSub && !s.flags.has .pubSub then some (.replace s message)
    else if !message.flags.has .pubSub && s.flags.has .pubSub then
      some (if style = .dontStack then .add else .drop s)
    else some (.replace s (stackedTimeout addr now message s))
  else none

/-- The loop, from the newest message on. -/
def timeoutLoop (style : TimeoutStackStyle) (now : Int) (addr : Nat) (message : TimedMessage)
    (messages : List TimedMessage) : TimeoutAction :=
  (messages.findSome? (timeoutRound style now addr message)).getD .add

/-- Disables a message of the user. -/
def disable (user : QString) (s : TimedMessage) : TimedMessage :=
  if s.loginName = user ∧ s.flags.hasNone [.timeout, .untimeout, .whisper] then
    { s with flags := s.flags.set .disabled }
  else s

/-- The loop over the snapshot, whose objects are those of the queue. -/
def disableMessages (snapshot : List TimedMessage) (user : QString) (q : MessageQueue) : MessageQueue :=
  q.mapMessages fun m => if snapshot.any m.same then disable user m else m

def addOrReplaceTimeout (q : MessageQueue) (style : TimeoutStackStyle) (now : Int) (addr : Nat)
    (message : TimedMessage) : MessageQueue × Bool :=
  let snapshot := q.getSnapshot
  let action := timeoutLoop style now addr message (lastMessages snapshot)
  let q :=
    match action with
    | .replace s replacement => q.replaceMessage s replacement
    | _ => q
  -- disable the messages from the user
  let q := q.disableMessages snapshot message.timeoutUser
  match action with
  | .add => q.addMessage message
  | _ => (q, false)

/-! ### 7TV notices -/

/-- The flags of the notices. -/
def noticeFlags : MessageFlags :=
  [.sevenTvEventApiAddEmoteMessage, .sevenTvEventApiRemoveEmoteMessage,
    .sevenTvEventApiUpdateEmoteMessage]

/-- `none` where the source sets `skip`. -/
def currentFlag (message : TimedMessage) : Option MessageFlag :=
  if message.flags.has .sevenTvEventApiAddEmoteMessage then some .sevenTvEventApiAddEmoteMessage
  else if message.flags.has .sevenTvEventApiRemoveEmoteMessage then
    some .sevenTvEventApiRemoveEmoteMessage
  else none

/-- The notice that stands for `s` and for the message. -/
def mergedNotice (flag : MessageFlag) (addr : Nat) (now : Int) (message s : TimedMessage) :
    TimedMessage :=
  let emotes := s.seventvEventTargetEmotes ++ message.seventvEventTargetEmotes
  let replacement :=
    if flag = .sevenTvEventApiAddEmoteMessage then
      TimedMessage.seventvAddEmoteMessage addr now message.loginName emotes
    else TimedMessage.seventvRemoveEmoteMessage addr now message.loginName emotes
  { replacement with flags := message.flags }

/-- One round of the loop. `some none` ends it without a message to replace. -/
def noticeRound (flag : MessageFlag) (now : Int) (message s : TimedMessage) :
    Option (Option TimedMessage) :=
  let minimumTime := addSecs (timeOfDay now) (-5)
  if s.parseTime < minimumTime then some none
  else if s.flags.has flag && !decide (s.loginName = message.loginName) then some none
  else if s.flags.hasAny noticeFlags
      && s.seventvEventTargetEmotes.any (· ∈ message.seventvEventTargetEmotes) then some none
  else if s.flags.has flag then some (some s)
  else none

def noticeLoop (flag : MessageFlag) (now : Int) (message : TimedMessage)
    (messages : List TimedMessage) : Option TimedMessage :=
  (messages.findSome? (noticeRound flag now message)).join

def addOrReplaceSevenTvEventAddRemove (q : MessageQueue) (now : Int) (addr : Nat)
    (message : TimedMessage) : MessageQueue × Bool :=
  match currentFlag message with
  | none => q.addMessage message
  | some flag =>
    match noticeLoop flag now message (lastMessages q.getSnapshot) with
    | some s => (q.replaceMessage s (mergedNotice flag addr now message s), false)
    | none => q.addMessage message

/-! ## Calls -/

/-- A call comes with the instant at which it is made and the address that a new message gets. -/
inductive Op where
  | addMessage (message : TimedMessage)
  | addOrReplaceTimeout (now : Int) (addr : Nat) (message : TimedMessage)
  | addOrReplaceSevenTvEventAddRemove (now : Int) (addr : Nat) (message : TimedMessage)
deriving DecidableEq, Repr

def Op.message : Op → TimedMessage
  | .addMessage message => message
  | .addOrReplaceTimeout _ _ message => message
  | .addOrReplaceSevenTvEventAddRemove _ _ message => message

/-- `style` is the setting `timeoutStackStyle`. -/
def apply (style : TimeoutStackStyle) (q : MessageQueue) : Op → MessageQueue × Bool
  | .addMessage message => q.addMessage message
  | .addOrReplaceTimeout now addr message => q.addOrReplaceTimeout style now addr message
  | .addOrReplaceSevenTvEventAddRemove now addr message =>
    q.addOrReplaceSevenTvEventAddRemove now addr message

end MessageQueue

end Dankerino
