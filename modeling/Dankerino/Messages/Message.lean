import Dankerino.Qt.QString

/-!
# Messages

`Message` of `messages/Message.hpp`, with the fields that channels and views read. Messages are
handled through shared pointers, so a message has the address of its object, and two pointers are
equal when the addresses are.
-/

namespace Dankerino

inductive MessageFlag where
  | system | timeout | highlighted | doNotTriggerNotification | centered | disabled
  | disableCompactEmotes | collapsed | connectedMessage | disconnectedMessage | untimeout | pubSub
  | subscription | doNotLog | autoMod | recentMessage | whisper | highlightedWhisper | debug
  | similar | redeemedHighlight | redeemedChannelPointReward | showInMentions | firstMessage
  | sevenTvEventApiAddEmoteMessage | sevenTvEventApiRemoveEmoteMessage
  | sevenTvEventApiUpdateEmoteMessage | webchatDetected | replyMessage
deriving DecidableEq, Repr

/-- `FlagsEnum<MessageFlag>`: the flags that are set. -/
abbrev MessageFlags := List MessageFlag

namespace MessageFlags

def has (flags : MessageFlags) (flag : MessageFlag) : Bool := decide (flag ∈ flags)

def set (flags : MessageFlags) (flag : MessageFlag) : MessageFlags :=
  if flag ∈ flags then flags else flag :: flags

end MessageFlags

/-- A `std::shared_ptr<QColor>`: a color of the `ColorProvider`, or a message's own. -/
inductive HighlightColor where
  | invalid | subscription | redeemedHighlight | firstMessageHighlight
  | shared (addr : Nat)
deriving DecidableEq, Repr

inductive HighlightStyle where
  | none | default | line
deriving DecidableEq, Repr

/-- A mark on the scrollbar. -/
structure ScrollbarHighlight where
  color : HighlightColor := .invalid
  style : HighlightStyle := .none
  isRedeemedHighlight : Bool := false
  isFirstMessageHighlight : Bool := false
deriving DecidableEq, Repr

structure Message where
  addr : Nat
  id : QString
  flags : MessageFlags
  loginName : QString
  /-- Milliseconds. A time that was never set counts as 0. -/
  serverReceivedTime : Int
  highlightColor : Nat
deriving DecidableEq, Repr

namespace Message

/-- Equality of pointers to messages. -/
def same (a b : Message) : Bool := a.addr == b.addr

def isSystem (m : Message) : Bool := m.flags.has .system

/-- `enableSubHighlight` is the setting. -/
def getScrollBarHighlight (enableSubHighlight : Bool) (m : Message) : ScrollbarHighlight :=
  if m.flags.has .highlighted || m.flags.has .highlightedWhisper then
    { color := .shared m.highlightColor, style := .default }
  else if m.flags.has .subscription && enableSubHighlight then
    { color := .subscription, style := .default }
  else if m.flags.has .redeemedHighlight || m.flags.has .redeemedChannelPointReward then
    { color := .redeemedHighlight, style := .default, isRedeemedHighlight := true }
  else if m.flags.has .firstMessage then
    { color := .firstMessageHighlight, style := .default, isFirstMessageHighlight := true }
  else {}

/-- A message made by `makeSystemMessage`, of which no text is read here. -/
def makeSystemMessage (addr : Nat) : Message where
  addr := addr
  id := []
  flags := [.system, .doNotTriggerNotification]
  loginName := []
  serverReceivedTime := 0
  highlightColor := 0

end Message

end Dankerino
