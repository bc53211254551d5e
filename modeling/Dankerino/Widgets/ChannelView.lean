import Dankerino.Common.Channel
import Dankerino.Infra.Run

/-!
# Channel views

`ChannelView` of `widgets/helper/ChannelView.cpp` and the highlights of its `Scrollbar`. A view
shows an underlying channel through a channel of its own, the proxy `channel_`. It filters the
underlying channel's messages into the proxy and follows the proxy's signals with a queue of
layouts and a queue of highlights.

Signals are delivered where they are invoked, so a call on a channel is followed by the view's
handlers in the order of the signals. The nested event loop in `messageAppended` is left out, and
so is what the handlers do to the scroll position, the selection, pauses and the tab's highlight.
-/

namespace Dankerino

/-! ## Filters -/

/-- A `FilterRecord`, by whether its expression is valid and what it evaluates to. -/
structure FilterRecord where
  valid : Bool
  filter : Message → Bool

/-- `FilterSet`: the records in the order of their ids. -/
abbrev FilterSet := List FilterRecord

def FilterSet.filter (filters : FilterSet) (m : Message) : Bool :=
  if filters.length = 0 then true else filters.all fun f => f.valid && f.filter m

/-- What `shouldIncludeMessage` looks at beside the message. -/
structure FilterSettings where
  channelFilters : Option FilterSet
  excludeUserMessagesFromFilter : Bool
  /-- Whether a login name is the current user's, up to case. -/
  isCurrentUser : QString → Bool

/-- `ChannelView::shouldIncludeMessage`. -/
def shouldIncludeMessage (settings : FilterSettings) (m : Message) : Bool :=
  match settings.channelFilters with
  | some filters =>
    if settings.excludeUserMessagesFromFilter && settings.isCurrentUser m.loginName then true
    else filters.filter m
  | none => true

/-! ## The view -/

/-- A `MessageLayout`. Layouts are compared by the address of the object. -/
structure MessageLayout where
  addr : Nat
  message : Message
  alternateBackground : Bool
  ignoreHighlights : Bool
deriving DecidableEq, Repr

/-- What the handlers read from the rest of the program. -/
structure Env where
  today : QDate
  /-- The address of the next system message. -/
  newMessage : Nat
  enableSubHighlight : Bool
  filterSettings : FilterSettings

structure ChannelView where
  /-- The proxy. It is null before the first `setChannel`. -/
  channel : Option Channel
  messages : LimitedQueue MessageLayout
  /-- `highlights_` of the view's scrollbar. -/
  highlights : LimitedQueue ScrollbarHighlight
  lastMessageHasAlternateBackground : Bool
  lastMessageHasAlternateBackgroundReverse : Bool
  /-- How many layouts were made, which is the address of the next one. -/
  layouts : Nat

namespace ChannelView

/-- A new view. `limit` is the limit of all message queues, 1000 in the program. -/
def new (limit : Nat) : ChannelView where
  channel := none
  messages := .new limit
  highlights := .new limit
  lastMessageHasAlternateBackground := false
  lastMessageHasAlternateBackgroundReverse := true
  layouts := 0

def showScrollbarHighlights (channel : Channel) : Bool := channel.type != .twitchMentions

def clearMessages (v : ChannelView) : ChannelView :=
  { v with
    messages := v.messages.clear
    highlights := v.highlights.clear
    lastMessageHasAlternateBackground := false
    lastMessageHasAlternateBackgroundReverse := true }

/-- A layout for a message that is appended. -/
def appendedLayout (v : ChannelView) (ignoreHighlights : Bool) (message : Message) :
    MessageLayout where
  addr := v.layouts
  message := message
  alternateBackground := v.lastMessageHasAlternateBackground
  ignoreHighlights := ignoreHighlights

/--
Makes a layout and pushes it with its highlight, which `messageAppended` does once, and
`setChannel` and `messagesUpdated` for every message of a snapshot.
-/
def pushLayout (env : Env) (showHighlights ignoreHighlights : Bool) (v : ChannelView)
    (message : Message) : ChannelView :=
  { v with
    messages := (v.messages.pushBack (v.appendedLayout ignoreHighlights message)).1
    highlights :=
      if showHighlights then
        (v.highlights.pushBack (message.getScrollBarHighlight env.enableSubHighlight)).1
      else v.highlights
    lastMessageHasAlternateBackground := !v.lastMessageHasAlternateBackground
    layouts := v.layouts + 1 }

/-! ### The handlers of the proxy's signals -/

def messageAppended (env : Env) (channel : Channel) (v : ChannelView) (message : Message) :
    ChannelView :=
  v.pushLayout env (showScrollbarHighlights channel) channel.shouldIgnoreHighlights message

/-- The layouts for messages that are added at the start. -/
def startLayouts (addr : Nat) (reverse : Bool) : List Message → List MessageLayout
  | [] => []
  | message :: rest =>
    { addr := addr, message := message, alternateBackground := !reverse, ignoreHighlights := false } ::
      startLayouts (addr + 1) (!reverse) rest

def messageAddedAtStart (env : Env) (channel : Channel) (v : ChannelView)
    (messages : List Message) : Option ChannelView := do
  let messageRefs := startLayouts v.layouts v.lastMessageHasAlternateBackgroundReverse messages
  let (queue, _) ← v.messages.pushFront messageRefs
  let highlights ←
    if showScrollbarHighlights channel then do
      let (highlights, _) ← v.highlights.pushFront
        (messages.map (Message.getScrollBarHighlight env.enableSubHighlight))
      some highlights
    else some v.highlights
  some { v with
    messages := queue
    highlights := highlights
    lastMessageHasAlternateBackgroundReverse :=
      if messages.length % 2 = 1 then !v.lastMessageHasAlternateBackgroundReverse
      else v.lastMessageHasAlternateBackgroundReverse
    layouts := v.layouts + messages.length }

def sameLayout (a b : MessageLayout) : Bool := a.addr == b.addr

def messageReplaced (env : Env) (v : ChannelView) (index : Nat) (replacement : Message) :
    ChannelView :=
  match v.messages.get index with
  | none => v
  | some message =>
    let newItem : MessageLayout :=
      { addr := v.layouts, message := replacement,
        alternateBackground := message.alternateBackground, ignoreHighlights := false }
    { v with
      messages := (v.messages.replaceItem sameLayout message newItem).1
      highlights := (v.highlights.replaceItemAt index
        (replacement.getScrollBarHighlight env.enableSubHighlight)).1
      layouts := v.layouts + 1 }

/-- `messagesUpdated`: the layouts are made anew from the proxy. -/
def messagesUpdated (env : Env) (channel : Channel) (v : ChannelView) : ChannelView :=
  channel.getMessageSnapshot.foldl
    (pushLayout env (showScrollbarHighlights channel) channel.shouldIgnoreHighlights)
    v.clearMessages

/-- The view's connections to the proxy. `messageRemoveFromStart` moves the selection only. -/
def onProxySignal (env : Env) (channel : Channel) (v : ChannelView) :
    ChannelSignal → Option ChannelView
  | .messageRemovedFromStart _ => some v
  | .messageAppended message _ => some (v.messageAppended env channel message)
  | .messagesAddedAtStart messages => v.messageAddedAtStart env channel messages
  | .messageReplaced index replacement => some (v.messageReplaced env index replacement)
  | .filledInMessages _ => some (v.messagesUpdated env channel)

/-- A call on the proxy, followed by the view's handlers. -/
def callProxy (env : Env) (v : ChannelView) (call : Channel.Call) : Option ChannelView := do
  let channel ← v.channel
  let (channel', signals) ← channel.call call
  signals.foldlM (onProxySignal env channel') { v with channel := some channel' }

/-! ### The connections to the underlying channel -/

def onMessageAppended (env : Env) (v : ChannelView) (message : Message)
    (overridingFlags : Option MessageFlags) : Option ChannelView := do
  if shouldIncludeMessage env.filterSettings message then
    let channel ← v.channel
    let v ←
      if channel.lastDate ≠ env.today then
        callProxy env { v with channel := some { channel with lastDate := env.today } }
          (.addMessage (.makeSystemMessage env.newMessage) none)
      else some v
    -- the underlying channel logs the message
    let flags := (overridingFlags.getD message.flags).set .doNotLog
    callProxy env v (.addMessage message (some flags))
  else some v

def onMessagesAddedAtStart (env : Env) (v : ChannelView) (messages : List Message) :
    Option ChannelView :=
  let filtered := messages.filter (shouldIncludeMessage env.filterSettings)
  if filtered.isEmpty then some v else callProxy env v (.addMessagesAtStart filtered)

def onMessageReplaced (env : Env) (v : ChannelView) (index : Nat) (replacement : Message) :
    Option ChannelView :=
  if shouldIncludeMessage env.filterSettings replacement then
    callProxy env v (.replaceMessageAt index replacement)
  else some v

def onFilledInMessages (env : Env) (v : ChannelView) (messages : List Message) :
    Option ChannelView :=
  callProxy env v
    (.fillInMissingMessages (messages.filter (shouldIncludeMessage env.filterSettings)))

/-- Nothing is connected to the underlying channel's `messageRemovedFromStart`. -/
def onUnderlyingSignal (env : Env) (v : ChannelView) : ChannelSignal → Option ChannelView
  | .messageRemovedFromStart _ => some v
  | .messageAppended message overridingFlags => v.onMessageAppended env message overridingFlags
  | .messagesAddedAtStart messages => v.onMessagesAddedAtStart env messages
  | .messageReplaced index replacement => v.onMessageReplaced env index replacement
  | .filledInMessages messages => v.onFilledInMessages env messages

def setChannel (env : Env) (v : ChannelView) (underlyingChannel : Channel) : ChannelView :=
  let channel : Channel := .new v.messages.limit underlyingChannel.name underlyingChannel.type env.today
  underlyingChannel.getMessageSnapshot.foldl
    (pushLayout env (showScrollbarHighlights channel) underlyingChannel.shouldIgnoreHighlights)
    { v.clearMessages with channel := some channel }

/-! ## Runs -/

/-- What can happen to a view. -/
inductive Op where
  | setChannel (env : Env) (underlyingChannel : Channel)
  /-- A signal of the underlying channel. -/
  | underlying (env : Env) (signal : ChannelSignal)
  /-- A call on `channel()`, which others can reach. -/
  | proxy (env : Env) (call : Channel.Call)
  | clearMessages

def apply (v : ChannelView) : Op → Option ChannelView
  | .setChannel env underlyingChannel => some (v.setChannel env underlyingChannel)
  | .underlying env signal => v.onUnderlyingSignal env signal
  | .proxy env call => v.callProxy env call
  | .clearMessages => some v.clearMessages

def Step (v : ChannelView) (op : Op) (v' : ChannelView) : Prop := apply v op = some v'

end ChannelView

end Dankerino
