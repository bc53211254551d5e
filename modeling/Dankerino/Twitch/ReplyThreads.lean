import Dankerino.Common.Channel
import Dankerino.Infra.Run
import Mathlib.Logic.Function.Basic

/-!
# Reply threads

The replies to a message share a `MessageThread`, which the messages hold and of which the channel
has only a weak pointer, under the id of the message that is replied to. Threads are made by
`IrcMessageHandler` when a reply comes in or is loaded, by `/reply` and by `ChannelView`.

Objects have addresses that are not used again. A message or thread is destroyed when nothing holds
it; what holds it outside of the channel is not modelled, so that it may live longer.
-/

namespace Dankerino

open Infra

namespace ReplyThreads

structure MessageThread where
  rootMessageId : QString
  rootMessage : Message
  /-- The addresses of the messages. -/
  replies : List Nat
deriving DecidableEq, Repr

structure TwitchChannel where
  channel : Channel
  /-- `threads_`, whose pointers are weak. -/
  threads : QString → Option Nat
  /-- The threads that are alive. -/
  messageThreads : Nat → Option MessageThread
  /-- The messages that are alive. -/
  alive : Nat → Bool
  /-- The field of the messages. -/
  replyThread : Nat → Option Nat
  /-- Recent messages that are built and not yet in the channel. -/
  pending : List (List Message)
  nextAddress : Nat
  /-- Every message that was built, in order, with its tag `reply-parent-msg-id`. -/
  built : List (Nat × Option QString)
  /-- The calls of `sendReply`. -/
  sent : List (QString × QString)

namespace TwitchChannel

def new (channel : Channel) : TwitchChannel where
  channel := channel
  threads _ := none
  messageThreads _ := none
  alive _ := false
  replyThread _ := none
  pending := []
  nextAddress := 0
  built := []
  sent := []

/-! ## Threads -/

/-- The thread that is registered and not expired. -/
def findThread (s : TwitchChannel) (id : QString) : Option Nat :=
  match s.threads id with
  | none => none
  | some thread => if (s.messageThreads thread).isSome then some thread else none

/-- `std::make_shared<MessageThread>`. -/
def makeThread (s : TwitchChannel) (rootMessage : Message) : TwitchChannel :=
  { s with
    messageThreads := Function.update s.messageThreads s.nextAddress
      (some ⟨rootMessage.id, rootMessage, []⟩)
    nextAddress := s.nextAddress + 1 }

def addReplyThread (s : TwitchChannel) (rootId : QString) (thread : Nat) : TwitchChannel :=
  { s with threads := Function.update s.threads rootId (some thread) }

/-- A new thread is registered at once. -/
def newThread (s : TwitchChannel) (rootMessage : Message) : TwitchChannel :=
  (s.makeThread rootMessage).addReplyThread rootMessage.id s.nextAddress

/-- A thread that was made since is destroyed. -/
def dropNew (s s' : TwitchChannel) : TwitchChannel :=
  { s' with messageThreads := s.messageThreads }

def addToThread (s : TwitchChannel) (thread message : Nat) : TwitchChannel :=
  { s with
    messageThreads := Function.update s.messageThreads thread
      ((s.messageThreads thread).map fun t => { t with replies := t.replies ++ [message] }) }

def liveCount (s : TwitchChannel) (thread : MessageThread) : Nat :=
  thread.replies.countP s.alive

/-- The overload that leaves out a message. -/
def liveCountExcept (s : TwitchChannel) (thread : MessageThread) (exclude : Nat) : Nat :=
  thread.replies.countP fun reply => s.alive reply && decide (reply ≠ exclude)

def cleanUpReplyThreads (s : TwitchChannel) : TwitchChannel :=
  { s with
    threads := fun id =>
      match s.threads id with
      | none => none
      | some address =>
        match s.messageThreads address with
        | none => none
        | some thread => if s.liveCount thread = 0 then none else some address }

/-! ## Messages -/

/-- `populateReply`, and its copy in `addMessage`, which has no messages that were loaded before. -/
def populateReply (s : TwitchChannel) (otherLoaded : List Message) :
    Option QString → TwitchChannel × Option Nat
  | none => (s, none)
  | some replyID =>
    match s.findThread replyID with
    | some thread => (s, some thread)
    | none =>
      match (otherLoaded.find? (·.id == replyID)).or (s.channel.findMessage replyID) with
      | none => (s, none)
      | some root => (s.newThread root, some s.nextAddress)

/-- `TwitchMessageBuilder::build`. -/
def build (s : TwitchChannel) (message : Message) (replyID : Option QString) (thread : Option Nat) :
    TwitchChannel × Message :=
  let message :=
    { message with
      addr := s.nextAddress
      flags := if thread.isSome then message.flags.set .replyMessage else message.flags }
  let s :=
    match thread with
    | none => s
    | some thread => s.addToThread thread message.addr
  ({ s with
      alive := Function.update s.alive message.addr true
      replyThread := Function.update s.replyThread message.addr thread
      nextAddress := s.nextAddress + 1
      built := s.built ++ [(message.addr, replyID)] }, message)

/-- A message that comes in, with its tag `reply-parent-msg-id`, and whether it is ignored. -/
structure Incoming where
  message : Message
  replyID : Option QString
  isIgnored : Bool

/-- Parses a message, which is not built if it is ignored. -/
def parse (s : TwitchChannel) (otherLoaded : List Message) (incoming : Incoming) :
    TwitchChannel × Option Message :=
  let r := s.populateReply otherLoaded incoming.replyID
  if incoming.isIgnored then (s.dropNew r.1, none)
  else
    let b := r.1.build incoming.message incoming.replyID r.2
    (b.1, some b.2)

/-- What is connected to `messageRemovedFromStart`. -/
def handle (s : TwitchChannel) : ChannelSignal → TwitchChannel
  | .messageRemovedFromStart msg =>
    match s.replyThread msg.addr with
    | none => s
    | some address =>
      match s.messageThreads address with
      | none => s
      | some thread =>
        if s.liveCountExcept thread msg.addr = 0 then
          { s with threads := Function.update s.threads thread.rootMessageId none }
        else s
  | _ => s

/-- `Channel::addMessage`. -/
def append (s : TwitchChannel) (message : Message) : Option TwitchChannel := do
  let (channel, signals) ← s.channel.addMessage message none
  some (signals.foldl handle { s with channel := channel })

/-- `IrcMessageHandler::addMessage`, and messages of the program itself. -/
def addMessage (s : TwitchChannel) (incoming : Incoming) : Option TwitchChannel :=
  match s.parse [] incoming with
  | (s, none) => some s
  | (s, some message) => s.append message

def addSystemMessage (s : TwitchChannel) : Option TwitchChannel :=
  s.addMessage ⟨Message.makeSystemMessage s.nextAddress, none, false⟩

/-- The loop of `buildRecentMessages`. -/
def buildLoop (s : TwitchChannel) (allBuiltMessages : List Message) :
    List Incoming → TwitchChannel × List Message
  | [] => (s, allBuiltMessages)
  | incoming :: rest =>
    let r := s.parse allBuiltMessages incoming
    buildLoop r.1 (allBuiltMessages ++ r.2.toList) rest

/-- The built messages are handed to the channel by an event. -/
def buildRecentMessages (s : TwitchChannel) (messages : List Incoming) : TwitchChannel :=
  let r := s.buildLoop [] messages
  { r.1 with pending := r.1.pending ++ [r.2] }

def addMessagesAtStart (s : TwitchChannel) (messages : List Message) : Option TwitchChannel := do
  let (channel, signals) ← s.channel.addMessagesAtStart messages
  some (signals.foldl handle { s with channel := channel, pending := s.pending.erase messages })

def fillInMissingMessages (s : TwitchChannel) (messages : List Message) : Option TwitchChannel := do
  let (channel, signals) ← s.channel.fillInMissingMessages messages
  some (signals.foldl handle { s with channel := channel, pending := s.pending.erase messages })

/-- `replaceMessage`, with a message that is made for it, as timeouts are. -/
def replaceMessage (s : TwitchChannel) (message replacement : Message) : Option TwitchChannel := do
  let r := s.build replacement none none
  let (channel, signals) ← r.1.channel.replaceMessage message r.2
  some (signals.foldl handle { r.1 with channel := channel })

/-! ## Replying -/

def stripChannelName (channelName : QString) : QString :=
  let channelName :=
    match channelName with
    | '@' :: rest => rest
    | '#' :: rest => rest
    | _ => channelName
  if channelName.getLast? = some ',' then channelName.dropLast else channelName

section

-- `compare(…, Qt::CaseInsensitive) == 0`
variable (equalsCaseInsensitive : QString → QString → Bool)

/-- The most recent message by the user that `/reply` names. -/
def replyTarget (s : TwitchChannel) (words : List QString) : Option Message :=
  s.channel.getMessageSnapshot.reverse.find? fun msg =>
    equalsCaseInsensitive msg.loginName (stripChannelName (words.getD 1 []))

/-- The command `/reply`. -/
def reply (s : TwitchChannel) (words : List QString) : Option TwitchChannel :=
  if words.length < 3 then s.addSystemMessage
  else
    match s.replyTarget equalsCaseInsensitive words with
    | none => s.addSystemMessage
    | some msg =>
      let text := List.intercalate [' '] (words.drop 2)
      match s.replyThread msg.addr with
      | none =>
        -- only the function itself holds the thread
        let s' := s.dropNew (s.newThread msg)
        some { s' with sent := s'.sent ++ [(text, msg.id)] }
      | some address =>
        match s.messageThreads address with
        | none => none
        | some thread => some { s with sent := s.sent ++ [(text, thread.rootMessageId)] }

end

/-- `ChannelView::setInputReply`. The input holds the thread. -/
def setInputReply (s : TwitchChannel) (message : Message) : TwitchChannel :=
  match s.replyThread message.addr with
  | some _ => s
  | none =>
    match s.findThread message.id with
    | some _ => s
    | none => s.newThread message

end TwitchChannel

/-! ## Runs -/

inductive Op
  | addMessage (incoming : TwitchChannel.Incoming)
  | buildRecentMessages (messages : List TwitchChannel.Incoming)
  | addMessagesAtStart (messages : List Message)
  | fillInMissingMessages (messages : List Message)
  | replaceMessage (message replacement : Message)
  | reply (words : List QString)
  | setInputReply (message : Message)
  | cleanUpReplyThreads
  | destroyMessage (address : Nat)
  | destroyThread (address : Nat)

namespace TwitchChannel

/-- The messages of the channel, and those that are on their way into it. -/
def held (s : TwitchChannel) : List Message := s.channel.messages.items ++ s.pending.flatten

end TwitchChannel

/-- An event of the channel. Nothing is destroyed that the channel, a message or a thread holds. -/
inductive Step (equalsCaseInsensitive : QString → QString → Bool) :
    TwitchChannel → Op → TwitchChannel → Prop
  | addMessage {s s' : TwitchChannel} {incoming : TwitchChannel.Incoming} :
      s.addMessage incoming = some s' → Step _ s (.addMessage incoming) s'
  | buildRecentMessages (s : TwitchChannel) (messages : List TwitchChannel.Incoming) :
      Step _ s (.buildRecentMessages messages) (s.buildRecentMessages messages)
  | addMessagesAtStart {s s' : TwitchChannel} {messages : List Message} : messages ∈ s.pending →
      s.addMessagesAtStart messages = some s' → Step _ s (.addMessagesAtStart messages) s'
  | fillInMissingMessages {s s' : TwitchChannel} {messages : List Message} : messages ∈ s.pending →
      s.fillInMissingMessages messages = some s' → Step _ s (.fillInMissingMessages messages) s'
  | replaceMessage {s s' : TwitchChannel} {message replacement : Message} :
      s.replaceMessage message replacement = some s' → Step _ s (.replaceMessage message replacement) s'
  | reply {s s' : TwitchChannel} {words : List QString} :
      s.reply equalsCaseInsensitive words = some s' → Step _ s (.reply words) s'
  | setInputReply {s : TwitchChannel} {message : Message} : s.alive message.addr = true →
      Step _ s (.setInputReply message) (s.setInputReply message)
  | cleanUpReplyThreads (s : TwitchChannel) : Step _ s .cleanUpReplyThreads s.cleanUpReplyThreads
  | destroyMessage {s : TwitchChannel} {address : Nat} : address ∉ s.held.map Message.addr →
      (∀ t thread, s.messageThreads t = some thread → thread.rootMessage.addr ≠ address) →
      Step _ s (.destroyMessage address) { s with alive := Function.update s.alive address false }
  | destroyThread {s : TwitchChannel} {address : Nat} :
      (∀ m, s.alive m = true → s.replyThread m ≠ some address) →
      Step _ s (.destroyThread address)
        { s with messageThreads := Function.update s.messageThreads address none }

end ReplyThreads

end Dankerino
