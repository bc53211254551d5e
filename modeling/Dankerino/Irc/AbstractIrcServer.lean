import Dankerino.Irc.Irc2
import Dankerino.Util.RatelimitBucket

/-!
# Joining channels

`AbstractIrcServer` with its join bucket and the read connection. What the kinds of servers define
for themselves is in `Virtuals`. The lines are those that went out since the read connection was
made, each with the names that were in the map when `sendRaw` was called. What the library does with a line
for which there is no connection is left open: it may lose it, or keep it and send it once there is one.
-/

namespace Dankerino

open Infra

namespace AbstractIrcServer

/-- The functions that a server of either kind overrides. -/
structure Virtuals where
  cleanChannelName : QString → QString
  /-- Whether `getCustomChannel` gives a channel. -/
  getCustomChannel : QString → Bool
  /-- Whether `createChannel` gives a channel. -/
  createChannel : QString → Bool
  /-- The commands of the user that `onReadConnected` sends first. -/
  connectCommands : List QString

/-- Those of `IrcServer`. -/
def ircServer (connectCommands : List QString) : Virtuals where
  cleanChannelName := Dankerino.cleanChannelName
  getCustomChannel _ := false
  createChannel _ := true
  connectCommands := connectCommands

/-- Those of `TwitchIrcServer`. -/
def twitchIrcServer (toLower : QString → QString) : Virtuals where
  cleanChannelName dirtyChannelName := toLower (Dankerino.cleanChannelName dirtyChannelName)
  getCustomChannel channelName :=
    channelName ∈ ["/whispers".toList, "/mentions".toList, "/live".toList, "$$$".toList]
  createChannel _ := true
  connectCommands := []

/-- A channel object of `getOrAddChannel`. -/
structure Channel where
  /-- The object's address. -/
  number : Nat
  name : QString
deriving DecidableEq

structure Line where
  text : QString
  /-- The names in the map when `sendRaw` was called. -/
  channels : List QString
  /-- It is one of the commands of the user. -/
  isCommand : Bool := false
deriving DecidableEq

end AbstractIrcServer

structure AbstractIrcServer where
  /-- The channels by their names, as addresses that are not kept alive. -/
  channels : OrderedMap QString Nat := []
  joinBucket_ : RatelimitBucket
  /-- `readConnection_->isConnected()`. -/
  isConnected : Bool := false
  /-- The lines that went out on this connection. -/
  sent : List Dankerino.AbstractIrcServer.Line := []
  /-- The lines that the library keeps, for want of a connection. -/
  pending : List Dankerino.AbstractIrcServer.Line := []
  /-- The channel objects. -/
  live : List Dankerino.AbstractIrcServer.Channel := []
  /-- The number of the next object. -/
  next : Nat := 0

namespace AbstractIrcServer

/-- `JOIN_RATELIMIT_BUDGET` and `JOIN_RATELIMIT_COOLDOWN`. -/
def joinRatelimit : RatelimitBucket.Config := ⟨18, 12500⟩

def new : AbstractIrcServer where
  joinBucket_ := RatelimitBucket.new joinRatelimit

def sendLine (line : Line) (s : AbstractIrcServer) : AbstractIrcServer :=
  if s.isConnected then { s with sent := s.sent ++ [line] } else { s with pending := s.pending ++ [line] }

def sendRaw (text : QString) (s : AbstractIrcServer) : AbstractIrcServer :=
  s.sendLine { text, channels := s.channels.keys }

/-- The line with which a channel is joined. -/
def joinLine (channelName : QString) : QString :=
  if channelName.head? = some '$' then "JOIN ".toList ++ channelName.mid 1
  else "JOIN #".toList ++ channelName

/-- The callback of the bucket. -/
def actuallyJoin (message : QString) (s : AbstractIrcServer) : AbstractIrcServer :=
  if message ∉ s.channels.keys then s
  else if message.length = 0 then s
  else s.sendRaw (joinLine message)

/-- Something is done with the bucket, which calls its callback. -/
def withBucket (f : RatelimitBucket → RatelimitBucket) (s : AbstractIrcServer) : AbstractIrcServer :=
  let bucket := f s.joinBucket_
  (bucket.executed.drop s.joinBucket_.executed.length).foldl (fun s call => s.actuallyJoin call.2)
    { s with joinBucket_ := bucket }

variable (qt : QTimer) (virtuals : Virtuals)

/-- `joinBucket_->send`. -/
def join (channelName : QString) (s : AbstractIrcServer) : AbstractIrcServer :=
  s.withBucket (RatelimitBucket.send qt joinRatelimit channelName)

/-- `weak_ptr::lock`. -/
def lock (live : List Channel) (number : Nat) : Option Channel :=
  live.find? (·.number == number)

/-- Whether `getChannelOrEmpty` gives a channel. -/
def getChannelOrEmpty (dirtyChannelName : QString) (s : AbstractIrcServer) : Bool :=
  let channelName := virtuals.cleanChannelName dirtyChannelName
  virtuals.getCustomChannel channelName ||
    ((s.channels.find channelName).bind (lock s.live)).isSome

def getOrAddChannel (dirtyChannelName : QString) (s : AbstractIrcServer) : AbstractIrcServer :=
  let channelName := virtuals.cleanChannelName dirtyChannelName
  if s.getChannelOrEmpty virtuals channelName then s
  else if ¬ virtuals.createChannel channelName then s
  else
    let s : AbstractIrcServer :=
      { s with
        channels := s.channels.insert channelName s.next
        live := s.live ++ [⟨s.next, channelName⟩]
        next := s.next + 1 }
    if s.isConnected then s.join qt channelName else s

/-- The lambda that is connected to the signal `destroyed` of a channel. -/
def onDestroyed (channelName : QString) (s : AbstractIrcServer) : AbstractIrcServer :=
  let s := { s with channels := s.channels.erase channelName }
  if channelName.length = 0 then s else s.sendRaw (Irc.partLine channelName)

/-- The last reference to the channel is gone. -/
def destroy (channel : Channel) (s : AbstractIrcServer) : AbstractIrcServer :=
  onDestroyed channel.name { s with live := s.live.filter (·.number != channel.number) }

/-- The loop of `onReadConnected` over the channels of the map. -/
def joinAll : List (QString × Nat) → AbstractIrcServer → AbstractIrcServer
  | [], s => s
  | weak :: channels, s =>
    match lock s.live weak.2 with
    | some channel => joinAll channels (s.join qt channel.name)
    | none => joinAll channels s

/-- The loop of `IrcServer::onReadConnected`. -/
def sendCommands (s : AbstractIrcServer) : AbstractIrcServer :=
  virtuals.connectCommands.foldl
    (fun s command => s.sendLine ⟨command ++ ['\r', '\n'], s.channels.keys, true⟩) s

/-- `onReadConnected`. -/
def onReadConnected (s : AbstractIrcServer) : AbstractIrcServer :=
  joinAll qt s.channels (sendCommands virtuals s)

/-- The connection is made. The library sends some of the lines that it kept before it says so. -/
def connected (early : Nat) (s : AbstractIrcServer) : AbstractIrcServer :=
  onReadConnected qt virtuals
    { s with isConnected := true, sent := s.pending.take early, pending := s.pending.drop early }

def disconnected (s : AbstractIrcServer) : AbstractIrcServer :=
  { s with isConnected := false, sent := [] }

/-! ## Runs -/

inductive Event where
  | getOrAddChannel (dirtyChannelName : QString)
  | destroy (channel : Channel)
  | connected (early : Nat)
  | disconnected
  /-- The library sends the first of the lines that it kept. -/
  | pendingSent
  /-- The library loses one of the lines that it kept. -/
  | pendingLost (i : Nat)
  /-- A timer of the bucket fires. -/
  | joinTimeout (i : Nat)
  | tick (n : Nat)

inductive Step : AbstractIrcServer → Event → AbstractIrcServer → Prop
  | getOrAddChannel (s : AbstractIrcServer) (dirtyChannelName : QString) :
    Step s (.getOrAddChannel dirtyChannelName) (s.getOrAddChannel qt virtuals dirtyChannelName)
  | destroy (s : AbstractIrcServer) {channel : Channel} (hlive : channel ∈ s.live) :
    Step s (.destroy channel) (s.destroy channel)
  | connected (s : AbstractIrcServer) (early : Nat) : Step s (.connected early) (s.connected qt virtuals early)
  | disconnected (s : AbstractIrcServer) : Step s .disconnected s.disconnected
  | pendingSent (s : AbstractIrcServer) {line : Line} {rest : List Line} (hpending : s.pending = line :: rest) :
    s.isConnected → Step s .pendingSent { s with sent := s.sent ++ [line], pending := rest }
  | pendingLost (s : AbstractIrcServer) (i : Nat) :
    Step s (.pendingLost i) { s with pending := s.pending.eraseIdx i }
  | joinTimeout (s : AbstractIrcServer) {i : Nat} (hi : i < s.joinBucket_.timers.length) :
    s.joinBucket_.timers[i] ≤ s.joinBucket_.now →
      Step s (.joinTimeout i) (s.withBucket (RatelimitBucket.timeout qt joinRatelimit i))
  | tick (s : AbstractIrcServer) (n : Nat) :
    Step s (.tick n) { s with joinBucket_ := { s.joinBucket_ with now := s.joinBucket_.now + n } }

end AbstractIrcServer

end Dankerino
