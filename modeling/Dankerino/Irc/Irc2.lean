import Dankerino.Infra.OrderedMap
import Dankerino.Infra.Run
import Dankerino.Qt.QString
import Mathlib.Data.List.Lex

/-!
# IRC servers and their channels

`Irc` of `providers/irc/Irc2.cpp` with the part of `AbstractIrcServer` that keeps the channels.
`Irc` has a server for each connection of the list. A server holds its channels weakly, so a channel
lives as long as something else refers to it. The channels of a server that is removed are kept in
`abandonedChannels_`, also weakly, for the next server of that id.
-/

namespace Dankerino

open Infra

/-- `AbstractIrcServer::cleanChannelName`. -/
def cleanChannelName : QString → QString
  | '#' :: name => name
  | name => name

namespace Irc

/-- The address of a server of the id, told apart from the other servers by a number. -/
structure ServerPtr where
  id : Int
  number : Nat
deriving DecidableEq

/-- What a server has connected to the signal `destroyed` of a channel. -/
structure DestroyedConnection where
  server : ServerPtr
  channelName : QString
deriving DecidableEq

/-- A channel object. -/
structure IrcChannel where
  /-- The object's address. -/
  number : Nat
  /-- The id that the channel was asked for with. -/
  serverId : Int
  name : QString
  server_ : Option ServerPtr
  destroyed : Option DestroyedConnection
deriving DecidableEq

structure IrcServer where
  ptr : ServerPtr
  /-- The channels by their names, as addresses that are not kept alive. -/
  channels : OrderedMap QString Nat := []
deriving DecidableEq

end Irc

open Irc

structure Irc where
  servers_ : OrderedMap Int IrcServer := []
  abandonedChannels_ : OrderedMap Int (List Nat) := []
  /-- The channel objects. -/
  live : List IrcChannel := []
  /-- The lines that were sent, with the id of the server. -/
  sent : List (Int × QString) := []
  /-- The number of the next object. -/
  next : Nat := 0

namespace Irc

/-- `weak_ptr::lock`. -/
def lock (live : List IrcChannel) (number : Nat) : Option IrcChannel :=
  live.find? (·.number == number)

/-- `setServer`, if the channel is one of those. -/
def IrcChannel.setServer (numbers : List Nat) (server : Option ServerPtr) (channel : IrcChannel) :
    IrcChannel :=
  if channel.number ∈ numbers then { channel with server_ := server } else channel

/-- The loop that calls `setServer` for each of the channels that is still there. -/
def setServers (numbers : List Nat) (server : Option ServerPtr) (live : List IrcChannel) :
    List IrcChannel :=
  live.map (IrcChannel.setServer numbers server)

/-! ## AbstractIrcServer -/

/-- `getChannels`. -/
def IrcServer.getChannels (server : IrcServer) : List Nat := server.channels.map Prod.snd

/-- `getChannelOrEmpty`. There are no custom channels on an `IrcServer`. -/
def IrcServer.getChannelOrEmpty (server : IrcServer) (live : List IrcChannel) (dirtyChannelName : QString) :
    Option IrcChannel :=
  (server.channels.find (cleanChannelName dirtyChannelName)).bind (lock live)

/-- The channels of the constructor `IrcServer(data, restoreChannels)`. -/
def restore (live : List IrcChannel) : List Nat → OrderedMap QString Nat → OrderedMap QString Nat
  | [], channels => channels
  | weak :: restoreChannels, channels =>
    match lock live weak with
    | some shared => restore live restoreChannels (channels.insert shared.name weak)
    | none => restore live restoreChannels channels

/-- `getOrAddChannel` of the server. -/
def serverGetOrAddChannel (server : IrcServer) (id : Int) (dirtyChannelName : QString) (s : Irc) : Irc :=
  let channelName := cleanChannelName dirtyChannelName
  match server.getChannelOrEmpty s.live channelName with
  | some _ => s
  | none =>
    let channel : IrcChannel :=
      { number := s.next, serverId := id, name := channelName, server_ := some server.ptr,
        destroyed := some ⟨server.ptr, channelName⟩ }
    { s with
      live := s.live ++ [channel]
      servers_ :=
        s.servers_.insert id { server with channels := server.channels.insert channelName s.next }
      next := s.next + 1 }

/-- The line with which a channel is left. -/
def partLine (channelName : QString) : QString :=
  if channelName.head? = some '$' then "PART ".toList ++ channelName.mid 1
  else "PART #".toList ++ channelName

/-- The lambda that is connected to `destroyed`. It is gone when its server is. -/
def onDestroyed (connection : DestroyedConnection) (s : Irc) : Irc :=
  match s.servers_.find connection.server.id with
  | none => s
  | some server =>
    if server.ptr ≠ connection.server then s
    else
      let s :=
        { s with
          servers_ := s.servers_.insert connection.server.id
            { server with channels := server.channels.erase connection.channelName } }
      if connection.channelName.length = 0 then s
      else { s with sent := s.sent ++ [(connection.server.id, partLine connection.channelName)] }

/-! ## Irc -/

/-- The slot of `connections.itemInserted`. -/
def itemInserted (id : Int) (s : Irc) : Irc :=
  match s.abandonedChannels_.find id with
  | some ab =>
    let ptr : ServerPtr := ⟨id, s.next⟩
    { s with
      servers_ := s.servers_.insert id { ptr, channels := restore s.live ab [] }
      abandonedChannels_ := s.abandonedChannels_.erase id
      live := setServers ab (some ptr) s.live
      next := s.next + 1 }
  | none => { s with servers_ := s.servers_.insert id { ptr := ⟨id, s.next⟩ }, next := s.next + 1 }

/-- The slot of `connections.itemRemoved`. -/
def itemRemoved (id : Int) (s : Irc) : Irc :=
  match s.servers_.find id with
  | some server =>
    let abandoned := server.getChannels
    { s with
      live := setServers abandoned none s.live
      abandonedChannels_ := s.abandonedChannels_.insert id abandoned
      servers_ := s.servers_.erase id }
  | none => s

/-- `getOrAddChannel`. -/
def getOrAddChannel (id : Int) (name : QString) (s : Irc) : Irc :=
  match s.servers_.find id with
  | some server => serverGetOrAddChannel server id name s
  | none =>
    let channel : IrcChannel :=
      { number := s.next, serverId := id, name, server_ := none, destroyed := none }
    { s with
      live := s.live ++ [channel]
      abandonedChannels_ :=
        s.abandonedChannels_.insert id ((s.abandonedChannels_.find id).getD [] ++ [s.next])
      next := s.next + 1 }

/-- The last reference to the channel is gone. -/
def destroy (channel : IrcChannel) (s : Irc) : Irc :=
  let s := { s with live := s.live.filter (·.number != channel.number) }
  match channel.destroyed with
  | some connection => onDestroyed connection s
  | none => s

/-! ## Runs -/

inductive Event where
  | insert (id : Int)
  | remove (id : Int)
  | getOrAddChannel (id : Int) (name : QString)
  | destroy (channel : IrcChannel)

/-- A connection is only inserted with an id that no server has, as `itemInserted` asserts. -/
inductive Step : Irc → Event → Irc → Prop
  | insert (s : Irc) (id : Int) (hfree : s.servers_.find id = none) :
      Step s (.insert id) (s.itemInserted id)
  | remove (s : Irc) (id : Int) : Step s (.remove id) (s.itemRemoved id)
  | getOrAddChannel (s : Irc) (id : Int) (name : QString) :
      Step s (.getOrAddChannel id name) (s.getOrAddChannel id name)
  | destroy (s : Irc) (channel : IrcChannel) (hlive : channel ∈ s.live) :
      Step s (.destroy channel) (s.destroy channel)

end Irc

end Dankerino
