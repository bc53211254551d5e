import Dankerino.Common.WindowDescriptors
import Dankerino.Infra.RoseTree
import Dankerino.Irc.Irc2
import Dankerino.Widgets.SplitNode
import Mathlib.Data.Finset.Sort

/-!
# Saving and restoring a tab

`encodeTab`, `encodeNodeRecursively`, `encodeChannel` and `decodeChannel` of
`singletons/WindowManager.cpp`, `applyFromDescriptor` of `SplitContainer`, and what `decodeChannel`
calls to get a channel. A channel is what tells it from others: its type, its name and its server.

None of these functions follows a pointer from one node to another, so a node here holds its split
itself. Selecting splits, the tab's title and the layout of the nodes are left out.
-/

namespace Dankerino

open Infra QJsonObject

/-! ## Channels -/

/-- The channels that a split of a container can show. -/
inductive SplitChannel
  /-- `Channel::getEmpty()` -/
  | empty
  | twitch (name : QString)
  | mentions
  | watching
  | whispers
  | live
  /-- An IRC channel, without a server if there is none with the id it was asked for. -/
  | irc (server : Option Int32) (name : QString)
  /-- `$$$`, the only one of type `Misc` -/
  | misc
deriving DecidableEq, Repr

/--
The lower case of characters, as `QString::toLower` uses it. The lower case of a lower case is
itself, and only `#` has a `#` in its lower case.
-/
structure LowerCase where
  lower : Char → QString
  idem : ∀ c, (lower c).flatMap lower = lower c
  hash : ∀ c, (lower c).count '#' = if c = '#' then 1 else 0

def LowerCase.toLower (lowerCase : LowerCase) (s : QString) : QString := s.flatMap lowerCase.lower

/-- What the program knows when it restores a tab. -/
structure App (QUuid : Type) where
  lowerCase : LowerCase
  /-- the Twitch channels that are there already -/
  twitchChannels : List QString
  /-- the IRC servers, each with its channels that are there already -/
  ircServers : Int32 → Option (List QString)
  /-- the ids of `filterRecords` -/
  filterRecords : List QUuid

section Channels

variable {QUuid : Type} (app : App QUuid)

/-- `TwitchIrcServer::cleanChannelName`. -/
def cleanTwitchName (name : QString) : QString := app.lowerCase.toLower (cleanChannelName name)

/-- `TwitchIrcServer::getCustomChannel`. -/
def getCustomChannel (channelName : QString) : Option SplitChannel :=
  if channelName = "/whispers".toList then some .whispers
  else if channelName = "/mentions".toList then some .mentions
  else if channelName = "/live".toList then some .live
  else if channelName = "$$$".toList then some .misc
  else none

/-- `getOrAddChannel` of the Twitch server. `getChannelOrEmpty` cleans the name once more. -/
def getOrAddTwitchChannel (dirtyChannelName : QString) : SplitChannel :=
  let channelName := cleanTwitchName app dirtyChannelName
  let cleaned := cleanTwitchName app channelName
  match getCustomChannel cleaned with
  | some channel => channel
  | none => if cleaned ∈ app.twitchChannels then .twitch cleaned else .twitch channelName

/-- `Irc::getOrAddChannel`. -/
def getOrAddIrcChannel (id : Int32) (name : QString) : SplitChannel :=
  match app.ircServers id with
  | some channels =>
    let channelName := cleanChannelName name
    let cleaned := cleanChannelName channelName
    if cleaned ∈ channels then .irc (some id) cleaned else .irc (some id) channelName
  | none => .irc none name

def decodeChannel (descriptor : SplitDescriptor QUuid) : SplitChannel :=
  if descriptor.type = "twitch".toList then getOrAddTwitchChannel app descriptor.channelName
  else if descriptor.type = "mentions".toList then .mentions
  else if descriptor.type = "watching".toList then .watching
  else if descriptor.type = "whispers".toList then .whispers
  else if descriptor.type = "live".toList then .live
  else if descriptor.type = "irc".toList then
    getOrAddIrcChannel app descriptor.server descriptor.channelName
  else .empty

end Channels

def encodeChannel : SplitChannel → QJsonObject
  | .twitch name =>
    let obj := insert [] "type" (.string "twitch".toList)
    insert obj "name" (.string name)
  | .mentions => insert [] "type" (.string "mentions".toList)
  | .watching => insert [] "type" (.string "watching".toList)
  | .whispers => insert [] "type" (.string "whispers".toList)
  | .live => insert [] "type" (.string "live".toList)
  | .irc server name =>
    let obj := insert [] "type" (.string "irc".toList)
    let obj :=
      match server with
      | some id => insert obj "server" (.ofInt id)
      | none => obj
    insert obj "channel" (.string name)
  | .empty => []
  | .misc => []

/-! ## Splits and nodes -/

/-- A split: its channel, the ids in its `FilterSet`, and the moderation mode. -/
structure SplitState (QUuid : Type) where
  channel : SplitChannel
  filters : Finset QUuid
  moderationMode : Bool

/-- The fields of a node but its children. -/
structure LayoutData (QUuid : Type) where
  type : NodeType
  split : Option (SplitState QUuid)
  flexH : Qreal
  flexV : Qreal

abbrev LayoutNode (QUuid : Type) := RoseTree (LayoutData QUuid)

/-! ## Saving -/

section Encode

variable {QUuid : Type} [LinearOrder QUuid] (format : UuidFormat QUuid)

/-- `Split::getFilters`. The keys of a `QMap` are in order. -/
def getFilters (filters : Finset QUuid) : List QUuid := filters.sort (· ≤ ·)

def encodeFilters (filters : Finset QUuid) : QJsonArray :=
  (getFilters filters).map fun f => .string (format.toString f)

/-- The keys that a split adds. -/
def encodeSplit (split : SplitState QUuid) : QJsonObject :=
  let obj := insert [] "type" (.string "split".toList)
  let obj := insert obj "moderationMode" (.bool split.moderationMode)
  let obj := insert obj "data" (.object (encodeChannel split.channel))
  insert obj "filters" (.array (encodeFilters format split.filters))

/-- The keys that every node adds. -/
def encodeFlex (d : LayoutData QUuid) (obj : QJsonObject) : QJsonObject :=
  insert (insert obj "flexh" (.double d.flexH)) "flexv" (.double d.flexV)

mutual

def encodeNodeRecursively : LayoutNode QUuid → Option QJsonObject
  | .node d children => do
    let obj ←
      match d.type with
      | .split => do
        let split ← d.split
        some (encodeSplit format split)
      | .horizontalContainer => do
        let itemsArr ← encodeChildren children
        let obj := insert [] "type" (.string "horizontal".toList)
        some (insert obj "items" (.array itemsArr))
      | .verticalContainer => do
        let itemsArr ← encodeChildren children
        let obj := insert [] "type" (.string "vertical".toList)
        some (insert obj "items" (.array itemsArr))
      | .emptyRoot => some []
    some (encodeFlex d obj)

/-- The loop over the children. -/
def encodeChildren : List (LayoutNode QUuid) → Option QJsonArray
  | [] => some []
  | n :: rest => do
    let subObj ← encodeNodeRecursively n
    let itemsArr ← encodeChildren rest
    some (.object subObj :: itemsArr)

end

/-- `encodeTab`. An empty title is no custom title. -/
def encodeTab (customTitle : QString) (isSelected highlightsEnabled : Bool)
    (baseNode : LayoutNode QUuid) : Option QJsonObject := do
  let obj : QJsonObject := []
  let obj := if customTitle = [] then obj else insert obj "title" (.string customTitle)
  let obj := if isSelected then insert obj "selected" (.bool true) else obj
  let obj := insert obj "highlightsEnabled" (.bool highlightsEnabled)
  let splits ← encodeNodeRecursively format baseNode
  some (insert obj "splits2" (.object splits))

end Encode

/-! ## Restoring -/

section Apply

variable {QUuid : Type} [DecidableEq QUuid] (app : App QUuid)

/-- The `FilterSet` of some ids has those of them that there is a record for. -/
def filterSet (filterIds : List QUuid) : Finset QUuid :=
  (app.filterRecords.filter fun id => decide (id ∈ filterIds)).toFinset

/-- A `new Split` with what the descriptor says. -/
def newSplit (descriptor : SplitDescriptor QUuid) : SplitState QUuid where
  channel := decodeChannel app descriptor
  filters := filterSet app descriptor.filters
  moderationMode := descriptor.moderationMode

def containerType (vertical : Bool) : NodeType :=
  if vertical then .verticalContainer else .horizontalContainer

mutual

/-- The node that `applyFromDescriptorRecursively` adds for an item of a container. -/
def applyItem : NodeDescriptor QUuid → LayoutNode QUuid
  | .split descriptor =>
    .node { type := .split, split := some (newSplit app descriptor.toSplitDescriptor),
            flexH := descriptor.flexH, flexV := descriptor.flexV } []
  | .container flexH flexV vertical items =>
    .node { type := containerType vertical, split := none, flexH, flexV } (applyItems items)

/-- The loop over the items. -/
def applyItems : List (NodeDescriptor QUuid) → List (LayoutNode QUuid)
  | [] => []
  | item :: items => applyItem item :: applyItems items

end

/--
`applyFromDescriptorRecursively` on the root. A split is appended to the container (`setSplit`, since
it is empty); a container adds its nodes to the children, of which there are none.
-/
def applyFromDescriptorRecursively (rootNode : NodeDescriptor QUuid) (node : LayoutData QUuid) :
    Option (LayoutNode QUuid) :=
  match rootNode with
  | .split descriptor =>
    if node.split.isNone then
      some (.node { node with type := .split, split := some (newSplit app descriptor.toSplitDescriptor) }
        [])
    else none
  | .container _ _ vertical items =>
    some (.node { node with type := containerType vertical } (applyItems app items))

/-- The `baseNode_` of a new container. -/
def newBaseNode : LayoutData QUuid :=
  { type := .emptyRoot, split := none, flexH := one, flexV := one }

/-- `applyFromDescriptor`. -/
def applyFromDescriptor (rootNode : NodeDescriptor QUuid) (baseNode : LayoutData QUuid) :
    Option (LayoutNode QUuid) :=
  if baseNode.type = .emptyRoot then applyFromDescriptorRecursively app rootNode baseNode else none

/-- What becomes of a new container when a tab is restored. -/
def applyTab (tab : TabDescriptor QUuid) : Option (LayoutNode QUuid) :=
  match tab.rootNode with
  | some rootNode => applyFromDescriptor app rootNode newBaseNode
  | none => some (.node newBaseNode [])

end Apply

end Dankerino
