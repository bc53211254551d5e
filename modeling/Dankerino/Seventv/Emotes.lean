import Dankerino.Qt.QString
import Mathlib.Data.List.AList

/-!
# 7TV emotes

`providers/seventv/SeventvEmotes.cpp` and `messages/Emote.cpp`: emotes are made from the JSON of the
API, through a cache of weak pointers that all channels share.

Images are shared by their URL, so an image is modelled by its URL. Its scale is left out: it does
not take part in comparisons. The two hash maps are association lists. Their order is the order
in which a loop over them goes, and nothing below depends on it.
-/

namespace Dankerino

/-- What is read of the JSON of an emote. -/
structure EmoteJson where
  id : QString
  name : QString
  ownerDisplayName : QString
  visibility : BitVec 64
deriving DecidableEq, Repr

structure Emote where
  name : QString
  /-- The URLs from the smallest image to the largest. -/
  images : List QString
  tooltip : QString
  homePage : QString
  zeroWidth : Bool
deriving DecidableEq, Repr

/-- `operator==`. It does not look at `zeroWidth`. -/
def Emote.same (a b : Emote) : Bool :=
  a.homePage == b.homePage && a.name == b.name && a.tooltip == b.tooltip && a.images == b.images

abbrev EmoteMap := AList fun _ : QString => Emote

/-- The entries whose weak pointer can be locked. -/
abbrev EmoteCache := AList fun _ : QString => Emote

/-- `cachedOrMakeEmotePtr`. -/
def cachedOrMakeEmotePtr (emote : Emote) (cache : EmoteCache) (id : QString) : Emote × EmoteCache :=
  match cache.lookup id with
  | some shared => if shared.same emote then (shared, cache) else (emote, cache.insert id emote)
  | none => (emote, cache.insert id emote)

namespace SeventvEmotes

/-! ## Making emotes -/

/-- `SeventvEmoteVisibilityFlag`. -/
def unlistedFlag : BitVec 64 := 1 <<< 2

def zeroWidthFlag : BitVec 64 := 1 <<< 7

/-- `FlagsEnum::has`. -/
def has (flags flag : BitVec 64) : Bool := flags &&& flag != 0

def emoteLink (id : QString) : QString := "https://7tv.app/emotes/".toList ++ id

def getEmoteLink (id emoteScale : QString) : QString :=
  "https://cdn.7tv.app/emote/".toList ++ id ++ "/".toList ++ emoteScale

def imageSet (id : QString) : List QString :=
  [getEmoteLink id "1x".toList, getEmoteLink id "2x".toList, getEmoteLink id "3x".toList,
    getEmoteLink id "4x".toList]

/-- `createEmote`. The id and the name of its result are those of the JSON. -/
def createEmote (jsonEmote : EmoteJson) (isGlobal : Bool) : Emote where
  name := jsonEmote.name
  images := imageSet jsonEmote.id
  tooltip := jsonEmote.name ++ "<br>".toList
    ++ (if isGlobal then "Global".toList else "Channel".toList) ++ " 7TV Emote<br>By: ".toList
    ++ jsonEmote.ownerDisplayName
  homePage := emoteLink jsonEmote.id
  zeroWidth := has jsonEmote.visibility zeroWidthFlag

def checkEmoteVisibility (showUnlistedEmotes : Bool) (emoteJson : EmoteJson) : Bool :=
  !has emoteJson.visibility unlistedFlag || showUnlistedEmotes

/-- The loop of `parseChannelEmotes`. -/
def parseChannelEmotesLoop (showUnlistedEmotes : Bool) :
    List EmoteJson → EmoteMap → EmoteCache → EmoteMap × EmoteCache
  | [], emotes, cache => (emotes, cache)
  | jsonEmote :: rest, emotes, cache =>
    if checkEmoteVisibility showUnlistedEmotes jsonEmote then
      let (ptr, cache') := cachedOrMakeEmotePtr (createEmote jsonEmote false) cache jsonEmote.id
      parseChannelEmotesLoop showUnlistedEmotes rest (emotes.insert jsonEmote.name ptr) cache'
    else parseChannelEmotesLoop showUnlistedEmotes rest emotes cache

def parseChannelEmotes (showUnlistedEmotes : Bool) (jsonEmotes : List EmoteJson)
    (cache : EmoteCache) : EmoteMap × EmoteCache :=
  parseChannelEmotesLoop showUnlistedEmotes jsonEmotes ∅ cache

/-! ## Live updates -/

/-- The emotes of a channel, and the cache of all channels. -/
structure State where
  map : EmoteMap
  cache : EmoteCache

/-- `findEmote`. The three steps are those of the source. -/
def findEmote (s : State) (emoteBaseName : QString) (emoteJson : EmoteJson) : Option Emote :=
  let right (found : Option Emote) := found.filter fun emote => emote.homePage.endsWith emoteJson.id
  (right (s.map.lookup emoteBaseName)).or
    ((right ((s.cache.lookup emoteJson.id).bind fun emote => s.map.lookup emote.name)).or
      ((s.map.entries.map Sigma.snd).find? fun value => value.homePage.endsWith emoteJson.id))

def addEmote (showUnlistedEmotes : Bool) (s : State) (emoteJson : EmoteJson) : Option Emote × State :=
  if checkEmoteVisibility showUnlistedEmotes emoteJson then
    let (ptr, cache) := cachedOrMakeEmotePtr (createEmote emoteJson false) s.cache emoteJson.id
    (some ptr, { map := s.map.insert emoteJson.name ptr, cache })
  else (none, s)

/-- `updateEmote`, with the emote and the base name that it gives back. -/
def updateEmote (s : State) (emoteBaseName : QString) (emoteJson : EmoteJson) :
    Option (Emote × QString) × State :=
  match findEmote s emoteBaseName emoteJson with
  | none => (none, s)
  | some foundEmote =>
    let (ptr, cache) := cachedOrMakeEmotePtr (createEmote emoteJson false) s.cache emoteJson.id
    (some (ptr, foundEmote.name),
      { map := (s.map.erase foundEmote.name).insert emoteJson.name ptr, cache })

def removeEmote (s : State) (emoteName : QString) : Bool × State :=
  match s.map.lookup emoteName with
  | none => (false, s)
  | some _ => (true, { s with map := s.map.erase emoteName })

end SeventvEmotes

end Dankerino
