import Dankerino.Emoji.Emojis
import Dankerino.Messages.MessageLayoutContainer

/-!
# Message elements

`TextElement` and `SingleLineTextElement` of `messages/MessageElement.hpp`, which put their words into a
container. A container that is cut off takes no more of the layout elements that it is given, so the
functions also return what they give it. Sizes of images are given with the scales applied.
-/

namespace Dankerino

/-! ## Flags -/

/-- `FlagsEnum<MessageElementFlag>`. -/
abbrev MessageElementFlags := BitVec 64

namespace MessageElementFlags

def hasAny (flags others : MessageElementFlags) : Bool := flags &&& others != 0

def has (flags flag : MessageElementFlags) : Bool := flags &&& flag != 0

end MessageElementFlags

namespace MessageElementFlag

def bit (n : Nat) : MessageElementFlags := 1 <<< n

def text : MessageElementFlags := bit 1
def username : MessageElementFlags := bit 2
def timestamp : MessageElementFlags := bit 3
def twitchEmoteImage : MessageElementFlags := bit 4
def bttvEmoteImage : MessageElementFlags := bit 6
def channelPointReward : MessageElementFlags := bit 8
def ffzEmoteImage : MessageElementFlags := bit 9
def seventvEmoteImage : MessageElementFlags := bit 35

def emoteImages : MessageElementFlags :=
  twitchEmoteImage ||| bttvEmoteImage ||| ffzEmoteImage ||| seventvEmoteImage

def badgeGlobalAuthority : MessageElementFlags := bit 13
def badgeChannelAuthority : MessageElementFlags := bit 15
def badgePredictions : MessageElementFlags := bit 14
def badgeSubscription : MessageElementFlags := bit 16
def badgeVanity : MessageElementFlags := bit 17
def badgeChatterino : MessageElementFlags := bit 18
def badgeSeventv : MessageElementFlags := bit 40
def badgeFfz : MessageElementFlags := bit 19
def badgeDankerino : MessageElementFlags := bit 34

def badges : MessageElementFlags :=
  badgeGlobalAuthority ||| badgePredictions ||| badgeChannelAuthority ||| badgeSubscription |||
    badgeVanity ||| badgeChatterino ||| badgeFfz ||| badgeDankerino ||| badgeSeventv

def zeroWidthEmote : MessageElementFlags := bit 31
def repliedMessage : MessageElementFlags := bit 32

end MessageElementFlag

/-! ## Layout elements -/

/-- A `QFontMetrics`. -/
structure FontMetrics where
  horizontalAdvance : Units → Int
  /-- of a `QChar` -/
  horizontalAdvanceChar : Nat → Int
  height : Int

/-- The text, width and trailing space of a `TextLayoutElement`. -/
structure TextPiece where
  text : Units
  width : Int
  trailingSpace : Bool
deriving DecidableEq, Repr

/-- What the flags of the creator say of an element. -/
def layoutElement (flags : MessageElementFlags) (width height : Int) (trailingSpace : Bool)
    (getSelectionIndexCount : Int) (xFromIndex : Int → Int) : MessageLayoutElement where
  rect := QRect.ofSize 0 0 width height
  line := 0
  trailingSpace := trailingSpace
  zeroWidthEmote := flags.has MessageElementFlag.zeroWidthEmote
  emoteImages := flags.has MessageElementFlag.emoteImages
  channelPointReward := flags.has MessageElementFlag.channelPointReward
  twitchEmoteImage := flags.has MessageElementFlag.twitchEmoteImage
  getSelectionIndexCount := getSelectionIndexCount
  xFromIndex := xFromIndex

/-- The lambda `getTextLayoutElement`. -/
def getTextLayoutElement (metrics : FontMetrics) (flags : MessageElementFlags) (piece : TextPiece) :
    MessageLayoutElement :=
  layoutElement flags piece.width metrics.height piece.trailingSpace
    (piece.text.length + if piece.trailingSpace then 1 else 0)
    fun index =>
      if index ≤ 0 then 0
      else if index < piece.text.length then
        ((piece.text.take index.toNat).map metrics.horizontalAdvanceChar).sum
      else piece.width - 1

/-- `ImageLayoutElement`. -/
def imageLayoutElement (flags : MessageElementFlags) (width height : Int) (trailingSpace : Bool) :
    MessageLayoutElement :=
  layoutElement flags width height trailingSpace (if trailingSpace then 2 else 1)
    fun index => if index ≤ 0 then 0 else width - 1

/-! ## Text -/

/-- A `TextElement`. `words` are the parts of the text between blanks. -/
structure TextElement where
  flags : MessageElementFlags
  words : List Units
  trailingSpace : Bool

namespace TextElement

variable (settings : LayoutSettings) (metrics : FontMetrics) (element : TextElement)

def addPiece (c : MessageLayoutContainer) (piece : TextPiece) : MessageLayoutContainer :=
  c.addElementNoLineBreak settings (getTextLayoutElement metrics element.flags piece)

/-- Whether the unit is taken together with the next one. -/
def isSurrogate (text : Units) (i : Nat) : Bool :=
  decide (text.length > i + 1) && (text[i]?).any isHighSurrogate

/-- Where the loop goes on. -/
def nextIndex (text : Units) (i : Nat) : Nat := if isSurrogate text i then i + 2 else i + 1

theorem lt_nextIndex (text : Units) (i : Nat) : i < nextIndex text i := by
  unfold nextIndex
  split <;> omega

/-- The width of one or two units. -/
def charWidth (text : Units) (i : Nat) : Int :=
  if isSurrogate text i then metrics.horizontalAdvance (text.mid i 2)
  else metrics.horizontalAdvanceChar (text.getD i 0)

/-- The loop that wraps a word that is too wide for a line. -/
def wrapLoop (text : Units) (c : MessageLayoutContainer) (wordStart i : Nat) (width : Int) :
    MessageLayoutContainer × List TextPiece :=
  if i < text.length then
    if !c.fitsInLine settings (width + charWidth metrics text i) then
      let piece : TextPiece := ⟨text.mid wordStart (i - wordStart), width, false⟩
      let c := (addPiece settings metrics element c piece).breakLine settings
      let rest := wrapLoop text c i (nextIndex text i) (charWidth metrics text i)
      (rest.1, piece :: rest.2)
    else wrapLoop text c wordStart (nextIndex text i) (width + charWidth metrics text i)
  else
    -- the final piece
    let piece : TextPiece := ⟨text.mid wordStart (-1), width, element.trailingSpace⟩
    (addPiece settings metrics element c piece, [piece])
termination_by text.length - i
decreasing_by all_goals have := lt_nextIndex text i; omega

/-- One round of the loop over the words. -/
def addWord (c : MessageLayoutContainer) (word : Units) : MessageLayoutContainer × List TextPiece :=
  let width := metrics.horizontalAdvance word
  let piece : TextPiece := ⟨word, width, element.trailingSpace⟩
  if c.fitsInLine settings width then (addPiece settings metrics element c piece, [piece])
  else if c.atStartOfLine then wrapLoop settings metrics element word c 0 0 0
  else
    -- see if the text fits in the next line
    let c := c.breakLine settings
    if c.fitsInLine settings width then (addPiece settings metrics element c piece, [piece])
    else wrapLoop settings metrics element word c 0 0 0

/-- The container, and the pieces of each word. -/
def addWords : MessageLayoutContainer → List Units → MessageLayoutContainer × List (List TextPiece)
  | c, [] => (c, [])
  | c, word :: words =>
    let added := addWord settings metrics element c word
    let rest := addWords added.1 words
    (rest.1, added.2 :: rest.2)

def addToContainer (c : MessageLayoutContainer) (flags : MessageElementFlags) :
    MessageLayoutContainer × List (List TextPiece) :=
  if flags.hasAny element.flags then addWords settings metrics element c element.words else (c, [])

end TextElement

/-! ## A single line -/

/-- A `SingleLineTextElement`. -/
structure SingleLineTextElement where
  flags : MessageElementFlags
  words : List Units
  trailingSpace : Bool

/-- What is put into the line. -/
inductive LineItem where
  | word (text : Units) (width : Int)
  | image (value : Units) (width height : Int)
  /-- what is left of a word, with the ellipsis -/
  | ellipsis (kept : Units) (width : Int)
deriving DecidableEq, Repr

/-- What the line is laid out with. -/
structure LineEnv where
  settings : LayoutSettings
  metrics : FontMetrics
  emojis : EmojiTable
  /-- The scaled size of the image of an emoji, or `none` if the image `isEmpty`. -/
  images : Units → Option (Int × Int)

namespace SingleLineTextElement

def ellipsis : Units := [0x2E, 0x2E, 0x2E]

variable (env : LineEnv) (element : SingleLineTextElement)

def layoutItem : LineItem → MessageLayoutElement
  | .word text width => getTextLayoutElement env.metrics element.flags ⟨text, width, element.trailingSpace⟩
  | .image _ width height => imageLayoutElement element.flags width height element.trailingSpace
  | .ellipsis kept width =>
    getTextLayoutElement env.metrics element.flags ⟨kept ++ ellipsis, width, false⟩

def addItem (c : MessageLayoutContainer) (item : LineItem) : MessageLayoutContainer :=
  c.addElementNoLineBreak env.settings (layoutItem env element item)

/-- The word without its last units, with the ellipsis. -/
def truncatedWord (word : Units) (cut : Nat) : LineItem :=
  let kept := word.take (word.length - cut)
  .ellipsis kept (env.metrics.horizontalAdvance (kept ++ ellipsis))

def onlyEllipsis : LineItem := .ellipsis [] (env.metrics.horizontalAdvance ellipsis)

/-- The word with as few units removed as needed, but not all of them. -/
def truncate (c : MessageLayoutContainer) (word : Units) : LineItem :=
  match (List.range' 1 (word.length - 1)).find? fun cut =>
      c.fitsInLine env.settings
        (env.metrics.horizontalAdvance (word.take (word.length - cut) ++ ellipsis)) with
  | some cut => truncatedWord env word cut
  | none => onlyEllipsis env

/-- The container, and the items of each word up to the one at which the loop breaks. -/
def addWords : MessageLayoutContainer → List Units → MessageLayoutContainer × List (List LineItem)
  | c, [] => (c, [])
  | c, word :: words =>
    match env.emojis.parse word with
    | [] =>
      let rest := addWords c words
      (rest.1, [] :: rest.2)
    | .emote value :: _ =>
      match env.images value with
      | none =>
        let rest := addWords c words
        (rest.1, [] :: rest.2)
      | some (width, height) =>
        if !c.fitsInLine env.settings width then
          (addItem env element c (onlyEllipsis env), [[onlyEllipsis env]])
        else
          let item : LineItem := .image value width height
          let rest := addWords (addItem env element c item) words
          (rest.1, [item] :: rest.2)
    | .text _ :: _ =>
      let width := env.metrics.horizontalAdvance word
      if c.fitsInLine env.settings width then
        let item : LineItem := .word word width
        let rest := addWords (addItem env element c item) words
        (rest.1, [item] :: rest.2)
      else
        let item := truncate env c word
        (addItem env element c item, [[item]])

def addToContainer (c : MessageLayoutContainer) (flags : MessageElementFlags) :
    MessageLayoutContainer × List (List LineItem) :=
  if flags.hasAny element.flags then
    let added := addWords env element c element.words
    (added.1.breakLine env.settings, added.2)
  else (c, [])

end SingleLineTextElement

end Dankerino
