import Dankerino.Messages.Message
import Mathlib.Algebra.Order.Ring.Int

/-!
# Message layouts

`MessageLayoutContainer` of `messages/layouts`: the elements of a message, which are put into lines
from left to right, and how a selection of them is painted. Numbers have no bound, and products with
the scale, a `float`, are given by their values. `none` stands for an access that is out of range.
-/

namespace Dankerino

/-! ## Rectangles -/

/-- A `QRect`, by its edges, which are inside. -/
structure QRect where
  left : Int
  top : Int
  right : Int
  bottom : Int
deriving DecidableEq, Repr

namespace QRect

/-- `QRect(x, y, width, height)`. -/
def ofSize (x y width height : Int) : QRect where
  left := x
  top := y
  right := x + width - 1
  bottom := y + height - 1

def width (rect : QRect) : Int := rect.right - rect.left + 1

def height (rect : QRect) : Int := rect.bottom - rect.top + 1

def moveTopLeft (rect : QRect) (x y : Int) : QRect := ofSize x y rect.width rect.height

@[simp] theorem width_ofSize (x y width height : Int) : (ofSize x y width height).width = width := by
  simp only [ofSize, QRect.width]
  omega

@[simp] theorem width_moveTopLeft (rect : QRect) (x y : Int) : (rect.moveTopLeft x y).width = rect.width :=
  width_ofSize x y rect.width rect.height

end QRect

/-! ## Elements -/

/-- An element of a line, with what its creator's flags say. -/
structure MessageLayoutElement where
  rect : QRect
  line : Int
  trailingSpace : Bool
  zeroWidthEmote : Bool
  emoteImages : Bool
  channelPointReward : Bool
  twitchEmoteImage : Bool
  getSelectionIndexCount : Int
  /-- `getXFromIndex` is counted from the left edge. -/
  xFromIndex : Int → Int

namespace MessageLayoutElement

def setPosition (element : MessageLayoutElement) (x y : Int) : MessageLayoutElement :=
  { element with rect := element.rect.moveTopLeft x y }

def getXFromIndex (element : MessageLayoutElement) (index : Int) : Int :=
  element.rect.left + element.xFromIndex index

end MessageLayoutElement

/-! ## The container -/

/-- The settings that are read. -/
structure LayoutSettings where
  compactEmotes : Bool
  removeSpacesBetweenEmotes : Bool
  collpseMessagesMinLines : Int

/-- The margins and offsets times the scale, and the sizes of texts. -/
structure LayoutMetrics where
  marginTop : Int
  marginRight : Int
  marginBottom : Int
  marginLeft : Int
  /-- A height without the offset of compact emotes. -/
  compactHeight : Int → Int
  compactExtra : Int
  textLineHeight : Int
  spaceWidth : Int
  dotdotdotWidth : Int

/-- A line: the elements from `startIndex` to before `endIndex`. -/
structure Line where
  startIndex : Nat
  endIndex : Nat
  startCharIndex : Int
  endCharIndex : Int
  rect : QRect

structure MessageLayoutContainer where
  width : Int
  metrics : LayoutMetrics
  flags : MessageFlags
  line : Int
  height : Int
  currentX : Int
  currentY : Int
  charIndex : Int
  lineStart : Nat
  lineHeight : Int
  canAddMessages : Bool
  isCollapsed : Bool
  elements : List MessageLayoutElement
  lines : List Line

namespace MessageLayoutContainer

def clear (c : MessageLayoutContainer) : MessageLayoutContainer :=
  { c with
    elements := [], lines := [], height := 0, line := 0, currentX := 0, currentY := 0, lineStart := 0
    lineHeight := 0, charIndex := 0 }

def begin (c : MessageLayoutContainer) (width : Int) (metrics : LayoutMetrics) (flags : MessageFlags) :
    MessageLayoutContainer :=
  { c.clear with width, metrics, flags, canAddMessages := true, isCollapsed := false }

def canAddElements (c : MessageLayoutContainer) : Bool := c.canAddMessages

def atStartOfLine (c : MessageLayoutContainer) : Bool := decide (c.lineStart = c.elements.length)

section

variable (settings : LayoutSettings)

def canCollapse (c : MessageLayoutContainer) : Bool :=
  decide (0 < settings.collpseMessagesMinLines) && c.flags.has .collapsed

def fitsInLine (c : MessageLayoutContainer) (width : Int) : Bool :=
  decide (c.currentX + width ≤ c.width - c.metrics.marginLeft - c.metrics.marginRight -
    (if c.line + 1 = settings.collpseMessagesMinLines then c.metrics.dotdotdotWidth else 0))

def isCompactEmote (c : MessageLayoutContainer) (element : MessageLayoutElement) : Bool :=
  settings.compactEmotes && !c.flags.has .disableCompactEmotes && element.emoteImages

/-- The lambda in `_addElement`. -/
def shouldRemoveSpaceBetweenEmotes (c : MessageLayoutContainer) : Bool :=
  match c.elements.getLast? with
  | none => false
  | some lastElement =>
    if !lastElement.trailingSpace then false
    else if lastElement.line ≠ c.line then false
    else lastElement.emoteImages

/-- `_addElement`. -/
def addElementAnyway (c : MessageLayoutContainer) (element : MessageLayoutElement) :
    MessageLayoutContainer :=
  let currentY := if c.elements.length = 0 then c.metrics.marginTop else c.currentY
  let newLineHeight :=
    if c.isCompactEmote settings element then c.metrics.compactHeight element.rect.height
    else element.rect.height
  let xOffset := if element.zeroWidthEmote then -(element.rect.width + c.metrics.spaceWidth) else 0
  let yOffset :=
    if element.channelPointReward && !element.twitchEmoteImage then -c.metrics.marginTop else 0
  let currentX :=
    if settings.removeSpacesBetweenEmotes && element.emoteImages && !element.zeroWidthEmote &&
        c.shouldRemoveSpaceBetweenEmotes then
      c.currentX - c.metrics.spaceWidth
    else c.currentX
  let element :=
    { element.setPosition (currentX + xOffset) (currentY - element.rect.height + yOffset) with
      line := c.line }
  { c with
    currentY := currentY
    lineHeight := max c.lineHeight newLineHeight
    elements := c.elements ++ [element]
    currentX := currentX + (if element.zeroWidthEmote then 0 else element.rect.width) +
      (if element.trailingSpace then c.metrics.spaceWidth else 0) }

theorem currentX_addElementAnyway (h : settings.removeSpacesBetweenEmotes = false)
    (c : MessageLayoutContainer) (element : MessageLayoutElement) :
    (c.addElementAnyway settings element).currentX
      = c.currentX + (if element.zeroWidthEmote then 0 else element.rect.width) +
        (if element.trailingSpace then c.metrics.spaceWidth else 0) := by
  simp [addElementAnyway, h, MessageLayoutElement.setPosition]

def addElementNoLineBreak (c : MessageLayoutContainer) (element : MessageLayoutElement) :
    MessageLayoutContainer :=
  if c.canAddElements then c.addElementAnyway settings element else c

/-- The loop of `breakLine` that moves the elements of the line. -/
def moveElement (c : MessageLayoutContainer) (xOffset : Int) (element : MessageLayoutElement) :
    MessageLayoutElement :=
  let yExtra := if c.isCompactEmote settings element then c.metrics.compactExtra else 0
  element.setPosition (element.rect.left + xOffset + c.metrics.marginLeft)
    (element.rect.top + c.lineHeight + yExtra)

def modifyLast (f : Line → Line) : List Line → List Line
  | [] => []
  | [line] => [f line]
  | line :: lines => line :: modifyLast f lines

/-- The end of the last line is only known at the next break. -/
def endLastLine (endIndex : Nat) (endCharIndex : Int) (lines : List Line) : List Line :=
  modifyLast (fun line => { line with endIndex, endCharIndex }) lines

/-- `xOffset` of `breakLine`. -/
def xOffset (c : MessageLayoutContainer) : Int :=
  match c.elements.getLast? with
  | none => 0
  | some element =>
    if c.flags.has .centered then
      Int.tdiv (c.width - (c.metrics.marginLeft + c.metrics.marginRight) - element.rect.right) 2
    else 0

def breakLine (c : MessageLayoutContainer) : MessageLayoutContainer :=
  let elements :=
    c.elements.take c.lineStart ++ (c.elements.drop c.lineStart).map (c.moveElement settings c.xOffset)
  let line : Line :=
    { startIndex := c.lineStart
      endIndex := 0
      startCharIndex := c.charIndex
      endCharIndex := 0
      rect := QRect.ofSize (-100000) c.currentY 200000 c.lineHeight }
  let c :=
    { c with
      elements := elements
      lines := endLastLine c.lineStart c.charIndex c.lines ++ [line]
      charIndex := c.charIndex +
        ((elements.drop c.lineStart).map MessageLayoutElement.getSelectionIndexCount).sum
      lineStart := elements.length }
  if c.canCollapse settings && decide (settings.collpseMessagesMinLines ≤ c.line + 1) then
    { c with canAddMessages := false }
  else
    { c with
      currentX := 0
      currentY := c.currentY + c.lineHeight
      height := c.currentY + c.lineHeight + c.metrics.marginBottom
      lineHeight := 0
      line := c.line + 1 }

def addElement (c : MessageLayoutContainer) (element : MessageLayoutElement) :
    MessageLayoutContainer :=
  let c :=
    if !element.zeroWidthEmote && !c.fitsInLine settings element.rect.width then c.breakLine settings
    else c
  c.addElementNoLineBreak settings element

/-- The element that `end` adds to a message that is cut off. -/
def dotdotdot (c : MessageLayoutContainer) (xFromIndex : Int → Int) : MessageLayoutElement where
  rect := QRect.ofSize 0 0 c.metrics.dotdotdotWidth c.metrics.textLineHeight
  line := 0
  trailingSpace := true
  zeroWidthEmote := false
  emoteImages := false
  channelPointReward := false
  twitchEmoteImage := false
  getSelectionIndexCount := 4
  xFromIndex := xFromIndex

/-- The first and the last line reach beyond the message. -/
def extendLines (lines : List Line) : List Line :=
  let lines := lines.modifyHead fun line => { line with rect := { line.rect with top := -100000 } }
  modifyLast (fun line => { line with rect := { line.rect with bottom := 100000 } }) lines

/-- The first part of `end`. -/
def addDotdotdot (c : MessageLayoutContainer) (xFromIndex : Int → Int) : MessageLayoutContainer :=
  if !c.canAddElements then
    { c.addElementAnyway settings (c.dotdotdot xFromIndex) with isCollapsed := true }
  else c

def breakRest (c : MessageLayoutContainer) : MessageLayoutContainer :=
  if !c.atStartOfLine then c.breakLine settings else c

/-- `end`. -/
def finish (c : MessageLayoutContainer) (xFromIndex : Int → Int) : MessageLayoutContainer :=
  let c := (c.addDotdotdot settings xFromIndex).breakRest settings
  { c with
    height := c.height + c.lineHeight
    lines := endLastLine c.elements.length c.charIndex (extendLines c.lines) }

end

/-! ## Painting a selection -/

/-- `elements_[i]`. -/
def elementAt (c : MessageLayoutContainer) (i : Int) : Option MessageLayoutElement :=
  if 0 ≤ i then c.elements[i.toNat]? else none

/-- The rectangle that is filled for a line. -/
def lineRect (c : MessageLayoutContainer) (yOffset : Int) (line : Line) (left right : Int) : QRect where
  left := left
  top := max 0 line.rect.top + yOffset
  right := right
  bottom := min c.height line.rect.bottom + yOffset

def wholeLineRect (c : MessageLayoutContainer) (yOffset : Int) (line : Line) : Option QRect := do
  let first ← c.elementAt line.startIndex
  let last ← c.elementAt (line.endIndex - 1)
  some (c.lineRect yOffset line first.rect.left last.rect.right)

/--
The loops over the elements of a line: the place of the character in the first element that reaches
beyond it, if there is one. `n` elements are left from `i` on.
-/
def xLoop (c : MessageLayoutContainer) (charIndex : Int) : Nat → Nat → Int → Option (Option Int)
  | 0, _, _ => some none
  | n + 1, i, index => do
    let element ← c.elementAt i
    if index + element.getSelectionIndexCount > charIndex then
      some (some (element.getXFromIndex (charIndex - index)))
    else xLoop c charIndex n (i + 1) (index + element.getSelectionIndexCount)

def xInLine (c : MessageLayoutContainer) (line : Line) (charIndex : Int) : Option (Option Int) :=
  c.xLoop charIndex (line.endIndex - line.startIndex) line.startIndex line.startCharIndex

structure SelectionItem where
  messageIndex : Int
  charIndex : Int

structure Selection where
  selectionMin : SelectionItem
  selectionMax : SelectionItem

/--
The first loop, over the lines up to the one where the selection starts: the rectangles, and the lines
that are left, or `none` if the function returns.
-/
def startLoop (c : MessageLayoutContainer) (messageIndex : Int) (selection : Selection) (yOffset : Int) :
    List Line → Option (List QRect × Option (List Line))
  | [] => some ([], some [])
  | line :: lines => do
    let first ← c.elementAt line.startIndex
    let last ← c.elementAt (line.endIndex - 1)
    if line.endCharIndex ≤ selection.selectionMin.charIndex then
      startLoop c messageIndex selection yOffset lines
    else
      match ← c.xInLine line selection.selectionMin.charIndex with
      | none =>
        let r ← startLoop c messageIndex selection yOffset lines
        some (c.lineRect yOffset line first.rect.left last.rect.right :: r.1, r.2)
      | some x =>
        if selection.selectionMax.messageIndex ≠ messageIndex then
          let rects ← lines.mapM (c.wholeLineRect yOffset)
          some (rects ++ [c.lineRect yOffset line x last.rect.right], none)
        else if line.endCharIndex > selection.selectionMax.charIndex then
          let right ← c.xInLine line selection.selectionMax.charIndex
          some ([c.lineRect yOffset line x (right.getD last.rect.right)], none)
        else some ([c.lineRect yOffset line x last.rect.right], some lines)

/-- The second loop, up to the line where the selection ends. -/
def endLoop (c : MessageLayoutContainer) (selection : Selection) (yOffset : Int) :
    List Line → Option (List QRect)
  | [] => some []
  | line :: lines =>
    if line.endCharIndex < selection.selectionMax.charIndex then do
      let rect ← c.wholeLineRect yOffset line
      let rects ← endLoop c selection yOffset lines
      some (rect :: rects)
    else do
      let last ← c.elementAt (line.endIndex - 1)
      let right ← c.xInLine line selection.selectionMax.charIndex
      let first ← c.elementAt line.startIndex
      some [c.lineRect yOffset line first.rect.left (right.getD last.rect.right)]

/-- `paintSelection`: the rectangles that are filled. -/
def paintSelection (c : MessageLayoutContainer) (messageIndex : Int) (selection : Selection)
    (yOffset : Int) : Option (List QRect) :=
  if selection.selectionMin.messageIndex > messageIndex ||
      selection.selectionMax.messageIndex < messageIndex then some []
  else if selection.selectionMin.messageIndex < messageIndex &&
      selection.selectionMax.messageIndex > messageIndex then
    c.lines.mapM (c.wholeLineRect yOffset)
  else if selection.selectionMin.messageIndex = messageIndex then do
    let r ← c.startLoop messageIndex selection yOffset c.lines
    match r.2 with
    | none => some r.1
    | some lines =>
      let rects ← c.endLoop selection yOffset lines
      some (r.1 ++ rects)
  else c.endLoop selection yOffset c.lines

end MessageLayoutContainer

end Dankerino
