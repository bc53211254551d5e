import Dankerino.Infra.Run
import Dankerino.Messages.LimitedQueue
import Dankerino.Widgets.ViewPauses

/-!
# Selecting messages in a view

The selection of a `ChannelView`: the mouse events that make it, and what appends, evictions, clears and
pauses do to it. `getSelectedText` copies the messages of a snapshot, which stays as it was while the
view is paused.

The view's list is not evicted together with the proxy `channel_`: `setChannel` and `clearMessages` leave
the two with different numbers of messages, and it is the proxy that signals `messageRemovedFromStart`.
A mouse event comes with the message that it hits. Of the mouse buttons the left one is modelled. The
nested event loop in `messageAppended` is left out.
-/

namespace Dankerino

open ViewPauses (PauseReason)

namespace SelectingView

/-- A `MessageLayout`. Layouts are told apart by the address of the object. -/
structure Layout where
  addr : Nat
  firstMessageCharacterIndex : Int
  lastCharacterIndex : Int
deriving DecidableEq

/-! ## Selections -/

structure SelectionItem where
  messageIndex : Int := 0
  charIndex : Int := 0
  /-- The address of the layout that the item was made for, which is not in the source. -/
  layout : Option Nat := none
deriving DecidableEq

namespace SelectionItem

def less (a b : SelectionItem) : Bool :=
  a.messageIndex < b.messageIndex || (a.messageIndex = b.messageIndex && a.charIndex < b.charIndex)

def equal (a b : SelectionItem) : Bool := a.messageIndex = b.messageIndex && a.charIndex = b.charIndex

def greater (a b : SelectionItem) : Bool := !a.equal b && b.less a

/-- `operator!=`, which is written as the equality. -/
def notEqual (a b : SelectionItem) : Bool := a.equal b

def moveDown (n : Int) (a : SelectionItem) : SelectionItem := { a with messageIndex := a.messageIndex - n }

end SelectionItem

structure Selection where
  start : SelectionItem := {}
  end_ : SelectionItem := {}
  selectionMin : SelectionItem := {}
  selectionMax : SelectionItem := {}
deriving DecidableEq

namespace Selection

def new (start end_ : SelectionItem) : Selection :=
  if start.greater end_ then { start, end_, selectionMin := end_, selectionMax := start }
  else { start, end_, selectionMin := start, selectionMax := end_ }

def isEmpty (selection : Selection) : Bool := selection.start.equal selection.end_

/-- All four indices become smaller. -/
def moveDown (n : Int) (selection : Selection) : Selection where
  start := selection.start.moveDown n
  end_ := selection.end_.moveDown n
  selectionMin := selection.selectionMin.moveDown n
  selectionMax := selection.selectionMax.moveDown n

end Selection

structure DoubleClickSelection where
  originalStart : Int := 0
  originalEnd : Int := 0
  origMessageIndex : Int := 0
  selectingLeft : Bool := false
  selectingRight : Bool := false
  origStartItem : SelectionItem := {}
  origEndItem : SelectionItem := {}

end SelectingView

open SelectingView

structure SelectingView where
  /-- The messages of the proxy, by their layouts. -/
  channel_ : LimitedQueue Nat
  messages_ : LimitedQueue Layout
  snapshot_ : List Layout := []
  pausable_ : Bool
  /-- The reasons in the map of pauses. -/
  pauses_ : List PauseReason := []
  pauseSelectionOffset_ : Int := 0
  selection_ : Selection := {}
  doubleClickSelection_ : DoubleClickSelection := {}
  selecting_ : Bool := false
  isLeftMouseDown_ : Bool := false
  isDoubleClick_ : Bool := false
  /-- How many layouts were made, which is the address of the next one. -/
  layouts : Nat := 0

namespace SelectingView

def paused (s : SelectingView) : Bool := s.pausable_ && !s.pauses_.isEmpty

/-- `getMessagesSnapshot`, and all that `queueLayout` does here. -/
def getMessagesSnapshot (s : SelectingView) : SelectingView :=
  if !s.paused then { s with snapshot_ := s.messages_.items } else s

/-! ## Copying -/

/-- What `addSelectionText` is called with. -/
structure Piece where
  layout : Layout
  from_ : Int
  to_ : Int
deriving DecidableEq

/-- `snapshot[index]`, for an `int` that is made a `size_t`. `none` is an access out of bounds. -/
def at_ {α : Type} (snapshot : List α) (index : Int) : Option α :=
  if index < 0 then none else snapshot[index.toNat]?

/-- The loop of `getSelectedText` over so many messages, from `msg` on. -/
def copyLoop (selection : Selection) (snapshot : List Layout) : Nat → Int → Option (List Piece)
  | 0, _ => some []
  | n + 1, msg =>
    match at_ snapshot msg with
    | none => none
    | some layout =>
      let from_ := if msg = selection.selectionMin.messageIndex then selection.selectionMin.charIndex else 0
      let to_ :=
        if msg = selection.selectionMax.messageIndex then selection.selectionMax.charIndex
        else layout.lastCharacterIndex + 1
      (copyLoop selection snapshot n (msg + 1)).map (⟨layout, from_, to_⟩ :: ·)

def getSelectedText (s : SelectingView) : Option (List Piece) :=
  let s := s.getMessagesSnapshot
  if s.selection_.isEmpty then some []
  else
    copyLoop s.selection_ s.snapshot_
      (s.selection_.selectionMax.messageIndex + 1 - s.selection_.selectionMin.messageIndex).toNat
      s.selection_.selectionMin.messageIndex

/-! ## Messages -/

def messageRemoveFromStart (s : SelectingView) : SelectingView :=
  let s : SelectingView :=
    if s.paused then { s with pauseSelectionOffset_ := s.pauseSelectionOffset_ + 1 }
    else { s with selection_ := s.selection_.moveDown 1 }
  s.getMessagesSnapshot

def messageAppended (messageRef : Layout) (s : SelectingView) : SelectingView :=
  { s with messages_ := (s.messages_.pushBack messageRef).1 }.getMessagesSnapshot

/-- `addMessage` of the proxy, for a message with these character indices. -/
def addMessage (firstMessageCharacterIndex lastCharacterIndex : Int) (s : SelectingView) :
    SelectingView :=
  let messageRef : Layout := ⟨s.layouts, firstMessageCharacterIndex, lastCharacterIndex⟩
  let (channel_, deleted) := s.channel_.pushBack messageRef.addr
  let s : SelectingView := { s with channel_, layouts := s.layouts + 1 }
  let s := if deleted then s.messageRemoveFromStart else s
  s.messageAppended messageRef

def clearMessages (s : SelectingView) : SelectingView :=
  { s with messages_ := s.messages_.clear }.getMessagesSnapshot

/-! ## Pauses -/

def unpaused (s : SelectingView) : SelectingView :=
  { s with
    selection_ := s.selection_.moveDown s.pauseSelectionOffset_
    pauseSelectionOffset_ := 0 }

def updatePauses (s : SelectingView) : SelectingView :=
  if s.pauses_.isEmpty then s.unpaused.getMessagesSnapshot else s

def pause (reason : PauseReason) (s : SelectingView) : SelectingView :=
  { s with pauses_ := if reason ∈ s.pauses_ then s.pauses_ else reason :: s.pauses_ }.updatePauses

/-- `unpause`, or the pause timer. -/
def unpause (reasons : List PauseReason) (s : SelectingView) : SelectingView :=
  { s with pauses_ := s.pauses_.filter (· ∉ reasons) }.updatePauses

/-! ## The mouse -/

def setSelection (start end_ : SelectionItem) (s : SelectingView) : SelectingView :=
  { s with
    selecting_ := if !s.selecting_ && start.notEqual end_ then true else s.selecting_
    selection_ := .new start end_ }

def clearSelection (s : SelectingView) : SelectingView :=
  { s with selection_ := {} }.getMessagesSnapshot

/-- What `tryGetMessageAt` finds, and what is under the cursor there. -/
structure Hit where
  messageIndex : Nat
  layout : Layout
  collapsed : Bool
  /-- `getSelectionIndex` -/
  index : Int
  /-- The bounds of the word of a `hoverLayoutElement`. -/
  word : Option (Int × Int)

/-- An item in the message. -/
def Hit.item (hit : Hit) (charIndex : Int) : SelectionItem where
  messageIndex := hit.messageIndex
  charIndex := charIndex
  layout := some hit.layout.addr

def selectLastMessage (s : SelectingView) : SelectingView :=
  match s.snapshot_.getLast? with
  | none => s
  | some lastMessage =>
    let selectionItem : SelectionItem :=
      { messageIndex := s.snapshot_.length - 1, charIndex := lastMessage.lastCharacterIndex,
        layout := some lastMessage.addr }
    s.setSelection selectionItem selectionItem

def mousePressEvent (linksDoubleClickOnly : Bool) (hit : Option Hit) (s : SelectingView) :
    SelectingView :=
  let s := s.getMessagesSnapshot
  match hit with
  | none => s.selectLastMessage
  | some hit =>
    let s : SelectingView := { s with isLeftMouseDown_ := true }
    if hit.collapsed then s
    else
      let s := if linksDoubleClickOnly then s.pause .doubleClick else s
      s.setSelection (hit.item hit.index) (hit.item hit.index)

def setSelecting (left right : Bool) (s : SelectingView) : SelectingView :=
  { s with
    doubleClickSelection_ :=
      { s.doubleClickSelection_ with selectingLeft := left, selectingRight := right } }

section DoubleClick

variable (hit : Hit) (wordStart wordEnd : Int)

/-- The first two branches for the message of the double click. -/
def growInMessage (s : SelectingView) : SelectingView :=
  let d := s.doubleClickSelection_
  if wordStart < s.selection_.start.charIndex && !d.selectingRight then
    let s := s.setSelecting true d.selectingRight
    if wordStart > d.originalEnd then s.setSelection d.origStartItem (hit.item wordEnd)
    else s.setSelection (hit.item wordStart) s.selection_.end_
  else if wordEnd > s.selection_.end_.charIndex && !d.selectingLeft then
    let s := s.setSelecting d.selectingLeft true
    if wordEnd < d.originalStart then s.setSelection (hit.item wordStart) d.origEndItem
    else s.setSelection s.selection_.start (hit.item wordEnd)
  else s

/-- The other two. -/
def swapInMessage (s : SelectingView) : SelectingView :=
  let d := s.doubleClickSelection_
  if wordStart > s.selection_.start.charIndex && !d.selectingRight then
    if wordStart > d.originalEnd then
      (s.setSelecting false true).setSelection d.origStartItem (hit.item wordEnd)
    else s.setSelection (hit.item wordStart) s.selection_.end_
  else if wordEnd < s.selection_.end_.charIndex && !d.selectingLeft then
    if wordEnd < d.originalStart then
      (s.setSelecting true false).setSelection (hit.item wordStart) d.origEndItem
    else s.setSelection s.selection_.start (hit.item wordEnd)
  else s

/-- The branches for another message. -/
def moveToMessage (s : SelectingView) : SelectingView :=
  let d := s.doubleClickSelection_
  if (hit.messageIndex : Int) < s.selection_.start.messageIndex then
    let s := if !d.selectingLeft then s.setSelecting true false else s
    let d := s.doubleClickSelection_
    let s :=
      if wordStart < s.selection_.start.charIndex && !d.selectingRight then
        s.setSelecting true d.selectingRight
      else s
    s.setSelection (hit.item wordStart) d.origEndItem
  else if (hit.messageIndex : Int) > s.selection_.end_.messageIndex then
    let s := if !d.selectingRight then s.setSelecting false true else s
    let d := s.doubleClickSelection_
    let s :=
      if wordEnd > s.selection_.end_.charIndex && !d.selectingLeft then
        s.setSelecting d.selectingLeft true
      else s
    s.setSelection d.origStartItem (hit.item wordEnd)
  else if d.selectingLeft then s.setSelection (hit.item wordStart) s.selection_.end_
  else s.setSelection s.selection_.start (hit.item wordEnd)

/-- A move after a double click. -/
def doubleClickMove (s : SelectingView) : SelectingView :=
  let s :=
    if hit.messageIndex = s.doubleClickSelection_.origMessageIndex then
      (s.growInMessage hit wordStart wordEnd).swapInMessage hit wordStart wordEnd
    else s.moveToMessage hit wordStart wordEnd
  if wordStart = s.doubleClickSelection_.originalStart && wordEnd = s.doubleClickSelection_.originalEnd then
    s.setSelecting false false
  else s

end DoubleClick

def mouseMoveEvent (pauseOnHover : Bool) (hit : Option Hit) (s : SelectingView) : SelectingView :=
  let s := (if pauseOnHover then s.pause .mouse else s).getMessagesSnapshot
  match hit with
  | none => s
  | some hit =>
    let s := if s.isLeftMouseDown_ then s.setSelection s.selection_.start (hit.item hit.index) else s
    if hit.collapsed then s
    else
      match hit.word with
      | none => s
      | some (wordStart, wordEnd) =>
        if s.isDoubleClick_ then s.doubleClickMove hit wordStart wordEnd else s

/-- `near` is whether the cursor has not moved far since the press or the double click, and
`tripleClick` whether the click timer runs and the double click was here. -/
def mouseReleaseEvent (near tripleClick : Bool) (hit : Option Hit) (s : SelectingView) :
    SelectingView :=
  let s := s.getMessagesSnapshot.setSelecting false false
  let released : SelectingView × Bool :=
    if s.isDoubleClick_ then ({ s with isDoubleClick_ := false }, near)
    else if s.isLeftMouseDown_ then ({ s with isLeftMouseDown_ := false }, near)
    else (s, false)
  let s := released.1
  match hit with
  | none => s
  | some hit =>
    if !released.2 || hit.collapsed then s
    else
      let s :=
        if tripleClick && s.selecting_ then
          -- `selectWholeMessage`
          s.setSelection (hit.item hit.layout.firstMessageCharacterIndex)
            (hit.item hit.layout.lastCharacterIndex)
        else s
      { s with selecting_ := false }

def mouseDoubleClickEvent (hit : Option Hit) (s : SelectingView) : SelectingView :=
  let s := s.getMessagesSnapshot
  match hit with
  | none => s
  | some hit =>
    if hit.collapsed then s
    else
      match hit.word with
      | none => s
      | some (wordStart, wordEnd) =>
        if s.isLeftMouseDown_ then s
        else
          { s with
            isDoubleClick_ := true
            doubleClickSelection_ := { s.doubleClickSelection_ with
              originalStart := wordStart
              originalEnd := wordEnd
              origMessageIndex := hit.messageIndex
              origStartItem := hit.item wordStart
              origEndItem := hit.item wordEnd } }.setSelection (hit.item wordStart) (hit.item wordEnd)

inductive MouseEvent
  | press (linksDoubleClickOnly : Bool)
  | move (pauseOnHover : Bool)
  | release (near tripleClick : Bool)
  | doubleClick

def mouseEvent (hit : Option Hit) : MouseEvent → SelectingView → SelectingView
  | .press linksDoubleClickOnly => mousePressEvent linksDoubleClickOnly hit
  | .move pauseOnHover => mouseMoveEvent pauseOnHover hit
  | .release near tripleClick => mouseReleaseEvent near tripleClick hit
  | .doubleClick => mouseDoubleClickEvent hit

/-! ## Runs -/

/-- The limit of all message queues. -/
def limit : Nat := 1000

/-- A message of the underlying channel's snapshot. -/
def pushLayout (s : SelectingView) (indices : Int × Int) : SelectingView :=
  { s with
    messages_ := (s.messages_.pushBack ⟨s.layouts, indices.1, indices.2⟩).1
    layouts := s.layouts + 1 }

/-- A new view after `setChannel`. The proxy is empty. -/
def setChannel (pausable : Bool) (snapshot : List (Int × Int)) : SelectingView :=
  (snapshot.foldl pushLayout { channel_ := .new limit, messages_ := .new limit,
                               pausable_ := pausable }).getMessagesSnapshot

inductive Event
  | addMessage (firstMessageCharacterIndex lastCharacterIndex : Int)
  | clearMessages
  | clearSelection
  | pause (reason : PauseReason)
  | unpause (reasons : List PauseReason)
  | mouse (event : MouseEvent) (hit : Option Hit)

inductive Step : SelectingView → Event → SelectingView → Prop
  | addMessage (s : SelectingView) (first last : Int) :
    Step s (.addMessage first last) (s.addMessage first last)
  | clearMessages (s : SelectingView) : Step s .clearMessages s.clearMessages
  | clearSelection (s : SelectingView) : Step s .clearSelection s.clearSelection
  | pause (s : SelectingView) (reason : PauseReason) : Step s (.pause reason) (s.pause reason)
  | unpause (s : SelectingView) (reasons : List PauseReason) :
    Step s (.unpause reasons) (s.unpause reasons)
  | mouse (s : SelectingView) (event : MouseEvent) (hit : Option Hit)
    (hhit : ∀ h, hit = some h → s.getMessagesSnapshot.snapshot_[h.messageIndex]? = some h.layout) :
    Step s (.mouse event hit) (s.mouseEvent hit event)

end SelectingView

end Dankerino
