import Dankerino.Infra.Run
import Dankerino.Messages.LimitedQueue
import Mathlib.Algebra.Order.Floor.Semiring
import Mathlib.Data.Rat.Floor

/-!
# The scroll position of a view

`messageAppended`, `messageAddedAtStart`, `performLayout` and `updateScrollbar` of `ChannelView` with the
values of its `Scrollbar`, for a view that is not paused and with smooth scrolling off. The animation
never runs then, and `smoothScrollingOffset_` stays 0. Positions are rational numbers, and a message
keeps its height.

`setCurrentValue` signals the view, which lays out and may set the value again. These nested calls
take fuel.
-/

namespace Dankerino

open Infra

namespace ScrollView

/-- A `MessageLayout`. Layouts are told apart by the address of the object. -/
structure Layout where
  addr : Nat
  height : Nat
deriving DecidableEq

end ScrollView

open ScrollView

structure ScrollView where
  messages_ : LimitedQueue Layout
  /-- The height of the view. -/
  height : Int
  enableScrollingToBottom_ : Bool := true
  showingLatestMessages_ : Bool := true
  /-- Whether the scrollbar is visible. -/
  visible : Bool := false
  atBottom_ : Bool := false
  maximum_ : Rat := 0
  minimum_ : Rat := 0
  largeChange_ : Rat := 0
  desiredValue_ : Rat := 0
  currentValue_ : Rat := 0

namespace ScrollView

/-! ## Layout -/

/-- The loop of `updateScrollbar`, from the last message up. `h` is the height that is left, and `k`
the number of messages that were laid out. -/
def largeChange (h : Int) (k : Nat) : List Layout → Option Rat
  | [] => none
  | message :: messages =>
    let h := h - message.height
    if h < 0 then some ((k + 1 : Nat) + (h : Rat) / (max 1 message.height : Nat))
    else largeChange h (k + 1) messages

/-- The number of messages on a page, when there are more. -/
def pageSize (s : ScrollView) : Option Rat := largeChange (s.height - 8) 0 s.messages_.items.reverse

/-- `updateScrollbar`. -/
def updateScrollbar (setDesiredValue : Rat → ScrollView → Option ScrollView) (causedByScrollbar : Bool)
    (s : ScrollView) : Option ScrollView := do
  if s.messages_.items = [] then return { s with visible := false }
  let page := s.pageSize
  let showScrollbar := page.isSome
  let s := { s with largeChange_ := page.getD s.largeChange_, visible := showScrollbar }
  let s ← if !showScrollbar && !causedByScrollbar then setDesiredValue 0 s else some s
  let s := { s with maximum_ := s.messages_.items.length }
  if s.enableScrollingToBottom_ && s.showingLatestMessages_ && showScrollbar then
    -- `scrollToBottom`
    setDesiredValue (s.maximum_ - s.largeChange_) s
  else some s

def performLayout (setDesiredValue : Rat → ScrollView → Option ScrollView) (causedByScrollbar : Bool)
    (s : ScrollView) : Option ScrollView :=
  updateScrollbar setDesiredValue causedByScrollbar
    { s with showingLatestMessages_ := s.atBottom_ || !s.visible }

/-! ## Scrollbar -/

/-- A value brought into the range of the scrollbar. -/
def clamp (value : Rat) (s : ScrollView) : Rat :=
  max s.minimum_ (min (s.maximum_ - s.largeChange_) value)

/-- Values that differ by less are the same to the scrollbar. -/
def tolerance : Rat := 1 / 10000

/-- `setCurrentValue`. The view lays out when the value changes. -/
def setCurrentValue (setDesiredValue : Rat → ScrollView → Option ScrollView) (value : Rat)
    (s : ScrollView) : Option ScrollView :=
  let value := s.clamp value
  if |s.currentValue_ - value| > tolerance then
    performLayout setDesiredValue true { s with currentValue_ := value }
  else some s

/-- `setDesiredValue`, not animated. -/
def setDesiredValue : Nat → Rat → ScrollView → Option ScrollView
  | 0, _, _ => none
  | fuel + 1, value, s => do
    let value := s.clamp value
    let s ←
      if |s.desiredValue_ - value| > tolerance then
        setCurrentValue (setDesiredValue fuel) value
          { s with
            desiredValue_ := value
            atBottom_ := s.maximum_ - s.largeChange_ - value ≤ tolerance }
      else some s
    some { s with desiredValue_ := value }

/-- How deep the calls nest. -/
def depth : Nat := 3

def scrollToBottom (s : ScrollView) : Option ScrollView :=
  setDesiredValue depth (s.maximum_ - s.largeChange_) s

def offset (value : Rat) (s : ScrollView) : Option ScrollView :=
  setDesiredValue depth (s.desiredValue_ + value) s

/-! ## Messages -/

/-- How the position follows messages that move by the value. -/
def follow (moved : Bool) (value : Rat) (s : ScrollView) : Option ScrollView :=
  if moved then
    if s.atBottom_ then s.scrollToBottom else s.offset value
  else some s

def messageAppended (message : Layout) (s : ScrollView) : Option ScrollView := do
  let (messages_, deleted) := s.messages_.pushBack message
  let s ← follow deleted (-1) { s with messages_ }
  s.performLayout (setDesiredValue depth) false

def messageAddedAtStart (messages : List Layout) (s : ScrollView) : Option ScrollView := do
  let (messages_, pushed) ← s.messages_.pushFront messages
  let s ← follow (pushed.length > 0) messages.length { s with messages_ }
  s.performLayout (setDesiredValue depth) false

/-! ## Runs -/

inductive Event where
  | append (message : Layout)
  | addAtStart (messages : List Layout)

def apply (s : ScrollView) : Event → Option ScrollView
  | .append message => s.messageAppended message
  | .addAtStart messages => s.messageAddedAtStart messages

/-- The view is scrolled up. -/
def ScrolledUp (s : ScrollView) : Prop := s.visible = true ∧ s.atBottom_ = false

/-- The layouts of an event are new objects. -/
def Fresh (s : ScrollView) : Event → Prop
  | .append message => message ∉ s.messages_.items
  | .addAtStart messages => messages.Nodup ∧ ∀ message ∈ messages, message ∉ s.messages_.items

/-- Something happens to a view that is scrolled up. -/
def Step (s : ScrollView) (e : Event) (s' : ScrollView) : Prop :=
  ScrolledUp s ∧ Fresh s e ∧ apply s e = some s'

end ScrollView

end Dankerino
