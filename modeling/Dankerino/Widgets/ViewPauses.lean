import Dankerino.Infra.Run
import Mathlib.Order.WithBot
import Mathlib.Data.Nat.Order.Lemmas
import Mathlib.Algebra.Order.Monoid.WithTop
import Mathlib.Order.Lattice.Nat

/-!
# Pauses of a view

`pause`, `unpause` and `updatePauses` of `ChannelView` with the handler of `pauseTimer_`. Time is in
nanoseconds. `QTimer` takes milliseconds: it fires once, at some moment from then on, and a negative
interval starts nothing. What `updatePauses` does to the scroll position and the selection when the
last pause goes is left out.

What was asked for is recorded: for each reason that was not unpaused since, the latest moment up to
which a pause was requested.
-/

namespace Dankerino

open Infra

namespace ViewPauses

inductive PauseReason where
  | mouse
  | selection
  | doubleClick
  | keyboardModifier
deriving DecidableEq

def PauseReason.all : List PauseReason := [.mouse, .selection, .doubleClick, .keyboardModifier]

theorem PauseReason.mem_all (reason : PauseReason) : reason ∈ PauseReason.all := by
  cases reason <;> decide

/-- The map of pauses, with the moment at which a pause ends. There is none for an infinite one. -/
abbrev Pauses := PauseReason → Option (Option Nat)

def Pauses.entries (pauses : Pauses) : List (Option Nat) := PauseReason.all.filterMap pauses

/-- The moments at which finite pauses end. -/
def Pauses.deadlines (pauses : Pauses) : List Nat := pauses.entries.filterMap id

/-- `std::max_element`. -/
def maxElement {α : Type} (less : α → α → Bool) : List α → Option α
  | [] => none
  | first :: rest => some (rest.foldl (fun largest x => if less largest x then x else largest) first)

/-- The nanoseconds of a millisecond. -/
def millisecond : Nat := 1000000

/-- `QTimer::start`, with the moment from which on the timer fires. -/
def startTimer (msec : Int) (now : Nat) : Option Nat :=
  if msec < 0 then none else some (now + msec.toNat * millisecond)

end ViewPauses

open ViewPauses

structure ViewPauses where
  pausable_ : Bool := true
  pauses_ : Pauses := fun _ => none
  pauseEnd_ : Option Nat := none
  /-- When the pause timer fires, if it runs. -/
  pauseTimer_ : Option Nat := none
  now : Nat := 0
  /-- Up to when pauses were requested, by the reason. -/
  requested : PauseReason → Option (WithTop Nat) := fun _ => none

namespace ViewPauses

def paused (s : ViewPauses) : Bool := s.pausable_ && s.pauses_.entries ≠ []

def updatePauses (s : ViewPauses) : ViewPauses :=
  if s.pauses_.entries = [] then { s with pauseEnd_ := none, pauseTimer_ := none }
  else if s.pauses_.entries.any Option.isNone then { s with pauseEnd_ := none, pauseTimer_ := none }
  else
    match maxElement (fun a b => decide (a > b)) s.pauses_.deadlines with
    | none => s
    | some pauseEnd =>
      if some pauseEnd ≠ s.pauseEnd_ then
        { s with
          pauseEnd_ := some pauseEnd
          -- `duration_cast` rounds towards zero
          pauseTimer_ := startTimer (((pauseEnd : Int) - s.now).tdiv millisecond) s.now }
      else s

/-- What `pause` writes for the reason. -/
def newPause (old : Option (Option Nat)) (now : Nat) : Option Nat → Option Nat
  | some msecs =>
    let timePoint := now + msecs * millisecond
    match old with
    | none => some timePoint
    | some none => none
    | some (some it) => if it < timePoint then some timePoint else some it
  | none => none

/-- Up to when a pause is requested. -/
def until_ (now : Nat) : Option Nat → WithTop Nat
  | some msecs => (now + msecs * millisecond : Nat)
  | none => ⊤

/-- `pause`. The clock goes on between its two readings. -/
def pause (reason : PauseReason) (msecs : Option Nat) (elapsed : Nat) (s : ViewPauses) : ViewPauses :=
  updatePauses
    { s with
      pauses_ := Function.update s.pauses_ reason (some (newPause (s.pauses_ reason) s.now msecs))
      now := s.now + elapsed
      requested := Function.update s.requested reason
        (some (max ((s.requested reason).getD (0 : Nat)) (until_ s.now msecs))) }

def unpause (reason : PauseReason) (s : ViewPauses) : ViewPauses :=
  updatePauses
    { s with
      pauses_ := Function.update s.pauses_ reason none
      requested := Function.update s.requested reason none }

/-- The handler of the timer, which is not running any more. -/
def timeout (s : ViewPauses) : ViewPauses :=
  updatePauses
    { s with
      pauses_ := fun reason => (s.pauses_ reason).filter Option.isNone
      pauseTimer_ := none }

/-! ## Runs -/

inductive Event where
  | pause (reason : PauseReason) (msecs : Option Nat) (elapsed : Nat)
  | unpause (reason : PauseReason)
  | timeout
  | tick (n : Nat)

inductive Step : ViewPauses → Event → ViewPauses → Prop
  | pause (s : ViewPauses) (reason : PauseReason) (msecs : Option Nat) (elapsed : Nat) :
    Step s (.pause reason msecs elapsed) (s.pause reason msecs elapsed)
  | unpause (s : ViewPauses) (reason : PauseReason) : Step s (.unpause reason) (s.unpause reason)
  | timeout (s : ViewPauses) {due : Nat} (hdue : s.pauseTimer_ = some due) (hnow : due ≤ s.now) :
    Step s .timeout s.timeout
  | tick (s : ViewPauses) (n : Nat) : Step s (.tick n) { s with now := s.now + n }

end ViewPauses

end Dankerino
