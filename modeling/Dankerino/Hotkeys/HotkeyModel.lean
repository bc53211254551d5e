import Dankerino.Common.SignalVectorModel
import Dankerino.Qt.QString
import Mathlib.Order.Lattice

/-!
# The hotkey table

`HotkeyModel` of `controllers/hotkeys`, the table of the keyboard settings: a subclass of
`SignalVectorModel` that puts a header before the hotkeys of each category, and the order in which
the controller keeps the hotkeys. A `QKeySequence` is its text, and `actionNames` has the actions of
each category.
-/

namespace Dankerino

inductive HotkeyCategory
  | popupWindow
  | split
  | splitInput
  | window
deriving Repr

namespace HotkeyCategory

def value : HotkeyCategory → Nat
  | popupWindow => 0
  | split => 1
  | splitInput => 2
  | window => 3

theorem value_injective : Function.Injective value := by
  intro a b h
  cases a <;> cases b <;> first | rfl | exact absurd h (by decide)

/-- `operator<` of the enumeration. -/
instance : LinearOrder HotkeyCategory := LinearOrder.lift' value value_injective

end HotkeyCategory

structure HotkeyCategoryData where
  name : QString
  displayName : QString

/-- `hotkeyCategories_`. -/
def hotkeyCategories : HotkeyCategory → HotkeyCategoryData
  | .popupWindow => { name := "popupWindow".toList, displayName := "Popup Windows".toList }
  | .split => { name := "split".toList, displayName := "Split".toList }
  | .splitInput => { name := "splitInput".toList, displayName := "Split input box".toList }
  | .window => { name := "window".toList, displayName := "Window".toList }

def categoryDisplayName (category : HotkeyCategory) : QString :=
  (hotkeyCategories category).displayName

/-- No two headers look alike. -/
theorem categoryDisplayName_injective : Function.Injective categoryDisplayName := by
  intro a b h
  cases a <;> cases b <;> first | rfl | exact absurd h (by decide)

structure Hotkey where
  category : HotkeyCategory
  keySequence : QString
  action : QString
  arguments : List QString
  name : QString
deriving DecidableEq

namespace Hotkey

def getCategory (h : Hotkey) : QString := categoryDisplayName h.category

def validAction (actionNames : HotkeyCategory → List QString) (h : Hotkey) : Bool :=
  decide (h.action ∈ actionNames h.category)

end Hotkey

/-- `hotkeySortCompare_`. -/
def hotkeySortCompare (a b : Hotkey) : Bool :=
  if a.category = b.category then QString.less a.name b.name else decide (a.category < b.category)

structure QFont where
  family : QString
  pointSize : Nat
  strikeOut : Bool
deriving DecidableEq

/-- The text (`Qt::EditRole`), the flags and the font of a cell. -/
structure HotkeyCell where
  text : QString
  editable : Bool
  selectable : Bool
  font : Option QFont
deriving DecidableEq

namespace HotkeyModel

open SignalVectorModel

/-- `categoryCount_`, by the name that is shown. -/
abbrev Counts := QString → Option Nat

abbrev State := ModelState Hotkey HotkeyCell Counts

def getRowFromItem (actionNames : HotkeyCategory → List QString) (item : Hotkey) :
    List HotkeyCell :=
  let font : QFont :=
    { family := "Segoe UI".toList, pointSize := 10, strikeOut := !item.validAction actionNames }
  [{ text := item.name, editable := false, selectable := true, font := some font },
    { text := item.keySequence, editable := false, selectable := true, font := some font }]

/-- The cells of the header of a category, as `beforeInsert` makes them. -/
def headerCells (category : QString) : List HotkeyCell :=
  let font : QFont := { family := "Segoe UI Light".toList, pointSize := 16, strikeOut := false }
  [{ text := category, editable := false, selectable := false, font := some font },
    { text := [], editable := false, selectable := false, font := none }]

/-- The text of the first cell. -/
def customRowValue (row : Row Hotkey HotkeyCell) : QString :=
  match row.items with
  | [] => []
  | cell :: _ => cell.text

/-- The loop of `getCurrentAndNextCategoryModelIndex`. -/
def categoryLoop (category : QString) :
    Nat → Option Nat → List (Row Hotkey HotkeyCell) → Option Nat × Option Nat
  | _, current, [] => (current, none)
  | modelIndex, current, row :: rows =>
    if row.isCustomRow then
      match current with
      | some current => (some current, some modelIndex)
      | none =>
        categoryLoop category (modelIndex + 1)
          (if customRowValue row = category then some modelIndex else none) rows
    else categoryLoop category (modelIndex + 1) current rows

def getCurrentAndNextCategoryModelIndex (rows : List (Row Hotkey HotkeyCell)) (category : QString) :
    Option Nat × Option Nat :=
  categoryLoop category 0 none rows

def beforeInsert (item : Hotkey) (proposedIndex : Nat) (m : State) : Option (Nat × State) :=
  let category := item.getCategory
  let count := (m.members category).getD 0
  let m := { m with members := Function.update m.members category (some (count + 1)) }
  if count = 0 then do
    let m ← insertCustomRow m (headerCells category) proposedIndex
    some (proposedIndex + 1, m)
  else
    match (getCurrentAndNextCategoryModelIndex m.rows category).2 with
    | some next => if next ≤ proposedIndex then some (proposedIndex - 1, m) else some (proposedIndex, m)
    | none => some (proposedIndex, m)

def afterRemoved (item : Hotkey) (index : Nat) (m : State) : Option State :=
  let category := item.getCategory
  match m.members category with
  | none => none
  | some count =>
    if count ≤ 1 then
      let m := { m with members := Function.update m.members category none }
      if index = 0 then none else removeCustomRow m (index - 1)
    else some { m with members := Function.update m.members category (some (count - 1)) }

/-- The virtual functions of `HotkeyModel`. -/
def subclass (actionNames : HotkeyCategory → List QString) : Subclass Hotkey HotkeyCell Counts where
  getItemFromRow _ original := original
  getRowFromItem := getRowFromItem actionNames
  beforeInsert := beforeInsert
  afterRemoved := afterRemoved

end HotkeyModel

end Dankerino
