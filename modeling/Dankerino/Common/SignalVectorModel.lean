import Dankerino.Common.SignalVector
import Dankerino.Infra.FilteredIndex

/-!
# Tables that show a vector

`SignalVectorModel` of `common/SignalVectorModel.hpp`: a table with a row for each item of a
`SignalVector`, and custom rows in between. The vector and the table are one state here, since each
changes the other while its signal is sent.

What a subclass adds is a `Subclass`. The cells are those of `createRow` after `getRowFromItem`
filled them, and `setCell` is `QStandardItem::setData`. The signals to the views are left out.
-/

namespace Dankerino

open Infra

universe u

structure Row (T Cell : Type u) where
  items : List Cell
  original : Option T
  isCustomRow : Bool

/-- The rows, and the members that a subclass adds. -/
structure ModelState (T Cell Members : Type u) where
  rows : List (Row T Cell)
  members : Members

/-- The virtual functions. -/
structure Subclass (T Cell Members : Type u) where
  getItemFromRow : List Cell → T → T
  getRowFromItem : T → List Cell
  beforeInsert : T → Nat → ModelState T Cell Members → Option (Nat × ModelState T Cell Members)
  afterRemoved : T → Nat → ModelState T Cell Members → Option (ModelState T Cell Members)

namespace SignalVectorModel

variable {T Cell Members : Type u}

/-! ## Indices -/

/-- The loop of `getVectorIndexFromModelIndex`. -/
def vectorIndexLoop (index : Int) (i : Nat) : List (Row T Cell) → Nat
  | [] => i
  | row :: rest =>
    if row.isCustomRow then vectorIndexLoop (index - 1) i rest
    else if (i : Int) = index then i
    else vectorIndexLoop index (i + 1) rest

def getVectorIndexFromModelIndex (rows : List (Row T Cell)) (index : Int) : Nat :=
  vectorIndexLoop index 0 rows

/-- The loop of `getModelIndexFromVectorIndex`. -/
def modelIndexLoop (vectorIndex modelIndex : Nat) : List (Row T Cell) → Nat
  | [] => modelIndex
  | row :: rest =>
    let vectorIndex := if row.isCustomRow then vectorIndex + 1 else vectorIndex
    if modelIndex = vectorIndex then modelIndex
    else modelIndexLoop vectorIndex (modelIndex + 1) rest

def getModelIndexFromVectorIndex (rows : List (Row T Cell)) (vectorIndex : Nat) : Nat :=
  modelIndexLoop vectorIndex 0 rows

/-! ## Signals of the vector -/

/-- `insertCustomRow`. -/
def insertCustomRow (m : ModelState T Cell Members) (row : List Cell) (index : Nat) :
    Option (ModelState T Cell Members) :=
  if index ≤ m.rows.length then
    some { m with rows := m.rows.insertIdx index { items := row, original := none, isCustomRow := true } }
  else none

/-- `removeCustomRow`. -/
def removeCustomRow (m : ModelState T Cell Members) (index : Nat) :
    Option (ModelState T Cell Members) :=
  match m.rows[index]? with
  | none => none
  | some row => if row.isCustomRow then some { m with rows := m.rows.eraseIdx index } else none

variable (sub : Subclass T Cell Members)

/-- What `initialize` connects to `itemInserted`, for a foreign caller. -/
def onItemInserted (m : ModelState T Cell Members) (item : T) (vectorIndex : Nat) :
    Option (ModelState T Cell Members) := do
  let row : Row T Cell :=
    { items := sub.getRowFromItem item, original := some item, isCustomRow := false }
  let (index, m) ← sub.beforeInsert item (getModelIndexFromVectorIndex m.rows vectorIndex) m
  if index ≤ m.rows.length then some { m with rows := m.rows.insertIdx index row } else none

/-- What `initialize` connects to `itemRemoved`, for a foreign caller. -/
def onItemRemoved (m : ModelState T Cell Members) (item : T) (vectorIndex : Nat) :
    Option (ModelState T Cell Members) :=
  let row := getModelIndexFromVectorIndex m.rows vectorIndex
  if row < m.rows.length then
    sub.afterRemoved item row { m with rows := m.rows.eraseIdx row }
  else none

end SignalVectorModel

/-- A vector with a table that is connected to it. -/
structure ShownVector (T Cell Members : Type u) where
  vector : SignalVector T
  model : ModelState T Cell Members
  columnCount : Nat

namespace ShownVector

open SignalVectorModel

variable {T Cell Members : Type u} (sub : Subclass T Cell Members)

/-- `SignalVector::insert`, with the table as the listener. -/
def insert (s : ShownVector T Cell Members) (item : T) (index : Option Nat) (caller : Caller) :
    Option (ShownVector T Cell Members) := do
  let (vector, index) ← s.vector.insert item index
  if caller = .self then some { s with vector }
  else
    let model ← onItemInserted sub s.model item index
    some { s with vector, model }

/-- `SignalVector::removeAt`, with the table as the listener. -/
def removeAt (s : ShownVector T Cell Members) (index : Nat) (caller : Caller) :
    Option (ShownVector T Cell Members) := do
  let (vector, item) ← s.vector.removeAt index
  if caller = .self then some { s with vector }
  else
    let model ← onItemRemoved sub s.model item index
    some { s with vector, model }

/-! ## Edits of the table -/

/-- `setData`. Cells out of range are left alone, and `customRowSetData` does nothing here. -/
def setData {Value : Type*} {Role : Type*} (setCell : Cell → Value → Role → Cell)
    (s : ShownVector T Cell Members) (row column : Nat) (value : Value) (role : Role) :
    Option (ShownVector T Cell Members) :=
  match s.model.rows[row]? with
  | none => some s
  | some rowItem =>
    if s.columnCount ≤ column then some s
    else do
      let items := rowItem.items.modify column fun cell => setCell cell value role
      let s := { s with
        model := { s.model with rows := s.model.rows.set row { rowItem with items } } }
      if rowItem.isCustomRow then return s
      let vecRow := getVectorIndexFromModelIndex s.model.rows row
      let s ← s.removeAt sub vecRow .self
      let original ← rowItem.original
      s.insert sub (sub.getItemFromRow items original) (some vecRow) .self

/-- `removeRows`. -/
def removeRows (s : ShownVector T Cell Members) (row count : Nat) :
    Option (ShownVector T Cell Members) :=
  if count ≠ 1 then some s
  else s.removeAt sub (getVectorIndexFromModelIndex s.model.rows row) (.other 0)

/-- `moveRows`. The index to insert at is looked up after the row is gone. -/
def moveRows (s : ShownVector T Cell Members) (sourceRow count : Nat) (destinationChild : Int) :
    Option (ShownVector T Cell Members) :=
  if count ≠ 1 then some s
  else
    match s.model.rows[sourceRow]? with
    | none => none
    | some rowItem => do
      let original ← rowItem.original
      let item := sub.getItemFromRow rowItem.items original
      let s ← s.removeAt sub (getVectorIndexFromModelIndex s.model.rows sourceRow) (.other 0)
      s.insert sub item (some (getVectorIndexFromModelIndex s.model.rows destinationChild)) (.other 0)

/-- `dropMimeData`. `accepted` says that the format and the action are the right ones. -/
def dropMimeData (s : ShownVector T Cell Members) (accepted : Bool) (sourceRow : Nat) (toRow : Int) :
    Option (ShownVector T Cell Members) :=
  if accepted = false then some s
  else
    let vectorFrom := getVectorIndexFromModelIndex s.model.rows sourceRow
    let vectorTo := getVectorIndexFromModelIndex s.model.rows toRow
    if vectorFrom > s.vector.items.length ∨ vectorTo > s.vector.items.length then some s
    else if (sourceRow : Int) ≠ toRow then s.moveRows sub sourceRow 1 toRow
    else some s

/-! ## Start-up -/

/-- The loop of `initialize` over the items that are there already. -/
def showItems (m : ModelState T Cell Members) : List T → Nat → Option (ModelState T Cell Members)
  | [], _ => some m
  | item :: rest, i => do
    let m ← onItemInserted sub m item i
    showItems m rest (i + 1)

/-- `afterInit` of a subclass that inserts custom rows. -/
def insertCustomRows (m : ModelState T Cell Members) :
    List (List Cell × Nat) → Option (ModelState T Cell Members)
  | [] => some m
  | (row, index) :: rest => do
    let m ← insertCustomRow m row index
    insertCustomRows m rest

/-- `initialized`, which calls `initialize`. -/
def initialized (vector : SignalVector T) (members : Members) (columnCount : Nat)
    (customRows : List (List Cell × Nat)) : Option (ShownVector T Cell Members) := do
  let model ← showItems sub { rows := [], members } vector.items 0
  let model ← insertCustomRows model customRows
  some { vector, model, columnCount }

end ShownVector

end Dankerino
