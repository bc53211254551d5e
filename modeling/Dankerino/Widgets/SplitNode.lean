import Dankerino.Infra.RoseTree

/-!
# The nodes of a split container

`SplitContainer::Node` of `widgets/splits/SplitContainer.cpp`. A node owns its children, so the
nodes of a container are a tree; the pointers between them (`parent_`, `preferedFocusTarget_`, the
node of a `Position`) are addresses. A function that the source calls on a node takes the root and
the node's address, since it reaches the node's parent as well. It gives `none` where the source
fails an assertion or follows a pointer that leads nowhere.

Geometry and flex values are left out: no function here reads them.
-/

namespace Dankerino

open Infra

/-- The address of a node. -/
abbrev Addr := Nat

/-- A `Split *`. -/
abbrev Split := Nat

inductive Direction where
  | left | above | right | below
deriving DecidableEq, Repr

/-- `SplitContainer::Node::Type`. -/
inductive NodeType where
  | emptyRoot | split | verticalContainer | horizontalContainer
deriving DecidableEq, Repr

/-- The fields of a node but its children. -/
structure NodeData where
  addr : Addr
  type : NodeType
  split : Option Split
  preferedFocusTarget : Option Addr
  parent : Option Addr
deriving DecidableEq, Repr

abbrev Node := RoseTree NodeData

/--
What `new Node` finds: a free address, and what the memory of `preferedFocusTarget_` holds, which
no constructor sets.
-/
structure Block where
  addr : Addr
  focus : Option Addr
deriving DecidableEq, Repr

/-- Where a released split was: a node and the side of it. -/
structure Position where
  relativeNode : Option Addr
  direction : Direction
deriving DecidableEq, Repr

def toContainerType (dir : Direction) : NodeType :=
  if dir = .left ∨ dir = .right then .horizontalContainer else .verticalContainer

namespace Node

/-! ## Reaching nodes -/

/-- The node at an address. -/
def get (root : Node) (a : Addr) : Option Node := RoseTree.lookup NodeData.addr a root

def update (root : Node) (a : Addr) (f : Node → Node) : Node :=
  RoseTree.modify NodeData.addr a f root

def addrs (root : Node) : List Addr := RoseTree.keys NodeData.addr root

/-- `Node(Split *_split, Node *_parent)`. -/
def new (b : Block) (split : Split) (parent : Option Addr) : Node :=
  .node { addr := b.addr, type := .split, split := some split,
          preferedFocusTarget := b.focus, parent := parent } []

/-- The assignment to `parent_`. -/
def setParent (parent : Addr) (n : Node) : Node :=
  .node { n.label with parent := some parent } n.children

def isOrContainsNode (n : Node) (a : Addr) : Bool := (n.get a).isSome

/-- The first node in depth-first order of type `_Split` that has the split. -/
def findNodeContainingSplit (split : Option Split) (n : Node) : Option Node :=
  RoseTree.lookup (fun d => (d.type, d.split)) (NodeType.split, split) n

/-! ## Inserting -/

def setSplit (n : Node) (split : Split) : Option Node :=
  if n.label.split = none ∧ n.children.length = 0 then
    some (.node { n.label with split := some split, type := .split } n.children)
  else none

def insertNextToThis (root : Node) (this : Addr) (split : Split) (direction : Direction)
    (b : Block) : Option Node := do
  let self ← get root this
  let p ← self.label.parent
  let par ← get root p
  let it ← par.children.findIdx? (fun n => n.label.addr = this)
  let it := if direction = .right ∨ direction = .below then it + 1 else it
  let node := new b split self.label.parent
  some (update root p fun n => .node n.label (n.children.insertIdx it node))

/-- The node that takes over everything `n` held, so that `n` can become a container. -/
def clone (n : Node) (b : Block) : Node :=
  .node { addr := b.addr, type := n.label.type, split := n.label.split,
          preferedFocusTarget := b.focus, parent := some n.label.addr }
    (n.children.map (setParent b.addr))

/-- `c` is the memory for the clone and `b` the memory for the new split's node. -/
def nestSplitIntoCollection (root : Node) (this : Addr) (split : Split) (direction : Direction)
    (c b : Block) : Option Node := do
  let self ← get root this
  if toContainerType direction = self.label.type then
    some (update root this fun n => .node n.label (n.children ++ [new b split (some this)]))
  else
    let root := update root this fun n =>
      .node { n.label with type := toContainerType direction, split := none } [clone n c]
    insertNextToThis root c.addr split direction b

def insertSplitRelative (root : Node) (this : Addr) (split : Split) (direction : Direction)
    (c b : Block) : Option Node := do
  let self ← get root this
  match self.label.parent with
  | none =>
    match self.label.type with
    | .emptyRoot => do
      let self ← setSplit self split
      some (update root this fun _ => self)
    | .split => nestSplitIntoCollection root this split direction c b
    | .horizontalContainer => nestSplitIntoCollection root this split direction c b
    | .verticalContainer => nestSplitIntoCollection root this split direction c b
  | some p => do
    let par ← get root p
    if par.label.type = toContainerType direction then
      insertNextToThis root this split direction b
    else
      nestSplitIntoCollection root this split direction c b

/-! ## Releasing -/

/-- The side of a first, respectively a later child. -/
def sideOf (type : NodeType) (first : Bool) : Direction :=
  if type = .verticalContainer then (if first then .above else .below)
  else (if first then .left else .right)

def releaseSplit (root : Node) (this : Addr) : Option (Node × Position) := do
  let self ← get root this
  if self.label.type ≠ .split then none
  else
    match self.label.parent with
    | none =>
      some (update root this fun n =>
          .node { n.label with type := .emptyRoot, split := none } n.children,
        { relativeNode := none, direction := .right })
    | some p => do
      let par ← get root p
      let siblings := par.children
      let it ← siblings.findIdx? (fun n => n.label.addr = this)
      let rest := siblings.eraseIdx it
      if siblings.length = 2 then
        -- the parent takes over what the other child held
        let sibling ← rest.head?
        some (update root p fun n =>
            .node { n.label with type := sibling.label.type, split := sibling.label.split }
              (sibling.children.map (setParent p)),
          { relativeNode := some p, direction := sideOf par.label.type (it = 0) })
      else if siblings.getLast?.map (fun n => n.label.addr) = some this then
        let back ← rest.getLast?
        some (update root p fun n => .node n.label rest,
          { relativeNode := some back.label.addr, direction := sideOf par.label.type false })
      else
        let next ← siblings[it + 1]?
        some (update root p fun n => .node n.label rest,
          { relativeNode := some next.label.addr, direction := sideOf par.label.type true })

/-! ## Focus -/

/--
`setPreferedTargetRecursive`: every ancestor remembers the child on the way. The first argument
bounds the way up.
-/
def setPreferedTargetRecursive : Nat → Node → Addr → Option Node
  | 0, _, _ => none
  | fuel + 1, root, a => do
    let n ← get root a
    match n.label.parent with
    | none => some root
    | some p => do
      let _ ← get root p
      setPreferedTargetRecursive fuel (update root p fun n =>
        .node { n.label with preferedFocusTarget := some a } n.children) p

mutual

/-- The split that gets the focus below a node; `some none` for an empty root. -/
def focusSplitRecursive : Node → Option (Option Split)
  | .node d children =>
    match d.type with
    | .split => d.split.map some
    | .horizontalContainer | .verticalContainer =>
      (focusTarget d.preferedFocusTarget children).getD (focusFront children)
    | .emptyRoot => some none

/-- The focus of the first of the children that is at the address, if there is one. -/
def focusTarget (target : Option Addr) : List Node → Option (Option (Option Split))
  | [] => none
  | n :: ns =>
    if target = some n.label.addr then some (focusSplitRecursive n) else focusTarget target ns

def focusFront : List Node → Option (Option Split)
  | [] => none
  | n :: _ => focusSplitRecursive n

end

/-- The split that gets the focus when going from a node in a direction. -/
def selectSplitRecursive : Nat → Node → Addr → Direction → Option (Option Split)
  | 0, _, _, _ => none
  | fuel + 1, root, a, direction => do
    let n ← get root a
    match n.label.parent with
    | none => some none
    | some p => do
      let par ← get root p
      if par.label.type = toContainerType direction then
        let siblings := par.children
        let it ← siblings.findIdx? (fun n => n.label.addr = a)
        if direction = .left ∨ direction = .above then
          if it = 0 then selectSplitRecursive fuel root p direction
          else do
            let n ← siblings[it - 1]?
            focusSplitRecursive n
        else
          if siblings.getLast?.map (fun n => n.label.addr) = some a then
            selectSplitRecursive fuel root p direction
          else do
            let n ← siblings[it + 1]?
            focusSplitRecursive n
      else selectSplitRecursive fuel root p direction

/-! ## The splits of a tree -/

/-- What a node contributes to the splits of the tree. -/
def leafSplit (d : NodeData) : Option Split := if d.type = .split then d.split else none

/-- The splits of the leaves in depth-first order. -/
def leafSplits (root : Node) : List Split := root.labels.filterMap leafSplit

end Node

end Dankerino
