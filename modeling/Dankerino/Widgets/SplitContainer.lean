import Dankerino.Infra.Run
import Dankerino.Widgets.SplitNode

/-!
# The split container

`SplitContainer` of `widgets/splits/SplitContainer.cpp`: the tree of nodes, the list `splits_` and
the selected split. An `Op` is what the rest of the program does with a container. Qt reports that
a split got the focus at times of its own, so `setSelected` is an operation too.

Saving, the tab's title, signal connections and the layout are left out: they do not touch the
tree.
-/

namespace Dankerino

open Infra

structure SplitContainer where
  baseNode : Node
  selected : Option Split
  splits : List Split

namespace SplitContainer

/-- A new container. `b` is the memory of its `baseNode_`. -/
def new (b : Block) : SplitContainer where
  baseNode := .node { addr := b.addr, type := .emptyRoot, split := none,
                      preferedFocusTarget := b.focus, parent := none } []
  selected := none
  splits := []

def addSplit (s : SplitContainer) (split : Split) : SplitContainer :=
  { s with splits := s.splits ++ [split] }

def insertSplit (s : SplitContainer) (split : Split) (direction : Direction)
    (relativeTo : Option Addr) (c b : Block) : Option SplitContainer := do
  let root ←
    match relativeTo with
    | none =>
      match s.baseNode.label.type with
      | .emptyRoot => s.baseNode.setSplit split
      | .split =>
        s.baseNode.nestSplitIntoCollection s.baseNode.label.addr split direction c b
      | _ => s.baseNode.insertSplitRelative s.baseNode.label.addr split direction c b
    | some a =>
      if s.baseNode.isOrContainsNode a then s.baseNode.insertSplitRelative a split direction c b
      else none
  some (addSplit { s with baseNode := root } split)

/-- The overload that takes a split to insert next to. -/
def insertSplitNextTo (s : SplitContainer) (split : Split) (direction : Direction)
    (relativeTo : Split) (c b : Block) : Option SplitContainer := do
  let node ← s.baseNode.findNodeContainingSplit (some relativeTo)
  insertSplit s split direction (some node.label.addr) c b

/-- The overload that takes a position. -/
def insertSplitAt (s : SplitContainer) (split : Split) (position : Position) (c b : Block) :
    Option SplitContainer :=
  insertSplit s split position.direction position.relativeNode c b

/-- `setSelected`. Its focus requests come back as focus events. -/
def setSelected (s : SplitContainer) (split : Option Split) : Option SplitContainer :=
  if split ∈ s.splits.map some then
    match s.baseNode.findNodeContainingSplit split with
    | none => some { s with selected := split }
    | some node => do
      let _ ← node.focusSplitRecursive
      let root ← s.baseNode.setPreferedTargetRecursive s.baseNode.labels.length node.label.addr
      some { s with selected := split, baseNode := root }
  else some s

def releaseSplit (s : SplitContainer) (split : Split) : Option (SplitContainer × Position) := do
  let node ← s.baseNode.findNodeContainingSplit (some split)
  -- erasing `end()` is undefined
  if split ∉ s.splits then none
  else
    let (root, position) ← s.baseNode.releaseSplit node.label.addr
    let s' := { s with baseNode := root, splits := s.splits.erase split }
    if s'.splits.length = 0 then do
      let s' ← s'.setSelected none
      some (s', position)
    else some (s', position)

def deleteSplit (s : SplitContainer) (split : Split) : Option (SplitContainer × Position) :=
  releaseSplit s split

/-- The split that `selectNextSplit` moves the focus to, if to any. -/
def selectNextSplit (s : SplitContainer) (direction : Direction) : Option (Option Split) :=
  match s.baseNode.findNodeContainingSplit s.selected with
  | none => some none
  | some node =>
    s.baseNode.selectSplitRecursive s.baseNode.labels.length node.label.addr direction

/-! ## Runs -/

/-- An insertion comes with the memory that the allocator hands out if it needs new nodes. -/
inductive Op where
  | insertSplit (split : Split) (direction : Direction) (relativeTo : Option Addr) (c b : Block)
  | insertSplitNextTo (split : Split) (direction : Direction) (relativeTo : Split) (c b : Block)
  | releaseSplit (split : Split)
  | deleteSplit (split : Split)
  | setSelected (split : Option Split)

def apply (s : SplitContainer) : Op → Option SplitContainer
  | .insertSplit split direction relativeTo c b => s.insertSplit split direction relativeTo c b
  | .insertSplitNextTo split direction relativeTo c b =>
    s.insertSplitNextTo split direction relativeTo c b
  | .releaseSplit split => (s.releaseSplit split).map Prod.fst
  | .deleteSplit split => (s.deleteSplit split).map Prod.fst
  | .setSelected split => s.setSelected split

/-- The allocator hands out free memory: two blocks of which no node of the tree has one. -/
structure Free (root : Node) (c b : Block) : Prop where
  clone : c.addr ∉ root.addrs
  node : b.addr ∉ root.addrs
  ne : c.addr ≠ b.addr

/--
What callers keep to. A split that is inserted is in no container, the node or split next to which
it goes is in this one, and so is a split that is released or deleted.
-/
def Allowed (s : SplitContainer) : Op → Prop
  | .insertSplit split _ relativeTo c b =>
    split ∉ s.splits ∧ (∀ a ∈ relativeTo, a ∈ s.baseNode.addrs) ∧ Free s.baseNode c b
  | .insertSplitNextTo split _ relativeTo c b =>
    split ∉ s.splits ∧ relativeTo ∈ s.splits ∧ Free s.baseNode c b
  | .releaseSplit split => split ∈ s.splits
  | .deleteSplit split => split ∈ s.splits
  | .setSelected _ => True

instance (root : Node) (c b : Block) : Decidable (Free root c b) :=
  decidable_of_iff (c.addr ∉ root.addrs ∧ b.addr ∉ root.addrs ∧ c.addr ≠ b.addr)
    ⟨fun h => ⟨h.1, h.2.1, h.2.2⟩, fun h => ⟨h.clone, h.node, h.ne⟩⟩

instance (s : SplitContainer) : (op : Op) → Decidable (Allowed s op)
  | .insertSplit _ _ _ _ _ => inferInstanceAs (Decidable (_ ∧ _ ∧ _))
  | .insertSplitNextTo _ _ _ _ _ => inferInstanceAs (Decidable (_ ∧ _ ∧ _))
  | .releaseSplit _ => inferInstanceAs (Decidable (_ ∈ _))
  | .deleteSplit _ => inferInstanceAs (Decidable (_ ∈ _))
  | .setSelected _ => inferInstanceAs (Decidable True)

def Step (s : SplitContainer) (op : Op) (s' : SplitContainer) : Prop :=
  Allowed s op ∧ apply s op = some s'

/-- An operation, if callers keep to what is allowed. -/
def check (s : SplitContainer) (op : Op) : Option SplitContainer :=
  if Allowed s op then apply s op else none

theorem step_of_check (s : SplitContainer) (op : Op) (s' : SplitContainer)
    (h : check s op = some s') : Step s op s' := by
  rw [check] at h
  split at h
  · next hop => exact ⟨hop, h⟩
  · cases h

end SplitContainer

end Dankerino
