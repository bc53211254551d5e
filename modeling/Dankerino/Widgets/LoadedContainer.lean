import Dankerino.Widgets.SavedLayout

/-!
# A split container that is loaded

`SplitContainer::applyFromDescriptor` makes the nodes that a saved layout describes. The loader takes
a container with any number of items, and the operations on the tree assume that there are two.

* `run_unbroken`: if every container of the layout has two items, no operation afterwards finds a
  container without children
* `releaseSplit_of_one`: a container with one item is enough to break it
-/

namespace Dankerino

open Infra Infra.RoseTree

variable {QUuid : Type}

mutual

/-- Every container of the layout has at least two items. -/
def NodeDescriptor.Branches : NodeDescriptor QUuid → Prop
  | .split _ => True
  | .container _ _ _ items => 2 ≤ items.length ∧ NodeDescriptor.BranchAll items

def NodeDescriptor.BranchAll : List (NodeDescriptor QUuid) → Prop
  | [] => True
  | item :: items => item.Branches ∧ NodeDescriptor.BranchAll items

end

namespace SplitContainer

/-- What `new` hands out while a layout is applied, for one node after the other: its memory, and the
split if it gets one. -/
structure Fresh where
  block : Nat → Block
  split : Nat → Split
  block_inj : Function.Injective fun k => (block k).addr
  split_inj : Function.Injective split

/-- How many nodes there are, and `splits_`. -/
structure Applying where
  nodes : Nat
  splits : List Split

mutual

/-- The node that `applyFromDescriptorRecursively` adds for an item of a container. -/
def applyItem (fresh : Fresh) (parent : Addr) : NodeDescriptor QUuid → Applying → Node × Applying
  | .split _, s =>
    (Node.new (fresh.block s.nodes) (fresh.split s.nodes) (some parent),
      { nodes := s.nodes + 1, splits := s.splits ++ [fresh.split s.nodes] })
  | .container _ _ vertical items, s =>
    let b := fresh.block s.nodes
    let (children, s) := applyItems fresh b.addr items { s with nodes := s.nodes + 1 }
    (.node { addr := b.addr, type := containerType vertical, split := none,
             preferedFocusTarget := b.focus, parent := some parent } children, s)

/-- The loop over the items. -/
def applyItems (fresh : Fresh) (parent : Addr) :
    List (NodeDescriptor QUuid) → Applying → List Node × Applying
  | [], s => ([], s)
  | item :: items, s =>
    let (n, s) := applyItem fresh parent item s
    let (ns, s) := applyItems fresh parent items s
    (n :: ns, s)

end

/-- `applyFromDescriptor`. The root is not made anew; a split is appended to the container, which is
empty. -/
def applyFromDescriptor (fresh : Fresh) (rootNode : NodeDescriptor QUuid) (s : SplitContainer) :
    Option SplitContainer :=
  if s.baseNode.label.type = .emptyRoot then
    match rootNode with
    | .split _ => s.insertSplit (fresh.split 0) .right none (fresh.block 0) (fresh.block 1)
    | .container _ _ vertical items =>
      let d := s.baseNode.label
      let (children, applied) := applyItems fresh d.addr items { nodes := 0, splits := s.splits }
      some { s with
        baseNode := .node { d with type := containerType vertical } (s.baseNode.children ++ children)
        splits := applied.splits }
  else none

/-! ## What is made -/

/-- From one state to a later one these addresses and splits were handed out, in this order. -/
structure Made (fresh : Fresh) (s s' : Applying) (as : List Addr) (xs : List Split) : Prop where
  le : s.nodes ≤ s'.nodes
  addrs : as = (List.range' s.nodes (s'.nodes - s.nodes)).map fun k => (fresh.block k).addr
  splits : s'.splits = s.splits ++ xs
  sublist : xs.Sublist ((List.range' s.nodes (s'.nodes - s.nodes)).map fresh.split)

section Made

variable {fresh : Fresh} {s s' s'' : Applying} {as as' : List Addr} {xs xs' : List Split}

theorem Made.refl : Made fresh s s [] [] := ⟨le_refl _, by simp, by simp, by simp⟩

theorem Made.trans (h : Made fresh s s' as xs) (h' : Made fresh s' s'' as' xs') :
    Made fresh s s'' (as ++ as') (xs ++ xs') := by
  have hrange : List.range' s.nodes (s''.nodes - s.nodes)
      = List.range' s.nodes (s'.nodes - s.nodes) ++ List.range' s'.nodes (s''.nodes - s'.nodes) := by
    have hle := h.le
    have hle' := h'.le
    rw [show s''.nodes - s.nodes = (s'.nodes - s.nodes) + (s''.nodes - s'.nodes) by omega,
      ← List.range'_append_1]
    congr 2
    omega
  refine ⟨h.le.trans h'.le, ?_, ?_, ?_⟩
  · rw [hrange, List.map_append, h.addrs, h'.addrs]
  · rw [h'.splits, h.splits, List.append_assoc]
  · rw [hrange, List.map_append]
    exact h.sublist.append h'.sublist

theorem Made.node (h : Made fresh { s with nodes := s.nodes + 1 } s' as xs) :
    Made fresh s s' ((fresh.block s.nodes).addr :: as) xs := by
  have hle : s.nodes + 1 ≤ s'.nodes := h.le
  have hrange : List.range' s.nodes (s'.nodes - s.nodes)
      = s.nodes :: List.range' (s.nodes + 1) (s'.nodes - (s.nodes + 1)) := by
    rw [show s'.nodes - s.nodes = (s'.nodes - (s.nodes + 1)) + 1 by omega, List.range'_succ]
  refine ⟨Nat.le_of_succ_le hle, ?_, h.splits, ?_⟩
  · rw [hrange, List.map_cons, h.addrs]
  · rw [hrange, List.map_cons]
    exact h.sublist.trans (List.sublist_cons_self ..)

theorem Made.addrs_nodup (h : Made fresh s s' as xs) : as.Nodup := by
  rw [h.addrs]
  exact (List.nodup_range' ..).map fresh.block_inj

theorem Made.splits_nodup (h : Made fresh s s' as xs) : xs.Nodup :=
  h.sublist.nodup ((List.nodup_range' ..).map fresh.split_inj)

end Made

theorem containerType_ne (vertical : Bool) :
    containerType vertical ≠ .emptyRoot ∧ containerType vertical ≠ .split := by
  cases vertical <;> decide

/-- A container with two items becomes a node that is in order. -/
theorem container_ok {p : Option Addr} {d : NodeData} {vertical : Bool} {children : Nat}
    (htype : d.type = containerType vertical) (hparent : d.parent = p) (hsplit : d.split = none)
    (hchildren : 2 ≤ children) : NodeOk p d children where
  parent := hparent
  emptyRoot he := absurd (htype.symm.trans he) (containerType_ne vertical).1
  split he := absurd (htype.symm.trans he) (containerType_ne vertical).2
  container _ := ⟨hchildren, hsplit⟩

theorem length_applyItems (fresh : Fresh) (parent : Addr) (items : List (NodeDescriptor QUuid))
    (s : Applying) : (applyItems fresh parent items s).1.length = items.length := by
  induction items generalizing s with
  | nil => rfl
  | cons item items ih => rw [applyItems, List.length_cons, List.length_cons, ih]

mutual

/-- **The node for an item** is made of what was handed out, whatever the item holds. -/
theorem applyItem_made (fresh : Fresh) (parent : Addr) :
    ∀ (item : NodeDescriptor QUuid) (s : Applying),
      EachLinked (some parent) (applyItem fresh parent item s).1 ∧
      Made fresh s (applyItem fresh parent item s).2 (applyItem fresh parent item s).1.addrs
        (applyItem fresh parent item s).1.leafSplits
  | .split _, s => by
    refine ⟨Node.new_linked _ _ _, ?_⟩
    exact ⟨Nat.le_succ _, by simp [applyItem, Node.new, Node.addrs], by simp [applyItem],
      by simp [applyItem]⟩
  | .container flexH flexV vertical items, s => by
    obtain ⟨hchildren, hmade⟩ := applyItems_made fresh (fresh.block s.nodes).addr items
      { s with nodes := s.nodes + 1 }
    constructor
    · refine (each_node ..).mpr ⟨⟨rfl, fun he => ?_, fun he => ?_⟩, hchildren⟩
      · exact absurd he (containerType_ne vertical).1
      · exact absurd he (containerType_ne vertical).2
    · have hleaves : (applyItem fresh parent (.container flexH flexV vertical items) s).1.leafSplits
          = Node.forestSplits _ := Node.leafSplits_of_split_none _ rfl
      rw [hleaves]
      exact hmade.node

theorem applyItems_made (fresh : Fresh) (parent : Addr) :
    ∀ (items : List (NodeDescriptor QUuid)) (s : Applying),
      (∀ n ∈ (applyItems fresh parent items s).1, EachLinked (some parent) n) ∧
      Made fresh s (applyItems fresh parent items s).2
        (keysAll NodeData.addr (applyItems fresh parent items s).1)
        (Node.forestSplits (applyItems fresh parent items s).1)
  | [], s => ⟨by simp [applyItems], .refl⟩
  | item :: items, s => by
    obtain ⟨hn, hmade⟩ := applyItem_made fresh parent item s
    obtain ⟨hns, hmade'⟩ := applyItems_made fresh parent items (applyItem fresh parent item s).2
    refine ⟨List.forall_mem_cons.mpr ⟨hn, hns⟩, ?_⟩
    have hboth := hmade.trans hmade'
    rwa [Node.addrs, ← keysAll_cons, ← Node.forestSplits_cons] at hboth

end

mutual

/-- The node for an item that branches is in order. -/
theorem applyItem_ok (fresh : Fresh) (parent : Addr) : ∀ (item : NodeDescriptor QUuid) (s : Applying),
    item.Branches → EachOk (some parent) (applyItem fresh parent item s).1
  | .split _, _, _ => Node.new_ok _ _ _
  | .container _ _ _ items, s, h => by
    have hchildren := applyItems_ok fresh (fresh.block s.nodes).addr items
      { s with nodes := s.nodes + 1 } h.2
    refine (each_node ..).mpr ⟨container_ok rfl rfl rfl ?_, hchildren⟩
    rw [length_applyItems]
    exact h.1

theorem applyItems_ok (fresh : Fresh) (parent : Addr) :
    ∀ (items : List (NodeDescriptor QUuid)) (s : Applying), NodeDescriptor.BranchAll items →
      ∀ n ∈ (applyItems fresh parent items s).1, EachOk (some parent) n
  | [], _, _ => by simp [applyItems]
  | item :: items, s, h =>
    List.forall_mem_cons.mpr ⟨applyItem_ok fresh parent item s h.1,
      applyItems_ok fresh parent items (applyItem fresh parent item s).2 h.2⟩

end

/-- The tree that a layout with a container at the root gives, as far as its addresses and splits
go. -/
theorem applyItems_root (fresh : Fresh) {d : NodeData} (hb : ∀ k, (fresh.block k).addr ≠ d.addr)
    (items : List (NodeDescriptor QUuid)) (type : NodeType) (hsplit : d.split = none) :
    let applied := applyItems fresh d.addr items { nodes := 0, splits := [] }
    let root : Node := .node { d with type := type } applied.1
    root.addrs.Nodup ∧ root.leafSplits = applied.2.splits ∧ applied.2.splits.Nodup := by
  intro applied root
  obtain ⟨-, hmade⟩ := applyItems_made fresh d.addr items { nodes := 0, splits := [] }
  have hsplits := hmade.splits
  rw [List.nil_append] at hsplits
  refine ⟨List.nodup_cons.mpr ⟨?_, hmade.addrs_nodup⟩, ?_, hsplits ▸ hmade.splits_nodup⟩
  · intro hmem
    have haddrs := hmade.addrs
    unfold keysAll at haddrs
    obtain ⟨k, -, hk⟩ := List.mem_map.mp (haddrs ▸ hmem)
    exact hb k hk
  · exact (Node.leafSplits_of_split_none (d := { d with type := type }) _ hsplit).trans hsplits.symm

/-! ## Runs -/

/-- No operation takes the first or the last of no children, and every container has children. -/
structure Unbroken (s : SplitContainer) : Prop where
  defined : ∀ op, Allowed s op → (apply s op).isSome
  select : ∀ direction, (s.selectNextSplit direction).isSome
  children : Each NodeData.addr (fun _ d children =>
    d.type = .verticalContainer ∨ d.type = .horizontalContainer → 0 < children) none s.baseNode

theorem WellFormed.unbroken {s : SplitContainer} (h : WellFormed s) : Unbroken s where
  defined op hop := by
    obtain ⟨s', hs', -⟩ := apply_ok op h hop
    exact Option.isSome_of_eq_some hs'
  select direction := selectNextSplit_isSome direction h
  children := Each.mono _ _ (fun _ _ _ hd htype =>
    Nat.lt_of_lt_of_le Nat.zero_lt_two (hd.container htype).1) h.tree.each

/-- A layout that branches gives a container that is in order. -/
theorem applyFromDescriptor_ok (fresh : Fresh) {b : Block} (hb : ∀ k, (fresh.block k).addr ≠ b.addr)
    {rootNode : NodeDescriptor QUuid} (h : rootNode.Branches) :
    ∃ s, applyFromDescriptor fresh rootNode (new b) = some s ∧ WellFormed s := by
  cases rootNode with
  | split descriptor =>
    have hfree : Free (new b).baseNode (fresh.block 0) (fresh.block 1) :=
      ⟨by simpa [new, Node.addrs] using hb 0, by simpa [new, Node.addrs] using hb 1,
        fun he => absurd (fresh.block_inj he) (by decide)⟩
    have hinsert : ∃ s, (new b).insertSplit (fresh.split 0) .right none (fresh.block 0) (fresh.block 1)
        = some s ∧ WellFormed s :=
      insertSplit_ok .right (new_wellFormed b) List.not_mem_nil nofun hfree
    exact hinsert
  | container flexH flexV vertical items =>
    obtain ⟨hlength, hitems⟩ := h
    obtain ⟨haddrs, hleaves, hsplits⟩ := applyItems_root fresh (d := (new b).baseNode.label) hb items
      (containerType vertical) rfl
    refine ⟨_, rfl, ⟨⟨?_, haddrs⟩, .of_eq hleaves, hsplits⟩⟩
    refine (each_node ..).mpr ⟨container_ok rfl rfl rfl ?_, applyItems_ok fresh b.addr items _ hitems⟩
    exact hlength.trans_eq (length_applyItems ..).symm

/-- **Runs after a layout is loaded.** If every container of the layout has two items, no run breaks the
container. -/
theorem run_unbroken (fresh : Fresh) {b : Block} (hb : ∀ k, (fresh.block k).addr ≠ b.addr)
    {rootNode : NodeDescriptor QUuid} (h : rootNode.Branches) :
    ∃ s₀, applyFromDescriptor fresh rootNode (new b) = some s₀ ∧
      ∀ ops s, Run Step s₀ ops s → Unbroken s := by
  obtain ⟨s₀, hs₀, hok⟩ := applyFromDescriptor_ok fresh hb h
  exact ⟨s₀, hs₀, fun ops s hrun => (hrun.invariant step_wellFormed hok).unbroken⟩

/-- A heap that is never used up: node `k + 1` and split `k` come next. -/
def counting : Fresh where
  block k := ⟨k + 1, none⟩
  split k := k
  block_inj _ _ h := Nat.succ.inj h
  split_inj _ _ h := h

/-- The `splits2` of a tab: a container with as many splits as items. -/
def containerOf (items : Nat) : QJsonObject :=
  [("items".toList, .array (List.replicate items (.object [("type".toList, .string "split".toList)]))),
    ("type".toList, .string "horizontal".toList)]

theorem loadRootNode_containerOf (items : Nat) : ∃ descriptor,
    TabDescriptor.loadRootNode oneUuid (containerOf items)
      = some (.container one one false (List.replicate items (.split descriptor))) := by
  have hroot : TabDescriptor.loadRootNode oneUuid (containerOf items)
      = some (loadContainerNode oneUuid (containerOf items)) := rfl
  rw [hroot, loadContainerNode_eq]
  refine ⟨loadSplitNode oneUuid [("type".toList, .string "split".toList)], ?_⟩
  have hitems : (QJsonObject.value (containerOf items) "items").toArray
      = List.replicate items (.object [("type".toList, .string "split".toList)]) := rfl
  rw [hitems, List.map_replicate]
  rfl

/-- Two items. -/
theorem run_unbroken_two : ∃ rootNode s₀,
    TabDescriptor.loadRootNode oneUuid (containerOf 2) = some rootNode ∧
    applyFromDescriptor counting rootNode (new ⟨0, none⟩) = some s₀ ∧ s₀.splits = [0, 1] ∧
    ∀ ops s, Run Step s₀ ops s → Unbroken s := by
  obtain ⟨descriptor, hload⟩ := loadRootNode_containerOf 2
  have hbranches : NodeDescriptor.Branches
      (.container one one false (List.replicate 2 (.split descriptor))) :=
    ⟨Nat.le_refl 2, trivial, trivial, trivial⟩
  obtain ⟨s₀, hs₀, hruns⟩ := run_unbroken counting (b := ⟨0, none⟩) (fun k => Nat.succ_ne_zero k)
    hbranches
  refine ⟨_, s₀, hload, hs₀, ?_, hruns⟩
  rw [← Option.some.inj hs₀]
  rfl

/-- The only split of a container is released: the source takes the last of no siblings. -/
theorem releaseSplit_of_one : ∃ rootNode s,
    TabDescriptor.loadRootNode oneUuid (containerOf 1) = some rootNode ∧
    applyFromDescriptor counting rootNode (new ⟨0, none⟩) = some s ∧
    Allowed s (.releaseSplit 0) ∧ apply s (.releaseSplit 0) = none ∧ ¬ Unbroken s := by
  obtain ⟨descriptor, hload⟩ := loadRootNode_containerOf 1
  refine ⟨_, _, hload, rfl, List.mem_singleton.mpr rfl, rfl, ?_⟩
  intro hunbroken
  exact absurd (hunbroken.defined (.releaseSplit 0) (List.mem_singleton.mpr rfl)) Bool.false_ne_true

end SplitContainer

end Dankerino
