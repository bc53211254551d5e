import Dankerino.Widgets.LoadedContainer

/-!
# Inserting a split next to another

`SplitContainer::insertSplit` puts a split exactly where it is asked to, in every tree that the
program can reach: trees that grew from an empty container as well as loaded ones, whose containers
may have any number of children. `Connected` is what all of them keep.
-/

namespace Dankerino

open Infra Infra.RoseTree Node

variable {QUuid : Type}

/-- A split and the one next to which it was inserted, in their order. -/
def sideBySide (direction : Direction) (split relativeTo : Split) : List Split :=
  match direction with
  | .left | .above => [split, relativeTo]
  | .right | .below => [relativeTo, split]

/--
The depth-first order is the old one with the split right before the other or right after it, and
the nodes of the two have the same parent, a container of the direction's orientation.
-/
structure InsertedNextTo (root root' : Node) (split : Split) (direction : Direction)
    (relativeTo : Split) : Prop where
  order : ∃ xs ys, root.leafSplits = xs ++ relativeTo :: ys ∧
    root'.leafSplits = xs ++ (sideBySide direction split relativeTo ++ ys)
  parent : ∃ n m a p, root'.findNodeContainingSplit (some split) = some n ∧
    root'.findNodeContainingSplit (some relativeTo) = some m ∧ n.label.parent = some a ∧
    m.label.parent = some a ∧ root'.get a = some p ∧ p.label.type = toContainerType direction

theorem sideBySide_eq (direction : Direction) (split relativeTo : Split) :
    sideBySide direction split relativeTo = putSplit direction split [relativeTo] := by
  cases direction <;> rfl

namespace Node

/-! ## The node of a split -/

/-- When no split occurs twice, a split is found in the node that has it. -/
theorem findNodeContainingSplit_plug {ctx : Ctx NodeData} {n : Node} {x : Split}
    (ht : n.label.type = .split) (hx : n.label.split = some x)
    (hnd : (leafSplits (plug ctx n)).Nodup) :
    findNodeContainingSplit (some x) (plug ctx n) = some n := by
  refine lookup_plug_of_before _ ctx (lookup_of_key _ (by rw [ht, hx])) ?_
  intro hbefore
  obtain ⟨d, hd, hkey⟩ := List.mem_map.mp hbefore
  rw [Prod.mk.injEq] at hkey
  rw [leafSplits_plug, around] at hnd
  -- the split would be before the node, and in it
  refine (List.nodup_append.mp hnd).2.2 x ?_ x (List.mem_append_left _ ?_) rfl
  · exact List.mem_filterMap.mpr ⟨d, hd, by rw [leafSplit, if_pos hkey.1, hkey.2]⟩
  · cases n with
    | node d cs =>
      rw [label_node] at ht hx
      rw [leafSplits_node, leafSplit, if_pos ht, hx]
      exact List.mem_cons_self ..

/-- Relative to a node that has a split, the new split's node goes next to that of the split. -/
theorem exists_beside_of_inserted {ctx : Ctx NodeData} {n root : Node} {split relativeTo : Split}
    {direction : Direction} {c b : Block} (hi : Inserted split direction c b ctx n root)
    (ht : n.label.type = .split) (hx : n.label.split = some relativeTo) :
    ∃ ctx d left right m, m.label.type = .split ∧ m.label.split = some relativeTo ∧
      d.type = toContainerType direction ∧
      root = plug ctx (.node d (left ++ (beside direction m (new b split (some d.addr)) ++ right))) := by
  cases hi with
  | beside f ctx n hf => exact ⟨ctx, f.label, f.left, f.right, n, ht, hx, hf, rfl⟩
  | append _ _ _ htype =>
    exact absurd (htype.trans ht) (toContainerType_ne direction).2
  | nest =>
    refine ⟨ctx, { n.label with type := toContainerType direction, split := none }, [], [],
      clone n c, ht, hx, rfl, ?_⟩
    rw [List.append_nil]
    rfl

theorem exists_plug_child {ctx : Ctx NodeData} {d : NodeData} {cs : List Node} {m : Node}
    (hm : m ∈ cs) : ∃ f : Frame NodeData, f.label = d ∧ plug ctx (.node d cs) = plug (f :: ctx) m := by
  obtain ⟨left, right, rfl⟩ := List.append_of_mem hm
  exact ⟨⟨d, left, right⟩, rfl, rfl⟩

/-- **Inserting relative to the node of a split.** -/
theorem insertedNextTo {ctx : Ctx NodeData} {n root : Node} {split relativeTo : Split}
    {direction : Direction} {c b : Block} (hi : Inserted split direction c b ctx n root)
    (h : Linked (plug ctx n)) (hroot : Linked root) (ht : n.label.type = .split)
    (hx : n.label.split = some relativeTo) (hnd : root.leafSplits.Nodup) :
    InsertedNextTo (plug ctx n) root split direction relativeTo := by
  constructor
  · have hn : n.leafSplits = [relativeTo] := leafSplits_of_type_split h.hole ht hx
    have hplaced : placed ctx n split direction = sideBySide direction split relativeTo := by
      rw [placed, if_neg, hn, sideBySide_eq]
      exact fun he => (toContainerType_ne direction).2 (he.2.trans ht)
    exact ⟨_, _, by rw [leafSplits_plug, hn]; rfl, by rw [hi.leafSplits_eq, hplaced]; rfl⟩
  · obtain ⟨ctx', d, left, right, m, hmt, hmx, htype, rfl⟩ := exists_beside_of_inserted hi ht hx
    -- both nodes are children of the container, and the search for their splits finds them
    have hchild : ∀ k ∈ beside direction m (new b split (some d.addr)), ∀ y, k.label.type = .split →
        k.label.split = some y → findNodeContainingSplit (some y) (plug ctx' (.node d
            (left ++ (beside direction m (new b split (some d.addr)) ++ right)))) = some k ∧
          k.label.parent = some d.addr := by
      intro k hk y hkt hky
      obtain ⟨f, rfl, hplug⟩ : ∃ f : Frame NodeData, f.label = d ∧
          plug ctx' (.node d _) = plug (f :: ctx') k :=
        exists_plug_child (List.mem_append_right left (List.mem_append_left right hk))
      rw [hplug] at hroot hnd ⊢
      exact ⟨findNodeContainingSplit_plug hkt hky hnd, hroot.parent⟩
    have hm := hchild m (by rw [beside]; split <;> simp) relativeTo hmt hmx
    have hnew := hchild (new b split (some d.addr)) (by rw [beside]; split <;> simp) split rfl rfl
    exact ⟨_, m, d.addr, _, hnew.1, hm.1, hnew.2, hm.2, get_plug ctx' (.node d _) hroot.nodup, htype⟩

/-- What an insertion that is defined keeps, relative to whichever node. -/
theorem linked_of_insertSplitRelative {ctx : Ctx NodeData} {n root : Node} {split : Split}
    {direction : Direction} {c b : Block} (h : Linked (plug ctx n))
    (hfree : SplitContainer.Free (plug ctx n) c b)
    (hroot : insertSplitRelative (plug ctx n) n.label.addr split direction c b = some root) :
    Linked root ∧ root.leafSplits.Perm (split :: leafSplits (plug ctx n)) := by
  by_cases he : n.label.type = .emptyRoot
  · cases ctx with
    | nil =>
      rw [plug_nil] at h hroot ⊢
      rw [insertSplitRelative_emptyRoot split c b h he] at hroot
      have hn := h.each
      have hnd := h.nodup
      cases n with
      | node d cs =>
        -- the assertions of `setSplit` held
        obtain ⟨⟨hsplit, hlen⟩, hset⟩ := Option.ite_none_right_eq_some.mp hroot
        obtain rfl : cs = [] := List.length_eq_zero_iff.mp hlen
        obtain rfl := Option.some.inj hset
        obtain ⟨hd, hcs⟩ := (each_node ..).mp hn
        refine ⟨⟨(each_node ..).mpr ⟨⟨hd.parent, nofun, fun _ => rfl⟩, hcs⟩, hnd⟩, ?_⟩
        have hold : leafSplits (.node d []) = [] := leafSplits_of_split_none [] hsplit
        rw [hold]
        exact .refl _
    | cons f ctx =>
      have hn := h.hole
      cases n with
      | node d cs => exact absurd (((each_node ..).mp hn).1.emptyRoot he) nofun
  · obtain ⟨root', hroot', hi⟩ := insertSplitRelative_inserted split direction h he hfree
    obtain rfl := Option.some.inj (hroot.symm.trans hroot')
    refine ⟨hi.linked h he hfree, ?_⟩
    rw [hi.leafSplits_eq, leafSplits_plug]
    exact around_perm (placed_perm ctx n split direction)

end Node

/-! ## Runs -/

namespace SplitContainer

/-- A container that is new, or one to which a saved layout was applied. -/
inductive Start (QUuid : Type) : SplitContainer → Prop
  | new (b : Block) : Start QUuid (new b)
  | loaded (fresh : Fresh) (b : Block) (hb : ∀ k, (fresh.block k).addr ≠ b.addr)
      (rootNode : NodeDescriptor QUuid) (s : SplitContainer)
      (hs : applyFromDescriptor fresh rootNode (SplitContainer.new b) = some s) : Start QUuid s

/-- `WellFormed`, but for the number of children that a container has. -/
structure Connected (s : SplitContainer) : Prop where
  tree : Linked s.baseNode
  leaves : s.baseNode.leafSplits.Perm s.splits
  nodup : s.splits.Nodup

theorem WellFormed.connected {s : SplitContainer} (h : WellFormed s) : Connected s :=
  ⟨h.tree.linked, h.leaves, h.nodup⟩

theorem Start.connected {s : SplitContainer} (h : Start QUuid s) : Connected s := by
  cases h with
  | new b => exact (new_wellFormed b).connected
  | loaded fresh b hb rootNode s hs =>
    cases rootNode with
    | split descriptor =>
      have hbranches : (.split descriptor : NodeDescriptor QUuid).Branches := trivial
      obtain ⟨s', hs', hok⟩ := applyFromDescriptor_ok fresh hb hbranches
      obtain rfl := Option.some.inj (hs.symm.trans hs')
      exact hok.connected
    | container flexH flexV vertical items =>
      obtain rfl := Option.some.inj hs
      obtain ⟨haddrs, hleaves, hsplits⟩ := applyItems_root fresh (d := (SplitContainer.new b).baseNode.label)
        hb items (containerType vertical) rfl
      refine ⟨⟨(each_node ..).mpr ⟨⟨rfl, fun _ => rfl, fun he => ?_⟩, ?_⟩, haddrs⟩, .of_eq hleaves, hsplits⟩
      · exact absurd he (containerType_ne vertical).2
      · exact (applyItems_made fresh b.addr items { nodes := 0, splits := [] }).1

variable {s s' : SplitContainer}

theorem Connected.insertSplit {split : Split} {direction : Direction} {relativeTo : Option Addr}
    {c b : Block} (h : Connected s) (hnew : split ∉ s.splits) (hfree : Free s.baseNode c b)
    (hs : s.insertSplit split direction relativeTo c b = some s') : Connected s' := by
  have hsome : ∀ a, s.insertSplit split direction (some a) c b = some s' → Connected s' := by
    intro a hs
    by_cases ha : s.baseNode.isOrContainsNode a = true
    · rw [insertSplit_some ha] at hs
      obtain ⟨root, hroot, rfl⟩ := Option.map_eq_some_iff.mp hs
      obtain ⟨ctx, n, hplug, rfl⟩ := (isOrContainsNode_iff ..).mp ha
      rw [hplug] at hroot hfree
      obtain ⟨hlinked, hperm⟩ := linked_of_insertSplitRelative (hplug ▸ h.tree) hfree hroot
      rw [← hplug] at hperm
      refine ⟨hlinked, ?_, ?_⟩
      · exact (hperm.trans (h.leaves.cons split)).trans (List.perm_append_singleton split _).symm
      · exact (List.perm_append_singleton split s.splits).nodup_iff.mpr
          (List.nodup_cons.mpr ⟨hnew, h.nodup⟩)
    · rw [SplitContainer.insertSplit, if_neg ha] at hs
      cases hs
  cases relativeTo with
  | some a => exact hsome a hs
  | none =>
    rw [insertSplit_none h.tree] at hs
    exact hsome _ hs

theorem Connected.setSelected {split : Option Split} (h : Connected s)
    (hs : s.setSelected split = some s') : Connected s' := by
  rw [SplitContainer.setSelected] at hs
  by_cases hin : split ∈ s.splits.map some
  · rw [if_pos hin] at hs
    cases hfind : s.baseNode.findNodeContainingSplit split with
    | none =>
      rw [hfind] at hs
      obtain rfl := Option.some.inj hs
      exact ⟨h.tree, h.leaves, h.nodup⟩
    | some n =>
      rw [hfind] at hs
      obtain ⟨-, -, ctx, hplug⟩ := findNodeContainingSplit_eq_some hfind
      have htree : Linked (plug ctx n) := hplug ▸ h.tree
      obtain ⟨root, hroot, hsame⟩ := setPreferedTargetRecursive_ok htree (length_ctx_lt ctx n)
      rw [← hplug] at hroot hsame
      obtain ⟨-, -, hs⟩ := Option.bind_eq_some_iff.mp hs
      rw [hroot] at hs
      obtain rfl := Option.some.inj hs
      exact ⟨hsame.linked h.tree, hsame.leafSplits ▸ h.leaves, h.nodup⟩
  · rw [if_neg hin] at hs
    exact Option.some.inj hs ▸ h

theorem Connected.releaseSplit {split : Split} {position : Position} (h : Connected s)
    (hs : s.releaseSplit split = some (s', position)) : Connected s' := by
  obtain ⟨n, hfind, hs⟩ := Option.bind_eq_some_iff.mp hs
  obtain ⟨ht, hx, ctx, hplug⟩ := findNodeContainingSplit_eq_some hfind
  have htree : Linked (plug ctx n) := hplug ▸ h.tree
  obtain ⟨hin, hs⟩ := Option.ite_none_left_eq_some.mp hs
  obtain ⟨⟨root, position'⟩, hrel, hs⟩ := Option.bind_eq_some_iff.mp hs
  rcases releaseSplit_cases htree ht with ⟨-, -, -, hnone⟩ | ⟨root', position'', hrel', hr⟩
  · rw [hplug, hnone] at hrel
    cases hrel
  · rw [hplug, hrel'] at hrel
    obtain ⟨rfl, rfl⟩ := Prod.mk.inj (Option.some.inj hrel)
    have hperm := hr.leaves_perm htree ht hx
    rw [← hplug] at hperm
    have hleaves : root'.leafSplits.Perm (s.splits.erase split) := by
      have := (hperm.symm.trans h.leaves).erase split
      rwa [List.erase_cons_head] at this
    -- the selection is the only thing that is still to be changed
    have hok : Connected { s with baseNode := root', splits := s.splits.erase split } :=
      ⟨hr.linked htree, hleaves, h.nodup.erase split⟩
    by_cases hlen : (s.splits.erase split).length = 0
    · obtain ⟨s'', hsel, hs⟩ := Option.bind_eq_some_iff.mp ((if_pos hlen).symm.trans hs)
      obtain ⟨rfl, -⟩ := Prod.mk.inj (Option.some.inj hs)
      exact hok.setSelected hsel
    · obtain ⟨rfl, -⟩ := Prod.mk.inj (Option.some.inj ((if_neg hlen).symm.trans hs))
      exact hok

theorem step_connected (s : SplitContainer) (op : Op) (s' : SplitContainer) (h : Connected s)
    (hs : Step s op s') : Connected s' := by
  obtain ⟨hop, hs⟩ := hs
  cases op with
  | insertSplit split direction relativeTo c b => exact h.insertSplit hop.1 hop.2.2 hs
  | insertSplitNextTo split direction relativeTo c b =>
    obtain ⟨n, -, hs⟩ := Option.bind_eq_some_iff.mp hs
    exact h.insertSplit hop.1 hop.2.2 hs
  | releaseSplit split =>
    obtain ⟨⟨t, position⟩, hrel, rfl⟩ := Option.map_eq_some_iff.mp hs
    exact h.releaseSplit hrel
  | deleteSplit split =>
    obtain ⟨⟨t, position⟩, hrel, rfl⟩ := Option.map_eq_some_iff.mp hs
    exact h.releaseSplit hrel
  | setSelected split => exact h.setSelected hs

/--
**Inserting a split next to another puts it exactly there**, in every container that a run of the
program reaches, whatever its tree looks like and whatever memory the new nodes get.
-/
theorem insertSplitNextTo_exact {s₀ : SplitContainer} {ops : List Op} (hstart : Start QUuid s₀)
    (hrun : Run Step s₀ ops s) {split relativeTo : Split} (direction : Direction) {c b : Block}
    (hrel : relativeTo ∈ s.baseNode.leafSplits) (hnew : split ∉ s.baseNode.leafSplits)
    (hfree : Free s.baseNode c b) :
    ∃ s', s.insertSplitNextTo split direction relativeTo c b = some s' ∧
      InsertedNextTo s.baseNode s'.baseNode split direction relativeTo := by
  have hs : Connected s := hrun.invariant step_connected hstart.connected
  obtain ⟨ctx, n, hfind, hplug, ht, hx⟩ := findNodeContainingSplit_of_mem hrel
  have htree : Linked (plug ctx n) := hplug ▸ hs.tree
  have he : n.label.type ≠ .emptyRoot := fun he => nomatch he.symm.trans ht
  rw [hplug] at hfree
  obtain ⟨root, hroot, hi⟩ := insertSplitRelative_inserted split direction htree he hfree
  have hin : s.baseNode.isOrContainsNode n.label.addr = true :=
    (isOrContainsNode_iff ..).mpr ⟨ctx, n, hplug, rfl⟩
  rw [← hplug] at hroot
  refine ⟨SplitContainer.addSplit { s with baseNode := root } split, ?_, ?_⟩
  · simp only [insertSplitNextTo, hfind, Option.bind_eq_bind, Option.bind_some]
    rw [insertSplit_some hin, hroot]
    rfl
  · have hnd : root.leafSplits.Nodup := by
      -- the splits of the new tree are those of the old one and the new split, so no split is there twice
      have hperm : (around ctx (placed ctx n split direction)).Perm (split :: around ctx n.leafSplits) :=
        around_perm (placed_perm ctx n split direction)
      rw [← hi.leafSplits_eq, ← leafSplits_plug, ← hplug] at hperm
      exact hperm.nodup_iff.mpr (List.nodup_cons.mpr ⟨hnew, hs.leaves.nodup_iff.mpr hs.nodup⟩)
    rw [hplug]
    exact insertedNextTo hi htree (hi.linked htree he hfree) ht hx hnd

/-- Two splits side by side, and a third one above the second. -/
theorem insertSplitNextTo_exact_above : ∃ s s', Run Step (new ⟨0, none⟩)
      [.insertSplit 1 .right none ⟨1, none⟩ ⟨2, none⟩,
        .insertSplitNextTo 2 .right 1 ⟨1, none⟩ ⟨2, none⟩] s ∧
    s.insertSplitNextTo 3 .above 2 ⟨3, none⟩ ⟨4, none⟩ = some s' ∧
    InsertedNextTo s.baseNode s'.baseNode 3 .above 2 := by
  have hsplits : ([.insertSplit 1 .right none ⟨1, none⟩ ⟨2, none⟩,
      .insertSplitNextTo 2 .right 1 ⟨1, none⟩ ⟨2, none⟩].foldlM check (new ⟨0, none⟩)).map
        (fun s => (s.baseNode.leafSplits, s.baseNode.addrs)) = some ([1, 2], [0, 1, 2]) := by decide
  obtain ⟨s, hs, hsplits⟩ := Option.map_eq_some_iff.mp hsplits
  obtain ⟨hleaves, haddrs⟩ := Prod.mk.inj hsplits
  have hrun := Run.of_foldlM step_of_check hs
  have hstart : Start Unit (new ⟨0, none⟩) := .new ⟨0, none⟩
  have hrel : 2 ∈ s.baseNode.leafSplits := by rw [hleaves]; decide
  have hnew : 3 ∉ s.baseNode.leafSplits := by rw [hleaves]; decide
  have hfree : Free s.baseNode ⟨3, none⟩ ⟨4, none⟩ :=
    ⟨by rw [haddrs]; decide, by rw [haddrs]; decide, by decide⟩
  obtain ⟨s', hs', hnext⟩ := insertSplitNextTo_exact hstart hrun .above hrel hnew hfree
  exact ⟨s, s', hrun, hs', hnext⟩

end SplitContainer

end Dankerino
