import Dankerino.Widgets.SplitWellFormed

/-!
# Cancelling a drag

`Split::drag` releases a split and, when the drag is cancelled, inserts it again at the position
that `releaseSplit` returned. The order of the splits is restored but in one situation: the parent
takes over what its other child held, and when this is a container of the parent's own orientation,
inserting to the left of the parent, or above it, puts the split after the parent's children.
-/

namespace Dankerino

open Infra Infra.RoseTree Node

/--
The split is the first of the two children of a container, the other is a container of the same
orientation, and the node around the container, if there is one, is not.
-/
def ReturnsToEnd (root : Node) (split : Split) : Prop :=
  ∃ n p sibling, root.findNodeContainingSplit (some split) = some n ∧
    n.label.parent.bind root.get = some p ∧ p.children = [n, sibling] ∧
    sibling.label.type = p.label.type ∧
    ∀ g, p.label.parent.bind root.get = some g → g.label.type ≠ p.label.type

/-! ## Where the split was and where it is put -/

theorem toContainerType_sideOf {type : NodeType} (first : Bool)
    (h : type = .verticalContainer ∨ type = .horizontalContainer) :
    toContainerType (sideOf type first) = type := by
  rcases h with rfl | rfl <;> cases first <;> decide

theorem putSplit_sideOf_true (type : NodeType) (split : Split) (others : List Split) :
    putSplit (sideOf type true) split others = split :: others := by
  cases type <;> rfl

theorem putSplit_sideOf_false (type : NodeType) (split : Split) (others : List Split) :
    putSplit (sideOf type false) split others = others ++ [split] := by
  cases type <;> rfl

/-- Among the children of a container of the direction's orientation, next to a child. -/
theorem placed_beside {ctx : Ctx NodeData} {n : Node} {split : Split} {direction : Direction}
    (h : holderType ctx = some (toContainerType direction)) :
    placed ctx n split direction = putSplit direction split n.leafSplits :=
  if_neg fun hne => hne.1 h

theorem get_holder {ctx : Ctx NodeData} {n : Node} (h : TreeOk (plug ctx n)) :
    n.label.parent.bind (get (plug ctx n)) =
      match ctx with
      | [] => none
      | f :: _ => some (.node f.label (f.left ++ n :: f.right)) := by
  rw [h.parent]
  cases ctx with
  | nil => rfl
  | cons f ctx => exact get_plug ctx _ h.nodup

/-- The type of the node around, if there is one. -/
theorem holderType_eq {ctx : Ctx NodeData} {n : Node} (h : TreeOk (plug ctx n)) (type : NodeType) :
    (∀ g, n.label.parent.bind (get (plug ctx n)) = some g → g.label.type ≠ type) ↔
      holderType ctx ≠ some type := by
  rw [get_holder h]
  cases ctx with
  | nil => simp [holderType]
  | cons f ctx => simp [holderType]

/-- `ReturnsToEnd`, said of the context of the split's node. -/
def EndFrame : Ctx NodeData → Prop
  | ⟨d, [], [sibling]⟩ :: ctx => sibling.label.type = d.type ∧ holderType ctx ≠ some d.type
  | _ => False

theorem returnsToEnd_iff {ctx : Ctx NodeData} {n : Node} {split : Split} (h : TreeOk (plug ctx n))
    (hfind : findNodeContainingSplit (some split) (plug ctx n) = some n) :
    ReturnsToEnd (plug ctx n) split ↔ EndFrame ctx := by
  constructor
  · rintro ⟨n', p, sibling, hfind', hp, hcs, htype, hg⟩
    obtain rfl := Option.some.inj (hfind.symm.trans hfind')
    rw [get_holder h] at hp
    cases ctx with
    | nil => cases hp
    | cons f ctx =>
      obtain rfl := Option.some.inj hp
      obtain ⟨d, left, right⟩ := f
      rw [children_node] at hcs
      cases left with
      | nil =>
        obtain rfl : right = [sibling] := (List.cons.inj hcs).2
        have h' : TreeOk (plug ctx (.node d [n, sibling])) := h
        exact ⟨htype, (holderType_eq h' d.type).mp hg⟩
      | cons m left =>
        -- the first child would be the node, and the node its own sibling
        obtain rfl : m = n := (List.cons.inj hcs).1
        exact absurd rfl (addr_ne_sibling (nodup_children h.nodup) (.inl (List.mem_cons_self ..)))
  · intro hend
    match ctx, hend with
    | ⟨d, [], [sibling]⟩ :: ctx, ⟨htype, hholder⟩ =>
      have h' : TreeOk (plug ctx (.node d [n, sibling])) := h
      refine ⟨n, .node d [n, sibling], sibling, hfind, ?_, rfl, htype, ?_⟩
      · exact get_holder h
      · exact (holderType_eq h' d.type).mpr hholder

theorem around_inj {ctx : Ctx NodeData} {xs ys : List Split} :
    around ctx xs = around ctx ys ↔ xs = ys := by
  simp [around]

theorem append_singleton_ne_cons {x : Split} {ys : List Split} (hne : ys ≠ []) (hx : x ∉ ys) :
    ys ++ [x] ≠ x :: ys := by
  cases ys with
  | nil => exact absurd rfl hne
  | cons y ys =>
    intro he
    exact hx ((List.cons.inj he).1 ▸ List.mem_cons_self ..)

/--
**Inserting a split again where it was released.** It is defined, and the order of the splits is
the old one but in an end frame.
-/
theorem Released.insert_back {ctx : Ctx NodeData} {n root : Node} {position : Position} {x : Split}
    (hr : Released ctx n root position) (h : TreeOk (plug ctx n)) (ht : n.label.type = .split)
    (hx : n.label.split = some x) (hnd : (leafSplits (plug ctx n)).Nodup) {c b : Block}
    (hfree : SplitContainer.Free root c b) :
    ∃ root', insertSplitRelative root (position.relativeNode.getD root.label.addr) x
        position.direction c b = some root' ∧
      (root'.leafSplits = leafSplits (plug ctx n) ↔ ¬ EndFrame ctx) := by
  have hn : n.leafSplits = [x] := leafSplits_of_type_split h.linked.hole ht hx
  have hroot : TreeOk root := hr.treeOk h ht
  cases hr with
  | root =>
    obtain ⟨root', hroot', -, hnew, -⟩ :=
      insertSplitRelative_emptyRoot_ok x .right c b hroot rfl
    exact ⟨root', hroot', by rw [hnew, plug_nil, hn]; simp [EndFrame]⟩
  | first ctx d n sibling =>
    have h' : TreeOk (plug ctx (.node d [n, sibling])) := h
    obtain ⟨hd, hcs⟩ := (each_node ..).mp h'.hole
    have hsib : EachOk (some d.addr) sibling := hcs sibling (by simp)
    have hcontainer := hd.container_type (by simp)
    have hdir := toContainerType_sideOf true hcontainer
    have he : (collapsed d sibling).label.type ≠ .emptyRoot := fun he => by
      cases sibling with
      | node sd scs => cases (((each_node ..).mp hsib).1.emptyRoot he).1
    obtain ⟨root', hroot', -, hnew⟩ := insertSplitRelative_ok x (sideOf d.type true) hroot he hfree
    refine ⟨root', hroot', ?_⟩
    have hold : leafSplits (plug (⟨d, [], [sibling]⟩ :: ctx) n)
        = around ctx (x :: sibling.leafSplits) := by
      rw [leafSplits_plug, around_cons, hn, leafSplit]
      rw [(hd.container hcontainer).2]
      simp
    rw [hold] at hnd ⊢
    rw [hnew, around_inj, placed, hdir, leafSplits_collapsed, putSplit_sideOf_true]
    have hxs : x ∉ sibling.leafSplits := by
      have := (List.nodup_append.mp (List.nodup_append.mp hnd).2.1).1
      exact (List.nodup_cons.mp this).1
    by_cases hend : holderType ctx ≠ some d.type ∧ d.type = sibling.label.type
    · -- the container becomes one of its own orientation, and the split its last child
      refine iff_of_false ?_ (not_not_intro ⟨hend.2.symm, hend.1⟩)
      exact (if_pos hend).symm ▸ append_singleton_ne_cons (leafSplits_ne_nil hsib) hxs
    · exact iff_of_true (if_neg hend) fun hf => hend ⟨hf.2, hf.1.symm⟩
  | second ctx d n sibling =>
    have h' : TreeOk (plug ctx (.node d [sibling, n])) := h
    obtain ⟨hd, hcs⟩ := (each_node ..).mp h'.hole
    have hsib : EachOk (some d.addr) sibling := hcs sibling (by simp)
    have he : (collapsed d sibling).label.type ≠ .emptyRoot := fun he => by
      cases sibling with
      | node sd scs => cases (((each_node ..).mp hsib).1.emptyRoot he).1
    obtain ⟨root', hroot', -, hnew⟩ := insertSplitRelative_ok x (sideOf d.type false) hroot he hfree
    refine ⟨root', hroot', iff_of_true ?_ (by simp [EndFrame])⟩
    rw [hnew, leafSplits_plug, around_cons, hn, leafSplit,
      (hd.container (hd.container_type (by simp))).2, around_inj, placed, leafSplits_collapsed,
      putSplit_sideOf_false]
    simp
  | last ctx d n back left hne =>
    have h' : TreeOk (plug ctx (.node d ((left ++ [back]) ++ [n]))) := h
    have hback : TreeOk (plug (⟨d, left, []⟩ :: ctx) back) := hroot
    have hcontainer := ((each_node ..).mp h'.hole).1.container_type (by simp)
    have he : back.label.type ≠ .emptyRoot := fun he => by cases ctx_eq_nil hback he
    obtain ⟨root', hroot', -, hnew⟩ := insertSplitRelative_ok x (sideOf d.type false) hback he hfree
    have hholder : holderType (⟨d, left, []⟩ :: ctx) = some (toContainerType (sideOf d.type false)) :=
      congrArg some (toContainerType_sideOf false hcontainer).symm
    refine ⟨root', hroot', iff_of_true ?_ ?_⟩
    · rw [hnew, placed_beside hholder,
        putSplit_sideOf_false, leafSplits_plug, around_cons, around_cons, hn]
      simp
    · cases left with
      | nil => exact absurd rfl hne
      | cons m left => exact id
  | middle ctx d n next left right hne =>
    have h' : TreeOk (plug ctx (.node d (left ++ n :: next :: right))) := h
    have hnext : TreeOk (plug (⟨d, left, right⟩ :: ctx) next) := hroot
    have hcontainer := ((each_node ..).mp h'.hole).1.container_type
      (List.length_pos_of_ne_nil (by simp))
    have he : next.label.type ≠ .emptyRoot := fun he => by cases ctx_eq_nil hnext he
    obtain ⟨root', hroot', -, hnew⟩ := insertSplitRelative_ok x (sideOf d.type true) hnext he hfree
    have hholder : holderType (⟨d, left, right⟩ :: ctx) = some (toContainerType (sideOf d.type true)) :=
      congrArg some (toContainerType_sideOf true hcontainer).symm
    refine ⟨root', hroot', iff_of_true ?_ ?_⟩
    · rw [hnew, placed_beside hholder,
        putSplit_sideOf_true, leafSplits_plug, around_cons, around_cons, hn]
      simp
    · rcases left with _ | ⟨m, left⟩
      · rcases right with _ | ⟨m, right⟩
        · exact absurd rfl hne
        · exact id
      · exact id

namespace SplitContainer

variable {s : SplitContainer}

theorem releaseSplit_released_eq {split : Split} (h : WellFormed s) (hs : split ∈ s.splits) :
    ∃ ctx n root position s', s.baseNode = plug ctx n ∧
      s.baseNode.findNodeContainingSplit (some split) = some n ∧
      n.label.type = .split ∧ n.label.split = some split ∧ Released ctx n root position ∧
      s.releaseSplit split = some (s', position) ∧ s'.baseNode = root := by
  obtain ⟨ctx, n, hfind, hplug, ht, hx⟩ := h.find hs
  obtain ⟨root, position, hrel, hr⟩ := releaseSplit_released (hplug ▸ h.tree) ht
  refine ⟨ctx, n, root, position, { s with baseNode := root, splits := s.splits.erase split },
    hplug, hfind, ht, hx, hr, ?_, rfl⟩
  rw [← hplug] at hrel
  simp only [releaseSplit, hfind, hrel, hs, not_true_eq_false, if_false, Option.bind_eq_bind,
    Option.bind_some]
  split
  · next hlen =>
    -- there is no split left that could be selected
    rw [setSelected, List.length_eq_zero_iff.mp hlen]
    rfl
  · rfl

/-- Only next to a node of the tree can be inserted. -/
theorem isOrContainsNode_of_insert {root root' : Node} {a : Addr} {split : Split}
    {direction : Direction} {c b : Block}
    (h : insertSplitRelative root a split direction c b = some root') :
    root.isOrContainsNode a = true := by
  obtain ⟨n, hn, -⟩ := Option.bind_eq_some_iff.mp h
  rw [isOrContainsNode, hn]
  rfl

/--
**Cancelling a drag restores the order of the splits exactly when the split does not return to the
end** of a container that its parent has become.
-/
theorem cancel_drag_iff {b₀ : Block} {ops : List Op} (h : Run Step (new b₀) ops s) {split : Split}
    (hs : split ∈ s.splits) :
    ∃ s' position, s.releaseSplit split = some (s', position) ∧
      ∀ c b, Free s'.baseNode c b → ∃ s'', s'.insertSplitAt split position c b = some s'' ∧
        (s''.baseNode.leafSplits = s.baseNode.leafSplits ↔ ¬ ReturnsToEnd s.baseNode split) := by
  have hwf := run_wellFormed h
  obtain ⟨ctx, n, root, position, s', hplug, hfind, ht, hx, hr, hrel, hroot⟩ :=
    releaseSplit_released_eq hwf hs
  refine ⟨s', position, hrel, fun c b hfree => ?_⟩
  have htree : TreeOk (plug ctx n) := hplug ▸ hwf.tree
  have hnd : s.baseNode.leafSplits.Nodup := hwf.leaves.nodup_iff.mpr hwf.nodup
  rw [hplug] at hnd hfind ⊢
  subst hroot
  obtain ⟨root', hins, horder⟩ := hr.insert_back htree ht hx hnd hfree
  refine ⟨SplitContainer.addSplit { s' with baseNode := root' } split, ?_, ?_⟩
  · have hin := isOrContainsNode_of_insert hins
    rw [insertSplitAt]
    cases hrn : position.relativeNode with
    | none =>
      rw [hrn, Option.getD_none] at hins hin
      rw [insertSplit_none (hr.treeOk htree ht).linked, insertSplit_some hin, hins]
      rfl
    | some a =>
      rw [hrn, Option.getD_some] at hins hin
      rw [insertSplit_some hin, hins]
      rfl
  · rw [returnsToEnd_iff htree hfind]
    exact horder

/-- Two splits side by side, the second of them dragged. -/
theorem cancel_drag_iff_second : ∃ s s' position s'',
    Run Step (new ⟨0, none⟩) [.insertSplit 1 .right none ⟨1, none⟩ ⟨2, none⟩,
      .insertSplitNextTo 2 .right 1 ⟨1, none⟩ ⟨2, none⟩] s ∧
    s.releaseSplit 2 = some (s', position) ∧
    s'.insertSplitAt 2 position ⟨3, none⟩ ⟨4, none⟩ = some s'' ∧
    (s''.baseNode.leafSplits = s.baseNode.leafSplits ↔ ¬ ReturnsToEnd s.baseNode 2) := by
  have hsplits : ([.insertSplit 1 .right none ⟨1, none⟩ ⟨2, none⟩,
      .insertSplitNextTo 2 .right 1 ⟨1, none⟩ ⟨2, none⟩].foldlM check (new ⟨0, none⟩)).map
        (fun s => (s.splits, s.releaseSplit 2 |>.map fun r => r.1.baseNode.addrs))
      = some ([1, 2], some [0]) := by decide
  obtain ⟨s, hs, hsplits⟩ := Option.map_eq_some_iff.mp hsplits
  have hrun := Run.of_foldlM step_of_check hs
  have hmem : 2 ∈ s.splits := by rw [(Prod.mk.inj hsplits).1]; decide
  obtain ⟨s', position, hrel, hback⟩ := cancel_drag_iff hrun hmem
  have haddrs : s'.baseNode.addrs = [0] := by
    have := (Prod.mk.inj hsplits).2
    rw [hrel] at this
    exact Option.some.inj this
  obtain ⟨s'', hins, hiff⟩ := hback ⟨3, none⟩ ⟨4, none⟩
    ⟨by rw [haddrs]; decide, by rw [haddrs]; decide, by decide⟩
  exact ⟨s, s', position, s'', hrun, hrel, hins, hiff⟩

/--
A container of columns in one of rows in one of columns. When the row above the inner columns is
released, these are columns in columns, and the outer first column returns to the end.
-/
theorem cancel_drag_reorders : ∃ s s' position s'',
    Run Step (new ⟨0, none⟩) [.insertSplit 1 .right none ⟨1, none⟩ ⟨2, none⟩,
      .insertSplitNextTo 3 .right 1 ⟨3, none⟩ ⟨4, none⟩,
      .insertSplitNextTo 2 .above 3 ⟨5, none⟩ ⟨6, none⟩,
      .insertSplitNextTo 4 .right 3 ⟨7, none⟩ ⟨8, none⟩, .releaseSplit 2] s ∧
    s.releaseSplit 1 = some (s', position) ∧
    s'.insertSplitAt 1 position ⟨9, none⟩ ⟨10, none⟩ = some s'' ∧
    s.baseNode.leafSplits = [1, 3, 4] ∧ s''.baseNode.leafSplits = [3, 4, 1] := by
  have hsplits : ([.insertSplit 1 .right none ⟨1, none⟩ ⟨2, none⟩,
      .insertSplitNextTo 3 .right 1 ⟨3, none⟩ ⟨4, none⟩,
      .insertSplitNextTo 2 .above 3 ⟨5, none⟩ ⟨6, none⟩,
      .insertSplitNextTo 4 .right 3 ⟨7, none⟩ ⟨8, none⟩, .releaseSplit 2].foldlM check
        (new ⟨0, none⟩)).map (fun s => (s.baseNode.leafSplits, (s.releaseSplit 1).bind fun r =>
          (r.1.insertSplitAt 1 r.2 ⟨9, none⟩ ⟨10, none⟩).map fun s'' => s''.baseNode.leafSplits))
      = some ([1, 3, 4], some [3, 4, 1]) := by decide
  obtain ⟨s, hs, hsplits⟩ := Option.map_eq_some_iff.mp hsplits
  obtain ⟨hold, hnew⟩ := Prod.mk.inj hsplits
  obtain ⟨⟨s', position⟩, hrel, hins⟩ := Option.bind_eq_some_iff.mp hnew
  obtain ⟨s'', hins, horder⟩ := Option.map_eq_some_iff.mp hins
  exact ⟨s, s', position, s'', Run.of_foldlM step_of_check hs, hrel, hins, hold, horder⟩

end SplitContainer

end Dankerino
