import Dankerino.Widgets.SplitTree

/-!
# A split container stays well-formed

`WellFormed` says what a split container keeps in every run: the tree is in order, and the splits
of its leaves are those of `splits_`. In a well-formed container every operation that a caller may
ask for is defined, so no assertion fails.
-/

namespace Dankerino

open Infra Infra.RoseTree

/-! ## The splits of the new trees -/

/-- A split put on a side of others. -/
def putSplit (direction : Direction) (split : Split) (others : List Split) : List Split :=
  if direction = .right ∨ direction = .below then others ++ [split] else split :: others

theorem putSplit_perm (direction : Direction) (split : Split) (others : List Split) :
    (putSplit direction split others).Perm (split :: others) := by
  rw [putSplit]
  split
  · exact List.perm_append_singleton split others
  · exact .refl _

namespace Node

theorem forestSplits_beside (direction : Direction) (n : Node) (b : Block) (split : Split)
    (p : Option Addr) :
    forestSplits (beside direction n (new b split p)) = putSplit direction split n.leafSplits := by
  rw [beside, putSplit]
  split <;> simp

theorem leafSplits_clone (n : Node) (c : Block) : (clone n c).leafSplits = n.leafSplits := by
  cases n with
  | node d cs =>
    rw [clone, leafSplits_node, leafSplits_node]
    exact congrArg _ (forestSplits_setParent c.addr cs)

theorem leafSplits_nested (n : Node) (split : Split) (direction : Direction) (c b : Block) :
    (nested n split direction c b).leafSplits = putSplit direction split n.leafSplits := by
  rw [nested, leafSplits_of_split_none _ rfl, forestSplits_beside, leafSplits_clone]

theorem around_perm {ctx : Ctx NodeData} {xs ys : List Split} {split : Split}
    (h : xs.Perm (split :: ys)) : (around ctx xs).Perm (split :: around ctx ys) := by
  rw [around, around]
  refine ((h.append_right _).append_left _).trans ?_
  rw [List.cons_append]
  exact List.perm_middle

/-- A node of type `_Split` has its split and no other. -/
theorem leafSplits_of_type_split {q : Option Addr} {n : Node} {x : Split} (h : EachLinked q n)
    (ht : n.label.type = .split) (hx : n.label.split = some x) : n.leafSplits = [x] := by
  cases n with
  | node d cs =>
    obtain ⟨hd, -⟩ := (each_node ..).mp h
    obtain rfl : cs = [] := List.length_eq_zero_iff.mp (hd.split ht)
    rw [leafSplits_node, leafSplit]
    rw [label_node] at ht hx
    rw [if_pos ht, hx]
    rfl

/-! ## Inserting and releasing -/

/--
The splits of a node and a new one that is inserted relative to it. A container that is not itself
in a container of the direction's orientation, but has this orientation, gets the split as its last
child, on whichever side it was to be.
-/
def placed (ctx : Ctx NodeData) (n : Node) (split : Split) (direction : Direction) : List Split :=
  if holderType ctx ≠ some (toContainerType direction) ∧
      toContainerType direction = n.label.type then n.leafSplits ++ [split]
  else putSplit direction split n.leafSplits

theorem placed_perm (ctx : Ctx NodeData) (n : Node) (split : Split) (direction : Direction) :
    (placed ctx n split direction).Perm (split :: n.leafSplits) := by
  rw [placed]
  split
  · exact List.perm_append_singleton split _
  · exact putSplit_perm direction split _

/-- What inserting relative to a node makes of the tree around it. -/
inductive Inserted (split : Split) (direction : Direction) (c b : Block) :
    Ctx NodeData → Node → Node → Prop
  | beside (f : Frame NodeData) (ctx : Ctx NodeData) (n : Node)
      (hf : f.label.type = toContainerType direction) :
    Inserted split direction c b (f :: ctx) n (plug ctx (.node f.label
      (f.left ++ (beside direction n (new b split (some f.label.addr)) ++ f.right))))
  | append (ctx : Ctx NodeData) (n : Node)
      (hctx : holderType ctx ≠ some (toContainerType direction))
      (ht : toContainerType direction = n.label.type) :
    Inserted split direction c b ctx n
      (plug ctx (.node n.label (n.children ++ [new b split (some n.label.addr)])))
  | nest (ctx : Ctx NodeData) (n : Node)
      (hctx : holderType ctx ≠ some (toContainerType direction))
      (ht : toContainerType direction ≠ n.label.type) :
    Inserted split direction c b ctx n (plug ctx (nested n split direction c b))

/-- **Inserting next to a node** that is no empty root is defined. -/
theorem insertSplitRelative_inserted {ctx : Ctx NodeData} {n : Node} (split : Split)
    (direction : Direction) {c b : Block} (h : Linked (plug ctx n))
    (he : n.label.type ≠ .emptyRoot) (hfree : SplitContainer.Free (plug ctx n) c b) :
    ∃ root, insertSplitRelative (plug ctx n) n.label.addr split direction c b = some root ∧
      Inserted split direction c b ctx n root := by
  by_cases hctx : holderType ctx = some (toContainerType direction)
  · cases ctx with
    | nil => cases hctx
    | cons f ctx =>
      -- one more child of the container around
      have hf : f.label.type = toContainerType direction := Option.some.inj hctx
      exact ⟨_, insertSplitRelative_beside split c b h hf, .beside f ctx n hf⟩
  · rw [insertSplitRelative_nest split c b h hctx he]
    by_cases ht : toContainerType direction = n.label.type
    · -- a container of the direction's orientation gets one more child at the end
      exact ⟨_, nestSplitIntoCollection_append split c b h.nodup ht, .append ctx n hctx ht⟩
    · exact ⟨_, nestSplitIntoCollection_nest split c b h.nodup hfree.clone ht, .nest ctx n hctx ht⟩

section Inserted

variable {ctx : Ctx NodeData} {n root : Node} {split : Split} {direction : Direction} {c b : Block}

theorem Inserted.linked (hi : Inserted split direction c b ctx n root) (h : Linked (plug ctx n))
    (he : n.label.type ≠ .emptyRoot) (hfree : SplitContainer.Free (plug ctx n) c b) :
    Linked root := by
  cases hi with
  | beside f ctx n hf =>
    have h' : Linked (plug ctx (.node f.label (f.left ++ n :: f.right))) := h
    obtain ⟨l, r, hold, hnew⟩ := beside_eq direction n (new b split (some f.label.addr))
      f.left f.right
    rw [hnew]
    rw [← hold] at h'
    refine h'.insertChild (hf ▸ (toContainerType_ne direction).2) ?_
    rw [hold]
    exact hfree.node
  | append _ _ _ ht =>
    have h' : Linked (plug ctx (.node n.label (n.children ++ []))) := by
      rw [List.append_nil, RoseTree.eta]
      exact h
    refine h'.insertChild (ht ▸ (toContainerType_ne direction).2) ?_
    rw [List.append_nil, RoseTree.eta]
    exact hfree.node
  | nest => exact h.nest split direction he hfree.clone hfree.node hfree.ne

theorem Inserted.treeOk (hi : Inserted split direction c b ctx n root) (h : TreeOk (plug ctx n))
    (he : n.label.type ≠ .emptyRoot) (hfree : SplitContainer.Free (plug ctx n) c b) :
    TreeOk root := by
  cases hi with
  | beside f ctx n hf =>
    have h' : TreeOk (plug ctx (.node f.label (f.left ++ n :: f.right))) := h
    obtain ⟨l, r, hold, hnew⟩ := beside_eq direction n (new b split (some f.label.addr))
      f.left f.right
    rw [hnew]
    rw [← hold] at h'
    refine h'.insertChild (by rw [hold]; simp) ?_
    rw [hold]
    exact hfree.node
  | append _ _ _ ht =>
    have h' : TreeOk (plug ctx (.node n.label (n.children ++ []))) := by
      rw [List.append_nil, RoseTree.eta]
      exact h
    refine h'.insertChild ?_ ?_
    · rw [List.append_nil]
      intro hnil
      have hn := h.hole
      cases n with
      | node d cs =>
        have hlen := (((each_node ..).mp hn).1.container (ht ▸ toContainerType_or direction)).1
        rw [show cs = [] from hnil] at hlen
        exact absurd hlen (by decide)
    · rw [List.append_nil, RoseTree.eta]
      exact hfree.node
  | nest => exact h.nest split direction he hfree.clone hfree.node hfree.ne

/-- The splits are the old ones with the new one in its place. -/
theorem Inserted.leafSplits_eq (hi : Inserted split direction c b ctx n root) :
    root.leafSplits = around ctx (placed ctx n split direction) := by
  cases hi with
  | beside f ctx n hf =>
    rw [leafSplits_plug, leafSplits_node, forestSplits_append, forestSplits_append,
      forestSplits_beside, placed, if_neg (fun hne => hne.1 (congrArg some hf)), around_cons]
  | append _ _ hctx ht =>
    rw [leafSplits_plug, leafSplits_node, forestSplits_append, forestSplits_cons,
      leafSplits_new, forestSplits_nil, List.append_nil, ← List.append_assoc,
      ← leafSplits_node, RoseTree.eta, placed, if_pos ⟨hctx, ht⟩]
  | nest _ _ _ ht =>
    rw [leafSplits_plug, leafSplits_nested, placed, if_neg (fun hne => ht hne.2)]

end Inserted

/--
**Inserting next to a node of a well-formed tree.** It is defined, the new tree is well-formed, and
its splits are the old ones with the new one in its place.
-/
theorem insertSplitRelative_ok {ctx : Ctx NodeData} {n : Node} (split : Split)
    (direction : Direction) {c b : Block} (h : TreeOk (plug ctx n))
    (he : n.label.type ≠ .emptyRoot) (hfree : SplitContainer.Free (plug ctx n) c b) :
    ∃ root, insertSplitRelative (plug ctx n) n.label.addr split direction c b = some root ∧
      TreeOk root ∧ root.leafSplits = around ctx (placed ctx n split direction) := by
  obtain ⟨root, hroot, hi⟩ := insertSplitRelative_inserted split direction h.linked he hfree
  exact ⟨root, hroot, hi.treeOk h he hfree, hi.leafSplits_eq⟩

/-- Inserting next to an empty root is setting its split. -/
theorem insertSplitRelative_emptyRoot_ok {n : Node} (split : Split) (direction : Direction)
    (c b : Block) (h : TreeOk n) (he : n.label.type = .emptyRoot) :
    ∃ root, insertSplitRelative n n.label.addr split direction c b = some root ∧ TreeOk root ∧
      root.leafSplits = [split] ∧ n.leafSplits = [] := by
  obtain ⟨hset, hok⟩ := setSplit_emptyRoot h he split
  refine ⟨_, (insertSplitRelative_emptyRoot split c b h.linked he).trans hset, hok, rfl, ?_⟩
  have hn := h.each
  cases n with
  | node d cs =>
    obtain ⟨-, hlen, hs⟩ := ((each_node ..).mp hn).1.emptyRoot he
    obtain rfl : cs = [] := List.length_eq_zero_iff.mp hlen
    exact leafSplits_of_split_none [] hs

/-- Only a root is an empty root. -/
theorem ctx_eq_nil {ctx : Ctx NodeData} {n : Node} (h : TreeOk (plug ctx n))
    (he : n.label.type = .emptyRoot) : ctx = [] := by
  have hn := h.hole
  cases ctx with
  | nil => rfl
  | cons f ctx =>
    cases n with
    | node d cs => exact absurd (((each_node ..).mp hn).1.emptyRoot he).1 nofun

theorem insertSplitRelative_perm {ctx : Ctx NodeData} {n : Node} (split : Split)
    (direction : Direction) {c b : Block} (h : TreeOk (plug ctx n))
    (hfree : SplitContainer.Free (plug ctx n) c b) :
    ∃ root, insertSplitRelative (plug ctx n) n.label.addr split direction c b = some root ∧
      TreeOk root ∧ root.leafSplits.Perm (split :: leafSplits (plug ctx n)) := by
  by_cases he : n.label.type = .emptyRoot
  · obtain rfl := ctx_eq_nil h he
    obtain ⟨root, hroot, hok, hnew, hold⟩ := insertSplitRelative_emptyRoot_ok split direction c b h he
    exact ⟨root, hroot, hok, by rw [hnew, hold]⟩
  · obtain ⟨root, hroot, hok, hnew⟩ := insertSplitRelative_ok split direction h he hfree
    refine ⟨root, hroot, hok, ?_⟩
    rw [hnew, leafSplits_plug]
    exact around_perm (placed_perm ctx n split direction)

end Node

open Node

theorem forestSplits_remove (left right : List Node) {n : Node} {x : Split}
    (hn : n.leafSplits = [x]) :
    (forestSplits (left ++ n :: right)).Perm (x :: forestSplits (left ++ right)) := by
  rw [forestSplits_append, forestSplits_append, forestSplits_cons, hn]
  exact List.perm_middle

theorem Released.leaves_perm {ctx : Ctx NodeData} {n root : Node} {position : Position} {x : Split}
    (hr : Released ctx n root position) (h : Linked (plug ctx n)) (ht : n.label.type = .split)
    (hx : n.label.split = some x) : (leafSplits (plug ctx n)).Perm (x :: root.leafSplits) := by
  have hn : n.leafSplits = [x] := leafSplits_of_type_split h.hole ht hx
  -- what the parent holds loses the split, be it the children or what takes their place
  have hcontainer : ∀ {ctx d cs}, Linked (plug ctx (.node d cs)) → cs ≠ [] →
      Node.leafSplits (.node d cs) = forestSplits cs := fun h' hcs => by
    have hd := ((each_node ..).mp h'.hole).1
    rw [leafSplits_node, leafSplit, if_neg fun he => hcs (List.length_eq_zero_iff.mp (hd.split he))]
    rfl
  cases hr with
  | root =>
    have hok := h.each
    cases n with
    | node d cs =>
      obtain rfl : cs = [] :=
        List.length_eq_zero_iff.mp (((each_node ..).mp hok).1.split ht)
      rw [plug_nil, hn, leafSplits_of_split_none _ rfl]
      exact .refl _
  | first ctx d n sibling =>
    rw [plug_cons]
    rw [leafSplits_plug, leafSplits_plug]
    refine around_perm ?_
    rw [hcontainer h (by simp), leafSplits_collapsed]
    simpa using forestSplits_remove [] [sibling] hn
  | second ctx d n sibling =>
    rw [plug_cons]
    rw [leafSplits_plug, leafSplits_plug]
    refine around_perm ?_
    rw [hcontainer h (by simp), leafSplits_collapsed]
    simpa using forestSplits_remove [sibling] [] hn
  | last ctx d n back left hne =>
    have h' := (Released.last ctx d n back left hne).linked h
    rw [plug_cons]
    rw [leafSplits_plug, leafSplits_plug]
    refine around_perm ?_
    rw [hcontainer h (by simp), hcontainer h' (by simp)]
    simpa using forestSplits_remove (left ++ [back]) [] hn
  | middle ctx d n next left right hne =>
    have h' := (Released.middle ctx d n next left right hne).linked h
    rw [plug_cons]
    rw [leafSplits_plug, leafSplits_plug]
    refine around_perm ?_
    rw [hcontainer h (by simp), hcontainer h' (by simp)]
    exact forestSplits_remove left (next :: right) hn

/-! ## Focus -/

theorem focusTarget_cases (target : Option Addr) (ns : List Node) :
    focusTarget target ns = none ∨ ∃ n ∈ ns, focusTarget target ns = some (focusSplitRecursive n) := by
  induction ns with
  | nil => exact .inl rfl
  | cons n ns ih =>
    rw [focusTarget]
    by_cases ht : target = some n.label.addr
    · rw [if_pos ht]
      exact .inr ⟨n, List.mem_cons_self .., rfl⟩
    · rw [if_neg ht]
      rcases ih with h | ⟨m, hm, h⟩
      · exact .inl h
      · exact .inr ⟨m, List.mem_cons_of_mem _ hm, h⟩

/-- The way down to the split that gets the focus never gets stuck. -/
theorem focusSplitRecursive_isSome {q : Option Addr} {n : Node} (h : EachOk q n) :
    (focusSplitRecursive n).isSome := by
  induction n using RoseTree.induct generalizing q with
  | node d cs ih =>
    obtain ⟨hd, hcs⟩ := (each_node ..).mp h
    cases ht : d.type with
    | emptyRoot => simp [focusSplitRecursive, ht]
    | split => simp [focusSplitRecursive, ht, (hd.split ht).2]
    | verticalContainer | horizontalContainer =>
      have hlen := (hd.container (by simp [ht])).1
      simp only [focusSplitRecursive, ht]
      rcases focusTarget_cases d.preferedFocusTarget cs with hf | ⟨m, hm, hf⟩
      · -- no child is remembered, so it is the first
        rw [hf, Option.getD_none]
        cases cs with
        | nil => exact absurd hlen (by decide)
        | cons c cs => exact ih c (List.mem_cons_self ..) (hcs c (List.mem_cons_self ..))
      · rw [hf, Option.getD_some]
        exact ih m hm (hcs m hm)

/-- Trees that differ in nothing but which children are remembered. -/
structure SameTree (root root' : Node) : Prop where
  ok : TreeOk root'
  addrs : root'.addrs = root.addrs
  leafSplits : root'.leafSplits = root.leafSplits

/-- The same of trees that need not be well-formed: what does not depend on it holds
of the nodes of the one when it holds of the nodes of the other. -/
structure SameButFocus (root root' : Node) : Prop where
  each : ∀ P : Option Addr → NodeData → Nat → Prop,
    (∀ par d k target, P par d k → P par { d with preferedFocusTarget := target } k) →
    Each NodeData.addr P none root → Each NodeData.addr P none root'
  addrs : root'.addrs = root.addrs
  leafSplits : root'.leafSplits = root.leafSplits

theorem SameButFocus.refl (root : Node) : SameButFocus root root := ⟨fun _ _ h => h, rfl, rfl⟩

theorem SameButFocus.trans {root root' root'' : Node} (h : SameButFocus root root')
    (h' : SameButFocus root' root'') : SameButFocus root root'' where
  each P hP he := h'.each P hP (h.each P hP he)
  addrs := h'.addrs.trans h.addrs
  leafSplits := h'.leafSplits.trans h.leafSplits

theorem SameButFocus.linked {root root' : Node} (h : SameButFocus root root') (hroot : Linked root) :
    Linked root' where
  each := h.each _ (fun _ _ _ _ hd => ⟨hd.parent, hd.emptyRoot, hd.split⟩) hroot.each
  nodup := h.addrs ▸ hroot.nodup

theorem SameButFocus.sameTree {root root' : Node} (h : SameButFocus root root')
    (hroot : TreeOk root) : SameTree root root' where
  ok := ⟨h.each _ (fun _ _ _ _ hd => ⟨hd.parent, hd.emptyRoot, hd.split, hd.container⟩) hroot.each,
    h.addrs ▸ hroot.nodup⟩
  addrs := h.addrs
  leafSplits := h.leafSplits

/-- Remembering a child keeps the tree. -/
theorem sameButFocus_focus (ctx : Ctx NodeData) (n : Node) (target : Option Addr) :
    SameButFocus (plug ctx n)
      (plug ctx (.node { n.label with preferedFocusTarget := target } n.children)) := by
  cases n with
  | node d cs =>
    refine ⟨fun P hP he => ?_, ?_, ?_⟩
    · obtain ⟨hctx, hn⟩ := (each_plug ..).mp he
      obtain ⟨hd, hcs⟩ := (each_node ..).mp hn
      exact (each_plug ..).mpr ⟨hctx, (each_node ..).mpr ⟨hP _ _ _ _ hd, hcs⟩⟩
    · rw [addrs, addrs, keys_plug, keys_plug]
      rfl
    · rw [leafSplits_plug, leafSplits_plug, leafSplits_node, leafSplits_node]
      rfl

/-- The way up to the root ends before the fuel does. -/
theorem setPreferedTargetRecursive_ok {ctx : Ctx NodeData} {n : Node} {fuel : Nat}
    (h : Linked (plug ctx n)) (hfuel : ctx.length < fuel) :
    ∃ root, setPreferedTargetRecursive fuel (plug ctx n) n.label.addr = some root ∧
      SameButFocus (plug ctx n) root := by
  induction ctx generalizing n fuel with
  | nil =>
    obtain ⟨fuel, rfl⟩ := Nat.exists_eq_add_one_of_ne_zero (Nat.ne_of_gt hfuel)
    refine ⟨n, ?_, .refl n⟩
    simp only [setPreferedTargetRecursive, get_plug _ _ h.nodup, h.parent, holder,
      Option.bind_eq_bind, Option.bind_some]
    rfl
  | cons f ctx ih =>
    obtain ⟨fuel, rfl⟩ := Nat.exists_eq_add_one_of_ne_zero (Nat.ne_of_gt (Nat.zero_lt_of_lt hfuel))
    have h' : Linked (plug ctx (.node f.label (f.left ++ n :: f.right))) := h
    have hsame := sameButFocus_focus ctx (.node f.label (f.left ++ n :: f.right)) (some n.label.addr)
    obtain ⟨root, hroot, hs⟩ := ih (hsame.linked h') (Nat.lt_of_succ_lt_succ hfuel)
    refine ⟨root, ?_, hsame.trans hs⟩
    have hget : get (plug (f :: ctx) n) f.label.addr
        = some (.node f.label (f.left ++ n :: f.right)) := get_plug ctx _ h.nodup
    simp only [setPreferedTargetRecursive, get_plug _ _ h.nodup, h.parent, holder, hget,
      Option.bind_eq_bind, Option.bind_some]
    refine Eq.trans ?_ hroot
    exact congrArg (fun t => setPreferedTargetRecursive fuel t f.label.addr)
      (update_plug ctx (.node f.label (f.left ++ n :: f.right)) _ h.nodup)

/-- Going on from a node in a direction never gets stuck either. -/
theorem selectSplitRecursive_isSome {ctx : Ctx NodeData} {n : Node} {fuel : Nat}
    (direction : Direction) (h : TreeOk (plug ctx n)) (hfuel : ctx.length < fuel) :
    (selectSplitRecursive fuel (plug ctx n) n.label.addr direction).isSome := by
  induction ctx generalizing n fuel with
  | nil =>
    obtain ⟨fuel, rfl⟩ := Nat.exists_eq_add_one_of_ne_zero (Nat.ne_of_gt hfuel)
    simp only [selectSplitRecursive, get_plug _ _ h.nodup, h.parent, holder,
      Option.bind_eq_bind, Option.bind_some]
    rfl
  | cons f ctx ih =>
    obtain ⟨fuel, rfl⟩ := Nat.exists_eq_add_one_of_ne_zero (Nat.ne_of_gt (Nat.zero_lt_of_lt hfuel))
    have h' : TreeOk (plug ctx (.node f.label (f.left ++ n :: f.right))) := h
    have hup : (selectSplitRecursive fuel (plug (f :: ctx) n) f.label.addr direction).isSome :=
      ih h' (Nat.lt_of_succ_lt_succ hfuel)
    have hget : get (plug (f :: ctx) n) f.label.addr
        = some (.node f.label (f.left ++ n :: f.right)) := get_plug ctx _ h.nodup
    have hfocus : ∀ m ∈ f.left ++ n :: f.right, (focusSplitRecursive m).isSome := fun m hm =>
      focusSplitRecursive_isSome (((each_node ..).mp h'.hole).2 m hm)
    have hat : ∀ i, i < (f.left ++ n :: f.right).length →
        ((f.left ++ n :: f.right)[i]?.bind focusSplitRecursive).isSome := fun i hi => by
      rw [List.getElem?_eq_getElem hi, Option.bind_some]
      exact hfocus _ (List.getElem_mem hi)
    have hlast := getLast?_sibling (nodup_children h.nodup)
    simp only [selectSplitRecursive, get_plug _ _ h.nodup, h.parent, holder, hget, children_node,
      findIdx?_sibling (nodup_children h.nodup), Option.bind_eq_bind, Option.bind_some]
    split
    · split
      · -- to the left or above: the sibling before, if there is one
        by_cases hi : f.left.length = 0
        · rw [if_pos hi]
          exact hup
        · rw [if_neg hi]
          refine hat _ ?_
          rw [List.length_append]
          omega
      · -- to the right or below: the sibling after, if there is one
        by_cases hr : f.right = []
        · exact (congrArg Option.isSome (if_pos (hlast.mpr hr))).trans hup
        · refine (congrArg Option.isSome (if_neg fun he => hr (hlast.mp he))).trans (hat _ ?_)
          have := List.length_pos_of_ne_nil hr
          rw [List.length_append, List.length_cons]
          omega
    · exact hup

/-! ## The container -/

namespace SplitContainer

/-- The tree is in order, and its leaves hold the splits of `splits_`, each in one leaf. -/
structure WellFormed (s : SplitContainer) : Prop where
  tree : TreeOk s.baseNode
  leaves : s.baseNode.leafSplits.Perm s.splits
  nodup : s.splits.Nodup

theorem new_wellFormed (b : Block) : WellFormed (new b) where
  tree := ⟨(each_node ..).mpr ⟨⟨rfl, fun _ => ⟨rfl, rfl, rfl⟩, nofun, by rintro (h | h) <;> cases h⟩,
    by simp⟩, List.nodup_singleton _⟩
  leaves := .refl _
  nodup := .nil

variable {s s' : SplitContainer}

/-- A tree with the splits of the old one and a new split. -/
theorem WellFormed.addSplit {split : Split} (h : WellFormed s) (hnew : split ∉ s.splits)
    {root : Node} (hroot : TreeOk root)
    (hperm : root.leafSplits.Perm (split :: s.baseNode.leafSplits)) :
    WellFormed (SplitContainer.addSplit { s with baseNode := root } split) where
  tree := hroot
  leaves := (hperm.trans (h.leaves.cons split)).trans (List.perm_append_singleton split _).symm
  nodup := by
    refine (List.perm_append_singleton split s.splits).nodup_iff.mpr ?_
    exact List.nodup_cons.mpr ⟨hnew, h.nodup⟩

/-- Inserting relative to nothing is inserting relative to the root. -/
theorem insertSplit_none (h : Linked s.baseNode) (split : Split) (direction : Direction)
    (c b : Block) :
    s.insertSplit split direction none c b =
      s.insertSplit split direction (some s.baseNode.label.addr) c b := by
  have hroot : Linked (plug [] s.baseNode) := h
  have hin : s.baseNode.isOrContainsNode s.baseNode.label.addr = true :=
    (isOrContainsNode_iff ..).mpr ⟨[], _, rfl, rfl⟩
  simp only [insertSplit, hin, if_true]
  cases ht : s.baseNode.label.type with
  | emptyRoot => rw [insertSplitRelative_emptyRoot split c b h ht]
  | split =>
    have hctx : holderType [] ≠ some (toContainerType direction) := nofun
    have hnest := insertSplitRelative_nest split c b hroot hctx (by rw [ht]; exact nofun)
    exact congrArg (fun t => Option.bind t _) hnest.symm
  | verticalContainer | horizontalContainer => rfl

theorem insertSplit_some {a : Addr} (ha : s.baseNode.isOrContainsNode a = true) (split : Split)
    (direction : Direction) (c b : Block) :
    s.insertSplit split direction (some a) c b =
      (s.baseNode.insertSplitRelative a split direction c b).map fun root =>
        SplitContainer.addSplit { s with baseNode := root } split := by
  simp only [insertSplit, ha, if_true]
  cases s.baseNode.insertSplitRelative a split direction c b <;> rfl

theorem insertSplit_ok {split : Split} (direction : Direction) {relativeTo : Option Addr}
    {c b : Block} (h : WellFormed s) (hnew : split ∉ s.splits)
    (hrel : ∀ a, relativeTo = some a → s.baseNode.isOrContainsNode a = true)
    (hfree : Free s.baseNode c b) :
    ∃ s', s.insertSplit split direction relativeTo c b = some s' ∧ WellFormed s' := by
  have hsome : ∀ a, s.baseNode.isOrContainsNode a = true →
      ∃ s', s.insertSplit split direction (some a) c b = some s' ∧ WellFormed s' := by
    intro a ha
    obtain ⟨ctx, n, hplug, rfl⟩ := (isOrContainsNode_iff ..).mp ha
    have htree : TreeOk (plug ctx n) := hplug ▸ h.tree
    obtain ⟨root, hroot, hok, hperm⟩ :=
      insertSplitRelative_perm split direction htree (hplug ▸ hfree)
    rw [← hplug] at hroot hperm
    exact ⟨_, by rw [insertSplit_some ha, hroot]; rfl, h.addSplit hnew hok hperm⟩
  cases relativeTo with
  | some a => exact hsome a (hrel a rfl)
  | none =>
    rw [insertSplit_none h.tree.linked]
    exact hsome _ ((isOrContainsNode_iff ..).mpr ⟨[], _, rfl, rfl⟩)

/-- A split of `splits_` is found in the tree. -/
theorem WellFormed.find {split : Split} (h : WellFormed s) (hs : split ∈ s.splits) :
    ∃ ctx n, s.baseNode.findNodeContainingSplit (some split) = some n ∧ s.baseNode = plug ctx n ∧
      n.label.type = .split ∧ n.label.split = some split :=
  findNodeContainingSplit_of_mem (h.leaves.mem_iff.mpr hs)

theorem insertSplitNextTo_ok {split relativeTo : Split} (direction : Direction) {c b : Block}
    (h : WellFormed s) (hnew : split ∉ s.splits) (hrel : relativeTo ∈ s.splits)
    (hfree : Free s.baseNode c b) :
    ∃ s', s.insertSplitNextTo split direction relativeTo c b = some s' ∧ WellFormed s' := by
  obtain ⟨ctx, n, hfind, hplug, -, -⟩ := h.find hrel
  have hin : s.baseNode.isOrContainsNode n.label.addr = true :=
    (isOrContainsNode_iff ..).mpr ⟨ctx, n, hplug, rfl⟩
  simp only [insertSplitNextTo, hfind, Option.bind_eq_bind, Option.bind_some]
  refine insertSplit_ok direction h hnew ?_ hfree
  rintro a ⟨⟩
  exact hin

theorem setSelected_ok (split : Option Split) (h : WellFormed s) :
    ∃ s', s.setSelected split = some s' ∧ WellFormed s' := by
  rw [setSelected]
  by_cases hs : split ∈ s.splits.map some
  · rw [if_pos hs]
    cases hfind : s.baseNode.findNodeContainingSplit split with
    | none => exact ⟨_, rfl, h.tree, h.leaves, h.nodup⟩
    | some n =>
      obtain ⟨-, -, ctx, hplug⟩ := findNodeContainingSplit_eq_some hfind
      have htree : TreeOk (plug ctx n) := hplug ▸ h.tree
      obtain ⟨f, hf⟩ := Option.isSome_iff_exists.mp (focusSplitRecursive_isSome htree.hole)
      obtain ⟨root, hroot, hsame⟩ :=
        setPreferedTargetRecursive_ok htree.linked (length_ctx_lt ctx n)
      replace hsame := hsame.sameTree htree
      rw [← hplug] at hroot hsame
      simp only [hf, hroot, Option.bind_eq_bind, Option.bind_some]
      exact ⟨_, rfl, hsame.ok, hsame.leafSplits ▸ h.leaves, h.nodup⟩
  · rw [if_neg hs]
    exact ⟨s, rfl, h⟩

theorem releaseSplit_ok {split : Split} (h : WellFormed s) (hs : split ∈ s.splits) :
    ∃ s' position, s.releaseSplit split = some (s', position) ∧ WellFormed s' := by
  obtain ⟨ctx, n, hfind, hplug, ht, hx⟩ := h.find hs
  have htree : TreeOk (plug ctx n) := hplug ▸ h.tree
  obtain ⟨root, position, hrel, hr⟩ := releaseSplit_released htree ht
  have hperm := hr.leaves_perm htree.linked ht hx
  rw [← hplug] at hrel hperm
  have hleaves : root.leafSplits.Perm (s.splits.erase split) := by
    have := (hperm.symm.trans h.leaves).erase split
    rwa [List.erase_cons_head] at this
  have hok : WellFormed { s with baseNode := root, splits := s.splits.erase split } :=
    ⟨hr.treeOk htree ht, hleaves, h.nodup.erase split⟩
  simp only [releaseSplit, hfind, hrel, hs, not_true_eq_false, if_false, Option.bind_eq_bind,
    Option.bind_some]
  split
  · obtain ⟨s', hs', hok'⟩ := setSelected_ok none hok
    exact ⟨s', position, by rw [hs']; rfl, hok'⟩
  · exact ⟨_, position, rfl, hok⟩

/-- **Every operation that a caller may ask for is defined, and keeps the container in order.** -/
theorem apply_ok (op : Op) (h : WellFormed s) (hop : Allowed s op) :
    ∃ s', apply s op = some s' ∧ WellFormed s' := by
  cases op with
  | insertSplit split direction relativeTo c b =>
    refine insertSplit_ok direction h hop.1 (fun a ha => ?_) hop.2.2
    exact lookup_isSome NodeData.addr _ (hop.2.1 a ha)
  | insertSplitNextTo split direction relativeTo c b =>
    exact insertSplitNextTo_ok direction h hop.1 hop.2.1 hop.2.2
  | releaseSplit split =>
    obtain ⟨s', position, hs', hok⟩ := releaseSplit_ok h hop
    exact ⟨s', by rw [apply, hs']; rfl, hok⟩
  | deleteSplit split =>
    obtain ⟨s', position, hs', hok⟩ := releaseSplit_ok h hop
    exact ⟨s', by rw [apply, deleteSplit, hs']; rfl, hok⟩
  | setSelected split => exact setSelected_ok split h

theorem step_wellFormed (s : SplitContainer) (op : Op) (s' : SplitContainer) (h : WellFormed s)
    (hs : Step s op s') : WellFormed s' := by
  obtain ⟨s'', hs'', hok⟩ := apply_ok op h hs.1
  obtain rfl := Option.some.inj (hs''.symm.trans hs.2)
  exact hok

theorem run_wellFormed {b : Block} {ops : List Op} (h : Run Step (new b) ops s) : WellFormed s :=
  h.invariant step_wellFormed (new_wellFormed b)

theorem selectNextSplit_isSome (direction : Direction) (h : WellFormed s) :
    (s.selectNextSplit direction).isSome := by
  rw [selectNextSplit]
  cases hfind : s.baseNode.findNodeContainingSplit s.selected with
  | none => rfl
  | some n =>
    obtain ⟨-, -, ctx, hplug⟩ := findNodeContainingSplit_eq_some hfind
    have htree : TreeOk (plug ctx n) := hplug ▸ h.tree
    have hsel := selectSplitRecursive_isSome direction htree (length_ctx_lt ctx n)
    rwa [← hplug] at hsel

/-- The root is an empty root exactly when there are no splits. -/
theorem WellFormed.emptyRoot_iff (h : WellFormed s) :
    s.baseNode.label.type = .emptyRoot ↔ s.splits = [] := by
  have hleaves := h.leaves
  have htree := h.tree.each
  cases hb : s.baseNode with
  | node d cs =>
    rw [hb] at hleaves htree
    obtain ⟨hd, hcs⟩ := (each_node ..).mp htree
    constructor
    · intro he
      obtain ⟨-, hlen, hnone⟩ := hd.emptyRoot he
      obtain rfl : cs = [] := List.length_eq_zero_iff.mp hlen
      rw [leafSplits_of_split_none _ hnone] at hleaves
      exact List.nil_perm.mp hleaves
    · intro hnil
      rw [hnil] at hleaves
      have hl : leafSplits (.node d cs) = [] := List.perm_nil.mp hleaves
      by_contra hne
      -- a root that is something else has a split below it
      cases ht : d.type with
      | emptyRoot => exact hne ht
      | split =>
        obtain ⟨x, hx⟩ := Option.isSome_iff_exists.mp (hd.split ht).2
        rw [leafSplits_node, leafSplit, if_pos ht, hx] at hl
        cases hl
      | verticalContainer | horizontalContainer =>
        obtain ⟨hlen, hnone⟩ := hd.container (by simp [ht])
        rw [leafSplits_of_split_none cs hnone] at hl
        cases cs with
        | nil => exact absurd hlen (by decide)
        | cons c cs =>
          rw [forestSplits_cons] at hl
          exact leafSplits_ne_nil (hcs c (List.mem_cons_self ..)) (List.append_eq_nil_iff.mp hl).1

/-- What a container keeps, in the words of its tree and its list of splits. -/
structure Consistent (s : SplitContainer) : Prop where
  root : s.baseNode.label.type = .emptyRoot ↔ s.splits = []
  nodes : Each NodeData.addr NodeOk none s.baseNode
  oneLeaf : ∀ x ∈ s.splits, s.baseNode.leafSplits.count x = 1
  leaf : ∀ x ∈ s.baseNode.leafSplits, x ∈ s.splits
  /-- No assertion fails in an operation that a caller may ask for. -/
  defined : ∀ op, Allowed s op → ∃ s', apply s op = some s'
  select : ∀ direction, (s.selectNextSplit direction).isSome

/-- **A split container is consistent after every run.** -/
theorem run_consistent {b : Block} {ops : List Op} (h : Run Step (new b) ops s) :
    Consistent s := by
  have hs := run_wellFormed h
  refine ⟨hs.emptyRoot_iff, hs.tree.each, ?_, ?_, ?_, ?_⟩
  · intro x hx
    rw [hs.leaves.count_eq]
    exact List.count_eq_one_of_mem hs.nodup hx
  · exact fun x hx => hs.leaves.mem_iff.mp hx
  · intro op hop
    obtain ⟨s', hs', -⟩ := apply_ok op hs hop
    exact ⟨s', hs'⟩
  · exact fun direction => selectNextSplit_isSome direction hs

/-- Three splits, the last of them nested, and then the first of them deleted. -/
theorem run_consistent_nested : ∃ s, Run Step (new ⟨0, none⟩)
    [.insertSplit 1 .right none ⟨1, none⟩ ⟨2, none⟩,
      .insertSplitNextTo 2 .left 1 ⟨3, none⟩ ⟨4, some 0⟩,
      .insertSplitNextTo 3 .below 1 ⟨5, none⟩ ⟨6, none⟩, .setSelected (some 3), .deleteSplit 2] s ∧
    s.splits = [1, 3] ∧ Consistent s := by
  let ops : List Op := [.insertSplit 1 .right none ⟨1, none⟩ ⟨2, none⟩,
    .insertSplitNextTo 2 .left 1 ⟨3, none⟩ ⟨4, some 0⟩,
    .insertSplitNextTo 3 .below 1 ⟨5, none⟩ ⟨6, none⟩, .setSelected (some 3), .deleteSplit 2]
  have hsplits : (ops.foldlM check (new ⟨0, none⟩)).map splits = some [1, 3] := by decide
  obtain ⟨s, hs, hsplits⟩ := Option.map_eq_some_iff.mp hsplits
  have hrun := Run.of_foldlM step_of_check hs
  exact ⟨s, hrun, hsplits, run_consistent hrun⟩

end SplitContainer

end Dankerino
